import GoalWatch.Proofs.Session.Calm.Basic

/-!
# Events of a session without clients

A change of a proof is told to its runner, and to nobody else.

* `settled_deliver` -- an event is delivered to the runner of a proof whose tree changed;
* `settled_deliver_rule`, `settled_deliver_prune`, … -- each kind of event keeps the session settled;
* `close_cases`, `settled_close` -- a runner ends and the registry forgets it;
* `settled_applyRule`, `settled_prune`, … -- changes of a proof;
* `applyResult_cases` -- what applying a result comes to, with events held back meanwhile;
* `settled_applyResult` -- it keeps the session settled.
-/

namespace GoalWatch.Session

variable {s s' : Session} {p : ProofId} {r : RunnerId} {again : Again}

/-! ## 1. Events -/

/-- The only subscriber is a runner: an event is handed to it. -/
theorem deliver_one (again : Again) {id : SubscriptionId}
    (hsub : (s.proof p).subscribers = [⟨id, .runner r⟩]) (e : Event) :
    ∃ s1, Same s s1 ∧ deliver again p s e = handleEvent again s1 r e := by
  unfold deliver
  simp only [hsub]
  exact ⟨_, (same_record _).trans (same_record _), rfl⟩

theorem deliver_none (hsub : (s.proof p).subscribers = []) (e : Event) : Same s (deliver again p s e) := by
  unfold deliver
  simp only [hsub]
  exact same_record _

/-- The registry is told of an open runner and has nothing to do. -/
theorem notifyRunner_alive (ht : (s.runner r).listeners.targets = [.registry p])
    (he : s.registry.runnerFor? p = some r) (ha : (s.runner r).core.closed = false)
    (ho : s.registry.observers.targets = []) : notifyRunner again s r = s := by
  unfold notifyRunner
  rw [ht]
  have hret : s.retire p = s := by
    unfold retire
    simp [he, ha]
  show notifyObservers again (s.retire p) = s
  rw [hret]
  unfold notifyObservers
  rw [ho]
  rfl

theorem notifyObservers_none (ho : s.registry.observers.targets = []) : notifyObservers again s = s := by
  unfold notifyObservers
  rw [ho]
  rfl

/-- The open goals of a calm proof are those of its tree. -/
theorem Calm.openGoals (h : Calm s) : (s.proof p).openGoals = (s.proof p).tree.goals := by
  unfold Watched.openGoals
  rw [(h.plain p).1]
  rfl

section Deliver

variable {tree : Tree}

/-- What the runner of a changed proof sees when it is told: its own memory, and the open goals of the new
    tree. -/
theorem Calm.seen (h : Calm s) (he : s.registry.runnerFor? p = some r)
    (hs : Same (s.setTree p tree) s') :
    s'.runner r = s.runner r ∧ (s'.proof p).openGoals = tree.goals ∧ s'.registry = s.registry := by
  refine ⟨hs.runner r, ?_, hs.registry⟩
  rw [hs.proof, proof_setTree_self (h.tended p r he).proofIn]
  unfold Watched.openGoals
  simp only [(h.plain p).1]
  rfl

/-- **An event of a proof whose tree changed is delivered**: the session is settled again if the runner takes
    the event in such that it tends the new tree. -/
theorem settled_deliver (h : Settled s) {e : Event} (hs : Same (s.setTree p tree) s')
    (hstep : ∀ r, s.registry.runnerFor? p = some r → ∀ s1, Same (s.setTree p tree) s1 →
      ∃ core : Runner, Same (s1.setCore r core) (handleEvent again s1 r e) ∧ core.closed = false ∧
        core.Consistent ∧ core.Tends tree ∧ (s.registry.active = some p → core.Attends tree)) :
    Settled (deliver again p s' e) := by
  cases he : s.registry.runnerFor? p with
  | none =>
      have hset : Settled s' := (settled_setTree h he).same hs
      refine hset.same (deliver_none (hset.quiet p ?_) _)
      rw [hs.registry]
      exact he
  | some r =>
      have hT := h.tended p r he
      obtain ⟨id, hsub, _⟩ := hT.subscribed
      have hprf : s'.proof p = { s.proof p with tree } := by
        rw [hs.proof, proof_setTree_self hT.proofIn]
      obtain ⟨s1, hs1, hd⟩ := deliver_one again (by rw [hprf]; exact hsub) e
      obtain ⟨core, hcore, ha, hc, ht, hatt⟩ := hstep r he s1 (hs.trans hs1)
      rw [hd]
      exact (h.put he ha hc ht hatt).same (((hs.trans hs1).setCore core).trans hcore)

/-- A rule was applied, and the runner is told of its new goals. -/
theorem settled_deliver_rule (again : Again) (h : Settled s) {n : NodeId} {rule : String} {new : List Sequent}
    {goals : List Goal} (hr : (s.proof p).tree.applyRule n rule new = .ok (goals, tree))
    (hs : Same (s.setTree p tree) s') : Settled (deliver again p s' (.ruleApplied goals)) := by
  refine settled_deliver h hs fun r he s1 hs1 => ?_
  have hT := h.tended p r he
  obtain ⟨hrun, _, _⟩ := h.toCalm.seen he hs1
  refine ⟨((s.runner r).core.dispatchOpen .fresh goals).2, ?_, ?_,
    Runner.consistent_dispatchOpen hT.consistent .fresh goals, Runner.tends_rule hT.tends hT.consistent hr,
    fun hact => Runner.attends_rule (h.attends p r hact he) hr⟩
  · rw [← hrun]
    exact same_takeLaunch _
  · rw [Runner.dispatchOpen_closed]
    exact hT.alive

/-- A proof was pruned: the runner hands out what it has not handed out yet. -/
theorem settled_deliver_prune (h : Settled s) {n : NodeId} (hp : (s.proof p).tree.prune n = .ok tree)
    (hs : Same (s.setTree p tree) s') : Settled (deliver again p s' .treeStructureChanged) := by
  refine settled_deliver h hs fun r he s1 hs1 => ?_
  have hT := h.tended p r he
  obtain ⟨hrun, hopen, hreg⟩ := h.toCalm.seen he hs1
  have hn : notifyRunner again s1 r = s1 := notifyRunner_alive (by rw [hrun]; exact hT.targets)
    (by rw [hreg]; exact he) (by rw [hrun]; exact hT.alive) (by rw [hreg]; exact h.observers)
  refine ⟨((s.runner r).core.dispatchOpen .fresh tree.goals).2, ?_, ?_,
    Runner.consistent_dispatchOpen hT.consistent .fresh _,
    Runner.tends_fresh (Runner.knows_prune hT.tends.toKnows hp),
    fun _ => Runner.attends_fresh⟩
  · show Same _ (treeChanged again s1 r).2
    unfold treeChanged
    rw [if_neg (by rw [hrun, hT.alive]; exact Bool.false_ne_true), hn]
    have hd := same_dispatchOpen (s := s1) (r := r) .fresh
    rw [hrun, hT.watches, hopen] at hd
    exact hd
  · rw [Runner.dispatchOpen_closed]
    exact hT.alive

theorem settled_deliver_autoStarted (h : Settled s) : Settled (deliver again p s .autoModeStarted) := by
  refine settled_deliver h same_setTree_self.symm fun r he s1 hs1 => ?_
  have hT := h.tended p r he
  obtain ⟨hrun, _, _⟩ := h.toCalm.seen he hs1
  refine ⟨(s.runner r).core.suspend, ?_, ?_, Runner.consistent_act hT.consistent .suspend,
    Runner.tends_suspended (Runner.knows_suspend hT.tends.toKnows) Runner.suspend_accepting,
    fun _ ha => ?_⟩
  · rw [← hrun]
    exact .refl _
  · unfold Runner.suspend
    split <;> exact hT.alive
  · rw [Runner.suspend_accepting] at ha
    cases ha

/-- Automation ends: the runner catches up on what it has not handed out yet. -/
theorem settled_deliver_autoStopped (h : Settled s) : Settled (deliver again p s .autoModeStopped) := by
  refine settled_deliver h same_setTree_self.symm fun r he s1 hs1 => ?_
  have hT := h.tended p r he
  obtain ⟨hrun, hopen, _⟩ := h.toCalm.seen he hs1
  refine ⟨((s.runner r).core.unsuspend.dispatchOpen .fresh (s.proof p).tree.goals).2, ?_, ?_,
    Runner.consistent_dispatchOpen (Runner.consistent_act hT.consistent .unsuspend) .fresh _,
    Runner.tends_fresh (Runner.knows_unsuspend hT.tends.toKnows),
    fun _ => Runner.attends_fresh⟩
  · show Same _ ((s1.setCore r (s1.runner r).core.unsuspend).dispatchOpen r .fresh).2
    have hlen : r < s1.runners.length := by
      rw [hs1.runners]
      exact hT.runnerIn
    have hself : (s1.setCore r (s1.runner r).core.unsuspend).runner r =
        { s.runner r with core := (s.runner r).core.unsuspend } := by
      rw [Session.setCore, runner_modifyRunner_self _ hlen, hrun]
    have hd := same_dispatchOpen (s := s1.setCore r (s1.runner r).core.unsuspend) (r := r) .fresh
    rw [hself] at hd
    have hgoals : ((s1.setCore r (s1.runner r).core.unsuspend).proof (s.runner r).proof).openGoals =
        (s.proof p).tree.goals := by
      rw [hT.watches]
      exact hopen
    simp only [hgoals] at hd
    rw [setCore_setCore] at hd
    exact hd
  · rw [Runner.dispatchOpen_closed]
    unfold Runner.unsuspend
    split <;> exact hT.alive

end Deliver

/-! ## 2. The end of a runner -/

/-- Without the entries of one proof, all other proofs keep their runner. -/
theorem lookup_without (p q : ProofId) (entries : List (ProofId × RunnerId)) :
    (entries.filter fun e => e.1 != p).lookup q = if q = p then none else entries.lookup q := by
  induction entries with
  | nil => simp
  | cons e rest ih =>
      obtain ⟨k, r⟩ := e
      by_cases hk : k = p
      · rw [List.filter_cons_of_neg (by simpa using hk), ih, List.lookup_cons]
        by_cases hq : q = p
        · rw [if_pos hq, if_pos hq]
        · have hb : (q == k) = false := beq_eq_false_iff_ne.mpr fun e => hq (e.trans hk)
          rw [if_neg hq, if_neg hq, hb]
      · rw [List.filter_cons_of_pos (by simpa using hk), List.lookup_cons, List.lookup_cons, ih]
        by_cases hq : q = k
        · have hp : q ≠ p := fun e => hk (hq.symm.trans e)
          rw [if_neg hp, if_neg hp]
        · have hb : (q == k) = false := beq_eq_false_iff_ne.mpr hq
          rw [hb]

/-- The registry after the runner of a proof has ended. -/
def retired (g : Registry) (p : ProofId) : Registry :=
  { g with active := if g.active = some p then none else g.active
           entries := g.entries.filter fun e => e.1 != p }

theorem runnerFor?_retired (g : Registry) (p q : ProofId) :
    (retired g p).runnerFor? q = if q = p then none else g.runnerFor? q := lookup_without p q g.entries

/-- A runner that has ended but is still registered and subscribed. -/
def ended (s : Session) (r : RunnerId) : Session :=
  (s.giveUp r (s.runner r).core.close).modifyRunner r fun x => { x with subscription := none }

theorem same_ended : Same (s.modifyRunner r fun x =>
    { x with core := (s.runner r).core.close.2, subscription := none }) (s.ended r) := by
  have h : Same (s.setCore r (s.runner r).core.close.2) (s.giveUp r (s.runner r).core.close) :=
    same_giveUp _
  have h' := h.modifyRunner (r := r) fun x => { x with subscription := none }
  rw [Session.setCore, modifyRunner_modifyRunner] at h'
  exact h'

/-- The registry is told of a runner that has ended, and forgets it. -/
theorem notifyRunner_ended (h : Calm s) (he : s.registry.runnerFor? p = some r) :
    notifyRunner again (s.ended r) r = { s.ended r with registry := retired s.registry p } := by
  have hT := h.tended p r he
  have hself : (s.ended r).runner r =
      { s.runner r with core := (s.runner r).core.close.2, subscription := none } := by
    rw [same_ended.runner, runner_modifyRunner_self _ hT.runnerIn]
  have hclosed : ((s.ended r).runner r).core.closed = true := by
    rw [hself]
    simp [Runner.close, hT.alive]
  have hret : (s.ended r).retire p = { s.ended r with registry := retired s.registry p } := by
    unfold retire
    rw [show (s.ended r).registry = s.registry from rfl, he]
    simp only [hclosed, if_true]
    rfl
  unfold notifyRunner
  rw [hself, show (s.runner r).listeners.targets = [.registry p] from hT.targets]
  show notifyObservers again ((s.ended r).retire p) = _
  rw [hret]
  exact notifyObservers_none h.observers

/-- What the end of a registered runner does: the registry forgets it, its proof loses its only subscriber,
    and it is wired to nobody. -/
theorem close_cases (again : Again) (h : Calm s) (he : s.registry.runnerFor? p = some r) :
    (close again s r).registry = retired s.registry p ∧
      (close again s r).proofs.length = s.proofs.length ∧
      (close again s r).runners.length = s.runners.length ∧
      (∀ q, (close again s r).proof q = (s.modifyProof p fun w => { w with subscribers := [] }).proof q) ∧
      (∀ k ≠ r, (close again s r).runner k = s.runner k) ∧
      ((close again s r).runner r).listeners.targets = [] := by
  have hT := h.tended p r he
  obtain ⟨id, hsub, hid⟩ := hT.subscribed
  let rest : Session := { s.ended r with registry := retired s.registry p }
  have hend : close again s r =
      (rest.unsubscribe p id).modifyRunner r fun x => { x with listeners := x.listeners.clear } := by
    unfold close
    simp only [hT.alive, hid, hT.watches, Bool.false_eq_true, if_false]
    exact congrArg (fun t => (unsubscribe t p id).modifyRunner r _) (notifyRunner_ended h he)
  have hrlen : rest.runners.length = s.runners.length :=
    same_ended.runners.trans (length_modifyRunner _)
  rw [hend]
  refine ⟨rfl, length_modifyProof _, (length_modifyRunner _).trans hrlen, fun q => ?_, fun k hk => ?_, ?_⟩
  · by_cases hq : q = p
    · subst hq
      refine (proof_modifyProof_self (s := rest) _ hT.proofIn).trans ?_
      rw [proof_modifyProof_self _ hT.proofIn]
      show ({ s.proof q with subscribers := (s.proof q).subscribers.filter fun x => x.id != id } : Watched) = _
      simp [hsub]
    · rw [proof_modifyProof_of_ne _ hq]
      exact proof_modifyProof_of_ne (s := rest) _ hq
  · refine (runner_modifyRunner_of_ne _ hk).trans ?_
    exact (same_ended.runner k).trans (runner_modifyRunner_of_ne _ hk)
  · rw [runner_modifyRunner_self (s := rest.unsubscribe p id) _ (hrlen ▸ hT.runnerIn)]
    rfl

theorem settled_close (h : Settled s) (he : s.registry.runnerFor? p = some r) :
    Settled (close again s r) := by
  obtain ⟨hreg, hplen, hrlen, hprf, hrun, hself⟩ := close_cases again h.toCalm he
  have hT := h.tended p r he
  have hp : ((s.modifyProof p fun w => { w with subscribers := [] }).proof p) =
      { s.proof p with subscribers := [] } := proof_modifyProof_self _ hT.proofIn
  have hq : ∀ q ≠ p, (s.modifyProof p fun w => { w with subscribers := [] }).proof q = s.proof q :=
    fun q hne => proof_modifyProof_of_ne _ hne
  -- a proof that still has a runner is another one, and so is its runner
  have hkeep : ∀ q k, (retired s.registry p).runnerFor? q = some k →
      q ≠ p ∧ k ≠ r ∧ s.registry.runnerFor? q = some k := by
    intro q k hk
    rw [runnerFor?_retired] at hk
    split at hk
    · cases hk
    · rename_i hne
      exact ⟨hne, fun e => hne (h.proof_unique he (e ▸ hk)), hk⟩
  refine ⟨⟨?_, fun q => ?_, fun q hn => ?_, fun k hk => ?_, fun e hm => ?_, fun q k hk => ?_⟩,
    fun q k hact hk => ?_⟩
  · rw [hreg]
    exact h.observers
  · rw [hprf]
    by_cases hne : q = p
    · subst hne
      rw [hp]
      exact h.plain q
    · rw [hq q hne]
      exact h.plain q
  · rw [hprf]
    rw [hreg, runnerFor?_retired] at hn
    by_cases hne : q = p
    · subst hne
      rw [hp]
    · rw [if_neg hne] at hn
      rw [hq q hne]
      exact h.quiet q hn
  · by_cases hkr : k = r
    · subst hkr
      exact hself
    · rw [hrun k hkr]
      refine h.idle k fun q hqk => hk q ?_
      rw [hreg, runnerFor?_retired, if_neg, hqk]
      rintro rfl
      exact hkr (Option.some.inj (hqk.symm.trans he))
  · rw [hreg] at hm ⊢
    obtain ⟨hm, hne⟩ := List.mem_filter.mp hm
    rw [runnerFor?_retired, if_neg (by simpa using hne)]
    exact h.listed e hm
  · rw [hreg] at hk
    obtain ⟨hne, hkr, hqk⟩ := hkeep q k hk
    exact (h.tended q k hqk).frame hplen (Nat.le_of_eq hrlen.symm) (hrun k hkr)
      ((hprf q).trans (hq q hne))
  · rw [hreg] at hact hk
    obtain ⟨hne, hkr, hqk⟩ := hkeep q k hk
    rw [hrun k hkr, hprf, hq q hne]
    refine h.attends q k ?_ hqk
    simp only [retired] at hact
    split at hact
    · cases hact
    · exact hact

/-- A closed proof ends its runner. -/
theorem settled_deliver_closed (h : Settled s) : Settled (deliver again p s .proofClosed) := by
  cases he : s.registry.runnerFor? p with
  | none => exact h.same (deliver_none (h.quiet p he) _)
  | some r =>
      obtain ⟨id, hsub, _⟩ := (h.tended p r he).subscribed
      obtain ⟨s1, hs1, e⟩ := deliver_one again hsub .proofClosed
      rw [e]
      exact settled_close (h.same hs1) (by rw [hs1.registry]; exact he)

/-! ## 3. Changes of a proof -/

theorem emit_unpaused (h : (s.proof p).paused = 0) (e : Event) :
    emit again s p e = deliver again p (s.record (.emitted p e)) e := by
  unfold emit
  simp only
  rw [if_neg]
  show ¬ 0 < (s.proof p).paused
  omega

theorem settled_applyRule (h : Settled s) (n : NodeId) (rule : String) (new : List Sequent) :
    Settled (applyRule again s p n rule new).2 := by
  unfold applyRule
  split
  · exact h
  · rename_i goals tree hr
    have h1 : Settled (emit again (s.setTree p tree) p (.ruleApplied goals)) := by
      rw [emit_unpaused (plain_setTree h.toCalm p).2.1]
      exact settled_deliver_rule again h hr (same_record _)
    simp only
    split
    · rw [emit_unpaused (h1.plain p).2.1]
      exact settled_deliver_closed (h1.same (same_record _))
    · exact h1

theorem settled_prune (h : Settled s) (n : NodeId) : Settled (prune again s p n).2 := by
  unfold prune
  split
  · exact h
  · rename_i tree hp
    rw [emit_unpaused (plain_setTree h.toCalm p).2.1]
    exact settled_deliver_prune h hp (same_record _)

theorem settled_startAuto (h : Settled s) : Settled (emit again s p .autoModeStarted) := by
  rw [emit_unpaused (h.plain p).2.1]
  exact settled_deliver_autoStarted (h.same (same_record _))

theorem settled_stopAuto (h : Settled s) : Settled (emit again s p .autoModeStopped) := by
  rw [emit_unpaused (h.plain p).2.1]
  exact settled_deliver_autoStopped (h.same (same_record _))

/-! ## 4. Applying a result -/

/-- What a rule tells: the new goals, and that the proof is closed if it is. -/
def ruleEvents (goals : List Goal) (tree : Tree) : List Event :=
  .ruleApplied goals :: if tree.isClosed then [.proofClosed] else []

theorem emit_paused (again : Again) (h : 0 < (s.proof p).paused) (e : Event) :
    Same (s.modifyProof p fun w => { w with held := w.held ++ [e] }) (emit again s p e) := by
  unfold emit
  simp only
  rw [if_pos (show 0 < ((s.record (.emitted p e)).proof p).paused from h)]
  exact (same_record (s := s) (.emitted p e)).modifyProof _

/-- A rule while the proof is paused: the tree changes, and what is to be told is held back. -/
theorem applyRule_paused (again : Again) (hp : p < s.proofs.length) (h : 0 < (s.proof p).paused) {n : NodeId}
    {rule : String} {new : List Sequent} {goals : List Goal} {tree : Tree}
    (hr : (s.proof p).tree.applyRule n rule new = .ok (goals, tree)) :
    Same (s.modifyProof p fun w => { w with tree, held := w.held ++ ruleEvents goals tree })
      (applyRule again s p n rule new).2 := by
  have h1 : 0 < ((s.setTree p tree).proof p).paused := by
    rw [proof_setTree_self hp]
    exact h
  have hs1 := emit_paused again h1 (.ruleApplied goals)
  rw [setTree, modifyProof_modifyProof] at hs1
  unfold applyRule
  rw [hr]
  simp only
  split
  · rename_i hclosed
    have h2 : 0 < ((emit again (s.setTree p tree) p (.ruleApplied goals)).proof p).paused := by
      rw [setTree, hs1.proof, proof_modifyProof_self _ hp]
      exact h
    have hs2 := emit_paused again h2 .proofClosed
    have hs3 := hs1.modifyProof (p := p) fun w => { w with held := w.held ++ [.proofClosed] }
    rw [modifyProof_modifyProof] at hs3
    refine (Same.trans ?_ hs3).trans hs2
    have hf : (fun w : Watched => { w with tree, held := w.held ++ ruleEvents goals tree }) =
        (fun w : Watched => { w with held := w.held ++ [Event.proofClosed] }) ∘
          (fun w => { w with held := w.held ++ [.ruleApplied goals] }) ∘ fun w => { w with tree } := by
      funext w
      simp [ruleEvents, hclosed]
    rw [hf]
    exact .refl _
  · rename_i hopen
    refine Same.trans ?_ hs1
    have hf : (fun w : Watched => { w with tree, held := w.held ++ ruleEvents goals tree }) =
        (fun w : Watched => { w with held := w.held ++ [Event.ruleApplied goals] }) ∘
          fun w => { w with tree } := by
      funext w
      simp [ruleEvents, hopen]
    rw [hf]
    exact .refl _

/-- An open leaf that is not closed is a goal. -/
theorem isGoal_of_leaf {t : Tree} {n : NodeId} (hl : t.isLeaf n = true)
    (hc : t.isNodeClosed n = false) : t.isGoal n = true := by
  unfold Tree.isLeaf at hl
  split at hl
  · rename_i x hx
    have hlt := Tree.lt_size_of_contains (t := t) (n := n) (by simp [Tree.contains, hx])
    obtain ⟨k, hk⟩ := Nat.exists_eq_succ_of_ne_zero (Nat.ne_of_gt (Nat.lt_of_le_of_lt (Nat.zero_le _) hlt))
    unfold Tree.isNodeClosed at hc
    rw [hk] at hc
    unfold Tree.closedWithin at hc
    unfold Tree.isGoal
    rw [hx] at hc ⊢
    simp only [hl, if_true] at hc
    simp [hl, hc]
  · cases hl

/-- A rule during a pause that begins right before it. -/
theorem applyRule_pauseEvents (again : Again) (hp : p < s.proofs.length) {n : NodeId} {rule : String}
    {new : List Sequent} {goals : List Goal} {tree : Tree}
    (hr : (s.proof p).tree.applyRule n rule new = .ok (goals, tree)) :
    Same ((s.pauseEvents p).modifyProof p fun w => { w with tree, held := w.held ++ ruleEvents goals tree })
      (applyRule again (s.pauseEvents p) p n rule new).2 := by
  have hprf : (s.pauseEvents p).proof p = { s.proof p with paused := (s.proof p).paused + 1 } :=
    proof_modifyProof_self _ hp
  refine applyRule_paused again ?_ ?_ ?_
  · rw [pauseEvents, length_modifyProof]
    exact hp
  · rw [hprf]
    exact Nat.succ_pos _
  · rw [hprf]
    exact hr

/-- **A pause ends**: what a rule told meanwhile is delivered, in a session that has the new tree and holds
    back nothing. -/
theorem resumeEvents_held (again : Again) (hpaused : (s.proof p).paused = 0) (hheld : (s.proof p).held = [])
    (hp : p < s.proofs.length) {goals : List Goal} {tree : Tree}
    (hs : Same ((s.pauseEvents p).modifyProof p fun w =>
      { w with tree, held := w.held ++ ruleEvents goals tree }) s') :
    Same (s.setTree p tree) (s'.modifyProof p fun w => { w with paused := 0, held := [] }) ∧
      resumeEvents again s' p = (ruleEvents goals tree).foldl (deliver again p)
        (s'.modifyProof p fun w => { w with paused := 0, held := [] }) := by
  rw [pauseEvents, modifyProof_modifyProof] at hs
  have hprf : s'.proof p = { s.proof p with paused := 1, tree, held := ruleEvents goals tree } := by
    rw [hs.proof, proof_modifyProof_self _ hp]
    simp [hpaused, hheld]
  refine ⟨?_, ?_⟩
  · -- once the pause is over, only the tree differs from the session before it
    refine Same.trans ?_ (hs.modifyProof (p := p) fun w => { w with paused := 0, held := [] })
    rw [modifyProof_modifyProof]
    refine ⟨by rw [length_modifyProof, setTree, length_modifyProof], fun q => ?_, rfl, fun _ => rfl, rfl⟩
    by_cases hq : q = p
    · subst hq
      rw [proof_modifyProof_self _ hp, proof_setTree_self hp]
      simp [← hpaused, ← hheld]
    · rw [proof_modifyProof_of_ne _ hq, setTree, proof_modifyProof_of_ne _ hq]
  · unfold resumeEvents
    simp only [hprf, Nat.lt_irrefl, if_false]

/-- The runner is told of the rule, and of the end of the proof if that is what the rule brought about. -/
theorem settled_ruleEvents (again : Again) (h : Settled s) {n : NodeId} {rule : String} {new : List Sequent}
    {goals : List Goal} {tree : Tree}
    (hr : (s.proof p).tree.applyRule n rule new = .ok (goals, tree)) (hs : Same (s.setTree p tree) s') :
    Settled ((ruleEvents goals tree).foldl (deliver again p) s') := by
  have h1 := settled_deliver_rule again h hr hs
  unfold ruleEvents
  split
  · exact settled_deliver_closed h1
  · exact h1

theorem same_lookUp (n : NodeId) : Same s (s.lookUp n) := by
  unfold lookUp
  split
  · exact .refl s
  · simp only
    split
    · exact same_probe _ _
    · exact .refl s

/-- An open goal that the proof shows is made one already, -/
theorem ensureGoal_of_isGoal (again : Again) (hplain : (s.proof p).facade = {}) {n : NodeId}
    (hgoal : (s.proof p).tree.isGoal n = true) : ensureGoal again s p n = (.ok (), s) := by
  unfold ensureGoal
  simp [Watched.isGoal, hgoal, hplain]

/-- and closing it is not refused. -/
theorem closeGoal_of_isGoal (again : Again) (hplain : (s.proof p).facade = {}) {n : NodeId}
    (hgoal : (s.proof p).tree.isGoal n = true) :
    closeGoal again s p n = applySmtRule again s p n ((s.proof p).tree.nodeName n) := by
  obtain ⟨x, hx⟩ : ∃ x, (s.proof p).tree.get? n = some x :=
    Option.isSome_iff_exists.mp (Tree.contains_of_isGoal hgoal)
  unfold closeGoal
  simp [Watched.goal?, hplain, Tree.goal?, hgoal, hx]

theorem applyRule_of_isGoal {t : Tree} {n : NodeId} (hgoal : t.isGoal n = true) (rule : String) :
    ∃ tree, t.applyRule n rule [] = .ok ([], tree) := by
  unfold Tree.applyRule
  simp [hgoal, Tree.contains_of_isGoal hgoal]

/-- A proof that answers for itself does not notice that a result is looked up. -/
theorem lookUp_of_plain
    (hplain : ∀ r, s.registry.activeRunner? = some r → (s.proof (s.runner r).proof).facade = {}) (n : NodeId) :
    s.lookUp n = s := by
  unfold lookUp
  split
  · rfl
  · rename_i r hr
    have hprobe : s.probe (s.runner r).proof r .none = s := by
      unfold probe
      simp [hplain r hr]
    simp only [hprobe, ite_self]

theorem applyResult_of_not (again : Again) {n : NodeId} (h : s.canApply n = false) :
    applyResult again s n = (.notApplicable, s.lookUp n) := by
  unfold applyResult
  simp only [h]

/-- A node that can be closed with its answer is an open goal of the proof that the active runner watches. -/
theorem isGoal_of_active {n : NodeId} (h : s.canApply n = true) :
    ∃ r, s.registry.activeRunner? = some r ∧ (s.proof (s.runner r).proof).tree.isGoal n = true := by
  unfold canApply at h
  split at h
  · cases h
  · rename_i r hr
    simp only [Bool.and_eq_true, Bool.not_eq_true'] at h
    exact ⟨r, hr, isGoal_of_leaf h.1.2 h.2⟩

/-- **A result is applied by a rule at an open goal**, while the proof is paused. -/
theorem applyResult_of_active (again : Again) {n : NodeId} (hcan : s.canApply n = true)
    (hr : s.registry.activeRunner? = some r) (hrp : (s.runner r).proof = p) (hplain : (s.proof p).facade = {})
    (hp : p < s.proofs.length) (hgoal : (s.proof p).tree.isGoal n = true) :
    applyResult again s n = (.applied, resumeEvents again (applyRule again (s.pauseEvents p) p n
      (Tree.smtRule ((s.proof p).tree.nodeName n)) []).2 p) := by
  have hlook : s.lookUp n = s := lookUp_of_plain (fun k hk => by cases hr.symm.trans hk; rw [hrp]; exact hplain) n
  have hprf : (s.pauseEvents p).proof p = { s.proof p with paused := (s.proof p).paused + 1 } :=
    proof_modifyProof_self _ hp
  have hplain' : ((s.pauseEvents p).proof p).facade = {} := hprf ▸ hplain
  have hgoal' : ((s.pauseEvents p).proof p).tree.isGoal n = true := hprf ▸ hgoal
  have htree : ((s.pauseEvents p).proof p).tree = (s.proof p).tree := hprf ▸ rfl
  have hok : (applySmtRule again (s.pauseEvents p) p n ((s.proof p).tree.nodeName n)).1 = .ok () := by
    obtain ⟨tree, hrule⟩ := applyRule_of_isGoal hgoal' (Tree.smtRule ((s.proof p).tree.nodeName n))
    unfold applySmtRule applyRule
    rw [hrule]
    rfl
  unfold applyResult
  simp only [hcan, hr, hrp, hlook]
  rw [ensureGoal_of_isGoal again hplain' hgoal']
  simp only
  rw [closeGoal_of_isGoal again hplain' hgoal', htree, hok]
  rfl

/-- **What applying a result comes to**: nothing if that is not possible, and otherwise a rule that closes the
    node while events are held back. -/
theorem applyResult_cases (again : Again) (h : Calm s) (n : NodeId) :
    (s.canApply n = false ∧ applyResult again s n = (.notApplicable, s.lookUp n)) ∨
    ∃ p r rule tree s', s.registry.active = some p ∧ s.registry.runnerFor? p = some r ∧
      (s.proof p).tree.applyRule n rule [] = .ok ([], tree) ∧
      Same ((s.pauseEvents p).modifyProof p fun w => { w with tree, held := w.held ++ ruleEvents [] tree }) s' ∧
      applyResult again s n = (.applied, resumeEvents again s' p) := by
  cases hcan : s.canApply n with
  | false => exact Or.inl ⟨rfl, applyResult_of_not again hcan⟩
  | true =>
      obtain ⟨r, hact, hgoal⟩ := isGoal_of_active hcan
      obtain ⟨p, hp, he⟩ := Option.bind_eq_some_iff.mp hact
      have hT := h.tended p r he
      rw [hT.watches] at hgoal
      obtain ⟨tree, hr⟩ := applyRule_of_isGoal hgoal (Tree.smtRule ((s.proof p).tree.nodeName n))
      exact Or.inr ⟨p, r, _, tree, _, hp, he, hr, applyRule_pauseEvents again hT.proofIn hr,
        applyResult_of_active again hcan hact hT.watches (h.plain p).1 hT.proofIn hgoal⟩

theorem settled_applyResult (h : Settled s) (n : NodeId) : Settled (applyResult again s n).2 := by
  rcases applyResult_cases again h.toCalm n with ⟨_, e⟩ | ⟨p, r, rule, tree, s', _, he, hr, hs, e⟩
  · rw [e]
    exact h.same (same_lookUp n)
  · obtain ⟨_, hzero, hheld⟩ := h.plain p
    obtain ⟨hs1, e1⟩ := resumeEvents_held again hzero hheld (h.tended p r he).proofIn hs
    rw [e, e1]
    exact settled_ruleEvents again h hr hs1

end GoalWatch.Session
