import GoalWatch.Proofs.Session.Applied
import GoalWatch.Proofs.Session.Lasting

/-!
# Events that say nothing about closedness

A proof tells of new goals, or that automatic mode starts or stops, and its clients ask for no change of it. Then the
registry stays as it is and no runner proves or forgets anything, whatever else these clients ask for: nobody who
listens to a runner or to the registry gets to know of it.

* `Session.Undisturbed` -- the registry and what runners have proved are as they were;
* `Session.Placid` -- so they are, and the proof holds back nothing that would change that;
* `Session.Serene` -- calls from inside that change no proof keep it so;
* `placid_deliver`, `placid_resumeEvents`, … -- one statement for each function;
* **`serene_perform`** -- calls nested to any depth are serene;
* **`undisturbed_applyResult`** -- a result is applied and the proof stays open.
-/

namespace GoalWatch.Session

open Runner

/-- **The registry and what runners have proved are as they were.** -/
structure Undisturbed (b s : Session) : Prop where
  registry : s.registry = b.registry
  watches : ∀ r, (s.runner r).proof = (b.runner r).proof
  solved : ∀ r, (s.runner r).core.solved = (b.runner r).core.solved

/-- **A proof has told of nothing that disturbs anybody**, holds back no such event, and has clients that ask for no
    change of it. -/
structure Placid (p : ProofId) (b s : Session) : Prop extends Undisturbed b s where
  mannered : Mannered (.unedited p) s
  quiet : ∀ e ∈ (s.proof p).held, e.verdict? = none

/-- Calls from inside that do not change the proof disturb nobody. -/
def Serene (p : ProofId) (again : Again) : Prop :=
  ∀ b s call, ProofCall.isChange call = false → Placid p b s → Placid p b (again (.proof p call) s)

variable {again : Again} {b s s' s'' : Session} {p : ProofId} {r : RunnerId} {n : NodeId} {e : Event}

theorem Undisturbed.refl (s : Session) : Undisturbed s s := ⟨rfl, fun _ => rfl, fun _ => rfl⟩

theorem Undisturbed.trans (h : Undisturbed s s') (h' : Undisturbed s' s'') : Undisturbed s s'' :=
  ⟨h'.registry.trans h.registry, fun r => (h'.watches r).trans (h.watches r),
    fun r => (h'.solved r).trans (h.solved r)⟩

/-- Runners and the registry are as they were. -/
theorem Undisturbed.of_same {p : ProofId} {f : Watched → Watched} (hs : Same (s.modifyProof p f) s') :
    Undisturbed s s' :=
  ⟨hs.registry, fun r => by rw [hs.runner]; rfl, fun r => by rw [hs.runner]; rfl⟩

/-! ## 1. Steps that call nobody -/

/-- A step of the course that leaves registry and runners alone. -/
theorem Placid.next (h : Placid p b s) (hc : Course (.unedited p) s s') (hu : Undisturbed s s')
    (hq : ∀ e ∈ (s'.proof p).held, e ∈ (s.proof p).held ∨ e.verdict? = none) : Placid p b s' where
  toUndisturbed := h.toUndisturbed.trans hu
  mannered := hc.mannered h.mannered
  quiet e he := (hq e he).elim (h.quiet e) id

/-- Something is written down. -/
theorem Placid.record (h : Placid p b s) {x : Entry} (hc : Course (.unedited p) s (s.record x)) :
    Placid p b (s.record x) := h.next hc ⟨rfl, fun _ => rfl, fun _ => rfl⟩ fun _ => Or.inl

/-- A runner acts, and proves or forgets nothing by it. -/
theorem Placid.act (h : Placid p b s) (hc : Course (.unedited p) s s') {core : Runner}
    (hs : Same (s.setCore r core) s') (hsol : core.solved = (s.runner r).core.solved) : Placid p b s' := by
  have hrun : ∀ k, (s'.runner k).proof = (s.runner k).proof ∧
      (s'.runner k).core.solved = (s.runner k).core.solved := by
    intro k
    rw [hs.runner]
    rcases runner_modifyRunner_cases (s := s) (r := r) (k := k) (fun x => { x with core }) with e | ⟨rfl, _, e⟩
    · rw [setCore, e]
      exact ⟨rfl, rfl⟩
    · rw [setCore, e]
      exact ⟨rfl, hsol⟩
  refine h.next hc ⟨hs.registry, fun k => (hrun k).1, fun k => (hrun k).2⟩ fun e he => Or.inl ?_
  rw [hs.proof] at he
  exact he

/-- The proof pauses, or changes what it holds back. -/
theorem Placid.hold (h : Placid p b s) {f : Watched → Watched}
    (hf : ∀ w, f w = { w with paused := (f w).paused, held := (f w).held })
    (hq : ∀ e ∈ (f (s.proof p)).held, e ∈ (s.proof p).held ∨ e.verdict? = none) : Placid p b (s.modifyProof p f) := by
  refine h.next (.one (.hold trivial f hf)) ⟨rfl, fun _ => rfl, fun _ => rfl⟩ fun e he => ?_
  rcases proof_modifyProof_cases (s := s) (p := p) (q := p) f with hp | ⟨_, _, hp⟩
  · rw [hp] at he
    exact Or.inl he
  · rw [hp] at he
    exact hq e he

/-- **A runner takes in an event that says nothing about closedness**, and tells nobody. -/
theorem placid_handleEvent (h : Placid p b s) (he : e.verdict? = none) : Placid p b (handleEvent again s r e) := by
  cases e with
  | ruleApplied goals =>
      exact h.act (course_takeLaunch .fresh goals) (same_takeLaunch _) (Station.dispatchOpen_solved ..)
  | autoModeStarted =>
      refine h.act course_autoStarted (.refl _) ?_
      unfold suspend
      split <;> rfl
  | autoModeStopped =>
      have hclosed : (s.runner r).core.unsuspend.closed = (s.runner r).core.closed := by
        unfold unsuspend
        split <;> rfl
      have hsolved : (s.runner r).core.unsuspend.solved = (s.runner r).core.solved := by
        unfold unsuspend
        split <;> rfl
      have h0 : Placid p b (s.setCore r (s.runner r).core.unsuspend) :=
        h.act (course_tune .unsuspend hclosed) (.refl _) hsolved
      exact h0.act (course_dispatchOpen .fresh) (same_dispatchOpen .fresh) (Station.dispatchOpen_solved ..)
  | treeStructureChanged | proofClosed => cases he

/-! ## 2. Events -/

section Events

variable (ha : Obliging (.unedited p) again) (hs : Serene p again)

include ha hs

omit ha in
/-- A sink that is shown an event asks for what it may. -/
theorem placid_showTo (h : Placid p b s) (he : e.verdict? = none) {x : Subscriber}
    (hx : ∀ k, x.sink = .client k → Polite (.unedited p) s p k) : Placid p b (showTo again p e s x) := by
  have h0 : Placid p b (s.record (.shown p x.id e)) :=
    h.record (course_tell trivial rfl fun _ e => by cases e)
  unfold showTo
  cases hk : x.sink with
  | runner r => exact placid_handleEvent h0 he
  | client k =>
      obtain ⟨c, hc, hcalls⟩ := hx k hk
      have hc' : (s.record (.shown p x.id e)).sinks[k]? = some c := hc
      simp only [hc']
      have h1 : Placid p b { s.record (.shown p x.id e) with
          sinks := s.sinks.modify k fun c => { c with shown := c.shown + 1 } } :=
        h0.next (.one (.clients (react_modify _ k fun _ => rfl) h0.mannered.listener))
          ⟨rfl, fun _ => rfl, fun _ => rfl⟩ fun _ => Or.inl
      refine lasting_foldl (fun call hcall t ht => hs b t call ?_ ht) h1
      exact (hcalls _ _ call hcall).resolve_left fun hne => hne rfl

/-- Subscribers are shown an event one after the other; all of them stay polite meanwhile. -/
theorem placid_showAll (he : e.verdict? = none) : ∀ (xs : List Subscriber) {s : Session}, Placid p b s →
    (∀ x ∈ xs, ∀ k, x.sink = .client k → Polite (.unedited p) s p k) →
    Placid p b (xs.foldl (showTo again p e) s)
  | [], _, h, _ => h
  | x :: rest, s, h, hpol => by
      have hx := hpol x List.mem_cons_self
      have hc : Course (.unedited p) s (showTo again p e s x) := course_showTo ha trivial h.mannered e hx
      exact placid_showAll he rest (placid_showTo hs h he hx) fun y hy k hk =>
        hc.polite (hpol y (List.mem_cons_of_mem _ hy) k hk)

theorem placid_deliver (h : Placid p b s) (he : e.verdict? = none) : Placid p b (deliver again p s e) :=
  placid_showAll ha hs he _ (h.record (course_tell trivial rfl fun _ e => by cases e)) (h.mannered.sink p)

theorem placid_emit (h : Placid p b s) (he : e.verdict? = none) : Placid p b (emit again s p e) := by
  have h0 : Placid p b (s.record (.emitted p e)) :=
    h.record (.one (.tell trivial _ rfl fun x hx => by cases hx; exact Or.inl he))
  unfold emit
  simp only
  split
  · refine h0.hold (fun _ => rfl) fun x hx => ?_
    rcases List.mem_append.mp hx with hx | hx
    · exact Or.inl hx
    · rw [List.mem_singleton.mp hx]
      exact Or.inr he
  · exact placid_deliver ha hs h0 he

theorem placid_resumeEvents (h : Placid p b s) : Placid p b (resumeEvents again s p) := by
  unfold resumeEvents
  simp only
  split
  · exact h.hold (fun _ => rfl) fun _ => Or.inl
  · have h0 : Placid p b (s.modifyProof p fun w => { w with paused := 0, held := [] }) :=
      h.hold (fun _ => rfl) fun _ he => absurd he List.not_mem_nil
    exact lasting_foldl (fun e he t ht => placid_deliver ha hs ht (h.quiet e he)) h0

/-- **What a client may ask of the proof disturbs nobody.** -/
theorem placid_proofCall (h : Placid p b s) {call : ProofCall} (hcall : call.isChange = false) :
    Placid p b (proofCall again s p call) := by
  cases call with
  | applyRule | prune => cases hcall
  | startAuto | stopAuto => exact placid_emit ha hs h rfl
  | pause => exact h.hold (fun _ => rfl) fun _ => Or.inl
  | resume => exact placid_resumeEvents ha hs h
  | unsubscribe id =>
      refine h.next (.one (.cancel trivial)) ⟨rfl, fun _ => rfl, fun _ => rfl⟩ fun e he => Or.inl ?_
      rcases proof_modifyProof_cases (s := s) (p := p) (q := p) fun w =>
        { w with subscribers := w.subscribers.filter fun x => x.id != id } with hp | ⟨_, _, hp⟩
      all_goals
        rw [proofCall, unsubscribe, hp] at he
        exact he

end Events

/-- **Calls nested to any depth are serene.** -/
theorem serene_perform (p : ProofId) : ∀ depth, Serene p (perform depth)
  | 0 => fun _ _ _ _ h => h
  | depth + 1 => fun _ _ _ hcall h =>
      placid_proofCall (obliging_perform (Leave.coherent_unedited p) depth) (serene_perform p depth) h hcall

/-! ## 3. A result is applied -/

theorem clients_emit_paused (again : Again) (h : 0 < (s.proof p).paused) (e : Event) :
    (emit again s p e).sinks = s.sinks ∧ (emit again s p e).listeners = s.listeners := by
  unfold emit
  simp only
  rw [if_pos (show 0 < ((s.record (.emitted p e)).proof p).paused from h)]
  exact ⟨rfl, rfl⟩

/-- No client notices a rule while the proof is paused. -/
theorem clients_applyRule_paused (again : Again) (hp : p < s.proofs.length) (h : 0 < (s.proof p).paused)
    (rule : String) (new : List Sequent) :
    (applyRule again s p n rule new).2.sinks = s.sinks ∧
      (applyRule again s p n rule new).2.listeners = s.listeners := by
  unfold applyRule
  split
  · exact ⟨rfl, rfl⟩
  · rename_i goals tree _
    have h1 : 0 < ((s.setTree p tree).proof p).paused := by
      rw [proof_setTree_self hp]
      exact h
    obtain ⟨hsinks, hlisteners⟩ := clients_emit_paused again h1 (.ruleApplied goals)
    have h2 : 0 < ((emit again (s.setTree p tree) p (.ruleApplied goals)).proof p).paused := by
      rw [(emit_paused again h1 _).proof, proof_modifyProof_self _ (by rw [setTree, length_modifyProof]; exact hp)]
      exact h1
    obtain ⟨hsinks', hlisteners'⟩ := clients_emit_paused again h2 .proofClosed
    simp only
    split
    · exact ⟨hsinks'.trans hsinks, hlisteners'.trans hlisteners⟩
    · exact ⟨hsinks, hlisteners⟩

section Applying

variable (again : Again) (h : Ready p s) (hact : s.registry.active = some p) (hcan : s.canApply n = true)

include h hact hcan

/-- **While the proof is paused, nobody is told** that a result is applied. -/
theorem applyResult_paused (hpos : 0 < (s.proof p).paused) :
    Same (s.modifyProof p fun w => { w with
        tree := (s.proof p).tree.answered [n]
        held := w.held ++ ruleEvents [] ((s.proof p).tree.answered [n]) })
      (applyResult again s n).2 := by
  have hs := applyRule_pauseEvents again h.lt (Tree.applyRule_answered (isGoal_of_canApply h.wired hact hcan).2)
  have hlt : 1 < ((applyRule again (s.pauseEvents p) p n (Tree.smtRule ((s.proof p).tree.nodeName n))
      []).2.proof p).paused := by
    rw [hs.proof, pauseEvents, modifyProof_modifyProof, proof_modifyProof_self _ h.lt]
    exact Nat.succ_lt_succ hpos
  rw [applyResult_of_can again h.wired hact h.plain h.lt hcan]
  unfold resumeEvents
  simp only [hlt, if_true]
  have hback := hs.modifyProof (p := p) fun w => { w with paused := w.paused - 1 }
  rw [pauseEvents, modifyProof_modifyProof, modifyProof_modifyProof] at hback
  exact hback

/-- **A proof that is not paused tells of it right away**, in a session in which only the tree is another one. -/
theorem applyResult_unpaused (hzero : (s.proof p).paused = 0) (hheld : (s.proof p).held = []) :
    ∃ u, Same (s.setTree p ((s.proof p).tree.answered [n])) u ∧ u.sinks = s.sinks ∧ u.listeners = s.listeners ∧
      (applyResult again s n).2 =
        (ruleEvents [] ((s.proof p).tree.answered [n])).foldl (deliver again p) u := by
  have hs := applyRule_pauseEvents again h.lt (Tree.applyRule_answered (isGoal_of_canApply h.wired hact hcan).2)
  obtain ⟨hu, e⟩ := resumeEvents_held again hzero hheld h.lt hs
  have hpos : 0 < ((s.pauseEvents p).proof p).paused := by
    rw [pauseEvents, proof_modifyProof_self _ h.lt]
    exact Nat.succ_pos _
  obtain ⟨hsinks, hlisteners⟩ := clients_applyRule_paused (n := n) again
    (by rw [pauseEvents, length_modifyProof]; exact h.lt) hpos (Tree.smtRule ((s.proof p).tree.nodeName n)) []
  refine ⟨_, hu, hsinks, hlisteners, ?_⟩
  rw [applyResult_of_can again h.wired hact h.plain h.lt hcan]
  exact e

end Applying

/-- Clients of a session that differs in trees only ask for what they asked for. -/
theorem mannered_of_same {L : Leave} {tree : Tree} (h : Mannered L s) (hs : Same (s.setTree p tree) s')
    (hsinks : s'.sinks = s.sinks) (hlisteners : s'.listeners = s.listeners) : Mannered L s' := by
  have h0 : Mannered L (s.setTree p tree) := mannered_modifyProof h p fun _ _ hx => hx
  refine h0.same (fun q k hk => hk.same (congrArg _ hsinks)) (fun q x hx => Or.inl ?_) (hlisteners ▸ h0.listener)
  rw [hs.proof] at hx
  exact hx

/-- The proof is about to tell of a result that was applied; nobody is disturbed yet. -/
theorem placid_answered {tree : Tree} (h : Ready p s) (hheld : (s.proof p).held = [])
    (hs : Same (s.setTree p tree) s') (hsinks : s'.sinks = s.sinks) (hlisteners : s'.listeners = s.listeners) :
    Placid p s s' where
  toUndisturbed := .of_same hs
  mannered := mannered_of_same h.mannered hs hsinks hlisteners
  quiet e he := by
    rw [hs.proof, proof_setTree_self h.lt] at he
    rw [show ({ s.proof p with tree } : Watched).held = [] from hheld] at he
    exact absurd he List.not_mem_nil

/-- **A result is applied and the proof stays open**: nobody is disturbed. -/
theorem undisturbed_applyResult (depth : Nat) (h : Ready p s) (hidle : (s.proof p).Idle)
    (hact : s.registry.active = some p) (hcan : s.canApply n = true)
    (hopen : ((s.proof p).tree.answered [n]).isClosed = false) :
    Undisturbed s (applyResult (perform depth) s n).2 := by
  rcases Nat.eq_zero_or_pos (s.proof p).paused with hzero | hpos
  · obtain ⟨u, hu, hsinks, hlisteners, e⟩ :=
      applyResult_unpaused (perform depth) h hact hcan hzero (hidle hzero)
    rw [e, ruleEvents, if_neg (by rw [hopen]; exact Bool.false_ne_true)]
    exact (placid_deliver (obliging_perform (Leave.coherent_unedited p) depth) (serene_perform p depth)
      (placid_answered h (hidle hzero) hu hsinks hlisteners) rfl).toUndisturbed
  · exact .of_same (applyResult_paused (perform depth) h hact hcan hpos)

end GoalWatch.Session
