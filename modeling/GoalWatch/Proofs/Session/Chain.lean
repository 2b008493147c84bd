import GoalWatch.Proofs.Session.Pass

/-!
# Sessions are made of permitted steps

Every function of a session leads from a tame session by permitted steps, however calls from inside are
carried out, as long as these do so too. What a function needs a permit for is a hypothesis of its
statement.

* `Session.Closable` -- the runners of a proof may end;
* `Session.Obedient` -- permitted calls from inside are made of permitted steps;
* `passes_deliver`, `passes_applyRule`, `passes_applyResult`, `passes_select`, … -- one statement for each
  function;
* `obedient_perform` -- calls nested to any depth are obedient.
-/

namespace GoalWatch

/-- Proofs may change, and runners may be told to give up batches or to end. -/
structure Permit.Open (P : Permit) : Prop where
  edits : ∀ p, P.edits p
  stops : ∀ r, P.stops r
  closes : ∀ r, P.closes r

namespace Session

variable {P : Permit} {s s' : Session} {p : ProofId} {r : RunnerId}

/-- **The runners of a proof may end**, those that are there now and those that may come. -/
def Closable (P : Permit) (s : Session) (p : ProofId) : Prop :=
  ∀ r, P.closes r ∨ r < s.runners.length ∧ (s.runner r).proof ≠ p

theorem Closable.closes (h : Closable P s p) (hr : (s.runner r).proof = p) : P.closes r :=
  (h r).resolve_right fun hn => hn.2 hr

theorem Closable.grows (h : Closable P s p) (hg : Grows s s') : Closable P s' p := by
  intro r
  refine (h r).imp id fun hn => ⟨Nat.lt_of_lt_of_le hn.1 hg.runners, ?_⟩
  rw [hg.watches r hn.1]
  exact hn.2

theorem closable_of_open (h : P.Open) : Closable P s p := fun r => Or.inl (h.closes r)

/-! ## 1. Steps that call nobody -/

/-- A fold is made of steps if each turn is, in any session that the turns before can lead to. -/
theorem passes_foldl {α : Type} {f : Session → α → Session} : ∀ (l : List α) {s : Session}, Tame P s →
    (∀ x ∈ l, ∀ s', Tame P s' → Grows s s' → Passes P s' (f s' x)) → Passes P s (l.foldl f s)
  | [], _, _, _ => .start
  | x :: rest, s, ht, hf => by
      have hx : Passes P s (f s x) := hf x List.mem_cons_self s ht (.refl s)
      refine hx.trans (passes_foldl rest (tame_passes ht hx) fun y hy s' ht' hg => ?_)
      exact hf y (List.mem_cons_of_mem _ hy) s' ht' ((grows_passes hx).trans hg)

theorem passes_ite {c : Prop} [Decidable c] (h : Passes P s s') :
    Passes P s (if c then s' else s) := by
  split
  · exact h
  · exact .start

theorem passes_record {e : Entry} (h : e.isRemark = true) : Passes P s (s.record e) :=
  .one (.remark [e] fun _ hm => List.mem_singleton.mp hm ▸ h)

@[simp] theorem proof_recordAll (es : List Entry) (q : ProofId) :
    (s.recordAll es).proof q = s.proof q := rfl

/-- A question to a proof only writes something down. -/
theorem probe_eq (busy : RunnerId) (activity : Activity) :
    ∃ es, (∀ e ∈ es, ∃ phase, e = .probed phase) ∧ s.probe p busy activity = s.recordAll es := by
  unfold probe
  split
  · refine ⟨_, fun e he => ?_, rfl⟩
    obtain ⟨k, _, rfl⟩ := List.mem_map.mp he
    exact ⟨_, rfl⟩
  · exact ⟨[], fun _ h => absurd h List.not_mem_nil, rfl⟩

theorem passes_probe (busy : RunnerId) (activity : Activity) :
    Passes P s (s.probe p busy activity) := by
  obtain ⟨es, hes, e⟩ := probe_eq (s := s) (p := p) busy activity
  rw [e]
  refine .one (.remark es fun e he => ?_)
  obtain ⟨_, rfl⟩ := hes e he
  rfl

@[simp] theorem runner_probe (busy k : RunnerId) (activity : Activity) :
    (s.probe p busy activity).runner k = s.runner k := by
  unfold probe
  split <;> rfl

@[simp] theorem proof_probe (q : ProofId) (busy : RunnerId) (activity : Activity) :
    (s.probe p busy activity).proof q = s.proof q := by
  unfold probe
  split <;> rfl

/-- Listed twice or not, open goals are open goals. -/
theorem mem_openGoals {w : Watched} {g : Goal} : g ∈ w.openGoals ↔ g ∈ w.tree.goals := by
  unfold Watched.openGoals
  split <;> simp

theorem passes_dispatchOpen (mode : Mode) : Passes P s (s.dispatchOpen r mode).2 := by
  unfold dispatchOpen
  simp only
  split
  · refine (passes_probe (p := (s.runner r).proof) r .dispatching).more ?_
    have hopen : ∀ g ∈ (s.proof (s.runner r).proof).openGoals,
        g ∈ ((s.probe (s.runner r).proof r .dispatching).proof
          ((s.probe (s.runner r).proof r .dispatching).runner r).proof).tree.goals := by
      intro g hg
      simpa using mem_openGoals.mp hg
    have h : Pass P (s.probe (s.runner r).proof r .dispatching) _ :=
      .handOut r mode _ (Or.inr fun g hg => Or.inl (hopen g hg)) fun _ => hopen
    simpa using h
  · exact .start

theorem passes_ruleApplied {goals : List Goal} (h : P.anyGoals ∨ s.Offered r goals) :
    Passes P s (s.ruleApplied r goals).2 := .one (.handOut r .fresh goals h fun e => by cases e)

theorem passes_autoStarted : Passes P s (s.autoStarted r) := .one (.tune r _ .suspend)

theorem passes_autoStopped : Passes P s (s.autoStopped r).2 :=
  (Passes.one (.tune r _ .unsuspend)).trans (passes_dispatchOpen .fresh)

theorem passes_setSolvers (solvers : SolverSet) : Passes P s (s.setSolvers r solvers).2 :=
  (Passes.one (.tune r _ (.setSolvers solvers))).trans (passes_dispatchOpen .retry)

theorem passes_unsubscribe (id : SubscriptionId) : Passes P s (s.unsubscribe p id) :=
  .one (.watch p _ (fun _ => ⟨rfl, rfl, rfl⟩) fun _ _ hx => Or.inl (List.mem_filter.mp hx).1)

theorem passes_pauseEvents (hp : P.edits p) : Passes P s (s.pauseEvents p) :=
  .one (.hold hp _ (fun _ => rfl) fun _ _ => Or.inl)

theorem passes_wake : Passes P s (s.wake r) := .one (.tasks _ fun _ ho => launch_mem_wake.mp ho)

theorem passes_dispose (ht : Tame P s) (l : ListenerId) : Passes P s (s.dispose l) := by
  unfold dispose
  split
  · exact .start
  · rename_i x hx
    -- the listener asks for the same as before
    have h : Passes P s { s with listeners := s.listeners.modify l fun x => { x with held := false } } := by
      refine .one (.clients ht.sink fun y hy => ?_)
      obtain ⟨i, hi⟩ := List.getElem?_of_mem hy
      rw [List.getElem?_modify] at hi
      obtain ⟨z, hz, rfl⟩ := Option.map_eq_some_iff.mp hi
      have hm := ht.listener z (List.mem_of_getElem? hz)
      by_cases he : l = i
      · simpa [he] using hm
      · simpa [he] using hm
    simp only
    split
    · split
      · exact h.more (.host _ _ (fun _ => rfl) fun _ => rfl)
      · exact h.more (.desk _ fun _ => Or.inl)
    · exact h

theorem passes_retire : Passes P s (s.retire p) := by
  unfold retire
  split
  · exact .start
  · split
    · exact .one (.desk _ fun _ he => Or.inl (List.mem_filter.mp he).1)
    · exact .start

/-! ## 2. News of a change -/

/-- What the arrival of answers does: at most questions to the proof are written down, unless the batch is in
    flight. -/
theorem session_complete_cases (again : Again) (s : Session) (r : RunnerId) (batch : BatchId)
    (outcomes : List Outcome) : ∃ es, (∀ e ∈ es, ∃ phase, e = .probed phase) ∧
      ((batch ∉ (s.runner r).core.inFlight ∧ complete again s r batch outcomes = s.recordAll es) ∨
        ∃ core, (s.runner r).core.complete (s.proof (s.runner r).proof).tree.contains
            (s.proof (s.runner r).proof).tree.contains batch outcomes = some core ∧
          complete again s r batch outcomes =
            let told := notifyRunner again
              (((s.recordAll es).setCore r core).record (.completed r batch outcomes)) r
            if core.inFlight.isEmpty then told.wake r else told) := by
  obtain ⟨es, hes, e⟩ : ∃ es, (∀ e ∈ es, ∃ phase, e = .probed phase) ∧
      (if (outcomes.any (fun o => o.status == .valid) || !(s.runner r).core.problems.isEmpty) = true
        then s.probe (s.runner r).proof r .completing else s) = s.recordAll es := by
    split
    · exact probe_eq r .completing
    · exact ⟨[], fun _ h => absurd h List.not_mem_nil, rfl⟩
  refine ⟨es, hes, ?_⟩
  unfold complete
  simp only
  rw [e, proof_recordAll]
  cases hc : (s.runner r).core.complete (s.proof (s.runner r).proof).tree.contains
      (s.proof (s.runner r).proof).tree.contains batch outcomes with
  | none => exact Or.inl ⟨Runner.complete_eq_none.mp hc, rfl⟩
  | some core => exact Or.inr ⟨core, rfl, rfl⟩

/-- **Permitted calls from inside are made of permitted steps.** -/
def Obedient (P : Permit) (again : Again) : Prop :=
  ∀ call s, P.calls call → Tame P s → Passes P s (again call s)

/-- Clients that may ask for nothing are obedient, whatever would be done for them. -/
theorem obedient_of_silent (h : ∀ call, ¬ P.calls call) (again : Again) : Obedient P again :=
  fun call _ hc _ => absurd hc (h call)

section Calls

variable {again : Again} (ha : Obedient P again)

include ha

theorem passes_callListener (ht : Tame P s) (l : ListenerId) :
    Passes P s (callListener again s l) := by
  unfold callListener
  split
  · exact .start
  · rename_i x hx
    have h : Passes P s (s.record (.notified l (s.view x.home))) := passes_record rfl
    refine h.trans (passes_foldl _ (tame_passes ht h) fun c hc s' ht' _ => ha c s' ?_ ht')
    exact ht.listener x (List.mem_of_getElem? hx) c hc

theorem passes_notifyObservers (ht : Tame P s) : Passes P s (notifyObservers again s) :=
  passes_foldl _ ht fun l _ _ ht' _ => passes_callListener ha ht' l

theorem passes_callTarget (ht : Tame P s) (t : Target) : Passes P s (callTarget again s t) := by
  cases t with
  | registry p =>
      exact passes_retire.trans (passes_notifyObservers ha (tame_passes ht passes_retire))
  | client l => exact passes_callListener ha ht l

theorem passes_notifyRunner (ht : Tame P s) : Passes P s (notifyRunner again s r) :=
  passes_foldl _ ht fun t _ _ ht' _ => passes_callTarget ha ht' t

theorem passes_close (ht : Tame P s) (hr : P.closes r) : Passes P s (close again s r) := by
  unfold close
  simp only
  split
  · exact .start
  · have h1 : Passes P s (s.giveUp r (s.runner r).core.close) := .one (.close hr)
    have h2 := h1.more (.host r (fun h => { h with subscription := none }) (fun _ => rfl) fun _ => rfl)
    have h3 := h2.trans (passes_notifyRunner (r := r) ha (tame_passes ht h2))
    split
    · exact (h3.trans (passes_unsubscribe _)).more (.host r _ (fun _ => rfl) fun _ => rfl)
    · exact h3.more (.host r _ (fun _ => rfl) fun _ => rfl)

theorem passes_treeChanged (ht : Tame P s) : Passes P s (treeChanged again s r).2 := by
  unfold treeChanged
  split
  · exact .start
  · exact (passes_notifyRunner ha ht).trans (passes_dispatchOpen .fresh)

theorem passes_complete (ht : Tame P s) {batch : BatchId} {outcomes : List Outcome}
    (hL : P.answers r batch outcomes) : Passes P s (complete again s r batch outcomes) := by
  obtain ⟨es, hes, hc⟩ := session_complete_cases again s r batch outcomes
  have h0 : Passes P s (s.recordAll es) := by
    refine .one (.remark es fun e he => ?_)
    obtain ⟨_, rfl⟩ := hes e he
    rfl
  rcases hc with ⟨_, e⟩ | ⟨core, hcore, e⟩
  · rw [e]
    exact h0
  · have h1 := h0.more (.answer hL hcore)
    have h2 := h1.trans (passes_notifyRunner (r := r) ha (tame_passes ht h1))
    rw [e]
    split
    · exact h2.trans passes_wake
    · exact h2

/-! ## 3. Events -/

/-- A runner takes in an event that its proof told of. -/
theorem passes_handleEvent (ht : Tame P s) {e : Event} (hp : (s.runner r).proof < s.proofs.length)
    (he : .emitted (s.runner r).proof e ∈ s.log) (hc : e = .proofClosed → P.closes r) :
    Passes P s (handleEvent again s r e) := by
  cases e with
  | ruleApplied goals => exact passes_ruleApplied (Or.inr fun g hg => Or.inr ⟨goals, hg, hp, he⟩)
  | autoModeStarted => exact passes_autoStarted
  | autoModeStopped => exact passes_autoStopped
  | treeStructureChanged => exact passes_treeChanged ha ht
  | proofClosed => exact passes_close ha ht (hc rfl)

theorem passes_showTo (ht : Tame P s) {e : Event} {x : Subscriber} (hp : p < s.proofs.length)
    (he : .emitted p e ∈ s.log) (hx : ∀ r, x.sink = .runner r → (s.runner r).proof = p)
    (hc : e = .proofClosed → Closable P s p) : Passes P s (showTo again p e s x) := by
  have h0 : Passes P s (s.record (.shown p x.id e)) := passes_record rfl
  have ht0 := tame_passes ht h0
  unfold showTo
  cases hk : x.sink with
  | runner r =>
      have hr := hx r hk
      refine h0.trans (passes_handleEvent ha ht0 ?_ ?_ fun e => (hc e).closes hr)
      · show (s.runner r).proof < s.proofs.length
        rw [hr]
        exact hp
      · show Entry.emitted (s.runner r).proof e ∈ _ :: s.log
        rw [hr]
        exact List.mem_cons_of_mem _ he
  | client k =>
      simp only
      split
      · exact h0
      · rename_i c hc'
        have hsinks : ∀ c ∈ s.sinks.modify k fun c => { c with shown := c.shown + 1 },
            ∀ i e, ∀ call ∈ c.react i e, ∀ p, P.calls (.proof p call) := by
          intro y hy
          obtain ⟨i, hi⟩ := List.getElem?_of_mem hy
          rw [List.getElem?_modify] at hi
          obtain ⟨z, hz, rfl⟩ := Option.map_eq_some_iff.mp hi
          have hm := ht.sink z (List.mem_of_getElem? hz)
          by_cases he : k = i
          · simpa [he] using hm
          · simpa [he] using hm
        have h1 := h0.more (.clients hsinks ht0.listener)
        refine h1.trans (passes_foldl _ (tame_passes ht h1) fun call hcall s' ht' _ => ha _ s' ?_ ht')
        exact ht.sink c (List.mem_of_getElem? hc') _ _ call hcall p

/-- An event that was written down is shown to all subscribers. -/
theorem passes_deliver (ht : Tame P s) {e : Event} (he : .emitted p e ∈ s.log)
    (hc : e = .proofClosed → Closable P s p) : Passes P s (deliver again p s e) := by
  unfold deliver
  have h0 : Passes P s (s.record (.delivered p e (s.proof p).paused
      ((s.proof p).subscribers.map Subscriber.id))) := passes_record rfl
  refine h0.trans (passes_foldl _ (tame_passes ht h0) fun x hx s' ht' hg => ?_)
  have hg' := (grows_passes h0).trans hg
  refine passes_showTo ha ht' ?_ (hg'.log.mem he) (fun r hr => ?_) fun e => (hc e).grows hg'
  · rw [hg'.proofs]
    exact lt_of_mem_subscribers hx
  · obtain ⟨hl, hp⟩ := ht.subscriber p x hx r hr
    rw [hg'.watches r hl, hp]

/-- Telling of an event starts with writing it down. -/
theorem passes_emit {t : Session} (ht : Tame P s) {e : Event}
    (h : Passes P s (t.record (.emitted p e))) (hp : P.edits p)
    (hc : e = .proofClosed → Closable P s p) : Passes P s (emit again t p e) := by
  unfold emit
  simp only
  split
  · refine h.more (.hold hp _ (fun _ => rfl) fun w x hx => ?_)
    rcases List.mem_append.mp hx with hx | hx
    · exact Or.inl hx
    · rw [List.mem_singleton.mp hx]
      exact Or.inr List.mem_cons_self
  · exact h.trans (passes_deliver ha (tame_passes ht h) List.mem_cons_self
      fun e => (hc e).grows (grows_passes h))

/-- A proof tells of something other than new goals. -/
theorem passes_announce (ht : Tame P s) {e : Event} (h : ∀ goals, e ≠ .ruleApplied goals)
    (hp : P.edits p) (hc : e = .proofClosed → Closable P s p) : Passes P s (emit again s p e) :=
  passes_emit ha ht (.one (.announce p e h)) hp hc

theorem passes_resumeEvents (ht : Tame P s) (hp : P.edits p)
    (hc : .proofClosed ∈ (s.proof p).held → Closable P s p) : Passes P s (resumeEvents again s p) := by
  unfold resumeEvents
  simp only
  split
  · exact .one (.hold hp _ (fun _ => rfl) fun _ _ => Or.inl)
  · have h0 : Passes P s (s.modifyProof p fun w => { w with paused := 0, held := [] }) :=
      .one (.hold hp _ (fun _ => rfl) fun _ _ hx => absurd hx List.not_mem_nil)
    refine h0.trans (passes_foldl _ (tame_passes ht h0) fun e he s' ht' hg => ?_)
    have hg' := (grows_passes h0).trans hg
    refine passes_deliver ha ht' (hg'.log.mem (ht.held p e he)) fun e' => (hc ?_).grows hg'
    rw [← e']
    exact he

/-! ## 4. Changes of a proof -/

theorem passes_applyRule (ht : Tame P s) {n : NodeId} {rule : String} {new : List Sequent}
    (hp : P.edits p) (hc : ∀ goals tree, (s.proof p).tree.applyRule n rule new = .ok (goals, tree) →
      tree.isClosed = true → Closable P s p) : Passes P s (applyRule again s p n rule new).2 := by
  unfold applyRule
  split
  · exact .start
  · rename_i goals tree h
    have h1 : Passes P s (emit again (s.setTree p tree) p (.ruleApplied goals)) :=
      passes_emit ha ht (.one (.rule hp h)) hp fun e => by cases e
    simp only
    split
    · rename_i hclosed
      exact h1.trans (passes_announce ha (tame_passes ht h1) (fun _ e => by cases e) hp
        fun _ => (hc goals tree h hclosed).grows (grows_passes h1))
    · exact h1

theorem passes_prune (ht : Tame P s) (hp : P.edits p) (n : NodeId) : Passes P s (prune again s p n).2 := by
  unfold prune
  split
  · exact .start
  · rename_i tree h
    have h1 : Passes P s (s.setTree p tree) := .one (.prune hp h)
    exact h1.trans (passes_announce ha (tame_passes ht h1) (fun _ e => by cases e) hp
      fun e => by cases e)

theorem passes_proofCall (ht : Tame P s) (hp : P.edits p) (hc : Closable P s p) (call : ProofCall) :
    Passes P s (proofCall again s p call) := by
  cases call with
  | applyRule n rule new => exact passes_applyRule ha ht hp fun _ _ _ _ => hc
  | prune n => exact passes_prune ha ht hp n
  | startAuto => exact passes_announce ha ht (fun _ e => by cases e) hp fun e => by cases e
  | stopAuto => exact passes_announce ha ht (fun _ e => by cases e) hp fun e => by cases e
  | pause => exact passes_pauseEvents hp
  | resume => exact passes_resumeEvents ha ht hp fun _ => hc
  | unsubscribe id => exact passes_unsubscribe id

/-! ## 5. Applying a result -/

omit ha in
theorem passes_lookUp (n : NodeId) : Passes P s (s.lookUp n) := by
  unfold lookUp
  split
  · exact .start
  · exact passes_ite (passes_probe _ _)

theorem passes_ensureGoal (ht : Tame P s) (hp : P.edits p) (n : NodeId) :
    Passes P s (ensureGoal again s p n).2 := by
  unfold ensureGoal
  simp only
  split
  · exact .start
  · split
    · exact .start
    · exact passes_prune ha ht hp n

theorem passes_closeGoal (ht : Tame P s) (hp : P.edits p) (hc : Closable P s p) (n : NodeId) :
    Passes P s (closeGoal again s p n).2 := by
  unfold closeGoal
  simp only
  split
  · exact .start
  · exact .start
  · exact passes_applyRule ha ht hp fun _ _ _ _ => hc

theorem passes_applyResult (ht : Tame P s) (n : NodeId)
    (hc : ∀ r, s.registry.activeRunner? = some r →
      P.edits (s.runner r).proof ∧ Closable P s (s.runner r).proof) :
    Passes P s (applyResult again s n).2 := by
  have h0 : Passes P s (s.lookUp n) := passes_lookUp n
  unfold applyResult
  simp only
  split
  · rename_i r _ hr
    obtain ⟨hp, hcl⟩ := hc r hr
    have h1 := h0.trans (passes_pauseEvents hp)
    have h2 := h1.trans (passes_ensureGoal (p := (s.runner r).proof) ha (tame_passes ht h1) hp n)
    cases he : ensureGoal again ((s.lookUp n).pauseEvents (s.runner r).proof) (s.runner r).proof n with
    | mk result t =>
        rw [he] at h2
        cases result with
        | error e =>
            exact h2.trans (passes_resumeEvents ha (tame_passes ht h2) hp
              fun _ => hcl.grows (grows_passes h2))
        | ok _ =>
            have h3 := h2.trans (passes_closeGoal (p := (s.runner r).proof) ha (tame_passes ht h2) hp
              (hcl.grows (grows_passes h2)) n)
            have h4 := h3.trans (passes_resumeEvents (p := (s.runner r).proof) ha (tame_passes ht h3) hp
              fun _ => hcl.grows (grows_passes h3))
            simp only
            split <;> exact h4
  · exact h0

/-! ## 6. Calls from inside -/

theorem passes_applyAny (hP : P.Open) : ∀ (nodes : List NodeId) {s : Session}, Tame P s →
    Passes P s (applyAny again s nodes)
  | [], _, _ => .start
  | n :: rest, s, ht => by
      have h0 : Passes P s (applyResult again s n).2 :=
        passes_applyResult ha ht n fun r _ => ⟨hP.edits _, closable_of_open hP⟩
      unfold applyAny
      split
      · rename_i t e
        rw [e] at h0
        exact h0
      · rename_i t _ e
        rw [e] at h0
        exact h0.trans (passes_applyAny hP rest (tame_passes ht h0))

theorem passes_execute (hP : P.Open) (ht : Tame P s) (call : Call) :
    Passes P s (execute again call s) := by
  cases call with
  | proof p c => exact passes_proofCall ha ht (hP.edits p) (closable_of_open hP) c
  | dispatch r => exact passes_ite (passes_dispatchOpen .fresh)
  | resume r => exact passes_ite (passes_dispatchOpen .retry)
  | stop r => exact passes_ite (.one (.stop (hP.stops r)))
  | shutdown r => exact passes_ite (passes_close ha ht (hP.closes r))
  | applyFirst =>
      simp only [execute]
      split
      · exact passes_applyAny ha hP _ ht
      · exact .start
  | dispose l => exact passes_dispose ht l

end Calls

/-- **Calls nested to any depth are obedient.** -/
theorem obedient_perform (hP : P.Open) : ∀ depth, Obedient P (perform depth)
  | 0 => fun _ _ _ _ => .start
  | depth + 1 => fun call _ _ ht => passes_execute (obedient_perform hP depth) hP ht call

/-! ## 7. Selecting proofs -/

theorem passes_leaveActive (hs : ∀ r, P.stops r) : Passes P s (s.leaveActive p) := by
  unfold leaveActive
  split
  · exact .start
  · split
    · exact .one (.stop (hs _))
    · exact .start

theorem passes_setStanding (standing : Standing) : Passes P s (s.setStanding r standing) :=
  .one (.host r _ (fun _ => rfl) fun _ => rfl)

theorem passes_addTarget (target : Target) : Passes P s (s.addTarget r target) :=
  .one (.host r _ (fun _ => rfl) fun _ => rfl)

theorem passes_addListener (ht : Tame P s) (home : Home) {calls : ListenerId → List Call}
    (hc : ∀ l, ∀ call ∈ calls l, P.calls call) : Passes P s (s.addListener home calls) := by
  have hnew : ∀ slot, ∀ x ∈ s.listeners ++ [{ home, slot, held := true, calls := calls s.listeners.length }],
      ∀ call ∈ x.calls, P.calls call := by
    intro slot x hx
    rcases List.mem_append.mp hx with hx | hx
    · exact ht.listener x hx
    · rw [List.mem_singleton.mp hx]
      exact hc _
  unfold addListener
  cases home with
  | runner r => exact (Passes.one (.clients ht.sink (hnew _))).trans (passes_addTarget _)
  | registry => exact (Passes.one (.clients ht.sink (hnew _))).more (.desk _ fun _ => Or.inl)

/-- A sink of its own is no runner. -/
theorem passes_subscribe (ht : Tame P s) {react : Nat → Event → List ProofCall}
    (hc : ∀ k e, ∀ call ∈ react k e, ∀ p, P.calls (.proof p call)) :
    Passes P s (s.subscribe p react).2 := by
  have hsinks : ∀ c ∈ s.sinks ++ [{ react, shown := 0 }], ∀ k e, ∀ call ∈ c.react k e, ∀ p,
      P.calls (.proof p call) := by
    intro c hm
    rcases List.mem_append.mp hm with hm | hm
    · exact ht.sink c hm
    · rw [List.mem_singleton.mp hm]
      exact hc
  refine (Passes.one (.clients hsinks ht.listener)).more
    (.watch p (Watched.addSubscriber (.client s.sinks.length)) (fun _ => ⟨rfl, rfl, rfl⟩) fun w x hx => ?_)
  rcases List.mem_append.mp hx with hx | hx
  · exact Or.inl hx
  · rw [List.mem_singleton.mp hx]
    exact Or.inr ⟨_, rfl⟩

section Selection

variable {again : Again} (ha : Obedient P again)

include ha

/-- A candidate for its own proof is registered, or closed. -/
theorem passes_register (ht : Tame P s) {candidate : RunnerId} (hc : candidate < s.runners.length)
    (hp : (s.runner candidate).proof = p) (hcl : P.closes candidate) :
    Passes P s (register again s p candidate).2 := by
  have h0 : Passes P s (s.addTarget candidate (.registry p)) := passes_addTarget _
  unfold register
  simp only
  split
  · exact h0.trans (passes_close ha (tame_passes ht h0) hcl)
  · have h1 := h0.trans (passes_setStanding (r := candidate) .held)
    have hg := grows_passes h1
    refine h1.more (.desk _ fun e he => ?_)
    rcases List.mem_append.mp he with he | he
    · exact Or.inl he
    · rw [List.mem_singleton.mp he]
      exact Or.inr ⟨Nat.lt_of_lt_of_le hc hg.runners, (hg.watches candidate hc).trans hp⟩

theorem passes_activate (ht : Tame P s) (mode : Mode) : Passes P s (activate again s p r mode).2 := by
  have h0 : Passes P s { s with registry := { s.registry with active := some p } } :=
    .one (.desk _ fun _ => Or.inl)
  have h1 := h0.trans (passes_dispatchOpen (r := r) mode)
  exact h1.trans (passes_notifyObservers ha (tame_passes ht h1))

variable (hs : ∀ r, P.stops r)

include hs

theorem passes_selectWith (ht : Tame P s) (hn : ∀ r, s.runners.length ≤ r → P.closes r)
    {during : Session → Session}
    (hd : ∀ s', Tame P s' → Grows s s' → Passes P s' (during s')) :
    Passes P s (selectWith again during s p).2 := by
  have h0 : Passes P s (s.leaveActive p) := passes_leaveActive hs
  unfold selectWith
  simp only
  split
  · exact h0.trans (passes_activate ha (tame_passes ht h0) _)
  · have h1 : Passes P s ((s.leaveActive p).enlist p s.registry.settings).2 :=
      h0.more (.enlist p s.registry.settings)
    have hd' := hd _ (tame_passes ht h1) (grows_passes h1)
    have h2 := h1.trans hd'
    have hg := grows_passes hd'
    have hl : (s.leaveActive p).runners.length <
        ((s.leaveActive p).enlist p s.registry.settings).2.runners.length := by
      rw [length_enlist]
      exact Nat.lt_succ_self _
    have h3 := h2.trans (passes_register ha (tame_passes ht h2)
      (Nat.lt_of_lt_of_le hl hg.runners) (by rw [hg.watches _ hl, runner_enlist_self])
      (hn _ (grows_passes h0).runners))
    exact h3.trans (passes_activate ha (tame_passes ht h3) .fresh)

theorem passes_afterSubscribe (ht : Tame P s) (hn : ∀ r, s.runners.length ≤ r → P.closes r) :
    Passes P s (afterSubscribe again p s) := by
  unfold afterSubscribe
  split
  · have h0 : Passes P s (s.modifyProof p fun w =>
        { w with facade := { w.facade with selectOnSubscribe := false } }) :=
      .one (.watch p _ (fun _ => ⟨rfl, rfl, rfl⟩) fun _ _ => Or.inl)
    exact h0.trans (passes_selectWith ha hs (tame_passes ht h0) hn fun _ _ _ => .start)
  · exact .start

theorem passes_select (ht : Tame P s) (hn : ∀ r, s.runners.length ≤ r → P.closes r) :
    Passes P s (select again s p).2 :=
  passes_selectWith ha hs ht hn fun _ ht' hg =>
    passes_afterSubscribe ha hs ht' fun r hr => hn r (Nat.le_trans hg.runners hr)

theorem passes_newRunner (ht : Tame P s) (hn : ∀ r, s.runners.length ≤ r → P.closes r)
    (settings : Settings) : Passes P s (newRunner again s p settings).2 := by
  have h0 : Passes P s (s.enlist p settings).2 := .one (.enlist p settings)
  have h1 := h0.trans (passes_afterSubscribe (p := p) ha hs (tame_passes ht h0)
    fun r hr => hn r (Nat.le_trans (grows_passes h0).runners hr))
  exact h1.trans (passes_setStanding .held)

omit hs

theorem passes_refreshAll (ht : Tame P s) (hr : ∀ e ∈ s.registry.entries, P.refreshes e.2)
    (settings : Settings) : Passes P s (refreshAll again s settings) := by
  have h0 : Passes P s { s with registry := { s.registry with settings } } :=
    .one (.desk _ fun _ => Or.inl)
  have h1 := h0.trans (passes_foldl (f := fun s e => s.refreshSettings e.2 settings)
    s.registry.entries (tame_passes ht h0) fun e he _ _ _ => .one (.refresh (hr e he) settings))
  unfold refreshAll
  simp only
  split
  · rename_i r _
    have h2 := h1.trans (passes_dispatchOpen (r := r) .fresh)
    exact h2.trans (passes_notifyObservers ha (tame_passes ht h2))
  · exact h1.trans (passes_notifyObservers ha (tame_passes ht h1))

theorem passes_shutdownAll (ht : Tame P s) (hc : ∀ e ∈ s.registry.entries, P.closes e.2) :
    Passes P s (shutdownAll again s) := by
  have h0 : Passes P s { s with registry := { s.registry with active := none, entries := [] } } :=
    .one (.desk _ fun _ he => absurd he List.not_mem_nil)
  have h1 := h0.trans (passes_foldl (f := fun s e => close again s e.2) s.registry.entries
    (tame_passes ht h0) fun e he _ ht' _ => passes_close ha ht' (hc e he))
  exact h1.trans (passes_notifyObservers ha (tame_passes ht h1))

end Selection

end Session

end GoalWatch
