import GoalWatch.Proofs.Session.Step

/-!
# Permitted steps

A step says what a session may turn into, not who asked for it. Here each step is tied to a permit: which
proofs may change, which runners may be told to give up batches, to take over settings or to end, and what
clients may ask for.

* `Permit` -- what may happen to a session;
* `Session.Pass` -- one permitted step, `Session.Passes` -- any number of them;
* `Passes.reaches` -- permitted steps are steps;
* `Session.Tame` -- a wired session whose clients ask for nothing but what is permitted;
* `Session.Passive` -- one whose clients only look on;
* `Session.Unedited`, `unedited_passes` -- a proof that may not change stays as it is.
-/

namespace GoalWatch

/-- **What may happen to a session**, besides what every session does on its own. -/
structure Permit extends License where
  /-- Clients may ask for these. -/
  calls : Call → Prop
  /-- These proofs may change, or change what they hold back. -/
  edits : ProofId → Prop
  /-- These runners may be told to give up their batches, -/
  stops : RunnerId → Prop
  /-- to take over new settings, -/
  refreshes : RunnerId → Prop
  /-- to end. -/
  closes : RunnerId → Prop

/-- Nothing is forbidden but what the license does not allow. -/
def License.permit (L : License) : Permit :=
  { L with
    calls := fun _ => True
    edits := fun _ => True
    stops := fun _ => True
    refreshes := fun _ => True
    closes := fun _ => True }

namespace Session

/-- **A wired session whose clients ask for nothing but what is permitted.** -/
structure Tame (P : Permit) (s : Session) : Prop extends Wired s where
  sink : ∀ c ∈ s.sinks, ∀ k e, ∀ call ∈ c.react k e, ∀ p, P.calls (.proof p call)
  listener : ∀ x ∈ s.listeners, ∀ call ∈ x.calls, P.calls call

/-! ## 1. Permitted steps -/

/-- **One permitted step of a session.** -/
inductive Pass (P : Permit) (s : Session) : Session → Prop where
  | remark (es : List Entry) (h : ∀ e ∈ es, e.isRemark = true) : Pass P s (s.recordAll es)
  | announce (p : ProofId) (e : Event) (h : ∀ goals, e ≠ .ruleApplied goals) :
      Pass P s (s.record (.emitted p e))
  | rule {p : ProofId} {n : NodeId} {name : String} {new : List Sequent} {goals : List Goal}
      {tree : Tree} (hp : P.edits p) (h : (s.proof p).tree.applyRule n name new = .ok (goals, tree)) :
      Pass P s ((s.setTree p tree).record (.emitted p (.ruleApplied goals)))
  | prune {p : ProofId} {n : NodeId} {tree : Tree} (hp : P.edits p)
      (h : (s.proof p).tree.prune n = .ok tree) : Pass P s (s.setTree p tree)
  /-- A proof changes what it holds back. -/
  | hold {p : ProofId} (hp : P.edits p) (f : Watched → Watched)
      (hf : ∀ w, f w = { w with paused := (f w).paused, held := (f w).held })
      (hh : ∀ w, ∀ e ∈ (f w).held, e ∈ w.held ∨ .emitted p e ∈ s.log) : Pass P s (s.modifyProof p f)
  /-- A proof is looked at differently; no one new is told of it but clients. -/
  | watch (p : ProofId) (f : Watched → Watched)
      (hf : ∀ w, (f w).tree = w.tree ∧ (f w).paused = w.paused ∧ (f w).held = w.held)
      (hs : ∀ w, ∀ x ∈ (f w).subscribers, x ∈ w.subscribers ∨ ∃ i, x.sink = .client i) :
      Pass P s (s.modifyProof p f)
  | present {p : ProofId} (h : P.anyProof) (hp : P.edits p) (tree : Tree) (facade : Facade) :
      Pass P s (s.modifyProof p fun w => { w with tree, facade })
  | enlist (p : ProofId) (settings : Settings) : Pass P s (s.enlist p settings).2
  | host (r : RunnerId) (f : Hosted → Hosted) (hc : ∀ x, (f x).core = x.core)
      (hp : ∀ x, (f x).proof = x.proof) : Pass P s (s.modifyRunner r f)
  /-- A runner picks among goals that it may get; a retry picks among open ones. -/
  | handOut (r : RunnerId) (mode : Mode) (goals : List Goal) (h : P.anyGoals ∨ s.Offered r goals)
      (ho : mode = .retry → ∀ g ∈ goals, g ∈ (s.proof (s.runner r).proof).tree.goals) :
      Pass P s (s.takeLaunch r ((s.runner r).core.dispatchOpen mode goals)).2
  | tune (r : RunnerId) (core : Runner) (h : (s.runner r).core.Tunes core) : Pass P s (s.setCore r core)
  | stop {r : RunnerId} (h : P.stops r) : Pass P s (s.stopAll r)
  | refresh {r : RunnerId} (h : P.refreshes r) (settings : Settings) :
      Pass P s (s.refreshSettings r settings)
  | close {r : RunnerId} (h : P.closes r) : Pass P s (s.giveUp r (s.runner r).core.close)
  /-- Answers arrive, and the proof of the runner says which nodes it has. -/
  | answer {r : RunnerId} {batch : BatchId} {outcomes : List Outcome} {core : Runner}
      (hL : P.answers r batch outcomes)
      (h : (s.runner r).core.complete (s.proof (s.runner r).proof).tree.contains
        (s.proof (s.runner r).proof).tree.contains batch outcomes = some core) :
      Pass P s ((s.setCore r core).record (.completed r batch outcomes))
  | desk (g : Registry) (h : ∀ e ∈ g.entries, e ∈ s.registry.entries ∨
      e.2 < s.runners.length ∧ (s.runner e.2).proof = e.1) : Pass P s { s with registry := g }
  | clients {sinks : List ClientSink} {listeners : List Listener}
      (hs : ∀ c ∈ sinks, ∀ k e, ∀ call ∈ c.react k e, ∀ p, P.calls (.proof p call))
      (hl : ∀ x ∈ listeners, ∀ call ∈ x.calls, P.calls call) : Pass P s { s with sinks, listeners }
  | tasks (ts : List Task) (h : ∀ o, .launch o ∈ ts → .launch o ∈ s.tasks) :
      Pass P s { s with tasks := ts }

/-- Any number of permitted steps. -/
inductive Passes (P : Permit) (s : Session) : Session → Prop where
  | start : Passes P s s
  | more {s' s'' : Session} (h : Passes P s s') (hs : Pass P s' s'') : Passes P s s''

variable {P Q : Permit} {s s' s'' : Session} {p : ProofId} {r : RunnerId}

theorem Passes.one (h : Pass P s s') : Passes P s s' := .more .start h

theorem Passes.trans (h : Passes P s s') (h' : Passes P s' s'') : Passes P s s'' := by
  induction h' with
  | start => exact h
  | more _ hs ih => exact .more ih hs

/-- What every permitted step keeps, any number of them keeps. -/
theorem passes_keep {I : Session → Prop} (hI : ∀ {s s'}, I s → Pass P s s' → I s') (h0 : I s)
    (h : Passes P s s') : I s' := by
  induction h with
  | start => exact h0
  | more _ hs ih => exact hI ih hs

/-! ## 2. Permitted steps are steps -/

theorem Pass.step (h : Pass P s s') : Step P.toLicense s s' := by
  cases h with
  | remark es he => exact .remark es he
  | announce p e he => exact .announce p e he
  | rule _ hr => exact .rule hr
  | prune _ hp => exact .prune hp
  | hold _ f hf hh =>
      refine .watch _ f (fun w => by rw [hf w]) (fun w x hx => ?_) hh
      rw [hf w] at hx
      exact Or.inl hx
  | watch p f hf hs =>
      refine .watch p f (fun w => (hf w).1) hs fun w e he => ?_
      rw [(hf w).2.2] at he
      exact Or.inl he
  | present ha _ tree facade => exact .present ha _ tree facade
  | enlist p settings => exact .enlist p settings
  | host r f hc hp => exact .host r f hc hp
  | handOut r mode goals hg _ => exact .handOut r mode goals hg
  | tune r core ht => exact .tune r core ht
  | stop _ => exact .giveUp _ _ .stopAll
  | refresh _ settings => exact .giveUp _ _ (.refresh settings)
  | close _ => exact .giveUp _ _ .close
  | answer hL hc => exact .answer hL hc
  | desk g hd => exact .desk g hd
  | clients _ _ => exact .clients _ _
  | tasks ts ht => exact .tasks ts ht

theorem Passes.reaches (h : Passes P s s') : Reaches P.toLicense s s' := by
  induction h with
  | start => exact .start
  | more _ hs ih => exact .more ih hs.step

theorem grows_passes (h : Passes P s s') : Grows s s' := grows_reaches h.reaches

/-! ## 3. Clients -/

theorem clients_takeLaunch (result : Option Launch × Runner) :
    (s.takeLaunch r result).2.sinks = s.sinks ∧ (s.takeLaunch r result).2.listeners = s.listeners := by
  unfold takeLaunch
  cases result.1 <;> exact ⟨rfl, rfl⟩

theorem tame_pass (h : Tame P s) (hs : Pass P s s') : Tame P s' := by
  have hw : Wired s' := wired_step h.toWired hs.step
  cases hs with
  | clients hs hl => exact ⟨hw, hs, hl⟩
  | handOut r mode goals _ _ =>
      obtain ⟨e, e'⟩ := clients_takeLaunch (s := s) (r := r) ((s.runner r).core.dispatchOpen mode goals)
      exact ⟨hw, by rw [e]; exact h.sink, by rw [e']; exact h.listener⟩
  | remark | announce | rule | prune | hold | watch | present | enlist | host | tune | stop | refresh
  | close | answer | desk | tasks => exact ⟨hw, h.sink, h.listener⟩

theorem tame_passes (h : Tame P s) (hs : Passes P s s') : Tame P s' := passes_keep tame_pass h hs

/-- **A wired session whose clients only look on.** -/
structure Passive (s : Session) : Prop extends Wired s where
  sink : ∀ c ∈ s.sinks, ∀ k e, c.react k e = []
  listener : ∀ x ∈ s.listeners, x.calls = []

/-- Clients that only look on are tame under any permit. -/
theorem Passive.tame (h : Passive s) : Tame P s := by
  refine ⟨h.toWired, fun c hc k e call hm => ?_, fun x hx call hm => ?_⟩
  · rw [h.sink c hc k e] at hm
    exact absurd hm List.not_mem_nil
  · rw [h.listener x hx] at hm
    exact absurd hm List.not_mem_nil

/-- Where clients may ask for nothing, they only look on. -/
theorem passive_passes (hP : ∀ call, ¬ P.calls call) (h : Passive s) (hs : Passes P s s') :
    Passive s' := by
  have ht : Tame P s' := tame_passes h.tame hs
  refine ⟨ht.toWired, fun c hc k e => ?_, fun x hx => ?_⟩
  · exact List.eq_nil_iff_forall_not_mem.mpr fun call hm => hP _ (ht.sink c hc k e call hm 0)
  · exact List.eq_nil_iff_forall_not_mem.mpr fun call hm => hP _ (ht.listener x hx call hm)

/-- When clients may ask for anything, every wired session is tame. -/
theorem Wired.tame (h : Wired s) (hP : ∀ call, P.calls call) : Tame P s :=
  ⟨h, fun _ _ _ _ _ _ _ => hP _, fun _ _ _ _ => hP _⟩

/-! ## 4. Proofs that may not change -/

/-- A proof has its tree, and holds back what it did. -/
structure Unedited (s s' : Session) (p : ProofId) : Prop where
  tree : (s'.proof p).tree = (s.proof p).tree
  paused : (s'.proof p).paused = (s.proof p).paused
  held : (s'.proof p).held = (s.proof p).held

theorem Unedited.refl (s : Session) (p : ProofId) : Unedited s s p := ⟨rfl, rfl, rfl⟩

theorem Unedited.trans (h : Unedited s s' p) (h' : Unedited s' s'' p) : Unedited s s'' p :=
  ⟨h'.tree.trans h.tree, h'.paused.trans h.paused, h'.held.trans h.held⟩

theorem Unedited.of_eq (h : s'.proof p = s.proof p) : Unedited s s' p := by
  constructor <;> rw [h]

theorem proof_takeLaunch (result : Option Launch × Runner) (p : ProofId) :
    (s.takeLaunch r result).2.proof p = s.proof p := by
  unfold takeLaunch
  cases result.1 <;> rfl

theorem tree_setTree (k p : ProofId) (tree : Tree) :
    ((s.setTree k tree).proof p).tree = (s.proof p).tree ∨
      p = k ∧ ((s.setTree k tree).proof p).tree = tree := by
  rcases proof_modifyProof_cases (s := s) (p := k) (q := p) (fun w => { w with tree })
    with e | ⟨hp, _, e⟩
  · exact Or.inl (by rw [setTree, e])
  · exact Or.inr ⟨hp, by rw [setTree, e]⟩

/-- **A proof that may not change stays as it is.** -/
theorem unedited_pass (hp : ¬ P.edits p) (hs : Pass P s s') : Unedited s s' p := by
  cases hs with
  | @rule q _ _ _ _ _ he _ | @prune q _ _ he _ | @hold q he _ _ _ | @present q _ he _ _ =>
      have hne : p ≠ q := fun e => hp (e ▸ he)
      exact .of_eq (proof_modifyProof_of_ne _ hne)
  | watch q f hf _ =>
      rcases proof_modifyProof_cases (s := s) (p := q) (q := p) f with e | ⟨_, _, e⟩
      · exact .of_eq e
      · constructor <;> rw [e]
        · exact (hf _).1
        · exact (hf _).2.1
        · exact (hf _).2.2
  | enlist q settings =>
      rcases proof_enlist_cases (s := s) (p := q) (q := p) settings with e | ⟨_, e⟩
      · exact .of_eq e
      · constructor <;> rw [e] <;> rfl
  | handOut r mode goals _ _ => exact .of_eq (proof_takeLaunch _ p)
  | remark | announce | host | tune | stop | refresh | close | answer | desk | clients | tasks =>
      exact .of_eq rfl

theorem unedited_passes (hp : ¬ P.edits p) (h : Passes P s s') : Unedited s s' p := by
  induction h with
  | start => exact .refl s p
  | more _ hs ih => exact ih.trans (unedited_pass hp hs)

end Session

end GoalWatch
