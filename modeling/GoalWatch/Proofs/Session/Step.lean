import GoalWatch.Proofs.Runner.Ledger
import GoalWatch.Proofs.Tree.Table
import GoalWatch.Session.Selection

/-!
# Steps of a session

Everything a session does, however calls are nested, is made of the steps named here.

* `License` -- where goals, answers and proofs may come from;
* `Session.Step` -- one step, `Session.Reaches` -- any number of them;
* `Session.Wired` -- who is told of what, which every step keeps;
* `Session.Grows` -- what no step takes back;
* `Session.deeds` -- the marks of one runner in the log;
* `hosts_reaches` -- what every act of a runner keeps, a session keeps of all its runners.
-/

namespace GoalWatch

/-! ## 1. Look-ups -/

namespace Session

variable {s s' : Session} {p q : ProofId} {r k : RunnerId}

theorem proof_modifyProof_of_ne (f : Watched → Watched) (h : q ≠ p) :
    (s.modifyProof p f).proof q = s.proof q := by
  unfold proof modifyProof
  simp [List.getD_eq_getElem?_getD, show p ≠ q from fun e => h e.symm]

theorem proof_modifyProof_self (f : Watched → Watched) (h : p < s.proofs.length) :
    (s.modifyProof p f).proof p = f (s.proof p) := by
  unfold proof modifyProof
  simp [List.getD_eq_getElem?_getD, h]

/-- A proof that the session does not have. -/
theorem proof_of_le (h : s.proofs.length ≤ p) : s.proof p = default := by
  unfold proof
  rw [List.getD_eq_getElem?_getD, List.getElem?_eq_none h]
  rfl

theorem proof_modifyProof_cases (f : Watched → Watched) :
    (s.modifyProof p f).proof q = s.proof q ∨
      q = p ∧ p < s.proofs.length ∧ (s.modifyProof p f).proof q = f (s.proof q) := by
  by_cases h : q = p
  · subst h
    rcases Nat.lt_or_ge q s.proofs.length with hl | hl
    · exact Or.inr ⟨rfl, hl, proof_modifyProof_self f hl⟩
    · left
      rw [proof_of_le hl, proof_of_le]
      simpa [modifyProof] using hl
  · exact Or.inl (proof_modifyProof_of_ne f h)

theorem runner_modifyRunner_of_ne (f : Hosted → Hosted) (h : k ≠ r) :
    (s.modifyRunner r f).runner k = s.runner k := by
  unfold runner modifyRunner
  simp [List.getD_eq_getElem?_getD, show r ≠ k from fun e => h e.symm]

theorem runner_modifyRunner_self (f : Hosted → Hosted) (h : r < s.runners.length) :
    (s.modifyRunner r f).runner r = f (s.runner r) := by
  unfold runner modifyRunner
  simp [List.getD_eq_getElem?_getD, h]

/-- A runner that the session does not have. -/
theorem runner_of_le (h : s.runners.length ≤ r) : s.runner r = default := by
  unfold runner
  rw [List.getD_eq_getElem?_getD, List.getElem?_eq_none h]
  rfl

theorem runner_modifyRunner_cases (f : Hosted → Hosted) :
    (s.modifyRunner r f).runner k = s.runner k ∨
      k = r ∧ r < s.runners.length ∧ (s.modifyRunner r f).runner k = f (s.runner k) := by
  by_cases h : k = r
  · subst h
    rcases Nat.lt_or_ge k s.runners.length with hl | hl
    · exact Or.inr ⟨rfl, hl, runner_modifyRunner_self f hl⟩
    · left
      rw [runner_of_le hl, runner_of_le]
      simpa [modifyRunner] using hl
  · exact Or.inl (runner_modifyRunner_of_ne f h)

@[simp] theorem length_modifyProof (f : Watched → Watched) :
    (s.modifyProof p f).proofs.length = s.proofs.length := List.length_modify ..

@[simp] theorem length_modifyRunner (f : Hosted → Hosted) :
    (s.modifyRunner r f).runners.length = s.runners.length := List.length_modify ..

/-- A subscriber belongs to a proof that the session has. -/
theorem lt_of_mem_subscribers {x : Subscriber} (h : x ∈ (s.proof p).subscribers) :
    p < s.proofs.length := by
  rcases Nat.lt_or_ge p s.proofs.length with hl | hl
  · exact hl
  · rw [proof_of_le hl] at h
    exact absurd h List.not_mem_nil

/-- The runner's own goals: open ones of its proof, or new ones that its proof told of. -/
def Offered (s : Session) (r : RunnerId) (goals : List Goal) : Prop :=
  ∀ g ∈ goals, g ∈ (s.proof (s.runner r).proof).tree.goals ∨
    ∃ new, g ∈ new ∧ (s.runner r).proof < s.proofs.length ∧
      .emitted (s.runner r).proof (.ruleApplied new) ∈ s.log

end Session

/-- The entry says nothing that a runner, an event or a launch depends on. -/
def Entry.isRemark : Entry → Bool
  | .delivered .. | .shown .. | .started .. | .notified .. | .probed .. => true
  | .emitted .. | .requested .. | .completed .. | .stopped .. => false

/-- The mark of a runner that an entry holds. -/
def Entry.deed? (r : RunnerId) : Entry → Option Deed
  | .requested k launch => if k = r then some (.launched launch) else none
  | .completed k batch outcomes => if k = r then some (.completed batch outcomes) else none
  | .stopped k batch => if k = r then some (.stopped batch) else none
  | _ => none

/-- Where things that the session does not make itself may come from. -/
structure License where
  /-- A runner may be handed goals by anyone. -/
  anyGoals : Prop
  /-- A proof may change into any other. -/
  anyProof : Prop
  /-- These answers may arrive. -/
  answers : RunnerId → BatchId → List Outcome → Prop

/-- Nothing comes in from outside. -/
def License.shut : License := ⟨False, False, fun _ _ _ => False⟩

/-- The changes of a runner that give up batches. -/
inductive Runner.GivesUp (c : Runner) : List BatchId × Runner → Prop where
  | stopAll : GivesUp c c.stopAll
  | refresh (settings : Settings) : GivesUp c (c.refresh settings)
  | close : GivesUp c c.close

/-- The changes of a runner that nobody else notices. -/
inductive Runner.Tunes (c : Runner) : Runner → Prop where
  | suspend : Tunes c c.suspend
  | unsuspend : Tunes c c.unsuspend
  | setSolvers (solvers : SolverSet) : Tunes c (c.setSolvers solvers)

theorem Runner.Tunes.act {c c' : Runner} (h : c.Tunes c') : c.Act [] c' := by
  cases h with
  | suspend => exact .suspend
  | unsuspend => exact .unsuspend
  | setSolvers solvers => exact .setSolvers solvers

theorem Runner.GivesUp.act {c : Runner} {result : List BatchId × Runner} (h : c.GivesUp result) :
    c.Act (result.1.map .stopped).reverse result.2 := by
  cases h with
  | stopAll => exact .stopAll
  | refresh settings => exact .refresh settings
  | close => exact .close

namespace Session

/-! ## 2. Steps -/

/-- **One step of a session.** -/
inductive Step (L : License) (s : Session) : Session → Prop where
  /-- Something without consequence is written down. -/
  | remark (es : List Entry) (h : ∀ e ∈ es, e.isRemark = true) : Step L s (s.recordAll es)
  /-- A proof has something to tell, other than new goals. -/
  | announce (p : ProofId) (e : Event) (h : ∀ goals, e ≠ .ruleApplied goals) :
      Step L s (s.record (.emitted p e))
  /-- A rule changes a proof, which then tells of the new goals. -/
  | rule {p : ProofId} {n : NodeId} {name : String} {new : List Sequent} {goals : List Goal}
      {tree : Tree} (h : (s.proof p).tree.applyRule n name new = .ok (goals, tree)) :
      Step L s ((s.setTree p tree).record (.emitted p (.ruleApplied goals)))
  | prune {p : ProofId} {n : NodeId} {tree : Tree} (h : (s.proof p).tree.prune n = .ok tree) :
      Step L s (s.setTree p tree)
  /-- A proof is looked at differently: no one new is told of it, and it holds back nothing new. -/
  | watch (p : ProofId) (f : Watched → Watched) (ht : ∀ w, (f w).tree = w.tree)
      (hs : ∀ w, ∀ x ∈ (f w).subscribers, x ∈ w.subscribers ∨ ∃ i, x.sink = .client i)
      (hh : ∀ w, ∀ e ∈ (f w).held, e ∈ w.held ∨ .emitted p e ∈ s.log) : Step L s (s.modifyProof p f)
  /-- A proof is replaced by any other; its subscribers stay. -/
  | present (h : L.anyProof) (p : ProofId) (tree : Tree) (facade : Facade) :
      Step L s (s.modifyProof p fun w => { w with tree, facade })
  | enlist (p : ProofId) (settings : Settings) : Step L s (s.enlist p settings).2
  /-- A runner's listeners, subscription or owner change. -/
  | host (r : RunnerId) (f : Hosted → Hosted) (hc : ∀ x, (f x).core = x.core)
      (hp : ∀ x, (f x).proof = x.proof) : Step L s (s.modifyRunner r f)
  | handOut (r : RunnerId) (mode : Mode) (goals : List Goal) (h : L.anyGoals ∨ s.Offered r goals) :
      Step L s (s.takeLaunch r ((s.runner r).core.dispatchOpen mode goals)).2
  | tune (r : RunnerId) (core : Runner) (h : (s.runner r).core.Tunes core) : Step L s (s.setCore r core)
  | giveUp (r : RunnerId) (result : List BatchId × Runner) (h : (s.runner r).core.GivesUp result) :
      Step L s (s.giveUp r result)
  | answer {r : RunnerId} {found kept : NodeId → Bool} {batch : BatchId} {outcomes : List Outcome}
      {core : Runner} (hL : L.answers r batch outcomes)
      (h : (s.runner r).core.complete found kept batch outcomes = some core) :
      Step L s ((s.setCore r core).record (.completed r batch outcomes))
  /-- The registry changes; a new entry is one of a runner of that proof. -/
  | desk (g : Registry) (h : ∀ e ∈ g.entries, e ∈ s.registry.entries ∨
      e.2 < s.runners.length ∧ (s.runner e.2).proof = e.1) : Step L s { s with registry := g }
  | clients (sinks : List ClientSink) (listeners : List Listener) :
      Step L s { s with sinks, listeners }
  /-- Tasks end or change their order. -/
  | tasks (ts : List Task) (h : ∀ o, .launch o ∈ ts → .launch o ∈ s.tasks) :
      Step L s { s with tasks := ts }

/-- Any number of steps. -/
inductive Reaches (L : License) (s : Session) : Session → Prop where
  | start : Reaches L s s
  | more {s' s'' : Session} (h : Reaches L s s') (hs : Step L s' s'') : Reaches L s s''

variable {L : License} {s s' s'' : Session} {p : ProofId} {r : RunnerId}

theorem Reaches.one (h : Step L s s') : Reaches L s s' := .more .start h

/-- What every step keeps, any number of steps keeps. -/
theorem reaches_keep {I : Session → Prop} (hI : ∀ {s s'}, I s → Step L s s' → I s') (h0 : I s)
    (h : Reaches L s s') : I s' := by
  induction h with
  | start => exact h0
  | more _ hs ih => exact hI ih hs

/-! ## 3. What no step takes back -/

/-- **What no step takes back**: proofs, runners with the proofs they watch, and what is written down. -/
structure Grows (s s' : Session) : Prop where
  proofs : s'.proofs.length = s.proofs.length
  runners : s.runners.length ≤ s'.runners.length
  watches : ∀ r < s.runners.length, (s'.runner r).proof = (s.runner r).proof
  log : s.log <:+ s'.log

theorem Grows.refl (s : Session) : Grows s s := ⟨rfl, Nat.le_refl _, fun _ _ => rfl, List.suffix_refl _⟩

theorem Grows.trans (h : Grows s s') (h' : Grows s' s'') : Grows s s'' where
  proofs := h'.proofs.trans h.proofs
  runners := Nat.le_trans h.runners h'.runners
  watches r hr := (h'.watches r (Nat.lt_of_lt_of_le hr h.runners)).trans (h.watches r hr)
  log := h.log.trans h'.log

/-- A runner keeps its proof when it is changed in other ways. -/
theorem proof_modifyRunner (f : Hosted → Hosted) (h : ∀ x, (f x).proof = x.proof) (k : RunnerId) :
    ((s.modifyRunner r f).runner k).proof = (s.runner k).proof := by
  rcases runner_modifyRunner_cases (s := s) (r := r) (k := k) f with e | ⟨_, _, e⟩
  · rw [e]
  · rw [e, h]

theorem grows_modifyRunner (f : Hosted → Hosted) (h : ∀ x, (f x).proof = x.proof) :
    Grows s (s.modifyRunner r f) where
  proofs := rfl
  runners := Nat.le_of_eq (length_modifyRunner f).symm
  watches k _ := proof_modifyRunner f h k
  log := List.suffix_refl _

theorem grows_modifyProof (f : Watched → Watched) : Grows s (s.modifyProof p f) where
  proofs := length_modifyProof f
  runners := Nat.le_refl _
  watches _ _ := rfl
  log := List.suffix_refl _

theorem grows_recordAll (es : List Entry) : Grows s (s.recordAll es) where
  proofs := rfl
  runners := Nat.le_refl _
  watches _ _ := rfl
  log := List.suffix_append _ _

theorem grows_record (e : Entry) : Grows s (s.record e) where
  proofs := rfl
  runners := Nat.le_refl _
  watches _ _ := rfl
  log := List.suffix_cons _ _

theorem grows_setCore (core : Runner) : Grows s (s.setCore r core) := grows_modifyRunner _ fun _ => rfl

theorem grows_giveUp (result : List BatchId × Runner) : Grows s (s.giveUp r result) := by
  have h : Grows s ((s.setCore r result.2).recordAll (result.1.map (.stopped r))) :=
    (grows_setCore _).trans (grows_recordAll _)
  exact ⟨h.proofs, h.runners, h.watches, h.log⟩

theorem grows_takeLaunch (result : Option Launch × Runner) : Grows s (s.takeLaunch r result).2 := by
  unfold takeLaunch
  have h : Grows s (s.setCore r result.2) := grows_setCore _
  cases hl : result.1 with
  | none => exact h
  | some launch => exact ⟨h.proofs, h.runners, h.watches, h.log.trans (List.suffix_cons _ _)⟩

/-- A new runner stands after all others. -/
theorem runner_enlist_of_lt (settings : Settings) {k : RunnerId} (h : k < s.runners.length) :
    ((s.enlist p settings).2).runner k = s.runner k := by
  unfold enlist runner modifyProof
  simp [List.getD_eq_getElem?_getD, List.getElem?_append_left h]

theorem runner_enlist_self (settings : Settings) :
    ((s.enlist p settings).2).runner s.runners.length =
      { proof := p, core := { settings }, subscription := some (s.proof p).nextSubscription
        standing := .candidate } := by
  unfold enlist runner modifyProof
  simp [List.getD_eq_getElem?_getD]

theorem proof_enlist_cases {q : ProofId} (settings : Settings) :
    ((s.enlist p settings).2).proof q = s.proof q ∨
      q = p ∧ ((s.enlist p settings).2).proof q =
        (s.proof q).addSubscriber (.runner s.runners.length) := by
  rcases proof_modifyProof_cases (p := p) (q := q)
    (s := { s with runners := s.runners ++ [{ proof := p, core := { settings }
                                              subscription := some (s.proof p).nextSubscription
                                              standing := .candidate }] })
    (Watched.addSubscriber (.runner s.runners.length)) with e | ⟨hq, _, e⟩
  · exact Or.inl e
  · exact Or.inr ⟨hq, e⟩

@[simp] theorem length_enlist (settings : Settings) :
    ((s.enlist p settings).2).runners.length = s.runners.length + 1 := by
  simp [enlist, modifyProof]

theorem grows_enlist (settings : Settings) : Grows s (s.enlist p settings).2 where
  proofs := length_modifyProof _
  runners := by rw [length_enlist]; exact Nat.le_succ _
  watches k hk := by rw [runner_enlist_of_lt settings hk]
  log := List.suffix_refl _

theorem grows_step (h : Step L s s') : Grows s s' := by
  cases h with
  | remark es _ => exact grows_recordAll es
  | announce p e _ => exact grows_record _
  | rule _ => exact (grows_modifyProof _).trans (grows_record _)
  | prune _ => exact grows_modifyProof _
  | watch p f _ _ _ => exact grows_modifyProof f
  | present _ p tree facade => exact grows_modifyProof _
  | enlist p settings => exact grows_enlist settings
  | host r f _ hp => exact grows_modifyRunner f hp
  | handOut r mode goals _ => exact grows_takeLaunch _
  | tune r core _ => exact grows_setCore core
  | giveUp r result _ => exact grows_giveUp result
  | answer _ _ => exact (grows_setCore _).trans (grows_record _)
  | desk | clients | tasks => exact ⟨rfl, Nat.le_refl _, fun _ _ => rfl, List.suffix_refl _⟩

theorem grows_reaches (h : Reaches L s s') : Grows s s' := by
  induction h with
  | start => exact .refl s
  | more _ hs ih => exact ih.trans (grows_step hs)

/-! ## 4. Who is told of what -/

/-- **Who is told of what**: runners of their own proof, of events that were written down; the registry
    keeps runners of their own proof; a launch that is not over was handed out. -/
structure Wired (s : Session) : Prop where
  subscriber : ∀ p, ∀ x ∈ (s.proof p).subscribers, ∀ r, x.sink = .runner r →
    r < s.runners.length ∧ (s.runner r).proof = p
  held : ∀ p, ∀ e ∈ (s.proof p).held, .emitted p e ∈ s.log
  entry : ∀ e ∈ s.registry.entries, e.2 < s.runners.length ∧ (s.runner e.2).proof = e.1
  task : ∀ o, .launch o ∈ s.tasks → .requested o.runner o.launch ∈ s.log

theorem mem_of_runnerFor? {g : Registry} (h : g.runnerFor? p = some r) : (p, r) ∈ g.entries := by
  obtain ⟨before, after, he, _⟩ := List.lookup_eq_some_iff.mp h
  rw [he]
  exact List.mem_append_right _ List.mem_cons_self

/-- A session is still wired when all that is new in it is. -/
theorem Wired.grown (h : Wired s) (hg : Grows s s')
    (hsub : ∀ p, ∀ x ∈ (s'.proof p).subscribers, ∀ r, x.sink = .runner r →
      x ∈ (s.proof p).subscribers ∨ r < s'.runners.length ∧ (s'.runner r).proof = p)
    (hheld : ∀ p, ∀ e ∈ (s'.proof p).held, e ∈ (s.proof p).held ∨ .emitted p e ∈ s'.log)
    (hentry : ∀ e ∈ s'.registry.entries, e ∈ s.registry.entries ∨
      e.2 < s'.runners.length ∧ (s'.runner e.2).proof = e.1)
    (htask : ∀ o, .launch o ∈ s'.tasks → .launch o ∈ s.tasks ∨
      .requested o.runner o.launch ∈ s'.log) : Wired s' where
  subscriber p x hx r hr := by
    rcases hsub p x hx r hr with hx | hn
    · obtain ⟨hl, hp⟩ := h.subscriber p x hx r hr
      exact ⟨Nat.lt_of_lt_of_le hl hg.runners, (hg.watches r hl).trans hp⟩
    · exact hn
  held p e he := (hheld p e he).elim (fun he => hg.log.mem (h.held p e he)) id
  entry e he := by
    rcases hentry e he with he | hn
    · obtain ⟨hl, hp⟩ := h.entry e he
      exact ⟨Nat.lt_of_lt_of_le hl hg.runners, (hg.watches e.2 hl).trans hp⟩
    · exact hn
  task o ho := (htask o ho).elim (fun ho => hg.log.mem (h.task o ho)) id

/-- A change of one proof, by which no runner becomes a subscriber. -/
theorem Wired.modifyProof (h : Wired s) (f : Watched → Watched)
    (hs : ∀ w, ∀ x ∈ (f w).subscribers, x ∈ w.subscribers ∨ ∃ i, x.sink = .client i)
    (hh : ∀ w, ∀ e ∈ (f w).held, e ∈ w.held ∨ .emitted p e ∈ s.log) : Wired (s.modifyProof p f) := by
  refine h.grown (grows_modifyProof f) ?_ ?_ (fun _ => Or.inl) (fun _ => Or.inl)
  · intro q x hx r hr
    rcases proof_modifyProof_cases (s := s) (p := p) (q := q) f with e | ⟨_, _, e⟩
    · rw [e] at hx
      exact Or.inl hx
    · rw [e] at hx
      rcases hs _ x hx with hx | ⟨i, hi⟩
      · exact Or.inl hx
      · rw [hi] at hr
        cases hr
  · intro q e he
    rcases proof_modifyProof_cases (s := s) (p := p) (q := q) f with e' | ⟨rfl, _, e'⟩
    · rw [e'] at he
      exact Or.inl he
    · rw [e'] at he
      exact hh _ e he

/-- A change that leaves proofs, registry and launches alone. -/
theorem Wired.same (h : Wired s) (hg : Grows s s') (hp : s'.proofs = s.proofs)
    (he : s'.registry = s.registry) (ht : s'.tasks = s.tasks) : Wired s' := by
  have hproof : s'.proof = s.proof := by
    funext p
    unfold proof
    rw [hp]
  refine h.grown hg ?_ ?_ ?_ ?_
  · rw [hproof]; exact fun _ _ hx _ _ => Or.inl hx
  · rw [hproof]; exact fun _ _ => Or.inl
  · rw [he]; exact fun _ => Or.inl
  · rw [ht]; exact fun _ => Or.inl

theorem wired_takeLaunch (h : Wired s) (result : Option Launch × Runner) :
    Wired (s.takeLaunch r result).2 := by
  have hg : Grows s (s.takeLaunch r result).2 := grows_takeLaunch result
  have hw : Wired (s.setCore r result.2) := h.same (grows_setCore _) rfl rfl rfl
  unfold takeLaunch at hg ⊢
  cases hl : result.1 with
  | none => exact hw
  | some launch =>
      rw [hl] at hg
      refine h.grown hg (fun _ _ hx _ _ => Or.inl hx) (fun _ _ => Or.inl) (fun _ => Or.inl) fun o ho => ?_
      rcases List.mem_append.mp ho with ho | ho
      · exact Or.inl ho
      · cases List.mem_singleton.mp ho
        exact Or.inr List.mem_cons_self

/-- News for those who wait takes no launch away and brings none. -/
theorem launch_mem_wake {o : Outstanding} : .launch o ∈ (s.wake r).tasks ↔ .launch o ∈ s.tasks := by
  unfold wake
  simp only [List.mem_append, List.mem_filter, List.mem_map]
  constructor
  · rintro (⟨ho, _⟩ | ⟨x, ⟨hx, _⟩, he⟩)
    · exact ho
    · cases x with
      | launch o' =>
          cases he
          exact hx
      | wait w => cases he
  · intro ho
    exact Or.inl ⟨ho, rfl⟩

theorem wired_giveUp (h : Wired s) (result : List BatchId × Runner) : Wired (s.giveUp r result) :=
  h.grown (grows_giveUp result) (fun _ _ hx _ _ => Or.inl hx) (fun _ _ => Or.inl) (fun _ => Or.inl)
    fun _ ho => Or.inl (launch_mem_wake.mp ho)

theorem wired_enlist (h : Wired s) (settings : Settings) : Wired (s.enlist p settings).2 := by
  refine h.grown (grows_enlist settings) ?_ ?_ (fun _ => Or.inl) (fun _ => Or.inl)
  · intro q x hx r hr
    rcases proof_enlist_cases (s := s) (p := p) (q := q) settings with e | ⟨rfl, e⟩
    · rw [e] at hx
      exact Or.inl hx
    · rw [e] at hx
      rcases List.mem_append.mp hx with hx | hx
      · exact Or.inl hx
      · rw [List.mem_singleton.mp hx] at hr
        cases hr
        refine Or.inr ⟨by rw [length_enlist]; exact Nat.lt_succ_self _, ?_⟩
        rw [runner_enlist_self]
  · intro q e he
    rcases proof_enlist_cases (s := s) (p := p) (q := q) settings with e' | ⟨rfl, e'⟩
    · rw [e'] at he
      exact Or.inl he
    · rw [e'] at he
      exact Or.inl he

theorem wired_setTree (h : Wired s) (tree : Tree) : Wired (s.setTree p tree) :=
  h.modifyProof _ (fun _ _ => Or.inl) (fun _ _ => Or.inl)

theorem wired_step (h : Wired s) (hs : Step L s s') : Wired s' := by
  have hg : Grows s s' := grows_step hs
  cases hs with
  | remark es _ => exact h.same hg rfl rfl rfl
  | announce p e _ => exact h.same hg rfl rfl rfl
  | rule _ => exact (wired_setTree h _).same (grows_record _) rfl rfl rfl
  | prune _ => exact wired_setTree h _
  | watch p f _ hs hh => exact h.modifyProof f hs hh
  | present _ p tree facade => exact h.modifyProof _ (fun _ _ => Or.inl) (fun _ _ => Or.inl)
  | enlist p settings => exact wired_enlist h settings
  | host r f _ _ => exact h.same hg rfl rfl rfl
  | handOut r mode goals _ => exact wired_takeLaunch h _
  | tune r core _ => exact h.same hg rfl rfl rfl
  | giveUp r result _ => exact wired_giveUp h result
  | answer _ _ => exact h.same hg rfl rfl rfl
  | desk g hd =>
      exact h.grown hg (fun _ _ hx _ _ => Or.inl hx) (fun _ _ => Or.inl) hd (fun _ => Or.inl)
  | clients => exact h.same hg rfl rfl rfl
  | tasks ts ht =>
      exact h.grown hg (fun _ _ hx _ _ => Or.inl hx) (fun _ _ => Or.inl) (fun _ => Or.inl)
        fun o ho => Or.inl (ht o ho)

theorem wired_reaches (h : Wired s) (hr : Reaches L s s') : Wired s' := reaches_keep wired_step h hr

/-! ## 5. The marks of one runner -/

/-- **The marks of a runner**, the newest first. -/
def deeds (s : Session) (r : RunnerId) : List Deed := s.log.filterMap (Entry.deed? r)

theorem deeds_recordAll (es : List Entry) (h : ∀ e ∈ es, e.deed? r = none) :
    (s.recordAll es).deeds r = s.deeds r := by
  unfold deeds recordAll
  have hn : es.reverse.filterMap (Entry.deed? r) = [] :=
    List.filterMap_eq_nil_iff.mpr fun e he => h e (List.mem_reverse.mp he)
  rw [List.filterMap_append, hn, List.nil_append]

theorem deed?_of_isRemark {e : Entry} (h : e.isRemark = true) : e.deed? r = none := by
  cases e with
  | emitted | requested | completed | stopped => cases h
  | delivered | shown | started | notified | probed => rfl

/-- What a step makes of a runner that was there: acts, whose marks are the newest in the log. -/
def Ran (s s' : Session) (r : RunnerId) : Prop :=
  ∃ ds, Runner.Acts (s.runner r).core ds (s'.runner r).core ∧ s'.deeds r = ds ++ s.deeds r

theorem Ran.idle (hc : (s'.runner r).core = (s.runner r).core) (hd : s'.deeds r = s.deeds r) :
    Ran s s' r := ⟨[], by rw [hc]; exact .start, hd⟩

/-- A change of one runner's memory with the entries that tell of it: of that runner it is an act, and for
    every other runner nothing happens. -/
theorem ran_setCore (r : RunnerId) {core : Runner} {ds : List Deed} {k : RunnerId}
    (hk : k < s.runners.length)
    (ha : Runner.Acts (s.runner r).core ds core) (hcore : s'.runner = (s.setCore r core).runner)
    (hself : s'.deeds r = ds ++ s.deeds r) (hother : ∀ k ≠ r, s'.deeds k = s.deeds k) : Ran s s' k := by
  by_cases h : k = r
  · subst h
    refine ⟨ds, ?_, hself⟩
    rw [hcore, setCore, runner_modifyRunner_self _ hk]
    exact ha
  · refine .idle ?_ (hother k h)
    rw [hcore, setCore, runner_modifyRunner_of_ne _ h]

theorem deeds_takeLaunch (result : Option Launch × Runner) (k : RunnerId) :
    (s.takeLaunch r result).2.deeds k =
      (if r = k then result.1.toList.map Deed.launched else []) ++ s.deeds k := by
  unfold takeLaunch
  cases result.1 with
  | none => simp [deeds, setCore, modifyRunner]
  | some launch =>
      show (Entry.requested r launch :: s.log).filterMap (Entry.deed? k) = _
      by_cases h : r = k <;> simp [Entry.deed?, h, deeds]

theorem deeds_giveUp (result : List BatchId × Runner) (k : RunnerId) :
    (s.giveUp r result).deeds k =
      (if r = k then (result.1.map Deed.stopped).reverse else []) ++ s.deeds k := by
  show ((result.1.map (Entry.stopped r)).reverse ++ s.log).filterMap (Entry.deed? k) = _
  rw [List.filterMap_append, List.filterMap_reverse, List.filterMap_map]
  by_cases h : r = k
  · subst h
    have he : (Entry.deed? r ∘ Entry.stopped r) = fun b => some (Deed.stopped b) := by
      funext b
      simp [Entry.deed?]
    rw [if_pos rfl, he, List.filterMap_eq_map']
    rfl
  · have he : (Entry.deed? k ∘ Entry.stopped r) = fun _ => none := by
      funext b
      simp [Entry.deed?, h]
    rw [if_neg h, he]
    simp [deeds]

theorem deeds_completed (core : Runner) (batch : BatchId) (outcomes : List Outcome) (k : RunnerId) :
    ((s.setCore r core).record (.completed r batch outcomes)).deeds k =
      (if r = k then [Deed.completed batch outcomes] else []) ++ s.deeds k := by
  show (Entry.completed r batch outcomes :: s.log).filterMap (Entry.deed? k) = _
  by_cases h : r = k <;> simp [Entry.deed?, h, deeds]

/-- **Of a runner that is there, a step makes acts.** -/
theorem ran_step (hs : Step L s s') {k : RunnerId} (hk : k < s.runners.length) : Ran s s' k := by
  cases hs with
  | remark es h => exact .idle rfl (deeds_recordAll es fun e he => deed?_of_isRemark (h e he))
  | announce p e _ => exact .idle rfl rfl
  | rule _ => exact .idle rfl rfl
  | prune | watch | present => exact .idle rfl rfl
  | enlist p settings => exact .idle (by rw [runner_enlist_of_lt settings hk]) rfl
  | host r f hc _ =>
      refine .idle ?_ rfl
      rcases runner_modifyRunner_cases (s := s) (r := r) (k := k) f with e | ⟨_, _, e⟩
      · rw [e]
      · rw [e, hc]
  | handOut r mode goals _ =>
      refine ran_setCore r hk (Runner.acts_dispatchOpen _ mode goals) ?_ ?_ ?_
      · unfold takeLaunch
        cases (Runner.dispatchOpen _ mode goals).1 <;> rfl
      · rw [deeds_takeLaunch, if_pos rfl]
      · intro k hne
        rw [deeds_takeLaunch, if_neg fun e => hne e.symm, List.nil_append]
  | tune r core h => exact ran_setCore r hk (.one (Runner.Tunes.act h)) rfl rfl fun _ _ => rfl
  | giveUp r result h =>
      refine ran_setCore r hk (.one (Runner.GivesUp.act h)) rfl ?_ ?_
      · rw [deeds_giveUp, if_pos rfl]
      · intro k hne
        rw [deeds_giveUp, if_neg fun e => hne e.symm, List.nil_append]
  | answer _ h =>
      refine ran_setCore _ hk (.one (.complete h)) rfl ?_ ?_
      · rw [deeds_completed, if_pos rfl]
      · intro k hne
        rw [deeds_completed, if_neg fun e => hne e.symm, List.nil_append]
  | desk | clients | tasks => exact .idle rfl rfl

/-- A runner that the session does not have leaves no marks. -/
theorem deeds_step_of_le (hs : Step L s s') {k : RunnerId} (hk : s.runners.length ≤ k) :
    s'.deeds k = s.deeds k := by
  cases hs with
  | remark es h => exact deeds_recordAll es fun e he => deed?_of_isRemark (h e he)
  | handOut r mode goals _ =>
      rw [deeds_takeLaunch]
      split
      · rename_i e
        subst e
        rw [runner_of_le hk]
        rcases Runner.dispatch_cases (default : Runner) mode goals with ⟨e, _⟩ | ⟨_, h, _⟩
        · have hn : (Runner.dispatchOpen (default : Hosted).core mode goals).1 = none := by
            unfold Runner.dispatchOpen
            split
            · exact congrArg Prod.fst e
            · rfl
          rw [hn]
          rfl
        · exact absurd h (by decide)
      · rfl
  | giveUp r result h =>
      rw [deeds_giveUp]
      split
      · rename_i e
        subst e
        rw [runner_of_le hk] at h
        cases h <;> rfl
      · rfl
  | @answer r _ _ _ _ _ _ h =>
      rw [deeds_completed]
      split
      · rename_i e
        subst e
        rw [runner_of_le hk] at h
        exact absurd (Runner.complete_cases.mp h).1 List.not_mem_nil
      · rfl
  | announce | rule | prune | watch | present | enlist | host | tune | desk | clients | tasks => rfl

theorem Ran.trans (h : Ran s s' r) (h' : Ran s' s'' r) : Ran s s'' r := by
  obtain ⟨ds, ha, hd⟩ := h
  obtain ⟨es, ha', hd'⟩ := h'
  exact ⟨es ++ ds, ha.trans ha', by rw [hd', hd, List.append_assoc]⟩

/-- What holds of every runner of a session and its marks; of others there are none. -/
structure Hosts (I : Runner → List Deed → Prop) (s : Session) : Prop where
  hosted : ∀ r < s.runners.length, I (s.runner r).core (s.deeds r)
  unborn : ∀ r, s.runners.length ≤ r → s.deeds r = []

/-- **What holds of a new runner and is kept by acts holds of every runner of a session.** -/
theorem hosts_step {I : Runner → List Deed → Prop} (h0 : ∀ settings, I { settings } [])
    (hI : ∀ {c c' : Runner} {ds es : List Deed}, I c es → Runner.Act c ds c' → I c' (ds ++ es))
    (h : Hosts I s) (hs : Step L s s') : Hosts I s' := by
  refine ⟨fun r hr => ?_, fun r hr => ?_⟩
  · rcases Nat.lt_or_ge r s.runners.length with hl | hl
    · obtain ⟨ds, ha, hd⟩ := ran_step hs hl
      rw [hd]
      exact Runner.acts_keep hI (h.hosted r hl) ha
    · -- only a new runner is there now and was not before
      rw [deeds_step_of_le hs hl, h.unborn r hl]
      cases hs with
      | enlist p settings =>
          rw [length_enlist] at hr
          have he : r = s.runners.length := Nat.le_antisymm (Nat.le_of_lt_succ hr) hl
          subst he
          rw [runner_enlist_self]
          exact h0 settings
      | handOut r' mode goals _ =>
          refine absurd hr (Nat.not_lt.mpr ?_)
          unfold takeLaunch
          split
          · simpa [setCore] using hl
          · simpa [setCore, record] using hl
      | host | tune | giveUp | answer =>
          refine absurd hr (Nat.not_lt.mpr ?_)
          simpa [giveUp, setCore, recordAll, record, wake] using hl
      | remark | announce | rule | prune | watch | present | desk | clients | tasks =>
          exact absurd hr (Nat.not_lt.mpr hl)
  · have hl : s.runners.length ≤ r := Nat.le_trans (grows_step hs).runners hr
    rw [deeds_step_of_le hs hl, h.unborn r hl]

theorem hosts_reaches {I : Runner → List Deed → Prop} (h0 : ∀ settings, I { settings } [])
    (hI : ∀ {c c' : Runner} {ds es : List Deed}, I c es → Runner.Act c ds c' → I c' (ds ++ es))
    (h : Hosts I s) (hr : Reaches L s s') : Hosts I s' :=
  reaches_keep (fun h hs => hosts_step h0 hI h hs) h hr

end Session

end GoalWatch
