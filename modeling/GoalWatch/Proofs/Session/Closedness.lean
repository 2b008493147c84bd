import GoalWatch.Proofs.Session.Delivery

/-!
# What events say about closedness

Nobody who is called changes a proof: then the events of the proof say at any time whether it is closed. It is
closed if the last of those that say something about it says so.

* `Session.verdicts` -- what the events of a proof said about it being closed, in order;
* `Spaced` -- a proof is said to be closed again only after it was said to be open;
* `Leave.unedited` -- clients may ask for anything but for a change of one proof;
* `Course.verdicts` -- what they may ask for leaves its tree and the verdicts alone;
* `Session.Says` -- a step leads to a tree and says something about it;
* `says_applyRule`, `says_prune` -- so do the two changes of a proof;
* `truthful_move`, `truthful_run` -- the verdicts are right after any moves;
* **`events_tell_closedness`** -- all that is said about it.
-/

namespace GoalWatch

/-! ## 1. Verdicts -/

theorem Event.verdict?_eq_true {e : Event} : e.verdict? = some true ↔ e = .proofClosed := by
  cases e <;> simp [Event.verdict?]

theorem Event.verdict?_eq_false {e : Event} : e.verdict? = some false ↔ e = .treeStructureChanged := by
  cases e <;> simp [Event.verdict?]

/-- A new tree is open, even one without goals. -/
theorem Tree.IsNew.isClosed {t : Tree} (h : t.IsNew) : t.isClosed = false := by
  cases h with
  | ofRoot q => rfl
  | ofGoals goals =>
      cases goals with
      | nil => rfl
      | cons q rest =>
          rw [← Bool.not_eq_true, (Tree.shape_ofGoals _).isClosed_iff,
            Tree.goals_ofGoals (List.cons_ne_nil q rest)]
          exact List.mapIdx_ne_nil_iff.mpr (List.cons_ne_nil q rest)

/-- **Between two verdicts that a proof is closed there is one that it is open.** -/
def Spaced (vs : List Bool) : Prop := ∀ xs ys zs, vs = xs ++ true :: ys ++ true :: zs → false ∈ ys

/-- The last of two verdicts is the newest one, or both are older. -/
theorem spaced_concat {vs : List Bool} {v : Bool} (h : Spaced vs)
    (hv : ∀ xs ys, vs = xs ++ true :: ys → v = true → false ∈ ys) : Spaced (vs ++ [v]) := by
  intro xs ys zs e
  rcases List.eq_nil_or_concat zs with rfl | ⟨zs, z, rfl⟩
  · obtain ⟨e, e'⟩ := List.append_inj' e rfl
    exact hv xs ys e (List.cons.inj e').1
  · rw [List.concat_eq_append, ← List.cons_append, ← List.append_assoc] at e
    exact h xs ys zs (List.append_inj' e rfl).1

theorem Spaced.opened {vs : List Bool} (h : Spaced vs) : Spaced (vs ++ [false]) :=
  spaced_concat h fun _ _ _ e => by cases e

theorem Spaced.closed {vs : List Bool} (h : Spaced vs) (hl : vs.getLast? ≠ some true) :
    Spaced (vs ++ [true]) := by
  refine spaced_concat h fun xs ys e _ => ?_
  by_contra hnone
  refine hl ?_
  -- without one that it is open, the last verdict is that it is closed
  rw [e, List.getLast?_append_of_ne_nil _ (List.cons_ne_nil _ _), List.getLast?_eq_some_getLast
    (List.cons_ne_nil _ _)]
  have hmem := List.getLast_mem (List.cons_ne_nil true ys)
  rcases List.mem_cons.mp hmem with hlast | hlast
  · rw [hlast]
  · cases hb : (true :: ys).getLast (List.cons_ne_nil true ys) with
    | true => rfl
    | false => exact absurd (hb ▸ hlast) hnone

/-- Of events with such verdicts, two that say closed have one between them that says open. -/
theorem Spaced.between {es : List Event} (h : Spaced (es.filterMap Event.verdict?)) {xs ys zs : List Event}
    (he : es = xs ++ .proofClosed :: ys ++ .proofClosed :: zs) : .treeStructureChanged ∈ ys := by
  have hmem : false ∈ ys.filterMap Event.verdict? := by
    refine h (xs.filterMap Event.verdict?) _ (zs.filterMap Event.verdict?) ?_
    rw [he]
    simp [Event.verdict?]
  obtain ⟨e, hm, hv⟩ := List.mem_filterMap.mp hmem
  rw [← Event.verdict?_eq_false.mp hv]
  exact hm

/-- The call changes the tree of its proof. -/
def ProofCall.isChange : ProofCall → Bool
  | .applyRule .. | .prune _ => true
  | .startAuto | .stopAuto | .pause | .resume | .unsubscribe _ => false

/-- **Clients may ask for anything but for a change of one proof.** They may pause it, and end its pauses. -/
def Leave.unedited (p : ProofId) : Leave where
  calls
    | .proof q call => q ≠ p ∨ call.isChange = false
    | .applyFirst => False
    | .dispatch _ | .resume _ | .stop _ | .shutdown _ | .dispose _ => True
  edits q := q ≠ p
  tells _ := True
  cancels _ _ := True
  joins _ := True

theorem Leave.coherent_unedited (p : ProofId) : (Leave.unedited p).Coherent where
  proof {q call} h := by
    cases call with
    | applyRule | prune => exact ⟨h.resolve_right (fun e => by cases e), trivial⟩
    | startAuto | stopAuto | pause | resume | unsubscribe => trivial
  first h := h.elim

namespace Session

variable {L : Leave} {b s s' s'' : Session} {p q : ProofId} {n : NodeId} {tree tree' : Tree}
  {vs vs' : List Bool}

/-- What the events of a proof said about it being closed, in order. -/
def verdicts (s : Session) (p : ProofId) : List Bool := (emissions (s.told p)).filterMap Event.verdict?

/-! ## 2. What others do leaves them alone -/

theorem verdicts_tell {x : Entry} (h : x.teller? = some p) :
    (s.record x).verdicts p = s.verdicts p ++ (x.event?.bind Event.verdict?).toList := by
  unfold verdicts
  rw [told_record h, emissions_cons, List.filterMap_append]
  cases x.event? with
  | none => rfl
  | some e => cases hv : e.verdict? <;> simp [hv]

theorem verdicts_same (h : s'.told p = s.told p) : s'.verdicts p = s.verdicts p := by
  unfold verdicts
  rw [h]

theorem tree_modifyProof {k : ProofId} {f : Watched → Watched}
    (hf : p = k → (f (s.proof p)).tree = (s.proof p).tree) :
    ((s.modifyProof k f).proof p).tree = (s.proof p).tree := by
  rcases proof_modifyProof_cases (s := s) (p := k) (q := p) f with e | ⟨hk, _, e⟩
  · rw [e]
  · rw [e]
    exact hf hk

theorem tree_stir (hp : ¬ L.edits p) (hs : Stir L s s') : (s'.proof p).tree = (s.proof p).tree := by
  cases hs with
  | @edit q hq => exact tree_modifyProof fun e => absurd (e ▸ hq) hp
  | hold _ f hf | present _ f hf => exact tree_modifyProof fun _ => by rw [hf]
  | cancel => exact tree_modifyProof fun _ => rfl
  | @join q _ react _ =>
      exact tree_modifyProof (s := { s with sinks := s.sinks ++ [{ react, shown := 0 }] }) fun _ => rfl
  | enlist q settings =>
      rcases proof_enlist_cases (s := s) (p := q) (q := p) settings with e | ⟨_, e⟩
      · rw [e]
      · rw [e]
        rfl
  | remark | tell | host | act | desk | clients | tasks => rfl

theorem verdicts_stir (hp : ¬ L.edits p) (hs : Stir L s s') : s'.verdicts p = s.verdicts p := by
  cases hs with
  | remark es h =>
      refine verdicts_same (told_same es.reverse rfl fun x hx => ?_)
      rw [Entry.teller?_of_isAside (h x (List.mem_reverse.mp hx))]
      exact fun e => by cases e
  | @tell q hq x h hv =>
      by_cases hpq : q = p
      · cases hpq
        have hnone : x.event?.bind Event.verdict? = none := by
          cases x with
          | emitted k e =>
              cases h
              exact (hv e rfl).resolve_right hp
          | delivered | shown | requested | started | completed | stopped | notified | probed => rfl
        rw [verdicts_tell h, hnone]
        exact List.append_nil _
      · refine verdicts_same (told_same [x] rfl fun y hy => ?_)
        rw [List.mem_singleton.mp hy, h]
        exact fun e => hpq (Option.some.inj e)
  | @act r ds core tasks _ _ =>
      refine verdicts_same (told_same (ds.map (Deed.entry r)) rfl fun x hx => ?_)
      obtain ⟨d, _, rfl⟩ := List.mem_map.mp hx
      rw [Entry.teller?_deed]
      exact fun e => by cases e
  | edit | hold | present | cancel | join | enlist | host | desk | clients | tasks => rfl

/-- **What others do leaves alone what is said about a proof being closed.** -/
theorem Course.verdicts (hp : ¬ L.edits p) (h : Course L b s) :
    (s.proof p).tree = (b.proof p).tree ∧ s.verdicts p = b.verdicts p := by
  refine course_keep (I := fun s => (s.proof p).tree = (b.proof p).tree ∧ s.verdicts p = b.verdicts p)
    (fun hk hs => ⟨(tree_stir hp hs).trans hk.1, (verdicts_stir hp hs).trans hk.2⟩)
    (fun {s} r hk => ⟨hk.1, Eq.trans ?_ hk.2⟩) (fun {s} r h hk => ⟨Eq.trans ?_ hk.1, Eq.trans ?_ hk.2⟩) h
    ⟨rfl, rfl⟩
  · refine verdicts_same (told_same _ log_ended fun x hx => ?_)
    obtain ⟨_, _, rfl⟩ := List.mem_map.mp (List.mem_reverse.mp hx)
    exact fun e => by cases e
  · rcases proof_parted (s := s) (r := r) (q := p) h with e | ⟨_, _, _, e⟩ <;> rw [e]
  · exact verdicts_same (told_same [] (log_parted h) fun _ h => absurd h List.not_mem_nil)

/-! ## 3. Changes of the proof -/

/-- **A step leads to a tree and says `vs` about it.** -/
structure Says (p : ProofId) (s s' : Session) (tree : Tree) (vs : List Bool) : Prop where
  mannered : Mannered (.unedited p) s'
  proofs : s'.proofs.length = s.proofs.length
  tree : (s'.proof p).tree = tree
  verdicts : s'.verdicts p = s.verdicts p ++ vs
  log : s.log <:+ s'.log

theorem Says.trans (h : Says p s s' tree vs) (h' : Says p s' s'' tree' vs') :
    Says p s s'' tree' (vs ++ vs') where
  mannered := h'.mannered
  proofs := h'.proofs.trans h.proofs
  tree := h'.tree
  verdicts := by rw [h'.verdicts, h.verdicts, List.append_assoc]
  log := h.log.trans h'.log

theorem not_edits_unedited : ¬ (Leave.unedited p).edits p := fun h => h rfl

theorem says_course (hm : Mannered (.unedited p) s) (h : Course (.unedited p) s s') :
    Says p s s' (s.proof p).tree [] := by
  obtain ⟨ht, hv⟩ := h.verdicts not_edits_unedited
  exact ⟨h.mannered hm, h.length_proofs, ht, hv.trans (List.append_nil _).symm, h.log⟩

theorem says_setTree (hm : Mannered (.unedited p) s) (hp : p < s.proofs.length) (tree : Tree) :
    Says p s (s.setTree p tree) tree [] where
  mannered := mannered_modifyProof hm p fun _ _ hx => hx
  proofs := length_modifyProof _
  tree := by rw [setTree, proof_modifyProof_self _ hp]
  verdicts := (List.append_nil _).symm
  log := List.suffix_rfl

section Calls

variable {again : Again} (ha : Obliging (.unedited p) again)

include ha

theorem says_emit (hm : Mannered (.unedited p) s) (e : Event) :
    Says p s (emit again s p e) (s.proof p).tree e.verdict?.toList := by
  have hc : Course (.unedited p) (s.record (.emitted p e)) (emit again s p e) :=
    course_emitted ha trivial hm e
  have h := says_course (s := s.record (.emitted p e)) ⟨hm.sink, hm.listener⟩ hc
  refine ⟨h.mannered, h.proofs, h.tree, ?_, (List.suffix_cons ..).trans h.log⟩
  rw [h.verdicts, verdicts_tell rfl, List.append_nil]
  rfl

/-- A rule that leads to a tree without open goals is told to close the proof. -/
theorem says_applyRule (hm : Mannered (.unedited p) s) (hp : p < s.proofs.length) {rule : String}
    {new : List Sequent} {goals : List Goal} (h : (s.proof p).tree.applyRule n rule new = .ok (goals, tree)) :
    Says p s (applyRule again s p n rule new).2 tree (if tree.isClosed then [true] else []) := by
  have h0 : Says p s (s.setTree p tree) tree [] := says_setTree hm hp tree
  have h1 := h0.trans (says_emit ha h0.mannered (.ruleApplied goals))
  rw [h0.tree] at h1
  unfold applyRule
  rw [h]
  simp only
  split
  · have h2 := h1.trans (says_emit ha h1.mannered .proofClosed)
    rw [h1.tree] at h2
    exact h2
  · exact h1

theorem says_prune (hm : Mannered (.unedited p) s) (hp : p < s.proofs.length)
    (h : (s.proof p).tree.prune n = .ok tree) : Says p s (prune again s p n).2 tree [false] := by
  have h0 : Says p s (s.setTree p tree) tree [] := says_setTree hm hp tree
  have h1 := h0.trans (says_emit ha h0.mannered .treeStructureChanged)
  rw [h0.tree] at h1
  unfold prune
  rw [h]
  exact h1

end Calls

/-! ## 4. Every move -/

/-- **A proof whose events say whether it is closed**, with clients that ask for no change of it. -/
structure Truthful (p : ProofId) (s : Session) : Prop where
  mannered : Mannered (.unedited p) s
  lt : p < s.proofs.length
  shape : (s.proof p).tree.Shape
  closed : (s.proof p).tree.isClosed = true ↔ (s.verdicts p).getLast? = some true
  spaced : Spaced (s.verdicts p)

theorem truthful_course (h : Truthful p s) (hc : Course (.unedited p) s s') : Truthful p s' := by
  obtain ⟨ht, hv⟩ := hc.verdicts not_edits_unedited
  refine ⟨hc.mannered h.mannered, by rw [hc.length_proofs]; exact h.lt, ?_, ?_, ?_⟩
  · rw [ht]
    exact h.shape
  · rw [ht, hv]
    exact h.closed
  · rw [hv]
    exact h.spaced

/-- A proof with an open goal was not said to be closed last. -/
theorem Truthful.opened (h : Truthful p s) (hn : (s.proof p).tree.isGoal n = true) :
    (s.verdicts p).getLast? ≠ some true := by
  rw [ne_eq, ← h.closed, h.shape.isClosed_of_isGoal hn]
  exact Bool.false_ne_true

section Moves

variable {again : Again} (ha : Obliging (.unedited p) again)

include ha

theorem truthful_applyRule (h : Truthful p s) (n : NodeId) (rule : String) (new : List Sequent) :
    Truthful p (applyRule again s p n rule new).2 := by
  cases hr : (s.proof p).tree.applyRule n rule new with
  | error e =>
      unfold applyRule
      rw [hr]
      exact h
  | ok result =>
      obtain ⟨goals, tree⟩ := result
      have hs := says_applyRule ha h.mannered h.lt hr
      have hopen := h.opened (Tree.applyRule_cases hr).1
      refine ⟨hs.mannered, by rw [hs.proofs]; exact h.lt, ?_, ?_, ?_⟩
      · rw [hs.tree]
        exact Tree.shape_applyRule h.shape hr
      · rw [hs.tree, hs.verdicts]
        cases tree.isClosed with
        | true => simp
        | false => simpa using hopen
      · rw [hs.verdicts]
        cases tree.isClosed with
        | true => exact h.spaced.closed hopen
        | false => exact (List.append_nil (s.verdicts p)).symm ▸ h.spaced

theorem truthful_prune (h : Truthful p s) (n : NodeId) : Truthful p (prune again s p n).2 := by
  cases hr : (s.proof p).tree.prune n with
  | error e =>
      unfold prune
      rw [hr]
      exact h
  | ok tree =>
      have hs := says_prune ha h.mannered h.lt hr
      have hshape : tree.Shape := Tree.shape_prune h.shape hr
      refine ⟨hs.mannered, by rw [hs.proofs]; exact h.lt, ?_, ?_, ?_⟩
      · rw [hs.tree]
        exact hshape
      · rw [hs.tree, hs.verdicts, hshape.isClosed_of_isGoal (h.shape.isGoal_prune hr)]
        simp
      · rw [hs.verdicts]
        exact h.spaced.opened

theorem truthful_proofCall (h : Truthful p s) (q : ProofId) (call : ProofCall) :
    Truthful p (proofCall again s q call) := by
  by_cases hq : q = p
  · cases hq
    cases call with
    | applyRule n rule new => exact truthful_applyRule ha h n rule new
    | prune n => exact truthful_prune ha h n
    | startAuto | stopAuto | pause | resume | unsubscribe =>
        exact truthful_course h (course_proofCall ha trivial h.mannered)
  · exact truthful_course h (course_proofCall ha ((Leave.coherent_unedited p).proof (Or.inl hq)) h.mannered)

/-- **After a move the events of a proof still say whether it is closed**, unless the proof is replaced. -/
theorem truthful_move (h : Truthful p s) {m : Move} (hr : m.replaces = false) (hm : Heeds (.unedited p) m) :
    Truthful p (move again s m) := by
  cases m with
  | applyResult n =>
      exact applyResult_keep (fun _ _ _ call _ ht => truthful_proofCall ha ht _ call)
        (truthful_course h (course_lookUp n))
  | proof q call => exact truthful_proofCall ha h q call
  | present => cases hr
  | select | refreshAll | shutdownAll | newRunner | runner | finish | listen | subscribe | dispose =>
      exact truthful_course h (course_move ha h.mannered hm trivial)

theorem truthful_run (moves : List Move) (hm : ∀ m ∈ moves, m.replaces = false ∧ Heeds (.unedited p) m)
    (h : Truthful p s) : Truthful p (run again s moves) := by
  induction moves generalizing s with
  | nil => exact h
  | cons m rest ih =>
      obtain ⟨hr, hh⟩ := hm m List.mem_cons_self
      exact ih (fun m hr => hm m (List.mem_cons_of_mem _ hr)) (truthful_move ha h hr hh)

end Moves

theorem truthful_start {proofs : List (String × Tree)} (hnew : ∀ x ∈ proofs, x.2.IsNew) (settings : Settings)
    (hp : p < proofs.length) : Truthful p (start proofs settings) := by
  have htree : ((start proofs settings).proof p).tree.IsNew := isNew_start hnew settings p
  refine ⟨mannered_start proofs settings, ?_, htree.shape, ?_, ?_⟩
  · simpa [start] using hp
  · rw [htree.isClosed]
    exact ⟨(fun e => by cases e), (fun e => by cases e)⟩
  · intro xs ys zs e
    exact absurd e.symm (by simp [verdicts, emissions, told, start])

/-! ## 5. Closedness -/

section Closedness

variable {again : Again} {rule : String} {new : List Sequent}

theorem applyRule_error {e : ProofError} (h : (applyRule again s p n rule new).1 = .error e) :
    (applyRule again s p n rule new).2 = s := by
  cases hr : (s.proof p).tree.applyRule n rule new with
  | error e => simp only [applyRule, hr]
  | ok result => simp only [applyRule, hr, reduceCtorEq] at h

theorem applyRule_ok {goals : List Goal} (h : (applyRule again s p n rule new).1 = .ok goals) :
    ∃ tree, (s.proof p).tree.applyRule n rule new = .ok (goals, tree) := by
  cases hr : (s.proof p).tree.applyRule n rule new with
  | error e => simp only [applyRule, hr, reduceCtorEq] at h
  | ok result =>
      simp only [applyRule, hr, Except.ok.injEq] at h
      exact ⟨result.2, by rw [← h]⟩

theorem prune_error {e : ProofError} (h : (prune again s p n).1 = .error e) : (prune again s p n).2 = s := by
  cases hr : (s.proof p).tree.prune n with
  | error e => simp only [prune, hr]
  | ok tree => simp only [prune, hr, reduceCtorEq] at h

theorem prune_ok (h : (prune again s p n).1 = .ok ()) : ∃ tree, (s.proof p).tree.prune n = .ok tree := by
  cases hr : (s.proof p).tree.prune n with
  | error e => simp only [prune, hr, reduceCtorEq] at h
  | ok tree => exact ⟨tree, rfl⟩

/-- The events that came up in a step, and what they said. -/
theorem Says.news (h : Says p s s' tree vs) : ∃ news, emissions (s'.told p) = emissions (s.told p) ++ news ∧
    news.filterMap Event.verdict? = vs := by
  obtain ⟨older, ho⟩ := h.log
  have htold : s'.told p = (older.filter fun e => e.teller? == some p) ++ s.told p := by
    unfold told
    rw [← ho, List.filter_append]
  refine ⟨(older.filter fun e => e.teller? == some p).reverse.filterMap Entry.event?, ?_, ?_⟩
  · rw [htold, emissions, List.reverse_append, List.filterMap_append]
    rfl
  · have hv := h.verdicts
    unfold Session.verdicts emissions at hv
    rw [htold, List.reverse_append, List.filterMap_append, List.filterMap_append] at hv
    exact List.append_cancel_left hv

variable (ha : Obliging (.unedited p) again)

include ha

/-- A rule is told to close a proof iff it took away the last open goal. -/
theorem closes_iff (h : Truthful p s) {goals : List Goal}
    (hr : (s.proof p).tree.applyRule n rule new = .ok (goals, tree)) :
    ∃ news, emissions ((applyRule again s p n rule new).2.told p) = emissions (s.told p) ++ news ∧
      (.proofClosed ∈ news ↔ (s.proof p).tree.goals ≠ [] ∧
        ((applyRule again s p n rule new).2.proof p).tree.goals = []) := by
  have hs := says_applyRule ha h.mannered h.lt hr
  obtain ⟨news, hnews, hv⟩ := hs.news
  refine ⟨news, hnews, ?_⟩
  have hgoals : (s.proof p).tree.goals ≠ [] := by
    obtain ⟨g, hg, _⟩ := Tree.isGoal_iff_mem_goals.mp (Tree.applyRule_cases hr).1
    exact List.ne_nil_of_mem hg
  have hmem : .proofClosed ∈ news ↔ true ∈ news.filterMap Event.verdict? := by
    simp only [List.mem_filterMap, Event.verdict?_eq_true, exists_eq_right]
  rw [hmem, hv, hs.tree, ← (Tree.shape_applyRule h.shape hr).isClosed_iff]
  cases tree.isClosed <;> simp [hgoals]

end Closedness

/-- **The events of a proof tell whether it is closed**, as long as nobody who is called changes it. After any
    moves it is closed iff there is an event that says something about it and the last one says so, and it is
    told to be closed again only after it was cut back. A rule is told to close it iff it took away the last
    open goal, a cut leaves it open, and a change that is refused tells nothing and changes nothing. -/
theorem events_tell_closedness (p : ProofId) {again : Again} (ha : Obliging (.unedited p) again)
    {proofs : List (String × Tree)} (hnew : ∀ x ∈ proofs, x.2.IsNew) (hp : p < proofs.length)
    (settings : Settings) (moves : List Move)
    (hm : ∀ m ∈ moves, m.replaces = false ∧ Heeds (.unedited p) m) :
    let s := run again (start proofs settings) moves
    ((s.proof p).tree.isClosed = true ↔ Event.verdict (emissions (s.told p)) = some true) ∧
    (∀ xs ys zs, emissions (s.told p) = xs ++ .proofClosed :: ys ++ .proofClosed :: zs →
      .treeStructureChanged ∈ ys) ∧
    (∀ n rule new goals, (applyRule again s p n rule new).1 = .ok goals →
      ∃ news, emissions ((applyRule again s p n rule new).2.told p) = emissions (s.told p) ++ news ∧
        (.proofClosed ∈ news ↔ (s.proof p).tree.goals ≠ [] ∧
          ((applyRule again s p n rule new).2.proof p).tree.goals = [])) ∧
    (∀ n, (prune again s p n).1 = .ok () → ((prune again s p n).2.proof p).tree.isClosed = false) ∧
    (∀ n rule new e, (applyRule again s p n rule new).1 = .error e →
      (applyRule again s p n rule new).2 = s) ∧
    ∀ n e, (prune again s p n).1 = .error e → (prune again s p n).2 = s := by
  have h := truthful_run ha moves hm (truthful_start hnew settings hp)
  refine ⟨h.closed, fun xs ys zs e => h.spaced.between e, fun n rule new goals hok => ?_, fun n hok => ?_,
    fun n rule new e => applyRule_error, fun n e => prune_error⟩
  · obtain ⟨tree, hr⟩ := applyRule_ok hok
    exact closes_iff ha h hr
  · obtain ⟨tree, hr⟩ := prune_ok hok
    rw [(says_prune ha h.mannered h.lt hr).tree]
    exact (Tree.shape_prune h.shape hr).isClosed_of_isGoal (h.shape.isGoal_prune hr)

/-- Of two branches one is closed, then the other; the proof is cut back to its root and closed again, beside a
    runner and a sink that pauses the proof at each event and resumes it. A rule at a node that was cut off is
    refused. -/
theorem events_tell_closedness_cut_back :
    let proofs : List (String × Tree) := [("p", .ofGoals [{ succedent := ["a"] }, { succedent := ["b"] }])]
    let chosen : Settings := { solvers := .ofList [.z3] }
    let moves : List Move := [.select 0, .subscribe 0 (fun _ _ => [.pause, .resume]),
      .proof 0 (.applyRule 1 "close" []), .proof 0 (.applyRule 2 "close" []), .proof 0 (.prune 0),
      .proof 0 (.applyRule 2 "close" []), .proof 0 (.applyRule 0 "close" [])]
    let s := run (perform 2) (start proofs chosen) moves
    Obliging (.unedited 0) (perform 2) ∧ (∀ x ∈ proofs, x.2.IsNew) ∧ 0 < proofs.length ∧
    (∀ m ∈ moves, m.replaces = false ∧ Heeds (.unedited 0) m) ∧
    emissions (s.told 0) = [.ruleApplied [], .ruleApplied [], .proofClosed, .treeStructureChanged,
      .ruleApplied [], .proofClosed] ∧
    (s.proof 0).tree.isClosed = true ∧ Event.verdict (emissions (s.told 0)) = some true := by
  intro proofs chosen moves s
  have ha : Obliging (.unedited 0) (perform 2) := obliging_perform (Leave.coherent_unedited 0) 2
  have hnew : ∀ x ∈ proofs, x.2.IsNew := by
    intro x hx
    cases List.mem_singleton.mp hx
    exact .ofGoals _
  have hm : ∀ m ∈ moves, m.replaces = false ∧ Heeds (.unedited 0) m := by
    intro m hm
    simp only [moves, List.mem_cons, List.not_mem_nil, or_false] at hm
    rcases hm with rfl | rfl | rfl | rfl | rfl | rfl | rfl <;>
      simp [Move.replaces, Heeds, Leave.unedited, ProofCall.isChange]
  have h := events_tell_closedness 0 ha hnew (by decide) chosen moves hm
  have hclosed : (s.proof 0).tree.isClosed = true := by decide +kernel
  exact ⟨ha, hnew, by decide, hm, by decide +kernel, hclosed, h.1.mp hclosed⟩

end Session

end GoalWatch
