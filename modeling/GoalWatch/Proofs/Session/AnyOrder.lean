import GoalWatch.Proofs.Runner.Arrival
import GoalWatch.Proofs.Session.Registry.Invariant
import GoalWatch.Proofs.Session.Undisturbed

/-!
# Results are applied in any order

The answers for several nodes of the active proof are applied one after the other. Up to the one that closes the
proof nobody is disturbed, so each of them can be applied if it could be before the first one, whatever the order.
With its last open goal the proof is closed, and so is its runner, unless the proof is paused.

* `Tree.answered_answered`, `Tree.isClosed_answered` -- several nodes are closed with their answers;
* `Session.Prepared` -- a proof that is ready, active if any is, and holds back events only while it is paused;
* `canApply_applyResult` -- after a result was applied, all others can still be applied;
* `outcomes_applyResults`, `tree_answered_applyResults` -- the outcomes, and the tree in the end;
* `Session.Tracked` -- a registered runner, with all that makes it end with its proof;
* `ends_applyResult` -- it ends when its proof is closed;
* `undisturbed_applyResults`, `ends_applyResults` -- the proof stays open in the end, or it does not;
* **`applyResults_any_order`** -- all that is said about it.
-/

namespace GoalWatch

/-! ## 1. Trees -/

namespace Tree

variable {t : Tree} {l l' : List NodeId}

theorem answered_nil (t : Tree) : t.answered [] = t := by
  unfold answered
  simp only [List.not_mem_nil, if_false]
  exact congrArg Tree.mk (Array.ext_getElem? fun i => by simp)

theorem answered_congr (h : ∀ i, i ∈ l ↔ i ∈ l') : t.answered l = t.answered l' := by
  unfold answered
  simp only [h]

theorem nodeName_answered {i : NodeId} (h : i ∉ l) : (t.answered l).nodeName i = t.nodeName i := by
  unfold nodeName rule?
  rw [get?_answered, if_neg h]

/-- **Nodes are closed one after the other**, each with the name that it had in the beginning. -/
theorem answered_answered (h : ∀ i ∈ l', i ∉ l) : (t.answered l).answered l' = t.answered (l ++ l') := by
  have hanswer : ∀ i ∈ l', (t.answered l).answer i = t.answer i := by
    intro i hi
    unfold answer
    rw [nodeName_answered (h i hi)]
  show Tree.mk _ = Tree.mk _
  refine congrArg Tree.mk (Array.ext_getElem? fun i => ?_)
  rw [Array.getElem?_mapIdx, Array.getElem?_mapIdx, show (t.answered l).nodes[i]? = _ from Array.getElem?_mapIdx,
    Option.map_map]
  refine congrArg (Option.map · _) (funext fun x => ?_)
  by_cases hi : i ∈ l'
  · simp [hi, h i hi, hanswer i hi]
  · simp [hi]

/-- **A tree is closed by closing all its open goals.** -/
theorem isClosed_answered (h : (t.answered l).Shape) :
    (t.answered l).isClosed = true ↔ ∀ g ∈ t.goals, g.node ∈ l := by
  rw [h.isClosed_iff, List.eq_nil_iff_forall_not_mem]
  constructor
  · intro hnone g hg
    by_contra hn
    obtain ⟨k, hk, _⟩ := isGoal_iff_mem_goals.mp ((isGoal_answered t l g.node).mpr ⟨(mem_goals.mp hg).1, hn⟩)
    exact hnone k hk
  · intro hall g hg
    obtain ⟨hgoal, hn⟩ := (isGoal_answered t l g.node).mp (mem_goals.mp hg).1
    obtain ⟨k, hk, e⟩ := isGoal_iff_mem_goals.mp hgoal
    exact hn (e ▸ hall k hk)

end Tree

namespace Session

open Desk

variable {again : Again} {b s s' : Session} {p : ProofId} {r : RunnerId} {n m : NodeId}

/-! ## 2. Sessions in which results are applied -/

theorem idle_modifyProof (h : ∀ q, (s.proof q).Idle) {f : Watched → Watched} (hf : (f (s.proof p)).Idle) :
    ∀ q, ((s.modifyProof p f).proof q).Idle := by
  intro q
  rcases proof_modifyProof_cases (s := s) (p := p) (q := q) f with e | ⟨rfl, _, e⟩
  · rw [e]
    exact h q
  · rw [e]
    exact hf

/-- **Events are held back only while the proof is paused**, whatever clients ask for. -/
theorem lasting_idle : Lasting (fun _ => True) fun _ s => ∀ q, (s.proof q).Idle where
  aside h hu q := hu.idle q (h q)
  loosen h _ := h
  pause _ h := idle_modifyProof h fun hzero => by cases hzero
  raise _ h := idle_modifyProof h fun hzero => by cases hzero
  lower h hlt := idle_modifyProof h fun hzero => absurd hlt (Nat.not_lt.mpr (Nat.sub_eq_zero_iff_le.mp hzero))
  clear _ h := idle_modifyProof h fun _ => rfl
  listener _ _ _ _ _ := trivial
  sink _ _ _ _ _ _ _ _ := trivial
  observer _ _ _ h := h
  told _ _ _ _ _ _ _ _ h := h
  fresh _ _ h _ := h
  flush _ _ _ _ _ _ _ _ _ h := h

theorem idle_move (depth : Nat) (h : ∀ q, (s.proof q).Idle) (m : Move) :
    ∀ q, ((move (perform depth) s m).proof q).Idle := by
  cases m with
  | listen home calls => cases home <;> exact h
  | subscribe q react =>
      exact idle_modifyProof (s := { s with sinks := s.sinks ++ [{ react, shown := 0 }] }) h (h q)
  | select | applyResult | refreshAll | shutdownAll | proof | newRunner | runner | finish | dispose | present =>
      exact lasting_move (N := fun _ => 0) lasting_idle depth (fun _ _ e => by cases e) (fun _ _ e => by cases e)
        (fun _ _ => trivial) h

/-- **A proof whose results are about to be applied**: it is ready, active if any is, and holds back events only
    while it is paused. -/
structure Prepared (p : ProofId) (s : Session) : Prop extends Ready p s where
  idle : ∀ q, (s.proof q).Idle
  active : s.registry.active = none ∨ s.registry.active = some p

theorem prepared_applyResult (depth : Nat) (h : Prepared p s) (n : NodeId) :
    Prepared p (applyResult (perform depth) s n).2 where
  toReady := ready_applyResult depth h.toReady n
  idle := idle_move depth h.idle (.applyResult n)
  active := active_applyResult depth h.active n

theorem prepared_run (depth : Nat) {proofs : List (String × Tree)} (hnew : ∀ x ∈ proofs, x.2.IsNew)
    (settings : Settings) (moves : List Move) (hp : p < proofs.length)
    (hm : ∀ m ∈ moves, m.replaces = false ∧ Heeds (.unedited p) m)
    (hact : (run (perform depth) (start proofs settings) moves).registry.active = none ∨
      (run (perform depth) (start proofs settings) moves).registry.active = some p) :
    Prepared p (run (perform depth) (start proofs settings) moves) where
  toReady := ready_run depth moves hm (ready_start hnew settings hp)
  idle := lasting_foldl (P := fun s => ∀ q, (s.proof q).Idle) (fun m _ _ ht => idle_move depth ht m)
    fun q _ => (proof_start proofs settings q).2
  active := hact

/-- In a closed proof nothing can be applied. -/
theorem Prepared.canApply_of_isClosed (h : Prepared p s) (hc : (s.proof p).tree.isClosed = true) (n : NodeId) :
    s.canApply n = false := by
  refine Bool.eq_false_iff.mpr fun hcan => ?_
  have hgoal := (isGoal_of_canApply h.wired (active_of_canApply h.active hcan) hcan).2
  cases (h.shape.isClosed_of_isGoal hgoal).symm.trans hc

theorem tree_answered_applyResult (depth : Nat) (h : Prepared p s) (hcan : s.canApply n = true) :
    ((applyResult (perform depth) s n).2.proof p).tree = (s.proof p).tree.answered [n] :=
  (says_applyResult depth h.toReady (active_of_canApply h.active hcan) hcan).tree

/-- **After a result was applied, all others can still be applied** that could be before. Either the proof stays open
    and nobody is disturbed, or there was no other. -/
theorem canApply_applyResult (depth : Nat) (h : Prepared p s) (hcan : s.canApply n = true) (hne : m ≠ n) :
    (applyResult (perform depth) s n).2.canApply m = s.canApply m := by
  have hact := active_of_canApply h.active hcan
  have hnext := prepared_applyResult depth h n
  have htree := tree_answered_applyResult depth h hcan
  cases hc : ((s.proof p).tree.answered [n]).isClosed with
  | true =>
      rw [hnext.canApply_of_isClosed (htree ▸ hc) m]
      refine (Bool.eq_false_iff.mpr fun hm => ?_).symm
      have hgoal : ((s.proof p).tree.answered [n]).isGoal m = true := by
        rw [Tree.isGoal_answered, List.mem_singleton]
        exact ⟨(isGoal_of_canApply h.wired hact hm).2, hne⟩
      cases ((htree ▸ hnext.shape).isClosed_of_isGoal hgoal).symm.trans hc
  | false =>
      have hu := undisturbed_applyResult depth h.toReady (h.idle p) hact hcan hc
      rw [Bool.eq_iff_iff, canApply_iff hnext.toReady (by rw [hu.registry]; exact hact), canApply_iff h.toReady hact,
        htree, Tree.isGoal_answered, List.mem_singleton, and_iff_left hne, hu.registry]
      simp only [hu.solved]

/-! ## 3. Any number of results -/

theorem prepared_applyResults (depth : Nat) (nodes : List NodeId) (h : Prepared p s) :
    Prepared p (applyResults (perform depth) s nodes).2 := by
  induction nodes generalizing s with
  | nil => exact h
  | cons n rest ih => exact ih (prepared_applyResult depth h n)

/-- What cannot be applied is passed over. -/
theorem applyResults_cannot (again : Again) (h : Prepared p s) (hcan : s.canApply n = false) (rest : List NodeId) :
    applyResults again s (n :: rest) =
      ((n, .notApplicable) :: (applyResults again s rest).1, (applyResults again s rest).2) := by
  show ((n, (applyResult again s n).1) :: (applyResults again (applyResult again s n).2 rest).1,
    (applyResults again (applyResult again s n).2 rest).2) = _
  rw [applyResult_of_cannot again h.toReady h.active hcan]

/-- **Which results are applied does not depend on their order.** -/
theorem outcomes_applyResults (depth : Nat) (nodes : List NodeId) (hnd : nodes.Nodup) (h : Prepared p s) :
    (applyResults (perform depth) s nodes).1 =
      nodes.map fun n => (n, if s.canApply n then .applied else .notApplicable) := by
  induction nodes generalizing s with
  | nil => rfl
  | cons n rest ih =>
      obtain ⟨hn, hrest⟩ := List.nodup_cons.mp hnd
      rw [List.map_cons]
      cases hcan : s.canApply n with
      | false =>
          rw [applyResults_cannot (perform depth) h hcan, ih hrest h]
          rfl
      | true =>
          have happlied := applyResult_of_can (perform depth) h.wired (active_of_canApply h.active hcan) h.plain
            h.lt hcan
          have hout := ih hrest (prepared_applyResult depth h n)
          show (n, (applyResult (perform depth) s n).1) :: (applyResults (perform depth)
            (applyResult (perform depth) s n).2 rest).1 = _
          rw [hout, congrArg Prod.fst happlied]
          refine congrArg (List.cons _) (List.map_congr_left fun m hm => ?_)
          rw [canApply_applyResult depth h hcan fun e => hn (e ▸ hm)]

/-- **All that can be applied is closed in the end**, and the tree changes in nothing else. -/
theorem tree_answered_applyResults (depth : Nat) (nodes : List NodeId) (hnd : nodes.Nodup) (h : Prepared p s) :
    ((applyResults (perform depth) s nodes).2.proof p).tree =
      (s.proof p).tree.answered (nodes.filter s.canApply) := by
  induction nodes generalizing s with
  | nil => exact (Tree.answered_nil _).symm
  | cons n rest ih =>
      obtain ⟨hn, hrest⟩ := List.nodup_cons.mp hnd
      cases hcan : s.canApply n with
      | false =>
          rw [applyResults_cannot (perform depth) h hcan, List.filter_cons_of_neg (by simp [hcan])]
          exact ih hrest h
      | true =>
          have hsame : rest.filter (applyResult (perform depth) s n).2.canApply = rest.filter s.canApply :=
            List.filter_congr fun m hm => canApply_applyResult depth h hcan fun e => hn (e ▸ hm)
          refine (ih hrest (prepared_applyResult depth h n)).trans ?_
          rw [hsame, tree_answered_applyResult depth h hcan, List.filter_cons_of_pos hcan,
            Tree.answered_answered fun i hi hin => ?_]
          · rfl
          · rw [List.mem_singleton.mp hin] at hi
            exact hn (List.mem_filter.mp hi).1

/-- Once the proof is closed, nothing more happens. -/
theorem applyResults_of_isClosed (again : Again) (h : Prepared p s) (hc : (s.proof p).tree.isClosed = true)
    (nodes : List NodeId) : (applyResults again s nodes).2 = s := by
  induction nodes with
  | nil => rfl
  | cons n rest ih =>
      rw [applyResults_cannot again h (h.canApply_of_isClosed hc n)]
      exact ih

/-- **As long as the proof is open in the end, nobody was disturbed.** -/
theorem undisturbed_applyResults (depth : Nat) (nodes : List NodeId) (h : Prepared p s)
    (hopen : ((applyResults (perform depth) s nodes).2.proof p).tree.isClosed = false) :
    Undisturbed s (applyResults (perform depth) s nodes).2 := by
  induction nodes generalizing s with
  | nil => exact .refl s
  | cons n rest ih =>
      cases hcan : s.canApply n with
      | false =>
          rw [applyResults_cannot (perform depth) h hcan] at hopen ⊢
          exact ih h hopen
      | true =>
          have hact := active_of_canApply h.active hcan
          have hnext := prepared_applyResult depth h n
          have htree := tree_answered_applyResult depth h hcan
          have hfirst : ((s.proof p).tree.answered [n]).isClosed = false := by
            refine Bool.eq_false_iff.mpr fun hc => ?_
            have hlast := applyResults_of_isClosed (perform depth) hnext (htree ▸ hc) rest
            have hopen' : ((applyResults (perform depth) (applyResult (perform depth) s n).2 rest).2.proof
              p).tree.isClosed = false := hopen
            rw [hlast, htree, hc] at hopen'
            cases hopen'
          exact (undisturbed_applyResult depth h.toReady (h.idle p) hact hcan hfirst).trans (ih hnext hopen)

/-- The pauses meanwhile leave no trace, if no client asks for one of its own. -/
theorem paused_applyResults (depth : Nat) (nodes : List NodeId) (h : Prepared p s) (hf : Faithful p [] s) :
    ((applyResults (perform depth) s nodes).2.proof p).paused = (s.proof p).paused := by
  have ha : Obliging (.aside p) (perform depth) := obliging_perform (Leave.coherent_aside p) depth
  induction nodes generalizing s with
  | nil => rfl
  | cons n rest ih =>
      refine (ih (prepared_applyResult depth h n) (faithful_move ha hf (m := .applyResult n) trivial)).trans ?_
      cases hcan : s.canApply n with
      | false => rw [applyResult_of_cannot (perform depth) h.toReady h.active hcan]
      | true =>
          exact paused_applyResult ha hf h.wired h.plain h.lt (active_of_canApply h.active hcan) hcan

/-! ## 4. The runner of the proof -/

/-- Nobody gives a runner up, as long as owners keep them. -/
theorem Course.kept {L : Leave} (h : Course L b s)
    (hb : ∀ k, k < b.runners.length → (b.runner k).standing ≠ .dropped) :
    ∀ k, k < s.runners.length → (s.runner k).standing ≠ .dropped := by
  refine course_keep (I := fun s => ∀ k, k < s.runners.length → (s.runner k).standing ≠ .dropped)
    (fun {s s'} hkept hs k hk => ?_) (fun {s} r hkept k hk => ?_) (fun {s} r x hkept k hk => ?_) h hb
  · rcases Nat.lt_or_ge k s.runners.length with hlt | hge
    · rw [ne_eq, standing_stir hlt hs]
      exact hkept k hlt
    · cases hs with
      | enlist q settings =>
          rcases runner_enlist_cases (s := s) (p := q) settings k with ⟨e, hne⟩ | ⟨_, e⟩
          · rw [length_enlist] at hk
            exact absurd (Nat.le_antisymm (Nat.le_of_lt_succ hk) hge) hne
          · rw [e]
            exact fun e => by cases e
      | host | act => exact absurd (Nat.lt_of_lt_of_eq hk (length_modifyRunner _)) (Nat.not_lt.mpr hge)
      | remark | tell | edit | hold | present | cancel | join | desk | clients | tasks =>
          exact absurd hk (Nat.not_lt.mpr hge)
  · rw [length_ended] at hk
    rcases runner_ended (s := s) (r := r) k with e | ⟨_, _, e⟩ <;>
      · rw [e]
        exact hkept k hk
  · rw [length_parted] at hk
    rcases runner_parted (s := s) (r := r) x k with e | e <;>
      · rw [e]
        exact hkept k hk

variable {C H : ProofId → SubscriptionId → Prop}

/-- **A registered runner, with all that makes it end with its proof**: the registry is in order, runners are kept
    and have their subscriptions, and clients take off none but those in `C`. -/
structure Tracked (C H : ProofId → SubscriptionId → Prop) (p : ProofId) (r : RunnerId) (s : Session) : Prop where
  mannered : Mannered (.striking C) s
  books : Books C H (fun _ _ _ => False) s
  kept : ∀ k, k < s.runners.length → (s.runner k).standing ≠ .dropped
  orderly : s.desk.Orderly
  entry : s.registry.runnerFor? p = some r

theorem Tracked.course (h : Tracked C H p r s) (hc : Course (.striking C) s s') (hd : s'.desk.Orderly)
    (hreg : s'.registry = s.registry) : Tracked C H p r s' where
  mannered := hc.mannered h.mannered
  books := books_course (L := .striking C) (fun _ hp => hp) hc h.books
  kept := hc.kept h.kept
  orderly := hd
  entry := by rw [hreg]; exact h.entry

/-- Nothing but trees differ. -/
theorem Tracked.same {tree : Tree} (h : Tracked C H p r s) (hs : Same (s.setTree p tree) s')
    (hsinks : s'.sinks = s.sinks) (hlisteners : s'.listeners = s.listeners) : Tracked C H p r s' where
  mannered := mannered_of_same h.mannered hs hsinks hlisteners
  books := (h.books.modifyProof p (f := fun w => { w with tree }) fun _ => ⟨rfl, rfl⟩).congr hs
  kept k hk := by
    rw [hs.runners] at hk
    rw [hs.runner]
    exact h.kept k hk
  orderly := by
    rw [desk_of_same hs hlisteners]
    exact h.orderly
  entry := by
    rw [hs.registry]
    exact h.entry

/-- A tracked runner has not ended and is subscribed to its proof. -/
theorem Tracked.subscribed (h : Tracked C H p r s) (hrp : (s.runner r).proof = p) (hp : p < s.proofs.length)
    (hown : ∀ id, C p id → H p id) : ∃ x ∈ (s.proof p).subscribers, x.sink = .runner r := by
  obtain ⟨hlt, hopen⟩ := h.orderly.alive _ (mem_of_runnerFor? h.entry)
  have hmem : r ∈ s.watchers p :=
    (h.books.mem_watchers hp hown).mpr ⟨isLive_iff.mpr ⟨hopen, h.kept r hlt⟩, hrp⟩
  obtain ⟨x, hx, hxr⟩ := List.mem_filterMap.mp hmem
  exact ⟨x, hx, Sink.runner?_eq_some.mp hxr⟩

/-- **A runner that is told that its proof is closed ends**, and the registry forgets it. -/
theorem ends_deliver (ha : Discreet again) (h : s.desk.Orderly) (he : s.registry.runnerFor? p = some r)
    {x : Subscriber} (hx : x ∈ (s.proof p).subscribers) (hk : x.sink = .runner r) :
    ((deliver again p s .proofClosed).runner r).core.closed = true ∧
      (deliver again p s .proofClosed).registry.runnerFor? p = none := by
  have hkeeps := keeps_deliver (p := p) ha h .proofClosed
  have hclosed : (deliver again p s .proofClosed).desk.closed r = true := by
    obtain ⟨before, after, e⟩ := List.append_of_mem hx
    unfold deliver
    simp only
    rw [e, List.foldl_append, List.foldl_cons]
    have hbefore := keeps_foldl (fun y _ hs => keeps_showTo (p := p) ha hs .proofClosed y) before
      (s := s.record (.delivered p .proofClosed (s.proof p).paused
        ((before ++ x :: after).map Subscriber.id))) h
    generalize before.foldl (showTo again p .proofClosed) _ = t at hbefore ⊢
    have hshow : showTo again p .proofClosed t x = close again (t.record (.shown p x.id .proofClosed)) r := by
      unfold showTo
      simp only [hk]
      rfl
    obtain ⟨hclose, hends⟩ := close_goes (r := r) ha (s := t.record (.shown p x.id .proofClosed)) hbefore.orderly
    rw [hshow]
    refine (keeps_foldl (fun y _ hs => keeps_showTo ha hs .proofClosed y) after hclose.orderly).closed r ?_
    exact hends (Nat.lt_of_lt_of_le (h.alive _ (mem_of_runnerFor? he)).1 hbefore.count)
  refine ⟨hclosed, ?_⟩
  cases hfor : (deliver again p s .proofClosed).registry.runnerFor? p with
  | none => rfl
  | some k =>
      -- another runner was not registered meanwhile, and this one would be open
      have hmem := mem_of_runnerFor? hfor
      have hk : k = r := h.only (mem_of_runnerFor? he) (hkeeps.mem hmem)
      have hopen := (hkeeps.orderly.alive _ hmem).2
      rw [hk] at hopen
      cases hopen.symm.trans hclosed

section Ends

variable (depth : Nat) (hown : ∀ id, C p id → H p id)

include hown

/-- **The runner ends with the last goal of its proof**, unless the proof is paused. -/
theorem ends_applyResult (h : Prepared p s) (ht : Tracked C H p r s) (hcan : s.canApply n = true)
    (hc : ((s.proof p).tree.answered [n]).isClosed = true) (hzero : (s.proof p).paused = 0) :
    ((applyResult (perform depth) s n).2.runner r).core.closed = true ∧
      (applyResult (perform depth) s n).2.registry.runnerFor? p = none := by
  have hact := active_of_canApply h.active hcan
  have hd := discreet_perform depth
  obtain ⟨u, hu, hsinks, hlisteners, e⟩ :=
    applyResult_unpaused (perform depth) h.toReady hact hcan hzero (h.idle p hzero)
  -- first the rule is told, and the runner stays registered
  have hplacid := placid_deliver (obliging_perform (Leave.coherent_unedited p) depth) (serene_perform p depth)
    (placid_answered h.toReady (h.idle p hzero) hu hsinks hlisteners) (e := .ruleApplied []) rfl
  have htu : Tracked C H p r u := ht.same hu hsinks hlisteners
  have hcourse : Course (.striking C) u (deliver (perform depth) p u (.ruleApplied [])) :=
    course_deliver (obliging_perform (Leave.coherent_striking C) depth) trivial htu.mannered _
  have htold : Tracked C H p r (deliver (perform depth) p u (.ruleApplied [])) := by
    refine htu.course hcourse (keeps_deliver hd htu.orderly _).orderly ?_
    rw [hplacid.registry, hu.registry]
    rfl
  have hlt : p < (deliver (perform depth) p u (.ruleApplied [])).proofs.length := by
    rw [hcourse.length_proofs, hu.proofs, setTree, length_modifyProof]
    exact h.lt
  have hwatches : ((deliver (perform depth) p u (.ruleApplied [])).runner r).proof = p :=
    (hplacid.watches r).trans (h.wired.entry _ (mem_of_runnerFor? ht.entry)).2
  obtain ⟨x, hx, hk⟩ := htold.subscribed hwatches hlt hown
  rw [e, ruleEvents, if_pos hc]
  exact ends_deliver hd htold.orderly htold.entry hx hk

/-- **The runner ends if the proof was open and is closed in the end**, unless the proof is paused then. -/
theorem ends_applyResults (nodes : List NodeId) (h : Prepared p s) (ht : Tracked C H p r s)
    (hopen : (s.proof p).tree.isClosed = false)
    (hclosed : ((applyResults (perform depth) s nodes).2.proof p).tree.isClosed = true)
    (hzero : ((applyResults (perform depth) s nodes).2.proof p).paused = 0) :
    ((applyResults (perform depth) s nodes).2.runner r).core.closed = true ∧
      (applyResults (perform depth) s nodes).2.registry.runnerFor? p = none := by
  induction nodes generalizing s with
  | nil => cases hopen.symm.trans hclosed
  | cons n rest ih =>
      cases hcan : s.canApply n with
      | false =>
          rw [applyResults_cannot (perform depth) h hcan] at hclosed hzero ⊢
          exact ih h ht hopen hclosed hzero
      | true =>
          have hact := active_of_canApply h.active hcan
          have hnext := prepared_applyResult depth h n
          have htree := tree_answered_applyResult depth h hcan
          cases hc : ((s.proof p).tree.answered [n]).isClosed with
          | true =>
              -- this is the last one, and a pause would not have ended with it
              have hlast : (applyResults (perform depth) s (n :: rest)).2 = (applyResult (perform depth) s n).2 :=
                applyResults_of_isClosed (perform depth) hnext (htree ▸ hc) rest
              rw [hlast] at hzero ⊢
              refine ends_applyResult depth hown h ht hcan hc (Nat.eq_zero_of_not_pos fun hpos => ?_)
              rw [(applyResult_paused (perform depth) h.toReady hact hcan hpos).proof,
                proof_modifyProof_self _ h.lt] at hzero
              exact Nat.ne_of_gt hpos hzero
          | false =>
              have hu := undisturbed_applyResult depth h.toReady (h.idle p) hact hcan hc
              refine ih hnext (ht.course ?_ ?_ hu.registry) (htree ▸ hc) hclosed hzero
              · exact course_striking (m := .applyResult n) (obliging_perform (Leave.coherent_striking C) depth)
                  ht.mannered (fun _ _ e => e.elim) rfl
              · exact (keeps_applyResult (discreet_perform depth) ht.orderly n).orderly

end Ends

/-! ## 5. Runs -/

/-- Nobody gives a runner up by moves. -/
theorem kept_run (ha : Obliging (.striking C) again) (moves : List Move)
    (hC : ∀ m ∈ moves, ∀ p id, (Deal.move m).Cancels p id → C p id) (hm : Mannered (.striking C) s)
    (h : ∀ k, k < s.runners.length → (s.runner k).standing ≠ .dropped) :
    ∀ k, k < (run again s moves).runners.length → ((run again s moves).runner k).standing ≠ .dropped := by
  induction moves generalizing s with
  | nil => exact h
  | cons m rest ih =>
      obtain ⟨hfirst, hrest⟩ := List.forall_mem_cons.mp hC
      refine ih hrest ((onward_deal (d := .move m) ha hm hfirst).mannered hm) ?_
      cases hj : s.handed? (.move m) with
      | none => exact (course_striking ha hm hfirst hj).kept h
      | some x =>
          obtain ⟨q, react, e, _⟩ := handed?_eq_some hj
          cases e
          exact h

theorem tracked_run (depth : Nat) (proofs : List (String × Tree)) (settings : Settings) (moves : List Move)
    (hfair : along (perform depth) Move.isFair (start proofs settings) moves = true)
    (he : (run (perform depth) (start proofs settings) moves).registry.runnerFor? p = some r) :
    Tracked (Deal.cancelled (moves.map .move))
      (fun q id => (q, id) ∈ handed (perform depth) (start proofs settings) (moves.map .move)) p r
      (run (perform depth) (start proofs settings) moves) := by
  have ha : Obliging (.striking (Deal.cancelled (moves.map .move))) (perform depth) :=
    obliging_perform (Leave.coherent_striking _) depth
  have hm : Mannered (.striking (Deal.cancelled (moves.map .move))) (start proofs settings) :=
    mannered_start proofs settings
  have hC : ∀ d ∈ moves.map Deal.move, ∀ q id, d.Cancels q id → Deal.cancelled (moves.map .move) q id :=
    fun d hd _ _ hc => ⟨d, hd, hc⟩
  have hrun : deals (perform depth) (start proofs settings) (moves.map .move) =
      run (perform depth) (start proofs settings) moves := List.foldl_map
  have hbooks := books_deals ha hC hm (books_start proofs settings)
  have honward := onward_deals ha hC hm
  rw [hrun] at hbooks honward
  exact {
    mannered := honward.mannered hm
    books := hbooks.known fun _ _ => Iff.of_eq (false_or _)
    kept := kept_run ha moves (fun m hk => hC _ (List.mem_map_of_mem hk)) hm fun k hk =>
      absurd hk (Nat.not_lt_zero k)
    orderly := (goes_run (N := fun _ => True) (discreet_perform depth) (literal_perform depth)
      (fun h => ⟨h, fun _ _ => trivial⟩) moves (orderly_start proofs settings) hfair).orderly
    entry := he }

/-- What is selected in a report are nodes of which none comes twice. -/
theorem nodup_selected (h : (s.runner r).core.Ascending) (edits : List Report.Edit) :
    (edits.foldl Report.edit (s.report r).1).selected.Nodup := by
  have hnodes : ((edits.foldl Report.edit (s.report r).1).rows.map ReportRow.node).Nodup := by
    rw [Report.nodes_edits]
    show (((s.runner r).core.solved.filter _).map _).map _ |>.Nodup
    rw [List.map_map]
    refine List.Nodup.map (fun _ _ e => e) ?_
    exact (List.Pairwise.imp Nat.ne_of_lt h).filter _
  exact (List.filter_sublist.map ReportRow.node).nodup hnodes

/-- All open goals of the proof are among the nodes, and their results can be applied. -/
def Covers (s : Session) (p : ProofId) (nodes : List NodeId) : Prop :=
  ∀ g ∈ (s.proof p).tree.goals, g.node ∈ nodes ∧ s.canApply g.node = true

instance (s : Session) (p : ProofId) (nodes : List NodeId) : Decidable (s.Covers p nodes) :=
  inferInstanceAs (Decidable (∀ g ∈ (s.proof p).tree.goals, g.node ∈ nodes ∧ s.canApply g.node = true))

/-- **Results are applied in any order.** After any moves by which no proof is replaced, let `p` be the active proof,
    if there is one, and let no client ask for a change of it when it is called. Of any different nodes, such as
    those selected in a report, exactly those are applied one after the other that could be applied before the
    first one, and the others are not applicable. The tree in the end is the same in all orders; it is closed iff the
    nodes that were applied are all its open goals. Let listeners be added to runners that are there, let clients
    take off no subscriptions but their own, and let the proof not be paused in the end: then, if anything was
    applied, its runner has ended and is registered no longer iff these are all its open goals. If clients do not
    pause the proof, it is paused as often as before. -/
theorem applyResults_any_order (depth : Nat) {proofs : List (String × Tree)} (hnew : ∀ x ∈ proofs, x.2.IsNew)
    (settings : Settings) (moves : List Move) {p : ProofId} (hp : p < proofs.length)
    (hm : ∀ m ∈ moves, m.replaces = false ∧ Heeds (.unedited p) m)
    (hact : (run (perform depth) (start proofs settings) moves).registry.active = none ∨
      (run (perform depth) (start proofs settings) moves).registry.active = some p)
    {nodes : List NodeId} (hnd : nodes.Nodup) :
    let s := run (perform depth) (start proofs settings) moves
    let result := applyResults (perform depth) s nodes
    result.1 = nodes.map (fun n => (n, if s.canApply n then .applied else .notApplicable)) ∧
    (∀ others, others.Perm nodes →
      ((applyResults (perform depth) s others).2.proof p).tree = (result.2.proof p).tree) ∧
    ((result.2.proof p).tree.isClosed = true ↔ s.Covers p nodes) ∧
    (along (perform depth) Move.isFair (start proofs settings) moves = true →
      (∀ id, Deal.cancelled (moves.map .move) p id →
        (p, id) ∈ handed (perform depth) (start proofs settings) (moves.map .move)) →
      (∃ n ∈ nodes, s.canApply n = true) → (result.2.proof p).paused = 0 →
      ∃ r, s.registry.runnerFor? p = some r ∧
        ((result.2.runner r).core.closed = true ∧ result.2.registry.runnerFor? p = none ↔ s.Covers p nodes)) ∧
    ((∀ m ∈ moves, Heeds (.aside p) m) → (result.2.proof p).paused = (s.proof p).paused) ∧
    ∀ r (edits : List Report.Edit), (edits.foldl Report.edit (s.report r).1).selected.Nodup := by
  intro s result
  have h : Prepared p s := prepared_run depth hnew settings moves hp hm hact
  have hend : Prepared p result.2 := prepared_applyResults depth nodes h
  have htree : (result.2.proof p).tree = (s.proof p).tree.answered (nodes.filter s.canApply) :=
    tree_answered_applyResults depth nodes hnd h
  have hclosed : (result.2.proof p).tree.isClosed = true ↔ s.Covers p nodes := by
    rw [htree, Tree.isClosed_answered (htree ▸ hend.shape)]
    simp only [List.mem_filter]
    exact Iff.rfl
  refine ⟨outcomes_applyResults depth nodes hnd h, fun others hperm => ?_, hclosed, fun hfair hown hsome hzero => ?_,
    fun haside => ?_, fun r edits => nodup_selected ?_ edits⟩
  · rw [htree, tree_answered_applyResults depth others (hperm.nodup_iff.mpr hnd) h]
    exact Tree.answered_congr fun i => (hperm.filter s.canApply).mem_iff
  · obtain ⟨n, _, hcan⟩ := hsome
    have hactive := active_of_canApply h.active hcan
    obtain ⟨⟨r, hr, _⟩, hgoal⟩ := isGoal_of_canApply h.wired hactive hcan
    have he : s.registry.runnerFor? p = some r := by
      unfold Registry.activeRunner? at hr
      rw [hactive] at hr
      exact hr
    refine ⟨r, he, ?_⟩
    rw [← hclosed]
    constructor
    · -- a proof that stays open keeps its runner
      intro hends
      refine Bool.eq_true_of_not_eq_false fun hopen => ?_
      rw [(undisturbed_applyResults depth nodes h hopen).registry, he] at hends
      cases hends.2
    · intro hc
      exact ends_applyResults depth hown nodes h (tracked_run depth proofs settings moves hfair he)
        (h.shape.isClosed_of_isGoal hgoal) hc hzero
  · have ha : Obliging (.aside p) (perform depth) := obliging_perform (Leave.coherent_aside p) depth
    exact paused_applyResults depth nodes h (faithful_run ha moves haside (faithful_start proofs settings))
  · have hosts : Hosts (fun c _ => c.Ascending) s :=
      hosts_run depth proofs settings (fun _ => List.Pairwise.nil) (fun h ha => Runner.ascending_act h ha) moves
    rcases Nat.lt_or_ge r s.runners.length with hlt | hge
    · exact hosts.hosted r hlt
    · rw [runner_of_le hge]
      exact List.Pairwise.nil

/-- Both goals of a proof are proved, and with the root among the nodes the later goal is applied first while a sink
    takes itself off. The proof is closed and its runner ends, as in the other order. -/
theorem applyResults_any_order_later_first :
    let proofs : List (String × Tree) := [("p", .ofGoals [{ succedent := ["a"] }, { succedent := ["b"] }])]
    let chosen : Settings := { solvers := .ofList [.z3] }
    let moves : List Move := [.select 0, .subscribe 0 (fun _ _ => [.unsubscribe 1]),
      .runner 0 (.completed 1 [{ node := 1, status := .valid }, { node := 2, status := .valid }])]
    let s := run (perform 2) (start proofs chosen) moves
    let result := applyResults (perform 2) s [2, 0, 1]
    (∀ x ∈ proofs, x.2.IsNew) ∧ 0 < proofs.length ∧
    (∀ m ∈ moves, m.replaces = false ∧ Heeds (.unedited 0) m) ∧ s.registry.active = some 0 ∧
    ([2, 0, 1] : List NodeId).Nodup ∧
    result.1 = [(2, .applied), (0, .notApplicable), (1, .applied)] ∧
    ((applyResults (perform 2) s [0, 1, 2]).2.proof 0).tree = (result.2.proof 0).tree ∧
    s.Covers 0 [2, 0, 1] ∧ (result.2.proof 0).tree.isClosed = true ∧
    along (perform 2) Move.isFair (start proofs chosen) moves = true ∧
    (∀ id, Deal.cancelled (moves.map .move) 0 id →
      (0, id) ∈ handed (perform 2) (start proofs chosen) (moves.map .move)) ∧
    (s.proof 0).subscribers.length = 2 ∧ (result.2.proof 0).subscribers.length = 0 ∧
    (∃ r, s.registry.runnerFor? 0 = some r ∧ (result.2.runner r).core.closed = true ∧
      result.2.registry.runnerFor? 0 = none) ∧
    (result.2.proof 0).paused = (s.proof 0).paused := by
  intro proofs chosen moves s result
  have hnew : ∀ x ∈ proofs, x.2.IsNew := by
    intro x hx
    cases List.mem_singleton.mp hx
    exact .ofGoals _
  have hm : ∀ m ∈ moves, m.replaces = false ∧ Heeds (.unedited 0) m := by
    intro m hm
    simp only [moves, List.mem_cons, List.not_mem_nil, or_false] at hm
    rcases hm with rfl | rfl | rfl <;> simp [Move.replaces, Heeds, Leave.unedited, ProofCall.isChange]
  have haside : ∀ m ∈ moves, Heeds (.aside 0) m := by
    intro m hm
    simp only [moves, List.mem_cons, List.not_mem_nil, or_false] at hm
    rcases hm with rfl | rfl | rfl <;> simp [Heeds, Leave.aside]
  have hhanded : handed (perform 2) (start proofs chosen) (moves.map .move) = [(0, 1)] := by decide +kernel
  have hown : ∀ id, Deal.cancelled (moves.map .move) 0 id →
      (0, id) ∈ handed (perform 2) (start proofs chosen) (moves.map .move) := by
    rintro id ⟨d, hd, hc⟩
    rw [hhanded]
    simp only [moves, List.map_cons, List.map_nil, List.mem_cons, List.not_mem_nil, or_false] at hd
    rcases hd with rfl | rfl | rfl <;> simp_all [Deal.Cancels]
  have hfair : along (perform 2) Move.isFair (start proofs chosen) moves = true := by decide +kernel
  have hcovers : s.Covers 0 [2, 0, 1] := by decide +kernel
  have hcan : s.canApply 1 = true := by decide +kernel
  have hnd : ([2, 0, 1] : List NodeId).Nodup := by decide
  have h := applyResults_any_order 2 hnew chosen moves (by decide) hm (Or.inr (by decide +kernel)) hnd
  extract_lets at h
  obtain ⟨_, hperm, hclosed, hends, hpaused, _⟩ := h
  have hrunner : ∃ r, s.registry.runnerFor? 0 = some r ∧ (result.2.runner r).core.closed = true ∧
      result.2.registry.runnerFor? 0 = none := by
    obtain ⟨r, hr, hiff⟩ := hends hfair hown ⟨1, by decide, hcan⟩ (by decide +kernel)
    exact ⟨r, hr, hiff.mpr hcovers⟩
  exact ⟨hnew, by decide, hm, by decide +kernel, hnd, by decide +kernel, hperm [0, 1, 2] (by decide), hcovers,
    hclosed.mpr hcovers, hfair, hown, by decide +kernel, by decide +kernel, hrunner, hpaused haside⟩

end Session

end GoalWatch
