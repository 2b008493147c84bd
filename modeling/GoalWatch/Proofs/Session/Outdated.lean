import GoalWatch.Proofs.Session.Calm.Events
import GoalWatch.Proofs.Session.Latest
import GoalWatch.Proofs.Session.Trees

/-!
# Events that come too late

While a proof is paused its events wait, and a tree that was closed may be pruned before they are shown. A
runner that is then told that its proof is closed ends, although it is not.

* `Event.verdict` -- what events say about whether their proof is closed;
* `Watched.Timely` -- the last verdict that waits is right;
* `Watched.Tells` -- a tree changes and this is told or waits;
* `Session.Punctual`, `punctual_move`, `punctual_run` -- all proofs are timely after any moves;
* `open_passes` -- a runner that may not end stays open;
* `closed_of_proofCall`, `closed_of_applyResult` -- why a runner was ended by its proof;
* **`closed_iff_not_outdated`** -- a runner is ended by a proof that is closed, unless what it is told is
  outdated;
* `ended_with_goal_open` -- the shortest run in which it is.
-/

namespace GoalWatch

/-! ## 1. Verdicts -/

/-- What an event says about whether its proof is closed. A tree that was pruned has a goal. -/
def Event.verdict? : Event → Option Bool
  | .proofClosed => some true
  | .treeStructureChanged => some false
  | .ruleApplied _ | .autoModeStarted | .autoModeStopped => none

/-- **What events say last** about whether their proof is closed. -/
def Event.verdict (es : List Event) : Option Bool := (es.filterMap Event.verdict?).getLast?

theorem Event.verdict_append (es fs : List Event) :
    Event.verdict (es ++ fs) = (Event.verdict fs).or (Event.verdict es) := by
  unfold Event.verdict
  rw [List.filterMap_append, List.getLast?_append]

theorem Event.exists_verdict {es : List Event} (h : .proofClosed ∈ es) : ∃ b, Event.verdict es = some b := by
  have hmem : true ∈ es.filterMap Event.verdict? := List.mem_filterMap.mpr ⟨_, h, rfl⟩
  exact ⟨_, List.getLast?_eq_some_getLast (List.ne_nil_of_mem hmem)⟩

namespace Watched

variable {w w' w'' : Watched} {tree tree' : Tree} {es fs : List Event}

/-- **The last verdict that waits is right**, and nothing waits unless the proof is paused. -/
structure Timely (w : Watched) : Prop where
  shape : w.tree.Shape
  verdict : ∀ b, Event.verdict w.held = some b → w.tree.isClosed = b
  idle : w.paused = 0 → w.held = []

/-- **The tree changes and this is told**: the events wait if the proof is paused. -/
structure Tells (w w' : Watched) (tree : Tree) (es : List Event) : Prop where
  tree : w'.tree = tree
  paused : w'.paused = w.paused
  held : w'.held = if 0 < w.paused then w.held ++ es else w.held

theorem Tells.trans (h : Tells w w' tree es) (h' : Tells w' w'' tree' fs) :
    Tells w w'' tree' (es ++ fs) where
  tree := h'.tree
  paused := h'.paused.trans h.paused
  held := by
    rw [h'.held, h.paused, h.held]
    split
    · rw [List.append_assoc]
    · rfl

/-- A proof stays timely if what it tells is right, or it tells nothing of the kind and there is nothing of
    the kind to tell. -/
theorem Timely.tells (h : w.Timely) (ht : Tells w w' tree es) (hs : tree.Shape)
    (hv : ∀ b, Event.verdict es = some b → tree.isClosed = b)
    (hn : Event.verdict es = none → tree.isClosed = w.tree.isClosed) : w'.Timely where
  shape := by
    rw [ht.tree]
    exact hs
  verdict b hb := by
    rw [ht.tree]
    rw [ht.held] at hb
    split at hb
    · rw [Event.verdict_append] at hb
      cases he : Event.verdict es with
      | none =>
          rw [he] at hb
          exact (hn he).trans (h.verdict b hb)
      | some b' =>
          rw [he] at hb
          cases hb
          exact hv _ he
    · -- nothing waits
      rename_i hpos
      rw [h.idle (Nat.eq_zero_of_not_pos hpos)] at hb
      cases hb
  idle hp := by
    rw [ht.paused] at hp
    rw [ht.held, if_neg (by omega)]
    exact h.idle hp

end Watched

/-- Clients ask for nothing, these proofs may change and these runners may end. -/
def License.tacit (L : License) (edits : ProofId → Prop) (closes : RunnerId → Prop) : Permit :=
  { L with
    calls := fun _ => False
    edits := edits
    stops := fun _ => True
    refreshes := fun _ => True
    closes := closes }

/-- Clients ask for nothing, nothing comes in, and only this proof may change. -/
abbrev Permit.onlyEdits (p : ProofId) : Permit := License.shut.tacit (· = p) fun _ => True

/-- Whoever comes in with the move only looks on. -/
def Move.IsPassive : Move → Prop
  | .listen _ calls => ∀ l, calls l = []
  | .subscribe _ react => ∀ k e, react k e = []
  | _ => True

/-- The move asks a runner to end. -/
def Move.ends (r : RunnerId) : Move → Bool
  | .runner k .close => k == r
  | .shutdownAll => true
  | _ => false

/-- The move asks a proof to change. -/
def Move.touches (s : Session) (p : ProofId) : Move → Prop
  | .proof q _ => q = p
  | .applyResult _ => ∃ r, s.registry.activeRunner? = some r ∧ (s.runner r).proof = p
  | _ => False

namespace Session

open Watched (Timely Tells)

variable {P : Permit} {again : Again} {s s' t u : Session} {p : ProofId} {r : RunnerId} {n : NodeId}
  {e : Event}

/-! ## 2. What a change tells -/

theorem obedient_tacit (L : License) (E : ProofId → Prop) (C : RunnerId → Prop) (again : Again) :
    Obedient (L.tacit E C) again := obedient_of_silent (fun _ h => h) again

/-- Showing an event to those who only look on changes no proof. -/
theorem unedited_deliver (again : Again) (hs : Passive s) (he : .emitted p e ∈ s.log) (q : ProofId) :
    Unedited s (deliver again p s e) q :=
  unedited_passes (P := License.shut.tacit (fun _ => False) fun _ => True) id
    (passes_deliver (obedient_tacit _ _ _ again) hs.tame he fun _ _ => Or.inl trivial)

theorem tells_emit (again : Again) (ht : Passive (t.record (.emitted p e))) (hp : p < t.proofs.length) :
    Tells (t.proof p) ((emit again t p e).proof p) (t.proof p).tree [e] := by
  rcases Nat.eq_zero_or_pos (t.proof p).paused with h | h
  · rw [emit_unpaused h]
    have hu := unedited_deliver again ht List.mem_cons_self p
    refine ⟨hu.tree, hu.paused, ?_⟩
    rw [hu.held, if_neg (by omega)]
    rfl
  · have hw := (emit_paused again h e).proof p
    rw [proof_modifyProof_self _ hp] at hw
    rw [hw]
    exact ⟨rfl, rfl, (if_pos h).symm⟩

/-- A change of the tree that is told by one event. -/
theorem tells_setTree (again : Again) {tree : Tree} (hp : p < s.proofs.length)
    (ht : Passive ((s.setTree p tree).record (.emitted p e))) :
    Tells (s.proof p) ((emit again (s.setTree p tree) p e).proof p) tree [e] := by
  have hl : p < (s.setTree p tree).proofs.length := by
    rw [setTree, length_modifyProof]
    exact hp
  have h := tells_emit again ht hl
  rw [proof_setTree_self hp] at h
  exact ⟨h.tree, h.paused, h.held⟩

theorem tells_applyRule (again : Again) (hs : Passive s) (hp : p < s.proofs.length) {rule : String}
    {new : List Sequent} {goals : List Goal} {tree : Tree}
    (hr : (s.proof p).tree.applyRule n rule new = .ok (goals, tree)) :
    Tells (s.proof p) ((applyRule again s p n rule new).2.proof p) tree (ruleEvents goals tree) := by
  have hrule : Passes (.onlyEdits p) s
      ((s.setTree p tree).record (.emitted p (.ruleApplied goals))) := .one (.rule rfl hr)
  have h1 := tells_setTree again hp (passive_passes (fun _ h => h) hs hrule)
  have hemit := passes_emit (obedient_tacit _ _ _ again) hs.tame hrule rfl fun e => by cases e
  unfold applyRule ruleEvents
  rw [hr]
  simp only
  split
  · have hnext := hemit.more (.announce p .proofClosed fun _ e => by cases e)
    have hl := hp
    rw [← (grows_passes hemit).proofs] at hl
    have h2 := tells_emit again (passive_passes (fun _ h => h) hs hnext) hl
    rw [h1.tree] at h2
    exact h1.trans h2
  · exact h1

theorem tells_prune (again : Again) (hs : Passive s) (hp : p < s.proofs.length) {tree : Tree}
    (hr : (s.proof p).tree.prune n = .ok tree) :
    Tells (s.proof p) ((prune again s p n).2.proof p) tree [.treeStructureChanged] := by
  have hprune : Passes (.onlyEdits p) s
      ((s.setTree p tree).record (.emitted p .treeStructureChanged)) :=
    (Passes.one (.prune rfl hr)).more (.announce p _ fun _ e => by cases e)
  unfold prune
  rw [hr]
  exact tells_setTree again hp (passive_passes (fun _ h => h) hs hprune)

/-! ## 3. Timely proofs -/

section Timely

variable (hs : Passive s) (hp : p < s.proofs.length) (h : (s.proof p).Timely)

include hs hp h

theorem timely_applyRule (rule : String) (new : List Sequent) :
    ((applyRule again s p n rule new).2.proof p).Timely := by
  cases hr : (s.proof p).tree.applyRule n rule new with
  | error e =>
      unfold applyRule
      rw [hr]
      exact h
  | ok result =>
      obtain ⟨goals, tree⟩ := result
      -- the rule was applied to an open goal
      have hopen := h.shape.isClosed_of_isGoal (Tree.applyRule_cases hr).1
      refine h.tells (tells_applyRule again hs hp hr) (Tree.shape_applyRule h.shape hr) ?_ ?_
      · intro b hb
        unfold ruleEvents at hb
        split at hb
        · rename_i hclosed
          cases hb
          exact hclosed
        · cases hb
      · intro hn
        unfold ruleEvents at hn
        split at hn
        · cases hn
        · rename_i hclosed
          rw [hopen]
          exact Bool.eq_false_iff.mpr hclosed

theorem timely_prune : ((prune again s p n).2.proof p).Timely := by
  cases hr : (s.proof p).tree.prune n with
  | error e =>
      unfold prune
      rw [hr]
      exact h
  | ok tree =>
      have hshape := Tree.shape_prune h.shape hr
      refine h.tells (tells_prune again hs hp hr) hshape (fun b hb => ?_) fun hn => by cases hn
      cases hb
      exact hshape.isClosed_of_isGoal (h.shape.isGoal_prune hr)

/-- An event that says nothing of the kind. -/
theorem timely_announce (he : ∀ goals, e ≠ .ruleApplied goals) (hv : e.verdict? = none) :
    ((emit again s p e).proof p).Timely := by
  have hpass : Passes (.onlyEdits p) s (s.record (.emitted p e)) :=
    .one (.announce p e he)
  have hnone : Event.verdict [e] = none := by simp [Event.verdict, hv]
  refine h.tells (tells_emit again (passive_passes (fun _ h => h) hs hpass) hp) h.shape (fun b hb => ?_)
    fun _ => rfl
  rw [hnone] at hb
  cases hb

omit hs in
theorem timely_pauseEvents : ((s.pauseEvents p).proof p).Timely := by
  rw [pauseEvents, proof_modifyProof_self _ hp]
  exact ⟨h.shape, h.verdict, fun hz => absurd hz (Nat.succ_ne_zero _)⟩

omit hp h in
/-- At the end of the last pause all that waited is shown, and no proof changes any more. -/
theorem unedited_resumeEvents (again : Again) (hlast : ¬ 1 < (s.proof p).paused) (q : ProofId) :
    Unedited (s.modifyProof p fun w => { w with paused := 0, held := [] }) (resumeEvents again s p) q := by
  have hend : Passes (.onlyEdits p) s
      (s.modifyProof p fun w => { w with paused := 0, held := [] }) :=
    .one (.hold rfl _ (fun _ => rfl) fun _ _ hx => absurd hx List.not_mem_nil)
  unfold resumeEvents
  simp only
  rw [if_neg hlast]
  refine unedited_passes (P := License.shut.tacit (fun _ => False) fun _ => True) id
    (passes_foldl _ (passive_passes (fun _ h => h) hs hend).tame fun e he s' ht' hg => ?_)
  exact passes_deliver (obedient_tacit _ _ _ again) ht' (hg.log.mem (hs.held p e he))
    fun _ _ => Or.inl trivial

omit hp h in
theorem tree_resumeEvents (again : Again) (p q : ProofId) :
    ((resumeEvents again s p).proof q).tree = (s.proof q).tree := by
  have hsame : ∀ f : Watched → Watched, (∀ w, (f w).tree = w.tree) →
      ((s.modifyProof p f).proof q).tree = (s.proof q).tree := by
    intro f hf
    rcases proof_modifyProof_cases (s := s) (p := p) (q := q) f with e | ⟨_, _, e⟩
    · rw [e]
    · rw [e, hf]
  by_cases hlast : 1 < (s.proof p).paused
  · unfold resumeEvents
    simp only
    rw [if_pos hlast]
    exact hsame _ fun _ => rfl
  · exact (unedited_resumeEvents hs again hlast q).tree.trans (hsame _ fun _ => rfl)

theorem timely_resumeEvents : ((resumeEvents again s p).proof p).Timely := by
  by_cases hlast : 1 < (s.proof p).paused
  · unfold resumeEvents
    simp only
    rw [if_pos hlast, proof_modifyProof_self _ hp]
    refine ⟨h.shape, h.verdict, fun hz => ?_⟩
    exact absurd hz (Nat.sub_ne_zero_of_lt hlast)
  · have hheld := (unedited_resumeEvents hs again hlast p).held
    rw [proof_modifyProof_self _ hp] at hheld
    refine ⟨?_, fun b hb => ?_, fun _ => hheld⟩
    · rw [tree_resumeEvents hs]
      exact h.shape
    · rw [hheld] at hb
      cases hb

theorem timely_proofCall (call : ProofCall) : ((proofCall again s p call).proof p).Timely := by
  cases call with
  | applyRule n rule new => exact timely_applyRule hs hp h rule new
  | prune n => exact timely_prune hs hp h
  | startAuto => exact timely_announce hs hp h (fun _ e => by cases e) rfl
  | stopAuto => exact timely_announce hs hp h (fun _ e => by cases e) rfl
  | pause => exact timely_pauseEvents hp h
  | resume => exact timely_resumeEvents hs hp h
  | unsubscribe id =>
      show ((s.unsubscribe p id).proof p).Timely
      rw [unsubscribe, proof_modifyProof_self _ hp]
      exact ⟨h.shape, h.verdict, h.idle⟩

end Timely

/-! ## 4. Applying a result -/

/-- **Events wait meanwhile**: nothing is told from one session to the other, and these events wait more. -/
structure Waits (s u : Session) (p : ProofId) (es : List Event) : Prop where
  passes : Passes (.onlyEdits p) s u
  runner : ∀ r, u.runner r = s.runner r
  paused : (u.proof p).paused = (s.proof p).paused + 1
  held : (u.proof p).held = (s.proof p).held ++ es
  timely : (u.proof p).Timely

section Waits

variable {es : List Event} (hs : Passive s) (hp : p < s.proofs.length)

include hs in
theorem Waits.passive (h : Waits s u p es) : Passive u := passive_passes (fun _ h => h) hs h.passes

include hp in
theorem Waits.proofIn (h : Waits s u p es) : p < u.proofs.length := by
  rw [(grows_passes h.passes).proofs]
  exact hp

include hp in
theorem waits_pause (h : (s.proof p).Timely) (n : NodeId) : Waits s ((s.lookUp n).pauseEvents p) p [] := by
  have hlook : Same s (s.lookUp n) := same_lookUp n
  have hl : p < (s.lookUp n).proofs.length := by
    rw [hlook.proofs]
    exact hp
  have hw : ((s.lookUp n).pauseEvents p).proof p = { s.proof p with paused := (s.proof p).paused + 1 } := by
    rw [pauseEvents, proof_modifyProof_self _ hl, hlook.proof]
  refine ⟨(passes_lookUp n).trans (passes_pauseEvents rfl), hlook.runner, ?_, ?_, ?_⟩
  · rw [hw]
  · rw [hw, List.append_nil]
  · exact timely_pauseEvents hl (by rw [hlook.proof]; exact h)

/-- Events keep waiting while the tree changes. -/
theorem Waits.tells (h : Waits s u p es)
    (hpass : Passes (.onlyEdits p) u t) (hrun : ∀ r, t.runner r = u.runner r)
    {tree : Tree} {fs : List Event} (ht : Tells (u.proof p) (t.proof p) tree fs)
    (htimely : (t.proof p).Timely) : Waits s t p (es ++ fs) where
  passes := h.passes.trans hpass
  runner r := (hrun r).trans (h.runner r)
  paused := ht.paused.trans h.paused
  held := by
    rw [ht.held, if_pos (by rw [h.paused]; exact Nat.succ_pos _), h.held, List.append_assoc]
  timely := htimely

include hs hp

/-- Making a node a goal again closes nothing. -/
theorem waits_ensureGoal (again : Again) (h : Waits s u p es) (n : NodeId) :
    ∃ fs, Waits s (ensureGoal again u p n).2 p (es ++ fs) ∧ .proofClosed ∉ fs := by
  have hsame : ∃ fs, Waits s u p (es ++ fs) ∧ .proofClosed ∉ fs :=
    ⟨[], by rw [List.append_nil]; exact h, List.not_mem_nil⟩
  have hu : Passive u := h.passive hs
  have hl : p < u.proofs.length := h.proofIn hp
  unfold ensureGoal
  simp only
  split
  · exact hsame
  · split
    · exact hsame
    · cases hr : (u.proof p).tree.prune n with
      | error e =>
          unfold prune
          rw [hr]
          exact hsame
      | ok tree =>
          have hpass : Passes (.onlyEdits p) u (prune again u p n).2 :=
            passes_prune (P := .onlyEdits p) (obedient_tacit _ _ _ again) hu.tame rfl n
          refine ⟨[.treeStructureChanged], h.tells hpass (fun r => ?_) (tells_prune again hu hl hr)
            (timely_prune hu hl h.timely), by simp⟩
          have hpos : 0 < ((u.setTree p tree).proof p).paused := by
            rw [proof_setTree_self hl]
            show 0 < (u.proof p).paused
            rw [h.paused]
            exact Nat.succ_pos _
          unfold prune
          rw [hr]
          exact (emit_paused again hpos .treeStructureChanged).runner r

/-- If closing a goal is told as the end of the proof, the proof is closed. -/
theorem waits_closeGoal (again : Again) (h : Waits s u p es) (n : NodeId) :
    ∃ fs, Waits s (closeGoal again u p n).2 p (es ++ fs) ∧
      (.proofClosed ∈ fs → ((closeGoal again u p n).2.proof p).tree.isClosed = true) := by
  have hu : Passive u := h.passive hs
  have hl : p < u.proofs.length := h.proofIn hp
  have hsame : ∃ fs, Waits s u p (es ++ fs) ∧ (.proofClosed ∈ fs → (u.proof p).tree.isClosed = true) :=
    ⟨[], by rw [List.append_nil]; exact h, fun hm => absurd hm List.not_mem_nil⟩
  unfold closeGoal
  simp only
  split
  · exact hsame
  · exact hsame
  · rename_i g _ _
    unfold applySmtRule
    simp only
    cases hr : (u.proof p).tree.applyRule g.node (Tree.smtRule ((u.proof p).tree.nodeName n)) [] with
    | error e =>
        unfold applyRule
        rw [hr]
        exact hsame
    | ok result =>
        obtain ⟨goals, tree⟩ := result
        have ht := tells_applyRule again hu hl hr
        have hpos : 0 < (u.proof p).paused := by
          rw [h.paused]
          exact Nat.succ_pos _
        have hpass : Passes (.onlyEdits p) u
            (applyRule again u p g.node (Tree.smtRule ((u.proof p).tree.nodeName n)) []).2 :=
          passes_applyRule (obedient_tacit _ _ _ again) hu.tame rfl fun _ _ _ _ _ => Or.inl trivial
        refine ⟨ruleEvents goals tree, h.tells hpass (applyRule_paused again hl hpos hr).runner ht
          (timely_applyRule hu hl h.timely _ _), fun hm => ?_⟩
        rw [ht.tree]
        unfold ruleEvents at hm
        split at hm
        · assumption
        · simp at hm

/-- **A result is applied while events wait**; then they are shown. -/
theorem waits_applyResult (again : Again) (h : ∀ q, (s.proof q).Timely) (n : NodeId)
    (hact : ∀ k, s.registry.activeRunner? = some k → (s.runner k).proof = p) :
    (applyResult again s n).2 = s.lookUp n ∨
    ∃ u es, Waits s u p es ∧ (.proofClosed ∈ es → (u.proof p).tree.isClosed = true) ∧
      (applyResult again s n).2 = resumeEvents again u p := by
  unfold applyResult
  simp only
  split
  · rename_i k _ hk
    rw [hact k hk]
    obtain ⟨es, h1, hes⟩ := waits_ensureGoal hs hp again (waits_pause hp (h p) n) n
    rw [List.nil_append] at h1
    right
    cases hg : ensureGoal again ((s.lookUp n).pauseEvents p) p n with
    | mk result t =>
        rw [hg] at h1
        cases result with
        | error e => exact ⟨t, es, h1, fun hm => absurd hm hes, rfl⟩
        | ok _ =>
            obtain ⟨fs, h2, hfs⟩ := waits_closeGoal hs hp again h1 n
            refine ⟨_, es ++ fs, h2, fun hm => hfs ((List.mem_append.mp hm).resolve_left hes), ?_⟩
            simp only
            split <;> rfl
  · exact Or.inl rfl

end Waits

/-! ## 5. Moves of those who only look on -/

variable {m : Move} {E : ProofId → Prop} {C : RunnerId → Prop}

theorem replaces_of_isFaithful (hf : m.isFaithful = true) : m.replaces = false := by
  cases m <;> first | rfl | cases hf

theorem passes_tacit (again : Again) (hs : Passive s) (hf : m.replaces = false) (hm : m.IsPassive)
    (hE : ∀ p, m.touches s p → E p ∧ Closable ((m.license s).tacit E C) s p)
    (hC : ∀ k, s.runners.length ≤ k ∨ m.ends k = true → C k) :
    Passes ((m.license s).tacit E C) s (move again s m) := by
  refine passes_move (obedient_tacit _ _ _ again) hs.tame ?_
  cases m with
  | select p => exact ⟨fun _ => trivial, fun k hk => hC k (Or.inl hk)⟩
  | newRunner p settings => exact ⟨fun _ => trivial, fun k hk => hC k (Or.inl hk)⟩
  | applyResult n => exact fun k hk => hE _ ⟨k, hk, rfl⟩
  | refreshAll settings => exact fun _ _ => trivial
  | shutdownAll => exact fun e _ => hC e.2 (Or.inr rfl)
  | proof p call => exact hE p rfl
  | runner k call =>
      cases call with
      | ruleApplied goals => exact ⟨k, goals, rfl⟩
      | close => exact hC k (Or.inr (beq_self_eq_true k))
      | completed batch outcomes => exact Or.inl rfl
      | dispatch | resume | autoStarted | autoStopped | treeChanged | refresh | setSolvers | stopAll =>
          trivial
  | finish o outcomes => exact fun ho => Or.inr ⟨o, rfl, ho, rfl, rfl⟩
  | listen home calls =>
      intro l call hcall
      rw [hm l] at hcall
      exact absurd hcall List.not_mem_nil
  | subscribe p react =>
      intro k e call hcall
      rw [hm k e] at hcall
      exact absurd hcall List.not_mem_nil
  | dispose l => trivial
  | present p tree facade => cases hf

/-- **Clients only look on, all stations are sound and all proofs timely.** -/
structure Punctual (s : Session) : Prop where
  passive : Passive s
  posted : Posted s
  timely : ∀ p, (s.proof p).Timely

theorem timely_unedited (h : (s.proof p).Timely) (hu : Unedited s s' p) : (s'.proof p).Timely where
  shape := by
    rw [hu.tree]
    exact h.shape
  verdict b hb := by
    rw [hu.held] at hb
    rw [hu.tree]
    exact h.verdict b hb
  idle hz := by
    rw [hu.paused] at hz
    rw [hu.held]
    exact h.idle hz

/-- A proof that the session does not have. -/
theorem timely_of_le (hp : s.proofs.length ≤ p) : (s.proof p).Timely := by
  rw [proof_of_le hp]
  exact ⟨Tree.shape_ofRoot {}, fun _ hb => (by cases hb), fun _ => rfl⟩

theorem timely_applyResult (h : Punctual s) (hp : p < s.proofs.length) (n : NodeId)
    (hact : ∀ k, s.registry.activeRunner? = some k → (s.runner k).proof = p) :
    ((applyResult again s n).2.proof p).Timely := by
  rcases waits_applyResult h.passive hp again h.timely n hact with e | ⟨u, es, hw, _, e⟩
  · rw [e, (same_lookUp n).proof]
    exact h.timely p
  · rw [e]
    exact timely_resumeEvents (hw.passive h.passive) (hw.proofIn hp) hw.timely

/-- There is at most one active runner, so at most one proof in which a result is applied. -/
theorem active_watches {k : RunnerId} (hk : s.registry.activeRunner? = some k)
    (hp : (s.runner k).proof = p) : ∀ i, s.registry.activeRunner? = some i → (s.runner i).proof = p := by
  intro i hi
  rw [hk] at hi
  cases hi
  exact hp

theorem punctual_move (again : Again) (h : Punctual s) (hf : m.isFaithful = true) (hm : m.IsPassive) :
    Punctual (move again s m) := by
  have hpass : Passes ((m.license s).tacit (m.touches s) fun _ => True) s (move again s m) :=
    passes_tacit again h.passive (replaces_of_isFaithful hf) hm
      (fun _ hp => ⟨hp, fun _ => Or.inl trivial⟩) fun _ _ => trivial
  obtain ⟨hG, hP⟩ := faithful_license hf s
  have hposted := posted_passes (P := (m.license s).tacit (m.touches s) fun _ => True) hG hP h.posted hpass
  refine ⟨passive_passes (fun _ h => h) h.passive hpass, hposted, fun p => ?_⟩
  rcases Nat.lt_or_ge p s.proofs.length with hp | hp
  · by_cases htouch : m.touches s p
    · cases m with
      | proof q call =>
          cases htouch
          exact timely_proofCall h.passive hp (h.timely _) call
      | applyResult n =>
          obtain ⟨k, hk, hkp⟩ := htouch
          exact timely_applyResult h hp n (active_watches hk hkp)
      | select | newRunner | refreshAll | shutdownAll | runner | finish | listen | subscribe | dispose
      | present => exact absurd htouch id
    · exact timely_unedited (h.timely p) (unedited_passes htouch hpass)
  · refine timely_of_le ?_
    rw [(grows_passes hpass).proofs]
    exact hp

theorem punctual_start {proofs : List (String × Tree)} (hnew : ∀ x ∈ proofs, x.2.IsNew)
    (settings : Settings) : Punctual (start proofs settings) where
  passive := ⟨wired_start proofs settings, fun _ h => absurd h List.not_mem_nil,
    fun _ h => absurd h List.not_mem_nil⟩
  posted := posted_start proofs settings
  timely p := by
    have hheld := (proof_start proofs settings p).2
    refine ⟨(isNew_start hnew settings p).shape, fun b hb => ?_, fun _ => hheld⟩
    rw [hheld] at hb
    cases hb

theorem punctual_run (again : Again) (h : Punctual s) (moves : List Move)
    (hm : ∀ k ∈ moves, k.isFaithful = true ∧ k.IsPassive) : Punctual (run again s moves) := by
  induction moves generalizing s with
  | nil => exact h
  | cons m rest ih =>
      obtain ⟨hf, hpas⟩ := hm m List.mem_cons_self
      exact ih (punctual_move again h hf hpas) fun k hk => hm k (List.mem_cons_of_mem _ hk)

/-! ## 6. Why a runner ended -/

/-- **A runner that may not end stays open.** -/
theorem open_passes (hG : ¬ P.anyGoals) (hP : ¬ P.anyProof) (hC : ¬ P.closes r) (hs : Posted s)
    (hr : r < s.runners.length) (hopen : (s.runner r).core.closed = false) (h : Passes P s s') :
    (s'.runner r).core.closed = false := by
  refine station_passes (I := fun x => x.core.closed = false) hG hP hs hr (fun {x y} _ hx ht => ?_) hopen h
  refine Bool.eq_false_iff.mpr fun hy => (ht.closed.2 hy).elim (fun hc => ?_) hC
  rw [hx] at hc
  cases hc

section Ended

variable (hs : Passive s) (hw : Posted s) (hr : r < s.runners.length)
  (hopen : (s.runner r).core.closed = false)

section Permitted

include hw hr hopen

/-- Steps by which no runner may end leave a runner open. -/
theorem not_closed_of_passes (h : Passes (License.shut.tacit E fun _ => False) s t) :
    (t.runner r).core.closed ≠ true := by
  rw [open_passes (P := License.shut.tacit E fun _ => False) id id id hw hr hopen h]
  exact Bool.false_ne_true

include hs

/-- A runner that ends with a pause was told so by an event that waited. -/
theorem closed_of_resumeEvents (hc : ((resumeEvents again s p).runner r).core.closed = true) :
    .proofClosed ∈ (s.proof p).held ∧ ¬ 1 < (s.proof p).paused := by
  refine ⟨Decidable.byContradiction fun hno => ?_, fun hmany => ?_⟩
  · exact not_closed_of_passes (E := (· = p)) hw hr hopen
      (passes_resumeEvents (obedient_tacit _ _ _ again) hs.tame rfl fun hm => absurd hm hno) hc
  · unfold resumeEvents at hc
    simp only at hc
    rw [if_pos hmany] at hc
    rw [show (s.modifyProof p _).runner r = s.runner r from rfl, hopen] at hc
    cases hc

/-- **A runner was ended by a change of its proof**: what was told had waited, or the proof is closed. -/
theorem closed_of_proofCall (hp : p < s.proofs.length) {call : ProofCall}
    (hc : ((proofCall again s p call).runner r).core.closed = true) :
    call = .resume ∧ .proofClosed ∈ (s.proof p).held ∨
      ((proofCall again s p call).proof p).tree.isClosed = true := by
  have hno := fun {t : Session} => not_closed_of_passes (t := t) (E := (· = p)) hw hr hopen
  have ha := obedient_tacit License.shut (· = p) (fun _ => False) again
  cases call with
  | applyRule n rule new =>
      right
      refine Decidable.byContradiction fun hclosed => hno ?_ hc
      refine passes_applyRule ha hs.tame rfl fun goals tree hrule htree => absurd ?_ hclosed
      exact (congrArg Tree.isClosed (tells_applyRule again hs hp hrule).tree).trans htree
  | resume => exact Or.inl ⟨rfl, (closed_of_resumeEvents hs hw hr hopen hc).1⟩
  | prune n => exact absurd hc (hno (passes_prune ha hs.tame rfl n))
  | startAuto =>
      exact absurd hc (hno (passes_announce ha hs.tame (fun _ e => by cases e) rfl fun e => by cases e))
  | stopAuto =>
      exact absurd hc (hno (passes_announce ha hs.tame (fun _ e => by cases e) rfl fun e => by cases e))
  | pause => exact absurd hc (hno (passes_pauseEvents rfl))
  | unsubscribe id => exact absurd hc (hno (passes_unsubscribe id))

end Permitted

variable (h : Punctual s)

include h hr hopen

/-- **A runner was ended by a result**: its proof is closed. -/
theorem closed_of_applyResult (hp : p < s.proofs.length)
    (hact : ∀ k, s.registry.activeRunner? = some k → (s.runner k).proof = p)
    (hc : ((applyResult again s n).2.runner r).core.closed = true) :
    ((applyResult again s n).2.proof p).tree.isClosed = true := by
  rcases waits_applyResult h.passive hp again h.timely n hact with e | ⟨u, es, hu, hes, e⟩
  · rw [e, (same_lookUp n).runner, hopen] at hc
    cases hc
  · rw [e] at hc ⊢
    have hpas : Passive u := hu.passive h.passive
    have hpos : Posted u := posted_passes (P := .onlyEdits p) id id h.posted hu.passes
    have hru : r < u.runners.length := Nat.lt_of_lt_of_le hr (grows_passes hu.passes).runners
    obtain ⟨hm, hlast⟩ := closed_of_resumeEvents hpas hpos hru (by rw [hu.runner]; exact hopen) hc
    -- nothing had waited before
    have hz : (s.proof p).paused = 0 := by
      rw [hu.paused] at hlast
      omega
    rw [hu.held, (h.timely p).idle hz, List.nil_append] at hm
    rw [tree_resumeEvents hpas]
    exact hes hm

/-- A move that neither asks a runner to end nor its proof to change does not end it. -/
theorem touches_of_closed (again : Again) (hf : m.isFaithful = true) (hm : m.IsPassive)
    (hend : m.ends r = false) (hc : ((move again s m).runner r).core.closed = true) :
    m.touches s (s.runner r).proof := by
  by_contra hno
  obtain ⟨hG, hP⟩ := faithful_license hf s
  have hpass : Passes ((m.license s).tacit (m.touches s) (· ≠ r)) s (move again s m) := by
    refine passes_tacit again h.passive (replaces_of_isFaithful hf) hm (fun q hq => ⟨hq, fun k => ?_⟩)
      fun k hk he => ?_
    · by_cases hk : k = r
      · subst hk
        exact Or.inr ⟨hr, fun e => hno (e ▸ hq)⟩
      · exact Or.inl hk
    · subst he
      rcases hk with hk | hk
      · exact absurd hr (Nat.not_lt.mpr hk)
      · rw [hend] at hk
        cases hk
  rw [open_passes (P := (m.license s).tacit (m.touches s) (· ≠ r)) hG hP (fun hne => hne rfl) h.posted hr
    hopen hpass] at hc
  cases hc

end Ended

/-! ## 7. Outdated news -/

/-- **A runner is ended by a proof that is closed, unless what it is told is outdated.** Take any proofs as
    they are built, any moves with clients that only look on, and a further move `m` that ends a runner `r`
    without asking it to. The proof of the runner is then closed, unless the move ends a pause and the last
    thing that waited to be told about its end is that it was pruned. The tree does not change while events
    are shown, so this is the tree that was there when the runner was told. -/
theorem closed_iff_not_outdated (again : Again) (proofs : List (String × Tree)) (settings : Settings)
    (moves : List Move) (m : Move) (hnew : ∀ x ∈ proofs, x.2.IsNew)
    (hm : ∀ k ∈ m :: moves, k.isFaithful = true ∧ k.IsPassive) {s t : Session}
    (hs : s = run again (start proofs settings) moves) (ht : t = move again s m) {r : RunnerId}
    (hr : r < s.runners.length) (hp : (s.runner r).proof < s.proofs.length)
    (hopen : (s.runner r).core.closed = false) (hclosed : (t.runner r).core.closed = true)
    (hend : m.ends r = false) :
    (t.proof (s.runner r).proof).tree.isClosed = true ↔
      ¬ (m = .proof (s.runner r).proof .resume ∧
        Event.verdict (s.proof (s.runner r).proof).held = some false) := by
  have h : Punctual s := by
    rw [hs]
    exact punctual_run again (punctual_start hnew settings) moves fun k hk => hm k (List.mem_cons_of_mem _ hk)
  obtain ⟨hf, hpas⟩ := hm m List.mem_cons_self
  subst ht
  have hresume : ((resumeEvents again s (s.runner r).proof).proof (s.runner r).proof).tree =
      (s.proof (s.runner r).proof).tree := tree_resumeEvents h.passive again _ _
  constructor
  · rintro htree ⟨rfl, hv⟩
    have hopen' := (h.timely (s.runner r).proof).verdict _ hv
    rw [← hresume] at hopen'
    exact absurd (htree.symm.trans hopen') (by simp)
  · intro hlate
    have htouch := touches_of_closed hr hopen h again hf hpas hend hclosed
    cases m with
    | proof q call =>
        cases htouch
        rcases closed_of_proofCall h.passive h.posted hr hopen hp hclosed with ⟨rfl, hmem⟩ | htree
        · -- the last verdict is that the proof is closed, and it is right
          obtain ⟨b, hb⟩ := Event.exists_verdict hmem
          have htrue : b = true := Bool.of_not_eq_false fun e => hlate ⟨rfl, e ▸ hb⟩
          subst htrue
          exact (congrArg Tree.isClosed hresume).trans ((h.timely (s.runner r).proof).verdict true hb)
        · exact htree
    | applyResult n =>
        obtain ⟨k, hk, hkp⟩ := htouch
        exact closed_of_applyResult hr hopen h hp (active_watches hk hkp) hclosed
    | select | newRunner | refreshAll | shutdownAll | runner | finish | listen | subscribe | dispose
    | present => exact absurd htouch id

/-- A proof is closed, pruned and closed again within two nested pauses; when the last one ends, its runner is
    told of all three, and is right to end. -/
theorem closed_iff_not_outdated_nested :
    let proofs : List (String × Tree) := [("p", .ofGoals [{ succedent := ["a"] }])]
    let chosen : Settings := { solvers := .ofList [.z3] }
    let moves : List Move := [.select 0, .proof 0 .pause, .proof 0 (.applyRule 1 "close" []),
      .proof 0 .pause, .proof 0 (.prune 1), .proof 0 .resume, .proof 0 (.applyRule 1 "close" [])]
    let m : Move := .proof 0 .resume
    let s := run (perform 1) (start proofs chosen) moves
    let t := move (perform 1) s m
    (∀ x ∈ proofs, x.2.IsNew) ∧ (∀ k ∈ m :: moves, k.isFaithful = true ∧ k.IsPassive) ∧
    0 < s.runners.length ∧ (s.runner 0).proof < s.proofs.length ∧ (s.runner 0).core.closed = false ∧
    (t.runner 0).core.closed = true ∧ m.ends 0 = false ∧
    ((t.proof (s.runner 0).proof).tree.isClosed = true ↔
      ¬ (m = .proof (s.runner 0).proof .resume ∧
        Event.verdict (s.proof (s.runner 0).proof).held = some false)) := by
  intro proofs chosen moves m s t
  have hnew : ∀ x ∈ proofs, x.2.IsNew := by
    intro x hx
    rw [List.mem_singleton.mp hx]
    exact .ofGoals _
  have hm : ∀ k ∈ m :: moves, k.isFaithful = true ∧ k.IsPassive := by
    intro k hk
    simp only [moves, m, List.mem_cons, List.not_mem_nil, or_false] at hk
    rcases hk with rfl | rfl | rfl | rfl | rfl | rfl | rfl | rfl <;> exact ⟨rfl, trivial⟩
  have hr : 0 < s.runners.length := by decide +kernel
  have hp : (s.runner 0).proof < s.proofs.length := by decide +kernel
  have hopen : (s.runner 0).core.closed = false := by decide +kernel
  have hclosed : (t.runner 0).core.closed = true := by decide +kernel
  exact ⟨hnew, hm, hr, hp, hopen, hclosed, rfl,
    closed_iff_not_outdated (perform 1) proofs chosen moves m hnew hm (s := s) (t := t) rfl rfl hr hp hopen
      hclosed rfl⟩

/-- **A runner ends with a goal open**: a proof is closed and pruned during a pause. The runner is registered
    and open until the pause ends; then it is told that the proof is closed, ends and is forgotten, and the
    goal is open. -/
theorem ended_with_goal_open :
    let a : Goal := ⟨1, { succedent := ["a"] }⟩
    let moves : List Move :=
      [.select 0, .proof 0 .pause, .proof 0 (.applyRule 1 "close" []), .proof 0 (.prune 1)]
    let s := run (perform 1) (start [("p", .ofGoals [a.sequent])] { solvers := .ofList [.z3] }) moves
    let t := move (perform 1) s (.proof 0 .resume)
    s.registry.entries = [(0, 0)] ∧ (s.runner 0).core.closed = false ∧
      (s.proof 0).held = [.ruleApplied [], .proofClosed, .treeStructureChanged] ∧
      t.registry.entries = [] ∧ (t.runner 0).core.closed = true ∧
      (t.proof 0).tree.isClosed = false ∧ (t.proof 0).tree.goals = [a] := by
  decide +kernel

end Session

end GoalWatch
