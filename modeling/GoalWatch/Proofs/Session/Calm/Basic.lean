import GoalWatch.Proofs.Runner.Tending
import GoalWatch.Proofs.Session.Run

/-!
# Sessions without clients

When nobody but the registry and its runners listens, each move changes one proof and its runner at most, and
what it makes of them can be said outright.

* `Session.Same` -- two sessions differ in what is written down and in tasks only;
* `Session.Tended` -- a registered runner, wired to its proof and tending its tree;
* `Session.Calm` -- all registered runners are tended and nobody else is told of anything;
* `Session.Settled` -- and the active runner attends to its tree;
* `Calm.put`, `Settled.put` -- a runner and its tree change together.
-/

namespace GoalWatch.Session

variable {s s' s'' : Session} {p : ProofId} {r : RunnerId}

/-! ## 1. Sessions that look the same -/

/-- The sessions differ in what is written down, in tasks and in clients only. -/
structure Same (s s' : Session) : Prop where
  proofs : s'.proofs.length = s.proofs.length
  proof : ∀ p, s'.proof p = s.proof p
  runners : s'.runners.length = s.runners.length
  runner : ∀ r, s'.runner r = s.runner r
  registry : s'.registry = s.registry

theorem Same.refl (s : Session) : Same s s := ⟨rfl, fun _ => rfl, rfl, fun _ => rfl, rfl⟩

theorem Same.symm (h : Same s s') : Same s' s :=
  ⟨h.proofs.symm, fun p => (h.proof p).symm, h.runners.symm, fun r => (h.runner r).symm, h.registry.symm⟩

theorem Same.trans (h : Same s s') (h' : Same s' s'') : Same s s'' where
  proofs := h'.proofs.trans h.proofs
  proof p := (h'.proof p).trans (h.proof p)
  runners := h'.runners.trans h.runners
  runner r := (h'.runner r).trans (h.runner r)
  registry := h'.registry.trans h.registry

theorem same_record (e : Entry) : Same s (s.record e) := ⟨rfl, fun _ => rfl, rfl, fun _ => rfl, rfl⟩

theorem same_recordAll (es : List Entry) : Same s (s.recordAll es) :=
  ⟨rfl, fun _ => rfl, rfl, fun _ => rfl, rfl⟩

theorem same_wake : Same s (s.wake r) := ⟨rfl, fun _ => rfl, rfl, fun _ => rfl, rfl⟩

theorem same_probe (busy : RunnerId) (activity : Activity) : Same s (s.probe p busy activity) := by
  obtain ⟨es, _, e⟩ := probe_eq (s := s) (p := p) busy activity
  rw [e]
  exact same_recordAll es

theorem Same.modifyRunner (h : Same s s') (f : Hosted → Hosted) :
    Same (s.modifyRunner r f) (s'.modifyRunner r f) where
  proofs := h.proofs
  proof := h.proof
  runners := by rw [length_modifyRunner, length_modifyRunner, h.runners]
  registry := h.registry
  runner k := by
    by_cases hk : k = r
    · subst hk
      rcases Nat.lt_or_ge k s.runners.length with hl | hl
      · rw [runner_modifyRunner_self f hl, runner_modifyRunner_self f (h.runners ▸ hl), h.runner]
      · rw [runner_of_le (by rw [length_modifyRunner, h.runners]; exact hl),
          runner_of_le (by rw [length_modifyRunner]; exact hl)]
    · rw [runner_modifyRunner_of_ne f hk, runner_modifyRunner_of_ne f hk, h.runner]

theorem Same.setCore (h : Same s s') (core : Runner) : Same (s.setCore r core) (s'.setCore r core) :=
  h.modifyRunner _

theorem same_takeLaunch (result : Option Launch × Runner) :
    Same (s.setCore r result.2) (s.takeLaunch r result).2 := by
  unfold takeLaunch
  cases result.1 with
  | none => exact .refl _
  | some launch => exact ⟨rfl, fun _ => rfl, rfl, fun _ => rfl, rfl⟩

theorem same_giveUp (result : List BatchId × Runner) :
    Same (s.setCore r result.2) (s.giveUp r result) := (same_recordAll _).trans same_wake

/-- A runner that gets the memory it has. -/
theorem same_setCore_self : Same s (s.setCore r (s.runner r).core) where
  proofs := rfl
  proof _ := rfl
  runners := length_modifyRunner _
  registry := rfl
  runner k := by
    rcases runner_modifyRunner_cases (s := s) (r := r) (k := k)
      (fun h => { h with core := (s.runner r).core }) with e | ⟨rfl, _, e⟩
    · exact e
    · exact e

/-- Handing out open goals changes the runner as its memory says, whether it takes batches or not. -/
theorem same_dispatchOpen (mode : Mode) :
    Same (s.setCore r ((s.runner r).core.dispatchOpen mode (s.proof (s.runner r).proof).openGoals).2)
      (s.dispatchOpen r mode).2 := by
  unfold dispatchOpen
  simp only
  split
  · have hp : Same s (s.probe (s.runner r).proof r .dispatching) := same_probe r .dispatching
    rw [hp.proof]
    exact (hp.setCore _).trans (same_takeLaunch _)
  · rename_i hacc
    unfold Runner.dispatchOpen
    rw [if_neg hacc]
    exact same_setCore_self.symm

theorem Same.modifyProof (h : Same s s') (f : Watched → Watched) :
    Same (s.modifyProof p f) (s'.modifyProof p f) where
  runners := h.runners
  runner := h.runner
  proofs := by rw [length_modifyProof, length_modifyProof, h.proofs]
  registry := h.registry
  proof q := by
    by_cases hq : q = p
    · subst hq
      rcases Nat.lt_or_ge q s.proofs.length with hl | hl
      · rw [proof_modifyProof_self f hl, proof_modifyProof_self f (h.proofs ▸ hl), h.proof]
      · rw [proof_of_le (by rw [length_modifyProof, h.proofs]; exact hl),
          proof_of_le (by rw [length_modifyProof]; exact hl)]
    · rw [proof_modifyProof_of_ne f hq, proof_modifyProof_of_ne f hq, h.proof]

theorem modifyProof_modifyProof (f g : Watched → Watched) :
    (s.modifyProof p f).modifyProof p g = s.modifyProof p (g ∘ f) := by
  simp [Session.modifyProof, List.modify_modify_eq]

/-- Two changes of a runner are one. -/
theorem modifyRunner_modifyRunner (f g : Hosted → Hosted) :
    (s.modifyRunner r f).modifyRunner r g = s.modifyRunner r (g ∘ f) := by
  simp [modifyRunner, List.modify_modify_eq]

/-- Later memory replaces earlier. -/
theorem setCore_setCore (c c' : Runner) : (s.setCore r c).setCore r c' = s.setCore r c' :=
  modifyRunner_modifyRunner _ _

/-! ## 2. Calm sessions -/

/-- **A registered runner of a proof**: it is open, wired to the proof and to the registry only, and tends
    the proof's tree. -/
structure Tended (s : Session) (p : ProofId) (r : RunnerId) : Prop where
  proofIn : p < s.proofs.length
  runnerIn : r < s.runners.length
  watches : (s.runner r).proof = p
  alive : (s.runner r).core.closed = false
  consistent : (s.runner r).core.Consistent
  targets : (s.runner r).listeners.targets = [.registry p]
  subscribed : ∃ id, (s.proof p).subscribers = [⟨id, .runner r⟩] ∧ (s.runner r).subscription = some id
  tends : (s.runner r).core.Tends (s.proof p).tree

/-- **Nobody but runners and the registry is told of anything**, and every registered runner is tended. -/
structure Calm (s : Session) : Prop where
  observers : s.registry.observers.targets = []
  plain : ∀ p, (s.proof p).facade = {} ∧ (s.proof p).paused = 0 ∧ (s.proof p).held = []
  quiet : ∀ p, s.registry.runnerFor? p = none → (s.proof p).subscribers = []
  idle : ∀ r, (∀ p, s.registry.runnerFor? p ≠ some r) → (s.runner r).listeners.targets = []
  listed : ∀ e ∈ s.registry.entries, s.registry.runnerFor? e.1 = some e.2
  tended : ∀ p r, s.registry.runnerFor? p = some r → Tended s p r

/-- **The active runner attends to its tree**, in a calm session. -/
structure Settled (s : Session) : Prop extends Calm s where
  attends : ∀ p r, s.registry.active = some p → s.registry.runnerFor? p = some r →
    (s.runner r).core.Attends (s.proof p).tree

/-- A runner stays tended while it and its proof stay as they are. -/
theorem Tended.frame (h : Tended s p r) (hp : s'.proofs.length = s.proofs.length)
    (hr : s.runners.length ≤ s'.runners.length) (hrun : s'.runner r = s.runner r)
    (hprf : s'.proof p = s.proof p) : Tended s' p r := by
  refine ⟨hp ▸ h.proofIn, Nat.lt_of_lt_of_le h.runnerIn hr, ?_, ?_, ?_, ?_, ?_, ?_⟩ <;>
    simp only [hrun, hprf]
  · exact h.watches
  · exact h.alive
  · exact h.consistent
  · exact h.targets
  · exact h.subscribed
  · exact h.tends

theorem Tended.same (h : Tended s p r) (hs : Same s s') : Tended s' p r :=
  h.frame hs.proofs (Nat.le_of_eq hs.runners.symm) (hs.runner r) (hs.proof p)

theorem Calm.same (h : Calm s) (hs : Same s s') : Calm s' := by
  refine ⟨?_, ?_, ?_, ?_, ?_, ?_⟩ <;> simp only [hs.runner, hs.proof, hs.registry]
  · exact h.observers
  · exact h.plain
  · exact h.quiet
  · exact h.idle
  · exact h.listed
  · exact fun p r he => (h.tended p r he).same hs

theorem Settled.same (h : Settled s) (hs : Same s s') : Settled s' := by
  refine ⟨h.toCalm.same hs, ?_⟩
  simp only [hs.runner, hs.proof, hs.registry]
  exact h.attends

/-- One runner has one proof. -/
theorem Calm.proof_unique (h : Calm s) {q : ProofId} (hp : s.registry.runnerFor? p = some r)
    (hq : s.registry.runnerFor? q = some r) : q = p :=
  (h.tended q r hq).watches.symm.trans (h.tended p r hp).watches

section Put

variable {tree : Tree} {core : Runner}

theorem proof_setTree_self (hp : p < s.proofs.length) :
    (s.setTree p tree).proof p = { s.proof p with tree } := proof_modifyProof_self _ hp

/-- A new tree leaves all else of a proof as it is. -/
theorem plain_setTree (h : Calm s) (q : ProofId) : ((s.setTree p tree).proof q).facade = {} ∧
    ((s.setTree p tree).proof q).paused = 0 ∧ ((s.setTree p tree).proof q).held = [] := by
  rcases proof_modifyProof_cases (s := s) (p := p) (q := q) (fun w => { w with tree })
    with e | ⟨rfl, _, e⟩
  · rw [setTree, e]
    exact h.plain q
  · rw [setTree, e]
    exact h.plain q

/-- A registered runner and its tree change together. -/
theorem Calm.put (h : Calm s) (he : s.registry.runnerFor? p = some r) (ha : core.closed = false)
    (hc : core.Consistent) (ht : core.Tends tree) : Calm ((s.setTree p tree).setCore r core) := by
  have hT := h.tended p r he
  have hlen : ((s.setTree p tree).setCore r core).proofs.length = s.proofs.length := length_modifyProof _
  have hrlen : ((s.setTree p tree).setCore r core).runners.length = s.runners.length :=
    length_modifyRunner _
  have hother : ∀ k ≠ r, ((s.setTree p tree).setCore r core).runner k = s.runner k :=
    fun k hk => runner_modifyRunner_of_ne _ hk
  refine ⟨h.observers, plain_setTree h, fun q hq => ?_, fun k hk => ?_, h.listed, fun q k hq => ?_⟩
  · have hne : q ≠ p := by
      rintro rfl
      cases hq.symm.trans he
    rw [show ((s.setTree p tree).setCore r core).proof q = s.proof q from proof_modifyProof_of_ne _ hne]
    exact h.quiet q hq
  · rw [hother k fun e => hk p (e ▸ he)]
    exact h.idle k hk
  · by_cases hk : k = r
    · subst hk
      cases h.proof_unique he hq
      have hself : ((s.setTree p tree).setCore k core).runner k = { s.runner k with core } :=
        runner_modifyRunner_self _ hT.runnerIn
      have hp : ((s.setTree p tree).setCore k core).proof p = { s.proof p with tree } :=
        proof_setTree_self hT.proofIn
      refine ⟨hlen ▸ hT.proofIn, hrlen ▸ hT.runnerIn, ?_, ?_, ?_, ?_, ?_, ?_⟩ <;>
        simp only [hself, hp]
      · exact hT.watches
      · exact ha
      · exact hc
      · exact hT.targets
      · exact hT.subscribed
      · exact ht
    · have hne : q ≠ p := by
        rintro rfl
        exact hk (Option.some.inj (hq.symm.trans he))
      exact (h.tended q k hq).frame hlen (Nat.le_of_eq hrlen.symm) (hother k hk)
        (proof_modifyProof_of_ne _ hne)

theorem Settled.put (h : Settled s) (he : s.registry.runnerFor? p = some r) (ha : core.closed = false)
    (hc : core.Consistent) (ht : core.Tends tree)
    (hatt : s.registry.active = some p → core.Attends tree) :
    Settled ((s.setTree p tree).setCore r core) := by
  have hT := h.tended p r he
  refine ⟨h.toCalm.put he ha hc ht, fun q k hact hq => ?_⟩
  by_cases hqp : q = p
  · subst hqp
    cases hq.symm.trans he
    rw [show ((s.setTree q tree).setCore r core).runner r = { s.runner r with core } from
        runner_modifyRunner_self _ hT.runnerIn,
      show ((s.setTree q tree).setCore r core).proof q = { s.proof q with tree } from
        proof_setTree_self hT.proofIn]
    exact hatt hact
  · have hk : k ≠ r := fun e => hqp (h.proof_unique he (e ▸ hq))
    rw [show ((s.setTree p tree).setCore r core).runner k = s.runner k from
        runner_modifyRunner_of_ne _ hk,
      show ((s.setTree p tree).setCore r core).proof q = s.proof q from proof_modifyProof_of_ne _ hqp]
    exact h.attends q k hact hq

theorem same_setTree_self : Same s (s.setTree p (s.proof p).tree) where
  proofs := length_modifyProof _
  proof q := by
    rcases proof_modifyProof_cases (s := s) (p := p) (q := q)
      (fun w => { w with tree := (s.proof p).tree }) with e | ⟨rfl, _, e⟩
    · exact e
    · exact e
  runners := rfl
  runner _ := rfl
  registry := rfl

/-- A registered runner changes; its tree does not. -/
theorem settled_setCore (h : Settled s) (he : s.registry.runnerFor? p = some r)
    (ha : core.closed = false) (hc : core.Consistent) (ht : core.Tends (s.proof p).tree)
    (hatt : s.registry.active = some p → core.Attends (s.proof p).tree) : Settled (s.setCore r core) :=
  (h.put he ha hc ht hatt).same (same_setTree_self.setCore core).symm

/-- A proof that no runner watches changes. -/
theorem settled_setTree (h : Settled s) (he : s.registry.runnerFor? p = none) :
    Settled (s.setTree p tree) := by
  have hne : ∀ {q k}, s.registry.runnerFor? q = some k → q ≠ p := by
    rintro q k hq rfl
    cases hq.symm.trans he
  refine ⟨⟨h.observers, plain_setTree h.toCalm, fun q hq => ?_, h.idle, h.listed, fun q k hq => ?_⟩,
    fun q k hact hq => ?_⟩
  · rcases proof_modifyProof_cases (s := s) (p := p) (q := q) (fun w => { w with tree })
      with e | ⟨rfl, _, e⟩
    · rw [setTree, e]
      exact h.quiet q hq
    · rw [setTree, e]
      exact h.quiet q hq
  · exact (h.tended q k hq).frame (length_modifyProof _) (Nat.le_refl _) rfl
      (proof_modifyProof_of_ne _ (hne hq))
  · rw [show (s.setTree p tree).proof q = s.proof q from proof_modifyProof_of_ne _ (hne hq)]
    exact h.attends q k hact hq

end Put

end GoalWatch.Session
