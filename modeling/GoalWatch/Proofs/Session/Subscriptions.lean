import GoalWatch.Proofs.Session.Course
import GoalWatch.Proofs.Session.Registry.Calls

/-!
# The subscriptions of runners

A runner is subscribed to its proof as long as someone keeps it and it has not ended: its subscription is taken
off once, at its end, by whoever shuts it down, or when the last who kept it gives it up, and it takes nobody
else's with it. Nobody else takes it off either, if clients take off nothing but subscriptions of their own.

* `Deal`, `Session.deal` -- moves, owners who give up a runner and others who wait for it;
* `Session.handed` -- the numbers that clients were given for their subscriptions;
* `Leave.striking` -- what clients may take off;
* `Session.Books` -- subscriptions and those who have them, while some runners are about to part from theirs;
* `Books.dies`, `Books.parts` -- the end of a runner, in its two parts;
* `books_course`, `books_deal`, `books_deals` -- the books are right after any deals;
* `taken_off` -- what a client takes off stays off;
* **`subscriptions_accounted`** -- who is subscribed, and how many.
-/

namespace GoalWatch

/-- What can happen to a session, with owners of runners who give them up and others who wait for them. -/
inductive Deal where
  | move (m : Move)
  /-- The owner of a runner gives it up, unless the registry keeps the runner too. -/
  | drop (r : RunnerId)
  | wait (r : RunnerId)
  /-- Someone has waited long enough. -/
  | endWait (w : Wait)

/-- Someone asks to take off the subscription with this number. -/
def Deal.Cancels (p : ProofId) (id : SubscriptionId) : Deal → Prop
  | .move (.proof q call) => q = p ∧ call = .unsubscribe id
  | .move (.subscribe q react) => q = p ∧ ∃ i e, .unsubscribe id ∈ react i e
  | .move (.listen _ calls) => ∃ l, .proof p (.unsubscribe id) ∈ calls l
  | _ => False

/-- Someone asks to take it off in one of the deals. -/
def Deal.cancelled (ds : List Deal) (p : ProofId) (id : SubscriptionId) : Prop := ∃ d ∈ ds, d.Cancels p id

def Sink.runner? : Sink → Option RunnerId
  | .runner r => some r
  | .client _ => none

theorem Sink.runner?_eq_some {x : Sink} {r : RunnerId} : x.runner? = some r ↔ x = .runner r := by
  cases x <;> simp [Sink.runner?]

/-- The number of a subscriber that is no runner. -/
def Subscriber.guest? (x : Subscriber) : Option SubscriptionId :=
  if x.sink.runner?.isSome then none else some x.id

theorem Subscriber.guest?_eq_some {x : Subscriber} {i : SubscriptionId} :
    x.guest? = some i ↔ (∃ k, x.sink = .client k) ∧ x.id = i := by
  unfold Subscriber.guest?
  cases x.sink <;> simp [Sink.runner?]

/-- A subscriber is a runner or a guest. -/
theorem Subscriber.length_eq (l : List Subscriber) : l.length =
    (l.filterMap fun x => x.sink.runner?).length + (l.filterMap Subscriber.guest?).length := by
  induction l with
  | nil => rfl
  | cons x rest ih =>
      rw [List.length_cons, ih, List.filterMap_cons, List.filterMap_cons, Subscriber.guest?]
      cases x.sink with
      | runner r =>
          simp only [Sink.runner?, Option.isSome_some, if_true, List.length_cons]
          omega
      | client k =>
          simp only [Sink.runner?, Option.isSome_none, Bool.false_eq_true, if_false, List.length_cons]
          omega

/-- A runner that nobody keeps any more. -/
def Hosted.givenUp (h : Hosted) : Hosted :=
  { h with
    core := h.core.stopAll.2
    subscription := none
    listeners := h.listeners.clear
    standing := .dropped }

/-- **Clients take off nothing but subscriptions of the given numbers**, and may ask for all else. -/
def Leave.striking (C : ProofId → SubscriptionId → Prop) : Leave where
  calls
    | .proof p (.unsubscribe id) => C p id
    | _ => True
  edits _ := True
  tells _ := True
  cancels := C
  joins _ := False

theorem Leave.coherent_striking (C : ProofId → SubscriptionId → Prop) : (Leave.striking C).Coherent where
  proof {p call} h := by
    cases call with
    | unsubscribe id => exact h
    | applyRule | prune => exact ⟨trivial, trivial⟩
    | startAuto | stopAuto | pause | resume => trivial
  first _ _ := ⟨trivial, trivial⟩

namespace Session

variable {L : Leave} {C H H' : ProofId → SubscriptionId → Prop} {D : RunnerId → ProofId → SubscriptionId → Prop}
  {b s s' : Session} {p q : ProofId} {r : RunnerId} {id : SubscriptionId} {again : Again}

/-! ## 1. The books -/

/-- The runner has this number for its subscription, or is about to part from it. -/
def Holds (D : RunnerId → ProofId → SubscriptionId → Prop) (s : Session) (r : RunnerId) (p : ProofId)
    (id : SubscriptionId) : Prop :=
  D r p id ∨ (s.runner r).proof = p ∧ (s.runner r).subscription = some id

/-- **A number that a runner got**: no client was given it, nobody else is subscribed under it, and the runner
    is, unless clients may take it off. -/
structure Entered (C H : ProofId → SubscriptionId → Prop) (w : Watched) (r : RunnerId) (p : ProofId)
    (id : SubscriptionId) : Prop where
  below : id < w.nextSubscription
  fresh : ¬ H p id
  sole : ∀ x ∈ w.subscribers, x.id = id → x.sink = .runner r
  there : ¬ C p id → ⟨id, .runner r⟩ ∈ w.subscribers

/-- **Subscriptions and those who have them.** Runners are about to part from the numbers in `D`; any other has
    one as long as someone keeps it and it has not ended. Clients were given the numbers in `H`, and may take
    off those in `C`. -/
structure Books (C H : ProofId → SubscriptionId → Prop) (D : RunnerId → ProofId → SubscriptionId → Prop)
    (s : Session) : Prop where
  ranked : ∀ p, (s.proof p).Ranked
  owner : ∀ {p x r}, x ∈ (s.proof p).subscribers → x.sink = .runner r → Holds D s r p x.id
  count : ∀ {r p id}, Holds D s r p id → r < s.runners.length
  entered : ∀ {r p id}, Holds D s r p id → p < s.proofs.length → Entered C H (s.proof p) r p id
  dying : ∀ {r p id}, D r p id → (s.runner r).subscription = none
  standing : ∀ r, (s.runner r).subscription.isSome = true ↔
    (s.runner r).core.closed = false ∧ (s.runner r).standing ≠ .dropped
  client : ∀ {p x k}, x ∈ (s.proof p).subscribers → x.sink = .client k → H p x.id
  given : ∀ {p id}, H p id → p < s.proofs.length → id < (s.proof p).nextSubscription
  kept : ∀ {p id}, H p id → ¬ C p id → p < s.proofs.length → ∃ k, ⟨id, .client k⟩ ∈ (s.proof p).subscribers

/-- Proofs have the subscribers they had, and each runner watches and has what it did. -/
theorem Books.same (h : Books C H D s) (hlen : s'.proofs.length = s.proofs.length)
    (hp : ∀ q, (s'.proof q).subscribers = (s.proof q).subscribers ∧
      (s'.proof q).nextSubscription = (s.proof q).nextSubscription)
    (hcount : s'.runners.length = s.runners.length)
    (hr : ∀ k, (s'.runner k).proof = (s.runner k).proof ∧
      (s'.runner k).subscription = (s.runner k).subscription)
    (hs : ∀ k, (s'.runner k).subscription.isSome = true ↔
      (s'.runner k).core.closed = false ∧ (s'.runner k).standing ≠ .dropped) : Books C H D s' := by
  have hholds : ∀ {k q i}, Holds D s' k q i ↔ Holds D s k q i := fun {k q i} => by
    rw [Holds, (hr k).1, (hr k).2, Holds]
  exact {
    ranked := fun q => (h.ranked q).thin (by rw [(hp q).1]) (hp q).2
    owner := fun {q x k} hx hk => hholds.mpr (h.owner ((hp q).1 ▸ hx) hk)
    count := fun hk => by
      rw [hcount]
      exact h.count (hholds.mp hk)
    entered := fun {k q i} hk hq => by
      have he := h.entered (hholds.mp hk) (hlen ▸ hq)
      exact ⟨(hp q).2 ▸ he.below, he.fresh, fun x hx => he.sole x ((hp q).1 ▸ hx), fun hC => by
        rw [(hp q).1]
        exact he.there hC⟩
    dying := fun {k _ _} hk => (hr k).2.trans (h.dying hk)
    standing := hs
    client := fun {q x k} hx hk => h.client ((hp q).1 ▸ hx) hk
    given := fun {q i} hH hq => by
      rw [(hp q).2]
      exact h.given hH (hlen ▸ hq)
    kept := fun {q i} hH hC hq => by
      rw [(hp q).1]
      exact h.kept hH hC (hlen ▸ hq) }

/-- Nothing changes but what the books say nothing about. -/
theorem Books.aside (h : Books C H D s) (hp : s'.proofs = s.proofs) (hr : s'.runners = s.runners) :
    Books C H D s' := by
  have hrunner : ∀ k, s'.runner k = s.runner k := fun k => by rw [runner, hr]; rfl
  refine h.same (by rw [hp]) (fun q => by rw [proof, hp]; exact ⟨rfl, rfl⟩) (by rw [hr])
    (fun k => by rw [hrunner]; exact ⟨rfl, rfl⟩) fun k => ?_
  rw [hrunner]
  exact h.standing k

theorem Books.congr (h : Books C H D s) (hs : Same s s') : Books C H D s' := by
  refine h.same hs.proofs (fun q => by rw [hs.proof]; exact ⟨rfl, rfl⟩) hs.runners
    (fun k => by rw [hs.runner]; exact ⟨rfl, rfl⟩) fun k => ?_
  rw [hs.runner]
  exact h.standing k

theorem Books.known (h : Books C H D s) (hH : ∀ p id, H p id ↔ H' p id) : Books C H' D s := by
  have he : H = H' := funext fun p => funext fun id => propext (hH p id)
  exact he ▸ h

theorem Books.modifyProof (h : Books C H D s) (p : ProofId) {f : Watched → Watched}
    (hf : ∀ w, (f w).subscribers = w.subscribers ∧ (f w).nextSubscription = w.nextSubscription) :
    Books C H D (s.modifyProof p f) := by
  refine h.same (length_modifyProof _) (fun q => ?_) rfl (fun _ => ⟨rfl, rfl⟩) h.standing
  rcases proof_modifyProof_cases (s := s) (p := p) (q := q) f with e | ⟨_, _, e⟩
  · rw [e]
    exact ⟨rfl, rfl⟩
  · rw [e]
    exact hf _

theorem Books.modifyRunner (h : Books C H D s) {f : Hosted → Hosted}
    (hf : (f (s.runner r)).proof = (s.runner r).proof ∧
      (f (s.runner r)).subscription = (s.runner r).subscription)
    (hs : (s.runner r).subscription.isSome = true ↔
      (f (s.runner r)).core.closed = false ∧ (f (s.runner r)).standing ≠ .dropped) :
    Books C H D (s.modifyRunner r f) := by
  refine h.same rfl (fun _ => ⟨rfl, rfl⟩) (length_modifyRunner _) (fun k => ?_) fun k => ?_
  all_goals rcases runner_modifyRunner_cases (s := s) (r := r) (k := k) f with e | ⟨rfl, _, e⟩ <;> rw [e]
  · exact ⟨rfl, rfl⟩
  · exact hf
  · exact h.standing k
  · rw [hf.2]
    exact hs

/-! ## 2. The end of a runner -/

/-- **A runner that had a subscription ends, or is given up**: it is about to part from its number. -/
theorem Books.dies (h : Books C H D s) {f : Hosted → Hosted} (hid : (s.runner r).subscription = some id)
    (hf : (f (s.runner r)).proof = (s.runner r).proof ∧ (f (s.runner r)).subscription = none)
    (hs : (f (s.runner r)).core.closed = true ∨ (f (s.runner r)).standing = .dropped) :
    Books C H (fun k q i => D k q i ∨ k = r ∧ q = (s.runner r).proof ∧ i = id) (s.modifyRunner r f) := by
  have hself := runner_modifyRunner_self f (h.count (Or.inr ⟨rfl, hid⟩))
  -- it was its own before and is about to be given back now
  have hholds : ∀ {k q i}, Holds (fun k q i => D k q i ∨ k = r ∧ q = (s.runner r).proof ∧ i = id)
      (s.modifyRunner r f) k q i ↔ Holds D s k q i := fun {k q i} => by
    unfold Holds
    by_cases hkr : k = r
    · subst hkr
      rw [hself, hf.2, hid, Option.some.injEq]
      grind
    · rw [runner_modifyRunner_of_ne f hkr]
      grind
  exact {
    ranked := h.ranked
    owner := fun hx hk => hholds.mpr (h.owner hx hk)
    count := fun hk => by
      rw [length_modifyRunner]
      exact h.count (hholds.mp hk)
    entered := fun hk => h.entered (hholds.mp hk)
    dying := fun {k _ _} hk => by
      by_cases hkr : k = r
      · rw [hkr, hself, hf.2]
      · rw [runner_modifyRunner_of_ne f hkr]
        exact h.dying (hk.resolve_right fun e => hkr e.1)
    standing := fun k => by
      by_cases hkr : k = r
      · rw [hkr, hself, hf.2]
        refine ⟨(fun e => by cases e), fun hlive => ?_⟩
        rcases hs with hs | hs
        · cases hs.symm.trans hlive.1
        · exact absurd hs hlive.2
      · rw [runner_modifyRunner_of_ne f hkr]
        exact h.standing k
    client := h.client
    given := h.given
    kept := h.kept }

theorem mem_unsubscribe {x : Subscriber} : x ∈ ((s.unsubscribe p id).proof q).subscribers ↔
    x ∈ (s.proof q).subscribers ∧ (q = p → x.id ≠ id) := by
  by_cases hq : q = p
  · subst hq
    rcases Nat.lt_or_ge q s.proofs.length with hlt | hle
    · rw [unsubscribe, proof_modifyProof_self _ hlt, List.mem_filter, bne_iff_ne]
      exact and_congr_right fun _ => ⟨fun h _ => h, fun h => h rfl⟩
    · rw [proof_of_le hle, proof_of_le (by rw [unsubscribe, length_modifyProof]; exact hle)]
      exact ⟨fun h => absurd h List.not_mem_nil, fun h => absurd h.1 List.not_mem_nil⟩
  · rw [unsubscribe, proof_modifyProof_of_ne _ hq]
    exact ⟨fun h => ⟨h, fun e => absurd e hq⟩, And.left⟩

theorem next_unsubscribe : ((s.unsubscribe p id).proof q).nextSubscription = (s.proof q).nextSubscription := by
  unfold unsubscribe
  rcases proof_modifyProof_cases (s := s) (p := p) (q := q) fun w =>
    { w with subscribers := w.subscribers.filter fun x => x.id != id } with e | ⟨_, _, e⟩ <;> rw [e]

/-- **A number is taken off**, of those in `C` or of a runner that is about to part from it. -/
theorem Books.strike {D' : RunnerId → ProofId → SubscriptionId → Prop} (h : Books C H D' s)
    (hD : ∀ {k q i}, D k q i → D' k q i) (hD' : ∀ {k q i}, D' k q i → D k q i ∨ q = p ∧ i = id)
    (hr : ∀ {k}, p < s.proofs.length → Holds D s k p id → C p id)
    (hc : p < s.proofs.length → H p id → C p id) : Books C H D (s.unsubscribe p id) := by
  have hlen : (s.unsubscribe p id).proofs.length = s.proofs.length := length_modifyProof _
  have hholds : ∀ {k q i}, Holds D (s.unsubscribe p id) k q i → Holds D' s k q i := Or.imp_left hD
  exact {
    ranked := fun q => ranked_modifyProof (h.ranked q) p fun _ => ⟨List.filter_sublist, rfl⟩
    owner := fun {q x k} hx hk => by
      obtain ⟨hin, hne⟩ := mem_unsubscribe.mp hx
      refine (h.owner hin hk).imp_left fun hd => (hD' hd).resolve_right fun e => ?_
      exact hne e.1 e.2
    count := fun hk => h.count (hholds hk)
    entered := fun {k q i} hk hq => by
      have he := h.entered (hholds hk) (hlen ▸ hq)
      refine ⟨?_, he.fresh, fun x hx => he.sole x (mem_unsubscribe.mp hx).1, fun hC => ?_⟩
      · rw [next_unsubscribe]
        exact he.below
      · refine mem_unsubscribe.mpr ⟨he.there hC, fun hqp hi => ?_⟩
        subst hqp
        cases (hi : i = id)
        exact hC (hr (hlen ▸ hq) hk)
    dying := fun hk => h.dying (hD hk)
    standing := h.standing
    client := fun hx hk => h.client (mem_unsubscribe.mp hx).1 hk
    given := fun hH hq => by
      rw [next_unsubscribe]
      exact h.given hH (hlen ▸ hq)
    kept := fun {q i} hH hC hq => by
      obtain ⟨k, hk⟩ := h.kept hH hC (hlen ▸ hq)
      refine ⟨k, mem_unsubscribe.mpr ⟨hk, fun hqp hi => ?_⟩⟩
      subst hqp
      cases (hi : i = id)
      exact hC (hc (hlen ▸ hq) hH) }

/-- **A runner parts from its number**, which nobody else has. -/
theorem Books.parts (h : Books C H (fun k q i => D k q i ∨ k = r ∧ q = p ∧ i = id) s)
    (hD : ∀ {q i}, ¬ D r q i) : Books C H D (s.unsubscribe p id) := by
  have hown : p < s.proofs.length → Entered C H (s.proof p) r p id :=
    h.entered (Or.inl (Or.inr ⟨rfl, rfl, rfl⟩))
  refine h.strike Or.inl (fun hd => hd.imp_right And.right) (fun {k} hp hk => ?_)
    fun hp hH => absurd hH (hown hp).fresh
  refine Classical.byContradiction fun hC => ?_
  have hin := (h.entered (hk.imp_left Or.inl) hp).there hC
  cases (hown hp).sole _ hin rfl
  rcases hk with hd | ⟨_, hsome⟩
  · exact hD hd
  · rw [h.dying (Or.inr ⟨rfl, rfl, rfl⟩)] at hsome
    cases hsome

theorem Books.not_dying (h : Books C H D s) (hid : (s.runner r).subscription = some id) {q : ProofId}
    {i : SubscriptionId} : ¬ D r q i := fun hd => by
  rw [h.dying hd] at hid
  cases hid

/-- A runner without a subscription ends: there is nothing to part from. -/
theorem Books.ended_none (h : Books C H D s) (hid : (s.runner r).subscription = none) :
    Books C H D (s.ended r) := by
  refine h.same rfl (fun _ => ⟨rfl, rfl⟩) length_ended (fun k => ?_) fun k => ?_
  all_goals rcases runner_ended (s := s) (r := r) k with e | ⟨rfl, _, e⟩ <;> rw [e]
  · exact ⟨rfl, rfl⟩
  · exact ⟨rfl, hid.symm⟩
  · exact h.standing k
  · refine ⟨(fun e => by cases e), fun hlive => ?_⟩
    cases (close_closed _).symm.trans hlive.1

/-! ## 3. New subscribers -/

theorem mem_addSubscriber {sink : Sink} {x : Subscriber} :
    x ∈ ((s.modifyProof p (Watched.addSubscriber sink)).proof q).subscribers ↔
      x ∈ (s.proof q).subscribers ∨
        q = p ∧ p < s.proofs.length ∧ x = ⟨(s.proof p).nextSubscription, sink⟩ := by
  by_cases hq : q = p
  · subst hq
    rcases Nat.lt_or_ge q s.proofs.length with hlt | hle
    · rw [proof_modifyProof_self _ hlt]
      show x ∈ (s.proof q).subscribers ++ [_] ↔ _
      rw [List.mem_append, List.mem_singleton]
      exact or_congr_right ⟨fun h => ⟨rfl, hlt, h⟩, fun h => h.2.2⟩
    · rw [proof_of_le hle, proof_of_le (by rw [length_modifyProof]; exact hle)]
      exact ⟨Or.inl, fun h => h.resolve_right fun h => absurd h.2.1 (Nat.not_lt.mpr hle)⟩
  · rw [proof_modifyProof_of_ne _ hq]
    exact ⟨Or.inl, fun h => h.resolve_right fun h => hq h.1⟩

theorem ranked_addSubscriber (h : (s.proof q).Ranked) (sink : Sink) :
    ((s.modifyProof p (Watched.addSubscriber sink)).proof q).Ranked := by
  rcases proof_modifyProof_cases (s := s) (p := p) (q := q) (Watched.addSubscriber sink) with e | ⟨_, _, e⟩
  · rw [e]
    exact h
  · rw [e]
    exact h.addSubscriber sink

theorem runner_enlist_cases (settings : Settings) (k : RunnerId) :
    (s.enlist p settings).2.runner k = s.runner k ∧ k ≠ s.runners.length ∨
      k = s.runners.length ∧ (s.enlist p settings).2.runner k =
        { proof := p, core := { settings }, subscription := some (s.proof p).nextSubscription
          standing := .candidate } := by
  rcases Nat.lt_trichotomy k s.runners.length with hlt | rfl | hgt
  · exact Or.inl ⟨runner_enlist_of_lt settings hlt, Nat.ne_of_lt hlt⟩
  · exact Or.inr ⟨rfl, runner_enlist_self settings⟩
  · refine Or.inl ⟨?_, Nat.ne_of_gt hgt⟩
    rw [runner_of_le (Nat.le_of_lt hgt), runner_of_le (by rw [length_enlist]; exact hgt)]

theorem mem_enlist (settings : Settings) {x : Subscriber} :
    x ∈ ((s.enlist p settings).2.proof q).subscribers ↔ x ∈ (s.proof q).subscribers ∨
      q = p ∧ p < s.proofs.length ∧ x = ⟨(s.proof p).nextSubscription, .runner s.runners.length⟩ :=
  mem_addSubscriber (s := { s with runners := _ })

theorem mem_subscribe (react : Nat → Event → List ProofCall) {x : Subscriber} :
    x ∈ ((s.subscribe p react).2.proof q).subscribers ↔ x ∈ (s.proof q).subscribers ∨
      q = p ∧ p < s.proofs.length ∧ x = ⟨(s.proof p).nextSubscription, .client s.sinks.length⟩ :=
  mem_addSubscriber (s := { s with sinks := _ })

theorem next_le_addSubscriber (sink : Sink) : (s.proof q).nextSubscription ≤
    ((s.modifyProof p (Watched.addSubscriber sink)).proof q).nextSubscription := by
  rcases proof_modifyProof_cases (s := s) (p := p) (q := q) (Watched.addSubscriber sink) with e | ⟨_, _, e⟩
  · exact Nat.le_of_eq (congrArg Watched.nextSubscription e).symm
  · rw [e]
    exact Nat.le_succ _

theorem next_addSubscriber_self (sink : Sink) (hp : p < s.proofs.length) :
    ((s.modifyProof p (Watched.addSubscriber sink)).proof p).nextSubscription =
      (s.proof p).nextSubscription + 1 := by
  rw [proof_modifyProof_self _ hp]
  rfl

/-- Whoever comes later leaves a runner its number. -/
theorem Entered.join {i : SubscriptionId} (h : Entered C H (s.proof q) r q i) (sink : Sink)
    (hH : H' q i → H q i ∨ q = p ∧ i = (s.proof p).nextSubscription) :
    Entered C H' ((s.modifyProof p (Watched.addSubscriber sink)).proof q) r q i where
  below := Nat.lt_of_lt_of_le h.below (next_le_addSubscriber sink)
  fresh hi := by
    rcases hH hi with hi | ⟨rfl, rfl⟩
    · exact h.fresh hi
    · exact Nat.lt_irrefl _ h.below
  sole x hx hi := by
    rcases mem_addSubscriber.mp hx with hx | ⟨rfl, _, rfl⟩
    · exact h.sole x hx hi
    · cases hi
      exact absurd h.below (Nat.lt_irrefl _)
  there hC := mem_addSubscriber.mpr (Or.inl (h.there hC))

theorem holds_enlist (settings : Settings) {k : RunnerId} {i : SubscriptionId} :
    Holds D (s.enlist p settings).2 k q i ↔
      Holds D s k q i ∨ k = s.runners.length ∧ q = p ∧ i = (s.proof p).nextSubscription := by
  unfold Holds
  rcases runner_enlist_cases (s := s) (p := p) settings k with ⟨e, hne⟩ | ⟨rfl, e⟩ <;> rw [e]
  · exact ⟨Or.inl, fun h => h.resolve_right fun e => hne e.1⟩
  · rw [runner_of_le (Nat.le_refl _)]
    constructor
    · rintro (hd | ⟨rfl, hi⟩)
      · exact Or.inl (Or.inl hd)
      · exact Or.inr ⟨rfl, rfl, (Option.some.inj hi).symm⟩
    · rintro ((hd | ⟨_, hi⟩) | ⟨_, rfl, rfl⟩)
      · exact Or.inl hd
      · cases hi
      · exact Or.inr ⟨rfl, rfl⟩

/-- **A new runner** gets a number that nobody has. -/
theorem Books.enlist (h : Books C H D s) (settings : Settings) : Books C H D (s.enlist p settings).2 := by
  have hlen : (s.enlist p settings).2.proofs.length = s.proofs.length := length_modifyProof _
  exact {
    ranked := fun q => ranked_addSubscriber (s := { s with runners := _ }) (h.ranked q) _
    owner := fun {q x k} hx hk => by
      refine (holds_enlist settings).mpr ?_
      rcases (mem_enlist settings).mp hx with hx | ⟨rfl, _, rfl⟩
      · exact Or.inl (h.owner hx hk)
      · cases hk
        exact Or.inr ⟨rfl, rfl, rfl⟩
    count := fun hk => by
      rw [length_enlist]
      rcases (holds_enlist settings).mp hk with hk | ⟨rfl, _⟩
      · exact Nat.lt_succ_of_lt (h.count hk)
      · exact Nat.lt_succ_self _
    entered := fun {k q i} hk hq => by
      rw [hlen] at hq
      rcases (holds_enlist settings).mp hk with hk | ⟨rfl, rfl, rfl⟩
      · exact (h.entered hk hq).join (s := { s with runners := _ }) _ Or.inl
      · refine ⟨?_, fun hH => Nat.lt_irrefl _ (h.given hH hq), fun x hx hi => ?_, fun _ => ?_⟩
        · exact Nat.lt_of_lt_of_eq (Nat.lt_succ_self _)
            (next_addSubscriber_self (s := { s with runners := _ }) _ hq).symm
        · rcases (mem_enlist settings).mp hx with hx | ⟨_, _, rfl⟩
          · exact absurd ((h.ranked q).below x hx) (by rw [hi]; exact Nat.lt_irrefl _)
          · rfl
        · exact (mem_enlist settings).mpr (Or.inr ⟨rfl, hq, rfl⟩)
    dying := fun hk => by
      rw [runner_enlist_of_lt settings (h.count (Or.inl hk))]
      exact h.dying hk
    standing := fun k => by
      rcases runner_enlist_cases (s := s) (p := p) settings k with ⟨e, _⟩ | ⟨_, e⟩ <;> rw [e]
      · exact h.standing k
      · exact ⟨fun _ => ⟨rfl, (fun e => by cases e)⟩, fun _ => rfl⟩
    client := fun hx hk => by
      rcases (mem_enlist settings).mp hx with hx | ⟨_, _, rfl⟩
      · exact h.client hx hk
      · cases hk
    given := fun hH hq =>
      Nat.lt_of_lt_of_le (h.given hH (hlen ▸ hq)) (next_le_addSubscriber (s := { s with runners := _ }) _)
    kept := fun hH hC hq => by
      obtain ⟨k, hk⟩ := h.kept hH hC (hlen ▸ hq)
      exact ⟨k, (mem_enlist settings).mpr (Or.inl hk)⟩ }

/-- **A client subscribes**, and is given the next number. -/
theorem Books.subscribe (h : Books C H D s) (react : Nat → Event → List ProofCall) :
    Books C (fun q i => H q i ∨ q = p ∧ i = (s.proof p).nextSubscription) D (s.subscribe p react).2 := by
  have hlen : (s.subscribe p react).2.proofs.length = s.proofs.length := length_modifyProof _
  exact {
    ranked := fun q => ranked_addSubscriber (s := { s with sinks := _ }) (h.ranked q) _
    owner := fun hx hk => by
      rcases (mem_subscribe react).mp hx with hx | ⟨_, _, rfl⟩
      · exact h.owner hx hk
      · cases hk
    count := h.count
    entered := fun hk hq => (h.entered hk (hlen ▸ hq)).join (s := { s with sinks := _ }) _ id
    dying := h.dying
    standing := h.standing
    client := fun hx hk => by
      rcases (mem_subscribe react).mp hx with hx | ⟨rfl, _, rfl⟩
      · exact Or.inl (h.client hx hk)
      · exact Or.inr ⟨rfl, rfl⟩
    given := fun {q i} hH hq => by
      rw [hlen] at hq
      rcases hH with hH | ⟨rfl, rfl⟩
      · exact Nat.lt_of_lt_of_le (h.given hH hq) (next_le_addSubscriber (s := { s with sinks := _ }) _)
      · exact Nat.lt_of_lt_of_eq (Nat.lt_succ_self _)
          (next_addSubscriber_self (s := { s with sinks := _ }) _ hq).symm
    kept := fun {q i} hH hC hq => by
      rcases hH with hH | ⟨rfl, rfl⟩
      · obtain ⟨k, hk⟩ := h.kept hH hC (hlen ▸ hq)
        exact ⟨k, (mem_subscribe react).mpr (Or.inl hk)⟩
      · exact ⟨_, (mem_subscribe react).mpr (Or.inr ⟨rfl, hlen ▸ hq, rfl⟩)⟩ }

/-! ## 4. Courses -/

theorem books_stir (hJ : ∀ p, ¬ L.joins p) (h : Books L.cancels H D s) (hs : Stir L s s') :
    Books L.cancels H D s' := by
  cases hs with
  | edit => exact h.modifyProof _ fun _ => ⟨rfl, rfl⟩
  | hold _ f hf | present _ f hf => exact h.modifyProof _ fun w => by rw [hf w]; exact ⟨rfl, rfl⟩
  | cancel hc => exact h.strike id Or.inl (fun _ _ => hc) fun _ _ => hc
  | join hp => exact absurd hp (hJ _)
  | enlist p settings => exact h.enlist settings
  | host r f hf hd =>
      obtain ⟨hcore, hproof, hsub⟩ := hf (s.runner r)
      refine h.modifyRunner ⟨hproof, hsub⟩ ?_
      rw [hcore, ne_eq, hd]
      exact h.standing r
  | @act r ds core tasks _ hc =>
      have hset : Books L.cancels H D (s.setCore r core) := h.modifyRunner ⟨rfl, rfl⟩ (by
        rw [hc]
        exact h.standing r)
      exact hset.aside rfl rfl
  | remark | tell | desk | clients | tasks => exact h.aside rfl rfl

/-- **The books stay right in a course.** The induction runs inside each end of a runner, where that runner is
    about to part from its number. -/
theorem books_course (hJ : ∀ p, ¬ L.joins p) (hc : Course L b s) (h : Books L.cancels H D b) :
    Books L.cancels H D s := by
  induction hc generalizing D with
  | start => exact h
  | more _ hs ih => exact books_stir hJ (ih h) hs
  | @close b s t _ r _ _ ih iht =>
      have hs := ih h
      unfold parted
      cases hid : (s.runner r).subscription with
      | none =>
          have ht := iht (hs.ended_none hid)
          exact ht.modifyRunner ⟨rfl, rfl⟩ (ht.standing r)
      | some id =>
          have hdies := (hs.dies hid ⟨rfl, rfl⟩ (Or.inl (close_closed _))).congr same_ended
          have hparts := (iht hdies).parts (hs.not_dying hid)
          exact hparts.modifyRunner ⟨rfl, rfl⟩ (hparts.standing r)

/-! ## 5. Deals -/

section Deals

variable (again)

/-- The registry keeps the runner. -/
def isRegistered (s : Session) (r : RunnerId) : Bool := s.registry.entries.any fun e => e.2 == r

/-- What becomes of a session. -/
def deal (s : Session) : Deal → Session
  | .move m => move again s m
  | .drop r => if s.isHeld r && !s.isRegistered r then s.dropRunner r else s
  | .wait r => s.wait r
  | .endWait w =>
    if .wait w ∈ s.tasks then endWait { s with tasks := s.tasks.erase (.wait w) } w else s

def deals (s : Session) (ds : List Deal) : Session := ds.foldl (deal again) s

/-- The number that a client is given for its subscription. -/
def handed? (s : Session) : Deal → Option (ProofId × SubscriptionId)
  | .move (.subscribe p _) => some (p, (s.proof p).nextSubscription)
  | _ => none

/-- **The numbers that clients were given** for their subscriptions, each with the proof they subscribed to. -/
def handed : Session → List Deal → List (ProofId × SubscriptionId)
  | _, [] => []
  | s, d :: rest => (s.handed? d).toList ++ handed (deal again s d) rest

end Deals

theorem handed?_eq_some {d : Deal} {x : ProofId × SubscriptionId} (h : s.handed? d = some x) :
    ∃ p react, d = .move (.subscribe p react) ∧ x = (p, (s.proof p).nextSubscription) := by
  cases d with
  | move m =>
      cases m with
      | subscribe p react => exact ⟨p, react, rfl, (Option.some.inj h).symm⟩
      | select | applyResult | refreshAll | shutdownAll | proof | newRunner | runner | finish | listen | dispose
      | present => cases h
  | drop | wait | endWait => cases h

theorem forget_none (h : (s.runner r).subscription = none) :
    s.forget r = s.modifyRunner r Hosted.givenUp := by
  unfold forget
  simp only [h]
  rfl

theorem forget_some (h : (s.runner r).subscription = some id) :
    s.forget r = (s.modifyRunner r Hosted.givenUp).unsubscribe (s.runner r).proof id := by
  unfold forget
  simp only [h]
  rfl

theorem heeds_striking {m : Move} (hC : ∀ p id, (Deal.move m).Cancels p id → C p id) :
    Heeds (.striking C) m := by
  cases m with
  | listen home calls =>
      intro l call hcall
      cases call with
      | proof p c =>
          cases c with
          | unsubscribe id => exact hC p id ⟨l, hcall⟩
          | applyRule | prune | startAuto | stopAuto | pause | resume => trivial
      | dispatch | resume | stop | shutdown | applyFirst | dispose => trivial
  | subscribe p react =>
      intro i e call hcall
      cases call with
      | unsubscribe id => exact hC p id ⟨rfl, i, e, hcall⟩
      | applyRule | prune | startAuto | stopAuto | pause | resume => trivial
  | select | applyResult | refreshAll | shutdownAll | proof | newRunner | runner | finish | dispose | present =>
      trivial

/-- **A move is a course**, unless a client subscribes by it. -/
theorem course_striking (ha : Obliging (.striking C) again) (hm : Mannered (.striking C) s) {m : Move}
    (hC : ∀ p id, (Deal.move m).Cancels p id → C p id) (hj : s.handed? (.move m) = none) :
    Course (.striking C) s (move again s m) := by
  refine course_move ha hm (heeds_striking hC) ?_
  cases m with
  | applyResult => exact fun _ _ => ⟨trivial, trivial⟩
  | proof p call =>
      cases call with
      | unsubscribe id => exact hC p id ⟨rfl, rfl⟩
      | applyRule | prune => exact ⟨trivial, trivial⟩
      | startAuto | stopAuto | pause | resume => trivial
  | subscribe => cases hj
  | select | refreshAll | shutdownAll | newRunner | runner | finish | listen | dispose | present => trivial

/-- Clients keep their manners, and no number is given twice. -/
structure Onward (L : Leave) (s s' : Session) : Prop where
  mannered : Mannered L s → Mannered L s'
  numbers : Numbers s s'
  length : s'.proofs.length = s.proofs.length

theorem Onward.refl (s : Session) : Onward L s s := ⟨id, .refl s, rfl⟩

theorem Onward.trans {t : Session} (h : Onward L s s') (h' : Onward L s' t) : Onward L s t :=
  ⟨fun hm => h'.mannered (h.mannered hm), h.numbers.trans h'.numbers, h'.length.trans h.length⟩

theorem Course.onward (h : Course L s s') : Onward L s s' := ⟨h.mannered, h.numbers, h.length_proofs⟩

theorem onward_unsubscribe : Onward L s (s.unsubscribe p id) :=
  ⟨fun hm => mannered_modifyProof hm _ fun _ _ hx => (List.mem_filter.mp hx).1,
    (Numbers.refl s).modifyProof p fun _ => ⟨List.filter_sublist, rfl⟩, length_modifyProof _⟩

theorem onward_modifyRunner (f : Hosted → Hosted) : Onward L s (s.modifyRunner r f) :=
  ⟨fun hm => ⟨hm.sink, hm.listener⟩, (Numbers.refl s).same (length_modifyRunner _) fun _ => rfl, rfl⟩

theorem onward_forget : Onward L s (s.forget r) := by
  cases hid : (s.runner r).subscription with
  | none =>
      rw [forget_none hid]
      exact onward_modifyRunner _
  | some id =>
      rw [forget_some hid]
      exact (onward_modifyRunner _).trans onward_unsubscribe

/-- **A runner is given up**: it parts from its number at once. -/
theorem Books.forget (h : Books C H D s) : Books C H D (s.forget r) := by
  cases hid : (s.runner r).subscription with
  | none =>
      rw [forget_none hid]
      exact h.modifyRunner ⟨rfl, hid.symm⟩ (by simp [hid, Hosted.givenUp])
  | some id =>
      rw [forget_some hid]
      exact (h.dies (f := Hosted.givenUp) hid ⟨rfl, rfl⟩ (Or.inr rfl)).parts (h.not_dying hid)

/-- The owner of a runner gives it up; those who wait for it may keep it. -/
theorem drop_cases (again : Again) (s : Session) (r : RunnerId) : deal again s (.drop r) = s ∨
    s.isHeld r = true ∧ deal again s (.drop r) = s.setStanding r .lingering ∨
      deal again s (.drop r) = s.forget r := by
  simp only [deal, dropRunner]
  split
  · rename_i h
    split
    · exact Or.inr (Or.inl ⟨(Bool.and_eq_true_iff.mp h).1, rfl⟩)
    · exact Or.inr (Or.inr rfl)
  · exact Or.inl rfl

/-- A wait is over; a runner that was kept by it alone is given up. -/
theorem endWait_cases (again : Again) (s : Session) (w : Wait) : ∃ tasks waits,
    deal again s (.endWait w) = { s with tasks, waits } ∨
      deal again s (.endWait w) = forget { s with tasks, waits } w.runner := by
  simp only [deal, endWait]
  split
  · refine ⟨s.tasks.erase (.wait w), s.waits.set w.number true, ?_⟩
    split
    · exact Or.inr rfl
    · exact Or.inl rfl
  · exact ⟨s.tasks, s.waits, Or.inl rfl⟩

/-- A client subscribes. -/
theorem onward_subscribe {react : Nat → Event → List ProofCall}
    (hc : ∀ i e, ∀ call ∈ react i e, L.calls (.proof p call)) : Onward L s (s.subscribe p react).2 := by
  refine ⟨fun hm => mannered_subscribe hm hc, ?_, length_modifyProof _⟩
  refine (Numbers.refl s).addSubscriber (.client s.sinks.length) (Nat.le_refl _) (fun _ e => by cases e)
    fun q => ?_
  exact (proof_modifyProof_cases (s := { s with sinks := s.sinks ++ [{ react, shown := 0 }] }) _).imp id
    fun e => e.2.2

section Deals

variable (ha : Obliging (.striking C) again) {d : Deal}

include ha

theorem onward_deal (hm : Mannered (.striking C) s) (hC : ∀ p id, d.Cancels p id → C p id) :
    Onward (.striking C) s (deal again s d) := by
  have haside : ∀ tasks waits, Onward (.striking C) s { s with tasks, waits } := fun _ _ =>
    ⟨fun hm => ⟨hm.sink, hm.listener⟩, (Numbers.refl s).same rfl fun _ => rfl, rfl⟩
  cases d with
  | move m =>
      cases hj : s.handed? (.move m) with
      | none => exact (course_striking ha hm hC hj).onward
      | some x =>
          obtain ⟨p, react, e, _⟩ := handed?_eq_some hj
          cases e
          exact onward_subscribe (heeds_striking hC)
  | drop r =>
      rcases drop_cases again s r with e | ⟨_, e⟩ | e <;> rw [e]
      · exact .refl s
      · exact onward_modifyRunner _
      · exact onward_forget
  | wait r => exact haside _ _
  | endWait w =>
      obtain ⟨tasks, waits, e | e⟩ := endWait_cases again s w <;> rw [e]
      · exact haside tasks waits
      · exact (haside tasks waits).trans onward_forget

/-- **The books are right after a deal**, and a client that subscribes has its number in them. -/
theorem books_deal (hm : Mannered (.striking C) s) (hC : ∀ p id, d.Cancels p id → C p id)
    (h : Books C H (fun _ _ _ => False) s) :
    Books C (fun p id => H p id ∨ (p, id) ∈ (s.handed? d).toList) (fun _ _ _ => False) (deal again s d) := by
  cases hj : s.handed? d with
  | none =>
      refine Books.known (H := H) ?_ fun p id => (or_iff_left List.not_mem_nil).symm
      have haside : ∀ tasks waits, Books C H (fun _ _ _ => False) { s with tasks, waits } :=
        fun _ _ => h.aside rfl rfl
      cases d with
      | move m => exact books_course (L := .striking C) (fun _ hp => hp) (course_striking ha hm hC hj) h
      | drop r =>
          rcases drop_cases again s r with e | ⟨hheld, e⟩ | e <;> rw [e]
          · exact h
          · have hstanding : (s.runner r).standing = .held := beq_iff_eq.mp hheld
            refine h.modifyRunner ⟨rfl, rfl⟩ ((h.standing r).trans ?_)
            simp [hstanding]
          · exact h.forget
      | wait r => exact haside _ _
      | endWait w =>
          obtain ⟨tasks, waits, e | e⟩ := endWait_cases again s w <;> rw [e]
          · exact haside tasks waits
          · exact (haside tasks waits).forget
  | some x =>
      obtain ⟨p, react, rfl, rfl⟩ := handed?_eq_some hj
      refine Books.known (h.subscribe react) fun q id => or_congr_right ?_
      simp [Prod.ext_iff]

variable {ds : List Deal} (hC : ∀ d ∈ ds, ∀ p id, d.Cancels p id → C p id)

include hC

/-- **The books are right after any deals**, and all clients have their numbers in them. -/
theorem books_deals (hm : Mannered (.striking C) s) (h : Books C H (fun _ _ _ => False) s) :
    Books C (fun p id => H p id ∨ (p, id) ∈ handed again s ds) (fun _ _ _ => False) (deals again s ds) := by
  induction ds generalizing s H with
  | nil => exact h.known fun p id => (or_iff_left List.not_mem_nil).symm
  | cons d rest ih =>
      obtain ⟨hd, hrest⟩ := List.forall_mem_cons.mp hC
      refine (ih hrest ((onward_deal ha hm hd).mannered hm) (books_deal ha hm hd h)).known fun p id => ?_
      rw [handed, List.mem_append, or_assoc]

theorem onward_deals (hm : Mannered (.striking C) s) : Onward (.striking C) s (deals again s ds) := by
  induction ds generalizing s with
  | nil => exact .refl s
  | cons d rest ih =>
      obtain ⟨hd, hrest⟩ := List.forall_mem_cons.mp hC
      have hon := onward_deal ha hm hd
      exact hon.trans (ih hrest (hon.mannered hm))

omit hC in
/-- **What a client takes off stays off**: its number is not given to anyone again. -/
theorem taken_off {before rest : List Deal}
    (hC : ∀ d ∈ before ++ .move (.proof p (.unsubscribe id)) :: rest, ∀ p id, d.Cancels p id → C p id)
    (hm : Mannered (.striking C) s) (h : Books C H (fun _ _ _ => False) s) (hp : p < s.proofs.length)
    (hid : (p, id) ∈ handed again s before) :
    ∀ x ∈ ((deals again s (before ++ .move (.proof p (.unsubscribe id)) :: rest)).proof p).subscribers,
      x.id ≠ id := by
  obtain ⟨hbefore, hlater⟩ := List.forall_mem_append.mp hC
  have hon := onward_deals ha hbefore hm
  have hlt : id < ((deals again s before).proof p).nextSubscription :=
    (books_deals ha hbefore hm h).given (Or.inr hid) (by rw [hon.length]; exact hp)
  have hoff : Onward (.striking C) (deals again s before) ((deals again s before).unsubscribe p id) :=
    onward_unsubscribe
  have hrest := onward_deals ha (List.forall_mem_cons.mp hlater).2 (hoff.mannered (hon.mannered hm))
  intro x hx hxid
  unfold deals at hx
  rw [List.foldl_append, List.foldl_cons] at hx
  rcases hrest.numbers.known p x hx with hold | ⟨hnew, _⟩
  · exact (mem_unsubscribe.mp hold).2 rfl hxid
  · rw [next_unsubscribe, hxid] at hnew
    exact absurd hlt (Nat.not_lt.mpr hnew)

end Deals

/-! ## 6. Who is subscribed -/

/-- The runners that are subscribed to a proof. -/
def watchers (s : Session) (p : ProofId) : List RunnerId :=
  (s.proof p).subscribers.filterMap fun x => x.sink.runner?

/-- The numbers of all others that are subscribed to a proof. -/
def guests (s : Session) (p : ProofId) : List SubscriptionId :=
  (s.proof p).subscribers.filterMap Subscriber.guest?

/-- Someone keeps the runner, and it has not ended. -/
def isLive (s : Session) (r : RunnerId) : Bool :=
  !(s.runner r).core.closed && (s.runner r).standing != .dropped

theorem isLive_iff : s.isLive r = true ↔
    (s.runner r).core.closed = false ∧ (s.runner r).standing ≠ .dropped := by
  unfold isLive
  rw [Bool.and_eq_true, Bool.not_eq_true', bne_iff_ne]

theorem lt_of_isLive (h : s.isLive r = true) : r < s.runners.length := by
  refine Nat.lt_of_not_le fun hle => ?_
  rw [isLive_iff, runner_of_le hle] at h
  exact h.2 rfl

/-- Only live runners are subscribed, to the proof they watch. -/
theorem Books.live_of_mem (h : Books C H (fun _ _ _ => False) s) (hr : r ∈ s.watchers p) :
    s.isLive r = true ∧ (s.runner r).proof = p := by
  obtain ⟨x, hx, hxr⟩ := List.mem_filterMap.mp hr
  obtain ⟨hproof, hsome⟩ := (h.owner hx (Sink.runner?_eq_some.mp hxr)).resolve_left id
  rw [isLive_iff, ← h.standing, hsome]
  exact ⟨rfl, hproof⟩

/-- **All live runners are subscribed to the proof they watch**, if clients take off their own numbers only. -/
theorem Books.mem_watchers (h : Books C H (fun _ _ _ => False) s) (hp : p < s.proofs.length)
    (hown : ∀ id, C p id → H p id) : r ∈ s.watchers p ↔ s.isLive r = true ∧ (s.runner r).proof = p := by
  refine ⟨h.live_of_mem, fun hr => ?_⟩
  obtain ⟨hlive, hproof⟩ := hr
  rw [isLive_iff, ← h.standing] at hlive
  obtain ⟨i, hi⟩ := Option.isSome_iff_exists.mp hlive
  have he := h.entered (Or.inr ⟨hproof, hi⟩) hp
  exact List.mem_filterMap.mpr ⟨_, he.there fun hC => he.fresh (hown i hC), rfl⟩

/-- No runner is subscribed twice. -/
theorem Books.nodup_watchers (h : Books C H (fun _ _ _ => False) s) : (s.watchers p).Nodup := by
  unfold watchers
  rw [List.Nodup, List.pairwise_filterMap]
  refine (List.pairwise_map.mp (h.ranked p).order).imp_of_mem fun hx hy hlt a ha c hc e => ?_
  have hx := ((h.owner hx (Sink.runner?_eq_some.mp ha)).resolve_left id).2
  have hy := ((h.owner hy (Sink.runner?_eq_some.mp hc)).resolve_left id).2
  rw [e, hy] at hx
  exact Nat.ne_of_lt hlt (Option.some.inj hx).symm

theorem nodup_guests (h : (s.proof p).Ranked) : (s.guests p).Nodup := by
  unfold guests
  rw [List.Nodup, List.pairwise_filterMap]
  refine (List.pairwise_map.mp h.order).imp fun hlt a ha c hc => ?_
  rw [← (Subscriber.guest?_eq_some.mp ha).2, ← (Subscriber.guest?_eq_some.mp hc).2]
  exact Nat.ne_of_lt hlt

/-- **As many are subscribed as there are live runners of the proof, and guests.** -/
theorem Books.length_subscribers (h : Books C H (fun _ _ _ => False) s) (hp : p < s.proofs.length)
    (hown : ∀ id, C p id → H p id) : (s.proof p).subscribers.length =
      ((List.range s.runners.length).filter fun r => s.isLive r && (s.runner r).proof == p).length +
        (s.guests p).length := by
  have hperm : (s.watchers p).Perm
      ((List.range s.runners.length).filter fun r => s.isLive r && (s.runner r).proof == p) := by
    refine (List.perm_ext_iff_of_nodup h.nodup_watchers (List.nodup_range.filter _)).mpr fun r => ?_
    rw [h.mem_watchers hp hown, List.mem_filter, List.mem_range, Bool.and_eq_true, beq_iff_eq]
    exact ⟨fun hr => ⟨lt_of_isLive hr.1, hr⟩, And.right⟩
  rw [← hperm.length_eq]
  exact Subscriber.length_eq _

theorem books_start (proofs : List (String × Tree)) (settings : Settings) :
    Books C (fun _ _ => False) (fun _ _ _ => False) (start proofs settings) := by
  have hnone : ∀ {p x}, x ∉ ((start proofs settings).proof p).subscribers := by
    intro p x hx
    rw [(proof_start proofs settings p).1] at hx
    exact absurd hx List.not_mem_nil
  have hfree : ∀ r, ((start proofs settings).runner r).subscription = none := fun r => by
    rw [runner_of_le (Nat.zero_le r)]
    rfl
  have hholds : ∀ {r p id}, ¬ Holds (fun _ _ _ => False) (start proofs settings) r p id := by
    rintro r p id (hd | ⟨_, hsome⟩)
    · exact hd
    · cases (hfree r).symm.trans hsome
  exact {
    ranked := ranked_start proofs settings
    owner := fun hx => absurd hx hnone
    count := fun hk => absurd hk hholds
    entered := fun hk => absurd hk hholds
    dying := fun hd => hd.elim
    standing := fun r => by
      rw [runner_of_le (Nat.zero_le r)]
      exact ⟨(fun e => by cases e), fun h => absurd rfl h.2⟩
    client := fun hx => absurd hx hnone
    given := fun hH => hH.elim
    kept := fun hH => hH.elim }

/-- **Subscriptions are accounted for.** After any deals, no runner is subscribed to a proof twice, and only a
    runner that someone keeps, that has not ended and that watches the proof. If clients take off nothing but
    numbers they were given, each such runner is subscribed exactly once, and the proof has as many subscribers
    as it has such runners and guests. Guests have numbers that clients were given: all of them for which nobody
    asks to take them off, and none that has been taken off. -/
theorem subscriptions_accounted (depth : Nat) (proofs : List (String × Tree)) (settings : Settings)
    (ds : List Deal) :
    let numbers := handed (perform depth) (start proofs settings) ds
    let s := deals (perform depth) (start proofs settings) ds
    ∀ p < proofs.length,
      ((s.watchers p).Nodup ∧ ∀ r ∈ s.watchers p, s.isLive r = true ∧ (s.runner r).proof = p) ∧
      ((∀ id, Deal.cancelled ds p id → (p, id) ∈ numbers) →
        (∀ r, (s.watchers p).count r = if s.isLive r = true ∧ (s.runner r).proof = p then 1 else 0) ∧
        (s.proof p).subscribers.length =
          ((List.range s.runners.length).filter fun r => s.isLive r && (s.runner r).proof == p).length +
            (s.guests p).length) ∧
      ((s.guests p).Nodup ∧ ∀ id ∈ s.guests p, (p, id) ∈ numbers) ∧
      (∀ id, (p, id) ∈ numbers → ¬ Deal.cancelled ds p id → id ∈ s.guests p) ∧
      ∀ before rest id, ds = before ++ .move (.proof p (.unsubscribe id)) :: rest →
        (p, id) ∈ handed (perform depth) (start proofs settings) before → id ∉ s.guests p := by
  intro numbers s p hp
  have ha : Obliging (.striking (Deal.cancelled ds)) (perform depth) :=
    obliging_perform (Leave.coherent_striking _) depth
  have hC : ∀ d ∈ ds, ∀ p id, d.Cancels p id → Deal.cancelled ds p id := fun d hd _ _ hc => ⟨d, hd, hc⟩
  have hm : Mannered (.striking (Deal.cancelled ds)) (start proofs settings) := mannered_start proofs settings
  have hb : Books (Deal.cancelled ds) (fun p id => (p, id) ∈ numbers) (fun _ _ _ => False) s :=
    (books_deals ha hC hm (books_start proofs settings)).known fun _ _ => Iff.of_eq (false_or _)
  have hp' : p < (start proofs settings).proofs.length := by simpa [start] using hp
  have hlt : p < s.proofs.length := by
    rw [(onward_deals ha hC hm).length]
    exact hp'
  refine ⟨⟨hb.nodup_watchers, fun r => hb.live_of_mem⟩, fun hown => ?_,
    ⟨nodup_guests (hb.ranked p), fun id hid => ?_⟩, fun id hid hc => ?_, fun before rest id hds hid hin => ?_⟩
  · refine ⟨fun r => ?_, hb.length_subscribers hlt hown⟩
    rw [hb.nodup_watchers.count]
    simp only [hb.mem_watchers hlt hown]
  · obtain ⟨x, hx, hg⟩ := List.mem_filterMap.mp hid
    obtain ⟨⟨k, hk⟩, rfl⟩ := Subscriber.guest?_eq_some.mp hg
    exact hb.client hx hk
  · obtain ⟨k, hk⟩ := hb.kept hid hc hlt
    exact List.mem_filterMap.mpr ⟨_, hk, rfl⟩
  · obtain ⟨x, hx, hg⟩ := List.mem_filterMap.mp hin
    have hsub : x ∈ ((deals (perform depth) (start proofs settings) ds).proof p).subscribers := hx
    rw [hds] at hsub
    exact taken_off ha (fun d hd => hC d (hds ▸ hd)) hm (books_start proofs settings) hp' hid x hsub
      (Subscriber.guest?_eq_some.mp hg).2

/-- A runner is given up while someone waits for it, and goes when the wait is over; one guest is taken off by
    its owner, and one takes itself off at the first event; the registered runner ends when the proof is closed,
    and the proof is selected anew. One guest and the new runner are left. -/
theorem subscriptions_accounted_anew :
    let proofs : List (String × Tree) := [("p", .ofGoals [{ succedent := ["a"] }, { succedent := ["b"] }])]
    let chosen : Settings := { solvers := .ofList [.z3] }
    let ds : List Deal := [.move (.select 0), .move (.newRunner 0 chosen),
      .move (.subscribe 0 fun _ _ => [.unsubscribe 2]), .move (.subscribe 0 fun _ _ => []),
      .move (.subscribe 0 fun _ _ => []), .wait 1, .drop 1, .move (.proof 0 (.unsubscribe 4)),
      .move (.proof 0 (.applyRule 1 "close" [])), .endWait ⟨1, 0, false⟩,
      .move (.proof 0 (.applyRule 2 "close" [])), .move (.proof 0 (.prune 0)), .move (.select 0)]
    let s := deals (perform 3) (start proofs chosen) ds
    (∀ id, Deal.cancelled ds 0 id → (0, id) ∈ handed (perform 3) (start proofs chosen) ds) ∧
    handed (perform 3) (start proofs chosen) ds = [(0, 2), (0, 3), (0, 4)] ∧
    (s.runner 0).core.closed = true ∧ (s.runner 1).standing = .dropped ∧
    (s.proof 0).subscribers = [⟨3, .client 1⟩, ⟨5, .runner 2⟩] ∧
    (s.watchers 0).count 1 = (if s.isLive 1 = true ∧ (s.runner 1).proof = 0 then 1 else 0) ∧
    (s.proof 0).subscribers.length =
      ((List.range s.runners.length).filter fun r => s.isLive r && (s.runner r).proof == 0).length +
        (s.guests 0).length ∧
    4 ∉ s.guests 0 := by
  intro proofs chosen ds s
  have hhanded : handed (perform 3) (start proofs chosen) ds = [(0, 2), (0, 3), (0, 4)] := by decide +kernel
  have hown : ∀ id, Deal.cancelled ds 0 id → (0, id) ∈ handed (perform 3) (start proofs chosen) ds := by
    rintro id ⟨d, hd, hc⟩
    rw [hhanded]
    simp only [ds, List.mem_cons, List.not_mem_nil, or_false] at hd
    rcases hd with rfl | rfl | rfl | rfl | rfl | rfl | rfl | rfl | rfl | rfl | rfl | rfl | rfl <;>
      simp_all [Deal.Cancels]
  have h := subscriptions_accounted 3 proofs chosen ds 0 (by decide)
  have hcount := h.2.1 hown
  refine ⟨hown, hhanded, by decide +kernel, by decide +kernel, by decide +kernel, hcount.1 1, hcount.2, ?_⟩
  exact h.2.2.2.2 (ds.take 7) (ds.drop 8) 4 rfl (by decide +kernel)

end Session

end GoalWatch
