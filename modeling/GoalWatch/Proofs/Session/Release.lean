import GoalWatch.Proofs.Runner.Consistent
import GoalWatch.Proofs.Session.Terminal

/-!
# Dropping a runner and closing it

There are two ways to be rid of a runner: to close it, or to drop the last handle of it. Both take its own
subscription off its proof and nobody else's, and leave nothing in flight, so that no launch of it goes on. They differ
in what the launcher gets to know: it is told to give up each batch in flight when the runner is closed, and of nothing
when it is dropped.

* `Session.AllConsistent`, `consistent_deals` -- runners are consistent in all sessions;
* `Books.subscribers_unsubscribe` -- the number that only one runner has is taken off;
* `subscribers_forget`, `subscribers_close` -- who is left at the proof;
* `deeds_close` -- what the launcher is told of;
* **`dropping_and_closing`** -- what the two have in common, and what not;
* `launcher_not_told` -- a batch of which the launcher is told nothing.
-/

namespace GoalWatch.Session

variable {C H : ProofId → SubscriptionId → Prop} {D : RunnerId → ProofId → SubscriptionId → Prop}
  {s : Session} {p q : ProofId} {r : RunnerId} {id : SubscriptionId} {again : Again}

/-! ## 1. Batches in flight -/

/-- All runners are consistent. -/
def AllConsistent (s : Session) : Prop := ∀ k < s.runners.length, (s.runner k).core.Consistent

/-- **Runners are consistent**, whatever clients ask for. -/
theorem lasting_consistent : Lasting (fun _ => True) fun _ => AllConsistent where
  aside {N s s'} h hu k hk := by
    rcases Nat.lt_or_ge k s.runners.length with hlt | hge
    · obtain ⟨_, ha, _⟩ := hu.ran k hlt
      exact Runner.consistent_acts (h k hlt) ha
    · obtain ⟨settings, _, ha⟩ := hu.born k hge hk
      exact Runner.consistent_acts (Runner.consistent_start settings) ha
  loosen h _ := h
  pause _ h := h
  raise _ h := h
  lower h _ := h
  clear _ h := h
  listener _ _ _ _ _ := trivial
  sink _ _ _ _ _ _ _ _ := trivial
  observer _ _ _ h := h
  told _ _ _ _ _ _ _ _ h := h
  fresh _ _ h _ := h
  flush _ _ _ _ _ _ _ _ _ h := h

theorem consistent_forget (h : AllConsistent s) (r : RunnerId) : AllConsistent (s.forget r) := by
  obtain ⟨proofs, e⟩ := forget_eq s r
  rw [e]
  intro k hk
  have hlt : k < s.runners.length := Nat.lt_of_lt_of_eq hk (length_modifyRunner _)
  show ((s.modifyRunner r Hosted.givenUp).runner k).core.Consistent
  rcases runner_modifyRunner_cases (s := s) (r := r) (k := k) Hosted.givenUp with e | ⟨_, _, e⟩ <;> rw [e]
  · exact h k hlt
  · exact Runner.consistent_act (h k hlt) .stopAll

theorem consistent_listen (h : AllConsistent s) (home : Home) (calls : ListenerId → List Call) :
    AllConsistent (s.addListener home calls) := by
  have hlength : (s.addListener home calls).runners.length = s.runners.length := by
    cases home with
    | registry => rfl
    | runner r => exact length_modifyRunner _
  intro k hk
  rw [core_addListener]
  exact h k (hlength ▸ hk)

theorem consistent_deal (depth : Nat) (d : Deal) (h : AllConsistent s) :
    AllConsistent (deal (perform depth) s d) :=
  lasting_deal (N := fun _ => 0) lasting_consistent depth (fun _ ht => ht) (fun _ r ht => consistent_forget ht r)
    (fun home calls _ => consistent_listen h home calls) (fun _ _ _ => h) (fun _ _ => h) h

theorem consistent_deals (depth : Nat) (ds : List Deal) (h : AllConsistent s) :
    AllConsistent (deals (perform depth) s ds) := by
  induction ds generalizing s with
  | nil => exact h
  | cons d rest ih => exact ih (consistent_deal depth d h)

/-- A runner that is dropped has nothing in flight. -/
theorem inFlight_forget (hlt : r < s.runners.length) : ((s.forget r).runner r).core.inFlight = [] := by
  obtain ⟨proofs, e⟩ := forget_eq s r
  rw [e]
  show ((s.modifyRunner r Hosted.givenUp).runner r).core.inFlight = []
  rw [runner_modifyRunner_self _ hlt]
  rfl

/-! ## 2. Subscriptions -/

/-- **The number that only one runner has is taken off**, and nobody else's. -/
theorem Books.subscribers_unsubscribe (h : Books C H D s) (hown : ∀ q i, Holds D s r q i ↔ q = p ∧ i = id)
    (q : ProofId) : ((s.unsubscribe p id).proof q).subscribers =
      (s.proof q).subscribers.filter fun x => x.sink != .runner r := by
  have hsink : ∀ x ∈ (s.proof q).subscribers, x.sink = .runner r → q = p ∧ x.id = id :=
    fun x hx hr => (hown q x.id).mp (h.owner hx hr)
  by_cases hq : q = p
  · subst hq
    rcases Nat.lt_or_ge q s.proofs.length with hlt | hge
    · have hsole := (h.entered ((hown q id).mpr ⟨rfl, rfl⟩) hlt).sole
      rw [unsubscribe, proof_modifyProof_self _ hlt]
      refine List.filter_congr fun x hx => Bool.eq_iff_iff.mpr ?_
      rw [bne_iff_ne, bne_iff_ne]
      exact not_congr ⟨hsole x hx, fun hr => (hsink x hx hr).2⟩
    · rw [proof_of_le hge, proof_of_le (by rw [unsubscribe, length_modifyProof]; exact hge)]
      rfl
  · rw [unsubscribe, proof_modifyProof_of_ne _ hq]
    refine (List.filter_eq_self.mpr fun x hx => bne_iff_ne.mpr fun hr => ?_).symm
    exact hq (hsink x hx hr).1

/-- A runner that has given away its number has no other one. -/
theorem holds_iff_of_none (hnone : (s.runner r).subscription = none) (hD : ∀ {q i}, ¬ D r q i) (q : ProofId)
    (i : SubscriptionId) : Holds (fun k q i => D k q i ∨ k = r ∧ q = p ∧ i = id) s r q i ↔ q = p ∧ i = id := by
  refine ⟨fun h => ?_, fun h => Or.inl (Or.inr ⟨rfl, h⟩)⟩
  rcases h with (hd | ⟨_, hd⟩) | ⟨_, hsome⟩
  · exact absurd hd hD
  · exact hd
  · cases hnone.symm.trans hsome

section Live

variable (hb : Books C H (fun _ _ _ => False) s) (hr : s.isLive r = true)

include hb hr

theorem subscription_of_isLive : ∃ id, (s.runner r).subscription = some id :=
  Option.isSome_iff_exists.mp ((hb.standing r).mpr (isLive_iff.mp hr))

/-- **A runner is dropped**: its own subscription is gone. -/
theorem subscribers_forget (q : ProofId) :
    ((s.forget r).proof q).subscribers = (s.proof q).subscribers.filter fun x => x.sink != .runner r := by
  obtain ⟨id, hid⟩ := subscription_of_isLive hb hr
  have hdies := hb.dies (f := Hosted.givenUp) hid ⟨rfl, rfl⟩ (Or.inr rfl)
  have hnone : ((s.modifyRunner r Hosted.givenUp).runner r).subscription = none := by
    rw [runner_modifyRunner_self _ (lt_of_isLive hr)]
    rfl
  rw [forget_some hid]
  exact hdies.subscribers_unsubscribe (holds_iff_of_none hnone (fun h => h)) q

/-- **A runner is closed**: its own subscription is gone, of those that are there when all were told. -/
theorem subscribers_close (ha : Obliging (.striking C) again) (hm : Mannered (.striking C) s) (q : ProofId) :
    ((close again s r).proof q).subscribers =
      ((notifyRunner again (s.ended r) r).proof q).subscribers.filter fun x => x.sink != .runner r := by
  obtain ⟨id, hid⟩ := subscription_of_isLive hb hr
  have hdies := (hb.dies hid ⟨rfl, rfl⟩ (Or.inl (close_closed _))).congr same_ended
  have hcourse : Course (.striking C) (s.ended r) (notifyRunner again (s.ended r) r) :=
    course_notifyRunner ha ⟨hm.sink, hm.listener⟩
  have htold := books_course (L := .striking C) (fun _ hp => hp) hcourse hdies
  have hnone := htold.dying (Or.inr ⟨rfl, rfl, rfl⟩)
  rw [close_eq _ (isLive_iff.mp hr).1, parted, hid]
  exact htold.subscribers_unsubscribe (holds_iff_of_none hnone (fun h => h)) q

end Live

/-- Listeners that ask for nothing leave proofs as they are. -/
theorem proofs_notifyRunner (again : Again) (hl : ∀ x ∈ s.listeners, x.calls = []) (r : RunnerId) :
    (notifyRunner again s r).proofs = s.proofs := by
  have hcall : ∀ t l, t.proofs = s.proofs ∧ t.listeners = s.listeners →
      (callListener again t l).proofs = s.proofs ∧ (callListener again t l).listeners = s.listeners := by
    intro t l ht
    unfold callListener
    split
    · exact ht
    · rename_i x hx
      rw [hl x (ht.2 ▸ List.mem_of_getElem? hx)]
      exact ht
  refine (lasting_foldl (P := fun t => t.proofs = s.proofs ∧ t.listeners = s.listeners) (fun x _ t ht => ?_)
    ⟨rfl, rfl⟩).1
  cases x with
  | client l => exact hcall t l ht
  | registry p =>
      refine lasting_foldl (P := fun t => t.proofs = s.proofs ∧ t.listeners = s.listeners)
        (fun l _ t ht => hcall t l ht) ?_
      unfold retire
      split
      · exact ht
      · split <;> exact ht

/-! ## 3. What the launcher is told of -/

/-- **The launcher is told to give up what is in flight** when a runner is closed. -/
theorem deeds_close {depth : Nat} (hs : Attached s) (hr : r < s.runners.length)
    (hopen : (s.runner r).core.closed = false) : (close (perform depth) s r).deeds r =
      ((s.runner r).core.inFlight.map .stopped).reverse ++ s.deeds r := by
  have hgiven : (s.runner r).core.close.1 = (s.runner r).core.inFlight := by
    rw [Runner.close, if_neg (by rw [hopen]; decide)]
  rw [(finished_close hs hr hopen).deeds, show (s.ended r).deeds r = (s.giveUp r (s.runner r).core.close).deeds r
    from rfl, deeds_giveUp, if_pos rfl, hgiven]

theorem stops_close {depth : Nat} (hs : Attached s) (hc : (s.runner r).core.Consistent) (hr : r < s.runners.length)
    (hopen : (s.runner r).core.closed = false) (b : BatchId) : stops ((close (perform depth) s r).deeds r) b =
      stops (s.deeds r) b + if b ∈ (s.runner r).core.inFlight then 1 else 0 := by
  rw [deeds_close hs hr hopen, stops_append, stops_stopped, Nat.add_comm, hc.flightOnce.count]

/-- The last who keeps a runner drops it. -/
theorem drop_eq_forget (again : Again) (hheld : s.isHeld r = true) (hreg : s.isRegistered r = false)
    (hwait : s.isAwaited r = false) : deal again s (.drop r) = s.forget r := by
  simp only [deal, dropRunner, hheld, hreg, hwait, Bool.not_false, Bool.and_true, if_true, Bool.false_eq_true, if_false]

/-- **Dropping a runner and closing it.** After any deals, take a runner that is kept and not closed. If its owner is
    the last who keeps it and drops it, the session forgets it. Forgetting it and closing it both take its own
    subscription off and nobody else's; when it is closed, this is what its listeners left of the subscriptions, and
    the same in both cases if they ask for nothing. No launch of it goes on in either case. When it is closed, the
    launcher is told once to give up each batch in flight; when it is forgotten, nothing is written down. So the two
    agree for the launcher if and only if no batch is in flight. -/
theorem dropping_and_closing (depth : Nat) (proofs : List (String × Tree)) (settings : Settings) (ds : List Deal)
    (r : RunnerId) :
    let s := deals (perform depth) (start proofs settings) ds
    s.isLive r = true →
      (s.isHeld r = true → s.isRegistered r = false → s.isAwaited r = false →
        deal (perform depth) s (.drop r) = s.forget r) ∧
      (∀ p, ((s.forget r).proof p).subscribers = (s.proof p).subscribers.filter fun x => x.sink != .runner r) ∧
      (∀ p, ((close (perform depth) s r).proof p).subscribers =
        ((notifyRunner (perform depth) (s.ended r) r).proof p).subscribers.filter fun x => x.sink != .runner r) ∧
      ((∀ x ∈ s.listeners, x.calls = []) →
        ∀ p, ((close (perform depth) s r).proof p).subscribers = ((s.forget r).proof p).subscribers) ∧
      (∀ (x : Rehearsal) o, x.session = s.forget r ∨ x.session = close (perform depth) s r → o.runner = r →
        x.advanceLaunch o = x) ∧
      (s.forget r).log = s.log ∧
      (∀ b, stops ((close (perform depth) s r).deeds r) b =
        stops (s.deeds r) b + if b ∈ (s.runner r).core.inFlight then 1 else 0) ∧
      ((close (perform depth) s r).deeds r = (s.forget r).deeds r ↔ (s.runner r).core.inFlight = []) := by
  intro s hr
  have ha : Obliging (.striking fun _ _ => True) (perform depth) :=
    obliging_perform (Leave.coherent_striking _) depth
  have hC : ∀ d ∈ ds, ∀ p id, d.Cancels p id → True := fun _ _ _ _ _ => trivial
  have hstart : Mannered (.striking fun _ _ => True) (start proofs settings) := mannered_start proofs settings
  have hb := books_deals ha hC hstart (books_start proofs settings)
  have hm := (onward_deals ha hC hstart).mannered hstart
  have hattached := attached_deals depth proofs settings ds
  have hopen := (isLive_iff.mp hr).1
  have hlt := lt_of_isLive hr
  have hconsistent : (s.runner r).core.Consistent :=
    consistent_deals depth ds (fun _ hk => absurd hk (Nat.not_lt_zero _)) r hlt
  have hlog : (s.forget r).log = s.log := (untold_forgotten s r).1
  refine ⟨drop_eq_forget _, subscribers_forget hb hr, subscribers_close hb hr ha hm, fun hl p => ?_,
    fun x o hx ho => ?_, hlog, stops_close hattached hconsistent hlt hopen, ?_⟩
  · have hproof : (notifyRunner (perform depth) (s.ended r) r).proof p = s.proof p :=
      congrArg (fun proofs : List Watched => proofs.getD p default)
        (proofs_notifyRunner (s := s.ended r) (perform depth) hl r)
    rw [subscribers_close hb hr ha hm, subscribers_forget hb hr, hproof]
  · refine advanceLaunch_of_landed ?_
    subst ho
    rcases hx with e | e <;> rw [e]
    · exact inFlight_forget hlt
    · exact (finished_close hattached hlt hopen).ended.inFlight
  · have hdeeds : (s.forget r).deeds r = s.deeds r := congrArg (List.filterMap _) hlog
    rw [hdeeds, deeds_close hattached hlt hopen, List.append_left_eq_self,
      List.reverse_eq_nil_iff, List.map_eq_nil_iff]

/-- **The launcher is told nothing of a batch** when its runner is dropped. -/
theorem launcher_not_told :
    let chosen : Settings := { solvers := .ofList [.z3] }
    let s := deals (perform 1) (start [("p", .ofGoals [{ succedent := ["a"] }])] chosen)
      [.move (.newRunner 0 chosen), .move (.runner 0 .dispatch)]
    (s.runner 0).core.inFlight = [1] ∧ stops ((deal (perform 1) s (.drop 0)).deeds 0) 1 = 0 ∧
    stops ((deal (perform 1) s (.move (.runner 0 .close))).deeds 0) 1 = 1 := by
  decide +kernel

/-- Two batches are in flight, and a client that pauses the proof is subscribed to it. -/
theorem dropping_and_closing_two :
    let chosen : Settings := { solvers := .ofList [.z3] }
    let s := deals (perform 1) (start [("p", .ofGoals [{ succedent := ["a"] }, { succedent := ["b"] }])] chosen)
      [.move (.newRunner 0 chosen), .move (.subscribe 0 fun _ _ => [.pause]), .move (.runner 0 .dispatch),
        .move (.proof 0 (.applyRule 1 "cut" [{ succedent := ["c"] }, { succedent := ["d"] }]))]
    s.isLive 0 = true ∧ (s.runner 0).core.inFlight = [1, 2] ∧
    (s.proof 0).subscribers = [⟨0, .runner 0⟩, ⟨1, .client 0⟩] ∧
    deal (perform 1) s (.drop 0) = s.forget 0 ∧
    ((s.forget 0).proof 0).subscribers = [⟨1, .client 0⟩] ∧
    ((close (perform 1) s 0).proof 0).subscribers = ((s.forget 0).proof 0).subscribers ∧
    stops ((close (perform 1) s 0).deeds 0) 2 = stops (s.deeds 0) 2 + 1 ∧
    (close (perform 1) s 0).deeds 0 ≠ (s.forget 0).deeds 0 := by
  intro chosen s
  have hr : s.isLive 0 = true := by decide +kernel
  have hflight : (s.runner 0).core.inFlight = [1, 2] := by decide +kernel
  have hmem : (2 : BatchId) ∈ (s.runner 0).core.inFlight := by
    rw [hflight]
    decide
  have hl : ∀ x ∈ s.listeners, x.calls = [] := by
    rw [List.eq_nil_of_length_eq_zero (by decide +kernel : s.listeners.length = 0)]
    exact fun _ hx => absurd hx List.not_mem_nil
  have hdrop : s.isHeld 0 = true ∧ s.isRegistered 0 = false ∧ s.isAwaited 0 = false := by decide +kernel
  have hleft : ((s.proof 0).subscribers.filter fun x => x.sink != .runner 0) = [⟨1, .client 0⟩] := by
    decide +kernel
  obtain ⟨heq, hforget, _, hagree, _, _, hstops, hiff⟩ := dropping_and_closing 1 _ _ _ 0 hr
  refine ⟨hr, hflight, by decide +kernel, heq hdrop.1 hdrop.2.1 hdrop.2.2, (hforget 0).trans hleft, hagree hl 0, ?_, ?_⟩
  · rw [hstops, if_pos hmem]
  · rw [ne_eq, hiff, hflight]
    exact List.cons_ne_nil _ _

end GoalWatch.Session
