import GoalWatch.Proofs.Session.Course

/-!
# Events are told in order

A proof that is not asked to change or to pause while it tells of something tells every event once, in the
order in which they came up, to all who are subscribed at that moment.

* `Session.told` -- what is written down about what a proof tells;
* `Telling` -- that, with the events held back and the number of pauses;
* `Telling.Orderly` -- events are told in order, and shown to everybody whom they are told to;
* `Leave.aside` -- clients may ask for anything but for a change or a pause of one proof;
* `Course.telling` -- what they may ask for leaves alone what that proof tells;
* `telling_deliver` -- telling of one event;
* `faithful_move`, `faithful_run` -- events are told in order after any moves;
* **`events_told_in_order`** -- all that is said about it.
-/

namespace GoalWatch

/-! ## 1. What is written down -/

/-- The event that a proof has to tell of. -/
def Entry.event? : Entry → Option Event
  | .emitted _ e => some e
  | _ => none

/-- The event that a proof starts telling of, and the numbers of those whom it tells. -/
def Entry.delivery? : Entry → Option (Event × List SubscriptionId)
  | .delivered _ e _ ids => some (e, ids)
  | _ => none

/-- The number of a subscriber that is shown an event. -/
def Entry.showing? : Entry → Option (SubscriptionId × Event)
  | .shown _ id e => some (id, e)
  | _ => none

/-- The events that came up, in order. -/
def emissions (told : List Entry) : List Event := told.reverse.filterMap Entry.event?

/-- The events that were told, in order, each with the numbers of those whom it was told to. -/
def deliveries (told : List Entry) : List (Event × List SubscriptionId) :=
  told.reverse.filterMap Entry.delivery?

/-- Who was shown what, in order. -/
def showings (told : List Entry) : List (SubscriptionId × Event) := told.reverse.filterMap Entry.showing?

/-- Who has to be shown an event that is told to these. -/
def Event.audience (d : Event × List SubscriptionId) : List (SubscriptionId × Event) :=
  d.2.map fun id => (id, d.1)

@[simp] theorem emissions_cons (x : Entry) (told : List Entry) :
    emissions (x :: told) = emissions told ++ x.event?.toList := by
  unfold emissions
  rw [List.reverse_cons, List.filterMap_append]
  cases hx : x.event? <;> simp [hx]

@[simp] theorem deliveries_cons (x : Entry) (told : List Entry) :
    deliveries (x :: told) = deliveries told ++ x.delivery?.toList := by
  unfold deliveries
  rw [List.reverse_cons, List.filterMap_append]
  cases hx : x.delivery? <;> simp [hx]

@[simp] theorem showings_cons (x : Entry) (told : List Entry) :
    showings (x :: told) = showings told ++ x.showing?.toList := by
  unfold showings
  rw [List.reverse_cons, List.filterMap_append]
  cases hx : x.showing? <;> simp [hx]

/-- What a proof has told, the newest entry first, and what it holds back. -/
structure Telling where
  paused : Nat
  held : List Event
  told : List Entry

namespace Telling

def write (o : Telling) (e : Entry) : Telling := { o with told := e :: o.told }

/-- **Events are told in the order in which they came up**, `rest` and those held back being still to come,
    and everybody was shown what was told, `due` being still to come. So it was at any moment before. -/
structure Orderly (o : Telling) (rest : List Event) (due : List (SubscriptionId × Event)) : Prop where
  events : (deliveries o.told).map Prod.fst ++ (rest ++ o.held) = emissions o.told
  shown : showings o.told ++ due = (deliveries o.told).flatMap Event.audience
  ranked : ∀ d ∈ deliveries o.told, d.2.Pairwise (· < ·)
  always : ∀ older, older <:+ o.told → (deliveries older).map Prod.fst <+: emissions older ∧
    showings older <+: (deliveries older).flatMap Event.audience

variable {o o' : Telling} {p : ProofId} {e : Event} {rest rest' : List Event}
  {due due' : List (SubscriptionId × Event)}

/-- One more entry is written. What holds now held at that moment too. -/
theorem Orderly.more {x : Entry} (h : o.Orderly rest due) (ht : o'.told = x :: o.told)
    (hev : (deliveries (x :: o.told)).map Prod.fst ++ (rest' ++ o'.held) = emissions (x :: o.told))
    (hsh : showings (x :: o.told) ++ due' = (deliveries (x :: o.told)).flatMap Event.audience)
    (hr : ∀ d ∈ x.delivery?, d.2.Pairwise (· < ·)) : o'.Orderly rest' due' where
  events := ht ▸ hev
  shown := ht ▸ hsh
  ranked d hd := by
    rw [ht, deliveries_cons] at hd
    rcases List.mem_append.mp hd with hd | hd
    · exact h.ranked d hd
    · exact hr d (Option.mem_toList.mp hd)
  always older ho := by
    rcases List.suffix_cons_iff.mp (ht ▸ ho) with rfl | ho
    · rw [← hev, ← hsh]
      exact ⟨List.prefix_append .., List.prefix_append ..⟩
    · exact h.always older ho

/-- An event comes up and is still to come. -/
theorem Orderly.emitted (h : o.Orderly rest due) (ht : o'.told = .emitted p e :: o.told)
    (hr : rest' ++ o'.held = rest ++ o.held ++ [e]) : o'.Orderly rest' due := by
  refine h.more ht ?_ ?_ (fun _ hd => by cases hd)
  · rw [emissions_cons, deliveries_cons, hr, ← h.events]
    simp [Entry.event?, Entry.delivery?]
  · rw [showings_cons, deliveries_cons]
    simpa [Entry.showing?, Entry.delivery?] using h.shown

/-- The next event starts to be told to those with the given numbers. -/
theorem Orderly.delivered (h : o.Orderly (e :: rest) []) {ids : List SubscriptionId}
    (hids : ids.Pairwise (· < ·)) (n : Nat) :
    (o.write (.delivered p e n ids)).Orderly rest (Event.audience (e, ids)) := by
  refine h.more rfl ?_ ?_ (fun d hd => ?_)
  · rw [emissions_cons, deliveries_cons, ← h.events]
    simp [Entry.event?, Entry.delivery?, write]
  · rw [showings_cons, deliveries_cons, List.flatMap_append, ← h.shown]
    simp [Entry.showing?, Entry.delivery?]
  · cases hd
    exact hids

/-- The next one who has to be shown an event is shown it. -/
theorem Orderly.shows {id : SubscriptionId} (h : o.Orderly rest ((id, e) :: due)) :
    (o.write (.shown p id e)).Orderly rest due := by
  refine h.more rfl ?_ ?_ (fun _ hd => by cases hd)
  · rw [emissions_cons, deliveries_cons]
    simpa [Entry.event?, Entry.delivery?, write] using h.events
  · rw [showings_cons, deliveries_cons, List.flatMap_append, ← h.shown]
    simp [Entry.showing?, Entry.delivery?]

/-- One event is told and shown to all whom it is told to. -/
def round (o : Telling) (p : ProofId) (e : Event) (ids : List SubscriptionId) : Telling :=
  ids.foldl (fun o id => o.write (.shown p id e)) (o.write (.delivered p e o.paused ids))

theorem Orderly.showAll (ids : List SubscriptionId) (h : o.Orderly rest (Event.audience (e, ids))) :
    (ids.foldl (fun o id => o.write (.shown p id e)) o).Orderly rest [] := by
  induction ids generalizing o with
  | nil => exact h
  | cons id ids ih => exact ih h.shows

theorem Orderly.round (h : o.Orderly (e :: rest) []) {ids : List SubscriptionId}
    (hids : ids.Pairwise (· < ·)) : (o.round p e ids).Orderly rest [] :=
  (h.delivered hids o.paused).showAll ids

theorem deliveries_showAll (ids : List SubscriptionId) (o : Telling) :
    deliveries (ids.foldl (fun o id => o.write (.shown p id e)) o).told = deliveries o.told ∧
      showings (ids.foldl (fun o id => o.write (.shown p id e)) o).told =
        showings o.told ++ ids.map fun id => (id, e) := by
  induction ids generalizing o with
  | nil => exact ⟨rfl, (List.append_nil _).symm⟩
  | cons id ids ih =>
      obtain ⟨hd, hs⟩ := ih (o.write (.shown p id e))
      refine ⟨hd.trans ?_, hs.trans ?_⟩
      · simp [write, Entry.delivery?]
      · simp [write, Entry.showing?]

/-- What is written down when an event is told. -/
theorem deliveries_round (o : Telling) (ids : List SubscriptionId) :
    deliveries (o.round p e ids).told = deliveries o.told ++ [(e, ids)] ∧
      showings (o.round p e ids).told = showings o.told ++ ids.map fun id => (id, e) := by
  obtain ⟨hd, hs⟩ := deliveries_showAll (p := p) (e := e) ids (o.write (.delivered p e o.paused ids))
  refine ⟨hd.trans ?_, hs.trans ?_⟩
  · simp [write, Entry.delivery?]
  · simp [write, Entry.showing?]

theorem showAll_eq (ids : List SubscriptionId) (o : Telling) :
    (ids.foldl (fun o id => o.write (.shown p id e)) o).paused = o.paused ∧
      (ids.foldl (fun o id => o.write (.shown p id e)) o).held = o.held := by
  induction ids generalizing o with
  | nil => exact ⟨rfl, rfl⟩
  | cons id ids ih => exact ih (o.write (.shown p id e))

/-- Telling of an event neither pauses nor holds anything back. -/
theorem round_eq (o : Telling) (ids : List SubscriptionId) :
    (o.round p e ids).paused = o.paused ∧ (o.round p e ids).held = o.held :=
  showAll_eq ids (o.write (.delivered p e o.paused ids))

end Telling

/-- **Clients may ask for anything but for a change or a pause of one proof.** They may take off subscriptions
    to it. -/
def Leave.aside (p : ProofId) : Leave where
  calls
    | .proof q call => q ≠ p ∨ ∃ id, call = .unsubscribe id
    | .applyFirst => False
    | .dispatch _ | .resume _ | .stop _ | .shutdown _ | .dispose _ => True
  edits _ := True
  tells q := q ≠ p
  cancels _ _ := True
  joins _ := True

theorem Leave.coherent_aside (p : ProofId) : (Leave.aside p).Coherent where
  proof {q call} h := by
    cases call with
    | unsubscribe id => trivial
    | applyRule | prune => exact ⟨trivial, h.resolve_right (by rintro ⟨_, e⟩; cases e)⟩
    | startAuto | stopAuto | pause | resume => exact h.resolve_right (by rintro ⟨_, e⟩; cases e)
  first h := h.elim

namespace Session

/-! ## 2. What others do leaves it alone -/

/-- What is written down about what a proof tells, the newest entry first. -/
def told (s : Session) (p : ProofId) : List Entry := s.log.filter fun e => e.teller? == some p

def telling (s : Session) (p : ProofId) : Telling :=
  { paused := (s.proof p).paused, held := (s.proof p).held, told := s.told p }

variable {L : Leave} {b s s' : Session} {p q : ProofId} {r : RunnerId} {e : Event} {rest : List Event}

/-- Entries that say nothing of what a proof tells. -/
theorem told_same (es : List Entry) (hl : s'.log = es ++ s.log) (he : ∀ x ∈ es, x.teller? ≠ some p) :
    s'.told p = s.told p := by
  unfold told
  rw [hl, List.filter_append, List.filter_eq_nil_iff.mpr fun x hx => by simpa using he x hx, List.nil_append]

theorem told_record {x : Entry} (h : x.teller? = some p) : (s.record x).told p = x :: s.told p :=
  List.filter_cons_of_pos (by simp [h])

theorem telling_same (es : List Entry) (hp : (s'.proof p).paused = (s.proof p).paused)
    (hh : (s'.proof p).held = (s.proof p).held) (hl : s'.log = es ++ s.log)
    (he : ∀ x ∈ es, x.teller? ≠ some p) : s'.telling p = s.telling p := by
  unfold telling
  rw [hp, hh, told_same es hl he]

/-- One more thing is written down about what a proof tells. -/
theorem telling_record {x : Entry} (h : x.teller? = some p) :
    (s.record x).telling p = (s.telling p).write x := by
  unfold telling Telling.write
  rw [told_record h]
  rfl

theorem telling_modifyProof {k : ProofId} {f : Watched → Watched}
    (hf : p = k → (f (s.proof p)).paused = (s.proof p).paused ∧ (f (s.proof p)).held = (s.proof p).held) :
    (s.modifyProof k f).telling p = s.telling p := by
  rcases proof_modifyProof_cases (s := s) (p := k) (q := p) f with e | ⟨hk, _, e⟩
  · exact telling_same [] (by rw [e]) (by rw [e]) rfl fun _ h => absurd h List.not_mem_nil
  · exact telling_same [] (by rw [e]; exact (hf hk).1) (by rw [e]; exact (hf hk).2) rfl
      fun _ h => absurd h List.not_mem_nil

theorem telling_stir (hp : ¬ L.tells p) (hs : Stir L s s') : s'.telling p = s.telling p := by
  cases hs with
  | remark es h =>
      refine telling_same es.reverse rfl rfl rfl fun x hx => ?_
      rw [Entry.teller?_of_isAside (h x (List.mem_reverse.mp hx))]
      exact fun e => by cases e
  | @tell q hq x h _ =>
      refine telling_same [x] rfl rfl rfl fun y hy => ?_
      rw [List.mem_singleton.mp hy, h]
      exact fun e => hp (Option.some.inj e ▸ hq)
  | edit => exact telling_modifyProof fun _ => ⟨rfl, rfl⟩
  | @hold q hq f _ => exact telling_modifyProof fun e => absurd (e ▸ hq) hp
  | present q f hf => exact telling_modifyProof fun _ => by rw [hf]; exact ⟨rfl, rfl⟩
  | cancel => exact telling_modifyProof fun _ => ⟨rfl, rfl⟩
  | @join q _ react _ =>
      exact telling_modifyProof (s := { s with sinks := s.sinks ++ [{ react, shown := 0 }] })
        fun _ => ⟨rfl, rfl⟩
  | enlist q settings =>
      have hp : ((s.enlist q settings).2.proof p).paused = (s.proof p).paused ∧
          ((s.enlist q settings).2.proof p).held = (s.proof p).held := by
        rcases proof_enlist_cases (s := s) (p := q) (q := p) settings with e | ⟨_, e⟩ <;>
          rw [e] <;> exact ⟨rfl, rfl⟩
      exact telling_same [] hp.1 hp.2 rfl fun _ h => absurd h List.not_mem_nil
  | @act r ds core tasks _ _ =>
      refine telling_same (ds.map (Deed.entry r)) rfl rfl rfl fun x hx => ?_
      obtain ⟨d, _, rfl⟩ := List.mem_map.mp hx
      rw [Entry.teller?_deed]
      exact fun e => by cases e
  | host | desk | clients | tasks => rfl

/-- **What others do leaves alone what a proof tells.** -/
theorem Course.telling (hp : ¬ L.tells p) (h : Course L b s) : s.telling p = b.telling p := by
  refine course_keep (I := fun s => s.telling p = b.telling p) (fun hk hs => (telling_stir hp hs).trans hk)
    (fun {s} r hk => Eq.trans ?_ hk) (fun {s} r h hk => Eq.trans ?_ hk) h rfl
  · refine telling_same _ rfl rfl log_ended fun x hx => ?_
    obtain ⟨_, _, rfl⟩ := List.mem_map.mp (List.mem_reverse.mp hx)
    exact fun e => by cases e
  · rcases proof_parted (s := s) (r := r) (q := p) h with e | ⟨_, _, _, e⟩ <;>
      exact telling_same [] (by rw [e]) (by rw [e]) (log_parted h) fun _ h => absurd h List.not_mem_nil

/-! ## 3. Telling of an event -/

/-- **A proof that has told its events in order**, all but `rest`, with subscribers in order and clients that ask
    for no change or pause of it. Events are held back only while it is paused. -/
structure Faithful (p : ProofId) (rest : List Event) (s : Session) : Prop where
  mannered : Mannered (.aside p) s
  ranked : (s.proof p).Ranked
  orderly : (s.telling p).Orderly rest []
  idle : (s.proof p).paused = 0 → (s.proof p).held = []

theorem not_tells_aside : ¬ (Leave.aside p).tells p := fun h => h rfl

theorem faithful_course (h : Faithful p rest s) (hc : Course (.aside p) s s') : Faithful p rest s' := by
  have ht : s'.telling p = s.telling p := hc.telling not_tells_aside
  refine ⟨hc.mannered h.mannered, hc.ranked h.ranked, ht ▸ h.orderly, fun h0 => ?_⟩
  have hp : (s'.proof p).paused = (s.proof p).paused := congrArg Telling.paused ht
  have hh : (s'.proof p).held = (s.proof p).held := congrArg Telling.held ht
  rw [hh]
  exact h.idle (hp ▸ h0)

/-- A proof that the session does not have cannot be changed. -/
theorem modifyProof_of_le (f : Watched → Watched) (h : s.proofs.length ≤ p) : s.modifyProof p f = s := by
  unfold modifyProof
  rw [List.modify_eq_self h]

/-- A proof pauses, or changes what it holds back. -/
theorem telling_hold (hlt : p < s.proofs.length) (f : Watched → Watched) : (s.modifyProof p f).telling p =
    { s.telling p with paused := (f (s.proof p)).paused, held := (f (s.proof p)).held } := by
  unfold telling
  rw [proof_modifyProof_self f hlt]
  rfl

/-- A proof that pauses, or takes something out of what it holds back to tell it next. -/
theorem faithful_hold {rest' : List Event} (h : Faithful p rest s) (hlt : p < s.proofs.length)
    {f : Watched → Watched} (hf : ∀ w, f w = { w with paused := (f w).paused, held := (f w).held })
    (hr : rest' ++ (f (s.proof p)).held = rest ++ (s.proof p).held)
    (hi : (f (s.proof p)).paused = 0 → (f (s.proof p)).held = []) : Faithful p rest' (s.modifyProof p f) := by
  have hm : Mannered (.aside p) (s.modifyProof p f) := mannered_modifyProof h.mannered p fun w x hx => by
    rw [hf w] at hx
    exact hx
  refine ⟨hm, ranked_modifyProof h.ranked p fun w => by rw [hf w]; exact ⟨.refl _, rfl⟩, ?_, ?_⟩
  · rw [telling_hold hlt]
    exact ⟨(congrArg (_ ++ ·) hr).trans h.orderly.events, h.orderly.shown, h.orderly.ranked, h.orderly.always⟩
  · rw [proof_modifyProof_self f hlt]
    exact hi

theorem faithful_pauseEvents (h : Faithful p [] s) : Faithful p [] (s.pauseEvents p) := by
  unfold pauseEvents
  rcases Nat.lt_or_ge p s.proofs.length with hlt | hle
  · exact faithful_hold h hlt (fun _ => rfl) rfl fun h0 => by simp at h0
  · rw [modifyProof_of_le _ hle]
    exact h

theorem faithful_setTree (h : Faithful p [] s) (tree : Tree) : Faithful p [] (s.setTree p tree) :=
  faithful_course h (.one (.edit trivial tree))

section Events

variable {again : Again} (ha : Obliging (.aside p) again)

include ha

/-- Subscribers are shown an event one after the other, whatever they ask for meanwhile. -/
theorem showAll_spec (e : Event) : ∀ (xs : List Subscriber) {s : Session}, Mannered (.aside p) s →
    (∀ x ∈ xs, ∀ k, x.sink = .client k → Polite (.aside p) s p k) →
    Mannered (.aside p) (xs.foldl (showTo again p e) s) ∧
      ((s.proof p).Ranked → ((xs.foldl (showTo again p e) s).proof p).Ranked) ∧
      (xs.foldl (showTo again p e) s).telling p =
        (xs.map Subscriber.id).foldl (fun o id => o.write (.shown p id e)) (s.telling p)
  | [], _, hm, _ => ⟨hm, id, rfl⟩
  | x :: rest, s, hm, hpol => by
      have hc : Course (.aside p) (s.record (.shown p x.id e)) (showTo again p e s x) :=
        course_shown ha hm e (hpol x List.mem_cons_self)
      have hm' : Mannered (.aside p) (showTo again p e s x) := hc.mannered ⟨hm.sink, hm.listener⟩
      have ht : (showTo again p e s x).telling p = (s.telling p).write (.shown p x.id e) :=
        (hc.telling not_tells_aside).trans (telling_record rfl)
      obtain ⟨h1, h2, h3⟩ := showAll_spec e rest hm' fun y hy k hk =>
        hc.polite (hpol y (List.mem_cons_of_mem _ hy) k hk)
      refine ⟨h1, fun hr => h2 (hc.ranked hr), h3.trans ?_⟩
      rw [ht]
      rfl

theorem deliver_spec (hm : Mannered (.aside p) s) (e : Event) :
    Mannered (.aside p) (deliver again p s e) ∧
      ((s.proof p).Ranked → ((deliver again p s e).proof p).Ranked) ∧
      (deliver again p s e).telling p =
        (s.telling p).round p e ((s.proof p).subscribers.map Subscriber.id) := by
  have hstart : (s.record (.delivered p e (s.proof p).paused
      ((s.proof p).subscribers.map Subscriber.id))).telling p = (s.telling p).write _ := telling_record rfl
  obtain ⟨h1, h2, h3⟩ := showAll_spec ha e (s.proof p).subscribers
    (s := s.record (.delivered p e (s.proof p).paused ((s.proof p).subscribers.map Subscriber.id)))
    ⟨hm.sink, hm.listener⟩ fun x hx k hk => hm.sink p x hx k hk
  rw [hstart] at h3
  exact ⟨h1, h2, h3⟩

/-- **An event is told to all who are subscribed when it starts**, and shown to each of them once, in order. -/
theorem telling_deliver (hm : Mannered (.aside p) s) (e : Event) : (deliver again p s e).telling p =
    (s.telling p).round p e ((s.proof p).subscribers.map Subscriber.id) := (deliver_spec ha hm e).2.2

theorem faithful_deliver (h : Faithful p (e :: rest) s) : Faithful p rest (deliver again p s e) := by
  obtain ⟨hm, hr, ht⟩ := deliver_spec ha h.mannered e
  obtain ⟨hp, hh⟩ := Telling.round_eq (p := p) (e := e) (s.telling p)
    ((s.proof p).subscribers.map Subscriber.id)
  rw [← ht] at hp hh
  refine ⟨hm, hr h.ranked, ?_, fun h0 => ?_⟩
  · rw [ht]
    exact h.orderly.round h.ranked.order
  · exact hh.trans (h.idle (hp.symm.trans h0))

theorem faithful_emit (h : Faithful p [] s) (e : Event) : Faithful p [] (emit again s p e) := by
  have hm : Mannered (.aside p) (s.record (.emitted p e)) := ⟨h.mannered.sink, h.mannered.listener⟩
  unfold emit
  simp only
  split
  · rename_i hpos
    have hlt : p < s.proofs.length := by
      by_contra hle
      have hzero : (s.proof p).paused = 0 := by rw [proof_of_le (Nat.le_of_not_lt hle)]; rfl
      have hpos' : 0 < (s.proof p).paused := hpos
      omega
    have ht := telling_hold (s := s.record (.emitted p e)) hlt fun w => { w with held := w.held ++ [e] }
    rw [telling_record rfl] at ht
    refine ⟨mannered_modifyProof hm p fun _ _ hx => hx,
      ranked_modifyProof (s := s.record (.emitted p e)) h.ranked p fun _ => ⟨.refl _, rfl⟩, ?_, fun h0 => ?_⟩
    · rw [ht]
      exact h.orderly.emitted rfl rfl
    · rw [proof_modifyProof_self (s := s.record (.emitted p e)) _ hlt] at h0
      exact absurd h0 (Nat.ne_of_gt hpos)
  · rename_i hpos
    refine faithful_deliver ha ⟨hm, h.ranked, ?_, h.idle⟩
    have hzero : (s.proof p).paused = 0 := Nat.eq_zero_of_not_pos hpos
    have hh : (s.telling p).held = [] := h.idle hzero
    rw [telling_record rfl]
    exact h.orderly.emitted rfl (by simp [Telling.write, hh])

/-- The events of a list are told one after the other. -/
theorem faithful_flush : ∀ (held : List Event) {s : Session}, Faithful p held s →
    Faithful p [] (held.foldl (deliver again p) s)
  | [], _, h => h
  | _ :: rest, _, h => faithful_flush rest (faithful_deliver ha h)

theorem faithful_resumeEvents (h : Faithful p [] s) : Faithful p [] (resumeEvents again s p) := by
  unfold resumeEvents
  simp only
  rcases Nat.lt_or_ge p s.proofs.length with hlt | hle
  · split
    · refine faithful_hold h hlt (fun _ => rfl) rfl fun h0 => ?_
      simp only at h0
      omega
    · exact faithful_flush ha _ (faithful_hold h hlt (fun _ => rfl) (List.append_nil _) fun _ => rfl)
  · rw [modifyProof_of_le _ hle, modifyProof_of_le _ hle]
    have hh : (s.proof p).held = [] := by rw [proof_of_le hle]; rfl
    rw [hh]
    split <;> exact h

/-! ## 4. Every move -/

theorem faithful_applyRule (h : Faithful p [] s) (n : NodeId) (rule : String) (new : List Sequent) :
    Faithful p [] (applyRule again s p n rule new).2 := by
  unfold applyRule
  split
  · exact h
  · rename_i goals tree _
    have h1 := faithful_emit ha (faithful_setTree h tree) (.ruleApplied goals)
    simp only
    split
    · exact faithful_emit ha h1 .proofClosed
    · exact h1

theorem faithful_prune (h : Faithful p [] s) (n : NodeId) : Faithful p [] (prune again s p n).2 := by
  unfold prune
  split
  · exact h
  · exact faithful_emit ha (faithful_setTree h _) .treeStructureChanged

theorem faithful_proofCall (h : Faithful p [] s) (q : ProofId) (call : ProofCall) :
    Faithful p [] (proofCall again s q call) := by
  by_cases hq : q = p
  · cases hq
    cases call with
    | applyRule n rule new => exact faithful_applyRule ha h n rule new
    | prune n => exact faithful_prune ha h n
    | startAuto => exact faithful_emit ha h .autoModeStarted
    | stopAuto => exact faithful_emit ha h .autoModeStopped
    | pause => exact faithful_pauseEvents h
    | resume => exact faithful_resumeEvents ha h
    | unsubscribe id => exact faithful_course h (.one (.cancel trivial))
  · exact faithful_course h (course_proofCall ha ((Leave.coherent_aside p).proof (Or.inl hq)) h.mannered)

/-- **A move leaves the events of a proof in order.** -/
theorem faithful_move (h : Faithful p [] s) {m : Move} (hm : Heeds (.aside p) m) :
    Faithful p [] (move again s m) := by
  cases m with
  | applyResult n =>
      exact applyResult_keep (fun _ _ _ call _ ht => faithful_proofCall ha ht _ call)
        (faithful_course h (course_lookUp n))
  | proof q call => exact faithful_proofCall ha h q call
  | select | refreshAll | shutdownAll | newRunner | runner | finish | listen | subscribe | dispose | present =>
      exact faithful_course h (course_move ha h.mannered hm trivial)

theorem faithful_run (moves : List Move) (hm : ∀ m ∈ moves, Heeds (.aside p) m) (h : Faithful p [] s) :
    Faithful p [] (run again s moves) := by
  induction moves generalizing s with
  | nil => exact h
  | cons m rest ih =>
      exact ih (fun m hr => hm m (List.mem_cons_of_mem _ hr)) (faithful_move ha h (hm m List.mem_cons_self))

end Events

theorem faithful_start (proofs : List (String × Tree)) (settings : Settings) :
    Faithful p [] (start proofs settings) where
  mannered := mannered_start proofs settings
  ranked := ranked_start proofs settings p
  orderly :=
    { events := (proof_start proofs settings p).2
      shown := rfl
      ranked := fun _ hd => absurd hd List.not_mem_nil
      always := fun older ho => by
        rw [List.suffix_nil.mp ho]
        exact ⟨List.prefix_rfl, List.prefix_rfl⟩ }
  idle _ := (proof_start proofs settings p).2

/-- **Events are told in order, each once to each subscriber.** Whatever is done to a proof and whatever else
    goes on, as long as nobody who is called asks for a change or a pause of that proof: the events told so far
    and those held back are the events that came up, in order; events are held back only while the proof is
    paused; and those who are shown an event are those whom it is told to, in the order of their subscriptions.
    In the middle of a step too, what was told is the first part of what came up. And an event is told to all
    who are subscribed when it starts. -/
theorem events_told_in_order (p : ProofId) {again : Again} (ha : Obliging (.aside p) again)
    (proofs : List (String × Tree)) (settings : Settings) (moves : List Move)
    (hm : ∀ m ∈ moves, Heeds (.aside p) m) :
    let s := run again (start proofs settings) moves
    ((deliveries (s.told p)).map Prod.fst ++ (s.proof p).held = emissions (s.told p) ∧
      ((s.proof p).held ≠ [] → 0 < (s.proof p).paused)) ∧
    (showings (s.told p) = (deliveries (s.told p)).flatMap Event.audience ∧
      ∀ d ∈ deliveries (s.told p), d.2.Pairwise (· < ·)) ∧
    (∀ older, older <:+ s.told p → (deliveries older).map Prod.fst <+: emissions older ∧
      showings older <+: (deliveries older).flatMap Event.audience) ∧
    ∀ t e, Mannered (.aside p) t →
      deliveries ((deliver again p t e).told p) =
          deliveries (t.told p) ++ [(e, (t.proof p).subscribers.map Subscriber.id)] ∧
        showings ((deliver again p t e).told p) =
          showings (t.told p) ++ (t.proof p).subscribers.map fun x => (x.id, e) := by
  have h := faithful_run ha moves hm (faithful_start proofs settings)
  refine ⟨⟨h.orderly.events, fun hh => ?_⟩, ⟨?_, h.orderly.ranked⟩, h.orderly.always, fun t e ht => ?_⟩
  · exact Nat.pos_of_ne_zero fun h0 => hh (h.idle h0)
  · exact (List.append_nil _).symm.trans h.orderly.shown
  · have hround := Telling.deliveries_round (p := p) (e := e) (t.telling p)
      ((t.proof p).subscribers.map Subscriber.id)
    rw [← telling_deliver ha ht e, List.map_map] at hround
    exact hround

/-- Of two pauses one ends while events are held back; then a sink comes, and one that takes itself off when it is
    shown something is told of the first event only. A third pause that was never begun ends too. -/
theorem events_told_in_order_come_and_go :
    let b : Goal := ⟨2, { succedent := ["b"] }⟩
    let proofs : List (String × Tree) := [("p", .ofGoals [{ succedent := ["a"] }])]
    let chosen : Settings := { solvers := .ofList [.z3] }
    let moves : List Move := [.select 0, .subscribe 0 (fun _ _ => [.unsubscribe 1]), .proof 0 .pause,
      .proof 0 .pause, .proof 0 (.applyRule 1 "split" [b.sequent]), .proof 0 .resume,
      .subscribe 0 (fun _ _ => []), .proof 0 (.applyRule 2 "close" []), .proof 0 .resume, .proof 0 .resume]
    let s := run (perform 2) (start proofs chosen) moves
    Obliging (.aside 0) (perform 2) ∧ (∀ m ∈ moves, Heeds (.aside 0) m) ∧
    emissions (s.told 0) = [.ruleApplied [b], .ruleApplied [], .proofClosed] ∧
    deliveries (s.told 0) = [(.ruleApplied [b], [0, 1, 2]), (.ruleApplied [], [0, 2]), (.proofClosed, [0, 2])] ∧
    (deliveries (s.told 0)).map Prod.fst ++ (s.proof 0).held = emissions (s.told 0) ∧
    showings (s.told 0) = (deliveries (s.told 0)).flatMap Event.audience := by
  intro b proofs chosen moves s
  have ha : Obliging (.aside 0) (perform 2) := obliging_perform (Leave.coherent_aside 0) 2
  have hm : ∀ m ∈ moves, Heeds (.aside 0) m := by
    intro m hm
    simp only [moves, List.mem_cons, List.not_mem_nil, or_false] at hm
    rcases hm with rfl | rfl | rfl | rfl | rfl | rfl | rfl | rfl | rfl | rfl <;>
      simp [Heeds, Leave.aside]
  have h := events_told_in_order 0 ha proofs chosen moves hm
  exact ⟨ha, hm, by decide +kernel, by decide +kernel, h.1.1, h.2.1.1⟩

end Session

end GoalWatch
