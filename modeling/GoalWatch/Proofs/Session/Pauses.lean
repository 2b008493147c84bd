import GoalWatch.Proofs.Session.Lasting

/-!
# What a proof tells while it is paused

A proof that has something new to tell starts doing so only while it is not paused, and so it does with the first
event that it held back when the last pause ends. The other events that it held back follow, come what may: a
client that is shown one of them may pause the proof again, and is told of the next one all the same. If no client
asks for a pause from inside, nothing is told while a proof is paused.

* `Deal.PausesInside` -- a client comes in that asks for a pause when it is called;
* `Session.GoesOn` -- a proof goes on telling of what it held back;
* `Session.Excused` -- what is told while a proof is paused is told for this reason;
* `Session.Unpaused` -- nothing is told while a proof is paused, and how often each one is paused at most;
* `lasting_excused`, `lasting_unpaused` -- both outlast all that happens;
* **`deliveries_start_unpaused`** -- what is told after any deals;
* `told_while_paused` -- a client that pauses the proof and is told all the same.
-/

namespace GoalWatch

/-- A client comes in that asks for a pause when it is called. -/
def Deal.PausesInside : Deal → Prop
  | .move (.listen _ calls) => ∃ l p, .proof p .pause ∈ calls l
  | .move (.subscribe _ react) => ∃ i e, .pause ∈ react i e
  | _ => False

/-- Nobody is asked for a pause. -/
def Call.IsNoPause (call : Call) : Prop := ∀ p, call ≠ .proof p .pause

namespace Session

variable {N : Caps} {s : Session} {p : ProofId} {x : Entry}

/-! ## 1. Why something is told while a proof is paused -/

/-- **The proof goes on telling of what it held back**, when all that was written down is `older` and it is paused
    `n` times: the last pause had ended, it told of all events before this one, and of one at least. -/
def GoesOn (p : ProofId) (e : Event) (n : Nat) (older : List Entry) : Prop :=
  ∃ depth u done rest, (u.proof p).paused ≤ 1 ∧ (u.proof p).held = done ++ e :: rest ∧ done ≠ [] ∧
    (flush (perform depth) u p done).log = older ∧ ((flush (perform depth) u p done).proof p).paused = n

/-- **What is told while a proof is paused** is told because the proof goes on with what it held back. -/
def Excused : List Entry → Prop :=
  Throughout fun x older => ∀ p e n ids, x = .delivered p e n ids → n = 0 ∨ GoesOn p e n older

/-- A proof that holds something back is there. -/
theorem lt_of_held {u : Session} {e : Event} {done rest : List Event} (h : (u.proof p).held = done ++ e :: rest) :
    p < u.proofs.length := by
  refine Nat.lt_of_not_le fun hle => ?_
  rw [proof_of_le hle] at h
  cases done <;> cases h

/-- **Whatever clients ask for**, what is told while a proof is paused has its reason. -/
theorem lasting_excused : Lasting (fun _ => True) fun _ s => Excused s.log where
  aside h hu := by
    obtain ⟨es, e, hes⟩ := hu.log
    rw [e]
    refine h.append fun x hx _ p e n ids hx' => ?_
    have hcall := hes x hx
    rw [hx'] at hcall
    cases hcall
  loosen h _ := h
  pause _ h := h
  raise _ h := h
  lower h _ := h
  clear _ h := h
  listener _ _ _ _ _ := trivial
  sink _ _ _ _ _ _ _ _ := trivial
  observer _ _ _ h := ⟨fun _ _ _ _ hx => (by cases hx), h⟩
  told _ _ _ _ _ _ _ _ h := ⟨fun _ _ _ _ hx => (by cases hx), h⟩
  fresh _ _ h _ := by
    refine ⟨fun _ _ _ _ hx => ?_, h⟩
    cases hx
    exact Or.inl rfl
  flush depth u done e rest ids _ hpaused hheld h := by
    refine ⟨fun _ _ _ _ hx => ?_, h⟩
    cases hx
    cases done with
    | nil =>
        left
        show ((u.modifyProof _ fun w => { w with paused := 0, held := [] }).proof _).paused = 0
        rw [proof_modifyProof_self _ (lt_of_held hheld)]
    | cons d done => exact Or.inr ⟨depth, u, d :: done, rest, hpaused, hheld, List.cons_ne_nil _ _, rfl, rfl⟩

/-! ## 2. Clients that ask for no pause -/

/-- **Nothing is told while a proof is paused**, no client asks for a pause, and each proof is paused `N` times at
    most. -/
structure Unpaused (N : Caps) (s : Session) : Prop where
  started : ∀ p e n ids, .delivered p e n ids ∈ s.log → n = 0
  paused : ∀ p, (s.proof p).paused ≤ N p
  listener : ∀ calls ∈ s.listeners.map Listener.calls, ∀ call ∈ calls, call.IsNoPause
  sink : ∀ react ∈ s.sinks.map ClientSink.react, ∀ i e, .pause ∉ react i e

theorem Unpaused.record (h : Unpaused N s) (hx : ∀ p e n ids, x = .delivered p e n ids → n = 0) :
    Unpaused N (s.record x) where
  started p e n ids hm := (List.mem_cons.mp hm).elim (fun e' => hx p e n ids e'.symm) (h.started p e n ids)
  paused := h.paused
  listener := h.listener
  sink := h.sink

/-- The pauses of one proof change. -/
theorem Unpaused.modifyProof (h : Unpaused N s) {M : Caps} {f : Watched → Watched}
    (hp : (f (s.proof p)).paused ≤ M p) (hother : ∀ q, q ≠ p → N q = M q) : Unpaused M (s.modifyProof p f) where
  started := h.started
  paused q := by
    by_cases hq : q = p
    · subst hq
      rcases Nat.lt_or_ge q s.proofs.length with hlt | hge
      · rw [proof_modifyProof_self f hlt]
        exact hp
      · rw [proof_of_le (by rw [length_modifyProof]; exact hge)]
        exact Nat.zero_le _
    · rw [proof_modifyProof_of_ne _ hq, ← hother q hq]
      exact h.paused q
  listener := h.listener
  sink := h.sink

/-- **If no client asks for a pause**, nothing is told while a proof is paused. -/
theorem lasting_unpaused : Lasting Call.IsNoPause Unpaused where
  aside h hu := {
    started := fun p e n ids hm => by
      obtain ⟨es, hlog, hes⟩ := hu.log
      rw [hlog] at hm
      refine (List.mem_append.mp hm).elim (fun hm => ?_) (h.started p e n ids)
      cases hes _ hm
    paused := fun p => Nat.le_trans (hu.paused p) (h.paused p)
    listener := by
      rw [hu.calls]
      exact h.listener
    sink := by
      rw [hu.reacts]
      exact h.sink }
  loosen h hle := ⟨h.started, fun p => Nat.le_trans (h.paused p) (hle p), h.listener, h.sink⟩
  pause hask _ := absurd rfl (hask _)
  raise {N s} p h := by
    refine h.modifyProof ?_ fun q hq => (N.raise_of_ne hq).symm
    rw [N.raise_self]
    exact Nat.succ_le_succ (h.paused p)
  lower {N s p} h _ := by
    refine h.modifyProof ?_ fun q hq => N.raise_of_ne hq
    have hle := h.paused p
    rw [N.raise_self] at hle
    exact Nat.sub_le_of_le_add hle
  clear {N s} p h := h.modifyProof (Nat.zero_le _) fun q hq => (N.clear_of_ne hq).symm
  listener h x hx call hcall := h.listener x.calls (List.mem_map_of_mem hx) call hcall
  sink h c hc i e call hcall p := by
    rintro q hq
    cases hq
    exact h.sink c.react (List.mem_map_of_mem hc) i e hcall
  observer _ _ _ h := h.record fun _ _ _ _ hx => by cases hx
  told _ _ _ _ _ _ _ _ h := h.record fun _ _ _ _ hx => by cases hx
  fresh _ _ h _ := h.record fun _ _ _ _ hx => by
    cases hx
    rfl
  flush {N p} depth u done e rest ids hN _ _ h := h.record fun _ _ _ _ hx => by
    cases hx
    have hle := h.paused p
    omega

/-! ## 3. Deals -/

theorem excused_deal (depth : Nat) (d : Deal) (h : Excused s.log) : Excused (deal (perform depth) s d).log := by
  refine lasting_deal (N := fun _ => 0) (J := fun t => Excused t.log) lasting_excused depth (fun _ ht => ht)
    (fun t r ht => ?_) (fun home _ _ => ?_) (fun _ _ _ => h) (fun _ _ => h) h
  · rw [(untold_forgotten t r).1]
    exact ht
  · cases home <;> exact h

theorem excused_deals (depth : Nat) (ds : List Deal) (h : Excused s.log) :
    Excused (deals (perform depth) s ds).log := by
  induction ds generalizing s with
  | nil => exact h
  | cons d rest ih => exact ih (excused_deal depth d h)

/-- A client comes in that asks for no pause. -/
theorem unpaused_listen (h : Unpaused N s) {home : Home} {calls : ListenerId → List Call}
    (hc : ¬ (Deal.move (.listen home calls)).PausesInside) : Unpaused N (s.addListener home calls) := by
  have hnew : ∀ slot, ∀ x ∈ s.listeners ++ [{ home, slot, held := true, calls := calls s.listeners.length }],
      ∀ call ∈ x.calls, call.IsNoPause := by
    intro slot x hx call hcall
    rcases List.mem_append.mp hx with hx | hx
    · exact h.listener x.calls (List.mem_map_of_mem hx) call hcall
    · cases List.mem_singleton.mp hx
      exact fun p e => hc ⟨_, p, e ▸ hcall⟩
  cases home <;> exact ⟨h.started, h.paused, List.forall_mem_map.mpr (hnew _), h.sink⟩

theorem unpaused_subscribe (h : Unpaused N s) {react : Nat → Event → List ProofCall}
    (hc : ¬ (Deal.move (.subscribe p react)).PausesInside) : Unpaused N (s.subscribe p react).2 where
  started := h.started
  paused q := by
    rcases proof_modifyProof_cases (s := { s with sinks := s.sinks ++ [{ react, shown := 0 }] }) (p := p) (q := q)
      (Watched.addSubscriber (.client s.sinks.length)) with e | ⟨_, _, e⟩
    · exact Nat.le_trans (Nat.le_of_eq (congrArg Watched.paused e)) (h.paused q)
    · exact Nat.le_trans (Nat.le_of_eq (congrArg Watched.paused e)) (h.paused q)
  listener := h.listener
  sink f hf i e hm := by
    rw [show (s.subscribe p react).2.sinks = s.sinks ++ [{ react, shown := 0 }] from rfl, List.map_append] at hf
    rcases List.mem_append.mp hf with hf | hf
    · exact h.sink f hf i e hm
    · cases List.mem_singleton.mp hf
      exact hc ⟨i, e, hm⟩

/-- **A deal by which no client comes in that asks for a pause.** A pause from outside is one pause more. -/
theorem unpaused_deal (depth : Nat) {d : Deal} (hd : ¬ d.PausesInside) (h : Unpaused N s) :
    ∃ M, Unpaused M (deal (perform depth) s d) := by
  refine lasting_deal (J := fun t => ∃ M, Unpaused M t) lasting_unpaused depth (fun _ ht => ⟨N, ht⟩)
    (fun t r ht => ⟨N, ?_⟩) (fun home calls e => ⟨N, unpaused_listen h (e ▸ hd)⟩)
    (fun p react e => ⟨N, unpaused_subscribe h (e ▸ hd)⟩) (fun p _ => ⟨_, lasting_unpaused.raise p h⟩) h
  obtain ⟨hlog, hlisteners, hsinks, hpaused⟩ := untold_forgotten t r
  exact ⟨hlog ▸ ht.started, fun p => Nat.le_trans (Nat.le_of_eq (hpaused p)) (ht.paused p),
    hlisteners ▸ ht.listener, hsinks ▸ ht.sink⟩

theorem unpaused_deals (depth : Nat) {ds : List Deal} (hds : ∀ d ∈ ds, ¬ d.PausesInside) (h : Unpaused N s) :
    ∃ M, Unpaused M (deals (perform depth) s ds) := by
  induction ds generalizing s N with
  | nil => exact ⟨N, h⟩
  | cons d rest ih =>
      obtain ⟨M, hM⟩ := unpaused_deal depth (hds d List.mem_cons_self) h
      exact ih (fun x hx => hds x (List.mem_cons_of_mem _ hx)) hM

theorem unpaused_start (proofs : List (String × Tree)) (settings : Settings) :
    Unpaused (fun p => ((start proofs settings).proof p).paused) (start proofs settings) where
  started _ _ _ _ hm := absurd hm List.not_mem_nil
  paused _ := Nat.le_refl _
  listener _ hm := absurd hm List.not_mem_nil
  sink _ hm := absurd hm List.not_mem_nil

/-- **When a proof starts telling of an event.** After any deals, and whatever clients ask for when they are called,
    it does so while it is paused only if it goes on with events that it held back, after the first of them: what is
    new, and the first of what was held back, is told while the proof is not paused. If no client asks for a pause
    when it is called, nothing is told while a proof is paused. -/
theorem deliveries_start_unpaused (depth : Nat) (proofs : List (String × Tree)) (settings : Settings)
    (ds : List Deal) (newer older : List Entry) (p : ProofId) (e : Event) (n : Nat) (ids : List SubscriptionId)
    (h : (deals (perform depth) (start proofs settings) ds).log = newer ++ .delivered p e n ids :: older) :
    (n = 0 ∨ GoesOn p e n older) ∧ ((∀ d ∈ ds, ¬ d.PausesInside) → n = 0) := by
  have hall := excused_deals depth ds (s := start proofs settings) trivial
  rw [h] at hall
  refine ⟨hall.of_append p e n ids rfl, fun hds => ?_⟩
  obtain ⟨M, hM⟩ := unpaused_deals depth hds (unpaused_start proofs settings)
  refine hM.started p e n ids ?_
  rw [h]
  exact List.mem_append_right _ List.mem_cons_self

/-- **A client pauses the proof and is told all the same.** Two events are held back. When the pause ends, the client
    is shown the first one and pauses the proof; the second one is told while it is paused. -/
theorem told_while_paused :
    let ds : List Deal := [.move (.subscribe 0 fun i _ => if i = 0 then [.pause] else []), .move (.proof 0 .pause),
      .move (.proof 0 .startAuto), .move (.proof 0 .stopAuto), .move (.proof 0 .resume)]
    let s := deals (perform 1) (start [("p", .ofGoals [{ succedent := ["a"] }])] {}) ds
    s.log = [.shown 0 0 .autoModeStopped, .delivered 0 .autoModeStopped 1 [0], .shown 0 0 .autoModeStarted,
      .delivered 0 .autoModeStarted 0 [0], .emitted 0 .autoModeStopped, .emitted 0 .autoModeStarted] ∧
    (s.proof 0).paused = 1 := by
  decide +kernel

/-- The proof above goes on with what it held back; where the client asks for a new event instead of a pause, it is
    told of all three while the proof is not paused. -/
theorem deliveries_start_unpaused_resumed :
    let first := start [("p", .ofGoals [{ succedent := ["a"] }])] {}
    let held : List Deal := [.move (.proof 0 .pause), .move (.proof 0 .startAuto), .move (.proof 0 .stopAuto),
      .move (.proof 0 .resume)]
    let pausing : Deal := .move (.subscribe 0 fun i _ => if i = 0 then [.pause] else [])
    let asking : Deal := .move (.subscribe 0 fun i _ => if i = 0 then [.startAuto] else [])
    GoesOn 0 .autoModeStopped 1 ((deals (perform 1) first (pausing :: held)).log.drop 2) ∧
    (deals (perform 1) first (asking :: held)).log = [.shown 0 0 .autoModeStopped,
      .delivered 0 .autoModeStopped 0 [0], .shown 0 0 .autoModeStarted, .delivered 0 .autoModeStarted 0 [0],
      .emitted 0 .autoModeStarted, .shown 0 0 .autoModeStarted, .delivered 0 .autoModeStarted 0 [0],
      .emitted 0 .autoModeStopped, .emitted 0 .autoModeStarted] ∧
    ∀ p e n ids, .delivered p e n ids ∈ (deals (perform 1) first (asking :: held)).log → n = 0 := by
  intro first held pausing asking
  refine ⟨?_, by decide +kernel, fun p e n ids hm => ?_⟩
  · have h := deliveries_start_unpaused 1 [("p", .ofGoals [{ succedent := ["a"] }])] {} (pausing :: held)
      [.shown 0 0 .autoModeStopped] ((deals (perform 1) first (pausing :: held)).log.drop 2) 0 .autoModeStopped 1
      [0] (by decide +kernel)
    exact h.1.resolve_left (by decide)
  · obtain ⟨newer, older, e'⟩ := List.append_of_mem hm
    refine (deliveries_start_unpaused 1 _ _ (asking :: held) newer older p e n ids e').2 fun d hd => ?_
    simp only [held, List.mem_cons, List.not_mem_nil, or_false] at hd
    rcases hd with rfl | rfl | rfl | rfl | rfl
    · rintro ⟨i, e, hm⟩
      dsimp only at hm
      split at hm <;> simp at hm
    all_goals exact id

end Session

end GoalWatch
