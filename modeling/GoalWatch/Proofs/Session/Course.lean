import GoalWatch.Proofs.Session.Flow
import GoalWatch.Proofs.Session.Outdated

/-!
# The course of a call

What a call leads to when clients are given leave to ask for some things and not for others. Besides the
steps of a flow, a course knows what each proof tells and to whom, whose subscription is taken off, and that
a runner which ends does so in two parts, with the calls of those who are told of it between them.

* `Leave` -- what clients may ask for, and what may come of it;
* `Session.Mannered` -- a session whose clients keep to that;
* `Session.Stir` -- one small change, `Session.Course` -- any number of them and of ends of runners;
* `course_keep` -- what each change keeps, a course keeps;
* `Course.mannered`, `Course.numbers`, `Course.ranked`, `Course.standing` -- clients, subscribers and owners of
  runners in a course;
* `Session.Obliging` -- calls from inside keep to the course;
* `course_deliver`, `course_applyResult`, `course_select`, … -- one statement for each function;
* **`obliging_perform`**, **`course_move`** -- calls nested to any depth keep to it, and so does every move.
-/

namespace GoalWatch

/-- The proof of which an entry says that it tells something. -/
def Entry.teller? : Entry → Option ProofId
  | .emitted p _ | .delivered p .. | .shown p .. => some p
  | .requested .. | .started .. | .completed .. | .stopped .. | .notified .. | .probed _ => none

/-- The entry is about neither a proof nor a runner. -/
def Entry.isAside : Entry → Bool
  | .started .. | .notified .. | .probed _ => true
  | .emitted .. | .delivered .. | .shown .. | .requested .. | .completed .. | .stopped .. => false

theorem Entry.teller?_of_isAside {e : Entry} (h : e.isAside = true) : e.teller? = none := by
  cases e with
  | started | notified | probed => rfl
  | emitted | delivered | shown | requested | completed | stopped => cases h

theorem Entry.teller?_deed (r : RunnerId) (d : Deed) : (d.entry r).teller? = none := by
  cases d <;> rfl

/-- **What clients may ask for, and what may come of it.** -/
structure Leave where
  /-- Clients may ask for these. -/
  calls : Call → Prop
  /-- These proofs may change. -/
  edits : ProofId → Prop
  /-- These proofs may tell of something, or hold it back. -/
  tells : ProofId → Prop
  /-- These subscriptions may be taken off, -/
  cancels : ProofId → SubscriptionId → Prop
  /-- and clients may subscribe to these proofs. -/
  joins : ProofId → Prop

namespace Leave

/-- What is asked of a proof may come of it. -/
def Grants (L : Leave) (p : ProofId) : ProofCall → Prop
  | .applyRule .. | .prune _ => L.edits p ∧ L.tells p
  | .startAuto | .stopAuto | .pause | .resume => L.tells p
  | .unsubscribe id => L.cancels p id

/-- What clients may ask for may come of it. -/
structure Coherent (L : Leave) : Prop where
  proof : ∀ {p call}, L.calls (.proof p call) → L.Grants p call
  first : L.calls .applyFirst → ∀ p, L.edits p ∧ L.tells p

end Leave

/-- **Subscribers of a proof stand in the order of their numbers**, all of them below the next. -/
structure Watched.Ranked (w : Watched) : Prop where
  order : (w.subscribers.map Subscriber.id).Pairwise (· < ·)
  below : ∀ x ∈ w.subscribers, x.id < w.nextSubscription

theorem Watched.Ranked.thin {w w' : Watched} (h : w.Ranked) (hs : w'.subscribers.Sublist w.subscribers)
    (hn : w'.nextSubscription = w.nextSubscription) : w'.Ranked where
  order := h.order.sublist (hs.map Subscriber.id)
  below x hx := by
    rw [hn]
    exact h.below x (hs.subset hx)

theorem Watched.Ranked.numbered {w : Watched} (h : w.Ranked) : w.Numbered :=
  ⟨h.order.imp fun hlt => Nat.ne_of_lt hlt, h.below⟩

theorem Watched.Ranked.addSubscriber {w : Watched} (h : w.Ranked) (sink : Sink) :
    (w.addSubscriber sink).Ranked where
  order := by
    show ((w.subscribers ++ [({ id := w.nextSubscription, sink } : Subscriber)]).map Subscriber.id).Pairwise _
    rw [List.map_append, List.pairwise_append]
    refine ⟨h.order, List.pairwise_singleton .., fun i hi j hj => ?_⟩
    obtain ⟨x, hx, rfl⟩ := List.mem_map.mp hi
    rw [List.mem_singleton.mp hj]
    exact h.below x hx
  below := (h.numbered.addSubscriber sink).below

namespace Session

/-! ## 1. Clients -/

/-- The sink asks a proof for nothing but what it may. -/
def Polite (L : Leave) (s : Session) (p : ProofId) (k : SinkId) : Prop :=
  ∃ c, s.sinks[k]? = some c ∧ ∀ i e, ∀ call ∈ c.react i e, L.calls (.proof p call)

/-- **Clients ask for nothing but what they may.** -/
structure Mannered (L : Leave) (s : Session) : Prop where
  sink : ∀ p, ∀ x ∈ (s.proof p).subscribers, ∀ k, x.sink = .client k → Polite L s p k
  listener : ∀ x ∈ s.listeners, ∀ call ∈ x.calls, L.calls call

/-! ## 2. Courses -/

/-- **One small change of a session.** -/
inductive Stir (L : Leave) (s : Session) : Session → Prop where
  | remark (es : List Entry) (h : ∀ e ∈ es, e.isAside = true) : Stir L s (s.recordAll es)
  /-- A proof tells of something. What it tells about being closed is told only if it may change. -/
  | tell {p : ProofId} (hp : L.tells p) (e : Entry) (h : e.teller? = some p)
      (hv : ∀ x, e = .emitted p x → x.verdict? = none ∨ L.edits p) : Stir L s (s.record e)
  | edit {p : ProofId} (hp : L.edits p) (tree : Tree) : Stir L s (s.setTree p tree)
  | hold {p : ProofId} (hp : L.tells p) (f : Watched → Watched)
      (hf : ∀ w, f w = { w with paused := (f w).paused, held := (f w).held }) : Stir L s (s.modifyProof p f)
  | present (p : ProofId) (f : Watched → Watched) (hf : ∀ w, f w = { w with facade := (f w).facade }) :
      Stir L s (s.modifyProof p f)
  | cancel {p : ProofId} {id : SubscriptionId} (h : L.cancels p id) : Stir L s (s.unsubscribe p id)
  | join {p : ProofId} (hp : L.joins p) {react : Nat → Event → List ProofCall}
      (h : ∀ i e, ∀ call ∈ react i e, L.calls (.proof p call)) : Stir L s (s.subscribe p react).2
  | enlist (p : ProofId) (settings : Settings) : Stir L s (s.enlist p settings).2
  /-- A runner has other listeners, or someone else keeps it; nobody drops it. -/
  | host (r : RunnerId) (f : Hosted → Hosted)
      (hf : ∀ x, (f x).core = x.core ∧ (f x).proof = x.proof ∧ (f x).subscription = x.subscription)
      (hd : (f (s.runner r)).standing = .dropped ↔ (s.runner r).standing = .dropped) :
      Stir L s (s.modifyRunner r f)
  /-- Something happens to a runner that does not end it, and its marks are written down. -/
  | act (r : RunnerId) {ds : List Deed} {core : Runner} (tasks : List Task)
      (h : (s.runner r).core.Acts ds core) (hc : core.closed = (s.runner r).core.closed) :
      Stir L s { s.setCore r core with log := ds.map (Deed.entry r) ++ s.log, tasks }
  | desk (g : Registry) : Stir L s { s with registry := g }
  | clients {sinks : List ClientSink} {listeners : List Listener}
      (hs : sinks.map ClientSink.react = s.sinks.map ClientSink.react)
      (hl : ∀ x ∈ listeners, ∀ call ∈ x.calls, L.calls call) : Stir L s { s with sinks, listeners }
  | tasks (ts : List Task) : Stir L s { s with tasks := ts }

/-- What is left to do when all were told that a runner has ended: its subscription is taken off, and nobody
    listens to it any more. -/
def parted (s : Session) (r : RunnerId) (h : Hosted) : Session :=
  (match h.subscription with
    | some id => s.unsubscribe h.proof id
    | none => s).modifyRunner r fun x => { x with listeners := x.listeners.clear }

/-- **What went on since a session**, in small changes and ends of runners. A runner that ends is closed first
    and parts from its proof last. -/
inductive Course (L : Leave) : Session → Session → Prop where
  | start (s : Session) : Course L s s
  | more {b s s' : Session} (h : Course L b s) (hs : Stir L s s') : Course L b s'
  | close {b s t : Session} (h : Course L b s) {r : RunnerId} (hr : (s.runner r).core.closed = false)
      (ht : Course L (s.ended r) t) : Course L b (t.parted r (s.runner r))

variable {L : Leave} {b s s' s'' t : Session} {p q : ProofId} {r : RunnerId} {k : SinkId}

theorem Course.one (h : Stir L s s') : Course L s s' := .more (.start s) h

theorem Course.trans (h : Course L b s) (h' : Course L s s') : Course L b s' := by
  induction h' with
  | start => exact h
  | more _ hs ih => exact (ih h).more hs
  | close _ hr ht ih => exact (ih h).close hr ht

/-- **What each change keeps, a course keeps**, if it outlasts the two parts of a runner's end. -/
theorem course_keep {I : Session → Prop} (hs : ∀ {s s'}, I s → Stir L s s' → I s')
    (he : ∀ {s} r, I s → I (s.ended r)) (hp : ∀ {s} r h, I s → I (s.parted r h)) (h : Course L b s)
    (h0 : I b) : I s := by
  induction h with
  | start => exact h0
  | more _ hstir ih => exact hs (ih h0) hstir
  | close _ _ _ ih iht => exact hp _ _ (iht (he _ (ih h0)))

/-! ## 3. What a course keeps -/

/-- A proof after a runner parted from it: at most one number is struck off. -/
theorem proof_parted (h : Hosted) : (s.parted r h).proof q = s.proof q ∨
    ∃ id, h.subscription = some id ∧ q = h.proof ∧ (s.parted r h).proof q =
      { s.proof q with subscribers := (s.proof q).subscribers.filter fun x => x.id != id } := by
  unfold parted
  cases hid : h.subscription with
  | none => exact Or.inl rfl
  | some id =>
      rcases proof_modifyProof_cases (s := s) (p := h.proof) (q := q) fun w =>
        { w with subscribers := w.subscribers.filter fun x => x.id != id } with e | ⟨hq, _, e⟩
      · exact Or.inl e
      · exact Or.inr ⟨id, rfl, hq, e⟩

theorem clients_parted (h : Hosted) :
    (s.parted r h).sinks = s.sinks ∧ (s.parted r h).listeners = s.listeners := by
  unfold parted
  cases h.subscription <;> exact ⟨rfl, rfl⟩

theorem log_parted (h : Hosted) : (s.parted r h).log = s.log := by
  unfold parted
  cases h.subscription <;> rfl

theorem length_parted (h : Hosted) : (s.parted r h).runners.length = s.runners.length := by
  unfold parted
  cases h.subscription <;> exact length_modifyRunner _

/-- Whoever parts from its proof only loses its listeners. -/
theorem runner_parted (h : Hosted) (k : RunnerId) : (s.parted r h).runner k = s.runner k ∨
    (s.parted r h).runner k = { s.runner k with listeners := (s.runner k).listeners.clear } := by
  unfold parted
  cases h.subscription <;>
    exact (runner_modifyRunner_cases fun x => { x with listeners := x.listeners.clear }).imp id
      fun e => e.2.2

theorem length_ended : (s.ended r).runners.length = s.runners.length := by
  simp [ended, giveUp, wake, recordAll, setCore]

/-- A runner that has ended is closed and has no subscription; the others are as they were. -/
theorem runner_ended (k : RunnerId) : (s.ended r).runner k = s.runner k ∨
    k = r ∧ r < s.runners.length ∧
      (s.ended r).runner k = { s.runner k with core := (s.runner r).core.close.2, subscription := none } := by
  rw [same_ended.runner]
  exact runner_modifyRunner_cases _

theorem log_ended : (s.ended r).log =
    ((s.runner r).core.close.1.map (Entry.stopped r)).reverse ++ s.log := rfl

/-- Sinks that react as they did are as polite as they were. -/
theorem Polite.same (h : Polite L s p k)
    (hs : s'.sinks.map ClientSink.react = s.sinks.map ClientSink.react) : Polite L s' p k := by
  obtain ⟨c, hc, hcalls⟩ := h
  have hreact : s'.sinks[k]?.map ClientSink.react = some c.react := by
    rw [← List.getElem?_map, hs, List.getElem?_map, hc]
    rfl
  obtain ⟨c', hc', e⟩ := Option.map_eq_some_iff.mp hreact
  exact ⟨c', hc', fun i x => by rw [e]; exact hcalls i x⟩

theorem Polite.more (h : Polite L s p k) {l : List ClientSink} (hs : s'.sinks = s.sinks ++ l) :
    Polite L s' p k := by
  obtain ⟨c, hc, hcalls⟩ := h
  refine ⟨c, ?_, hcalls⟩
  rw [hs, List.getElem?_append_left (List.getElem?_eq_some_iff.mp hc).1]
  exact hc

theorem polite_stir (h : Polite L s p k) (hs : Stir L s s') : Polite L s' p k := by
  cases hs with
  | join hp _ => exact h.more rfl
  | clients hs _ => exact h.same hs
  | remark | tell | edit | hold | present | cancel | enlist | host | act | desk | tasks => exact h

/-- **A polite sink stays polite.** -/
theorem Course.polite (h : Course L b s) (hk : Polite L b p k) : Polite L s p k :=
  course_keep polite_stir (fun _ h => h) (fun r h hk => hk.more (l := []) (by
    rw [(clients_parted h).1, List.append_nil])) h hk

/-- Subscribers that were there are polite, and new ones are runners. -/
theorem Mannered.same (h : Mannered L s) (hpol : ∀ p k, Polite L s p k → Polite L s' p k)
    (hsub : ∀ q, ∀ x ∈ (s'.proof q).subscribers, x ∈ (s.proof q).subscribers ∨ ∃ r, x.sink = .runner r)
    (hl : ∀ x ∈ s'.listeners, ∀ call ∈ x.calls, L.calls call) : Mannered L s' where
  sink q x hx k hk := by
    rcases hsub q x hx with hx | ⟨r, e⟩
    · exact hpol q k (h.sink q x hx k hk)
    · rw [e] at hk
      cases hk
  listener := hl

theorem mannered_modifyProof (h : Mannered L s) (p : ProofId) {f : Watched → Watched}
    (hf : ∀ w, ∀ x ∈ (f w).subscribers, x ∈ w.subscribers) : Mannered L (s.modifyProof p f) := by
  refine h.same (fun _ _ h => h) (fun q x hx => Or.inl ?_) h.listener
  rcases proof_modifyProof_cases (s := s) (p := p) (q := q) f with e | ⟨_, _, e⟩
  · exact e ▸ hx
  · exact hf _ x (e ▸ hx)

theorem mannered_subscribe (h : Mannered L s) {react : Nat → Event → List ProofCall}
    (hc : ∀ i e, ∀ call ∈ react i e, L.calls (.proof p call)) : Mannered L (s.subscribe p react).2 where
  sink q x hx k hk := by
    have hpol : ∀ q k, Polite L s q k → Polite L (s.subscribe p react).2 q k := fun _ _ h => h.more rfl
    rcases proof_modifyProof_cases (s := { s with sinks := s.sinks ++ [{ react, shown := 0 }] }) (p := p)
      (q := q) (Watched.addSubscriber (.client s.sinks.length)) with e | ⟨rfl, _, e⟩
    · rw [show (s.subscribe p react).2.proof q = s.proof q from e] at hx
      exact hpol q k (h.sink q x hx k hk)
    · rw [show (s.subscribe q react).2.proof q = (s.proof q).addSubscriber _ from e] at hx
      rcases List.mem_append.mp hx with hx | hx
      · exact hpol q k (h.sink q x hx k hk)
      · rw [List.mem_singleton.mp hx] at hk
        cases hk
        exact ⟨{ react, shown := 0 }, List.getElem?_concat_length, hc⟩
  listener := h.listener

theorem mannered_stir (h : Mannered L s) (hs : Stir L s s') : Mannered L s' := by
  cases hs with
  | edit | cancel => exact mannered_modifyProof h _ (by simp +contextual)
  | hold _ f hf | present _ f hf =>
      refine mannered_modifyProof h _ fun w x hx => ?_
      rw [hf w] at hx
      exact hx
  | join _ hc => exact mannered_subscribe h hc
  | enlist q settings =>
      refine h.same (fun _ _ h => h) (fun k x hx => ?_) h.listener
      rcases proof_enlist_cases (s := s) (p := q) (q := k) settings with e | ⟨_, e⟩
      · exact Or.inl (e ▸ hx)
      · rw [e] at hx
        exact (List.mem_append.mp hx).imp id fun hx => ⟨_, congrArg Subscriber.sink (List.mem_singleton.mp hx)⟩
  | clients hs hl => exact h.same (fun _ _ h => h.same hs) (fun _ _ => Or.inl) hl
  | remark | tell | host | act | desk | tasks => exact ⟨h.sink, h.listener⟩

/-- **Clients keep their manners.** -/
theorem Course.mannered (h : Course L b s) (hb : Mannered L b) : Mannered L s := by
  refine course_keep mannered_stir (fun _ h => ⟨h.sink, h.listener⟩) (fun r h hm => ?_) h hb
  refine hm.same (fun _ _ hk => hk.more (l := []) ?_) (fun q x hx => Or.inl ?_) ?_
  · rw [(clients_parted h).1, List.append_nil]
  · rcases proof_parted (r := r) (q := q) h with e | ⟨_, _, _, e⟩
    · exact e ▸ hx
    · rw [e] at hx
      exact (List.mem_filter.mp hx).1
  · rw [(clients_parted h).2]
    exact hm.listener

theorem numbers_stir (h : Numbers b s) (hs : Stir L s s') : Numbers b s' := by
  cases hs with
  | edit => exact h.modifyProof _ fun _ => ⟨.refl _, rfl⟩
  | cancel => exact h.modifyProof _ fun _ => ⟨List.filter_sublist, rfl⟩
  | hold _ f hf | present _ f hf => exact h.modifyProof _ fun w => by rw [hf w]; exact ⟨.refl _, rfl⟩
  | @join p _ react _ =>
      refine h.addSubscriber (.client s.sinks.length) (Nat.le_refl _) (fun _ e => by cases e) fun q => ?_
      exact (proof_modifyProof_cases (s := { s with sinks := s.sinks ++ [{ react, shown := 0 }] })
        _).imp id fun e => e.2.2
  | enlist p settings =>
      refine h.addSubscriber (.runner s.runners.length) ?_ (fun _ e => by cases e; exact Nat.le_refl _)
        fun q => (proof_enlist_cases settings).imp id And.right
      rw [length_enlist]
      exact Nat.le_succ _
  | host r f => exact h.same (length_modifyRunner f) fun _ => rfl
  | act r => exact h.same (length_modifyRunner _) fun _ => rfl
  | remark | tell | desk | clients | tasks => exact h.same rfl fun _ => rfl

/-- **Subscribers are those that were there and later ones**, and numbers are given in order. -/
theorem Course.numbers (h : Course L b s) : Numbers b s := by
  refine course_keep (I := Numbers b) numbers_stir (fun _ h => h.same length_ended fun _ => rfl)
    (fun {s} r h hn => ?_) h (.refl b)
  refine ⟨by rw [length_parted]; exact hn.runners, fun q x hx => ?_, fun q => ?_⟩
  · rcases proof_parted (r := r) (q := q) h with e | ⟨_, _, _, e⟩
    · exact hn.known q x (e ▸ hx)
    · rw [e] at hx
      exact hn.known q x (List.mem_filter.mp hx).1
  · rcases proof_parted (s := s) (r := r) (q := q) h with e | ⟨_, _, _, e⟩ <;>
      · rw [e]
        exact hn.next q

theorem ranked_modifyProof (h : (s.proof q).Ranked) (p : ProofId) {f : Watched → Watched}
    (hf : ∀ w, (f w).subscribers.Sublist w.subscribers ∧ (f w).nextSubscription = w.nextSubscription) :
    ((s.modifyProof p f).proof q).Ranked := by
  rcases proof_modifyProof_cases (s := s) (p := p) (q := q) f with e | ⟨_, _, e⟩
  · rw [e]
    exact h
  · rw [e]
    exact h.thin (hf _).1 (hf _).2

theorem ranked_stir (h : (s.proof q).Ranked) (hs : Stir L s s') : (s'.proof q).Ranked := by
  cases hs with
  | edit => exact ranked_modifyProof h _ fun _ => ⟨.refl _, rfl⟩
  | cancel => exact ranked_modifyProof h _ fun _ => ⟨List.filter_sublist, rfl⟩
  | hold _ f hf | present _ f hf => exact ranked_modifyProof h _ fun w => by rw [hf w]; exact ⟨.refl _, rfl⟩
  | @join p _ react _ =>
      rcases proof_modifyProof_cases (s := { s with sinks := s.sinks ++ [{ react, shown := 0 }] }) (p := p)
        (q := q) (Watched.addSubscriber (.client s.sinks.length)) with e | ⟨_, _, e⟩
      · exact (congrArg Watched.Ranked e).mpr h
      · exact (congrArg Watched.Ranked e).mpr (h.addSubscriber _)
  | enlist p settings =>
      rcases proof_enlist_cases (s := s) (p := p) (q := q) settings with e | ⟨_, e⟩
      · exact (congrArg Watched.Ranked e).mpr h
      · exact (congrArg Watched.Ranked e).mpr (h.addSubscriber _)
  | remark | tell | host | act | desk | clients | tasks => exact h

theorem ranked_parted (h : (s.proof q).Ranked) (x : Hosted) : ((s.parted r x).proof q).Ranked := by
  rcases proof_parted (s := s) (r := r) (q := q) x with e | ⟨_, _, _, e⟩
  · rw [e]
    exact h
  · rw [e]
    exact h.thin List.filter_sublist rfl

/-- **Subscribers stay in the order of their numbers.** -/
theorem Course.ranked (h : Course L b s) (hb : (b.proof q).Ranked) : (s.proof q).Ranked :=
  course_keep (I := fun s => (s.proof q).Ranked) ranked_stir (fun _ h => h)
    (fun _ x h => ranked_parted h x) h hb

theorem Course.length_proofs (h : Course L b s) : s.proofs.length = b.proofs.length := by
  refine course_keep (I := fun s => s.proofs.length = b.proofs.length) (fun hk hs => ?_) (fun _ h => h)
    (fun {s} r h hk => ?_) h rfl
  · cases hs with
    | edit | hold | present | cancel | join | enlist => exact (length_modifyProof _).trans hk
    | remark | tell | host | act | desk | clients | tasks => exact hk
  · unfold parted
    cases h.subscription with
    | none => exact hk
    | some id => exact (length_modifyProof _).trans hk

/-- What was written down stays. -/
theorem Course.log (h : Course L b s) : b.log <:+ s.log := by
  refine course_keep (I := fun s => b.log <:+ s.log) (fun hk hs => ?_)
    (fun r hk => hk.trans (List.suffix_append ..)) (fun r h hk => by rw [log_parted]; exact hk) h
    List.suffix_rfl
  cases hs with
  | remark | act => exact hk.trans (List.suffix_append ..)
  | tell => exact hk.trans (List.suffix_cons ..)
  | edit | hold | present | cancel | join | enlist | host | desk | clients | tasks => exact hk

theorem standing_modifyRunner {f : Hosted → Hosted} {k : RunnerId}
    (hd : (f (s.runner k)).standing = .dropped ↔ (s.runner k).standing = .dropped) :
    ((s.modifyRunner k f).runner r).standing = .dropped ↔ (s.runner r).standing = .dropped := by
  rcases runner_modifyRunner_cases (s := s) (r := k) (k := r) f with e | ⟨rfl, _, e⟩
  · rw [e]
  · rw [e]
    exact hd

theorem standing_stir (hr : r < s.runners.length) (hs : Stir L s s') :
    (s'.runner r).standing = .dropped ↔ (s.runner r).standing = .dropped := by
  cases hs with
  | enlist p settings => rw [runner_enlist_of_lt settings hr]
  | host k f _ hd => exact standing_modifyRunner hd
  | act k => exact standing_modifyRunner (f := fun x => { x with core := _ }) Iff.rfl
  | remark | tell | edit | hold | present | cancel | join | desk | clients | tasks => exact Iff.rfl

/-- **Nobody drops a runner, or takes up one that was dropped.** -/
theorem Course.standing (h : Course L b s) (hr : r < b.runners.length) :
    (s.runner r).standing = .dropped ↔ (b.runner r).standing = .dropped := by
  refine (course_keep (I := fun s => r < s.runners.length ∧
    ((s.runner r).standing = .dropped ↔ (b.runner r).standing = .dropped)) (fun hk hs => ?_)
    (fun {s} k hk => ⟨by rw [length_ended]; exact hk.1, ?_⟩)
    (fun {s} k h hk => ⟨by rw [length_parted]; exact hk.1, ?_⟩) h ⟨hr, Iff.rfl⟩).2
  · exact ⟨Nat.lt_of_lt_of_le hk.1 (Course.one hs).numbers.runners, (standing_stir hk.1 hs).trans hk.2⟩
  · rcases runner_ended (s := s) (r := k) r with e | ⟨_, _, e⟩ <;>
      · rw [e]
        exact hk.2
  · rcases runner_parted (s := s) (r := k) h r with e | e <;>
      · rw [e]
        exact hk.2

/-! ## 4. Steps that call nobody -/

/-- A fold keeps to the course if each turn does, in any session that the turns before can lead to. -/
theorem course_foldl {α : Type} {f : Session → α → Session} : ∀ (l : List α) {s : Session}, Mannered L s →
    (∀ x ∈ l, ∀ s', Mannered L s' → Course L s s' → Course L s' (f s' x)) → Course L s (l.foldl f s)
  | [], s, _, _ => .start s
  | x :: rest, s, hm, hf => by
      have hx : Course L s (f s x) := hf x List.mem_cons_self s hm (.start s)
      refine hx.trans (course_foldl rest (hx.mannered hm) fun y hy s' hm' h' => ?_)
      exact hf y (List.mem_cons_of_mem _ hy) s' hm' (hx.trans h')

theorem course_ite {c : Prop} [Decidable c] (h : Course L s s') : Course L s (if c then s' else s) := by
  split
  · exact h
  · exact .start s

theorem course_remark {e : Entry} (he : e.isAside = true) : Course L s (s.record e) :=
  .one (.remark [e] fun _ hm => List.mem_singleton.mp hm ▸ he)

theorem course_probed {es : List Entry} (he : ∀ e ∈ es, ∃ phase, e = .probed phase) :
    Course L s (s.recordAll es) := by
  refine .one (.remark es fun e hm => ?_)
  obtain ⟨_, rfl⟩ := he e hm
  rfl

theorem course_probe (busy : RunnerId) (activity : Activity) : Course L s (s.probe p busy activity) := by
  obtain ⟨es, hes, e⟩ := probe_eq (s := s) (p := p) busy activity
  rw [e]
  exact course_probed hes

/-- A proof tells of something that says nothing about being closed. -/
theorem course_tell (hp : L.tells p) {e : Entry} (he : e.teller? = some p) (hne : ∀ x, e ≠ .emitted p x) :
    Course L s (s.record e) := .one (.tell hp e he fun x hx => absurd hx (hne x))

theorem course_takeLaunch (mode : Mode) (goals : List Goal) :
    Course L s (s.takeLaunch r ((s.runner r).core.dispatchOpen mode goals)).2 := by
  have hs := Runner.acts_dispatchOpen (s.runner r).core mode goals
  have hc : ((s.runner r).core.dispatchOpen mode goals).2.closed = (s.runner r).core.closed :=
    Runner.dispatchOpen_closed
  unfold takeLaunch
  cases hl : ((s.runner r).core.dispatchOpen mode goals).1 with
  | none =>
      rw [hl] at hs
      exact .one (.act r s.tasks hs hc)
  | some launch =>
      rw [hl] at hs
      exact .one (.act r _ hs hc)

theorem course_dispatchOpen (mode : Mode) : Course L s (s.dispatchOpen r mode).2 := by
  unfold dispatchOpen
  simp only
  split
  · have h1 := course_takeLaunch (L := L) (s := s.probe (s.runner r).proof r .dispatching) (r := r) mode
      (s.proof (s.runner r).proof).openGoals
    rw [runner_probe] at h1
    rw [proof_probe]
    exact (course_probe r .dispatching).trans h1
  · exact .start s

/-- A change of a runner that neither ends it nor leaves a mark. -/
theorem course_tune {core : Runner} (h : (s.runner r).core.Act [] core)
    (hc : core.closed = (s.runner r).core.closed) : Course L s (s.setCore r core) :=
  .one (.act r s.tasks (.one h) hc)

theorem course_autoStarted : Course L s (s.autoStarted r) := by
  refine course_tune .suspend ?_
  unfold Runner.suspend
  split <;> rfl

theorem course_autoStopped : Course L s (s.autoStopped r).2 := by
  refine (course_tune .unsuspend ?_).trans (course_dispatchOpen .fresh)
  unfold Runner.unsuspend
  split <;> rfl

theorem course_setSolvers (solvers : SolverSet) : Course L s (s.setSolvers r solvers).2 :=
  (course_tune (.setSolvers solvers) rfl).trans (course_dispatchOpen .retry)

theorem course_giveUp {result : List BatchId × Runner}
    (h : (s.runner r).core.Act (result.1.map .stopped).reverse result.2)
    (hc : result.2.closed = (s.runner r).core.closed) : Course L s (s.giveUp r result) := by
  have hlog : (result.1.map (Entry.stopped r)).reverse =
      (result.1.map Deed.stopped).reverse.map (Deed.entry r) := by
    rw [List.map_reverse, List.map_map]
    rfl
  have h1 : Course L s _ := .one (.act r (s.giveUp r result).tasks (.one h) hc)
  rw [← hlog] at h1
  exact h1

theorem course_stopAll : Course L s (s.stopAll r) := course_giveUp .stopAll rfl

theorem course_refreshSettings (settings : Settings) : Course L s (s.refreshSettings r settings) :=
  course_giveUp (.refresh settings) rfl

theorem course_wake : Course L s (s.wake r) := .one (.tasks _)

theorem course_pauseEvents (hp : L.tells p) : Course L s (s.pauseEvents p) := .one (.hold hp _ fun _ => rfl)

/-- Sinks that were shown one event more react as before. -/
theorem react_modify (sinks : List ClientSink) (k : SinkId) {f : ClientSink → ClientSink}
    (hf : ∀ c, (f c).react = c.react) :
    (sinks.modify k f).map ClientSink.react = sinks.map ClientSink.react := by
  refine List.ext_getElem? fun i => ?_
  rw [List.getElem?_map, List.getElem?_modify, List.getElem?_map]
  cases sinks[i]? with
  | none => rfl
  | some c =>
      simp only [Option.map_eq_map, Option.map_some]
      split
      · rw [hf]
      · rfl

theorem course_dispose (hm : Mannered L s) (l : ListenerId) : Course L s (s.dispose l) := by
  unfold dispose
  split
  · exact .start s
  · have h : Course L s { s with listeners := s.listeners.modify l fun x => { x with held := false } } := by
      refine .one (.clients rfl fun y hy => ?_)
      obtain ⟨i, hi⟩ := List.getElem?_of_mem hy
      rw [List.getElem?_modify] at hi
      obtain ⟨z, hz, rfl⟩ := Option.map_eq_some_iff.mp hi
      have hcalls := hm.listener z (List.mem_of_getElem? hz)
      split <;> exact hcalls
    simp only
    split
    · split
      · exact h.more (.host _ _ (fun _ => ⟨rfl, rfl, rfl⟩) Iff.rfl)
      · exact h.more (.desk _)
    · exact h

theorem course_retire : Course L s (s.retire p) := by
  unfold retire
  split
  · exact .start s
  · exact course_ite (.one (.desk _))

theorem course_lookUp (n : NodeId) : Course L s (s.lookUp n) := by
  unfold lookUp
  split
  · exact .start s
  · exact course_ite (course_probe _ _)

/-! ## 5. News of a change -/

/-- **Calls from inside keep to the course**, if clients may ask for them. -/
def Obliging (L : Leave) (again : Again) : Prop :=
  ∀ call s, L.calls call → Mannered L s → Course L s (again call s)

section Calls

variable {again : Again}

/-- The end of a runner in its two parts. -/
theorem close_eq (again : Again) (hopen : (s.runner r).core.closed = false) :
    close again s r = (notifyRunner again (s.ended r) r).parted r (s.runner r) := by
  unfold close
  simp only [hopen, Bool.false_eq_true, if_false]
  rfl

variable (ha : Obliging L again)

include ha

theorem course_calls {calls : List Call} (hm : Mannered L s) (hc : ∀ call ∈ calls, L.calls call) :
    Course L s (calls.foldl (fun s call => again call s) s) :=
  course_foldl calls hm fun call hcall s' hm' _ => ha call s' (hc call hcall) hm'

theorem course_callListener (hm : Mannered L s) (l : ListenerId) : Course L s (callListener again s l) := by
  unfold callListener
  split
  · exact .start s
  · rename_i x hx
    have h : Course L s (s.record (.notified l (s.view x.home))) := course_remark rfl
    exact h.trans (course_calls ha (h.mannered hm) (hm.listener x (List.mem_of_getElem? hx)))

theorem course_notifyObservers (hm : Mannered L s) : Course L s (notifyObservers again s) :=
  course_foldl _ hm fun l _ _ hm' _ => course_callListener ha hm' l

theorem course_callTarget (hm : Mannered L s) (x : Target) : Course L s (callTarget again s x) := by
  cases x with
  | registry p => exact course_retire.trans (course_notifyObservers ha (course_retire.mannered hm))
  | client l => exact course_callListener ha hm l

theorem course_notifyRunner (hm : Mannered L s) : Course L s (notifyRunner again s r) :=
  course_foldl _ hm fun x _ _ hm' _ => course_callTarget ha hm' x

theorem course_close (hm : Mannered L s) : Course L s (close again s r) := by
  cases hopen : (s.runner r).core.closed with
  | true =>
      unfold close
      simp only [hopen, if_true]
      exact .start s
  | false =>
      rw [close_eq again hopen]
      exact (Course.start s).close hopen (course_notifyRunner ha ⟨hm.sink, hm.listener⟩)

theorem course_treeChanged (hm : Mannered L s) : Course L s (treeChanged again s r).2 := by
  unfold treeChanged
  split
  · exact .start s
  · exact (course_notifyRunner ha hm).trans (course_dispatchOpen .fresh)

theorem course_complete (hm : Mannered L s) (batch : BatchId) (outcomes : List Outcome) :
    Course L s (complete again s r batch outcomes) := by
  obtain ⟨es, hes, hc⟩ := session_complete_cases again s r batch outcomes
  have h0 : Course L s (s.recordAll es) := course_probed hes
  rcases hc with ⟨_, e⟩ | ⟨core, hcore, e⟩
  · rw [e]
    exact h0
  · have hclosed : core.closed = (s.runner r).core.closed := by
      obtain ⟨_, rfl⟩ := Runner.complete_cases.mp hcore
      rfl
    have h1 : Course L s (((s.recordAll es).setCore r core).record (.completed r batch outcomes)) :=
      h0.more (.act (s := s.recordAll es) r s.tasks (.one (.complete hcore)) hclosed)
    have h2 := h1.trans (course_notifyRunner (r := r) ha (h1.mannered hm))
    rw [e]
    split
    · exact h2.trans course_wake
    · exact h2

/-! ## 6. Events -/

theorem course_handleEvent (hm : Mannered L s) (e : Event) : Course L s (handleEvent again s r e) := by
  cases e with
  | ruleApplied goals => exact course_takeLaunch .fresh goals
  | autoModeStarted => exact course_autoStarted
  | autoModeStopped => exact course_autoStopped
  | treeStructureChanged => exact course_treeChanged ha hm
  | proofClosed => exact course_close ha hm

/-- **What being shown an event leads to**: a runner takes it in, a polite sink asks for what it may. -/
theorem course_shown (hm : Mannered L s) (e : Event) {x : Subscriber}
    (hx : ∀ k, x.sink = .client k → Polite L s p k) :
    Course L (s.record (.shown p x.id e)) (showTo again p e s x) := by
  have hm' : Mannered L (s.record (.shown p x.id e)) := ⟨hm.sink, hm.listener⟩
  unfold showTo
  cases hk : x.sink with
  | runner r => exact course_handleEvent ha hm' e
  | client k =>
      obtain ⟨c, hc, hcalls⟩ := hx k hk
      have hc' : (s.record (.shown p x.id e)).sinks[k]? = some c := hc
      simp only [hc']
      have h1 : Course L (s.record (.shown p x.id e)) { s.record (.shown p x.id e) with
          sinks := s.sinks.modify k fun c => { c with shown := c.shown + 1 } } :=
        .one (.clients (react_modify _ k fun _ => rfl) hm.listener)
      refine h1.trans (course_foldl _ (h1.mannered hm') fun call hcall s' hm' _ => ha _ s' ?_ hm')
      exact hcalls _ _ call hcall

theorem course_showTo (hp : L.tells p) (hm : Mannered L s) (e : Event) {x : Subscriber}
    (hx : ∀ k, x.sink = .client k → Polite L s p k) : Course L s (showTo again p e s x) :=
  (course_tell hp rfl fun _ e => by cases e).trans (course_shown ha hm e hx)

theorem course_deliver (hp : L.tells p) (hm : Mannered L s) (e : Event) :
    Course L s (deliver again p s e) := by
  have h0 : Course L s (s.record (.delivered p e (s.proof p).paused
      ((s.proof p).subscribers.map Subscriber.id))) := course_tell hp rfl fun _ e => by cases e
  refine h0.trans (course_foldl _ (h0.mannered hm) fun x hx s' hm' h' => ?_)
  exact course_showTo ha hp hm' e fun k hk => (h0.trans h').polite (hm.sink p x hx k hk)

/-- What has been written down is told or held back. -/
theorem course_emitted (hp : L.tells p) (hm : Mannered L s) (e : Event) :
    Course L (s.record (.emitted p e)) (emit again s p e) := by
  unfold emit
  simp only
  split
  · exact .one (.hold hp _ fun _ => rfl)
  · exact course_deliver (s := s.record (.emitted p e)) ha hp ⟨hm.sink, hm.listener⟩ e

theorem course_emit (hp : L.tells p) (hm : Mannered L s) {e : Event} (he : e.verdict? = none ∨ L.edits p) :
    Course L s (emit again s p e) := by
  refine Course.trans (.one (.tell hp (.emitted p e) rfl fun x hx => ?_)) (course_emitted ha hp hm e)
  cases hx
  exact he

theorem course_resumeEvents (hp : L.tells p) (hm : Mannered L s) : Course L s (resumeEvents again s p) := by
  unfold resumeEvents
  simp only
  split
  · exact .one (.hold hp _ fun _ => rfl)
  · have h0 : Course L s (s.modifyProof p fun w => { w with paused := 0, held := [] }) :=
      .one (.hold hp _ fun _ => rfl)
    exact h0.trans (course_foldl _ (h0.mannered hm) fun e _ _ hm' _ => course_deliver ha hp hm' e)

/-! ## 7. Changes of a proof -/

theorem course_applyRule (hp : L.edits p ∧ L.tells p) (hm : Mannered L s) (n : NodeId) (rule : String)
    (new : List Sequent) : Course L s (applyRule again s p n rule new).2 := by
  unfold applyRule
  split
  · exact .start s
  · rename_i goals tree _
    have h0 : Course L s (s.setTree p tree) := .one (.edit hp.1 tree)
    have h1 := h0.trans (course_emit ha hp.2 (h0.mannered hm) (e := .ruleApplied goals) (Or.inr hp.1))
    simp only
    split
    · exact h1.trans (course_emit ha hp.2 (h1.mannered hm) (Or.inr hp.1))
    · exact h1

theorem course_prune (hp : L.edits p ∧ L.tells p) (hm : Mannered L s) (n : NodeId) :
    Course L s (prune again s p n).2 := by
  unfold prune
  split
  · exact .start s
  · rename_i tree _
    have h0 : Course L s (s.setTree p tree) := .one (.edit hp.1 tree)
    exact h0.trans (course_emit ha hp.2 (h0.mannered hm) (Or.inr hp.1))

theorem course_proofCall {call : ProofCall} (hp : L.Grants p call) (hm : Mannered L s) :
    Course L s (proofCall again s p call) := by
  cases call with
  | applyRule n rule new => exact course_applyRule ha hp hm n rule new
  | prune n => exact course_prune ha hp hm n
  | startAuto | stopAuto => exact course_emit ha hp hm (Or.inl rfl)
  | pause => exact course_pauseEvents hp
  | resume => exact course_resumeEvents ha hp hm
  | unsubscribe id => exact .one (.cancel hp)

omit ha in
/-- **Applying a result asks the active proof for a pause, a rule, at most a cut before it, and the end of the
    pause.** Something else may hold between the pause and its end. -/
theorem applyResult_within {I : Session → Prop} {P : ProofId → Prop} {J : ProofId → Session → Prop} {n : NodeId}
    (hP : ∀ r, s.registry.activeRunner? = some r → P (s.runner r).proof)
    (hpause : ∀ p t, P p → I t → J p (t.pauseEvents p)) (hprune : ∀ p t, P p → J p t → J p (prune again t p n).2)
    (hrule : ∀ p t m title, P p → J p t → J p (applyRule again t p m (Tree.smtRule title) []).2)
    (hresume : ∀ p t, P p → J p t → I (resumeEvents again t p)) (h : I (s.lookUp n)) :
    I (applyResult again s n).2 := by
  unfold applyResult
  simp only
  split
  · rename_i r _ hr
    have hp := hP r hr
    generalize (s.runner r).proof = p at hp
    have h1 : J p ((s.lookUp n).pauseEvents p) := hpause p _ hp h
    have h2 : J p (ensureGoal again ((s.lookUp n).pauseEvents p) p n).2 := by
      unfold ensureGoal
      simp only
      split
      · exact h1
      · split
        · exact h1
        · exact hprune p _ hp h1
    cases he : ensureGoal again ((s.lookUp n).pauseEvents p) p n with
    | mk result t =>
        rw [he] at h2
        cases result with
        | error e => exact hresume p _ hp h2
        | ok _ =>
            have h3 : J p (closeGoal again t p n).2 := by
              unfold closeGoal
              simp only
              split
              · exact h2
              · exact h2
              · exact hrule p _ _ _ hp h2
            have h4 : I (resumeEvents again (closeGoal again t p n).2 p) := hresume p _ hp h3
            simp only
            split <;> exact h4
  · exact h

omit ha in
/-- What a pause, a rule, a cut and the end of the pause keep, applying a result keeps. -/
theorem applyResult_keep {I : Session → Prop} {n : NodeId}
    (hcall : ∀ r, s.registry.activeRunner? = some r → ∀ t call, (∀ id, call ≠ .unsubscribe id) → I t →
      I (proofCall again t (s.runner r).proof call))
    (h : I (s.lookUp n)) : I (applyResult again s n).2 := by
  have hproof : ∀ p, (∃ r, s.registry.activeRunner? = some r ∧ (s.runner r).proof = p) → ∀ t call,
      (∀ id, call ≠ .unsubscribe id) → I t → I (proofCall again t p call) := by
    rintro p ⟨r, hr, rfl⟩
    exact hcall r hr
  exact applyResult_within (J := fun _ => I) (fun r hr => ⟨r, hr, rfl⟩)
    (fun p t hp => hproof p hp t .pause fun _ e => by cases e)
    (fun p t hp => hproof p hp t (.prune n) fun _ e => by cases e)
    (fun p t m _ hp => hproof p hp t (.applyRule m _ []) fun _ e => by cases e)
    (fun p t hp => hproof p hp t .resume fun _ e => by cases e) h

theorem course_applyResult (hm : Mannered L s) (n : NodeId)
    (hp : ∀ r, s.registry.activeRunner? = some r → L.edits (s.runner r).proof ∧ L.tells (s.runner r).proof) :
    Course L s (applyResult again s n).2 := by
  refine applyResult_keep (I := Course L s) (fun r hr t call hc h => ?_) (course_lookUp n)
  refine h.trans (course_proofCall ha ?_ (h.mannered hm))
  cases call with
  | unsubscribe id => exact absurd rfl (hc id)
  | applyRule | prune => exact hp r hr
  | startAuto | stopAuto | pause | resume => exact (hp r hr).2

theorem course_applyAny (hp : ∀ p, L.edits p ∧ L.tells p) : ∀ (nodes : List NodeId) {s : Session},
    Mannered L s → Course L s (applyAny again s nodes)
  | [], s, _ => .start s
  | n :: rest, s, hm => by
      have h0 : Course L s (applyResult again s n).2 := course_applyResult ha hm n fun _ _ => hp _
      unfold applyAny
      split
      · rename_i t e
        rw [e] at h0
        exact h0
      · rename_i t _ e
        rw [e] at h0
        exact h0.trans (course_applyAny hp rest (h0.mannered hm))

theorem course_execute (hL : L.Coherent) {call : Call} (hc : L.calls call) (hm : Mannered L s) :
    Course L s (execute again call s) := by
  cases call with
  | proof p c => exact course_proofCall ha (hL.proof hc) hm
  | dispatch r => exact course_ite (course_dispatchOpen .fresh)
  | resume r => exact course_ite (course_dispatchOpen .retry)
  | stop r => exact course_ite course_stopAll
  | shutdown r => exact course_ite (course_close ha hm)
  | applyFirst =>
      simp only [execute]
      split
      · exact course_applyAny ha (hL.first hc) _ hm
      · exact .start s
  | dispose l => exact course_dispose hm l

end Calls

/-- **Calls nested to any depth keep to the course.** -/
theorem obliging_perform (hL : L.Coherent) : ∀ depth, Obliging L (perform depth)
  | 0 => fun _ s _ _ => .start s
  | depth + 1 => fun _ _ hc hm => course_execute (obliging_perform hL depth) hL hc hm

/-! ## 8. Selecting proofs -/

theorem course_leaveActive : Course L s (s.leaveActive p) := by
  unfold leaveActive
  split
  · exact .start s
  · split
    · exact course_stopAll
    · exact .start s

theorem course_addTarget (target : Target) : Course L s (s.addTarget r target) :=
  .one (.host r _ (fun _ => ⟨rfl, rfl, rfl⟩) Iff.rfl)

/-- Somebody keeps a runner that was not dropped. -/
theorem course_held (hd : (s.runner r).standing ≠ .dropped) : Course L s (s.setStanding r .held) :=
  .one (.host r _ (fun _ => ⟨rfl, rfl, rfl⟩) ⟨fun e => (by cases e), fun e => absurd e hd⟩)

theorem course_addListener (hm : Mannered L s) (home : Home) {calls : ListenerId → List Call}
    (hc : ∀ l, ∀ call ∈ calls l, L.calls call) : Course L s (s.addListener home calls) := by
  have hnew : ∀ slot, ∀ x ∈ s.listeners ++ [{ home, slot, held := true, calls := calls s.listeners.length }],
      ∀ call ∈ x.calls, L.calls call := by
    intro slot x hx
    rcases List.mem_append.mp hx with hx | hx
    · exact hm.listener x hx
    · rw [List.mem_singleton.mp hx]
      exact hc _
  unfold addListener
  cases home with
  | runner r => exact (Course.one (.clients rfl (hnew _))).trans (course_addTarget _)
  | registry => exact (Course.one (.clients rfl (hnew _))).more (.desk _)

section Selection

variable {again : Again} (ha : Obliging L again)

include ha

/-- A candidate that was not dropped is registered, or closed. -/
theorem course_register (hm : Mannered L s) (hd : (s.runner r).standing ≠ .dropped) :
    Course L s (register again s p r).2 := by
  have h0 : Course L s (s.addTarget r (.registry p)) := course_addTarget _
  unfold register
  simp only
  split
  · exact h0.trans (course_close ha (h0.mannered hm))
  · have hd' : ((s.addTarget r (.registry p)).runner r).standing ≠ .dropped := fun e =>
      hd ((standing_modifyRunner Iff.rfl).mp e)
    exact (h0.trans (course_held hd')).more (.desk _)

theorem course_activate (hm : Mannered L s) (mode : Mode) : Course L s (activate again s p r mode).2 := by
  have h0 : Course L s { s with registry := { s.registry with active := some p } } := .one (.desk _)
  have h1 := h0.trans (course_dispatchOpen (r := r) mode)
  exact h1.trans (course_notifyObservers ha (h1.mannered hm))

theorem course_selectWith (hm : Mannered L s) {during : Session → Session}
    (hd : ∀ s', Mannered L s' → Course L s' (during s')) :
    Course L s (selectWith again during s p).2 := by
  have h0 : Course L s (s.leaveActive p) := course_leaveActive
  unfold selectWith
  simp only
  split
  · exact h0.trans (course_activate ha (h0.mannered hm) _)
  · have h1 : Course L s ((s.leaveActive p).enlist p s.registry.settings).2 := h0.more (.enlist p _)
    have h2 := hd _ (h1.mannered hm)
    have hl : (s.leaveActive p).runners.length <
        ((s.leaveActive p).enlist p s.registry.settings).2.runners.length := by
      rw [length_enlist]
      exact Nat.lt_succ_self _
    -- the candidate is the runner that was just made, and nobody drops one
    have hkept : ((during ((s.leaveActive p).enlist p s.registry.settings).2).runner
        (s.leaveActive p).runners.length).standing ≠ .dropped := by
      rw [ne_eq, h2.standing hl, runner_enlist_self]
      exact fun e => by cases e
    have h3 := (h1.trans h2).trans (course_register (p := p) ha ((h1.trans h2).mannered hm) hkept)
    exact h3.trans (course_activate ha (h3.mannered hm) .fresh)

theorem course_afterSubscribe (hm : Mannered L s) : Course L s (afterSubscribe again p s) := by
  unfold afterSubscribe
  split
  · have h0 : Course L s (s.modifyProof p fun w =>
        { w with facade := { w.facade with selectOnSubscribe := false } }) :=
      .one (.present p _ fun _ => rfl)
    exact h0.trans (course_selectWith ha (h0.mannered hm) fun s' _ => .start s')
  · exact .start s

theorem course_select (hm : Mannered L s) : Course L s (select again s p).2 :=
  course_selectWith ha hm fun _ hm' => course_afterSubscribe ha hm'

theorem course_newRunner (hm : Mannered L s) (settings : Settings) :
    Course L s (newRunner again s p settings).2 := by
  have h0 : Course L s (s.enlist p settings).2 := .one (.enlist p settings)
  have h1 : Course L _ (afterSubscribe again p (s.enlist p settings).2) :=
    course_afterSubscribe ha (h0.mannered hm)
  have hl : s.runners.length < (s.enlist p settings).2.runners.length := by
    rw [length_enlist]
    exact Nat.lt_succ_self _
  refine (h0.trans h1).trans (course_held ?_)
  rw [ne_eq, h1.standing hl]
  exact fun e => by rw [runner_enlist_self] at e; cases e

theorem course_refreshAll (hm : Mannered L s) (settings : Settings) :
    Course L s (refreshAll again s settings) := by
  have h0 : Course L s { s with registry := { s.registry with settings } } := .one (.desk _)
  have h1 := h0.trans (course_foldl (f := fun s e => s.refreshSettings e.2 settings)
    s.registry.entries (h0.mannered hm) fun _ _ _ _ _ => course_refreshSettings settings)
  unfold refreshAll
  simp only
  split
  · rename_i r _
    have h2 := h1.trans (course_dispatchOpen (r := r) .fresh)
    exact h2.trans (course_notifyObservers ha (h2.mannered hm))
  · exact h1.trans (course_notifyObservers ha (h1.mannered hm))

theorem course_shutdownAll (hm : Mannered L s) : Course L s (shutdownAll again s) := by
  have h0 : Course L s { s with registry := { s.registry with active := none, entries := [] } } :=
    .one (.desk _)
  have h1 := h0.trans (course_foldl (f := fun s e => close again s e.2) s.registry.entries
    (h0.mannered hm) fun _ _ _ hm' _ => course_close ha hm')
  exact h1.trans (course_notifyObservers ha (h1.mannered hm))

/-! ## 9. Moves -/

theorem course_runnerCall (hm : Mannered L s) (call : RunnerCall) :
    Course L s (runnerCall again s r call).2 := by
  cases call with
  | dispatch => exact course_dispatchOpen .fresh
  | resume => exact course_dispatchOpen .retry
  | ruleApplied goals => exact course_takeLaunch .fresh goals
  | autoStarted => exact course_autoStarted
  | autoStopped => exact course_autoStopped
  | treeChanged => exact course_treeChanged ha hm
  | close => exact course_close ha hm
  | completed batch outcomes => exact course_complete ha hm batch outcomes
  | refresh settings => exact course_refreshSettings settings
  | setSolvers solvers => exact course_setSolvers solvers
  | stopAll => exact course_stopAll

end Selection

/-- Clients that come in with the move ask for nothing but what they may. -/
def Heeds (L : Leave) : Move → Prop
  | .listen _ calls => ∀ l, ∀ call ∈ calls l, L.calls call
  | .subscribe p react => ∀ i e, ∀ call ∈ react i e, L.calls (.proof p call)
  | _ => True

/-- What the move does to proofs may come of it, when it starts from the given session. -/
def Allows (L : Leave) (s : Session) : Move → Prop
  | .applyResult _ => ∀ r, s.registry.activeRunner? = some r →
    L.edits (s.runner r).proof ∧ L.tells (s.runner r).proof
  | .proof p call => L.Grants p call
  | .subscribe p _ => L.joins p
  | .present p .. => L.edits p
  | _ => True

/-- **A move keeps to the course.** -/
theorem course_move {again : Again} (ha : Obliging L again) (hm : Mannered L s) {m : Move} (hh : Heeds L m)
    (hw : Allows L s m) : Course L s (move again s m) := by
  cases m with
  | select p => exact course_select ha hm
  | applyResult n => exact course_applyResult ha hm n hw
  | refreshAll settings => exact course_refreshAll ha hm settings
  | shutdownAll => exact course_shutdownAll ha hm
  | proof p call => exact course_proofCall ha hw hm
  | newRunner p settings => exact course_newRunner ha hm settings
  | runner r call => exact course_runnerCall ha hm call
  | finish o outcomes =>
      have h0 : Course L s { s with tasks := s.tasks.erase (.launch o) } := .one (.tasks _)
      exact course_ite (h0.trans (course_complete ha (h0.mannered hm) _ outcomes))
  | listen home calls => exact course_addListener hm home hh
  | subscribe p react => exact .one (.join hw hh)
  | dispose l => exact course_dispose hm l
  | present p tree facade =>
      have h0 : Course L s (s.setTree p tree) := .one (.edit hw tree)
      have h1 := h0.more (.present p (fun w => { w with facade }) fun _ => rfl)
      rw [setTree, modifyProof_modifyProof] at h1
      exact h1

/-! ## 10. New sessions -/

theorem mannered_start (proofs : List (String × Tree)) (settings : Settings) :
    Mannered L (start proofs settings) where
  sink p x hx := by
    rw [(proof_start proofs settings p).1] at hx
    exact absurd hx List.not_mem_nil
  listener _ hx := absurd hx List.not_mem_nil

theorem ranked_start (proofs : List (String × Tree)) (settings : Settings) (p : ProofId) :
    ((start proofs settings).proof p).Ranked where
  order := by
    rw [(proof_start proofs settings p).1]
    exact List.Pairwise.nil
  below x hx := by
    rw [(proof_start proofs settings p).1] at hx
    exact absurd hx List.not_mem_nil

end Session

end GoalWatch
