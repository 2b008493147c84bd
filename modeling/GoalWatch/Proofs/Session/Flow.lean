import GoalWatch.Proofs.Runner.Tending
import GoalWatch.Proofs.Session.Run

/-!
# The flow of a session

What goes on in a session, in steps that say what they lead to. Settings change, proofs are replaced and selected
by hand only; so does the end of automatic mode come to a runner, unless it is shown that event. Whoever is shown
an event is known from before or came later, and a runner is registered with the settings of the registry.

* `Runner.Stint` -- what happens to a runner of itself, with its marks;
* `Intervention`, `Session.intervene` -- what is done by hand;
* `Session.Known` -- a subscriber from before, or a later one;
* `Session.Beat` -- one step, `Session.Flow` -- any number of them since a given session;
* `Flow.numbers`, `Flow.sameSettings`, `Flow.active` -- who is subscribed, which settings there are and which
  proof is the active one, at any moment;
* `flow_deliver`, `flow_applyResult`, `flow_select`, … -- one statement for each function;
* `steady_perform` -- calls nested to any depth keep to the flow;
* **`flow_move`**, **`flow_run`** -- so does every move, with nothing done by hand but what `Move.needs` says.
-/

namespace GoalWatch

/-- The entry that tells of a mark of a runner. -/
def Deed.entry (r : RunnerId) : Deed → Entry
  | .launched launch => .requested r launch
  | .completed batch outcomes => .completed r batch outcomes
  | .stopped batch => .stopped r batch

/-- The entry tells of no mark of a runner, and of nobody who is shown something. -/
def Entry.isNote : Entry → Bool
  | .emitted .. | .delivered .. | .notified .. | .probed _ => true
  | .shown .. | .requested .. | .started .. | .completed .. | .stopped .. => false

/-- **What happens to a runner** unless someone changes its settings or takes it out of automatic mode, with the
    marks that it leaves. -/
inductive Runner.Stint (c : Runner) : List Deed → Runner → Prop where
  | dispatch (mode : Mode) (goals : List Goal) :
      Stint c ((c.dispatchOpen mode goals).1.toList.map .launched) (c.dispatchOpen mode goals).2
  | suspend : Stint c [] c.suspend
  | complete {found kept : NodeId → Bool} {batch : BatchId} {outcomes : List Outcome} {c' : Runner}
      (h : c.complete found kept batch outcomes = some c') : Stint c [.completed batch outcomes] c'
  | stopAll : Stint c (c.stopAll.1.map .stopped).reverse c.stopAll.2
  | close : Stint c (c.close.1.map .stopped).reverse c.close.2

theorem Runner.Stint.settings {c c' : Runner} {ds : List Deed} (h : c.Stint ds c') :
    c'.settings = c.settings := by
  cases h with
  | dispatch mode goals => exact Runner.dispatchOpen_settings
  | suspend =>
      unfold Runner.suspend
      split <;> rfl
  | complete h =>
      obtain ⟨_, rfl⟩ := Runner.complete_cases.mp h
      rfl
  | stopAll => rfl
  | close =>
      unfold Runner.close
      split <;> rfl

/-- A proof is looked at differently: its subscribers are some of those before, and it asks for a selection at
    most if it did before. -/
structure Watched.Stays (w w' : Watched) : Prop where
  subscribers : w'.subscribers.Sublist w.subscribers
  next : w'.nextSubscription = w.nextSubscription
  facade : w'.facade = w.facade ∨ w'.facade = { w.facade with selectOnSubscribe := false }

/-- **Subscribers of a proof have different numbers**, all of them below the next. -/
structure Watched.Numbered (w : Watched) : Prop where
  nodup : (w.subscribers.map Subscriber.id).Nodup
  below : ∀ x ∈ w.subscribers, x.id < w.nextSubscription

theorem Watched.Numbered.stays {w w' : Watched} (h : w.Numbered) (hs : w.Stays w') : w'.Numbered where
  nodup := (hs.subscribers.map Subscriber.id).nodup h.nodup
  below x hx := by
    rw [hs.next]
    exact h.below x (hs.subscribers.subset hx)

theorem Watched.Numbered.addSubscriber {w : Watched} (h : w.Numbered) (sink : Sink) :
    (w.addSubscriber sink).Numbered where
  nodup := by
    show ((w.subscribers ++ [({ id := w.nextSubscription, sink } : Subscriber)]).map Subscriber.id).Nodup
    rw [List.map_append]
    refine List.Nodup.append h.nodup (List.nodup_singleton _) fun id hid hid' => ?_
    obtain ⟨x, hx, rfl⟩ := List.mem_map.mp hid
    exact absurd (h.below x hx) (by rw [List.mem_singleton.mp hid']; exact Nat.lt_irrefl _)
  below x hx := by
    show x.id < w.nextSubscription + 1
    rcases List.mem_append.mp hx with hx | hx
    · exact Nat.lt_succ_of_lt (h.below x hx)
    · rw [List.mem_singleton.mp hx]
      exact Nat.lt_succ_self _

/-- What is done to a session by hand. -/
inductive Intervention where
  | settings (chosen : Settings)
  | refresh (r : RunnerId) (chosen : Settings)
  | setSolvers (r : RunnerId) (solvers : SolverSet)
  | unsuspend (r : RunnerId)
  | present (p : ProofId) (tree : Tree) (facade : Facade)
  | activate (p : ProofId)

/-- No settings change. -/
def Intervention.keepsSettings : Intervention → Bool
  | .settings _ | .refresh .. | .setSolvers .. => false
  | .unsuspend _ | .present .. | .activate _ => true

namespace Session

/-! ## 1. Steps -/

def intervene (s : Session) : Intervention → Session
  | .settings chosen => { s with registry := { s.registry with settings := chosen } }
  | .refresh r chosen => s.refreshSettings r chosen
  | .setSolvers r solvers => s.setCore r ((s.runner r).core.setSolvers solvers)
  | .unsuspend r => s.setCore r (s.runner r).core.unsuspend
  | .present p tree facade => s.modifyProof p fun w => { w with tree, facade }
  | .activate p => { s with registry := { s.registry with active := some p } }

/-- **A subscriber that was there, or one that came later**: then its number is a later one, and it is no
    runner that was there. -/
def Known (b : Session) (p : ProofId) (x : Subscriber) : Prop :=
  x ∈ (b.proof p).subscribers ∨
    (b.proof p).nextSubscription ≤ x.id ∧ ∀ r, x.sink = .runner r → b.runners.length ≤ r

/-- What being shown an event does to a runner at once. -/
def heed (s : Session) : Sink → Event → Session
  | .runner r, .autoModeStarted => s.setCore r (s.runner r).core.suspend
  | .runner r, .autoModeStopped => s.setCore r (s.runner r).core.unsuspend
  | _, _ => s

/-- **One step of the flow** since `b`, if it is by hand one of those allowed. -/
inductive Beat (A : Intervention → Prop) (b s : Session) : Session → Prop where
  | note (es : List Entry) (h : ∀ e ∈ es, e.isNote = true) : Beat A b s (s.recordAll es)
  | shown {p : ProofId} {x : Subscriber} (h : Known b p x) (e : Event) :
      Beat A b s ((s.record (.shown p x.id e)).heed x.sink e)
  | watch (p : ProofId) (f : Watched → Watched) (h : ∀ w : Watched, w.Stays (f w)) : Beat A b s (s.modifyProof p f)
  | subscribe (p : ProofId) (k : SinkId) : Beat A b s (s.modifyProof p (Watched.addSubscriber (.client k)))
  | enlist (p : ProofId) (settings : Settings) : Beat A b s (s.enlist p settings).2
  | host (r : RunnerId) (f : Hosted → Hosted) (h : ∀ x, (f x).core = x.core) :
      Beat A b s (s.modifyRunner r f)
  /-- Something happens to a runner, and its marks are written down. -/
  | act (r : RunnerId) {ds : List Deed} {core : Runner} (tasks : List Task)
      (h : (s.runner r).core.Stint ds core) :
      Beat A b s { s.setCore r core with log := ds.map (Deed.entry r) ++ s.log, tasks }
  /-- The registry keeps its settings and gets no new runner, and no other proof becomes the active one. -/
  | desk (g : Registry) (hs : g.settings = s.registry.settings)
      (ha : g.active = s.registry.active ∨ g.active = none)
      (he : ∀ e ∈ g.entries, e ∈ s.registry.entries) : Beat A b s { s with registry := g }
  /-- A new runner with the settings of the registry is registered. -/
  | enrol (p : ProofId) {r : RunnerId} (hb : b.runners.length ≤ r) (hr : r < s.runners.length)
      (hs : (s.runner r).core.settings = s.registry.settings) :
      Beat A b s { s with registry := { s.registry with entries := s.registry.entries ++ [(p, r)] } }
  | clients (sinks : List ClientSink) (listeners : List Listener) : Beat A b s { s with sinks, listeners }
  | tasks (ts : List Task) : Beat A b s { s with tasks := ts }
  | byHand {i : Intervention} (h : A i) : Beat A b s (s.intervene i)

/-- **What went on since `b`.** -/
inductive Flow (A : Intervention → Prop) (b : Session) : Session → Prop where
  | start : Flow A b b
  | more {s s' : Session} (h : Flow A b s) (hs : Beat A b s s') : Flow A b s'

variable {A : Intervention → Prop} {b s s' s'' : Session} {p q : ProofId} {r : RunnerId} {x : Subscriber}

/-- What every step keeps, the flow keeps. -/
theorem flow_keep {I : Session → Prop} (hI : ∀ {s s'}, Flow A b s → I s → Beat A b s s' → I s') (h0 : I b)
    (h : Flow A b s) : I s := by
  induction h with
  | start => exact h0
  | more h hs ih => exact hI h ih hs

theorem core_setCore_of_ne {k : RunnerId} (core : Runner) (h : r ≠ k) :
    ((s.setCore k core).runner r).core = (s.runner r).core := by
  rw [setCore, runner_modifyRunner_of_ne _ h]

theorem core_setCore_self (core : Runner) (h : r < s.runners.length) :
    ((s.setCore r core).runner r).core = core := by
  rw [setCore, runner_modifyRunner_self _ h]

/-! ## 2. Subscribers -/

theorem proof_heed (sink : Sink) (e : Event) (q : ProofId) : (s.heed sink e).proof q = s.proof q := by
  unfold heed
  split <;> rfl

theorem length_heed (sink : Sink) (e : Event) : (s.heed sink e).runners.length = s.runners.length := by
  unfold heed
  split <;> simp [setCore]

/-- Subscribers are those that were there and later ones, and numbers are given in order. -/
structure Numbers (b s : Session) : Prop where
  runners : b.runners.length ≤ s.runners.length
  known : ∀ p, ∀ x ∈ (s.proof p).subscribers, Known b p x
  next : ∀ p, (b.proof p).nextSubscription ≤ (s.proof p).nextSubscription

theorem Numbers.refl (s : Session) : Numbers s s :=
  ⟨Nat.le_refl _, fun _ _ hx => Or.inl hx, fun _ => Nat.le_refl _⟩

theorem Numbers.trans (h : Numbers b s) (h' : Numbers s s') : Numbers b s' where
  runners := Nat.le_trans h.runners h'.runners
  known p x hx := by
    rcases h'.known p x hx with hold | ⟨hnew, hlate⟩
    · exact h.known p x hold
    · exact Or.inr ⟨Nat.le_trans (h.next p) hnew, fun r e => Nat.le_trans h.runners (hlate r e)⟩
  next p := Nat.le_trans (h.next p) (h'.next p)

theorem Numbers.same (h : Numbers b s) (hr : s'.runners.length = s.runners.length)
    (hp : ∀ q, s'.proof q = s.proof q) : Numbers b s' where
  runners := by rw [hr]; exact h.runners
  known q x hx := h.known q x (hp q ▸ hx)
  next q := by rw [hp]; exact h.next q

/-- A new subscriber gets the next number; a runner among them is a new one. -/
theorem Numbers.addSubscriber (h : Numbers b s) (sink : Sink) (hr : s.runners.length ≤ s'.runners.length)
    (hsink : ∀ r, sink = .runner r → s.runners.length ≤ r)
    (hp : ∀ q, s'.proof q = s.proof q ∨ s'.proof q = (s.proof q).addSubscriber sink) : Numbers b s' where
  runners := Nat.le_trans h.runners hr
  known q x hx := by
    rcases hp q with e | e
    · exact h.known q x (e ▸ hx)
    · rw [e] at hx
      rcases List.mem_append.mp hx with hx | hx
      · exact h.known q x hx
      · cases List.mem_singleton.mp hx
        exact Or.inr ⟨h.next q, fun r e => Nat.le_trans h.runners (hsink r e)⟩
  next q := by
    rcases hp q with e | e
    · rw [e]
      exact h.next q
    · rw [e]
      exact Nat.le_succ_of_le (h.next q)

theorem Numbers.modifyProof (h : Numbers b s) (p : ProofId) {f : Watched → Watched}
    (hf : ∀ w, (f w).subscribers.Sublist w.subscribers ∧ (f w).nextSubscription = w.nextSubscription) :
    Numbers b (s.modifyProof p f) where
  runners := h.runners
  known q x hx := by
    rcases proof_modifyProof_cases (s := s) (p := p) (q := q) f with e | ⟨_, _, e⟩
    · exact h.known q x (e ▸ hx)
    · rw [e] at hx
      exact h.known q x ((hf _).1.subset hx)
  next q := by
    rcases proof_modifyProof_cases (s := s) (p := p) (q := q) f with e | ⟨_, _, e⟩
    · rw [e]
      exact h.next q
    · rw [e, (hf _).2]
      exact h.next q

theorem numbers_intervene (h : Numbers b s) (i : Intervention) : Numbers b (s.intervene i) := by
  cases i with
  | settings | activate => exact h.same rfl fun _ => rfl
  | refresh | setSolvers | unsuspend => exact h.same (length_modifyRunner _) fun _ => rfl
  | present p tree facade => exact h.modifyProof p fun _ => ⟨.refl _, rfl⟩

theorem numbers_beat (h : Numbers b s) (hs : Beat A b s s') : Numbers b s' := by
  cases hs with
  | note | desk | enrol | clients | tasks => exact h.same rfl fun _ => rfl
  | shown _ e => exact h.same (length_heed _ e) (proof_heed _ e)
  | watch p f hf => exact h.modifyProof p fun w => ⟨(hf w).subscribers, (hf w).next⟩
  | subscribe p k =>
      refine h.addSubscriber (.client k) (Nat.le_refl _) (fun _ e => by cases e) fun q => ?_
      exact (proof_modifyProof_cases _).imp id fun e => e.2.2
  | enlist p settings =>
      refine h.addSubscriber (.runner s.runners.length) ?_ (fun _ e => by cases e; exact Nat.le_refl _)
        fun q => (proof_enlist_cases settings).imp id And.right
      rw [length_enlist]
      exact Nat.le_succ _
  | host r f _ => exact h.same (length_modifyRunner f) fun _ => rfl
  | act r tasks _ => exact h.same (length_modifyRunner _) fun _ => rfl
  | @byHand i _ => exact numbers_intervene h i

theorem Flow.numbers (h : Flow A b s) : Numbers b s :=
  flow_keep (fun _ => numbers_beat) (.refl b) h

theorem numbered_intervene {p : ProofId} (h : (s.proof p).Numbered) (i : Intervention) :
    ((s.intervene i).proof p).Numbered := by
  cases i with
  | settings | refresh | setSolvers | unsuspend | activate => exact h
  | present q tree facade =>
      rcases proof_modifyProof_cases (s := s) (p := q) (q := p) fun w => { w with tree, facade } with
        e | ⟨_, _, e⟩
      · exact (congrArg Watched.Numbered e).mpr h
      · exact (congrArg Watched.Numbered e).mpr ⟨h.nodup, h.below⟩

theorem numbered_beat (h : (s.proof p).Numbered) (hs : Beat A b s s') : (s'.proof p).Numbered := by
  cases hs with
  | note | desk | enrol | clients | tasks | host | act => exact h
  | shown _ e => exact (congrArg Watched.Numbered (proof_heed _ e p)).mpr h
  | watch q f hf =>
      rcases proof_modifyProof_cases (s := s) (p := q) (q := p) f with e | ⟨_, _, e⟩
      · exact (congrArg Watched.Numbered e).mpr h
      · exact (congrArg Watched.Numbered e).mpr (h.stays (hf _))
  | subscribe q k =>
      rcases proof_modifyProof_cases (s := s) (p := q) (q := p) (Watched.addSubscriber (.client k)) with
        e | ⟨_, _, e⟩
      · exact (congrArg Watched.Numbered e).mpr h
      · exact (congrArg Watched.Numbered e).mpr (h.addSubscriber _)
  | enlist q settings =>
      rcases proof_enlist_cases (s := s) (p := q) (q := p) settings with e | ⟨_, e⟩
      · exact (congrArg Watched.Numbered e).mpr h
      · exact (congrArg Watched.Numbered e).mpr (h.addSubscriber _)
  | @byHand i _ => exact numbered_intervene h i

theorem Flow.numbered (h : Flow A b s) (hb : (b.proof p).Numbered) : (s.proof p).Numbered :=
  flow_keep (I := fun s => (s.proof p).Numbered) (fun _ => numbered_beat) hb h

/-! ## 3. Settings -/

/-- The registry and all runners that were there have the settings that they had. -/
structure SameSettings (s s' : Session) : Prop where
  runners : s.runners.length ≤ s'.runners.length
  registry : s'.registry.settings = s.registry.settings
  core : ∀ r < s.runners.length, (s'.runner r).core.settings = (s.runner r).core.settings

theorem SameSettings.trans (h : SameSettings s s') (h' : SameSettings s' s'') : SameSettings s s'' where
  runners := Nat.le_trans h.runners h'.runners
  registry := h'.registry.trans h.registry
  core r hr := (h'.core r (Nat.lt_of_lt_of_le hr h.runners)).trans (h.core r hr)

theorem sameSettings_setCore {core : Runner} (k : RunnerId)
    (h : core.settings = (s.runner k).core.settings) : SameSettings s (s.setCore k core) where
  runners := Nat.le_of_eq (length_modifyRunner _).symm
  registry := rfl
  core r _ := by
    rcases runner_modifyRunner_cases (s := s) (r := k) (k := r) fun x => { x with core } with e | ⟨rfl, _, e⟩
    · exact congrArg (fun x => x.core.settings) e
    · exact (congrArg (fun x => x.core.settings) e).trans h

theorem sameSettings_modifyRunner (k : RunnerId) {f : Hosted → Hosted} (hf : ∀ x, (f x).core = x.core) :
    SameSettings s (s.modifyRunner k f) where
  runners := Nat.le_of_eq (length_modifyRunner f).symm
  registry := rfl
  core r _ := by
    rcases runner_modifyRunner_cases (s := s) (r := k) (k := r) f with e | ⟨_, _, e⟩
    · rw [e]
    · rw [e, hf]

theorem sameSettings_of_runners (hr : s'.runners = s.runners)
    (hs : s'.registry.settings = s.registry.settings) : SameSettings s s' where
  runners := Nat.le_of_eq (congrArg List.length hr.symm)
  registry := hs
  core r _ := by
    unfold runner
    rw [hr]

theorem sameSettings_heed (sink : Sink) (e : Event) : SameSettings s (s.heed sink e) := by
  unfold heed
  split
  · refine sameSettings_setCore _ ?_
    unfold Runner.suspend
    split <;> rfl
  · refine sameSettings_setCore _ ?_
    unfold Runner.unsuspend
    split <;> rfl
  · exact sameSettings_of_runners rfl rfl

theorem sameSettings_intervene {i : Intervention} (h : i.keepsSettings = true) :
    SameSettings s (s.intervene i) := by
  cases i with
  | settings | refresh | setSolvers => cases h
  | unsuspend r =>
      refine sameSettings_setCore r ?_
      unfold Runner.unsuspend
      split <;> rfl
  | present | activate => exact sameSettings_of_runners rfl rfl

theorem sameSettings_beat (hA : ∀ i, A i → i.keepsSettings = true) (h : Beat A b s s') :
    SameSettings s s' := by
  cases h with
  | note | watch | subscribe | enrol | clients | tasks => exact sameSettings_of_runners rfl rfl
  | desk g hs _ _ => exact sameSettings_of_runners rfl hs
  | @shown p x _ e =>
      have h1 : SameSettings s (s.record (.shown p x.id e)) := sameSettings_of_runners rfl rfl
      exact h1.trans (sameSettings_heed x.sink e)
  | enlist p settings =>
      refine ⟨?_, rfl, fun r hr => by rw [runner_enlist_of_lt settings hr]⟩
      rw [length_enlist]
      exact Nat.le_succ _
  | host k f hf => exact sameSettings_modifyRunner k hf
  | act k tasks hc =>
      have h := sameSettings_setCore k hc.settings
      exact ⟨h.runners, h.registry, h.core⟩
  | @byHand i hi => exact sameSettings_intervene (hA i hi)

/-- **Settings stay as they are** unless they are changed by hand. -/
theorem Flow.sameSettings (hA : ∀ i, A i → i.keepsSettings = true) (h : Flow A b s) : SameSettings b s :=
  flow_keep (fun _ hk hs => hk.trans (sameSettings_beat hA hs)) (sameSettings_of_runners rfl rfl) h

/-! ## 4. The active proof -/

theorem registry_heed (sink : Sink) (e : Event) : (s.heed sink e).registry = s.registry := by
  unfold heed
  split <;> rfl

theorem active_beat (hA : ∀ p, ¬ A (.activate p)) (h : Beat A b s s') :
    s'.registry.active = s.registry.active ∨ s'.registry.active = none := by
  cases h with
  | note | watch | subscribe | enlist | host | act | enrol | clients | tasks => exact Or.inl rfl
  | shown _ e => exact Or.inl (congrArg Registry.active (registry_heed _ e))
  | desk g _ ha _ => exact ha
  | @byHand i hi =>
      cases i with
      | activate p => exact absurd hi (hA p)
      | settings | refresh | setSolvers | unsuspend | present => exact Or.inl rfl

/-- **The active proof stays the active one, or there is none**, unless one is selected. -/
theorem Flow.active (hA : ∀ p, ¬ A (.activate p)) (h : Flow A b s) :
    s.registry.active = b.registry.active ∨ s.registry.active = none :=
  flow_keep (I := fun s => s.registry.active = b.registry.active ∨ s.registry.active = none)
    (fun _ hk hs => (active_beat hA hs).elim (fun e => hk.imp e.trans e.trans) Or.inr) (Or.inl rfl) h

/-! ## 5. Steps that call nobody -/

theorem flow_foldl {α : Type} {f : Session → α → Session} {l : List α} (h : Flow A b s)
    (hf : ∀ x ∈ l, ∀ {s}, Flow A b s → Flow A b (f s x)) : Flow A b (l.foldl f s) := by
  induction l generalizing s with
  | nil => exact h
  | cons x rest ih =>
      exact ih (hf x List.mem_cons_self h) fun y hy _ h => hf y (List.mem_cons_of_mem _ hy) h

theorem flow_ite {c : Prop} [Decidable c] (h : Flow A b s) (h' : Flow A b s') :
    Flow A b (if c then s' else s) := by
  split
  · exact h'
  · exact h

theorem Flow.record (h : Flow A b s) {e : Entry} (he : e.isNote = true) : Flow A b (s.record e) :=
  h.more (.note [e] fun _ hm => List.mem_singleton.mp hm ▸ he)

theorem Flow.recordAll (h : Flow A b s) {es : List Entry} (he : ∀ e ∈ es, ∃ phase, e = .probed phase) :
    Flow A b (s.recordAll es) := by
  refine h.more (.note es fun e hm => ?_)
  obtain ⟨_, rfl⟩ := he e hm
  rfl

theorem Flow.probe (h : Flow A b s) (p : ProofId) (busy : RunnerId) (activity : Activity) :
    Flow A b (s.probe p busy activity) := by
  obtain ⟨es, hes, e⟩ := probe_eq (s := s) (p := p) busy activity
  rw [e]
  exact h.recordAll hes

theorem Flow.setTree (h : Flow A b s) (p : ProofId) (tree : Tree) : Flow A b (s.setTree p tree) :=
  h.more (.watch p _ fun _ => ⟨.refl _, rfl, Or.inl rfl⟩)

theorem Flow.unsubscribe (h : Flow A b s) (p : ProofId) (id : SubscriptionId) : Flow A b (s.unsubscribe p id) :=
  h.more (.watch p _ fun _ => ⟨List.filter_sublist, rfl, Or.inl rfl⟩)

theorem Flow.pauseEvents (h : Flow A b s) (p : ProofId) : Flow A b (s.pauseEvents p) :=
  h.more (.watch p _ fun _ => ⟨.refl _, rfl, Or.inl rfl⟩)

theorem flow_takeLaunch (h : Flow A b s) (mode : Mode) (goals : List Goal) :
    Flow A b (s.takeLaunch r ((s.runner r).core.dispatchOpen mode goals)).2 := by
  have hs := Runner.Stint.dispatch (c := (s.runner r).core) mode goals
  unfold takeLaunch
  cases hl : ((s.runner r).core.dispatchOpen mode goals).1 with
  | none =>
      rw [hl] at hs
      exact h.more (.act r s.tasks hs)
  | some launch =>
      rw [hl] at hs
      exact h.more (.act r _ hs)

theorem flow_dispatchOpen (h : Flow A b s) (mode : Mode) : Flow A b (s.dispatchOpen r mode).2 := by
  unfold dispatchOpen
  simp only
  split
  · have h1 := flow_takeLaunch (r := r) (h.probe (s.runner r).proof r .dispatching) mode
      (s.proof (s.runner r).proof).openGoals
    simpa using h1
  · exact h

theorem flow_ruleApplied (h : Flow A b s) (goals : List Goal) : Flow A b (s.ruleApplied r goals).2 :=
  flow_takeLaunch h .fresh goals

theorem flow_autoStarted (h : Flow A b s) : Flow A b (s.autoStarted r) := h.more (.act r s.tasks .suspend)

/-- The marks of batches that were given up. -/
theorem flow_giveUp (h : Flow A b s) {result : List BatchId × Runner}
    (hr : (s.runner r).core.Stint (result.1.map .stopped).reverse result.2) : Flow A b (s.giveUp r result) := by
  have hlog : (result.1.map (Entry.stopped r)).reverse =
      (result.1.map Deed.stopped).reverse.map (Deed.entry r) := by
    rw [List.map_reverse, List.map_map]
    rfl
  have h1 := h.more (.act r (s.giveUp r result).tasks hr)
  rw [← hlog] at h1
  exact h1

theorem flow_stopAll (h : Flow A b s) : Flow A b (s.stopAll r) := flow_giveUp h .stopAll

theorem Flow.wake (h : Flow A b s) (r : RunnerId) : Flow A b (s.wake r) := h.more (.tasks _)

theorem Flow.dispose (h : Flow A b s) (l : ListenerId) : Flow A b (s.dispose l) := by
  unfold Session.dispose
  split
  · exact h
  · have h1 := h.more (.clients s.sinks (s.listeners.modify l fun x => { x with held := false }))
    simp only
    split
    · split
      · exact h1.more (.host _ _ fun _ => rfl)
      · exact h1.more (.desk _ rfl (Or.inl rfl) fun _ => id)
    · exact h1

theorem Flow.retire (h : Flow A b s) (p : ProofId) : Flow A b (s.retire p) := by
  unfold Session.retire
  split
  · exact h
  · split
    · refine h.more (.desk _ rfl ?_ fun _ he => (List.mem_filter.mp he).1)
      show (if s.registry.active = some p then none else s.registry.active) = _ ∨ _ = none
      split
      · exact Or.inr rfl
      · exact Or.inl rfl
    · exact h

theorem Flow.lookUp (h : Flow A b s) (n : NodeId) : Flow A b (s.lookUp n) := by
  unfold Session.lookUp
  split
  · exact h
  · exact flow_ite h (h.probe _ _ _)

/-! ## 6. Steps that call clients -/

/-- **Calls from inside keep to the flow.** -/
def Steady (again : Again) : Prop :=
  ∀ {A : Intervention → Prop} {b s : Session} (call : Call), Flow A b s → Flow A b (again call s)

section Calls

variable {again : Again} (ha : Steady again)

include ha

theorem flow_callListener (h : Flow A b s) (l : ListenerId) : Flow A b (callListener again s l) := by
  unfold callListener
  split
  · exact h
  · exact flow_foldl (h.record rfl) fun call _ _ h => ha call h

theorem flow_notifyObservers (h : Flow A b s) : Flow A b (notifyObservers again s) :=
  flow_foldl h fun l _ _ h => flow_callListener ha h l

theorem flow_callTarget (h : Flow A b s) (t : Target) : Flow A b (callTarget again s t) := by
  cases t with
  | registry p => exact flow_notifyObservers ha (h.retire p)
  | client l => exact flow_callListener ha h l

theorem flow_notifyRunner (h : Flow A b s) : Flow A b (notifyRunner again s r) :=
  flow_foldl h fun t _ _ h => flow_callTarget ha h t

theorem flow_close (h : Flow A b s) : Flow A b (close again s r) := by
  unfold close
  simp only
  split
  · exact h
  · have h1 : Flow A b (s.giveUp r (s.runner r).core.close) := flow_giveUp h .close
    have h2 := h1.more (.host r (fun h => { h with subscription := none }) fun _ => rfl)
    have h3 := flow_notifyRunner (r := r) ha h2
    split
    · exact (h3.unsubscribe _ _).more (.host r _ fun _ => rfl)
    · exact h3.more (.host r _ fun _ => rfl)

theorem flow_treeChanged (h : Flow A b s) : Flow A b (treeChanged again s r).2 := by
  unfold treeChanged
  split
  · exact h
  · exact flow_dispatchOpen (flow_notifyRunner ha h) .fresh

theorem flow_complete (h : Flow A b s) (batch : BatchId) (outcomes : List Outcome) :
    Flow A b (complete again s r batch outcomes) := by
  obtain ⟨es, hes, hc⟩ := session_complete_cases again s r batch outcomes
  have h0 : Flow A b (s.recordAll es) := h.recordAll hes
  rcases hc with ⟨_, e⟩ | ⟨core, hcore, e⟩
  · rw [e]
    exact h0
  · have h1 : Flow A b (((s.recordAll es).setCore r core).record (.completed r batch outcomes)) :=
      h0.more (.act (s := s.recordAll es) r s.tasks (.complete hcore))
    have h2 := flow_notifyRunner (r := r) ha h1
    rw [e]
    exact flow_ite h2 (h2.wake r)

/-! ## 7. Events -/

theorem flow_showTo (h : Flow A b s) (hx : Known b p x) (e : Event) : Flow A b (showTo again p e s x) := by
  have h1 : Flow A b ((s.record (.shown p x.id e)).heed x.sink e) := h.more (.shown hx e)
  unfold showTo
  cases hk : x.sink with
  | runner r =>
      rw [hk] at h1
      cases e with
      | ruleApplied goals => exact flow_ruleApplied h1 goals
      | autoModeStarted => exact h1
      | autoModeStopped => exact flow_dispatchOpen h1 .fresh
      | treeStructureChanged => exact flow_treeChanged ha h1
      | proofClosed => exact flow_close ha h1
  | client k =>
      rw [hk] at h1
      simp only
      split
      · exact h1
      · exact flow_foldl (h1.more (.clients _ s.listeners)) fun call _ _ h => ha (.proof p call) h

/-- Whoever is subscribed when an event starts to be shown is known. -/
theorem flow_deliver (h : Flow A b s) (e : Event) : Flow A b (deliver again p s e) :=
  flow_foldl (h.record rfl) fun x hx _ h' => flow_showTo ha h' (h.numbers.known p x hx) e

theorem flow_emit (h : Flow A b s) (e : Event) : Flow A b (emit again s p e) := by
  have h1 : Flow A b (s.record (.emitted p e)) := h.record rfl
  unfold emit
  simp only
  split
  · exact h1.more (.watch p _ fun _ => ⟨.refl _, rfl, Or.inl rfl⟩)
  · exact flow_deliver ha h1 e

theorem flow_resumeEvents (h : Flow A b s) : Flow A b (resumeEvents again s p) := by
  unfold resumeEvents
  simp only
  split
  · exact h.more (.watch p _ fun _ => ⟨.refl _, rfl, Or.inl rfl⟩)
  · exact flow_foldl (h.more (.watch p _ fun _ => ⟨.refl _, rfl, Or.inl rfl⟩)) fun e _ _ h =>
      flow_deliver ha h e

/-! ## 8. Changes of a proof -/

theorem flow_applyRule (h : Flow A b s) (n : NodeId) (rule : String) (new : List Sequent) :
    Flow A b (applyRule again s p n rule new).2 := by
  unfold applyRule
  split
  · exact h
  · rename_i goals tree _
    have h1 := flow_emit (p := p) ha (h.setTree p tree) (.ruleApplied goals)
    exact flow_ite h1 (flow_emit ha h1 .proofClosed)

theorem flow_prune (h : Flow A b s) (n : NodeId) : Flow A b (prune again s p n).2 := by
  unfold prune
  split
  · exact h
  · exact flow_emit ha (h.setTree p _) .treeStructureChanged

theorem flow_proofCall (h : Flow A b s) (call : ProofCall) : Flow A b (proofCall again s p call) := by
  cases call with
  | applyRule n rule new => exact flow_applyRule ha h n rule new
  | prune n => exact flow_prune ha h n
  | startAuto => exact flow_emit ha h .autoModeStarted
  | stopAuto => exact flow_emit ha h .autoModeStopped
  | pause => exact h.pauseEvents p
  | resume => exact flow_resumeEvents ha h
  | unsubscribe id => exact h.unsubscribe p id

theorem flow_ensureGoal (h : Flow A b s) (n : NodeId) : Flow A b (ensureGoal again s p n).2 := by
  unfold ensureGoal
  simp only
  split
  · exact h
  · split
    · exact h
    · exact flow_prune ha h n

theorem flow_closeGoal (h : Flow A b s) (n : NodeId) : Flow A b (closeGoal again s p n).2 := by
  unfold closeGoal
  simp only
  split
  · exact h
  · exact h
  · exact flow_applyRule ha h _ _ _

theorem flow_applyResult (h : Flow A b s) (n : NodeId) : Flow A b (applyResult again s n).2 := by
  unfold applyResult
  simp only
  split
  · rename_i r _ _
    have h1 := flow_ensureGoal (p := (s.runner r).proof) ha ((h.lookUp n).pauseEvents (s.runner r).proof) n
    cases he : ensureGoal again ((s.lookUp n).pauseEvents (s.runner r).proof) (s.runner r).proof n with
    | mk result t =>
        rw [he] at h1
        cases result with
        | error e => exact flow_resumeEvents ha h1
        | ok _ =>
            have h2 := flow_resumeEvents (p := (s.runner r).proof) ha
              (flow_closeGoal (p := (s.runner r).proof) ha h1 n)
            simp only
            split <;> exact h2
  · exact h.lookUp n

theorem flow_applyAny (nodes : List NodeId) (h : Flow A b s) : Flow A b (applyAny again s nodes) := by
  induction nodes generalizing s with
  | nil => exact h
  | cons n rest ih =>
      have h1 := flow_applyResult ha h n
      unfold applyAny
      split
      · rename_i t e
        rw [e] at h1
        exact h1
      · rename_i t _ e
        rw [e] at h1
        exact ih h1

theorem flow_execute (h : Flow A b s) (call : Call) : Flow A b (execute again call s) := by
  cases call with
  | proof p c => exact flow_proofCall ha h c
  | dispatch r => exact flow_ite h (flow_dispatchOpen h .fresh)
  | resume r => exact flow_ite h (flow_dispatchOpen h .retry)
  | stop r => exact flow_ite h (flow_stopAll h)
  | shutdown r => exact flow_ite h (flow_close ha h)
  | applyFirst =>
      simp only [execute]
      split
      · exact flow_applyAny ha _ h
      · exact h
  | dispose l => exact h.dispose l

end Calls

/-- **Calls nested to any depth keep to the flow.** -/
theorem steady_perform : ∀ depth, Steady (perform depth)
  | 0 => fun _ h => h
  | depth + 1 => fun call h => flow_execute (steady_perform depth) h call

/-! ## 9. Selecting proofs -/

section Selection

variable {again : Again} (ha : Steady again)

theorem flow_leaveActive (h : Flow A b s) : Flow A b (s.leaveActive p) := by
  unfold leaveActive
  split
  · exact h
  · split
    · exact flow_stopAll h
    · exact h

include ha

/-- A candidate with the settings of the registry is registered, or closed. -/
theorem flow_register (h : Flow A b s) (hb : b.runners.length ≤ r) (hr : r < s.runners.length)
    (hs : (s.runner r).core.settings = s.registry.settings) : Flow A b (register again s p r).2 := by
  have h1 : Flow A b (s.addTarget r (.registry p)) := h.more (.host r _ fun _ => rfl)
  unfold register
  simp only
  split
  · exact flow_close ha h1
  · have h2 := h1.more (.host r (fun h => { h with standing := .held }) fun _ => rfl)
    have hadded : SameSettings s (s.addTarget r (.registry p)) := sameSettings_modifyRunner r fun _ => rfl
    have hheld : SameSettings _ ((s.addTarget r (.registry p)).setStanding r .held) :=
      sameSettings_modifyRunner r fun _ => rfl
    have hsame := hadded.trans hheld
    exact h2.more (.enrol p hb (Nat.lt_of_lt_of_le hr hsame.runners) ((hsame.core r hr).trans hs))

theorem flow_activate (hA : A (.activate p)) (h : Flow A b s) (mode : Mode) :
    Flow A b (activate again s p r mode).2 :=
  flow_notifyObservers ha (flow_dispatchOpen (h.more (.byHand hA)) mode)

/-- What happens right after a new runner subscribed leaves its settings and those of the registry alone. -/
theorem flow_selectWith {during : Session → Session}
    (hd : ∀ {A : Intervention → Prop} {b s : Session}, A (.activate p) → Flow A b s → Flow A b (during s))
    (hA : A (.activate p)) (h : Flow A b s) : Flow A b (selectWith again during s p).2 := by
  have h0 : Flow A b (s.leaveActive p) := flow_leaveActive h
  unfold selectWith
  simp only
  split
  · exact flow_activate ha hA h0 _
  · have h1 : Flow A b ((s.leaveActive p).enlist p s.registry.settings).2 := h0.more (.enlist p _)
    have hsame := (hd (A := (· = .activate p)) (b := ((s.leaveActive p).enlist p s.registry.settings).2)
      rfl .start).sameSettings fun i (e : i = .activate p) => e ▸ rfl
    have hl : (s.leaveActive p).runners.length <
        ((s.leaveActive p).enlist p s.registry.settings).2.runners.length := by
      rw [length_enlist]
      exact Nat.lt_succ_self _
    have hleave : (s.leaveActive p).registry = s.registry := by
      unfold leaveActive
      split
      · rfl
      · split <;> rfl
    refine flow_activate ha hA (flow_register ha (hd hA h1) h0.numbers.runners
      (Nat.lt_of_lt_of_le hl hsame.runners) ?_) .fresh
    calc ((during ((s.leaveActive p).enlist p s.registry.settings).2).runner _).core.settings
        = s.registry.settings := by rw [hsame.core _ hl, runner_enlist_self]
      _ = (s.leaveActive p).registry.settings := by rw [hleave]
      _ = _ := hsame.registry.symm

theorem flow_afterSubscribe (hA : A (.activate p)) (h : Flow A b s) : Flow A b (afterSubscribe again p s) := by
  unfold afterSubscribe
  refine flow_ite h (flow_selectWith ha (fun _ h => h) hA ?_)
  exact h.more (.watch p _ fun _ => ⟨.refl _, rfl, Or.inr rfl⟩)

theorem flow_select (hA : A (.activate p)) (h : Flow A b s) : Flow A b (select again s p).2 :=
  flow_selectWith ha (flow_afterSubscribe ha) hA h

theorem flow_newRunner (hA : A (.activate p)) (h : Flow A b s) (settings : Settings) :
    Flow A b (newRunner again s p settings).2 :=
  (flow_afterSubscribe ha hA (h.more (.enlist p settings))).more (.host _ _ fun _ => rfl)

theorem flow_shutdownAll (h : Flow A b s) : Flow A b (shutdownAll again s) := by
  refine flow_notifyObservers ha (flow_foldl ?_ fun e _ _ h => flow_close ha h)
  exact h.more (.desk _ rfl (Or.inr rfl) fun _ he => absurd he List.not_mem_nil)

end Selection

theorem Flow.addListener (h : Flow A b s) (home : Home) (calls : ListenerId → List Call) :
    Flow A b (s.addListener home calls) := by
  unfold Session.addListener
  cases home with
  | runner r => exact (h.more (.clients s.sinks _)).more (.host r _ fun _ => rfl)
  | registry => exact (h.more (.clients s.sinks _)).more (.desk _ rfl (Or.inl rfl) fun _ => id)

/-! ## 10. Moves -/

end Session

/-- What a move does by hand, when it starts from the given session. -/
def Move.needs (s : Session) : Move → Intervention → Prop
  | .refreshAll chosen, i => i = .settings chosen ∨ ∃ e ∈ s.registry.entries, i = .refresh e.2 chosen
  | .runner r (.refresh chosen), i => i = .refresh r chosen
  | .runner r (.setSolvers solvers), i => i = .setSolvers r solvers
  | .runner r .autoStopped, i => i = .unsuspend r
  | .present p tree facade, i => i = .present p tree facade
  | .select p, i | .newRunner p _, i => i = .activate p
  | _, _ => False

namespace Session

variable {A : Intervention → Prop} {b s : Session} {again : Again} (ha : Steady again)

/-- All registered runners get the new settings before anyone is told. -/
def refreshed (s : Session) (chosen : Settings) : Session :=
  s.registry.entries.foldl (fun s e => s.refreshSettings e.2 chosen)
    { s with registry := { s.registry with settings := chosen } }

theorem flow_refreshed {chosen : Settings} (hc : A (.settings chosen))
    (hr : ∀ e ∈ s.registry.entries, A (.refresh e.2 chosen)) (h : Flow A b s) :
    Flow A b (s.refreshed chosen) :=
  flow_foldl (h.more (.byHand hc)) fun e he _ h => h.more (.byHand (hr e he))

include ha

/-- Then the active runner starts over. -/
theorem flow_refreshAll {chosen : Settings} (h : Flow A b (s.refreshed chosen)) :
    Flow A b (refreshAll again s chosen) := by
  unfold refreshAll
  simp only
  split
  · exact flow_notifyObservers ha (flow_dispatchOpen h .fresh)
  · exact flow_notifyObservers ha h

/-- **A move keeps to the flow.** -/
theorem flow_move {m : Move} (hm : ∀ i, m.needs s i → A i) (h : Flow A b s) :
    Flow A b (move again s m) := by
  cases m with
  | select p => exact flow_select ha (hm _ rfl) h
  | applyResult n => exact flow_applyResult ha h n
  | refreshAll chosen =>
      exact flow_refreshAll ha (flow_refreshed (hm _ (Or.inl rfl))
        (fun e he => hm _ (Or.inr ⟨e, he, rfl⟩)) h)
  | shutdownAll => exact flow_shutdownAll ha h
  | proof p call => exact flow_proofCall ha h call
  | newRunner p settings => exact flow_newRunner ha (hm _ rfl) h settings
  | runner r call =>
      cases call with
      | dispatch => exact flow_dispatchOpen h .fresh
      | resume => exact flow_dispatchOpen h .retry
      | ruleApplied goals => exact flow_ruleApplied h goals
      | autoStarted => exact flow_autoStarted h
      | autoStopped => exact flow_dispatchOpen (h.more (.byHand (hm _ rfl))) .fresh
      | treeChanged => exact flow_treeChanged ha h
      | close => exact flow_close ha h
      | completed batch outcomes => exact flow_complete ha h batch outcomes
      | refresh chosen => exact h.more (.byHand (hm _ rfl))
      | setSolvers solvers => exact flow_dispatchOpen (h.more (.byHand (hm _ rfl))) .retry
      | stopAll => exact flow_stopAll h
  | finish o outcomes => exact flow_ite h (flow_complete ha (h.more (.tasks _)) _ outcomes)
  | listen home calls => exact h.addListener home calls
  | subscribe p react => exact (h.more (.clients _ s.listeners)).more (.subscribe p _)
  | dispose l => exact h.dispose l
  | present p tree facade => exact h.more (.byHand (hm _ rfl))

/-- **Every run keeps to the flow.** -/
theorem flow_run {moves : List Move} (hm : ∀ m ∈ moves, ∀ s i, m.needs s i → A i) (h : Flow A b s) :
    Flow A b (run again s moves) := by
  induction moves generalizing s with
  | nil => exact h
  | cons m rest ih =>
      exact ih (fun m hk => hm m (List.mem_cons_of_mem _ hk)) (flow_move ha (hm m List.mem_cons_self s) h)

end Session

end GoalWatch
