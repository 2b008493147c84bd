import GoalWatch.Proofs.Session.Subscriptions

/-!
# Changes of which nobody is told

What a session does between two calls of clients: something is written down, runners act, proofs change. Nobody
gets to know of it right then, nobody new listens, and no proof is paused by it.

* `Entry.isCall` -- an entry after which clients are called;
* `Throughout` -- what holds of all entries;
* `Session.Untold` -- such a change;
* `Session.Unnoticed` -- such a change after which nothing waits to be told, unless the proof is paused;
* `unnoticed_act`, `unnoticed_modifyProof`, `unnoticed_ended`, … -- the changes that there are.
-/

namespace GoalWatch

/-- The entry says that a client is told of a change, or that a proof starts telling of an event. -/
def Entry.isCall : Entry → Bool
  | .notified .. | .delivered .. => true
  | .emitted .. | .shown .. | .requested .. | .started .. | .completed .. | .stopped .. | .probed _ => false

/-- **Of all that was written down the property holds**, with what had been written down before. -/
def Throughout (P : Entry → List Entry → Prop) : List Entry → Prop
  | [] => True
  | x :: older => P x older ∧ Throughout P older

namespace Throughout

variable {P Q : Entry → List Entry → Prop} {log : List Entry}

theorem append (h : Throughout P log) : ∀ {es : List Entry}, (∀ e ∈ es, ∀ older, P e older) →
    Throughout P (es ++ log)
  | [], _ => h
  | x :: _, hes => ⟨hes x List.mem_cons_self _, h.append fun e he => hes e (List.mem_cons_of_mem _ he)⟩

theorem imp (hPQ : ∀ x ∈ log, ∀ older, P x older → Q x older) (h : Throughout P log) : Throughout Q log := by
  induction log with
  | nil => trivial
  | cons x older ih =>
      exact ⟨hPQ x List.mem_cons_self older h.1, ih (fun y hy => hPQ y (List.mem_cons_of_mem _ hy)) h.2⟩

theorem of_append {x : Entry} {older : List Entry} : ∀ {newer : List Entry},
    Throughout P (newer ++ x :: older) → P x older
  | [], h => h.1
  | _ :: _, h => of_append h.2

end Throughout

theorem Entry.isCall_deed (r : RunnerId) (d : Deed) : (d.entry r).isCall = false := by
  cases d <;> rfl

theorem Entry.deed?_deed (r k : RunnerId) (d : Deed) : (d.entry r).deed? k = if r = k then some d else none := by
  cases d <;> rfl

/-- Events are held back only while the proof is paused. -/
def Watched.Idle (w : Watched) : Prop := w.paused = 0 → w.held = []

namespace Session

variable {L : License} {s s' s'' : Session} {p : ProofId} {r : RunnerId}

/-- **A change of which nobody is told**: no client is called, none is new, and no proof is paused. Of runners
    that were there it makes acts, and so it does of new ones. -/
structure Untold (s s' : Session) : Prop where
  log : ∃ es, s'.log = es ++ s.log ∧ ∀ e ∈ es, e.isCall = false
  homes : s'.listeners.map Listener.home = s.listeners.map Listener.home
  calls : s'.listeners.map Listener.calls = s.listeners.map Listener.calls
  reacts : s'.sinks.map ClientSink.react = s.sinks.map ClientSink.react
  observers : ∀ l ∈ s'.registry.observers.targets, l ∈ s.registry.observers.targets
  targets : ∀ k l, (s'.runner k).listeners.targets.count (.client l) ≤
    (s.runner k).listeners.targets.count (.client l)
  count : s.runners.length ≤ s'.runners.length
  ran : ∀ k < s.runners.length, Ran s s' k
  born : ∀ k, s.runners.length ≤ k → k < s'.runners.length →
    ∃ settings ds, Runner.Acts { settings } ds (s'.runner k).core
  paused : ∀ p, (s'.proof p).paused ≤ (s.proof p).paused

theorem Untold.trans (h : Untold s s') (h' : Untold s' s'') : Untold s s'' where
  log := by
    obtain ⟨es, e, hes⟩ := h.log
    obtain ⟨fs, e', hfs⟩ := h'.log
    refine ⟨fs ++ es, by rw [e', e, List.append_assoc], fun x hx => ?_⟩
    exact (List.mem_append.mp hx).elim (hfs x) (hes x)
  homes := h'.homes.trans h.homes
  calls := h'.calls.trans h.calls
  reacts := h'.reacts.trans h.reacts
  observers l hl := h.observers l (h'.observers l hl)
  targets k l := Nat.le_trans (h'.targets k l) (h.targets k l)
  count := Nat.le_trans h.count h'.count
  ran k hk := (h.ran k hk).trans (h'.ran k (Nat.lt_of_lt_of_le hk h.count))
  born k hk hlt := by
    rcases Nat.lt_or_ge k s'.runners.length with hlt' | hge
    · obtain ⟨settings, ds, ha⟩ := h.born k hk hlt'
      obtain ⟨es, ha', _⟩ := h'.ran k hlt'
      exact ⟨settings, es ++ ds, ha.trans ha'⟩
    · exact h'.born k hge hlt
  paused p := Nat.le_trans (h'.paused p) (h.paused p)

/-- **Such a change after which nothing waits to be told**, unless the proof is paused. -/
structure Unnoticed (s s' : Session) : Prop extends Untold s s' where
  idle : ∀ p, (s.proof p).Idle → (s'.proof p).Idle

theorem Unnoticed.trans (h : Unnoticed s s') (h' : Unnoticed s' s'') : Unnoticed s s'' :=
  ⟨h.toUntold.trans h'.toUntold, fun p => h'.idle p ∘ h.idle p⟩

/-! ## 1. Changes beside runners -/

/-- Runners and clients are as they were. -/
theorem Untold.aside (hlog : ∃ es, s'.log = es ++ s.log ∧ ∀ e ∈ es, e.isCall = false ∧ ∀ k, e.deed? k = none)
    (hr : s'.runners = s.runners) (hl : s'.listeners = s.listeners)
    (hs : s'.sinks.map ClientSink.react = s.sinks.map ClientSink.react)
    (ho : s'.registry.observers = s.registry.observers) (hp : ∀ p, (s'.proof p).paused ≤ (s.proof p).paused) :
    Untold s s' := by
  have hrunner : ∀ k, s'.runner k = s.runner k := fun k => by rw [runner, hr]; rfl
  obtain ⟨es, e, hes⟩ := hlog
  exact {
    log := ⟨es, e, fun x hx => (hes x hx).1⟩
    homes := by rw [hl]
    calls := by rw [hl]
    reacts := hs
    observers := fun l h => by rwa [ho] at h
    targets := fun k l => Nat.le_of_eq (by rw [hrunner])
    count := Nat.le_of_eq (by rw [hr])
    ran := fun k _ => by
      refine .idle (by rw [hrunner]) ?_
      unfold deeds
      rw [e, List.filterMap_append, List.filterMap_eq_nil_iff.mpr fun x hx => (hes x hx).2 k, List.nil_append]
    born := fun k hk hlt => by
      rw [hr] at hlt
      exact absurd hlt (Nat.not_lt.mpr hk)
    paused := hp }

theorem Untold.refl (s : Session) : Untold s s :=
  .aside ⟨[], rfl, fun _ h => absurd h List.not_mem_nil⟩ rfl rfl rfl rfl fun _ => Nat.le_refl _

theorem Unnoticed.refl (s : Session) : Unnoticed s s := ⟨.refl s, fun _ => id⟩

theorem unnoticed_recordAll {es : List Entry} (h : ∀ e ∈ es, e.isCall = false ∧ ∀ k, e.deed? k = none) :
    Unnoticed s (s.recordAll es) :=
  ⟨.aside ⟨es.reverse, rfl, fun e he => h e (List.mem_reverse.mp he)⟩ rfl rfl rfl rfl fun _ => Nat.le_refl _,
    fun _ => id⟩

theorem unnoticed_record {e : Entry} (h : e.isCall = false) (hd : ∀ k, e.deed? k = none) : Unnoticed s (s.record e) :=
  ⟨.aside ⟨[e], rfl, fun _ hx => List.mem_singleton.mp hx ▸ ⟨h, hd⟩⟩ rfl rfl rfl rfl fun _ => Nat.le_refl _,
    fun _ => id⟩

theorem unnoticed_probed {es : List Entry} (h : ∀ e ∈ es, ∃ phase, e = .probed phase) :
    Unnoticed s (s.recordAll es) := by
  refine unnoticed_recordAll fun e he => ?_
  obtain ⟨_, rfl⟩ := h e he
  exact ⟨rfl, fun _ => rfl⟩

theorem unnoticed_probe (busy : RunnerId) (activity : Activity) : Unnoticed s (s.probe p busy activity) := by
  obtain ⟨es, hes, e⟩ := probe_eq (s := s) (p := p) busy activity
  rw [e]
  exact unnoticed_probed hes

theorem unnoticed_lookUp (n : NodeId) : Unnoticed s (s.lookUp n) := by
  unfold lookUp
  split
  · exact .refl s
  · simp only
    split
    · exact unnoticed_probe _ _
    · exact .refl s

/-- A proof changes and is not paused by it. -/
theorem unnoticed_modifyProof {f : Watched → Watched} (hf : ∀ w, (f w).paused ≤ w.paused)
    (hi : (s.proof p).Idle → (f (s.proof p)).Idle) : Unnoticed s (s.modifyProof p f) := by
  refine ⟨.aside ⟨[], rfl, fun _ h => absurd h List.not_mem_nil⟩ rfl rfl rfl rfl fun q => ?_, fun q => ?_⟩
  all_goals rcases proof_modifyProof_cases (s := s) (p := p) (q := q) f with e | ⟨rfl, _, e⟩
  · exact Nat.le_of_eq (congrArg Watched.paused e)
  · exact Nat.le_trans (Nat.le_of_eq (congrArg Watched.paused e)) (hf _)
  · rw [e]
    exact id
  · rw [e]
    exact hi

theorem unnoticed_setTree (tree : Tree) : Unnoticed s (s.setTree p tree) :=
  unnoticed_modifyProof (fun _ => Nat.le_refl _) id

theorem unnoticed_unsubscribe (id : SubscriptionId) : Unnoticed s (s.unsubscribe p id) :=
  unnoticed_modifyProof (fun _ => Nat.le_refl _) fun h => h

theorem unnoticed_tasks (tasks : List Task) (waits : List Bool) : Unnoticed s { s with tasks, waits } :=
  ⟨.aside ⟨[], rfl, fun _ h => absurd h List.not_mem_nil⟩ rfl rfl rfl rfl fun _ => Nat.le_refl _, fun _ => id⟩

theorem unnoticed_wake : Unnoticed s (s.wake r) := unnoticed_tasks _ s.waits

/-- The registry changes, but for its observers. -/
theorem unnoticed_desk {g : Registry} (h : g.observers = s.registry.observers) : Unnoticed s { s with registry := g } :=
  ⟨.aside ⟨[], rfl, fun _ h => absurd h List.not_mem_nil⟩ rfl rfl rfl h fun _ => Nat.le_refl _, fun _ => id⟩

theorem unnoticed_retire : Unnoticed s (s.retire p) := by
  unfold retire
  split
  · exact .refl s
  · split
    · exact unnoticed_desk rfl
    · exact .refl s

/-- Sinks count what they were shown. -/
theorem unnoticed_sinks {sinks : List ClientSink} (h : sinks.map ClientSink.react = s.sinks.map ClientSink.react) :
    Unnoticed s { s with sinks } :=
  ⟨.aside ⟨[], rfl, fun _ h => absurd h List.not_mem_nil⟩ rfl rfl h rfl fun _ => Nat.le_refl _, fun _ => id⟩

/-! ## 2. Changes of runners -/

/-- **A runner acts**, and its marks are written down. -/
theorem unnoticed_act (r : RunnerId) {ds : List Deed} {core : Runner} (tasks : List Task)
    (ha : (s.runner r).core.Acts ds core) :
    Unnoticed s { s.setCore r core with log := ds.map (Deed.entry r) ++ s.log, tasks } := by
  have hlisteners : ∀ k, ((s.setCore r core).runner k).listeners = (s.runner k).listeners := fun k => by
    rcases runner_modifyRunner_cases (s := s) (r := r) (k := k) fun x => { x with core } with e | ⟨_, _, e⟩
    · exact congrArg Hosted.listeners e
    · exact (congrArg Hosted.listeners e).trans rfl
  have hdeeds : ∀ k, deeds { s.setCore r core with log := ds.map (Deed.entry r) ++ s.log, tasks } k =
      (if r = k then ds else []) ++ s.deeds k := fun k => by
    unfold deeds
    rw [List.filterMap_append, List.filterMap_map]
    congr 1
    by_cases hrk : r = k
    · rw [if_pos hrk]
      exact (List.filterMap_congr fun d _ => by simp [Entry.deed?_deed, hrk]).trans List.filterMap_some
    · rw [if_neg hrk]
      exact List.filterMap_eq_nil_iff.mpr fun d _ => by simp [Entry.deed?_deed, hrk]
  exact {
    log := ⟨_, rfl, fun e he => by
      obtain ⟨d, _, rfl⟩ := List.mem_map.mp he
      exact Entry.isCall_deed r d⟩
    homes := rfl
    calls := rfl
    reacts := rfl
    observers := fun _ h => h
    targets := fun k l => Nat.le_of_eq (congrArg (fun x => x.targets.count (.client l)) (hlisteners k))
    count := Nat.le_of_eq (length_modifyRunner _).symm
    ran := fun k hk => by
      refine ran_setCore r hk ha rfl ?_ fun k hne => ?_
      · rw [hdeeds, if_pos rfl]
      · rw [hdeeds, if_neg fun e => hne e.symm, List.nil_append]
    born := fun k hk hlt => by
      rw [show (s.setCore r core).runners.length = s.runners.length from length_modifyRunner _] at hlt
      exact absurd hlt (Nat.not_lt.mpr hk)
    paused := fun _ => Nat.le_refl _
    idle := fun _ => id }

theorem unnoticed_takeLaunch (mode : Mode) (goals : List Goal) :
    Unnoticed s (s.takeLaunch r ((s.runner r).core.dispatchOpen mode goals)).2 := by
  have hs := Runner.acts_dispatchOpen (s.runner r).core mode goals
  unfold takeLaunch
  cases hl : ((s.runner r).core.dispatchOpen mode goals).1 with
  | none =>
      rw [hl] at hs
      exact unnoticed_act r s.tasks hs
  | some launch =>
      rw [hl] at hs
      exact unnoticed_act r _ hs

theorem unnoticed_dispatchOpen (mode : Mode) : Unnoticed s (s.dispatchOpen r mode).2 := by
  unfold dispatchOpen
  simp only
  split
  · have h := unnoticed_takeLaunch (s := s.probe (s.runner r).proof r .dispatching) (r := r) mode
      (s.proof (s.runner r).proof).openGoals
    rw [runner_probe] at h
    rw [proof_probe]
    exact (unnoticed_probe r .dispatching).trans h
  · exact .refl s

theorem unnoticed_tune {core : Runner} (h : (s.runner r).core.Act [] core) : Unnoticed s (s.setCore r core) :=
  unnoticed_act r s.tasks (.one h)

theorem unnoticed_autoStarted : Unnoticed s (s.autoStarted r) := unnoticed_tune .suspend

theorem unnoticed_autoStopped : Unnoticed s (s.autoStopped r).2 :=
  (unnoticed_tune .unsuspend).trans (unnoticed_dispatchOpen .fresh)

theorem unnoticed_setSolvers (solvers : SolverSet) : Unnoticed s (s.setSolvers r solvers).2 :=
  (unnoticed_tune (.setSolvers solvers)).trans (unnoticed_dispatchOpen .retry)

theorem unnoticed_giveUp {result : List BatchId × Runner}
    (h : (s.runner r).core.Act (result.1.map .stopped).reverse result.2) : Unnoticed s (s.giveUp r result) := by
  have hlog : (result.1.map (Entry.stopped r)).reverse =
      (result.1.map Deed.stopped).reverse.map (Deed.entry r) := by
    rw [List.map_reverse, List.map_map]
    rfl
  have h1 := unnoticed_act r (s.giveUp r result).tasks (.one h)
  rw [← hlog] at h1
  exact h1

theorem unnoticed_stopAll : Unnoticed s (s.stopAll r) := unnoticed_giveUp .stopAll

theorem unnoticed_refreshSettings (settings : Settings) : Unnoticed s (s.refreshSettings r settings) :=
  unnoticed_giveUp (.refresh settings)

theorem unnoticed_leaveActive : Unnoticed s (s.leaveActive p) := by
  unfold leaveActive
  split
  · exact .refl s
  · split
    · exact unnoticed_stopAll
    · exact .refl s

/-- The answers of a batch are taken in. -/
theorem unnoticed_answered {found kept : NodeId → Bool} {batch : BatchId} {outcomes : List Outcome} {core : Runner}
    (h : (s.runner r).core.complete found kept batch outcomes = some core) :
    Unnoticed s ((s.setCore r core).record (.completed r batch outcomes)) :=
  unnoticed_act r s.tasks (.one (.complete h))

/-- A runner is kept by someone else, or fewer clients listen to it. -/
theorem unnoticed_modifyRunner {f : Hosted → Hosted} (hc : ∀ x, (f x).core = x.core)
    (hl : ∀ x l, (f x).listeners.targets.count (.client l) ≤ x.listeners.targets.count (.client l)) :
    Unnoticed s (s.modifyRunner r f) where
  log := ⟨[], rfl, fun _ h => absurd h List.not_mem_nil⟩
  homes := rfl
  calls := rfl
  reacts := rfl
  observers _ h := h
  targets k l := by
    rcases runner_modifyRunner_cases (s := s) (r := r) (k := k) f with e | ⟨_, _, e⟩
    · exact Nat.le_of_eq (by rw [e])
    · rw [e]
      exact hl _ l
  count := Nat.le_of_eq (length_modifyRunner _).symm
  ran k _ := by
    refine .idle ?_ rfl
    rcases runner_modifyRunner_cases (s := s) (r := r) (k := k) f with e | ⟨_, _, e⟩
    · rw [e]
    · rw [e, hc]
  born k hk hlt := by
    rw [length_modifyRunner] at hlt
    exact absurd hlt (Nat.not_lt.mpr hk)
  paused _ := Nat.le_refl _
  idle _ := id

theorem unnoticed_setStanding (standing : Standing) : Unnoticed s (s.setStanding r standing) :=
  unnoticed_modifyRunner (fun _ => rfl) fun _ _ => Nat.le_refl _

/-- The registry listens to a runner. -/
theorem unnoticed_addTarget (p : ProofId) : Unnoticed s (s.addTarget r (.registry p)) :=
  unnoticed_modifyRunner (fun _ => rfl) fun x l => by simp [ListenerSet.add, ListenerSet.targets, List.count_append]

theorem unnoticed_clear : Unnoticed s (s.modifyRunner r fun x => { x with listeners := x.listeners.clear }) :=
  unnoticed_modifyRunner (fun _ => rfl) fun x l => by simp [ListenerSet.clear, ListenerSet.targets]

/-- **A runner ends**; its listeners are not told yet. -/
theorem unnoticed_ended : Unnoticed s (s.ended r) :=
  (unnoticed_giveUp .close).trans (unnoticed_modifyRunner (fun _ => rfl) fun _ _ => Nat.le_refl _)

theorem unnoticed_parted (h : Hosted) : Unnoticed s (s.parted r h) := by
  unfold parted
  split
  · exact (unnoticed_unsubscribe _).trans unnoticed_clear
  · exact unnoticed_clear

theorem untold_retire : Untold s (s.retire p) := unnoticed_retire.toUntold

theorem untold_ended : Untold s (s.ended r) := unnoticed_ended.toUntold

theorem untold_parted (h : Hosted) : Untold s (s.parted r h) := (unnoticed_parted h).toUntold

theorem unnoticed_enlist (settings : Settings) : Unnoticed s (s.enlist p settings).2 where
  log := ⟨[], rfl, fun _ h => absurd h List.not_mem_nil⟩
  homes := rfl
  calls := rfl
  reacts := rfl
  observers _ h := h
  targets k l := by
    rcases runner_enlist_cases (s := s) (p := p) settings k with ⟨e, _⟩ | ⟨_, e⟩
    · exact Nat.le_of_eq (by rw [e])
    · rw [e]
      exact Nat.zero_le _
  count := by
    rw [length_enlist]
    exact Nat.le_succ _
  ran k hk := .idle (by rw [runner_enlist_of_lt settings hk]) rfl
  born k hk hlt := by
    rw [length_enlist] at hlt
    obtain rfl : k = s.runners.length := Nat.le_antisymm (Nat.le_of_lt_succ hlt) hk
    rw [runner_enlist_self]
    exact ⟨settings, [], .start⟩
  paused q := by
    rcases proof_enlist_cases (s := s) (p := p) (q := q) settings with e | ⟨_, e⟩
    · exact Nat.le_of_eq (congrArg Watched.paused e)
    · exact Nat.le_of_eq ((congrArg Watched.paused e).trans rfl)
  idle q := by
    rcases proof_enlist_cases (s := s) (p := p) (q := q) settings with e | ⟨_, e⟩ <;>
      · rw [e]
        exact id

theorem forget_eq (s : Session) (r : RunnerId) :
    ∃ proofs, s.forget r = { s.modifyRunner r Hosted.givenUp with proofs } := by
  cases hid : (s.runner r).subscription with
  | none => exact ⟨_, forget_none hid⟩
  | some id => exact ⟨_, forget_some hid⟩

/-- The owner gives up a runner: nobody is told, no proof is paused. The batches that it had in flight are marked
    nowhere, so that it makes no act of the runner. -/
theorem untold_forgotten (s : Session) (r : RunnerId) : (s.forget r).log = s.log ∧
    (s.forget r).listeners = s.listeners ∧ (s.forget r).sinks = s.sinks ∧
    ∀ p, ((s.forget r).proof p).paused = (s.proof p).paused := by
  cases hid : (s.runner r).subscription with
  | none =>
      rw [forget_none hid]
      exact ⟨rfl, rfl, rfl, fun _ => rfl⟩
  | some id =>
      rw [forget_some hid]
      refine ⟨rfl, rfl, rfl, fun p => ?_⟩
      rcases proof_modifyProof_cases (s := s.modifyRunner r Hosted.givenUp) (p := (s.runner r).proof) (q := p)
        fun w => { w with subscribers := w.subscribers.filter fun x => x.id != id } with e | ⟨_, _, e⟩
      · exact congrArg Watched.paused e
      · exact (congrArg Watched.paused e).trans rfl

/-! ## 3. Clients -/

/-- Nobody new is on a list from which one was taken off. -/
theorem sublist_remove {α : Type} (l : ListenerSet α) (slot : Nat) : (l.remove slot).targets.Sublist l.targets :=
  List.filter_sublist.map _

/-- A listener gives up its registration. -/
theorem unnoticed_dispose (l : ListenerId) : Unnoticed s (s.dispose l) := by
  unfold dispose
  split
  · exact .refl s
  · rename_i x hx
    have hmodify : ∀ {α : Type} {g : Listener → α}, (∀ y : Listener, g { y with held := false } = g y) →
        (s.listeners.modify l fun y => { y with held := false }).map g = s.listeners.map g := by
      intro α g hg
      refine List.ext_getElem? fun i => ?_
      rw [List.getElem?_map, List.getElem?_modify, List.getElem?_map]
      cases s.listeners[i]? with
      | none => rfl
      | some y =>
          simp only [Option.map_eq_map, Option.map_some]
          split
          · rw [hg]
          · rfl
    have h0 : Unnoticed s { s with listeners := s.listeners.modify l fun y => { y with held := false } } := {
      Unnoticed.refl s with
      homes := hmodify fun _ => rfl
      calls := hmodify fun _ => rfl }
    simp only
    split
    · split
      · refine h0.trans (unnoticed_modifyRunner (fun _ => rfl) fun y k => ?_)
        exact (sublist_remove _ _).count_le _
      · exact h0.trans { Unnoticed.refl _ with observers := fun k hk => (sublist_remove _ _).subset hk }
    · exact h0

end Session

end GoalWatch
