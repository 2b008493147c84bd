import GoalWatch.Proofs.Session.Course
import GoalWatch.Proofs.Session.Registry.Invariant

/-!
# What observers saw last is what there is

Clients that only read ask for nothing when they are called. Then every observer that keeps its registration was
told of the last change of all that it can see. Between a change and the news of it nobody can ask for anything:
the registry is the first that a registered runner tells, and the observers are told right then.

* `Entry.viewFor?` -- what an observer saw when it was told of a change;
* `Session.Unseen` -- a step that changes nothing an observer could see;
* `Session.Watching` -- an orderly session of clients that only read, with some observers in their places;
* `Session.Current` -- what these saw last is what there is;
* `current_notifyObservers` -- all observers are told;
* `current_close`, `current_complete`, `current_activate` -- the changes of what they see, each with its news;
* `current_proofCall`, `current_move`, `current_run` -- one statement for each function that calls clients;
* **`observers_up_to_date`** -- observers in every run.
-/

namespace GoalWatch

/-- What the client saw, if the entry says that it was told of a change. -/
def Entry.viewFor? (l : ListenerId) : Entry → Option View
  | .notified k view => if k = l then some view else none
  | _ => none

/-- The entry says that a client was told of a change. -/
def Entry.isNews : Entry → Bool
  | .notified .. => true
  | _ => false

theorem Entry.viewFor?_of_isNews {x : Entry} (h : x.isNews = false) (l : ListenerId) : x.viewFor? l = none := by
  cases x with
  | notified => cases h
  | emitted | delivered | shown | requested | started | completed | stopped | probed => rfl

/-- **A listener only reads**, and is added to a runner that is there. -/
def Move.onlyReads (s : Session) : Move → Bool
  | .listen (.runner r) calls => r < s.runners.length && (calls s.listeners.length).isEmpty
  | .listen .registry calls => (calls s.listeners.length).isEmpty
  | _ => true

namespace Session

open Desk

variable {s s' s'' : Session} {p : ProofId} {r : RunnerId} {l : ListenerId} {again : Again}
  {A : ListenerId → Prop} {b : List Entry} {v : View}

/-! ## 1. What nobody sees -/

/-- All that the registry and its observers know of a runner is the same. -/
structure Alike (h h' : Hosted) : Prop where
  proof : h'.proof = h.proof
  closed : h'.core.closed = h.core.closed
  solved : h'.core.solved = h.core.solved
  listeners : h'.listeners = h.listeners

theorem Alike.refl (h : Hosted) : Alike h h := ⟨rfl, rfl, rfl, rfl⟩

/-- **A step that changes nothing an observer could see**, and tells nobody of anything. -/
structure Unseen (s s' : Session) : Prop where
  entries : s'.registry.entries = s.registry.entries
  active : s'.registry.active = s.registry.active
  observers : s'.registry.observers = s.registry.observers
  listeners : s'.listeners = s.listeners
  count : s.runners.length ≤ s'.runners.length
  runner : ∀ e ∈ s.registry.entries, Alike (s.runner e.2) (s'.runner e.2)
  log : ∃ es, s'.log = es ++ s.log ∧ ∀ x ∈ es, x.isNews = false

theorem Unseen.trans (h : Unseen s s') (h' : Unseen s' s'') : Unseen s s'' where
  entries := h'.entries.trans h.entries
  active := h'.active.trans h.active
  observers := h'.observers.trans h.observers
  listeners := h'.listeners.trans h.listeners
  count := Nat.le_trans h.count h'.count
  runner e he := by
    have h1 := h.runner e he
    have h2 := h'.runner e (h.entries ▸ he)
    exact ⟨h2.proof.trans h1.proof, h2.closed.trans h1.closed, h2.solved.trans h1.solved,
      h2.listeners.trans h1.listeners⟩
  log := by
    obtain ⟨es, e, hes⟩ := h.log
    obtain ⟨fs, e', hfs⟩ := h'.log
    refine ⟨fs ++ es, by rw [e', e, List.append_assoc], fun x hx => ?_⟩
    exact (List.mem_append.mp hx).elim (hfs x) (hes x)

theorem unseen_record {e : Entry} (h : e.isNews = false) : Unseen s (s.record e) :=
  ⟨rfl, rfl, rfl, rfl, Nat.le_refl _, fun _ _ => .refl _, [e], rfl, fun x hx => by
    rw [List.mem_singleton.mp hx]
    exact h⟩

theorem unseen_recordAll {es : List Entry} (h : ∀ e ∈ es, e.isNews = false) : Unseen s (s.recordAll es) :=
  ⟨rfl, rfl, rfl, rfl, Nat.le_refl _, fun _ _ => .refl _, es.reverse, rfl, fun x hx =>
    h x (List.mem_reverse.mp hx)⟩

/-- Something else changes. -/
theorem Unseen.aside (he : s'.registry.entries = s.registry.entries)
    (ha : s'.registry.active = s.registry.active) (ho : s'.registry.observers = s.registry.observers)
    (hl : s'.listeners = s.listeners) (hr : s'.runners = s.runners) (hlog : s'.log = s.log) : Unseen s s' where
  entries := he
  active := ha
  observers := ho
  listeners := hl
  count := Nat.le_of_eq (congrArg List.length hr).symm
  runner e _ := by
    unfold Session.runner
    rw [hr]
    exact .refl _
  log := ⟨[], hlog, fun _ h => absurd h List.not_mem_nil⟩

theorem Unseen.refl (s : Session) : Unseen s s := .aside rfl rfl rfl rfl rfl rfl

theorem unseen_modifyProof (f : Watched → Watched) : Unseen s (s.modifyProof p f) :=
  .aside rfl rfl rfl rfl rfl rfl

theorem unseen_tasks (tasks : List Task) : Unseen s { s with tasks } := .aside rfl rfl rfl rfl rfl rfl

theorem unseen_modifyRunner {f : Hosted → Hosted}
    (hf : ∀ e ∈ s.registry.entries, e.2 = r → Alike (s.runner r) (f (s.runner r))) :
    Unseen s (s.modifyRunner r f) where
  entries := rfl
  active := rfl
  observers := rfl
  listeners := rfl
  count := Nat.le_of_eq (length_modifyRunner _).symm
  runner e he := by
    rcases runner_modifyRunner_cases (s := s) (r := r) (k := e.2) f with hr | ⟨hr, _, hf'⟩
    · rw [hr]
      exact .refl _
    · rw [hf', hr]
      exact hf e he hr
  log := ⟨[], rfl, fun _ h => absurd h List.not_mem_nil⟩

/-- A runner that is not registered may change. -/
theorem unseen_free (hf : Free s.desk r) (f : Hosted → Hosted) : Unseen s (s.modifyRunner r f) :=
  unseen_modifyRunner fun e he hr => absurd hr (hf e he)

theorem unseen_setCore {core : Runner} (hc : core.closed = (s.runner r).core.closed)
    (hs : core.solved = (s.runner r).core.solved) : Unseen s (s.setCore r core) :=
  unseen_modifyRunner fun _ _ _ => ⟨rfl, hc, hs, rfl⟩

theorem unseen_takeLaunch {result : Option Launch × Runner}
    (hc : result.2.closed = (s.runner r).core.closed) (hs : result.2.solved = (s.runner r).core.solved) :
    Unseen s (s.takeLaunch r result).2 := by
  have h0 : Unseen s (s.setCore r result.2) := unseen_setCore hc hs
  unfold takeLaunch
  cases result.1 with
  | none => exact h0
  | some launch => exact h0.trans ((unseen_tasks _).trans (unseen_record rfl))

theorem unseen_probe (busy : RunnerId) (activity : Activity) : Unseen s (s.probe p busy activity) := by
  obtain ⟨es, hes, e⟩ := probe_eq (s := s) (p := p) busy activity
  rw [e]
  refine unseen_recordAll fun x hx => ?_
  obtain ⟨phase, rfl⟩ := hes x hx
  rfl

theorem unseen_dispatchOpen (mode : Mode) : Unseen s (s.dispatchOpen r mode).2 := by
  unfold dispatchOpen
  simp only
  split
  · refine (unseen_probe r .dispatching).trans (unseen_takeLaunch ?_ ?_) <;> rw [runner_probe]
    · exact Runner.dispatchOpen_closed ..
    · exact Station.dispatchOpen_solved ..
  · exact .refl s

theorem unseen_ruleApplied (goals : List Goal) : Unseen s (s.ruleApplied r goals).2 :=
  unseen_takeLaunch (Runner.dispatchOpen_closed ..) (Station.dispatchOpen_solved ..)

theorem unseen_autoStarted : Unseen s (s.autoStarted r) := by
  refine unseen_setCore ?_ ?_ <;> unfold Runner.suspend <;> split <;> rfl

theorem unseen_autoStopped : Unseen s (s.autoStopped r).2 := by
  have hcore : Unseen s (s.setCore r (s.runner r).core.unsuspend) := by
    refine unseen_setCore ?_ ?_ <;> unfold Runner.unsuspend <;> split <;> rfl
  exact hcore.trans (unseen_dispatchOpen .fresh)

theorem unseen_setSolvers (solvers : SolverSet) : Unseen s (s.setSolvers r solvers).2 := by
  have hcore : Unseen s (s.setCore r ((s.runner r).core.setSolvers solvers)) := unseen_setCore rfl rfl
  exact hcore.trans (unseen_dispatchOpen .retry)

theorem unseen_giveUp {result : List BatchId × Runner} (hc : result.2.closed = (s.runner r).core.closed)
    (hs : result.2.solved = (s.runner r).core.solved) : Unseen s (s.giveUp r result) := by
  refine (unseen_setCore hc hs).trans (Unseen.trans (unseen_recordAll fun x hx => ?_) (unseen_tasks _))
  obtain ⟨_, _, rfl⟩ := List.mem_map.mp hx
  rfl

theorem unseen_stopAll : Unseen s (s.stopAll r) := unseen_giveUp rfl rfl

theorem unseen_refreshSettings (settings : Settings) : Unseen s (s.refreshSettings r settings) :=
  unseen_giveUp rfl rfl

theorem unseen_lookUp (n : NodeId) : Unseen s (s.lookUp n) := by
  unfold lookUp
  split
  · exact .refl s
  · simp only
    split
    · exact unseen_probe _ _
    · exact .refl s

theorem unseen_leaveActive : Unseen s (s.leaveActive p) := by
  unfold leaveActive
  split
  · exact .refl s
  · split
    · exact unseen_stopAll
    · exact .refl s

theorem unseen_enlist (h : s.desk.Orderly) (settings : Settings) : Unseen s (s.enlist p settings).2 where
  entries := rfl
  active := rfl
  observers := rfl
  listeners := rfl
  count := by rw [length_enlist]; exact Nat.le_succ _
  runner e he := by
    rw [runner_enlist_of_lt settings (h.alive e he).1]
    exact .refl _
  log := ⟨[], rfl, fun _ h => absurd h List.not_mem_nil⟩

/-! ## 2. Observers in their places -/

/-- What an observer sees depends on the registry and on the registered runners only. -/
theorem view_eq (he : s'.registry.entries = s.registry.entries) (ha : s'.registry.active = s.registry.active)
    (hr : ∀ e ∈ s.registry.entries, (s'.runner e.2).core.solved = (s.runner e.2).core.solved ∧
      (s'.runner e.2).proof = (s.runner e.2).proof) : s'.view .registry = s.view .registry := by
  have hact : s'.registry.activeRunner? = s.registry.activeRunner? := by
    unfold Registry.activeRunner? Registry.runnerFor?
    rw [he, ha]
  have hproof : (s.registry.activeRunner?.map fun r => (s'.runner r).proof) =
      s.registry.activeRunner?.map fun r => (s.runner r).proof := by
    refine Option.map_congr fun r hr' => ?_
    obtain ⟨q, _, hq⟩ := Option.bind_eq_some_iff.mp hr'
    exact (hr _ (mem_of_runnerFor? hq)).2
  unfold view
  simp only
  rw [hact, hproof, he, List.map_congr_left fun e hm => by rw [(hr e hm).1]]

/-- The observer has its own place on the registry's list. -/
structure Seated (l : ListenerId) (x : Listener) (s : Session) : Prop where
  client : s.listeners[l]? = some x
  home : x.home = .registry
  slot : (x.slot, l) ∈ s.registry.observers.slots
  own : ∀ k y, s.listeners[k]? = some y → y.home = .registry → y.slot = x.slot → k = l

/-- **An orderly session of clients that only read**, with the observers in `A` in their places, that has gone on
    since `b` was written down. -/
structure Watching (A : ListenerId → Prop) (b : List Entry) (s : Session) : Prop where
  orderly : s.desk.Orderly
  mute : ∀ x ∈ s.listeners, x.calls = []
  below : ∀ x ∈ s.listeners, x.home = .registry → x.slot < s.registry.observers.nextSlot
  seat : ∀ l, A l → ∃ x, Seated l x s
  since : b <:+ s.log

/-- What the observer saw last since `b` was written down is what there is; before it was told of anything, that
    is `v`. -/
def UpToDate (b : List Entry) (v : View) (l : ListenerId) (s : Session) : Prop :=
  ∃ news, s.log = news ++ b ∧ s.view .registry = (news.findSome? (Entry.viewFor? l)).getD v

/-- **What the observers in `A` saw last is what there is.** -/
structure Current (A : ListenerId → Prop) (b : List Entry) (v : View) (s : Session) : Prop
    extends Watching A b s where
  fresh : ∀ l, A l → UpToDate b v l s

theorem Watching.same (h : Watching A b s) (ho : s'.desk.Orderly) (hl : s'.listeners = s.listeners)
    (hobs : s'.registry.observers = s.registry.observers) (hlog : s.log <:+ s'.log) : Watching A b s' where
  orderly := ho
  mute := by rw [hl]; exact h.mute
  below := by rw [hl, hobs]; exact h.below
  seat l hA := by
    obtain ⟨x, hx⟩ := h.seat l hA
    exact ⟨x, by rw [hl]; exact hx.client, hx.home, by rw [hobs]; exact hx.slot, by rw [hl]; exact hx.own⟩
  since := h.since.trans hlog

theorem Watching.longer {b' : List Entry} (h : Watching A b s) (hb : b' <:+ b) : Watching A b' s :=
  ⟨h.orderly, h.mute, h.below, h.seat, hb.trans h.since⟩

/-- From where it is now, a session is up to date. -/
theorem Watching.rebase (h : Watching A b s) : Current A s.log (s.view .registry) s where
  orderly := h.orderly
  mute := h.mute
  below := h.below
  seat := h.seat
  since := List.suffix_rfl
  fresh _ _ := ⟨[], rfl, rfl⟩

theorem watching_unseen (h : Watching A b s) (hu : Unseen s s') : Watching A b s' := by
  obtain ⟨es, e, _⟩ := hu.log
  have hentries : s'.desk.entries = s.desk.entries := hu.entries
  have hactive : s'.desk.active = s.desk.active := hu.active
  refine h.same ?_ hu.listeners hu.observers ⟨es, e.symm⟩
  refine h.orderly.narrow (by rw [hentries]) ?_ hu.listeners hu.count fun x hx => ?_
  · rw [hactive, hentries]
    exact h.orderly.active
  · rw [hentries] at hx
    have halike := hu.runner x hx
    exact ⟨halike.closed, halike.listeners⟩

/-- **What nobody sees leaves observers up to date.** -/
theorem current_unseen (h : Current A b v s) (hu : Unseen s s') : Current A b v s' where
  toWatching := watching_unseen h.toWatching hu
  fresh l hA := by
    obtain ⟨es, e, hes⟩ := hu.log
    obtain ⟨news, hnews, hview⟩ := h.fresh l hA
    refine ⟨es ++ news, by rw [e, hnews, List.append_assoc], ?_⟩
    have hnone : es.findSome? (Entry.viewFor? l) = none :=
      List.findSome?_eq_none_iff.mpr fun x hx => Entry.viewFor?_of_isNews (hes x hx) l
    rw [List.findSome?_append, hnone, Option.none_or, ← hview]
    exact view_eq hu.entries hu.active fun e he => ⟨(hu.runner e he).solved, (hu.runner e he).proof⟩

theorem current_foldl {α : Type} {f : Session → α → Session} {l : List α}
    (hf : ∀ x ∈ l, ∀ t, Current A b v t → Current A b v (f t x)) (h : Current A b v s) :
    Current A b v (l.foldl f s) := by
  induction l generalizing s with
  | nil => exact h
  | cons x rest ih =>
      exact ih (fun y hy => hf y (List.mem_cons_of_mem _ hy)) (hf x List.mem_cons_self s h)

/-! ## 3. News of a change -/

/-- Clients that only read are told of a change, and that is all. -/
theorem callListener_mute (again : Again) (h : ∀ x ∈ s.listeners, x.calls = []) (k : ListenerId) :
    ∃ es, callListener again s k = { s with log := es ++ s.log } ∧
      ∀ x, s.listeners[k]? = some x → es = [.notified k (s.view x.home)] := by
  unfold callListener
  cases hk : s.listeners[k]? with
  | none => exact ⟨[], rfl, fun _ e => by cases e⟩
  | some x =>
      refine ⟨[.notified k (s.view x.home)], ?_, fun y e => by cases e; rfl⟩
      simp only
      rw [h x (List.mem_of_getElem? hk)]
      rfl

theorem watching_callListener (h : Watching A b s) (k : ListenerId) :
    Watching A b (callListener again s k) := by
  obtain ⟨es, e, _⟩ := callListener_mute again h.mute k
  rw [e]
  exact h.same h.orderly rfl rfl (List.suffix_append ..)

/-- **An observer that is told of a change is up to date**, and who is up to date stays so. -/
theorem fresh_callListener (h : Watching A b s) (hA : A l) {k : ListenerId} (hk : k = l ∨ UpToDate b v l s) :
    UpToDate b v l (callListener again s k) := by
  obtain ⟨x, hx⟩ := h.seat l hA
  obtain ⟨es, e, hes⟩ := callListener_mute again h.mute k
  have hview : (callListener again s k).view .registry = s.view .registry := by
    rw [e]
    rfl
  have hlog : (callListener again s k).log = es ++ s.log := by rw [e]
  by_cases hkl : k = l
  · obtain ⟨older, ho⟩ := h.since
    have hnews := hes x (hkl ▸ hx.client)
    refine ⟨es ++ older, by rw [hlog, ← ho, List.append_assoc], ?_⟩
    rw [hview, hnews, hx.home, List.singleton_append, List.findSome?_cons]
    simp [Entry.viewFor?, hkl]
  · obtain ⟨news, hnews, hlast⟩ := hk.resolve_left hkl
    have hother : es.findSome? (Entry.viewFor? l) = none := by
      refine List.findSome?_eq_none_iff.mpr fun y hy => ?_
      cases hc : s.listeners[k]? with
      | none =>
          unfold callListener at hlog
          rw [hc] at hlog
          rw [List.self_eq_append_left.mp hlog] at hy
          exact absurd hy List.not_mem_nil
      | some z =>
          rw [hes z hc, List.mem_singleton] at hy
          rw [hy]
          exact if_neg hkl
    refine ⟨es ++ news, by rw [hlog, hnews, List.append_assoc], ?_⟩
    rw [hview, List.findSome?_append, hother, Option.none_or]
    exact hlast

theorem current_callListener (h : Current A b v s) (k : ListenerId) :
    Current A b v (callListener again s k) :=
  ⟨watching_callListener h.toWatching k, fun l hA => fresh_callListener h.toWatching hA (Or.inr (h.fresh l hA))⟩

/-- Some clients are told, the observers that are not up to date among them. -/
theorem current_callListeners (ks : List ListenerId) (h : Watching A b s)
    (hk : ∀ l, A l → l ∈ ks ∨ UpToDate b v l s) : Current A b v (ks.foldl (callListener again) s) := by
  induction ks generalizing s with
  | nil => exact ⟨h, fun l hA => (hk l hA).resolve_left List.not_mem_nil⟩
  | cons k rest ih =>
      refine ih (watching_callListener h k) fun l hA => ?_
      rcases hk l hA with hmem | hfresh
      · rcases List.mem_cons.mp hmem with rfl | hmem
        · exact Or.inr (fresh_callListener h hA (Or.inl rfl))
        · exact Or.inl hmem
      · exact Or.inr (fresh_callListener h hA (Or.inr hfresh))

/-- **After all observers were told of a change they are up to date**, whatever has changed. -/
theorem current_notifyObservers (h : Watching A b s) : Current A b v (notifyObservers again s) := by
  refine current_callListeners _ h fun l hA => Or.inl ?_
  obtain ⟨x, hx⟩ := h.seat l hA
  exact List.mem_map_of_mem hx.slot

theorem current_callTarget (h : Current A b v s) (t : Target) : Current A b v (callTarget again s t) := by
  cases t with
  | registry p =>
      show Current A b v (notifyObservers again (s.retire p))
      rw [retire_of_orderly h.orderly]
      exact current_notifyObservers h.toWatching
  | client k => exact current_callListener h k

theorem current_targets (h : Current A b v s) (targets : List Target) :
    Current A b v (targets.foldl (callTarget again) s) :=
  current_foldl (fun t _ _ ht => current_callTarget ht t) h

/-- **A registered runner has news**: observers learn of them, whatever has changed. -/
theorem current_registered (h : Watching A b s) (he : (p, r) ∈ s.desk.entries) :
    Current A b v (notifyRunner again s r) := by
  obtain ⟨_, rest, hslots⟩ := h.orderly.hooked _ he
  have htargets : (s.runner r).listeners.targets = .registry p :: rest.map Prod.snd :=
    congrArg (List.map Prod.snd) hslots
  have hfirst : Current A b v (callTarget again s (.registry p)) := by
    show Current A b v (notifyObservers again (s.retire p))
    rw [retire_of_orderly h.orderly]
    exact current_notifyObservers h
  unfold notifyRunner
  rw [htargets]
  exact current_targets hfirst _

/-! ## 4. The end of a runner -/

theorem registry_callListener (h : ∀ x ∈ s.listeners, x.calls = []) (k : ListenerId) :
    (callListener again s k).registry = s.registry := by
  obtain ⟨es, e, _⟩ := callListener_mute again h k
  rw [e]

/-- Nobody is registered or forgotten while clients that only read are told. -/
theorem registry_callListeners (ks : List ListenerId) (h : Watching A b s) :
    (ks.foldl (callListener again) s).registry = s.registry := by
  induction ks generalizing s with
  | nil => rfl
  | cons k rest ih => exact (ih (watching_callListener h k)).trans (registry_callListener h.mute k)

theorem registry_targets (targets : List Target) (h : Current A b v s) :
    (targets.foldl (callTarget again) s).registry = s.registry := by
  induction targets generalizing s with
  | nil => rfl
  | cons t rest ih =>
      refine (ih (current_callTarget h t)).trans ?_
      cases t with
      | registry p =>
          show (notifyObservers again (s.retire p)).registry = _
          rw [retire_of_orderly h.orderly]
          exact registry_callListeners _ h.toWatching
      | client k => exact registry_callListener h.mute k

/-- A runner that is not registered ends, and nobody sees it. -/
theorem unseen_ended (hf : Free s.desk r) : Unseen s (s.ended r) where
  entries := rfl
  active := rfl
  observers := rfl
  listeners := rfl
  count := Nat.le_of_eq length_ended.symm
  runner e he := by
    rcases runner_ended (s := s) (r := r) e.2 with hr | ⟨hr, _⟩
    · rw [hr]
      exact .refl _
    · exact absurd hr (hf e he)
  log := ⟨_, log_ended, fun x hx => by
    obtain ⟨_, _, rfl⟩ := List.mem_map.mp (List.mem_reverse.mp hx)
    rfl⟩

theorem unseen_parted (hf : Free s.desk r) (h : Hosted) : Unseen s (s.parted r h) := by
  unfold parted
  cases h.subscription with
  | none => exact unseen_free hf _
  | some id => exact (unseen_modifyProof _).trans (unseen_free (s := s.unsubscribe h.proof id) hf _)

theorem retire_spares (s : Session) (p : ProofId) : (s.retire p).listeners = s.listeners ∧
    (s.retire p).registry.observers = s.registry.observers ∧ (s.retire p).log = s.log := by
  unfold retire
  split
  · exact ⟨rfl, rfl, rfl⟩
  · split <;> exact ⟨rfl, rfl, rfl⟩

theorem free_of_registry (hr : s'.registry = s.registry) (hf : Free s.desk r) : Free s'.desk r := by
  intro e he
  have hentries : s'.desk.entries = s.desk.entries := congrArg Registry.entries hr
  rw [hentries] at he
  exact hf e he

/-- A registered runner that has ended is forgotten, and then all are told. -/
theorem current_forgotten (h : Watching A b s) (he : (p, r) ∈ s.desk.entries) :
    Current A b v (notifyRunner again (s.ended r) r) ∧ Free (notifyRunner again (s.ended r) r).desk r := by
  obtain ⟨hk, hfree⟩ := h.orderly.closing he butFor_ended (closed_ended (h.orderly.alive _ he).1)
  rw [← desk_retire_ended h.orderly he] at hk hfree
  obtain ⟨hlisteners, hobservers, hlog⟩ := retire_spares (s.ended r) p
  have hw : Watching A b ((s.ended r).retire p) :=
    h.same hk.orderly hlisteners hobservers (by rw [hlog]; exact ⟨_, log_ended.symm⟩)
  obtain ⟨rest, htargets⟩ := targets_ended h.orderly he
  have htold : Current A b v (notifyObservers again ((s.ended r).retire p)) := current_notifyObservers hw
  have hnotify : notifyRunner again (s.ended r) r =
      rest.foldl (callTarget again) (notifyObservers again ((s.ended r).retire p)) := by
    unfold notifyRunner
    rw [htargets]
    rfl
  rw [hnotify]
  refine ⟨current_targets htold rest, free_of_registry ?_ hfree⟩
  exact (registry_targets rest htold).trans (registry_callListeners _ hw)

/-- **The end of a runner**, registered or not. -/
theorem current_close (h : Current A b v s) : Current A b v (close again s r) := by
  cases hopen : (s.runner r).core.closed with
  | true =>
      unfold close
      simp only [hopen, if_true]
      exact h
  | false =>
      rw [close_eq again hopen]
      by_cases hf : Free s.desk r
      · have hend := current_unseen h (unseen_ended hf)
        have htold : Current A b v (notifyRunner again (s.ended r) r) := current_targets hend _
        refine current_unseen htold (unseen_parted (free_of_registry ?_ hf) _)
        exact registry_targets _ hend
      · simp only [Free, ne_eq, not_forall, not_not] at hf
        obtain ⟨⟨p, k⟩, he, rfl⟩ := hf
        have htold : Current A b v (notifyRunner again (s.ended k) k) ∧ _ := current_forgotten h.toWatching he
        exact current_unseen htold.1 (unseen_parted htold.2 _)

/-- The end of a runner that is not registered leaves the registry as it is. -/
theorem registry_close (h : Current A b v s) (hf : Free s.desk r) :
    (close again s r).registry = s.registry := by
  cases hopen : (s.runner r).core.closed with
  | true =>
      unfold close
      simp only [hopen, if_true]
  | false =>
      have hparted : ∀ (t : Session) (x : Hosted), (t.parted r x).registry = t.registry := by
        intro t x
        unfold parted
        cases x.subscription <;> rfl
      rw [close_eq again hopen, hparted]
      exact registry_targets _ (current_unseen h (unseen_ended hf))

/-! ## 5. Answers and events -/

theorem current_treeChanged (h : Current A b v s) : Current A b v (treeChanged again s r).2 := by
  unfold treeChanged
  split
  · exact h
  · exact current_unseen (current_targets h _) (unseen_dispatchOpen .fresh)

/-- **The answers of a batch**: what they prove is told at once, if the runner is registered. -/
theorem current_complete (h : Current A b v s) (batch : BatchId) (outcomes : List Outcome) :
    Current A b v (complete again s r batch outcomes) := by
  obtain ⟨es, hes, hcases⟩ := session_complete_cases again s r batch outcomes
  have hprobed : Unseen s (s.recordAll es) := unseen_recordAll fun x hx => by
    obtain ⟨phase, rfl⟩ := hes x hx
    rfl
  obtain ⟨_, e⟩ | ⟨core, hcore, e⟩ := hcases
  · rw [e]
    exact current_unseen h hprobed
  · have htold : Current A b v (notifyRunner again
        (((s.recordAll es).setCore r core).record (.completed r batch outcomes)) r) := by
      by_cases hf : Free s.desk r
      · have hfree := hprobed.trans (unseen_free (s := s.recordAll es) (r := r) hf fun x => { x with core })
        exact current_targets (current_unseen h (hfree.trans (unseen_record rfl))) _
      · simp only [Free, ne_eq, not_forall, not_not] at hf
        obtain ⟨⟨p, k⟩, he, rfl⟩ := hf
        have hclosed : core.closed = (s.runner k).core.closed := by
          obtain ⟨_, rfl⟩ := Runner.complete_cases.mp hcore
          rfl
        have hdesk : (((s.recordAll es).setCore k core).record (.completed k batch outcomes)).desk = s.desk :=
          desk_setCore (s := s.recordAll es) hclosed
        refine current_registered (h.toWatching.same (hdesk ▸ h.orderly) rfl rfl ?_) (hdesk ▸ he)
        exact (List.suffix_append ..).trans (List.suffix_cons ..)
    rw [e]
    simp only
    split
    · exact current_unseen htold (unseen_tasks _)
    · exact htold

/-- **Changes of a proof that a sink asks for leave observers up to date.** -/
def Informing (A : ListenerId → Prop) (b : List Entry) (v : View) (again : Again) : Prop :=
  ∀ p call s, Current A b v s → Current A b v (again (.proof p call) s)

section Calls

variable (ha : Informing A b v again)

theorem current_handleEvent (h : Current A b v s) (e : Event) : Current A b v (handleEvent again s r e) := by
  cases e with
  | ruleApplied goals => exact current_unseen h (unseen_ruleApplied goals)
  | autoModeStarted => exact current_unseen h unseen_autoStarted
  | autoModeStopped => exact current_unseen h unseen_autoStopped
  | treeStructureChanged => exact current_treeChanged h
  | proofClosed => exact current_close h

include ha

theorem current_showTo (h : Current A b v s) (e : Event) (x : Subscriber) :
    Current A b v (showTo again p e s x) := by
  have h0 := current_unseen h (unseen_record (e := .shown p x.id e) rfl)
  unfold showTo
  cases x.sink with
  | runner r => exact current_handleEvent h0 e
  | client k =>
      simp only
      split
      · exact h0
      · refine current_foldl (fun call _ t ht => ha p call t ht) (current_unseen h0 ?_)
        exact .aside rfl rfl rfl rfl rfl rfl

theorem current_deliver (h : Current A b v s) (e : Event) : Current A b v (deliver again p s e) :=
  current_foldl (fun x _ _ ht => current_showTo ha ht e x) (current_unseen h (unseen_record rfl))

theorem current_emit (h : Current A b v s) (e : Event) : Current A b v (emit again s p e) := by
  have h0 := current_unseen h (unseen_record (e := .emitted p e) rfl)
  unfold emit
  simp only
  split
  · exact current_unseen h0 (unseen_modifyProof _)
  · exact current_deliver ha h0 e

theorem current_resumeEvents (h : Current A b v s) : Current A b v (resumeEvents again s p) := by
  unfold resumeEvents
  simp only
  split
  · exact current_unseen h (unseen_modifyProof _)
  · exact current_foldl (fun e _ _ ht => current_deliver ha ht e) (current_unseen h (unseen_modifyProof _))

theorem current_applyRule (h : Current A b v s) (n : NodeId) (rule : String) (new : List Sequent) :
    Current A b v (applyRule again s p n rule new).2 := by
  unfold applyRule
  split
  · exact h
  · rename_i goals tree _
    have h1 := current_emit (p := p) ha (current_unseen h (unseen_modifyProof _ : Unseen s (s.setTree p tree)))
      (.ruleApplied goals)
    simp only
    split
    · exact current_emit ha h1 .proofClosed
    · exact h1

theorem current_prune (h : Current A b v s) (n : NodeId) : Current A b v (prune again s p n).2 := by
  unfold prune
  split
  · exact h
  · exact current_emit ha (current_unseen h (unseen_modifyProof _)) .treeStructureChanged

theorem current_proofCall (h : Current A b v s) (call : ProofCall) :
    Current A b v (proofCall again s p call) := by
  cases call with
  | applyRule n rule new => exact current_applyRule ha h n rule new
  | prune n => exact current_prune ha h n
  | startAuto => exact current_emit ha h .autoModeStarted
  | stopAuto => exact current_emit ha h .autoModeStopped
  | pause => exact current_unseen h (unseen_modifyProof _)
  | resume => exact current_resumeEvents ha h
  | unsubscribe id => exact current_unseen h (unseen_modifyProof _)

end Calls

theorem informing_perform : ∀ depth, Informing A b v (perform depth)
  | 0 => fun _ _ _ h => h
  | depth + 1 => fun _ call _ h => current_proofCall (informing_perform depth) h call

/-! ## 6. Selections -/

/-- **A proof that has a runner becomes the active one**, and observers are told. -/
theorem current_activate (h : Watching A b s) (he : (p, r) ∈ s.desk.entries) (mode : Mode) :
    Current A b v (activate again s p r mode).2 ∧
      (activate again s p r mode).2.registry = { s.registry with active := some p } := by
  have hset : Watching A b { s with registry := { s.registry with active := some p } } :=
    h.same (h.orderly.setActive he) rfl rfl List.suffix_rfl
  have hout := watching_unseen hset (unseen_dispatchOpen (r := r) mode)
  refine ⟨current_notifyObservers hout, ?_⟩
  refine (registry_callListeners _ hout).trans ?_
  exact (same_dispatchOpen mode).registry

theorem watching_admitted (h : Watching A b s) (hp : s.registry.runnerFor? p = none) (settings : Settings) :
    Watching A b (s.admitted p settings) :=
  h.same (goes_admitted h.orderly hp settings).orderly rfl rfl List.suffix_rfl

variable (again) in
/-- A selection during which nothing else happens. -/
theorem current_selectWith (h : Watching A b s) :
    Current A b v (selectWith again id s p).2 ∧ (selectWith again id s p).2.registry.active = some p := by
  have hleave : Watching A b (s.leaveActive p) := watching_unseen h unseen_leaveActive
  cases hp : s.registry.runnerFor? p with
  | some r =>
      have he : (p, r) ∈ (s.leaveActive p).desk.entries := by
        rw [desk_leaveActive]
        exact mem_of_runnerFor? hp
      unfold selectWith
      simp only [hp]
      obtain ⟨hc, hreg⟩ := current_activate hleave he _
      exact ⟨hc, by rw [hreg]⟩
  | none =>
      have hnone : (s.leaveActive p).registry.runnerFor? p = none := by
        rw [registry_leaveActive]
        exact hp
      rw [selectWith_new again hp]
      obtain ⟨hc, hreg⟩ := current_activate (watching_admitted hleave hnone _) (mem_admitted _) .fresh
      exact ⟨hc, by rw [hreg]⟩

variable (again) in
theorem current_afterSubscribe (h : Current A b v s) : Current A b v (afterSubscribe again p s) := by
  cases hf : (s.proof p).facade.selectOnSubscribe with
  | false =>
      unfold afterSubscribe
      rw [if_neg (by rw [hf]; exact Bool.false_ne_true)]
      exact h
  | true =>
      rw [afterSubscribe_eq again hf]
      exact (current_selectWith again (watching_unseen h.toWatching (unseen_modifyProof _))).1

variable (again) in
/-- A candidate that comes too late ends, and the registry stays as it is. -/
theorem current_register (h : Current A b v s) {w k : RunnerId} (he : (p, w) ∈ s.desk.entries)
    (hf : Free s.desk k) : ∃ t, register again s p k = (w, t) ∧ Current A b v t ∧ t.registry = s.registry := by
  have hadd := current_unseen h (unseen_free hf fun x => { x with listeners := x.listeners.add (.registry p) })
  have hfor : (s.addTarget k (.registry p)).registry.runnerFor? p = some w :=
    (runnerFor?_eq_some h.orderly).mpr he
  unfold register
  simp only [hfor]
  exact ⟨_, rfl, current_close hadd, registry_close hadd hf⟩

/-- **Two selections at once**: the candidate from outside ends, and the runner from inside is activated. -/
theorem current_race (hd : Discreet again) (h : Current A b v s) (hp : s.registry.runnerFor? p = none)
    (hf : (s.proof p).facade.selectOnSubscribe = true) : Current A b v (select again s p).2 := by
  have hleave := current_unseen h (unseen_leaveActive (p := p))
  have hnew := current_unseen hleave (unseen_enlist (p := p) hleave.orderly s.registry.settings)
  have hflag : (((s.leaveActive p).enlist p s.registry.settings).2.proof p).facade.selectOnSubscribe =
      true := by
    rw [facade_enlist, proof_leaveActive]
    exact hf
  have hask := current_unseen hnew (unseen_modifyProof (p := p) fun w =>
    { w with facade := { w.facade with selectOnSubscribe := false } })
  obtain ⟨hin, hact⟩ := current_selectWith (p := p) (v := v) again hask.toWatching
  obtain ⟨_, _, hprep⟩ := selectWith_id (p := p) again hask.orderly
  have hgoes := hprep.goes.trans (hprep.keeps hd).2.weaken
  rw [← afterSubscribe_eq again hflag] at hin hact hgoes
  -- the candidate is older than the runner from inside, and younger than all others
  have hfree : Free (afterSubscribe again p ((s.leaveActive p).enlist p s.registry.settings).2).desk
      (s.leaveActive p).runners.length := by
    intro e he
    rcases hgoes.news e he with hold | ⟨_, hle⟩
    · exact Nat.ne_of_lt (hleave.orderly.alive e hold).1
    · have hcount : (s.leaveActive p).runners.length + 1 ≤ e.2 :=
        Nat.le_trans (Nat.le_of_eq (length_enlist (s := s.leaveActive p) (p := p) _).symm) hle
      exact Nat.ne_of_gt hcount
  obtain ⟨w, hw⟩ := hin.orderly.active p hact
  obtain ⟨t, hreg, hlost, hsame⟩ := current_register again hin hw hfree
  unfold select selectWith
  simp only [hp]
  rw [show ((s.leaveActive p).enlist p s.registry.settings).1 = (s.leaveActive p).runners.length from rfl,
    hreg]
  refine (current_activate hlost.toWatching ?_ .fresh).1
  show (p, w) ∈ t.registry.entries
  rw [hsame]
  exact hw

theorem current_select (hd : Discreet again) (h : Current A b v s) : Current A b v (select again s p).2 := by
  by_cases hone : (s.proof p).facade.selectOnSubscribe = false ∨ ∃ r, s.registry.runnerFor? p = some r
  · rw [select_eq again hone]
    exact (current_selectWith again h.toWatching).1
  · obtain ⟨hf, hnone⟩ := not_or.mp hone
    refine current_race hd h ?_ (Bool.not_eq_false _ ▸ hf)
    exact Option.eq_none_iff_forall_ne_some.mpr fun r hr => hnone ⟨r, hr⟩

/-! ## 7. Every move -/

theorem current_newRunner (h : Current A b v s) (settings : Settings) :
    Current A b v (newRunner again s p settings).2 := by
  have hnew := current_afterSubscribe (p := p) again
    (current_unseen h (unseen_enlist (p := p) h.orderly settings))
  exact current_unseen hnew (unseen_modifyRunner fun _ _ _ => ⟨rfl, rfl, rfl, rfl⟩)

theorem current_refreshAll (h : Current A b v s) (settings : Settings) :
    Current A b v (refreshAll again s settings) := by
  have hset : Current A b v { s with registry := { s.registry with settings } } :=
    current_unseen h (.aside rfl rfl rfl rfl rfl rfl)
  have hall := current_foldl (l := s.registry.entries)
    (fun e _ _ ht => current_unseen ht (unseen_refreshSettings (r := e.2) settings)) hset
  unfold refreshAll
  simp only
  split
  · exact current_notifyObservers (watching_unseen hall.toWatching (unseen_dispatchOpen .fresh))
  · exact current_notifyObservers hall.toWatching

/-- All runners leave the registry before they end, and observers are told once more at last. -/
theorem current_shutdownAll (h : Current A b v s) : Current A b v (shutdownAll again s) := by
  have hnone : Watching A b { s with registry := { s.registry with active := none, entries := [] } } :=
    h.toWatching.same (h.orderly.narrow (List.nil_sublist _) (fun _ hq => by cases hq) rfl (Nat.le_refl _)
      fun _ he => absurd he List.not_mem_nil) rfl rfl List.suffix_rfl
  have hall := current_foldl (l := s.registry.entries) (f := fun t e => close again t e.2)
    (fun _ _ _ ht => current_close ht) hnone.rebase
  exact current_notifyObservers (hall.toWatching.longer h.since)

theorem current_runnerCall (h : Current A b v s) (call : RunnerCall) :
    Current A b v (runnerCall again s r call).2 := by
  cases call with
  | dispatch => exact current_unseen h (unseen_dispatchOpen .fresh)
  | resume => exact current_unseen h (unseen_dispatchOpen .retry)
  | ruleApplied goals => exact current_unseen h (unseen_ruleApplied goals)
  | autoStarted => exact current_unseen h unseen_autoStarted
  | autoStopped => exact current_unseen h unseen_autoStopped
  | treeChanged => exact current_treeChanged h
  | close => exact current_close h
  | completed batch outcomes => exact current_complete h batch outcomes
  | refresh settings => exact current_unseen h (unseen_refreshSettings settings)
  | setSolvers solvers => exact current_unseen h (unseen_setSolvers solvers)
  | stopAll => exact current_unseen h unseen_stopAll

/-- What is known of runners besides whom they tell stays, when clients come and go. -/
theorem view_listeners (listeners : List Listener) (f : ListenerSet Target → ListenerSet Target) :
    (modifyRunner { s with listeners } r fun x => { x with listeners := f x.listeners }).view .registry =
      s.view .registry := by
  refine view_eq rfl rfl fun e _ => ?_
  rcases runner_modifyRunner_cases (s := { s with listeners }) (r := r) (k := e.2)
    (fun x => { x with listeners := f x.listeners }) with hr | ⟨_, _, hr⟩ <;> rw [hr] <;> exact ⟨rfl, rfl⟩

/-- A client that only reads comes in. -/
theorem Watching.enter (h : Watching A b s) {y : Listener} (ho : s'.desk.Orderly)
    (hl : s'.listeners = s.listeners ++ [y]) (hy : y.calls = [])
    (hslot : y.home = .registry → y.slot = s.registry.observers.nextSlot ∧
      y.slot < s'.registry.observers.nextSlot)
    (hnext : s.registry.observers.nextSlot ≤ s'.registry.observers.nextSlot)
    (hslots : ∀ z ∈ s.registry.observers.slots, z ∈ s'.registry.observers.slots) (hlog : s'.log = s.log) :
    Watching A b s' where
  orderly := ho
  mute x hx := by
    rw [hl] at hx
    rcases List.mem_append.mp hx with hx | hx
    · exact h.mute x hx
    · rw [List.mem_singleton.mp hx]
      exact hy
  below x hx hhome := by
    rw [hl] at hx
    rcases List.mem_append.mp hx with hx | hx
    · exact Nat.lt_of_lt_of_le (h.below x hx hhome) hnext
    · rw [List.mem_singleton.mp hx] at hhome ⊢
      exact (hslot hhome).2
  seat l hA := by
    obtain ⟨x, hx⟩ := h.seat l hA
    have hlt := (List.getElem?_eq_some_iff.mp hx.client).1
    refine ⟨x, by rw [hl, List.getElem?_append_left hlt]; exact hx.client, hx.home, hslots _ hx.slot,
      fun k z hz hhome hsame => ?_⟩
    rw [hl] at hz
    rcases Nat.lt_or_ge k s.listeners.length with hk | hk
    · rw [List.getElem?_append_left hk] at hz
      exact hx.own k z hz hhome hsame
    · -- the new client has a place of its own
      rw [List.getElem?_append_right hk] at hz
      have hz : z = y := List.mem_singleton.mp (List.mem_of_getElem? hz)
      have hold := h.below x (List.mem_of_getElem? hx.client) hx.home
      rw [hz] at hhome hsame
      have hnew := (hslot hhome).1
      omega
  since := by rw [hlog]; exact h.since

theorem watching_addListener (h : Watching A b s) {home : Home} {calls : ListenerId → List Call}
    (hm : (Move.listen home calls).onlyReads s = true) : Watching A b (s.addListener home calls) := by
  cases home with
  | runner r =>
      obtain ⟨hr, hcalls⟩ := Bool.and_eq_true_iff.mp hm
      have hfair : (Move.listen (.runner r) calls).isFair s = true := hr
      exact h.enter (keeps_addListener h.orderly hfair).orderly rfl (List.isEmpty_iff.mp hcalls)
        (fun e => by cases e) (Nat.le_refl _) (fun _ hz => hz) rfl
  | registry =>
      exact h.enter (keeps_addListener h.orderly rfl).orderly rfl (List.isEmpty_iff.mp hm)
        (fun _ => ⟨rfl, Nat.lt_succ_self _⟩) (Nat.le_succ _) (fun _ hz => List.mem_append_left _ hz) rfl

theorem current_addListener (h : Current A b v s) {home : Home} {calls : ListenerId → List Call}
    (hm : (Move.listen home calls).onlyReads s = true) : Current A b v (s.addListener home calls) where
  toWatching := watching_addListener h.toWatching hm
  fresh l hA := by
    obtain ⟨news, hnews, hview⟩ := h.fresh l hA
    cases home with
    | runner r =>
        refine ⟨news, hnews, Eq.trans ?_ hview⟩
        exact view_listeners _ fun ls => ls.add (.client s.listeners.length)
    | registry => exact ⟨news, hnews, hview⟩

/-- A new observer has its place, and is up to date from now on. -/
theorem current_observer (h : Watching A b s) {calls : ListenerId → List Call}
    (hm : (Move.listen .registry calls).onlyReads s = true) :
    Current (· = s.listeners.length) (s.addListener .registry calls).log
      ((s.addListener .registry calls).view .registry) (s.addListener .registry calls) := by
  have hw := watching_addListener h hm
  refine Watching.rebase (b := b) ⟨hw.orderly, hw.mute, hw.below, fun l hl => ?_, hw.since⟩
  rw [hl]
  refine ⟨⟨.registry, s.registry.observers.nextSlot, true, calls s.listeners.length⟩, ?_, rfl, ?_, ?_⟩
  · exact List.getElem?_concat_length
  · exact List.mem_append_right _ (List.mem_singleton.mpr rfl)
  · intro k y hy hhome hsame
    rcases Nat.lt_or_ge k s.listeners.length with hk | hk
    · have hold : s.listeners[k]? = some y := (List.getElem?_append_left hk).symm.trans hy
      have hlt := h.below y (List.mem_of_getElem? hold) hhome
      rw [hsame] at hlt
      exact absurd hlt (Nat.lt_irrefl _)
    · have hlt := (List.getElem?_eq_some_iff.mp hy).1
      have hlen : (s.addListener .registry calls).listeners.length = s.listeners.length + 1 :=
        List.length_append
      exact Nat.le_antisymm (by omega) hk

/-- What a client was, after one has given up its registration. -/
theorem client_disposed {ls : List Listener} {k i : ListenerId} {y : Listener}
    (h : (ls.modify k fun x => { x with held := false })[i]? = some y) :
    ∃ z, ls[i]? = some z ∧ y.home = z.home ∧ y.slot = z.slot ∧ y.calls = z.calls := by
  rw [List.getElem?_modify] at h
  obtain ⟨z, hz, rfl⟩ := Option.map_eq_some_iff.mp h
  refine ⟨z, hz, ?_⟩
  by_cases hi : k = i <;> simp [hi]

/-- A client gives up its registration; the observers in `A` keep theirs. -/
theorem Watching.leave (h : Watching A b s) {k : ListenerId} (hk : ¬ A k) (ho : s'.desk.Orderly)
    (hl : s'.listeners = s.listeners.modify k fun x => { x with held := false })
    (hnext : s'.registry.observers.nextSlot = s.registry.observers.nextSlot)
    (hslots : ∀ l x, A l → Seated l x s → (x.slot, l) ∈ s'.registry.observers.slots) (hlog : s'.log = s.log) :
    Watching A b s' where
  orderly := ho
  mute x hx := by
    obtain ⟨i, hi⟩ := List.getElem?_of_mem hx
    obtain ⟨z, hz, _, _, hcalls⟩ := client_disposed (hl ▸ hi)
    rw [hcalls]
    exact h.mute z (List.mem_of_getElem? hz)
  below x hx hhome := by
    obtain ⟨i, hi⟩ := List.getElem?_of_mem hx
    obtain ⟨z, hz, hsame, hslot, _⟩ := client_disposed (hl ▸ hi)
    rw [hslot, hnext]
    exact h.below z (List.mem_of_getElem? hz) (hsame ▸ hhome)
  seat l hA := by
    obtain ⟨x, hx⟩ := h.seat l hA
    have hne : k ≠ l := fun e => hk (e ▸ hA)
    refine ⟨x, ?_, hx.home, hslots l x hA hx, fun i y hy hhome hsame => ?_⟩
    · rw [hl, List.getElem?_modify_ne _ _ hne]
      exact hx.client
    · obtain ⟨z, hz, hsame', hslot, _⟩ := client_disposed (hl ▸ hy)
      exact hx.own i z hz (hsame' ▸ hhome) (hslot ▸ hsame)
  since := by rw [hlog]; exact h.since

theorem current_dispose (h : Current A b v s) {k : ListenerId} (hk : ¬ A k) : Current A b v (s.dispose k) := by
  have ho := (keeps_dispose h.orderly k).orderly
  unfold dispose at ho ⊢
  cases hc : s.listeners[k]? with
  | none => exact h
  | some x =>
      simp only [hc] at ho ⊢
      split
      · rename_i hheld
        rw [if_pos hheld] at ho
        cases hhome : x.home with
        | runner r =>
            simp only [hhome] at ho ⊢
            refine ⟨h.toWatching.leave hk ho rfl rfl (fun _ _ _ hx => hx.slot) rfl, fun l hA => ?_⟩
            obtain ⟨news, hnews, hview⟩ := h.fresh l hA
            exact ⟨news, hnews, (view_listeners _ fun ls => ls.remove x.slot).trans hview⟩
        | registry =>
            simp only [hhome] at ho ⊢
            refine ⟨h.toWatching.leave hk ho rfl rfl (fun l y hA hy => ?_) rfl, h.fresh⟩
            -- the place that is given up is another one
            refine List.mem_filter.mpr ⟨hy.slot, bne_iff_ne.mpr fun e => hk ?_⟩
            rw [hy.own k x hc hhome e.symm]
            exact hA
      · rename_i hheld
        rw [if_neg hheld] at ho
        exact ⟨h.toWatching.leave hk ho rfl rfl (fun _ _ _ hx => hx.slot) rfl, h.fresh⟩

/-- **A move leaves observers up to date**, as long as clients only read and no observer in `A` gives up its
    registration. -/
theorem current_move (ha : Informing A b v again) (hd : Discreet again) (h : Current A b v s) {m : Move}
    (hm : m.onlyReads s = true) (hk : ∀ l, A l → m ≠ .dispose l) : Current A b v (move again s m) := by
  cases m with
  | select p => exact current_select hd h
  | applyResult n =>
      exact applyResult_keep (fun _ _ _ call _ ht => current_proofCall ha ht call)
        (current_unseen h (unseen_lookUp n))
  | refreshAll settings => exact current_refreshAll h settings
  | shutdownAll => exact current_shutdownAll h
  | proof p call => exact current_proofCall ha h call
  | newRunner p settings => exact current_newRunner h settings
  | runner r call => exact current_runnerCall h call
  | finish o outcomes =>
      show Current A b v (if .launch o ∈ s.tasks then _ else s)
      split
      · exact current_complete (current_unseen h (unseen_tasks _)) _ outcomes
      · exact h
  | listen home calls => exact current_addListener h hm
  | subscribe p react => exact current_unseen h (.aside rfl rfl rfl rfl rfl rfl)
  | dispose l => exact current_dispose h fun hA => hk l hA rfl
  | present p tree facade => exact current_unseen h (unseen_modifyProof _)

theorem current_run (ha : Informing A b v again) (hd : Discreet again) (moves : List Move)
    (hm : along again Move.onlyReads s moves = true) (hk : ∀ l, A l → ∀ m ∈ moves, m ≠ .dispose l)
    (h : Current A b v s) : Current A b v (run again s moves) := by
  induction moves generalizing s with
  | nil => exact h
  | cons m rest ih =>
      obtain ⟨hfirst, hrest⟩ := Bool.and_eq_true_iff.mp hm
      refine ih hrest (fun l hA m hmem => hk l hA m (List.mem_cons_of_mem _ hmem)) ?_
      exact current_move ha hd h hfirst fun l hA => hk l hA m List.mem_cons_self

theorem current_start (proofs : List (String × Tree)) (settings : Settings) :
    Current (fun _ => False) [] ((start proofs settings).view .registry) (start proofs settings) where
  orderly := orderly_start proofs settings
  mute _ hx := absurd hx List.not_mem_nil
  below _ hx := absurd hx List.not_mem_nil
  seat _ h := h.elim
  since := List.suffix_rfl
  fresh _ h := h.elim

/-- The active proof that an observer sees is the one of the registry. -/
theorem view_active (h : s.desk.Orderly) (hw : Wired s) : s.view .registry =
    .registry (s.registry.entries.map fun e => (e.1, (s.runner e.2).core.solved)) s.registry.active := by
  have hact : (s.registry.activeRunner?.map fun r => (s.runner r).proof) = s.registry.active := by
    unfold Registry.activeRunner?
    cases hp : s.registry.active with
    | none => rfl
    | some p =>
        obtain ⟨r, hr⟩ := h.active p hp
        rw [Option.bind_some, (runnerFor?_eq_some h).mpr hr]
        exact congrArg some (hw.entry _ hr).2
  unfold view
  simp only [hact]

/-- **Observers are never left behind.** Clients only read, and an observer keeps its registration. After any
    moves, what it saw when it was last told of a change is what there is: the registered proofs, what their
    runners proved, and the active proof. Before it was told of any change, that is what there was when it came. -/
theorem observers_up_to_date (depth : Nat) (proofs : List (String × Tree)) (settings : Settings)
    (before after : List Move) (calls : ListenerId → List Call)
    (hm : along (perform depth) Move.onlyReads (start proofs settings)
      (before ++ .listen .registry calls :: after) = true)
    (hk : ∀ m ∈ after, m ≠ .dispose (run (perform depth) (start proofs settings) before).listeners.length) :
    let again := perform depth
    let l := (run again (start proofs settings) before).listeners.length
    let s₀ := run again (start proofs settings) (before ++ [.listen .registry calls])
    let s := run again s₀ after
    (∃ news, s.log = news ++ s₀.log ∧
      s.view .registry = (news.findSome? (Entry.viewFor? l)).getD (s₀.view .registry)) ∧
    s.view .registry =
      .registry (s.registry.entries.map fun e => (e.1, (s.runner e.2).core.solved)) s.registry.active := by
  intro again l s₀ s
  have hd : Discreet again := discreet_perform depth
  rw [along_append] at hm
  obtain ⟨hbefore, hlater⟩ := Bool.and_eq_true_iff.mp hm
  obtain ⟨hlisten, hafter⟩ := Bool.and_eq_true_iff.mp hlater
  have h0 := current_run (informing_perform depth) hd before hbefore (fun _ h => h.elim)
    (current_start proofs settings)
  have hs₀ : s₀ = (run again (start proofs settings) before).addListener .registry calls :=
    run_append_singleton ..
  have h1 := current_observer h0.toWatching hlisten
  rw [← hs₀] at h1
  have h2 : Current (· = l) s₀.log (s₀.view .registry) s :=
    current_run (informing_perform depth) hd after (hs₀ ▸ hafter) (fun k hkl m hmem => hkl ▸ hk m hmem) h1
  have hw : Wired s := wired_run depth (wired_run depth (wired_start proofs settings) _) after
  exact ⟨h2.fresh l rfl, view_active h2.orderly hw⟩

/-- A node is proved, another proof is selected, and a sink that is shown the first rule closes the other goal of
    its proof from inside: the runner of that proof is gone, and the observer knows. -/
theorem observers_up_to_date_from_inside :
    let again := perform 3
    let first := start [("p", .ofGoals [{ succedent := ["a"] }, { succedent := ["b"] }]),
      ("q", .ofGoals [{ succedent := ["c"] }])] { solvers := .ofList [.z3] }
    let before : List Move := [.select 0]
    let after : List Move := [.listen (.runner 0) fun _ => [],
      .runner 0 (.completed 1 [{ node := 1, status := .valid }]),
      .subscribe 0 fun i _ => if i = 0 then [.applyRule 2 "close" []] else [], .select 1,
      .proof 0 (.applyRule 1 "close" [])]
    let s₀ := run again first (before ++ [.listen .registry fun _ => []])
    let s := run again s₀ after
    along again Move.onlyReads first (before ++ .listen .registry (fun _ => []) :: after) = true ∧
    (run again first before).listeners.length = 0 ∧ (∀ m ∈ after, m ≠ .dispose 0) ∧
    (run again s₀ (after.take 2)).view .registry = .registry [(0, [1])] (some 0) ∧
    s.view .registry = .registry [(1, [])] (some 1) ∧
    ∃ news, s.log = news ++ s₀.log ∧
      s.view .registry = (news.findSome? (Entry.viewFor? 0)).getD (s₀.view .registry) := by
  intro again first before after s₀ s
  have hm : along again Move.onlyReads first (before ++ .listen .registry (fun _ => []) :: after) = true := by
    decide +kernel
  have hl : (run again first before).listeners.length = 0 := by decide +kernel
  have hk : ∀ m ∈ after, m ≠ .dispose 0 := by
    intro m hm
    simp only [after, List.mem_cons, List.not_mem_nil, or_false] at hm
    rcases hm with rfl | rfl | rfl | rfl | rfl <;> exact fun e => by cases e
  have h := observers_up_to_date 3 _ _ before after (fun _ => []) hm (hl ▸ hk)
  exact ⟨hm, hl, hk, by decide +kernel, by decide +kernel, hl ▸ h.1⟩

end Session

end GoalWatch
