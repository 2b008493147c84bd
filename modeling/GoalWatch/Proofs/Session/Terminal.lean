import GoalWatch.Proofs.Session.Lasting
import GoalWatch.Proofs.Session.Registry.Observers
import GoalWatch.Session.Rehearsal

/-!
# The end of a runner is final

A runner that is closed has forgotten all, and nothing that comes later brings it back: it hands out nothing, gives up
nothing and starts telling its listeners of nothing. One thing goes on, though. A runner that is closed by one of its
listeners, while it tells all of them of a change, goes on with that round; whoever it has not come to yet is told of
the end and then once more.

* `Session.home?`, `Session.viewsOf` -- whom a client listens to, and what it has seen;
* `Session.InRound` -- a runner has come to a client in a round that it began before it was closed;
* `Session.Attached` -- who listens to whom, and how news came to them: it holds in all sessions (`attached_deals`);
* `Session.Inert`, `Session.Silent` -- a runner that has ended does nothing, and tells of nothing;
* `Session.Hushed` -- so it is with all runners that had ended;
* `lasting_hushed` -- this outlasts all that happens;
* `Session.Finished` -- a runner that has ended goes on with a round, `finished_round` -- all that comes of it;
* **`closed_is_terminal`** -- the end and all that comes after it;
* `told_after_end` -- a client that is told twice of one end.
-/

namespace GoalWatch

/-- The view is that of a runner that has ended, or that its owner gave up. -/
def View.IsEnded (v : View) : Prop := v = .gone ∨ v = .runner .closed [] []

namespace Session

variable {b s s' t u : Session} {r : RunnerId} {l : ListenerId} {depth : Nat} {done todo : List Target}

/-! ## 1. Who listens to whom -/

/-- Whom a client listens to. -/
def home? (s : Session) (l : ListenerId) : Option Home := (s.listeners.map Listener.home)[l]?

/-- What a client saw whenever it was told of a change, newest first. -/
def viewsOf (s : Session) (l : ListenerId) : List View := s.log.filterMap (Entry.viewFor? l)

/-- **A runner has come to a client while it tells of a change**, when all that was written down is `older`. It was
    not closed right before it began, and comes to this client once only. -/
def InRound (k : RunnerId) (l : ListenerId) (older : List Entry) : Prop :=
  ∃ depth u t done todo, (u.runner k).core.closed = false ∧ Untold u t ∧
    (t.runner k).listeners.targets = done ++ .client l :: todo ∧ .client l ∉ done ++ todo ∧
    (done.foldl (callTarget (perform depth)) t).log = older

/-- **Everyone listens to one place and is there once**, whoever is closed has ended, and runners tell their
    listeners of changes in rounds that they begin before they are closed. -/
structure Attached (s : Session) : Prop where
  observer : ∀ l ∈ s.registry.observers.targets, s.home? l = some .registry
  listener : ∀ k l, .client l ∈ (s.runner k).listeners.targets → s.home? l = some (.runner k)
  once : ∀ k l, (s.runner k).listeners.targets.count (.client l) ≤ 1
  ended : ∀ k, (s.runner k).core.closed = true → (s.runner k).core.Ended
  known : ∀ l v, .notified l v ∈ s.log → s.home? l ≠ none
  told : Throughout (fun x older => ∀ l v k, x = .notified l v → s.home? l = some (.runner k) → InRound k l older)
    s.log

theorem Untold.home? (h : Untold s s') (l : ListenerId) : s'.home? l = s.home? l := by
  unfold Session.home?
  rw [h.homes]

theorem Untold.viewsOf (h : Untold s s') (l : ListenerId) : s'.viewsOf l = s.viewsOf l := by
  obtain ⟨es, e, hes⟩ := h.log
  unfold Session.viewsOf
  rw [e, List.filterMap_append, List.filterMap_eq_nil_iff.mpr fun x hx => ?_, List.nil_append]
  refine Entry.viewFor?_of_isNews ?_ l
  have hcall := hes x hx
  cases x with
  | notified => cases hcall
  | emitted | delivered | shown | requested | started | completed | stopped | probed => rfl

theorem Untold.mem_targets (h : Untold s s') (hl : .client l ∈ (s'.runner r).listeners.targets) :
    .client l ∈ (s.runner r).listeners.targets :=
  List.count_pos_iff.mp (Nat.lt_of_lt_of_le (List.count_pos_iff.mpr hl) (h.targets r l))

theorem Attached.untold (h : Attached s) (hu : Untold s s') : Attached s' where
  observer l hl := (hu.home? l).trans (h.observer l (hu.observers l hl))
  listener k l hl := (hu.home? l).trans (h.listener k l (hu.mem_targets hl))
  once k l := Nat.le_trans (hu.targets k l) (h.once k l)
  ended k := by
    rcases Nat.lt_or_ge k s.runners.length with hlt | hge
    · obtain ⟨_, ha, _⟩ := hu.ran k hlt
      exact Runner.acts_closed (h.ended k) ha
    · -- a new runner is not closed, nor is one that is not there
      intro hclosed
      obtain ⟨_, _, ha⟩ := hu.born k hge (lt_of_closed hclosed)
      exact Runner.acts_closed (fun h => by cases h) ha hclosed
  known l v hm := by
    obtain ⟨es, e, hes⟩ := hu.log
    rw [e] at hm
    rw [hu.home?]
    refine (List.mem_append.mp hm).elim (fun hm => ?_) (h.known l v)
    cases hes _ hm
  told := by
    obtain ⟨es, e, hes⟩ := hu.log
    rw [e]
    simp only [hu.home?]
    refine h.told.append fun x hx _ l v k hx' => ?_
    have hcall := hes x hx
    rw [hx'] at hcall
    cases hcall

/-! ## 2. Runners that have ended -/

/-- The runner has ended, and hands out and gives up nothing. -/
structure Inert (r : RunnerId) (s t : Session) : Prop where
  ended : (t.runner r).core.Ended
  launches : (t.runner r).core.launches = (s.runner r).core.launches
  deeds : t.deeds r = s.deeds r

/-- **Nothing happens to a runner that has ended**: its listeners, also those that are new, are told of nothing. -/
structure Silent (r : RunnerId) (s t : Session) : Prop extends Inert r s t where
  views : ∀ l, t.home? l = some (.runner r) → t.viewsOf l = s.viewsOf l

/-- **Nothing happens to runners that had ended**, and clients listen to those they listened to. -/
structure Hushed (s t : Session) : Prop where
  attached : Attached t
  homes : s.listeners.map Listener.home <+: t.listeners.map Listener.home
  silent : ∀ r, (s.runner r).core.Ended → Silent r s t

theorem Inert.refl (h : (s.runner r).core.Ended) : Inert r s s := ⟨h, rfl, rfl⟩

theorem Inert.untold (h : Inert r b s) (hu : Untold s s') : Inert r b s' := by
  obtain ⟨ds, ha, hd⟩ := hu.ran r (lt_of_closed h.ended.closed)
  obtain ⟨rfl, hended, hlaunches⟩ := Runner.ended_acts h.ended ha
  exact ⟨hended, hlaunches.trans h.launches, hd.trans h.deeds⟩

theorem Silent.untold (h : Silent r b s) (hu : Untold s s') : Silent r b s' :=
  ⟨h.toInert.untold hu, fun l hl => (hu.viewsOf l).trans (h.views l ((hu.home? l).symm.trans hl))⟩

theorem Hushed.refl (h : Attached b) : Hushed b b :=
  ⟨h, List.prefix_rfl, fun _ hr => ⟨.refl hr, fun _ _ => rfl⟩⟩

theorem Hushed.untold (h : Hushed b s) (hu : Untold s s') : Hushed b s' :=
  ⟨h.attached.untold hu, hu.homes ▸ h.homes, fun r hr => (h.silent r hr).untold hu⟩

/-- Proofs and those who are subscribed to them are no concern of it. -/
theorem Hushed.beside (h : Hushed b s) (proofs : List Watched) (sinks : List ClientSink) :
    Hushed b { s with proofs, sinks } where
  attached := { h.attached with }
  homes := h.homes
  silent r hr := { h.silent r hr with }

/-- A proof starts telling of an event. -/
theorem Hushed.delivered (h : Hushed b s) (p : ProofId) (e : Event) (n : Nat) (ids : List SubscriptionId) :
    Hushed b (s.record (.delivered p e n ids)) where
  attached := {
    h.attached with
    known := fun l v hm => (List.mem_cons.mp hm).elim (fun e => by cases e) (h.attached.known l v)
    told := ⟨fun _ _ _ e => (by cases e), h.attached.told⟩ }
  homes := h.homes
  silent r hr := { h.silent r hr with }

/-- A client is told of a change, by the registry or by a runner in a round of its own. -/
theorem Hushed.notified (h : Hushed b s) {home : Home} (v : View) (hl : s.home? l = some home)
    (hr : ∀ k, home = .runner k → ¬ (b.runner k).core.Ended ∧ InRound k l s.log) :
    Hushed b (s.record (.notified l v)) where
  attached := {
    h.attached with
    known := fun k w hm => (List.mem_cons.mp hm).elim
      (fun e => by
        cases e
        exact fun hnone => by cases hl.symm.trans hnone)
      (h.attached.known k w)
    told := ⟨fun _ _ k e hk => by
      cases e
      exact (hr k (Option.some.inj (hl.symm.trans hk))).2, h.attached.told⟩ }
  homes := h.homes
  silent r hended := {
    h.silent r hended with
    views := fun k hk => by
      have hne : l ≠ k := by
        rintro rfl
        exact (hr r (Option.some.inj (hl.symm.trans hk))).1 hended
      refine Eq.trans ?_ ((h.silent r hended).views k hk)
      exact List.filterMap_cons_none (if_neg hne) }

/-- **Whatever clients ask for, nothing happens to runners that had ended.** -/
theorem lasting_hushed (b : Session) (H : List Home) :
    Lasting (fun _ => True) fun _ s => Hushed b s ∧ s.listeners.map Listener.home = H where
  aside h hu := ⟨h.1.untold hu.toUntold, hu.homes.trans h.2⟩
  loosen h _ := h
  pause _ h := ⟨h.1.beside _ _, h.2⟩
  raise _ h := ⟨h.1.beside _ _, h.2⟩
  lower h _ := ⟨h.1.beside _ _, h.2⟩
  clear _ h := ⟨h.1.beside _ _, h.2⟩
  listener _ _ _ _ _ := trivial
  sink _ _ _ _ _ _ _ _ := trivial
  observer {N u s l} v hu hl h := by
    have hhome : s.home? l = some .registry := by
      unfold home?
      rw [h.2, ← hu.2]
      exact hu.1.attached.observer l hl
    exact ⟨h.1.notified v hhome fun _ e => (by cases e), h.2⟩
  told {N u t k l} depth done todo v hu hopen hut ht h := by
    have hmem : .client l ∈ (t.runner k).listeners.targets := by
      rw [ht]
      exact List.mem_append_right _ List.mem_cons_self
    have hhome : (done.foldl (callTarget (perform depth)) t).home? l = some (.runner k) := by
      unfold home?
      rw [h.2, ← hu.2]
      exact hu.1.attached.listener k l (hut.mem_targets hmem)
    refine ⟨h.1.notified v hhome fun k' e => ?_, h.2⟩
    cases e
    -- the runner had not ended when the round began, nor before
    refine ⟨fun hended => hopen (hu.1.silent k hended).ended, depth, u, t, done, todo, ?_, hut, ht, fun hin => ?_, rfl⟩
    · exact Bool.eq_false_iff.mpr fun hclosed => hopen (hu.1.attached.ended k hclosed)
    · have hcount := Nat.le_trans (hut.targets k l) (hu.1.attached.once k l)
      have hpos := List.count_pos_iff.mpr hin
      rw [ht, List.count_append, List.count_cons_self] at hcount
      rw [List.count_append] at hpos
      omega
  fresh _ _ h _ := ⟨h.1.delivered _ _ _ _, h.2⟩
  flush _ _ _ _ _ _ _ _ _ h := ⟨h.1.delivered _ _ _ _, h.2⟩

/-- Calls from inside are part of it. -/
theorem hushed_perform (hb : Attached b) (depth : Nat) (call : Call) : Hushed b (perform depth call b) :=
  (carried_perform (lasting_hushed b _) depth (fun _ => 0) call b trivial ⟨.refl hb, rfl⟩).1

/-! ## 3. Deals -/

/-- The owner gives up a runner. -/
theorem Hushed.givenUp (h : Hushed b s) (r : RunnerId) : Hushed b (s.modifyRunner r Hosted.givenUp) := by
  have hcases := fun k => runner_modifyRunner_cases (s := s) (r := r) (k := k) Hosted.givenUp
  exact {
    attached := {
      observer := h.attached.observer
      listener := fun k l hl => by
        rcases hcases k with e | ⟨_, _, e⟩ <;> rw [e] at hl
        · exact h.attached.listener k l hl
        · exact absurd hl List.not_mem_nil
      once := fun k l => by
        rcases hcases k with e | ⟨_, _, e⟩ <;> rw [e]
        · exact h.attached.once k l
        · exact Nat.zero_le _
      ended := fun k => by
        rcases hcases k with e | ⟨_, _, e⟩ <;> rw [e]
        · exact h.attached.ended k
        · exact Runner.act_closed (h.attached.ended k) .stopAll
      known := h.attached.known
      told := h.attached.told }
    homes := h.homes
    silent := fun k hk => by
      have hs := h.silent k hk
      obtain ⟨_, hended, hlaunches⟩ := Runner.ended_act hs.ended .stopAll
      rcases hcases k with e | ⟨_, _, e⟩
      · exact ⟨⟨e ▸ hs.ended, (congrArg (·.core.launches) e).trans hs.launches, hs.deeds⟩, hs.views⟩
      · exact ⟨⟨e ▸ hended, (congrArg (·.core.launches) e).trans (hlaunches.trans hs.launches), hs.deeds⟩,
          hs.views⟩ }

theorem Hushed.forget (h : Hushed b s) (r : RunnerId) : Hushed b (s.forget r) := by
  obtain ⟨proofs, e⟩ := forget_eq s r
  rw [e]
  exact (h.givenUp r).beside proofs _

/-- A client that listens to someone is among the listeners. -/
theorem lt_of_home? {home : Home} (h : s.home? l = some home) : l < s.listeners.length := by
  obtain ⟨hlt, _⟩ := List.getElem?_eq_some_iff.mp h
  rwa [List.length_map] at hlt

theorem viewsOf_eq_nil (h : Attached s) (hl : s.home? l = none) : s.viewsOf l = [] := by
  refine List.filterMap_eq_nil_iff.mpr fun x hx => ?_
  cases x with
  | notified k v =>
      refine if_neg fun e => ?_
      subst e
      exact h.known k v hx hl
  | emitted | delivered | shown | requested | started | completed | stopped | probed => rfl

section Listen

variable (s) (home : Home) (calls : ListenerId → List Call)

theorem homes_addListener :
    (s.addListener home calls).listeners.map Listener.home = s.listeners.map Listener.home ++ [home] := by
  cases home <;> simp [addListener, addTarget, modifyRunner]

theorem home?_addListener (k : ListenerId) :
    (s.addListener home calls).home? k = if k = s.listeners.length then some home else s.home? k := by
  unfold home?
  rw [homes_addListener]
  split
  · rename_i hk
    rw [hk, List.getElem?_append_right (Nat.le_of_eq (List.length_map _)), List.length_map, Nat.sub_self]
    rfl
  · rename_i hk
    rcases Nat.lt_or_gt_of_ne hk with hlt | hgt
    · exact List.getElem?_append_left (by rwa [List.length_map])
    · rw [List.getElem?_eq_none, List.getElem?_eq_none] <;> simp <;> omega

/-- The new client stands last, at one place. -/
theorem runner_addListener (k : RunnerId) : (s.addListener home calls).runner k = s.runner k ∨
    home = .runner k ∧ (s.addListener home calls).runner k =
      { s.runner k with listeners := (s.runner k).listeners.add (.client s.listeners.length) } := by
  cases home with
  | registry => exact Or.inl rfl
  | runner r =>
      rcases runner_modifyRunner_cases (s := { s with listeners := s.listeners ++
          [{ home := .runner r, slot := (s.runner r).listeners.nextSlot, held := true
             calls := calls s.listeners.length }] }) (r := r) (k := k)
        (fun h => { h with listeners := h.listeners.add (.client s.listeners.length) }) with e | ⟨rfl, _, e⟩
      · exact Or.inl e
      · exact Or.inr ⟨rfl, e⟩

theorem targets_addListener (k : RunnerId) :
    ((s.addListener home calls).runner k).listeners.targets = (s.runner k).listeners.targets ∨
      home = .runner k ∧ ((s.addListener home calls).runner k).listeners.targets =
        (s.runner k).listeners.targets ++ [.client s.listeners.length] := by
  rcases runner_addListener s home calls k with e | ⟨hk, e⟩
  · exact Or.inl (by rw [e])
  · exact Or.inr ⟨hk, (congrArg (·.listeners.targets) e).trans List.map_append⟩

theorem core_addListener (k : RunnerId) : ((s.addListener home calls).runner k).core = (s.runner k).core := by
  rcases runner_addListener s home calls k with e | ⟨_, e⟩ <;> rw [e]

theorem observers_addListener :
    (s.addListener home calls).registry.observers.targets = s.registry.observers.targets ∨
      home = .registry ∧ (s.addListener home calls).registry.observers.targets =
        s.registry.observers.targets ++ [s.listeners.length] := by
  cases home with
  | registry => exact Or.inr ⟨rfl, List.map_append⟩
  | runner r => exact Or.inl rfl

theorem log_addListener : (s.addListener home calls).log = s.log := by
  cases home <;> rfl

variable {s home calls} in
theorem home?_addListener_of_some {x : Home} {k : ListenerId} (h : s.home? k = some x) :
    (s.addListener home calls).home? k = some x := by
  rw [home?_addListener, if_neg (Nat.ne_of_lt (lt_of_home? h))]
  exact h

theorem attached_addListener (h : Attached s) : Attached (s.addListener home calls) where
  observer k hk := by
    rcases observers_addListener s home calls with e | ⟨rfl, e⟩ <;> rw [e] at hk
    · exact home?_addListener_of_some (h.observer k hk)
    · rcases List.mem_append.mp hk with hk | hk
      · exact home?_addListener_of_some (h.observer k hk)
      · rw [home?_addListener, if_pos (List.mem_singleton.mp hk)]
  listener k l hl := by
    rcases targets_addListener s home calls k with e | ⟨rfl, e⟩ <;> rw [e] at hl
    · exact home?_addListener_of_some (h.listener k l hl)
    · rcases List.mem_append.mp hl with hl | hl
      · exact home?_addListener_of_some (h.listener k l hl)
      · cases List.mem_singleton.mp hl
        rw [home?_addListener, if_pos rfl]
  once k l := by
    rcases targets_addListener s home calls k with e | ⟨_, e⟩ <;> rw [e]
    · exact h.once k l
    · rw [List.count_append, List.count_singleton]
      split
      · -- nobody with the new number was there
        rename_i hnew
        cases beq_iff_eq.mp hnew
        refine Nat.le_of_eq (congrArg (· + 1) (List.count_eq_zero.mpr fun hin => ?_))
        exact Nat.lt_irrefl _ (lt_of_home? (h.listener k _ hin))
      · exact h.once k l
  ended k := by
    rw [core_addListener]
    exact h.ended k
  known l v hm := by
    rw [log_addListener] at hm
    obtain ⟨x, hx⟩ := Option.ne_none_iff_exists'.mp (h.known l v hm)
    rw [home?_addListener_of_some hx]
    exact Option.some_ne_none x
  told := by
    rw [log_addListener]
    refine h.told.imp fun x hx older hin l v k e hk => ?_
    subst e
    obtain ⟨y, hy⟩ := Option.ne_none_iff_exists'.mp (h.known l v hx)
    exact hin l v k rfl (hy.trans ((home?_addListener_of_some hy).symm.trans hk))

end Listen

/-- A client comes in, and may listen to a runner that has ended. -/
theorem hushed_listen (hb : Attached b) (h : Hushed b s) (home : Home) (calls : ListenerId → List Call) :
    Hushed b (s.addListener home calls) where
  attached := attached_addListener s home calls h.attached
  homes := by
    rw [homes_addListener]
    exact h.homes.trans (List.prefix_append _ _)
  silent r hr := {
    ended := core_addListener s home calls r ▸ (h.silent r hr).ended
    launches := by
      rw [core_addListener]
      exact (h.silent r hr).launches
    deeds := (congrArg (List.filterMap _) (log_addListener s home calls)).trans (h.silent r hr).deeds
    views := fun l hl => by
      refine (congrArg (List.filterMap _) (log_addListener s home calls)).trans ?_
      rw [home?_addListener] at hl
      split at hl
      · -- nobody has told the new client of anything
        rename_i hnew
        have hle : (s.listeners.map Listener.home).length ≤ l := Nat.le_of_eq ((List.length_map _).trans hnew.symm)
        have hs : s.home? l = none := List.getElem?_eq_none hle
        have hb' : b.home? l = none := List.getElem?_eq_none (Nat.le_trans h.homes.length_le hle)
        exact (viewsOf_eq_nil h.attached hs).trans (viewsOf_eq_nil hb hb').symm
      · exact (h.silent r hr).views l hl }

/-- **A deal leaves runners alone that had ended.** -/
theorem hushed_deal (depth : Nat) (hb : Attached b) (h : Hushed b s) (d : Deal) :
    Hushed b (deal (perform depth) s d) :=
  lasting_deal (N := fun _ => 0) (lasting_hushed b _) depth (fun _ ht => ht.1) (fun _ r ht => ht.1.forget r)
    (fun home calls _ => hushed_listen hb h home calls) (fun _ _ _ => h.beside _ _) (fun _ _ => h.beside _ _) ⟨h, rfl⟩

theorem hushed_deals (depth : Nat) (hb : Attached b) (h : Hushed b s) (ds : List Deal) :
    Hushed b (deals (perform depth) s ds) := by
  induction ds generalizing s with
  | nil => exact h
  | cons d rest ih => exact ih (hushed_deal depth hb h d)

theorem attached_start (proofs : List (String × Tree)) (settings : Settings) :
    Attached (start proofs settings) where
  observer _ h := absurd h List.not_mem_nil
  listener _ _ h := absurd h List.not_mem_nil
  once _ _ := Nat.zero_le _
  ended _ h := by cases h
  known _ _ h := absurd h List.not_mem_nil
  told := trivial

theorem attached_deals (depth : Nat) (proofs : List (String × Tree)) (settings : Settings) (ds : List Deal) :
    Attached (deals (perform depth) (start proofs settings) ds) :=
  (hushed_deals depth (attached_start proofs settings) (.refl (attached_start proofs settings)) ds).attached

/-! ## 4. Rounds that go on -/

/-- **A runner that has ended goes on with a round of news**, and tells each of the clients that are left, who see
    that it has ended. Nothing else happens to it. -/
structure Finished (r : RunnerId) (todo : List Target) (s t : Session) : Prop extends Inert r s t where
  views : ∀ l, t.home? l = some (.runner r) →
    ∃ vs, vs.length = todo.count (.client l) ∧ (∀ v ∈ vs, v.IsEnded) ∧ t.viewsOf l = vs ++ s.viewsOf l

theorem Silent.finished (h : Silent r s t) (htodo : ∀ l, .client l ∉ todo) : Finished r todo s t :=
  ⟨h.toInert, fun l hl =>
    ⟨[], (List.count_eq_zero.mpr (htodo l)).symm, fun _ hv => absurd hv List.not_mem_nil, h.views l hl⟩⟩

theorem Finished.trans {next : List Target} (h : Finished r done s t)
    (hhomes : u.listeners.map Listener.home = t.listeners.map Listener.home) (h' : Finished r next t u) :
    Finished r (done ++ next) s u where
  ended := h'.ended
  launches := h'.launches.trans h.launches
  deeds := h'.deeds.trans h.deeds
  views l hl := by
    obtain ⟨vs, hlength, hvs, e⟩ := h.views l (by unfold home?; rw [← hhomes]; exact hl)
    obtain ⟨ws, hlength', hws, e'⟩ := h'.views l hl
    refine ⟨ws ++ vs, ?_, fun v hv => (List.mem_append.mp hv).elim (hws v) (hvs v), ?_⟩
    · rw [List.length_append, List.count_append, hlength, hlength', Nat.add_comm]
    · rw [e', e, List.append_assoc]

theorem Finished.untold (h : Finished r todo s t) (hu : Untold t u) : Finished r todo s u := by
  refine ⟨h.toInert.untold hu, fun l hl => ?_⟩
  rw [hu.viewsOf]
  exact h.views l ((hu.home? l).symm.trans hl)

/-- What the listeners of a runner see when it has ended. -/
theorem isEnded_view (h : (s.runner r).core.Ended) : (s.view (.runner r)).IsEnded := by
  unfold view
  simp only
  split
  · rw [h.solved, h.inFlight, Runner.phase, Runner.phaseDuring, if_pos h.closed]
    exact Or.inr rfl
  · exact Or.inl rfl

variable (depth) in
/-- The calls of a client that was told of a change. -/
theorem hushed_calls (hs : Attached s) (calls : List Call) :
    Hushed s (calls.foldl (fun s c => perform depth c s) s) ∧
      (calls.foldl (fun s c => perform depth c s) s).listeners.map Listener.home = s.listeners.map Listener.home :=
  lasting_foldl (P := fun t => Hushed s t ∧ t.listeners.map Listener.home = s.listeners.map Listener.home)
    (fun call _ t ht => carried_perform (lasting_hushed s _) depth (fun _ => 0) call t trivial ht) ⟨.refl hs, rfl⟩

theorem finished_callListener (hended : (s.runner r).core.Ended)
    (hs : ∀ v, Attached (s.record (.notified l v))) : Finished r [.client l] s (callListener (perform depth) s l) := by
  unfold callListener
  split
  · rename_i hl
    refine ⟨.refl hended, fun k hk => ⟨[], ?_, fun _ hv => absurd hv List.not_mem_nil, rfl⟩⟩
    refine (List.count_eq_zero.mpr fun hin => ?_).symm
    cases List.mem_singleton.mp hin
    rw [home?, List.getElem?_map, hl] at hk
    cases hk
  · rename_i x hl
    obtain ⟨h, hhomes⟩ := hushed_calls depth (hs (s.view x.home)) x.calls
    have hsilent := h.silent r hended
    refine ⟨{ hsilent with }, fun k hk => ?_⟩
    have hviews := hsilent.views k hk
    by_cases hkl : l = k
    · subst hkl
      have hhome : x.home = .runner r := by
        rw [home?, hhomes, show (s.record _).listeners = s.listeners from rfl, List.getElem?_map, hl] at hk
        exact Option.some.inj hk
      refine ⟨[s.view x.home], List.count_singleton_self.symm, fun v hv => ?_, hviews.trans ?_⟩
      · rw [List.mem_singleton.mp hv, hhome]
        exact isEnded_view hended
      · exact List.filterMap_cons_some (if_pos rfl)
    · refine ⟨[], ?_, fun _ hv => absurd hv List.not_mem_nil, hviews.trans (List.filterMap_cons_none (if_neg hkl))⟩
      refine (List.count_eq_zero.mpr fun hin => hkl ?_).symm
      cases List.mem_singleton.mp hin
      rfl

section Round

variable (hu : Attached u) (hopen : (u.runner r).core.closed = false) (hut : Untold u t)

include hu hopen hut

variable (depth) in
theorem hushed_done (hx : (t.runner r).listeners.targets = done ++ todo) :
    Hushed u (done.foldl (callTarget (perform depth)) t) ∧
      (done.foldl (callTarget (perform depth)) t).listeners.map Listener.home = u.listeners.map Listener.home := by
  have hI := lasting_hushed u (u.listeners.map Listener.home)
  exact lasting_round (N := fun _ => 0) hI (carried_perform hI depth) ⟨.refl hu, rfl⟩ (Runner.not_ended hopen) hut
    done [] todo hx ⟨(Hushed.refl hu).untold hut, hut.homes⟩

/-- **One more target of the round.** -/
theorem finished_callTarget {x : Target} (hx : (t.runner r).listeners.targets = done ++ x :: todo)
    (hended : ((done.foldl (callTarget (perform depth)) t).runner r).core.Ended) :
    Finished r [x] (done.foldl (callTarget (perform depth)) t)
      (callTarget (perform depth) (done.foldl (callTarget (perform depth)) t) x) := by
  have hdone := hushed_done depth hu hopen hut hx
  cases x with
  | registry p =>
      have hI := lasting_hushed (done.foldl (callTarget (perform depth)) t)
        ((done.foldl (callTarget (perform depth)) t).listeners.map Listener.home)
      have h := lasting_notifyObservers (N := fun _ => 0) hI (carried_perform hI depth)
        ⟨(Hushed.refl hdone.1.attached).untold (untold_retire (p := p)), untold_retire.homes⟩
      exact (h.1.silent r hended).finished fun l hin => by cases List.mem_singleton.mp hin
  | client l =>
      refine finished_callListener hended fun v => ?_
      exact ((lasting_hushed u _).told (N := fun _ => 0) depth done todo v ⟨.refl hu, rfl⟩ (Runner.not_ended hopen)
        hut hx hdone).1.attached

/-- **The round goes on**, from where the runner has ended. The induction is on those that are told next. -/
theorem finished_round : ∀ next done todo, (t.runner r).listeners.targets = done ++ (next ++ todo) →
    ((done.foldl (callTarget (perform depth)) t).runner r).core.Ended →
    Finished r next (done.foldl (callTarget (perform depth)) t)
      ((done ++ next).foldl (callTarget (perform depth)) t)
  | [], done, _, _, hended => by
      rw [List.append_nil]
      exact ⟨.refl hended, fun _ _ => ⟨[], rfl, fun _ hv => absurd hv List.not_mem_nil, rfl⟩⟩
  | x :: next, done, todo, hx, hended => by
      have hstep := finished_callTarget hu hopen hut hx hended
      have hx' : (t.runner r).listeners.targets = (done ++ [x]) ++ (next ++ todo) := by
        rw [hx, List.append_assoc]
        rfl
      have hnext : (done ++ [x]).foldl (callTarget (perform depth)) t =
          callTarget (perform depth) (done.foldl (callTarget (perform depth)) t) x := by
        rw [List.foldl_append]
        rfl
      have hrest := finished_round next (done ++ [x]) todo hx' (hnext ▸ hstep.ended)
      have hhomes := (hushed_done depth hu hopen hut (hx'.trans (List.append_assoc _ next todo).symm)).2.trans
        (hushed_done depth hu hopen hut hx').2.symm
      rw [hnext] at hrest hhomes
      rw [List.append_cons]
      exact hstep.trans hhomes hrest

/-- The rest of the round, each client being told once. -/
theorem finished_notifyRunner (hx : (t.runner r).listeners.targets = done ++ todo)
    (hended : ((done.foldl (callTarget (perform depth)) t).runner r).core.Ended) :
    Finished r todo (done.foldl (callTarget (perform depth)) t) (notifyRunner (perform depth) t r) ∧
      ∀ l, todo.count (.client l) ≤ 1 := by
  refine ⟨?_, fun l => ?_⟩
  · rw [notifyRunner, hx]
    exact finished_round hu hopen hut todo done [] (by rw [List.append_nil]; exact hx) hended
  · have hcount := Nat.le_trans (hut.targets r l) (hu.once r l)
    rw [hx, List.count_append] at hcount
    exact Nat.le_trans (Nat.le_add_left _ _) hcount

end Round

/-! ## 5. The end of a runner -/

theorem runner_ended_self (hr : r < s.runners.length) : (s.ended r).runner r =
    { s.runner r with core := (s.runner r).core.close.2, subscription := none } := by
  rw [same_ended.runner]
  exact runner_modifyRunner_self _ hr

section End

variable (hs : Attached s) (hr : r < s.runners.length) (hopen : (s.runner r).core.closed = false)

include hs hr hopen

omit hs in
theorem ended_core : ((s.ended r).runner r).core.Ended := by
  rw [runner_ended_self hr]
  exact Runner.ended_close hopen

omit hs hopen in
theorem ended_targets : ((s.ended r).runner r).listeners.targets = (s.runner r).listeners.targets := by
  rw [runner_ended_self hr]

/-- **A runner is closed**: it has ended before any of its listeners is told, and tells all of them. -/
theorem finished_close :
    Finished r (s.runner r).listeners.targets (s.ended r) (close (perform depth) s r) := by
  rw [close_eq _ hopen]
  have hx : ((s.ended r).runner r).listeners.targets = [] ++ (s.runner r).listeners.targets := ended_targets hr
  exact (finished_notifyRunner hs hopen untold_ended hx (ended_core hr hopen)).1.untold (untold_parted _)

/-- Each listener is told once. -/
theorem told_of_end (hl : .client l ∈ (s.runner r).listeners.targets) :
    ∃ v, v.IsEnded ∧ (close (perform depth) s r).viewsOf l = v :: s.viewsOf l := by
  have hhome : (close (perform depth) s r).home? l = some (.runner r) := by
    have htargets : ((s.ended r).runner r).listeners.targets = ((s.ended r).runner r).listeners.targets ++ [] :=
      (List.append_nil _).symm
    have hhomes := (hushed_done depth hs hopen untold_ended htargets).2
    rw [close_eq _ hopen, (untold_parted _).home?, home?, notifyRunner, hhomes]
    exact hs.listener r l hl
  obtain ⟨vs, hlength, hvs, e⟩ := (finished_close hs hr hopen).views l hhome
  rw [Nat.le_antisymm (hs.once r l) (List.count_pos_iff.mpr hl)] at hlength
  obtain ⟨v, rfl⟩ := List.length_eq_one_iff.mp hlength
  refine ⟨v, hvs v List.mem_cons_self, ?_⟩
  rw [e, untold_ended.viewsOf]
  rfl

end End

/-- A launch of a runner that has nothing in flight does not go on. -/
theorem advanceLaunch_of_landed {x : Rehearsal} {o : Outstanding}
    (h : (x.session.runner o.runner).core.inFlight = []) : x.advanceLaunch o = x := by
  unfold Rehearsal.advanceLaunch Rehearsal.isLive
  rw [h]
  rfl

/-- **The end of a runner is final.** All sessions are `Attached`: whoever is closed has ended, and news of a runner
    comes from rounds that it began before. In such a session,
    - whatever deals follow and whatever is asked from inside a call, nothing happens to runners that have ended;
    - launches of such runners do not go on;
    - a runner that is closed has ended before any of its listeners is told, and each of them is told once;
    - a runner that is closed while it tells of a change goes on with that round, in which it tells each client once at
      most. -/
theorem closed_is_terminal (depth : Nat) :
    (∀ proofs settings ds, Attached (deals (perform depth) (start proofs settings) ds)) ∧
    ∀ s, Attached s →
      (∀ r, (s.runner r).core.closed = true → (s.runner r).core.Ended) ∧
      (∀ ds, Hushed s (deals (perform depth) s ds)) ∧ (∀ inner call, Hushed s (perform inner call s)) ∧
      (∀ (x : Rehearsal) o, x.session = s → (s.runner o.runner).core.closed = true → x.advanceLaunch o = x) ∧
      (∀ r, (s.runner r).core.closed = false → r < s.runners.length →
        ((close (perform depth) s r).runner r).core.Ended ∧
        (∀ done todo, (s.runner r).listeners.targets = done ++ todo →
          ((done.foldl (callTarget (perform depth)) (s.ended r)).runner r).core.Ended) ∧
        ∀ l, .client l ∈ (s.runner r).listeners.targets →
          ∃ v, v.IsEnded ∧ (close (perform depth) s r).viewsOf l = v :: s.viewsOf l) ∧
      ∀ r t done todo, (s.runner r).core.closed = false → Untold s t →
        (t.runner r).listeners.targets = done ++ todo →
        ((done.foldl (callTarget (perform depth)) t).runner r).core.closed = true →
        Finished r todo (done.foldl (callTarget (perform depth)) t) (notifyRunner (perform depth) t r) ∧
          ∀ l, todo.count (.client l) ≤ 1 := by
  refine ⟨attached_deals depth, fun s hs => ⟨hs.ended, hushed_deals depth hs (.refl hs), hushed_perform hs, ?_,
    fun r hopen hr => ⟨(finished_close hs hr hopen).ended, fun done todo hx => ?_,
      fun l => told_of_end hs hr hopen⟩, fun r t done todo hopen hut hx hclosed => ?_⟩⟩
  · rintro x o rfl hclosed
    exact advanceLaunch_of_landed (hs.ended _ hclosed).inFlight
  · exact (finished_round hs hopen untold_ended done [] todo ((ended_targets hr).trans hx)
      (ended_core hr hopen)).ended
  · have hdone := (hushed_done depth hs hopen hut hx).1
    exact finished_notifyRunner hs hopen hut hx (hdone.attached.ended r hclosed)

/-- **A client is told twice of one end.** One listener shuts the runner down when it is told of a change; the other
    one is told of the end, and then of the change. -/
theorem told_after_end :
    let chosen : Settings := { solvers := .ofList [.z3] }
    let s := deals (perform 2) (start [("p", .ofGoals [{ succedent := ["a"] }])] chosen)
      [.move (.newRunner 0 chosen), .move (.listen (.runner 0) fun _ => [.shutdown 0]),
        .move (.listen (.runner 0) fun _ => []), .move (.runner 0 .treeChanged)]
    (s.runner 0).core.closed = true ∧ s.viewsOf 1 = [.runner .closed [] [], .runner .closed [] []] := by
  decide +kernel

/-- The first listener shuts the runner above down while a batch is in flight: the second one is left in the round
    that goes on. Later a client comes in that listens to the runner, the proof changes and the batch is answered. -/
theorem closed_is_terminal_in_flight :
    let chosen : Settings := { solvers := .ofList [.z3] }
    let s := deals (perform 2) (start [("p", .ofGoals [{ succedent := ["a"] }])] chosen)
      [.move (.newRunner 0 chosen), .move (.listen (.runner 0) fun _ => [.shutdown 0]),
        .move (.listen (.runner 0) fun _ => []), .move (.runner 0 .dispatch)]
    let t := deals (perform 2) s [.move (.runner 0 .close)]
    let later : List Deal := [.move (.listen (.runner 0) fun _ => []), .move (.runner 0 .treeChanged),
      .move (.runner 0 (.completed 1 [])), .move (.runner 0 .dispatch), .move (.proof 0 (.prune 0))]
    (s.runner 0).core.inFlight = [1] ∧ (s.runner 0).core.closed = false ∧
    Finished 0 [.client 1] ([.client 0].foldl (callTarget (perform 2)) s) (notifyRunner (perform 2) s 0) ∧
    (∃ v, v.IsEnded ∧ (close (perform 2) s 0).viewsOf 1 = v :: s.viewsOf 1) ∧
    (t.runner 0).core.closed = true ∧ Silent 0 t (deals (perform 2) t later) := by
  intro chosen s t later
  have h := closed_is_terminal 2
  have hopen : (s.runner 0).core.closed = false := by decide +kernel
  have htargets : (s.runner 0).listeners.targets = [.client 0] ++ [.client 1] := by decide +kernel
  have hshut : (([.client 0].foldl (callTarget (perform 2)) s).runner 0).core.closed = true := by decide +kernel
  have hclosed : (t.runner 0).core.closed = true := by decide +kernel
  have hmem : .client 1 ∈ (s.runner 0).listeners.targets := by
    rw [htargets]
    exact List.mem_cons_of_mem _ List.mem_cons_self
  have hlt : 0 < s.runners.length := by decide +kernel
  have hs := h.2 s (h.1 _ _ _)
  have ht := h.2 t (hs.2.1 _).attached
  exact ⟨by decide +kernel, hopen, (hs.2.2.2.2.2 0 s _ _ hopen (.refl s) htargets hshut).1,
    (hs.2.2.2.2.1 0 hopen hlt).2.2 1 hmem, hclosed, (ht.2.1 later).silent 0 (ht.1 0 hclosed)⟩

end Session

end GoalWatch
