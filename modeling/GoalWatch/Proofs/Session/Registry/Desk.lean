import GoalWatch.Proofs.Session.Calm.Moves

/-!
# What the registry rests on

The registry forgets a runner when the runner tells it that it has ended. That works because the registry is the
first to be told: nobody else can ask for anything before the runner is forgotten.

* `TellsFirst` -- whom a runner tells first of all;
* `Desk` -- the part of a session that the registry rests on;
* `Desk.Orderly` -- registered runners are open and tell the registry first, and the active proof has one;
* `Desk.Goes` -- an orderly desk goes on as one: runners leave it only when they have ended, and those that
  are registered meanwhile are new ones;
* `Orderly.butFor`, `Orderly.closing`, `Orderly.admit`, `Orderly.rehook` -- the changes of a desk;
* `Session.desk`, `desk_dispatchOpen`, … -- the desk of a session, and the functions that leave it alone.
-/

namespace GoalWatch

/-- The registry that keeps the runner of `p` is told first, and its place on the list is not given to another. -/
def TellsFirst (p : ProofId) (l : ListenerSet Target) : Prop :=
  0 < l.nextSlot ∧ ∃ rest, l.slots = (0, .registry p) :: rest

theorem tellsFirst_add {p : ProofId} {l : ListenerSet Target} (h : TellsFirst p l) (x : Target) :
    TellsFirst p (l.add x) := by
  obtain ⟨_, rest, e⟩ := h
  refine ⟨Nat.succ_pos _, rest ++ [(l.nextSlot, x)], ?_⟩
  unfold ListenerSet.add
  rw [e]
  rfl

theorem tellsFirst_remove {p : ProofId} {l : ListenerSet Target} (h : TellsFirst p l) {slot : Nat}
    (hs : slot ≠ 0) : TellsFirst p (l.remove slot) := by
  obtain ⟨hpos, rest, e⟩ := h
  refine ⟨hpos, rest.filter fun x => x.1 != slot, ?_⟩
  unfold ListenerSet.remove
  simp only [e]
  rw [List.filter_cons_of_pos]
  exact bne_iff_ne.mpr hs.symm

/-- **What the registry rests on**: its entries and the active proof, who listens where, how many runners there
    are, which of them have ended and whom they tell. -/
structure Desk where
  entries : List (ProofId × RunnerId)
  active : Option ProofId
  clients : List Listener
  count : Nat
  closed : RunnerId → Bool
  hooks : RunnerId → ListenerSet Target

namespace Desk

variable {d d' d'' : Desk} {p : ProofId} {r : RunnerId} {N M : ProofId → Prop}

/-! ## 1. Order -/

/-- The runner is not registered. -/
def Free (d : Desk) (r : RunnerId) : Prop := ∀ e ∈ d.entries, e.2 ≠ r

/-- **The registry is in order**: every registered runner is open and tells the registry first, no proof has two,
    and the active proof has one. No client can take the registry off the list of a registered runner. -/
structure Orderly (d : Desk) : Prop where
  alive : ∀ e ∈ d.entries, e.2 < d.count ∧ d.closed e.2 = false
  once : (d.entries.map Prod.fst).Nodup
  active : ∀ p, d.active = some p → ∃ r, (p, r) ∈ d.entries
  hooked : ∀ e ∈ d.entries, TellsFirst e.1 (d.hooks e.2)
  home : ∀ x ∈ d.clients, ∀ r, x.home = .runner r → r < d.count
  apart : ∀ x ∈ d.clients, ∀ e ∈ d.entries, x.home = .runner e.2 → x.slot ≠ 0

/-- A runner is registered once. -/
theorem Orderly.owner (h : Orderly d) {e k : ProofId × RunnerId} (he : e ∈ d.entries)
    (hk : k ∈ d.entries) (hr : e.2 = k.2) : e = k := by
  obtain ⟨_, rest, hs⟩ := h.hooked e he
  obtain ⟨_, rest', hs'⟩ := h.hooked k hk
  rw [hr, hs'] at hs
  have hp : k.1 = e.1 := by simpa using (List.cons.inj hs).1
  exact Prod.ext hp.symm hr

/-- A proof has one runner. -/
theorem Orderly.only (h : Orderly d) {k : RunnerId} (he : (p, r) ∈ d.entries) (hk : (p, k) ∈ d.entries) :
    k = r := by
  have hinj := List.inj_on_of_nodup_map h.once hk he rfl
  exact congrArg Prod.snd hinj

/-- **An orderly desk goes on**: runners leave it only when they have ended, runners that have ended stay so, and
    those that were registered meanwhile are new ones, for proofs of the given kind. -/
structure Goes (N : ProofId → Prop) (d d' : Desk) : Prop where
  orderly : Orderly d'
  count : d.count ≤ d'.count
  closed : ∀ r, d.closed r = true → d'.closed r = true
  stays : ∀ e ∈ d.entries, d'.closed e.2 = false → e ∈ d'.entries
  news : ∀ e ∈ d'.entries, e ∈ d.entries ∨ N e.1 ∧ d.count ≤ e.2

/-- A desk goes on and no runner is registered meanwhile. -/
abbrev Keeps (d d' : Desk) : Prop := Goes (fun _ => False) d d'

theorem Orderly.keeps (h : Orderly d) : Keeps d d :=
  ⟨h, Nat.le_refl _, fun _ => id, fun _ he _ => he, fun _ => Or.inl⟩

theorem Goes.trans (h : Goes N d d') (h' : Goes N d' d'') : Goes N d d'' where
  orderly := h'.orderly
  count := Nat.le_trans h.count h'.count
  closed r hr := h'.closed r (h.closed r hr)
  stays e he hopen := by
    refine h'.stays e (h.stays e he ?_) hopen
    rw [← Bool.not_eq_true] at hopen ⊢
    exact fun hc => hopen (h'.closed _ hc)
  news e he := by
    rcases h'.news e he with he | ⟨hn, hle⟩
    · exact h.news e he
    · exact Or.inr ⟨hn, Nat.le_trans h.count hle⟩

theorem Goes.mono (h : Goes N d d') (hN : ∀ p, N p → M p) : Goes M d d' :=
  ⟨h.orderly, h.count, h.closed, h.stays, fun e he => (h.news e he).imp id fun hn => ⟨hN _ hn.1, hn.2⟩⟩

theorem Goes.weaken (h : Keeps d d') : Goes N d d' := h.mono fun _ => False.elim

theorem Goes.mem (h : Keeps d d') {e : ProofId × RunnerId} (he : e ∈ d'.entries) : e ∈ d.entries :=
  (h.news e he).resolve_right And.left

theorem Goes.free (h : Keeps d d') (hr : Free d r) : Free d' r := fun e he => hr e (h.mem he)

/-! ## 2. Changes -/

/-- Some runners leave the registry, and those that stay are as they were. -/
theorem Orderly.narrow (h : Orderly d) (hsub : d'.entries.Sublist d.entries)
    (hact : ∀ p, d'.active = some p → ∃ r, (p, r) ∈ d'.entries) (hclients : d'.clients = d.clients)
    (hcount : d.count ≤ d'.count)
    (hsame : ∀ e ∈ d'.entries, d'.closed e.2 = d.closed e.2 ∧ d'.hooks e.2 = d.hooks e.2) : Orderly d' where
  alive e he := by
    obtain ⟨hlt, hopen⟩ := h.alive e (hsub.subset he)
    exact ⟨Nat.lt_of_lt_of_le hlt hcount, (hsame e he).1.trans hopen⟩
  once := (hsub.map Prod.fst).nodup h.once
  active := hact
  hooked e he := by
    rw [(hsame e he).2]
    exact h.hooked e (hsub.subset he)
  home x hx r hr := Nat.lt_of_lt_of_le (h.home x (hclients ▸ hx) r hr) hcount
  apart x hx e he := h.apart x (hclients ▸ hx) e (hsub.subset he)

/-- A proof with a registered runner becomes the active one. -/
theorem Orderly.setActive (h : Orderly d) (he : (p, r) ∈ d.entries) : Orderly { d with active := some p } := by
  refine h.narrow (List.Sublist.refl _) (fun q hq => ?_) rfl (Nat.le_refl _) fun _ _ => ⟨rfl, rfl⟩
  cases hq
  exact ⟨r, he⟩

/-- Nothing changes but one runner, and that stays closed if it was. -/
structure ButFor (r : RunnerId) (d d' : Desk) : Prop where
  entries : d'.entries = d.entries
  active : d'.active = d.active
  clients : d'.clients = d.clients
  count : d'.count = d.count
  others : ∀ k ≠ r, d'.closed k = d.closed k ∧ d'.hooks k = d.hooks k
  closed : d.closed r = true → d'.closed r = true

theorem ButFor.closed_of (h : ButFor r d d') (k : RunnerId) (hk : d.closed k = true) : d'.closed k = true := by
  by_cases hkr : k = r
  · subst hkr
    exact h.closed hk
  · rw [(h.others k hkr).1]
    exact hk

/-- A runner that is not registered may change. -/
theorem Orderly.butFor (h : Orderly d) (hf : Free d r) (hb : ButFor r d d') : Keeps d d' where
  orderly := by
    refine h.narrow (by rw [hb.entries]) ?_ hb.clients (Nat.le_of_eq hb.count.symm) fun e he => ?_
    · rw [hb.active, hb.entries]
      exact h.active
    · exact hb.others e.2 (hf e (hb.entries ▸ he))
  count := Nat.le_of_eq hb.count.symm
  closed := hb.closed_of
  stays e he _ := hb.entries ▸ he
  news e he := Or.inl (hb.entries ▸ he)

/-- The desk without the runner of a proof. -/
def retired (d : Desk) (p : ProofId) : Desk :=
  { d with
    active := if d.active = some p then none else d.active
    entries := d.entries.filter fun e => e.1 != p }

/-- **A registered runner ends and is forgotten.** -/
theorem Orderly.closing (h : Orderly d) (he : (p, r) ∈ d.entries) (hb : ButFor r d d')
    (hc : d'.closed r = true) : Keeps d (d'.retired p) ∧ Free (d'.retired p) r := by
  have hmem : ∀ e, e ∈ (d'.retired p).entries ↔ e ∈ d.entries ∧ e.1 ≠ p := by
    intro e
    unfold retired
    rw [List.mem_filter, hb.entries, bne_iff_ne]
  have hfree : Free (d'.retired p) r := by
    intro e hm hr
    obtain ⟨hm, hne⟩ := (hmem e).mp hm
    exact hne (congrArg Prod.fst (h.owner hm he hr))
  refine ⟨⟨?_, Nat.le_of_eq hb.count.symm, hb.closed_of, fun e hm hopen => ?_, fun e hm => ?_⟩, hfree⟩
  · refine h.narrow ?_ (fun q hq => ?_) hb.clients (Nat.le_of_eq hb.count.symm) fun e hm => ?_
    · rw [← hb.entries]
      exact List.filter_sublist
    · have hact : d.active = some q ∧ q ≠ p := by
        unfold retired at hq
        rw [hb.active] at hq
        split at hq
        · cases hq
        · rename_i hne
          exact ⟨hq, fun e => hne (e ▸ hq)⟩
      obtain ⟨k, hk⟩ := h.active q hact.1
      exact ⟨k, (hmem (q, k)).mpr ⟨hk, hact.2⟩⟩
    · exact hb.others e.2 (hfree e hm)
  · refine (hmem e).mpr ⟨hm, fun hp => ?_⟩
    have hr : e.2 = r := h.only he (hp ▸ hm)
    rw [hr] at hopen
    cases hc.symm.trans hopen
  · exact Or.inl ((hmem e).mp hm).1

/-- **A new runner is registered** for a proof that has none; it tells nobody but the registry. -/
theorem Orderly.admit (h : Orderly d) (hp : ∀ e ∈ d.entries, e.1 ≠ p)
    (hentries : d'.entries = d.entries ++ [(p, r)]) (hactive : d'.active = d.active)
    (hclients : d'.clients = d.clients) (hnew : d.count ≤ r) (hcount : r < d'.count)
    (hclosed : ∀ k, d.closed k = true → d'.closed k = true)
    (hsame : ∀ k < d.count, d'.closed k = d.closed k ∧ d'.hooks k = d.hooks k)
    (hopen : d'.closed r = false) (hhook : d'.hooks r = ({} : ListenerSet Target).add (.registry p)) :
    Goes (· = p) d d' := by
  have hmem : ∀ e, e ∈ d'.entries ↔ e ∈ d.entries ∨ e = (p, r) := by
    intro e
    rw [hentries, List.mem_append, List.mem_singleton]
  have hlt : ∀ e ∈ d.entries, e.2 < d.count := fun e he => (h.alive e he).1
  have hle : d.count ≤ d'.count := Nat.le_of_lt (Nat.lt_of_le_of_lt hnew hcount)
  refine ⟨⟨fun e he => ?_, ?_, fun q hq => ?_, fun e he => ?_, fun x hx k hk => ?_, fun x hx e he hk => ?_⟩,
    hle, hclosed, fun e he _ => (hmem e).mpr (Or.inl he), fun e he => ?_⟩
  · rcases (hmem e).mp he with he | rfl
    · exact ⟨Nat.lt_of_lt_of_le (hlt e he) hle, (hsame _ (hlt e he)).1.trans (h.alive e he).2⟩
    · exact ⟨hcount, hopen⟩
  · rw [hentries, List.map_append, List.nodup_append]
    refine ⟨h.once, List.nodup_singleton _, fun q hq k hk => ?_⟩
    obtain ⟨e, he, rfl⟩ := List.mem_map.mp hq
    rw [List.mem_singleton.mp hk]
    exact hp e he
  · obtain ⟨k, hk⟩ := h.active q (hactive ▸ hq)
    exact ⟨k, (hmem _).mpr (Or.inl hk)⟩
  · rcases (hmem e).mp he with he | rfl
    · rw [(hsame _ (hlt e he)).2]
      exact h.hooked e he
    · rw [hhook]
      exact ⟨Nat.one_pos, [], rfl⟩
  · exact Nat.lt_of_lt_of_le (h.home x (hclients ▸ hx) k hk) hle
  · rcases (hmem e).mp he with he | rfl
    · exact h.apart x (hclients ▸ hx) e he hk
    · -- nobody listens to a runner before it is there
      exact absurd (h.home x (hclients ▸ hx) r hk) (Nat.not_lt.mpr hnew)
  · exact ((hmem e).mp he).imp id fun e => by rw [e]; exact ⟨rfl, hnew⟩

/-- Clients come and go; registered runners still tell the registry first. -/
theorem Orderly.rehook (h : Orderly d) (hentries : d'.entries = d.entries) (hactive : d'.active = d.active)
    (hcount : d'.count = d.count) (hclosed : d'.closed = d.closed)
    (hhook : ∀ e ∈ d.entries, TellsFirst e.1 (d'.hooks e.2))
    (hhome : ∀ x ∈ d'.clients, ∀ r, x.home = .runner r → r < d.count)
    (hapart : ∀ x ∈ d'.clients, ∀ e ∈ d.entries, x.home = .runner e.2 → x.slot ≠ 0) : Keeps d d' where
  orderly :=
    { alive := by rw [hentries, hcount, hclosed]; exact h.alive
      once := by rw [hentries]; exact h.once
      active := by rw [hactive, hentries]; exact h.active
      hooked := by rw [hentries]; exact hhook
      home := by rw [hcount]; exact hhome
      apart := by rw [hentries]; exact hapart }
  count := Nat.le_of_eq hcount.symm
  closed _ hr := by rw [hclosed]; exact hr
  stays _ he _ := hentries ▸ he
  news _ he := Or.inl (hentries ▸ he)

end Desk

namespace Session

open Desk

variable {s s' : Session} {p : ProofId} {r : RunnerId}

/-! ## 3. The desk of a session -/

/-- The part of a session that the registry rests on. -/
def desk (s : Session) : Desk where
  entries := s.registry.entries
  active := s.registry.active
  clients := s.listeners
  count := s.runners.length
  closed r := (s.runner r).core.closed
  hooks r := (s.runner r).listeners

/-- A runner that has ended is one of the session. -/
theorem lt_of_closed (h : s.desk.closed r = true) : r < s.runners.length := by
  rcases Nat.lt_or_ge r s.runners.length with hlt | hle
  · exact hlt
  · have hnew : (s.runner r).core.closed = false := by
      rw [runner_of_le hle]
      rfl
    cases hnew.symm.trans h

/-- A proof without a registered runner has no entry. -/
theorem ne_of_runnerFor?_none (h : s.registry.runnerFor? p = none) : ∀ e ∈ s.desk.entries, e.1 ≠ p := by
  intro e he hp
  have hne := List.lookup_eq_none_iff.mp h e he
  exact bne_iff_ne.mp hne hp.symm

/-- In an orderly session the entries say which runner a proof has. -/
theorem runnerFor?_eq_some (h : s.desk.Orderly) : s.registry.runnerFor? p = some r ↔ (p, r) ∈ s.desk.entries := by
  refine ⟨mem_of_runnerFor?, fun he => ?_⟩
  cases hf : s.registry.runnerFor? p with
  | none => exact absurd rfl (ne_of_runnerFor?_none hf _ he)
  | some k => rw [h.only he (mem_of_runnerFor? hf)]

/-- **An orderly registry has nobody to forget**, whichever runner brings news. -/
theorem retire_of_orderly (h : s.desk.Orderly) (p : ProofId) : s.retire p = s := by
  unfold retire
  split
  · rfl
  · rename_i r hr
    have hopen : (s.runner r).core.closed = false := (h.alive _ (mem_of_runnerFor? hr)).2
    rw [hopen]
    rfl

theorem desk_of_same (h : Same s s') (hl : s'.listeners = s.listeners) : s'.desk = s.desk := by
  unfold desk
  simp only [h.registry, h.runners, h.runner, hl]

theorem desk_modifyRunner {f : Hosted → Hosted}
    (hc : (f (s.runner r)).core.closed = (s.runner r).core.closed)
    (hl : (f (s.runner r)).listeners = (s.runner r).listeners) : (s.modifyRunner r f).desk = s.desk := by
  have hsame : ∀ k, ((s.modifyRunner r f).runner k).core.closed = (s.runner k).core.closed ∧
      ((s.modifyRunner r f).runner k).listeners = (s.runner k).listeners := by
    intro k
    rcases runner_modifyRunner_cases (s := s) (r := r) (k := k) f with e | ⟨rfl, _, e⟩
    · rw [e]
      exact ⟨rfl, rfl⟩
    · rw [e]
      exact ⟨hc, hl⟩
  unfold desk
  simp only [hsame, length_modifyRunner]
  rfl

theorem desk_setCore {core : Runner} (hc : core.closed = (s.runner r).core.closed) :
    (s.setCore r core).desk = s.desk := desk_modifyRunner hc rfl

theorem desk_takeLaunch {result : Option Launch × Runner}
    (hc : result.2.closed = (s.runner r).core.closed) : (s.takeLaunch r result).2.desk = s.desk := by
  rw [desk_of_same (same_takeLaunch result) (clients_takeLaunch result).2]
  exact desk_setCore hc

theorem desk_giveUp {result : List BatchId × Runner} (hc : result.2.closed = (s.runner r).core.closed) :
    (s.giveUp r result).desk = s.desk := desk_setCore hc

@[simp] theorem desk_probe (busy : RunnerId) (activity : Activity) :
    (s.probe p busy activity).desk = s.desk := by
  unfold probe
  split <;> rfl

@[simp] theorem desk_dispatchOpen (mode : Mode) : (s.dispatchOpen r mode).2.desk = s.desk := by
  unfold dispatchOpen
  simp only
  split
  · rw [desk_takeLaunch (by simp), desk_probe]
  · rfl

@[simp] theorem desk_ruleApplied (goals : List Goal) : (s.ruleApplied r goals).2.desk = s.desk :=
  desk_takeLaunch (by simp)

@[simp] theorem desk_autoStarted : (s.autoStarted r).desk = s.desk := by
  refine desk_setCore ?_
  unfold Runner.suspend
  split <;> rfl

@[simp] theorem desk_autoStopped : (s.autoStopped r).2.desk = s.desk := by
  unfold autoStopped
  rw [desk_dispatchOpen, desk_setCore]
  unfold Runner.unsuspend
  split <;> rfl

@[simp] theorem desk_stopAll : (s.stopAll r).desk = s.desk := desk_giveUp rfl

@[simp] theorem desk_refreshSettings (settings : Settings) : (s.refreshSettings r settings).desk = s.desk :=
  desk_giveUp rfl

@[simp] theorem desk_setSolvers (solvers : SolverSet) : (s.setSolvers r solvers).2.desk = s.desk := by
  unfold setSolvers
  rw [desk_dispatchOpen]
  exact desk_setCore rfl

@[simp] theorem desk_lookUp (n : NodeId) : (s.lookUp n).desk = s.desk := by
  unfold lookUp
  split
  · rfl
  · simp only
    split
    · exact desk_probe _ _
    · rfl

@[simp] theorem desk_leaveActive : (s.leaveActive p).desk = s.desk := by
  unfold leaveActive
  split
  · rfl
  · split
    · exact desk_stopAll
    · rfl

/-- A change of one runner is one of the desk, if the runner does not open again. -/
theorem butFor_modifyRunner {f : Hosted → Hosted}
    (hf : (s.runner r).core.closed = true → (f (s.runner r)).core.closed = true) :
    ButFor r s.desk (s.modifyRunner r f).desk where
  entries := rfl
  active := rfl
  clients := rfl
  count := length_modifyRunner _
  others k hk := by
    unfold desk
    simp only [runner_modifyRunner_of_ne f hk, and_self]
  closed hc := by
    rcases runner_modifyRunner_cases (s := s) (r := r) (k := r) f with e | ⟨_, _, e⟩
    · exact (congrArg (·.core.closed) e).trans hc
    · exact (congrArg (·.core.closed) e).trans (hf hc)

/-- Clients come and go at one runner; if it is registered, it still tells the registry first. -/
theorem keeps_listeners (h : s.desk.Orderly) {f : ListenerSet Target → ListenerSet Target}
    {listeners : List Listener}
    (hf : ∀ p, (p, r) ∈ s.desk.entries → TellsFirst p (s.runner r).listeners →
      TellsFirst p (f (s.runner r).listeners))
    (hhome : ∀ x ∈ listeners, ∀ k, x.home = .runner k → k < s.desk.count)
    (hapart : ∀ x ∈ listeners, ∀ e ∈ s.desk.entries, x.home = .runner e.2 → x.slot ≠ 0) :
    Keeps s.desk (modifyRunner { s with listeners } r fun x => { x with listeners := f x.listeners }).desk := by
  refine h.rehook rfl rfl (length_modifyRunner _) (funext fun k => ?_) (fun e he => ?_) hhome hapart
  · show ((modifyRunner { s with listeners } r _).runner k).core.closed = (s.runner k).core.closed
    rcases runner_modifyRunner_cases (s := { s with listeners }) (r := r) (k := k)
      (fun x => { x with listeners := f x.listeners }) with e | ⟨rfl, _, e⟩ <;> rw [e] <;> rfl
  · show TellsFirst e.1 ((modifyRunner { s with listeners } r _).runner e.2).listeners
    have hold := h.hooked e he
    rcases runner_modifyRunner_cases (s := { s with listeners }) (r := r) (k := e.2)
      (fun x => { x with listeners := f x.listeners }) with hr | ⟨rfl, _, hr⟩ <;> rw [hr]
    · exact hold
    · exact hf e.1 he hold

end Session

end GoalWatch
