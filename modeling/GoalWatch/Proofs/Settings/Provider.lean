import GoalWatch.Provider

/-!
# Only what can be used is selected

A solver can be used if it is offered in the current mode and was found when the machine was last looked at. A
change of the mode drops what is no longer offered, a look at the machine drops what is no longer there, and no
other operation selects anything but what can be used; so the selection keeps to both, in whatever order they come.

* `ProviderCall`, `Provider.call` -- what can be asked of a provider;
* `Provider.canUse` -- a solver can be used;
* `setSelected_eq`, `foldl_setSelected` -- what becomes of the selection, one solver or any number at a time;
* `selectAll_eq`, `load_eq` -- so what becomes of a provider as a whole;
* `toSettings_eq` -- the settings that it gives;
* `Provider.Sound` -- only what can be used is selected, and some process may run;
* `sound_call`, `sound_calls` -- every operation keeps that, and so do any number of them;
* **`selection_stays_usable`** -- the provider after any operations, and settings that it gives and takes.
-/

namespace GoalWatch

/-- What can be asked of a provider. Each look at the machine may find something else. -/
inductive ProviderCall where
  | setSelected (s : Solver) (value : Bool)
  | toggle (s : Solver)
  | selectAll (value : Bool)
  | setTimeoutSeconds (seconds : Float)
  | setMaxProcesses (n : UInt64)
  | setExperimental (value : Bool)
  | redetect (found : SolverSet)
  | load (s : Settings)

namespace Provider

/-- The provider afterwards. A number of seconds that is no limit is refused and changes nothing. -/
def call (p : Provider) : ProviderCall → Provider
  | .setSelected s value => p.setSelected s value
  | .toggle s => p.toggle s
  | .selectAll value => p.selectAll value
  | .setTimeoutSeconds seconds =>
    match p.setTimeoutSeconds seconds with
    | .ok p => p
    | .error _ => p
  | .setMaxProcesses n => p.setMaxProcesses n
  | .setExperimental value => p.setExperimental value
  | .redetect found => p.redetect found
  | .load s => p.load s

/-- The solver is offered and installed. -/
def canUse (p : Provider) (s : Solver) : Bool := p.offers s && p.isInstalled s

variable {p : Provider} {s : Solver} {value : Bool}

/-! ## 1. The selection -/

theorem mem_available : s ∈ p.available ↔ p.offers s = true := by
  simp [available]

theorem mem_usable : s ∈ p.usable ↔ p.canUse s = true := by
  simp [usable, mem_available, canUse]

/-- One solver is selected or not, if it can be used. -/
theorem setSelected_eq (p : Provider) (s : Solver) (value : Bool) : p.setSelected s value =
    { p with selected := ⟨fun t => if t == s && p.canUse t then value else p.selected.contains t⟩ } := by
  have hcond : (p.isInstalled s && p.offers s) = p.canUse s := Bool.and_comm ..
  unfold setSelected
  rw [hcond]
  cases huse : p.canUse s with
  | false =>
      have hself : (⟨fun t => if t == s && p.canUse t then value else p.selected.contains t⟩ : SolverSet) =
          p.selected := by
        refine SolverSet.ext_contains fun t => ?_
        by_cases ht : t = s
        · simp [ht, huse]
        · simp [ht]
      rw [hself]
      rfl
  | true =>
      rw [if_pos rfl]
      congr 1
      refine SolverSet.ext_contains fun t => ?_
      by_cases ht : t = s
      · cases value <;> simp [ht, huse]
      · cases value <;> simp [ht]

/-- Any number of solvers are selected or not, as far as they can be used. None of them changes what can be. -/
theorem foldl_setSelected (value : Bool) : ∀ (l : List Solver) (p : Provider),
    l.foldl (fun p s => p.setSelected s value) p =
      { p with selected := ⟨fun t => if l.contains t && p.canUse t then value else p.selected.contains t⟩ }
  | [], p => by simp
  | s :: rest, p => by
      rw [List.foldl_cons, foldl_setSelected value rest, setSelected_eq]
      congr 1
      refine SolverSet.ext_contains fun t => ?_
      show (if rest.contains t && p.canUse t then value
        else if t == s && p.canUse t then value else p.selected.contains t) =
          if (s :: rest).contains t && p.canUse t then value else p.selected.contains t
      rw [List.contains_cons]
      cases p.canUse t <;> cases rest.contains t <;> cases t == s <;> rfl

theorem selectAll_eq (p : Provider) (value : Bool) : p.selectAll value =
    { p with selected := ⟨fun t => if p.canUse t then value else p.selected.contains t⟩ } := by
  unfold selectAll
  rw [foldl_setSelected]
  congr 2
  funext t
  have hmem : p.usable.contains t = p.canUse t := by
    rw [Bool.eq_iff_iff, List.contains_iff_mem, mem_usable]
  rw [hmem, Bool.and_self]

/-- **Settings are taken over**, of their solvers those that can be used. -/
theorem load_eq (p : Provider) (settings : Settings) : p.load settings =
    { p with
      timeout := settings.timeout
      maxProcesses := max 1 settings.maxProcesses
      selected := settings.solvers.filter p.canUse } := by
  unfold load
  simp only
  rw [foldl_setSelected]
  congr 1
  refine SolverSet.ext_contains fun t => ?_
  show (if settings.solvers.toList.contains t && p.canUse t then true else false) = _
  have hmem : settings.solvers.toList.contains t = settings.solvers.contains t := by
    rw [Bool.eq_iff_iff, List.contains_iff_mem, SolverSet.mem_toList]
  rw [hmem, SolverSet.contains_filter, Bool.if_true_left, Bool.or_false, Bool.decide_eq_true]

/-! ## 2. Soundness -/

/-- **Only what is offered and installed is selected**, and some process may run. -/
structure Sound (p : Provider) : Prop where
  offered : ∀ s, p.isSelected s = true → p.offers s = true
  installed : ∀ s, p.isSelected s = true → p.isInstalled s = true
  limit : 1 ≤ p.maxProcesses

theorem Sound.canUse (h : p.Sound) (hs : p.isSelected s = true) : p.canUse s = true :=
  Bool.and_eq_true_iff.mpr ⟨h.offered s hs, h.installed s hs⟩

theorem one_le_max (n : UInt64) : 1 ≤ max 1 n := by
  show 1 ≤ if 1 ≤ n then n else 1
  split
  · assumption
  · decide

theorem max_one_of_le {n : UInt64} (h : 1 ≤ n) : max 1 n = n := if_pos h

/-- Another selection is sound if all that is new in it can be used. -/
theorem Sound.select (h : p.Sound) {selected : SolverSet}
    (hnew : ∀ s, selected.contains s = true → p.isSelected s = true ∨ p.canUse s = true) :
    Sound { p with selected } := by
  have hall : ∀ s, selected.contains s = true → p.canUse s = true := fun s hs =>
    (hnew s hs).elim h.canUse id
  exact {
    offered := fun s hs => (Bool.and_eq_true_iff.mp (hall s hs)).1
    installed := fun s hs => (Bool.and_eq_true_iff.mp (hall s hs)).2
    limit := h.limit }

theorem sound_detect (experimental : Bool) (found : SolverSet) : (detect experimental found).Sound := by
  have hempty : Sound { experimental, installed := found, selected := .empty } :=
    { offered := nofun, installed := nofun, limit := (by decide : (1 : UInt64) ≤ 2) }
  refine hempty.select fun s hs => Or.inr ?_
  rw [SolverSet.contains_ofList, List.contains_iff_mem] at hs
  exact mem_usable.mp hs

theorem sound_setSelected (h : p.Sound) (s : Solver) (value : Bool) : (p.setSelected s value).Sound := by
  rw [setSelected_eq]
  refine h.select fun t ht => ?_
  dsimp only at ht
  split at ht
  · rename_i huse
    exact Or.inr (Bool.and_eq_true_iff.mp huse).2
  · exact Or.inl ht

theorem sound_selectAll (h : p.Sound) (value : Bool) : (p.selectAll value).Sound := by
  rw [selectAll_eq]
  refine h.select fun t ht => ?_
  dsimp only at ht
  split at ht
  · rename_i huse
    exact Or.inr huse
  · exact Or.inl ht

theorem sound_load (settings : Settings) : (p.load settings).Sound := by
  rw [load_eq]
  have hall : ∀ s, (settings.solvers.filter p.canUse).contains s = true → p.canUse s = true := fun s hs =>
    (Bool.and_eq_true_iff.mp hs).2
  exact {
    offered := fun s hs => (Bool.and_eq_true_iff.mp (hall s hs)).1
    installed := fun s hs => (Bool.and_eq_true_iff.mp (hall s hs)).2
    limit := one_le_max _ }

/-- **Every operation keeps a provider sound.** A change of the mode and a look at the machine each drop what fails
    their own test; the other test does not change by it. -/
theorem sound_call (h : p.Sound) (c : ProviderCall) : (p.call c).Sound := by
  cases c with
  | setSelected s value => exact sound_setSelected h s value
  | toggle s => exact sound_setSelected h s _
  | selectAll value => exact sound_selectAll h value
  | setTimeoutSeconds seconds =>
      simp only [call, setTimeoutSeconds]
      cases Timeout.ofSeconds seconds with
      | error e => exact h
      | ok timeout => exact ⟨h.offered, h.installed, h.limit⟩
  | setMaxProcesses n => exact ⟨h.offered, h.installed, one_le_max n⟩
  | setExperimental value =>
      exact {
        offered := fun s hs => (Bool.and_eq_true_iff.mp hs).2
        installed := fun s hs => h.installed s (Bool.and_eq_true_iff.mp hs).1
        limit := h.limit }
  | redetect found =>
      exact {
        offered := fun s hs => h.offered s (Bool.and_eq_true_iff.mp hs).1
        installed := fun s hs => (Bool.and_eq_true_iff.mp hs).2
        limit := h.limit }
  | load settings => exact sound_load settings

theorem sound_calls (calls : List ProviderCall) (h : p.Sound) : (calls.foldl call p).Sound := by
  induction calls generalizing p with
  | nil => exact h
  | cons c rest ih => exact ih (sound_call h c)

/-! ## 3. Settings given and taken -/

theorem toSettings_eq (p : Provider) : p.toSettings =
    { solvers := p.selected, timeout := p.timeout, maxProcesses := max 1 p.maxProcesses } := by
  unfold toSettings Settings.withSolvers
  rw [SolverSet.ofList_toList]
  rfl

/-- **A sound provider takes back its own settings** as if nothing had happened. -/
theorem Sound.load_toSettings (h : p.Sound) : p.load p.toSettings = p := by
  have hsel : p.selected.filter p.canUse = p.selected := by
    refine SolverSet.ext_contains fun s => ?_
    rw [SolverSet.contains_filter]
    cases hs : p.selected.contains s with
    | false => rfl
    | true => exact h.canUse hs
  rw [toSettings_eq, max_one_of_le h.limit, load_eq]
  simp only
  rw [hsel, max_one_of_le h.limit]

/-- **A provider keeps to what can be used**, from the first look at a machine on and after any operations, however
    the machine changes between two looks: what is selected is offered in the current mode and was found by the last
    look, and some process may run. So taking back its own settings changes nothing; and once it has taken settings,
    it gives them back with those of their solvers that are offered and installed, with their time limit, and with
    their number of processes, one at least. -/
theorem selection_stays_usable (experimental : Bool) (found : SolverSet) (calls : List ProviderCall) :
    let p := calls.foldl call (detect experimental found)
    (∀ s, p.isSelected s = true → s ∈ p.available ∧ p.isInstalled s = true) ∧ 1 ≤ p.maxProcesses ∧
    p.load p.toSettings = p ∧
    ∀ settings : Settings, (p.load settings).toSettings =
      { solvers := settings.solvers.filter fun s => p.available.contains s && p.isInstalled s
        timeout := settings.timeout
        maxProcesses := max 1 settings.maxProcesses } := by
  intro p
  have h : p.Sound := sound_calls calls (sound_detect experimental found)
  refine ⟨fun s hs => ⟨mem_available.mpr (h.offered s hs), h.installed s hs⟩, h.limit, h.load_toSettings,
    fun settings => ?_⟩
  have hcan : (fun s => p.available.contains s && p.isInstalled s) = p.canUse := by
    funext s
    have hmem : p.available.contains s = p.offers s := by
      rw [Bool.eq_iff_iff, List.contains_iff_mem, mem_available]
    rw [hmem]
    rfl
  rw [toSettings_eq, load_eq, hcan]
  simp only
  rw [max_one_of_le (one_le_max settings.maxProcesses)]

/-- A solver that is selected in experimental mode goes with that mode, and does not come back with it; one that is
    not found for a while does not come back either. -/
example :
    let calls : List ProviderCall := [.setExperimental false, .setExperimental true, .redetect (.ofList [.cvc4]),
      .redetect (.ofList [.z3, .cvc4])]
    let p := calls.foldl call (detect true (.ofList [.z3, .cvc4]))
    p.usable = [.z3, .cvc4] ∧ p.selected.toList = [] := by decide

end Provider

end GoalWatch
