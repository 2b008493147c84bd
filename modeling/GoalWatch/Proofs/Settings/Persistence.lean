import GoalWatch.Proofs.Json.RoundTrip
import GoalWatch.Proofs.Text.Encoding
import GoalWatch.Settings.File

/-!
# Saved settings are loaded as they were

Any choice of solvers, any time limit and any number of processes, none included, is written to a file in a form
that is read back as the same settings. Of the folder it takes only that a file holds what was written to it.

* `Settings.ofJson?_toJson` -- the value that stands for settings, field by field;
* `Settings.read?_write` -- the text of a settings file;
* `Folder.GivesBack` -- a file holds what was written to it;
* **`Settings.load_save`** -- loading after saving.
-/

namespace GoalWatch

/-! ## 1. Values -/

theorem Timeout.legible_toJson (t : Timeout) : t.toJson.Legible := by
  cases t with
  | unlimited => exact .text "unlimited"
  | millis ms =>
      refine .fields fun f hf => ?_
      rw [List.mem_singleton.mp hf]
      exact .natural ms.toNat

theorem Json.natural64?_toNat (n : UInt64) : Json.natural64? (.natural n.toNat) = some n := by
  simp [Json.natural64?, n.toNat_lt]

theorem Timeout.ofJson?_toJson (t : Timeout) : Timeout.ofJson? t.toJson = some t := by
  cases t with
  | unlimited => rfl
  | millis ms =>
      have hname : ("millis" = "unlimited") = False := by decide
      simp [Timeout.toJson, Timeout.ofJson?, Json.fields, Json.choice?, hname, Json.required, Json.natural64?_toNat]

theorem Solver.ofKey?_key (x : Solver) : Solver.ofKey? x.key = some x := by
  cases x <;> decide

theorem Solver.ofJson?_text (x : Solver) : Solver.ofJson? (.text x.key) = some x := by
  simp [Solver.ofJson?, Json.text, Json.choice?, Json.carriesNothing, Solver.ofKey?_key]

theorem Json.list?_map {α : Type} {read : Json → Option α} {render : α → Json} (h : ∀ a, read (render a) = some a)
    (l : List α) : Json.list? read (.array (l.map render)) = some l := by
  unfold Json.list?
  induction l with
  | nil => rfl
  | cons a l ih => simp [List.mapM_cons, h, ih]

/-! ## 2. Settings -/

namespace Settings

theorem legible_toJson (s : Settings) : s.toJson.Legible := by
  refine .fields fun f hf => ?_
  simp only [List.mem_cons, List.not_mem_nil, or_false] at hf
  rcases hf with rfl | rfl | rfl
  · refine .array fun x hx => ?_
    obtain ⟨solver, _, rfl⟩ := List.mem_map.mp hx
    exact .text solver.key
  · exact s.timeout.legible_toJson
  · exact .natural _

theorem record?_toJson (s : Settings) : s.toJson.record? fieldNames = some [
    some (.array (s.solvers.toList.map fun x => .text x.key)), some s.timeout.toJson,
    some (.natural s.maxProcesses.toNat)] := by
  rfl

theorem ofJson?_toJson (s : Settings) : ofJson? s.toJson = some s := by
  unfold ofJson?
  simp [record?_toJson, Json.withDefault, Json.list?_map Solver.ofJson?_text, Timeout.ofJson?_toJson,
    Json.natural64?_toNat, SolverSet.ofList_toList]

/-- **The text of settings is read back.** -/
theorem read?_write (s : Settings) : read? s.write = some s := by
  unfold read? write
  rw [Json.parse?_pretty s.legible_toJson]
  exact ofJson?_toJson s

end Settings

/-! ## 3. Files -/

/-- What is written at this path is what is read there afterwards. -/
def Folder.GivesBack (f : Folder) (path : String) : Prop :=
  ∀ content g, f.write path content = .ok g → g.read path = .ok content

namespace Settings

theorem ofFile_write (s : Settings) (path : String) : ofFile path (.ok (.ofText s.write)) = .ok s := by
  simp only [ofFile, Content.text_ofText, read?_write]

theorem save_eq_ok {s : Settings} {f g : Folder} {path : String} (h : s.save f path = .ok g) :
    f.write path (.ofText s.write) = .ok g := by
  unfold save at h
  cases hwrite : f.write path (.ofText s.write) with
  | error fault =>
      rw [hwrite] at h
      cases h
  | ok g' =>
      rw [hwrite] at h
      cases h
      rfl

/-- **Settings are read back from their text, from the bytes of this text, and from the file they were saved to**,
    whatever they are. -/
theorem load_save (s : Settings) :
    read? s.write = some s ∧
    (∀ path, ofFile path (.ok (.ofText s.write)) = .ok s) ∧
    ∀ f g path, f.GivesBack path → s.save f path = .ok g → load g path = .ok s := by
  refine ⟨s.read?_write, s.ofFile_write, fun f g path hback hsave => ?_⟩
  unfold load
  rw [hback _ g (save_eq_ok hsave)]
  exact s.ofFile_write path

end Settings

/-- A path of one name. The first step passes over the only character, the second one is at the end. -/
theorem Folder.splitOn_name : "s".splitOn "/" = ["s"] := by
  have hend : String.Pos.Raw.atEnd "s" (String.Pos.Raw.next "s" (String.Pos.Raw.unoffsetBy 0 0)) = true := by
    decide +kernel
  rw [String.splitOn, if_neg (by decide), String.splitOnAux, if_neg (by decide +kernel), if_neg (by decide +kernel),
    String.splitOnAux, if_pos hend]
  decide +kernel

/-- A file in an empty folder. -/
theorem Folder.write_empty (content : Content) :
    ({} : Folder).write "s" content = .ok { files := [(.within ["s"], content)] } := by
  have hfault : Folder.pathFault? "s" = none := by decide +kernel
  have hstart : Folder.start "s" = .within [] := by decide +kernel
  have hend : "s".endsWith "/" = false := by decide +kernel
  have htrim : Folder.trimEnd ["s"] = ["s"] := by decide +kernel
  unfold Folder.write
  rw [splitOn_name, hfault, hstart, hend, htrim]
  rfl

theorem Folder.givesBack_empty : ({} : Folder).GivesBack "s" := by
  intro content g h
  have hfault : Folder.pathFault? "s" = none := by decide +kernel
  have hstart : Folder.start "s" = .within [] := by decide +kernel
  rw [Folder.write_empty] at h
  cases h
  unfold Folder.read
  rw [splitOn_name, hfault, hstart]
  rfl

/-- The longest time limit and no processes at all, saved to a new file and loaded from it. -/
theorem Settings.load_save_extremes :
    let s : Settings := { solvers := .ofList [.cvc5, .z3], timeout := .millis 18446744073709551615, maxProcesses := 0 }
    ({} : Folder).GivesBack "s" ∧ ∃ g, s.save {} "s" = .ok g ∧ Settings.load g "s" = .ok s := by
  intro s
  have hsave : s.save {} "s" = .ok { files := [(.within ["s"], .ofText s.write)] } := by
    unfold Settings.save
    rw [Folder.write_empty]
    rfl
  exact ⟨Folder.givesBack_empty, _, hsave, (Settings.load_save s).2.2 {} _ "s" Folder.givesBack_empty hsave⟩

end GoalWatch
