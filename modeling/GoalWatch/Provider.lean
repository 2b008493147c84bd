import GoalWatch.Settings

/-!
# The settings provider

What a settings dialog works on: which solvers are offered in the current mode, which of them were found
on the machine when it was last looked at, and which are selected.

* `Provider` -- the state; `Provider.detect` makes it, with every usable solver selected;
* `Provider.offers` -- background solvers, the legacy ones only in experimental mode;
* `Provider.setSelected` -- only an installed and offered solver can be selected or deselected;
* `Provider.load`, `Provider.toSettings` -- from and to settings.
-/

namespace GoalWatch

/-- `installed` is what the last look at the machine found. -/
structure Provider where
  experimental : Bool
  installed : SolverSet
  selected : SolverSet
  timeout : Timeout := .standard
  maxProcesses : UInt64 := 2
  deriving DecidableEq, Inhabited

/-- One line of the dialog. -/
structure ProviderEntry where
  solver : Solver
  installed : Bool
  selected : Bool
  deriving DecidableEq, Repr

namespace Provider

/-! ## 1. Views -/

def offers (p : Provider) (s : Solver) : Bool :=
  s.supportsBackground && (p.experimental || !s.isLegacy)

/-- The solvers offered, in order. -/
def available (p : Provider) : List Solver := Solver.all.filter p.offers

def isInstalled (p : Provider) (s : Solver) : Bool := p.installed.contains s

def isSelected (p : Provider) (s : Solver) : Bool := p.selected.contains s

/-- The solvers offered that are installed, in order. -/
def usable (p : Provider) : List Solver := p.available.filter p.isInstalled

def entries (p : Provider) : List ProviderEntry :=
  p.available.map fun s => ⟨s, p.isInstalled s, p.isSelected s⟩

def isAllSelected (p : Provider) : Bool := p.usable.all p.isSelected

/-- The settings as a runner gets them. -/
def toSettings (p : Provider) : Settings :=
  ((({} : Settings).withSolvers p.selected.toList).withTimeout p.timeout).withMaxProcesses p.maxProcesses

def summary (p : Provider) : String := p.toSettings.summary

/-! ## 2. Operations -/

/-- A provider for a machine on which `found` are installed; all that can be used is selected. -/
def detect (experimental : Bool) (found : SolverSet) : Provider :=
  let p : Provider := { experimental, installed := found, selected := .empty }
  { p with selected := .ofList p.usable }

/-- Selects or deselects an installed and offered solver; any other one stays as it is. -/
def setSelected (p : Provider) (s : Solver) (value : Bool) : Provider :=
  if p.isInstalled s && p.offers s then
    { p with selected := if value then p.selected.insert s else p.selected.erase s }
  else p

def toggle (p : Provider) (s : Solver) : Provider :=
  p.setSelected s (!p.isSelected s)

def selectAll (p : Provider) (value : Bool) : Provider :=
  p.usable.foldl (fun p s => p.setSelected s value) p

/-- A number of seconds that is no limit leaves the limit as it is. -/
def setTimeoutSeconds (p : Provider) (seconds : Float) : Except TimeoutOutOfRange Provider :=
  (Timeout.ofSeconds seconds).map fun timeout => { p with timeout }

def setMaxProcesses (p : Provider) (n : UInt64) : Provider :=
  { p with maxProcesses := max 1 n }

/-- Changes the mode; what is no longer offered is no longer selected. -/
def setExperimental (p : Provider) (value : Bool) : Provider :=
  let p := { p with experimental := value }
  { p with selected := p.selected.filter p.offers }

/-- Looks at the machine again; what is no longer installed is no longer selected. -/
def redetect (p : Provider) (found : SolverSet) : Provider :=
  { p with installed := found, selected := p.selected.filter found.contains }

/-- Takes over settings, as far as their solvers can be used. -/
def load (p : Provider) (s : Settings) : Provider :=
  let p := { p with
    timeout := s.timeout
    maxProcesses := max 1 s.maxProcesses
    selected := .empty }
  s.solvers.toList.foldl (fun p x => p.setSelected x true) p

/-! ## 3. Description -/

def describeTimeout : Timeout → String
  | .unlimited => "Unlimited"
  | .millis ms => "Millis(" ++ Nat.repr ms.toNat ++ ")"

def describeBool (b : Bool) : String := if b then "true" else "false"

/-- The internal state in one line. -/
def describe (p : Provider) : String :=
  let installed := Solver.all.map fun s => s.variantName ++ ": " ++ describeBool (p.isInstalled s)
  let selected := p.selected.toList.map Solver.variantName
  "SettingsProvider \x7b experimental: " ++ describeBool p.experimental ++
    ", installed: \x7b" ++ String.intercalate ", " installed ++
    "\x7d, selected: \x7b" ++ String.intercalate ", " selected ++
    "\x7d, timeout: " ++ describeTimeout p.timeout ++ ", .. \x7d"

end Provider

end GoalWatch
