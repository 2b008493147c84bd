import GoalWatch.Solving.Schedule
import GoalWatch.Text.Utf8

/-!
# Programs

What the program of a solver does when it is started on a script.

* `Program` -- what a program does;
* `Program.course` -- how its run goes, under a time limit;
* `Replies` -- a program that replies by what it finds in the script.
-/

namespace GoalWatch

inductive Program where
  /-- It cannot be started: there is no such file. -/
  | absent
  /-- It reads the script and never answers. -/
  | silent
  /-- It ends without reading the script. -/
  | deaf
  /-- It reads the script, answers with these bytes and ends. -/
  | replying (reply : String → List UInt8)

/-- How a run goes under a time limit. An answer comes before any limit. -/
def Program.course (p : Program) (solver : Solver) (limit : Timeout) (script : String) : Course :=
  match p with
  | .absent => .failing ⟨solver, .error (.spawn solver "No such file or directory (os error 2)")⟩
  | .deaf => .lasting 0 ⟨solver, .error (.io solver "Broken pipe (os error 32)")⟩
  | .silent =>
    match limit with
    | .unlimited => .endless
    | .millis n => .lasting n.toNat ⟨solver, .error (.timedOut solver)⟩
  | .replying reply =>
    match Text.Utf8.decode (reply script) with
    | .ok output => .lasting 0 ⟨solver, .ok (.ofOutput output)⟩
    | .error fault => .lasting 0 ⟨solver, .error (.io solver fault.message)⟩

/-! ## Replies by rule -/

/-- Replies to a script: the text of the first rule whose needle occurs in it, then `answer`, then
    `raw`. -/
structure Replies where
  rules : List (String × String) := []
  answer : String := ""
  raw : List UInt8 := []

namespace Replies

/-- One list occurs in another. -/
def occursIn (needle : List Char) : List Char → Bool
  | [] => needle.isEmpty
  | c :: cs => needle.isPrefixOf (c :: cs) || occursIn needle cs

/-- A script without the line ends that close it. -/
def withoutLastLines (script : String) : List Char :=
  (script.toList.reverse.dropWhile (· == '\n')).reverse

def reply (r : Replies) (script : String) : List UInt8 :=
  let body := withoutLastLines script
  let ruled := match r.rules.find? fun x => occursIn x.1.toList body with
    | some x => x.2
    | none => ""
  (ruled ++ r.answer).toUTF8.data.toList ++ r.raw

end Replies

end GoalWatch
