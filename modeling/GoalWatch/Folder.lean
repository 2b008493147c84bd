import GoalWatch.Text.Utf8

/-!
# Folders

A folder with files in it, the folders around it, and what may be below, as far as reading and writing
whole files goes.

* `Folder.read`, `Folder.readText` -- the content of a file;
* `Folder.write` -- a new content for a file, old or new;
* `FileFault` -- why not.
-/

namespace GoalWatch

/-! ## 1. Faults -/

inductive FileFault where
  | notFound
  | notAFolder
  | isFolder
  | nameTooLong
  /-- The path holds the character that ends a path. -/
  | nulInPath
  /-- The content is not text in UTF-8. -/
  | notText
  | other (reason : String)
  deriving DecidableEq, Repr

def FileFault.message : FileFault → String
  | .notFound => "No such file or directory (os error 2)"
  | .notAFolder => "Not a directory (os error 20)"
  | .isFolder => "Is a directory (os error 21)"
  | .nameTooLong => "File name too long (os error 36)"
  | .nulInPath => "file name contained an unexpected NUL byte"
  | .notText => "stream did not contain valid UTF-8"
  | .other reason => reason

/-! ## 2. Places -/

abbrev Content := List UInt8

/-- The content that holds the given text. -/
def Content.ofText (text : String) : Content := text.toUTF8.data.toList

/-- The text that a content holds. -/
def Content.text (c : Content) : Except FileFault String :=
  (Text.Utf8.decode c).mapError fun _ => .notText

/-- Where the names on the way to a place start: so many levels above the folder, or at the root. -/
inductive Base where
  | above (levels : Nat)
  | root
  deriving DecidableEq, Repr

/-- A place that a path leads to. -/
structure Place where
  base : Base
  names : List String
  deriving DecidableEq, Repr

/-- A place in the folder or below. -/
def Place.within (names : List String) : Place := ⟨.above 0, names⟩

/-- What is always empty, whatever is written there. -/
def Place.null : Place := ⟨.root, ["dev", "null"]⟩

/-- The folders that stand at the root of every system. -/
def rootFolders : List String :=
  ["bin", "dev", "etc", "home", "lib", "opt", "proc", "root", "run", "sbin", "srv", "sys", "tmp", "usr",
    "var"]

/-- Files by their places. A folder is there when a file in it is. -/
structure Folder where
  files : List (Place × Content) := []

namespace Folder

def file? (f : Folder) (p : Place) : Option Content :=
  if p = .null then some [] else f.files.lookup p

def isFolder (f : Folder) (p : Place) : Bool :=
  p.names.isEmpty || (p.base == .root && rootFolders.any fun name => p.names == [name])
    || f.files.any fun x => p.base == x.1.base && p.names.isPrefixOf x.1.names && x.1 != p

/-- What stands in the way of looking into a place. -/
def barrier? (f : Folder) (p : Place) : Option FileFault :=
  if (f.file? p).isSome then some .notAFolder else if f.isFolder p then none else some .notFound

/-- One level up. Nothing is above the root. -/
def leave : Place → Place
  | ⟨.above n, []⟩ => ⟨.above (n + 1), []⟩
  | ⟨base, names⟩ => ⟨base, names.dropLast⟩

/-- One name further. -/
def enter (here : Place) (name : String) : Place :=
  if name = "" || name = "." then here
  else if name = ".." then leave here
  else { here with names := here.names ++ [name] }

/-- A name that leads downwards. -/
def isStep (name : String) : Bool := name != "" && name != "." && name != ".."

/-- A name has at most 255 bytes. -/
def isLong (name : String) : Bool := decide (255 < name.utf8ByteSize)

/-- Follows the names of a path. Each but the last has to lead to a folder. -/
def follow (f : Folder) : Place → List String → Except FileFault Place
  | here, [] => .ok here
  | here, name :: rest =>
    match f.barrier? here with
    | some fault => .error fault
    | none => if isLong name then .error .nameTooLong else f.follow (enter here name) rest

/-- Where a path starts. -/
def start (path : String) : Place := if path.startsWith "/" then ⟨.root, []⟩ else .within []

/-- What is wrong with a path wherever it leads. It has at most 4095 bytes. -/
def pathFault? (path : String) : Option FileFault :=
  if path.toList.any fun c => c.toNat = 0 then some .nulInPath
  else if 4095 < path.utf8ByteSize then some .nameTooLong
  else none

/-! ## 3. Reading and writing -/

def read (f : Folder) (path : String) : Except FileFault Content :=
  match pathFault? path with
  | some fault => .error fault
  | none =>
    match f.follow (start path) (path.splitOn "/") with
    | .error fault => .error fault
    | .ok p =>
      match f.file? p with
      | some c => .ok c
      | none => if f.isFolder p then .error .isFolder else .error .notFound

def readText (f : Folder) (path : String) : Except FileFault String :=
  f.read path >>= Content.text

/-- Puts a content at a place. -/
def put (f : Folder) (p : Place) (c : Content) : Folder :=
  if p = .null then f
  else if (f.file? p).isSome then
    { files := f.files.map fun x => if x.1 == p then (p, c) else x }
  else { files := f.files ++ [(p, c)] }

/-- Puts a content under a name in a folder. -/
def putIn (f : Folder) (here : Place) (name : String) (c : Content) : Except FileFault Folder :=
  match f.barrier? here with
  | some fault => .error fault
  | none =>
    if !isStep name then .error .isFolder
    else if isLong name then .error .nameTooLong
    else if f.isFolder (enter here name) then .error .isFolder
    else .ok (f.put (enter here name) c)

/-- Names without the empty ones at their end. -/
def trimEnd (names : List String) : List String :=
  (names.reverse.dropWhile String.isEmpty).reverse

/-- Writes a file. Its folder has to be there, and it may not be a folder itself. With a slash at its end
    a path names a folder, there or not. -/
def write (f : Folder) (path : String) (c : Content) : Except FileFault Folder :=
  match pathFault? path with
  | some fault => .error fault
  | none =>
    let names := trimEnd (path.splitOn "/")
    match f.follow (start path) names.dropLast with
    | .error fault => .error fault
    | .ok here => f.putIn here (if path.endsWith "/" then "" else names.getLastD "") c

/-- A folder with the given contents, by their paths. -/
def ofContents (contents : List (String × Content)) : Folder :=
  { files := contents.map fun x => (.within ((x.1.splitOn "/").filter isStep), x.2) }

/-- A folder with the given texts, by their paths. -/
def ofFiles (files : List (String × String)) : Folder :=
  ofContents (files.map fun x => (x.1, .ofText x.2))

/-- The name of a file without what follows its last dot; a dot in front does not count. -/
def stem? (path : String) : Option String :=
  match ((path.splitOn "/").filter fun x => x != "" && x != ".").getLast? with
  | none => none
  | some name =>
    if name = ".." then none
    else match (name.splitOn ".").reverse with
      | [] => none
      | [whole] => some whole
      | _ :: rest =>
        let front := String.intercalate "." rest.reverse
        some (if front.isEmpty then name else front)

end Folder

end GoalWatch
