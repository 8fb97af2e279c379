import Chip8.Byte

/-!
# Files

A path is read from left to right and leads from one place to another in a tree of directories
and files. It starts at the top if it begins with a slash, and otherwise where the tool was
called.

  * `FileTree`    : a file or a directory,
  * `Place`       : a place in a tree, from which the way up is known,
  * `Place.enter` : one component of a path,
  * `Place.read`  : the content of the file that a path leads to.
-/

namespace Chip8.CommandLine

/-- What a path may lead to. -/
inductive FileTree where
  /-- A file with its content. -/
  | file (content : Array Byte)
  /-- A directory with what it holds, by name. -/
  | directory (entries : List (String × FileTree))

/-- Why a path does not lead to the content of a file. -/
inductive FileError where
  /-- There is nothing of that name. -/
  | missing
  /-- Something is looked for in a file. -/
  | notDirectory
  /-- The path leads to a directory. -/
  | isDirectory
  /-- The path or one of its components is too long. -/
  | nameTooLong
  /-- The path contains a null character. -/
  | nullCharacter
  deriving DecidableEq, Repr

/-- A place in a tree, with the directories above it, the nearest one first. -/
structure Place where
  here : FileTree
  above : List FileTree := []

namespace Place

/-- The longest name, in bytes. -/
def nameLimit : Nat := 255

/-- The longest path, in bytes. -/
def pathLimit : Nat := 4095

/-- The place at the top of the tree. -/
def top (p : Place) : Place :=
  match p.above.getLast? with
  | some t => ⟨t, []⟩
  | none => p

/-- The place above. Nothing is above the top. -/
def up (p : Place) : Place :=
  match p.above with
  | [] => p
  | t :: rest => ⟨t, rest⟩

/-- Where one component of a path leads to. The empty one and a dot stay in a directory, and two
dots lead to the one above. From a file no component leads anywhere. -/
def enter (p : Place) (name : String) : Except FileError Place :=
  match p.here with
  | .file _ => .error .notDirectory
  | .directory entries =>
    if name = "" || name = "." then .ok p
    else if name = ".." then .ok p.up
    else if nameLimit < name.utf8ByteSize then .error .nameTooLong
    else
      match entries.lookup name with
      | some t => .ok ⟨t, p.here :: p.above⟩
      | none => .error .missing

/-- The components of a path, between which there are slashes. -/
def components (path : String) : List String := (path.toList.splitOn '/').map String.ofList

/-- The place that a path leads to. -/
def follow (p : Place) (path : String) : Except FileError Place :=
  if path.toList.contains '\x00' then .error .nullCharacter
  else if path = "" then .error .missing
  else if pathLimit < path.utf8ByteSize then .error .nameTooLong
  else
    let start := if path.startsWith "/" then p.top else p
    (components path).foldlM enter start

/-- The content of the file that a path leads to. -/
def read (p : Place) (path : String) : Except FileError (Array Byte) := do
  match (← p.follow path).here with
  | .file content => return content
  | .directory _ => throw .isDirectory

end Place

end Chip8.CommandLine
