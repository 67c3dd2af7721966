import DesignTokens.Fault
import DesignTokens.OrdMap

/-!
Files by path.

A path names a file by the directories on the way to it, from the one that commands run in; a part
of two dots goes back to the directory above. Slashes may be repeated, and a part of one dot stays
where it is. Nothing is known of what lies outside of the directory that commands run in, except
that there is a directory above it.
-/

namespace DesignTokens.Command

/-- The texts of files, each under its path with single slashes and without dots. A directory
exists if it holds a file. -/
abbrev Files := OrdMap String

/-! ### Paths -/

/-- What stands between the slashes of a path. -/
def pieces (path : String) : List String := (Text.splitAt '/' path.toList).map String.ofList

/-- The steps of a path; none of them stays where it is. -/
def steps (path : String) : List String := (pieces path).filter fun p => p != "" && p != "."

/-- The slashes that a path from the root starts with; two of them are kept apart from one. -/
def rootOf (path : String) : String :=
  match path.toList.takeWhile (· == '/') with
  | [] => ""
  | ['/', '/'] => "//"
  | _ => "/"

/-- A path in its plain form. -/
def plainPath (path : String) : String :=
  let plain := rootOf path ++ Text.joinWith "/" (steps path)
  if plain == "" then "." else plain

/-- A path that ends in a slash or a dot can only be that of a directory. -/
def asksDirectory (path : String) : Bool := (pieces path).getLast?.any fun p => p == "" || p == "."

/-! ### Places -/

/-- What is found at the end of a path. -/
inductive Place where
  | file (name : String)
  | directory
  /-- Nothing, in a directory that exists. Outside of the known files it has no name. -/
  | vacant (name : Option String)
  /-- Nothing, nor the directory it would be in. -/
  | nowhere
  /-- A file is on the way. -/
  | insideFile
  /-- A step has a longer name than any file. -/
  | tooLong
  deriving DecidableEq, Repr

/-- How many bytes the name of a file may have. -/
def maxNameSize : Nat := 255

namespace Files

/-- The directory of a name holds a file. -/
def hasDirectory (files : Files) (name : String) : Bool :=
  files.keys.any fun other => (Text.dropFront? (name.toList ++ ['/']) other.toList).isSome

/-- Follows steps from a directory, which is none outside of the known ones. -/
def follow (files : Files) : (here : Option (List String)) → (steps : List String) → Place
  | _, [] => .directory
  | none, [step] => if step = ".." then .directory else .vacant none
  | none, step :: rest => if step = ".." then follow files none rest else .nowhere
  | some here, step :: rest =>
    if step = ".." then follow files (if here.isEmpty then none else some here.dropLast) rest
    else if maxNameSize < step.utf8ByteSize then .tooLong
    else
      let name := Text.joinWith "/" (here ++ [step])
      if files.contains name then if rest.isEmpty then .file name else .insideFile
      else if files.hasDirectory name then follow files (some (here ++ [step])) rest
      else if rest.isEmpty then .vacant (some name) else .nowhere

/-- What a path in its plain form leads to. -/
def place (files : Files) (path : String) : Place :=
  follow files (if rootOf path = "" then some [] else none) (steps path)

/-- A file or directory is at a path. -/
def hasPath (files : Files) (path : String) : Bool :=
  match files.place path with
  | .file _ => !asksDirectory path
  | .directory => path != ""
  | _ => false

/-- The text of the file at a path. -/
def read (files : Files) (path : String) : Except Fault String :=
  match files.place path with
  | .file name => .ok ((files.get? name).getD "")
  | .directory => .error (.isDirectory (plainPath path))
  | .insideFile => .error (.notDirectory (plainPath path))
  | .tooLong => .error (.nameTooLong (plainPath path))
  | .vacant _ | .nowhere => .error (.noSuchFile (plainPath path))

/-- The files with a text written to a path. -/
def write (files : Files) (path text : String) : Except Fault Files :=
  match files.place path with
  | .file name | .vacant (some name) => .ok (files.insert name text)
  | .vacant none => .ok files
  | .directory => .error (.isDirectory (plainPath path))
  | .insideFile => .error (.notDirectory (plainPath path))
  | .tooLong => .error (.nameTooLong (plainPath path))
  | .nowhere => .error (.noSuchFile (plainPath path))

end Files

end DesignTokens.Command
