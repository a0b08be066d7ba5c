import RemoteCall.Channel.Scripted
/-!
# File systems

A path is a list of components; a name leads from a folder to a path component by component, with `.` and `..`
for the folder itself and the one above it. What stands at a path is the business of a file system, of which
only the operations are known.
-/

namespace RemoteCall.Files

/-- The components of a path from the top. -/
abbrev Path := List String

/-- The path that a name leads to from a folder: an absolute name starts at the top. -/
def join (folder : Path) (name : String) : Path :=
  let start := if name.toList.head? == some '/' then [] else folder
  ((split name.toList).map String.ofList).foldl enter start
where
  /-- The parts between slashes. -/
  split : List Char → List (List Char)
    | [] => [[]]
    | c :: cs =>
      if c = '/' then [] :: split cs
      else
        match split cs with
        | part :: parts => (c :: part) :: parts
        | [] => [[c]]
  enter (path : Path) (part : String) : Path :=
    if part = "" || part = "." then path
    else if part = ".." then path.dropLast
    else path ++ [part]

/-- What works on a state and may fail; the state it leaves behind counts in either case. -/
abbrev Work (ε σ α : Type) := ExceptT ε (StateM σ) α

/-- What is told of a file or a folder. -/
structure Metadata where
  isFolder : Bool
  size : UInt64
  /-- The whole seconds from the epoch to the last change, where the time of it is kept. -/
  modified : Except Fault Int64

/-- One entry of a folder. -/
structure Entry where
  name : String
  isFile : Except Fault Bool

/-- The operations of a file system that lives in a state `σ`. Nothing is said about what they do: they stand for
those of the operating system, whatever it makes of a path. -/
structure FileSystem (σ : Type) where
  /-- About what a path leads to. -/
  metadata : Path → Work Fault σ Metadata
  /-- About what stands at a path itself, be it a link. -/
  symlinkMetadata : Path → Work Fault σ Metadata
  /-- The entries of a folder, each of which may be impossible to read. -/
  readFolder : Path → Work Fault σ (List (Except Fault Entry))
  /-- What can be read from a file. -/
  openFile : Path → Work Fault σ Supply
  /-- A sink that fills a file, which is empty to begin with. -/
  createFile : Path → Work Fault σ (Channel σ)
  createFolder : Path → Work Fault σ Unit
  /-- Removes an empty folder. -/
  removeFolder : Path → Work Fault σ Unit
  /-- Removes what is not a folder. -/
  removeFile : Path → Work Fault σ Unit

end RemoteCall.Files
