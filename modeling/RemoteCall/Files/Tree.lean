import RemoteCall.Bytes
import RemoteCall.SortedMap
import RemoteCall.Value
import RemoteCall.Files.FileSystem
/-!
# A tree of files

A file system that is kept in memory: folders, and files that are numbered, so that a file goes on to exist for
those who write to it when it stands nowhere any more.
-/

namespace RemoteCall.Files

/-- What stands at a path. -/
inductive Node
  | file (number : Nat)
  | folder (modified : Int64)
deriving DecidableEq, Repr, Inhabited

/-- A file, wherever it stands. -/
structure File where
  content : Bytes
  modified : Int64
deriving DecidableEq, Repr, Inhabited

/-- Files and folders, and the time that changes are stamped with. -/
structure Tree where
  nodes : SortedMap Path Node
  /-- All files that there ever were, by number. -/
  files : Array File
  /-- How far each writer of a file has come. -/
  positions : Array Nat
  clock : Int64

/-- How the operating system reports a fault. -/
def systemFault (kind text : String) (code : Nat) : Fault :=
  .reported (.named kind) s!"{text} (os error {code})"

def notFound : Fault := systemFault "NotFound" "No such file or directory" 2
def busy : Fault := systemFault "ResourceBusy" "Device or resource busy" 16
def alreadyExists : Fault := systemFault "AlreadyExists" "File exists" 17
def notFolder : Fault := systemFault "NotADirectory" "Not a directory" 20
def isFolder : Fault := systemFault "IsADirectory" "Is a directory" 21
def nameTooLong : Fault := systemFault "InvalidFilename" "File name too long" 36
def notEmpty : Fault := systemFault "DirectoryNotEmpty" "Directory not empty" 39

/-- The most bytes of one component. -/
def maxName : Nat := 255

/-- The size that a folder is told to have. -/
def folderSize : UInt64 := 4096

namespace Tree

/-- Nothing but the folder at the top. -/
def empty : Tree := ⟨SortedMap.empty.insert [] (.folder 0), #[], #[], 0⟩

/-- What stands at the end of a path that goes on from a folder; all that it leads through has to be a folder. -/
def find? (t : Tree) (above : Path) : Path → Except Fault (Option Node)
  | [] => .ok (t.nodes.find? above)
  | part :: rest =>
    match t.nodes.find? above with
    | none => .error notFound
    | some (.file _) => .error notFolder
    | some (.folder _) =>
      if maxName < part.utf8ByteSize then .error nameTooLong
      else t.find? (above ++ [part]) rest

/-- What stands at a path, if anything does; a zero character is seen before the tree is. -/
def look (path : Path) : Work Fault Tree (Option Node) := do
  if path.any (fun part => part.toList.contains '\x00') then throw .zeroInName
  (← get).find? [] path

def file (t : Tree) (number : Nat) : File := t.files.getD number ⟨[], t.clock⟩

def setContent (t : Tree) (number : Nat) (content : Bytes) : Tree :=
  { t with files := t.files.setIfInBounds number ⟨content, t.clock⟩ }

/-- Changes what stands at a path, and with it the folder above. -/
def place (t : Tree) (path : Path) (node? : Option Node) : Tree :=
  let nodes := t.nodes.insert path.dropLast (.folder t.clock)
  match node? with
  | some node => { t with nodes := nodes.insert path node }
  | none => { t with nodes := nodes.erase path }

def hasEntries (t : Tree) (folder : Path) : Bool :=
  t.nodes.toList.any (fun e => e.1 != [] && e.1.dropLast == folder)

def describe (t : Tree) : Node → Metadata
  | .file number => ⟨false, .ofNat (t.file number).content.length, .ok (t.file number).modified⟩
  | .folder modified => ⟨true, folderSize, .ok modified⟩

def metadata (path : Path) : Work Fault Tree Metadata := do
  match ← look path with
  | some node => return (← get).describe node
  | none => throw notFound

def readFolder (path : Path) : Work Fault Tree (List (Except Fault Entry)) := do
  match ← look path with
  | some (.folder _) => return entries (← get)
  | some (.file _) => throw notFolder
  | none => throw notFound
where
  entries (t : Tree) : List (Except Fault Entry) :=
    t.nodes.toList.filterMap fun (inside, node) =>
      if inside != [] && inside.dropLast == path then
        inside.getLast?.map fun name => .ok ⟨name, .ok (node matches .file _)⟩
      else none

/-- The content of a file as a source; a folder opens and cannot be read. -/
def openFile (path : Path) : Work Fault Tree Supply := do
  match ← look path with
  | some (.file number) => return .ofBytes ((← get).file number).content
  | some (.folder _) => return { Supply.ofBytes [] with ending := .fault isFolder }
  | none => throw notFound

/-- Bytes from a position on, in the stead of what is there; a gap before them is filled with zeros. -/
def overwrite (content : Bytes) (position : Nat) (bs : Bytes) : Bytes :=
  content.take position ++ List.replicate (position - content.length) 0 ++ bs ++
    content.drop (position + bs.length)

/-- A writer goes through a file from its beginning on. -/
def writer (number id : Nat) : Channel Tree where
  read _ t := (.ready [], t)
  write bs t := (.ready bs.length, write bs t)
  flush t := (.ready (), t)
  shutdown t := (.ready (), t)
  release t := t
where
  write (bs : Bytes) (t : Tree) : Tree :=
    if bs.isEmpty then t
    else
      let position := t.positions.getD id 0
      let t := t.setContent number (overwrite (t.file number).content position bs)
      { t with positions := t.positions.setIfInBounds id (position + bs.length) }

/-- An empty file in the stead of a file that was there. -/
def createFile (path : Path) : Work Fault Tree (Channel Tree) := do
  let number ← match ← look path with
    | some (.folder _) => throw isFolder
    | some (.file number) =>
      modify (·.setContent number [])
      pure number
    | none =>
      let number := (← get).files.size
      modify fun t => { t.place path (some (.file number)) with files := t.files.push ⟨[], t.clock⟩ }
      pure number
  let id := (← get).positions.size
  modify fun t => { t with positions := t.positions.push 0 }
  return writer number id

def createFolder (path : Path) : Work Fault Tree Unit := do
  match ← look path with
  | some _ => throw alreadyExists
  | none => modify fun t => t.place path (some (.folder t.clock))

def removeFolder (path : Path) : Work Fault Tree Unit := do
  match ← look path with
  | none => throw notFound
  | some (.file _) => throw notFolder
  | some (.folder _) =>
    if path.isEmpty then throw busy
    if (← get).hasEntries path then throw notEmpty
    modify (·.place path none)

def removeFile (path : Path) : Work Fault Tree Unit := do
  match ← look path with
  | none => throw notFound
  | some (.folder _) => throw isFolder
  | some (.file _) => modify (·.place path none)

/-- One folder and the files in it. -/
def ofFolder (folder : String) (files : List (String × Bytes)) : Tree :=
  (fill.run.run empty).2
where
  fill : Work Fault Tree Unit := do
    createFolder [folder]
    for (name, content) in files do
      let sink ← createFile [folder, name]
      modify fun t => (sink.write content t).2

/-- There are no links in a tree. -/
def fileSystem : FileSystem Tree where
  metadata := metadata
  symlinkMetadata := metadata
  readFolder := readFolder
  openFile := openFile
  createFile := createFile
  createFolder := createFolder
  removeFolder := removeFolder
  removeFile := removeFile

end Tree

end RemoteCall.Files
