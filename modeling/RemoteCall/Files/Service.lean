import RemoteCall.Files.FileSystem
import RemoteCall.Registry
/-!
# The file service

Methods that list, read, write and remove the files of one folder of a file system. Names are single components:
whatever could lead out of the folder, or to the folder itself, is refused before anything is touched.
-/

namespace RemoteCall.Files

/-- Whether a name is one component of a path. -/
def isPlainName (name : String) : Bool :=
  name != "" && name != "." && name != ".." && !name.toList.any (fun c => c == '/' || c == '\\')

/-- The path of the file that the first argument names. -/
def resolve (root : Path) (args : Arguments) : Except AppError Path := do
  let name ← args.get String 0
  if isPlainName name then return join root name
  else throw (.ofMessage s!"invalid file name {Text.quote name}")

variable {σ α : Type}

/-- A fault of the file system as the error of a method. -/
def report (work : Work Fault σ α) : Work AppError σ α := work.adapt fun f => .ofMessage f.message

/-- A method is invoked by doing its work. -/
def invoke (work : Work AppError σ α) (s : σ) : Verdict α × σ :=
  match work.run.run s with
  | (.ok a, s) => (.ok a, s)
  | (.error e, s) => (.failed e, s)

/-- The names of the entries that are files, if all entries can be read. -/
def fileNames : List (Except Fault Entry) → Except Fault (List String)
  | [] => .ok []
  | entry :: entries => do
    let entry ← entry
    let isFile ← entry.isFile
    let names ← fileNames entries
    return if isFile then entry.name :: names else names

/-- A time as seconds since the epoch, unless it was before. -/
def sinceEpoch? (seconds : Int64) : Option UInt64 :=
  if 0 ≤ seconds then some seconds.toUInt64 else none

section Methods

variable (fs : FileSystem σ) (root : Path) (args : Arguments)

def listNames : Work AppError σ (List Value) := do
  let names ← report do fileNames (← fs.readFolder root)
  return [.ofItems names]

def stat : Work AppError σ (List Value) := do
  let path ← resolve root args
  let metadata ← report (fs.metadata path)
  let modified := metadata.modified.toOption.bind sinceEpoch?
  let name ← args.get String 0
  return [.ofFields
    [("name", toValue name), ("size", toValue metadata.size), ("modified", toValue modified)]]

def openFile : Work AppError σ Supply := do
  let path ← resolve root args
  report (fs.openFile path)

def createFile : Work AppError σ (Channel σ) := do
  let path ← resolve root args
  report (fs.createFile path)

def createFolder : Work AppError σ (List Value) := do
  let path ← resolve root args
  report (fs.createFolder path)
  return []

def remove : Work AppError σ (List Value) := do
  let path ← resolve root args
  if (← report (fs.symlinkMetadata path)).isFolder then
    report (fs.removeFolder path)
  else
    report (fs.removeFile path)
  return []

end Methods

/-- The methods on the files of one folder. -/
def service (fs : FileSystem σ) (root : Path) : Service σ :=
  Service.empty
    |>.add "List" (.normal fun _ => invoke (listNames fs root))
    |>.add "Stat" (.normal fun args => invoke (stat fs root args))
    |>.add "Open" (.read fun args => invoke (openFile fs root args))
    |>.add "Create" (.write fun args => invoke (createFile fs root args))
    |>.add "Mkdir" (.normal fun args => invoke (createFolder fs root args))
    |>.add "Remove" (.normal fun args => invoke (remove fs root args))

end RemoteCall.Files
