import RemoteCall.Files.Tree
import RemoteCall.Proofs.Files.Names
/-!
# The file service stays in its folder

The service is about any file system, so what its methods touch is told by what they ask of it. A watch notes each
operation and its path, and otherwise leaves the file system as it is. The main result says that each method of the
service that takes a name either refuses it before anything is asked, or asks about the one path that its name leads
to, which lies one step below the folder; so the method does nothing else to the file system than what is done by
operations on this path.
-/

namespace RemoteCall

/-! ## Invocations -/

section Invocation

variable {σ α β : Type}

/-- What a method does once it has its arguments. -/
inductive Invocation (σ : Type)
  | normal (run : σ → Verdict (List Value) × σ)
  | read (openSource : σ → Verdict Supply × σ)
  | write (openSink : σ → Verdict (Channel σ) × σ)

def Handler.invoked (args : Arguments) : Handler σ → Invocation σ
  | normal run => .normal (run args)
  | read openSource => .read (openSource args)
  | write openSink => .write (openSink args)

/-- Fails with an error, whatever the state, and leaves the state as it is. -/
def Invocation.Refuses (e : AppError) : Invocation σ → Prop
  | normal run => ∀ s, run s = (.failed e, s)
  | read openSource => ∀ s, openSource s = (.failed e, s)
  | write openSink => ∀ s, openSink s = (.failed e, s)

def Verdict.map (f : α → β) : Verdict α → Verdict β
  | ok a => .ok (f a)
  | failed e => .failed e
  | never => .never

end Invocation

namespace Files

variable {σ ε α β : Type}

/-! ## Work that is done -/

theorem run_bind (work : Work ε σ α) (next : α → Work ε σ β) (s : σ) :
    (work >>= next).run.run s = match work.run.run s with
      | (.ok a, s) => (next a).run.run s
      | (.error e, s) => (.error e, s) := by
  simp only [ExceptT.run_bind, StateT.run_bind]
  rcases work.run.run s with ⟨_ | _, _⟩ <;> rfl

theorem run_report (work : Work Fault σ α) (s : σ) :
    (report work).run.run s = match work.run.run s with
      | (.ok a, s) => (.ok a, s)
      | (.error f, s) => (.error (.ofMessage f.message), s) := by
  show (Except.mapError _ <$> work.run).run s = _
  rw [StateT.run_map]
  rcases work.run.run s with ⟨_ | _, _⟩ <;> rfl

/-- A path that could be told is what a method goes on with. -/
theorem resolved_bind {x : Except ε α} {a : α} (h : x = .ok a) (next : α → Work ε σ β) :
    (liftM x : Work ε σ α) >>= next = next a := by
  subst h
  rfl

theorem unresolved_bind {x : Except ε α} {e : ε} (h : x = .error e) (next : α → Work ε σ β) :
    (liftM x : Work ε σ α) >>= next = throw e := by
  subst h
  rfl

/-! ## What one path is used for -/

/-- A relation between the states before and after some work. -/
def Work.Keeps (R : σ → σ → Prop) (work : Work ε σ α) : Prop := ∀ s, R s (work.run.run s).2

/-- A relation between the states before and after anything that is done with a sink. -/
structure SinkKeeps (R : σ → σ → Prop) (sink : Channel σ) : Prop where
  read : ∀ n s, R s (sink.read n s).2
  write : ∀ bs s, R s (sink.write bs s).2
  flush : ∀ s, R s (sink.flush s).2
  shutdown : ∀ s, R s (sink.shutdown s).2
  release : ∀ s, R s (sink.release s)

/-- A relation between the states before and after anything that is done by operations on one path, and with the
sinks that are opened there. -/
structure FileSystem.Keeps (fs : FileSystem σ) (path : Path) (R : σ → σ → Prop) : Prop where
  refl : ∀ s, R s s
  trans : ∀ s t u, R s t → R t u → R s u
  metadata : (fs.metadata path).Keeps R
  symlinkMetadata : (fs.symlinkMetadata path).Keeps R
  openFile : (fs.openFile path).Keeps R
  createFile : (fs.createFile path).Keeps R
  sink : ∀ s sink, ((fs.createFile path).run.run s).1 = .ok sink → SinkKeeps R sink
  createFolder : (fs.createFolder path).Keeps R
  removeFolder : (fs.removeFolder path).Keeps R
  removeFile : (fs.removeFile path).Keeps R

variable {R : σ → σ → Prop}

theorem Work.Keeps.pure (hrefl : ∀ s, R s s) (a : α) : Work.Keeps R (Pure.pure a : Work ε σ α) := hrefl

theorem Work.Keeps.bind (htrans : ∀ s t u, R s t → R t u → R s u) {work : Work ε σ α} {next : α → Work ε σ β}
    (hwork : work.Keeps R) (hnext : ∀ a, (next a).Keeps R) : (work >>= next).Keeps R := by
  intro s
  have hs := hwork s
  rw [run_bind]
  cases hrun : work.run.run s with
  | mk r t =>
    rw [hrun] at hs
    cases r with
    | error e => exact hs
    | ok a => exact htrans s t _ hs (hnext a t)

theorem Work.Keeps.report {work : Work Fault σ α} (h : work.Keeps R) : (report work).Keeps R := by
  intro s
  have hs := h s
  rw [run_report]
  cases hrun : work.run.run s with
  | mk r t =>
    rw [hrun] at hs
    cases r <;> exact hs

/-- What an invocation does to the state, and what can be done with the sink that it opens, goes along a relation. -/
def InvocationKeeps (R : σ → σ → Prop) : Invocation σ → Prop
  | .normal run => ∀ s, R s (run s).2
  | .read openSource => ∀ s, R s (openSource s).2
  | .write openSink => ∀ s, R s (openSink s).2 ∧ ∀ sink, (openSink s).1 = .ok sink → SinkKeeps R sink

theorem Work.Keeps.invoke {work : Work AppError σ α} (h : work.Keeps R) (s : σ) : R s (invoke work s).2 := by
  have hs := h s
  unfold Files.invoke
  cases hrun : work.run.run s with
  | mk r t =>
    rw [hrun] at hs
    cases r <;> exact hs

theorem invoke_fst_eq_ok_iff {work : Work AppError σ α} {s : σ} {a : α} :
    (invoke work s).1 = .ok a ↔ (work.run.run s).1 = .ok a := by
  unfold invoke
  rcases work.run.run s with ⟨_ | _, _⟩ <;> simp

/-! ## A watch -/

/-- What can be asked of a file system, and an operation on a sink that it opened. -/
inductive Operation
  | metadata | symlinkMetadata | readFolder | openFile | createFile | createFolder | removeFolder | removeFile
  | sink
deriving DecidableEq, Repr

/-- An operation and the path that it is about. -/
abbrev Use := Operation × Path

/-- The same work, with a note of what it uses. -/
def noting (use : Use) (work : Work ε σ α) : Work ε (σ × List Use) α :=
  ExceptT.mk fun w => ((work.run.run w.1).1, (work.run.run w.1).2, w.2 ++ [use])

theorem run_noting (use : Use) (work : Work ε σ α) (s : σ) (before : List Use) :
    (noting use work).run.run (s, before) = ((work.run.run s).1, (work.run.run s).2, before ++ [use]) :=
  rfl

/-- The same sink, with a note of each use under the path where it was opened. -/
def watchedSink (path : Path) (sink : Channel σ) : Channel (σ × List Use) :=
  sink.lift Prod.fst fun s w => (s, w.2 ++ [(.sink, path)])

/-- The same file system, with notes of what it is used for. -/
def FileSystem.watched (fs : FileSystem σ) : FileSystem (σ × List Use) where
  metadata path := noting (.metadata, path) (fs.metadata path)
  symlinkMetadata path := noting (.symlinkMetadata, path) (fs.symlinkMetadata path)
  readFolder path := noting (.readFolder, path) (fs.readFolder path)
  openFile path := noting (.openFile, path) (fs.openFile path)
  createFile path := watchedSink path <$> noting (.createFile, path) (fs.createFile path)
  createFolder path := noting (.createFolder, path) (fs.createFolder path)
  removeFolder path := noting (.removeFolder, path) (fs.removeFolder path)
  removeFile path := noting (.removeFile, path) (fs.removeFile path)

/-- Only uses of one path are noted. -/
def NotesOnly (path : Path) (w w' : σ × List Use) : Prop :=
  ∃ uses, w'.2 = w.2 ++ uses ∧ ∀ use ∈ uses, use.2 = path

theorem NotesOnly.of_use (path : Path) (w : σ × List Use) (s : σ) (op : Operation) :
    NotesOnly path w (s, w.2 ++ [(op, path)]) :=
  ⟨[(op, path)], rfl, fun _ huse => by rw [List.mem_singleton.1 huse]⟩

theorem watchedSink_keeps (path : Path) (sink : Channel σ) : SinkKeeps (NotesOnly path) (watchedSink path sink) where
  read _ w := .of_use path w _ _
  write _ w := .of_use path w _ _
  flush w := .of_use path w _ _
  shutdown w := .of_use path w _ _
  release w := .of_use path w _ _

theorem run_watched_createFile (fs : FileSystem σ) (path : Path) (w : σ × List Use) :
    (fs.watched.createFile path).run.run w =
      (((fs.createFile path).run.run w.1).1.map (watchedSink path), ((fs.createFile path).run.run w.1).2,
        w.2 ++ [(.createFile, path)]) := by
  show (watchedSink path <$> noting (.createFile, path) (fs.createFile path)).run.run w = _
  rw [ExceptT.run_map, StateT.run_map]
  rfl

/-- In a watch, operations on a path leave notes of this path alone. -/
theorem FileSystem.watched_keeps (fs : FileSystem σ) (path : Path) : fs.watched.Keeps path (NotesOnly path) where
  refl w := ⟨[], (List.append_nil _).symm, nofun⟩
  trans := by
    rintro w w' w'' ⟨uses, hw', huses⟩ ⟨uses', hw'', huses'⟩
    refine ⟨uses ++ uses', by rw [hw'', hw', List.append_assoc], fun use huse => ?_⟩
    exact (List.mem_append.1 huse).elim (huses use) (huses' use)
  metadata w := .of_use path w _ _
  symlinkMetadata w := .of_use path w _ _
  openFile w := .of_use path w _ _
  createFile w := by
    rw [run_watched_createFile]
    exact .of_use path w _ _
  sink w sink h := by
    rw [run_watched_createFile] at h
    cases hopen : ((fs.createFile path).run.run w.1).1 with
    | error f =>
      rw [hopen] at h
      cases h
    | ok sink =>
      rw [hopen] at h
      cases h
      exact watchedSink_keeps path sink
  createFolder w := .of_use path w _ _
  removeFolder w := .of_use path w _ _
  removeFile w := .of_use path w _ _

/-- With a watch, it comes to the same, and notes are taken. -/
def Shows (f : α → β) (uses : σ → List Use) (run : σ → Verdict α × σ)
    (watched : σ × List Use → Verdict β × σ × List Use) : Prop :=
  ∀ s before, watched (s, before) = ((run s).1.map f, (run s).2, before ++ uses s)

/-- With a watch, an invocation comes to the same, and notes are taken; a sink is then watched as well. -/
def InvocationShows (path : Path) (uses : σ → List Use) : Invocation σ → Invocation (σ × List Use) → Prop
  | .normal run, .normal watched => Shows id uses run watched
  | .read openSource, .read watched => Shows id uses openSource watched
  | .write openSink, .write watched => Shows (watchedSink path) uses openSink watched
  | _, _ => False

/-! ## The methods that take a name -/

/-- What can be done with a named file or folder. -/
inductive Deed
  | stat | openFile | createFile | createFolder | remove
deriving DecidableEq, Repr

namespace Deed

/-- The method that does it. -/
def method : Deed → String
  | stat => "Stat"
  | openFile => "Open"
  | createFile => "Create"
  | createFolder => "Mkdir"
  | remove => "Remove"

def handler (fs : FileSystem σ) (root : Path) : Deed → Handler σ
  | stat => .normal fun args => invoke (Files.stat fs root args)
  | openFile => .read fun args => invoke (Files.openFile fs root args)
  | createFile => .write fun args => invoke (Files.createFile fs root args)
  | createFolder => .normal fun args => invoke (Files.createFolder fs root args)
  | remove => .normal fun args => invoke (Files.remove fs root args)

/-- What it asks about a path: before something is removed, whether it is a folder. -/
def asks (fs : FileSystem σ) (path : Path) : Deed → σ → List Operation
  | stat, _ => [.metadata]
  | openFile, _ => [.openFile]
  | createFile, _ => [.createFile]
  | createFolder, _ => [.createFolder]
  | remove, s =>
    .symlinkMetadata :: match ((fs.symlinkMetadata path).run.run s).1 with
      | .ok metadata => [if metadata.isFolder then .removeFolder else .removeFile]
      | .error _ => []

variable {fs : FileSystem σ} {root path : Path} {args args' : Arguments} {R : σ → σ → Prop}

/-- The service has these methods, and one that takes no name. -/
theorem lookup_method (fs : FileSystem σ) (root : Path) (d : Deed) :
    (service fs root).methods.lookup d.method = some (d.handler fs root) := by
  cases d <;> rfl

/-- Without a name, nothing is done. -/
theorem refuses {e : AppError} (d : Deed) (h : resolve root args = .error e) :
    ((d.handler fs root).invoked args).Refuses e := by
  cases d <;> intro s <;>
    simp only [Files.stat, Files.openFile, Files.createFile, Files.createFolder, Files.remove, unresolved_bind h] <;>
    rfl

/-- All that a method does is done by operations on the path that was named. -/
theorem keeps (d : Deed) (hfs : fs.Keeps path R) (h : resolve root args = .ok path) :
    InvocationKeeps R ((d.handler fs root).invoked args) := by
  obtain ⟨name, more, hvalues, -⟩ := resolve_eq_ok_iff.1 h
  have hname : args.get String 0 = .ok name := get_name_eq_ok_iff.2 ⟨more, hvalues⟩
  cases d with
  | stat =>
    refine Work.Keeps.invoke ?_
    simp only [Files.stat, resolved_bind h, resolved_bind hname]
    exact hfs.metadata.report.bind hfs.trans fun _ => .pure hfs.refl _
  | openFile =>
    refine Work.Keeps.invoke ?_
    simp only [Files.openFile, resolved_bind h]
    exact hfs.openFile.report
  | createFile =>
    have hwork : Files.createFile fs root args = report (fs.createFile path) := resolved_bind h _
    refine fun s => ⟨Work.Keeps.invoke ?_ s, fun sink hsink => ?_⟩
    · rw [hwork]
      exact hfs.createFile.report
    · -- the sink that is handed out is the one that was opened at the path
      rw [invoke_fst_eq_ok_iff, hwork, run_report] at hsink
      refine hfs.sink s sink ?_
      rcases hrun : (fs.createFile path).run.run s with ⟨_ | _, _⟩ <;> rw [hrun] at hsink <;> cases hsink
      rfl
  | createFolder =>
    refine Work.Keeps.invoke ?_
    simp only [Files.createFolder, resolved_bind h]
    exact hfs.createFolder.report.bind hfs.trans fun _ => .pure hfs.refl _
  | remove =>
    refine Work.Keeps.invoke ?_
    simp only [Files.remove, resolved_bind h]
    refine hfs.symlinkMetadata.report.bind hfs.trans fun metadata => ?_
    cases metadata.isFolder with
    | true => exact hfs.removeFolder.report.bind hfs.trans fun _ => .pure hfs.refl _
    | false => exact hfs.removeFile.report.bind hfs.trans fun _ => .pure hfs.refl _

/-- With a watch, a method comes to the same, and the notes tell what it asks about the path that was named. -/
theorem shows (d : Deed) (h : resolve root args = .ok path) :
    InvocationShows path (fun s => (d.asks fs path s).map (·, path)) ((d.handler fs root).invoked args)
      ((d.handler fs.watched root).invoked args) := by
  obtain ⟨name, more, hvalues, -⟩ := resolve_eq_ok_iff.1 h
  have hname : args.get String 0 = .ok name := get_name_eq_ok_iff.2 ⟨more, hvalues⟩
  cases d with
  | stat =>
    intro s before
    simp only [Files.stat, resolved_bind h, resolved_bind hname, invoke, run_bind, run_report,
      FileSystem.watched, run_noting]
    rcases (fs.metadata path).run.run s with ⟨_ | _, _⟩ <;> rfl
  | openFile =>
    intro s before
    simp only [Files.openFile, resolved_bind h, invoke, run_report, FileSystem.watched, run_noting]
    rcases (fs.openFile path).run.run s with ⟨_ | _, _⟩ <;> rfl
  | createFile =>
    intro s before
    simp only [Files.createFile, resolved_bind h, invoke, run_report, run_watched_createFile]
    rcases (fs.createFile path).run.run s with ⟨_ | _, _⟩ <;> rfl
  | createFolder =>
    intro s before
    simp only [Files.createFolder, resolved_bind h, invoke, run_bind, run_report, FileSystem.watched, run_noting]
    rcases (fs.createFolder path).run.run s with ⟨_ | _, _⟩ <;> rfl
  | remove =>
    intro s before
    simp only [Files.remove, asks, resolved_bind h, invoke, run_bind, run_report, FileSystem.watched, run_noting]
    rcases (fs.symlinkMetadata path).run.run s with ⟨_ | metadata, s'⟩
    · rfl
    · -- the answer decides what is asked next, in the state that the first operation left
      simp only
      cases metadata.isFolder with
      | true =>
        simp only [↓reduceIte, run_bind, run_report, run_noting, List.append_assoc]
        rcases (fs.removeFolder path).run.run s' with ⟨_ | _, _⟩ <;> rfl
      | false =>
        simp only [Bool.false_eq_true, ↓reduceIte, run_bind, run_report, run_noting, List.append_assoc]
        rcases (fs.removeFile path).run.run s' with ⟨_ | _, _⟩ <;> rfl

/-- Nothing but the name matters. -/
theorem invoked_congr (d : Deed) (hname : args'.get String 0 = args.get String 0) :
    (d.handler fs root).invoked args' = (d.handler fs root).invoked args := by
  have hresolve : resolve root args' = resolve root args := by rw [resolve_eq, resolve_eq, hname]
  cases d <;>
    simp only [handler, Handler.invoked, Files.stat, Files.openFile, Files.createFile, Files.createFolder,
      Files.remove, hresolve, hname]

end Deed

theorem get_first_congr [FromValue α] {args args' : Arguments} (h : args'.values.head? = args.values.head?) :
    args'.get α 0 = args.get α 0 := by
  unfold Arguments.get
  rw [← List.head?_eq_getElem?, ← List.head?_eq_getElem?, h]

/-- The methods that take a name stay inside their folder, whatever file system it is a folder of. The call names a
path just if its first argument is a text that is one component of a path, without backslash: then the path is one
step below the folder, and other names have other paths. Otherwise the first argument is missing, is not a text or is
refused, and the method fails for that and uses the file system for nothing. With a path, all that the method does to
the file system is done by operations on this path and on the sink opened there, and a watch on the file system sees
the operations that are to be done, each about this path; further arguments change nothing. -/
theorem service_stays_in_folder (fs : FileSystem σ) (root : Path) (d : Deed) (args : Arguments) :
    (∀ path, resolve root args = .ok path ↔
      ∃ name more, args.values = .text name :: more ∧ IsComponent name ∧ '\\' ∉ name.toList ∧
        path = root ++ [name]) ∧
    (∀ e, resolve root args = .error e ↔
      (args.values = [] ∧ e = .ofMessage "missing argument 0") ∨
      (∃ v more cause, args.values = v :: more ∧ (fromValue v : Except AppError String) = .error cause ∧
        e = .ofMessage s!"argument 0: {cause.display}") ∨
      ∃ name more, args.values = .text name :: more ∧ ¬(IsComponent name ∧ '\\' ∉ name.toList) ∧
        e = .ofMessage s!"invalid file name {Text.quote name}") ∧
    (∀ path, resolve root args = .ok path →
      path.dropLast = root ∧ path ≠ root ∧ path ≠ root.dropLast ∧
        ∀ args', resolve root args' = .ok path → args'.values.head? = args.values.head?) ∧
    ∃ h watched, (service fs root).methods.lookup d.method = some h ∧
      (service fs.watched root).methods.lookup d.method = some watched ∧
      (∀ e, resolve root args = .error e →
        (h.invoked args).Refuses e ∧ (watched.invoked args).Refuses e) ∧
      (∀ path, resolve root args = .ok path →
        (∀ R, fs.Keeps path R → InvocationKeeps R (h.invoked args)) ∧
        InvocationShows path (fun s => (d.asks fs path s).map (·, path)) (h.invoked args)
          (watched.invoked args)) ∧
      ∀ args', args'.values.head? = args.values.head? → h.invoked args' = h.invoked args := by
  refine ⟨fun _ => resolve_eq_ok_iff, fun _ => resolve_eq_error_iff, fun path hpath => ?_,
    d.handler fs root, d.handler fs.watched root, d.lookup_method fs root, d.lookup_method fs.watched root,
    fun e h => ⟨d.refuses h, d.refuses h⟩, fun path hpath => ⟨fun R hfs => d.keeps hfs hpath, d.shows hpath⟩,
    fun args' h => d.invoked_congr (get_first_congr h)⟩
  obtain ⟨name, more, hvalues, -, -, rfl⟩ := resolve_eq_ok_iff.1 hpath
  refine ⟨List.dropLast_concat, ?_, ?_, fun args' hpath' => ?_⟩
  · exact fun heq => by simpa using congrArg List.length heq
  · intro heq
    have hlength := congrArg List.length heq
    rw [List.length_append, List.length_dropLast, List.length_singleton] at hlength
    omega
  · obtain ⟨name', more', hvalues', -, -, heq⟩ := resolve_eq_ok_iff.1 hpath'
    cases List.append_cancel_left heq
    rw [hvalues, hvalues']
    rfl

/-- A file of the folder is removed, once it is seen that it is no folder, and nothing else is asked; what leads out
of the folder is refused; whatever becomes of a file that is created, only its path is noted. -/
theorem service_stays_in_folder_tree :
    let shelf := Tree.ofFolder "srv" [("a", [1, 2, 3])]
    (∃ h watched, (service Tree.fileSystem ["srv"]).methods.lookup "Remove" = some h ∧
      (service Tree.fileSystem.watched ["srv"]).methods.lookup "Remove" = some watched ∧
      (∃ e, (h.invoked ⟨[.text ".."]⟩).Refuses e) ∧
      ∃ run run', h.invoked ⟨[.text "a"]⟩ = .normal run ∧ watched.invoked ⟨[.text "a"]⟩ = .normal run' ∧
        (run' (shelf, [])).2 =
          ((run shelf).2, [(.symlinkMetadata, ["srv", "a"]), (.removeFile, ["srv", "a"])]) ∧
        shelf.nodes.toList.map Prod.fst = [[], ["srv"], ["srv", "a"]] ∧
        (run shelf).2.nodes.toList.map Prod.fst = [[], ["srv"]]) ∧
    ∃ h, (service Tree.fileSystem.watched ["srv"]).methods.lookup "Create" = some h ∧
      InvocationKeeps (NotesOnly ["srv", "b"]) (h.invoked ⟨[.text "b", .nil]⟩) := by
  intro shelf
  constructor
  · obtain ⟨h, watched, hh, hwatched, -, hpath, -⟩ :=
      (service_stays_in_folder Tree.fileSystem ["srv"] .remove ⟨[.text "a"]⟩).2.2.2
    obtain ⟨h', watched', hh', -, hrefused, -, -⟩ :=
      (service_stays_in_folder Tree.fileSystem ["srv"] .remove ⟨[.text ".."]⟩).2.2.2
    cases hh.symm.trans hh'
    have hdots : ¬(IsComponent ".." ∧ '\\' ∉ "..".toList) := fun h => (isComponent_iff.1 h.1).2.2.1 rfl
    obtain ⟨e, hrefusal⟩ : ∃ e, resolve ["srv"] ⟨[.text ".."]⟩ = .error e :=
      ⟨_, resolve_eq_error_iff.2 (.inr (.inr ⟨"..", [], rfl, hdots, rfl⟩))⟩
    refine ⟨h, watched, hh, hwatched, ⟨e, (hrefused e hrefusal).1⟩, ?_⟩
    have hshows := (hpath ["srv", "a"] rfl).2
    cases hh.symm.trans (Deed.remove.lookup_method _ _)
    cases hwatched.symm.trans (Deed.remove.lookup_method _ _)
    refine ⟨_, _, rfl, rfl, ?_, by decide +kernel, by decide +kernel⟩
    rw [hshows shelf []]
    exact congrArg (Prod.mk _) (by decide +kernel)
  · obtain ⟨h, _, hh, -, -, hpath, -⟩ :=
      (service_stays_in_folder Tree.fileSystem.watched ["srv"] .createFile ⟨[.text "b", .nil]⟩).2.2.2
    exact ⟨h, hh, (hpath ["srv", "b"] rfl).1 _ (Tree.fileSystem.watched_keeps ["srv", "b"])⟩

end Files

end RemoteCall
