import HlOrderbook.ChunkedReading
import HlOrderbook.Lib.Runs

/-!
# Watching the node's files

A watcher hears of new files and of what is appended, and calls the reader: once for what
is on disk, then whenever something comes.  Before it begins with a new file it reads the
old one until a call finds no line, and some time later it looks whether that one has
grown.

The node and the watcher take their steps in any order.  What is sent carries its file, so
that it can be told of each line how often it was sent.

## Main definitions

* `StreamDisk` — the files.
* `FileWatcher`, `FileWatcher.step`, `FileWatcher.Steps` — the watcher, and what it can do.
* `owed`, `owedFrom`, `deliveredOf` — the lines of a file to send, and those sent.
* `FileWatcher.Ahead` — there is something left to read of a file, or to look at.
* `FileWatcher.Accounted` — the lines of a file were sent, or there is a report.
* `FileWatcher.Tracks` — a step sends no line again and passes none over.
-/

set_option autoImplicit false
set_option linter.unusedSectionVars false

namespace HlOrderbook

open FileReader

/-! ## The files -/

/-- A file to which something was appended. -/
def StreamFile.grow (path : StreamPath) (bytes : Bytes) (mtime : ℕ) (f : StreamFile) : StreamFile :=
  if f.path = path then { f with content := f.content ++ bytes, mtime } else f

/-- Put a new file into the directory of its day. -/
def addFile (f : StreamFile) : List DayDir → List DayDir
  | [] => [⟨f.path.day, [f]⟩]
  | day :: days =>
    if day.name = f.path.day then { day with files := day.files ++ [f] } :: days
    else day :: addFile f days

theorem flatMap_addFile (f : StreamFile) (days : List DayDir) :
    ((addFile f days).flatMap DayDir.files).Perm (f :: days.flatMap DayDir.files) := by
  induction days with
  | nil => exact List.Perm.refl _
  | cons day days ih =>
    rw [addFile]
    split
    · rw [List.flatMap_cons, List.flatMap_cons, List.append_assoc]
      exact List.perm_middle
    · rw [List.flatMap_cons, List.flatMap_cons]
      exact (ih.append_left _).trans List.perm_middle

/-- The files of a stream, one under each path. -/
structure StreamDisk where
  days : List DayDir
  nodup : ((days.flatMap DayDir.files).map StreamFile.path).Nodup

namespace StreamDisk

def files (d : StreamDisk) : List StreamFile := d.days.flatMap DayDir.files

/-- The file under a path. -/
def file? (d : StreamDisk) (path : StreamPath) : Option StreamFile :=
  d.files.find? fun f => f.path = path

/-- What is in the file under a path. -/
def content (d : StreamDisk) (path : StreamPath) : Bytes :=
  ((d.file? path).map StreamFile.content).getD []

/-- What is in the file under a path, if it can be opened. -/
def opened (d : StreamDisk) (path : StreamPath) : Option Bytes :=
  (d.file? path).bind fun f => if f.readable then some f.content else none

def length (d : StreamDisk) (path : StreamPath) : Option ℕ :=
  (d.file? path).map fun f => f.content.length

def mtime (d : StreamDisk) (path : StreamPath) : Option ℕ := (d.file? path).map StreamFile.mtime

theorem flatMap_grow (path : StreamPath) (bytes : Bytes) (mtime : ℕ) (days : List DayDir) :
    (days.map fun day => { day with files := day.files.map (·.grow path bytes mtime) }).flatMap
      DayDir.files = (days.flatMap DayDir.files).map (·.grow path bytes mtime) := by
  rw [List.flatMap_map, List.map_flatMap]

theorem path_grow (path : StreamPath) (bytes : Bytes) (mtime : ℕ) (f : StreamFile) :
    (f.grow path bytes mtime).path = f.path := by
  rw [StreamFile.grow]
  split <;> rfl

/-- Append to a file. -/
def append (d : StreamDisk) (path : StreamPath) (bytes : Bytes) (mtime : ℕ) : StreamDisk where
  days := d.days.map fun day => { day with files := day.files.map (·.grow path bytes mtime) }
  nodup := by
    rw [flatMap_grow, List.map_map]
    have hpath : StreamFile.path ∘ (·.grow path bytes mtime) = StreamFile.path :=
      funext fun f => path_grow path bytes mtime f
    rw [hpath]
    exact d.nodup

/-- Make a new file. -/
def create (d : StreamDisk) (f : StreamFile) (hnew : d.file? f.path = none) : StreamDisk where
  days := addFile f d.days
  nodup := by
    rw [((flatMap_addFile f d.days).map StreamFile.path).nodup_iff, List.map_cons,
      List.nodup_cons]
    refine ⟨fun hmem => ?_, d.nodup⟩
    obtain ⟨f', hf', hpath⟩ := List.mem_map.mp hmem
    have hne := List.find?_eq_none.mp hnew f' hf'
    exact hne (decide_eq_true hpath)

/-- A file is found under its path. -/
theorem file?_eq_some_iff {d : StreamDisk} {path : StreamPath} {f : StreamFile} :
    d.file? path = some f ↔ f ∈ d.files ∧ f.path = path := by
  constructor
  · intro hf
    have hpath := List.find?_some hf
    exact ⟨List.mem_of_find?_eq_some hf, of_decide_eq_true hpath⟩
  · rintro ⟨hf, rfl⟩
    cases hfound : d.file? f.path with
    | none => exact absurd (decide_eq_true rfl) (List.find?_eq_none.mp hfound f hf)
    | some f' =>
      have hpath := List.find?_some hfound
      have hf' : f' ∈ d.files := List.mem_of_find?_eq_some hfound
      exact congrArg some (List.inj_on_of_nodup_map d.nodup hf' hf (of_decide_eq_true hpath))

theorem content_of_mem {d : StreamDisk} {f : StreamFile} (hf : f ∈ d.files) :
    d.content f.path = f.content := by
  rw [content, file?_eq_some_iff.mpr ⟨hf, rfl⟩]
  rfl

theorem file?_append (d : StreamDisk) (path : StreamPath) (bytes : Bytes) (mtime : ℕ)
    (path' : StreamPath) :
    (d.append path bytes mtime).file? path' = (d.file? path').map (·.grow path bytes mtime) := by
  have hfiles : (d.append path bytes mtime).files = d.files.map (·.grow path bytes mtime) :=
    flatMap_grow path bytes mtime d.days
  rw [file?, file?, hfiles, List.find?_map]
  congr 2
  funext f
  simp only [Function.comp, path_grow]

/-- **What is appended** is behind what was in the file. -/
theorem content_append {d : StreamDisk} {path : StreamPath} (hsome : (d.file? path).isSome = true)
    (bytes : Bytes) (mtime : ℕ) (path' : StreamPath) :
    (d.append path bytes mtime).content path' =
      if path' = path then d.content path ++ bytes else d.content path' := by
  rw [content, file?_append]
  cases hf : d.file? path' with
  | none =>
    rw [if_neg fun heq => ?_]
    · rw [content, hf]
      rfl
    · rw [← heq, hf] at hsome
      cases hsome
  | some f =>
    have hpath := (file?_eq_some_iff.mp hf).2
    rw [Option.map_some, Option.map_some, Option.getD_some, StreamFile.grow, hpath]
    split
    case isTrue heq =>
      rw [content, ← heq, hf]
      rfl
    case isFalse hne =>
      rw [content, hf]
      rfl

/-- What is appended is behind what was read. -/
theorem take_content_append {d : StreamDisk} {path : StreamPath}
    (hsome : (d.file? path).isSome = true) (bytes : Bytes) (mtime : ℕ) {path' : StreamPath} {n : ℕ}
    (hn : n ≤ (d.content path').length) :
    ((d.append path bytes mtime).content path').take n = (d.content path').take n := by
  rw [content_append hsome]
  split
  case isTrue heq => rw [← heq, List.take_append_of_le_length hn]
  case isFalse => rfl

theorem length_content_append_le {d : StreamDisk} {path : StreamPath}
    (hsome : (d.file? path).isSome = true) (bytes : Bytes) (mtime : ℕ) (path' : StreamPath) :
    (d.content path').length ≤ ((d.append path bytes mtime).content path').length := by
  rw [content_append hsome]
  split
  case isTrue heq =>
    rw [heq, List.length_append]
    omega
  case isFalse => exact Nat.le_refl _

theorem isSome_opened_append (d : StreamDisk) (path : StreamPath) (bytes : Bytes) (mtime : ℕ)
    (path' : StreamPath) :
    ((d.append path bytes mtime).opened path').isSome = (d.opened path').isSome := by
  rw [opened, opened, file?_append]
  cases d.file? path' with
  | none => rfl
  | some f =>
    rw [Option.map_some, Option.bind_some, Option.bind_some, StreamFile.grow]
    split <;> cases f.readable <;> rfl

theorem opened_eq_some {d : StreamDisk} {path : StreamPath} {bytes : Bytes}
    (h : d.opened path = some bytes) : bytes = d.content path := by
  rw [opened] at h
  obtain ⟨f, hf, hbytes⟩ := Option.bind_eq_some_iff.mp h
  split at hbytes
  · rw [content, hf]
    exact (Option.some.inj hbytes).symm
  · cases hbytes

theorem file?_create {d : StreamDisk} {f : StreamFile} (hnew : d.file? f.path = none)
    (path : StreamPath) :
    (d.create f hnew).file? path = if path = f.path then some f else d.file? path := by
  have hmem : ∀ f', f' ∈ (d.create f hnew).files ↔ f' = f ∨ f' ∈ d.files := by
    intro f'
    rw [files, create, (flatMap_addFile f d.days).mem_iff, List.mem_cons]
    rfl
  split
  case isTrue heq => exact file?_eq_some_iff.mpr ⟨(hmem f).mpr (Or.inl rfl), heq.symm⟩
  case isFalse hne =>
    ext f'
    rw [file?_eq_some_iff, file?_eq_some_iff, hmem]
    refine ⟨?_, fun h => ⟨Or.inr h.1, h.2⟩⟩
    rintro ⟨rfl | hold, hpath⟩
    · exact absurd hpath.symm hne
    · exact ⟨hold, hpath⟩

/-- A new file is empty, and the others stay. -/
theorem content_create {d : StreamDisk} {f : StreamFile} (hnew : d.file? f.path = none)
    (hempty : f.content = []) (path : StreamPath) :
    (d.create f hnew).content path = d.content path := by
  rw [content, content, file?_create]
  split
  case isTrue heq =>
    rw [heq, hnew]
    exact hempty
  case isFalse => rfl

theorem opened_create {d : StreamDisk} {f : StreamFile} (hnew : d.file? f.path = none)
    {path : StreamPath} (hne : path ≠ f.path) : (d.create f hnew).opened path = d.opened path := by
  rw [opened, opened, file?_create, if_neg hne]

theorem content_of_none {d : StreamDisk} {path : StreamPath} (h : d.file? path = none) :
    d.content path = [] := by
  rw [content, h]
  rfl

end StreamDisk

/-! ## Lines that are owed, and lines that are sent -/

/-- A line that is to be sent: well-formed, and above the floor if there is one. -/
def owedLine (floor : Option ℕ) (line : Bytes) : Option String :=
  (readSegment line).1.filter fun s => floor.all fun minHeight => isAboveFloor minHeight s.toList

/-- The lines of some bytes that are to be sent. -/
def owed (floor : Option ℕ) (bytes : Bytes) : List String :=
  (Lines.cut newline bytes).1.filterMap (owedLine floor)

/-- Those of them that come behind the first `n` lines. -/
def owedFrom (floor : Option ℕ) (n : ℕ) (bytes : Bytes) : List String :=
  ((Lines.cut newline bytes).1.drop n).filterMap (owedLine floor)

/-- How many lines are complete.  One that is not, and longer already than what is kept of
a line, counts. -/
def linesBefore (bytes : Bytes) : ℕ :=
  (Lines.cut newline bytes).1.length +
    if maxPartialLineBytes < (Lines.cut newline bytes).2.length then 1 else 0

/-- What the watcher sends: a line of a file, or that something was given up. -/
inductive WatchMessage where
  | line (path : StreamPath) (s : String)
  | desync
  deriving DecidableEq

/-- The line in a message. -/
def WatchMessage.text : WatchMessage → Option String
  | .line _ s => some s
  | .desync => none

/-- The lines that were sent of a file. -/
def deliveredOf (path : StreamPath) (said : List WatchMessage) : List String :=
  said.filterMap fun
    | .line path' s => if path' = path then some s else none
    | .desync => none

/-- A text that was read is the end of a line. -/
def IsEndOf (s : String) (line : Bytes) : Prop :=
  ∃ rest, rest <:+ line ∧ (readSegment rest).1 = some s

namespace FileReader

/-- The lines that are read are of the tracked file. -/
def tagged (r : FileReader) (lines : List String) : List WatchMessage :=
  match r.currentPath with
  | none => []
  | some path => lines.map (.line path)

/-- The lines on disk that are sent, each with its file. -/
def backfilled (minHeight : ℕ) (days : List DayDir) : List WatchMessage :=
  (backfillFiles minHeight 0 (allFilesNewestFirst days)).1.reverse.flatMap fun f =>
    (f.linesRead.filterMap (emittedLine minHeight)).map (.line f.path)

end FileReader

/-! ## The watcher -/

/-- What is heard of the file system. -/
inductive FsEvent where
  | created (path : StreamPath)
  | modified (path : StreamPath)
  deriving DecidableEq

/-- What the watcher is at: it has not begun, it waits for what comes, or it reads the rest
of a file before it begins with another; then it has read lines it has not sent, and
perhaps called the reader before. -/
inductive WatchMode where
  | starting
  | idle
  | draining (target : StreamPath) (lines : List String) (again : Bool)
  deriving DecidableEq

/-- The file to begin with. -/
def WatchMode.target : WatchMode → Option StreamPath
  | .draining target _ _ => some target
  | _ => none

/-- The lines that were read and not sent. -/
def WatchMode.unsent : WatchMode → List String
  | .draining _ lines _ => lines
  | _ => []

/-- The watcher of a stream, with its files.  `floor` is the height above which it sends
what is on disk, if it is to. -/
structure FileWatcher where
  floor : Option ℕ
  disk : StreamDisk
  now : ℕ
  events : List FsEvent
  mode : WatchMode
  reader : FileReader

/-- What happens: the node appends to a file or makes a new one, time passes, and the
watcher takes a step.  A new file is `heard` of or not: the directory of a new day may not
be watched yet.  `late` is what is appended to the newest file while the lines on disk are
read. -/
inductive WatchOp where
  | append (path : StreamPath) (bytes : Bytes) (mtime : ℕ)
  | create (path : StreamPath) (readable heard : Bool) (mtime : ℕ)
  | tick (ms : ℕ)
  | backfill (late : Bytes) (mtime : ℕ)
  | live
  | event
  | modify
  | rotation
  | newer
  | take

namespace FileWatcher

/-- A watcher that has not begun. -/
def start (floor : Option ℕ) (disk : StreamDisk) : FileWatcher :=
  ⟨floor, disk, 0, [], .starting, .new⟩

/-- Something is appended to a file. -/
def grow (w : FileWatcher) (path : StreamPath) (bytes : Bytes) (mtime : ℕ) : FileWatcher :=
  { w with disk := w.disk.append path bytes mtime, events := w.events ++ [.modified path] }

/-- One step; `none` when it cannot happen now. -/
def step (w : FileWatcher) : WatchOp → Option (FileWatcher × List WatchMessage)
  | .append path bytes mtime =>
    if (w.disk.file? path).isSome then some (w.grow path bytes mtime, []) else none
  | .create path readable heard mtime =>
    if hnew : w.disk.file? path = none then
      some ({ w with
        disk := w.disk.create ⟨path, mtime, readable, []⟩ hnew
        events := if heard then w.events ++ [.created path] else w.events }, [])
    else none
  | .tick ms => some ({ w with now := w.now + ms }, [])
  | .backfill late mtime =>
    match w.mode, w.floor with
    | .starting, some minHeight =>
      let reader := (w.reader.backfillAndTrack w.disk.days minHeight (fun _ => true) late).1
      let w := { w with mode := .idle, reader }
      some (match reader.currentPath with
        | some newest => w.grow newest late mtime
        | none => w, FileReader.backfilled minHeight w.disk.days)
    | _, _ => none
  | .live =>
    match w.mode, w.floor with
    | .starting, none => some ({ w with mode := .idle }, [])
    | _, _ => none
  | .event =>
    match w.mode, w.events with
    | .idle, .created path :: events =>
      some ({ w with events, mode := .draining path [] false }, [])
    | .idle, .modified path :: events =>
      some ({ w with
        events
        reader := if w.reader.currentPath = none then w.reader.startTracking w.disk.length path
          else w.reader }, [])
    | _, _ => none
  | .modify =>
    let (reader, lines) := w.reader.onModify w.disk.opened
    match w.mode with
    | .starting => none
    | .idle => some ({ w with reader }, w.reader.tagged lines)
    | .draining path old again =>
      if again ∧ lines = [] then
        some ({ w with reader := reader.switchTo w.now path, mode := .idle }, w.reader.tagged old)
      else some ({ w with reader, mode := .draining path (old ++ lines) true }, [])
  | .rotation =>
    if w.mode = .idle then
      some ({ w with reader := w.reader.checkRotation w.now w.disk.length }, [])
    else none
  | .newer =>
    if w.mode = .idle then
      match w.reader.checkForNewerFile w.disk.days w.disk.mtime with
      | some path => some ({ w with mode := .draining path [] false }, [])
      | none => some (w, [])
    else none
  | .take =>
    if w.mode = .idle then
      let (reader, desynced) := w.reader.takeDesynced
      some ({ w with reader }, if desynced then [.desync] else [])
    else none

/-- **What a step can do**, under which conditions, and what it says. -/
inductive Steps (w : FileWatcher) : WatchOp → FileWatcher → List WatchMessage → Prop where
  | append {path : StreamPath} {bytes : Bytes} {mtime : ℕ}
      (hsome : (w.disk.file? path).isSome = true) :
      Steps w (.append path bytes mtime) (w.grow path bytes mtime) []
  | create {path : StreamPath} {readable heard : Bool} {mtime : ℕ}
      (hnew : w.disk.file? path = none) :
      Steps w (.create path readable heard mtime) { w with
        disk := w.disk.create ⟨path, mtime, readable, []⟩ hnew
        events := if heard then w.events ++ [.created path] else w.events } []
  | tick {ms : ℕ} : Steps w (.tick ms) { w with now := w.now + ms } []
  | backfill {late : Bytes} {mtime minHeight : ℕ} {newest : StreamPath}
      (hmode : w.mode = .starting) (hfloor : w.floor = some minHeight)
      (hcurrent : (w.reader.backfillAndTrack w.disk.days minHeight
        (fun _ => true) late).1.currentPath = some newest) :
      Steps w (.backfill late mtime) (grow { w with
        mode := .idle
        reader := (w.reader.backfillAndTrack w.disk.days minHeight (fun _ => true) late).1 }
        newest late mtime) (FileReader.backfilled minHeight w.disk.days)
  | backfillNone {late : Bytes} {mtime minHeight : ℕ}
      (hmode : w.mode = .starting) (hfloor : w.floor = some minHeight)
      (hcurrent : (w.reader.backfillAndTrack w.disk.days minHeight
        (fun _ => true) late).1.currentPath = none) :
      Steps w (.backfill late mtime) { w with
        mode := .idle
        reader := (w.reader.backfillAndTrack w.disk.days minHeight (fun _ => true) late).1 }
        (FileReader.backfilled minHeight w.disk.days)
  | live (hmode : w.mode = .starting) (hfloor : w.floor = none) :
      Steps w .live { w with mode := .idle } []
  | created {path : StreamPath} {events : List FsEvent} (hmode : w.mode = .idle)
      (hevents : w.events = .created path :: events) :
      Steps w .event { w with events, mode := .draining path [] false } []
  | modified {path : StreamPath} {events : List FsEvent} (hmode : w.mode = .idle)
      (hevents : w.events = .modified path :: events) (hcurrent : w.reader.currentPath ≠ none) :
      Steps w .event { w with events } []
  | track {path : StreamPath} {events : List FsEvent} (hmode : w.mode = .idle)
      (hevents : w.events = .modified path :: events) (hcurrent : w.reader.currentPath = none) :
      Steps w .event { w with
        events, reader := w.reader.startTracking w.disk.length path } []
  | read (hmode : w.mode = .idle) :
      Steps w .modify { w with reader := (w.reader.onModify w.disk.opened).1 }
        (w.reader.tagged (w.reader.onModify w.disk.opened).2)
  | switch {path : StreamPath} {old : List String} (hmode : w.mode = .draining path old true)
      (hlines : (w.reader.onModify w.disk.opened).2 = []) :
      Steps w .modify { w with
        reader := (w.reader.onModify w.disk.opened).1.switchTo w.now path
        mode := .idle } (w.reader.tagged old)
  | drain {path : StreamPath} {old : List String} {again : Bool}
      (hmode : w.mode = .draining path old again) :
      Steps w .modify { w with
        reader := (w.reader.onModify w.disk.opened).1
        mode := .draining path (old ++ (w.reader.onModify w.disk.opened).2) true } []
  | rotation (hmode : w.mode = .idle) :
      Steps w .rotation { w with reader := w.reader.checkRotation w.now w.disk.length } []
  | newer {path : StreamPath} (hmode : w.mode = .idle) :
      Steps w .newer { w with mode := .draining path [] false } []
  | noneNewer (hmode : w.mode = .idle) : Steps w .newer w []
  | take (hmode : w.mode = .idle) :
      Steps w .take { w with reader := w.reader.takeDesynced.1 }
        (if w.reader.takeDesynced.2 then [.desync] else [])

theorem step_cases {w w' : FileWatcher} {op : WatchOp} {said : List WatchMessage}
    (hstep : w.step op = some (w', said)) : w.Steps op w' said := by
  cases op with
  | append path bytes mtime =>
    rw [step] at hstep
    split at hstep
    case isTrue hsome =>
      cases hstep
      exact .append hsome
    case isFalse => cases hstep
  | create path readable heard mtime =>
    rw [step] at hstep
    split at hstep
    case isTrue hnew =>
      cases hstep
      exact .create hnew
    case isFalse => cases hstep
  | tick ms =>
    cases hstep
    exact .tick
  | backfill late mtime =>
    simp only [step] at hstep
    split at hstep
    case h_1 minHeight hmode hfloor =>
      split at hstep
      case h_1 newest hcurrent =>
        cases hstep
        exact .backfill hmode hfloor hcurrent
      case h_2 hcurrent =>
        cases hstep
        exact .backfillNone hmode hfloor hcurrent
    case h_2 => cases hstep
  | live =>
    simp only [step] at hstep
    split at hstep
    case h_1 hmode hfloor =>
      cases hstep
      exact .live hmode hfloor
    case h_2 => cases hstep
  | event =>
    simp only [step] at hstep
    split at hstep
    case h_1 path events hmode hevents =>
      cases hstep
      exact .created hmode hevents
    case h_2 path events hmode hevents =>
      split at hstep
      case isTrue hcurrent =>
        cases hstep
        exact .track hmode hevents hcurrent
      case isFalse hcurrent =>
        cases hstep
        exact .modified hmode hevents hcurrent
    case h_3 => cases hstep
  | modify =>
    simp only [step] at hstep
    split at hstep
    case h_1 => cases hstep
    case h_2 hmode =>
      cases hstep
      exact .read hmode
    case h_3 path old again hmode =>
      split at hstep
      case isTrue hlast =>
        cases hstep
        obtain ⟨rfl, hlines⟩ := hlast
        exact .switch hmode hlines
      case isFalse =>
        cases hstep
        exact .drain hmode
  | rotation =>
    rw [step] at hstep
    split at hstep
    case isTrue hmode =>
      cases hstep
      exact .rotation hmode
    case isFalse => cases hstep
  | newer =>
    rw [step] at hstep
    split at hstep
    case isTrue hmode =>
      split at hstep
      case h_1 path _ =>
        cases hstep
        exact .newer hmode
      case h_2 =>
        cases hstep
        exact .noneNewer hmode
    case isFalse => cases hstep
  | take =>
    simp only [step] at hstep
    split at hstep
    case isTrue hmode =>
      cases hstep
      exact .take hmode
    case isFalse => cases hstep

/-! ## What is to come, and what is reported -/

/-- There is something left of a file: the watcher has not begun, or has read lines that it
has not sent, or has not heard of the file; or the file is tracked, or was left and is to
be looked at once more, and is longer than what was read of it; or nothing of it was sent,
and the next look for a newer file finds it. -/
def Ahead (w : FileWatcher) (said : List WatchMessage) (path : StreamPath) : Prop :=
  w.mode ≠ .idle ∨ FsEvent.created path ∈ w.events ∨
    (w.reader.currentPath = some path ∧ w.reader.filePosition < (w.disk.content path).length) ∨
    (∃ r ∈ w.reader.rotatedFrom, r.1 = path ∧ r.2.1 < (w.disk.content path).length) ∨
    (deliveredOf path said = [] ∧
      w.reader.checkForNewerFile w.disk.days w.disk.mtime = some path)

/-- A loss was reported, or is to be. -/
def Reported (w : FileWatcher) (said : List WatchMessage) : Prop :=
  WatchMessage.desync ∈ said ∨ w.reader.desynced = true

/-- **The lines of a file behind the first `n`** were sent of late, or a loss was reported
of late or is to be, or there is something left of the file. -/
def Accounted (w : FileWatcher) (path : StreamPath) (n : ℕ) (said later : List WatchMessage) :
    Prop :=
  w.Ahead said path ∨ w.Reported later ∨
    (owedFrom w.floor n (w.disk.content path)).Sublist (deliveredOf path later)

/-- A file of which the watcher does not know: lines of it are owed and none was sent, it is
not tracked and was not left of late, and nothing leads to it. -/
structure Overlooked (w : FileWatcher) (said : List WatchMessage) (path : StreamPath) : Prop where
  unsent : deliveredOf path said = []
  lacks : owed w.floor (w.disk.content path) ≠ []
  untracked : w.reader.currentPath ≠ some path
  unleft : ∀ r ∈ w.reader.rotatedFrom, r.1 ≠ path
  unahead : ¬ w.Ahead said path

/-! ## What may go wrong -/

/-- No line that is owed is passed over in the files on disk that are read: but for files of
which the watcher is to hear, none stands behind a line that is no text, nor in a newest
file that cannot be opened. -/
structure PassesNone (w : FileWatcher) (minHeight : ℕ) : Prop where
  passed : ∀ f ∈ (backfillFiles minHeight 0 (allFilesNewestFirst w.disk.days)).1.tail,
    FsEvent.created f.path ∈ w.events ∨
      ∀ line ∈ f.linesPassed, owedLine (some minHeight) line = none
  opened : ∀ f ∈ (allFilesNewestFirst w.disk.days).head?, f.readable = true ∨
    owed (some minHeight) f.content = []

/-- A file can be begun with: no line of it was sent, and the file that was left before the
one to leave now has no line that was not read, or none of it was sent. -/
structure Switches (w : FileWatcher) (said : List WatchMessage) (path : StreamPath)
    (old : List String) : Prop where
  fresh : deliveredOf path said = []
  unread : w.reader.currentPath = some path → old = []
  settled : ∀ current ∈ w.reader.currentPath, current ≠ path →
    ∀ r ∈ w.reader.rotatedFrom, r.1 = path ∨ deliveredOf r.1 said = [] ∨
      owed w.floor (w.disk.content r.1) = owed w.floor ((w.disk.content r.1).take r.2.1)

/-- A file that is begun with at its end has nothing that is owed, and no unfinished line. -/
def BeginsAtEnd (w : FileWatcher) : List FsEvent → Prop
  | .modified path :: _ => w.reader.currentPath = none →
    owed w.floor (w.disk.content path) = [] ∧ (Lines.cut newline (w.disk.content path)).2 = []
  | _ => True

/-- Where a call finds no line, and another file is begun with, it can be. -/
def MaySwitch (w : FileWatcher) (said : List WatchMessage) : WatchMode → Prop
  | .draining path old true => (w.reader.onModify w.disk.opened).2 = [] → w.Switches said path old
  | _ => True

/-- **A step sends no line again, and passes none over.**  A file of which no line was sent
may grow in any way: it can still be begun with. -/
def Tracks (said : List WatchMessage) (w : FileWatcher) : WatchOp → Prop
  | .append path bytes _ =>
    w.mode = .starting ∨ w.reader.currentPath = some path ∨ FsEvent.created path ∈ w.events ∨
      w.mode.target = some path ∨ (∃ r ∈ w.reader.rotatedFrom, r.1 = path) ∨
      deliveredOf path said = [] ∨
      owed w.floor (w.disk.content path ++ bytes) = owed w.floor (w.disk.content path)
  | .backfill _ _ => ∀ minHeight ∈ w.floor,
    (backfillFiles minHeight 0 (allFilesNewestFirst w.disk.days)).2 = true ∨
      w.PassesNone minHeight
  | .event => w.BeginsAtEnd w.events
  | .modify => w.MaySwitch said w.mode
  | _ => True

instance Ahead.decidable (w : FileWatcher) (said : List WatchMessage) (path : StreamPath) :
    Decidable (w.Ahead said path) :=
  inferInstanceAs (Decidable (w.mode ≠ .idle ∨ FsEvent.created path ∈ w.events ∨
    (w.reader.currentPath = some path ∧ w.reader.filePosition < (w.disk.content path).length) ∨
    (∃ r ∈ w.reader.rotatedFrom, r.1 = path ∧ r.2.1 < (w.disk.content path).length) ∨
    (deliveredOf path said = [] ∧
      w.reader.checkForNewerFile w.disk.days w.disk.mtime = some path)))

instance Reported.decidable (w : FileWatcher) (said : List WatchMessage) :
    Decidable (w.Reported said) :=
  inferInstanceAs (Decidable (WatchMessage.desync ∈ said ∨ w.reader.desynced = true))

instance Overlooked.decidable (w : FileWatcher) (said : List WatchMessage) (path : StreamPath) :
    Decidable (w.Overlooked said path) :=
  decidable_of_iff (deliveredOf path said = [] ∧ owed w.floor (w.disk.content path) ≠ [] ∧
    w.reader.currentPath ≠ some path ∧ (∀ r ∈ w.reader.rotatedFrom, r.1 ≠ path) ∧
    ¬ w.Ahead said path)
    ⟨fun h => ⟨h.1, h.2.1, h.2.2.1, h.2.2.2.1, h.2.2.2.2⟩,
      fun h => ⟨h.unsent, h.lacks, h.untracked, h.unleft, h.unahead⟩⟩

instance PassesNone.decidable (w : FileWatcher) (minHeight : ℕ) :
    Decidable (w.PassesNone minHeight) :=
  decidable_of_iff
    ((∀ f ∈ (backfillFiles minHeight 0 (allFilesNewestFirst w.disk.days)).1.tail,
      FsEvent.created f.path ∈ w.events ∨
        ∀ line ∈ f.linesPassed, owedLine (some minHeight) line = none) ∧
    ∀ f ∈ (allFilesNewestFirst w.disk.days).head?, f.readable = true ∨
      owed (some minHeight) f.content = [])
    ⟨fun h => ⟨h.1, h.2⟩, fun h => ⟨h.passed, h.opened⟩⟩

instance Switches.decidable (w : FileWatcher) (said : List WatchMessage) (path : StreamPath)
    (old : List String) : Decidable (w.Switches said path old) :=
  decidable_of_iff (deliveredOf path said = [] ∧ (w.reader.currentPath = some path → old = []) ∧
    ∀ current ∈ w.reader.currentPath, current ≠ path →
      ∀ r ∈ w.reader.rotatedFrom, r.1 = path ∨ deliveredOf r.1 said = [] ∨
        owed w.floor (w.disk.content r.1) = owed w.floor ((w.disk.content r.1).take r.2.1))
    ⟨fun h => ⟨h.1, h.2.1, h.2.2⟩, fun h => ⟨h.fresh, h.unread, h.settled⟩⟩

instance BeginsAtEnd.decidable (w : FileWatcher) : ∀ events, Decidable (w.BeginsAtEnd events)
  | .modified path :: _ => inferInstanceAs (Decidable (w.reader.currentPath = none →
      owed w.floor (w.disk.content path) = [] ∧
        (Lines.cut newline (w.disk.content path)).2 = []))
  | .created _ :: _ | [] => inferInstanceAs (Decidable True)

instance MaySwitch.decidable (w : FileWatcher) (said : List WatchMessage) :
    ∀ mode, Decidable (w.MaySwitch said mode)
  | .draining path old true => inferInstanceAs (Decidable
      ((w.reader.onModify w.disk.opened).2 = [] → w.Switches said path old))
  | .draining _ _ false | .idle | .starting => inferInstanceAs (Decidable True)

instance Tracks.decidable (said : List WatchMessage) (w : FileWatcher) :
    ∀ op, Decidable (w.Tracks said op)
  | .append path bytes _ => inferInstanceAs (Decidable (w.mode = .starting ∨
      w.reader.currentPath = some path ∨ FsEvent.created path ∈ w.events ∨
      w.mode.target = some path ∨ (∃ r ∈ w.reader.rotatedFrom, r.1 = path) ∨
      deliveredOf path said = [] ∨
      owed w.floor (w.disk.content path ++ bytes) = owed w.floor (w.disk.content path)))
  | .backfill _ _ => inferInstanceAs (Decidable (∀ minHeight ∈ w.floor,
      (backfillFiles minHeight 0 (allFilesNewestFirst w.disk.days)).2 = true ∨
        w.PassesNone minHeight))
  | .event => inferInstanceAs (Decidable (w.BeginsAtEnd w.events))
  | .modify => inferInstanceAs (Decidable (w.MaySwitch said w.mode))
  | .create _ _ _ _ | .tick _ | .live | .rotation | .newer | .take => inferInstanceAs (Decidable True)

end FileWatcher

end HlOrderbook
