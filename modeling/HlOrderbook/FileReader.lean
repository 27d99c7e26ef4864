import HlOrderbook.Lib.Lines
import HlOrderbook.Text
import HlOrderbook.Types
import Mathlib.Data.List.Sort

/-!
# Reading the node's files

The node appends lines to one file an hour, and the reader follows.  It can begin with
the lines that are on disk already, back to a height; after that it reads on from where
it stopped, and begins with a new file when there is one.

## Main definitions

* `extractBlockNumber` — the height in a line.
* `StreamFile`, `allFilesNewestFirst` — the files.
* `FileReader`, `backfillAndTrack` — the lines that are on disk.
* `onModify` — the lines that come.
* `switchTo`, `checkRotation`, `checkForNewerFile`, `startTracking` — other files.
-/

set_option autoImplicit false
set_option linter.unusedSectionVars false

namespace HlOrderbook

/-! ## Lines -/

/-- The end of a line. -/
def newline : UInt8 := 10

/-- What stands behind the first occurrence of a text. -/
def afterFirst (key : List Char) : List Char → Option (List Char)
  | [] => if key = [] then some [] else none
  | c :: cs =>
    if key.isPrefixOf (c :: cs) then some ((c :: cs).drop key.length) else afterFirst key cs

/-- The block height in a line, if one can be read. -/
def extractBlockNumber (line : List Char) : Option ℕ :=
  match afterFirst "\"block_number\":".toList line with
  | none => none
  | some rest =>
    let digits := (rest.dropWhile isWhitespace).takeWhile Char.isDigit
    if digits = [] then none
    else
      let n := digits.foldl (fun n c => 10 * n + (c.toNat - 48)) 0
      if n ≤ u64Max then some n else none

/-- Whether a line has the form of an object. -/
def isObject (line : List Char) : Bool := line.head? = some '\x7b' && line.getLast? = some '\x7d'

/-- Whether a line is not known to be at the floor or below it. -/
def isAboveFloor (minHeight : ℕ) (line : List Char) : Bool :=
  (extractBlockNumber line).all fun h => minHeight < h

/-! ## Files -/

/-- Where a file is: the directory of the day, and the name. -/
structure StreamPath where
  day : String
  name : String
  deriving DecidableEq

/-- A file: when it was changed last, whether it can be opened, and what is in it. -/
structure StreamFile where
  path : StreamPath
  mtime : ℕ
  readable : Bool
  content : Bytes

/-- The directory of a day. -/
structure DayDir where
  name : String
  files : List StreamFile

/-- The files of the two latest days, the newest first. -/
def allFilesNewestFirst (days : List DayDir) : List StreamFile :=
  let days := (days.insertionSort fun a b => b.name ≤ a.name).take 2
  days.flatMap fun day =>
    day.files.insertionSort fun a b =>
      b.mtime < a.mtime ∨ b.mtime = a.mtime ∧ b.path.name ≤ a.path.name

/-- The height in the head of a file. -/
def StreamFile.firstBlockNumber (f : StreamFile) : Option ℕ :=
  if f.readable then extractBlockNumber (lossyText (f.content.take 8192)) else none

/-! ## The reader -/

/-- The most files that are read from the beginning. -/
def maxBackfillFiles : ℕ := 4

/-- The longest tail that is kept. -/
def maxPartialLineBytes : ℕ := 16 * 1024 * 1024

/-- How much is read at once. -/
def readChunkBytes : ℕ := 8 * 1024 * 1024

/-- How long a file may still grow after it was left, in milliseconds. -/
def rotationGraceMs : ℕ := 3000

/-- The reader.  `rotatedFrom` is the file that was left, how far it was read, and when
it was left. -/
structure FileReader where
  currentPath : Option StreamPath
  filePosition : ℕ
  partialLine : Bytes
  desynced : Bool
  rotatedFrom : Option (StreamPath × ℕ × ℕ)
  deriving DecidableEq

namespace FileReader

/-- A reader that follows no file. -/
def new : FileReader := ⟨none, 0, [], false, none⟩

/-- Whether data was given up since the last call. -/
def takeDesynced (r : FileReader) : FileReader × Bool := ({ r with desynced := false }, r.desynced)

/-! ### What is on disk -/

/-- The files to read, the newest first, and whether there are too many: a file that
begins above the floor is not the last. -/
def backfillFiles (minHeight : ℕ) : ℕ → List StreamFile → List StreamFile × Bool
  | _, [] => ([], false)
  | n, f :: fs =>
    if maxBackfillFiles ≤ n then ([], true)
    else match f.firstBlockNumber with
      | some h =>
        if minHeight < h then
          let (included, tooMany) := backfillFiles minHeight (n + 1) fs
          (f :: included, tooMany)
        else ([f], false)
      | none => ([f], false)

/-- Read the lines of one file, up to a cut.  The answer is where the reading stopped,
the lines sent, and whether all were taken.  An unfinished line ends the reading. -/
def backfillLines (minHeight : ℕ) (accepts : ℕ → Bool) (limit : Option ℕ) :
    List Bytes → ℕ → List String → ℕ × List String × Bool
  | [], pos, sent => (pos, sent, true)
  | line :: lines, pos, sent =>
    match fromUtf8 line with
    | none => (pos, sent, true)
    | some text =>
      let lineEnd := pos + line.length
      if limit.any (· < lineEnd) then (pos, sent, true)
      else
        let trimmed := trimEnd text.toList
        if isObject trimmed && isAboveFloor minHeight trimmed then
          if accepts sent.length then
            backfillLines minHeight accepts limit lines lineEnd (sent ++ [String.ofList trimmed])
          else (lineEnd, sent, false)
        else backfillLines minHeight accepts limit lines lineEnd sent

/-- Read the files before the newest. -/
def backfillOlder (minHeight : ℕ) (accepts : ℕ → Bool) :
    List StreamFile → List String → List String × Bool
  | [], sent => (sent, true)
  | f :: fs, sent =>
    if f.readable then
      match backfillLines minHeight accepts none (Lines.cut newline f.content).1 0 sent with
      | (_, sent, true) => backfillOlder minHeight accepts fs sent
      | (_, sent, false) => (sent, false)
    else backfillOlder minHeight accepts fs sent

/-- Send every line on disk above the floor, the oldest first, and follow the newest file
from there.  `late` is what the node appends to it once its length was noted, and
`accepts` whether the channel takes a line.  The answer is also whether it took all. -/
def backfillAndTrack (r : FileReader) (days : List DayDir) (minHeight : ℕ) (accepts : ℕ → Bool)
    (late : Bytes) : FileReader × List String × Bool :=
  match allFilesNewestFirst days with
  | [] => (r, [], true)
  | newest :: older =>
    let (included, tooMany) := backfillFiles minHeight 0 (newest :: older)
    let r := { r with desynced := r.desynced || tooMany }
    let recordedLen := newest.content.length
    match backfillOlder minHeight accepts included.tail.reverse [] with
    | (sent, false) => (r, sent, false)
    | (sent, true) =>
      let (cutPos, sent, ok) :=
        if newest.readable then
          backfillLines minHeight accepts (some recordedLen)
            (Lines.cut newline (newest.content ++ late)).1 0 sent
        else (recordedLen, sent, true)
      if ok then
        ({ r with currentPath := some newest.path, filePosition := cutPos, partialLine := [] },
          sent, true)
      else (r, sent, false)

/-! ### What comes -/

/-- What a terminated line gives: the line, and whether it is given up. -/
def readSegment (segment : Bytes) : Option String × Bool :=
  match fromUtf8 segment with
  | none => (none, true)
  | some text =>
    let line := trimEnd text.toList
    if line = [] then (none, false)
    else if isObject line then (some (String.ofList line), false)
    else (none, true)

/-- Read one chunk of what the tracked file has behind the position.  `files` are the
bytes of the files that can be opened. -/
def onModify (files : StreamPath → Option Bytes) (r : FileReader) : FileReader × List String :=
  match r.currentPath.bind files with
  | none => (r, [])
  | some content =>
    if content.length ≤ r.filePosition then (r, [])
    else
      let buf := (content.drop r.filePosition).take readChunkBytes
      let (segments, tail) := Lines.cut newline (r.partialLine ++ buf)
      let tooLong := decide (maxPartialLineBytes < tail.length)
      ({ r with
          filePosition := r.filePosition + buf.length
          partialLine := if tooLong then [] else tail
          desynced := r.desynced || segments.any (fun segment => (readSegment segment).2) || tooLong },
        segments.filterMap fun segment => (readSegment segment).1)

/-! ### Other files -/

/-- The file changed last among those of the latest day; of some changed at once, the
first that is listed. -/
def findLatestFile (days : List DayDir) : Option StreamFile :=
  let day := days.foldl
    (fun latest day => if latest.all (·.name < day.name) then some day else latest)
    (none : Option DayDir)
  day.bind fun day => day.files.foldl
    (fun latest f => if latest.all (·.mtime < f.mtime) then some f else latest) none

/-- Another file than the tracked one, if it was changed later.  `mtime` is when a file was
changed last. -/
def checkForNewerFile (days : List DayDir) (mtime : StreamPath → Option ℕ) (r : FileReader) :
    Option StreamPath :=
  (findLatestFile days).bind fun latest =>
    match r.currentPath with
    | none => some latest.path
    | some current =>
      if latest.path ≠ current ∧ (mtime current).any (· < latest.mtime) then some latest.path
      else none

/-- Begin with another file; the one that was tracked is to be looked at once more.  It was
read before until a call found no line. -/
def switchTo (now : ℕ) (path : StreamPath) (r : FileReader) : FileReader :=
  { r with
    rotatedFrom := match r.currentPath with
      | some old => if old ≠ path then some (old, r.filePosition, now) else r.rotatedFrom
      | none => r.rotatedFrom
    currentPath := some path
    filePosition := 0
    partialLine := [] }

/-- Some time after it was left, look whether a file has grown. -/
def checkRotation (now : ℕ) (length : StreamPath → Option ℕ) (r : FileReader) : FileReader :=
  match r.rotatedFrom with
  | some (path, readTo, since) =>
    if since + rotationGraceMs ≤ now then
      { r with
        rotatedFrom := none
        desynced := r.desynced || (length path).any (readTo < ·) }
    else r
  | none => r

/-- Begin with a file at its end. -/
def startTracking (length : StreamPath → Option ℕ) (path : StreamPath) (r : FileReader) :
    FileReader :=
  { r with filePosition := (length path).getD 0, currentPath := some path, partialLine := [] }

end FileReader

end HlOrderbook
