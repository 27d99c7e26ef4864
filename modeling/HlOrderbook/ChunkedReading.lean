import HlOrderbook.Backfill

/-!
# Reading in chunks

The node appends to the file as it likes, and each call reads at most one chunk.  However
the file is cut so, the lines are those of the file up to the position, the mark says
whether one of them was given up, and what is kept is the unfinished line.

## Main definitions

* `FileReader.deliverable`, `FileReader.isFaulty` — what is to become of a line.
* `FileReader.Follows` — how the reader stands to the file.
* `FileReader.readAll_eq` — reading does not depend on the chunks.
-/

set_option autoImplicit false
set_option linter.unusedSectionVars false

namespace HlOrderbook

namespace FileReader

/-! ## What is to become of a line -/

/-- Whether there is nothing but white space in a line. -/
def isBlankLine (line : Bytes) : Bool := trimEnd (lossyText line) = []

/-- The lines to deliver: text, not blank, and an object. -/
def deliverable (content : Bytes) : List String :=
  ((Lines.cut newline content).1.filter
    fun line => isText line && !isBlankLine line && isObjectLine line).map
      fun line => String.ofList (trimEnd (lossyText line))

/-- Whether a line is to be reported: it is no text, or neither blank nor an object. -/
def isFaulty (line : Bytes) : Bool := !isText line || !isBlankLine line && !isObjectLine line

/-- No line is longer than what the reader keeps, nor is what has no end yet. -/
structure Fits (content : Bytes) : Prop where
  lines : ∀ line ∈ (Lines.cut newline content).1, line.length ≤ maxPartialLineBytes + 1
  tail : (Lines.cut newline content).2.length ≤ maxPartialLineBytes

theorem readSegment_snd (line : Bytes) : (readSegment line).2 = isFaulty line := by
  rw [readSegment, isFaulty, isBlankLine, isObjectLine, isText]
  cases htext : fromUtf8 line with
  | none => rfl
  | some text =>
    rw [lossyText_of_isText htext]
    by_cases hblank : trimEnd text.toList = []
    · simp [hblank]
    · cases hobject : isObject (trimEnd text.toList) <;> simp [hblank, hobject]

theorem readSegment_fst (line : Bytes) : (readSegment line).1 =
    if isText line && !isBlankLine line && isObjectLine line then
      some (String.ofList (trimEnd (lossyText line)))
    else none := by
  rw [readSegment, isBlankLine, isObjectLine, isText]
  cases htext : fromUtf8 line with
  | none => rfl
  | some text =>
    rw [lossyText_of_isText htext]
    by_cases hblank : trimEnd text.toList = []
    · simp [hblank]
    · cases hobject : isObject (trimEnd text.toList) <;> simp [hblank, hobject]

theorem filterMap_readSegment (lines : List Bytes) :
    lines.filterMap (fun line => (readSegment line).1) =
      (lines.filter fun line => isText line && !isBlankLine line && isObjectLine line).map
        fun line => String.ofList (trimEnd (lossyText line)) := by
  rw [← List.filterMap_eq_map, List.filterMap_filter]
  exact congrArg (fun f => List.filterMap f lines) (funext readSegment_fst)

/-- What has no end yet, at any place in the file, can be kept. -/
theorem Fits.length_tail_take {content : Bytes} (h : Fits content) (position : ℕ) :
    (Lines.cut newline (content.take position)).2.length ≤ maxPartialLineBytes := by
  have hcut := Lines.cut_append newline (content.take position) (content.drop position)
  have hnone := Lines.sep_notMem_tail newline (content.take position)
  rw [List.take_append_drop] at hcut
  cases hlines : (Lines.cut newline
      ((Lines.cut newline (content.take position)).2 ++ content.drop position)).1 with
  | nil =>
    have hwhole := Lines.flatten_cut newline
      ((Lines.cut newline (content.take position)).2 ++ content.drop position)
    rw [hlines, List.flatten_nil, List.nil_append] at hwhole
    have htail := h.tail
    rw [hcut, hwhole, List.length_append] at htail
    omega
  | cons line lines =>
    have hhead : line ∈ (Lines.cut newline
        ((Lines.cut newline (content.take position)).2 ++ content.drop position)).1.head? := by
      rw [hlines]
      rfl
    have hlong := Lines.length_lt_of_head? hnone hhead
    have hline := h.lines line (by
      rw [hcut, hlines]
      exact List.mem_append_right _ List.mem_cons_self)
    omega

theorem take_add_chunk {seen : Bytes} {position : ℕ} (later : Bytes)
    (hposition : position ≤ seen.length) (n : ℕ) :
    (seen ++ later).take (position + ((seen.drop position).take n).length) =
      (seen ++ later).take position ++ (seen.drop position).take n := by
  rw [List.take_add, List.drop_append_of_le_length hposition]
  refine congrArg ((seen ++ later).take position ++ ·) ?_
  have hle : ((seen.drop position).take n).length ≤ (seen.drop position).length :=
    List.length_take_le' n _
  rw [List.take_append_of_le_length hle]
  exact (List.prefix_iff_eq_take.mp (List.take_prefix n _)).symm

theorem onModify_currentPath (files : StreamPath → Option Bytes) (r : FileReader) :
    (r.onModify files).1.currentPath = r.currentPath := by
  rw [onModify]
  split
  · rfl
  · split <;> rfl

/-! ## How the reader stands to the file -/

/-- What was sent is what the file has to deliver up to the position, what is kept is the
unfinished line there, and the mark tells of a faulty line. -/
structure Follows (content : Bytes) (r : FileReader) (sent : List String) : Prop where
  position : r.filePosition ≤ content.length
  kept : r.partialLine = (Lines.cut newline (content.take r.filePosition)).2
  sent : sent = deliverable (content.take r.filePosition)
  marked : r.desynced = true ↔
    ∃ line ∈ (Lines.cut newline (content.take r.filePosition)).1, isFaulty line = true

/-- **One call** keeps it, however much of the file it finds. -/
theorem Follows.onModify {content : Bytes} {r : FileReader} {sent : List String}
    {files : StreamPath → Option Bytes} (hfits : Fits content) (h : Follows content r sent)
    (hseen : ∀ path ∈ r.currentPath, ∀ seen ∈ files path, seen <+: content) :
    Follows content (r.onModify files).1 (sent ++ (r.onModify files).2) := by
  rw [FileReader.onModify]
  cases hfound : r.currentPath.bind files with
  | none => simpa using h
  | some seen =>
    obtain ⟨path, hpath, hfile⟩ := Option.bind_eq_some_iff.mp hfound
    obtain ⟨later, rfl⟩ := hseen path hpath seen hfile
    simp only
    split
    · simpa using h
    · next hmore =>
      have hgrown := take_add_chunk later (Nat.le_of_not_le hmore) readChunkBytes
      have hcut := Lines.cut_append newline ((seen ++ later).take r.filePosition)
        ((seen.drop r.filePosition).take readChunkBytes)
      have hshort := hfits.length_tail_take
        (r.filePosition + ((seen.drop r.filePosition).take readChunkBytes).length)
      rw [hgrown, hcut] at hshort
      simp only at hshort
      have htooLong : decide (maxPartialLineBytes < (Lines.cut newline
          (r.partialLine ++ (seen.drop r.filePosition).take readChunkBytes)).2.length) = false := by
        rw [h.kept, decide_eq_false_iff_not]
        omega
      simp only [htooLong, Bool.or_false, Bool.false_eq_true, if_false]
      constructor
      · simp only [List.length_take, List.length_drop, List.length_append]
        omega
      · simp only [hgrown, hcut, h.kept]
      · simp only [hgrown, deliverable, hcut]
        rw [h.sent, h.kept, filterMap_readSegment, List.filter_append, List.map_append]
        rfl
      · simp only [hgrown, hcut]
        rw [Bool.or_eq_true, h.marked, List.any_eq_true, h.kept]
        simp only [readSegment_snd, List.mem_append, or_and_right, exists_or]

/-- Several calls, each of which finds some bytes of the files. -/
def readAll : List (StreamPath → Option Bytes) → FileReader → FileReader × List String
  | [], r => (r, [])
  | files :: later, r =>
    let (r, lines) := r.onModify files
    let (r, lines') := readAll later r
    (r, lines ++ lines')

theorem Follows.readAll {content : Bytes} {path : StreamPath} (hfits : Fits content)
    {steps : List (StreamPath → Option Bytes)}
    (hseen : ∀ files ∈ steps, ∀ seen ∈ files path, seen <+: content)
    {r : FileReader} {sent : List String} (hpath : r.currentPath = some path)
    (h : Follows content r sent) :
    Follows content (r.readAll steps).1 (sent ++ (r.readAll steps).2) := by
  induction steps generalizing r sent with
  | nil => simpa [FileReader.readAll] using h
  | cons files later ih =>
    have hstep : Follows content (r.onModify files).1 (sent ++ (r.onModify files).2) :=
      h.onModify hfits fun p hp seen hfile => by
        rw [hpath, Option.mem_some_iff] at hp
        subst hp
        exact hseen files List.mem_cons_self seen hfile
    rw [FileReader.readAll, ← List.append_assoc]
    exact ih (fun files hfiles => hseen files (List.mem_cons_of_mem _ hfiles))
      ((onModify_currentPath files r).trans hpath) hstep

/-- The reader as it begins with a file. -/
def atStart (path : StreamPath) : FileReader := ⟨some path, 0, [], false, none⟩

theorem follows_atStart (content : Bytes) (path : StreamPath) :
    Follows content (atStart path) [] :=
  ⟨Nat.zero_le _, rfl, rfl, by simp [atStart]⟩

theorem le_onModify_position (files : StreamPath → Option Bytes) (r : FileReader) :
    r.filePosition ≤ (r.onModify files).1.filePosition := by
  rw [onModify]
  split
  · exact Nat.le_refl _
  · split
    · exact Nat.le_refl _
    · exact Nat.le_add_right _ _

/-- A call goes on by one chunk, or to the end of what it finds. -/
theorem onModify_position {files : StreamPath → Option Bytes} {r : FileReader} {path : StreamPath}
    {seen : Bytes} (hpath : r.currentPath = some path) (hfile : files path = some seen) :
    min seen.length (r.filePosition + readChunkBytes) ≤ (r.onModify files).1.filePosition := by
  rw [onModify, hpath, Option.bind_some, hfile]
  simp only
  split
  · show _ ≤ r.filePosition
    omega
  · simp only [List.length_take, List.length_drop]
    omega

/-- Calls that find the whole file come to its end. -/
theorem readAll_position {path : StreamPath} (content : Bytes)
    (steps : List (StreamPath → Option Bytes)) {r : FileReader} (hpath : r.currentPath = some path) :
    min content.length (r.filePosition +
        (steps.countP fun files => files path = some content) * readChunkBytes) ≤
      (r.readAll steps).1.filePosition := by
  induction steps generalizing r with
  | nil =>
    rw [List.countP_nil, Nat.zero_mul]
    exact Nat.min_le_right _ _
  | cons files later ih =>
    have hrest := ih ((onModify_currentPath files r).trans hpath)
    refine Nat.le_trans ?_ hrest
    by_cases hwhole : files path = some content
    · have hstep := onModify_position hpath hwhole
      rw [List.countP_cons_of_pos (by simpa using hwhole), Nat.add_mul, Nat.one_mul]
      omega
    · have hstep := le_onModify_position files r
      rw [List.countP_cons_of_neg (by simpa using hwhole)]
      omega

/-- **Reading does not depend on the chunks**: however much of the file each call finds,
the lines are those that the file up to the position has to deliver, the mark is set
exactly if one of its lines is faulty, and what is kept is its unfinished line.  With
enough calls that find all of it, this is the whole file. -/
theorem readAll_eq (content : Bytes) (path : StreamPath)
    (steps : List (StreamPath → Option Bytes)) (hfits : Fits content)
    (hseen : ∀ files ∈ steps, ∀ seen ∈ files path, seen <+: content) :
    let (r, sent) := (atStart path).readAll steps
    let read := content.take r.filePosition
    sent = deliverable read ∧
      (r.desynced = true ↔ ∃ line ∈ (Lines.cut newline read).1, isFaulty line = true) ∧
      r.partialLine = (Lines.cut newline read).2 ∧
      (content.length ≤ (steps.countP fun files => files path = some content) * readChunkBytes →
        read = content) := by
  have h := (follows_atStart content path).readAll hfits hseen rfl
  have hend := readAll_position content steps (r := atStart path) rfl
  refine ⟨h.sent, h.marked, h.kept, fun henough => List.take_of_length_le ?_⟩
  have hzero : (atStart path).filePosition = 0 := rfl
  rw [hzero, Nat.zero_add, Nat.min_eq_left henough] at hend
  exact hend

end FileReader

end HlOrderbook

namespace HlOrderbook

section Example

/-- A line, a blank one, a faulty one, and the beginning of one. -/
def someContent : Bytes := linesOf ["\x7b\"é\"\x7d", " ", "é"] ++ "\x7b\"".toUTF8.toList

/-- The file as each call finds it: cut in the middle of a character, then whole. -/
def someReads : List (StreamPath → Option Bytes) :=
  [fun _ => some (someContent.take 3), fun _ => none, fun _ => some someContent]

theorem readAll_someReads : ∃ r sent,
    (FileReader.atStart ⟨"20240101", "0"⟩).readAll someReads = (r, sent) ∧
      sent = FileReader.deliverable (someContent.take r.filePosition) ∧
      sent = ["\x7b\"é\"\x7d"] ∧ r.desynced = true ∧ r.filePosition = someContent.length := by
  have hrun : ((FileReader.atStart ⟨"20240101", "0"⟩).readAll someReads).2 = ["\x7b\"é\"\x7d"] ∧
      ((FileReader.atStart ⟨"20240101", "0"⟩).readAll someReads).1.desynced = true ∧
      ((FileReader.atStart ⟨"20240101", "0"⟩).readAll someReads).1.filePosition =
        someContent.length := by decide +kernel
  have hfits : FileReader.Fits someContent := ⟨by decide +kernel, by decide +kernel⟩
  have hseen : ∀ files ∈ someReads, ∀ seen ∈ files ⟨"20240101", "0"⟩, seen <+: someContent := by
    intro files hfiles seen hseen
    simp only [someReads, List.mem_cons, List.not_mem_nil, or_false] at hfiles
    rcases hfiles with rfl | rfl | rfl
    · rw [← Option.mem_some_iff.mp hseen]
      exact List.take_prefix 3 _
    · cases hseen
    · exact Option.mem_some_iff.mp hseen ▸ List.prefix_refl someContent
  exact ⟨_, _, rfl, (FileReader.readAll_eq someContent ⟨"20240101", "0"⟩ someReads hfits hseen).1,
    hrun⟩

end Example

end HlOrderbook
