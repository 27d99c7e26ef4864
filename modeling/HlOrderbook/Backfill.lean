import HlOrderbook.FileReader
import Mathlib.Data.List.TakeWhile

/-!
# The lines on disk

The backfill is to send every complete line on disk above the floor, up to the place
where the reader follows the newest file from there, and each once.  It sends no other
line and none twice, but it drops some without a mark: the walk to the older files ends
at the first file with no height in its head, and a file that cannot be opened, the rest
of an older file behind a line that is no text, and a line that is no object are passed
over.  Exactly where nothing above the floor is dropped so, the lines sent are all.

## Main definitions

* `FileReader.linesOnDisk` — the lines to send.
* `FileReader.Backfills` — no line above the floor is passed over.
* `FileReader.backfill_complete_iff` — when all lines are sent.
-/

set_option autoImplicit false
set_option linter.unusedSectionVars false

namespace HlOrderbook

/-! ## Parts of lists -/

section Parts

variable {A B : Type} {l : List A} {f g : A → List B}

theorem flatMap_sublist_flatMap (h : ∀ x ∈ l, (f x).Sublist (g x)) :
    (l.flatMap f).Sublist (l.flatMap g) := by
  induction l with
  | nil => exact List.Sublist.refl _
  | cons x l ih =>
    rw [List.flatMap_cons, List.flatMap_cons]
    exact (h x List.mem_cons_self).append (ih fun y hy => h y (List.mem_cons_of_mem x hy))

/-- Parts that make the whole are whole. -/
theorem append_eq_append_iff_of_sublist {a a' b b' : List B} (ha : a.Sublist a')
    (hb : b.Sublist b') : a ++ b = a' ++ b' ↔ a = a' ∧ b = b' := by
  refine ⟨fun h => ?_, fun h => by rw [h.1, h.2]⟩
  have hlen := congrArg List.length h
  rw [List.length_append, List.length_append] at hlen
  have hla := ha.length_le
  have hlb := hb.length_le
  exact ⟨ha.eq_of_length (by omega), hb.eq_of_length (by omega)⟩

theorem flatMap_eq_flatMap_iff (h : ∀ x ∈ l, (f x).Sublist (g x)) :
    l.flatMap f = l.flatMap g ↔ ∀ x ∈ l, f x = g x := by
  induction l with
  | nil => simp
  | cons x l ih =>
    have htail : ∀ y ∈ l, (f y).Sublist (g y) := fun y hy => h y (List.mem_cons_of_mem x hy)
    rw [List.flatMap_cons, List.flatMap_cons,
      append_eq_append_iff_of_sublist (h x List.mem_cons_self) (flatMap_sublist_flatMap htail),
      ih htail, List.forall_mem_cons]

end Parts

/-! ## One line -/

section Line

variable {minHeight : ℕ} {line : Bytes}

/-- Whether a line is text. -/
def isText (line : Bytes) : Bool := (fromUtf8 line).isSome

/-- Whether a line is an object, but for white space behind it. -/
def isObjectLine (line : Bytes) : Bool := isObject (trimEnd (lossyText line))

/-- What is to be sent of a line: all of it, if its height is above the floor.  An object
with no height is kept. -/
def wantedLine (minHeight : ℕ) (line : Bytes) : Option String :=
  let trimmed := trimEnd (lossyText line)
  match extractBlockNumber trimmed with
  | some h => if minHeight < h then some (String.ofList trimmed) else none
  | none => if isText line && isObject trimmed then some (String.ofList trimmed) else none

/-- What is sent of a line that is read. -/
def emittedLine (minHeight : ℕ) (line : Bytes) : Option String :=
  let trimmed := trimEnd (lossyText line)
  if isObject trimmed && isAboveFloor minHeight trimmed then some (String.ofList trimmed)
  else none

theorem lossyText_of_isText {text : String} (h : fromUtf8 line = some text) :
    lossyText line = text.toList := by
  rw [lossyText, h]

/-- What is sent of a text is wanted. -/
theorem wantedLine_of_emittedLine {s : String} (htext : isText line = true)
    (h : emittedLine minHeight line = some s) : wantedLine minHeight line = some s := by
  rw [emittedLine] at h
  split at h
  · next hcond =>
    rw [Bool.and_eq_true, isAboveFloor] at hcond
    rw [wantedLine]
    cases hn : extractBlockNumber (trimEnd (lossyText line)) with
    | none => simpa only [htext, hcond.1, Bool.and_self, if_true] using h
    | some n =>
      rw [hn, Option.all_some, decide_eq_true_eq] at hcond
      simpa only [hcond.2, if_true] using h
  · cases h

/-- A wanted object is sent. -/
theorem emittedLine_of_wantedLine {s : String} (hobject : isObjectLine line = true)
    (h : wantedLine minHeight line = some s) : emittedLine minHeight line = some s := by
  rw [wantedLine] at h
  rw [isObjectLine] at hobject
  rw [emittedLine, isAboveFloor, hobject, Bool.true_and]
  cases hn : extractBlockNumber (trimEnd (lossyText line)) with
  | none =>
    simp only [hn, hobject, Bool.and_true] at h
    split at h
    · exact h
    · cases h
  | some n =>
    simp only [hn] at h
    split at h
    · next hlt =>
      rw [Option.all_some, decide_eq_true hlt]
      exact h
    · cases h

/-- Of a text, what is wanted is sent exactly if it is an object. -/
theorem emittedLine_eq_wantedLine_iff (htext : isText line = true) :
    (emittedLine minHeight line).toList = (wantedLine minHeight line).toList ↔
      (wantedLine minHeight line ≠ none → isObjectLine line = true) := by
  cases hw : wantedLine minHeight line with
  | none =>
    have he : emittedLine minHeight line = none := by
      cases he : emittedLine minHeight line with
      | none => rfl
      | some s => rw [wantedLine_of_emittedLine htext he] at hw; cases hw
    simp [he]
  | some s =>
    cases hobject : isObjectLine line with
    | true => simp [emittedLine_of_wantedLine hobject hw]
    | false =>
      have he : emittedLine minHeight line = none := by
        rw [isObjectLine] at hobject
        rw [emittedLine, hobject]
        rfl
      simp [he]

theorem emittedLine_sublist (htext : isText line = true) :
    (emittedLine minHeight line).toList.Sublist (wantedLine minHeight line).toList := by
  cases he : emittedLine minHeight line with
  | none => exact List.nil_sublist _
  | some s => rw [wantedLine_of_emittedLine htext he]

end Line

/-! ## One file -/

namespace StreamFile

variable {minHeight : ℕ} {f : StreamFile}

/-- The complete lines. -/
def lines (f : StreamFile) : List Bytes := (Lines.cut newline f.content).1

/-- The lines that are read: those before the first that is no text. -/
def linesRead (f : StreamFile) : List Bytes :=
  if f.readable then f.lines.takeWhile isText else []

/-- The lines that are passed over. -/
def linesPassed (f : StreamFile) : List Bytes :=
  if f.readable then f.lines.dropWhile isText else f.lines

/-- Whether the height in the head is above the floor. -/
def beginsAbove (minHeight : ℕ) (f : StreamFile) : Bool :=
  f.firstBlockNumber.any fun h => minHeight < h

theorem linesRead_append_linesPassed (f : StreamFile) : f.linesRead ++ f.linesPassed = f.lines := by
  rw [linesRead, linesPassed]
  cases f.readable with
  | true => exact List.takeWhile_append_dropWhile
  | false => exact List.nil_append _

theorem isText_of_mem_linesRead {line : Bytes} (h : line ∈ f.linesRead) : isText line = true := by
  rw [linesRead] at h
  split at h
  · exact List.mem_takeWhile_imp h
  · cases h

theorem mem_lines_of_mem_read {line : Bytes} (h : line ∈ f.linesRead) : line ∈ f.lines := by
  rw [← linesRead_append_linesPassed]
  exact List.mem_append_left _ h

theorem mem_lines_of_mem_passed {line : Bytes} (h : line ∈ f.linesPassed) : line ∈ f.lines := by
  rw [← linesRead_append_linesPassed]
  exact List.mem_append_right _ h

theorem emitted_sublist_wanted {read : List Bytes} (hread : ∀ line ∈ read, isText line = true) :
    (read.filterMap (emittedLine minHeight)).Sublist (read.filterMap (wantedLine minHeight)) := by
  rw [List.filterMap_eq_flatMap_toList, List.filterMap_eq_flatMap_toList]
  exact flatMap_sublist_flatMap fun line hline => emittedLine_sublist (hread line hline)

/-- Of the lines read, all that is wanted is sent exactly if it is objects. -/
theorem emitted_eq_wanted_iff {read : List Bytes} (hread : ∀ line ∈ read, isText line = true) :
    read.filterMap (emittedLine minHeight) = read.filterMap (wantedLine minHeight) ↔
      ∀ line ∈ read, wantedLine minHeight line ≠ none → isObjectLine line = true := by
  rw [List.filterMap_eq_flatMap_toList, List.filterMap_eq_flatMap_toList,
    flatMap_eq_flatMap_iff fun line hline => emittedLine_sublist (hread line hline)]
  exact forall₂_congr fun line hline => emittedLine_eq_wantedLine_iff (hread line hline)

theorem linesRead_sublist_lines (minHeight : ℕ) (f : StreamFile) :
    (f.linesRead.filterMap (emittedLine minHeight)).Sublist
      (f.lines.filterMap (wantedLine minHeight)) := by
  rw [← linesRead_append_linesPassed, List.filterMap_append]
  exact (emitted_sublist_wanted fun _ => isText_of_mem_linesRead).trans
    (List.sublist_append_left _ _)

/-- Of a whole file, all that is wanted is sent exactly if none of it is passed over, and
what is read of it is objects. -/
theorem linesRead_eq_lines_iff (minHeight : ℕ) (f : StreamFile) :
    f.linesRead.filterMap (emittedLine minHeight) = f.lines.filterMap (wantedLine minHeight) ↔
      (∀ line ∈ f.linesRead, wantedLine minHeight line ≠ none → isObjectLine line = true) ∧
        ∀ line ∈ f.linesPassed, wantedLine minHeight line = none := by
  have htext : ∀ line ∈ f.linesRead, isText line = true := fun _ => isText_of_mem_linesRead
  rw [← linesRead_append_linesPassed, List.filterMap_append,
    ← List.append_nil (f.linesRead.filterMap (emittedLine minHeight)),
    append_eq_append_iff_of_sublist (emitted_sublist_wanted htext) (List.nil_sublist _),
    emitted_eq_wanted_iff htext, eq_comm (a := []), List.filterMap_eq_nil_iff]

end StreamFile

/-! ## All files -/

namespace FileReader

variable {minHeight : ℕ} {accepts : ℕ → Bool}

/-- The lines of some bytes that are to be sent. -/
def wantedIn (minHeight : ℕ) (bytes : Bytes) : List String :=
  (Lines.cut newline bytes).1.filterMap (wantedLine minHeight)

/-- The lines to send, the oldest first: of the newest file, up to the position. -/
def linesOnDisk (minHeight : ℕ) (days : List DayDir) (position : ℕ) : List String :=
  match allFilesNewestFirst days with
  | [] => []
  | newest :: older =>
    older.reverse.flatMap (fun f => wantedIn minHeight f.content) ++
      wantedIn minHeight (newest.content.take position)

/-- No line above the floor is passed over. -/
structure Backfills (minHeight : ℕ) (days : List DayDir) : Prop where
  /-- None stands in a file older than one with no height above the floor in its head. -/
  reached : ∀ f ∈ ((allFilesNewestFirst days).dropWhile (·.beginsAbove minHeight)).tail,
    ∀ line ∈ f.lines, wantedLine minHeight line = none
  /-- In an older file, none stands behind a line that is no text, nor at all if the file
  cannot be opened. -/
  passed : ∀ f ∈ (allFilesNewestFirst days).tail,
    ∀ line ∈ f.linesPassed, wantedLine minHeight line = none
  /-- If the newest file cannot be opened, there is none in it. -/
  opened : ∀ f ∈ (allFilesNewestFirst days).head?, f.readable = false →
    ∀ line ∈ f.lines, wantedLine minHeight line = none
  /-- Those that are read are objects. -/
  objects : ∀ f ∈ allFilesNewestFirst days, ∀ line ∈ f.linesRead,
    wantedLine minHeight line ≠ none → isObjectLine line = true

/-! ### The walk -/

/-- Unless there are too many, the files read are those down to the first that does not
begin above the floor. -/
theorem backfillFiles_eq {n : ℕ} {files included : List StreamFile}
    (h : backfillFiles minHeight n files = (included, false)) :
    files = included ++ (files.dropWhile (·.beginsAbove minHeight)).tail := by
  induction files generalizing n included with
  | nil =>
    rw [backfillFiles, Prod.mk.injEq] at h
    rw [← h.1]
    rfl
  | cons f fs ih =>
    rw [backfillFiles] at h
    split at h
    · cases h
    · cases hhead : f.firstBlockNumber with
      | none =>
        have hbegins : f.beginsAbove minHeight = false := by
          rw [StreamFile.beginsAbove, hhead]
          rfl
        simp only [hhead, Prod.mk.injEq] at h
        rw [List.dropWhile_cons_of_neg (by simp [hbegins]), List.tail_cons, ← h.1]
        rfl
      | some height =>
        have hbegins : f.beginsAbove minHeight = decide (minHeight < height) := by
          rw [StreamFile.beginsAbove, hhead]
          rfl
        simp only [hhead] at h
        split at h
        · next hlt =>
          rw [Prod.mk.injEq] at h
          rw [List.dropWhile_cons_of_pos (by simp [hbegins, hlt]), ← h.1, List.cons_append,
            ← ih (Prod.ext rfl h.2)]
        · next hlt =>
          rw [Prod.mk.injEq] at h
          rw [List.dropWhile_cons_of_neg (by simp [hbegins, hlt]), List.tail_cons, ← h.1]
          rfl

/-- The newest file is always read. -/
theorem backfillFiles_cons {newest : StreamFile} {older included : List StreamFile} {tooMany : Bool}
    (h : backfillFiles minHeight 0 (newest :: older) = (included, tooMany)) :
    ∃ rest, included = newest :: rest := by
  rw [backfillFiles, if_neg (by decide)] at h
  split at h
  · split at h
    · exact ⟨_, (congrArg Prod.fst h).symm⟩
    · exact ⟨_, (congrArg Prod.fst h).symm⟩
  · exact ⟨_, (congrArg Prod.fst h).symm⟩

/-! ### Reading -/

/-- With no cut, the lines before the first that is no text are read. -/
theorem backfillLines_eq {lines : List Bytes} {pos pos' : ℕ} {sent sent' : List String}
    (h : backfillLines minHeight accepts none lines pos sent = (pos', sent', true)) :
    pos' = pos + ((lines.takeWhile isText).map List.length).sum ∧
      sent' = sent ++ (lines.takeWhile isText).filterMap (emittedLine minHeight) := by
  induction lines generalizing pos sent with
  | nil =>
    rw [backfillLines, Prod.mk.injEq, Prod.mk.injEq] at h
    exact ⟨h.1.symm, by simpa using h.2.1.symm⟩
  | cons line lines ih =>
    rw [backfillLines] at h
    cases htext : fromUtf8 line with
    | none =>
      have hno : isText line = false := by rw [isText, htext]; rfl
      simp only [htext, Prod.mk.injEq] at h
      rw [List.takeWhile_cons_of_neg (by simp [hno])]
      exact ⟨h.1.symm, by simpa using h.2.1.symm⟩
    | some text =>
      have hyes : isText line = true := by rw [isText, htext]; rfl
      have hlossy : lossyText line = text.toList := lossyText_of_isText htext
      simp only [htext, Option.any_none, Bool.false_eq_true, if_false] at h
      rw [List.takeWhile_cons_of_pos hyes, List.map_cons, List.sum_cons, ← Nat.add_assoc]
      split at h
      · next hcond =>
        have hemit : emittedLine minHeight line = some (String.ofList (trimEnd text.toList)) := by
          rw [emittedLine, hlossy]
          exact if_pos hcond
        rw [List.filterMap_cons_some hemit]
        split at h
        · rw [← List.singleton_append, ← List.append_assoc]
          exact ih h
        · cases h
      · next hcond =>
        have hemit : emittedLine minHeight line = none := by
          rw [emittedLine, hlossy]
          exact if_neg hcond
        rw [List.filterMap_cons_none hemit]
        exact ih h

/-- A cut that no line crosses but the first behind is the end of the lines before it. -/
theorem backfillLines_cut {lines behind : List Bytes} {pos limit : ℕ} {sent : List String}
    (hwithin : pos + (lines.map List.length).sum ≤ limit)
    (hbehind : ∀ line ∈ behind.head?, limit < pos + (lines.map List.length).sum + line.length) :
    backfillLines minHeight accepts (some limit) (lines ++ behind) pos sent =
      backfillLines minHeight accepts none lines pos sent := by
  induction lines generalizing pos sent with
  | nil =>
    cases behind with
    | nil => rfl
    | cons line behind =>
      rw [List.nil_append, backfillLines, backfillLines]
      cases fromUtf8 line with
      | none => rfl
      | some text =>
        have hcross : limit < pos + line.length := hbehind line rfl
        have hany : (some limit).any (· < pos + line.length) = true := by simpa using hcross
        exact if_pos hany
  | cons line lines ih =>
    rw [List.map_cons, List.sum_cons, ← Nat.add_assoc] at hwithin
    simp only [List.map_cons, List.sum_cons, ← Nat.add_assoc] at hbehind
    rw [List.cons_append, backfillLines, backfillLines]
    cases fromUtf8 line with
    | none => rfl
    | some text =>
      have hany : (some limit).any (· < pos + line.length) = false := by
        rw [Option.any_some, decide_eq_false_iff_not]
        omega
      simp only [hany, Option.any_none, Bool.false_eq_true, if_false]
      rw [ih hwithin hbehind, ih hwithin hbehind]

theorem backfillOlder_eq {files : List StreamFile} {sent sent' : List String}
    (h : backfillOlder minHeight accepts files sent = (sent', true)) :
    sent' = sent ++ files.flatMap fun f => f.linesRead.filterMap (emittedLine minHeight) := by
  induction files generalizing sent with
  | nil =>
    rw [backfillOlder, Prod.mk.injEq] at h
    simpa using h.1.symm
  | cons f files ih =>
    rw [backfillOlder] at h
    rw [List.flatMap_cons, ← List.append_assoc]
    split at h
    · next hreadable =>
      have hread : f.linesRead = (Lines.cut newline f.content).1.takeWhile isText := if_pos hreadable
      split at h
      · next pos sent₁ hlines =>
        rw [hread, ← (backfillLines_eq hlines).2]
        exact ih h
      · cases h
    · next hreadable =>
      have hread : f.linesRead = [] := if_neg hreadable
      rw [hread, List.filterMap_nil, List.append_nil]
      exact ih h

/-- What is wanted of the newest file, up to the position. -/
theorem wantedIn_take_linesRead {f : StreamFile} (hreadable : f.readable = true) :
    wantedIn minHeight (f.content.take (f.linesRead.map List.length).sum) =
      f.linesRead.filterMap (wantedLine minHeight) := by
  have hread : f.linesRead = f.lines.take f.linesRead.length := by
    rw [StreamFile.linesRead, if_pos hreadable]
    exact List.prefix_iff_eq_take.mp (List.takeWhile_prefix _)
  rw [wantedIn, hread, StreamFile.lines, Lines.cut_take]

/-- The newest file is read as if nothing were appended meanwhile. -/
theorem backfillLines_late {f : StreamFile} {late : Bytes} {sent : List String} :
    backfillLines minHeight accepts (some f.content.length)
        (Lines.cut newline (f.content ++ late)).1 0 sent =
      backfillLines minHeight accepts none f.lines 0 sent := by
  have hlen : (f.lines.map List.length).sum + (Lines.cut newline f.content).2.length =
      f.content.length := Lines.length_cut newline f.content
  have hcut : (Lines.cut newline (f.content ++ late)).1 =
      f.lines ++ (Lines.cut newline ((Lines.cut newline f.content).2 ++ late)).1 := by
    rw [Lines.cut_append]
    rfl
  rw [hcut]
  refine backfillLines_cut (by omega) fun line hline => ?_
  have hlong := Lines.length_lt_of_head? (Lines.sep_notMem_tail newline f.content) hline
  omega

/-- What the newest file shows up to a position: the lines read, if it can be opened. -/
def newestLines (f : StreamFile) : List Bytes := if f.readable then f.linesRead else f.lines

theorem newestLines_sublist (f : StreamFile) :
    (f.linesRead.filterMap (emittedLine minHeight)).Sublist
      ((newestLines f).filterMap (wantedLine minHeight)) := by
  rw [newestLines]
  split
  · exact StreamFile.emitted_sublist_wanted fun _ => StreamFile.isText_of_mem_linesRead
  · exact f.linesRead_sublist_lines minHeight

/-- Of the newest file, all that is wanted is sent exactly if what is read of it is
objects, and there is none if it cannot be opened. -/
theorem newestLines_eq_iff (f : StreamFile) :
    f.linesRead.filterMap (emittedLine minHeight) =
        (newestLines f).filterMap (wantedLine minHeight) ↔
      (∀ line ∈ f.linesRead, wantedLine minHeight line ≠ none → isObjectLine line = true) ∧
        (f.readable = false → ∀ line ∈ f.lines, wantedLine minHeight line = none) := by
  cases hreadable : f.readable with
  | true =>
    rw [newestLines, if_pos hreadable,
      StreamFile.emitted_eq_wanted_iff fun _ => StreamFile.isText_of_mem_linesRead]
    simp
  | false =>
    have hpassed : f.linesPassed = f.lines := by rw [StreamFile.linesPassed, hreadable]; rfl
    rw [newestLines, hreadable]
    simp only [Bool.false_eq_true, if_false, StreamFile.linesRead_eq_lines_iff, hpassed,
      forall_const]

/-- What a backfill does that took all and set no mark. -/
theorem backfillAndTrack_eq {r r' : FileReader} {days : List DayDir} {late : Bytes}
    {sent : List String} {newest : StreamFile} {older : List StreamFile}
    (hfiles : allFilesNewestFirst days = newest :: older)
    (h : r.backfillAndTrack days minHeight accepts late = (r', sent, true))
    (hflag : r'.desynced = false) :
    ∃ included, newest :: older =
        newest :: included ++ ((newest :: older).dropWhile (·.beginsAbove minHeight)).tail ∧
      sent = (included.reverse.flatMap fun f => f.linesRead.filterMap (emittedLine minHeight)) ++
        newest.linesRead.filterMap (emittedLine minHeight) ∧
      wantedIn minHeight (newest.content.take r'.filePosition) =
        (newestLines newest).filterMap (wantedLine minHeight) := by
  cases hwalk : backfillFiles minHeight 0 (newest :: older) with
  | mk included tooMany =>
    rw [backfillAndTrack, hfiles] at h
    simp only [hwalk] at h
    split at h
    · simp at h
    · next sent₁ holder =>
      have hold := backfillOlder_eq holder
      rw [List.nil_append] at hold
      have hwhole : ∀ r'' : FileReader, r''.desynced = (r.desynced || tooMany) → r'' = r' →
          newest :: older = included ++
            ((newest :: older).dropWhile (·.beginsAbove minHeight)).tail := by
        intro r'' hdesynced hr
        rw [hr, hflag] at hdesynced
        have hfew : tooMany = false := (Bool.or_eq_false_iff.mp hdesynced.symm).2
        rw [hfew] at hwalk
        exact backfillFiles_eq hwalk
      cases hreadable : newest.readable with
      | false =>
        simp only [hreadable, Bool.false_eq_true, if_false, if_true, Prod.mk.injEq] at h
        obtain ⟨hr, hs, -⟩ := h
        have hread : newest.linesRead = [] := by rw [StreamFile.linesRead, hreadable]; rfl
        have hpos : r'.filePosition = newest.content.length := by rw [← hr]
        obtain ⟨rest, rfl⟩ := backfillFiles_cons hwalk
        refine ⟨rest, hwhole _ rfl hr, ?_, ?_⟩
        · rw [hread, List.filterMap_nil, List.append_nil, ← hs]
          exact hold
        · rw [hpos, List.take_length, newestLines, hreadable]
          rfl
      | true =>
        simp only [hreadable, if_true, backfillLines_late] at h
        split at h
        · next hok =>
          obtain ⟨hpos, hs⟩ := backfillLines_eq (Prod.ext rfl (Prod.ext rfl hok))
          simp only [Prod.mk.injEq] at h
          obtain ⟨hr, hsent, -⟩ := h
          have hread : newest.lines.takeWhile isText = newest.linesRead := (if_pos hreadable).symm
          rw [hread] at hpos hs
          rw [Nat.zero_add] at hpos
          obtain ⟨rest, rfl⟩ := backfillFiles_cons hwalk
          refine ⟨rest, hwhole _ rfl hr, ?_, ?_⟩
          · rw [List.tail_cons] at hold
            rw [← hold]
            exact hsent.symm.trans hs
          · have hposition : r'.filePosition = (newest.linesRead.map List.length).sum := by
              rw [← hr, ← hpos]
            rw [hposition, wantedIn_take_linesRead hreadable, newestLines, if_pos hreadable]
        · simp at h

/-- **Exactly where no line above the floor is passed over**, the lines sent are all that
are on disk up to the position where the reader goes on. -/
theorem backfill_complete_iff {r r' : FileReader} {days : List DayDir} {late : Bytes}
    {sent : List String}
    (h : r.backfillAndTrack days minHeight accepts late = (r', sent, true))
    (hflag : r'.desynced = false) :
    sent = linesOnDisk minHeight days r'.filePosition ↔ Backfills minHeight days := by
  cases hfiles : allFilesNewestFirst days with
  | nil =>
    rw [backfillAndTrack, hfiles, Prod.mk.injEq, Prod.mk.injEq] at h
    have hsent : sent = linesOnDisk minHeight days r'.filePosition := by
      rw [linesOnDisk, hfiles]
      exact h.2.1.symm
    refine iff_of_true hsent ⟨?_, ?_, ?_, ?_⟩ <;> simp [hfiles]
  | cons newest older =>
    obtain ⟨included, hwalk, hsent, hnewest⟩ := backfillAndTrack_eq hfiles h hflag
    have hfew : older = included ++
        ((newest :: older).dropWhile (·.beginsAbove minHeight)).tail := List.cons.inj hwalk |>.2
    generalize hrest : ((newest :: older).dropWhile (·.beginsAbove minHeight)).tail = unreached at hfew
    have hall : linesOnDisk minHeight days r'.filePosition =
        unreached.reverse.flatMap (fun f => wantedIn minHeight f.content) ++
          (included.reverse.flatMap (fun f => wantedIn minHeight f.content) ++
            (newestLines newest).filterMap (wantedLine minHeight)) := by
      simp only [linesOnDisk, hfiles]
      rw [hnewest, hfew, List.reverse_append, List.flatMap_append, List.append_assoc]
    have hpart : ∀ f ∈ included.reverse, (f.linesRead.filterMap (emittedLine minHeight)).Sublist
        (wantedIn minHeight f.content) := fun f _ => f.linesRead_sublist_lines minHeight
    rw [hall, hsent, ← List.nil_append (_ ++ _),
      append_eq_append_iff_of_sublist (List.nil_sublist _)
        ((flatMap_sublist_flatMap hpart).append (newestLines_sublist newest)),
      append_eq_append_iff_of_sublist (flatMap_sublist_flatMap hpart) (newestLines_sublist newest),
      flatMap_eq_flatMap_iff hpart, newestLines_eq_iff, eq_comm, List.flatMap_eq_nil_iff]
    have hnone : ∀ f : StreamFile, wantedIn minHeight f.content = [] ↔
        ∀ line ∈ f.lines, wantedLine minHeight line = none := fun f => List.filterMap_eq_nil_iff
    have hwhole : ∀ f : StreamFile,
        f.linesRead.filterMap (emittedLine minHeight) = wantedIn minHeight f.content ↔
          (∀ line ∈ f.linesRead, wantedLine minHeight line ≠ none → isObjectLine line = true) ∧
            ∀ line ∈ f.linesPassed, wantedLine minHeight line = none :=
      StreamFile.linesRead_eq_lines_iff minHeight
    simp only [List.mem_reverse, hnone, hwhole]
    constructor
    · rintro ⟨hunreached, hincluded, hobjects, hopened⟩
      refine ⟨?_, ?_, ?_, ?_⟩
      · rw [hfiles, hrest]
        exact hunreached
      · rw [hfiles, List.tail_cons, hfew]
        intro f hf
        rcases List.mem_append.mp hf with hin | hout
        · exact (hincluded f hin).2
        · exact fun line hline => hunreached f hout line (StreamFile.mem_lines_of_mem_passed hline)
      · rw [hfiles]
        rintro f ⟨⟩
        exact hopened
      · rw [hfiles]
        intro f hf
        rcases List.mem_cons.mp hf with rfl | hold
        · exact hobjects
        · rw [hfew] at hold
          rcases List.mem_append.mp hold with hin | hout
          · exact (hincluded f hin).1
          · exact fun line hline hw =>
              absurd (hunreached f hout line (StreamFile.mem_lines_of_mem_read hline)) hw
    · rintro ⟨hreached, hpassed, hopened, hobjects⟩
      rw [hfiles] at hreached hpassed hopened hobjects
      rw [hrest] at hreached
      rw [List.tail_cons] at hpassed
      have hmem : ∀ f ∈ included, f ∈ older := fun f hf => by
        rw [hfew]
        exact List.mem_append_left _ hf
      exact ⟨hreached,
        fun f hf => ⟨hobjects f (List.mem_cons_of_mem _ (hmem f hf)), hpassed f (hmem f hf)⟩,
        hobjects newest List.mem_cons_self, hopened newest rfl⟩

/-- Where heights never decrease from file to file, and every head has one, the walk stops
too early at no file: what it does not reach is at the floor or below. -/
theorem le_floor_of_sorted {days : List DayDir}
    (hsorted : (allFilesNewestFirst days).Pairwise fun newer older =>
      ∀ h ∈ newer.firstBlockNumber, ∀ line ∈ older.lines,
        ∀ k ∈ extractBlockNumber (trimEnd (lossyText line)), k ≤ h)
    (hheads : ∀ f ∈ allFilesNewestFirst days, f.firstBlockNumber ≠ none) :
    ∀ f ∈ ((allFilesNewestFirst days).dropWhile (·.beginsAbove minHeight)).tail,
      ∀ line ∈ f.lines, ∀ k ∈ extractBlockNumber (trimEnd (lossyText line)), k ≤ minHeight := by
  intro f hf line hline k hk
  have hsuffix := List.dropWhile_suffix (l := allFilesNewestFirst days)
    (StreamFile.beginsAbove minHeight)
  cases hdrop : (allFilesNewestFirst days).dropWhile (·.beginsAbove minHeight) with
  | nil =>
    rw [hdrop] at hf
    cases hf
  | cons stop rest =>
    rw [hdrop] at hf hsuffix
    have hpair := (List.pairwise_cons.mp (hsorted.sublist hsuffix.sublist)).1 f hf
    have hstop : stop.beginsAbove minHeight = false := by
      have hne : (allFilesNewestFirst days).dropWhile (·.beginsAbove minHeight) ≠ [] := by
        rw [hdrop]
        exact List.cons_ne_nil _ _
      have hhead := List.head_dropWhile_not (StreamFile.beginsAbove minHeight) hne
      simp only [hdrop, List.head_cons] at hhead
      exact hhead
    cases hnumber : stop.firstBlockNumber with
    | none => exact absurd hnumber (hheads stop (hsuffix.subset List.mem_cons_self))
    | some h =>
      rw [StreamFile.beginsAbove, hnumber, Option.any_some, decide_eq_false_iff_not,
        Nat.not_lt] at hstop
      exact (hpair h hnumber line hline k hk).trans hstop

end FileReader

end HlOrderbook

namespace HlOrderbook

section Example

/-- The bytes of some lines. -/
def linesOf (lines : List String) : Bytes := lines.flatMap fun line => line.toUTF8.toList ++ [newline]

/-- The files of two hours, the later one changed last. -/
def twoHours (earlier later : List String) : List DayDir :=
  [⟨"20240101", [⟨⟨"20240101", "0"⟩, 1, true, linesOf earlier⟩,
    ⟨⟨"20240101", "1"⟩, 2, true, linesOf later⟩]⟩]

/-- A line of a block. -/
def blockLine (height : String) : String := "\x7b\"block_number\":" ++ height ++ "\x7d"

theorem backfill_complete_twoHours : ∃ r sent,
    FileReader.new.backfillAndTrack (twoHours [blockLine "9", blockLine "20"] [blockLine "21"]) 10
      (fun _ => true) (linesOf [blockLine "22"]) = (r, sent, true) ∧
    sent = [blockLine "20", blockLine "21"] ∧
    FileReader.Backfills 10 (twoHours [blockLine "9", blockLine "20"] [blockLine "21"]) := by
  have hrun : ∃ x, FileReader.new.backfillAndTrack
      (twoHours [blockLine "9", blockLine "20"] [blockLine "21"]) 10 (fun _ => true)
      (linesOf [blockLine "22"]) = x ∧ x.2.2 = true ∧ x.1.desynced = false ∧
        x.2.1 = [blockLine "20", blockLine "21"] ∧ x.2.1 = FileReader.linesOnDisk 10
          (twoHours [blockLine "9", blockLine "20"] [blockLine "21"]) x.1.filePosition :=
    ⟨_, rfl, by decide +kernel⟩
  obtain ⟨⟨r, sent, ok⟩, hrun, rfl, hflag, hsent, hall⟩ := hrun
  exact ⟨r, sent, hrun, hsent, (FileReader.backfill_complete_iff hrun hflag).mp hall⟩

/-- The newest file is new and still empty: the older file is not read, and nothing says
so. -/
theorem backfill_emptyNewest : ∃ r,
    FileReader.new.backfillAndTrack (twoHours [blockLine "20"] []) 10 (fun _ => true) [] =
      (r, [], true) ∧ r.desynced = false ∧
    FileReader.linesOnDisk 10 (twoHours [blockLine "20"] []) r.filePosition = [blockLine "20"] := by
  have hrun : ∃ x, FileReader.new.backfillAndTrack (twoHours [blockLine "20"] []) 10
      (fun _ => true) [] = x ∧ x.2 = ([], true) ∧ x.1.desynced = false ∧
        FileReader.linesOnDisk 10 (twoHours [blockLine "20"] []) x.1.filePosition =
          [blockLine "20"] := ⟨_, rfl, by decide +kernel⟩
  obtain ⟨⟨r, sent, ok⟩, hrun, hx, hflag, hall⟩ := hrun
  cases hx
  exact ⟨r, hrun, hflag, hall⟩

end Example

end HlOrderbook
