import HlOrderbook.Lib.Cursor
import HlOrderbook.Text
import Mathlib.Data.Nat.Bitwise
import Mathlib.Tactic.IntervalCases
import Mathlib.Tactic.Ring

/-!
# MessagePack

The node's state file is one MessagePack document, of which only the beginning is read.
The reader knows maps, text and unsigned numbers, and how to step over the rest.

## Main definitions

* `MsgPack.skip` — step over one value.
* `MsgPack.Value`, `MsgPack.Value.encode` — values, and their bytes.
* `MsgPack.SafeSteps` — no step leaves the buffer.
* `MsgPack.consumes_skip` — each value is stepped over exactly.
-/

set_option autoImplicit false
set_option linter.unusedSectionVars false

namespace HlOrderbook

namespace MsgPack

open Cursor.Reader (fail times)

/-! ## The reader -/

/-- What reads from the file. -/
abbrev Reader := Cursor.Reader UInt8

def byte : Reader UInt8 := Cursor.Reader.next

def bytes (n : ℕ) : Reader Bytes := Cursor.Reader.take n

/-- A number in so many bytes, at most eight, the highest first. -/
def be (n : ℕ) : Reader ℕ := do
  let s ← bytes n
  return s.foldl (fun acc b => acc <<< 8 ||| b.toNat) 0

/-- The head of a map: how many entries it has. -/
def mapLen : Reader ℕ := do
  let m := (← byte).toNat
  if 0x80 ≤ m ∧ m ≤ 0x8f then return m &&& 0x0f
  else if m = 0xde then be 2
  else if m = 0xdf then be 4
  else fail

/-- The length of a text, after its tag. -/
def strLen (m : ℕ) : Reader ℕ :=
  if 0xa0 ≤ m ∧ m ≤ 0xbf then pure (m &&& 0x1f)
  else if m = 0xd9 then be 1
  else if m = 0xda then be 2
  else if m = 0xdb then be 4
  else fail

def str : Reader String := do
  let m ← byte
  let len ← strLen m.toNat
  match fromUtf8 (← bytes len) with
  | some text => pure text
  | none => fail

def uint : Reader ℕ := do
  let m := (← byte).toNat
  if m ≤ 0x7f then return m
  else if m = 0xcc then be 1
  else if m = 0xcd then be 2
  else if m = 0xce then be 4
  else if m = 0xcf then be 8
  else fail

/-- What follows a tag: so many bytes, and so many values. -/
def shape (m : ℕ) : Reader (ℕ × ℕ) :=
  if m ≤ 0x7f ∨ 0xe0 ≤ m ∨ m = 0xc0 ∨ m = 0xc2 ∨ m = 0xc3 then pure (0, 0)
  else if 0x80 ≤ m ∧ m ≤ 0x8f then pure (0, 2 * (m &&& 0x0f))
  else if 0x90 ≤ m ∧ m ≤ 0x9f then pure (0, m &&& 0x0f)
  else if 0xa0 ≤ m ∧ m ≤ 0xbf then pure (m &&& 0x1f, 0)
  else if m = 0xc4 ∨ m = 0xd9 then do return (← be 1, 0)
  else if m = 0xc5 ∨ m = 0xda then do return (← be 2, 0)
  else if m = 0xc6 ∨ m = 0xdb then do return (← be 4, 0)
  else if m = 0xc7 then do return ((← be 1) + 1, 0)
  else if m = 0xc8 then do return ((← be 2) + 1, 0)
  else if m = 0xc9 then do return ((← be 4) + 1, 0)
  else if m = 0xcc ∨ m = 0xd0 then pure (1, 0)
  else if m = 0xcd ∨ m = 0xd1 then pure (2, 0)
  else if m = 0xca ∨ m = 0xce ∨ m = 0xd2 then pure (4, 0)
  else if m = 0xcb ∨ m = 0xcf ∨ m = 0xd3 then pure (8, 0)
  else if m = 0xd4 then pure (2, 0)
  else if m = 0xd5 then pure (3, 0)
  else if m = 0xd6 then pure (5, 0)
  else if m = 0xd7 then pure (9, 0)
  else if m = 0xd8 then pure (17, 0)
  else if m = 0xdc then do return (0, ← be 2)
  else if m = 0xdd then do return (0, ← be 4)
  else if m = 0xde then do return (0, 2 * (← be 2))
  else if m = 0xdf then do return (0, 2 * (← be 4))
  else fail

/-- Step over one value, if `again` steps over those inside. -/
def skipStep (again : Reader Unit) : Reader Unit := do
  let m ← byte
  let (payload, items) ← shape m.toNat
  let _ ← bytes payload
  times items again

/-- Step over one value that is nested at most so deep. -/
def skipWithin : ℕ → Reader Unit
  | 0 => fail
  | fuel + 1 => skipStep (skipWithin fuel)

/-- Step over one value of any type.  Each level takes a byte, so that there are no more
levels than bytes ahead. -/
def skip : Reader Unit := fun c => skipWithin c.rest.length c

/-- Into the value of a key, among so many entries. -/
def enterAmong (key : String) : ℕ → Reader Unit
  | 0 => fail
  | n + 1 => do
    if (← str) = key then pure ()
    else
      skip
      enterAmong key n

/-- Into the value of a key in the map that starts here. -/
def enter (key : String) : Reader Unit := do
  enterAmong key (← mapLen)

/-! ### The bounds -/

section Bounds

open Cursor.Reader

theorem within_be (n : ℕ) : Within n (be n) :=
  Within.bind (m := n) (n := 0) (within_take n) fun _ => within_pure _

theorem stable_be (n : ℕ) : Stable (be n) := (stable_take n).bind fun _ => stable_pure _

theorem within_shape (m : ℕ) : Within 0 (shape m) := by
  have hbe : ∀ (n : ℕ) (f : ℕ → ℕ × ℕ), Within 0 (do return f (← be n) : Reader (ℕ × ℕ)) :=
    fun n f => ((within_be n).mono (Nat.zero_le n)).bind fun _ => within_pure _
  rw [shape]
  repeat' apply Within.ite
  all_goals first | exact within_pure _ | exact within_fail | exact hbe _ _

theorem stable_shape (m : ℕ) : Stable (shape m) := by
  have hbe : ∀ (n : ℕ) (f : ℕ → ℕ × ℕ), Stable (do return f (← be n) : Reader (ℕ × ℕ)) :=
    fun n f => (stable_be n).bind fun _ => stable_pure _
  rw [shape]
  repeat' apply Stable.ite
  all_goals first | exact stable_pure _ | exact stable_fail | exact hbe _ _

theorem within_byte : Within 1 byte := within_next

theorem stable_byte : Stable byte := stable_next

theorem within_bytes (n : ℕ) : Within 0 (bytes n) := (within_take n).mono (Nat.zero_le n)

theorem stable_bytes (n : ℕ) : Stable (bytes n) := stable_take n

theorem within_strLen (m : ℕ) : Within 0 (strLen m) := by
  have hbe : ∀ n, Within 0 (be n) := fun n => (within_be n).mono (Nat.zero_le n)
  rw [strLen]
  repeat' apply Within.ite
  all_goals first | exact within_pure _ | exact within_fail | exact hbe _

theorem stable_strLen (m : ℕ) : Stable (strLen m) := by
  rw [strLen]
  repeat' apply Stable.ite
  all_goals first | exact stable_pure _ | exact stable_fail | exact stable_be _

theorem within_str : Within 1 str := by
  refine within_byte.bind (n := 0) fun m => (within_strLen _).bind (n := 0) fun len =>
    (within_bytes len).bind (n := 0) fun text => ?_
  cases fromUtf8 text with
  | none => exact within_fail
  | some text => exact within_pure text

theorem stable_str : Stable str := by
  refine stable_byte.bind fun m => (stable_strLen _).bind fun len =>
    (stable_bytes len).bind fun text => ?_
  cases fromUtf8 text with
  | none => exact stable_fail
  | some text => exact stable_pure text

theorem within_uint : Within 1 uint := by
  have hbe : ∀ n, Within 0 (be n) := fun n => (within_be n).mono (Nat.zero_le n)
  refine within_byte.bind (n := 0) fun m => ?_
  repeat' apply Within.ite
  all_goals first | exact within_pure _ | exact within_fail | exact hbe _

theorem stable_uint : Stable uint := by
  refine stable_byte.bind fun m => ?_
  repeat' apply Stable.ite
  all_goals first | exact stable_pure _ | exact stable_fail | exact stable_be _

theorem within_mapLen : Within 1 mapLen := by
  have hbe : ∀ n, Within 0 (be n) := fun n => (within_be n).mono (Nat.zero_le n)
  refine within_byte.bind (n := 0) fun m => ?_
  repeat' apply Within.ite
  all_goals first | exact within_pure _ | exact within_fail | exact hbe _

theorem stable_mapLen : Stable mapLen := by
  refine stable_byte.bind fun m => ?_
  repeat' apply Stable.ite
  all_goals first | exact stable_pure _ | exact stable_fail | exact stable_be _

theorem within_skipStep {again : Reader Unit} (h : Within 0 again) : Within 1 (skipStep again) :=
  within_byte.bind (n := 0) fun _ => (within_shape _).bind (n := 0) fun x =>
    (within_bytes x.1).bind (n := 0) fun _ => h.times x.2

theorem stable_skipStep {again : Reader Unit} (h : Stable again) : Stable (skipStep again) :=
  stable_byte.bind fun _ => (stable_shape _).bind fun x =>
    (stable_bytes x.1).bind fun _ => h.times x.2

theorem within_skipWithin (fuel : ℕ) : Within 1 (skipWithin fuel) := by
  induction fuel with
  | zero =>
    rintro c hc r c' ⟨⟩
  | succ fuel ih => exact within_skipStep (ih.mono (Nat.zero_le 1))

theorem stable_skipWithin (fuel : ℕ) : Stable (skipWithin fuel) := by
  induction fuel with
  | zero => exact stable_fail
  | succ fuel ih => exact stable_skipStep ih

/-- **A step stays in the buffer**, whatever is in it. -/
theorem within_skip : Within 1 skip := fun c => within_skipWithin c.rest.length c

/-! ### The levels -/

variable {c : Cursor UInt8}

theorem skipStep_congr {p q : Reader Unit} (hp : Within 0 p) (hc : c.pos ≤ c.buf.length)
    (h : ∀ c' : Cursor UInt8, c'.buf = c.buf → c.pos < c'.pos → c'.pos ≤ c'.buf.length →
      p c' = q c') : skipStep p c = skipStep q c := by
  refine bind_congr within_byte hc fun m c₁ hbuf₁ hpos₁ hend₁ => ?_
  refine bind_congr (within_shape _) hend₁ fun x c₂ hbuf₂ hpos₂ hend₂ => ?_
  refine bind_congr (within_bytes x.1) hend₂ fun _ c₃ hbuf₃ hpos₃ hend₃ => ?_
  refine times_congr hp x.2 hend₃ fun c' hbuf hpos hend => ?_
  exact h c' (hbuf.trans (hbuf₃.trans (hbuf₂.trans hbuf₁))) (by omega) hend

theorem rest_length (c : Cursor UInt8) : c.rest.length = c.buf.length - c.pos := List.length_drop

theorem skipStep_of_empty (p : Reader Unit) (h : c.rest.length = 0) : skipStep p c = none := by
  rw [rest_length] at h
  refine bind_of_none ?_
  have hnone : c.buf[c.pos]? = none := List.getElem?_eq_none (by omega)
  rw [byte, next, hnone]
  rfl

/-- With as much fuel as there are bytes ahead, more does not matter. -/
theorem skipWithin_eq {m n : ℕ} (hc : c.pos ≤ c.buf.length) (hm : c.rest.length ≤ m)
    (hn : c.rest.length ≤ n) : skipWithin m c = skipWithin n c := by
  induction m generalizing n c with
  | zero =>
    cases n with
    | zero => rfl
    | succ n => exact (skipStep_of_empty _ (Nat.le_zero.mp hm)).symm
  | succ m ih =>
    cases n with
    | zero => exact skipStep_of_empty _ (Nat.le_zero.mp hn)
    | succ n =>
      refine skipStep_congr ((within_skipWithin m).mono (Nat.zero_le 1)) hc
        fun c' hbuf hpos hend => ?_
      have hrest : c'.rest.length < c.rest.length := by
        rw [rest_length, rest_length, hbuf]
        rw [hbuf] at hend
        omega
      exact ih hend (by omega) (by omega)

/-- **The levels end by themselves**: a step over a value is a step over its head, and a
step over each value inside. -/
theorem skip_eq (hc : c.pos ≤ c.buf.length) : skip c = skipStep skip c := by
  have hmore : skip c = skipWithin (c.rest.length + 1) c :=
    skipWithin_eq hc (Nat.le_refl _) (Nat.le_succ _)
  rw [hmore]
  refine skipStep_congr ((within_skipWithin _).mono (Nat.zero_le 1)) hc
    fun c' hbuf hpos hend => ?_
  refine skipWithin_eq hend ?_ (Nat.le_refl _)
  rw [rest_length, rest_length, hbuf]
  omega

theorem extends_skipStep {p q : Reader Unit} (h : Extends p q) :
    Extends (skipStep p) (skipStep q) :=
  (Extends.refl byte).bind fun _ => (Extends.refl _).bind fun x =>
    (Extends.refl _).bind fun _ => h.times x.2

theorem extends_skipWithin {m n : ℕ} (h : m ≤ n) : Extends (skipWithin m) (skipWithin n) := by
  induction m generalizing n with
  | zero =>
    rintro c x ⟨⟩
  | succ m ih =>
    cases n with
    | zero => exact absurd h (Nat.not_succ_le_zero m)
    | succ n => exact extends_skipStep (ih (Nat.le_of_succ_le_succ h))

theorem stable_skip : Stable skip := by
  intro buf later pos r c' h
  obtain ⟨hbuf, hlater⟩ := stable_skipWithin _ buf later pos r c' h
  refine ⟨hbuf, extends_skipWithin ?_ _ _ hlater⟩
  rw [rest_length, rest_length]
  simp only [List.length_append]
  omega

theorem safe_enterAmong (key : String) (n : ℕ) : Safe 0 (enterAmong key n) := by
  induction n with
  | zero => exact ⟨within_fail, stable_fail⟩
  | succ n ih =>
    have hstr : Within 0 str := within_str.mono (Nat.zero_le 1)
    have hskip : Within 0 skip := within_skip.mono (Nat.zero_le 1)
    exact ⟨hstr.bind fun _ => (within_pure ()).ite (hskip.bind fun _ => ih.within),
      stable_str.bind fun _ => (stable_pure ()).ite (stable_skip.bind fun _ => ih.stable)⟩

/-- Each step of the reader stays in the buffer, and reads the same when more is in it. -/
structure SafeSteps : Prop where
  byte : Safe 1 byte
  bytes : ∀ n, Safe n (bytes n)
  be : ∀ n, Safe n (be n)
  mapLen : Safe 1 mapLen
  str : Safe 1 str
  uint : Safe 1 uint
  skip : Safe 1 skip
  enter : ∀ key, Safe 1 (enter key)

/-- **No step leaves the buffer**, whatever is in it. -/
theorem safeSteps : SafeSteps where
  byte := ⟨within_byte, stable_byte⟩
  bytes n := ⟨within_take n, stable_bytes n⟩
  be n := ⟨within_be n, stable_be n⟩
  mapLen := ⟨within_mapLen, stable_mapLen⟩
  str := ⟨within_str, stable_str⟩
  uint := ⟨within_uint, stable_uint⟩
  skip := ⟨within_skip, stable_skip⟩
  enter key :=
    ⟨within_mapLen.bind fun n => (safe_enterAmong key n).within,
      stable_mapLen.bind fun n => (safe_enterAmong key n).stable⟩

end Bounds

/-! ## Values -/

/-- In how many bytes a number stands. -/
inductive Width
  | w8 | w16 | w32 | w64
  deriving DecidableEq

def Width.size : Width → ℕ
  | w8 => 1
  | w16 => 2
  | w32 => 4
  | w64 => 8

def Width.code : Width → ℕ
  | w8 => 0
  | w16 => 1
  | w32 => 2
  | w64 => 3

/-- A value, and how it is laid out: with the length in the tag, or in so many bytes. -/
inductive Value
  | nil
  | bool (b : Bool)
  | posFixint (n : ℕ)
  | negFixint (n : ℕ)
  | uint (w : Width) (n : ℕ)
  | int (w : Width) (bits : ℕ)
  | float32 (bits : ℕ)
  | float64 (bits : ℕ)
  | str (f : Option Width) (text : Bytes)
  | bin (w : Width) (data : Bytes)
  | fixext (k : ℕ) (type : UInt8) (data : Bytes)
  | ext (w : Width) (type : UInt8) (data : Bytes)
  | array (f : Option Width) (items : List Value)
  | map (f : Option Width) (entries : List (Value × Value))

/-- A number in so many bytes, the highest first. -/
def bigEndian : ℕ → ℕ → Bytes
  | 0, _ => []
  | k + 1, n => UInt8.ofNat (n / 256 ^ k) :: bigEndian k n

/-- A tag, and a number behind it. -/
def sized (tag : ℕ) (w : Width) (n : ℕ) : Bytes :=
  UInt8.ofNat (tag + w.code) :: bigEndian w.size n

/-- A tag with a length, in the tag itself or behind it. -/
def head (fix tag : ℕ) (f : Option Width) (n : ℕ) : Bytes :=
  match f with
  | none => [UInt8.ofNat (fix + n)]
  | some w => sized tag w n

mutual

/-- The bytes of a value. -/
def Value.encode : Value → Bytes
  | .nil => [0xc0]
  | .bool b => [if b then 0xc3 else 0xc2]
  | .posFixint n => [UInt8.ofNat n]
  | .negFixint n => [UInt8.ofNat (0xe0 + n)]
  | .uint w n => sized 0xcc w n
  | .int w bits => sized 0xd0 w bits
  | .float32 bits => 0xca :: bigEndian 4 bits
  | .float64 bits => 0xcb :: bigEndian 8 bits
  | .str f text => head 0xa0 0xd9 f text.length ++ text
  | .bin w data => sized 0xc4 w data.length ++ data
  | .fixext k type data => UInt8.ofNat (0xd4 + k) :: type :: data
  | .ext w type data => sized 0xc7 w data.length ++ type :: data
  | .array f items => head 0x90 0xdb f items.length ++ encodeItems items
  | .map f entries => head 0x80 0xdd f entries.length ++ encodeEntries entries

def encodeItems : List Value → Bytes
  | [] => []
  | v :: vs => v.encode ++ encodeItems vs

def encodeEntries : List (Value × Value) → Bytes
  | [] => []
  | (k, v) :: es => k.encode ++ v.encode ++ encodeEntries es

end

/-- A length that fits: below the bound in the tag, or in a number of one of the widths. -/
def LengthFits (bound : ℕ) (widths : List Width) (f : Option Width) (n : ℕ) : Prop :=
  match f with
  | none => n < bound
  | some w => w ∈ widths ∧ n < 256 ^ w.size

mutual

/-- Every number and every length fits where it stands. -/
def Value.WellFormed : Value → Prop
  | .nil => True
  | .bool _ => True
  | .posFixint n => n < 128
  | .negFixint n => n < 32
  | .uint w n => n < 256 ^ w.size
  | .int w bits => bits < 256 ^ w.size
  | .float32 bits => bits < 256 ^ 4
  | .float64 bits => bits < 256 ^ 8
  | .str f text => LengthFits 32 [.w8, .w16, .w32] f text.length
  | .bin w data => LengthFits 0 [.w8, .w16, .w32] (some w) data.length
  | .fixext k _ data => k ≤ 4 ∧ data.length = 2 ^ k
  | .ext w _ data => LengthFits 0 [.w8, .w16, .w32] (some w) data.length
  | .array f items => LengthFits 16 [.w16, .w32] f items.length ∧ ItemsWellFormed items
  | .map f entries => LengthFits 16 [.w16, .w32] f entries.length ∧ EntriesWellFormed entries

def ItemsWellFormed : List Value → Prop
  | [] => True
  | v :: vs => v.WellFormed ∧ ItemsWellFormed vs

def EntriesWellFormed : List (Value × Value) → Prop
  | [] => True
  | (k, v) :: es => k.WellFormed ∧ v.WellFormed ∧ EntriesWellFormed es

end

instance LengthFits.decidable (bound : ℕ) (widths : List Width) (f : Option Width) (n : ℕ) :
    Decidable (LengthFits bound widths f n) :=
  match f with
  | none => inferInstanceAs (Decidable (n < bound))
  | some w => inferInstanceAs (Decidable (w ∈ widths ∧ n < 256 ^ w.size))

mutual

instance Value.decidableWellFormed : (v : Value) → Decidable v.WellFormed
  | .nil => inferInstanceAs (Decidable True)
  | .bool _ => inferInstanceAs (Decidable True)
  | .posFixint n => inferInstanceAs (Decidable (n < 128))
  | .negFixint n => inferInstanceAs (Decidable (n < 32))
  | .uint w n => inferInstanceAs (Decidable (n < 256 ^ w.size))
  | .int w bits => inferInstanceAs (Decidable (bits < 256 ^ w.size))
  | .float32 bits => inferInstanceAs (Decidable (bits < 256 ^ 4))
  | .float64 bits => inferInstanceAs (Decidable (bits < 256 ^ 8))
  | .str f text => LengthFits.decidable 32 [.w8, .w16, .w32] f text.length
  | .bin w data => LengthFits.decidable 0 [.w8, .w16, .w32] (some w) data.length
  | .fixext k _ data => inferInstanceAs (Decidable (k ≤ 4 ∧ data.length = 2 ^ k))
  | .ext w _ data => LengthFits.decidable 0 [.w8, .w16, .w32] (some w) data.length
  | .array f items =>
    have := decidableItems items
    inferInstanceAs (Decidable (LengthFits 16 [.w16, .w32] f items.length ∧ ItemsWellFormed items))
  | .map f entries =>
    have := decidableEntries entries
    inferInstanceAs
      (Decidable (LengthFits 16 [.w16, .w32] f entries.length ∧ EntriesWellFormed entries))

instance decidableItems : (items : List Value) → Decidable (ItemsWellFormed items)
  | [] => inferInstanceAs (Decidable True)
  | v :: vs =>
    have := v.decidableWellFormed
    have := decidableItems vs
    inferInstanceAs (Decidable (v.WellFormed ∧ ItemsWellFormed vs))

instance decidableEntries : (entries : List (Value × Value)) →
    Decidable (EntriesWellFormed entries)
  | [] => inferInstanceAs (Decidable True)
  | (k, v) :: es =>
    have := k.decidableWellFormed
    have := v.decidableWellFormed
    have := decidableEntries es
    inferInstanceAs (Decidable (k.WellFormed ∧ v.WellFormed ∧ EntriesWellFormed es))

end

/-! ### Numbers -/

theorem length_bigEndian (k n : ℕ) : (bigEndian k n).length = k := by
  induction k with
  | zero => rfl
  | succ k ih => rw [bigEndian, List.length_cons, ih]

theorem shiftLeft_or_byte (acc : ℕ) (b : UInt8) : acc <<< 8 ||| b.toNat = acc * 256 + b.toNat := by
  rw [Nat.shiftLeft_eq, Nat.mul_comm]
  exact (Nat.two_pow_add_eq_or_of_lt b.toNat_lt acc).symm.trans (by rw [Nat.mul_comm])

theorem foldl_bigEndian (k n acc : ℕ) :
    (bigEndian k n).foldl (fun acc b => acc <<< 8 ||| b.toNat) acc =
      acc * 256 ^ k + n % 256 ^ k := by
  induction k generalizing acc with
  | zero => simp [bigEndian, Nat.mod_one]
  | succ k ih =>
    have hsplit : n % 256 ^ (k + 1) = n % 256 ^ k + 256 ^ k * (n / 256 ^ k % 256) :=
      Nat.mod_mul
    have hbyte : (UInt8.ofNat (n / 256 ^ k)).toNat = n / 256 ^ k % 256 := UInt8.toNat_ofNat'
    rw [bigEndian, List.foldl_cons, ih, shiftLeft_or_byte, hbyte, hsplit]
    ring

section Steps

open Cursor.Reader

/-- A number is read back. -/
theorem consumes_be {k n : ℕ} (h : n < 256 ^ k) : Consumes (be k) (bigEndian k n) n := by
  have hread := (consumes_take (length_bigEndian k n)).map
    fun s => s.foldl (fun acc b => acc <<< 8 ||| b.toNat) 0
  rw [foldl_bigEndian, Nat.zero_mul, Nat.zero_add, Nat.mod_eq_of_lt h] at hread
  exact hread

/-- **A value** is its head, some bytes, and the values inside. -/
theorem consumes_skip_of {t payload items : ℕ} {len : Bytes} (data : Bytes) (parts : List Bytes)
    (ht : t < 256) (hshape : Consumes (shape t) len (payload, items))
    (hdata : data.length = payload) (hparts : parts.length = items)
    (hin : ∀ part ∈ parts, Consumes skip part ()) :
    Consumes skip (UInt8.ofNat t :: (len ++ (data ++ parts.flatten))) () := by
  intro c hc hahead
  have htag : (UInt8.ofNat t).toNat = t := by
    rw [UInt8.toNat_ofNat']
    exact Nat.mod_eq_of_lt ht
  have htimes : Consumes (times items skip) parts.flatten () := hparts ▸ Consumes.times hin
  have hstep : Consumes (skipStep skip) ([UInt8.ofNat t] ++ (len ++ (data ++ parts.flatten))) () := by
    refine (consumes_next (UInt8.ofNat t)).bind ?_
    rw [htag]
    exact hshape.bind ((consumes_take hdata).bind htimes)
  rw [skip_eq hc]
  exact hstep c hc hahead

/-- A value with nothing inside. -/
theorem consumes_skip_flat (t : ℕ) {payload : ℕ} (len data : Bytes) (ht : t < 256)
    (hshape : Consumes (shape t) len (payload, 0)) (hdata : data.length = payload) :
    Consumes skip (UInt8.ofNat t :: (len ++ data)) () := by
  have h := consumes_skip_of data [] ht hshape hdata rfl (by simp)
  rwa [List.flatten_nil, List.append_nil] at h

/-! ### The tags -/

theorem shape_single {t : ℕ} (h : t ≤ 0x7f ∨ 0xe0 ≤ t ∨ t = 0xc0 ∨ t = 0xc2 ∨ t = 0xc3) :
    shape t = pure (0, 0) := if_pos h

theorem low_bits (k base n : ℕ) (hbase : base % 2 ^ k = 0) (hn : n < 2 ^ k) :
    (base + n) &&& (2 ^ k - 1) = n := by
  rw [Nat.and_two_pow_sub_one_eq_mod, Nat.add_mod, hbase, Nat.zero_add, Nat.mod_mod,
    Nat.mod_eq_of_lt hn]

theorem shape_fixmap {n : ℕ} (h : n < 16) : shape (0x80 + n) = pure (0, 2 * n) := by
  have hlow : (0x80 + n) &&& 0x0f = n := low_bits 4 0x80 n (by decide) h
  rw [shape, if_neg (by omega), if_pos (by omega), hlow]

theorem shape_fixarray {n : ℕ} (h : n < 16) : shape (0x90 + n) = pure (0, n) := by
  have hlow : (0x90 + n) &&& 0x0f = n := low_bits 4 0x90 n (by decide) h
  rw [shape, if_neg (by omega), if_neg (by omega), if_pos (by omega), hlow]

theorem shape_fixstr {n : ℕ} (h : n < 32) : shape (0xa0 + n) = pure (n, 0) := by
  have hlow : (0xa0 + n) &&& 0x1f = n := low_bits 5 0xa0 n (by decide) h
  rw [shape, if_neg (by omega), if_neg (by omega), if_neg (by omega), if_pos (by omega), hlow]

theorem consumes_shape_number {t : ℕ} {w : Width} (ht : t = 0xcc ∨ t = 0xd0) :
    Consumes (shape (t + w.code)) [] (w.size, 0) := by
  rcases ht with rfl | rfl <;> cases w <;> exact Consumes.pure _

theorem consumes_shape_str {f : Option Width} {n : ℕ}
    (h : LengthFits 32 [.w8, .w16, .w32] f n) :
    ∃ t len, t < 256 ∧ head 0xa0 0xd9 f n = UInt8.ofNat t :: len ∧
      Consumes (shape t) len (n, 0) := by
  cases f with
  | none =>
    have hlt : n < 32 := h
    exact ⟨0xa0 + n, [], by omega, rfl, by rw [shape_fixstr hlt]; exact Consumes.pure _⟩
  | some w =>
    obtain ⟨hw, hlt⟩ := h
    have hread := (consumes_be hlt).map fun n => (n, 0)
    refine ⟨0xd9 + w.code, bigEndian w.size n, ?_, rfl, ?_⟩
    · cases w <;> decide
    · cases w with
      | w8 => exact hread
      | w16 => exact hread
      | w32 => exact hread
      | w64 => simp at hw

theorem consumes_shape_bin {w : Width} {n : ℕ}
    (h : LengthFits 0 [.w8, .w16, .w32] (some w) n) :
    0xc4 + w.code < 256 ∧ Consumes (shape (0xc4 + w.code)) (bigEndian w.size n) (n, 0) := by
  obtain ⟨hw, hlt⟩ := h
  have hread := (consumes_be hlt).map fun n => (n, 0)
  cases w with
  | w8 => exact ⟨by decide, hread⟩
  | w16 => exact ⟨by decide, hread⟩
  | w32 => exact ⟨by decide, hread⟩
  | w64 => simp at hw

theorem consumes_shape_ext {w : Width} {n : ℕ}
    (h : LengthFits 0 [.w8, .w16, .w32] (some w) n) :
    0xc7 + w.code < 256 ∧ Consumes (shape (0xc7 + w.code)) (bigEndian w.size n) (n + 1, 0) := by
  obtain ⟨hw, hlt⟩ := h
  have hread := (consumes_be hlt).map fun n => (n + 1, 0)
  cases w with
  | w8 => exact ⟨by decide, hread⟩
  | w16 => exact ⟨by decide, hread⟩
  | w32 => exact ⟨by decide, hread⟩
  | w64 => simp at hw

theorem consumes_shape_array {f : Option Width} {n : ℕ}
    (h : LengthFits 16 [.w16, .w32] f n) :
    ∃ t len, t < 256 ∧ head 0x90 0xdb f n = UInt8.ofNat t :: len ∧
      Consumes (shape t) len (0, n) := by
  cases f with
  | none =>
    have hlt : n < 16 := h
    exact ⟨0x90 + n, [], by omega, rfl, by rw [shape_fixarray hlt]; exact Consumes.pure _⟩
  | some w =>
    obtain ⟨hw, hlt⟩ := h
    have hread := (consumes_be hlt).map fun n => (0, n)
    refine ⟨0xdb + w.code, bigEndian w.size n, ?_, rfl, ?_⟩
    · cases w <;> decide
    · cases w with
      | w8 => simp at hw
      | w16 => exact hread
      | w32 => exact hread
      | w64 => simp at hw

theorem consumes_shape_map {f : Option Width} {n : ℕ}
    (h : LengthFits 16 [.w16, .w32] f n) :
    ∃ t len, t < 256 ∧ head 0x80 0xdd f n = UInt8.ofNat t :: len ∧
      Consumes (shape t) len (0, 2 * n) := by
  cases f with
  | none =>
    have hlt : n < 16 := h
    exact ⟨0x80 + n, [], by omega, rfl, by rw [shape_fixmap hlt]; exact Consumes.pure _⟩
  | some w =>
    obtain ⟨hw, hlt⟩ := h
    have hread := (consumes_be hlt).map fun n => (0, 2 * n)
    refine ⟨0xdd + w.code, bigEndian w.size n, ?_, rfl, ?_⟩
    · cases w <;> decide
    · cases w with
      | w8 => simp at hw
      | w16 => exact hread
      | w32 => exact hread
      | w64 => simp at hw

/-! ### Every value -/

/-- The bytes of the items, one part each. -/
theorem encodeItems_eq (items : List Value) :
    encodeItems items = (items.map Value.encode).flatten := by
  induction items with
  | nil => rfl
  | cons v items ih => rw [encodeItems, ih, List.map_cons, List.flatten_cons]

/-- The bytes of the entries, one part for each key and each value. -/
theorem encodeEntries_eq (entries : List (Value × Value)) :
    encodeEntries entries = (entries.flatMap fun e => [e.1.encode, e.2.encode]).flatten := by
  induction entries with
  | nil => rfl
  | cons e entries ih =>
    obtain ⟨k, v⟩ := e
    rw [encodeEntries, ih, List.flatMap_cons, List.flatten_append]
    simp

theorem length_entryParts (entries : List (Value × Value)) :
    (entries.flatMap fun e => [e.1.encode, e.2.encode]).length = 2 * entries.length := by
  induction entries with
  | nil => rfl
  | cons e entries ih =>
    rw [List.flatMap_cons, List.length_append, ih, List.length_cons]
    simp only [List.length_cons, List.length_nil]
    omega

mutual

/-- **Every value** is stepped over exactly. -/
theorem consumes_skip : (v : Value) → v.WellFormed → Consumes skip v.encode ()
  | .nil, _ =>
    consumes_skip_flat 0xc0 [] [] (by decide) (Consumes.pure _) rfl
  | .bool b, _ => by
    cases b with
    | false =>
      exact consumes_skip_flat 0xc2 [] [] (by decide) (Consumes.pure _) rfl
    | true =>
      exact consumes_skip_flat 0xc3 [] [] (by decide) (Consumes.pure _) rfl
  | .posFixint n, h => by
    have hn : n < 128 := h
    refine consumes_skip_flat _ [] [] (by omega) ?_ rfl
    rw [shape_single (Or.inl (by omega))]
    exact Consumes.pure _
  | .negFixint n, h => by
    have hn : n < 32 := h
    refine consumes_skip_flat _ [] [] (by omega) ?_ rfl
    rw [shape_single (Or.inr (Or.inl (by omega)))]
    exact Consumes.pure _
  | .uint w n, _ =>
    consumes_skip_flat _ [] _ (by cases w <;> decide) (consumes_shape_number (Or.inl rfl))
      (length_bigEndian w.size n)
  | .int w bits, _ =>
    consumes_skip_flat _ [] _ (by cases w <;> decide) (consumes_shape_number (Or.inr rfl))
      (length_bigEndian w.size bits)
  | .float32 bits, _ =>
    consumes_skip_flat 0xca [] _ (by decide) (Consumes.pure (4, 0))
      (length_bigEndian 4 bits)
  | .float64 bits, _ =>
    consumes_skip_flat 0xcb [] _ (by decide) (Consumes.pure (8, 0))
      (length_bigEndian 8 bits)
  | .str f text, h => by
    obtain ⟨t, len, ht, hhead, hshape⟩ := consumes_shape_str h
    rw [Value.encode, hhead, List.cons_append]
    exact consumes_skip_flat t len text ht hshape rfl
  | .bin w data, h =>
    consumes_skip_flat _ _ data (consumes_shape_bin h).1 (consumes_shape_bin h).2 rfl
  | .fixext k type data, h => by
    obtain ⟨hk, hdata⟩ := h
    have hshape : Consumes (shape (0xd4 + k)) [] (2 ^ k + 1, 0) := by
      interval_cases k <;> exact Consumes.pure _
    exact consumes_skip_flat _ [] (type :: data) (by omega) hshape
      (by rw [List.length_cons, hdata])
  | .ext w type data, h =>
    consumes_skip_flat _ _ (type :: data) (consumes_shape_ext h).1 (consumes_shape_ext h).2 rfl
  | .array f items, h => by
    obtain ⟨hfits, hitems⟩ := h
    obtain ⟨t, len, ht, hhead, hshape⟩ := consumes_shape_array hfits
    rw [Value.encode, hhead, List.cons_append, encodeItems_eq]
    exact consumes_skip_of [] _ ht hshape rfl (List.length_map _)
      (consumes_skip_items items hitems)
  | .map f entries, h => by
    obtain ⟨hfits, hentries⟩ := h
    obtain ⟨t, len, ht, hhead, hshape⟩ := consumes_shape_map hfits
    rw [Value.encode, hhead, List.cons_append, encodeEntries_eq]
    exact consumes_skip_of [] _ ht hshape rfl (length_entryParts entries)
      (consumes_skip_entries entries hentries)

theorem consumes_skip_items : (items : List Value) → ItemsWellFormed items →
    ∀ part ∈ items.map Value.encode, Consumes skip part ()
  | [], _ => by simp
  | v :: items, h => by
    rw [List.map_cons, List.forall_mem_cons]
    exact ⟨consumes_skip v h.1, consumes_skip_items items h.2⟩

theorem consumes_skip_entries : (entries : List (Value × Value)) → EntriesWellFormed entries →
    ∀ part ∈ entries.flatMap fun e => [e.1.encode, e.2.encode], Consumes skip part ()
  | [], _ => by simp
  | (k, v) :: entries, h => by
    rw [List.flatMap_cons, List.cons_append, List.cons_append, List.nil_append,
      List.forall_mem_cons, List.forall_mem_cons]
    exact ⟨consumes_skip k h.1, consumes_skip v h.2.1, consumes_skip_entries entries h.2.2⟩

end

end Steps

end MsgPack

end HlOrderbook
