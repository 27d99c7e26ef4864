import Mathlib.Data.Nat.Notation

/-!
# Bytes and text

## Main definitions

* `Bytes` — what is in a file.
* `fromUtf8`, `lossyText` — bytes read as text.
-/

set_option autoImplicit false

namespace HlOrderbook

/-- The bytes of a file. -/
abbrev Bytes := List UInt8

/-- How many bytes at the beginning, where no character is, stand for one unknown
character. -/
def invalidLength : Bytes → ℕ
  | [] => 0
  | b :: bs =>
    let second (c : UInt8) : Bool :=
      if b = 0xE0 then 0xA0 ≤ c && c ≤ 0xBF
      else if b = 0xED then 0x80 ≤ c && c ≤ 0x9F
      else if b = 0xF0 then 0x90 ≤ c && c ≤ 0xBF
      else if b = 0xF4 then 0x80 ≤ c && c ≤ 0x8F
      else 0x80 ≤ c && c ≤ 0xBF
    match bs with
    | c :: d :: _ =>
      if 0xE0 ≤ b && b ≤ 0xEF && second c then 2
      else if 0xF0 ≤ b && b ≤ 0xF4 && second c then if 0x80 ≤ d && d ≤ 0xBF then 3 else 2
      else 1
    | [c] => if 0xE0 ≤ b && b ≤ 0xF4 && second c then 2 else 1
    | [] => 1

/-- Read bytes as text; what is no text becomes unknown characters. -/
def fromUtf8Lossy : ℕ → Bytes → List Char
  | 0, _ => []
  | _, [] => []
  | fuel + 1, b :: bs =>
    match ByteArray.utf8DecodeChar? ⟨((b :: bs).take 4).toArray⟩ 0 with
    | some c => c :: fromUtf8Lossy fuel ((b :: bs).drop c.utf8Size)
    | none => '\uFFFD' :: fromUtf8Lossy fuel ((b :: bs).drop (invalidLength (b :: bs)))

/-- Bytes as text, if they are text. -/
def fromUtf8 (bytes : Bytes) : Option String := String.fromUTF8? ⟨bytes.toArray⟩

/-- Bytes as text. -/
def lossyText (bytes : Bytes) : List Char :=
  match fromUtf8 bytes with
  | some text => text.toList
  | none => fromUtf8Lossy bytes.length bytes

/-- White space. -/
def isWhitespace (c : Char) : Bool :=
  ('\t' ≤ c && c ≤ '\r') || c = ' ' || c = '\u0085' || c = '\u00A0' || c = '\u1680' ||
    ('\u2000' ≤ c && c ≤ '\u200A') || c = '\u2028' || c = '\u2029' || c = '\u202F' ||
    c = '\u205F' || c = '\u3000'

/-- Drop white space at the end. -/
def trimEnd (text : List Char) : List Char := (text.reverse.dropWhile isWhitespace).reverse

end HlOrderbook
