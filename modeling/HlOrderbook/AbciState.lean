import HlOrderbook.MsgPack
import Mathlib.Data.List.Nodup

/-!
# The height of the persisted state

The height stands in the state file under `exchange`, `locus` and `ctx`, somewhere near
the beginning, and only the beginning is read.

## Main definitions

* `readAbciStateHeight` — the height and the time in the file.
* `MsgPack.Holder` — a map, seen from one of its keys.
* `persistedHeight_layout` — the height is read from any layout.
-/

set_option autoImplicit false
set_option linter.unusedSectionVars false

namespace HlOrderbook

open MsgPack Cursor.Reader

/-! ## Reading -/

/-- The entries of the map with the height and the time, until both are read. -/
def readCtx : ℕ → Cursor UInt8 → Option ℕ → Option String → Option ℕ × Option String
  | 0, _, height, time => (height, time)
  | n + 1, mp, height, time =>
    match str mp with
    | none => (height, time)
    | some (key, mp) =>
      if key = "height" then
        match uint mp with
        | none => (height, time)
        | some (h, mp) => if time.isSome then (some h, time) else readCtx n mp (some h) time
      else if key = "time" then
        match str mp with
        | none => (height, time)
        | some (t, mp) => if height.isSome then (height, some t) else readCtx n mp height (some t)
      else
        match skip mp with
        | none => (height, time)
        | some (_, mp) =>
          if height.isSome && time.isSome then (height, time) else readCtx n mp height time

/-- How much of the file is read. -/
def headBytes : ℕ := 64 * 1024

/-- Into the map with the height and the time: how many entries it has. -/
def enterCtx : MsgPack.Reader ℕ := do
  enter "exchange"
  enter "locus"
  enter "ctx"
  mapLen

/-- The height, and the time if it is there, of the state in the file. -/
def readAbciStateHeight (file : Option Bytes) : Option (ℕ × Option String) :=
  file.bind fun content =>
    match enterCtx ⟨content.take headBytes, 0⟩ with
    | none => none
    | some (entries, mp) =>
      let (height, time) := readCtx entries mp none none
      height.map fun h => (h, time)

/-! ## Maps with text for keys -/

namespace MsgPack

/-- The text a value is. -/
def Value.text : Value → Option String
  | .str _ text => fromUtf8 text
  | _ => none

/-- The unsigned number a value is. -/
def Value.unsigned : Value → Option ℕ
  | .posFixint n => some n
  | .uint _ n => some n
  | _ => none

/-- The keys are texts, and distinct. -/
structure TextKeys (entries : List (Value × Value)) : Prop where
  text : ∀ e ∈ entries, e.1.text ≠ none
  distinct : (entries.map fun e => e.1.text).Nodup

/-- A map, seen from one of its keys: what is before it, and behind its value. -/
structure Holder (key : String) (v : Value) where
  format : Option Width
  before : List (Value × Value)
  keyValue : Value
  after : List (Value × Value)
  isKey : keyValue.text = some key

namespace Holder

variable {key : String} {v : Value}

def entries (m : Holder key v) : List (Value × Value) := m.before ++ (m.keyValue, v) :: m.after

def toValue (m : Holder key v) : Value := .map m.format m.entries

/-- The bytes up to the value. -/
def upTo (m : Holder key v) : Bytes :=
  head 0x80 0xdd m.format m.entries.length ++ (encodeEntries m.before ++ m.keyValue.encode)

theorem encodeEntries_append (es es' : List (Value × Value)) :
    encodeEntries (es ++ es') = encodeEntries es ++ encodeEntries es' := by
  induction es with
  | nil => rfl
  | cons e es ih =>
    obtain ⟨k, v⟩ := e
    rw [List.cons_append, encodeEntries, encodeEntries, ih]
    simp only [List.append_assoc]

/-- The map is the bytes up to the value, the value, and the rest. -/
theorem encode_toValue (m : Holder key v) :
    m.toValue.encode = m.upTo ++ (v.encode ++ encodeEntries m.after) := by
  rw [toValue, Value.encode, upTo, entries, encodeEntries_append, encodeEntries]
  simp only [List.append_assoc]

end Holder

theorem entriesWellFormed_append {es es' : List (Value × Value)}
    (h : EntriesWellFormed (es ++ es')) : EntriesWellFormed es ∧ EntriesWellFormed es' := by
  induction es with
  | nil => exact ⟨trivial, h⟩
  | cons e es ih =>
    obtain ⟨k, v⟩ := e
    obtain ⟨hk, hv, hes⟩ := h
    exact ⟨⟨hk, hv, (ih hes).1⟩, (ih hes).2⟩

/-! ### What is read of them -/

theorem consumes_strLen {f : Option Width} {n : ℕ} (h : LengthFits 32 [.w8, .w16, .w32] f n) :
    ∃ t len, t < 256 ∧ head 0xa0 0xd9 f n = UInt8.ofNat t :: len ∧ Consumes (strLen t) len n := by
  cases f with
  | none =>
    have hlt : n < 32 := h
    have hlow : (0xa0 + n) &&& 0x1f = n := low_bits 5 0xa0 n (by decide) hlt
    refine ⟨0xa0 + n, [], by omega, rfl, ?_⟩
    rw [strLen, if_pos (by omega), hlow]
    exact Consumes.pure n
  | some w =>
    obtain ⟨hw, hlt⟩ := h
    have hread := consumes_be hlt
    refine ⟨0xd9 + w.code, bigEndian w.size n, ?_, rfl, ?_⟩
    · cases w <;> decide
    · cases w with
      | w8 => exact hread
      | w16 => exact hread
      | w32 => exact hread
      | w64 => simp at hw

theorem consumes_str {v : Value} {s : String} (hv : v.WellFormed) (hs : v.text = some s) :
    Consumes str v.encode s := by
  cases v with
  | str f text =>
    obtain ⟨t, len, ht, hhead, hlen⟩ := consumes_strLen hv
    have htag : (UInt8.ofNat t).toNat = t := UInt8.toNat_ofNat'.trans (Nat.mod_eq_of_lt ht)
    have htext : fromUtf8 text = some s := hs
    have hread : Consumes str ([UInt8.ofNat t] ++ (len ++ (text ++ []))) s := by
      refine (consumes_next _).bind ?_
      rw [htag]
      refine hlen.bind ((consumes_take rfl).bind ?_)
      rw [htext]
      exact Consumes.pure s
    rw [Value.encode, hhead]
    rwa [List.append_nil] at hread
  | _ => cases hs

theorem consumes_mapLen {f : Option Width} {n : ℕ} (h : LengthFits 16 [.w16, .w32] f n) :
    Consumes mapLen (head 0x80 0xdd f n) n := by
  cases f with
  | none =>
    have hlt : n < 16 := h
    have hlow : (0x80 + n) &&& 0x0f = n := low_bits 4 0x80 n (by decide) hlt
    have htag : (UInt8.ofNat (0x80 + n)).toNat = 0x80 + n :=
      UInt8.toNat_ofNat'.trans (Nat.mod_eq_of_lt (by omega))
    have hread : Consumes mapLen ([UInt8.ofNat (0x80 + n)] ++ []) n := by
      refine (consumes_next _).bind ?_
      simp only [htag]
      rw [if_pos (by omega), hlow]
      exact Consumes.pure n
    exact hread
  | some w =>
    obtain ⟨hw, hlt⟩ := h
    have hread := consumes_be hlt
    cases w with
    | w8 => simp at hw
    | w16 => exact (consumes_next 0xde).bind hread
    | w32 => exact (consumes_next 0xdf).bind hread
    | w64 => simp at hw

theorem consumes_uint {v : Value} {n : ℕ} (hv : v.WellFormed) (hn : v.unsigned = some n) :
    Consumes uint v.encode n := by
  cases v with
  | posFixint k =>
    cases hn
    have hlt : n < 128 := hv
    have htag : (UInt8.ofNat n).toNat = n := UInt8.toNat_ofNat'.trans (Nat.mod_eq_of_lt (by omega))
    have hread : Consumes uint ([UInt8.ofNat n] ++ []) n := by
      refine (consumes_next _).bind ?_
      simp only [htag]
      rw [if_pos (by omega)]
      exact Consumes.pure n
    exact hread
  | uint w k =>
    cases hn
    have hread := consumes_be hv
    cases w with
    | w8 => exact (consumes_next 0xcc).bind hread
    | w16 => exact (consumes_next 0xcd).bind hread
    | w32 => exact (consumes_next 0xce).bind hread
    | w64 => exact (consumes_next 0xcf).bind hread
  | _ => cases hn

/-- The keys before the wanted one are stepped over, and so are their values. -/
theorem consumes_enterAmong {key : String} {keyValue : Value} {before : List (Value × Value)}
    {n : ℕ} (hkey : keyValue.text = some key) (hkeyValue : keyValue.WellFormed)
    (hbefore : EntriesWellFormed before)
    (hother : ∀ e ∈ before, ∃ k, e.1.text = some k ∧ k ≠ key) (hn : before.length < n) :
    Consumes (enterAmong key n) (encodeEntries before ++ keyValue.encode) () := by
  induction before generalizing n with
  | nil =>
    cases n with
    | zero => cases hn
    | succ n =>
      have hread : Consumes (enterAmong key (n + 1)) (keyValue.encode ++ []) () := by
        refine (consumes_str hkeyValue hkey).bind ?_
        rw [if_pos rfl]
        exact Consumes.pure ()
      rwa [List.append_nil] at hread
  | cons e before ih =>
    obtain ⟨k, v⟩ := e
    obtain ⟨hk, hv, hrest⟩ := hbefore
    obtain ⟨other, htext, hne⟩ := hother (k, v) List.mem_cons_self
    cases n with
    | zero => cases hn
    | succ n =>
      have hread := ih hrest (fun e he => hother e (List.mem_cons_of_mem _ he))
        (Nat.lt_of_succ_lt_succ hn)
      have hall : Consumes (enterAmong key (n + 1))
          (k.encode ++ (v.encode ++ (encodeEntries before ++ keyValue.encode))) () := by
        refine (consumes_str hk htext).bind ?_
        rw [if_neg hne]
        exact (consumes_skip v hv).bind hread
      rw [encodeEntries]
      simpa only [List.append_assoc] using hall

namespace Holder

variable {key : String} {v : Value}

/-- What a well-formed map says about its parts. -/
theorem wellFormed_parts {m : Holder key v} (h : m.toValue.WellFormed) :
    LengthFits 16 [.w16, .w32] m.format m.entries.length ∧ EntriesWellFormed m.before ∧
      m.keyValue.WellFormed ∧ v.WellFormed ∧ EntriesWellFormed m.after := by
  obtain ⟨hfits, hentries⟩ := h
  obtain ⟨hbefore, hk, hv, hafter⟩ := entriesWellFormed_append hentries
  exact ⟨hfits, hbefore, hk, hv, hafter⟩

/-- **Into the value of the key.** -/
theorem consumes_enter {m : Holder key v} (h : m.toValue.WellFormed)
    (hother : ∀ e ∈ m.before, ∃ k, e.1.text = some k ∧ k ≠ key) :
    Consumes (enter key) m.upTo () := by
  obtain ⟨hfits, hbefore, hk, -, -⟩ := wellFormed_parts h
  refine (consumes_mapLen hfits).bind (consumes_enterAmong m.isKey hk hbefore hother ?_)
  rw [entries, List.length_append, List.length_cons]
  omega

/-- Where the keys are distinct texts, no other entry has the key. -/
theorem other_keys {m : Holder key v} (h : TextKeys m.entries) :
    (∀ e ∈ m.before, ∃ k, e.1.text = some k ∧ k ≠ key) ∧
      ∀ e ∈ m.after, ∃ k, e.1.text = some k ∧ k ≠ key := by
  have hsplit : (m.before.map fun e => e.1.text) ++
      some key :: (m.after.map fun e => e.1.text) = m.entries.map fun e => e.1.text := by
    rw [entries, List.map_append, List.map_cons, m.isKey]
  have hdistinct := h.distinct
  rw [← hsplit, List.nodup_middle, List.nodup_cons, List.mem_append, not_or] at hdistinct
  obtain ⟨⟨hbefore, hafter⟩, -⟩ := hdistinct
  have htext : ∀ e ∈ m.entries, ∀ l : List (Value × Value), e ∈ l →
      some key ∉ l.map (fun e => e.1.text) → ∃ k, e.1.text = some k ∧ k ≠ key := by
    intro e he l hl hnot
    obtain ⟨k, hk⟩ := Option.ne_none_iff_exists'.mp (h.text e he)
    refine ⟨k, hk, fun heq => hnot (List.mem_map.mpr ⟨e, hl, ?_⟩)⟩
    rw [hk, heq]
  exact ⟨fun e he => htext e (List.mem_append_left _ he) m.before he hbefore,
    fun e he => htext e (List.mem_append_right _ (List.mem_cons_of_mem _ he)) m.after he hafter⟩

end Holder

end MsgPack

/-! ## The entries with the height -/

section Ctx

variable {c : Cursor UInt8} {time : Option String} {h n : ℕ}

/-- The entries before the height are read, and leave the height open. -/
theorem readCtx_before {before : List (Value × Value)} (hc : c.pos ≤ c.buf.length)
    (hahead : encodeEntries before <+: c.rest) (hwell : EntriesWellFormed before)
    (hother : ∀ e ∈ before, ∃ k, e.1.text = some k ∧ k ≠ "height")
    (htime : ∀ e ∈ before, e.1.text = some "time" → e.2.text ≠ none) :
    ∃ time', readCtx (before.length + n) c none time =
      readCtx n (c.advance (encodeEntries before).length) none time' := by
  induction before generalizing c time with
  | nil => exact ⟨time, by rw [encodeEntries, List.length_nil, Nat.zero_add]; rfl⟩
  | cons e before ih =>
    obtain ⟨k, v⟩ := e
    obtain ⟨hk, hv, hrest⟩ := hwell
    obtain ⟨key, htext, hne⟩ := hother (k, v) List.mem_cons_self
    rw [encodeEntries, List.append_assoc] at hahead
    have hkahead := (List.prefix_append k.encode _).trans hahead
    have hkc := pos_add_length_le hc hkahead
    have hvall := prefix_rest_advance hahead
    have hvahead := (List.prefix_append v.encode _).trans hvall
    have hvc := pos_add_length_le (c := c.advance k.encode.length) hkc hvahead
    have hlater := prefix_rest_advance hvall
    have hih : ∀ time, ∃ time', readCtx (before.length + n)
        ((c.advance k.encode.length).advance v.encode.length) none time =
          readCtx n (c.advance (encodeEntries ((k, v) :: before)).length) none time' := by
      intro time
      obtain ⟨time', hrun⟩ := ih (c := (c.advance _).advance _) hvc hlater
        hrest (fun e he => hother e (List.mem_cons_of_mem _ he))
        (fun e he => htime e (List.mem_cons_of_mem _ he))
      refine ⟨time', ?_⟩
      rw [hrun, Cursor.advance_advance, Cursor.advance_advance, encodeEntries, List.length_append,
        List.length_append, Nat.add_assoc]
    have hstr := consumes_str hk htext c hc hkahead
    rw [List.length_cons, Nat.add_right_comm, readCtx]
    simp only [hstr, if_neg hne]
    by_cases hkey : key = "time"
    · obtain ⟨t, ht⟩ := Option.ne_none_iff_exists'.mp
        (htime (k, v) List.mem_cons_self (by rw [htext, hkey]))
      have hvalue := consumes_str hv ht _ hkc hvahead
      simp only [if_pos hkey, hvalue, Option.isSome_none, Bool.false_eq_true, if_false]
      exact hih (some t)
    · have hvalue := consumes_skip v hv _ hkc hvahead
      simp only [if_neg hkey, hvalue, Option.isSome_none, Bool.false_and, Bool.false_eq_true,
        if_false]
      exact hih time

/-- **Once read, the height stays**, wherever the entries behind it are cut. -/
theorem readCtx_after {after : List (Value × Value)} (more : Bytes) (hc : c.pos ≤ c.buf.length)
    (hpart : c.rest <+: encodeEntries after ++ more) (hwell : EntriesWellFormed after)
    (hother : ∀ e ∈ after, ∃ k, e.1.text = some k ∧ k ≠ "height")
    (htime : ∀ e ∈ after, e.1.text = some "time" → e.2.text ≠ none) :
    (readCtx after.length c (some h) time).1 = some h := by
  induction after generalizing c time with
  | nil => rfl
  | cons e after ih =>
    obtain ⟨k, v⟩ := e
    obtain ⟨hk, hv, hrest⟩ := hwell
    obtain ⟨key, htext, hne⟩ := hother (k, v) List.mem_cons_self
    rw [encodeEntries, List.append_assoc, List.append_assoc] at hpart
    rw [List.length_cons, readCtx]
    rcases (consumes_str hk htext).none_or_some safeSteps.str hc hpart with
      hnone | ⟨hsome, hkc, hvpart⟩
    · simp only [hnone]
    · have hih : ∀ time, (c.advance k.encode.length).pos + v.encode.length ≤
            (c.advance k.encode.length).buf.length →
          ((c.advance k.encode.length).advance v.encode.length).rest <+:
            encodeEntries after ++ more →
          (readCtx after.length ((c.advance k.encode.length).advance v.encode.length)
            (some h) time).1 = some h := fun time hvc hlater =>
        ih hvc hlater hrest (fun e he => hother e (List.mem_cons_of_mem _ he))
          (fun e he => htime e (List.mem_cons_of_mem _ he))
      simp only [hsome, if_neg hne]
      by_cases hkey : key = "time"
      · obtain ⟨t, ht⟩ := Option.ne_none_iff_exists'.mp
          (htime (k, v) List.mem_cons_self (by rw [htext, hkey]))
        rcases (consumes_str hv ht).none_or_some safeSteps.str hkc hvpart with
          hnone | ⟨hvalue, -, -⟩
        · simp only [if_pos hkey, hnone]
        · simp only [if_pos hkey, hvalue, Option.isSome_some, if_true]
      · rcases (consumes_skip v hv).none_or_some safeSteps.skip hkc hvpart with
          hnone | ⟨hvalue, hvc, hlater⟩
        · simp only [if_neg hkey, hnone]
        · simp only [if_neg hkey, hvalue]
          split
          · rfl
          · exact hih time hvc hlater

end Ctx

/-- The map with the height is read, cut or not. -/
theorem readCtx_holder {v : Value} {h : ℕ} {ctx : Holder "height" v} {c : Cursor UInt8}
    (more : Bytes) (hwell : ctx.toValue.WellFormed) (hv : v.unsigned = some h)
    (hkeys : TextKeys ctx.entries)
    (htime : ∀ e ∈ ctx.entries, e.1.text = some "time" → e.2.text ≠ none)
    (hc : c.pos ≤ c.buf.length)
    (hreach : encodeEntries ctx.before ++ (ctx.keyValue.encode ++ v.encode) <+: c.rest)
    (hpart : c.rest <+: encodeEntries ctx.before ++ (ctx.keyValue.encode ++ v.encode) ++
      (encodeEntries ctx.after ++ more)) :
    (readCtx ctx.entries.length c none none).1 = some h := by
  obtain ⟨-, hbefore, hkey, hvalue, hafter⟩ := Holder.wellFormed_parts hwell
  obtain ⟨hotherBefore, hotherAfter⟩ := Holder.other_keys hkeys
  have hlength : ctx.entries.length = ctx.before.length + (ctx.after.length + 1) := by
    rw [Holder.entries, List.length_append, List.length_cons]
  have hbeforeAhead := (List.prefix_append (encodeEntries ctx.before) _).trans hreach
  have hc₁ := pos_add_length_le hc hbeforeAhead
  have hreach₁ := prefix_rest_advance hreach
  have hkeyAhead := (List.prefix_append ctx.keyValue.encode _).trans hreach₁
  have hc₂ := pos_add_length_le (c := c.advance _) hc₁ hkeyAhead
  have hvalueAhead := prefix_rest_advance hreach₁
  have hc₃ := pos_add_length_le (c := (c.advance _).advance _) hc₂ hvalueAhead
  obtain ⟨time, hrun⟩ : ∃ time, readCtx (ctx.before.length + (ctx.after.length + 1)) c none none =
      readCtx (ctx.after.length + 1) (c.advance (encodeEntries ctx.before).length) none time :=
    readCtx_before hc hbeforeAhead hbefore hotherBefore fun e he =>
      htime e (List.mem_append_left _ he)
  rw [hlength, hrun, readCtx]
  simp only [consumes_str hkey ctx.isKey _ hc₁ hkeyAhead, if_true,
    consumes_uint hvalue hv _ hc₂ hvalueAhead]
  split
  · rfl
  · refine readCtx_after more hc₃ ?_ hafter hotherAfter fun e he =>
      htime e (List.mem_append_right _ (List.mem_cons_of_mem _ he))
    obtain ⟨behind, hbehind⟩ := hreach
    rw [← hbehind, List.prefix_append_right_inj] at hpart
    rw [Cursor.advance_advance, Cursor.advance_advance, Cursor.rest_advance, ← hbehind,
      ← List.length_append, ← List.length_append, List.drop_left]
    exact hpart

/-! ## The whole file -/

/-- A document with the height in its place: the maps on the way have distinct texts for
keys, below the outermost, and a time is text. -/
structure Layout where
  v : Value
  height : ℕ
  ctx : Holder "height" v
  locus : Holder "ctx" ctx.toValue
  exchange : Holder "locus" locus.toValue
  doc : Holder "exchange" exchange.toValue
  wellFormed : doc.toValue.WellFormed
  unsigned : v.unsigned = some height
  exchangeKeys : TextKeys exchange.entries
  locusKeys : TextKeys locus.entries
  ctxKeys : TextKeys ctx.entries
  timeText : ∀ e ∈ ctx.entries, e.1.text = some "time" → e.2.text ≠ none

namespace Layout

/-- The whole document. -/
def encode (l : Layout) : Bytes := l.doc.toValue.encode

/-- The document up to the height, and with it. -/
def upToHeight (l : Layout) : Bytes :=
  l.doc.upTo ++ (l.exchange.upTo ++ (l.locus.upTo ++ (l.ctx.upTo ++ l.v.encode)))

/-- The keys of the outermost map before `exchange` are other texts. -/
def RootKeys (l : Layout) : Prop :=
  ∀ e ∈ l.doc.before, ∃ k, e.1.text = some k ∧ k ≠ "exchange"

/-- The height is read, whatever else is in the file and wherever it is cut behind the
height. -/
theorem readAbciStateHeight_eq {l : Layout} (hroot : l.RootKeys) {content : Bytes}
    (hfile : content <+: l.encode) (hreach : l.upToHeight <+: content.take headBytes) :
    (readAbciStateHeight (some content)).map Prod.fst = some l.height := by
  obtain ⟨v, h, ctx, locus, exchange, doc, hdoc, hv, hexchange, hlocus, hctx, htime⟩ := l
  obtain ⟨-, -, -, hexchangeWell, -⟩ := Holder.wellFormed_parts hdoc
  obtain ⟨-, -, -, hlocusWell, -⟩ := Holder.wellFormed_parts hexchangeWell
  obtain ⟨-, -, -, hctxWell, -⟩ := Holder.wellFormed_parts hlocusWell
  have hfits := (Holder.wellFormed_parts hctxWell).1
  -- the way to the entries with the height
  have hway : Consumes enterCtx (doc.upTo ++ (exchange.upTo ++ (locus.upTo ++
      head 0x80 0xdd ctx.format ctx.entries.length))) ctx.entries.length := by
    refine (Holder.consumes_enter hdoc hroot).bind ?_
    refine (Holder.consumes_enter hexchangeWell (Holder.other_keys hexchange).1).bind ?_
    refine (Holder.consumes_enter hlocusWell (Holder.other_keys hlocus).1).bind ?_
    exact consumes_mapLen hfits
  generalize hwayBytes : doc.upTo ++ (exchange.upTo ++ (locus.upTo ++
    head 0x80 0xdd ctx.format ctx.entries.length)) = way at hway
  have hread : way ++ (encodeEntries ctx.before ++ (ctx.keyValue.encode ++ v.encode)) <+:
      content.take headBytes := by
    rw [← hwayBytes]
    simpa only [upToHeight, Holder.upTo, List.append_assoc] using hreach
  have hwhole : doc.toValue.encode =
      way ++ (encodeEntries ctx.before ++ (ctx.keyValue.encode ++ v.encode) ++
        (encodeEntries ctx.after ++ (encodeEntries locus.after ++
          (encodeEntries exchange.after ++ encodeEntries doc.after)))) := by
    rw [← hwayBytes]
    simp only [Holder.encode_toValue, Holder.upTo, List.append_assoc]
  have hpart : content.take headBytes <+: doc.toValue.encode :=
    (List.take_prefix headBytes content).trans hfile
  have hstart : (⟨content.take headBytes, 0⟩ : Cursor UInt8).rest = content.take headBytes :=
    List.drop_zero
  have hahead : way <+: (⟨content.take headBytes, 0⟩ : Cursor UInt8).rest := by
    rw [hstart]
    exact (List.prefix_append way _).trans hread
  have hrun := hway ⟨content.take headBytes, 0⟩ (Nat.zero_le _) hahead
  have hctxRead := readCtx_holder (encodeEntries locus.after ++
      (encodeEntries exchange.after ++ encodeEntries doc.after)) hctxWell hv hctx htime
    (pos_add_length_le (Nat.zero_le _) hahead)
    (prefix_rest_advance (by rwa [hstart])) (by
      obtain ⟨behind, hbehind⟩ := hahead
      rw [hstart] at hbehind
      rw [hwhole, ← hbehind, List.prefix_append_right_inj] at hpart
      rw [Cursor.rest_advance, hstart, ← hbehind, List.drop_left]
      exact hpart)
  rw [readAbciStateHeight, Option.bind_some]
  simp only [hrun, hctxRead]
  rfl

end Layout

/-- **The height is read from any layout.**  A value is stepped over exactly, whatever is
behind it.  On any bytes, stepping over a value ends by itself, and every step of the
reader stays in the buffer.  So the height is read from every document that has it in its
place, cut anywhere behind it. -/
theorem reads_any_layout :
    (∀ v : Value, v.WellFormed → ∀ before behind : Bytes,
      skip ⟨before ++ v.encode ++ behind, before.length⟩ =
        some ((), ⟨before ++ v.encode ++ behind, before.length + v.encode.length⟩)) ∧
    (∀ c : Cursor UInt8, c.pos ≤ c.buf.length → skip c = skipStep skip c ∧
      ∀ c', skip c = some ((), c') →
        c'.buf = c.buf ∧ c.pos < c'.pos ∧ c'.pos ≤ c.buf.length) ∧
    SafeSteps ∧
    ∀ l : Layout, l.RootKeys → ∀ content : Bytes, content <+: l.encode →
      l.upToHeight <+: content.take headBytes →
        (readAbciStateHeight (some content)).map Prod.fst = some l.height := by
  refine ⟨fun v hv before behind => ?_, fun c hc => ⟨skip_eq hc, fun c' h => ?_⟩, safeSteps,
    fun l hroot content hfile hreach => l.readAbciStateHeight_eq hroot hfile hreach⟩
  · refine consumes_skip v hv _ ?_ ?_
    · simp only [List.length_append]
      omega
    · rw [Cursor.rest, List.append_assoc, List.drop_left]
      exact List.prefix_append _ _
  · exact within_skip c hc () c' h

end HlOrderbook

namespace HlOrderbook

open MsgPack

section Example

/-- A short text. -/
def shortText (s : String) : Value := .str none s.toUTF8.toList

/-- The state file, but for what else stands in the outermost map. -/
def stateHolder (before : List (Value × Value)) : Holder "exchange" (Value.map none
    [(shortText "locus", .map (some .w16) [(shortText "ctx",
      .map none [(shortText "round", .ext .w8 1 [7]), (shortText "height", .uint .w32 1149510000),
        (shortText "time", shortText "2026-09-16")])])]) :=
  ⟨none, before, shortText "exchange", [], by decide +kernel⟩

/-- The layout of the state file. -/
def stateLayout (before : List (Value × Value)) (hwell : (stateHolder before).toValue.WellFormed) :
    Layout where
  v := .uint .w32 1149510000
  height := 1149510000
  ctx := ⟨none, [(shortText "round", .ext .w8 1 [7])], shortText "height",
    [(shortText "time", shortText "2026-09-16")], by decide +kernel⟩
  locus := ⟨some .w16, [], shortText "ctx", [], by decide +kernel⟩
  exchange := ⟨none, [], shortText "locus", [], by decide +kernel⟩
  doc := stateHolder before
  wellFormed := hwell
  unsigned := rfl
  exchangeKeys := ⟨by decide +kernel, by decide +kernel⟩
  locusKeys := ⟨by decide +kernel, by decide +kernel⟩
  ctxKeys := ⟨by decide +kernel, by decide +kernel⟩
  timeText := by decide +kernel

/-- Another value before the state. -/
def otherEntry : Value × Value :=
  (shortText "a", .array none [.nil, .map none [(.negFixint 1, .float64 0)]])

/-- A state file, and one with a number for a key. -/
def textKeyLayout : Layout := stateLayout [otherEntry] (by decide +kernel)

def numberKeyLayout : Layout := stateLayout [(.posFixint 1, .nil)] (by decide +kernel)

theorem reads_any_layout_state :
    (readAbciStateHeight (some (textKeyLayout.encode.take 70))).map Prod.fst = some 1149510000 ∧
      70 < textKeyLayout.encode.length := by
  refine ⟨?_, by decide +kernel⟩
  refine reads_any_layout.2.2.2 textKeyLayout ?_ _ (List.take_prefix _ _) (by decide +kernel)
  intro e he
  obtain rfl := List.mem_singleton.mp he
  exact ⟨"a", by decide +kernel, by decide⟩

/-- A key of the outermost map that is no text ends the reading, though the height is in
its place. -/
theorem readAbciStateHeight_numberKey :
    numberKeyLayout.upToHeight <+: numberKeyLayout.encode.take headBytes ∧
      readAbciStateHeight (some numberKeyLayout.encode) = none := by
  decide +kernel

end Example

end HlOrderbook
