import Mathlib.Data.List.Basic
import Mathlib.Tactic.Basic

/-!
# Reading with a cursor

A reader goes through a buffer from a position on, and may refuse.  What a reader makes
of one encoding, whatever stands before and behind it, composes.

## Main definitions

* `Cursor`, `Cursor.Reader` — the position in a buffer, and what reads from there.
* `Cursor.Reader.Consumes` — a reader takes exactly these elements.
* `Cursor.Reader.Within` — a reader stays in the buffer, and takes something or stays.
* `Cursor.Reader.Stable` — what was read does not depend on what comes later.
* `Cursor.Reader.Safe` — both.
-/

set_option autoImplicit false

namespace HlOrderbook

/-- A position in a buffer. -/
structure Cursor (A : Type) where
  buf : List A
  pos : ℕ
  deriving DecidableEq

namespace Cursor

variable {A : Type}

/-- What is ahead. -/
def rest (c : Cursor A) : List A := c.buf.drop c.pos

/-- Go on. -/
def advance (c : Cursor A) (n : ℕ) : Cursor A := { c with pos := c.pos + n }

@[simp] theorem advance_buf (c : Cursor A) (n : ℕ) : (c.advance n).buf = c.buf := rfl

@[simp] theorem advance_pos (c : Cursor A) (n : ℕ) : (c.advance n).pos = c.pos + n := rfl

@[simp] theorem advance_zero (c : Cursor A) : c.advance 0 = c := rfl

@[simp] theorem advance_advance (c : Cursor A) (m n : ℕ) :
    (c.advance m).advance n = c.advance (m + n) := by
  rw [advance, advance, advance, Nat.add_assoc]

theorem rest_advance (c : Cursor A) (n : ℕ) : (c.advance n).rest = c.rest.drop n := by
  rw [rest, rest, List.drop_drop]
  rfl

/-- A reader: it refuses, or gives a result and where it stopped. -/
def Reader (A R : Type) : Type := Cursor A → Option (R × Cursor A)

namespace Reader

instance monad : Monad (Reader A) where
  pure r := fun c => some (r, c)
  bind p f := fun c =>
    match p c with
    | none => none
    | some (r, c) => f r c

/-- Refuse. -/
def fail {R : Type} : Reader A R := fun _ => none

/-- One element. -/
def next : Reader A A := fun c => c.buf[c.pos]?.map fun a => (a, c.advance 1)

/-- So many elements. -/
def take (n : ℕ) : Reader A (List A) := fun c =>
  if c.pos + n ≤ c.buf.length then some ((c.buf.drop c.pos).take n, c.advance n) else none

/-- So many times. -/
def times : ℕ → Reader A Unit → Reader A Unit
  | 0, _ => pure ()
  | n + 1, p => do
    p
    times n p

variable {R S : Type} {p : Reader A R} {f : R → Reader A S} {c c' : Cursor A} {r : R} {s : S}

theorem bind_of_some (h : p c = some (r, c')) : (p >>= f) c = f r c' := by
  show (match p c with
    | none => none
    | some (r, c) => f r c) = _
  rw [h]

theorem bind_of_none (h : p c = none) : (p >>= f) c = none := by
  show (match p c with
    | none => none
    | some (r, c) => f r c) = _
  rw [h]

theorem bind_eq_some : (p >>= f) c = some (s, c') ↔
    ∃ r c₁, p c = some (r, c₁) ∧ f r c₁ = some (s, c') := by
  cases h : p c with
  | none => simp [bind_of_none h]
  | some x =>
    obtain ⟨r, c₁⟩ := x
    rw [bind_of_some h]
    simp

/-! ### What is taken -/

/-- Wherever these elements are ahead, the reader takes exactly them. -/
def Consumes (p : Reader A R) (taken : List A) (r : R) : Prop :=
  ∀ c : Cursor A, c.pos ≤ c.buf.length → taken <+: c.rest →
    p c = some (r, c.advance taken.length)

theorem pos_add_length_le {xs : List A} (hc : c.pos ≤ c.buf.length) (h : xs <+: c.rest) :
    c.pos + xs.length ≤ c.buf.length := by
  have hlen := h.length_le
  rw [rest, List.length_drop] at hlen
  omega

theorem prefix_rest_advance {xs ys : List A} (h : xs ++ ys <+: c.rest) :
    ys <+: (c.advance xs.length).rest := by
  obtain ⟨zs, hzs⟩ := h
  rw [rest_advance, ← hzs, List.append_assoc, List.drop_left]
  exact List.prefix_append ys zs

theorem Consumes.pure (r : R) : Consumes (pure r : Reader A R) [] r := fun _ _ _ => rfl

/-- **One after the other.** -/
theorem Consumes.bind {xs ys : List A} (hp : Consumes p xs r) (hf : Consumes (f r) ys s) :
    Consumes (p >>= f) (xs ++ ys) s := by
  intro c hc hahead
  have hfirst := (List.prefix_append xs ys).trans hahead
  rw [bind_of_some (hp c hc hfirst)]
  rw [hf _ (pos_add_length_le hc hfirst) (prefix_rest_advance hahead), advance_advance,
    List.length_append]

theorem Consumes.map {xs : List A} (g : R → S) (hp : Consumes p xs r) :
    Consumes (p >>= fun r => Pure.pure (g r)) xs (g r) := by
  have h := hp.bind (f := fun r => Pure.pure (g r)) (Consumes.pure (g r))
  rwa [List.append_nil] at h

theorem consumes_next (a : A) : Consumes next [a] a := by
  intro c hc hahead
  obtain ⟨zs, hzs⟩ := hahead
  have hget : c.buf[c.pos]? = some a := by
    have h := congrArg (·[0]?) hzs
    simpa [rest, List.getElem?_drop] using h.symm
  rw [next, hget]
  rfl

theorem consumes_take {n : ℕ} {xs : List A} (h : xs.length = n) : Consumes (take n) xs xs := by
  intro c hc hahead
  have hle := pos_add_length_le hc hahead
  obtain ⟨zs, hzs⟩ := hahead
  rw [rest] at hzs
  rw [take, ← h, if_pos hle, ← hzs, List.take_left]

/-- Some elements one after the other, taken by as many turns. -/
theorem Consumes.times {p : Reader A Unit} {parts : List (List A)}
    (h : ∀ part ∈ parts, Consumes p part ()) :
    Consumes (times parts.length p) parts.flatten () := by
  induction parts with
  | nil => exact Consumes.pure ()
  | cons part parts ih =>
    exact (h part List.mem_cons_self).bind
      (ih fun part hpart => h part (List.mem_cons_of_mem _ hpart))

/-! ### Staying in the buffer -/

/-- The reader stays in the same buffer, and goes on at least so far. -/
def Within (least : ℕ) (p : Reader A R) : Prop :=
  ∀ c : Cursor A, c.pos ≤ c.buf.length → ∀ r c', p c = some (r, c') →
    c'.buf = c.buf ∧ c.pos + least ≤ c'.pos ∧ c'.pos ≤ c.buf.length

theorem within_pure (r : R) : Within 0 (pure r : Reader A R) := by
  rintro c hc r' c' ⟨⟩
  exact ⟨rfl, Nat.le_refl _, hc⟩

theorem within_fail : Within 0 (fail : Reader A R) := by
  rintro c hc r c' ⟨⟩

theorem Within.bind {m n : ℕ} (hp : Within m p) (hf : ∀ r, Within n (f r)) :
    Within (m + n) (p >>= f) := by
  intro c hc s c' h
  obtain ⟨r, c₁, h₁, h₂⟩ := bind_eq_some.mp h
  obtain ⟨hbuf₁, hpos₁, hle₁⟩ := hp c hc r c₁ h₁
  obtain ⟨hbuf₂, hpos₂, hle₂⟩ := hf r c₁ (by rw [hbuf₁]; exact hle₁) s c' h₂
  rw [hbuf₁] at hbuf₂ hle₂
  exact ⟨hbuf₂, by omega, hle₂⟩

theorem Within.mono {m n : ℕ} (hp : Within m p) (hle : n ≤ m) : Within n p := by
  intro c hc r c' h
  obtain ⟨hbuf, hpos, hend⟩ := hp c hc r c' h
  exact ⟨hbuf, by omega, hend⟩

theorem Within.ite {n : ℕ} {P : Prop} [Decidable P] {q : Reader A R} (hp : Within n p)
    (hq : Within n q) : Within n (if P then p else q) := by
  by_cases h : P
  · rwa [if_pos h]
  · rwa [if_neg h]

theorem within_next : Within 1 (next : Reader A A) := by
  intro c hc r c' h
  obtain ⟨a, ha, hc'⟩ := Option.map_eq_some_iff.mp h
  have hlt := (List.getElem?_eq_some_iff.mp ha).1
  cases hc'
  exact ⟨rfl, Nat.le_refl _, hlt⟩

theorem within_take (n : ℕ) : Within n (take n : Reader A (List A)) := by
  intro c hc r c' h
  rw [take] at h
  split at h
  · next hle =>
    cases h
    exact ⟨rfl, Nat.le_refl _, hle⟩
  · cases h

theorem Within.times {p : Reader A Unit} (hp : Within 0 p) (n : ℕ) : Within 0 (times n p) := by
  induction n with
  | zero => exact within_pure ()
  | succ n ih => exact hp.bind fun _ => ih

/-- What follows may agree only where the first reader stops. -/
theorem bind_congr {n : ℕ} {g : R → Reader A S} (hp : Within n p) (hc : c.pos ≤ c.buf.length)
    (h : ∀ (r : R) (c' : Cursor A), c'.buf = c.buf → c.pos + n ≤ c'.pos →
      c'.pos ≤ c'.buf.length → f r c' = g r c') : (p >>= f) c = (p >>= g) c := by
  cases hpc : p c with
  | none => rw [bind_of_none hpc, bind_of_none hpc]
  | some x =>
    obtain ⟨r, c₁⟩ := x
    obtain ⟨hbuf, hpos, hend⟩ := hp c hc r c₁ hpc
    rw [bind_of_some hpc, bind_of_some hpc]
    exact h r c₁ hbuf hpos (by rwa [hbuf])

/-- Turns that agree from here on. -/
theorem times_congr {p q : Reader A Unit} (hp : Within 0 p) (n : ℕ) (hc : c.pos ≤ c.buf.length)
    (h : ∀ c' : Cursor A, c'.buf = c.buf → c.pos ≤ c'.pos → c'.pos ≤ c'.buf.length →
      p c' = q c') : times n p c = times n q c := by
  induction n generalizing c with
  | zero => rfl
  | succ n ih =>
    have hfirst := h c rfl (Nat.le_refl _) hc
    have hsame : (q >>= fun _ => times n q) c = (p >>= fun _ => times n q) c := by
      cases hpc : p c with
      | none => rw [bind_of_none hpc, bind_of_none (hfirst ▸ hpc)]
      | some x => rw [bind_of_some hpc, bind_of_some (hfirst ▸ hpc)]
    rw [times, times, hsame]
    exact bind_congr hp hc fun r c' hbuf hpos hend =>
      ih hend fun c'' hbuf' hpos' hend' => h c'' (hbuf'.trans hbuf) (by omega) hend'

/-! ### Reading more -/

/-- What the first reader reads, the second reads as well. -/
def Extends (p q : Reader A R) : Prop := ∀ c x, p c = some x → q c = some x

theorem Extends.refl (p : Reader A R) : Extends p p := fun _ _ h => h

theorem Extends.bind {q : Reader A R} {g : R → Reader A S} (hp : Extends p q)
    (hf : ∀ r, Extends (f r) (g r)) : Extends (p >>= f) (q >>= g) := by
  intro c x h
  obtain ⟨s, c'⟩ := x
  obtain ⟨r, c₁, h₁, h₂⟩ := bind_eq_some.mp h
  exact bind_eq_some.mpr ⟨r, c₁, hp c _ h₁, hf r c₁ _ h₂⟩

theorem Extends.times {p q : Reader A Unit} (h : Extends p q) (n : ℕ) :
    Extends (times n p) (times n q) := by
  induction n with
  | zero => exact Extends.refl _
  | succ n ih => exact h.bind fun _ => ih

/-! ### Later elements -/

/-- What was read stays so when the buffer grows. -/
def Stable (p : Reader A R) : Prop :=
  ∀ (buf later : List A) (pos : ℕ) (r : R) (c' : Cursor A), p ⟨buf, pos⟩ = some (r, c') →
    c'.buf = buf ∧ p ⟨buf ++ later, pos⟩ = some (r, ⟨buf ++ later, c'.pos⟩)

theorem stable_pure (r : R) : Stable (pure r : Reader A R) := by
  rintro buf later pos r' c' ⟨⟩
  exact ⟨rfl, rfl⟩

theorem stable_fail : Stable (fail : Reader A R) := by
  rintro buf later pos r c' ⟨⟩

theorem Stable.bind (hp : Stable p) (hf : ∀ r, Stable (f r)) : Stable (p >>= f) := by
  intro buf later pos s c' h
  obtain ⟨r, c₁, h₁, h₂⟩ := bind_eq_some.mp h
  obtain ⟨hbuf₁, hp₁⟩ := hp buf later pos r c₁ h₁
  obtain ⟨buf₁, pos₁⟩ := c₁
  cases hbuf₁
  obtain ⟨hbuf₂, hp₂⟩ := hf r _ later pos₁ s c' h₂
  exact ⟨hbuf₂, bind_eq_some.mpr ⟨r, _, hp₁, hp₂⟩⟩

theorem Stable.ite {P : Prop} [Decidable P] {q : Reader A R} (hp : Stable p) (hq : Stable q) :
    Stable (if P then p else q) := by
  by_cases h : P
  · rwa [if_pos h]
  · rwa [if_neg h]

theorem stable_next : Stable (next : Reader A A) := by
  intro buf later pos r c' h
  obtain ⟨a, ha, hc'⟩ := Option.map_eq_some_iff.mp h
  have hget : (buf ++ later)[pos]? = some a := by
    rw [List.getElem?_append_left (List.getElem?_eq_some_iff.mp ha).1]
    exact ha
  cases hc'
  refine ⟨rfl, ?_⟩
  rw [next, hget]
  rfl

theorem stable_take (n : ℕ) : Stable (take n : Reader A (List A)) := by
  intro buf later pos r c' h
  rw [take] at h
  split at h
  · next hle =>
    cases h
    have hwithin : pos + n ≤ buf.length := hle
    have hmore : pos + n ≤ (buf ++ later).length := by
      rw [List.length_append]
      omega
    have hpart : ((buf ++ later).drop pos).take n = (buf.drop pos).take n := by
      rw [List.drop_append_of_le_length (by omega),
        List.take_append_of_le_length (by rw [List.length_drop]; omega)]
    refine ⟨rfl, ?_⟩
    rw [take, if_pos hmore]
    simp only [hpart]
    rfl
  · cases h

theorem Stable.times {p : Reader A Unit} (hp : Stable p) (n : ℕ) : Stable (times n p) := by
  induction n with
  | zero => exact stable_pure ()
  | succ n ih => exact hp.bind fun _ => ih

/-- The reader stays in the buffer, goes on at least so far, and what it reads does not
depend on what comes later. -/
structure Safe (least : ℕ) (p : Reader A R) : Prop where
  within : Within least p
  stable : Stable p

/-- **A part is refused**: where the buffer ends before the elements do, nothing is read. -/
theorem Consumes.eq_none {taken : List A} {least : ℕ} (hp : Consumes p taken r)
    (hs : Safe least p) (hc : c.pos ≤ c.buf.length) (hpart : c.rest <+: taken)
    (hshort : c.rest.length < taken.length) : p c = none := by
  cases h : p c with
  | none => rfl
  | some x =>
    obtain ⟨r', c'⟩ := x
    obtain ⟨buf, pos⟩ := c
    obtain ⟨later, rfl⟩ := hpart
    obtain ⟨hbuf, hstable⟩ := hs.stable buf later pos r' c' h
    have hwhole : (Cursor.rest ⟨buf ++ later, pos⟩) = Cursor.rest ⟨buf, pos⟩ ++ later :=
      List.drop_append_of_le_length hc
    have hall := hp ⟨buf ++ later, pos⟩ (by rw [List.length_append]; exact Nat.le_add_right_of_le hc)
      (hwhole ▸ List.prefix_refl _)
    have hend := (hs.within ⟨buf, pos⟩ hc r' c' h).2.2
    rw [hall] at hstable
    have hpos := congrArg (fun c : Cursor A => c.pos) (Prod.mk.inj (Option.some.inj hstable)).2
    rw [rest, List.length_append, List.length_drop] at hshort
    simp only [advance_pos, List.length_append, rest, List.length_drop] at hpos
    simp only at hc hend
    omega

/-- **The buffer may end anywhere**: the elements are taken as a whole, or refused. -/
theorem Consumes.none_or_some {xs ys : List A} {least : ℕ} (hp : Consumes p xs r)
    (hs : Safe least p) (hc : c.pos ≤ c.buf.length) (hpart : c.rest <+: xs ++ ys) :
    p c = none ∨ p c = some (r, c.advance xs.length) ∧
      c.pos + xs.length ≤ c.buf.length ∧ (c.advance xs.length).rest <+: ys := by
  rcases List.prefix_or_prefix_of_prefix hpart (List.prefix_append xs ys) with hshort | hlong
  · rcases Nat.lt_or_ge c.rest.length xs.length with hlt | hge
    · exact Or.inl (hp.eq_none hs hc hshort hlt)
    · have heq : c.rest = xs := hshort.eq_of_length (Nat.le_antisymm hshort.length_le hge)
      have hall : xs <+: c.rest := heq ▸ List.prefix_refl c.rest
      refine Or.inr ⟨hp c hc hall, pos_add_length_le hc hall, ?_⟩
      rw [rest_advance, heq, List.drop_length]
      exact List.nil_prefix
  · refine Or.inr ⟨hp c hc hlong, pos_add_length_le hc hlong, ?_⟩
    obtain ⟨zs, hzs⟩ := hlong
    rw [← hzs, List.prefix_append_right_inj] at hpart
    rwa [rest_advance, ← hzs, List.drop_left]

end Reader

end Cursor

end HlOrderbook
