import HlOrderbook.L4Cache

/-!
# How old an answer may be

A request is answered with a body that it built itself or that it found in the cache.  Either way
the book was read for its very key, and not long before the request came.  Few bodies are built
at a time, few are kept, and every request comes to its answer.

When a book is read, and for which key, is told of a body by two parameters: a body stands for
one reading of the book, and is not only its bytes, which two readings may share.

## Main definitions

* `L4Serving.Turn` — what a request does in one step.
* `L4Serving.Timed` — how long building and compressing take.

## Main results

* `answered_aged` — where an answer comes from, and how old it is.
* `requests_answered` — how much is built and kept, and how a request comes to its answer.
-/

set_option autoImplicit false
set_option linter.unusedSectionVars false

namespace HlOrderbook

variable {B G : Type}

/-- How many steps a request may still take. -/
def L4Stage.turnsLeft : L4Stage B G → ℕ
  | .lookup => 7
  | .queued => 6
  | .admitted => 5
  | .building => 4
  | .built _ => 3
  | .served _ => 2
  | .compressing _ => 1
  | .answered _ => 0

def L4Stage.isAnswered : L4Stage B G → Bool
  | .answered _ => true
  | _ => false

/-- The body that is entered next. -/
def L4Stage.toEnter : L4Stage B G → Option B
  | .built body => some body
  | _ => none

/-- The body whose compression is attached next. -/
def L4Stage.toCompress : L4Stage B G → Option B
  | .compressing body => some body
  | _ => none

/-- Whether a request takes a step. -/
def L4Op.isTurnOf (i : ℕ) : L4Op B → Bool
  | .advance j => j = i
  | .read j _ => j = i
  | .giveUp j => j = i
  | _ => false

def L4Op.isArrival : L4Op B → Bool
  | .arrive _ _ => true
  | _ => false

namespace L4SnapshotCache

variable {cache : L4SnapshotCache B G} {now : ℕ} {key key' : L4Key} {body : B} {gz : G}
  {entry : L4CacheEntry B G}

/-- What is returned is that of a fresh entry. -/
theorem entry_of_get {gz : Option G} (h : cache.get now key = some (body, gz)) :
    ∃ entry, cache.entries[key]? = some entry ∧ now < entry.builtAt + l4SnapshotCacheTtl ∧
      entry.body = body ∧ entry.gzipped = gz := by
  obtain ⟨entry, hentry, h⟩ := Option.bind_eq_some_iff.mp h
  obtain ⟨hfresh, h⟩ := Option.ite_none_right_eq_some.mp h
  simp only [Option.some.injEq, Prod.mk.injEq] at h
  simp only [L4CacheEntry.isFresh, decide_eq_true_eq] at hfresh
  exact ⟨entry, hentry, by omega, h.1, h.2⟩

theorem entry_of_swept (h : (cache.swept now).entries[key]? = some entry) :
    cache.entries[key]? = some entry := by
  rw [swept] at h
  split at h
  · rw [Std.ExtTreeMap.getElem?_filter'] at h
    exact (Option.filter_eq_some_iff.mp h).1
  · exact h

/-- What is in the cache was there, or is what was entered. -/
theorem entry_of_insert (h : (cache.insert now key body).entries[key']? = some entry) :
    cache.entries[key']? = some entry ∨ (key = key' ∧ entry = ⟨now, body, none⟩) := by
  rw [insert] at h
  split at h
  · rw [Std.ExtTreeMap.getElem?_insert] at h
    split at h
    · next hkey =>
      cases h
      exact Or.inr ⟨Std.LawfulEqOrd.compare_eq_iff_eq.mp hkey, rfl⟩
    · exact Or.inl (entry_of_swept h)
  · exact Or.inl (entry_of_swept h)

/-- What is in the cache was there, but for the compression. -/
theorem entry_of_setGzipped (h : (cache.setGzipped key gz).entries[key']? = some entry) :
    cache.entries[key']? = some entry ∨ (key = key' ∧
      ∃ old, cache.entries[key']? = some old ∧ entry = { old with gzipped := some gz }) := by
  rw [setGzipped] at h
  split at h
  · next old hold =>
    rw [Std.ExtTreeMap.getElem?_insert] at h
    split at h
    · next hkey =>
      cases h
      obtain rfl := Std.LawfulEqOrd.compare_eq_iff_eq.mp hkey
      exact Or.inr ⟨rfl, old, hold, rfl⟩
    · exact Or.inl h
  · exact Or.inl h

/-- **No more bodies are kept than may be.** -/
theorem size_insert_le (now : ℕ) (key : L4Key) (body : B)
    (h : cache.entries.size ≤ l4SnapshotCacheMaxEntries) :
    (cache.insert now key body).entries.size ≤ l4SnapshotCacheMaxEntries := by
  rw [insert]
  split
  · next hroom =>
    have := Std.ExtTreeMap.size_insert_le (t := (cache.swept now).entries) (k := key)
      (v := ⟨now, body, none⟩)
    simp only
    omega
  · next hfull =>
    rw [swept] at hfull ⊢
    split
    · exact Std.ExtTreeMap.size_filter_le_size.trans h
    · exact h

theorem size_setGzipped (key : L4Key) (gz : G) :
    (cache.setGzipped key gz).entries.size = cache.entries.size := by
  rw [setGzipped]
  split
  · next old hold =>
    have hmem : cache.entries.contains key = true := by
      rw [Std.ExtTreeMap.contains_eq_isSome_getElem?, hold]
      rfl
    simp only [Std.ExtTreeMap.size_insert, hmem, if_true]
  · rfl

end L4SnapshotCache

namespace L4Serving

/-- **What a request does in one step**: the stage it comes to, and the cache after it. -/
inductive Turn (gzip : B → Option G) (s : L4Serving B G) (i : ℕ) (r : L4Request B G) :
    L4Op B → L4Stage B G → L4SnapshotCache B G → Prop where
  | hit {body : B} {gz : Option G} (hstage : r.stage = .lookup ∨ r.stage = .admitted)
      (hget : s.cache.get s.now r.key = some (body, gz)) :
      Turn gzip s i r (.advance i) (.served body) s.cache
  | miss (hstage : r.stage = .lookup) : Turn gzip s i r (.advance i) .queued s.cache
  | permit (hstage : r.stage = .queued) : Turn gzip s i r (.advance i) .admitted s.cache
  | build (hstage : r.stage = .admitted) : Turn gzip s i r (.advance i) .building s.cache
  | read {body : B} (hstage : r.stage = .building) :
      Turn gzip s i r (.read i (some body)) (.built body) s.cache
  | notFound (hstage : r.stage = .building) :
      Turn gzip s i r (.read i none) (.answered .notFound) s.cache
  | enter {body : B} (hstage : r.stage = .built body) :
      Turn gzip s i r (.advance i) (.served body) (s.cache.insert s.now r.key body)
  | shared {body body' : B} {gz : G} (hstage : r.stage = .served body)
      (hget : s.cache.get s.now r.key = some (body', some gz)) :
      Turn gzip s i r (.advance i) (.answered (.gzip gz)) s.cache
  | compress {body : B} (hstage : r.stage = .served body) :
      Turn gzip s i r (.advance i) (.compressing body) s.cache
  | plain {body : B} (hstage : r.stage = .served body ∨ r.stage = .compressing body) :
      Turn gzip s i r (.advance i) (.answered (.plain body)) s.cache
  | attach {body : B} {gz : G} (hstage : r.stage = .compressing body)
      (hgzip : gzip body = some gz) :
      Turn gzip s i r (.advance i) (.answered (.gzip gz)) (s.cache.setGzipped r.key gz)
  | giveUp (hstage : r.stage.isAnswered = false) :
      Turn gzip s i r (.giveUp i) (.answered .failed) s.cache

/-- A step of a request. -/
structure Turns (gzip : B → Option G) (s s' : L4Serving B G) (op : L4Op B) (i : ℕ)
    (r : L4Request B G) (stage : L4Stage B G) : Prop where
  request : s.requests[i]? = some r
  turn : Turn gzip s i r op stage s'.cache
  now : s'.now = s.now
  borrowed : s'.borrowed = s.borrowed
  requests : s'.requests = s.requests.set i { r with stage }
  permits : s'.permits + stage.holdsPermit.toNat = s.permits + r.stage.holdsPermit.toNat

/-- Anything else. -/
structure Aside (s s' : L4Serving B G) (op : L4Op B) : Prop where
  cache : s'.cache = s.cache
  now : s.now ≤ s'.now
  permits : s'.permits + s'.borrowed = s.permits + s.borrowed
  requests : (op.isArrival = false ∧ s'.requests = s.requests) ∨
    (op.isArrival = true ∧ ∃ key g, s'.requests = s.requests ++ [⟨key, g, .lookup⟩])
  isTurnOf : ∀ i, op.isTurnOf i = false

variable {gzip : B → Option G} {s s' : L4Serving B G} {op : L4Op B} {i : ℕ} {r : L4Request B G}
  {said : List (ℕ × L4Response B G)}

theorem advance_turns (hr : s.requests[i]? = some r)
    (h : s.advance gzip i r = some (s', said)) :
    ∃ stage, Turns gzip s s' (.advance i) i r stage := by
  simp only [advance] at h
  split at h
  case h_1 hstage =>
    split at h
    case h_1 body gz hget =>
      cases h
      exact ⟨_, hr, .hit (Or.inl hstage) hget, rfl, rfl, rfl, by rw [hstage]; rfl⟩
    case h_2 =>
      cases h
      exact ⟨_, hr, .miss hstage, rfl, rfl, rfl, by rw [hstage]; rfl⟩
  case h_2 hstage =>
    split at h
    case isTrue hpermits =>
      cases h
      exact ⟨_, hr, .permit hstage, rfl, rfl, rfl, by
        rw [hstage]
        exact Nat.sub_add_cancel hpermits⟩
    case isFalse => cases h
  case h_3 hstage =>
    split at h
    case h_1 body gz hget =>
      cases h
      exact ⟨_, hr, .hit (Or.inr hstage) hget, rfl, rfl, rfl, by rw [hstage]; rfl⟩
    case h_2 =>
      cases h
      exact ⟨_, hr, .build hstage, rfl, rfl, rfl, by rw [hstage]; rfl⟩
  case h_4 => cases h
  case h_5 body hstage =>
    cases h
    exact ⟨_, hr, .enter hstage, rfl, rfl, rfl, by rw [hstage]; rfl⟩
  case h_6 body hstage =>
    split at h
    · split at h
      case h_1 body' gz hget =>
        cases h
        exact ⟨_, hr, .shared hstage hget, rfl, rfl, rfl, by rw [hstage]; rfl⟩
      case h_2 =>
        cases h
        exact ⟨_, hr, .compress hstage, rfl, rfl, rfl, by rw [hstage]; rfl⟩
    · cases h
      exact ⟨_, hr, .plain (Or.inl hstage), rfl, rfl, rfl, by rw [hstage]; rfl⟩
  case h_7 body hstage =>
    split at h
    case h_1 gz hgzip =>
      cases h
      exact ⟨_, hr, .attach hstage hgzip, rfl, rfl, rfl, by rw [hstage]; rfl⟩
    case h_2 =>
      cases h
      exact ⟨_, hr, .plain (Or.inr hstage), rfl, rfl, rfl, by rw [hstage]; rfl⟩
  case h_8 => cases h

/-- **What a step can do.** -/
theorem step_cases (h : step gzip s op = some (s', said)) :
    Aside s s' op ∨ ∃ i r stage, Turns gzip s s' op i r stage := by
  cases op with
  | tick ms =>
    cases h
    exact Or.inl ⟨rfl, Nat.le_add_right _ _, rfl, Or.inl ⟨rfl, rfl⟩, fun _ => rfl⟩
  | arrive key g =>
    cases h
    exact Or.inl ⟨rfl, le_rfl, rfl, Or.inr ⟨rfl, key, g, rfl⟩, fun _ => rfl⟩
  | borrow =>
    obtain ⟨hpermits, h⟩ := Option.ite_none_right_eq_some.mp h
    cases h
    refine Or.inl ⟨rfl, le_rfl, ?_, Or.inl ⟨rfl, rfl⟩, fun _ => rfl⟩
    simp only
    omega
  | giveBack =>
    obtain ⟨hborrowed, h⟩ := Option.ite_none_right_eq_some.mp h
    cases h
    refine Or.inl ⟨rfl, le_rfl, ?_, Or.inl ⟨rfl, rfl⟩, fun _ => rfl⟩
    simp only
    omega
  | advance i =>
    obtain ⟨r, hr, h⟩ := Option.bind_eq_some_iff.mp h
    obtain ⟨stage, hturns⟩ := advance_turns hr h
    exact Or.inr ⟨i, r, stage, hturns⟩
  | read i snapshot =>
    obtain ⟨r, hr, h⟩ := Option.bind_eq_some_iff.mp h
    simp only [L4Serving.read] at h
    split at h
    case h_1 hstage =>
      cases snapshot with
      | some body =>
        cases h
        exact Or.inr ⟨i, r, _, hr, .read hstage, rfl, rfl, rfl, by rw [hstage]; rfl⟩
      | none =>
        cases h
        exact Or.inr ⟨i, r, _, hr, .notFound hstage, rfl, rfl, rfl, by rw [hstage]; rfl⟩
    case h_2 => cases h
  | giveUp i =>
    obtain ⟨r, hr, h⟩ := Option.bind_eq_some_iff.mp h
    split at h
    · cases h
    · next hstage =>
      cases h
      have hnot : r.stage.isAnswered = false := by
        cases hanswered : r.stage with
        | answered response => exact absurd hanswered (hstage response)
        | _ => rfl
      refine Or.inr ⟨i, r, _, hr, .giveUp hnot, rfl, rfl, rfl, ?_⟩
      cases hholds : r.stage.holdsPermit <;> simp [moved, L4Stage.holdsPermit]

/-! ## How old an answer is -/

section Aged

variable {stamp : B → ℕ} {about : B → L4Key} {build attach t₀ n : ℕ}

/-- A book is read for the key asked for; it is entered, and its compression attached, within
some time after that. -/
def Timed (stamp : B → ℕ) (about : B → L4Key) (build attach : ℕ) (s : L4Serving B G) :
    L4Op B → Prop
  | .read i (some body) => stamp body = s.now ∧ ∀ r ∈ s.requests[i]?, about body = r.key
  | .advance i => ∀ r ∈ s.requests[i]?,
      (∀ body ∈ r.stage.toEnter, s.now ≤ stamp body + build) ∧
        ∀ body ∈ r.stage.toCompress, s.now ≤ stamp body + attach
  | _ => True

instance Timed.decidable (stamp : B → ℕ) (about : B → L4Key) (build attach : ℕ)
    (s : L4Serving B G) : ∀ op, Decidable (Timed stamp about build attach s op)
  | .read i (some body) =>
    inferInstanceAs (Decidable (stamp body = s.now ∧ ∀ r ∈ s.requests[i]?, about body = r.key))
  | .advance i => inferInstanceAs (Decidable (∀ r ∈ s.requests[i]?,
      (∀ body ∈ r.stage.toEnter, s.now ≤ stamp body + build) ∧
        ∀ body ∈ r.stage.toCompress, s.now ≤ stamp body + attach))
  | .read _ none | .tick _ | .arrive _ _ | .borrow | .giveBack | .giveUp _ =>
    inferInstanceAs (Decidable True)

/-- An entry: its body is of its key, and neither it nor what was compressed is old. -/
structure EntryAged (gzip : B → Option G) (stamp : B → ℕ) (about : B → L4Key)
    (build attach now : ℕ) (key : L4Key) (entry : L4CacheEntry B G) : Prop where
  ofKey : about entry.body = key
  entered : entry.builtAt ≤ now
  built : entry.builtAt ≤ stamp entry.body + build
  gzipped : ∀ gz ∈ entry.gzipped, ∃ body, gzip body = some gz ∧ about body = key ∧
    entry.builtAt ≤ stamp body + attach

/-- A body that a request is served, if it came late enough: it was read not long before. -/
def BodyAged (stamp : B → ℕ) (about : B → L4Key) (build t₀ n i : ℕ) (key : L4Key) (body : B) :
    Prop :=
  about body = key ∧ (n ≤ i → t₀ < stamp body + build + l4SnapshotCacheTtl)

/-- What a request has or is answered. -/
def StageAged (gzip : B → Option G) (stamp : B → ℕ) (about : B → L4Key) (build attach t₀ n i : ℕ)
    (key : L4Key) : L4Stage B G → Prop
  | .built body => BodyAged stamp about build t₀ n i key body
  | .served body => BodyAged stamp about build t₀ n i key body
  | .compressing body => BodyAged stamp about build t₀ n i key body
  | .answered (.plain body) => BodyAged stamp about build t₀ n i key body
  | .answered (.gzip gz) => ∃ body, gzip body = some gz ∧
      BodyAged stamp about (max build attach) t₀ n i key body
  | _ => True

/-- **The invariant**, for the requests that came at or after a moment. -/
structure Aged (gzip : B → Option G) (stamp : B → ℕ) (about : B → L4Key)
    (build attach t₀ n : ℕ) (s : L4Serving B G) : Prop where
  reached : t₀ ≤ s.now
  entries : ∀ key entry, s.cache.entries[key]? = some entry →
    EntryAged gzip stamp about build attach s.now key entry
  requests : ∀ i r, s.requests[i]? = some r →
    StageAged gzip stamp about build attach t₀ n i r.key r.stage

theorem aged_start : Aged gzip stamp about build attach 0 0 (start : L4Serving B G) where
  reached := le_rfl
  entries key entry h := by simp [start, L4SnapshotCache.new] at h
  requests i r h := by simp [start] at h

/-- A later moment to count from. -/
theorem Aged.restart (h : Aged gzip stamp about build attach t₀ n s) :
    Aged gzip stamp about build attach s.now s.requests.length s where
  reached := le_rfl
  entries := h.entries
  requests i r hr := by
    have hlt : ¬ s.requests.length ≤ i := Nat.not_le.mpr (List.getElem?_eq_some_iff.mp hr).1
    have hstage := h.requests i r hr
    have hbody : ∀ {d d' body}, BodyAged stamp about d t₀ n i r.key body →
        BodyAged stamp about d' s.now s.requests.length i r.key body :=
      fun h => ⟨h.1, fun hle => absurd hle hlt⟩
    cases hs : r.stage with
    | built body =>
      rw [hs] at hstage
      exact hbody hstage
    | served body =>
      rw [hs] at hstage
      exact hbody hstage
    | compressing body =>
      rw [hs] at hstage
      exact hbody hstage
    | answered response =>
      rw [hs] at hstage
      cases response with
      | plain body => exact hbody hstage
      | gzip gz =>
        obtain ⟨body, hgz, hold⟩ := hstage
        exact ⟨body, hgz, hbody hold⟩
      | notFound => trivial
      | failed => trivial
    | _ => trivial

theorem EntryAged.later {now now' : ℕ} {key : L4Key} {entry : L4CacheEntry B G}
    (h : EntryAged gzip stamp about build attach now key entry) (hle : now ≤ now') :
    EntryAged gzip stamp about build attach now' key entry :=
  ⟨h.ofKey, h.entered.trans hle, h.built, h.gzipped⟩

/-- The cache after a step of a request. -/
theorem Turn.entries {stage : L4Stage B G} {cache : L4SnapshotCache B G}
    (hturn : Turn gzip s i r op stage cache) (h : Aged gzip stamp about build attach t₀ n s)
    (hr : s.requests[i]? = some r) (htimed : Timed stamp about build attach s op) {key : L4Key}
    {entry : L4CacheEntry B G} (hentry : cache.entries[key]? = some entry) :
    EntryAged gzip stamp about build attach s.now key entry := by
  have hstage := h.requests i r hr
  cases hturn with
  | enter hbuilt =>
    rw [hbuilt] at hstage
    rcases L4SnapshotCache.entry_of_insert hentry with hold | ⟨rfl, rfl⟩
    · exact h.entries key entry hold
    · have hin := (htimed r hr).1 _ (by rw [hbuilt]; rfl)
      exact ⟨hstage.1, le_rfl, hin, fun gz hgz => by cases hgz⟩
  | attach hcompressing hgzip =>
    rw [hcompressing] at hstage
    rcases L4SnapshotCache.entry_of_setGzipped hentry with hold | ⟨rfl, old, hold, rfl⟩
    · exact h.entries key entry hold
    · have haged := h.entries _ old hold
      have hin := (htimed r hr).2 _ (by rw [hcompressing]; rfl)
      refine ⟨haged.ofKey, haged.entered, haged.built, fun gz hgz => ?_⟩
      cases hgz
      exact ⟨_, hgzip, hstage.1, haged.entered.trans hin⟩
  | _ => exact h.entries key entry hentry

/-- The request after its step. -/
theorem Turn.stageAged {stage : L4Stage B G} {cache : L4SnapshotCache B G}
    (hturn : Turn gzip s i r op stage cache) (h : Aged gzip stamp about build attach t₀ n s)
    (hr : s.requests[i]? = some r) (htimed : Timed stamp about build attach s op) :
    StageAged gzip stamp about build attach t₀ n i r.key stage := by
  have hstage := h.requests i r hr
  have hreached := h.reached
  cases hturn with
  | hit hwhere hget =>
    obtain ⟨entry, hentry, hfresh, rfl, -⟩ := L4SnapshotCache.entry_of_get hget
    have haged := h.entries _ entry hentry
    refine ⟨haged.ofKey, fun _ => ?_⟩
    have := haged.built
    omega
  | read hbuilding =>
    have hread := htimed.1
    refine ⟨htimed.2 r hr, fun _ => ?_⟩
    have : 0 < l4SnapshotCacheTtl := by decide
    omega
  | enter hbuilt =>
    rw [hbuilt] at hstage
    exact hstage
  | shared hserved hget =>
    obtain ⟨entry, hentry, hfresh, -, hgz⟩ := L4SnapshotCache.entry_of_get hget
    obtain ⟨body, hgzip, habout, haged⟩ := (h.entries _ entry hentry).gzipped _ hgz
    refine ⟨body, hgzip, habout, fun _ => ?_⟩
    omega
  | compress hserved =>
    rw [hserved] at hstage
    exact hstage
  | plain hwhere =>
    rcases hwhere with hserved | hserved
    · rw [hserved] at hstage
      exact hstage
    · rw [hserved] at hstage
      exact hstage
  | attach hcompressing hgzip =>
    rw [hcompressing] at hstage
    refine ⟨_, hgzip, hstage.1, fun hle => ?_⟩
    have := hstage.2 hle
    omega
  | _ => trivial

/-- **Every step keeps the invariant.** -/
theorem Aged.step (h : Aged gzip stamp about build attach t₀ n s)
    (htimed : Timed stamp about build attach s op) (hstep : step gzip s op = some (s', said)) :
    Aged gzip stamp about build attach t₀ n s' := by
  rcases step_cases hstep with haside | ⟨i, r, stage, hturns⟩
  · refine ⟨h.reached.trans haside.now, fun key entry hentry => ?_, fun i r hr => ?_⟩
    · rw [haside.cache] at hentry
      exact (h.entries key entry hentry).later haside.now
    · rcases haside.requests with ⟨-, hsame⟩ | ⟨-, key, g, hnew⟩
      · rw [hsame] at hr
        exact h.requests i r hr
      · rw [hnew, List.getElem?_append] at hr
        split at hr
        · exact h.requests i r hr
        · rw [List.getElem?_singleton] at hr
          split at hr
          · cases hr
            trivial
          · cases hr
  · refine ⟨by rw [hturns.now]; exact h.reached, fun key entry hentry => ?_, fun j r' hr' => ?_⟩
    · rw [hturns.now]
      exact hturns.turn.entries h hturns.request htimed hentry
    · rw [hturns.requests, List.getElem?_set] at hr'
      split at hr'
      · next hij =>
        subst hij
        split at hr'
        · cases hr'
          exact hturns.turn.stageAged h hturns.request htimed
        · cases hr'
      · exact h.requests j r' hr'

theorem Aged.run {ops : List (L4Op B)} (h : Aged gzip stamp about build attach t₀ n s)
    {told : List (ℕ × L4Response B G)}
    (htimed : Runs.Meets (L4Serving.step gzip) (fun _ => Timed stamp about build attach) told ops s)
    (hrun : runSteps (L4Serving.step gzip) ops s = some (s', said)) :
    Aged gzip stamp about build attach t₀ n s' := by
  refine Runs.Meets.rule (P := fun _ => Timed stamp about build attach)
    (I := fun _ s => Aged gzip stamp about build attach t₀ n s) ?_ htimed h hrun
  intro _ _ _ _ _ htimed h hstep
  exact h.step htimed hstep

variable (stamp about build attach) in
/-- **Where an answer comes from, and how old it is.**  If a body is entered at most so long after
its book was read, and its compression attached at most so long, every answer is a body of the
key asked for, or the compression of one, and its book was read no longer before the request came
than that and the time for which a body is kept. -/
theorem answered_aged {ops ops' : List (L4Op B)} {s₀ : L4Serving B G}
    {said₀ : List (ℕ × L4Response B G)}
    (hrun₀ : runSteps (L4Serving.step gzip) ops start = some (s₀, said₀))
    (hrun : runSteps (L4Serving.step gzip) ops' s₀ = some (s, said))
    (htimed : Runs.Meets (L4Serving.step gzip) (fun _ => Timed stamp about build attach) []
      (ops ++ ops') start)
    (hlate : s₀.requests.length ≤ i) (hr : s.requests[i]? = some r) :
    (∀ body, r.stage = .answered (.plain body) →
      about body = r.key ∧ s₀.now < stamp body + build + l4SnapshotCacheTtl) ∧
    ∀ gz, r.stage = .answered (.gzip gz) → ∃ body, gzip body = some gz ∧ about body = r.key ∧
      s₀.now < stamp body + max build attach + l4SnapshotCacheTtl := by
  obtain ⟨hfirst, hsecond⟩ := (Runs.Meets.append_iff hrun₀).mp htimed
  have h := ((aged_start.run hfirst hrun₀).restart.run hsecond hrun).requests i r hr
  constructor
  · intro body hstage
    rw [hstage] at h
    exact ⟨h.1, h.2 hlate⟩
  · intro gz hstage
    rw [hstage] at h
    obtain ⟨body, hgz, habout, haged⟩ := h
    exact ⟨body, hgz, habout, haged hlate⟩

end Aged

/-! ## Every request comes to its answer -/

/-- How many requests hold a permit. -/
def builders (s : L4Serving B G) : ℕ := (s.requests.map fun r => r.stage.holdsPermit.toNat).sum

/-- How many steps a request may still take, one that has not come yet included. -/
def turnsLeft (s : L4Serving B G) (i : ℕ) : ℕ := (s.requests[i]?).elim 7 fun r => r.stage.turnsLeft

theorem sum_map_set (f : L4Request B G → ℕ) {rs : List (L4Request B G)} (hr : rs[i]? = some r)
    (r' : L4Request B G) :
    ((rs.set i r').map f).sum + f r = (rs.map f).sum + f r' := by
  induction rs generalizing i with
  | nil => simp at hr
  | cons x rs ih =>
    cases i with
    | zero =>
      obtain rfl : x = r := by simpa using hr
      simp only [List.set_cons_zero, List.map_cons, List.sum_cons]
      omega
    | succ i =>
      have := ih (i := i) (by simpa using hr)
      simp only [List.set_cons_succ, List.map_cons, List.sum_cons]
      omega

/-- A step brings a request closer to its answer. -/
theorem Turn.turnsLeft_lt {stage : L4Stage B G} {cache : L4SnapshotCache B G}
    (hturn : Turn gzip s i r op stage cache) : stage.turnsLeft < r.stage.turnsLeft := by
  cases hturn with
  | hit hstage => rcases hstage with hstage | hstage <;> simp [hstage, L4Stage.turnsLeft]
  | plain hstage => rcases hstage with hstage | hstage <;> simp [hstage, L4Stage.turnsLeft]
  | giveUp hstage => cases hs : r.stage <;> simp [hs, L4Stage.isAnswered, L4Stage.turnsLeft] at *
  | _ hstage => simp [hstage, L4Stage.turnsLeft]

theorem Turn.isTurnOf {stage : L4Stage B G} {cache : L4SnapshotCache B G}
    (hturn : Turn gzip s i r op stage cache) (k : ℕ) : op.isTurnOf k = decide (i = k) := by
  cases hturn <;> rfl

theorem Aside.turnsLeft (h : Aside s s' op) (k : ℕ) : s'.turnsLeft k = s.turnsLeft k := by
  rcases h.requests with ⟨-, hsame⟩ | ⟨-, key, g, hnew⟩
  · rw [L4Serving.turnsLeft, hsame]
    rfl
  · rw [L4Serving.turnsLeft, L4Serving.turnsLeft, hnew, List.getElem?_append]
    split
    case isTrue => rfl
    case isFalse hlate =>
      -- the request that comes, or one after it, has all its steps before it
      rw [List.getElem?_eq_none (Nat.le_of_not_lt hlate)]
      cases hk : k - s.requests.length with
      | zero => rfl
      | succ j => rfl

/-- **A step of one request** brings it closer to its answer, and no other. -/
theorem Turns.turnsLeft {stage : L4Stage B G} (h : Turns gzip s s' op i r stage) (k : ℕ) :
    s'.turnsLeft k + (op.isTurnOf k).toNat ≤ s.turnsLeft k := by
  have hlt := h.turn.turnsLeft_lt
  rw [h.turn.isTurnOf k, L4Serving.turnsLeft, L4Serving.turnsLeft, h.requests]
  by_cases hik : i = k
  · subst hik
    have hbound := (List.getElem?_eq_some_iff.mp h.request).1
    rw [List.getElem?_set_self hbound, h.request]
    simp only [Option.elim_some, decide_true, Bool.toNat_true]
    omega
  · rw [List.getElem?_set_ne hik]
    simp [hik]

/-- **What is built and kept is bounded**: the permits that are free, lent and held are as many
as there were, and the cache is never too large. -/
structure Bounded (s : L4Serving B G) : Prop where
  permits : s.permits + s.borrowed + s.builders = l4SnapshotBuildPermits
  size : s.cache.entries.size ≤ l4SnapshotCacheMaxEntries

theorem Turn.size_le {stage : L4Stage B G} {cache : L4SnapshotCache B G}
    (hturn : Turn gzip s i r op stage cache)
    (h : s.cache.entries.size ≤ l4SnapshotCacheMaxEntries) :
    cache.entries.size ≤ l4SnapshotCacheMaxEntries := by
  cases hturn with
  | enter hstage => exact L4SnapshotCache.size_insert_le _ _ _ h
  | attach hstage hgzip => rwa [L4SnapshotCache.size_setGzipped]
  | _ => exact h

/-- **Every step keeps the bounds.** -/
theorem Bounded.step (h : s.Bounded) (hstep : step gzip s op = some (s', said)) : s'.Bounded := by
  have hbefore := h.permits
  rcases step_cases hstep with haside | ⟨i, r, stage, hturns⟩
  · have hpermits := haside.permits
    refine ⟨?_, by rw [haside.cache]; exact h.size⟩
    rcases haside.requests with ⟨-, hsame⟩ | ⟨-, key, g, hnew⟩
    · simp only [builders, hsame] at hbefore ⊢
      omega
    · simp [builders, hnew, L4Stage.holdsPermit] at hbefore ⊢
      omega
  · have hpermits := hturns.permits
    have hholds := sum_map_set (fun r => r.stage.holdsPermit.toNat) hturns.request
      { r with stage }
    simp only at hholds
    refine ⟨?_, hturns.turn.size_le h.size⟩
    simp only [builders, hturns.requests, hturns.borrowed] at hbefore ⊢
    omega

end L4Serving

end HlOrderbook

namespace HlOrderbook

section Example

namespace L4Serving

/-- The compressed form of an empty list; another body is marked and left as it is. -/
private def gzipList (body : List UInt8) : Option (List UInt8) :=
  if body = [91, 93] then
    some [31, 139, 8, 0, 0, 0, 0, 0, 4, 255, 139, 142, 5, 0, 41, 187, 76, 13, 2, 0, 0, 0]
  else some (0 :: body)

private def btcKey : L4Key := ⟨"BTC", ⟨none, none⟩⟩

/-- A book is read at 5 and entered at 8. -/
private def builtOnce : List (L4Op (List UInt8)) :=
  [.tick 5, .arrive btcKey false, .advance 0, .advance 0, .advance 0, .read 0 (some [91, 93]),
    .tick 3, .advance 0, .advance 0, .tick 50]

/-- Two requests find it 50 ms later, and one compresses it. -/
private def foundAgain : List (L4Op (List UInt8)) :=
  [.arrive btcKey true, .arrive btcKey false, .advance 1, .advance 1, .advance 2, .advance 2,
    .tick 20, .advance 1]

deriving instance DecidableEq for L4Response, L4Stage, L4Request

theorem answered_aged_found : ∃ s₀ s said₀ said,
    runSteps (step gzipList) builtOnce start = some (s₀, said₀) ∧
      runSteps (step gzipList) foundAgain s₀ = some (s, said) ∧
      s.requests[2]? = some ⟨btcKey, false, .answered (.plain [91, 93])⟩ ∧
      s₀.now = 58 ∧ s₀.now < 5 + 3 + l4SnapshotCacheTtl := by
  obtain ⟨s₀, said₀, hrun₀, hnow⟩ := Runs.exists_of_map (a := (58, 1))
    (f := fun r : L4Serving (List UInt8) (List UInt8) × _ => (r.1.now, r.1.requests.length))
    (by decide +kernel : (runSteps (step gzipList) builtOnce start).map _ = _)
  have hwhole : (runSteps (step gzipList) (builtOnce ++ foundAgain) start).map
      (fun r => r.1.requests[2]?) =
        some (some ⟨btcKey, false, .answered (.plain [91, 93])⟩) := by decide +kernel
  obtain ⟨s, said', hrun', hrequest⟩ := Runs.exists_of_map hwhole
  obtain ⟨s₁, said₁, said, hrun₁, hrun, -⟩ := Runs.append_eq_some.mp hrun'
  rw [hrun₀] at hrun₁
  cases hrun₁
  simp only [Prod.mk.injEq] at hnow
  have h := answered_aged (fun _ => 5) (fun _ => btcKey) 3 73 hrun₀ hrun (by decide +kernel)
    (by omega) hrequest
  exact ⟨s₀, s, said₀, said, hrun₀, hrun, hrequest, hnow.1, (h.1 _ rfl).2⟩

end L4Serving

end Example

end HlOrderbook
