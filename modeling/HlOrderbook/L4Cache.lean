import HlOrderbook.Lib.Runs
import HlOrderbook.OrderBook

/-!
# The cache of book bodies

A request for the orders of a book is answered from a cache of bodies that were
serialized a short while ago.  A body that is not there is built; few requests build at a
time.  A request that accepts a compressed body compresses the one it was served, away
from the cache, and attaches the result to the entry it finds then under its key, which
need not be the entry of that body any more.

The contents of a body and its compression are parameters.

## Main definitions

* `L4SnapshotCache` — the cache: `get`, `insert`, `setGzipped`.
* `L4Request`, `L4Serving`, `L4Serving.step` — any number of requests, step by step.
* `L4Serving.Consistent` — a body is returned with its own compression only.

## Main results

* `consistent_iff_keepsBody`.
-/

set_option autoImplicit false
set_option linter.unusedSectionVars false

namespace HlOrderbook

/-! ## The cache -/

/-- What a body is cached under. -/
structure L4Key where
  coin : Coin
  band : PxBand
  deriving DecidableEq

namespace L4Key

/-- By coin, then by the bounds of the band. -/
def cmp : L4Key → L4Key → Ordering :=
  compareLex (compareOn coin)
    (compareLex (compareOn fun k => k.band.min) (compareOn fun k => k.band.max))

instance : Ord L4Key := ⟨cmp⟩

instance : Std.TransOrd L4Key :=
  inferInstanceAs (Std.TransCmp (compareLex (compareOn coin)
    (compareLex (compareOn fun k => k.band.min) (compareOn fun k => k.band.max))))

instance : Std.LawfulEqOrd L4Key where
  eq_of_compare {a b} h := by
    obtain ⟨hcoin, hband⟩ := Ordering.then_eq_eq.mp h
    obtain ⟨hmin, hmax⟩ := Ordering.then_eq_eq.mp hband
    have hcoin' : a.coin = b.coin := Std.LawfulEqCmp.eq_of_compare hcoin
    have hmin' : a.band.min = b.band.min := Std.LawfulEqCmp.eq_of_compare hmin
    have hmax' : a.band.max = b.band.max := Std.LawfulEqCmp.eq_of_compare hmax
    obtain ⟨coin, lo, hi⟩ := a
    obtain ⟨coin', lo', hi'⟩ := b
    simp only at hcoin' hmin' hmax'
    rw [hcoin', hmin', hmax']

end L4Key

/-- How long a body is served again, in milliseconds. -/
def l4SnapshotCacheTtl : ℕ := 100

/-- How many bodies are built at a time. -/
def l4SnapshotBuildPermits : ℕ := 2

/-- The number of bodies kept at most. -/
def l4SnapshotCacheMaxEntries : ℕ := 64

/-- A body, when it was entered, and its compression, if there is one. -/
structure L4CacheEntry (B G : Type) where
  builtAt : ℕ
  body : B
  gzipped : Option G

/-- The cache. -/
structure L4SnapshotCache (B G : Type) where
  entries : Std.ExtTreeMap L4Key (L4CacheEntry B G)

variable {B G : Type}

/-- Whether an entry may still be served. -/
def L4CacheEntry.isFresh (now : ℕ) (entry : L4CacheEntry B G) : Bool :=
  now - entry.builtAt < l4SnapshotCacheTtl

namespace L4SnapshotCache

/-- A cache without entries. -/
def new : L4SnapshotCache B G := ⟨∅⟩

/-- A fresh body, with its compression if there is one. -/
def get (now : ℕ) (cache : L4SnapshotCache B G) (key : L4Key) : Option (B × Option G) :=
  cache.entries[key]?.bind fun entry =>
    if entry.isFresh now then some (entry.body, entry.gzipped) else none

/-- A cache that is full is swept of what is not fresh. -/
def swept (now : ℕ) (cache : L4SnapshotCache B G) : L4SnapshotCache B G :=
  if l4SnapshotCacheMaxEntries ≤ cache.entries.size then
    ⟨cache.entries.filter fun _ entry => entry.isFresh now⟩
  else cache

/-- Enter a body; a cache that is full of fresh entries stays as it is. -/
def insert (now : ℕ) (cache : L4SnapshotCache B G) (key : L4Key) (body : B) :
    L4SnapshotCache B G :=
  let cache := cache.swept now
  if cache.entries.size < l4SnapshotCacheMaxEntries then
    ⟨cache.entries.insert key ⟨now, body, none⟩⟩
  else cache

/-- Attach a compression to the entry there is under a key. -/
def setGzipped (cache : L4SnapshotCache B G) (key : L4Key) (gz : G) : L4SnapshotCache B G :=
  match cache.entries[key]? with
  | some entry => ⟨cache.entries.insert key { entry with gzipped := some gz }⟩
  | none => cache

variable {cache : L4SnapshotCache B G} {now : ℕ} {key key' : L4Key} {body : B} {gz : G}

/-- What is returned later is returned now. -/
theorem get_of_get_add {ms : ℕ} {hit : B × Option G} (h : cache.get (now + ms) key = some hit) :
    cache.get now key = some hit := by
  rw [get] at h ⊢
  cases hentry : cache.entries[key]? with
  | none => simp [hentry] at h
  | some entry =>
    simp only [hentry, Option.bind_some, L4CacheEntry.isFresh, decide_eq_true_eq] at h ⊢
    split at h
    case isTrue hfresh =>
      rw [if_pos (by omega)]
      exact h
    case isFalse => cases h

/-- A sweep takes nothing that would be returned. -/
theorem get_swept (now : ℕ) (cache : L4SnapshotCache B G) (key : L4Key) :
    (cache.swept now).get now key = cache.get now key := by
  rw [swept]
  split
  case isFalse => rfl
  case isTrue =>
    rw [get, get, Std.ExtTreeMap.getElem?_filter']
    cases hentry : cache.entries[key]? with
    | none => rfl
    | some entry =>
      by_cases hfresh : entry.isFresh now = true
      · simp [Option.filter, hfresh]
      · simp [Option.filter, hfresh]

/-- **Entering a body**: under its key it is returned without a compression, or what was
returned before is. -/
theorem get_insert (now : ℕ) (cache : L4SnapshotCache B G) (key : L4Key) (body : B)
    (key' : L4Key) :
    (cache.insert now key body).get now key' = cache.get now key' ∨
      (key = key' ∧ (cache.insert now key body).get now key' = some (body, none)) := by
  rw [insert]
  split
  case isFalse => exact Or.inl (get_swept now cache key')
  case isTrue =>
    by_cases hkey : key = key'
    · subst hkey
      refine Or.inr ⟨rfl, ?_⟩
      simp [get, L4CacheEntry.isFresh, l4SnapshotCacheTtl]
    · refine Or.inl (Eq.trans ?_ (get_swept now cache key'))
      simp [get, Std.ExtTreeMap.getElem?_insert, hkey]

/-- **Attaching a compression.** -/
theorem get_setGzipped (now : ℕ) (cache : L4SnapshotCache B G) (key : L4Key) (gz : G)
    (key' : L4Key) : (cache.setGzipped key gz).get now key' =
      if key = key' then (cache.get now key').map fun hit => (hit.1, some gz)
      else cache.get now key' := by
  rw [setGzipped]
  cases hentry : cache.entries[key]? with
  | none =>
    by_cases hkey : key = key'
    · subst hkey
      simp [get, hentry]
    · simp [hkey]
  | some entry =>
    by_cases hkey : key = key'
    · subst hkey
      by_cases hfresh : entry.isFresh now = true
      · have hfresh' : L4CacheEntry.isFresh now { entry with gzipped := some gz } = true := hfresh
        simp [get, hentry, hfresh, hfresh']
      · have hfresh' : ¬ L4CacheEntry.isFresh now { entry with gzipped := some gz } = true := hfresh
        simp [get, hentry, hfresh, hfresh']
    · simp [get, Std.ExtTreeMap.getElem?_insert, hkey]

end L4SnapshotCache

/-! ## The requests -/

/-- What a request is answered. -/
inductive L4Response (B G : Type) where
  | plain (body : B)
  | gzip (gz : G)
  | notFound
  | failed

/-- How far a request has come.  From `admitted` to `built` it holds a permit. -/
inductive L4Stage (B G : Type) where
  | lookup
  | queued
  | admitted
  | building
  | built (body : B)
  | served (body : B)
  | compressing (body : B)
  | answered (response : L4Response B G)

/-- Whether a request holds a permit to build. -/
def L4Stage.holdsPermit : L4Stage B G → Bool
  | .admitted => true
  | .building => true
  | .built _ => true
  | _ => false

/-- A request, over HTTP or of a client that subscribes. -/
structure L4Request (B G : Type) where
  key : L4Key
  acceptsGzip : Bool
  stage : L4Stage B G

/-- The cache and the requests.  The permits are shared with the requests of another
cache, which hold the ones borrowed. -/
structure L4Serving (B G : Type) where
  now : ℕ
  cache : L4SnapshotCache B G
  permits : ℕ
  borrowed : ℕ
  requests : List (L4Request B G)

/-- What happens: time passes, a request comes, a permit is taken for the other cache or
given back, a request does what it does next, reads the book, or is given up. -/
inductive L4Op (B : Type) where
  | tick (ms : ℕ)
  | arrive (key : L4Key) (acceptsGzip : Bool)
  | borrow
  | giveBack
  | advance (i : ℕ)
  | read (i : ℕ) (snapshot : Option B)
  | giveUp (i : ℕ)

namespace L4Serving

/-- Before the first request. -/
def start : L4Serving B G := ⟨0, .new, l4SnapshotBuildPermits, 0, []⟩

/-- A request has come to another stage. -/
def moved (s : L4Serving B G) (i : ℕ) (r : L4Request B G) (stage : L4Stage B G) : L4Serving B G :=
  { s with requests := s.requests.set i { r with stage } }

/-- A request is answered. -/
def answered (s : L4Serving B G) (i : ℕ) (r : L4Request B G) (response : L4Response B G) :
    L4Serving B G × List (ℕ × L4Response B G) :=
  (s.moved i r (.answered response), [(i, response)])

/-- What a request does next.  The book is read in another step. -/
def advance (gzip : B → Option G) (s : L4Serving B G) (i : ℕ) (r : L4Request B G) :
    Option (L4Serving B G × List (ℕ × L4Response B G)) :=
  match r.stage with
  | .lookup =>
    match s.cache.get s.now r.key with
    | some (body, _) => some (s.moved i r (.served body), [])
    | none => some (s.moved i r .queued, [])
  | .queued =>
    if 0 < s.permits then some ({ s with permits := s.permits - 1 }.moved i r .admitted, [])
    else none
  | .admitted =>
    -- whoever waited for the one that built finds its body
    match s.cache.get s.now r.key with
    | some (body, _) => some ({ s with permits := s.permits + 1 }.moved i r (.served body), [])
    | none => some (s.moved i r .building, [])
  | .building => none
  | .built body =>
    some ({ s with
      cache := s.cache.insert s.now r.key body
      permits := s.permits + 1 }.moved i r (.served body), [])
  | .served body =>
    if r.acceptsGzip then
      match s.cache.get s.now r.key with
      | some (_, some gz) => some (s.answered i r (.gzip gz))
      | _ => some (s.moved i r (.compressing body), [])
    else some (s.answered i r (.plain body))
  | .compressing body =>
    match gzip body with
    | some gz =>
      some ({ s with cache := s.cache.setGzipped r.key gz }.answered i r (.gzip gz))
    | none => some (s.answered i r (.plain body))
  | .answered _ => none

/-- The book is read; a coin without a book is not found. -/
def read (s : L4Serving B G) (i : ℕ) (r : L4Request B G) (snapshot : Option B) :
    Option (L4Serving B G × List (ℕ × L4Response B G)) :=
  match r.stage with
  | .building =>
    match snapshot with
    | some body => some (s.moved i r (.built body), [])
    | none => some ({ s with permits := s.permits + 1 }.answered i r .notFound)
  | _ => none

/-- One step; `none` when it cannot happen now. -/
def step (gzip : B → Option G) (s : L4Serving B G) :
    L4Op B → Option (L4Serving B G × List (ℕ × L4Response B G))
  | .tick ms => some ({ s with now := s.now + ms }, [])
  | .arrive key acceptsGzip =>
    some ({ s with requests := s.requests ++ [⟨key, acceptsGzip, .lookup⟩] }, [])
  | .borrow =>
    if 0 < s.permits then
      some ({ s with permits := s.permits - 1, borrowed := s.borrowed + 1 }, [])
    else none
  | .giveBack =>
    if 0 < s.borrowed then
      some ({ s with permits := s.permits + 1, borrowed := s.borrowed - 1 }, [])
    else none
  | .advance i => s.requests[i]?.bind fun r => s.advance gzip i r
  | .read i snapshot => s.requests[i]?.bind fun r => s.read i r snapshot
  | .giveUp i =>
    s.requests[i]?.bind fun r =>
      match r.stage with
      | .answered _ => none
      | _ =>
        some ({ s with
          permits := if r.stage.holdsPermit then s.permits + 1 else s.permits }.answered i r
            .failed)

/-! ## A body and its compression -/

/-- **A compressed form that the cache returns with a body is the compression of that very
body.** -/
def Consistent (gzip : B → Option G) (s : L4Serving B G) : Prop :=
  ∀ key body gz, s.cache.get s.now key = some (body, some gz) → gzip body = some gz

/-- What a request at a stage does next attaches no compression to a body that has taken
the place of the one compressed. -/
def StageKeepsBody (gzip : B → Option G) (s : L4Serving B G) (key : L4Key) : L4Stage B G → Prop
  | .compressing body => (gzip body).isSome = true →
    ∀ hit ∈ s.cache.get s.now key, hit.1 = body
  | _ => True

/-- A step that attaches a compression finds under its key the body that was compressed,
or none that is fresh. -/
def KeepsBody (gzip : B → Option G) (s : L4Serving B G) : L4Op B → Prop
  | .advance i => ∀ r ∈ s.requests[i]?, s.StageKeepsBody gzip r.key r.stage
  | _ => True

instance StageKeepsBody.decidable [DecidableEq B] (gzip : B → Option G) (s : L4Serving B G)
    (key : L4Key) : ∀ stage, Decidable (s.StageKeepsBody gzip key stage)
  | .compressing body => inferInstanceAs (Decidable ((gzip body).isSome = true → _))
  | .lookup | .queued | .admitted | .building | .built _ | .served _ | .answered _ =>
    inferInstanceAs (Decidable True)

instance KeepsBody.decidable [DecidableEq B] (gzip : B → Option G) (s : L4Serving B G) :
    ∀ op, Decidable (KeepsBody gzip s op)
  | .advance i =>
    inferInstanceAs (Decidable (∀ r ∈ s.requests[i]?, s.StageKeepsBody gzip r.key r.stage))
  | .tick _ | .arrive _ _ | .borrow | .giveBack | .read _ _ | .giveUp _ =>
    inferInstanceAs (Decidable True)

variable {gzip : B → Option G} {s s' : L4Serving B G}

/-- The property speaks of what is returned only. -/
theorem Consistent.of_get (h : s.Consistent gzip)
    (hget : ∀ key body gz, s'.cache.get s'.now key = some (body, some gz) →
      s.cache.get s.now key = some (body, some gz)) : s'.Consistent gzip :=
  fun key body gz hhit => h key body gz (hget key body gz hhit)

/-- A step that leaves the cache and the clock. -/
theorem Consistent.of_eq (h : s.Consistent gzip) (hcache : s'.cache = s.cache)
    (hnow : s'.now = s.now) : s'.Consistent gzip := by
  refine h.of_get fun key body gz hhit => ?_
  rwa [hcache, hnow] at hhit

theorem Consistent.moved (h : s.Consistent gzip) (i : ℕ) (r : L4Request B G)
    (stage : L4Stage B G) : (s.moved i r stage).Consistent gzip := h.of_eq rfl rfl

/-- **Attaching a compression keeps the property exactly if it is that of the body there.** -/
theorem consistent_setGzipped_iff (h : s.Consistent gzip) (key : L4Key) (gz : G) :
    Consistent gzip { s with cache := s.cache.setGzipped key gz } ↔
      ∀ hit ∈ s.cache.get s.now key, gzip hit.1 = some gz := by
  constructor
  · intro hset hit hhit
    refine hset key hit.1 gz ?_
    rw [L4SnapshotCache.get_setGzipped, if_pos rfl, Option.mem_def.mp hhit]
    rfl
  · intro hhits key' body gz' hhit
    rw [L4SnapshotCache.get_setGzipped] at hhit
    split at hhit
    case isFalse => exact h key' body gz' hhit
    case isTrue hkey =>
      subst hkey
      obtain ⟨hit, hget, heq⟩ := Option.map_eq_some_iff.mp hhit
      cases heq
      exact hhits hit hget

/-- A body that is entered has no compression yet. -/
theorem Consistent.insert (h : s.Consistent gzip) (key : L4Key) (body : B) :
    Consistent gzip { s with cache := s.cache.insert s.now key body } := by
  refine h.of_get fun key' body' gz hhit => ?_
  rcases s.cache.get_insert s.now key body key' with heq | ⟨-, heq⟩
  · rwa [heq] at hhit
  · rw [heq] at hhit
    cases hhit

/-- What a request does that is not compressing keeps the property. -/
theorem Consistent.advance (h : s.Consistent gzip) {i : ℕ} {r : L4Request B G}
    (hstage : ∀ body, r.stage ≠ .compressing body) {said : List (ℕ × L4Response B G)}
    (hstep : s.advance gzip i r = some (s', said)) : s'.Consistent gzip := by
  simp only [L4Serving.advance] at hstep
  split at hstep
  case h_1 =>
    split at hstep
    · cases hstep
      exact h.moved _ _ _
    · cases hstep
      exact h.moved _ _ _
  case h_2 =>
    split at hstep
    · cases hstep
      exact h.of_eq rfl rfl
    · cases hstep
  case h_3 =>
    split at hstep
    · cases hstep
      exact h.of_eq rfl rfl
    · cases hstep
      exact h.moved _ _ _
  case h_4 => cases hstep
  case h_5 body _ =>
    cases hstep
    exact (h.insert r.key body).of_eq rfl rfl
  case h_6 =>
    split at hstep
    · split at hstep
      · cases hstep
        exact h.moved _ _ _
      · cases hstep
        exact h.moved _ _ _
    · cases hstep
      exact h.moved _ _ _
  case h_7 body hcompressing => exact absurd hcompressing (hstage body)
  case h_8 => cases hstep

/-- **A step keeps the property exactly if it meets the condition.**  Compressing loses
nothing: no two bodies have the same compression. -/
theorem keepsBody_iff (hlossless : ∀ b b' gz, gzip b = some gz → gzip b' = some gz → b = b')
    (h : s.Consistent gzip) (op : L4Op B) : KeepsBody gzip s op ↔
      ∀ s' said, step gzip s op = some (s', said) → s'.Consistent gzip := by
  cases op with
  | tick ms =>
    refine ⟨fun _ s' said hstep => ?_, fun _ => trivial⟩
    cases hstep
    exact h.of_get fun _ _ _ hhit => L4SnapshotCache.get_of_get_add hhit
  | arrive key acceptsGzip =>
    refine ⟨fun _ s' said hstep => ?_, fun _ => trivial⟩
    cases hstep
    exact h.of_eq rfl rfl
  | borrow =>
    refine ⟨fun _ s' said hstep => ?_, fun _ => trivial⟩
    rw [step] at hstep
    split at hstep
    · cases hstep
      exact h.of_eq rfl rfl
    · cases hstep
  | giveBack =>
    refine ⟨fun _ s' said hstep => ?_, fun _ => trivial⟩
    rw [step] at hstep
    split at hstep
    · cases hstep
      exact h.of_eq rfl rfl
    · cases hstep
  | advance i =>
    simp only [step, KeepsBody]
    cases hr : s.requests[i]? with
    | none => simp
    | some r =>
      simp only [Option.mem_some_iff, forall_eq', Option.bind_some]
      cases hstage : r.stage with
      | compressing body =>
        simp only [L4Serving.advance, StageKeepsBody, hstage]
        cases hgzip : gzip body with
        | none =>
          refine ⟨fun _ s' said hstep => ?_, fun _ hsome => by cases hsome⟩
          cases hstep
          exact h.moved _ _ _
        | some gz =>
          have hset : (∀ s' said, some (({ s with cache := s.cache.setGzipped r.key gz } :
              L4Serving B G).answered i r (.gzip gz)) = some (s', said) → s'.Consistent gzip) ↔
              ∀ hit ∈ s.cache.get s.now r.key, gzip hit.1 = some gz := by
            rw [← consistent_setGzipped_iff h]
            constructor
            · exact fun hkeeps => (hkeeps _ _ rfl).of_eq rfl rfl
            · intro hset s' said hstep
              cases hstep
              exact hset.moved _ _ _
          rw [hset]
          constructor
          · intro hsame hit hhit
            rw [hsame rfl hit hhit, hgzip]
          · intro hown _ hit hhit
            exact hlossless _ _ gz (hown hit hhit) hgzip
      | _ =>
        refine ⟨fun _ s' said hstep => ?_, fun _ => trivial⟩
        exact h.advance (fun body hbody => by simp [hstage] at hbody) hstep
  | read i snapshot =>
    refine ⟨fun _ s' said hstep => ?_, fun _ => trivial⟩
    obtain ⟨r, -, hread⟩ := Option.bind_eq_some_iff.mp hstep
    simp only [read] at hread
    split at hread
    · split at hread
      · cases hread
        exact h.of_eq rfl rfl
      · cases hread
        exact h.of_eq rfl rfl
    · cases hread
  | giveUp i =>
    refine ⟨fun _ s' said hstep => ?_, fun _ => trivial⟩
    obtain ⟨r, -, hgive⟩ := Option.bind_eq_some_iff.mp hstep
    split at hgive
    · cases hgive
    · cases hgive
      exact h.of_eq rfl rfl

/-- **A body is returned with its own compression all along a run exactly if no compression
is attached to a body that has taken the place of the one compressed.** -/
theorem consistent_iff_keepsBody
    (hlossless : ∀ b b' gz, gzip b = some gz → gzip b' = some gz → b = b') (ops : List (L4Op B)) :
    Runs.Always (step gzip) (Consistent gzip) ops start ↔
      Runs.Meets (step gzip) (fun _ => KeepsBody gzip) [] ops start := by
  have hstart : (start : L4Serving B G).Consistent gzip := by
    intro key body gz hhit
    simp [start, L4SnapshotCache.new, L4SnapshotCache.get] at hhit
  exact Runs.always_iff_meets (fun s op h => keepsBody_iff hlossless h op) hstart []

end L4Serving

end HlOrderbook

namespace HlOrderbook

section Example

open L4Serving

/-- The compressed forms of an empty object and an empty list; another body is marked and
left as it is. -/
private def gzipOf (body : List UInt8) : Option (List UInt8) :=
  if body = [123, 125] then
    some [31, 139, 8, 0, 0, 0, 0, 0, 4, 255, 171, 174, 5, 0, 67, 191, 166, 163, 2, 0, 0, 0]
  else if body = [91, 93] then
    some [31, 139, 8, 0, 0, 0, 0, 0, 4, 255, 139, 142, 5, 0, 41, 187, 76, 13, 2, 0, 0, 0]
  else some (0 :: body)

private theorem gzipOf_lossless (body body' gz : List UInt8) (h : gzipOf body = some gz)
    (h' : gzipOf body' = some gz) : body = body' := by
  rw [← h'] at h
  simp only [gzipOf] at h
  split_ifs at h <;> simp_all

private def btcBook : L4Key := ⟨"BTC", ⟨none, none⟩⟩

/-- A request builds a body and compresses it; another finds both. -/
private def shared : List (L4Op (List UInt8)) :=
  [.arrive btcBook true, .advance 0, .advance 0, .advance 0, .read 0 (some [123, 125]),
    .advance 0, .advance 0, .advance 0, .tick 99, .arrive btcBook true, .advance 1, .advance 1]

theorem consistent_iff_keepsBody_shared :
    Runs.Always (step gzipOf) (Consistent gzipOf) shared start ∧
    (runSteps (step gzipOf) shared start).map (fun r => r.1.cache.get r.1.now btcBook) =
      some (some ([123, 125], gzipOf [123, 125])) := by
  exact ⟨(consistent_iff_keepsBody gzipOf_lossless shared).mpr (by decide +kernel),
    by decide +kernel⟩

/-- **A slow compression**: the body that is compressed expires, and another takes its
place before the compression is attached. -/
theorem not_consistent_replaced : ¬ ∀ gzip : List UInt8 → Option (List UInt8),
    (∀ b b' gz, gzip b = some gz → gzip b' = some gz → b = b') →
    ∀ ops, Runs.Always (step gzip) (Consistent gzip) ops start := by
  intro h
  have hend : (runSteps (step gzipOf)
      [.arrive btcBook true, .advance 0, .advance 0, .advance 0, .read 0 (some [123, 125]),
        .advance 0, .advance 0, .tick 100, .arrive btcBook false, .advance 1, .advance 1,
        .advance 1, .read 1 (some [91, 93]), .advance 1, .advance 0] start).map
      (fun r => r.1.cache.get r.1.now btcBook) =
      some (some ([91, 93], gzipOf [123, 125])) := by
    decide +kernel
  obtain ⟨s, said, hrun, hhit⟩ := Runs.exists_of_map hend
  have hown := h gzipOf gzipOf_lossless _ _ [] s said (List.append_nil _).symm hrun btcBook [91, 93]
    _ hhit
  exact absurd hown (by decide)

end Example

end HlOrderbook
