import Marketplace.Auth.Firebase
import Mathlib.Algebra.Group.Nat.Defs

/-!
# The keys that tokens are checked under

A token is decoded under a key of its key id, from a set of keys that is fetched and kept for a
while (`Marketplace.Firebase.key`). Keys are fetched by a lookup that finds no set in its lifetime,
and by a lookup that does not find a key, which then forces a refresh unless the last forced one is
too recent (`Marketplace.Firebase.refreshIfAllowed`).

A key is always of a set that was fetched, and that is at most a day past its lifetime
(`Marketplace.Firebase.covered_run`). The forced refreshes are five minutes apart; the fetches of
lookups are apart from nothing, so how often keys are fetched depends on what the lookups find
(`Marketplace.Firebase.keysKept_iff`).
-/

namespace Marketplace.Firebase

open Accounts

/-! ### Sets of keys -/

/-- `MIN_REFRESH_INTERVAL`, in nanoseconds. -/
def minRefreshInterval : ℕ := 300 * 10 ^ 9

/-- `MAX_STALENESS`, in nanoseconds. -/
def maxStaleness : ℕ := 24 * 60 * 60 * 10 ^ 9

variable {K : Type}

/-- **A set of keys**, by their ids. Instants are of one clock, in nanoseconds. -/
structure KeySet (K : Type) where
  keys : Text → Option K
  fetchedAt : ℕ
  maxAge : ℕ

/-- `is_fresh`: the set is in its lifetime. -/
def KeySet.isFresh (set : KeySet K) (now : ℕ) : Bool := now - set.fetchedAt < set.maxAge

/-- `is_usable`: the set is not too long past its lifetime. -/
def KeySet.isUsable (set : KeySet K) (now : ℕ) : Bool :=
  now - set.fetchedAt < set.maxAge + maxStaleness

/-- **A key as it is taken from a set**, at an instant. -/
structure Sighting (K : Type) where
  keyId : Text
  key : K
  set : KeySet K
  seenAt : ℕ

/-- A key is looked for in a set. -/
def KeySet.sight (set : KeySet K) (keyId : Text) (now : ℕ) : Option (Sighting K) :=
  (set.keys keyId).map fun key => ⟨keyId, key, set, now⟩

/-- **A go at the cache**: when it is looked at, and what a fetch would return, and when. -/
structure Attempt (K : Type) where
  start : ℕ
  finish : ℕ
  result : Except AppError ((Text → Option K) × ℕ)
  start_le_finish : start ≤ finish

/-- The set that is fetched, if one is: a set says when it was made. -/
def Attempt.set (a : Attempt K) : Option (KeySet K) :=
  match a.result with
  | .ok (keys, maxAge) => some ⟨keys, a.finish, maxAge⟩
  | .error _ => none

/-- A fetch, by a lookup or by a forced refresh. -/
structure Fetch (K : Type) where
  forced : Bool
  attempt : Attempt K

/-- **What a verifier keeps**, and a record of the fetches. -/
structure Cache (K : Type) where
  cache : Option (KeySet K) := none
  lastForcedRefresh : Option ℕ := none
  fetches : List (Fetch K) := []

namespace Cache

/-- The fetch is recorded. -/
def log (forced : Bool) (a : Attempt K) (s : Cache K) : Cache K :=
  { s with fetches := s.fetches ++ [⟨forced, a⟩] }

/-- The set that is in its lifetime. -/
def fresh (now : ℕ) (s : Cache K) : Option (KeySet K) := s.cache.filter fun set => set.isFresh now

/-- The set that may be used. -/
def usable (now : ℕ) (s : Cache K) : Option (KeySet K) := s.cache.filter fun set => set.isUsable now

/-- The last forced refresh is not too recent. -/
def allows (now : ℕ) (s : Cache K) : Bool :=
  s.lastForcedRefresh.all fun last => minRefreshInterval ≤ now - last

end Cache

/-- `fetch`: what is fetched replaces what is there. -/
def fetch (forced : Bool) (a : Attempt K) (s : Cache K) : Cache K × Except AppError Unit :=
  match a.result with
  | .ok (keys, maxAge) => ({ s.log forced a with cache := some ⟨keys, a.finish, maxAge⟩ }, .ok ())
  | .error e => (s.log forced a, .error e)

/-- **`key`**: a key by its id, after a refresh if there is no set in its lifetime. -/
def key (keyId : Text) (a : Attempt K) (s : Cache K) :
    Cache K × Except AppError (Option (Sighting K)) :=
  match s.fresh a.start with
  | some set => (s, .ok (set.sight keyId a.start))
  | none =>
    match fetch false a s with
    | (s, .ok ()) => (s, .ok (s.cache.bind fun set => set.sight keyId a.finish))
    | (s, .error e) =>
      match s.usable a.finish with
      | some set => (s, .ok (set.sight keyId a.finish))
      | none => (s, .error e)

/-- **`refresh_if_allowed`**: the limit is noted before the fetch. -/
def refreshIfAllowed (a : Attempt K) (s : Cache K) : Cache K × Except AppError Unit :=
  if s.allows a.start then fetch true a { s with lastForcedRefresh := some a.start }
  else (s, .ok ())

/-! ### Calls -/

/-- What the header of a token says. -/
structure Header where
  isRs256 : Bool
  kid : Option Text

/-- **A verifier of signed tokens**: how a header is read, and how a token is decoded under a key,
at a time. -/
structure SignedVerifier (K : Type) where
  projectId : Text
  /-- `decode_header`. -/
  decodeHeader : Text → Option Header
  /-- `decode`, for the project. -/
  decode : K → ℤ → Text → Option FirebaseClaims

/-- **A call**: a token and what the clocks and the fetches come to. A call looks in the cache at
most twice, and forces a refresh in between. -/
structure Call (K : Type) where
  token : Text
  provider : Provider
  now : ℤ
  first : Attempt K
  forced : Attempt K
  second : Attempt K
  first_le_forced : first.finish ≤ forced.start
  forced_le_second : forced.finish ≤ second.start

section Verify

variable (v : SignedVerifier K)

/-- The key id that a token names. -/
def keyIdOf (token : Text) : Except AppError Text :=
  match v.decodeHeader token with
  | none => .error (.invalid "The sign-in token is malformed.")
  | some header =>
    if header.isRs256 then
      match header.kid with
      | none => .error (.invalid "The sign-in token names no signing key.")
      | some keyId => .ok keyId
    else .error (.invalid "The sign-in token is not RS256-signed.")

/-- A key by its id, after a forced refresh if there is none. -/
def findKey (keyId : Text) (c : Call K) (s : Cache K) : Cache K × Except AppError (Sighting K) :=
  match key keyId c.first s with
  | (s, .error e) => (s, .error e)
  | (s, .ok (some sighting)) => (s, .ok sighting)
  | (s, .ok none) =>
    match refreshIfAllowed c.forced s with
    | (s, .error e) => (s, .error e)
    | (s, .ok ()) =>
      match key keyId c.second s with
      | (s, .error e) => (s, .error e)
      | (s, .ok (some sighting)) => (s, .ok sighting)
      | (s, .ok none) =>
        (s, .error (.invalid "The sign-in token was signed by an unknown key."))

/-- **`verify_signed`**: the claims of a token, and the key that it was decoded under. -/
def verifySigned (c : Call K) (s : Cache K) :
    Cache K × Except AppError (FirebaseClaims × Sighting K) :=
  match keyIdOf v c.token with
  | .error e => (s, .error e)
  | .ok keyId =>
    match findKey keyId c s with
    | (s, .error e) => (s, .error e)
    | (s, .ok sighting) =>
      match v.decode sighting.key c.now c.token with
      | none => (s, .error (.invalid "The sign-in token is not valid."))
      | some claims => (s, .ok (claims, sighting))

/-- What follows from the claims of a token. -/
def identify (c : Call K) (claims : FirebaseClaims) : Except AppError VerifiedIdentity := do
  checkClaims v.projectId c.now c.provider claims
  let subject ← providerSubject c.provider claims
  return identityOf subject claims

/-- **`verify`**: who signed in, and the key that says so. -/
def verify (c : Call K) (s : Cache K) :
    Cache K × Except AppError (VerifiedIdentity × Sighting K) :=
  match verifySigned v c s with
  | (s, .error e) => (s, .error e)
  | (s, .ok (claims, sighting)) => (s, (identify v c claims).map fun identity => (identity, sighting))

/-- What is accepted: a token, and the key that it was accepted under. -/
def acceptedBy (c : Call K) (s : Cache K) : List (Text × Sighting K) :=
  match (verify v c s).2 with
  | .ok (_, sighting) => [(c.token, sighting)]
  | .error _ => []

/-- **A run of calls**: what is kept at its end, and what was accepted. -/
def run : List (Call K) → Cache K → Cache K × List (Text × Sighting K)
  | [], s => (s, [])
  | c :: cs, s =>
    let rest := run cs (verify v c s).1
    (rest.1, acceptedBy v c s ++ rest.2)

end Verify

/-! ### What is kept -/

/-- The calls follow one another, from an instant on. -/
def Timely : ℕ → List (Call K) → Prop
  | _, [] => True
  | now, c :: cs => now ≤ c.first.start ∧ Timely c.second.finish cs

/-- The fetches are `minRefreshInterval` apart. -/
def Spaced (s : Cache K) : Prop :=
  s.fetches.Pairwise fun f g : Fetch K =>
    f.attempt.start + minRefreshInterval ≤ g.attempt.start

/-- **A token is accepted under a key of its id, of a set that was fetched** and is within its
lifetime and `maxStaleness`. -/
structure Covered (v : SignedVerifier K) (s : Cache K) (x : Text × Sighting K) : Prop where
  keyId : keyIdOf v x.1 = .ok x.2.keyId
  key : x.2.set.keys x.2.keyId = some x.2.key
  fetched : ∃ f ∈ s.fetches, f.attempt.set = some x.2.set
  not_before : x.2.set.fetchedAt ≤ x.2.seenAt
  in_time : x.2.seenAt < x.2.set.fetchedAt + x.2.set.maxAge + maxStaleness

/-- **The keys are kept well**: what is accepted is covered, and fetches are apart. -/
structure KeysKept (v : SignedVerifier K) (calls : List (Call K)) : Prop where
  covered : ∀ x ∈ (run v calls {}).2, Covered v (run v calls {}).1 x
  spaced : Spaced (run v calls {}).1

/-- A lookup that finds no set in its lifetime comes late enough after every fetch. -/
def LookupCalm (a : Attempt K) (s : Cache K) : Prop :=
  s.fresh a.start = none → ∀ f ∈ s.fetches, f.attempt.start + minRefreshInterval ≤ a.start

/-- A forced refresh that is let through comes late enough after the fetches of lookups. -/
def ForceCalm (a : Attempt K) (s : Cache K) : Prop :=
  s.allows a.start = true → ∀ f ∈ s.fetches, f.forced = false →
    f.attempt.start + minRefreshInterval ≤ a.start

/-- The lookups and the forced refresh of a call come late enough. -/
def Calm (v : SignedVerifier K) (c : Call K) (s : Cache K) : Prop :=
  ∀ keyId, keyIdOf v c.token = .ok keyId →
    LookupCalm c.first s ∧
      ((key keyId c.first s).2 = .ok none → ForceCalm c.forced (key keyId c.first s).1 ∧
        ((refreshIfAllowed c.forced (key keyId c.first s).1).2 = .ok () →
          LookupCalm c.second (refreshIfAllowed c.forced (key keyId c.first s).1).1))

/-- All calls of a run are calm, each in the state that it finds. -/
def CalmRun (v : SignedVerifier K) : List (Call K) → Cache K → Prop
  | [], _ => True
  | c :: cs, s => Calm v c s ∧ CalmRun v cs (verify v c s).1

/-! ### One go -/

variable {s : Cache K} {a : Attempt K} {keyId : Text} {now : ℕ}

theorem Cache.fresh_eq_some {set : KeySet K} :
    s.fresh now = some set ↔ s.cache = some set ∧ now - set.fetchedAt < set.maxAge := by
  rw [fresh, Option.filter_eq_some_iff, KeySet.isFresh, decide_eq_true_iff]

theorem Cache.usable_eq_some {set : KeySet K} :
    s.usable now = some set ↔
      s.cache = some set ∧ now - set.fetchedAt < set.maxAge + maxStaleness := by
  rw [usable, Option.filter_eq_some_iff, KeySet.isUsable, decide_eq_true_iff]

/-- What a fetch can do. -/
theorem fetch_cases (forced : Bool) (a : Attempt K) (s : Cache K) :
    (∃ set, a.set = some set ∧ set.fetchedAt = a.finish ∧
      fetch forced a s = ({ s.log forced a with cache := some set }, .ok ())) ∨
      ∃ e, fetch forced a s = (s.log forced a, .error e) := by
  rcases hresult : a.result with e | ⟨keys, maxAge⟩
  · exact .inr ⟨e, by rw [fetch, hresult]⟩
  · exact .inl ⟨⟨keys, a.finish, maxAge⟩, by rw [Attempt.set, hresult], rfl, by rw [fetch, hresult]⟩

/-- **What a lookup can do**: it finds a set in its lifetime, fetches one, falls back on what is
there, or fails. -/
theorem key_cases (keyId : Text) (a : Attempt K) (s : Cache K) :
    (∃ set, s.fresh a.start = some set ∧ key keyId a s = (s, .ok (set.sight keyId a.start))) ∨
      s.fresh a.start = none ∧
        ((∃ set, a.set = some set ∧ set.fetchedAt = a.finish ∧
            key keyId a s =
              ({ s.log false a with cache := some set }, .ok (set.sight keyId a.finish))) ∨
          (∃ set, s.usable a.finish = some set ∧
            key keyId a s = (s.log false a, .ok (set.sight keyId a.finish))) ∨
          ∃ e, key keyId a s = (s.log false a, .error e)) := by
  rcases hfresh : s.fresh a.start with _ | set
  · refine .inr ⟨rfl, ?_⟩
    rcases fetch_cases false a s with ⟨set, hset, hat, hfetch⟩ | ⟨e, hfetch⟩
    · refine .inl ⟨set, hset, hat, ?_⟩
      simp only [key, hfresh, hfetch, Option.bind_some]
    · rcases husable : (s.log false a).usable a.finish with _ | set
      · exact .inr (.inr ⟨e, by simp only [key, hfresh, hfetch, husable]⟩)
      · exact .inr (.inl ⟨set, husable, by simp only [key, hfresh, hfetch, husable]⟩)
  · exact .inl ⟨set, rfl, by simp only [key, hfresh]⟩

/-- **What a forced refresh can do.** -/
theorem refreshIfAllowed_cases (a : Attempt K) (s : Cache K) :
    s.allows a.start = false ∧ refreshIfAllowed a s = (s, .ok ()) ∨
      s.allows a.start = true ∧ ∃ cache answer, refreshIfAllowed a s =
          ({ s.log true a with lastForcedRefresh := some a.start, cache := cache }, answer) ∧
        (cache = s.cache ∨ ∃ set, cache = some set ∧ a.set = some set ∧
          set.fetchedAt = a.finish) := by
  rw [refreshIfAllowed]
  rcases hallows : s.allows a.start with _ | _
  · exact .inl ⟨rfl, if_neg Bool.false_ne_true⟩
  · refine .inr ⟨rfl, ?_⟩
    rw [if_pos rfl]
    rcases fetch_cases true a { s with lastForcedRefresh := some a.start } with
      ⟨set, hset, hat, hfetch⟩ | ⟨e, hfetch⟩
    · exact ⟨some set, _, hfetch, .inr ⟨set, rfl, hset, hat⟩⟩
    · exact ⟨s.cache, _, hfetch, .inl rfl⟩

/-- The fetches of a go are added to those that were there. -/
theorem fetches_key : s.fetches <+: (key keyId a s).1.fetches := by
  rcases key_cases keyId a s with ⟨set, -, h⟩ | ⟨-, ⟨set, -, -, h⟩ | ⟨set, -, h⟩ | ⟨e, h⟩⟩
  · rw [h]
  all_goals
    rw [h]
    exact List.prefix_append _ _

theorem fetches_refreshIfAllowed : s.fetches <+: (refreshIfAllowed a s).1.fetches := by
  rcases refreshIfAllowed_cases a s with ⟨-, h⟩ | ⟨-, cache, answer, h, -⟩
  · rw [h]
  · rw [h]
    exact List.prefix_append _ _

/-! ### The invariant -/

/-- **What holds of a cache at any time**: its set was fetched, and a forced refresh was let through
no later than the last of them. -/
structure Cache.Kept (s : Cache K) (now : ℕ) : Prop where
  cached : ∀ set, s.cache = some set →
    set.fetchedAt ≤ now ∧ ∃ f ∈ s.fetches, f.attempt.set = some set
  limited : ∀ f ∈ s.fetches, f.forced = true →
    ∃ last, s.lastForcedRefresh = some last ∧ f.attempt.start ≤ last

/-- A later instant will do. -/
theorem Cache.Kept.later {later : ℕ} (h : s.Kept now) (hle : now ≤ later) : s.Kept later :=
  ⟨fun set hset => ⟨(h.cached set hset).1.trans hle, (h.cached set hset).2⟩, h.limited⟩

/-- A lookup keeps the invariant. -/
theorem Cache.Kept.key (h : s.Kept now) (hnow : now ≤ a.start) :
    (key keyId a s).1.Kept a.finish := by
  have hlater := h.later (hnow.trans a.start_le_finish)
  have hlimited : ∀ f ∈ s.fetches ++ [⟨false, a⟩], f.forced = true →
      ∃ last, s.lastForcedRefresh = some last ∧ f.attempt.start ≤ last := by
    intro f hf hforced
    rcases List.mem_append.mp hf with hf | hf
    · exact h.limited f hf hforced
    · rw [List.mem_singleton.mp hf] at hforced
      exact absurd hforced Bool.false_ne_true
  have hlogged : (s.log false a).Kept a.finish := by
    refine ⟨fun set hset => ?_, hlimited⟩
    obtain ⟨hle, f, hf, hfset⟩ := hlater.cached set hset
    exact ⟨hle, f, List.mem_append_left _ hf, hfset⟩
  rcases key_cases keyId a s with ⟨set, -, hkey⟩ | ⟨-, ⟨set, hset, hat, hkey⟩ | ⟨set, -, hkey⟩ |
    ⟨e, hkey⟩⟩
  · rw [hkey]
    exact hlater
  · rw [hkey]
    refine ⟨fun set' hset' => ?_, hlimited⟩
    obtain rfl := Option.some.inj hset'
    exact ⟨hat.le, ⟨false, a⟩, List.mem_append_right _ (List.mem_singleton_self _), hset⟩
  · rw [hkey]
    exact hlogged
  · rw [hkey]
    exact hlogged

/-- A forced refresh keeps the invariant: it is later than those before it. -/
theorem Cache.Kept.refreshIfAllowed (h : s.Kept now) (hnow : now ≤ a.start) :
    (refreshIfAllowed a s).1.Kept a.finish := by
  have hlater := h.later (hnow.trans a.start_le_finish)
  rcases refreshIfAllowed_cases a s with ⟨-, hrefresh⟩ | ⟨hallows, cache, answer, hrefresh, hcache⟩
  · rw [hrefresh]
    exact hlater
  · rw [hrefresh]
    refine ⟨fun set hset => ?_, fun f hf hforced => ⟨a.start, rfl, ?_⟩⟩
    · rcases hcache with rfl | ⟨set', rfl, hset', hat⟩
      · obtain ⟨hle, f, hf, hfset⟩ := hlater.cached set hset
        exact ⟨hle, f, List.mem_append_left _ hf, hfset⟩
      · obtain rfl := Option.some.inj hset
        exact ⟨hat.le, ⟨true, a⟩, List.mem_append_right _ (List.mem_singleton_self _), hset'⟩
    · rcases List.mem_append.mp hf with hf | hf
      · obtain ⟨last, hlast, hle⟩ := h.limited f hf hforced
        rw [Cache.allows, hlast, Option.all_some, decide_eq_true_iff] at hallows
        rw [minRefreshInterval] at hallows
        omega
      · rw [List.mem_singleton.mp hf]

/-! ### How far apart -/

/-- Fetches are apart if their starts are. -/
theorem spaced_iff_starts : Spaced s ↔
    (s.fetches.map fun f => f.attempt.start).Pairwise fun t u => t + minRefreshInterval ≤ u := by
  rw [Spaced, List.pairwise_map]

/-- Fetches are apart after one more if they were and it comes late enough. -/
theorem spaced_iff_of_append {s' : Cache K} {forced : Bool}
    (h : s'.fetches = s.fetches ++ [⟨forced, a⟩]) :
    Spaced s' ↔
      Spaced s ∧ ∀ f ∈ s.fetches, f.attempt.start + minRefreshInterval ≤ a.start := by
  rw [Spaced, h, List.pairwise_append]
  simp only [List.pairwise_singleton, List.mem_singleton, forall_eq, true_and]
  rfl

/-- **A lookup keeps the fetches apart** exactly if it is calm. -/
theorem spaced_key_iff : Spaced (key keyId a s).1 ↔ Spaced s ∧ LookupCalm a s := by
  rcases key_cases keyId a s with ⟨set, hfresh, h⟩ | ⟨hfresh, hfetched⟩
  · have hcalm : LookupCalm a s := fun hnone => absurd (hnone.symm.trans hfresh) nofun
    rw [h]
    exact ⟨fun hspaced => ⟨hspaced, hcalm⟩, And.left⟩
  · have hfetches : (key keyId a s).1.fetches = s.fetches ++ [⟨false, a⟩] := by
      rcases hfetched with ⟨set, -, -, h⟩ | ⟨set, -, h⟩ | ⟨e, h⟩ <;> (rw [h]; rfl)
    rw [spaced_iff_of_append hfetches, LookupCalm, forall_prop_of_true hfresh]

/-- **A forced refresh keeps the fetches apart** exactly if it is calm: it is apart from the forced
ones anyway. -/
theorem spaced_refreshIfAllowed_iff (hkept : s.Kept now) :
    Spaced (refreshIfAllowed a s).1 ↔ Spaced s ∧ ForceCalm a s := by
  rcases refreshIfAllowed_cases a s with ⟨hallows, h⟩ | ⟨hallows, cache, answer, h, -⟩
  · have hcalm : ForceCalm a s := fun htrue => absurd (htrue.symm.trans hallows) nofun
    rw [h]
    exact ⟨fun hspaced => ⟨hspaced, hcalm⟩, And.left⟩
  · have hforced : ∀ f ∈ s.fetches, f.forced = true →
        f.attempt.start + minRefreshInterval ≤ a.start := by
      intro f hf hforced
      obtain ⟨last, hlast, hle⟩ := hkept.limited f hf hforced
      rw [Cache.allows, hlast, Option.all_some, decide_eq_true_iff] at hallows
      rw [minRefreshInterval] at hallows ⊢
      omega
    have hfetches : (refreshIfAllowed a s).1.fetches = s.fetches ++ [⟨true, a⟩] := by rw [h]; rfl
    rw [spaced_iff_of_append hfetches, ForceCalm, forall_prop_of_true hallows]
    refine and_congr_right fun _ => ⟨fun hall f hf _ => hall f hf, fun hlookups f hf => ?_⟩
    rcases hf' : f.forced with _ | _
    · exact hlookups f hf hf'
    · exact hforced f hf hf'

/-! ### Keys that are found -/

/-- A key is of its id, of a set that was fetched, and in time. -/
structure Sighting.Sound (x : Sighting K) (keyId : Text) (s : Cache K) : Prop where
  keyId : x.keyId = keyId
  key : x.set.keys x.keyId = some x.key
  fetched : ∃ f ∈ s.fetches, f.attempt.set = some x.set
  not_before : x.set.fetchedAt ≤ x.seenAt
  in_time : x.seenAt < x.set.fetchedAt + x.set.maxAge + maxStaleness

/-- It stays so when there are more fetches. -/
theorem Sighting.Sound.mono {x : Sighting K} {s' : Cache K} (h : x.Sound keyId s)
    (hgrown : s.fetches <+: s'.fetches) : x.Sound keyId s' := by
  obtain ⟨f, hf, hset⟩ := h.fetched
  exact { h with fetched := ⟨f, hgrown.subset hf, hset⟩ }

/-- A key that is seen in a fetched set, in time. -/
theorem sound_of_sight {set : KeySet K} {x : Sighting K} {seenAt : ℕ}
    (hx : set.sight keyId seenAt = some x) (hfetched : ∃ f ∈ s.fetches, f.attempt.set = some set)
    (hle : set.fetchedAt ≤ seenAt) (htime : seenAt - set.fetchedAt < set.maxAge + maxStaleness) :
    x.Sound keyId s := by
  obtain ⟨key, hkey, rfl⟩ := Option.map_eq_some_iff.mp hx
  refine ⟨rfl, hkey, hfetched, hle, ?_⟩
  show seenAt < set.fetchedAt + set.maxAge + maxStaleness
  omega

/-- **A key that a lookup returns is sound.** -/
theorem sound_of_key {x : Sighting K} (hkept : s.Kept now) (hnow : now ≤ a.start)
    (h : (key keyId a s).2 = .ok (some x)) : x.Sound keyId (key keyId a s).1 := by
  have hstaleness : 0 < maxStaleness := by decide
  have hstart := a.start_le_finish
  rcases key_cases keyId a s with ⟨set, hfresh, hkey⟩ | ⟨-, ⟨set, hset, hat, hkey⟩ |
    ⟨set, husable, hkey⟩ | ⟨e, hkey⟩⟩
  · obtain ⟨hcache, htime⟩ := Cache.fresh_eq_some.mp hfresh
    obtain ⟨hle, hfetched⟩ := hkept.cached set hcache
    rw [hkey] at h ⊢
    exact sound_of_sight (Except.ok.inj h) hfetched (hle.trans hnow) (by omega)
  · rw [hkey] at h ⊢
    exact sound_of_sight (Except.ok.inj h)
      ⟨⟨false, a⟩, List.mem_append_right _ (List.mem_singleton_self _), hset⟩ hat.le (by omega)
  · obtain ⟨hcache, htime⟩ := Cache.usable_eq_some.mp husable
    obtain ⟨hle, f, hf, hfset⟩ := hkept.cached set hcache
    rw [hkey] at h ⊢
    exact sound_of_sight (Except.ok.inj h) ⟨f, List.mem_append_left _ hf, hfset⟩
      (hle.trans (hnow.trans hstart)) htime
  · rw [hkey] at h
    cases h

/-! ### Calls and runs -/

section Run

variable {v : SignedVerifier K} {c : Call K} {calls : List (Call K)}

/-- **The course of a call**: it ends with the first lookup, unless this finds no key, and with the
forced refresh, unless this is done. -/
theorem findKey_cases (keyId : Text) (c : Call K) (s : Cache K) :
    ((key keyId c.first s).2 ≠ .ok none ∧ (findKey keyId c s).1 = (key keyId c.first s).1 ∧
      ∀ x, (findKey keyId c s).2 = .ok x → (key keyId c.first s).2 = .ok (some x)) ∨
    (key keyId c.first s).2 = .ok none ∧
      ((refreshIfAllowed c.forced (key keyId c.first s).1).2 ≠ .ok () ∧
        (findKey keyId c s).1 = (refreshIfAllowed c.forced (key keyId c.first s).1).1 ∧
        (∀ x, (findKey keyId c s).2 ≠ .ok x) ∨
      (refreshIfAllowed c.forced (key keyId c.first s).1).2 = .ok () ∧
        (findKey keyId c s).1 =
          (key keyId c.second (refreshIfAllowed c.forced (key keyId c.first s).1).1).1 ∧
        ∀ x, (findKey keyId c s).2 = .ok x →
          (key keyId c.second (refreshIfAllowed c.forced (key keyId c.first s).1).1).2 =
            .ok (some x)) := by
  rw [findKey]
  rcases key keyId c.first s with ⟨s₁, e | _ | x⟩
  · exact .inl ⟨nofun, rfl, nofun⟩
  · refine .inr ⟨rfl, ?_⟩
    dsimp only
    rcases refreshIfAllowed c.forced s₁ with ⟨s₂, e | _⟩
    · exact .inl ⟨nofun, rfl, nofun⟩
    · refine .inr ⟨rfl, ?_⟩
      dsimp only
      rcases key keyId c.second s₂ with ⟨s₃, e | _ | x⟩
      · exact ⟨rfl, nofun⟩
      · exact ⟨rfl, nofun⟩
      · exact ⟨rfl, fun y hy => by rw [Except.ok.inj hy]⟩
  · exact .inl ⟨nofun, rfl, fun y hy => by rw [Except.ok.inj hy]⟩

/-- A call keeps the invariant. -/
theorem Cache.Kept.findKey (h : s.Kept now) (hnow : now ≤ c.first.start) :
    (findKey keyId c s).1.Kept c.second.finish := by
  have hfirst : (Firebase.key keyId c.first s).1.Kept c.first.finish := h.key hnow
  have hforced := hfirst.refreshIfAllowed c.first_le_forced
  have hforcedLe := c.forced_le_second.trans c.second.start_le_finish
  rcases findKey_cases keyId c s with ⟨-, hend, -⟩ | ⟨-, ⟨-, hend, -⟩ | ⟨-, hend, -⟩⟩
  · rw [hend]
    exact hfirst.later (c.first_le_forced.trans (c.forced.start_le_finish.trans hforcedLe))
  · rw [hend]
    exact hforced.later hforcedLe
  · rw [hend]
    exact hforced.key c.forced_le_second

/-- The fetches of a call are added to those that were there. -/
theorem fetches_findKey : s.fetches <+: (findKey keyId c s).1.fetches := by
  have hfirst : s.fetches <+: (key keyId c.first s).1.fetches := fetches_key
  have hforced := hfirst.trans (fetches_refreshIfAllowed (a := c.forced))
  rcases findKey_cases keyId c s with ⟨-, hend, -⟩ | ⟨-, ⟨-, hend, -⟩ | ⟨-, hend, -⟩⟩
  · rwa [hend]
  · rwa [hend]
  · rw [hend]
    exact hforced.trans fetches_key

/-- **A call keeps the fetches apart** exactly if it is calm. -/
theorem spaced_findKey_iff (h : s.Kept now) (hnow : now ≤ c.first.start) :
    Spaced (findKey keyId c s).1 ↔ Spaced s ∧ LookupCalm c.first s ∧
      ((key keyId c.first s).2 = .ok none → ForceCalm c.forced (key keyId c.first s).1 ∧
        ((refreshIfAllowed c.forced (key keyId c.first s).1).2 = .ok () →
          LookupCalm c.second (refreshIfAllowed c.forced (key keyId c.first s).1).1)) := by
  have hfirst : (Firebase.key keyId c.first s).1.Kept c.first.finish := h.key hnow
  rcases findKey_cases keyId c s with ⟨hfound, hend, -⟩ | ⟨hnone, ⟨hfailed, hend, -⟩ |
    ⟨hdone, hend, -⟩⟩
  · rw [hend, spaced_key_iff, forall_prop_of_false hfound, and_true]
  · rw [hend, spaced_refreshIfAllowed_iff hfirst, spaced_key_iff, forall_prop_of_true hnone,
      forall_prop_of_false hfailed, and_true, and_assoc]
  · rw [hend, spaced_key_iff, spaced_refreshIfAllowed_iff hfirst, spaced_key_iff,
      forall_prop_of_true hnone, forall_prop_of_true hdone, and_assoc, and_assoc]

/-- **A key that a call finds is sound.** -/
theorem sound_of_findKey {x : Sighting K} (h : s.Kept now) (hnow : now ≤ c.first.start)
    (hx : (findKey keyId c s).2 = .ok x) : x.Sound keyId (findKey keyId c s).1 := by
  have hfirst : (Firebase.key keyId c.first s).1.Kept c.first.finish := h.key hnow
  rcases findKey_cases keyId c s with ⟨-, hend, hfound⟩ | ⟨-, ⟨-, -, hfailed⟩ | ⟨-, hend, hfound⟩⟩
  · rw [hend]
    exact sound_of_key h hnow (hfound x hx)
  · exact absurd hx (hfailed x)
  · rw [hend]
    exact sound_of_key (hfirst.refreshIfAllowed c.first_le_forced) c.forced_le_second (hfound x hx)

/-- What a call leaves is left by the search for its key. -/
theorem verify_fst (v : SignedVerifier K) (c : Call K) (s : Cache K) :
    (∃ e, keyIdOf v c.token = .error e ∧ (verify v c s).1 = s) ∨
      ∃ keyId, keyIdOf v c.token = .ok keyId ∧ (verify v c s).1 = (findKey keyId c s).1 := by
  rw [verify, verifySigned]
  rcases hid : keyIdOf v c.token with e | keyId
  · exact .inl ⟨e, rfl, rfl⟩
  · refine .inr ⟨keyId, rfl, ?_⟩
    rcases hfind : findKey keyId c s with ⟨s', e | x⟩
    · simp only [hfind]
    · rcases hdecode : v.decode x.key c.now c.token with _ | claims
      · simp only [hfind, hdecode]
      · simp only [hfind, hdecode]

/-- What is accepted was found, and the token is decoded under it. -/
theorem of_mem_acceptedBy {x : Text × Sighting K} (h : x ∈ acceptedBy v c s) :
    ∃ keyId, keyIdOf v x.1 = .ok keyId ∧ keyIdOf v c.token = .ok keyId ∧
      (findKey keyId c s).2 = .ok x.2 := by
  rw [acceptedBy, verify, verifySigned] at h
  rcases hid : keyIdOf v c.token with e | keyId
  · simp only [hid, List.not_mem_nil] at h
  rcases hfind : findKey keyId c s with ⟨s', e | y⟩
  · simp only [hid, hfind, List.not_mem_nil] at h
  rcases hdecode : v.decode y.key c.now c.token with _ | claims
  · simp only [hid, hfind, hdecode, List.not_mem_nil] at h
  rcases hidentify : identify v c claims with e | identity
  · simp only [hid, hfind, hdecode, hidentify, Except.map, List.not_mem_nil] at h
  · simp only [hid, hfind, hdecode, hidentify, Except.map, List.mem_singleton] at h
    subst h
    exact ⟨keyId, hid, rfl, by rw [hfind]⟩

/-- A call keeps the invariant. -/
theorem Cache.Kept.verify (h : s.Kept now) (hnow : now ≤ c.first.start) :
    (verify v c s).1.Kept c.second.finish := by
  rcases verify_fst v c s with ⟨e, -, hend⟩ | ⟨keyId, -, hend⟩
  · have hfirst := c.first.start_le_finish.trans c.first_le_forced
    have hforced := c.forced.start_le_finish.trans c.forced_le_second
    rw [hend]
    exact h.later (hnow.trans (hfirst.trans (hforced.trans c.second.start_le_finish)))
  · rw [hend]
    exact h.findKey hnow

/-- **A call keeps the fetches apart** exactly if it is calm. -/
theorem spaced_verify_iff (h : s.Kept now) (hnow : now ≤ c.first.start) :
    Spaced (verify v c s).1 ↔ Spaced s ∧ Calm v c s := by
  rcases verify_fst v c s with ⟨e, hid, hend⟩ | ⟨keyId, hid, hend⟩
  · have hcalm : Calm v c s := fun keyId hkeyId => absurd (hid.symm.trans hkeyId) nofun
    rw [hend]
    exact ⟨fun hspaced => ⟨hspaced, hcalm⟩, And.left⟩
  · rw [hend, spaced_findKey_iff h hnow]
    refine and_congr_right fun _ => ⟨fun hcalm keyId' hid' => ?_, fun hcalm => hcalm keyId hid⟩
    obtain rfl := Except.ok.inj (hid.symm.trans hid')
    exact hcalm

/-- The fetches of a run are added to those that were there. -/
theorem fetches_run : s.fetches <+: (run v calls s).1.fetches := by
  induction calls generalizing s with
  | nil => exact List.prefix_refl _
  | cons c calls ih =>
    refine List.IsPrefix.trans ?_ (ih (s := (verify v c s).1))
    rcases verify_fst v c s with ⟨e, -, hend⟩ | ⟨keyId, -, hend⟩
    · rw [hend]
    · rw [hend]
      exact fetches_findKey

/-- **What a run accepts is covered.** -/
theorem covered_run (h : s.Kept now) (htimely : Timely now calls) {x : Text × Sighting K}
    (hx : x ∈ (run v calls s).2) : Covered v (run v calls s).1 x := by
  induction calls generalizing s now with
  | nil => cases hx
  | cons c calls ih =>
    obtain ⟨hnow, hlater⟩ := htimely
    rcases List.mem_append.mp hx with hx | hx
    · obtain ⟨keyId, hid, hid', hfound⟩ := of_mem_acceptedBy hx
      have hend : (verify v c s).1 = (findKey keyId c s).1 := by
        rcases verify_fst v c s with ⟨e, he, -⟩ | ⟨keyId', hkeyId, hend⟩
        · exact absurd (he.symm.trans hid') nofun
        · rw [hend, Except.ok.inj (hkeyId.symm.trans hid')]
      have hfetches : (findKey keyId c s).1.fetches <+: (run v (c :: calls) s).1.fetches :=
        hend ▸ fetches_run
      have hsound := (sound_of_findKey h hnow hfound).mono hfetches
      exact ⟨by rw [hid, hsound.keyId], hsound.key, hsound.fetched, hsound.not_before,
        hsound.in_time⟩
    · exact ih (h.verify hnow) hlater hx

/-- **A run keeps the fetches apart** exactly if its calls are calm. -/
theorem spaced_run_iff (h : s.Kept now) (htimely : Timely now calls) :
    Spaced (run v calls s).1 ↔ Spaced s ∧ CalmRun v calls s := by
  induction calls generalizing s now with
  | nil => exact ⟨fun hspaced => ⟨hspaced, trivial⟩, And.left⟩
  | cons c calls ih =>
    obtain ⟨hnow, hlater⟩ := htimely
    rw [run, ih (h.verify hnow) hlater, spaced_verify_iff h hnow, CalmRun, and_assoc]

/-- A verifier starts with nothing. -/
theorem Cache.kept_empty : ({} : Cache K).Kept now := ⟨nofun, nofun⟩

/-- **When the keys are kept well**: in every run of calls, a token is accepted only under a key of a
set that was fetched and is within its lifetime and `maxStaleness`; and fetches are
`minRefreshInterval` apart exactly if every lookup that finds no set in its lifetime, and every
forced refresh that is let through, comes late enough after the fetches that nothing limits. -/
theorem keysKept_iff (v : SignedVerifier K) (calls : List (Call K)) (h : Timely 0 calls) :
    KeysKept v calls ↔ CalmRun v calls {} := by
  have hspaced := spaced_run_iff (v := v) Cache.kept_empty h
  constructor
  · intro hkept
    exact (hspaced.mp hkept.spaced).2
  · intro hcalm
    exact ⟨fun x hx => covered_run Cache.kept_empty h hx, hspaced.mpr ⟨List.Pairwise.nil, hcalm⟩⟩

end Run

/-! ### Two sign-ins while the keys cannot be fetched -/

/-- A verifier that takes a token for its key id, and reads a subject from any. -/
def SignedVerifier.plain : SignedVerifier Unit where
  projectId := []
  decodeHeader := fun token => some ⟨true, some token⟩
  decode := fun _ now _ => some
    { sub := "uid".toList
      authTime := now
      exp := now + 3600
      iat := now
      iss := issuer []
      aud := []
      signInProvider := firebaseProviderId .google
      identities := fun slot =>
        if slot = firebaseProviderId .google then some ["subject".toList] else none }

/-- An attempt at a second, with what a fetch would return. -/
def attemptAt (second : ℕ) (result : Except AppError ((Text → Option Unit) × ℕ)) :
    Attempt Unit where
  start := second * 10 ^ 9
  finish := second * 10 ^ 9
  result := result
  start_le_finish := le_rfl

/-- A call at a second. -/
def callAt (second : ℕ) (result : Except AppError ((Text → Option Unit) × ℕ)) : Call Unit where
  token := "token".toList
  provider := .google
  now := second
  first := attemptAt second result
  forced := attemptAt second result
  second := attemptAt second result
  first_le_forced := le_rfl
  forced_le_second := le_rfl

/-- What a call is told when the keys cannot be fetched. -/
def unreachable : Except AppError ((Text → Option Unit) × ℕ) :=
  .error (.internal "could not fetch Google's keys")

/-- A set of one key, that lives for an hour. -/
def oneKey : Except AppError ((Text → Option Unit) × ℕ) :=
  .ok (fun keyId => if keyId = "token".toList then some () else none, 3600 * 10 ^ 9)

/-- Two sign-ins a second apart, of which the first fetches the keys: the second finds them, and
both are accepted. -/
theorem keysKept_twoSignIns :
    KeysKept SignedVerifier.plain [callAt 1 oneKey, callAt 2 oneKey] ∧
      (run SignedVerifier.plain [callAt 1 oneKey, callAt 2 oneKey] {}).2.length = 2 := by
  refine ⟨(keysKept_iff SignedVerifier.plain [callAt 1 oneKey, callAt 2 oneKey]
    ⟨by decide, by decide, trivial⟩).mpr ⟨?_, ?_, trivial⟩, by decide +kernel⟩
  · intro keyId hid
    obtain rfl : "token".toList = keyId := Except.ok.inj hid
    exact ⟨fun _ f hf => absurd hf List.not_mem_nil, nofun⟩
  · intro keyId hid
    obtain rfl : "token".toList = keyId := Except.ok.inj hid
    exact ⟨nofun, nofun⟩

/-- **Every sign-in asks again** while the keys cannot be fetched: two that are a second apart fetch
twice. -/
theorem keysKept_unreachable :
    ¬ KeysKept SignedVerifier.plain [callAt 1 unreachable, callAt 2 unreachable] := by
  intro hkept
  have hstarts : ((run SignedVerifier.plain [callAt 1 unreachable, callAt 2 unreachable]
      {}).1.fetches.map fun f => f.attempt.start) = [1 * 10 ^ 9, 2 * 10 ^ 9] := by decide +kernel
  have hspaced := spaced_iff_starts.mp hkept.spaced
  rw [hstarts] at hspaced
  exact absurd hspaced (by decide)

end Marketplace.Firebase
