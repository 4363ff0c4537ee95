import Marketplace.Auth.DeviceCookie
import Marketplace.Words.Split

/-!
# Origins

A browser says in a header which site a request comes from, and the site says which one it is; the
two are compared as normalised texts (`Marketplace.Http.Origin.parse`,
`Marketplace.Http.verify`). The texts that are accepted are a scheme, a host and perhaps a port
(`Marketplace.Http.parse_eq_ok_iff`), and two of them have the same normalised text if they are of
the same site, and only then (`Marketplace.Http.normalised_eq_iff`). The normalised text itself is
accepted, and is its own, unless it ends in a blank: a port is dropped that is the default, after a
host of which nothing was trimmed (`Marketplace.Http.isCanonical_iff`).
-/

namespace Marketplace.Http

open Search

/-! ### Texts -/

/-- `to_ascii_lowercase`. -/
def asciiLower (s : Text) : Text := s.map Char.toLower

/-- `str::split_once`, at a separator of several characters. -/
def splitOnceAt (sep : Text) : Text → Option (Text × Text)
  | [] => none
  | c :: s =>
    if sep <+: c :: s then some ([], (c :: s).drop sep.length)
    else (splitOnceAt sep s).map fun p => (c :: p.1, p.2)

/-- `str::parse::<u16>`: digits, with a plus before them or without. -/
def parseU16 (s : Text) : Option ℕ :=
  let n : Option ℕ := match s with
    | '+' :: ds => parseDigits ds
    | ds => parseDigits ds
  n.filter fun n => n < 2 ^ 16

/-! ### Origins -/

/-- `Origin`: the normalised `scheme://host[:port]`, and whether it is `https`. -/
structure Origin where
  normalised : Text
  secure : Bool
  deriving DecidableEq

namespace Origin

/-- `Origin::as_str`. -/
def asStr (origin : Origin) : Text := origin.normalised

/-- Whether a scheme is `https`, of the two that are supported. -/
def parseScheme (scheme : Text) : Except String Bool :=
  if scheme = "https".toList then .ok true
  else if scheme = "http".toList then .ok false
  else .error ("unsupported scheme \"" ++ String.ofList scheme ++ "\"; use http or https")

/-- What comes after the scheme, as a host and the text of a port. -/
def splitHost : Text → Except String (Text × Option Text)
  | '[' :: rest =>
    match splitOnce ']' rest with
    | none => .error "unclosed '[' in an IPv6 host"
    | some (host, []) => .ok ('[' :: (host ++ [']']), none)
    | some (host, ':' :: port) => .ok ('[' :: (host ++ [']']), some port)
    | some _ => .error "expected ':' or nothing after ']'"
  | rest =>
    match splitOnce ':' rest with
    | some (host, port) =>
      if ':' ∉ host ∧ ':' ∉ port then .ok (host, some port)
      else .error "bracket an IPv6 host, e.g. https://[::1]:8080"
    | none => .ok (rest, none)

/-- The port, if there is one. -/
def parsePort : Option Text → Except String (Option ℕ)
  | some text =>
    match parseU16 text with
    | some port => .ok (some port)
    | none => .error ("\"" ++ String.ofList text ++ "\" is not a valid port")
  | none => .ok none

/-- The normalised text: the default port is dropped. -/
def format (scheme host : Text) (port : Option ℕ) (defaultPort : ℕ) : Text :=
  match port with
  | some port =>
    if port ≠ defaultPort then scheme ++ "://".toList ++ host ++ ':' :: (toString port).toList
    else scheme ++ "://".toList ++ host
  | none => scheme ++ "://".toList ++ host

/-- **`Origin::parse`.** -/
def parse (raw : Text) : Except String Origin :=
  match splitOnceAt "://".toList (trim raw) with
  | none => .error "expected scheme://host[:port]"
  | some (scheme, rest) => do
    let scheme := asciiLower scheme
    let secure ← parseScheme scheme
    if '/' ∈ rest ∨ '?' ∈ rest ∨ '#' ∈ rest then
      .error "must not contain a path, query or fragment (and no trailing slash)"
    else if '@' ∈ rest then .error "must not contain credentials"
    else if rest = [] then .error "expected a host"
    else
      let (host, portText) ← splitHost rest
      let port ← parsePort portText
      let host := asciiLower host
      if host = [] ∨ host = "[]".toList then .error "expected a host"
      else
        let defaultPort := if secure then 443 else 80
        .ok { normalised := format scheme host port defaultPort, secure := secure }

end Origin

/-! ### Cross-site requests -/

section Csrf

variable (env : Cookie.Surroundings) (pepper : Text)

/-- `token_for_session`. -/
def tokenForSession (sessionId : Uuid) : Text :=
  env.encode64 (Cookie.peppered env pepper "csrf".toList (env.formatUuid sessionId))

/-- **`csrf::verify`.** -/
def verify (siteOrigin : Origin) (sessionId : Uuid) (presented originHeader : Option Text) :
    Except AppError Unit :=
  let isOther (origin : Text) : Bool :=
    match Origin.parse origin with
    | .ok parsed => parsed.asStr ≠ siteOrigin.asStr
    | .error _ => true
  if originHeader.any isOther then .error .forbidden
  else
    match presented with
    | none => .error .forbidden
    | some presented =>
      if tokenForSession env pepper sessionId = presented then .ok () else .error .forbidden

end Csrf

/-! ### The parts of an origin -/

/-- **A scheme, a host and perhaps a port**, as they are written. -/
structure Parts where
  scheme : Text
  host : Text
  portText : Option Text

/-- A host is an address in brackets, or a name. -/
inductive IsHost : Text → Prop
  | bracketed {inner : Text} : inner ≠ [] → ']' ∉ inner → IsHost ('[' :: (inner ++ [']']))
  | plain {host : Text} : host ≠ [] → host.head? ≠ some '[' → ':' ∉ host → IsHost host

namespace Parts

/-- What is after the scheme. -/
def rest (p : Parts) : Text := p.host ++ (p.portText.map (':' :: ·)).getD []

/-- The text that is made of the parts. -/
def text (p : Parts) : Text := p.scheme ++ "://".toList ++ p.rest

/-- The scheme is `https`. -/
def secure (p : Parts) : Bool := asciiLower p.scheme = "https".toList

/-- The port where none is written. -/
def defaultPort (p : Parts) : ℕ := if p.secure then 443 else 80

/-- **The effective port.** -/
def port (p : Parts) : Option ℕ :=
  match p.portText with
  | some text => parseU16 text
  | none => some p.defaultPort

/-- **The grammar of an origin.** -/
structure WellFormed (p : Parts) : Prop where
  scheme : asciiLower p.scheme = "https".toList ∨ asciiLower p.scheme = "http".toList
  host : IsHost p.host
  bare : ∀ c ∈ "/?#@".toList, c ∉ p.host
  port : ∀ text ∈ p.portText, (parseU16 text).isSome = true

/-- The parts are those of a text, in the grammar. -/
structure Of (raw : Text) (p : Parts) : Prop where
  text : trim raw = p.text
  wellFormed : p.WellFormed

end Parts

/-- **Two texts are of one site**: schemes and hosts agree but for the case of letters, and the
effective ports agree. -/
def SameSite (raw raw' : Text) : Prop :=
  ∃ p p' : Parts, p.Of raw ∧ p'.Of raw' ∧ asciiLower p.scheme = asciiLower p'.scheme ∧
    asciiLower p.host = asciiLower p'.host ∧ p.port = p'.port

/-- **The normalised text stands for the site.** It is accepted as itself, it is that of the other
texts of the site only, the text has nothing but a host and a port, and a request that comes with an
origin passes only if the origin is of the site. -/
structure IsCanonical (raw : Text) (origin : Origin) : Prop where
  reparses : Origin.parse origin.asStr = .ok origin
  agrees : ∀ raw' origin', Origin.parse raw' = .ok origin' →
    (origin.asStr = origin'.asStr ↔ SameSite raw raw')
  bare : ∃ scheme rest, trim raw = scheme ++ "://".toList ++ rest ∧
    (asciiLower scheme = "https".toList ∨ asciiLower scheme = "http".toList) ∧
    ∀ c ∈ "/?#@".toList, c ∉ rest
  guards : ∀ env pepper sessionId presented header,
    verify env pepper origin sessionId presented (some header) = .ok () → SameSite raw header

/-- The host is a name that ends in a blank. -/
def Parts.BlankHost (p : Parts) : Prop :=
  p.host.head? ≠ some '[' ∧ ∃ c ∈ p.host.getLast?, isWhitespace c = true

/-- **The host is a name that ends in a blank, and the default port is written after it.** -/
def EndsInBlank (raw : Text) : Prop :=
  ∃ p : Parts, p.Of raw ∧ p.BlankHost ∧ ∃ text ∈ p.portText, parseU16 text = some p.defaultPort

/-! ### Letters -/

variable {s t : Text} {c : Char} {p p' : Parts} {raw raw' : Text} {o o' : Origin}

/-- Lower case keeps a character that is no letter. -/
theorem mem_asciiLower (hc : c.isAlpha = false) : c ∈ asciiLower s ↔ c ∈ s := by
  have hiff := Ascii.toLower_iff (P := (· = c)) fun c' halpha heq => by
    rw [← heq, halpha] at hc
    exact Bool.noConfusion hc
  rw [asciiLower, List.mem_map]
  constructor
  · rintro ⟨c', hmem, hlower⟩
    rwa [← (hiff c').mp hlower]
  · exact fun hmem => ⟨c, hmem, (hiff c).mpr rfl⟩

theorem asciiLower_asciiLower (s : Text) : asciiLower (asciiLower s) = asciiLower s := by
  rw [asciiLower, asciiLower, List.map_map]
  exact List.map_congr_left fun c _ => Ascii.toLower_toLower c

/-- No letter is a blank. -/
theorem isWhitespace_toLower (c : Char) : isWhitespace c.toLower = true ↔ isWhitespace c = true := by
  refine Ascii.toLower_iff (P := fun c => isWhitespace c = true) (fun c halpha hblank => ?_) c
  have hletter := (Ascii.isAlpha_iff.mp halpha).imp Ascii.isUpper_iff.mp Ascii.isLower_iff.mp
  rw [isWhitespace_of_printed (by omega) (by omega)] at hblank
  exact Bool.noConfusion hblank

/-! ### Separators -/

theorem splitOnceAt_append (h : ':' ∉ s) (t : Text) :
    splitOnceAt "://".toList (s ++ "://".toList ++ t) = some (s, t) := by
  induction s with
  | nil => rfl
  | cons c s ih =>
    have hc : ':' ≠ c := fun hc => h (hc ▸ List.mem_cons_self)
    have hnot : ¬ "://".toList <+: c :: (s ++ "://".toList ++ t) := fun hprefix =>
      hc (List.cons_prefix_cons.mp hprefix).1
    rw [List.cons_append, List.cons_append, splitOnceAt, if_neg hnot,
      ih fun hs => h (List.mem_cons_of_mem c hs)]
    rfl

theorem of_splitOnceAt {sep a b : Text} (h : splitOnceAt sep s = some (a, b)) :
    s = a ++ sep ++ b := by
  induction s generalizing a with
  | nil => exact nomatch h
  | cons c s ih =>
    rw [splitOnceAt] at h
    split at h
    next hprefix =>
      obtain ⟨rfl, rfl⟩ := Prod.mk.inj (Option.some.inj h)
      obtain ⟨rest, hrest⟩ := hprefix
      rw [← hrest, List.drop_left]
      rfl
    next =>
      obtain ⟨q, hq, heq⟩ := Option.map_eq_some_iff.mp h
      obtain ⟨rfl, rfl⟩ := Prod.mk.inj heq
      rw [ih hq]
      rfl

theorem of_splitOnce {sep : Char} {a b : Text} (h : splitOnce sep s = some (a, b)) :
    s = a ++ sep :: b ∧ sep ∉ a := by
  by_cases hmem : sep ∈ s
  · obtain ⟨a', b', rfl, hnot⟩ := List.eq_append_cons_of_mem hmem
    rw [splitOnce_append hnot] at h
    obtain ⟨rfl, rfl⟩ := Prod.mk.inj (Option.some.inj h)
    exact ⟨rfl, hnot⟩
  · rw [splitOnce_eq_none hmem] at h
    exact nomatch h

/-! ### Ports -/

/-- A port is a number with a plus before it, or a number. -/
theorem parseU16_eq (s : Text) :
    ∃ ds, (s = '+' :: ds ∨ s = ds ∧ ∀ rest, s ≠ '+' :: rest) ∧
      parseU16 s = (parseDigits ds).filter fun n => n < 2 ^ 16 := by
  unfold parseU16
  split
  next ds => exact ⟨ds, .inl rfl, rfl⟩
  next hnot => exact ⟨s, .inr ⟨rfl, fun rest => hnot rest⟩, rfl⟩

/-- **A port is read as it was written.** -/
theorem parseU16_toDigits {n : ℕ} (h : n < 2 ^ 16) : parseU16 (Nat.toDigits 10 n) = some n := by
  obtain ⟨ds, hds | ⟨hds, -⟩, heq⟩ := parseU16_eq (Nat.toDigits 10 n)
  · exact absurd (hds ▸ List.mem_cons_self) (not_mem_toDigits (c := '+') (by decide) n)
  · rw [heq, ← hds, parseDigits_toDigits, Option.filter_some, if_pos (decide_eq_true h)]

theorem parseU16_lt {n : ℕ} (h : parseU16 s = some n) : n < 2 ^ 16 := by
  obtain ⟨ds, -, heq⟩ := parseU16_eq s
  rw [heq, Option.filter_eq_some_iff] at h
  exact of_decide_eq_true h.2

/-- A port is written with digits, and perhaps a plus. -/
theorem of_mem_port (h : (parseU16 s).isSome = true) (hc : c ∈ s) : c.isDigit = true ∨ c = '+' := by
  obtain ⟨ds, hds, heq⟩ := parseU16_eq s
  obtain ⟨n, hn⟩ := Option.isSome_iff_exists.mp h
  rw [heq, Option.filter_eq_some_iff, parseDigits] at hn
  split at hn
  next => exact absurd hn.1.symm (Option.some_ne_none n)
  next hall =>
    simp only [Bool.or_eq_true, Bool.not_eq_true', not_or, Bool.not_eq_false, List.all_eq_true]
      at hall
    rcases hds with rfl | ⟨rfl, -⟩
    · rcases List.mem_cons.mp hc with rfl | hc
      · exact .inr rfl
      · exact .inl (hall.2 c hc)
    · exact .inl (hall.2 c hc)

/-! ### The grammar -/

/-- A part of a text is the scheme, and the others are what is left. -/
theorem Parts.WellFormed.colon_not_mem (h : p.WellFormed) : ':' ∉ p.scheme := by
  rw [← mem_asciiLower (by decide)]
  rcases h.scheme with hscheme | hscheme
  · rw [hscheme]
    decide
  · rw [hscheme]
    decide

theorem Parts.WellFormed.port_colon (h : p.WellFormed) : ∀ text ∈ p.portText, ':' ∉ text := by
  intro text htext hcolon
  rcases of_mem_port (h.port text htext) hcolon with hdigit | hplus
  · exact absurd hdigit (by decide)
  · exact absurd hplus (by decide)

/-- **A host and a port are split where they were put together.** -/
theorem splitHost_rest (hhost : IsHost p.host) (hport : ∀ text ∈ p.portText, ':' ∉ text) :
    Origin.splitHost p.rest = .ok (p.host, p.portText) := by
  obtain ⟨scheme, host, portText⟩ := p
  cases hhost with
  | bracketed hne hclose =>
    rename_i inner
    rcases portText with _ | text
    · simp only [Parts.rest, Option.map_none, Option.getD_none, List.append_nil, Origin.splitHost]
      rw [splitOnce_append hclose]
    · simp only [Parts.rest, Option.map_some, Option.getD_some, List.cons_append, List.append_assoc,
        List.nil_append, Origin.splitHost]
      rw [splitOnce_append hclose]
      rfl
  | plain hne hopen hcolon =>
    obtain ⟨c, host, rfl⟩ := List.exists_cons_of_ne_nil hne
    have hc : c ≠ '[' := fun hc => hopen (hc ▸ rfl)
    rcases portText with _ | text
    · simp only [Parts.rest, Option.map_none, Option.getD_none, List.append_nil]
      rw [Origin.splitHost, splitOnce_eq_none hcolon]
      exact fun rest heq => hc (List.cons.inj heq).1
    · simp only [Parts.rest, Option.map_some, Option.getD_some]
      rw [Origin.splitHost, splitOnce_append hcolon]
      · exact if_pos ⟨hcolon, hport text rfl⟩
      · exact fun rest heq => hc (List.cons.inj heq).1

/-- What is split is a host and a port. -/
theorem of_splitHost {rest host : Text} {portText : Option Text}
    (h : Origin.splitHost rest = .ok (host, portText)) (hne : host ≠ []) (hne' : host ≠ "[]".toList) :
    IsHost host ∧ rest = host ++ (portText.map (':' :: ·)).getD [] := by
  unfold Origin.splitHost at h
  split at h
  next rest =>
    split at h
    next => exact nomatch h
    next inner hsplit =>
      obtain ⟨rfl, rfl⟩ := Prod.mk.inj (Except.ok.inj h)
      obtain ⟨rfl, hclose⟩ := of_splitOnce hsplit
      refine ⟨.bracketed (fun hnil => hne' ?_) hclose, ?_⟩
      · rw [hnil]
        rfl
      · rw [Option.map_none, Option.getD_none, List.append_nil]
    next inner port hsplit =>
      obtain ⟨rfl, rfl⟩ := Prod.mk.inj (Except.ok.inj h)
      obtain ⟨rfl, hclose⟩ := of_splitOnce hsplit
      refine ⟨.bracketed (fun hnil => hne' ?_) hclose, ?_⟩
      · rw [hnil]
        rfl
      · simp
    next => exact nomatch h
  next _ hopen =>
    have hhead : ∀ host tail, rest = host ++ tail → host ≠ [] → host.head? ≠ some '[' := by
      rintro (_ | ⟨c, host⟩) tail rfl hne heq
      · exact hne rfl
      · obtain rfl := Option.some.inj heq
        exact hopen _ rfl
    split at h
    next host port hsplit =>
      split at h
      next hcolon =>
        obtain ⟨rfl, rfl⟩ := Prod.mk.inj (Except.ok.inj h)
        obtain ⟨hrest, -⟩ := of_splitOnce hsplit
        exact ⟨.plain hne (hhead _ _ hrest hne) hcolon.1, hrest⟩
      next => exact nomatch h
    next hsplit =>
      obtain ⟨rfl, rfl⟩ := Prod.mk.inj (Except.ok.inj h)
      have hcolon : ':' ∉ rest := by
        intro hmem
        obtain ⟨a, b, hab, hnot⟩ := List.eq_append_cons_of_mem hmem
        rw [hab, splitOnce_append hnot] at hsplit
        exact nomatch hsplit
      refine ⟨.plain hne (hhead _ [] (List.append_nil _).symm hne) hcolon, ?_⟩
      rw [Option.map_none, Option.getD_none, List.append_nil]

namespace Parts

/-- **The parts of the normalised text**: in lower case, and without the default port. -/
def canonical (p : Parts) : Parts where
  scheme := asciiLower p.scheme
  host := asciiLower p.host
  portText := (p.port.filter fun n => n ≠ p.defaultPort).map fun n => (toString n).toList

/-- The origin that is made of the parts. -/
def origin (p : Parts) : Origin where
  normalised := p.canonical.text
  secure := p.secure

end Parts

theorem bind_eq_ok {ε α β : Type} {x : Except ε α} {f : α → Except ε β} {b : β} :
    (x >>= f) = .ok b ↔ ∃ a, x = .ok a ∧ f a = .ok b := by
  rcases x with e | a
  · exact iff_of_false (fun h => nomatch h) fun ⟨_, h, _⟩ => nomatch h
  · exact ⟨fun h => ⟨a, rfl, h⟩, fun ⟨_, ha, h⟩ => Except.ok.inj ha ▸ h⟩

/-- The default port is left out. -/
theorem format_eq (h : p.WellFormed) :
    Origin.format (asciiLower p.scheme) (asciiLower p.host) (p.portText.bind parseU16) p.defaultPort =
      p.canonical.text := by
  have htext : p.canonical.text = asciiLower p.scheme ++ "://".toList ++ (asciiLower p.host ++
      (((p.port.filter fun n => n ≠ p.defaultPort).map fun n => (toString n).toList).map
        (':' :: ·)).getD []) := rfl
  rw [htext, Parts.port]
  rcases hport : p.portText with _ | text
  · simp [Origin.format, Option.filter_some]
  · obtain ⟨n, hn⟩ := Option.isSome_iff_exists.mp (h.port text hport)
    by_cases hdefault : n = p.defaultPort
    · simp [Origin.format, Option.filter_some, hn, hdefault]
    · simp [Origin.format, Option.filter_some, hn, hdefault]

/-- The supported schemes. -/
theorem parseScheme_eq_ok (p : Parts)
    (h : asciiLower p.scheme = "https".toList ∨ asciiLower p.scheme = "http".toList) :
    Origin.parseScheme (asciiLower p.scheme) = .ok p.secure := by
  rcases h with h | h
  · rw [Origin.parseScheme, if_pos h, Parts.secure, h]
    rfl
  · rw [Origin.parseScheme, Parts.secure, h]
    rfl

theorem of_parseScheme {scheme : Text} {secure : Bool}
    (h : Origin.parseScheme scheme = .ok secure) :
    scheme = "https".toList ∨ scheme = "http".toList := by
  rw [Origin.parseScheme] at h
  split at h
  next hs => exact .inl hs
  next =>
    split at h
    next hs => exact .inr hs
    next => exact nomatch h

theorem parsePort_eq_ok {portText : Option Text} {port : Option ℕ}
    (h : Origin.parsePort portText = .ok port) :
    port = portText.bind parseU16 ∧ ∀ text ∈ portText, (parseU16 text).isSome = true := by
  rcases portText with _ | text
  · exact ⟨(Except.ok.inj h).symm, fun _ h => nomatch h⟩
  · rw [Origin.parsePort] at h
    split at h
    next n hn =>
      obtain rfl := Except.ok.inj h
      refine ⟨hn.symm, fun text' htext => ?_⟩
      obtain rfl := Option.some.inj htext
      rw [hn]
      rfl
    next => exact nomatch h

theorem parsePort_of_wellFormed (h : p.WellFormed) :
    Origin.parsePort p.portText = .ok (p.portText.bind parseU16) := by
  rcases hport : p.portText with _ | text
  · rfl
  · obtain ⟨n, hn⟩ := Option.isSome_iff_exists.mp (h.port text hport)
    rw [Origin.parsePort, Option.bind_some, hn]

/-- A host has some text, and brackets have some in them. -/
theorem IsHost.ne (h : IsHost s) : s ≠ [] ∧ s ≠ "[]".toList := by
  cases h with
  | bracketed hne hclose =>
    refine ⟨List.cons_ne_nil _ _, fun heq => hne ?_⟩
    have hinner := (List.cons.inj heq).2
    exact List.append_cancel_right (hinner.trans (List.nil_append _).symm)
  | plain hne hopen hcolon =>
    refine ⟨hne, ?_⟩
    rintro rfl
    exact hopen rfl

/-- A host in lower case. -/
theorem IsHost.lower (h : IsHost s) : IsHost (asciiLower s) := by
  cases h with
  | @bracketed inner hne hclose =>
    have hlower : asciiLower ('[' :: (inner ++ [']'])) = '[' :: (asciiLower inner ++ [']']) := by
      rw [asciiLower, List.map_cons, List.map_append]
      rfl
    rw [hlower]
    exact .bracketed (mt List.map_eq_nil_iff.mp hne) (mt (mem_asciiLower (by decide)).mp hclose)
  | plain hne hopen hcolon =>
    refine .plain (mt List.map_eq_nil_iff.mp hne) ?_ (mt (mem_asciiLower (by decide)).mp hcolon)
    obtain ⟨c, rest, rfl⟩ := List.exists_cons_of_ne_nil hne
    intro heq
    have hmem : '[' ∈ asciiLower [c] := List.mem_singleton.mpr (Option.some.inj heq).symm
    obtain rfl := List.mem_singleton.mp ((mem_asciiLower (by decide)).mp hmem)
    exact hopen rfl

/-- There is no path, no query, no fragment and no credentials after the scheme. -/
theorem Parts.WellFormed.rest_bare (h : p.WellFormed) : ∀ c ∈ "/?#@".toList, c ∉ p.rest := by
  intro c hc hmem
  rcases List.mem_append.mp hmem with hhost | hport
  · exact h.bare c hc hhost
  · rcases htext : p.portText with _ | text
    · rw [htext] at hport
      exact absurd hport List.not_mem_nil
    · rw [htext] at hport
      have hall : "/?#@".toList.all (fun c => ¬ (c = ':' ∨ c.isDigit = true ∨ c = '+')) = true := by
        decide
      exact of_decide_eq_true (List.all_eq_true.mp hall c hc)
        ((List.mem_cons.mp hport).imp_right (of_mem_port (h.port text htext)))

/-- **What is accepted**: a text of the grammar, as the origin of its parts. -/
theorem parse_eq_ok_iff :
    Origin.parse raw = .ok o ↔ ∃ p : Parts, p.Of raw ∧ p.origin = o := by
  constructor
  · intro h
    rw [Origin.parse] at h
    split at h
    next => exact nomatch h
    next scheme rest hsplit =>
    obtain ⟨secure, hsecure, hrest⟩ := bind_eq_ok.mp h
    split at hrest
    next => exact nomatch hrest
    next hpath =>
    split at hrest
    next => exact nomatch hrest
    next hcredentials =>
    split at hrest
    next => exact nomatch hrest
    next =>
    obtain ⟨⟨host, portText⟩, hhost, hparts⟩ := bind_eq_ok.mp hrest
    obtain ⟨port, hport, hlast⟩ := bind_eq_ok.mp hparts
    have hempty : ¬ (asciiLower host = [] ∨ asciiLower host = "[]".toList) := fun hempty =>
      nomatch (if_pos hempty).symm.trans hlast
    replace hlast := (if_neg hempty).symm.trans hlast
    obtain ⟨rfl, hvalid⟩ := parsePort_eq_ok hport
    obtain ⟨hishost, rfl⟩ := of_splitHost hhost (fun hnil => hempty (.inl (by rw [hnil]; rfl)))
      fun hnil => hempty (.inr (by rw [hnil]; rfl))
    let p : Parts := ⟨scheme, host, portText⟩
    have hscheme : asciiLower p.scheme = "https".toList ∨ asciiLower p.scheme = "http".toList :=
      of_parseScheme hsecure
    obtain rfl : secure = p.secure :=
      Except.ok.inj (hsecure.symm.trans (parseScheme_eq_ok p hscheme))
    have hwell : p.WellFormed := by
      refine ⟨hscheme, hishost, ?_, hvalid⟩
      have hbare : ∀ c, c ∉ host ++ (portText.map (':' :: ·)).getD [] → c ∉ host :=
        fun c hnot hmem => hnot (List.mem_append_left _ hmem)
      simp only [not_or] at hpath
      exact List.forall_mem_cons.mpr ⟨hbare _ hpath.1, List.forall_mem_cons.mpr ⟨hbare _ hpath.2.1,
        List.forall_mem_cons.mpr ⟨hbare _ hpath.2.2, List.forall_mem_singleton.mpr
          (hbare _ hcredentials)⟩⟩⟩
    refine ⟨p, ⟨?_, hwell⟩, ?_⟩
    · rw [of_splitOnceAt hsplit]
      rfl
    · rw [← Except.ok.inj hlast, Parts.origin, ← format_eq hwell]
      rfl
  · rintro ⟨p, ⟨htext, hwell⟩, rfl⟩
    have hbare := hwell.rest_bare
    have hempty := hwell.host.lower.ne
    have hsome : p.rest ≠ [] := List.append_ne_nil_of_left_ne_nil hwell.host.ne.1 _
    rw [Origin.parse, htext, Parts.text, splitOnceAt_append hwell.colon_not_mem]
    refine bind_eq_ok.mpr ⟨p.secure, parseScheme_eq_ok p hwell.scheme, ?_⟩
    rw [if_neg fun h => h.elim (hbare _ (by decide)) fun h => h.elim (hbare _ (by decide))
      (hbare _ (by decide)), if_neg (hbare _ (by decide)), if_neg hsome]
    refine bind_eq_ok.mpr ⟨_, splitHost_rest hwell.host hwell.port_colon, ?_⟩
    refine bind_eq_ok.mpr ⟨_, parsePort_of_wellFormed hwell, ?_⟩
    refine (if_neg fun h => h.elim hempty.1 hempty.2).trans ?_
    rw [Parts.origin, ← format_eq hwell]
    rfl

/-- **A text has one scheme, one host and one port.** -/
theorem text_inj (hp : p.WellFormed) (hp' : p'.WellFormed) (h : p.text = p'.text) : p = p' := by
  have hsplit := splitOnceAt_append hp.colon_not_mem p.rest
  have hsplit' := splitOnceAt_append hp'.colon_not_mem p'.rest
  have htext : p.scheme ++ "://".toList ++ p.rest = p'.scheme ++ "://".toList ++ p'.rest := h
  rw [htext, hsplit'] at hsplit
  obtain ⟨hscheme, hrest⟩ := Prod.mk.inj (Option.some.inj hsplit)
  have hhost := splitHost_rest hp.host hp.port_colon
  rw [← hrest, splitHost_rest hp'.host hp'.port_colon] at hhost
  obtain ⟨hhost, hport⟩ := Prod.mk.inj (Except.ok.inj hhost)
  obtain ⟨scheme, host, portText⟩ := p
  obtain ⟨scheme', host', portText'⟩ := p'
  rw [Parts.mk.injEq]
  exact ⟨hscheme.symm, hhost.symm, hport.symm⟩

/-- The parts of a text are its own. -/
theorem Parts.Of.unique (hp : p.Of raw) (hp' : p'.Of raw) : p = p' :=
  text_inj hp.wellFormed hp'.wellFormed (hp.text.symm.trans hp'.text)

/-! ### The normalised text -/

theorem secure_canonical (p : Parts) : p.canonical.secure = p.secure := by
  rw [Parts.secure, Parts.secure, Parts.canonical, asciiLower_asciiLower]

theorem defaultPort_canonical (p : Parts) : p.canonical.defaultPort = p.defaultPort := by
  rw [Parts.defaultPort, Parts.defaultPort, secure_canonical]

theorem exists_port (h : p.WellFormed) : ∃ n, p.port = some n ∧ n < 2 ^ 16 := by
  rw [Parts.port]
  rcases hport : p.portText with _ | text
  · refine ⟨_, rfl, ?_⟩
    rw [Parts.defaultPort]
    split <;> decide
  · obtain ⟨n, hn⟩ := Option.isSome_iff_exists.mp (h.port text hport)
    exact ⟨n, hn, parseU16_lt hn⟩

/-- The port of the normalised text. -/
theorem portText_canonical {n : ℕ} (hn : p.port = some n) :
    p.canonical.portText = if n = p.defaultPort then none else some (Nat.toDigits 10 n) := by
  have hdigits : (toString n).toList = Nat.toDigits 10 n := Nat.toList_repr
  rw [Parts.canonical, hn, Option.filter_some]
  by_cases hdefault : n = p.defaultPort
  · rw [if_pos hdefault, if_neg (by simpa using hdefault)]
    rfl
  · rw [if_neg hdefault, if_pos (by simpa using hdefault), Option.map_some, hdigits]

/-- **The effective port stays the same.** -/
theorem port_canonical (h : p.WellFormed) : p.canonical.port = p.port := by
  obtain ⟨n, hn, hlt⟩ := exists_port h
  rw [Parts.port, portText_canonical hn, defaultPort_canonical, hn]
  by_cases hdefault : n = p.defaultPort
  · rw [if_pos hdefault, hdefault]
  · rw [if_neg hdefault]
    exact parseU16_toDigits hlt

theorem canonical_canonical (h : p.WellFormed) : p.canonical.canonical = p.canonical := by
  change Parts.mk (asciiLower (asciiLower p.scheme)) (asciiLower (asciiLower p.host))
    ((p.canonical.port.filter fun n => n ≠ p.canonical.defaultPort).map
      fun n => (toString n).toList) = p.canonical
  rw [asciiLower_asciiLower, asciiLower_asciiLower, port_canonical h, defaultPort_canonical]
  rfl

/-- The normalised text is one of the grammar. -/
theorem Parts.WellFormed.canonical (h : p.WellFormed) : p.canonical.WellFormed where
  scheme := by
    change asciiLower (asciiLower p.scheme) = _ ∨ asciiLower (asciiLower p.scheme) = _
    rw [asciiLower_asciiLower]
    exact h.scheme
  host := h.host.lower
  bare c hc := by
    have hall : "/?#@".toList.all (fun c => !c.isAlpha) = true := by decide
    have hletter := Bool.not_eq_true' _ ▸ List.all_eq_true.mp hall c hc
    exact mt (mem_asciiLower hletter).mp (h.bare c hc)
  port text htext := by
    obtain ⟨n, hn, hlt⟩ := exists_port h
    rw [portText_canonical hn] at htext
    split at htext
    next => exact absurd htext.symm (Option.some_ne_none text)
    next =>
      obtain rfl := Option.some.inj htext
      rw [parseU16_toDigits hlt]
      rfl

theorem origin_canonical (h : p.WellFormed) : p.canonical.origin = p.origin := by
  rw [Parts.origin, canonical_canonical h, secure_canonical]
  rfl

/-- **The normalised texts are the same for the parts of one site only.** -/
theorem canonical_text_eq_iff (h : p.WellFormed) (h' : p'.WellFormed) :
    p.canonical.text = p'.canonical.text ↔ asciiLower p.scheme = asciiLower p'.scheme ∧
      asciiLower p.host = asciiLower p'.host ∧ p.port = p'.port := by
  constructor
  · intro heq
    have hparts := text_inj h.canonical h'.canonical heq
    refine ⟨congrArg Parts.scheme hparts, congrArg Parts.host hparts, ?_⟩
    rw [← port_canonical h, hparts, port_canonical h']
  · rintro ⟨hscheme, hhost, hport⟩
    have hdefault : p.defaultPort = p'.defaultPort := by
      rw [Parts.defaultPort, Parts.defaultPort, Parts.secure, Parts.secure, hscheme]
    rw [Parts.canonical, Parts.canonical, hscheme, hhost, hport, hdefault]

/-- **The normalised texts of two origins are the same if they are of one site**, and only then. -/
theorem normalised_eq_iff (h : Origin.parse raw = .ok o) (h' : Origin.parse raw' = .ok o') :
    o.asStr = o'.asStr ↔ SameSite raw raw' := by
  obtain ⟨p, hp, rfl⟩ := parse_eq_ok_iff.mp h
  obtain ⟨p', hp', rfl⟩ := parse_eq_ok_iff.mp h'
  constructor
  · intro heq
    exact ⟨p, p', hp, hp', (canonical_text_eq_iff hp.wellFormed hp'.wellFormed).mp heq⟩
  · rintro ⟨q, q', hq, hq', hsame⟩
    obtain rfl := hp.unique hq
    obtain rfl := hp'.unique hq'
    exact (canonical_text_eq_iff hp.wellFormed hp'.wellFormed).mpr hsame

/-! ### Blanks at the end -/

/-- A normalised text is not trimmed, unless it ends in a blank. -/
theorem trim_text (h : p.WellFormed) :
    trim p.text = p.text ↔ ∀ c ∈ p.text.getLast?, isWhitespace c = false := by
  constructor
  · intro htrim c hc
    rw [← htrim] at hc
    exact Words.getLast?_trim hc
  · refine Words.trim_eq_self fun c hc => ?_
    have hall : ∀ scheme ∈ ["https".toList, "http".toList], ∀ c ∈ scheme.head?,
        isWhitespace c = false := by
      simp [isWhitespace]
    obtain ⟨scheme, hmem, hscheme⟩ : ∃ scheme ∈ ["https".toList, "http".toList],
        asciiLower p.scheme = scheme := by
      rcases h.scheme with hs | hs
      · exact ⟨_, List.mem_cons_self, hs⟩
      · exact ⟨_, List.mem_cons_of_mem _ List.mem_cons_self, hs⟩
    rcases hcs : p.scheme with _ | ⟨c', cs⟩
    · rw [hcs] at hscheme
      subst hscheme
      exact absurd hmem (by decide)
    · rw [Parts.text, hcs] at hc
      obtain rfl := Option.some.inj hc
      have hlower : isWhitespace c'.toLower = false :=
        hall scheme hmem _ (by rw [← hscheme, hcs]; rfl)
      rw [Bool.eq_false_iff, Ne, isWhitespace_toLower, ← Ne, ← Bool.eq_false_iff] at hlower
      exact hlower

theorem getLast?_asciiLower (s : Text) :
    (∃ c ∈ (asciiLower s).getLast?, isWhitespace c = true) ↔
      ∃ c ∈ s.getLast?, isWhitespace c = true := by
  rw [asciiLower, List.getLast?_map]
  constructor
  · rintro ⟨c, hc, hblank⟩
    obtain ⟨c', hc', rfl⟩ := Option.map_eq_some_iff.mp hc
    exact ⟨c', hc', (isWhitespace_toLower c').mp hblank⟩
  · rintro ⟨c, hc, hblank⟩
    exact ⟨_, Option.map_eq_some_iff.mpr ⟨c, hc, rfl⟩, (isWhitespace_toLower c).mpr hblank⟩

/-- Brackets do not end in a blank. -/
theorem IsHost.not_bracketed (h : IsHost s) (hblank : ∃ c ∈ s.getLast?, isWhitespace c = true) :
    s.head? ≠ some '[' := by
  cases h with
  | bracketed hne hclose =>
    obtain ⟨c, hc, hblank⟩ := hblank
    rw [← List.cons_append, List.getLast?_concat] at hc
    obtain rfl := Option.some.inj hc
    exact absurd hblank (by decide)
  | plain hne hopen hcolon => exact hopen

/-- **What the normalised text ends in**: a digit of the port, or what the host ends in. -/
theorem blank_getLast?_canonical (h : p.WellFormed) :
    (∃ c ∈ p.canonical.text.getLast?, isWhitespace c = true) ↔
      p.BlankHost ∧ p.port = some p.defaultPort := by
  obtain ⟨n, hn, -⟩ := exists_port h
  have hport := portText_canonical hn
  by_cases hdefault : n = p.defaultPort
  · -- The text ends where the host ends.
    rw [if_pos hdefault] at hport
    have hrest : p.canonical.rest = asciiLower p.host := by
      rw [Parts.rest, hport]
      exact List.append_nil _
    have hlast : p.canonical.text.getLast? = (asciiLower p.host).getLast? := by
      rw [Parts.text, hrest, List.getLast?_append_of_ne_nil _ h.host.lower.ne.1]
    rw [hlast, getLast?_asciiLower]
    exact ⟨fun hblank => ⟨⟨h.host.not_bracketed hblank, hblank⟩, by rw [hn, hdefault]⟩,
      fun hblank => hblank.1.2⟩
  · rw [if_neg hdefault] at hport
    have hlast : p.canonical.text.getLast? = (Nat.toDigits 10 n).getLast? := by
      rw [Parts.text, Parts.rest, hport, Option.map_some, Option.getD_some,
        List.getLast?_append_of_ne_nil _ (List.append_ne_nil_of_right_ne_nil _ (List.cons_ne_nil _ _)),
        List.getLast?_append_of_ne_nil _ (List.cons_ne_nil _ _), List.getLast?_cons_of_ne_nil
        Nat.toDigits_ne_nil]
    rw [hlast]
    refine iff_of_false ?_ fun hblank => hdefault (Option.some.inj (hn.symm.trans hblank.2))
    rintro ⟨c, hc, hblank⟩
    have hdigit := Nat.isDigit_of_mem_toDigits (by omega) (by omega) (List.mem_of_getLast? hc)
    rw [isWhitespace_of_isDigit hdigit] at hblank
    exact Bool.noConfusion hblank

/-- The blank is at the end of the normalised text if a port was written after it. -/
theorem endsInBlank_iff (hp : p.Of raw) :
    EndsInBlank raw ↔ ∃ c ∈ p.canonical.text.getLast?, isWhitespace c = true := by
  rw [blank_getLast?_canonical hp.wellFormed]
  constructor
  · rintro ⟨q, hq, hblank, text, htext, hport⟩
    obtain rfl := hp.unique hq
    refine ⟨hblank, ?_⟩
    rw [Parts.port, Option.mem_def.mp htext]
    exact hport
  · rintro ⟨hblank, hport⟩
    refine ⟨p, hp, hblank, ?_⟩
    rcases htext : p.portText with _ | text
    · -- Without a port, the text was trimmed where the host ends.
      obtain ⟨c, hc, hwhite⟩ := hblank.2
      have hlast : c ∈ (trim raw).getLast? := by
        rw [hp.text, Parts.text, Parts.rest, htext, Option.map_none, Option.getD_none,
          List.append_nil, List.getLast?_append_of_ne_nil _ hp.wellFormed.host.ne.1]
        exact hc
      have hnot : isWhitespace c = false := Words.getLast?_trim hlast
      rw [hwhite] at hnot
      exact Bool.noConfusion hnot
    · refine ⟨text, rfl, ?_⟩
      rw [Parts.port, htext] at hport
      exact hport

/-- **The normalised text is accepted as itself unless it ends in a blank.** -/
theorem reparses_iff (hp : p.Of raw) :
    Origin.parse p.origin.asStr = .ok p.origin ↔ ¬ EndsInBlank raw := by
  have hwell := hp.wellFormed
  rw [endsInBlank_iff hp]
  constructor
  · rintro hparse ⟨c, hc, hblank⟩
    obtain ⟨q, hq, horigin⟩ := parse_eq_ok_iff.mp hparse
    have hsame : q.canonical = p.canonical :=
      text_inj hq.wellFormed.canonical hwell.canonical (congrArg Origin.normalised horigin)
    have htext : trim p.canonical.text = q.text := hq.text
    -- What is read is as long as what was written, so that nothing was trimmed.
    have hport : p.canonical.portText = none := by
      have hdefault := ((blank_getLast?_canonical hwell).mp ⟨c, hc, hblank⟩).2
      rw [portText_canonical hdefault, if_pos rfl]
    have hscheme := congrArg (fun parts => parts.scheme.length) hsame
    have hhost := congrArg (fun parts => parts.host.length) hsame
    have hlength : p.canonical.text.length ≤ q.text.length := by
      simp only [Parts.canonical, asciiLower, List.length_map] at hscheme hhost
      rw [Parts.text, Parts.rest, hport]
      simp only [Parts.text, Parts.rest, Parts.canonical, asciiLower, List.length_append,
        List.length_map, Option.map_none, Option.getD_none, List.length_nil]
      omega
    have htrim : trim p.canonical.text = p.canonical.text :=
      (Words.trim_sublist isWhitespace p.canonical.text).eq_of_length_le
        (hlength.trans (congrArg List.length htext).ge)
    have hnot := (trim_text hwell.canonical).mp htrim c hc
    rw [hblank] at hnot
    exact Bool.noConfusion hnot
  · intro hlast
    have hof : p.canonical.Of p.origin.asStr := by
      refine ⟨(trim_text hwell.canonical).mpr fun c hc => ?_, hwell.canonical⟩
      exact eq_false_of_ne_true fun hblank => hlast ⟨c, hc, hblank⟩
    exact parse_eq_ok_iff.mpr ⟨_, hof, origin_canonical hwell⟩

/-- A request with an origin passes only if the origin is that of the site. -/
theorem of_verify {env : Cookie.Surroundings} {pepper : Text} {sessionId : Uuid}
    {presented : Option Text} {header : Text}
    (h : verify env pepper o sessionId presented (some header) = .ok ()) :
    ∃ parsed, Origin.parse header = .ok parsed ∧ parsed.asStr = o.asStr := by
  unfold verify at h
  rcases hparse : Origin.parse header with e | parsed
  · simp [hparse] at h
  · refine ⟨parsed, rfl, ?_⟩
    by_contra hne
    simp [hparse, hne] at h

/-- **When the normalised text stands for the site**: unless a default port was written after a blank
that ends the name of a host. -/
theorem isCanonical_iff (h : Origin.parse raw = .ok o) :
    IsCanonical raw o ↔ ¬ EndsInBlank raw := by
  obtain ⟨p, hp, rfl⟩ := parse_eq_ok_iff.mp h
  rw [← reparses_iff hp]
  refine ⟨fun hcanonical => hcanonical.reparses, fun hreparses => ⟨hreparses, ?_, ?_, ?_⟩⟩
  · exact fun raw' o' h' => normalised_eq_iff h h'
  · exact ⟨p.scheme, p.rest, hp.text, hp.wellFormed.scheme, hp.wellFormed.rest_bare⟩
  · intro env pepper sessionId presented header hverify
    obtain ⟨parsed, hparsed, hsame⟩ := of_verify hverify
    exact (normalised_eq_iff h hparsed).mp hsame.symm

/-- An origin of a site that is written with a capital letter and its port. -/
theorem isCanonical_capitals : ∃ o, Origin.parse "https://App.Example.com:443".toList = .ok o ∧
    (IsCanonical "https://App.Example.com:443".toList o ↔
      ¬ EndsInBlank "https://App.Example.com:443".toList) :=
  ⟨⟨"https://app.example.com".toList, true⟩, by decide +kernel, isCanonical_iff (by decide +kernel)⟩

/-- With a blank before its port, an origin is accepted, and its normalised text is another. -/
theorem not_isCanonical : ¬ ∀ raw o, Origin.parse raw = .ok o → IsCanonical raw o := by
  intro h
  have haccepted : Origin.parse "https://app.example.com :443".toList =
      .ok ⟨"https://app.example.com ".toList, true⟩ := by decide +kernel
  have hreparsed : Origin.parse "https://app.example.com ".toList =
      .ok ⟨"https://app.example.com".toList, true⟩ := by decide +kernel
  have hsame := (h _ _ haccepted).reparses
  rw [show Origin.asStr ⟨"https://app.example.com ".toList, true⟩ =
    "https://app.example.com ".toList from rfl, hreparsed] at hsame
  exact absurd hsame (by decide)

end Marketplace.Http
