import Marketplace.Words.Split
import Marketplace.Auth.Text
import Mathlib.Data.List.TakeWhile
import Mathlib.Logic.Function.Basic

/-!
# Who the client is

Behind a proxy on the same host, the address of a client is the last entry of `X-Forwarded-For`:
the proxy appends the peer that it saw, so that this entry is the one a client has no say in
(`Marketplace.Http.resolve`). An entry may be appended to the last line of the header or as a
further line, and the lines of a header are one list.

But only the first line is read. So the entry that the proxy appended is the one that is found
if it has put it on the first line, and that line is text; otherwise the client has written what
is read (`Marketplace.Http.clientBound_iff`).
-/

namespace Marketplace.Http

/-! ### Addresses -/

/-- `IpAddr`. -/
inductive IpAddr
  | v4 (a b c d : UInt8)
  | v6 (segments : Vector UInt16 8)
  deriving DecidableEq

/-- `SocketAddr`. -/
structure SocketAddr where
  ip : IpAddr
  port : UInt16
  deriving DecidableEq

/-- The text of an IPv4 address. -/
def textV4 (a b c d : UInt8) : Text :=
  ['.'].intercalate ([a, b, c, d].map fun octet => Nat.toDigits 10 octet.toNat)

/-- Some segments of an IPv6 address. -/
def textSegments (segments : List UInt16) : Text :=
  [':'].intercalate (segments.map fun segment => Nat.toDigits 16 segment.toNat)

/-- A run of segments. -/
structure Span where
  start : ℕ := 0
  len : ℕ := 0

/-- The first of the longest runs of zeroes. -/
def zeroes (segments : List UInt16) : Span :=
  (segments.zipIdx.foldl (fun (longest, current) (segment, i) =>
    if segment = 0 then
      let current : Span := ⟨if current.len = 0 then i else current.start, current.len + 1⟩
      (if current.len > longest.len then current else longest, current)
    else (longest, {})) (({} : Span), ({} : Span))).1

/-- The text of an IPv6 address. -/
def textV6 (segments : List UInt16) : Text :=
  match segments with
  | [0, 0, 0, 0, 0, 0xFFFF, high, low] =>
    "::ffff:".toList ++ textV4 (high / 256).toUInt8 high.toUInt8 (low / 256).toUInt8 low.toUInt8
  | segments =>
    let run := zeroes segments
    if run.len > 1 then
      textSegments (segments.take run.start) ++ "::".toList ++
        textSegments (segments.drop (run.start + run.len))
    else textSegments segments

namespace IpAddr

/-- `IpAddr::is_loopback`. -/
def isLoopback : IpAddr → Bool
  | v4 a _ _ _ => a = 127
  | v6 segments => segments = #v[0, 0, 0, 0, 0, 0, 0, 1]

/-- `IpAddr::to_string`. -/
def text : IpAddr → Text
  | v4 a b c d => textV4 a b c d
  | v6 segments => textV6 segments.toList

end IpAddr

example : (IpAddr.v6 #v[0x2001, 0xdb8, 0, 0, 1, 0, 0, 0]).text = "2001:db8:0:0:1::".toList := by
  decide +kernel

/-! ### Headers -/

/-- The byte is `is_visible_ascii`. -/
def isVisibleAscii (b : UInt8) : Bool := 32 ≤ b && b < 127 || b = 9

/-- **The value of a header**: any bytes but control characters. -/
structure HeaderValue where
  bytes : List UInt8
  valid : ∀ b ∈ bytes, 32 ≤ b ∧ b ≠ 127 ∨ b = 9

/-- The text of some bytes of ASCII. -/
def asciiText (bytes : List UInt8) : Text := bytes.map fun b => Char.ofNat b.toNat

/-- `HeaderValue::to_str`. -/
def HeaderValue.toStr (value : HeaderValue) : Option Text :=
  if value.bytes.all isVisibleAscii then some (asciiText value.bytes) else none

/-- **The headers of a request**: the lines of each name, in their order. -/
abbrev HeaderMap := Text → List HeaderValue

/-- `HeaderMap::get`: the first line of a name. -/
def HeaderMap.get (headers : HeaderMap) (name : Text) : Option HeaderValue := (headers name).head?

/-- `x-forwarded-for`. -/
def xForwardedFor : Text := "x-forwarded-for".toList

/-- The last entry of a list that is not blank. -/
def lastEntry (forwarded : Text) : Option Text :=
  (((forwarded.splitOn ',').map trim).filter fun entry => !entry.isEmpty).getLast?

/-- The last entry of a line, if the line is text. -/
def HeaderValue.lastEntry (line : HeaderValue) : Option Text := line.toStr.bind Http.lastEntry

/-- **`resolve`**: the address of the client. -/
def resolve (headers : HeaderMap) (peer : Option SocketAddr) (trustProxyHeaders : Bool) :
    Option Text :=
  let peerIsLocalProxy := peer.any fun address => address.ip.isLoopback
  (if trustProxyHeaders && peerIsLocalProxy then
    (headers.get xForwardedFor).bind HeaderValue.lastEntry
  else none).or (peer.map fun address => address.ip.text)

/-! ### The proxy -/

/-- **An entry**: visible characters, without a comma. -/
structure Entry where
  bytes : List UInt8
  ne_nil : bytes ≠ []
  visible : ∀ b ∈ bytes, 32 < b ∧ b < 127 ∧ b ≠ 44

namespace Entry

variable (entry : Entry)

/-- The text of an entry. -/
def text : Text := asciiText entry.bytes

/-- A line with nothing but the entry. -/
def line : HeaderValue where
  bytes := entry.bytes
  valid b hb := by
    obtain ⟨hlow, hhigh, -⟩ := entry.visible b hb
    refine .inl ⟨UInt8.le_of_lt hlow, ?_⟩
    rintro rfl
    exact absurd hhigh (UInt8.lt_irrefl _)

/-- A line, with the entry after some others. -/
def after (spaces : ℕ) (line : HeaderValue) : HeaderValue where
  bytes := line.bytes ++ 44 :: (List.replicate spaces 32 ++ entry.bytes)
  valid b hb := by
    rcases List.mem_append.mp hb with hb | hb
    · exact line.valid b hb
    rcases List.mem_cons.mp hb with rfl | hb
    · decide
    rcases List.mem_append.mp hb with hb | hb
    · rw [List.eq_of_mem_replicate hb]
      decide
    · exact entry.line.valid b hb

end Entry

/-- **How a proxy appends an entry.** -/
inductive Appending
  /-- To the last line, after a comma and some spaces. -/
  | toLastLine (spaces : ℕ)
  /-- As a line of its own. -/
  | asFurtherLine

/-- The lines that a proxy forwards. -/
def Appending.lines (how : Appending) (entry : Entry) (lines : List HeaderValue) :
    List HeaderValue :=
  match how, lines.getLast? with
  | .toLastLine spaces, some last => lines.dropLast ++ [entry.after spaces last]
  | _, _ => lines ++ [entry.line]

/-- The headers that a proxy forwards. -/
def Appending.forward (how : Appending) (entry : Entry) (headers : HeaderMap) : HeaderMap :=
  Function.update headers xForwardedFor (how.lines entry (headers xForwardedFor))

/-- **The client cannot choose its address**: from a proxy that is trusted, it is the entry that the
proxy appended, and without one the headers do not matter. -/
structure ClientBound (headers : HeaderMap) (how : Appending) (entry : Entry)
    (peer : Option SocketAddr) (trust : Bool) : Prop where
  trusted : ∀ proxy, peer = some proxy → proxy.ip.isLoopback = true → trust = true →
    resolve (how.forward entry headers) peer trust = some entry.text
  untrusted : (∀ proxy, peer = some proxy → proxy.ip.isLoopback = true → trust = false) →
    ∀ other, resolve other peer trust = resolve headers peer trust

/-- **The appended entry is on the line that is read**: there was no line, or there was one of text
and the entry is on it. Else it is the client who says what is read, be it the same, and when it
says nothing, the address of the proxy is taken. -/
def OnFirstLine (how : Appending) (entry : Entry) (proxy : IpAddr) : List HeaderValue → Prop
  | [] => True
  | line :: rest =>
    match how, rest with
    | .toLastLine _, [] => line.toStr.isSome = true ∨ proxy.text = entry.text
    | _, _ => line.lastEntry.getD proxy.text = entry.text

/-! ### The last entry -/

variable {how : Appending} {entry : Entry} {headers : HeaderMap} {peer : Option SocketAddr}
  {trust : Bool}

theorem Entry.text_ne_nil (entry : Entry) : entry.text ≠ [] := by
  intro h
  exact entry.ne_nil (List.map_eq_nil_iff.mp h)

/-- An entry is of characters that are no commas and no blanks. -/
theorem Entry.of_mem_text {c : Char} (h : c ∈ entry.text) : c ≠ ',' ∧ isWhitespace c = false := by
  obtain ⟨b, hb, rfl⟩ := List.mem_map.mp h
  have hall : ∀ n : Fin 256, 32 < n.val ∧ n.val < 127 ∧ n.val ≠ 44 →
      Char.ofNat n ≠ ',' ∧ isWhitespace (Char.ofNat n) = false := by decide +kernel
  obtain ⟨hlow, hhigh, hcomma⟩ := entry.visible b hb
  refine hall ⟨b.toNat, b.toNat_lt⟩ ⟨hlow, hhigh, fun h44 => hcomma ?_⟩
  exact UInt8.toNat_inj.mp h44

/-- Blanks before an entry are trimmed. -/
theorem trim_blanks {blanks e : Text} (hblanks : ∀ c ∈ blanks, isWhitespace c = true)
    (he : ∀ c ∈ e, isWhitespace c = false) : trim (blanks ++ e) = e := by
  have hfront : (blanks ++ e).dropWhile isWhitespace = e.dropWhile isWhitespace := by
    rw [List.dropWhile_append, List.dropWhile_eq_nil_iff.mpr hblanks]
    rfl
  have hself : Words.trim isWhitespace e = e := by
    refine Words.trim_eq_self (fun c hc => he c (List.mem_of_mem_head? hc)) fun c hc => he c ?_
    exact List.mem_of_getLast? hc
  rw [trim, hfront]
  exact hself

/-- **The last entry of a list is the one that was appended.** -/
theorem lastEntry_append (forwarded : Text) {blanks : Text}
    (hblanks : ∀ c ∈ blanks, isWhitespace c = true ∧ c ≠ ',') (entry : Entry) :
    lastEntry (forwarded ++ ',' :: (blanks ++ entry.text)) = some entry.text := by
  have hcomma : ',' ∉ blanks ++ entry.text := by
    intro h
    rcases List.mem_append.mp h with h | h
    · exact (hblanks _ h).2 rfl
    · exact (Entry.of_mem_text h).1 rfl
  have htrim : trim (blanks ++ entry.text) = entry.text :=
    trim_blanks (fun c hc => (hblanks c hc).1) fun c hc => (Entry.of_mem_text hc).2
  have hfull : entry.text.isEmpty = false := List.isEmpty_eq_false_iff.mpr entry.text_ne_nil
  rw [lastEntry, List.splitOn_append_cons_self, List.splitOn_eq_singleton hcomma, List.map_append,
    List.map_singleton, htrim, List.filter_append, List.filter_singleton]
  simp [hfull]

/-- An entry alone is the last one. -/
theorem lastEntry_text (entry : Entry) : lastEntry entry.text = some entry.text := by
  have hcomma : ',' ∉ entry.text := fun h => (Entry.of_mem_text h).1 rfl
  have htrim : trim entry.text = entry.text :=
    @trim_blanks [] _ (by simp) fun c hc => (Entry.of_mem_text hc).2
  have hfull : entry.text.isEmpty = false := List.isEmpty_eq_false_iff.mpr entry.text_ne_nil
  rw [lastEntry, List.splitOn_eq_singleton hcomma, List.map_singleton, htrim,
    List.filter_singleton]
  simp [hfull]

theorem Entry.isVisibleAscii_of_mem {b : UInt8} (h : b ∈ entry.bytes) :
    isVisibleAscii b = true := by
  obtain ⟨hlow, hhigh, -⟩ := entry.visible b h
  simp [isVisibleAscii, UInt8.le_of_lt hlow, hhigh]

theorem Entry.lastEntry_line (entry : Entry) : entry.line.lastEntry = some entry.text := by
  have hvisible : entry.bytes.all isVisibleAscii = true :=
    List.all_eq_true.mpr fun b hb => Entry.isVisibleAscii_of_mem hb
  have htext : entry.line.toStr = some entry.text := if_pos hvisible
  rw [HeaderValue.lastEntry, htext]
  exact lastEntry_text entry

/-- **On a line of text, the last entry is the one that was appended.** -/
theorem Entry.lastEntry_after (entry : Entry) (spaces : ℕ) (line : HeaderValue) :
    (entry.after spaces line).lastEntry =
      if line.toStr.isSome then some entry.text else none := by
  have hsuffix : (44 :: (List.replicate spaces 32 ++ entry.bytes)).all isVisibleAscii = true := by
    rw [List.all_cons, List.all_append, List.all_replicate]
    have hentry : entry.bytes.all isVisibleAscii = true :=
      List.all_eq_true.mpr fun b hb => Entry.isVisibleAscii_of_mem hb
    rw [hentry]
    cases spaces <;> rfl
  rw [HeaderValue.lastEntry, HeaderValue.toStr, HeaderValue.toStr, after, List.all_append, hsuffix,
    Bool.and_true]
  split
  · have htext : asciiText (line.bytes ++ 44 :: (List.replicate spaces 32 ++ entry.bytes)) =
        asciiText line.bytes ++ ',' :: (List.replicate spaces ' ' ++ entry.text) := by
      simp [asciiText, Entry.text]
    rw [Option.bind_some, htext]
    refine lastEntry_append _ (fun c hc => ?_) entry
    rw [List.eq_of_mem_replicate hc]
    decide
  · rfl

/-! ### Who says what is read -/

/-- What is read of the headers, from a trusted proxy. -/
theorem resolve_trusted {proxy : SocketAddr} (hloop : proxy.ip.isLoopback = true) :
    resolve headers (some proxy) true =
      some (((headers xForwardedFor).head?.bind HeaderValue.lastEntry).getD proxy.ip.text) := by
  rw [resolve, HeaderMap.get, Option.any_some, hloop]
  cases (headers xForwardedFor).head?.bind HeaderValue.lastEntry <;> rfl

/-- Without a trusted proxy, nothing is read of the headers. -/
theorem resolve_untrusted
    (h : ∀ proxy, peer = some proxy → proxy.ip.isLoopback = true → trust = false) :
    resolve headers peer trust = peer.map fun address => address.ip.text := by
  have hnot : (trust && peer.any fun address => address.ip.isLoopback) = false := by
    rcases peer with _ | proxy
    · exact Bool.and_false _
    · rw [Option.any_some]
      rcases hloop : proxy.ip.isLoopback with _ | _
      · exact Bool.and_false _
      · rw [h proxy rfl hloop]
        rfl
  rw [resolve, hnot]
  rfl

/-- **What is read of the lines that a proxy forwards** is the entry if that is on the first line. -/
theorem lastEntry_lines (how : Appending) (entry : Entry) (proxy : IpAddr)
    (lines : List HeaderValue) :
    ((how.lines entry lines).head?.bind HeaderValue.lastEntry).getD proxy.text = entry.text ↔
      OnFirstLine how entry proxy lines := by
  have hentry : (some entry.line).bind HeaderValue.lastEntry = some entry.text :=
    entry.lastEntry_line
  match how, lines with
  | .toLastLine _, [] | .asFurtherLine, [] =>
    exact iff_of_true (congrArg (Option.getD · _) hentry) trivial
  | .asFurtherLine, line :: rest => exact Iff.rfl
  | .toLastLine spaces, line :: next :: rest =>
    obtain ⟨last, hlast⟩ : ∃ last, (line :: next :: rest).getLast? = some last :=
      Option.ne_none_iff_exists'.mp (by simp)
    have hhead : ((Appending.toLastLine spaces).lines entry (line :: next :: rest)).head? =
        some line := by
      simp only [Appending.lines, hlast]
      rfl
    rw [hhead]
    exact Iff.rfl
  | .toLastLine spaces, [line] =>
    have hafter : ((Appending.toLastLine spaces).lines entry [line]).head?.bind
        HeaderValue.lastEntry = if line.toStr.isSome then some entry.text else none :=
      entry.lastEntry_after spaces line
    rw [hafter, OnFirstLine]
    split <;> simp [*]

/-- **When the client cannot choose its address**: from a trusted proxy, if the entry that the proxy
appended is on the line that is read. -/
theorem clientBound_iff (headers : HeaderMap) (how : Appending) (entry : Entry)
    (peer : Option SocketAddr) (trust : Bool) :
    ClientBound headers how entry peer trust ↔
      ∀ proxy, peer = some proxy → proxy.ip.isLoopback = true → trust = true →
        OnFirstLine how entry proxy.ip (headers xForwardedFor) := by
  have hforward : how.forward entry headers xForwardedFor =
      how.lines entry (headers xForwardedFor) := Function.update_self _ _ _
  have htrusted : ∀ proxy : SocketAddr, proxy.ip.isLoopback = true →
      (resolve (how.forward entry headers) (some proxy) true = some entry.text ↔
        OnFirstLine how entry proxy.ip (headers xForwardedFor)) := by
    intro proxy hloop
    rw [resolve_trusted hloop, hforward, Option.some_inj]
    exact lastEntry_lines how entry proxy.ip _
  constructor
  · rintro h proxy rfl hloop rfl
    exact (htrusted proxy hloop).mp (h.trusted proxy rfl hloop rfl)
  · intro h
    refine ⟨?_, fun hno other => (resolve_untrusted hno).trans (resolve_untrusted hno).symm⟩
    rintro proxy rfl hloop rfl
    exact (htrusted proxy hloop).mpr (h proxy rfl hloop rfl)

/-! ### A client that chooses -/

/-- The bytes of a text of ASCII. -/
def asciiBytes (s : String) : List UInt8 := s.toList.map fun c => c.toNat.toUInt8

/-- The address that a client would like to have. -/
def Entry.chosen : Entry where
  bytes := asciiBytes "198.51.100.1"
  ne_nil := by decide
  visible := by decide +kernel

/-- The address that the proxy saw. -/
def Entry.seen : Entry where
  bytes := asciiBytes "203.0.113.9"
  ne_nil := by decide
  visible := by decide +kernel

/-- **A client that sends a line of its own** has chosen its address, when the proxy appends a
further line. -/
theorem not_clientBound :
    ¬ ClientBound (fun name => if name = xForwardedFor then [Entry.chosen.line] else [])
      .asFurtherLine .seen (some ⟨.v4 127 0 0 1, 54321⟩) true := by
  intro h
  have hseen := h.trusted _ rfl rfl rfl
  exact absurd hseen (by decide)

end Marketplace.Http
