import QuicTunnel.Common.Bytes
import QuicTunnel.Common.Time
import Mathlib.Order.Interval.Finset.Nat
import Mathlib.Data.Nat.Count

/-!
# Sniffing the ClientHello

The public listener peeks at the first bytes of a connection until they parse as a TLS ClientHello,
and routes by its server name.  The peer's bytes arrive in any pieces, so each peek sees some prefix
of the stream, cut at the buffer of the moment.

* `extractSniAlpn` and `Sniffer.turn` are the source's parse and the body of its loop;
* `sniff` is the loop against a stream and a schedule of arrivals;
* `Turn` lists what one turn can do, and `sound_sniff` and `accounted_sniff` are what holds after
  any number of turns;
* `returns_iff` says what the loop returns once everything has arrived.

The TLS parser is a parameter.  `TlsParser.Laws` is what is assumed of it: a record that is not yet
complete does not parse, and what follows the first record is not looked at.
-/

namespace QuicTunnel.Relay

/-! ## The parse -/

/-- `tls_parser::TlsExtension`, as far as it is matched on. -/
inductive TlsExtension where
  | sni (names : List (UInt8 × Bytes))
  | alpn (protos : List Bytes)
  | other

/-- `tls_parser::TlsMessage`: a ClientHello with the bytes of its extensions, or anything else. -/
inductive TlsMessage where
  | clientHello (ext : Option Bytes)
  | other

/-- The two functions of `tls_parser` in use, with the input they leave unread dropped. -/
structure TlsParser where
  parseTlsPlaintext : Bytes → Option (List TlsMessage)
  parseTlsExtensions : Bytes → Option (List TlsExtension)

/-- ACME TLS-ALPN-01 challenge clients advertise this protocol. -/
def acmeTlsAlpn : Bytes := utf8 "acme-tls/1"

/-- One extension of the hello; a later one of the same kind replaces an earlier one. -/
def scanExtension : Option String × Bool → TlsExtension → Option String × Bool
  | (_, isAcme), .sni names => (names.head?.bind fun name => fromUtf8 name.2, isAcme)
  | (sni, _), .alpn protos => (sni, protos.any (· == acmeTlsAlpn))
  | found, .other => found

/-- The server name of a ClientHello and whether it is an ACME challenge; `none` without a server
name. -/
def extractSniAlpn (tls : TlsParser) (data : Bytes) : Option (String × Bool) := do
  let msg ← tls.parseTlsPlaintext data
  match ← msg.head? with
  | .other => none
  | .clientHello ext =>
    let extensions ← tls.parseTlsExtensions (← ext)
    let (sni, isAcme) := extensions.foldl scanExtension (none, false)
    sni.map fun host => (host, isAcme)

/-- The size of the first TLS record of `data` by its header: five bytes, the last two of them the
length of the fragment. -/
def recordLen (data : Bytes) : ℕ := 5 + 256 * (data.getD 3 0).toNat + (data.getD 4 0).toNat

/-- The first record of `data` is there as a whole. -/
def RecordComplete (data : Bytes) : Prop := 5 ≤ data.length ∧ recordLen data ≤ data.length

instance (data : Bytes) : Decidable (RecordComplete data) :=
  inferInstanceAs (Decidable (_ ∧ _))

/-- What is assumed of the TLS parser. -/
structure TlsParser.Laws (tls : TlsParser) : Prop where
  /-- A strict prefix of the first record does not parse. -/
  incomplete : ∀ data, ¬RecordComplete data → tls.parseTlsPlaintext data = none
  /-- A complete first record is all that is read. -/
  firstRecord : ∀ data, RecordComplete data →
    tls.parseTlsPlaintext data = tls.parseTlsPlaintext (data.take (recordLen data))

/-! ## The loop -/

/-- Size of the first peek. -/
def peekBufInit : ℕ := 4096

/-- Size of the largest peek. -/
def peekBufMax : ℕ := 16 * 1024

/-- First pause between two peeks. -/
def peekPollMin : Duration := .fromMillis 1

/-- Longest pause between two peeks. -/
def peekPollMax : Duration := .fromMillis 50

/-- The variables of `peek_sni_alpn`. -/
structure Sniffer where
  bufLen : ℕ
  seen : ℕ
  backoff : Duration
  deriving DecidableEq

/-- The variables before the first peek. -/
def Sniffer.new : Sniffer := ⟨peekBufInit, 0, peekPollMin⟩

/-- `peek_sni_alpn` between two peeks, or returned. -/
inductive Sniffing where
  | looping (s : Sniffer)
  | returned (result : Option (String × Bool))
  deriving DecidableEq

/-- The pause of a turn, which doubles the next one; it stays far below the range of `Duration`. -/
def Sniffer.slept (s : Sniffer) : Sniffer :=
  { s with backoff := min (s.backoff.saturatingMul 2) peekPollMax }

/-- One turn of the loop, from the answer of `peek`: an error, or the bytes it put in the buffer. -/
def Sniffer.turn (tls : TlsParser) (s : Sniffer) : Option Bytes → Sniffing
  | none => .returned none
  | some data =>
    if data.length = 0 then .returned none
    else if s.seen < data.length then
      match extractSniAlpn tls data with
      | some found => .returned (some found)
      | none =>
        if s.bufLen ≤ data.length then
          if peekBufMax ≤ s.bufLen then .returned none
          else .looping ⟨min (s.bufLen * 2) peekBufMax, 0, peekPollMin⟩
        else .looping (Sniffer.slept ⟨s.bufLen, data.length, peekPollMin⟩)
    else .looping s.slept

/-- What a peek sees of `stream` when `arrived` of its bytes are there. -/
def peek (stream : Bytes) (bufLen arrived : ℕ) : Bytes := stream.take (min arrived bufLen)

/-- A turn against an open connection: with nothing there, `peek` keeps waiting. -/
def Sniffing.step (tls : TlsParser) (stream : Bytes) : Sniffing → ℕ → Sniffing
  | .returned result, _ => .returned result
  | .looping s, arrived =>
    if (peek stream s.bufLen arrived).length = 0 then .looping s
    else s.turn tls (some (peek stream s.bufLen arrived))

/-- The loop after `k` peeks, at the `k`-th of which `schedule k` bytes had arrived. -/
def sniff (tls : TlsParser) (stream : Bytes) (schedule : ℕ → ℕ) : ℕ → Sniffing
  | 0 => .looping .new
  | k + 1 => (sniff tls stream schedule k).step tls stream (schedule k)

/-- A peek that makes the loop parse. -/
def Sniffing.parses (stream : Bytes) : Sniffing → ℕ → Bool
  | .returned _, _ => false
  | .looping s, arrived => s.seen < (peek stream s.bufLen arrived).length

/-- The size of the buffer; nothing is left of it after the return. -/
def Sniffing.buffer : Sniffing → ℕ
  | .looping s => s.bufLen
  | .returned _ => 0

/-- The number of parses in the first `k` turns. -/
def parseCount (tls : TlsParser) (stream : Bytes) (schedule : ℕ → ℕ) (k : ℕ) : ℕ :=
  Nat.count (fun j => (sniff tls stream schedule j).parses stream (schedule j)) k

/-- The number of times the buffer was grown in the first `k` turns. -/
def growCount (tls : TlsParser) (stream : Bytes) (schedule : ℕ → ℕ) (k : ℕ) : ℕ :=
  Nat.count (fun j => (sniff tls stream schedule j).buffer <
    (sniff tls stream schedule (j + 1)).buffer) k

/-- All of `stream` arrives in the end. -/
def Delivers (stream : Bytes) (schedule : ℕ → ℕ) : Prop :=
  ∃ K, ∀ k, K ≤ k → stream.length ≤ schedule k

/-- The loop returns the pair `found`. -/
def Returns (tls : TlsParser) (stream : Bytes) (schedule : ℕ → ℕ) (found : String × Bool) : Prop :=
  ∃ k, sniff tls stream schedule k = .returned (some found)

/-! ## Prefixes of a stream -/

section Prefixes

variable {tls : TlsParser} {stream : Bytes}

theorem recordLen_take {n : ℕ} (h : 5 ≤ n) : recordLen (stream.take n) = recordLen stream := by
  have h3 : (stream.take n).getD 3 0 = stream.getD 3 0 := by
    simp only [List.getD_eq_getElem?_getD, List.getElem?_take_of_lt (show 3 < n by omega)]
  have h4 : (stream.take n).getD 4 0 = stream.getD 4 0 := by
    simp only [List.getD_eq_getElem?_getD, List.getElem?_take_of_lt (show 4 < n by omega)]
  rw [recordLen, recordLen, h3, h4]

theorem five_le_recordLen (data : Bytes) : 5 ≤ recordLen data := by
  unfold recordLen
  omega

theorem recordComplete_take {n : ℕ} :
    RecordComplete (stream.take n) ↔
      recordLen stream ≤ n ∧ 5 ≤ stream.length ∧ recordLen stream ≤ stream.length := by
  have hlen : (stream.take n).length = min n stream.length := List.length_take
  have hfive := five_le_recordLen stream
  constructor
  · rintro ⟨h5, hle⟩
    rw [recordLen_take (by omega)] at hle
    omega
  · rintro ⟨hn, h5, hle⟩
    refine ⟨by omega, ?_⟩
    rw [recordLen_take (by omega)]
    omega

theorem extractSniAlpn_incomplete (htls : tls.Laws) {data : Bytes} (h : ¬RecordComplete data) :
    extractSniAlpn tls data = none := by
  simp [extractSniAlpn, htls.incomplete data h]

/-- A longer prefix changes nothing once the first record is complete. -/
theorem extractSniAlpn_take_of_le (htls : tls.Laws) {m n : ℕ} (hmn : m ≤ n)
    (h : RecordComplete (stream.take m)) :
    extractSniAlpn tls (stream.take n) = extractSniAlpn tls (stream.take m) := by
  have hm := recordComplete_take.1 h
  have hn : RecordComplete (stream.take n) := recordComplete_take.2 ⟨by omega, hm.2⟩
  have hfive := five_le_recordLen stream
  have hsame : tls.parseTlsPlaintext (stream.take n) = tls.parseTlsPlaintext (stream.take m) := by
    rw [htls.firstRecord _ hn, htls.firstRecord _ h, recordLen_take (by omega),
      recordLen_take (by omega), List.take_take, List.take_take, Nat.min_eq_left (by omega),
      Nat.min_eq_left hm.1]
  simp only [extractSniAlpn, hsame]

/-- A pair found in a prefix is found in every longer one. -/
theorem extractSniAlpn_take_mono (htls : tls.Laws) {m n : ℕ} {found : String × Bool} (hmn : m ≤ n)
    (h : extractSniAlpn tls (stream.take m) = some found) :
    extractSniAlpn tls (stream.take n) = some found := by
  by_cases hc : RecordComplete (stream.take m)
  · rw [extractSniAlpn_take_of_le htls hmn hc, h]
  · rw [extractSniAlpn_incomplete htls hc] at h
    cases h

end Prefixes

/-! ## What a turn does -/

section Turns

variable {tls : TlsParser} {stream : Bytes} {schedule : ℕ → ℕ} {arrived k : ℕ}

/-- What a turn can do, with `n` bytes in the buffer. -/
inductive Turn (tls : TlsParser) (stream : Bytes) (s : Sniffer) (n : ℕ) : Sniffing → Prop
  /-- Nothing new was there. -/
  | idle (backoff : Duration) : n ≤ s.seen → Turn tls stream s n (.looping { s with backoff })
  /-- The bytes parse. -/
  | found {found : String × Bool} : s.seen < n → extractSniAlpn tls (stream.take n) = some found →
      Turn tls stream s n (.returned (some found))
  /-- They fill the largest buffer and do not parse. -/
  | full : s.seen < n → extractSniAlpn tls (stream.take n) = none → n = s.bufLen →
      peekBufMax ≤ s.bufLen → Turn tls stream s n (.returned none)
  /-- They fill the buffer, which is grown. -/
  | grown (backoff : Duration) : s.seen < n → n = s.bufLen → s.bufLen < peekBufMax →
      Turn tls stream s n (.looping ⟨min (s.bufLen * 2) peekBufMax, 0, backoff⟩)
  /-- They do not parse yet. -/
  | partly (backoff : Duration) : s.seen < n → extractSniAlpn tls (stream.take n) = none →
      n < s.bufLen → Turn tls stream s n (.looping ⟨s.bufLen, n, backoff⟩)

theorem length_peek (stream : Bytes) (bufLen arrived : ℕ) :
    (peek stream bufLen arrived).length = min (min arrived bufLen) stream.length :=
  List.length_take

theorem take_length_peek (stream : Bytes) (bufLen arrived : ℕ) :
    stream.take (peek stream bufLen arrived).length = peek stream bufLen arrived := by
  rw [length_peek, peek, ← List.take_take, List.take_length]

theorem turn_of_step (s : Sniffer) :
    Turn tls stream s (peek stream s.bufLen arrived).length
      ((Sniffing.looping s).step tls stream arrived) := by
  have htake := take_length_peek stream s.bufLen arrived
  have hle : (peek stream s.bufLen arrived).length ≤ s.bufLen := by rw [length_peek]; omega
  simp only [Sniffing.step]
  by_cases h0 : (peek stream s.bufLen arrived).length = 0
  · rw [if_pos h0]
    exact .idle s.backoff (by omega)
  rw [if_neg h0]
  simp only [Sniffer.turn, if_neg h0]
  by_cases hnew : s.seen < (peek stream s.bufLen arrived).length
  · rw [if_pos hnew]
    rcases hx : extractSniAlpn tls (peek stream s.bufLen arrived) with _ | found
    · have hnone := htake.symm ▸ hx
      dsimp only
      split_ifs with hfull hmax
      · exact .full hnew hnone (by omega) hmax
      · exact .grown _ hnew (by omega) (by omega)
      · exact .partly _ hnew hnone (by omega)
    · exact .found hnew (htake.symm ▸ hx)
  · rw [if_neg hnew]
    exact .idle _ (by omega)

/-- What holds at the head of the loop and of what it returns. -/
def Sound (tls : TlsParser) (stream : Bytes) : Sniffing → Prop
  | .looping s => s.seen < s.bufLen ∧ s.bufLen ≤ peekBufMax ∧
      (0 < s.seen → extractSniAlpn tls (stream.take s.seen) = none)
  | .returned (some found) => ∃ n ≤ peekBufMax, extractSniAlpn tls (stream.take n) = some found
  | .returned none => extractSniAlpn tls (stream.take peekBufMax) = none

theorem sound_step {s : Sniffer} {state : Sniffing} {n : ℕ} (ht : Turn tls stream s n state)
    (hs : Sound tls stream (.looping s)) (hn : n ≤ s.bufLen) : Sound tls stream state := by
  obtain ⟨hseen, hbuf, hnone⟩ := hs
  cases ht with
  | idle => exact ⟨hseen, hbuf, hnone⟩
  | found hnew hx => exact ⟨n, hn.trans hbuf, hx⟩
  | full hnew hx hfull hmax =>
    obtain rfl : n = peekBufMax := by omega
    exact hx
  | grown _ hnew hfull hmax =>
    refine ⟨?_, Nat.min_le_right _ _, by simp⟩
    show 0 < min (s.bufLen * 2) peekBufMax
    omega
  | partly _ hnew hx hlt => exact ⟨hlt, hbuf, fun _ => hx⟩

theorem sound_sniff (tls : TlsParser) (stream : Bytes) (schedule : ℕ → ℕ) (k : ℕ) :
    Sound tls stream (sniff tls stream schedule k) := by
  induction k with
  | zero => exact ⟨by decide, by decide, by simp [Sniffer.new]⟩
  | succ k ih =>
    rw [sniff]
    rcases hstate : sniff tls stream schedule k with s | result
    · rw [hstate] at ih
      exact sound_step (turn_of_step s) ih (by rw [length_peek]; omega)
    · rwa [hstate] at ih

/-- The parses and growths that a state has room for: one parse for each byte that each of the
buffers 4096, 8192 and 16384 has seen. -/
def Accounted (parses growths : ℕ) : Sniffing → Prop
  | .looping s => parses + peekBufInit ≤ s.bufLen + s.seen ∧ growths ≤ 2 ∧
      s.bufLen = peekBufInit * 2 ^ growths
  | .returned _ => parses ≤ 28672 ∧ growths ≤ 2

theorem bufLen_mem {growths : ℕ} (h : growths ≤ 2) {bufLen : ℕ}
    (hbuf : bufLen = peekBufInit * 2 ^ growths) :
    (growths = 0 ∧ bufLen = 4096) ∨ (growths = 1 ∧ bufLen = 8192) ∨
      (growths = 2 ∧ bufLen = 16384) := by
  interval_cases growths <;> simp [hbuf, peekBufInit]

theorem accounted_step {s : Sniffer} {state : Sniffing} {parses growths : ℕ}
    (ht : Turn tls stream s (peek stream s.bufLen arrived).length state)
    (hs : Accounted parses growths (.looping s)) :
    Accounted (parses + if (Sniffing.looping s).parses stream arrived then 1 else 0)
      (growths + if (Sniffing.looping s).buffer < state.buffer then 1 else 0) state := by
  obtain ⟨hparses, hgrowths, hbuf⟩ := hs
  have hle : (peek stream s.bufLen arrived).length ≤ s.bufLen := by rw [length_peek]; omega
  have hinit : peekBufInit = 4096 := rfl
  have hmax' : peekBufMax = 16384 := rfl
  have hcases := bufLen_mem hgrowths hbuf
  simp only [Sniffing.parses, decide_eq_true_eq]
  cases ht with
  | idle _ hold =>
    rw [if_neg (by omega), if_neg (by simp [Sniffing.buffer])]
    exact ⟨hparses, hgrowths, hbuf⟩
  | found hnew hx =>
    rw [if_pos hnew, if_neg (by simp [Sniffing.buffer])]
    exact ⟨by omega, hgrowths⟩
  | full hnew hx hfull hmax =>
    rw [if_pos hnew, if_neg (by simp [Sniffing.buffer])]
    exact ⟨by omega, hgrowths⟩
  | grown _ hnew hfull hmax =>
    rw [if_pos hnew, if_pos (by show s.bufLen < min _ _; omega)]
    refine ⟨?_, by omega, ?_⟩
    · show _ ≤ min (s.bufLen * 2) peekBufMax + 0
      omega
    · show min (s.bufLen * 2) peekBufMax = _
      rw [pow_succ, ← mul_assoc, ← hbuf]
      omega
  | partly _ hnew hx hlt =>
    rw [if_pos hnew, if_neg (by simp [Sniffing.buffer])]
    refine ⟨?_, hgrowths, hbuf⟩
    show _ ≤ s.bufLen + (peek stream s.bufLen arrived).length
    omega

theorem parseCount_succ (k : ℕ) :
    parseCount tls stream schedule (k + 1) = parseCount tls stream schedule k +
      if (sniff tls stream schedule k).parses stream (schedule k) then 1 else 0 :=
  Nat.count_succ _ k

theorem growCount_succ (k : ℕ) :
    growCount tls stream schedule (k + 1) = growCount tls stream schedule k +
      if (sniff tls stream schedule k).buffer < (sniff tls stream schedule (k + 1)).buffer
        then 1 else 0 :=
  Nat.count_succ _ k

theorem accounted_sniff (tls : TlsParser) (stream : Bytes) (schedule : ℕ → ℕ) (k : ℕ) :
    Accounted (parseCount tls stream schedule k) (growCount tls stream schedule k)
      (sniff tls stream schedule k) := by
  induction k with
  | zero =>
    exact ⟨by simp [parseCount, Sniffer.new], by simp [growCount], by simp [growCount, Sniffer.new]⟩
  | succ k ih =>
    rw [parseCount_succ, growCount_succ, sniff]
    rcases hstate : sniff tls stream schedule k with s | result
    · rw [hstate] at ih
      exact accounted_step (turn_of_step s) ih
    · rw [hstate] at ih
      simpa [Sniffing.parses, Sniffing.step, Sniffing.buffer] using ih

theorem parseCount_le (tls : TlsParser) (stream : Bytes) (schedule : ℕ → ℕ) (k : ℕ) :
    parseCount tls stream schedule k ≤ 28672 := by
  have h := accounted_sniff tls stream schedule k
  rcases hstate : sniff tls stream schedule k with s | result
  · have hs := sound_sniff tls stream schedule k
    rw [hstate] at h hs
    have := h.1
    have := hs.1
    have := hs.2.1
    have hinit : peekBufInit = 4096 := rfl
    have hmax : peekBufMax = 16384 := rfl
    omega
  · rw [hstate] at h
    exact h.1

theorem growCount_le (tls : TlsParser) (stream : Bytes) (schedule : ℕ → ℕ) (k : ℕ) :
    growCount tls stream schedule k ≤ 2 := by
  have h := accounted_sniff tls stream schedule k
  rcases hstate : sniff tls stream schedule k with s | result
  · rw [hstate] at h
    exact h.2.1
  · rw [hstate] at h
    exact h.2

/-! ## What the loop returns -/

/-- Once everything has arrived, some turn finds nothing new, or the loop has returned. -/
theorem exists_idle (tls : TlsParser) (hall : Delivers stream schedule) :
    ∃ k, stream.length ≤ schedule k ∧
      (sniff tls stream schedule k).parses stream (schedule k) = false := by
  obtain ⟨K, hK⟩ := hall
  by_contra hbusy
  push Not at hbusy
  -- Otherwise each turn from `K` on parses, which only finitely many do.
  have hgrow : ∀ d, d ≤ parseCount tls stream schedule (K + d) := by
    intro d
    induction d with
    | zero => exact Nat.zero_le _
    | succ d ih =>
      have hparses : (sniff tls stream schedule (K + d)).parses stream (schedule (K + d)) = true :=
        Bool.eq_true_of_not_eq_false (hbusy (K + d) (hK _ (by omega)))
      rw [← Nat.add_assoc, parseCount_succ, if_pos hparses]
      omega
  have := hgrow 28673
  have := parseCount_le tls stream schedule (K + 28673)
  omega

/-- A turn that finds nothing new has seen what is there, up to its buffer. -/
theorem le_seen_of_idle {s : Sniffer} (hall : stream.length ≤ arrived)
    (hidle : (Sniffing.looping s).parses stream arrived = false) :
    min s.bufLen stream.length ≤ s.seen := by
  have hold : (peek stream s.bufLen arrived).length ≤ s.seen := by
    simpa [Sniffing.parses] using hidle
  rw [length_peek] at hold
  omega

/-- Nothing is left to find for a loop that sees all of the stream and nothing new. -/
theorem none_of_idle {s : Sniffer} (hs : Sound tls stream (.looping s))
    (hall : stream.length ≤ arrived) (hidle : (Sniffing.looping s).parses stream arrived = false)
    (hne : stream ≠ []) : extractSniAlpn tls (stream.take peekBufMax) = none := by
  obtain ⟨hseen, hbuf, hnone⟩ := hs
  have hold := le_seen_of_idle hall hidle
  have hpos : 0 < stream.length := List.length_pos_iff.2 hne
  have hshort : stream.length ≤ s.seen := by omega
  rw [List.take_of_length_le (by omega), ← List.take_of_length_le hshort]
  exact hnone (by omega)

/-- **What the loop returns.** -/
theorem returns_iff (htls : tls.Laws) (hall : Delivers stream schedule) (found : String × Bool) :
    Returns tls stream schedule found ↔
      extractSniAlpn tls (stream.take peekBufMax) = some found := by
  constructor
  · rintro ⟨k, hk⟩
    have hsound := sound_sniff tls stream schedule k
    rw [hk] at hsound
    obtain ⟨n, hn, hx⟩ := hsound
    exact extractSniAlpn_take_mono htls hn hx
  · intro hx
    have hne : stream ≠ [] := by
      rintro rfl
      rw [extractSniAlpn_incomplete htls (by simp [RecordComplete])] at hx
      cases hx
    obtain ⟨k, harrived, hidle⟩ := exists_idle tls hall
    refine ⟨k, ?_⟩
    have hsound := sound_sniff tls stream schedule k
    rcases hstate : sniff tls stream schedule k with s | _ | found'
    · rw [hstate] at hsound hidle
      rw [none_of_idle hsound harrived hidle hne] at hx
      cases hx
    · rw [hstate] at hsound
      rw [show extractSniAlpn tls (stream.take peekBufMax) = none from hsound] at hx
      cases hx
    · rw [hstate] at hsound
      obtain ⟨n, hn, hfound⟩ := hsound
      rw [extractSniAlpn_take_mono htls hn hfound] at hx
      rw [hx]

/-- A stream that fills the largest buffer and does not parse is given up. -/
theorem returned_none_of_full (htls : tls.Laws) (hall : Delivers stream schedule)
    (hlen : peekBufMax ≤ stream.length)
    (hnone : extractSniAlpn tls (stream.take peekBufMax) = none) :
    ∃ k, sniff tls stream schedule k = .returned none := by
  obtain ⟨k, harrived, hidle⟩ := exists_idle tls hall
  refine ⟨k, ?_⟩
  have hsound := sound_sniff tls stream schedule k
  rcases hstate : sniff tls stream schedule k with s | _ | found
  · rw [hstate] at hsound hidle
    obtain ⟨hseen, hbuf, -⟩ := hsound
    have hold := le_seen_of_idle harrived hidle
    omega
  · rfl
  · rw [(returns_iff htls hall found).1 ⟨k, hstate⟩] at hnone
    cases hnone

end Turns

/-! ## A ClientHello -/

/-- Two bytes, the high one first. -/
def be16 (n : ℕ) : Bytes := [.ofNat (n / 256), .ofNat n]

/-- A server name extension for `example.com` and `pad` bytes of padding. -/
def helloExtensions (pad : ℕ) : Bytes :=
  [0, 0, 0, 16, 0, 14, 0, 0, 11] ++ utf8 "example.com" ++ [0, 21] ++ be16 pad ++
    List.replicate pad 0

/-- A record with one ClientHello: its header, the handshake header, version, random, no session,
one cipher suite, no compression, and the extensions. -/
def clientHello (pad : ℕ) : Bytes :=
  [22, 3, 1] ++ be16 (71 + pad) ++ [1, 0] ++ be16 (67 + pad) ++ [3, 3] ++ List.replicate 32 0 ++
    [0, 0, 2, 19, 1, 1, 0] ++ be16 (24 + pad) ++ helloExtensions pad

/-- A parser that knows these records. -/
def helloTls : TlsParser where
  parseTlsPlaintext data :=
    if RecordComplete data ∧ data.take (recordLen data) = clientHello (recordLen data - 76) then
      some [.clientHello (some (helloExtensions (recordLen data - 76)))]
    else none
  parseTlsExtensions ext :=
    if ext = helloExtensions (ext.length - 24) then
      some [.sni [(0, utf8 "example.com")], .other]
    else none

theorem helloTls_laws : helloTls.Laws where
  incomplete data h := by simp [helloTls, h]
  firstRecord data h := by
    have hlen : (data.take (recordLen data)).length = recordLen data :=
      List.length_take_of_le h.2
    have hfive := five_le_recordLen data
    have hrec : recordLen (data.take (recordLen data)) = recordLen data := recordLen_take hfive
    have hcomplete : RecordComplete (data.take (recordLen data)) :=
      ⟨by omega, by rw [hrec, hlen]⟩
    simp only [helloTls, hrec, h, hcomplete, true_and, List.take_take, Nat.min_self]

theorem length_helloExtensions (pad : ℕ) : (helloExtensions pad).length = 24 + pad := by
  have hname : (utf8 "example.com").length = 11 := by decide
  simp only [helloExtensions, be16, List.length_append, List.length_cons, List.length_nil,
    List.length_replicate, hname]

theorem length_clientHello (pad : ℕ) : (clientHello pad).length = 76 + pad := by
  simp only [clientHello, be16, List.length_append, List.length_cons, List.length_nil,
    List.length_replicate, length_helloExtensions]
  omega

theorem recordLen_clientHello {pad : ℕ} (h : pad ≤ 16313) :
    recordLen (clientHello pad) = 76 + pad := by
  simp [recordLen, clientHello, be16]
  omega

theorem extractSniAlpn_clientHello {pad : ℕ} (h : pad ≤ 16313) :
    extractSniAlpn helloTls (clientHello pad) = some ("example.com", false) := by
  have hlen := length_clientHello pad
  have hrec := recordLen_clientHello h
  have hcomplete : RecordComplete (clientHello pad) := ⟨by omega, by omega⟩
  have hparse : helloTls.parseTlsPlaintext (clientHello pad) =
      some [.clientHello (some (helloExtensions pad))] := by
    simp only [helloTls, hcomplete, true_and, hrec, Nat.add_sub_cancel_left]
    rw [List.take_of_length_le (by omega), if_pos rfl]
  have hext : helloTls.parseTlsExtensions (helloExtensions pad) =
      some [.sni [(0, utf8 "example.com")], .other] := by
    simp only [helloTls, length_helloExtensions, Nat.add_sub_cancel_left, if_true]
  simp [extractSniAlpn, hparse, hext, scanExtension, fromUtf8_utf8]

/-! ## Results -/

/-- **Segmentation does not matter.**  Whatever the order in which the bytes arrive, the loop
returns what the parse makes of the first `peekBufMax` bytes; it parses at most 28672 times and
grows its buffer at most twice; and it gives up only when no prefix it could peek at would parse. -/
theorem sniff_any_schedule (tls : TlsParser) (htls : tls.Laws) (stream : Bytes) :
    (∀ schedule, Delivers stream schedule → ∀ found, Returns tls stream schedule found ↔
      extractSniAlpn tls (stream.take peekBufMax) = some found) ∧
    (∀ schedule schedule', Delivers stream schedule → Delivers stream schedule' →
      ∀ found, Returns tls stream schedule found ↔ Returns tls stream schedule' found) ∧
    (∀ schedule k, parseCount tls stream schedule k ≤ 28672 ∧
      growCount tls stream schedule k ≤ 2) ∧
    (∀ schedule k, sniff tls stream schedule k = .returned none →
      ∀ n ≤ peekBufMax, extractSniAlpn tls (stream.take n) = none) := by
  refine ⟨fun schedule hall found => returns_iff htls hall found, ?_,
    fun schedule k => ⟨parseCount_le tls stream schedule k, growCount_le tls stream schedule k⟩, ?_⟩
  · intro schedule schedule' hall hall' found
    rw [returns_iff htls hall found, returns_iff htls hall' found]
  · intro schedule k hk n hn
    have hsound := sound_sniff tls stream schedule k
    rw [hk] at hsound
    by_contra hfound
    obtain ⟨found, hx⟩ := Option.ne_none_iff_exists'.1 hfound
    have := extractSniAlpn_take_mono htls hn hx
    rw [show extractSniAlpn tls (stream.take peekBufMax) = none from hsound] at this
    cases this

/-- A small hello that arrives byte by byte. -/
theorem sniff_any_schedule_bytewise :
    helloTls.Laws ∧ Returns helloTls (clientHello 0) (fun k => k) ("example.com", false) := by
  have hall : Delivers (clientHello 0) (fun k => k) := ⟨_, fun k hk => hk⟩
  refine ⟨helloTls_laws, ?_⟩
  rw [(sniff_any_schedule helloTls helloTls_laws (clientHello 0)).1 _ hall,
    List.take_of_length_le (by rw [length_clientHello]; decide)]
  exact extractSniAlpn_clientHello (by omega)

/-- The largest prefix a peek can see holds a record that stands at the head of the stream iff the
record is no larger than that. -/
theorem extractSniAlpn_take_record {tls : TlsParser} (htls : tls.Laws) {record : Bytes}
    (hrecord : record.length = recordLen record) {found : String × Bool}
    (hfound : extractSniAlpn tls record = some found) (rest : Bytes) :
    extractSniAlpn tls ((record ++ rest).take peekBufMax) =
      if record.length ≤ peekBufMax then some found else none := by
  have hself : (record ++ rest).take record.length = record := List.take_left
  have hfive : 5 ≤ record.length := hrecord ▸ five_le_recordLen record
  have hlen : recordLen (record ++ rest) = record.length := by
    rw [← recordLen_take hfive, hself, hrecord]
  split_ifs with h
  · exact extractSniAlpn_take_mono htls h (by rw [hself, hfound])
  · refine extractSniAlpn_incomplete htls fun hc => h ?_
    have := (recordComplete_take.1 hc).1
    omega

/-- **Which hellos are routed.**  A ClientHello in one record that parses when complete is found,
however its bytes arrive, exactly when the record with its header is at most `peekBufMax` bytes;
a larger one is given up. -/
theorem clientHello_routed_iff (tls : TlsParser) (htls : tls.Laws) (record rest : Bytes)
    (hrecord : record.length = recordLen record) (found : String × Bool)
    (hfound : extractSniAlpn tls record = some found) (schedule : ℕ → ℕ)
    (hall : Delivers (record ++ rest) schedule) :
    (Returns tls (record ++ rest) schedule found ↔ record.length ≤ peekBufMax) ∧
      (peekBufMax < record.length →
        ∃ k, sniff tls (record ++ rest) schedule k = .returned none) := by
  have htake := extractSniAlpn_take_record htls hrecord hfound rest
  constructor
  · rw [returns_iff htls hall, htake]
    split_ifs with h <;> simp [h]
  · intro hlarge
    rw [if_neg (by omega)] at htake
    exact returned_none_of_full htls hall (by rw [List.length_append]; omega) htake

/-- The largest hello that is routed, with a fragment of 16379 bytes. -/
theorem clientHello_routed_largest :
    Returns helloTls (clientHello 16308 ++ []) (fun k => k) ("example.com", false) := by
  have hlen := length_clientHello 16308
  refine (clientHello_routed_iff helloTls helloTls_laws (clientHello 16308) []
    (by rw [hlen, recordLen_clientHello (by omega)]) _ (extractSniAlpn_clientHello (by omega))
    (fun k => k) ⟨_, fun k hk => hk⟩).1.2 ?_
  exact hlen.le

/-- A hello whose fragment has the legal 2^14 bytes is given up, even if it is all there at once. -/
theorem clientHello_unrouted :
    (clientHello 16313).length = 5 + 2 ^ 14 ∧
      extractSniAlpn helloTls (clientHello 16313) = some ("example.com", false) ∧
      ∃ k, sniff helloTls (clientHello 16313) (fun _ => 16389) k = .returned none := by
  have hlen := length_clientHello 16313
  have hfound := extractSniAlpn_clientHello (show 16313 ≤ 16313 from le_rfl)
  refine ⟨hlen, hfound, ?_⟩
  have hmax : peekBufMax = 16384 := rfl
  have htake := extractSniAlpn_take_record helloTls_laws
    (by rw [hlen, recordLen_clientHello le_rfl]) hfound []
  rw [List.append_nil, if_neg (by omega)] at htake
  exact returned_none_of_full helloTls_laws ⟨0, fun _ _ => hlen.le⟩ (by omega) htake

end QuicTunnel.Relay
