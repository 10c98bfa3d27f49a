import QuicTunnel.Common.Bytes

/-!
# The control channel

`tunnel-common/src/lib.rs`: the control frames of the QUIC transport, `[u32 big-endian length]
[payload]` with at most `MAX_CTRL_FRAME` bytes of payload, and the bounded bodies that carry the
same payloads on H2.

`ctrlRead` reads from what has arrived of a stream; it waits as long as a frame is incomplete and
the stream is open.
-/

namespace QuicTunnel

/-- Largest control payload, on either transport. -/
def maxCtrlFrame : ℕ := 4096

/-! ### Frames -/

/-- `u32::to_be_bytes`. -/
def toBeBytes (n : ℕ) : Bytes :=
  [UInt8.ofNat (n / 2 ^ 24), UInt8.ofNat (n / 2 ^ 16), UInt8.ofNat (n / 2 ^ 8), UInt8.ofNat n]

/-- `u32::from_be_bytes`. -/
def fromBeBytes (bytes : Bytes) : ℕ := bytes.foldl (fun n b => n * 256 + b.toNat) 0

theorem fromBeBytes_toBeBytes {n : ℕ} (h : n < 2 ^ 32) : fromBeBytes (toBeBytes n) = n := by
  simp only [fromBeBytes, toBeBytes, List.foldl_cons, List.foldl_nil, UInt8.toNat_ofNat']
  omega

theorem toBeBytes_fromBeBytes {bytes : Bytes} (h : bytes.length = 4) :
    toBeBytes (fromBeBytes bytes) = bytes := by
  obtain ⟨a, b, c, d, rfl⟩ : ∃ a b c d, bytes = [a, b, c, d] := by
    match bytes, h with
    | [a, b, c, d], _ => exact ⟨a, b, c, d, rfl⟩
  have ha := a.toNat_lt
  have hb := b.toNat_lt
  have hc := c.toNat_lt
  have hd := d.toNat_lt
  simp only [fromBeBytes, toBeBytes, List.foldl_cons, List.foldl_nil, List.cons.injEq,
    ← UInt8.toNat_inj, UInt8.toNat_ofNat', and_true]
  omega

/-- What a read of a frame finds. -/
inductive CtrlRead
  | pending
  | error (cause : String)
  | frame (payload rest : Bytes)
  deriving DecidableEq

/-- `ctrl_read` on the bytes that have arrived; `fin` is whether the stream has ended. -/
def ctrlRead (buffer : Bytes) (fin : Bool) : CtrlRead :=
  if buffer.length < 4 then if fin then .error "early eof" else .pending
  else
    let len := fromBeBytes (buffer.take 4)
    let buffer := buffer.drop 4
    if maxCtrlFrame < len then
      .error s!"control frame of {len} bytes exceeds the {maxCtrlFrame}-byte limit"
    else if buffer.length < len then if fin then .error "early eof" else .pending
    else .frame (buffer.take len) (buffer.drop len)

/-- `ctrl_write`: the bytes written for a payload. -/
def ctrlWrite (data : Bytes) : Except String Bytes :=
  if data.length ≤ maxCtrlFrame then .ok (toBeBytes data.length ++ data)
  else .error s!"control frame of {data.length} bytes exceeds the {maxCtrlFrame}-byte limit"

/-- What is written is read back, and nothing behind it is touched. -/
theorem ctrlRead_ctrlWrite {data wire : Bytes} (h : ctrlWrite data = .ok wire) (rest : Bytes)
    (fin : Bool) : ctrlRead (wire ++ rest) fin = .frame data rest := by
  unfold ctrlWrite at h
  split_ifs at h with hle
  cases h
  have hmax : maxCtrlFrame = 4096 := rfl
  have hlen : fromBeBytes (toBeBytes data.length) = data.length :=
    fromBeBytes_toBeBytes (by omega)
  have htake : (toBeBytes data.length ++ data ++ rest).take 4 = toBeBytes data.length := rfl
  have hdrop : (toBeBytes data.length ++ data ++ rest).drop 4 = data ++ rest := rfl
  unfold ctrlRead
  rw [if_neg (by simp [toBeBytes]), htake, hdrop, hlen]
  simp only
  rw [if_neg (by omega), if_neg (by simp), List.take_left, List.drop_left]

theorem length_of_ctrlRead {buffer payload rest : Bytes} {fin : Bool}
    (h : ctrlRead buffer fin = .frame payload rest) : payload.length ≤ maxCtrlFrame := by
  unfold ctrlRead at h
  simp only at h
  split_ifs at h with h1 h2 h3
  cases h
  rw [List.length_take]
  omega

/-! ### Bodies -/

/-- `collect_h2_body`; a chunk is `none` where the stream fails. -/
def collectH2Body (max : ℕ) : Bytes → List (Option Bytes) → Except String Bytes
  | buffer, [] => .ok buffer
  | _, none :: _ => .error "stream error"
  | buffer, some chunk :: rest =>
    if max < buffer.length + chunk.length then
      .error s!"h2 control body exceeds the {max}-byte limit"
    else collectH2Body max (buffer ++ chunk) rest

theorem length_of_collectH2Body {max : ℕ} {buffer body : Bytes} {chunks : List (Option Bytes)}
    (hb : buffer.length ≤ max) (h : collectH2Body max buffer chunks = .ok body) :
    body.length ≤ max := by
  induction chunks generalizing buffer with
  | nil => cases h; exact hb
  | cons chunk chunks ih =>
    cases chunk with
    | none => cases h
    | some chunk =>
      rw [collectH2Body] at h
      split_ifs at h with hlt
      exact ih (by rw [List.length_append]; omega) h

/-- What is collected is what was sent. -/
theorem eq_of_collectH2Body {max : ℕ} {buffer body : Bytes} {chunks : List Bytes}
    (h : collectH2Body max buffer (chunks.map some) = .ok body) :
    body = buffer ++ chunks.flatten := by
  induction chunks generalizing buffer with
  | nil =>
    cases h
    simp
  | cons chunk chunks ih =>
    rw [List.map_cons, collectH2Body] at h
    split_ifs at h
    rw [ih h, List.flatten_cons, List.append_assoc]

/-- A body within the limit is collected whole, in whatever chunks it comes. -/
theorem collectH2Body_eq_ok {max : ℕ} {buffer : Bytes} {chunks : List Bytes}
    (h : buffer.length + chunks.flatten.length ≤ max) :
    collectH2Body max buffer (chunks.map some) = .ok (buffer ++ chunks.flatten) := by
  induction chunks generalizing buffer with
  | nil => simp [collectH2Body]
  | cons chunk chunks ih =>
    rw [List.flatten_cons, List.length_append] at h
    rw [List.map_cons, collectH2Body, if_neg (by omega),
      ih (by rw [List.length_append]; omega), List.flatten_cons, List.append_assoc]

/-- A body above the limit is refused, in whatever chunks it comes. -/
theorem collectH2Body_eq_error {max : ℕ} {chunks : List Bytes} (h : max < chunks.flatten.length) :
    ∃ e, collectH2Body max [] (chunks.map some) = .error e := by
  cases hbody : collectH2Body max [] (chunks.map some) with
  | error e => exact ⟨e, rfl⟩
  | ok body =>
    have hlen := length_of_collectH2Body (Nat.zero_le _) hbody
    rw [eq_of_collectH2Body hbody] at hlen
    exact absurd h (Nat.not_lt.2 hlen)

end QuicTunnel
