import QuicTunnel.Base.Segments
import QuicTunnel.Common.Control

/-!
# The control frame codec

`ctrl_read` and `ctrl_write` of `tunnel-common/src/lib.rs` on streams that split the bytes as they
like: a reader is a list of segments, a writer a sink that takes as much as it has capacity for.
On a stream that has ended, `ctrlReadFrom` is `ctrlRead` of the concatenation, whatever the segments
are; what it finds is decided by the bytes alone.
-/

namespace QuicTunnel.Codec

open Segments

/-! ### The two functions -/

/-- `ctrl_read`: what is read, and what is left of the stream. -/
def ctrlReadFrom (segments : List Bytes) : Except String Bytes × List Bytes :=
  match readExact 4 segments with
  | (none, segments) => (.error "early eof", segments)
  | (some lenBuf, segments) =>
    let len := fromBeBytes lenBuf
    if maxCtrlFrame < len then
      (.error s!"control frame of {len} bytes exceeds the {maxCtrlFrame}-byte limit", segments)
    else
      match readExact len segments with
      | (none, segments) => (.error "early eof", segments)
      | (some buf, segments) => (.ok buf, segments)

/-- `ctrl_write`: how it ends, and what has reached the sink. -/
def ctrlWriteTo (data : Bytes) (sink : Sink UInt8) : Except String Unit × Sink UInt8 :=
  if data.length ≤ maxCtrlFrame then
    match writeAll sink.written (toBeBytes data.length) sink.capacities with
    | (false, sink) => (.error "write zero", sink)
    | (true, sink) =>
      match writeAll sink.written data sink.capacities with
      | (false, sink) => (.error "write zero", sink)
      | (true, sink) => (.ok (), sink)
  else
    (.error s!"control frame of {data.length} bytes exceeds the {maxCtrlFrame}-byte limit", sink)

/-- `ctrl_read`, `n` times. -/
def ctrlReadMany : ℕ → List Bytes → Except String (List Bytes) × List Bytes
  | 0, segments => (.ok [], segments)
  | n + 1, segments =>
    match ctrlReadFrom segments with
    | (.error e, segments) => (.error e, segments)
    | (.ok payload, segments) =>
      let (payloads, segments) := ctrlReadMany n segments
      (payloads.map (payload :: ·), segments)

/-- The bytes of a frame. -/
def frame (payload : Bytes) : Bytes := toBeBytes payload.length ++ payload

theorem length_frame (payload : Bytes) : (frame payload).length = payload.length + 4 := by
  rw [frame, List.length_append, Nat.add_comm]
  rfl

/-! ### Reading -/

/-- **What a read finds is what the concatenation of the segments says.** -/
theorem ctrlReadFrom_eq (segments : List Bytes) :
    match ctrlRead segments.flatten true with
    | .pending => False
    | .error e => (ctrlReadFrom segments).1 = .error e
    | .frame payload rest =>
      ∃ left, ctrlReadFrom segments = (.ok payload, left) ∧ left.flatten = rest := by
  unfold ctrlRead
  by_cases hshort : segments.flatten.length < 4
  · rw [if_pos hshort]
    simp only [ctrlReadFrom, readExact_of_lt hshort, if_true]
  obtain ⟨left, hread, hleft⟩ := readExact_of_le (Nat.le_of_not_lt hshort)
  rw [if_neg hshort]
  simp only [ctrlReadFrom, hread, ← hleft]
  by_cases hlimit : maxCtrlFrame < fromBeBytes (segments.flatten.take 4)
  · simp only [if_pos hlimit]
  simp only [if_neg hlimit]
  by_cases hlen : left.flatten.length < fromBeBytes (segments.flatten.take 4)
  · simp only [if_pos hlen, readExact_of_lt hlen, if_true]
  obtain ⟨left', hread', hleft'⟩ := readExact_of_le (Nat.le_of_not_lt hlen)
  simp only [if_neg hlen, hread']
  exact ⟨left', rfl, hleft'⟩

theorem ctrlReadFrom_ok_iff {segments : List Bytes} {payload rest : Bytes} :
    (∃ left, ctrlReadFrom segments = (.ok payload, left) ∧ left.flatten = rest) ↔
      ctrlRead segments.flatten true = .frame payload rest := by
  have hspec := ctrlReadFrom_eq segments
  split at hspec
  · exact hspec.elim
  · rename_i e he
    rw [he]
    constructor
    · rintro ⟨left, hread, -⟩
      rw [hread] at hspec
      cases hspec
    · intro h
      cases h
  · rename_i payload' rest' he
    obtain ⟨left', hread', hleft'⟩ := hspec
    rw [he]
    constructor
    · rintro ⟨left, hread, rfl⟩
      cases hread.symm.trans hread'
      rw [hleft']
    · intro h
      cases h
      exact ⟨left', hread', hleft'⟩

/-- A frame is read exactly where it stands. -/
theorem ctrlRead_frame_iff {buffer payload rest : Bytes} {fin : Bool} :
    ctrlRead buffer fin = .frame payload rest ↔
      payload.length ≤ maxCtrlFrame ∧ buffer = frame payload ++ rest := by
  constructor
  · intro h
    refine ⟨length_of_ctrlRead h, ?_⟩
    unfold ctrlRead at h
    simp only at h
    split_ifs at h with h4 hlimit hlen
    cases h
    have hpayload : ((buffer.drop 4).take (fromBeBytes (buffer.take 4))).length =
        fromBeBytes (buffer.take 4) := List.length_take_of_le (by omega)
    rw [frame, hpayload, toBeBytes_fromBeBytes (List.length_take_of_le (by omega)),
      List.append_assoc, List.take_append_drop, List.take_append_drop]
  · rintro ⟨hle, rfl⟩
    exact ctrlRead_ctrlWrite (if_pos hle) rest fin

/-- A stream that ends inside a frame is an error, and all of it has been read. -/
theorem ctrlReadFrom_truncated {segments : List Bytes} {payload : Bytes}
    (hle : payload.length ≤ maxCtrlFrame) (hcut : segments.flatten <+: frame payload)
    (hne : segments.flatten ≠ frame payload) :
    ctrlReadFrom segments = (.error "early eof", []) := by
  have hlt : segments.flatten.length < (frame payload).length :=
    lt_of_le_of_ne hcut.length_le fun h => hne (hcut.eq_of_length h)
  rw [length_frame] at hlt
  unfold ctrlReadFrom
  by_cases hshort : segments.flatten.length < 4
  · simp only [readExact_of_lt hshort]
  obtain ⟨left, hread, hleft⟩ := readExact_of_le (Nat.le_of_not_lt hshort)
  have hmax : maxCtrlFrame = 4096 := rfl
  have hlen : fromBeBytes (segments.flatten.take 4) = payload.length := by
    rw [List.prefix_iff_eq_take.1 hcut, List.take_take, Nat.min_eq_left (by omega)]
    exact fromBeBytes_toBeBytes (by omega)
  have hfew : left.flatten.length < payload.length := by
    rw [hleft, List.length_drop]
    omega
  simp only [hread, hlen, if_neg (Nat.not_lt.2 hle), readExact_of_lt hfew]

/-- A length above the limit is an error with nothing read behind it. -/
theorem ctrlReadFrom_oversized {segments : List Bytes} {len : ℕ}
    (h4 : 4 ≤ segments.flatten.length) (hlen : fromBeBytes (segments.flatten.take 4) = len)
    (hlimit : maxCtrlFrame < len) :
    ∃ left, ctrlReadFrom segments =
        (.error s!"control frame of {len} bytes exceeds the {maxCtrlFrame}-byte limit", left) ∧
      left.flatten = segments.flatten.drop 4 := by
  obtain ⟨left, hread, hleft⟩ := readExact_of_le h4
  refine ⟨left, ?_, hleft⟩
  simp only [ctrlReadFrom, hread, hlen, if_pos hlimit]

/-- A run of frames is read back payload by payload. -/
theorem ctrlReadMany_frames {payloads : List Bytes}
    (hle : ∀ payload ∈ payloads, payload.length ≤ maxCtrlFrame) {segments : List Bytes}
    {rest : Bytes} (hsegments : segments.flatten = payloads.flatMap frame ++ rest) :
    ∃ left, ctrlReadMany payloads.length segments = (.ok payloads, left) ∧
      left.flatten = rest := by
  induction payloads generalizing segments with
  | nil => exact ⟨segments, rfl, hsegments⟩
  | cons payload payloads ih =>
    rw [List.flatMap_cons, List.append_assoc] at hsegments
    obtain ⟨hhead, htail⟩ := List.forall_mem_cons.1 hle
    obtain ⟨left, hread, hleft⟩ :=
      ctrlReadFrom_ok_iff.2 (ctrlRead_frame_iff.2 ⟨hhead, hsegments⟩)
    obtain ⟨left', hmany, hrest⟩ := ih htail hleft
    refine ⟨left', ?_, hrest⟩
    rw [List.length_cons, ctrlReadMany, hread]
    simp only [hmany]
    rfl

/-! ### Writing -/

theorem ctrlWriteTo_of_lt {data : Bytes} (h : maxCtrlFrame < data.length) (sink : Sink UInt8) :
    ctrlWriteTo data sink =
      (.error s!"control frame of {data.length} bytes exceeds the {maxCtrlFrame}-byte limit",
        sink) :=
  if_neg (Nat.not_le.2 h)

/-- What a successful write emits. -/
theorem written_ctrlWriteTo {data : Bytes} {sink : Sink UInt8}
    (h : (ctrlWriteTo data sink).1 = .ok ()) :
    (ctrlWriteTo data sink).2.written = sink.written ++ frame data := by
  unfold ctrlWriteTo at h ⊢
  split_ifs at h ⊢
  obtain ⟨sent, -, hwritten, hsent⟩ :=
    writeAll_written sink.written (toBeBytes data.length) sink.capacities
  rcases hhead : writeAll sink.written (toBeBytes data.length) sink.capacities with
    ⟨_ | _, sink'⟩
  · simp [hhead] at h
  obtain ⟨sent', -, hwritten', hsent'⟩ := writeAll_written sink'.written data sink'.capacities
  rcases hbody : writeAll sink'.written data sink'.capacities with ⟨_ | _, sink''⟩
  · simp [hhead, hbody] at h
  rw [hhead] at hwritten hsent
  rw [hbody] at hwritten' hsent'
  simp only [hbody]
  rw [hwritten', hsent' rfl, hwritten, hsent rfl, frame, List.append_assoc]

/-- A sink with room for the frame takes it. -/
theorem ctrlWriteTo_ok {data : Bytes} {sink : Sink UInt8} (hle : data.length ≤ maxCtrlFrame)
    (hpos : 0 ∉ sink.capacities) (hroom : (frame data).length ≤ sink.capacities.length) :
    (ctrlWriteTo data sink).1 = .ok () := by
  rw [length_frame] at hroom
  have hfour : (toBeBytes data.length).length = 4 := rfl
  obtain ⟨sink', hhead, hpos', hlen⟩ :=
    writeAll_done sink.written (toBeBytes data.length) hpos (by omega)
  obtain ⟨sink'', hbody, -, -⟩ := writeAll_done sink'.written data hpos' (by omega)
  simp only [ctrlWriteTo, if_pos hle, hhead, hbody]

/-! ### The codec -/

/-- What the two functions are to each other, for every segmentation and every sink. -/
structure Exact : Prop where
  /-- Frames are read back in order, and what follows them is left. -/
  roundTrip : ∀ (payloads : List Bytes) (rest : Bytes) (segments : List Bytes),
    (∀ payload ∈ payloads, payload.length ≤ maxCtrlFrame) →
    segments.flatten = payloads.flatMap frame ++ rest →
    ∃ left, ctrlReadMany payloads.length segments = (.ok payloads, left) ∧ left.flatten = rest
  /-- A read succeeds on a frame, and on nothing else. -/
  accepts : ∀ (segments : List Bytes) (payload rest : Bytes),
    (∃ left, ctrlReadFrom segments = (.ok payload, left) ∧ left.flatten = rest) ↔
      payload.length ≤ maxCtrlFrame ∧ segments.flatten = frame payload ++ rest
  truncated : ∀ (segments : List Bytes) (payload : Bytes), payload.length ≤ maxCtrlFrame →
    segments.flatten <+: frame payload → segments.flatten ≠ frame payload →
    ctrlReadFrom segments = (.error "early eof", [])
  oversized : ∀ (segments : List Bytes) (len : ℕ), 4 ≤ segments.flatten.length →
    fromBeBytes (segments.flatten.take 4) = len → maxCtrlFrame < len →
    ∃ left, ctrlReadFrom segments =
        (.error s!"control frame of {len} bytes exceeds the {maxCtrlFrame}-byte limit", left) ∧
      left.flatten = segments.flatten.drop 4
  /-- A write that succeeds emits the frame, and it succeeds on a sink with room. -/
  writes : ∀ (data : Bytes) (sink : Sink UInt8), data.length ≤ maxCtrlFrame →
    ((ctrlWriteTo data sink).1 = .ok () →
      (ctrlWriteTo data sink).2.written = sink.written ++ frame data) ∧
    (0 ∉ sink.capacities → (frame data).length ≤ sink.capacities.length →
      (ctrlWriteTo data sink).1 = .ok ())
  /-- A longer payload fails without touching the sink. -/
  refuses : ∀ (data : Bytes) (sink : Sink UInt8), maxCtrlFrame < data.length →
    ctrlWriteTo data sink =
      (.error s!"control frame of {data.length} bytes exceeds the {maxCtrlFrame}-byte limit", sink)

/-- **The control frame codec is exact.** -/
theorem ctrl_codec_exact : Exact where
  roundTrip _ _ _ hle hsegments := ctrlReadMany_frames hle hsegments
  accepts _ _ _ := ctrlReadFrom_ok_iff.trans ctrlRead_frame_iff
  truncated _ _ hle hcut hne := ctrlReadFrom_truncated hle hcut hne
  oversized _ _ h4 hlen hlimit := ctrlReadFrom_oversized h4 hlen hlimit
  writes _ _ hle := ⟨written_ctrlWriteTo, ctrlWriteTo_ok hle⟩
  refuses _ sink hlt := ctrlWriteTo_of_lt hlt sink

end QuicTunnel.Codec
