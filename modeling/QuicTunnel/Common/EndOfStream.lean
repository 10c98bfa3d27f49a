import QuicTunnel.Common.H2Io

/-!
# The end of an H2 stream

A caller of `AsyncRead`, such as `copy_bidirectional`, takes a read that succeeds and fills nothing
for the end of the stream.  `H2Recv::poll_read` (`tunnel-common/src/lib.rs`) answers so at the end,
and to a DATA chunk without bytes, which a peer may send at any time.

* `Recv`: the receiving end in front of a peer that has sent some chunks and the end of the stream;
* `Recv.readToEnd`: what a caller reads, up to the read that fills nothing.
-/

namespace QuicTunnel.H2Io

/-- `H2Recv`, with the chunks that h2 has not surfaced; the end of the stream is behind them. -/
structure Recv where
  chunks : List Bytes
  /-- The rest of the last chunk. -/
  buf : Bytes

namespace Recv

variable {s : Recv} {room : ℕ}

/-- What h2 answers to `poll_data`: the next chunk as a whole, once it has arrived. -/
def answer (s : Recv) (arrived : Bool) : DataAnswer :=
  match arrived, s.chunks with
  | false, _ => .pending
  | true, [] => .closed
  | true, chunk :: _ => .chunk chunk.length

/-- One `poll_read`.  A chunk is taken if the rest of the last one is used up. -/
def poll (s : Recv) (room : ℕ) (arrived : Bool) : Option (Poll (Except String Bytes) × Recv) :=
  (pollRead ⟨s.chunks.flatten, true⟩ s.buf room (s.answer arrived)).map fun (result, _, buf) =>
    (result, ⟨if s.buf = [] ∧ arrived = true then s.chunks.tail else s.chunks, buf⟩)

/-- What a caller reads with these buffers: the bytes before the first read that succeeds and fills
nothing, and whether there was one. -/
def readToEnd (s : Recv) : List (ℕ × Bool) → Bytes × Bool
  | [] => ([], false)
  | (room, arrived) :: reads =>
    match s.poll room arrived with
    | some (.ready (.ok []), _) => ([], true)
    | some (.ready (.ok (byte :: more)), s) =>
      (byte :: more ++ (s.readToEnd reads).1, (s.readToEnd reads).2)
    | some (.pending, s) => s.readToEnd reads
    | _ => ([], false)

/-! ### One read -/

theorem poll_of_rest (hbuf : s.buf ≠ []) (arrived : Bool) :
    s.poll room arrived =
      some (.ready (.ok (s.buf.take room)), ⟨s.chunks, s.buf.drop room⟩) := by
  simp only [poll, pollRead, if_pos hbuf, take_min_length, drop_min_length, Option.map_some,
    hbuf, false_and, if_false]

theorem poll_of_pending (hbuf : s.buf = []) : s.poll room false = some (.pending, s) := by
  obtain ⟨chunks, buf⟩ := s
  cases hbuf
  simp [poll, pollRead, answer, Wire.pollData]

theorem poll_of_closed : poll ⟨[], []⟩ room true = some (.ready (.ok []), ⟨[], []⟩) := by
  simp [poll, pollRead, answer, Wire.pollData]

theorem poll_of_chunk (room : ℕ) (chunk : Bytes) (chunks : List Bytes) :
    poll ⟨chunk :: chunks, []⟩ room true =
      some (.ready (.ok (chunk.take room)), ⟨chunks, chunk.drop room⟩) := by
  have htake : (chunk ++ chunks.flatten).take chunk.length = chunk := List.take_left
  simp only [poll, pollRead, answer, Wire.pollData, List.flatten_cons, List.length_append,
    Nat.le_add_right, if_true, htake, take_min_length, rest_of_chunk, Option.map_some, ne_eq,
    not_true_eq_false, if_false, and_self, List.tail_cons]

/-! ### Whole streams -/

/-- A read that returns something is followed by the others. -/
theorem readToEnd_of_data {data : Bytes} {s' : Recv} {arrived : Bool} (hdata : data ≠ [])
    (h : s.poll room arrived = some (.ready (.ok data), s')) (reads : List (ℕ × Bool)) :
    s.readToEnd ((room, arrived) :: reads) =
      (data ++ (s'.readToEnd reads).1, (s'.readToEnd reads).2) := by
  cases data with
  | nil => exact absurd rfl hdata
  | cons byte more => rw [readToEnd, h]

/-- An empty chunk comes only behind all bytes. -/
def EmptyChunksLast (chunks : List Bytes) : Prop :=
  ∀ before after, chunks = before ++ [] :: after → after.flatten = []

theorem EmptyChunksLast.tail {chunk : Bytes} {chunks : List Bytes}
    (h : EmptyChunksLast (chunk :: chunks)) : EmptyChunksLast chunks := by
  rintro before after rfl
  exact h (chunk :: before) after rfl

/-- With room in every buffer, the caller has read what was left when it sees the end. -/
theorem readToEnd_eq_of_eof {reads : List (ℕ × Bool)} (hroom : ∀ r ∈ reads, 0 < r.1)
    (hlast : EmptyChunksLast s.chunks) (heof : (s.readToEnd reads).2 = true) :
    (s.readToEnd reads).1 = s.buf ++ s.chunks.flatten := by
  induction reads generalizing s with
  | nil => cases heof
  | cons r reads ih =>
    obtain ⟨room, arrived⟩ := r
    obtain ⟨hpos, hrooms⟩ := List.forall_mem_cons.1 hroom
    have htake : ∀ {bytes : Bytes}, bytes ≠ [] → bytes.take room ≠ [] := fun hne hnil =>
      hne ((List.take_eq_nil_iff.1 hnil).resolve_left (Nat.ne_of_gt hpos))
    by_cases hbuf : s.buf = []
    · obtain ⟨chunks, buf⟩ := s
      cases hbuf
      cases arrived with
      | false =>
        rw [readToEnd, poll_of_pending rfl] at heof ⊢
        exact ih hrooms hlast heof
      | true =>
        cases chunks with
        | nil =>
          rw [readToEnd, poll_of_closed]
          rfl
        | cons chunk chunks =>
          by_cases hempty : chunk = []
          · -- an empty chunk is taken for the end, and no byte is behind it
            subst hempty
            rw [readToEnd, poll_of_chunk, List.take_nil]
            exact (hlast [] chunks rfl).symm
          · rw [readToEnd_of_data (htake hempty) (poll_of_chunk _ chunk chunks)] at heof ⊢
            show _ ++ _ = [] ++ (chunk :: chunks).flatten
            rw [ih hrooms hlast.tail heof, ← List.append_assoc, List.take_append_drop]
            rfl
    · rw [readToEnd_of_data (htake hbuf) (poll_of_rest hbuf arrived)] at heof ⊢
      show _ ++ _ = s.buf ++ s.chunks.flatten
      rw [ih (s := ⟨s.chunks, s.buf.drop room⟩) hrooms hlast heof, ← List.append_assoc,
        List.take_append_drop]

/-- Buffers that hold each of these chunks, and one byte more. -/
def roomy (chunks : List Bytes) : List (ℕ × Bool) :=
  chunks.map fun chunk => (chunk.length + 1, true)

/-- A caller with such buffers sees the end at the empty chunk behind them at the latest. -/
theorem readToEnd_of_empty (before after : List Bytes) :
    (readToEnd ⟨before ++ [] :: after, []⟩ (roomy (before ++ [[]]))).2 = true ∧
      (readToEnd ⟨before ++ [] :: after, []⟩ (roomy (before ++ [[]]))).1 <+: before.flatten := by
  induction before with
  | nil =>
    show (readToEnd ⟨[] :: after, []⟩ [(1, true)]).2 = true ∧ _
    rw [readToEnd, poll_of_chunk, List.take_nil]
    exact ⟨rfl, List.nil_prefix⟩
  | cons chunk before ih =>
    have hreads : roomy (chunk :: before ++ [[]]) =
        (chunk.length + 1, true) :: roomy (before ++ [[]]) := rfl
    have hall : chunk.take (chunk.length + 1) = chunk := List.take_of_length_le (by omega)
    have hnone : chunk.drop (chunk.length + 1) = [] := List.drop_of_length_le (by omega)
    have hpoll := poll_of_chunk (chunk.length + 1) chunk (before ++ [] :: after)
    rw [hall, hnone] at hpoll
    rw [hreads, List.cons_append]
    by_cases hempty : chunk = []
    · subst hempty
      rw [readToEnd, hpoll]
      exact ⟨rfl, List.nil_prefix⟩
    · rw [readToEnd_of_data hempty hpoll]
      exact ⟨ih.1, (List.prefix_append_right_inj chunk).2 ih.2⟩

end Recv

/-- The bytes a caller has read when it sees the end are those of all chunks, for all buffers that
have room. -/
def ReadsAll (chunks : List Bytes) : Prop :=
  ∀ reads, (∀ r ∈ reads, 0 < r.1) → (Recv.readToEnd ⟨chunks, []⟩ reads).2 = true →
    (Recv.readToEnd ⟨chunks, []⟩ reads).1 = chunks.flatten

/-- **A caller of `H2Recv` reads the whole stream** exactly if no byte of it is behind an empty
chunk. -/
theorem readsAll_iff (chunks : List Bytes) : ReadsAll chunks ↔ Recv.EmptyChunksLast chunks := by
  constructor
  · rintro h before after rfl
    obtain ⟨heof, hread⟩ := Recv.readToEnd_of_empty before after
    have hroom : ∀ r ∈ Recv.roomy (before ++ [[]]), 0 < r.1 := by
      intro r hr
      obtain ⟨chunk, -, rfl⟩ := List.mem_map.1 hr
      exact Nat.succ_pos _
    rw [h _ hroom heof] at hread
    have hlen := hread.length_le
    simp only [List.flatten_append, List.flatten_cons, List.nil_append, List.length_append] at hlen
    exact List.eq_nil_of_length_eq_zero (by omega)
  · intro hlast reads hroom heof
    exact Recv.readToEnd_eq_of_eof hroom hlast heof

/-- Two bytes with an empty chunk between them: the caller reads the first. -/
theorem not_readsAll_emptyBetween : ¬ReadsAll [[1], [], [2]] := by
  intro h
  exact absurd (h [(8, true), (8, true)] (by decide) rfl) (by decide)

end QuicTunnel.H2Io
