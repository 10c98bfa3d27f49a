import Mathlib.Tactic

/-!
# Byte streams in segments

What a reader sees of an ordered stream is a list of segments: a read returns at most what its
buffer takes of the first one and leaves the remainder at the head. An empty segment is a wake-up
that finds nothing. What a writer sees is a list of capacities, one for each call.

The laws say that the segmentation does not matter: `readExact` is `take` and `drop` on the
concatenation, and `writeAll` emits a prefix of its data, all of it if it succeeds.
-/

namespace Segments

variable {α : Type*}

/-! ### Reading -/

/-- Reads until `n` elements are there; `none` if the stream ends before. The second component is
what is left of the stream. -/
def readExact : ℕ → List (List α) → Option (List α) × List (List α)
  | 0, segments => (some [], segments)
  | _ + 1, [] => (none, [])
  | n + 1, segment :: segments =>
    if segment.length ≤ n + 1 then
      let (read, left) := readExact (n + 1 - segment.length) segments
      (read.map (segment ++ ·), left)
    else (some (segment.take (n + 1)), segment.drop (n + 1) :: segments)

/-- With enough elements, a read takes the first `n` of the concatenation. -/
theorem readExact_of_le {n : ℕ} {segments : List (List α)} (h : n ≤ segments.flatten.length) :
    ∃ left, readExact n segments = (some (segments.flatten.take n), left) ∧
      left.flatten = segments.flatten.drop n := by
  induction segments generalizing n with
  | nil =>
    obtain rfl : n = 0 := by simpa using h
    exact ⟨[], rfl, rfl⟩
  | cons segment segments ih =>
    rcases n with _ | n
    · exact ⟨segment :: segments, rfl, rfl⟩
    rw [List.flatten_cons, List.length_append] at h
    rw [readExact, List.flatten_cons]
    split_ifs with hle
    · obtain ⟨left, hread, hleft⟩ := ih (n := n + 1 - segment.length) (by omega)
      refine ⟨left, ?_, ?_⟩
      · rw [hread, List.take_append, List.take_of_length_le hle]
        rfl
      · rw [hleft, List.drop_append, List.drop_of_length_le hle, List.nil_append]
    · refine ⟨segment.drop (n + 1) :: segments, ?_, ?_⟩
      · rw [List.take_append_of_le_length (by omega)]
      · rw [List.flatten_cons, List.drop_append_of_le_length (by omega)]

/-- With too few, it fails and everything has been consumed. -/
theorem readExact_of_lt {n : ℕ} {segments : List (List α)} (h : segments.flatten.length < n) :
    readExact n segments = (none, []) := by
  induction segments generalizing n with
  | nil =>
    rcases n with _ | n
    · exact absurd h (Nat.lt_irrefl 0)
    · rfl
  | cons segment segments ih =>
    rw [List.flatten_cons, List.length_append] at h
    rcases n with _ | n
    · exact absurd h (Nat.not_lt_zero _)
    rw [readExact, if_pos (by omega), ih (by omega)]
    rfl

/-! ### Writing -/

/-- What has been written, and how much each further call will take; the stream fails when no
call is left. -/
structure Sink (α : Type*) where
  written : List α
  capacities : List ℕ

/-- Writes until all is taken. A call that takes nothing is an error. -/
def writeAll (written : List α) : List α → List ℕ → Bool × Sink α
  | [], capacities => (true, ⟨written, capacities⟩)
  | _ :: _, [] => (false, ⟨written, []⟩)
  | _ :: _, 0 :: capacities => (false, ⟨written, capacities⟩)
  | x :: data, (n + 1) :: capacities =>
    writeAll (written ++ (x :: data).take (n + 1)) ((x :: data).drop (n + 1)) capacities

/-- A write emits a prefix of its data, all of it if it succeeds. -/
theorem writeAll_written (written data : List α) (capacities : List ℕ) :
    ∃ sent, sent <+: data ∧ (writeAll written data capacities).2.written = written ++ sent ∧
      ((writeAll written data capacities).1 = true → sent = data) := by
  induction capacities generalizing written data with
  | nil =>
    cases data with
    | nil => exact ⟨[], List.prefix_rfl, by simp [writeAll], fun _ => rfl⟩
    | cons x data => exact ⟨[], List.nil_prefix, by simp [writeAll], fun h => by cases h⟩
  | cons n capacities ih =>
    rcases data with _ | ⟨x, data⟩
    · exact ⟨[], List.prefix_rfl, by simp [writeAll], fun _ => rfl⟩
    rcases n with _ | n
    · exact ⟨[], List.nil_prefix, by simp [writeAll], fun h => by cases h⟩
    rw [writeAll]
    obtain ⟨sent, hsent, hwritten, hdone⟩ :=
      ih (written ++ (x :: data).take (n + 1)) ((x :: data).drop (n + 1))
    refine ⟨(x :: data).take (n + 1) ++ sent, ?_, ?_, fun h => ?_⟩
    · conv_rhs => rw [← List.take_append_drop (n + 1) (x :: data)]
      exact (List.prefix_append_right_inj _).2 hsent
    · rw [hwritten, List.append_assoc]
    · rw [hdone h, List.take_append_drop]

/-- With a call left for each element and none that takes nothing, a write succeeds. -/
theorem writeAll_done (written data : List α) {capacities : List ℕ}
    (hpos : 0 ∉ capacities) (hlen : data.length ≤ capacities.length) :
    ∃ sink, writeAll written data capacities = (true, sink) ∧ 0 ∉ sink.capacities ∧
      capacities.length ≤ sink.capacities.length + data.length := by
  induction capacities generalizing written data with
  | nil =>
    obtain rfl : data = [] := List.eq_nil_of_length_eq_zero (Nat.le_zero.1 hlen)
    exact ⟨⟨written, []⟩, by rw [writeAll], hpos, Nat.le_refl _⟩
  | cons n capacities ih =>
    rcases data with _ | ⟨x, data⟩
    · exact ⟨⟨written, n :: capacities⟩, by rw [writeAll], hpos, Nat.le_refl _⟩
    rcases n with _ | n
    · exact absurd List.mem_cons_self hpos
    rw [writeAll, List.drop_succ_cons]
    simp only [List.length_cons] at hlen ⊢
    have hdrop : (data.drop n).length = data.length - n := List.length_drop
    obtain ⟨sink, hsink, hleft, hcount⟩ := ih (written ++ (x :: data).take (n + 1))
      (data.drop n) (fun h => hpos (List.mem_cons_of_mem _ h)) (by omega)
    exact ⟨sink, hsink, hleft, by omega⟩

end Segments
