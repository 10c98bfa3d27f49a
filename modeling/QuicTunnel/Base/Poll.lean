import Mathlib.Tactic

/-!
# Polling a server

A client that sleeps, asks and, as long as there is no answer, asks again after the next delay, for
a number of rounds: over any answers, errors and delays.

* `poll` runs the loop against the answers `ask i`, and keeps the time slept;
* `poll_cases`: it ends in the first round that is answered, or without an answer after the last;
* `result_eq_some`, `slept_le`: when it brings an answer, and how long it sleeps at most.
-/

namespace Poll

variable {ε α δ : Type}

/-- A result, and the time slept before it. -/
structure Waited (ε α : Type) where
  slept : ℕ
  result : Except ε α

/-- Sleeps and asks, for `rounds` rounds from round `i` on, until there is an answer. -/
def poll (cost : δ → ℕ) (next : δ → δ) (ask : ℕ → Except ε (Option α)) :
    (rounds i : ℕ) → (delay : δ) → Waited ε (Option α)
  | 0, _, _ => ⟨0, .ok none⟩
  | rounds + 1, i, delay =>
    match ask i with
    | .ok none =>
      let rest := poll cost next ask rounds (i + 1) (next delay)
      ⟨cost delay + rest.slept, rest.result⟩
    | answer => ⟨cost delay, answer⟩

/-- The sleeps of the first `rounds` rounds. -/
def sleeps (cost : δ → ℕ) (next : δ → δ) : (rounds : ℕ) → (delay : δ) → ℕ
  | 0, _ => 0
  | rounds + 1, delay => cost delay + sleeps cost next rounds (next delay)

theorem sleeps_mono (cost : δ → ℕ) (next : δ → δ) {j rounds : ℕ} (h : j ≤ rounds) (delay : δ) :
    sleeps cost next j delay ≤ sleeps cost next rounds delay := by
  induction rounds generalizing j delay with
  | zero => rw [Nat.le_zero.1 h]
  | succ rounds ih =>
    rcases j with _ | j
    · exact Nat.zero_le _
    · exact Nat.add_le_add_left (ih (Nat.le_of_succ_le_succ h) (next delay)) _

/-- `j` rounds from round `i` on had no answer. -/
def Silent (ask : ℕ → Except ε (Option α)) (i j : ℕ) : Prop :=
  ∀ k < j, ask (i + k) = .ok none

section Cases

variable {cost : δ → ℕ} {next : δ → δ} {ask : ℕ → Except ε (Option α)}

theorem silent_succ {i j : ℕ} :
    Silent ask i (j + 1) ↔ ask i = .ok none ∧ Silent ask (i + 1) j := by
  constructor
  · intro h
    refine ⟨h 0 j.succ_pos, fun k hk => ?_⟩
    have := h (k + 1) (Nat.succ_lt_succ hk)
    rwa [Nat.add_comm k, ← Nat.add_assoc] at this
  · rintro ⟨hzero, hsucc⟩ k hk
    rcases k with _ | k
    · exact hzero
    · have := hsucc k (Nat.lt_of_succ_lt_succ hk)
      rwa [Nat.add_assoc, Nat.add_comm 1] at this

/-- Two rounds that are the first to be answered are one. -/
theorem Silent.unique {i j k : ℕ} (hj : Silent ask i j) (hk : Silent ask i k)
    (hanswer : ask (i + j) ≠ .ok none) (hanswer' : ask (i + k) ≠ .ok none) : j = k := by
  rcases lt_trichotomy j k with h | h | h
  · exact absurd (hk j h) hanswer
  · exact h
  · exact absurd (hj k h) hanswer'

theorem poll_of_silent {rounds i : ℕ} {delay : δ} (h : ask i = .ok none) :
    poll cost next ask (rounds + 1) i delay =
      ⟨cost delay + (poll cost next ask rounds (i + 1) (next delay)).slept,
        (poll cost next ask rounds (i + 1) (next delay)).result⟩ := by
  rw [poll, h]

theorem poll_of_answer {rounds i : ℕ} {delay : δ} (h : ask i ≠ .ok none) :
    poll cost next ask (rounds + 1) i delay = ⟨cost delay, ask i⟩ := by
  rw [poll]
  split
  · exact absurd ‹_› h
  · rfl

/-- A poll ends in the first round that is answered, or without an answer after the last. -/
theorem poll_cases (rounds i : ℕ) (delay : δ) :
    (∃ j < rounds, Silent ask i j ∧ ask (i + j) ≠ .ok none ∧
      poll cost next ask rounds i delay = ⟨sleeps cost next (j + 1) delay, ask (i + j)⟩) ∨
    (Silent ask i rounds ∧
      poll cost next ask rounds i delay = ⟨sleeps cost next rounds delay, .ok none⟩) := by
  induction rounds generalizing i delay with
  | zero => exact .inr ⟨fun k hk => absurd hk k.not_lt_zero, rfl⟩
  | succ rounds ih =>
    by_cases hask : ask i = .ok none
    · rw [poll_of_silent hask]
      rcases ih (i + 1) (next delay) with ⟨j, hj, hsilent, hanswer, heq⟩ | ⟨hsilent, heq⟩
      · rw [Nat.add_assoc, Nat.add_comm 1] at hanswer heq
        refine .inl ⟨j + 1, Nat.succ_lt_succ hj, silent_succ.2 ⟨hask, hsilent⟩, hanswer, ?_⟩
        rw [heq]
        rfl
      · refine .inr ⟨silent_succ.2 ⟨hask, hsilent⟩, ?_⟩
        rw [heq]
        rfl
    · rw [poll_of_answer hask]
      exact .inl ⟨0, rounds.succ_pos, fun k hk => absurd hk k.not_lt_zero, hask, rfl⟩

/-- A poll brings an answer exactly when one comes in time, after no answer and no error. -/
theorem result_eq_some (rounds i : ℕ) (delay : δ) (a : α) :
    (poll cost next ask rounds i delay).result = .ok (some a) ↔
      ∃ j < rounds, Silent ask i j ∧ ask (i + j) = .ok (some a) := by
  have answered {j : ℕ} (h : ask (i + j) = .ok (some a)) : ask (i + j) ≠ .ok none := by
    rw [h]
    simp
  rcases poll_cases rounds i delay with ⟨j, hj, hsilent, hanswer, heq⟩ | ⟨hsilent, heq⟩
  · rw [heq]
    refine ⟨fun h => ⟨j, hj, hsilent, h⟩, ?_⟩
    rintro ⟨k, -, hsilent', h⟩
    rwa [hsilent.unique hsilent' hanswer (answered h)]
  · rw [heq]
    refine ⟨fun h => by simp at h, ?_⟩
    rintro ⟨k, hk, -, h⟩
    exact absurd (hsilent k hk) (answered h)

/-- A poll sleeps no longer than all of its rounds. -/
theorem slept_le (rounds i : ℕ) (delay : δ) :
    (poll cost next ask rounds i delay).slept ≤ sleeps cost next rounds delay := by
  rcases poll_cases rounds i delay with ⟨j, hj, -, -, heq⟩ | ⟨-, heq⟩
  · rw [heq]
    exact sleeps_mono cost next hj delay
  · rw [heq]

end Cases

end Poll
