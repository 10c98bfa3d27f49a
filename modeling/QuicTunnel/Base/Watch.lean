import Mathlib.Tactic

/-!
# Watch channels

A channel that keeps its latest value (`tokio::sync::watch`).  The sender overwrites the value and
counts a version; a receiver remembers the version it has seen.  Dropping the sender closes the
channel and leaves the value.

* `hasChanged`: an error exactly when the channel is closed, whatever was seen;
* `changed`: an unseen version is delivered even on a closed channel, and only then is the closing
  reported.
-/

/-- A channel whose latest value is `value`. -/
structure Watch (α : Type*) where
  value : α
  version : ℕ
  closed : Bool
  deriving DecidableEq

namespace Watch

variable {α : Type*}

/-- `watch::channel`: the initial value counts as seen. -/
def channel (value : α) : Watch α := ⟨value, 0, false⟩

/-- `Sender::send`. -/
def send (w : Watch α) (value : α) : Watch α := { w with value := value, version := w.version + 1 }

/-- Dropping the sender. -/
def close (w : Watch α) : Watch α := { w with closed := true }

/-- `Receiver::has_changed` of a receiver that has seen `seen`. -/
def hasChanged (w : Watch α) (seen : ℕ) : Except Unit Bool :=
  if w.closed then .error () else .ok (w.version != seen)

/-- `Receiver::changed`, `none` while it waits. -/
def changed (w : Watch α) (seen : ℕ) : Option (Except Unit α) :=
  if w.version ≠ seen then some (.ok w.value) else if w.closed then some (.error ()) else none

theorem hasChanged_eq_error {w : Watch α} {seen : ℕ} {u : Unit}
    (h : w.hasChanged seen = .error u) : w.closed = true := by
  unfold hasChanged at h
  split_ifs at h with hc
  exact hc

theorem changed_eq_error {w : Watch α} {seen : ℕ} {u : Unit}
    (h : w.changed seen = some (.error u)) : w.version = seen ∧ w.closed = true := by
  unfold changed at h
  split_ifs at h with hv hc
  · cases h
  · exact ⟨not_not.1 hv, hc⟩

theorem changed_eq_ok {w : Watch α} {seen : ℕ} {v : α} (h : w.changed seen = some (.ok v)) :
    w.version ≠ seen ∧ v = w.value := by
  unfold changed at h
  split_ifs at h with hv hc
  · cases h
    exact ⟨hv, rfl⟩
  · cases h

end Watch
