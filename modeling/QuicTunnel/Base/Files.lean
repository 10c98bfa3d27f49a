import Mathlib.Tactic

/-!
# Files written piece by piece

Files by their paths, as another process or the next start finds them.  A file is written by opening
it, which empties it, and appending to it until all is there, so whoever looks in between, or after
the writer is killed, finds an initial part; a rename replaces a whole file at once.

* `Writing files p rest whole`: `p` holds `whole` up to `rest`, which is still to come;
* `writing_create`, `Writing.append`, `Writing.whole`: the course of such a write;
* `create_of_ne`, `append_of_ne`, `rename_of_ne`: every other file stays as it is.
-/

namespace Files

variable {π β : Type} [DecidableEq π]

/-- Opens `p` for writing: it is created, or emptied. -/
def create (files : π → Option (List β)) (p : π) : π → Option (List β) :=
  Function.update files p (some [])

/-- Appends to `p`. -/
def append (files : π → Option (List β)) (p : π) (piece : List β) : π → Option (List β) :=
  Function.update files p ((files p).map (· ++ piece))

/-- Moves `p` to `q`, over what is there. -/
def rename (files : π → Option (List β)) (p q : π) : π → Option (List β) :=
  Function.update (Function.update files p none) q (files p)

variable {files : π → Option (List β)} {p q r : π}

theorem create_of_ne (h : q ≠ p) : create files p q = files q := Function.update_of_ne h _ _

theorem append_of_ne (h : q ≠ p) (piece : List β) : append files p piece q = files q :=
  Function.update_of_ne h _ _

theorem rename_of_ne (hp : r ≠ p) (hq : r ≠ q) : rename files p q r = files r := by
  rw [rename, Function.update_of_ne hq, Function.update_of_ne hp]

theorem rename_target : rename files p q q = files p := Function.update_self ..

/-- `p` holds `whole` up to `rest`, which is still to come. -/
def Writing (files : π → Option (List β)) (p : π) (rest whole : List β) : Prop :=
  ∃ written, files p = some written ∧ written ++ rest = whole

theorem writing_create (whole : List β) : Writing (create files p) p whole whole :=
  ⟨[], Function.update_self .., rfl⟩

theorem Writing.append {rest whole : List β} (h : Writing files p rest whole) (n : ℕ) :
    Writing (append files p (rest.take n)) p (rest.drop n) whole := by
  obtain ⟨written, hfile, rfl⟩ := h
  refine ⟨written ++ rest.take n, ?_, ?_⟩
  · rw [Files.append, Function.update_self, hfile]
    rfl
  · rw [List.append_assoc, List.take_append_drop]

omit [DecidableEq π] in
theorem Writing.whole {whole : List β} (h : Writing files p [] whole) : files p = some whole := by
  obtain ⟨written, hfile, rfl⟩ := h
  rw [hfile, List.append_nil]

end Files
