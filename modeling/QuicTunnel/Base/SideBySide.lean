import Mathlib.Data.List.Forall2
import Mathlib.Tactic

/-!
# Two lists side by side

`List.Forall₂ R l m` says that the entries of `l` and `m` are related by `R` place by place.  A
system that keeps a second list beside its list of parties grows both at the end and changes both
at one place:

* `Forall₂.concat`, `Forall₂.set`, `Forall₂.set_left` and `Forall₂.set_right` keep the relation,
  and `Forall₂.imp_of_mem_right` replaces it by another one;
* `Forall₂.countP_le` compares how often something holds in one list and in the other;
* `countP_set_add` and `sum_map_set_add` are what a change at one place does to a count and to a sum.
-/

namespace List

variable {α β : Type*} {R : α → β → Prop} {l : List α} {m : List β} {k : ℕ} {a : α} {b : β}

theorem set_of_getElem? (h : l[k]? = some a) : l.set k a = l := by
  obtain ⟨hk, rfl⟩ := getElem?_eq_some_iff.1 h
  exact set_getElem_self hk

namespace Forall₂

theorem exists_right (h : Forall₂ R l m) (ha : l[k]? = some a) : ∃ b, m[k]? = some b ∧ R a b := by
  induction h generalizing k with
  | nil => cases ha
  | cons hR _ ih =>
    cases k with
    | zero =>
      cases ha
      exact ⟨_, rfl, hR⟩
    | succ k => exact ih ha

theorem rel_of_getElem? (h : Forall₂ R l m) (ha : l[k]? = some a) (hb : m[k]? = some b) :
    R a b := by
  obtain ⟨b', hb', hR⟩ := h.exists_right ha
  cases hb.symm.trans hb'
  exact hR

theorem set (h : Forall₂ R l m) (k : ℕ) (hR : R a b) : Forall₂ R (l.set k a) (m.set k b) := by
  induction h generalizing k with
  | nil => exact .nil
  | cons hhead htail ih =>
    cases k with
    | zero => exact .cons hR htail
    | succ k => exact .cons hhead (ih k)

theorem set_right (h : Forall₂ R l m) (ha : l[k]? = some a) (hR : R a b) :
    Forall₂ R l (m.set k b) := by
  have hset := h.set k hR
  rwa [set_of_getElem? ha] at hset

theorem set_left (h : Forall₂ R l m) (hb : m[k]? = some b) (hR : R a b) :
    Forall₂ R (l.set k a) m := by
  have hset := h.set k hR
  rwa [set_of_getElem? hb] at hset

theorem concat (h : Forall₂ R l m) (hR : R a b) : Forall₂ R (l ++ [a]) (m ++ [b]) :=
  rel_append h (.cons hR .nil)

theorem imp_of_mem_right {S : α → β → Prop} (h : Forall₂ R l m)
    (hS : ∀ a, ∀ b ∈ m, R a b → S a b) : Forall₂ S l m := by
  induction h with
  | nil => exact .nil
  | cons hR _ ih =>
    exact .cons (hS _ _ mem_cons_self hR) (ih fun a b hb => hS a b (mem_cons_of_mem _ hb))

theorem countP_le {p : α → Bool} {q : β → Bool} (h : Forall₂ R l m)
    (hpq : ∀ a b, R a b → p a = true → q b = true) : l.countP p ≤ m.countP q := by
  induction h with
  | nil => exact Nat.le_refl _
  | @cons a b _ _ hR _ ih =>
    rw [countP_cons, countP_cons]
    by_cases ha : p a = true
    · rw [if_pos ha, if_pos (hpq a b hR ha)]
      omega
    · rw [if_neg ha]
      omega

end Forall₂

/-- What a change at one place does to a count. -/
theorem countP_set_add (p : α → Bool) (ha : l[k]? = some a) (a' : α) :
    (l.set k a').countP p + (if p a then 1 else 0) = l.countP p + (if p a' then 1 else 0) := by
  obtain ⟨hk, rfl⟩ := getElem?_eq_some_iff.1 ha
  rw [countP_set hk]
  by_cases hp : p l[k] = true
  · have : 0 < l.countP p := countP_pos_iff.2 ⟨_, getElem_mem hk, hp⟩
    rw [if_pos hp]
    omega
  · rw [if_neg hp]
    omega

/-- What a change at one place does to a sum. -/
theorem sum_map_set_add (f : α → ℕ) (ha : l[k]? = some a) (a' : α) :
    ((l.set k a').map f).sum + f a = (l.map f).sum + f a' := by
  induction l generalizing k with
  | nil => cases ha
  | cons b l ih =>
    cases k with
    | zero =>
      cases ha
      simp only [set_cons_zero, map_cons, sum_cons]
      omega
    | succ k =>
      have := ih ha
      simp only [set_cons_succ, map_cons, sum_cons]
      omega

end List
