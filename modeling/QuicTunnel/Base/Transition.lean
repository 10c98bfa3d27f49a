import Mathlib.Tactic

/-!
# Partial transition functions and their runs

A system is a partial step function `step : σ → α → Option σ`: the action `a` is enabled in the
state `s` when `step s a` is defined.  Whatever the environment may choose (which party moves,
what a peer sends, how a call ends) is carried by the action, so a schedule is a list of actions
and a property of all schedules is a property of all lists.

* `runs step s as`: the state after the schedule `as`, `none` once an action is not enabled;
* `Reach step s t`: some schedule leads from `s` to `t`;
* `Reach.map`: a system whose steps are runs of another one reaches what that one reaches;
* `Meets step G s as`: every action of the schedule is taken in a state where `G` allows it;
* `exists_step_of_runs`: what a run brings about, one of its steps does;
* `runs_history`: an invariant that may speak of the schedule so far;
* `runs_countP_le`: a measure that the counted actions lower bounds their number in every run;
* `Reach.invariant`, `runs_invariant_of_meets`: what every (allowed) step preserves holds along
  every (allowed) run.
-/

namespace Transition

variable {σ α : Type*} {step : σ → α → Option σ}

/-- The state after a schedule. -/
def runs (step : σ → α → Option σ) : σ → List α → Option σ
  | s, [] => some s
  | s, a :: as => (step s a).bind (fun t => runs step t as)

@[simp] theorem runs_nil (step : σ → α → Option σ) (s : σ) : runs step s [] = some s := rfl

theorem runs_cons (step : σ → α → Option σ) (s : σ) (a : α) (as : List α) :
    runs step s (a :: as) = (step s a).bind (fun t => runs step t as) := rfl

theorem runs_append (step : σ → α → Option σ) (s : σ) (as bs : List α) :
    runs step s (as ++ bs) = (runs step s as).bind (fun t => runs step t bs) := by
  induction as generalizing s with
  | nil => rfl
  | cons a as ih =>
    rw [List.cons_append, runs_cons, runs_cons]
    cases step s a with
    | none => rfl
    | some t => exact ih t

/-- A run that begins with an enabled action continues from the state it leads to. -/
theorem runs_cons_eq_some {s u : σ} {a : α} {as : List α} (h : runs step s (a :: as) = some u) :
    ∃ t, step s a = some t ∧ runs step t as = some u :=
  Option.bind_eq_some_iff.1 h

/-- `t` is reached from `s` by some schedule. -/
def Reach (step : σ → α → Option σ) (s t : σ) : Prop := ∃ as, runs step s as = some t

theorem Reach.refl (s : σ) : Reach step s s := ⟨[], rfl⟩

theorem Reach.trans {s t u : σ} (h : Reach step s t) (h' : Reach step t u) : Reach step s u := by
  obtain ⟨as, has⟩ := h
  obtain ⟨bs, hbs⟩ := h'
  exact ⟨as ++ bs, by rw [runs_append, has]; exact hbs⟩

theorem Reach.single {s t : σ} {a : α} (h : step s a = some t) : Reach step s t :=
  ⟨[a], by rw [runs_cons, h]; rfl⟩

theorem Reach.tail {s t u : σ} {a : α} (h : Reach step s t) (ha : step t a = some u) :
    Reach step s u :=
  h.trans (Reach.single ha)

/-- What every step preserves holds in every state of a run. -/
theorem runs_invariant {P : σ → Prop} (hP : ∀ s a t, P s → step s a = some t → P t)
    {s t : σ} {as : List α} (h : runs step s as = some t) (hs : P s) : P t := by
  induction as generalizing s with
  | nil => cases h; exact hs
  | cons a as ih =>
    obtain ⟨u, ha, hu⟩ := runs_cons_eq_some h
    exact ih hu (hP s a u hs ha)

theorem Reach.invariant {P : σ → Prop} (hP : ∀ s a t, P s → step s a = some t → P t)
    {s t : σ} (h : Reach step s t) (hs : P s) : P t := by
  obtain ⟨as, has⟩ := h
  exact runs_invariant hP has hs

/-- If what a step does, seen through `f`, is a run of another system, so is what a run does. -/
theorem Reach.map {τ β : Type*} {step' : τ → β → Option τ} {f : σ → τ}
    (hf : ∀ s a t, step s a = some t → Reach step' (f s) (f t)) {s t : σ}
    (h : Reach step s t) : Reach step' (f s) (f t) :=
  h.invariant (fun _ _ _ hs ha => Reach.trans hs (hf _ _ _ ha)) (Reach.refl (f s))

/-- What a run brings about was brought about by one of its steps. -/
theorem exists_step_of_runs {P : σ → Prop} {s t : σ} {as : List α}
    (h : runs step s as = some t) (hs : ¬P s) (ht : P t) :
    ∃ before a after u v, as = before ++ a :: after ∧ runs step s before = some u ∧ ¬P u ∧
      step u a = some v ∧ P v ∧ runs step v after = some t := by
  induction as generalizing s with
  | nil =>
    cases h
    exact absurd ht hs
  | cons a as ih =>
    obtain ⟨v, ha, hv⟩ := runs_cons_eq_some h
    by_cases hP : P v
    · exact ⟨[], a, as, s, v, rfl, rfl, hs, ha, hP, hv⟩
    · obtain ⟨before, b, after, u, w, rfl, hu, hrest⟩ := ih hv hP
      exact ⟨a :: before, b, after, u, w, rfl, by rw [runs_cons, ha]; exact hu, hrest⟩

/-- What every step preserves, given the schedule so far, holds along a run. -/
theorem runs_history {P : List α → σ → Prop} {s t : σ} {as : List α} (hs : P [] s)
    (hP : ∀ as s a t, P as s → step s a = some t → P (as ++ [a]) t)
    (h : runs step s as = some t) : P as t := by
  induction as using List.reverseRecOn generalizing t with
  | nil =>
    cases h
    exact hs
  | append_singleton as a ih =>
    rw [runs_append] at h
    obtain ⟨u, hu, h⟩ := Option.bind_eq_some_iff.1 h
    obtain ⟨v, hv, h⟩ := runs_cons_eq_some h
    cases h
    exact hP as u a t (ih hu) hv

/-- A run pays for its counted actions with what the measure loses, where an action of the kind `q`
may add `c` to it. -/
theorem runs_countP_le {P : σ → Prop} {μ : σ → ℕ} {p q : α → Bool} {c : ℕ}
    (hP : ∀ s a t, P s → step s a = some t → P t)
    (hμ : ∀ s a t, P s → step s a = some t →
      (if p a then 1 else 0) + μ t ≤ μ s + if q a then c else 0)
    {s t : σ} {as : List α} (h : runs step s as = some t) (hs : P s) :
    as.countP p + μ t ≤ μ s + c * as.countP q := by
  induction as generalizing s with
  | nil =>
    cases h
    simp
  | cons a as ih =>
    obtain ⟨u, ha, hu⟩ := runs_cons_eq_some h
    have hhead := hμ s a u hs ha
    have htail := ih hu (hP s a u hs ha)
    rw [List.countP_cons, List.countP_cons, Nat.mul_add, mul_ite, Nat.mul_one, Nat.mul_zero]
    omega

/-! ### Guarded runs -/

/-- Every action of the schedule is allowed by `G` in the state it is taken from. -/
def Meets (step : σ → α → Option σ) (G : σ → α → Prop) : σ → List α → Prop
  | _, [] => True
  | s, a :: as => G s a ∧
      match step s a with
      | some t => Meets step G t as
      | none => True

instance Meets.decidable (step : σ → α → Option σ) (G : σ → α → Prop)
    [∀ s a, Decidable (G s a)] : ∀ s as, Decidable (Meets step G s as)
  | _, [] => inferInstanceAs (Decidable True)
  | s, a :: as =>
    match h : step s a with
    | some t =>
      have := Meets.decidable step G t as
      decidable_of_iff (G s a ∧ Meets step G t as) (by simp [Meets, h])
    | none => decidable_of_iff (G s a) (by simp [Meets, h])

theorem Meets.cons {G : σ → α → Prop} {s t : σ} {a : α} {as : List α}
    (h : Meets step G s (a :: as)) (ha : step s a = some t) : G s a ∧ Meets step G t as := by
  obtain ⟨hg, hrest⟩ := h
  rw [ha] at hrest
  exact ⟨hg, hrest⟩

/-- Two systems that take the allowed steps alike have the same allowed runs. -/
theorem runs_congr_of_meets {step' : σ → α → Option σ} {G : σ → α → Prop}
    (hG : ∀ s a, G s a → step' s a = step s a) {s : σ} {as : List α}
    (h : Meets step G s as) : runs step' s as = runs step s as := by
  induction as generalizing s with
  | nil => rfl
  | cons a as ih =>
    obtain ⟨hg, hrest⟩ := h
    rw [runs_cons, runs_cons, hG s a hg]
    cases hs : step s a with
    | none => rfl
    | some t =>
      rw [hs] at hrest
      exact ih hrest

/-- A condition on the actions alone may be added to what every step is allowed by. -/
theorem Meets.and_forall {G : σ → α → Prop} {H : α → Prop} {s : σ} {as : List α}
    (h : Meets step G s as) (hH : ∀ a ∈ as, H a) :
    Meets step (fun s a => G s a ∧ H a) s as := by
  induction as generalizing s with
  | nil => trivial
  | cons a as ih =>
    obtain ⟨hg, hrest⟩ := h
    refine ⟨⟨hg, hH a List.mem_cons_self⟩, ?_⟩
    cases hs : step s a with
    | none => trivial
    | some t =>
      rw [hs] at hrest
      exact ih hrest fun b hb => hH b (List.mem_cons_of_mem _ hb)

/-- What every step by an allowed action preserves holds in every state of a run of such. -/
theorem runs_invariant_of_forall {P : σ → Prop} {H : α → Prop}
    (hP : ∀ s a t, P s → H a → step s a = some t → P t)
    {s t : σ} {as : List α} (h : runs step s as = some t) (hH : ∀ a ∈ as, H a) (hs : P s) :
    P t := by
  induction as generalizing s with
  | nil => cases h; exact hs
  | cons a as ih =>
    obtain ⟨u, ha, hu⟩ := runs_cons_eq_some h
    obtain ⟨hhead, htail⟩ := List.forall_mem_cons.1 hH
    exact ih hu htail (hP s a u hs hhead ha)

/-- What every allowed step preserves holds in every state of an allowed run. -/
theorem runs_invariant_of_meets {P : σ → Prop} {G : σ → α → Prop}
    (hP : ∀ s a t, P s → G s a → step s a = some t → P t)
    {s t : σ} {as : List α} (h : runs step s as = some t) (hG : Meets step G s as) (hs : P s) :
    P t := by
  induction as generalizing s with
  | nil => cases h; exact hs
  | cons a as ih =>
    obtain ⟨u, ha, hu⟩ := runs_cons_eq_some h
    obtain ⟨hg, hrest⟩ := hG.cons ha
    exact ih hu hrest (hP s a u hs hg ha)

end Transition
