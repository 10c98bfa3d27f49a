import QuicTunnel.Base.Transition

/-!
# Refinement

One system does what another one does if each of its steps, seen through a function on the states,
is a step of the other or nothing.  Where several parties make the steps it also matters who makes
which: a party of the refined system moves only at steps of its own, so what one party has finished
before another begins comes first in the refined run as well.
-/

namespace Transition

variable {σ α : Type*} {step : σ → α → Option σ}

/-- If each step, seen through `f`, is nothing or one step of another system that the same party
makes, a run is one of that system, in which every party moves at steps of its own. -/
theorem runs_refines {τ β ι : Type*} {step' : τ → β → Option τ} {f : σ → τ} {P : σ → Prop}
    {r : α → ι} {r' : β → ι} (hP : ∀ s a t, P s → step s a = some t → P t)
    (hf : ∀ s a t, P s → step s a = some t →
      f t = f s ∨ ∃ b, r' b = r a ∧ step' (f s) b = some (f t))
    {s t : σ} {as : List α} (h : runs step s as = some t) (hs : P s) :
    ∃ bs, runs step' (f s) bs = some (f t) ∧ (bs.map r').Sublist (as.map r) := by
  induction as generalizing s with
  | nil =>
    cases h
    exact ⟨[], rfl, .slnil⟩
  | cons a as ih =>
    obtain ⟨u, ha, hu⟩ := runs_cons_eq_some h
    obtain ⟨bs, hbs, hsub⟩ := ih hu (hP s a u hs ha)
    rcases hf s a u hs ha with heq | ⟨b, hb, hstep⟩
    · exact ⟨bs, heq ▸ hbs, hsub.cons _⟩
    · refine ⟨b :: bs, by rw [runs_cons, hstep]; exact hbs, ?_⟩
      rw [List.map_cons, List.map_cons, hb]
      exact hsub.cons_cons _

end Transition
