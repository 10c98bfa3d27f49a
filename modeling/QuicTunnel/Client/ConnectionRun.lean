import QuicTunnel.Client.Events

/-!
# A connection task that is stopped while it connects

`connection_run` looks at the stop flag at the head of its loop and then awaits the connect of
`quic_attempt`, which does not.  A `stop()` that comes in between is noticed by the session that
follows.  `Session.step` takes the check and the connect in one step; here they are two, `enter` and
the `connected` or `fallback` behind it, which do not read the flag again.

As long as the tunnel is not stopped both machines do the same (`reach_session`).
-/

namespace QuicTunnel.ConnectionRun

open Transition Session

/-- A connection task, and whether it has passed the head of its loop and awaits the connect. -/
structure State extends Session.State where
  connecting : Bool
  deriving DecidableEq

def init (cfg : Config) : State := ⟨Session.init cfg, false⟩

inductive Action
  /-- The head of the loop finds the tunnel not stopped. -/
  | enter
  | go (a : Session.Action)
  deriving DecidableEq

/-- One step. -/
def step (cfg : Config) (s : State) : Action → Option State
  | .enter =>
    if s.phase = .attempt ∧ s.connecting = false ∧ s.stopped = false then
      some { s with connecting := true }
    else none
  | .go .fallback => connects .fallback
  | .go .connected => connects .connected
  | .go .leave =>
    if s.connecting then none
    else (Session.step cfg s.toState .leave).map fun t => ⟨t, false⟩
  | .go a => (Session.step cfg s.toState a).map fun t => ⟨t, s.connecting⟩
where
  /-- The connect has ended, one way or the other, with the flag as it may be. -/
  connects (a : Session.Action) : Option State :=
    if s.connecting then
      (Session.step cfg { s.toState with stopped := false } a).map fun t =>
        ⟨{ t with stopped := s.stopped }, false⟩
    else none

/-- What a step is to the machine below. -/
inductive Step (cfg : Config) (s : State) : Action → State → Prop
  | enter (hphase : s.phase = .attempt) (hidle : s.connecting = false)
    (hstopped : s.stopped = false) : Step cfg s .enter { s with connecting := true }
  | connects {a : Session.Action} {t : Session.State} (ha : a = .fallback ∨ a = .connected)
    (hconnecting : s.connecting = true)
    (h : Session.step cfg { s.toState with stopped := false } a = some t) :
    Step cfg s (.go a) ⟨{ t with stopped := s.stopped }, false⟩
  | goes {a : Session.Action} {t : Session.State} (ha : a ≠ .fallback ∧ a ≠ .connected)
    (hleave : a = .leave → s.connecting = false) (h : Session.step cfg s.toState a = some t) :
    Step cfg s (.go a) ⟨t, s.connecting⟩

section Steps

variable {cfg : Config} {s t : State} {a : Action}

theorem step_cases (hstep : step cfg s a = some t) : Step cfg s a t := by
  cases a with
  | enter =>
    simp only [step] at hstep
    split_ifs at hstep with hc
    cases hstep
    exact .enter hc.1 hc.2.1 hc.2.2
  | go a =>
    have hconnects : ∀ a, a = .fallback ∨ a = .connected → step.connects cfg s a = some t →
        Step cfg s (.go a) t := by
      intro a ha h
      simp only [step.connects] at h
      split_ifs at h with hc
      obtain ⟨t, ht, rfl⟩ := Option.map_eq_some_iff.1 h
      exact .connects ha hc ht
    cases a with
    | fallback => exact hconnects .fallback (.inl rfl) hstep
    | connected => exact hconnects .connected (.inr rfl) hstep
    | leave =>
      simp only [step] at hstep
      split_ifs at hstep with hc
      obtain ⟨t, ht, rfl⟩ := Option.map_eq_some_iff.1 hstep
      have hidle := Bool.eq_false_of_not_eq_true hc
      have hgoes : Step cfg s (.go .leave) ⟨t, s.connecting⟩ :=
        .goes ⟨nofun, nofun⟩ (fun _ => hidle) ht
      rw [hidle] at hgoes
      exact hgoes
    | stop | quicUp | quicEnded | member | straggler | exit | charge | waited =>
      simp only [step] at hstep
      obtain ⟨t, ht, rfl⟩ := Option.map_eq_some_iff.1 hstep
      exact .goes ⟨nofun, nofun⟩ nofun ht

/-- Seen without the flag, a step is one of the machine below, or none. -/
theorem Step.below (h : Step cfg s a t) : t.toState = s.toState ∨ ∃ b u v,
    Session.step cfg u b = some v ∧ u = { s.toState with stopped := u.stopped } ∧
      t.toState = { v with stopped := t.stopped } := by
  cases h with
  | enter => exact .inl rfl
  | connects _ _ h => exact .inr ⟨_, _, _, h, rfl, rfl⟩
  | goes _ _ h => exact .inr ⟨_, _, _, h, rfl, rfl⟩

/-- What does not speak of the flag is kept if the machine below keeps it. -/
theorem Step.invariant {P : Session.State → Prop} (h : Step cfg s a t)
    (hP : ∀ u b v, P u → Session.step cfg u b = some v → P v)
    (hflag : ∀ (u : Session.State) b, P u → P { u with stopped := b }) (hs : P s.toState) :
    P t.toState := by
  rcases h.below with heq | ⟨b, u, v, hstep, hu, ht⟩
  · rw [heq]
    exact hs
  · rw [ht]
    refine hflag v _ (hP u b v ?_ hstep)
    rw [hu]
    exact hflag _ _ hs

/-- All a task reports is about its connection. -/
theorem ownReports_of_reach (h : Reach (step cfg) (init cfg) t) : OwnReports cfg t.toState := by
  refine h.invariant (P := fun s => OwnReports cfg s.toState) (fun s a t hs hstep => ?_)
    (ownReports_init cfg)
  exact (step_cases hstep).invariant (fun _ _ _ ho hb => ho.step hb)
    (fun _ _ ho => ⟨ho.log, ho.current, ho.old⟩) hs

theorem log_prefix_of_step (hstep : step cfg s a = some t) : s.log <+: t.log := by
  rcases (step_cases hstep).below with heq | ⟨b, u, v, hb, hu, ht⟩
  · rw [heq]
  · have hlog := step_log_prefix hb
    rw [hu] at hlog
    rw [ht]
    exact hlog

theorem log_length_of_step (hstep : step cfg s a = some t) : t.log.length ≤ s.log.length + 1 := by
  rcases (step_cases hstep).below with heq | ⟨b, u, v, hb, hu, ht⟩
  · rw [heq]
    exact Nat.le_succ _
  · have hlog := step_log_length hb
    rw [hu] at hlog
    rw [ht]
    exact hlog

theorem stopped_eq_of_step (ha : a ≠ .go .stop) (hstep : step cfg s a = some t) :
    t.stopped = s.stopped := by
  cases step_cases hstep with
  | enter | connects => rfl
  | goes _ _ h => exact Session.stopped_eq_of_step (fun heq => ha (by rw [heq])) h

/-- **Without `stop()` the task is the machine below.** -/
theorem reach_session (h : Reach (step cfg) (init cfg) t) (hstopped : t.stopped = false) :
    Reach (Session.step cfg) (Session.init cfg) t.toState := by
  refine h.invariant (P := fun s => s.stopped = false →
    Reach (Session.step cfg) (Session.init cfg) s.toState) (fun s a t hs hstep ht => ?_)
    (fun _ => Reach.refl _) hstopped
  by_cases ha : a = .go .stop
  · subst ha
    cases hstep
    cases ht
  · have hfalse : s.stopped = false := (stopped_eq_of_step ha hstep).symm.trans ht
    cases step_cases hstep with
    | enter => exact hs hfalse
    | @connects a u hconnect hconnecting hb =>
      have hu : u.stopped = false := Session.stopped_eq_of_step
        (by rcases hconnect with rfl | rfl <;> intro heq <;> cases heq) hb
      have hb' : Session.step cfg s.toState a = some { u with stopped := s.stopped } := by
        rw [hfalse, ← hu]
        rw [← hfalse] at hb
        exact hb
      exact (hs hfalse).tail hb'
    | goes _ _ hb => exact (hs hfalse).tail hb

end Steps

end QuicTunnel.ConnectionRun
