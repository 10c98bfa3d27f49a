import QuicTunnel.Client.Moves

/-!
# Which session a rejection is charged to

The rejection slot outlives the sessions of a connection (`RejectSlot`, `connection_run`,
`h2_pool`).  `Traced` is a connection task with what the source does not keep: the number of the
session, the session of each earlier pool, and the session of the connection that wrote the slot.

A member that has its rejection when the pool's `JoinSet` is dropped still writes it.  If that
happens before the loop takes the slot, the rejection is charged to its own session; if it happens
after, it ends the next one and is charged to it.  `Drained` asks
that no member of an earlier pool is about to write when the slot is taken; an aborted member cannot
get there later, so that is enough.
-/

namespace QuicTunnel

/-- About to write the rejection slot. -/
def MemberPc.isRejecting : MemberPc → Bool
  | .rejecting _ => true
  | _ => false

namespace Session

open Transition

/-! ### Sessions and writers -/

structure Traced where
  state : State
  /-- The number of the session that runs, or of the last one. -/
  session : ℕ
  /-- The sessions of the earlier pools. -/
  olds : List ℕ
  /-- The session of the connection that wrote the slot. -/
  writer : Option ℕ
  deriving DecidableEq

namespace Traced

def init (cfg : Config) : Traced := ⟨Session.init cfg, 0, [], none⟩

/-- The session an action belongs to. -/
def sessionAfter (t : Traced) : Action → ℕ
  | .fallback | .connected => t.session + 1
  | _ => t.session

def oldsAfter (t : Traced) : Action → List ℕ
  | .exit _ => t.olds ++ [t.session]
  | _ => t.olds

/-- Who has written the slot after an action. -/
def writerAfter (cfg : Config) (t : Traced) : Action → Option ℕ
  | .quicEnded _ reject => if reject.isSome then some t.session else t.writer
  | .member i input =>
    match t.state.phase with
    | .pool p =>
      match (p.step cfg.policy t.state.stopped i input).bind (·.rejected) with
      | some _ => some t.session
      | none => t.writer
    | _ => t.writer
  | .straggler k i input =>
    match t.state.old[k]?.bind fun p =>
      (p.step cfg.policy t.state.stopped i input).bind (·.rejected) with
    | some _ => t.olds[k]?
    | none => t.writer
  | .charge _ => none
  | _ => t.writer

def step (cfg : Config) (t : Traced) (a : Action) : Option Traced :=
  (Session.step cfg t.state a).map fun s =>
    ⟨s, t.sessionAfter a, t.oldsAfter a, t.writerAfter cfg a⟩

/-- The trace is kept beside the task and does not change what it does. -/
theorem runs_state (cfg : Config) (t : Traced) (schedule : List Action) :
    (runs (step cfg) t schedule).map (·.state) = runs (Session.step cfg) t.state schedule := by
  induction schedule generalizing t with
  | nil => rfl
  | cons a schedule ih =>
    rw [runs_cons, runs_cons, step]
    cases Session.step cfg t.state a with
    | none => rfl
    | some s => exact ih _

end Traced

/-! ### Members of earlier pools -/

/-- No member is about to write the slot. -/
def Quiet (p : Pool) : Prop := ∀ m ∈ p.members, m.pc.isRejecting = false

instance (p : Pool) : Decidable (Quiet p) := inferInstanceAs (Decidable (∀ m ∈ p.members, _))

section Member

variable {policy : ReconnectPolicy} {stopped : Bool} {p : Pool} {i : ℕ} {input : MemberInput}
  {r : MemberStep}

/-- A member of an aborted pool gets no rejection any more, and writes only the one it has. -/
theorem aborted_step (haborted : p.aborted = true)
    (h : p.step policy stopped i input = some r) :
    r.pool.aborted = true ∧ (Quiet p → Quiet r.pool ∧ r.rejected = none) := by
  obtain ⟨m, hm, hawaits, hmove⟩ := Pool.step_move h
  have hpc := hawaits haborted
  have hset : ∀ m', m'.pc.isRejecting = false → Quiet p →
      ∀ d ∈ p.members.set i m', d.pc.isRejecting = false := by
    intro m' hm' hquiet d hd
    rcases List.mem_or_eq_of_mem_set hd with hd | rfl
    · exact hquiet d hd
    · exact hm'
  cases hmove with
  | edge he =>
    refine ⟨haborted, fun hquiet => ⟨hset _ ?_ hquiet, rfl⟩⟩
    generalize hpc₀ : m.pc = pc₀ at he hpc
    cases he <;> first | rfl | cases hpc
  | rejected reason hpc' =>
    refine ⟨haborted, fun hquiet => ?_⟩
    have := hquiet m (List.mem_of_getElem? hm)
    rw [hpc'] at this
    cases this
  | failed | up | down | park | slept => exact ⟨haborted, fun hquiet => ⟨hset _ rfl hquiet, rfl⟩⟩
  | unpark woke hpc' =>
    exact ⟨haborted, fun hquiet => ⟨hset _ (by cases woke <;> rfl) hquiet, rfl⟩⟩

end Member

/-! ### The invariant -/

/-- Between two sessions. -/
def Phase.isBetween : Phase → Bool
  | .attempt | .waiting _ => true
  | _ => false

/-- In a session, or before it is charged. -/
def Phase.inSession : Phase → Bool
  | .quic _ | .pool _ | .ended _ => true
  | _ => false

def Phase.isEnded : Phase → Bool
  | .ended _ => true
  | _ => false

/-- When the slot is taken, no member of an earlier pool is about to write it. -/
def Drained (t : Traced) : Action → Prop
  | .charge _ => ∀ p ∈ t.state.old, Quiet p
  | _ => True

instance (t : Traced) (a : Action) : Decidable (Drained t a) := by
  unfold Drained
  split <;> infer_instance

structure Owned (t : Traced) : Prop where
  aligned : t.olds.length = t.state.old.length
  aborted : ∀ p ∈ t.state.old, p.aborted = true
  slot : t.state.rejected.isSome = t.writer.isSome
  between : t.state.phase.isBetween = true → t.writer = none
  own : t.state.phase.inSession = true → ∀ w, t.writer = some w → w = t.session
  /-- Only a pool of the session that is about to be charged may have a rejection left. -/
  quiet : t.state.phase.isBetween = true ∨ t.state.phase.inSession = true →
    ∀ (k : ℕ) (p : Pool), t.state.old[k]? = some p →
      (t.state.phase.isEnded = true → t.olds[k]? ≠ some t.session) → Quiet p

theorem owned_init (cfg : Config) : Owned (.init cfg) where
  aligned := rfl
  aborted p hp := by cases hp
  slot := rfl
  between _ := rfl
  own h := by cases h
  quiet _ k p hp := by cases hp

section Steps

variable {cfg : Config} {t : Traced} {s : State}

/-- All earlier pools are quiet unless a session has just ended. -/
theorem Owned.all_quiet (h : Owned t)
    (hphase : t.state.phase.isBetween = true ∨ t.state.phase.inSession = true)
    (hended : t.state.phase.isEnded = false) : ∀ p ∈ t.state.old, Quiet p := by
  intro p hp
  obtain ⟨k, hk⟩ := List.mem_iff_getElem?.1 hp
  exact h.quiet hphase k p hk fun h => by rw [hended] at h; cases h

/-- A move that leaves the old pools alone, from a phase in which all of them are quiet. -/
theorem Owned.keep (h : Owned t) {session : ℕ} {writer : Option ℕ} (hold : s.old = t.state.old)
    (hphase : t.state.phase.isBetween = true ∨ t.state.phase.inSession = true)
    (hended : t.state.phase.isEnded = false) (hslot : s.rejected.isSome = writer.isSome)
    (hbetween : s.phase.isBetween = true → writer = none)
    (hown : s.phase.inSession = true → ∀ w, writer = some w → w = session) :
    Owned ⟨s, session, t.olds, writer⟩ := by
  refine ⟨?_, ?_, hslot, hbetween, hown, fun _ k p hp _ => ?_⟩
  · rw [hold]
    exact h.aligned
  · rw [hold]
    exact h.aborted
  · simp only [hold] at hp
    exact h.all_quiet hphase hended p (List.mem_of_getElem? hp)

/-- Between two sessions nothing is in the slot, so any session may start. -/
theorem Owned.start (h : Owned t) {session : ℕ} (hbetween : t.state.phase.isBetween = true)
    (hold : s.old = t.state.old) (hslot : s.rejected = t.state.rejected) :
    Owned ⟨s, session, t.olds, t.writer⟩ := by
  have hnone := h.between hbetween
  have hended : t.state.phase.isEnded = false := by
    cases hphase : t.state.phase <;> rw [hphase] at hbetween <;> first | rfl | cases hbetween
  refine h.keep hold (.inl hbetween) hended ?_ (fun _ => hnone) fun _ w hw => ?_
  · rw [hslot]
    exact h.slot
  · rw [hnone] at hw
    cases hw

/-- A member of the session's own pool may write the slot. -/
theorem Owned.member (h : Owned t) {p : Pool} {i : ℕ} {input : MemberInput} {r : MemberStep}
    (hphase : t.state.phase = .pool p)
    (hr : p.step cfg.policy t.state.stopped i input = some r) :
    Owned ⟨{ t.state.after r with phase := .pool r.pool }, t.session, t.olds,
      t.writerAfter cfg (.member i input)⟩ := by
  have hwriter : t.writerAfter cfg (.member i input) =
      match r.rejected with
      | some _ => some t.session
      | none => t.writer := by
    simp only [Traced.writerAfter, hphase, hr, Option.bind_some]
  rw [hwriter]
  refine h.keep rfl (.inr (by rw [hphase]; rfl)) (by rw [hphase]; rfl) ?_ nofun fun _ w hw => ?_
  · have hslot := h.slot
    simp only [State.after]
    cases r.rejected with
    | none => exact hslot
    | some reason => rfl
  · cases hrejected : r.rejected with
    | none =>
      rw [hrejected] at hw
      exact h.own (by rw [hphase]; rfl) w hw
    | some reason =>
      rw [hrejected] at hw
      exact (Option.some.inj hw).symm

/-- A member of an earlier pool writes the slot only for the session that is about to be charged. -/
theorem Owned.straggler (h : Owned t) {p : Pool} {k i : ℕ} {input : MemberInput} {r : MemberStep}
    (hp : t.state.old[k]? = some p)
    (hr : p.step cfg.policy t.state.stopped i input = some r) :
    Owned ⟨{ t.state.after r with old := t.state.old.set k r.pool }, t.session, t.olds,
      t.writerAfter cfg (.straggler k i input)⟩ := by
  have hwriter : t.writerAfter cfg (.straggler k i input) =
      match r.rejected with
      | some _ => t.olds[k]?
      | none => t.writer := by
    simp only [Traced.writerAfter, hp, hr, Option.bind_some]
  obtain ⟨haborted, hquiet⟩ := aborted_step (h.aborted p (List.mem_of_getElem? hp)) hr
  have hlt : k < t.olds.length := by
    rw [h.aligned]
    exact (List.getElem?_eq_some_iff.1 hp).1
  have hquietAt := fun hphase => h.quiet hphase k p hp
  rw [hwriter]
  refine ⟨?_, ?_, ?_, fun hbetween => ?_, fun hsession w hw => ?_, fun hphase j q hq hne => ?_⟩
  · rw [List.length_set]
    exact h.aligned
  · intro q hq
    rcases List.mem_or_eq_of_mem_set hq with hq | rfl
    · exact h.aborted q hq
    · exact haborted
  · have hslot := h.slot
    simp only [State.after]
    cases r.rejected with
    | none => exact hslot
    | some reason =>
      rw [List.getElem?_eq_getElem hlt]
      rfl
  · -- Between two sessions no member of an earlier pool has anything to write.
    have hended : t.state.phase.isEnded = true → t.olds[k]? ≠ some t.session := fun hended => by
      simp only [State.after] at hbetween
      cases hphase : t.state.phase <;>
        simp [hphase, Phase.isEnded, Phase.isBetween] at hended hbetween
    rw [(hquiet (hquietAt (.inl hbetween) hended)).2]
    exact h.between hbetween
  · cases hrejected : r.rejected with
    | none =>
      rw [hrejected] at hw
      exact h.own hsession w hw
    | some reason =>
      rw [hrejected] at hw
      by_contra hne
      have hstale : t.olds[k]? ≠ some t.session := fun heq =>
        hne (Option.some.inj (hw.symm.trans heq))
      have hnone := (hquiet (hquietAt (.inr hsession) fun _ => hstale)).2
      rw [hrejected] at hnone
      cases hnone
  · by_cases hjk : k = j
    · subst hjk
      rw [List.getElem?_set_self (List.getElem?_eq_some_iff.1 hp).1] at hq
      cases hq
      exact (hquiet (hquietAt hphase hne)).1
    · rw [List.getElem?_set_ne hjk] at hq
      exact h.quiet hphase j q hq hne

/-- The pool of the session that ends is the one earlier pool that may have a rejection left. -/
theorem Owned.exit (h : Owned t) {p q : Pool} {outcome : SessionOutcome}
    (hphase : t.state.phase = .pool p) :
    Owned ⟨{ t.state with
        old := t.state.old ++ [{ q with aborted := true }]
        phase := if outcome = .stopped then .returned else .ended outcome },
      t.session, t.olds ++ [t.session], t.writer⟩ := by
  have hin : t.state.phase.inSession = true := by rw [hphase]; rfl
  refine ⟨?_, ?_, h.slot, fun hbetween => ?_, fun _ => h.own hin, fun hto k r hk hne => ?_⟩
  · rw [List.length_append, List.length_append, h.aligned]
    rfl
  · intro r hr
    rcases List.mem_append.1 hr with hr | hr
    · exact h.aborted r hr
    · rw [List.mem_singleton.1 hr]
  · by_cases hout : outcome = .stopped <;> simp [hout, Phase.isBetween] at hbetween
  · by_cases hlt : k < t.state.old.length
    · rw [List.getElem?_append_left hlt] at hk
      exact h.all_quiet (.inr hin) (by rw [hphase]; rfl) r (List.mem_of_getElem? hk)
    · have hkeq : k = t.olds.length := by
        have := (List.getElem?_eq_some_iff.1 hk).1
        rw [List.length_append] at this
        rw [h.aligned]
        exact Nat.le_antisymm (Nat.le_of_lt_succ this) (Nat.not_lt.1 hlt)
      by_cases hout : outcome = .stopped
      · simp [hout, Phase.isBetween, Phase.inSession] at hto
      · refine absurd ?_ (hne (by simp only [if_neg hout]; rfl))
        rw [hkeq]
        exact List.getElem?_concat_length

/-- The connection of a QUIC session may write the slot when it ends. -/
theorem Owned.quicEnded (h : Owned t) {up : Bool} {failure : AttemptFailure}
    {reject : Option String} (hphase : t.state.phase = .quic up) (hold : s.old = t.state.old)
    (hslot : s.rejected = reject.orElse fun _ => t.state.rejected)
    (hbetween : s.phase.isBetween = false) :
    Owned ⟨s, t.session, t.olds, t.writerAfter cfg (.quicEnded failure reject)⟩ := by
  have hin : t.state.phase.inSession = true := by rw [hphase]; rfl
  refine h.keep hold (.inr hin) (by rw [hphase]; rfl) ?_ (fun hb => ?_) fun _ w hw => ?_
  · rw [hslot]
    cases reject with
    | none => exact h.slot
    | some reason => rfl
  · rw [hbetween] at hb
    cases hb
  · cases reject with
    | none => exact h.own hin w hw
    | some reason => exact (Option.some.inj hw).symm

theorem Owned.step {t t' : Traced} {a : Action} (h : Owned t) (hdrained : Drained t a)
    (hstep : t.step cfg a = some t') : Owned t' := by
  obtain ⟨s, hs, rfl⟩ := Option.map_eq_some_iff.1 hstep
  cases step_move hs with
  | stop => exact ⟨h.aligned, h.aborted, h.slot, h.between, h.own, h.quiet⟩
  | loop ha hfrom hto =>
    have hbetween : t.state.phase.isBetween = true := by
      rcases hfrom with hfrom | ⟨delay, hfrom⟩ <;> rw [hfrom] <;> rfl
    rcases ha with rfl | rfl | rfl <;> exact h.start hbetween rfl rfl
  | fallback hphase => exact h.start (by rw [hphase]; rfl) rfl rfl
  | quicUp hphase =>
    have hin : t.state.phase.inSession = true := by rw [hphase]; rfl
    exact h.keep rfl (.inr hin) (by rw [hphase]; rfl) h.slot nofun fun _ => h.own hin
  | quicStopped hphase => exact h.quicEnded hphase rfl rfl rfl
  | quicEnded hphase => exact h.quicEnded hphase rfl rfl rfl
  | member hphase hr => exact h.member hphase hr
  | straggler hp hr => exact h.straggler hp hr
  | exit hphase hout => exact h.exit hphase
  | charge hphase hto hreport =>
    refine ⟨h.aligned, h.aborted, rfl, fun _ => rfl, nofun, fun _ k p hk _ => ?_⟩
    exact hdrained p (List.mem_of_getElem? hk)

end Steps

/-! ### Runs -/

/-- **A rejection is charged to its own session.**  In every run in which no member of an earlier
pool is about to write the slot when it is taken, what the loop takes after a session, and what ends
a pool session, was written by a connection of that session. -/
theorem rejection_own_session (cfg : Config) (schedule : List Action) (t : Traced)
    (hmeets : Meets (Traced.step cfg) Drained (.init cfg) schedule)
    (hrun : runs (Traced.step cfg) (.init cfg) schedule = some t) :
    (∀ now t', t.step cfg (.charge now) = some t' → t.state.rejected.isSome = true →
      t.writer = some t.session) ∧
    ∀ t', t.step cfg (.exit .rejection) = some t' → t.writer = some t.session := by
  have h : Owned t := runs_invariant_of_meets
    (fun _ _ _ howned hdrained hstep => Owned.step howned hdrained hstep) hrun hmeets
    (owned_init cfg)
  have hown : t.state.phase.inSession = true → t.state.rejected.isSome = true →
      t.writer = some t.session := by
    intro hin hslot
    rw [h.slot] at hslot
    obtain ⟨w, hw⟩ := Option.isSome_iff_exists.1 hslot
    rw [hw, h.own hin w hw]
  constructor
  · intro now t' hstep hslot
    obtain ⟨s, hs, rfl⟩ := Option.map_eq_some_iff.1 hstep
    cases step_move hs with
    | loop ha => rcases ha with ha | ha | ha <;> cases ha
    | charge hphase => exact hown (by rw [hphase]; rfl) hslot
  · intro t' hstep
    obtain ⟨s, hs, rfl⟩ := Option.map_eq_some_iff.1 hstep
    cases step_move hs with
    | loop ha => rcases ha with ha | ha | ha <;> cases ha
    | exit hphase hout =>
      refine hown (by rw [hphase]; rfl) ?_
      simp only [poolOutcome] at hout
      split_ifs at hout with hslot
      exact hslot

/-- The condition is exact: a rejection that is not written when the slot is taken can end the next
session. -/
theorem exit_by_unwritten {cfg : Config} {t t' : Traced} {now : SystemTime}
    {delay : Option Duration} {p : Pool} {k i : ℕ} {m : Member} {reason : String}
    (hcharge : t.step cfg (.charge now) = some t') (hphase : t'.state.phase = .waiting delay)
    (hstopped : t.state.stopped = false) (hp : t.state.old[k]? = some p)
    (hm : p.members[i]? = some m) (hpc : m.pc = .rejecting reason) :
    ∃ u v, runs (Traced.step cfg) t' [.straggler k i .go, .waited, .fallback] = some u ∧
      u.step cfg (.exit .rejection) = some v ∧ u.writer = t.olds[k]? ∧
      u.session = t.session + 1 := by
  obtain ⟨s, hs, rfl⟩ := Option.map_eq_some_iff.1 hcharge
  have hsame : s.stopped = t.state.stopped ∧ s.old = t.state.old := by
    cases step_move hs with
    | loop ha => rcases ha with ha | ha | ha <;> cases ha
    | charge => exact ⟨rfl, rfl⟩
  have hr : p.step cfg.policy s.stopped i .go = some ⟨p.goto i m .parking, some reason, none⟩ := by
    obtain ⟨backoff, pc⟩ := m
    cases hpc
    simp [Pool.step, hm, memberStep, MemberPc.awaits]
  have hold : s.old[k]? = some p := by rw [hsame.2, hp]
  have hrunning : s.stopped = false := hsame.1.trans hstopped
  have hphase : s.phase = .waiting delay := hphase
  -- The member writes the slot, the wait is over, and the next attempt falls back to H2.
  let s₁ : State :=
    { s with rejected := some reason, old := s.old.set k (p.goto i m .parking), log := s.log ++ [] }
  let s₂ : State := { s₁ with retry := s.retry.waited delay, phase := .attempt }
  let s₃ : State :=
    { s₂ with phase := .pool (.new cfg.tag cfg.serverAddr cfg.poolSize cfg.policy) }
  have hwrite : Traced.step cfg ⟨s, t.session, t.olds, none⟩ (.straggler k i .go) =
      some ⟨s₁, t.session, t.olds, t.olds[k]?⟩ := by
    simp only [Traced.step, Session.step, hold, hr, Option.bind_some, Option.map_some,
      Traced.sessionAfter, Traced.oldsAfter, Traced.writerAfter]
    rfl
  have hwaited : Traced.step cfg ⟨s₁, t.session, t.olds, t.olds[k]?⟩ .waited =
      some ⟨s₂, t.session, t.olds, t.olds[k]?⟩ := by
    simp only [Traced.step, Session.step, show s₁.phase = .waiting delay from hphase]
    rfl
  have hfallback : Traced.step cfg ⟨s₂, t.session, t.olds, t.olds[k]?⟩ .fallback =
      some ⟨s₃, t.session + 1, t.olds, t.olds[k]?⟩ := by
    have hgo : s₂.phase = .attempt ∧ s₂.stopped = false := ⟨rfl, hrunning⟩
    simp only [Traced.step, Session.step]
    rw [if_pos hgo]
    rfl
  refine ⟨⟨s₃, t.session + 1, t.olds, t.olds[k]?⟩, _, ?_, rfl, rfl, rfl⟩
  show runs (Traced.step cfg) ⟨s, t.session, t.olds, none⟩ _ = _
  rw [runs_cons, hwrite, Option.bind_some, runs_cons, hwaited, Option.bind_some, runs_cons,
    hfallback]
  rfl

/-- Two members over H2, both rejected; the first ends the session before the second has written
the slot. -/
def rejectedPair : List Action :=
  [.fallback, .member 0 .connected, .member 0 (.rejected "unauthorized"), .member 1 .connected,
    .member 1 (.rejected "unauthorized"), .member 0 .go, .exit .rejection]

/-- The second one writes it before it is taken. -/
theorem rejection_own_session_pair :
    ∃ t, runs (Traced.step twoMembers) (.init twoMembers)
        (rejectedPair ++ [.straggler 0 1 .go]) = some t ∧
      t.state.rejected = some "unauthorized" ∧ t.writer = some t.session := by
  have hrun : (runs (Traced.step twoMembers) (.init twoMembers)
      (rejectedPair ++ [.straggler 0 1 .go])).map (fun t => (t.state.rejected,
        (t.step twoMembers (.charge .unixEpoch)).isSome)) =
      some (some "unauthorized", true) := by decide +kernel
  obtain ⟨t, ht, hobs⟩ := Option.map_eq_some_iff.1 hrun
  obtain ⟨hslot, hstep⟩ := Prod.mk.inj hobs
  obtain ⟨t', ht'⟩ := Option.isSome_iff_exists.1 hstep
  refine ⟨t, ht, hslot, ?_⟩
  exact (rejection_own_session twoMembers _ t (by decide +kernel) ht).1 _ t' ht'
    (by rw [hslot]; rfl)

/-- The second one writes it after it is taken: the next session ends by it, and is charged. -/
theorem rejection_of_earlier_session :
    ∃ t t', runs (Traced.step twoMembers) (.init twoMembers)
        (rejectedPair ++ [.charge .unixEpoch, .straggler 0 1 .go, .waited,
          .fallback]) = some t ∧
      t.step twoMembers (.exit .rejection) = some t' ∧
      (t'.step twoMembers (.charge .unixEpoch)).isSome = true ∧
      t'.state.rejected = some "unauthorized" ∧ t.writer = some 1 ∧ t.session = 2 ∧
      t'.writer = some 1 ∧ t'.session = 2 := by
  have hrun : (runs (Traced.step twoMembers) (.init twoMembers)
      (rejectedPair ++ [.charge .unixEpoch, .straggler 0 1 .go, .waited,
        .fallback])).bind (fun t => (t.step twoMembers (.exit .rejection)).map fun t' =>
          decide ((t'.step twoMembers (.charge .unixEpoch)).isSome = true ∧
            t'.state.rejected = some "unauthorized" ∧ t.writer = some 1 ∧ t.session = 2 ∧
            t'.writer = some 1 ∧ t'.session = 2)) = some true := by decide +kernel
  obtain ⟨t, ht, hobs⟩ := Option.bind_eq_some_iff.1 hrun
  obtain ⟨t', ht', hobs⟩ := Option.map_eq_some_iff.1 hobs
  exact ⟨t, t', ht, ht', of_decide_eq_true hobs⟩

end Session

end QuicTunnel
