import QuicTunnel.Client.Moves

/-!
# Rate limits in a pool session

The members of an H2 pool record why their attempt failed in one slot (`H2Shared::record_failure`),
and `connection_run` charges a session that never came up by what it finds there.  A failure that
the CA's rate limit caused is not counted and waits until the CA allows the next order.

`Noted` is a connection task with what the slot does not keep: every failure recorded in the session
that runs, in order.  The slot is the last of them, so the rate limit of one member is honoured if
no other failure is recorded after it.
-/

namespace QuicTunnel

/-- A member records a failure, and no other move touches the slot. -/
theorem MemberMove.failed_eq {policy : ReconnectPolicy} {stopped : Bool} {p : Pool} {i : ℕ}
    {m : Member} {r : MemberStep} (h : MemberMove policy stopped p i m r) :
    (∃ f, m.pc = .failing f ∧ r.pool.failed = some f) ∨
      (∀ f, m.pc ≠ .failing f) ∧ r.pool.failed = p.failed := by
  cases h with
  | failed f hpc => exact .inl ⟨f, hpc, rfl⟩
  | edge he =>
    refine .inr ⟨fun f hpc => ?_, rfl⟩
    rw [hpc] at he
    cases he
  | rejected _ hpc | up hpc | down _ hpc | park hpc _ | unpark _ hpc | slept hpc _ =>
    refine .inr ⟨fun f hf => ?_, rfl⟩
    rw [hpc] at hf
    cases hf

namespace Session

open Transition

/-! ### What was recorded -/

structure Noted where
  state : State
  /-- The failures recorded in a pool session, in order; `none` for a QUIC session. -/
  failures : Option (List AttemptFailure)
  deriving DecidableEq

namespace Noted

def init (cfg : Config) : Noted := ⟨Session.init cfg, none⟩

/-- The failures after an action. -/
def failuresAfter (t : Noted) : Action → Option (List AttemptFailure)
  | .fallback => some []
  | .quicEnded _ _ => none
  | .member i _ =>
    match t.state.phase with
    | .pool p =>
      match p.members[i]?.map Member.pc with
      | some (.failing f) => t.failures.map (· ++ [f])
      | _ => t.failures
    | _ => t.failures
  | _ => t.failures

def step (cfg : Config) (t : Noted) (a : Action) : Option Noted :=
  (Session.step cfg t.state a).map fun s => ⟨s, t.failuresAfter a⟩

variable {cfg : Config} {t t' : Noted}

/-- The runs are those of the connection task. -/
theorem runs_state (cfg : Config) (t : Noted) (schedule : List Action) :
    (runs (step cfg) t schedule).map state = runs (Session.step cfg) t.state schedule := by
  induction schedule generalizing t with
  | nil => rfl
  | cons a schedule ih =>
    rw [runs_cons, runs_cons, step]
    cases Session.step cfg t.state a with
    | none => rfl
    | some s => exact ih _

/-! ### The slot is the last of them -/

/-- The cause when no member has recorded one. -/
def unrecorded : AttemptFailure := ⟨"no pooled connection came up", none⟩

/-- The slot of the pool, and later the outcome of its session, is the last recorded failure. -/
structure Latest (t : Noted) : Prop where
  slot : ∀ p, t.state.phase = .pool p → ∃ fs, t.failures = some fs ∧ p.failed = fs.getLast?
  outcome : ∀ failure fs, t.state.phase = .ended (.neverUp failure) → t.failures = some fs →
    failure = fs.getLast?.getD unrecorded

/-- A phase that is neither a pool nor a session that never came up. -/
theorem Latest.of_phase {t : Noted} (hpool : ∀ p, t.state.phase ≠ .pool p)
    (hended : ∀ f, t.state.phase ≠ .ended (.neverUp f)) : Latest t :=
  ⟨fun p hp => absurd hp (hpool p), fun f _ hf => absurd hf (hended f)⟩

theorem latest_init (cfg : Config) : Latest (init cfg) :=
  .of_phase (fun _ hp => by cases hp) (fun _ hf => by cases hf)

/-- A pool that ends without having been up leaves what is in its slot. -/
theorem neverUp_eq {s : State} {p q : Pool} {branch : Branch} {failure : AttemptFailure}
    (h : poolOutcome s p branch = some (.neverUp failure, q)) :
    failure = p.failed.getD unrecorded := by
  have hdrained : ∀ p', drained p' = (.neverUp failure, q) →
      failure = p'.failed.getD unrecorded := by
    intro p' h'
    unfold drained at h'
    split_ifs at h'
    · cases (Prod.mk.inj h').1
    · exact (SessionOutcome.neverUp.inj (Prod.mk.inj h').1).symm
  cases branch with
  | stop | down =>
    simp only [poolOutcome] at h
    split_ifs at h
    cases h
  | rejection =>
    simp only [poolOutcome] at h
    split_ifs at h
    exact (SessionOutcome.neverUp.inj (Prod.mk.inj (Option.some.inj h)).1).symm
  | allParked | drained =>
    simp only [poolOutcome] at h
    split_ifs at h
    have heq := hdrained _ (Option.some.inj h)
    exact heq

theorem Latest.step {a : Action} (h : Latest t) (hstep : t.step cfg a = some t') : Latest t' := by
  obtain ⟨s, hs, rfl⟩ := Option.map_eq_some_iff.1 hstep
  cases step_move hs with
  | stop => exact ⟨h.slot, h.outcome⟩
  | loop _ _ hto =>
    refine .of_phase (fun p hp => ?_) (fun f hf => ?_)
    · rcases hto with hto | ⟨hto, -⟩ | hto <;> cases hto.symm.trans hp
    · rcases hto with hto | ⟨hto, -⟩ | hto <;> cases hto.symm.trans hf
  | fallback =>
    refine ⟨fun p hp => ?_, fun _ _ hended => by cases hended⟩
    cases hp
    exact ⟨[], rfl, rfl⟩
  | quicUp | quicStopped => exact .of_phase (fun _ hp => by cases hp) (fun _ hf => by cases hf)
  | quicEnded => exact ⟨fun _ hp => (by cases hp), fun _ _ _ hfs => (by cases hfs)⟩
  | member hphase hr =>
    obtain ⟨m, hm, -, hmove⟩ := Pool.step_move hr
    obtain ⟨fs, hfs, hlast⟩ := h.slot _ hphase
    refine ⟨fun p hp => ?_, fun _ _ hended => by cases hended⟩
    cases hp
    rcases hmove.failed_eq with ⟨f, hpc, hf⟩ | ⟨hpc, hf⟩
    · refine ⟨fs ++ [f], ?_, by rw [hf, List.getLast?_concat]⟩
      simp only [failuresAfter, hphase, hm, Option.map_some, hpc, hfs]
    · refine ⟨fs, ?_, hf.trans hlast⟩
      simp only [failuresAfter, hphase, hm, Option.map_some]
      split
      · rename_i f heq
        exact absurd (Option.some.inj heq) (hpc f)
      · exact hfs
  | straggler => exact ⟨h.slot, h.outcome⟩
  | exit hphase hout =>
    rename_i p q branch outcome
    obtain ⟨fs, hfs, hlast⟩ := h.slot _ hphase
    refine ⟨fun p hp => ?_, fun failure fs' hended hfs' => ?_⟩
    · simp only at hp
      split_ifs at hp
    · simp only at hended
      split_ifs at hended with hstopped
      cases hended
      cases hfs.symm.trans hfs'
      rw [neverUp_eq hout, hlast]
  | charge _ hto =>
    refine .of_phase (fun p hp => ?_) (fun f hf => ?_)
    · rcases hto with hto | ⟨_, hto⟩ <;> cases hto.symm.trans hp
    · rcases hto with hto | ⟨_, hto⟩ <;> cases hto.symm.trans hf

theorem latest_of_runs {schedule : List Action}
    (hrun : runs (Noted.step cfg) (init cfg) schedule = some t) : Latest t :=
  runs_invariant (fun _ _ _ hP hstep => hP.step hstep) hrun (latest_init cfg)

end Noted

/-! ### The charge -/

/-- The retry times the CA gave to members of the session. -/
def limits (failures : List AttemptFailure) : List SystemTime :=
  failures.filterMap AttemptFailure.rateLimitedUntil

/-- For each of these times: the loop goes on, has not counted the session, and waits until then. -/
def Honoured (cfg : Config) (s : State) (now : SystemTime) (failures : List AttemptFailure) :
    Prop :=
  ∀ limit ∈ limits failures, ∃ s' delay, step cfg s (.charge now) = some s' ∧
    s'.phase = .waiting delay ∧ s'.retry.attempts = s.retry.attempts ∧
    limit.nanos ≤ now.nanos + (delay.getD s'.retry.backoff).nanos

/-- Nobody was rate-limited, or the failure recorded last is a rate limit and none of the others is
to be retried later: not later than it, or not later than the base backoff. -/
def LimitLast (policy : ReconnectPolicy) (now : SystemTime) (failures : List AttemptFailure) :
    Prop :=
  limits failures = [] ∨ ∃ cause last, failures.getLast? = some ⟨cause, some last⟩ ∧
    ∀ limit ∈ limits failures,
      limit.nanos ≤ last.nanos ∨ limit.nanos ≤ now.nanos + policy.baseBackoff.nanos

section Charge

variable {cfg : Config} {s : State} {now : SystemTime}

/-- A session whose outcome is a rate limit is not counted, and waits for the CA. -/
theorem charge_of_limited (cfg : Config) (now : SystemTime) {cause : String} {last : SystemTime}
    (hphase : s.phase = .ended (.neverUp ⟨cause, some last⟩)) (hrej : s.rejected = none) :
    ∃ s' wait, step cfg s (.charge now) = some s' ∧ s'.phase = .waiting (some wait) ∧
      s'.retry = s.retry ∧
      wait.nanos = max (last.nanos - now.nanos).toNat s.retry.policy.baseBackoff.nanos := by
  simp only [step, chargeSession, hphase, hrej, SessionOutcome.failure, charge]
  refine ⟨_, _, rfl, rfl, rfl, ?_⟩
  rw [Duration.max_nanos, SystemTime.durationSince_getD_nanos]

/-- Any other outcome of a session that never came up is counted, if the loop goes on. -/
theorem charge_of_unlimited {cause : String} {s' : State} {delay : Option Duration}
    (hphase : s.phase = .ended (.neverUp ⟨cause, none⟩)) (hrej : s.rejected = none)
    (hstep : step cfg s (.charge now) = some s') (hwait : s'.phase = .waiting delay) :
    s'.retry.attempts = saturatingAdd s.retry.attempts 1 := by
  simp only [step, chargeSession, hphase, hrej, SessionOutcome.failure, charge] at hstep
  split_ifs at hstep
  · cases hstep
    cases hwait
  · cases hstep
    rfl

/-- After a rate limit, exactly the times that are not later than the wait are honoured. -/
theorem honoured_iff_of_limited {cause : String} {last : SystemTime}
    {failures : List AttemptFailure}
    (hphase : s.phase = .ended (.neverUp ⟨cause, some last⟩)) (hrej : s.rejected = none) :
    Honoured cfg s now failures ↔ ∀ limit ∈ limits failures, limit.nanos ≤ last.nanos ∨
      limit.nanos ≤ now.nanos + s.retry.policy.baseBackoff.nanos := by
  obtain ⟨s', wait, hstep, hwaiting, hretry, hwait⟩ := charge_of_limited cfg now hphase hrej
  refine forall₂_congr fun limit _ => ⟨?_, fun hbound => ?_⟩
  · rintro ⟨s₂, delay, hstep₂, hwaiting₂, -, hle⟩
    cases hstep.symm.trans hstep₂
    cases hwaiting.symm.trans hwaiting₂
    rw [Option.getD_some, hwait] at hle
    omega
  · refine ⟨s', some wait, hstep, hwaiting, by rw [hretry], ?_⟩
    rw [Option.getD_some, hwait]
    omega

/-- After any other failure the session is counted, which honours no rate limit. -/
theorem not_honoured_of_unlimited {cause : String} {failures : List AttemptFailure}
    (hphase : s.phase = .ended (.neverUp ⟨cause, none⟩)) (hrej : s.rejected = none)
    (hrange : s.retry.attempts.toNat < 2 ^ 32 - 1) (hlimits : limits failures ≠ []) :
    ¬Honoured cfg s now failures := by
  intro hhonoured
  obtain ⟨limit, hlimit⟩ := List.exists_mem_of_ne_nil _ hlimits
  obtain ⟨s', delay, hstep, hwaiting, hattempts, -⟩ := hhonoured limit hlimit
  rw [charge_of_unlimited hphase hrej hstep hwaiting] at hattempts
  have hcount := congrArg UInt32.toNat hattempts
  rw [saturatingAdd_toNat, show (1 : UInt32).toNat = 1 from rfl] at hcount
  omega

end Charge

/-- **Rate limits are honoured** in every pool session that never came up and was not rejected,
whatever the order of its failures, if the last one recorded is a rate limit and none is to be
retried later; and, as long as the count is not at the end of its range, only then. -/
theorem rate_limit_honoured (cfg : Config) (schedule : List Action) (t : Noted)
    (hrun : runs (Noted.step cfg) (.init cfg) schedule = some t) (failure : AttemptFailure)
    (failures : List AttemptFailure) (hphase : t.state.phase = .ended (.neverUp failure))
    (hfailures : t.failures = some failures) (hrej : t.state.rejected = none)
    (now : SystemTime) :
    (LimitLast t.state.retry.policy now failures → Honoured cfg t.state now failures) ∧
    (t.state.retry.attempts.toNat < 2 ^ 32 - 1 → Honoured cfg t.state now failures →
      LimitLast t.state.retry.policy now failures) := by
  have hlatest := (Noted.latest_of_runs hrun).outcome failure failures hphase hfailures
  constructor
  · rintro (hnone | ⟨cause, last, hlast, hbound⟩)
    · intro limit hlimit
      rw [hnone] at hlimit
      cases hlimit
    · rw [hlast, Option.getD_some] at hlatest
      rw [hlatest] at hphase
      exact (honoured_iff_of_limited hphase hrej).2 hbound
  · intro hrange hhonoured
    by_cases hnone : limits failures = []
    · exact .inl hnone
    · have hne : failures ≠ [] := by
        rintro rfl
        exact hnone rfl
      obtain ⟨⟨cause, limited⟩, hlast⟩ : ∃ f, failures.getLast? = some f :=
        ⟨_, List.getLast?_eq_some_getLast hne⟩
      rw [hlast, Option.getD_some] at hlatest
      rw [hlatest] at hphase
      cases limited with
      | none => exact absurd hhonoured (not_honoured_of_unlimited hphase hrej hrange hnone)
      | some last =>
        exact .inr ⟨cause, last, hlast, (honoured_iff_of_limited hphase hrej).1 hhonoured⟩

/-- An hour past the epoch. -/
def firstHour : SystemTime := ⟨3600 * 10 ^ 9, by decide, by decide⟩

/-- A failure by the CA's rate limit, until then. -/
def limitedHour : AttemptFailure := ⟨"ACME setup: rate limited", some firstHour⟩

/-- One member cannot connect. -/
def refuses (i : ℕ) : List Action :=
  [.member i (.connectFailed ⟨"connection refused", none⟩), .member i .go, .member i .go]

/-- One member is rate-limited. -/
def isLimited (i : ℕ) : List Action :=
  [.member i .connected, .member i (.exchangeFailed limitedHour), .member i .go, .member i .go]

/-- The rate limit comes last: the session is not counted and waits for the hour. -/
theorem rate_limit_honoured_last :
    ∃ t, runs (Noted.step twoMembers) (.init twoMembers)
        (.fallback :: refuses 0 ++ isLimited 1 ++ [.exit .allParked]) = some t ∧
      Honoured twoMembers t.state .unixEpoch [⟨"connection refused", none⟩, limitedHour] := by
  have hobs : (runs (Noted.step twoMembers) (.init twoMembers)
      (.fallback :: refuses 0 ++ isLimited 1 ++ [.exit .allParked])).map
        (fun t => (t.state.phase, t.failures, t.state.rejected)) =
      some (.ended (.neverUp limitedHour), some [⟨"connection refused", none⟩, limitedHour],
        none) := by decide +kernel
  obtain ⟨t, ht, heq⟩ := Option.map_eq_some_iff.1 hobs
  obtain ⟨hphase, hrest⟩ := Prod.mk.inj heq
  obtain ⟨hfailures, hrej⟩ := Prod.mk.inj hrest
  refine ⟨t, ht, (rate_limit_honoured twoMembers _ t ht _ _ hphase hfailures hrej .unixEpoch).1 ?_⟩
  refine .inr ⟨_, firstHour, rfl, fun limit hlimit => .inl ?_⟩
  cases List.mem_singleton.1 hlimit
  exact le_rfl

/-- The rate limit comes first: the session is counted, and retried after 2 s. -/
theorem rate_limit_overwritten :
    ∃ t s', runs (Noted.step twoMembers) (.init twoMembers)
        (.fallback :: isLimited 1 ++ refuses 0 ++ [.exit .allParked]) = some t ∧
      t.failures = some [limitedHour, ⟨"connection refused", none⟩] ∧
      t.state.retry = .new .default ∧ t.state.rejected = none ∧
      step twoMembers t.state (.charge .unixEpoch) = some s' ∧ s'.phase = .waiting none ∧
      s'.retry = ⟨.default, 1, .fromSecs 2⟩ := by
  have hobs : ((runs (Noted.step twoMembers) (.init twoMembers)
      (.fallback :: isLimited 1 ++ refuses 0 ++ [.exit .allParked])).bind fun t =>
        (step twoMembers t.state (.charge .unixEpoch)).map fun s' =>
          ((t.failures, t.state.retry, t.state.rejected), s'.phase, s'.retry)) =
      some ((some [limitedHour, ⟨"connection refused", none⟩], .new .default, none),
        .waiting none, ⟨.default, 1, .fromSecs 2⟩) := by decide +kernel
  obtain ⟨t, ht, hcharge⟩ := Option.bind_eq_some_iff.1 hobs
  obtain ⟨s', hs', heq⟩ := Option.map_eq_some_iff.1 hcharge
  simp only [Prod.mk.injEq] at heq
  obtain ⟨⟨hfailures, hretry, hrej⟩, hphase, hafter⟩ := heq
  exact ⟨t, s', ht, hfailures, hretry, hrej, hs', hphase, hafter⟩

end Session

end QuicTunnel
