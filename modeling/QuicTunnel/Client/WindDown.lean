import QuicTunnel.Base.SideBySide
import QuicTunnel.Client.ConnectionRun

/-!
# A stopped connection winds down

After `stop()` a connection task enters no further attempt; one that it awaits may still become a
session.  Each member of its pools, the members that outlive their session among them, makes at most
one more attempt.  `rank` counts the steps that are left: the way of a member from its backoff
through a whole attempt to its end takes eight, that of the task from a pool session to its return
four.

Two awaits of the task do not look at `stop()`: the connect, which `connect_timeout` bounds, and the
control exchange of a QUIC connection.  At every other one the task sees it and ends in two steps of
its own, which wait neither for the relay nor for its members.
-/

namespace QuicTunnel

/-! ### Members -/

/-- The steps a member has left once the tunnel is stopped, at most. -/
def MemberPc.rank : MemberPc → ℕ
  | .sleeping => 8
  | .connecting => 7
  | .exchanging => 6
  | .failing _ | .rejecting _ => 5
  | .ready | .parking => 4
  | .serving | .parked _ => 3
  | .dropping _ | .unparking _ => 2
  | .retrying => 1
  | .ended => 0

theorem MemberPc.rank_le (pc : MemberPc) : pc.rank ≤ 8 := by
  cases pc <;> simp [rank]

/-- The steps the members of a pool have left. -/
def Pool.rank (p : Pool) : ℕ := (p.members.map fun m => m.pc.rank).sum

theorem Pool.rank_le (p : Pool) : p.rank ≤ 8 * p.members.length := by
  have h := List.sum_le_card_nsmul (p.members.map fun m => m.pc.rank) 8 fun n hn => by
    obtain ⟨m, -, rfl⟩ := List.mem_map.1 hn
    exact m.pc.rank_le
  rw [List.length_map, smul_eq_mul, Nat.mul_comm] at h
  exact h

section Members

variable {policy : ReconnectPolicy} {p : Pool} {i : ℕ} {m : Member} {r : MemberStep}

theorem MemberPc.Edge.rank_lt {l : PoolLiveness} {pc pc' : MemberPc} (h : pc.Edge true l pc') :
    pc'.rank < pc.rank := by
  cases h with
  | retry h => cases h
  | connectFailed | connected | rejected | exchangeFailed | exchanged | dropped | beside | woken
  | orphaned | parkedStopped | retryStopped | sleepStopped => simp [MemberPc.rank]

/-- One member of the pool has come closer to its end. -/
theorem Pool.rank_set {q : Pool} {m' : Member} (hm : p.members[i]? = some m)
    (hq : q.members = p.members.set i m') (hlt : m'.pc.rank < m.pc.rank) :
    q.rank < p.rank := by
  have hsum := List.sum_map_set_add (fun m : Member => m.pc.rank) hm m'
  rw [Pool.rank, Pool.rank, hq]
  omega

/-- **Every step of a member of a stopped tunnel brings it closer to its end.** -/
theorem MemberMove.rank_lt (hm : p.members[i]? = some m) (h : MemberMove policy true p i m r) :
    r.pool.rank < p.rank := by
  cases h with
  | edge he => exact Pool.rank_set hm rfl he.rank_lt
  | failed f hpc | rejected reason hpc | up hpc | down cause hpc =>
    exact Pool.rank_set hm rfl (by rw [hpc]; simp [MemberPc.rank])
  | park hpc hlive => exact Pool.rank_set hm rfl (by rw [hpc]; simp [MemberPc.rank])
  | unpark woke hpc =>
    refine Pool.rank_set hm rfl ?_
    rw [hpc]
    cases woke <;> simp [MemberPc.rank]
  | slept hpc backoff => exact Pool.rank_set hm rfl (by rw [hpc]; simp [MemberPc.rank])

end Members

/-! ### The task -/

namespace Session

open Transition

/-- The steps the task has left, and those of the members of its session. -/
def Phase.rank : Phase → ℕ
  | .pool p => 4 + p.rank
  | .ended _ => 3
  | .waiting _ | .quic false => 2
  | .attempt | .quic true => 1
  | .returned | .gaveUp => 0

def Phase.members : Phase → ℕ
  | .pool p => p.members.length
  | _ => 0

/-- The steps a connection has left once the tunnel is stopped, at most. -/
def State.rank (s : State) : ℕ := s.phase.rank + (s.old.map Pool.rank).sum

/-- The members of all its pools. -/
def State.memberCount (s : State) : ℕ := s.phase.members + (s.old.map fun p => p.members.length).sum

theorem State.rank_le (s : State) : s.rank ≤ 4 + 8 * s.memberCount := by
  have hphase : s.phase.rank ≤ 4 + 8 * s.phase.members := by
    cases hp : s.phase with
    | pool p =>
      have := p.rank_le
      simp only [Phase.rank, Phase.members]
      omega
    | quic up => cases up <;> simp [Phase.rank, Phase.members]
    | attempt | ended | waiting | returned | gaveUp => simp [Phase.rank, Phase.members]
  have hold : (s.old.map Pool.rank).sum ≤ 8 * (s.old.map fun p => p.members.length).sum := by
    rw [← List.sum_map_mul_left]
    exact List.sum_le_sum fun p _ => p.rank_le
  rw [State.rank, State.memberCount]
  omega

section Steps

variable {cfg : Config} {s t : State} {a : Action}

/-- Between two sessions a stopped task goes on to its return, and starts no session. -/
theorem loop_rank_lt (hstopped : s.stopped = true)
    (ha : a = .leave ∨ a = .connected ∨ a = .waited ∨ a = .fallback)
    (hstep : step cfg s a = some t) : t.rank < s.rank := by
  rcases ha with rfl | rfl | rfl | rfl
  · simp only [step] at hstep
    split at hstep <;> rename_i hphase
    · split_ifs at hstep
      cases hstep
      simp [State.rank, hphase, Phase.rank]
    · split_ifs at hstep
      cases hstep
      simp [State.rank, hphase, Phase.rank]
    · cases hstep
  · simp [step, hstopped] at hstep
  · simp only [step] at hstep
    split at hstep
    · rename_i delay hphase
      cases hstep
      simp [State.rank, hphase, Phase.rank]
    · cases hstep
  · simp [step, hstopped] at hstep

/-- **Every step of a stopped connection brings it closer to its end.** -/
theorem rank_lt_of_step (hstopped : s.stopped = true) (ha : a ≠ .stop)
    (hstep : step cfg s a = some t) : t.rank < s.rank := by
  cases step_move hstep with
  | stop => exact absurd rfl ha
  | loop hloop =>
    refine loop_rank_lt hstopped ?_ hstep
    rcases hloop with rfl | rfl | rfl <;> simp
  | fallback => exact loop_rank_lt hstopped (by simp) hstep
  | quicUp hphase => simp [State.rank, hphase, Phase.rank]
  | @quicStopped up _ _ hphase => cases up <;> simp [State.rank, hphase, Phase.rank]
  | @quicEnded up failure reject hphase =>
    simp only [step, endQuic, hphase, if_pos hstopped] at hstep
    cases up <;> cases hstep
  | member hphase hr =>
    rw [hstopped] at hr
    obtain ⟨m, hm, -, hmove⟩ := Pool.step_move hr
    have hlt := hmove.rank_lt hm
    simp only [State.rank, State.after, hphase, Phase.rank]
    omega
  | @straggler p k i input r hp hr =>
    rw [hstopped] at hr
    obtain ⟨m, hm, -, hmove⟩ := Pool.step_move hr
    have hlt := hmove.rank_lt hm
    have hsum := List.sum_map_set_add Pool.rank hp r.pool
    simp only [State.rank, State.after]
    omega
  | @exit p q branch outcome hphase hout =>
    have hrank : q.rank = p.rank := by rw [Pool.rank, (poolOutcome_spec hout).1, Pool.rank]
    have hold : ((s.old ++ [{ q with aborted := true }]).map Pool.rank).sum =
        (s.old.map Pool.rank).sum + p.rank := by
      rw [List.map_append, List.sum_append, ← hrank]
      rfl
    have hphase' : (if outcome = .stopped then Phase.returned else .ended outcome).rank ≤ 3 := by
      split_ifs <;> simp [Phase.rank]
    simp only [State.rank, hphase, hold, Phase.rank] at hphase' ⊢
    omega
  | charge hphase hto =>
    rcases hto with rfl | ⟨delay, rfl⟩ <;> simp [State.rank, hphase, Phase.rank]

end Steps

end Session

namespace ConnectionRun

open Transition Session

/-- The steps a connection task has left once the tunnel is stopped, at most.  A connect that is
awaited may still start a pool. -/
def State.rank (poolSize : ℕ) (s : State) : ℕ :=
  s.toState.rank + if s.connecting then 4 + 7 * poolSize else 0

/-- The members of its pools, and of the one that a connect may still start. -/
def State.memberCount (poolSize : ℕ) (s : State) : ℕ :=
  s.toState.memberCount + if s.connecting then poolSize else 0

theorem State.rank_le (poolSize : ℕ) (s : State) :
    s.rank poolSize ≤ 8 + 8 * s.memberCount poolSize := by
  have := s.toState.rank_le
  rw [State.rank, State.memberCount]
  split_ifs <;> omega

/-- The steps a stopped task makes by itself at the time `now`: the loop or its wait leaves, the
pool session and `quic_loop` end by their `stop.changed()` branch, and an ended session is
charged. -/
def Action.ofTask (now : SystemTime) : Action → Bool
  | .go .leave | .go (.exit .stop) => true
  -- only that branch makes `quic_loop` return `Ok(())`
  | .go (.quicEnded failure reject) => failure = ⟨"connection closed", none⟩ ∧ reject = none
  | .go (.charge t) => t = now
  | _ => false

/-- The task is at an await that does not look at `stop()`. -/
def State.deaf (s : State) : Bool := s.connecting || decide (s.phase = .quic false)

/-- The task has ended. -/
def State.isDone (s : State) : Prop := s.phase = .returned ∨ s.phase = .gaveUp

section Steps

variable {cfg : Config} {s t : State} {a : Action}

theorem rank_new (cfg : Config) :
    (Pool.new cfg.tag cfg.serverAddr cfg.poolSize cfg.policy).rank = 7 * cfg.poolSize := by
  simp [Pool.rank, Pool.new, MemberPc.rank, Nat.mul_comm]

/-- The session a connect starts. -/
theorem connects_rank_lt {u v : Session.State} {b : Session.Action}
    (hb : b = .fallback ∨ b = .connected) (h : Session.step cfg u b = some v) :
    v.rank < u.rank + (4 + 7 * cfg.poolSize) := by
  rcases hb with rfl | rfl
  · simp only [Session.step] at h
    split_ifs at h with hc
    cases h
    simp only [Session.State.rank, Phase.rank, rank_new, hc.1]
    omega
  · simp only [Session.step] at h
    split_ifs at h with hc
    cases h
    simp only [Session.State.rank, Phase.rank, hc.1]
    omega

/-- **Every step of a stopped connection brings it closer to its end.** -/
theorem rank_lt_of_step (hstopped : s.stopped = true) (ha : a ≠ .go .stop)
    (hstep : step cfg s a = some t) : t.rank cfg.poolSize < s.rank cfg.poolSize := by
  cases step_cases hstep with
  | enter _ _ hfalse =>
    rw [hfalse] at hstopped
    cases hstopped
  | @connects a u hconnect hconnecting hu =>
    have hlt := connects_rank_lt hconnect hu
    have hflag : ({ u with stopped := s.stopped } : Session.State).rank = u.rank := rfl
    have hflag' : ({ s.toState with stopped := false } : Session.State).rank = s.toState.rank := rfl
    simp only [State.rank, hconnecting, if_true, hflag, hflag', Bool.false_eq_true, if_false]
      at hlt ⊢
    omega
  | goes _ _ hu =>
    have hlt := Session.rank_lt_of_step hstopped (fun heq => ha (by rw [heq])) hu
    simp only [State.rank]
    omega

theorem stopped_of_step (hstopped : s.stopped = true) (hstep : step cfg s a = some t) :
    t.stopped = true := by
  by_cases ha : a = .go .stop
  · subst ha
    cases hstep
    rfl
  · rw [stopped_eq_of_step ha hstep, hstopped]

/-- The steps `own` of the task lead to its end. -/
structure Leads (cfg : Config) (now : SystemTime) (s : State) (own : List Action) : Prop where
  ofTask : ∀ a ∈ own, a.ofTask now = true
  length : own.length ≤ 2
  ends : ∃ u, runs (step cfg) s own = some u ∧ u.isDone

theorem leads_of_step {cfg : Config} {now : SystemTime} {s u : State} {a : Action}
    (ha : a.ofTask now = true) (h : step cfg s a = some u) (hu : u.isDone) :
    Leads cfg now s [a] :=
  ⟨by simpa using ha, by simp, u, by simp [runs_cons, h], hu⟩

/-- A session that has ended is charged; then the connection is given up, or the wait sees the
signal. -/
theorem leads_charge (cfg : Config) (now : SystemTime) {outcome : SessionOutcome}
    (hstopped : s.stopped = true) (hidle : s.connecting = false)
    (hphase : s.phase = .ended outcome) : ∃ own, Leads cfg now s own := by
  have hstep : ∃ u, step cfg s (.go (.charge now)) = some u ∧ u.stopped = true ∧
      u.connecting = false ∧ (u.phase = .gaveUp ∨ ∃ delay, u.phase = .waiting delay) := by
    simp only [step, Session.step, chargeSession, hphase]
    split
    · exact ⟨_, rfl, hstopped, hidle, .inl rfl⟩
    · exact ⟨_, rfl, hstopped, hidle, .inr ⟨_, rfl⟩⟩
  obtain ⟨u, hu, hustop, huidle, hgave | ⟨delay, hwait⟩⟩ := hstep
  · exact ⟨[.go (.charge now)], leads_of_step (by simp [Action.ofTask]) hu (.inr hgave)⟩
  · have hleave : step cfg u (.go .leave) =
        some { u with phase := .returned, connecting := false } := by
      simp [step, Session.step, huidle, hwait, hustop]
    refine ⟨[.go (.charge now), .go .leave], by simp [Action.ofTask], by simp,
      { u with phase := .returned, connecting := false }, ?_, .inl rfl⟩
    simp only [runs_cons, hu, Option.bind_some, hleave, runs_nil]

/-- A stopped task ends by itself, unless it is at an await that does not look at the signal. -/
theorem exists_leads (cfg : Config) (now : SystemTime) (hstopped : s.stopped = true)
    (hdeaf : s.deaf = false) : s.isDone ∨ ∃ own, Leads cfg now s own := by
  simp only [State.deaf, Bool.or_eq_false_iff, decide_eq_false_iff_not] at hdeaf
  obtain ⟨hidle, hup⟩ := hdeaf
  cases hphase : s.phase with
  | attempt =>
    exact .inr ⟨_, leads_of_step (a := .go .leave)
      (u := { s with phase := .returned, connecting := false }) rfl
      (by simp [step, Session.step, hidle, hphase, hstopped]) (.inl rfl)⟩
  | quic up =>
    have hone : up = true := by
      cases up with
      | false => exact absurd hphase hup
      | true => rfl
    exact .inr ⟨_, leads_of_step (a := .go (.quicEnded ⟨"connection closed", none⟩ none))
      (u := { s with phase := .returned }) rfl
      (by simp [step, Session.step, endQuic, hphase, hstopped]) (.inl rfl)⟩
  | pool p =>
    exact .inr ⟨_, leads_of_step (a := .go (.exit .stop))
      (u := { s with phase := .returned, old := s.old ++ [{ p with aborted := true }] }) rfl
      (by simp [step, Session.step, exitPool, poolOutcome, hphase, hstopped]) (.inl rfl)⟩
  | ended outcome => exact .inr (leads_charge cfg now hstopped hidle hphase)
  | waiting delay =>
    exact .inr ⟨_, leads_of_step (a := .go .leave)
      (u := { s with phase := .returned, connecting := false }) rfl
      (by simp [step, Session.step, hidle, hphase, hstopped]) (.inl rfl)⟩
  | returned => exact .inl (.inl hphase)
  | gaveUp => exact .inl (.inr hphase)

end Steps

/-- **A stopped connection winds down.**  From any state of a stopped connection, every schedule
makes at most eight steps of the task and eight for each member of its pools, those of the pool that
an awaited connect may still start included; and until the task has ended, unless it awaits a
connect or the control exchange of a QUIC connection, it ends by at most two steps of its own. -/
theorem stop_winds_down (cfg : Config) (s t : State) (schedule : List Action)
    (hstopped : s.stopped = true) (hrun : runs (step cfg) s schedule = some t) :
    schedule.countP (fun a => a ≠ .go .stop) ≤ 8 + 8 * s.memberCount cfg.poolSize ∧
      (t.isDone ∨ t.connecting = true ∨ t.phase = .quic false ∨
        ∀ now, ∃ own u, (∀ a ∈ own, a.ofTask now = true) ∧ own.length ≤ 2 ∧
          runs (step cfg) t own = some u ∧ u.isDone) := by
  have hkept : ∀ (s : State) a t, s.stopped = true → step cfg s a = some t → t.stopped = true :=
    fun _ _ _ hs hstep => stopped_of_step hs hstep
  have hcount := runs_countP_le (μ := State.rank cfg.poolSize)
    (p := fun a => decide (a ≠ .go .stop))
    (q := fun _ => false) (c := 0) hkept (fun s a t hs hstep => ?_) hrun hstopped
  · have hrank := s.rank_le cfg.poolSize
    refine ⟨by omega, ?_⟩
    by_cases hdeaf : t.deaf = true
    · simp only [State.deaf, Bool.or_eq_true, decide_eq_true_eq] at hdeaf
      exact .inr (hdeaf.imp_right .inl)
    · by_cases hdone : t.isDone
      · exact .inl hdone
      · refine .inr (.inr (.inr fun now => ?_))
        obtain ⟨own, hown⟩ := (exists_leads cfg now (runs_invariant hkept hrun hstopped)
          (Bool.eq_false_of_not_eq_true hdeaf)).resolve_left hdone
        obtain ⟨u, hu, hend⟩ := hown.ends
        exact ⟨own, u, hown.ofTask, hown.length, hu, hend⟩
  · by_cases ha : a = .go .stop
    · subst ha
      cases hstep
      simp [State.rank, Session.State.rank]
    · have := rank_lt_of_step hs ha hstep
      simp only [ha, ne_eq, not_false_eq_true, decide_true, if_true]
      omega

/-- Two members, one serving and one in its backoff, when `stop()` is called. -/
def stoppedPool : List Action :=
  [.enter, .go .fallback, .go (.member 0 .connected), .go (.member 0 .exchanged),
    .go (.member 0 .go), .go (.member 1 (.connectFailed ⟨"connection refused", none⟩)),
    .go (.member 1 .go), .go (.member 1 .go), .go (.member 1 .go), .go .stop]

/-- A member's backoff ends before the pool session does. -/
def windingDown : List Action := [.go (.member 1 .slept), .go (.exit .stop)]

theorem stop_winds_down_stoppedPool : ∃ s t,
    runs (step twoMembers) (init twoMembers) stoppedPool = some s ∧ s.stopped = true ∧
      s.memberCount 2 = 2 ∧ runs (step twoMembers) s windingDown = some t ∧
      t.phase = .returned ∧
      windingDown.countP (fun a => a ≠ .go .stop) ≤ 8 + 8 * s.memberCount 2 :=
  let h := stop_winds_down twoMembers _ _ windingDown rfl rfl
  ⟨_, _, rfl, rfl, rfl, rfl, rfl, h.1⟩

end ConnectionRun

end QuicTunnel
