import QuicTunnel.Client.Moves

/-!
# `Established` and `Lost` as brackets

`bracket` reads the events of a connection: down, `Established` opens, `Lost` closes, and
`AttemptFailed` and `GaveUp` are allowed only when down.  The invariant `Inv` ties the reading of
the log to the state: it is up exactly when the QUIC session is, or when the liveness of the
session's pool counts a member.

A pool session may end while its pool is up: a rejection of one member ends it beside live
siblings, and a stored `went_down` permit may be older than a sibling that came up since.  No `Lost`
follows.  A member may also reach its `up` after its session has ended.  `Timely` excludes these two
steps, and under it every run is bracketed.
-/

namespace QuicTunnel.Session

open Transition

/-! ### Brackets -/

/-- How one event moves the reading, `none` where it must not occur. -/
def bracketStep : Bool → ConnectionEvent → Option Bool
  | false, .established .. => some true
  | true, .lost .. => some false
  | false, .attemptFailed .. => some false
  | false, .gaveUp .. => some false
  | _, _ => none

/-- Reads the events from down: whether they end up, `none` if they are not bracketed. -/
def bracket (log : List ConnectionEvent) : Option Bool := log.foldlM bracketStep false

/-- `Established` and `Lost` alternate, starting with `Established`, and neither an `AttemptFailed`
nor a `GaveUp` stands between an `Established` and its `Lost`. -/
def Bracketed (log : List ConnectionEvent) : Prop := (bracket log).isSome

instance (log : List ConnectionEvent) : Decidable (Bracketed log) :=
  inferInstanceAs (Decidable (_ = true))

theorem bracket_append {log : List ConnectionEvent} {up : Bool} (h : bracket log = some up)
    (events : List ConnectionEvent) :
    bracket (log ++ events) = events.foldlM bracketStep up := by
  rw [bracket, List.foldlM_append]
  rw [bracket] at h
  rw [h]
  rfl

/-- The loop's own reports are in place while the connection is down. -/
theorem foldlM_reports {report : List ConnectionEvent} (h : ∀ e ∈ report, e.isReport = true) :
    report.foldlM bracketStep false = some false := by
  induction report with
  | nil => rfl
  | cons e report ih =>
    obtain ⟨he, hreport⟩ := List.forall_mem_cons.1 h
    have hstep : bracketStep false e = some false := by
      cases e with
      | attemptFailed | gaveUp => rfl
      | established | lost => cases he
    rw [List.foldlM_cons, hstep]
    exact ih hreport

/-! ### One member -/

/-- The liveness counts the members between their `up` and their `down`. -/
def Counted (p : Pool) : Prop := p.liveness.live = p.members.countP fun m => m.pc.isUp

/-- What a member's step does to the count, and the event it leaves. -/
inductive LiveStep (p : Pool) (m : Member) (r : MemberStep) : Prop
  | same (live : r.pool.liveness.live = p.liveness.live) (event : r.event = none)
  | up (pc : m.pc = .ready) (live : r.pool.liveness.live = p.liveness.live + 1)
      (event : r.event = if p.liveness.live = 0 then
        some (.established p.liveness.tag p.liveness.serverAddr .h2) else none)
  | down (cause : String) (pc : m.pc = .dropping cause)
      (live : r.pool.liveness.live = p.liveness.live - 1)
      (event : r.event = if p.liveness.live - 1 = 0 then
        some (.lost p.liveness.tag p.liveness.serverAddr .h2 cause) else none)

theorem up_event (l : PoolLiveness) :
    l.up.2 = if l.live = 0 then some (.established l.tag l.serverAddr .h2) else none := by
  unfold PoolLiveness.up
  simp only [Nat.add_eq_right]
  split_ifs <;> rfl

theorem down_event (l : PoolLiveness) (cause : String) (stopped : Bool) :
    (l.down cause stopped).2 = if l.live - 1 = 0 ∧ stopped = false then
      some (.lost l.tag l.serverAddr .h2 cause) else none := by
  unfold PoolLiveness.down
  by_cases hzero : l.live - 1 = 0 <;> cases stopped <;> simp [hzero]

section Member

variable {policy : ReconnectPolicy} {p : Pool} {i : ℕ} {m : Member} {input : MemberInput}
  {r : MemberStep}

/-- A count after a member has moved. -/
theorem countP_set_member (f : Member → Bool) (hm : p.members[i]? = some m) (m' : Member) :
    (p.members.set i m').countP f =
      p.members.countP f - (if f m then 1 else 0) + (if f m' then 1 else 0) := by
  obtain ⟨hlt, rfl⟩ := List.getElem?_eq_some_iff.1 hm
  rw [List.countP_set hlt]

/-- A count that the member's move does not cross. -/
theorem countP_set_of_eq {f : Member → Bool} (hm : p.members[i]? = some m) {m' : Member}
    (hf : f m = f m') : (p.members.set i m').countP f = p.members.countP f := by
  rw [countP_set_member f hm, ← hf]
  cases hb : f m with
  | false => simp
  | true =>
    have : 0 < p.members.countP f := List.countP_pos_iff.2 ⟨m, List.mem_of_getElem? hm, hb⟩
    simp only [if_true]
    omega

/-- A member that is up is counted. -/
theorem countP_pos_of_isUp (hm : p.members[i]? = some m) (hup : m.pc.isUp = true) :
    0 < p.members.countP fun m => m.pc.isUp :=
  List.countP_pos_iff.2 ⟨m, List.mem_of_getElem? hm, hup⟩

/-- A move that leaves a pool alone crosses neither `up` nor `down`. -/
theorem isUp_of_edge {stopped : Bool} {l : PoolLiveness} {pc pc' : MemberPc}
    (h : pc.Edge stopped l pc') : pc.isUp = pc'.isUp := by
  cases h <;> rfl

/-- A move that crosses neither `up` nor `down`. -/
theorem Counted.goto (hc : Counted p) (hm : p.members[i]? = some m) {q : Pool} {m' : Member}
    (hup : m.pc.isUp = m'.pc.isUp) (hmembers : q.members = p.members.set i m')
    (hlive : q.liveness.live = p.liveness.live) : Counted q := by
  rw [Counted, hlive, hmembers, hc]
  exact (countP_set_of_eq (f := fun m => m.pc.isUp) hm hup).symm

/-- **The count is kept** by every step of a member, stopped or not. -/
theorem Counted.move {stopped : Bool} (hc : Counted p) (hm : p.members[i]? = some m)
    (h : MemberMove policy stopped p i m r) : Counted r.pool := by
  cases h with
  | edge he => exact hc.goto hm (isUp_of_edge he) rfl rfl
  | failed f hpc | rejected reason hpc => exact hc.goto hm (by rw [hpc]; rfl) rfl rfl
  | slept hpc backoff => exact hc.goto hm (by rw [hpc]; rfl) rfl rfl
  | up hpc =>
    show p.liveness.up.1.live = _
    rw [PoolLiveness.up_fst, Pool.goto, countP_set_member _ hm, hc, hpc]
    rfl
  | down cause hpc =>
    show (p.liveness.down cause stopped).1.live = _
    rw [PoolLiveness.down_fst, Pool.goto, countP_set_member _ hm, hc, hpc]
    rfl
  | park hpc hlive =>
    exact hc.goto hm (by rw [hpc]; rfl) rfl (by rw [PoolLiveness.park_fst hlive])
  | unpark woke hpc => exact hc.goto hm (by rw [hpc]; cases woke <;> rfl) rfl rfl

/-- **One step of a member**, with the tunnel not stopped. -/
theorem memberStep_spec (hm : p.members[i]? = some m) (hc : Counted p)
    (h : MemberMove policy false p i m r) : LiveStep p m r ∧ Counted r.pool := by
  refine ⟨?_, hc.move hm h⟩
  cases h with
  | edge he => exact .same rfl rfl
  | failed f hpc | rejected reason hpc => exact .same rfl rfl
  | slept hpc backoff => exact .same rfl rfl
  | up hpc => exact .up hpc (by rw [PoolLiveness.up_fst]) (up_event _)
  | down cause hpc =>
    refine .down cause hpc (by rw [PoolLiveness.down_fst]) ?_
    rw [down_event]
    simp only [and_true]
  | park hpc hlive => exact .same (by rw [PoolLiveness.park_fst hlive]) rfl
  | unpark woke hpc => exact .same rfl rfl

end Member

/-! ### The invariant -/

/-- Whether the connection is up, by the state of its session. -/
def State.up (s : State) : Bool :=
  match s.phase with
  | .quic up => up
  | .pool p => decide (0 < p.liveness.live)
  | _ => false

structure Inv (s : State) : Prop where
  running : s.stopped = false
  current : ∀ p, s.phase = .pool p → Counted p
  old : ∀ p ∈ s.old, Counted p ∧ p.liveness.live = 0
  log : bracket s.log = some s.up

/-- The session of a pool ends only while no member of it is up, and no member comes up after its
session has ended. -/
def Timely (s : State) : Action → Prop
  | .exit _ =>
    match s.phase with
    | .pool p => p.liveness.live = 0
    | _ => True
  | .straggler k i _ =>
    match s.old[k]?.bind fun p => p.members[i]? with
    | some m => m.pc ≠ .ready
    | none => True
  | _ => True

instance (s : State) (a : Action) : Decidable (Timely s a) := by
  unfold Timely
  split
  · split <;> infer_instance
  · split <;> infer_instance
  · infer_instance

theorem inv_init (cfg : Config) : Inv (init cfg) :=
  ⟨rfl, by simp [init], by simp [init], rfl⟩

/-- A count that leaves out the members that connect is zero at the start. -/
theorem countP_new (tag serverAddr : String) (size : ℕ) (policy : ReconnectPolicy)
    {f : MemberPc → Bool} (hf : f .connecting = false) :
    (Pool.new tag serverAddr size policy).members.countP (fun m => f m.pc) = 0 := by
  refine List.countP_eq_zero.2 fun m hm => ?_
  rw [List.eq_of_mem_replicate hm, hf]
  exact Bool.false_ne_true

theorem counted_new (tag serverAddr : String) (size : ℕ) (policy : ReconnectPolicy) :
    Counted (.new tag serverAddr size policy) :=
  (countP_new tag serverAddr size policy (f := MemberPc.isUp) rfl).symm

section Steps

variable {cfg : Config} {s t : State}

theorem poolStep_spec {policy : ReconnectPolicy} {p : Pool} {i : ℕ} {input : MemberInput}
    {r : MemberStep} (hc : Counted p) (h : p.step policy false i input = some r) :
    ∃ m, p.members[i]? = some m ∧ LiveStep p m r ∧ Counted r.pool := by
  obtain ⟨m, hm, -, hmove⟩ := Pool.step_move h
  exact ⟨m, hm, memberStep_spec hm hc hmove⟩

/-- A step of the session's own member: the reading of the log follows the count. -/
theorem Inv.member (h : Inv s) {p : Pool} {i : ℕ} {input : MemberInput} {r : MemberStep}
    (hphase : s.phase = .pool p) (hr : p.step cfg.policy s.stopped i input = some r) :
    Inv { s.after r with phase := .pool r.pool } := by
  rw [h.running] at hr
  obtain ⟨m, hm, hlive, hcount⟩ := poolStep_spec (h.current p hphase) hr
  refine ⟨h.running, fun q hq => by cases hq; exact hcount, h.old, ?_⟩
  have hlog : bracket s.log = some (decide (0 < p.liveness.live)) := by
    rw [h.log, State.up, hphase]
  show bracket (s.log ++ r.event.toList) = some (decide (0 < r.pool.liveness.live))
  rw [bracket_append hlog]
  cases hlive with
  | same live event => rw [event, live]; rfl
  | up pc live event =>
    rw [event, live]
    by_cases hz : p.liveness.live = 0
    · rw [if_pos hz, hz]
      rfl
    · rw [if_neg hz, decide_eq_true (Nat.pos_of_ne_zero hz)]
      simp
  | down cause pc live event =>
    have hpos : 0 < p.liveness.live := by
      rw [h.current p hphase]
      exact countP_pos_of_isUp hm (by rw [pc]; rfl)
    rw [event, live, decide_eq_true hpos]
    by_cases hz : p.liveness.live - 1 = 0
    · rw [if_pos hz, hz]
      rfl
    · rw [if_neg hz, decide_eq_true (Nat.pos_of_ne_zero hz)]
      rfl

/-- A member of an earlier session that does not come up leaves no event. -/
theorem Inv.straggler (h : Inv s) {p : Pool} {k i : ℕ} {input : MemberInput} {r : MemberStep}
    (hg : Timely s (.straggler k i input)) (hp : s.old[k]? = some p)
    (hr : p.step cfg.policy s.stopped i input = some r) :
    Inv { s.after r with old := s.old.set k r.pool } := by
  rw [h.running] at hr
  obtain ⟨hc, hzero⟩ := h.old p (List.mem_of_getElem? hp)
  obtain ⟨m, hm, hlive, hcount⟩ := poolStep_spec hc hr
  have hquiet : r.pool.liveness.live = 0 ∧ r.event = none := by
    cases hlive with
    | same live event => exact ⟨live.trans hzero, event⟩
    | up pc live event =>
      simp only [Timely, hp, Option.bind_some, hm] at hg
      exact absurd pc hg
    | down cause pc live event =>
      have := countP_pos_of_isUp hm (by rw [pc]; rfl)
      rw [← hc, hzero] at this
      exact absurd this (lt_irrefl 0)
  refine ⟨h.running, h.current, fun q hq => ?_, ?_⟩
  · rcases List.mem_or_eq_of_mem_set hq with hq | rfl
    · exact h.old q hq
    · exact ⟨hcount, hquiet.1⟩
  · show bracket (s.log ++ r.event.toList) = some s.up
    rw [hquiet.2, Option.toList_none, List.append_nil]
    exact h.log

/-- A session that ends with no member up. -/
theorem Inv.exit (h : Inv s) {p q : Pool} {branch : Branch} {outcome : SessionOutcome}
    (hg : Timely s (.exit branch)) (hphase : s.phase = .pool p)
    (hout : poolOutcome s p branch = some (outcome, q)) :
    Inv { s with
      old := s.old ++ [{ q with aborted := true }]
      phase := if outcome = .stopped then .returned else .ended outcome } := by
  simp only [Timely, hphase] at hg
  obtain ⟨hmembers, hlive, hstop⟩ := poolOutcome_spec hout
  have hne : outcome ≠ .stopped := fun he => by
    have := hstop he
    rw [h.running] at this
    cases this
  refine ⟨h.running, ?_, fun r hr => ?_, ?_⟩
  · simp [hne]
  · rcases List.mem_append.1 hr with hr | hr
    · exact h.old r hr
    · rw [List.mem_singleton.1 hr]
      refine ⟨?_, hlive.trans hg⟩
      show q.liveness.live = q.members.countP _
      rw [hlive, hmembers]
      exact h.current p hphase
  · show bracket s.log = some (State.up _)
    rw [h.log, State.up, State.up, hphase]
    simp [hne, hg]

theorem Inv.step (h : Inv s) {a : Action} (hg : Timely s a) (hstop : a ≠ .stop)
    (hstep : step cfg s a = some t) : Inv t := by
  cases step_move hstep with
  | stop => exact absurd rfl hstop
  | @loop a phase retry ha hfrom hto =>
    -- Between two sessions the connection is down, and so it is when one starts.
    have hdown : s.up = false := by
      rcases hfrom with hfrom | ⟨delay, hfrom⟩ <;> rw [State.up, hfrom]
    refine ⟨h.running, ?_, h.old, h.log.trans ?_⟩
    · intro p hp
      rcases hto with rfl | ⟨rfl, -⟩ | rfl <;> cases hp
    · rw [hdown]
      rcases hto with rfl | ⟨rfl, -⟩ | rfl <;> rfl
  | fallback hphase =>
    refine ⟨h.running, ?_, h.old, h.log.trans ?_⟩
    · rintro p ⟨⟩
      exact counted_new _ _ _ _
    · rw [State.up, hphase]
      rfl
  | quicUp hphase =>
    have hlog : bracket s.log = some false := by rw [h.log, State.up, hphase]
    refine ⟨h.running, fun p hp => (by cases hp), h.old, ?_⟩
    show bracket (s.log ++ _) = some true
    rw [bracket_append hlog]
    rfl
  | quicStopped _ hstopped =>
    rw [h.running] at hstopped
    cases hstopped
  | @quicEnded up failure reject hphase =>
    -- `Lost` exactly if it was up.
    have hlog : bracket s.log = some up := by rw [h.log, State.up, hphase]
    refine ⟨h.running, fun p hp => (by cases hp), h.old, ?_⟩
    show bracket (s.log ++ _) = some false
    rw [bracket_append hlog]
    cases up <;> rfl
  | member hphase hr => exact h.member hphase hr
  | straggler hp hr => exact h.straggler hg hp hr
  | exit hphase hout => exact h.exit hg hphase hout
  | charge hphase hto hreport =>
    have hlog : bracket s.log = some false := by rw [h.log, State.up, hphase]
    refine ⟨h.running, ?_, h.old, ?_⟩
    · intro p hp
      rcases hto with rfl | ⟨delay, rfl⟩ <;> cases hp
    · show bracket (s.log ++ _) = some (State.up _)
      rw [bracket_append hlog, foldlM_reports hreport]
      rcases hto with rfl | ⟨delay, rfl⟩ <;> rfl

end Steps

/-! ### Runs -/

/-- **Bracketing.**  In every run without `stop()` whose pool sessions end only while no member is
up, and in which no member comes up after its session has ended, the events of the connection are
bracketed at every moment. -/
theorem bracketed_of_timely (cfg : Config) (schedule : List Action) (s : State)
    (hstop : ∀ a ∈ schedule, a ≠ .stop) (h : runs (step cfg) (init cfg) schedule = some s)
    (htimely : Meets (step cfg) Timely (init cfg) schedule) : Bracketed s.log := by
  have hinv : Inv s := runs_invariant_of_meets
    (fun _ _ _ hs hg hstep => hs.step hg.1 hg.2 hstep) h (htimely.and_forall hstop) (inv_init cfg)
  rw [Bracketed, hinv.log]
  rfl

/-- One member comes up and drops, the other fails before and after; the session ends, is charged,
and the next one starts. -/
def upAndDown : List Action :=
  [.fallback, .member 0 .connected, .member 0 .exchanged, .member 0 .go,
    .member 1 (.connectFailed ⟨"connection refused", none⟩), .member 1 .go, .member 1 .go,
    .member 0 (.dropped "connection dropped"), .member 0 .go, .exit .down,
    .charge .unixEpoch, .waited, .fallback]

theorem bracketed_upAndDown : ∃ s, runs (step twoMembers) (init twoMembers) upAndDown = some s ∧
    s.log.length = 2 ∧ Bracketed s.log :=
  ⟨_, rfl, by decide, bracketed_of_timely twoMembers upAndDown _ (by decide) rfl (by decide)⟩

/-- One member is up when the relay rejects the other. -/
def rejectedSibling : List Action :=
  [.fallback, .member 0 .connected, .member 0 .exchanged, .member 0 .go, .member 1 .connected,
    .member 1 (.rejected "unauthorized"), .member 1 .go, .exit .rejection,
    .charge .unixEpoch]

/-- The rejection ends the session and is reported as a failed attempt of a connection whose
`Established` has no `Lost`. -/
theorem rejection_beside_live_member :
    ∃ s, runs (step twoMembers) (init twoMembers) rejectedSibling = some s ∧
      s.log = [.established "SEC" "127.0.0.1:4433" .h2, .attemptFailed "SEC" "127.0.0.1:4433" 1
        "rejected by relay: unauthorized" ReconnectPolicy.default.maxBackoff] ∧
      ¬Bracketed s.log :=
  ⟨_, rfl, by decide, by decide⟩

end QuicTunnel.Session
