import QuicTunnel.Client.Session

/-!
# What a member of a pool and a connection task can do

`MemberMove` lists the steps of `memberStep`: those that only move the member (`MemberPc.Edge`), and
one for each access to what the pool shares.  `Session.Move` lists the steps of a connection task
with the members of its pools.  What is proved about either is proved by cases over them.
-/

namespace QuicTunnel

/-- The moves of a member that leave the pool alone. -/
inductive MemberPc.Edge (stopped : Bool) (l : PoolLiveness) : MemberPc → MemberPc → Prop
  | connectFailed (f : AttemptFailure) : Edge stopped l .connecting (.failing f)
  | connected : Edge stopped l .connecting .exchanging
  | rejected (reason : String) : Edge stopped l .exchanging (.rejecting reason)
  | exchangeFailed (f : AttemptFailure) : Edge stopped l .exchanging (.failing f)
  | exchanged : Edge stopped l .exchanging .ready
  | dropped (cause : String) : Edge stopped l .serving (.dropping cause)
  | beside (h : 0 < l.live) : Edge stopped l .parking .retrying
  | woken (seen : ℕ) (h : l.cameUp.version ≠ seen) : Edge stopped l (.parked seen) (.unparking true)
  | orphaned (seen : ℕ) (h : l.cameUp.closed = true) :
    Edge stopped l (.parked seen) (.unparking false)
  | parkedStopped (seen : ℕ) (h : stopped = true) : Edge stopped l (.parked seen) (.unparking false)
  | retryStopped (h : stopped = true) : Edge stopped l .retrying .ended
  | retry (h : stopped = false) : Edge stopped l .retrying .sleeping
  | sleepStopped (h : stopped = true) : Edge stopped l .sleeping .ended

/-- A step of member `i`. -/
inductive MemberMove (policy : ReconnectPolicy) (stopped : Bool) (p : Pool) (i : ℕ) (m : Member) :
    MemberStep → Prop
  | edge {pc : MemberPc} (h : m.pc.Edge stopped p.liveness pc) :
    MemberMove policy stopped p i m ⟨p.goto i m pc, none, none⟩
  | failed (f : AttemptFailure) (hpc : m.pc = .failing f) :
    MemberMove policy stopped p i m ⟨{ p.goto i m .parking with failed := some f }, none, none⟩
  | rejected (reason : String) (hpc : m.pc = .rejecting reason) :
    MemberMove policy stopped p i m ⟨p.goto i m .parking, some reason, none⟩
  | up (hpc : m.pc = .ready) :
    MemberMove policy stopped p i m
      ⟨{ p.goto i m .serving with liveness := p.liveness.up.1 }, none, p.liveness.up.2⟩
  | down (cause : String) (hpc : m.pc = .dropping cause) :
    MemberMove policy stopped p i m
      ⟨{ p.goto i { m with backoff := policy.baseBackoff } .retrying with
          liveness := (p.liveness.down cause stopped).1 }, none,
        (p.liveness.down cause stopped).2⟩
  | park (hpc : m.pc = .parking) (hlive : p.liveness.live = 0) :
    MemberMove policy stopped p i m
      ⟨{ p.goto i m (.parked p.liveness.cameUp.version) with liveness := p.liveness.park.1 }, none,
        none⟩
  | unpark (woke : Bool) (hpc : m.pc = .unparking woke) :
    MemberMove policy stopped p i m
      ⟨{ p.goto i m (if woke then .retrying else .ended) with liveness := p.liveness.unpark },
        none, none⟩
  | slept (hpc : m.pc = .sleeping) (backoff : Duration) :
    MemberMove policy stopped p i m ⟨p.goto i { m with backoff := backoff } .connecting, none, none⟩

theorem PoolLiveness.up_fst (l : PoolLiveness) :
    l.up.1 = { l with
      live := l.live + 1, everUp := true
      cameUp := if l.live = 0 then l.cameUp.send (l.cameUp.value + 1) else l.cameUp } := by
  simp only [PoolLiveness.up, Nat.add_eq_right]
  split_ifs <;> rfl

theorem PoolLiveness.down_fst (l : PoolLiveness) (cause : String) (stopped : Bool) :
    (l.down cause stopped).1 = { l with
      live := l.live - 1, wentDown := l.wentDown || decide (l.live - 1 = 0) } := by
  simp only [PoolLiveness.down]
  by_cases hzero : l.live - 1 = 0
  · rw [if_pos hzero, decide_eq_true hzero, Bool.or_true]
  · rw [if_neg hzero, decide_eq_false hzero, Bool.or_false]

theorem PoolLiveness.park_fst {l : PoolLiveness} (h : l.live = 0) :
    l.park.1 = { l with
      parked := l.parked + 1, allParked := l.allParked || decide (l.size ≤ l.parked + 1) } := by
  have hpos : ¬l.live > 0 := by omega
  simp only [PoolLiveness.park, if_neg hpos]

theorem PoolLiveness.park_of_pos {l : PoolLiveness} (h : 0 < l.live) : l.park = (l, none) :=
  if_pos h

theorem PoolLiveness.park_of_eq_zero {l : PoolLiveness} (h : l.live = 0) :
    l.park = (l.park.1, some l.cameUp.version) := by
  have hpos : ¬l.live > 0 := by omega
  simp only [PoolLiveness.park, if_neg hpos]

variable {policy : ReconnectPolicy} {stopped : Bool} {p : Pool} {i : ℕ} {m : Member}
  {input : MemberInput} {r : MemberStep}

theorem memberStep_move (h : memberStep policy stopped p i m input = some r) :
    MemberMove policy stopped p i m r := by
  have hedge : ∀ {pc pc' : MemberPc}, m.pc = pc → pc.Edge stopped p.liveness pc' →
      MemberMove policy stopped p i m ⟨p.goto i m pc', none, none⟩ :=
    fun hpc he => .edge (hpc ▸ he)
  unfold memberStep at h
  split at h
  · cases h; exact hedge ‹_› (.connectFailed _)
  · cases h; exact hedge ‹_› .connected
  · cases h; exact hedge ‹_› (.rejected _)
  · cases h; exact hedge ‹_› (.exchangeFailed _)
  · cases h; exact hedge ‹_› .exchanged
  · cases h; exact .failed _ ‹_›
  · cases h; exact .rejected _ ‹_›
  · cases h; exact .up ‹_›
  · cases h; exact hedge ‹_› (.dropped _)
  · cases h; exact .down _ ‹_›
  · rename_i hpc
    rcases Nat.eq_zero_or_pos p.liveness.live with hlive | hlive
    · rw [PoolLiveness.park_of_eq_zero hlive] at h
      cases h
      exact .park hpc hlive
    · rw [PoolLiveness.park_of_pos hlive] at h
      cases h
      exact hedge hpc (.beside hlive)
  · rename_i seen hpc
    split at h
    · cases h; exact hedge hpc (.woken seen (Watch.changed_eq_ok ‹_›).1)
    · cases h; exact hedge hpc (.orphaned seen (Watch.changed_eq_error ‹_›).2)
    · cases h
  · split_ifs at h with hs
    cases h
    exact hedge ‹_› (.parkedStopped _ hs)
  · cases h; exact .unpark _ ‹_›
  · rename_i hpc
    cases h
    cases stopped with
    | true => exact hedge hpc (.retryStopped rfl)
    | false => exact hedge hpc (.retry rfl)
  · cases h; exact .slept ‹_› _
  · split_ifs at h with hs
    cases h
    exact hedge ‹_› (.sleepStopped hs)
  · cases h

/-- A step of a pool is a move of one of its members. -/
theorem Pool.step_move (h : p.step policy stopped i input = some r) :
    ∃ m, p.members[i]? = some m ∧ (p.aborted = true → m.pc.awaits = false) ∧
      MemberMove policy stopped p i m r := by
  obtain ⟨m, hm, h⟩ := Option.bind_eq_some_iff.1 h
  split_ifs at h with hgone
  refine ⟨m, hm, fun ha => ?_, memberStep_move h⟩
  rw [ha, Bool.true_and, Bool.not_eq_true] at hgone
  exact hgone

/-! ### The connection task -/

/-- An event of the loop itself, between two sessions. -/
def ConnectionEvent.isReport : ConnectionEvent → Bool
  | .attemptFailed .. | .gaveUp .. => true
  | _ => false

namespace Session

/-- The end of a session leaves the members and the count alone. -/
theorem poolOutcome_spec {s : State} {p q : Pool} {branch : Branch} {outcome : SessionOutcome}
    (h : poolOutcome s p branch = some (outcome, q)) :
    q.members = p.members ∧ q.liveness.live = p.liveness.live ∧
      (outcome = .stopped → s.stopped = true) := by
  have hdrained : ∀ p', drained p' = (outcome, q) →
      q.members = p'.members ∧ q.liveness = p'.liveness ∧ outcome ≠ .stopped := by
    intro p' h'
    unfold drained at h'
    split_ifs at h' <;> cases h'
    · exact ⟨rfl, rfl, by simp⟩
    · exact ⟨rfl, rfl, by simp⟩
  cases branch with
  | stop =>
    simp only [poolOutcome] at h
    split_ifs at h with hs
    cases h
    exact ⟨rfl, rfl, fun _ => hs⟩
  | rejection =>
    simp only [poolOutcome] at h
    split_ifs at h
    cases h
    exact ⟨rfl, rfl, by simp⟩
  | down =>
    simp only [poolOutcome] at h
    split_ifs at h
    cases h
    exact ⟨rfl, rfl, by simp⟩
  | allParked =>
    simp only [poolOutcome] at h
    split_ifs at h
    obtain ⟨hm, hl, hne⟩ := hdrained _ (Option.some.inj h)
    exact ⟨hm, by rw [hl], fun he => absurd he hne⟩
  | drained =>
    simp only [poolOutcome] at h
    split_ifs at h
    obtain ⟨hm, hl, hne⟩ := hdrained _ (Option.some.inj h)
    exact ⟨hm, by rw [hl], fun he => absurd he hne⟩

/-- A step of a connection task, or of a member of one of its pools. -/
inductive Move (cfg : Config) (s : State) : Action → State → Prop
  | stop : Move cfg s .stop { s with stopped := true }
  /-- The loop moves on between two sessions, or starts one on QUIC. -/
  | loop {a : Action} {phase : Phase} {retry : RetryState}
    (ha : a = .leave ∨ a = .connected ∨ a = .waited)
    (hfrom : s.phase = .attempt ∨ ∃ delay, s.phase = .waiting delay)
    (hto : phase = .attempt ∨ phase = .returned ∧ s.stopped = true ∨ phase = .quic false) :
    Move cfg s a { s with retry := retry, phase := phase }
  | fallback (hphase : s.phase = .attempt) :
    Move cfg s .fallback
      { s with phase := .pool (.new cfg.tag cfg.serverAddr cfg.poolSize cfg.policy) }
  | quicUp (hphase : s.phase = .quic false) :
    Move cfg s .quicUp { s with
      phase := .quic true, log := s.log ++ [.established cfg.tag cfg.serverAddr .quic] }
  | quicStopped {up : Bool} {failure : AttemptFailure} {reject : Option String}
    (hphase : s.phase = .quic up) (hstopped : s.stopped = true) :
    Move cfg s (.quicEnded failure reject)
      { s with rejected := reject.orElse fun _ => s.rejected, phase := .returned }
  | quicEnded {up : Bool} {failure : AttemptFailure} {reject : Option String}
    (hphase : s.phase = .quic up) :
    Move cfg s (.quicEnded failure reject) { s with
      rejected := reject.orElse fun _ => s.rejected
      phase := .ended (if up then .lost else .neverUp failure)
      log := s.log ++ if up then [.lost cfg.tag cfg.serverAddr .quic failure.cause] else [] }
  | member {p : Pool} {i : ℕ} {input : MemberInput} {r : MemberStep} (hphase : s.phase = .pool p)
    (hr : p.step cfg.policy s.stopped i input = some r) :
    Move cfg s (.member i input) { s.after r with phase := .pool r.pool }
  | straggler {p : Pool} {k i : ℕ} {input : MemberInput} {r : MemberStep}
    (hp : s.old[k]? = some p) (hr : p.step cfg.policy s.stopped i input = some r) :
    Move cfg s (.straggler k i input) { s.after r with old := s.old.set k r.pool }
  | exit {p q : Pool} {branch : Branch} {outcome : SessionOutcome} (hphase : s.phase = .pool p)
    (hout : poolOutcome s p branch = some (outcome, q)) :
    Move cfg s (.exit branch)
      { s with
        old := s.old ++ [{ q with aborted := true }]
        phase := if outcome = .stopped then .returned else .ended outcome }
  | charge {now : SystemTime} {outcome : SessionOutcome} {phase : Phase} {retry : RetryState}
    {report : List ConnectionEvent} (hphase : s.phase = .ended outcome)
    (hto : phase = .gaveUp ∨ ∃ delay, phase = .waiting delay)
    (hreport : ∀ e ∈ report, e.isReport = true) :
    Move cfg s (.charge now)
      { s with rejected := none, retry := retry, phase := phase, log := s.log ++ report }

theorem step_move {cfg : Config} {s t : State} {a : Action} (h : step cfg s a = some t) :
    Move cfg s a t := by
  cases a with
  | stop =>
    cases h
    exact .stop
  | leave =>
    simp only [step] at h
    split at h
    · split_ifs at h with hstopped
      cases h
      exact .loop (.inl rfl) (.inl ‹_›) (.inr (.inl ⟨rfl, hstopped⟩))
    · split_ifs at h with hstopped
      cases h
      exact .loop (.inl rfl) (.inr ⟨_, ‹_›⟩) (.inr (.inl ⟨rfl, hstopped⟩))
    · cases h
  | fallback =>
    simp only [step] at h
    split_ifs at h with hc
    cases h
    exact .fallback hc.1
  | connected =>
    simp only [step] at h
    split_ifs at h with hc
    cases h
    exact .loop (.inr (.inl rfl)) (.inl hc.1) (.inr (.inr rfl))
  | quicUp =>
    simp only [step] at h
    split_ifs at h with hphase
    cases h
    exact .quicUp hphase
  | quicEnded failure reject =>
    simp only [step, endQuic] at h
    split at h
    · rename_i up hphase
      split_ifs at h with hstopped hup
      · cases h
        exact .quicStopped hphase hstopped
      · cases h
        rw [hup] at hphase
        exact .quicEnded hphase
      · cases h
        rw [Bool.eq_false_of_not_eq_true hup] at hphase
        have hmove : Move cfg s (.quicEnded failure reject) _ := .quicEnded hphase
        simpa using hmove
    · cases h
  | member i input =>
    simp only [step] at h
    split at h
    · obtain ⟨r, hr, rfl⟩ := Option.map_eq_some_iff.1 h
      exact .member ‹_› hr
    · cases h
  | straggler k i input =>
    obtain ⟨p, hp, h⟩ := Option.bind_eq_some_iff.1 h
    obtain ⟨r, hr, rfl⟩ := Option.map_eq_some_iff.1 h
    exact .straggler hp hr
  | exit branch =>
    simp only [step, exitPool] at h
    split at h
    · obtain ⟨⟨outcome, q⟩, hout, rfl⟩ := Option.map_eq_some_iff.1 h
      exact .exit ‹_› hout
    · cases h
  | charge now =>
    simp only [step, chargeSession] at h
    split at h
    · split at h
      · cases h
        exact .charge ‹_› (.inl rfl) (by simp [ConnectionEvent.isReport])
      · cases h
        refine .charge ‹_› (.inr ⟨_, rfl⟩) fun e he => ?_
        obtain ⟨cause, -, rfl⟩ := Option.map_eq_some_iff.1 (Option.mem_toList.1 he)
        rfl
    · cases h
  | waited =>
    simp only [step] at h
    split at h
    · cases h
      exact .loop (.inr (.inr rfl)) (.inr ⟨_, ‹_›⟩) (.inl rfl)
    · cases h

end Session

end QuicTunnel
