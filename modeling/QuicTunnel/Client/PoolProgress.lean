import QuicTunnel.Client.Bracketing

/-!
# A pool session never gets stuck

A member that has failed parks until a sibling comes up, and the session waits for one of its
signals; so something must be left to move.  `Awake` says why there is:

* once a member has been up, either one still is or `went_down` has been notified;
* before that, a member is in its attempt or parked, since only a sibling that is up can send it
  anywhere else;
* and when the last member parks, the counter, which may lag behind members that were woken but
  never ahead of those that are parked, has reached the size of the pool.

Nothing takes a permit but the end of the session.
-/

namespace QuicTunnel

/-- In its attempt: it awaits the connect or the control exchange, or handles what came of it. -/
def MemberPc.attempting : MemberPc → Bool
  | .connecting | .exchanging | .failing _ | .rejecting _ | .ready | .parking => true
  | _ => false

/-- Between its `park` and its `unpark`. -/
def MemberPc.isParked : MemberPc → Bool
  | .parked _ | .unparking _ => true
  | _ => false

namespace Session

open Transition

/-! ### The invariant of a pool -/

structure Awake (p : Pool) : Prop where
  size : p.liveness.size = p.members.length
  counted : Counted p
  parked : p.liveness.parked = p.members.countP fun m => m.pc.isParked
  unclosed : p.liveness.cameUp.closed = false
  /-- A pool that has been up is up, or has said that it went down. -/
  down : p.liveness.everUp = true → p.liveness.live = 0 → p.liveness.wentDown = true
  /-- A pool that was never up has nothing to wake its parked members. -/
  fresh : p.liveness.everUp = false → ∀ m ∈ p.members,
    m.pc.attempting = true ∨ m.pc = .parked p.liveness.cameUp.version
  /-- A pool whose members are all parked has said so. -/
  allParked : (∀ m ∈ p.members, ∃ seen, m.pc = .parked seen) → p.liveness.allParked = true

theorem Awake.live_eq_zero {p : Pool} (h : Awake p) (hup : p.liveness.everUp = false) :
    p.liveness.live = 0 := by
  rw [h.counted, List.countP_eq_zero]
  intro m hm hisUp
  rcases h.fresh hup m hm with hpc | hpc
  · cases hm : m.pc <;> simp [hm, MemberPc.isUp, MemberPc.attempting] at hisUp hpc
  · rw [hpc] at hisUp
    cases hisUp

theorem awake_new (tag serverAddr : String) {size : ℕ} (hsize : 1 ≤ size)
    (policy : ReconnectPolicy) : Awake (.new tag serverAddr size policy) where
  size := (List.length_replicate).symm
  counted := counted_new tag serverAddr size policy
  parked := (countP_new tag serverAddr size policy (f := MemberPc.isParked) rfl).symm
  unclosed := rfl
  down := nofun
  fresh _ m hm := by
    rw [List.eq_of_mem_replicate hm]
    exact .inl rfl
  allParked hall := by
    obtain ⟨seen, hseen⟩ := hall _ (List.mem_replicate.2 ⟨by omega, rfl⟩)
    cases hseen

section Member

variable {policy : ReconnectPolicy} {p : Pool} {i : ℕ} {m : Member} {r : MemberStep}

theorem isParked_of_edge {stopped : Bool} {l : PoolLiveness} {pc pc' : MemberPc}
    (h : pc.Edge stopped l pc') : pc.isParked = pc'.isParked := by
  cases h <;> rfl

/-- A move that crosses neither `park` nor `unpark`. -/
theorem parked_goto (hp : p.liveness.parked = p.members.countP fun m => m.pc.isParked)
    (hm : p.members[i]? = some m) {q : Pool} {m' : Member}
    (hparked : m.pc.isParked = m'.pc.isParked) (hmembers : q.members = p.members.set i m')
    (hcount : q.liveness.parked = p.liveness.parked) :
    q.liveness.parked = q.members.countP fun m => m.pc.isParked := by
  rw [hcount, hmembers, hp]
  exact (countP_set_of_eq (f := fun m => m.pc.isParked) hm hparked).symm

/-- **The count of parked members is kept** by every step of a member, stopped or not. -/
theorem parked_move {stopped : Bool}
    (hp : p.liveness.parked = p.members.countP fun m => m.pc.isParked)
    (hm : p.members[i]? = some m) (h : MemberMove policy stopped p i m r) :
    r.pool.liveness.parked = r.pool.members.countP fun m => m.pc.isParked := by
  cases h with
  | edge he => exact parked_goto hp hm (isParked_of_edge he) rfl rfl
  | failed f hpc | rejected reason hpc => exact parked_goto hp hm (by rw [hpc]; rfl) rfl rfl
  | slept hpc backoff => exact parked_goto hp hm (by rw [hpc]; rfl) rfl rfl
  | up hpc => exact parked_goto hp hm (by rw [hpc]; rfl) rfl (by rw [PoolLiveness.up_fst])
  | down cause hpc => exact parked_goto hp hm (by rw [hpc]; rfl) rfl (by rw [PoolLiveness.down_fst])
  | park hpc hlive =>
    show p.liveness.park.1.parked = _
    rw [PoolLiveness.park_fst hlive, Pool.goto, countP_set_member _ hm, hp, hpc]
    rfl
  | unpark woke hpc =>
    show p.liveness.parked - 1 = _
    rw [Pool.goto, countP_set_member _ hm, hp, hpc]
    cases woke <;> rfl

/-- A member moves, in terms of what its move does to the liveness. -/
theorem Awake.set (h : Awake p) (hm : p.members[i]? = some m) {q : Pool} {m' : Member}
    (hmembers : q.members = p.members.set i m') (hcounted : Counted q)
    (hcount : q.liveness.parked = q.members.countP fun m => m.pc.isParked)
    (hsize : q.liveness.size = p.liveness.size)
    (hcameUp : q.liveness.cameUp.closed = p.liveness.cameUp.closed)
    (hdown : q.liveness.everUp = true → q.liveness.live = 0 → q.liveness.wentDown = true)
    (hfresh : q.liveness.everUp = false →
      (p.liveness.everUp = false ∧ q.liveness.cameUp = p.liveness.cameUp) ∧
        (m'.pc.attempting = true ∨ m'.pc = .parked p.liveness.cameUp.version))
    (hall : ∀ seen, m'.pc = .parked seen → q.liveness.size ≤ q.liveness.parked →
      q.liveness.allParked = true) : Awake q := by
  have hlen : q.liveness.size = q.members.length := by
    rw [hmembers, List.length_set, hsize, h.size]
  refine ⟨hlen, hcounted, hcount, hcameUp.trans h.unclosed, hdown, fun hup d hd => ?_,
    fun hparked => ?_⟩
  · obtain ⟨⟨hold, hsame⟩, hm'⟩ := hfresh hup
    rw [hsame]
    rw [hmembers] at hd
    rcases List.mem_or_eq_of_mem_set hd with hd | rfl
    · exact h.fresh hold d hd
    · exact hm'
  · have hmem : m' ∈ q.members := by
      rw [hmembers]
      exact List.mem_set (List.getElem?_eq_some_iff.1 hm).1 m'
    obtain ⟨seen, hseen⟩ := hparked m' hmem
    refine hall seen hseen ?_
    have hfull : q.members.countP (fun m => m.pc.isParked) = q.members.length := by
      refine List.countP_eq_length.2 fun d hd => ?_
      obtain ⟨seen, hseen⟩ := hparked d hd
      rw [hseen]
      rfl
    rw [hcount, hfull, hlen]

/-- A move that leaves the liveness alone and does not park. -/
theorem Awake.same (h : Awake p) (hm : p.members[i]? = some m) {q : Pool} {m' : Member}
    (hmembers : q.members = p.members.set i m') (hcounted : Counted q)
    (hcount : q.liveness.parked = q.members.countP fun m => m.pc.isParked)
    (hliveness : q.liveness = p.liveness)
    (hfresh : p.liveness.everUp = false → m'.pc.attempting = true)
    (hnot : ∀ seen, m'.pc ≠ .parked seen) : Awake q := by
  refine h.set hm hmembers hcounted hcount (by rw [hliveness]) (by rw [hliveness]) ?_ ?_ ?_
  · rw [hliveness]
    exact h.down
  · rw [hliveness]
    exact fun hup => ⟨⟨hup, rfl⟩, .inl (hfresh hup)⟩
  · exact fun seen hseen => absurd hseen (hnot seen)

/-- Where a member goes that leaves the pool alone, before the pool was ever up. -/
theorem Awake.attempting_of_edge (h : Awake p) (hm : p.members[i]? = some m) {pc : MemberPc}
    (he : m.pc.Edge false p.liveness pc) (hup : p.liveness.everUp = false) :
    pc.attempting = true := by
  have hlive := h.live_eq_zero hup
  have hunclosed := h.unclosed
  rcases h.fresh hup m (List.mem_of_getElem? hm) with hpc | hpc
  · generalize m.pc = pc₀ at he hpc
    cases he with
    | beside hpos => omega
    | dropped | woken | orphaned | parkedStopped | retryStopped | retry | sleepStopped => cases hpc
    | connectFailed | connected | rejected | exchangeFailed | exchanged => rfl
  · rw [hpc] at he
    cases he with
    | woken _ hne => exact absurd rfl hne
    | orphaned _ hclosed =>
      rw [hunclosed] at hclosed
      cases hclosed
    | parkedStopped _ hstopped => cases hstopped

theorem not_parked_of_edge {stopped : Bool} {l : PoolLiveness} {pc pc' : MemberPc}
    (h : pc.Edge stopped l pc') (seen : ℕ) : pc' ≠ .parked seen := by
  cases h <;> exact nofun

/-- **One step of a member** keeps the pool awake. -/
theorem Awake.move (h : Awake p) (hm : p.members[i]? = some m)
    (hmove : MemberMove policy false p i m r) : Awake r.pool := by
  have hcounted := h.counted.move hm hmove
  have hcount := parked_move h.parked hm hmove
  cases hmove with
  | edge he =>
    exact h.same hm rfl hcounted hcount rfl (h.attempting_of_edge hm he) (not_parked_of_edge he)
  | failed f hpc | rejected reason hpc =>
    exact h.same hm rfl hcounted hcount rfl (fun _ => rfl) nofun
  | slept hpc backoff => exact h.same hm rfl hcounted hcount rfl (fun _ => rfl) nofun
  | up hpc =>
    refine h.set hm rfl hcounted hcount ?_ ?_ ?_ ?_ nofun
    all_goals simp only [PoolLiveness.up_fst]
    · split_ifs <;> rfl
    · exact fun _ hzero => absurd hzero (Nat.succ_ne_zero _)
    · exact nofun
  | down cause hpc =>
    refine h.set hm rfl hcounted hcount ?_ ?_ ?_ ?_ nofun
    all_goals simp only [PoolLiveness.down_fst]
    · intro _ hzero
      rw [decide_eq_true hzero, Bool.or_true]
    · -- A member that drops has been up.
      intro hup
      rcases h.fresh hup m (List.mem_of_getElem? hm) with hm | hm <;> rw [hpc] at hm <;> cases hm
  | park hpc hlive =>
    refine h.set hm rfl hcounted hcount ?_ ?_ ?_ ?_ ?_
    all_goals simp only [PoolLiveness.park_fst hlive]
    · exact h.down
    · exact fun hup => ⟨⟨hup, trivial⟩, .inr trivial⟩
    · intro _ _ hfull
      rw [decide_eq_true hfull, Bool.or_true]
  | unpark woke hpc =>
    refine h.set hm rfl hcounted hcount rfl rfl h.down ?_ ?_
    · intro hup
      rcases h.fresh hup m (List.mem_of_getElem? hm) with hm | hm <;> rw [hpc] at hm <;> cases hm
    · cases woke <;> exact nofun

end Member

/-- What an awake pool has to wait for. -/
theorem Awake.waits {p : Pool} (h : Awake p) :
    (∃ m ∈ p.members, m.pc.attempting = true ∨ m.pc.isUp = true) ∨
      p.liveness.wentDown = true ∨ p.liveness.allParked = true := by
  cases hup : p.liveness.everUp with
  | true =>
    rcases Nat.eq_zero_or_pos p.liveness.live with hlive | hlive
    · exact .inr (.inl (h.down hup hlive))
    · rw [h.counted] at hlive
      obtain ⟨m, hm, hisUp⟩ := List.countP_pos_iff.1 hlive
      exact .inl ⟨m, hm, .inr hisUp⟩
  | false =>
    by_cases hattempt : ∃ m ∈ p.members, m.pc.attempting = true
    · obtain ⟨m, hm, hpc⟩ := hattempt
      exact .inl ⟨m, hm, .inl hpc⟩
    · refine .inr (.inr (h.allParked fun m hm => ⟨p.liveness.cameUp.version, ?_⟩))
      exact (h.fresh hup m hm).resolve_left fun hpc => hattempt ⟨m, hm, hpc⟩

/-! ### Sessions -/

/-- The pool of a running session is awake. -/
structure Running (s : State) : Prop where
  stopped : s.stopped = false
  pool : ∀ p, s.phase = .pool p → Awake p

theorem Running.step {cfg : Config} (hsize : 1 ≤ cfg.poolSize) {s t : State} {a : Action}
    (h : Running s) (hstop : a ≠ .stop) (hstep : step cfg s a = some t) : Running t := by
  cases step_move hstep with
  | stop => exact absurd rfl hstop
  | loop _ _ hto =>
    refine ⟨h.stopped, fun p hp => ?_⟩
    rcases hto with rfl | ⟨rfl, -⟩ | rfl <;> cases hp
  | fallback hphase =>
    refine ⟨h.stopped, fun p hp => ?_⟩
    cases hp
    exact awake_new cfg.tag cfg.serverAddr hsize cfg.policy
  | quicUp | quicStopped | quicEnded => exact ⟨h.stopped, fun p hp => by cases hp⟩
  | member hphase hr =>
    refine ⟨h.stopped, fun p hp => ?_⟩
    cases hp
    rw [h.stopped] at hr
    obtain ⟨m, hm, -, hmove⟩ := Pool.step_move hr
    exact (h.pool _ hphase).move hm hmove
  | straggler hp hr => exact ⟨h.stopped, h.pool⟩
  | exit hphase hout =>
    refine ⟨h.stopped, fun p hp => ?_⟩
    simp only at hp
    split_ifs at hp
  | charge hphase hto =>
    refine ⟨h.stopped, fun p hp => ?_⟩
    rcases hto with rfl | ⟨delay, rfl⟩ <;> cases hp

/-- **A pool session never gets stuck.** In every run without `stop()`, while a session of a pool of
at least one member has not ended: a member is in its attempt, up, in its backoff, or parked with a
change of `came_up` it has not seen, or the session has a signal that it has not taken.  When every
member is parked, `all_parked` has been notified. -/
theorem pool_not_stuck (cfg : Config) (hsize : 1 ≤ cfg.poolSize) (schedule : List Action)
    (hstop : ∀ a ∈ schedule, a ≠ .stop) (s : State)
    (h : runs (step cfg) (init cfg) schedule = some s) (p : Pool) (hphase : s.phase = .pool p) :
    ((∃ m ∈ p.members, m.pc.attempting = true ∨ m.pc.isUp = true ∨ m.pc = .sleeping ∨
        ∃ seen, m.pc = .parked seen ∧ p.liveness.cameUp.hasChanged seen = .ok true) ∨
      p.liveness.wentDown = true ∨ p.liveness.allParked = true ∨ s.rejected.isSome = true) ∧
    ((∀ m ∈ p.members, ∃ seen, m.pc = .parked seen) → p.liveness.allParked = true) := by
  have hrunning : Running s := runs_invariant_of_forall
    (fun _ _ _ hs ha ht => hs.step hsize ha ht) h hstop ⟨rfl, fun p hp => by cases hp⟩
  have hawake := hrunning.pool p hphase
  refine ⟨?_, hawake.allParked⟩
  rcases hawake.waits with ⟨m, hm, hattempt | hup⟩ | hdown | hparked
  · exact .inl ⟨m, hm, .inl hattempt⟩
  · exact .inl ⟨m, hm, .inr (.inl hup)⟩
  · exact .inr (.inl hdown)
  · exact .inr (.inr (.inl hparked))

/-- One member comes up, wakes the other, and drops before that one has left its park. -/
def wokenTooLate : List Action :=
  [.fallback, .member 1 (.connectFailed ⟨"connection refused", none⟩), .member 1 .go, .member 1 .go,
    .member 0 .connected, .member 0 .exchanged, .member 0 .go,
    .member 0 (.dropped "connection dropped"), .member 0 .go]

theorem pool_not_stuck_wokenTooLate :
    ∃ s p, runs (step twoMembers) (init twoMembers) wokenTooLate = some s ∧ s.phase = .pool p ∧
      p.liveness.live = 0 ∧
      ((∃ m ∈ p.members, m.pc.attempting = true ∨ m.pc.isUp = true ∨ m.pc = .sleeping ∨
        ∃ seen, m.pc = .parked seen ∧ p.liveness.cameUp.hasChanged seen = .ok true) ∨
      p.liveness.wentDown = true ∨ p.liveness.allParked = true ∨ s.rejected.isSome = true) :=
  ⟨_, _, rfl, rfl, rfl,
    (pool_not_stuck twoMembers (by decide) wokenTooLate (by decide) _ rfl _ rfl).1⟩

end Session

end QuicTunnel
