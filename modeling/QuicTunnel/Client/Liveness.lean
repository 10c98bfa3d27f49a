import QuicTunnel.Client.PoolProgress

/-!
# What the liveness of a pool counts

A pool by itself: any number of members that take their steps in any order, and a stop request at
any time.  No session ends it, so no member is aborted.  Beside the pool, `State` keeps what the
liveness has let out so far:

* the events, in order;
* the notifications of `went_down`, next to the 1→0 transitions of `live`;
* the pools at which `all_parked` was notified.

A `Notify` keeps one permit, behind which a second notification would not show.  So a step starts
from the pool with both permits taken, and a permit that is there afterwards is one that this step
has notified.  Members never look at the permits (`Pool.step_taken`), so the pool of every session
is such a pool (`mirrored_of_runs`).

`down` leaves out its `Lost` when the member has seen a stop request; `muted` counts these.
-/

namespace QuicTunnel

/-- The pool with both permits taken. -/
def Pool.taken (p : Pool) : Pool :=
  { p with liveness := { p.liveness with wentDown := false, allParked := false } }

def MemberStep.taken (r : MemberStep) : MemberStep := { r with pool := r.pool.taken }

theorem memberStep_taken (policy : ReconnectPolicy) (stopped : Bool) (p : Pool) (i : ℕ) (m : Member)
    (input : MemberInput) :
    (memberStep policy stopped p.taken i m input).map MemberStep.taken =
      (memberStep policy stopped p i m input).map MemberStep.taken := by
  obtain ⟨backoff, pc⟩ := m
  -- What is left are the steps that call the liveness, and those that branch.
  cases pc <;> cases input <;> try rfl
  case ready.go =>
    by_cases hlive : p.liveness.live = 0 <;>
      simp [memberStep, PoolLiveness.up, Pool.taken, Pool.goto, MemberStep.taken, hlive]
  case dropping.go =>
    by_cases hlive : p.liveness.live - 1 = 0 <;>
      simp [memberStep, PoolLiveness.down, Pool.taken, Pool.goto, MemberStep.taken, hlive]
  case parking.go =>
    by_cases hlive : p.liveness.live > 0 <;>
      simp [memberStep, PoolLiveness.park, Pool.taken, Pool.goto, MemberStep.taken, hlive]
  case parked.woken seen =>
    have hsame : p.taken.liveness.cameUp = p.liveness.cameUp := rfl
    simp only [memberStep, hsame]
    rcases p.liveness.cameUp.changed seen with _ | _ | _ <;> rfl
  case parked.stopped | sleeping.stopped => cases stopped <;> rfl

/-- No member reads the permits. -/
theorem Pool.step_taken (policy : ReconnectPolicy) (stopped : Bool) (p : Pool) (i : ℕ)
    (input : MemberInput) :
    (p.taken.step policy stopped i input).map MemberStep.taken =
      (p.step policy stopped i input).map MemberStep.taken := by
  unfold Pool.step
  simp only [Option.map_bind]
  show p.members[i]?.bind _ = p.members[i]?.bind _
  congr 1
  funext m
  show Option.map _ (if p.aborted && m.pc.awaits then _ else _) = Option.map _ (ite _ _ _)
  split_ifs
  · rfl
  · exact memberStep_taken policy stopped p i m input

def ConnectionEvent.isEstablished : ConnectionEvent → Bool
  | .established .. => true
  | _ => false

def ConnectionEvent.isLost : ConnectionEvent → Bool
  | .lost .. => true
  | _ => false

namespace Liveness

open Transition
open Session (Counted bracket)

structure State where
  pool : Pool
  /-- Whether the tunnel has been asked to stop. -/
  stopped : Bool
  events : List ConnectionEvent
  /-- The 1→0 transitions of `live`. -/
  falls : ℕ
  /-- Those made by a member that had seen the stop request. -/
  muted : ℕ
  /-- The notifications of `went_down`. -/
  wentDown : ℕ
  /-- The pools at which `all_parked` was notified. -/
  allParked : List Pool
  deriving DecidableEq

inductive Action
  | stop
  /-- A step of member `i`; `sees` is what it has read of the stop flag. -/
  | member (i : ℕ) (sees : Bool) (input : MemberInput)
  deriving DecidableEq

def init (tag serverAddr : String) (size : ℕ) (policy : ReconnectPolicy) : State :=
  ⟨.new tag serverAddr size policy, false, [], 0, 0, 0, []⟩

/-- Whether a step takes `live` from 1 to 0. -/
def State.fell (s : State) (r : MemberStep) : Bool :=
  decide (s.pool.liveness.live = 1 ∧ r.pool.liveness.live = 0)

/-- The record after a step of a member. -/
def State.after (s : State) (sees : Bool) (r : MemberStep) : State where
  pool := r.pool
  stopped := s.stopped
  events := s.events ++ r.event.toList
  falls := s.falls + (s.fell r).toNat
  muted := s.muted + (s.fell r && sees).toNat
  wentDown := s.wentDown + r.pool.liveness.wentDown.toNat
  allParked := s.allParked ++ if r.pool.liveness.allParked then [r.pool] else []

def step (policy : ReconnectPolicy) (s : State) : Action → Option State
  | .stop => some { s with stopped := true }
  | .member i sees input =>
    -- The flag is read before the step, so a member may miss a stop request but not invent one.
    if sees && !s.stopped then none
    else (s.pool.taken.step policy sees i input).map (s.after sees)

/-! ### The counters -/

/-- A pool of `n` members whose counters are right. -/
structure Tally (n : ℕ) (p : Pool) : Prop where
  size : p.liveness.size = n
  length : p.members.length = n
  live : Counted p
  parked : p.liveness.parked = p.members.countP fun m => m.pc.isParked

section Tally

variable {n : ℕ} {p : Pool} {policy : ReconnectPolicy} {stopped : Bool} {i : ℕ} {m : Member}
  {r : MemberStep}

theorem tally_new (tag serverAddr : String) (size : ℕ) (policy : ReconnectPolicy) :
    Tally size (.new tag serverAddr size policy) where
  size := rfl
  length := List.length_replicate
  live := Session.counted_new tag serverAddr size policy
  parked := (Session.countP_new tag serverAddr size policy (f := MemberPc.isParked) rfl).symm

theorem Tally.taken (h : Tally n p) : Tally n p.taken := ⟨h.size, h.length, h.live, h.parked⟩

/-- **One step of a member** keeps the counters right. -/
theorem Tally.move (h : Tally n p) (hm : p.members[i]? = some m)
    (hmove : MemberMove policy stopped p i m r) : Tally n r.pool := by
  have hlive := h.live.move hm hmove
  have hparked := Session.parked_move h.parked hm hmove
  have hlength : ∀ m', (p.members.set i m').length = n := fun m' => by
    rw [List.length_set, h.length]
  cases hmove with
  | edge | failed | rejected | slept | unpark => exact ⟨h.size, hlength _, hlive, hparked⟩
  | up => exact ⟨by rw [PoolLiveness.up_fst]; exact h.size, hlength _, hlive, hparked⟩
  | down => exact ⟨by rw [PoolLiveness.down_fst]; exact h.size, hlength _, hlive, hparked⟩
  | park _ hzero =>
    exact ⟨by rw [PoolLiveness.park_fst hzero]; exact h.size, hlength _, hlive, hparked⟩

theorem Tally.parked_le (h : Tally n p) : p.liveness.parked ≤ n := by
  rw [h.parked, ← h.length]
  exact List.countP_le_length

/-- A member in front of its `down` is still counted by `live`. -/
theorem Tally.live_pos (h : Tally n p) (hm : m ∈ p.members) (hup : m.pc.isUp = true) :
    0 < p.liveness.live := by
  rw [h.live]
  exact List.countP_pos_iff.2 ⟨m, hm, hup⟩

/-- A member in front of its `unpark` is still counted by `parked`. -/
theorem Tally.parked_pos (h : Tally n p) (hm : m ∈ p.members) (hparked : m.pc.isParked = true) :
    0 < p.liveness.parked := by
  rw [h.parked]
  exact List.countP_pos_iff.2 ⟨m, hm, hparked⟩

/-- A counter that has reached the size counts every member. -/
theorem Tally.forall_parked (h : Tally n p) (hfull : n ≤ p.liveness.parked) :
    ∀ m ∈ p.members, m.pc.isParked = true := by
  have hle := h.parked_le
  have hcount : p.members.countP (fun m => m.pc.isParked) = p.members.length := by
    rw [← h.parked, h.length]
    omega
  exact List.countP_eq_length.1 hcount

end Tally

/-! ### The events -/

/-- The events of a pool against the transitions of its `live`. -/
structure Ledger (events : List ConnectionEvent) (live falls muted : ℕ) : Prop where
  established : events.countP ConnectionEvent.isEstablished = falls + if 0 < live then 1 else 0
  lost : events.countP ConnectionEvent.isLost + muted = falls
  log : muted = 0 → bracket events = some (decide (0 < live))

section Ledger

variable {events : List ConnectionEvent} {live live' falls muted : ℕ}

/-- A transition beside a member that is up. -/
theorem Ledger.beside (h : Ledger events live falls muted) (hpos : 0 < live) (hpos' : 0 < live') :
    Ledger events live' falls muted where
  established := by rw [h.established, if_pos hpos, if_pos hpos']
  lost := h.lost
  log hm := by rw [h.log hm, decide_eq_true hpos, decide_eq_true hpos']

theorem Ledger.rise (h : Ledger events 0 falls muted) (tag serverAddr : String) :
    Ledger (events ++ [.established tag serverAddr .h2]) 1 falls muted where
  established := by
    rw [List.countP_append, h.established]
    rfl
  lost := by
    rw [List.countP_append, ← h.lost]
    rfl
  log hm := by
    rw [Session.bracket_append (h.log hm)]
    rfl

theorem Ledger.fall (h : Ledger events 1 falls muted) (tag serverAddr cause : String) :
    Ledger (events ++ [.lost tag serverAddr .h2 cause]) 0 (falls + 1) muted where
  established := by
    rw [List.countP_append, h.established]
    rfl
  lost := by
    have hone : List.countP ConnectionEvent.isLost [.lost tag serverAddr .h2 cause] = 1 := rfl
    rw [List.countP_append, hone, ← h.lost]
    omega
  log hm := by
    rw [Session.bracket_append (h.log hm)]
    rfl

/-- A fall that is not reported. -/
theorem Ledger.mute (h : Ledger events 1 falls muted) :
    Ledger events 0 (falls + 1) (muted + 1) where
  established := h.established
  lost := by rw [← h.lost, Nat.add_assoc]
  log := nofun

variable {l : PoolLiveness}

/-- `up` enters `Established` on 0→1. -/
theorem Ledger.up (h : Ledger events l.live falls muted) :
    Ledger (events ++ l.up.2.toList) (l.live + 1) falls muted := by
  rw [Session.up_event]
  by_cases hzero : l.live = 0
  · rw [if_pos hzero, hzero]
    rw [hzero] at h
    exact h.rise l.tag l.serverAddr
  · rw [if_neg hzero, Option.toList_none, List.append_nil]
    exact h.beside (Nat.pos_of_ne_zero hzero) (Nat.succ_pos _)

/-- `down` enters `Lost` on 1→0, unless it was told of a stop request. -/
theorem Ledger.down (h : Ledger events l.live falls muted) (hpos : 0 < l.live) (cause : String)
    (stopped : Bool) :
    Ledger (events ++ (l.down cause stopped).2.toList) (l.live - 1)
      (falls + (decide (l.live = 1)).toNat) (muted + (decide (l.live = 1) && stopped).toNat) := by
  rw [Session.down_event]
  by_cases hone : l.live = 1
  · rw [decide_eq_true hone, hone]
    rw [hone] at h
    cases stopped with
    | false => exact h.fall l.tag l.serverAddr cause
    | true =>
      show Ledger (events ++ []) 0 (falls + 1) (muted + 1)
      rw [List.append_nil]
      exact h.mute
  · have hne : ¬(l.live - 1 = 0 ∧ stopped = false) := fun hz => by omega
    rw [decide_eq_false hone, if_neg hne, Option.toList_none, List.append_nil]
    exact h.beside hpos (by omega)

end Ledger

/-! ### The invariant -/

structure Inv (n : ℕ) (s : State) : Prop where
  tally : Tally n s.pool
  ledger : Ledger s.events s.pool.liveness.live s.falls s.muted
  everUp : s.pool.liveness.everUp = true ↔ 0 < s.events.countP ConnectionEvent.isEstablished
  wentDown : s.wentDown = s.falls
  allParked : ∀ p ∈ s.allParked,
    Tally n p ∧ p.liveness.live = 0 ∧ ∀ m ∈ p.members, m.pc.isParked = true
  heard : s.stopped = false → s.muted = 0

theorem inv_init (tag serverAddr : String) (size : ℕ) (policy : ReconnectPolicy) :
    Inv size (init tag serverAddr size policy) where
  tally := tally_new tag serverAddr size policy
  ledger := ⟨rfl, rfl, fun _ => rfl⟩
  everUp := by simp [init, Pool.new, PoolLiveness.new]
  wentDown := rfl
  allParked := by simp [init]
  heard _ := rfl

section Steps

variable {n : ℕ} {s t : State} {sees : Bool} {r : MemberStep}

/-- A step that leaves `live` alone and emits nothing. -/
theorem Inv.quiet (h : Inv n s) (ht : Tally n r.pool)
    (hlive : r.pool.liveness.live = s.pool.liveness.live)
    (hever : r.pool.liveness.everUp = s.pool.liveness.everUp) (hevent : r.event = none)
    (hdown : r.pool.liveness.wentDown = false)
    (hall : r.pool.liveness.allParked = true →
      r.pool.liveness.live = 0 ∧ ∀ m ∈ r.pool.members, m.pc.isParked = true) :
    Inv n (s.after sees r) := by
  have hfell : s.fell r = false := decide_eq_false (by omega)
  have hafter : s.after sees r = { s with
      pool := r.pool
      allParked := s.allParked ++ if r.pool.liveness.allParked then [r.pool] else [] } := by
    simp [State.after, hfell, hevent, hdown]
  rw [hafter]
  refine ⟨ht, by rw [hlive]; exact h.ledger, by rw [hever]; exact h.everUp, h.wentDown,
    fun p hp => ?_, h.heard⟩
  rcases List.mem_append.1 hp with hp | hp
  · exact h.allParked p hp
  · split_ifs at hp with hnotified
    · rw [List.mem_singleton.1 hp]
      exact ⟨ht, hall hnotified⟩
    · cases hp

theorem Inv.up (h : Inv n s) (ht : Tally n r.pool)
    (hr : r.pool.liveness = s.pool.taken.liveness.up.1)
    (hevent : r.event = s.pool.taken.liveness.up.2) : Inv n (s.after sees r) := by
  rw [PoolLiveness.up_fst] at hr
  have hlive : r.pool.liveness.live = s.pool.liveness.live + 1 := by rw [hr]; rfl
  have hafter : s.after sees r =
      { s with pool := r.pool, events := s.events ++ r.event.toList } := by
    have hfell : s.fell r = false := decide_eq_false (by omega)
    have hdown : r.pool.liveness.wentDown = false := by rw [hr]; rfl
    have hall : r.pool.liveness.allParked = false := by rw [hr]; rfl
    simp [State.after, hfell, hdown, hall]
  have hledger : Ledger (s.events ++ r.event.toList) r.pool.liveness.live s.falls s.muted := by
    rw [hlive, hevent]
    exact Ledger.up (l := s.pool.taken.liveness) h.ledger
  rw [hafter]
  refine ⟨ht, hledger, ?_, h.wentDown, h.allParked, h.heard⟩
  -- `ever_up` is set, and a pool that is up has emitted `Established`.
  have hever : r.pool.liveness.everUp = true := by rw [hr]
  rw [hledger.established, hlive, if_pos (Nat.succ_pos _)]
  exact iff_of_true hever (Nat.succ_pos _)

theorem Inv.down (h : Inv n s) (ht : Tally n r.pool) (cause : String)
    (hpos : 0 < s.pool.liveness.live) (hsees : sees = true → s.stopped = true)
    (hr : r.pool.liveness = (s.pool.taken.liveness.down cause sees).1)
    (hevent : r.event = (s.pool.taken.liveness.down cause sees).2) : Inv n (s.after sees r) := by
  rw [PoolLiveness.down_fst] at hr
  have hlive : r.pool.liveness.live = s.pool.liveness.live - 1 := by rw [hr]; rfl
  have hfell : s.fell r = decide (s.pool.liveness.live = 1) := by
    rw [State.fell, hlive, decide_eq_decide]
    omega
  have hdown : r.pool.liveness.wentDown = s.fell r := by
    rw [hr, hfell]
    show (false || decide (s.pool.liveness.live - 1 = 0)) = _
    rw [Bool.false_or, decide_eq_decide]
    omega
  have hall : r.pool.liveness.allParked = false := by rw [hr]; rfl
  refine ⟨ht, ?_, ?_, ?_, ?_, fun hrun => ?_⟩
  · show Ledger (s.events ++ r.event.toList) r.pool.liveness.live (s.falls + (s.fell r).toNat)
      (s.muted + (s.fell r && sees).toNat)
    rw [hfell, hlive, hevent]
    exact Ledger.down (l := s.pool.taken.liveness) h.ledger hpos cause sees
  · have hever : r.pool.liveness.everUp = s.pool.liveness.everUp := by rw [hr]; rfl
    have hnone : r.event.toList.countP ConnectionEvent.isEstablished = 0 := by
      rw [hevent, Session.down_event]
      split_ifs <;> rfl
    show r.pool.liveness.everUp = true ↔ 0 < (s.events ++ r.event.toList).countP _
    rw [hever, List.countP_append, hnone]
    exact h.everUp
  · show s.wentDown + r.pool.liveness.wentDown.toNat = s.falls + (s.fell r).toNat
    rw [hdown, h.wentDown]
  · show ∀ p ∈ s.allParked ++ (if r.pool.liveness.allParked = true then [r.pool] else []), _
    rw [hall]
    simpa using h.allParked
  · -- Nobody sees a stop request that was not made.
    have hblind : sees = false := by
      cases sees with
      | false => rfl
      | true => exact (hsees rfl).symm.trans hrun
    show s.muted + (s.fell r && sees).toNat = 0
    rw [hblind, Bool.and_false, h.heard hrun]
    rfl

theorem Inv.move (h : Inv n s) {policy : ReconnectPolicy} {i : ℕ} {m : Member}
    (hm : s.pool.members[i]? = some m) (hsees : sees = true → s.stopped = true)
    (hmove : MemberMove policy sees s.pool.taken i m r) : Inv n (s.after sees r) := by
  have ht : Tally n r.pool := h.tally.taken.move hm hmove
  cases hmove with
  | edge | failed | rejected | slept | unpark => exact h.quiet ht rfl rfl rfl rfl nofun
  | up hpc => exact h.up ht rfl rfl
  | down cause hpc =>
    have hup : m.pc.isUp = true := by rw [hpc]; rfl
    exact h.down ht cause (h.tally.live_pos (List.mem_of_getElem? hm) hup) hsees rfl rfl
  | park hpc hlive =>
    have hpark := PoolLiveness.park_fst hlive
    refine h.quiet ht (by rw [hpark]; rfl) (by rw [hpark]; rfl) rfl (by rw [hpark]; rfl) ?_
    intro hnotified
    -- `parked >= size` was tested on the counter that the pool is left with.
    have hfull : n ≤ s.pool.taken.liveness.park.1.parked := by
      simp only [hpark] at hnotified ⊢
      rw [← h.tally.size]
      exact of_decide_eq_true hnotified
    exact ⟨by rw [hpark]; exact hlive, ht.forall_parked hfull⟩

theorem Inv.step (h : Inv n s) {policy : ReconnectPolicy} {a : Action}
    (hstep : step policy s a = some t) : Inv n t := by
  cases a with
  | stop =>
    cases hstep
    exact ⟨h.tally, h.ledger, h.everUp, h.wentDown, h.allParked, nofun⟩
  | member i sees input =>
    simp only [Liveness.step] at hstep
    split_ifs at hstep with hguard
    obtain ⟨r, hr, rfl⟩ := Option.map_eq_some_iff.1 hstep
    obtain ⟨m, hm, -, hmove⟩ := Pool.step_move hr
    refine h.move hm (fun hsees => ?_) hmove
    rw [hsees, Bool.true_and, Bool.not_eq_true, Bool.not_eq_false'] at hguard
    exact hguard

end Steps

theorem isUp_of_isParked {pc : MemberPc} (h : pc.isParked = true) : pc.isUp = false := by
  cases pc with
  | parked | unparking => rfl
  | _ => cases h

/-! ### Runs -/

theorem inv_of_reach {policy : ReconnectPolicy} {tag serverAddr : String} {size : ℕ} {s : State}
    (h : Reach (step policy) (init tag serverAddr size policy) s) : Inv size s :=
  h.invariant (fun _ _ _ hs ht => hs.step ht) (inv_init tag serverAddr size policy)

/-- **`PoolLiveness` counts its members exactly.**  In every run of a pool of any size, whatever the
members' attempts come to and however their steps interleave:

* `live` is the number of members between their `up` and their `down`, `parked` of those between
  their `park` and their `unpark`, and it is at most the size of the pool;
* neither subtraction is cut off: a member in front of its `down` finds `live` positive, one in
  front of its `unpark` finds `parked` positive;
* `Established` and `Lost` alternate, and `Established` is current exactly while `live` is positive,
  as long as no 1→0 transition was made by a member that had seen a stop request.  Such a transition
  emits nothing, every other one a `Lost`; every 0→1 transition emits `Established`;
* `went_down` is notified once for each 1→0 transition;
* `all_parked` is notified only while every member is parked and none is up;
* `ever_up` is set exactly when an `Established` was emitted. -/
theorem liveness_exact (policy : ReconnectPolicy) (tag serverAddr : String) (size : ℕ)
    (schedule : List Action) (s : State)
    (h : runs (step policy) (init tag serverAddr size policy) schedule = some s) :
    (s.pool.liveness.live = s.pool.members.countP (fun m => m.pc.isUp) ∧
      s.pool.liveness.parked = s.pool.members.countP (fun m => m.pc.isParked) ∧
      s.pool.liveness.parked ≤ size) ∧
    (∀ m ∈ s.pool.members,
      (∀ cause, m.pc = .dropping cause → 0 < s.pool.liveness.live) ∧
      (∀ woke, m.pc = .unparking woke → 0 < s.pool.liveness.parked)) ∧
    ((s.stopped = false → s.muted = 0) ∧
      (s.muted = 0 → bracket s.events = some (decide (0 < s.pool.liveness.live))) ∧
      s.events.countP ConnectionEvent.isLost + s.muted = s.falls ∧
      s.events.countP ConnectionEvent.isEstablished =
        s.falls + if 0 < s.pool.liveness.live then 1 else 0) ∧
    s.wentDown = s.falls ∧
    (∀ p ∈ s.allParked, p.members.length = size ∧ p.liveness.live = 0 ∧
      ∀ m ∈ p.members, m.pc.isParked = true ∧ m.pc.isUp = false) ∧
    (s.pool.liveness.everUp = true ↔ ∃ e ∈ s.events, e.isEstablished = true) := by
  have hinv : Inv size s := inv_of_reach ⟨schedule, h⟩
  refine ⟨⟨hinv.tally.live, hinv.tally.parked, hinv.tally.parked_le⟩, fun m hm => ⟨?_, ?_⟩,
    ⟨hinv.heard, hinv.ledger.log, hinv.ledger.lost, hinv.ledger.established⟩, hinv.wentDown,
    fun p hp => ?_, ?_⟩
  · intro cause hpc
    exact hinv.tally.live_pos hm (by rw [hpc]; rfl)
  · intro woke hpc
    exact hinv.tally.parked_pos hm (by rw [hpc]; rfl)
  · obtain ⟨ht, hzero, hall⟩ := hinv.allParked p hp
    exact ⟨ht.length, hzero, fun m hm => ⟨hall m hm, isUp_of_isParked (hall m hm)⟩⟩
  · rw [hinv.everUp, List.countP_pos_iff]

/-- A pool of two. -/
def twoMembers : State := init "SEC" "127.0.0.1:4433" 2 .default

/-- One member parks and is woken by the other, which drops, fails and parks before the first one
has called `unpark`. -/
def wokenNotUnparked : List Action :=
  [.member 1 false (.connectFailed ⟨"connection refused", none⟩), .member 1 false .go,
    .member 1 false .go, .member 0 false .connected, .member 0 false .exchanged,
    .member 0 false .go, .member 1 false .woken, .member 0 false (.dropped "connection dropped"),
    .member 0 false .go, .member 0 false .go, .member 0 false .slept,
    .member 0 false (.connectFailed ⟨"connection refused", none⟩), .member 0 false .go,
    .member 0 false .go]

theorem liveness_exact_wokenNotUnparked :
    ∃ s, runs (step .default) twoMembers wokenNotUnparked = some s ∧
      s.events = [.established "SEC" "127.0.0.1:4433" .h2,
        .lost "SEC" "127.0.0.1:4433" .h2 "connection dropped"] ∧
      s.pool.liveness.parked = 2 ∧ s.allParked.length = 1 ∧ s.wentDown = s.falls ∧
      ∀ p ∈ s.allParked, p.members.length = 2 ∧ p.liveness.live = 0 ∧
        ∀ m ∈ p.members, m.pc.isParked = true ∧ m.pc.isUp = false := by
  refine ⟨_, rfl, rfl, rfl, rfl, ?_⟩
  have hexact := liveness_exact .default "SEC" "127.0.0.1:4433" 2 wokenNotUnparked _ rfl
  exact ⟨hexact.2.2.2.1, hexact.2.2.2.2.1⟩

/-- The only member that is up drops after a stop request, with the other in its exchange. -/
def mutedFall : List Action :=
  [.member 0 false .connected, .member 0 false .exchanged, .member 0 false .go,
    .member 1 false .connected, .stop, .member 0 true (.dropped "connection dropped"),
    .member 0 true .go]

/-- After a stop request `live` falls to 0 with `Established` still current, and the member that
completes its exchange then makes it a second `Established` in a row. -/
theorem established_twice_after_stop :
    (∃ s, runs (step .default) twoMembers mutedFall = some s ∧ s.pool.liveness.live = 0 ∧
      s.events = [.established "SEC" "127.0.0.1:4433" .h2] ∧ bracket s.events = some true) ∧
    ∃ s, runs (step .default) twoMembers
        (mutedFall ++ [.member 1 true .exchanged, .member 1 true .go]) = some s ∧
      s.events = [.established "SEC" "127.0.0.1:4433" .h2,
        .established "SEC" "127.0.0.1:4433" .h2] ∧ ¬Session.Bracketed s.events :=
  ⟨⟨_, rfl, rfl, rfl, rfl⟩, _, rfl, rfl, by decide⟩

/-! ### The pools of sessions -/

/-- The pool of the session, if there is one, has been run by itself. -/
def Mirrored (cfg : Session.Config) (s : Session.State) : Prop :=
  ∀ p, s.phase = .pool p → ∃ t : State,
    Reach (step cfg.policy) (init cfg.tag cfg.serverAddr cfg.poolSize cfg.policy) t ∧
      t.pool.taken = p.taken ∧ t.stopped = s.stopped ∧ t.events.Sublist s.log

section Mirrored

variable {cfg : Session.Config} {s s' : Session.State}

/-- A step of a member from a pool with other permits. -/
theorem step_of_taken_eq {policy : ReconnectPolicy} {stopped : Bool} {p q : Pool} {i : ℕ}
    {input : MemberInput} {r : MemberStep} (hpq : q.taken = p.taken)
    (h : p.step policy stopped i input = some r) :
    ∃ r', q.taken.step policy stopped i input = some r' ∧ r'.pool.taken = r.pool.taken ∧
      r'.event = r.event := by
  have hsame := Pool.step_taken policy stopped p i input
  rw [h, ← hpq] at hsame
  obtain ⟨r', hr', htaken⟩ := Option.map_eq_some_iff.1 hsame
  have hevent : r'.taken.event = r.taken.event := by rw [htaken]
  exact ⟨r', hr', congrArg MemberStep.pool htaken, hevent⟩

theorem Mirrored.step (h : Mirrored cfg s) {a : Session.Action}
    (hstep : Session.step cfg s a = some s') : Mirrored cfg s' := by
  intro q hq
  cases Session.step_move hstep with
  | stop =>
    obtain ⟨t, ht, hpool, -, hlog⟩ := h q hq
    exact ⟨{ t with stopped := true }, ht.tail (a := .stop) rfl, hpool, rfl, hlog⟩
  | loop _ _ hto => rcases hto with rfl | ⟨rfl, -⟩ | rfl <;> cases hq
  | fallback =>
    cases hq
    cases s.stopped with
    | false => exact ⟨_, .refl _, rfl, rfl, List.nil_sublist _⟩
    | true => exact ⟨_, .single (a := .stop) rfl, rfl, rfl, List.nil_sublist _⟩
  | quicUp | quicStopped | quicEnded => cases hq
  | @member p i input r hphase hr =>
    cases hq
    obtain ⟨t, ht, hpool, hstopped, hlog⟩ := h p hphase
    obtain ⟨r', hr', htaken, hevent⟩ := step_of_taken_eq hpool hr
    have hmember : Liveness.step cfg.policy t (.member i s.stopped input) =
        some (t.after s.stopped r') := by
      simp [Liveness.step, hstopped, hr']
    refine ⟨_, ht.tail hmember, htaken, hstopped, ?_⟩
    show (t.events ++ r'.event.toList).Sublist (s.log ++ r.event.toList)
    rw [hevent]
    exact hlog.append (List.Sublist.refl _)
  | straggler =>
    obtain ⟨t, ht, hpool, hstopped, hlog⟩ := h q hq
    exact ⟨t, ht, hpool, hstopped, hlog.trans (List.sublist_append_left _ _)⟩
  | exit =>
    simp only at hq
    split_ifs at hq
  | charge _ hto => rcases hto with rfl | ⟨delay, rfl⟩ <;> cases hq

end Mirrored

/-- **The pool of a session** is a pool run by itself, up to the permits that are stored. -/
theorem mirrored_of_runs {cfg : Session.Config} {schedule : List Session.Action}
    {s : Session.State} (h : runs (Session.step cfg) (Session.init cfg) schedule = some s) :
    Mirrored cfg s :=
  runs_invariant (fun _ _ _ hs ht => hs.step ht) h (fun p hp => by cases hp)

/-- So its counters are right at every moment of the session, stopped or not. -/
theorem session_pool_tally {cfg : Session.Config} {schedule : List Session.Action}
    {s : Session.State} (h : runs (Session.step cfg) (Session.init cfg) schedule = some s)
    {p : Pool} (hphase : s.phase = .pool p) : Tally cfg.poolSize p := by
  obtain ⟨t, ht, hpool, -⟩ := mirrored_of_runs h p hphase
  have htally := (inv_of_reach ht).tally.taken
  rw [hpool] at htally
  exact ⟨htally.size, htally.length, htally.live, htally.parked⟩

end Liveness

end QuicTunnel
