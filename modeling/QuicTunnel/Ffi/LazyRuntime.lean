import QuicTunnel.Base.Refinement

/-!
# The runtime that is built on first use

`LazyRuntime::get` looks into its cell, takes the lock `building` if that is empty, looks again, and
builds.  Any number of threads call it at any time, a build may fail or panic, and a lock that a
panic poisoned is taken all the same.

* `step`: the threads, one access to the cell or to the lock at a time;
* `Atomic`: what `get` is for, an object whose calls each happen at one moment, and which keeps only
  what a build that succeeded has made;
* `Move.atomic`: each part of `get` is nothing to the object, or the whole call.
-/

namespace QuicTunnel.Ffi.LazyRuntime

open Transition

variable {ρ : Type*}

/-! ### The threads -/

/-- Where a call of `get` stands. -/
inductive Pc (ρ : Type*)
  | idle
  /-- Before the first `cell.get()`. -/
  | first
  /-- Before `building.lock()`. -/
  | lock
  /-- With the lock, before the second `cell.get()`. -/
  | second
  | build
  /-- With a runtime of its own, before `cell.get_or_init`. -/
  | store (rt : ρ)
  /-- The result is known, the guard of the lock not yet dropped. -/
  | leaving (r : Except String ρ)
  | returned (r : Except String ρ)
  | panicked

/-- What the threads share. -/
structure Shared (ρ : Type*) where
  cell : Option ρ
  /-- The call that has the lock. -/
  holder : Option ℕ
  poisoned : Bool
  /-- The runtimes that were built. -/
  built : List ρ

structure State (ρ : Type*) extends Shared ρ where
  pc : ℕ → Pc ρ

def init : State ρ := ⟨⟨none, none, false, []⟩, fun _ => .idle⟩

inductive Op (ρ : Type*)
  | call
  | look
  | acquire
  | builds (r : Except String ρ)
  | panics
  | getOrInit
  | unlock

/-- The next part of `get` in call `k`. -/
def advance (sh : Shared ρ) (k : ℕ) : Pc ρ → Op ρ → Option (Shared ρ × Pc ρ)
  | .idle, .call => some (sh, .first)
  | .first, .look =>
    match sh.cell with
    | some rt => some (sh, .returned (.ok rt))
    | none => some (sh, .lock)
  | .lock, .acquire =>
    -- `into_inner` of the error gives the guard, so `poisoned` makes no difference
    if sh.holder = none then some ({ sh with holder := some k }, .second) else none
  | .second, .look =>
    match sh.cell with
    | some rt => some (sh, .leaving (.ok rt))
    | none => some (sh, .build)
  | .build, .builds (.ok rt) => some ({ sh with built := sh.built ++ [rt] }, .store rt)
  | .build, .builds (.error e) => some (sh, .leaving (.error e))
  | .build, .panics => some ({ sh with holder := none, poisoned := true }, .panicked)
  | .store rt, .getOrInit =>
    match sh.cell with
    -- the runtime of this call would be dropped
    | some rt' => some (sh, .leaving (.ok rt'))
    | none => some ({ sh with cell := some rt }, .leaving (.ok rt))
  | .leaving r, .unlock => some ({ sh with holder := none }, .returned r)
  | _, _ => none

structure Action (ρ : Type*) where
  caller : ℕ
  op : Op ρ

/-- One step of one call. -/
def step (s : State ρ) (a : Action ρ) : Option (State ρ) :=
  (advance s.toShared a.caller (s.pc a.caller) a.op).map fun (sh, pc) =>
    ⟨sh, Function.update s.pc a.caller pc⟩

/-! ### The object -/

namespace Atomic

/-- How a call ends. -/
inductive Outcome (ρ : Type*)
  | ok (rt : ρ)
  | error (e : String)
  | panicked

/-- What of it is there for the next call. -/
def Outcome.kept : Outcome ρ → Option ρ
  | .ok rt => some rt
  | _ => none

structure State (ρ : Type*) where
  cell : Option ρ
  answer : ℕ → Option (Outcome ρ)

def init : State ρ := ⟨none, fun _ => none⟩

inductive Action (ρ : Type*)
  /-- There is a runtime. -/
  | hit (k : ℕ)
  /-- There is none, and an attempt to build one ends like this. -/
  | miss (k : ℕ) (o : Outcome ρ)

/-- A call, all at once. -/
def step (s : State ρ) : Action ρ → Option (State ρ)
  | .hit k =>
    match s.answer k, s.cell with
    | none, some rt => some { s with answer := Function.update s.answer k (some (.ok rt)) }
    | _, _ => none
  | .miss k o =>
    match s.answer k, s.cell with
    | none, none => some ⟨o.kept, Function.update s.answer k (some o)⟩
    | _, _ => none

def Action.caller : Action ρ → ℕ
  | .hit k | .miss k _ => k

end Atomic

def Atomic.Outcome.ofResult : Except String ρ → Outcome ρ
  | .ok rt => .ok rt
  | .error e => .error e

/-- What a call is sure to end with. -/
def Pc.answer : Pc ρ → Option (Atomic.Outcome ρ)
  | .leaving r | .returned r => some (.ofResult r)
  | .panicked => some .panicked
  | _ => none

/-- The threads, seen as the object. -/
def State.atomic (s : State ρ) : Atomic.State ρ := ⟨s.cell, fun k => (s.pc k).answer⟩

/-! ### What a step can do -/

/-- The parts of `get` that have the lock. -/
def Pc.holds : Pc ρ → Bool
  | .second | .build | .store _ | .leaving _ => true
  | _ => false

/-- The parts of `get` between the second look and the cell. -/
def Pc.building : Pc ρ → Bool
  | .build | .store _ => true
  | _ => false

/-- The parts of `get` from its call to its end. -/
def Pc.running : Pc ρ → Bool
  | .idle | .returned _ | .panicked => false
  | _ => true

/-- A part of `get`. -/
inductive Move (sh : Shared ρ) (k : ℕ) : Pc ρ → Shared ρ → Pc ρ → Prop
  | call : Move sh k .idle sh .first
  | hit {rt : ρ} (hcell : sh.cell = some rt) : Move sh k .first sh (.returned (.ok rt))
  | empty (hcell : sh.cell = none) : Move sh k .first sh .lock
  | acquire (hholder : sh.holder = none) : Move sh k .lock { sh with holder := some k } .second
  | hitAgain {rt : ρ} (hcell : sh.cell = some rt) : Move sh k .second sh (.leaving (.ok rt))
  | emptyAgain (hcell : sh.cell = none) : Move sh k .second sh .build
  | built {rt : ρ} : Move sh k .build { sh with built := sh.built ++ [rt] } (.store rt)
  | fails {e : String} : Move sh k .build sh (.leaving (.error e))
  | panics : Move sh k .build { sh with holder := none, poisoned := true } .panicked
  | late {rt rt' : ρ} (hcell : sh.cell = some rt') : Move sh k (.store rt) sh (.leaving (.ok rt'))
  | stored {rt : ρ} (hcell : sh.cell = none) :
    Move sh k (.store rt) { sh with cell := some rt } (.leaving (.ok rt))
  | unlock {r : Except String ρ} : Move sh k (.leaving r) { sh with holder := none } (.returned r)

section Steps

variable {s t : State ρ} {a : Action ρ}

theorem step_cases (hstep : step s a = some t) : ∃ q,
    Move s.toShared a.caller (s.pc a.caller) t.toShared q ∧
      t.pc = Function.update s.pc a.caller q := by
  obtain ⟨⟨sh, q⟩, hadvance, rfl⟩ := Option.map_eq_some_iff.1 hstep
  refine ⟨q, ?_, rfl⟩
  generalize s.pc a.caller = p at hadvance
  show Move _ _ p sh q
  unfold advance at hadvance
  split at hadvance
  case h_1 => cases hadvance; exact .call
  case h_2 =>
    split at hadvance <;> cases hadvance
    · exact .hit ‹_›
    · exact .empty ‹_›
  case h_3 =>
    split_ifs at hadvance
    cases hadvance
    exact .acquire ‹_›
  case h_4 =>
    split at hadvance <;> cases hadvance
    · exact .hitAgain ‹_›
    · exact .emptyAgain ‹_›
  case h_5 => cases hadvance; exact .built
  case h_6 => cases hadvance; exact .fails
  case h_7 => cases hadvance; exact .panics
  case h_8 =>
    split at hadvance <;> cases hadvance
    · exact .late ‹_›
    · exact .stored ‹_›
  case h_9 => cases hadvance; exact .unlock
  case h_10 => cases hadvance

/-! ### The invariant -/

structure Inv (s : State ρ) : Prop where
  /-- One call at most is between taking the lock and dropping its guard. -/
  lock : ∀ k, (s.pc k).holds = true ↔ s.holder = some k
  /-- While a call builds, the cell is empty. -/
  empty : ∀ k, (s.pc k).building = true → s.cell = none
  answered : ∀ k rt, (s.pc k).answer = some (.ok rt) → s.cell = some rt
  /-- A runtime that was built is in the cell, or on its way there. -/
  built : ∀ rt ∈ s.built, s.cell = some rt ∨ ∃ k, s.pc k = .store rt
  stores : ∀ k rt, s.pc k = .store rt → s.built = [rt]
  cell : ∀ rt, s.cell = some rt → s.built = [rt]

theorem inv_init : Inv (init : State ρ) where
  lock _ := by simp [init, Pc.holds]
  empty _ h := (by cases h)
  answered _ _ h := (by cases h)
  built _ h := (by cases h)
  stores _ _ h := (by cases h)
  cell _ h := (by cases h)

theorem Pc.holds_of_building {pc : Pc ρ} (h : pc.building = true) : pc.holds = true := by
  cases pc <;> first | rfl | cases h

/-- Two calls with the lock are the same. -/
theorem Inv.holder_unique (h : Inv s) {j k : ℕ} (hj : (s.pc j).holds = true)
    (hk : (s.pc k).holds = true) : j = k :=
  Option.some.inj (((h.lock j).1 hj).symm.trans ((h.lock k).1 hk))

/-- As long as a call is about to build, nothing was built. -/
theorem Inv.built_nil (h : Inv s) {k : ℕ} (hk : s.pc k = .build) : s.built = [] := by
  refine List.eq_nil_iff_forall_not_mem.2 fun rt hrt => ?_
  rcases h.built rt hrt with hcell | ⟨j, hj⟩
  · rw [h.empty k (by rw [hk]; rfl)] at hcell
    cases hcell
  · have hjk := h.holder_unique (j := j) (k := k) (by rw [hj]; rfl) (by rw [hk]; rfl)
    rw [hjk, hk] at hj
    cases hj

/-- There is one runtime at most. -/
theorem Inv.built_length (h : Inv s) : s.built.length ≤ 1 := by
  cases hbuilt : s.built with
  | nil => exact Nat.zero_le _
  | cons rt rest =>
    have hone : s.built = [rt] := by
      rcases h.built rt (hbuilt ▸ List.mem_cons_self) with hcell | ⟨k, hk⟩
      · exact h.cell rt hcell
      · exact h.stores k rt hk
    rw [← hbuilt, hone]
    exact Nat.le_refl _

section Moves

variable {sh sh' : Shared ρ} {k : ℕ} {p q : Pc ρ}

/-- The lock is taken and given back by the call that makes the move. -/
theorem Move.holder (h : Move sh k p sh' q) (hp : p.holds = true ↔ sh.holder = some k) (j : ℕ) :
    sh'.holder = some j ↔ if j = k then q.holds = true else sh.holder = some j := by
  by_cases hj : j = k
  · subst hj
    rw [if_pos rfl]
    cases h <;> simp_all [Pc.holds]
  · rw [if_neg hj]
    have hj' : k ≠ j := Ne.symm hj
    cases h <;> simp_all [Pc.holds]

/-- The cell is written by a call that has built what it writes. -/
theorem Move.cell (h : Move sh k p sh' q) : sh'.cell = sh.cell ∨
    ∃ rt, p = .store rt ∧ q = .leaving (.ok rt) ∧ sh.cell = none ∧ sh'.cell = some rt := by
  cases h with
  | stored hcell => exact .inr ⟨_, rfl, rfl, hcell, rfl⟩
  | _ => exact .inl rfl

theorem Move.built_cases (h : Move sh k p sh' q) :
    sh'.built = sh.built ∧ (∀ rt, q ≠ .store rt) ∨
      ∃ rt, p = .build ∧ q = .store rt ∧ sh'.built = sh.built ++ [rt] := by
  cases h with
  | built => exact .inr ⟨_, rfl, rfl, rfl⟩
  | _ => exact .inl ⟨rfl, fun _ heq => (by cases heq)⟩

/-- A call builds once it found the cell empty. -/
theorem Move.building (h : Move sh k p sh' q) (hq : q.building = true) :
    sh'.cell = sh.cell ∧ (sh.cell = none ∨ p.building = true) := by
  cases h with
  | emptyAgain hcell => exact ⟨rfl, .inl hcell⟩
  | built => exact ⟨rfl, .inr rfl⟩
  | _ => cases hq

theorem Move.answer (h : Move sh k p sh' q) {rt : ρ} (hq : q.answer = some (.ok rt)) :
    sh'.cell = some rt ∨ p.answer = some (.ok rt) := by
  cases h with
  | hit hcell | hitAgain hcell | late hcell => cases hq; exact .inl hcell
  | stored => cases hq; exact .inl rfl
  | unlock => exact .inr hq
  | _ => cases hq

theorem Move.store {rt : ρ} (h : Move sh k p sh' q) (hp : p = .store rt) (hcell : sh.cell = none) :
    sh'.cell = some rt := by
  cases h with
  | stored => cases hp; rfl
  | late hsome => rw [hcell] at hsome; cases hsome
  | _ => cases hp

end Moves

/-- **One step keeps the invariant.** -/
theorem Inv.step (h : Inv s) (hstep : step s a = some t) : Inv t := by
  obtain ⟨q, hmove, hpc⟩ := step_cases hstep
  have hself : t.pc a.caller = q := by rw [hpc, Function.update_self]
  have hother : ∀ j, j ≠ a.caller → t.pc j = s.pc j := fun j hj => by
    rw [hpc, Function.update_of_ne hj]
  -- whoever builds or stores has the lock
  have hsole : ∀ j, (s.pc j).building = true → (s.pc a.caller).building = true → j = a.caller :=
    fun j hj hk => h.holder_unique (Pc.holds_of_building hj) (Pc.holds_of_building hk)
  refine ⟨fun j => ?_, fun j hj => ?_, fun j rt hj => ?_, fun rt hrt => ?_, fun j rt hj => ?_,
    fun rt hrt => ?_⟩
  · rw [hmove.holder (h.lock a.caller)]
    by_cases hj : j = a.caller
    · rw [if_pos hj, hj, hself]
    · rw [if_neg hj, hother j hj, h.lock j]
  · by_cases hk : j = a.caller
    · rw [hk, hself] at hj
      obtain ⟨heq, hnone | hp⟩ := hmove.building hj
      · exact heq.trans hnone
      · exact heq.trans (h.empty _ hp)
    · rw [hother j hk] at hj
      rcases hmove.cell with heq | ⟨rt, hp, -⟩
      · exact heq.trans (h.empty j hj)
      · exact absurd (hsole j hj (by rw [hp]; rfl)) hk
  · have hold : (s.pc j).answer = some (.ok rt) → t.cell = some rt := by
      intro hj
      have hcell := h.answered j rt hj
      rcases hmove.cell with heq | ⟨_, -, -, hnone, -⟩
      · exact heq.trans hcell
      · rw [hnone] at hcell
        cases hcell
    by_cases hk : j = a.caller
    · rw [hk, hself] at hj
      exact (hmove.answer hj).elim id fun hp => hold (hk ▸ hp)
    · exact hold (hother j hk ▸ hj)
  · rcases hmove.built_cases with ⟨heq, -⟩ | ⟨rt', hp, hq, hbuilt⟩
    · rcases h.built rt (heq ▸ hrt) with hcell | ⟨j, hj⟩
      · rcases hmove.cell with heq | ⟨_, -, -, hnone, -⟩
        · exact .inl (heq.trans hcell)
        · rw [hnone] at hcell
          cases hcell
      · by_cases hk : j = a.caller
        · subst hk
          exact .inl (hmove.store hj (h.empty _ (by rw [hj]; rfl)))
        · exact .inr ⟨j, (hother j hk).trans hj⟩
    · rw [hbuilt, h.built_nil hp] at hrt
      exact .inr ⟨a.caller, by rw [hself, hq, List.mem_singleton.1 hrt]⟩
  · rcases hmove.built_cases with ⟨heq, hq⟩ | ⟨rt', hp, hq, hbuilt⟩
    · have hk : j ≠ a.caller := fun hk => hq rt (by rw [← hself, ← hk, hj])
      exact heq.trans (h.stores j rt ((hother j hk).symm.trans hj))
    · rw [hbuilt, h.built_nil hp]
      by_cases hk : j = a.caller
      · rw [hk, hself, hq] at hj
        cases hj
        rfl
      · rw [hother j hk] at hj
        exact absurd (hsole j (by rw [hj]; rfl) (by rw [hp]; rfl)) hk
  · rcases hmove.cell with heq | ⟨rt', hp, hq, -, hcell⟩
    · have hs := heq.symm.trans hrt
      rcases hmove.built_cases with ⟨hbuilt, -⟩ | ⟨_, hp, -⟩
      · exact hbuilt.trans (h.cell rt hs)
      · rw [h.empty a.caller (by rw [hp]; rfl)] at hs
        cases hs
    · cases hcell.symm.trans hrt
      rcases hmove.built_cases with ⟨hbuilt, -⟩ | ⟨_, -, hq', -⟩
      · exact hbuilt.trans (h.stores _ _ hp)
      · rw [hq] at hq'
        cases hq'

/-! ### The threads are the object -/

/-- What a move is to the object: nothing, or the whole call. -/
theorem Move.atomic {sh sh' : Shared ρ} {k : ℕ} {p q : Pc ρ} (h : Move sh k p sh' q)
    (hempty : p.building = true → sh.cell = none) :
    q.answer = p.answer ∧ sh'.cell = sh.cell ∨
      p.answer = none ∧
        ((∃ rt, sh.cell = some rt ∧ sh'.cell = some rt ∧ q.answer = some (.ok rt)) ∨
          ∃ o, sh.cell = none ∧ sh'.cell = o.kept ∧ q.answer = some o) := by
  cases h with
  | call | empty | acquire | emptyAgain | built | unlock => exact .inl ⟨rfl, rfl⟩
  | hit hcell | hitAgain hcell => exact .inr ⟨rfl, .inl ⟨_, hcell, hcell, rfl⟩⟩
  | fails => exact .inr ⟨rfl, .inr ⟨.error _, hempty rfl, hempty rfl, rfl⟩⟩
  | panics => exact .inr ⟨rfl, .inr ⟨.panicked, hempty rfl, hempty rfl, rfl⟩⟩
  | late hcell =>
    rw [hempty rfl] at hcell
    cases hcell
  | stored hcell => exact .inr ⟨rfl, .inr ⟨.ok _, hcell, rfl, rfl⟩⟩

theorem atomic_of_step (h : Inv s) (hstep : LazyRuntime.step s a = some t) :
    t.atomic = s.atomic ∨ ∃ b : Atomic.Action ρ, b.caller = a.caller ∧
      Atomic.step s.atomic b = some t.atomic := by
  obtain ⟨q, hmove, hpc⟩ := step_cases hstep
  have hatomic : t.atomic =
      ⟨t.cell, Function.update s.atomic.answer a.caller q.answer⟩ := by
    rw [State.atomic, hpc]
    exact congrArg _ (Function.comp_update Pc.answer s.pc a.caller q)
  rcases hmove.atomic (h.empty a.caller) with
    ⟨hanswer, hcell⟩ | ⟨hnone, ⟨rt, hcell, hcell', hanswer⟩ | ⟨o, hcell, hcell', hanswer⟩⟩
  · left
    rw [hatomic, hanswer, hcell]
    exact congrArg _ (Function.update_eq_self a.caller s.atomic.answer)
  · refine .inr ⟨.hit a.caller, rfl, ?_⟩
    have hundecided : s.atomic.answer a.caller = none := hnone
    have hfound : s.atomic.cell = some rt := hcell
    rw [hatomic, hanswer, hcell']
    simp only [Atomic.step, hundecided, hfound]
  · refine .inr ⟨.miss a.caller o, rfl, ?_⟩
    have hundecided : s.atomic.answer a.caller = none := hnone
    have hfound : s.atomic.cell = none := hcell
    rw [hatomic, hanswer, hcell']
    simp only [Atomic.step, hundecided, hfound]

/-- A call that has the lock can go on, and so can any other as long as the lock is free. -/
theorem exists_advance (sh : Shared ρ) (k : ℕ) {p : Pc ρ}
    (h : p.holds = true ∨ p.running = true ∧ sh.holder = none) :
    ∃ op, (advance sh k p op).isSome := by
  cases p with
  | idle | returned | panicked => rcases h with h | ⟨h, -⟩ <;> cases h
  | first | second =>
    refine ⟨.look, ?_⟩
    simp only [advance]
    split <;> rfl
  | lock =>
    obtain ⟨-, hfree⟩ := h.resolve_left (by rintro ⟨⟩)
    exact ⟨.acquire, by simp [advance, hfree]⟩
  | build => exact ⟨.panics, rfl⟩
  | store rt =>
    refine ⟨.getOrInit, ?_⟩
    simp only [advance]
    split <;> rfl
  | leaving r => exact ⟨.unlock, rfl⟩

theorem Pc.running_of_holds {pc : Pc ρ} (h : pc.holds = true) : pc.running = true := by
  cases pc <;> first | rfl | cases h

/-- The calls are never stuck. -/
theorem Inv.exists_step (h : Inv s) {k : ℕ} (hk : (s.pc k).running = true) :
    ∃ a : Action ρ, (s.pc a.caller).running = true ∧ (LazyRuntime.step s a).isSome := by
  obtain ⟨j, hj, hready⟩ : ∃ j, (s.pc j).running = true ∧
      ((s.pc j).holds = true ∨ (s.pc j).running = true ∧ s.holder = none) := by
    cases hholder : s.holder with
    | none => exact ⟨k, hk, .inr ⟨hk, rfl⟩⟩
    | some j =>
      have hj := (h.lock j).2 hholder
      exact ⟨j, Pc.running_of_holds hj, .inl hj⟩
  obtain ⟨op, hop⟩ := exists_advance s.toShared j hready
  refine ⟨⟨j, op⟩, hj, ?_⟩
  rw [LazyRuntime.step, Option.isSome_map]
  exact hop

end Steps

/-- **`get` is atomic.**  Whatever the threads do, in any order and with builds that fail or panic,
they do what the object does with one call after the other, each at one of the steps the call itself
makes.  No two calls build at once, one runtime is built at most, every call that succeeds returns
it, and as long as a call is under way one can go on. -/
theorem get_atomic (schedule : List (Action ρ)) (s : State ρ)
    (hrun : runs step init schedule = some s) :
    (∃ history, runs Atomic.step Atomic.init history = some s.atomic ∧
        (history.map Atomic.Action.caller).Sublist (schedule.map Action.caller)) ∧
      (∀ j k, (s.pc j).building = true → (s.pc k).building = true → j = k) ∧
      s.built.length ≤ 1 ∧ (∀ k rt, s.pc k = .returned (.ok rt) → s.built = [rt]) ∧
      ∀ k, (s.pc k).running = true →
        ∃ a : Action ρ, (s.pc a.caller).running = true ∧ (step s a).isSome := by
  have hinv : Inv s := runs_invariant (fun _ _ _ h hstep => h.step hstep) hrun inv_init
  refine ⟨?_, fun j k hj hk => ?_, ?_, fun k rt hk => ?_, fun k hk => hinv.exists_step hk⟩
  · exact runs_refines (f := State.atomic) (r := Action.caller) (fun _ _ _ h hstep => h.step hstep)
      (fun _ _ _ h hstep => atomic_of_step h hstep) hrun inv_init
  · exact hinv.holder_unique (Pc.holds_of_building hj) (Pc.holds_of_building hk)
  · exact hinv.built_length
  · exact hinv.cell rt (hinv.answered k rt (by rw [hk]; rfl))

/-- Two calls find the cell empty; the build of one panics, that of the other fails.  A third one
builds the runtime, and a fourth finds it. -/
def retried : List (Action ℕ) :=
  [⟨0, .call⟩, ⟨1, .call⟩, ⟨0, .look⟩, ⟨1, .look⟩, ⟨0, .acquire⟩, ⟨0, .look⟩, ⟨0, .panics⟩,
    ⟨1, .acquire⟩, ⟨1, .look⟩, ⟨2, .call⟩, ⟨1, .builds (.error "no threads")⟩, ⟨2, .look⟩,
    ⟨1, .unlock⟩, ⟨2, .acquire⟩, ⟨2, .look⟩, ⟨2, .builds (.ok 7)⟩, ⟨2, .getOrInit⟩, ⟨3, .call⟩,
    ⟨3, .look⟩, ⟨2, .unlock⟩]

theorem get_atomic_retried : ∃ s, runs step init retried = some s ∧ s.poisoned = true ∧
    s.pc 0 = .panicked ∧ s.pc 1 = .returned (.error "no threads") ∧ s.pc 2 = .returned (.ok 7) ∧
    s.pc 3 = .returned (.ok 7) ∧ s.built = [7] :=
  let h := get_atomic retried _ rfl
  ⟨_, rfl, rfl, rfl, rfl, rfl, rfl, h.2.2.2.1 3 7 rfl⟩

end QuicTunnel.Ffi.LazyRuntime
