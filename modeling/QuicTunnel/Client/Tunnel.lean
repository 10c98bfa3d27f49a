import QuicTunnel.Base.Watch
import QuicTunnel.Client.Moves

/-!
# The connection tasks of a tunnel

`TunnelClient::run` (`tunnel-client/src/client.rs`): one task per relay address, and a second one
with a secondary identity, spawned into a `JoinSet`; a side map from task ids to the connection each
task drives; and a loop that joins the tasks until `stop()` is called or none is left.

* the tasks are numbered in the order they are spawned, and `ids` are the ids they are given;
* a task ends at any time and in any way, but with `Ok` only after `stop()`: that is what
  `connection_run` does (`Session.stopped_of_returned`);
* the `select!` is unbiased, so any branch that is ready may be taken.

`Inv` carries the accounting: a task that was not joined has its owner in the map, and the events
are those of the joined tasks, in the order they were joined.
-/

namespace QuicTunnel

namespace Session

open Transition

/-- **A connection task returns `Ok` only after `stop()`.** -/
theorem stopped_of_returned {cfg : Config} {schedule : List Action} {s : State}
    (hrun : runs (step cfg) (init cfg) schedule = some s) (hphase : s.phase = .returned) :
    s.stopped = true := by
  refine runs_invariant (P := fun s => s.phase = .returned → s.stopped = true)
    (fun s a t hs hstep hphase => ?_) hrun nofun hphase
  cases step_move hstep with
  | stop => rfl
  | loop _ _ hto =>
    rcases hto with rfl | ⟨-, hstopped⟩ | rfl
    · cases hphase
    · exact hstopped
    · cases hphase
  | quicStopped _ hstopped => exact hstopped
  | straggler => exact hs hphase
  | @exit p q branch outcome hpool hout =>
    by_cases houtcome : outcome = .stopped
    · exact (poolOutcome_spec hout).2.2 houtcome
    · simp only [if_neg houtcome] at hphase
      cases hphase
  | charge _ hto => rcases hto with rfl | ⟨delay, rfl⟩ <;> cases hphase
  | fallback | quicUp | quicEnded | member => cases hphase

end Session

namespace Tunnel

open Transition

/-! ### The model -/

def primaryTag : String := "PRI"

def secondaryTag : String := "SEC"

/-- What `run` reads of the client: the relay addresses, and if there is a secondary identity. -/
structure Config where
  serverAddrs : List String
  secondary : Bool

/-- The connections in the order their tasks are spawned. -/
def connections (cfg : Config) : List (String × String) :=
  cfg.serverAddrs.flatMap fun serverAddr =>
    (primaryTag, serverAddr) :: if cfg.secondary then [(secondaryTag, serverAddr)] else []

/-- How a connection task ends. -/
inductive Ending
  | ok
  | error (e : String)
  | panicked (e : String)
  | cancelled
  deriving DecidableEq

/-- A connection task, with the connection it was spawned to drive. -/
structure Task where
  tag : String
  serverAddr : String
  ending : Option Ending
  deriving DecidableEq

/-- What `run` returns. -/
inductive Outcome
  | ok
  /-- The error, with the last one that was joined as its source. -/
  | error (message : String) (source : Option String)
  deriving DecidableEq

/-- Where `run` is. -/
inductive Pc
  /-- Spawning; these connections are left. -/
  | spawning (rest : List (String × String))
  /-- At the head of the loop. -/
  | head
  /-- In the `select!`. -/
  | select
  | returned (outcome : Outcome)
  deriving DecidableEq

structure State where
  /-- `stop_tx`. -/
  stop : Watch Bool
  /-- The version the receiver of `run` has seen. -/
  seen : ℕ
  tasks : List Task
  /-- The tasks taken out of the `JoinSet`, in order. -/
  joined : List ℕ
  owners : ℕ → Option (String × String)
  lastErr : Option String
  /-- What `run` emits. -/
  log : List ConnectionEvent
  pc : Pc

def init (cfg : Config) : State :=
  ⟨.channel false, 0, [], [], fun _ => none, none, [], .spawning (connections cfg)⟩

inductive Action
  | stop
  /-- The next task is spawned; after the last one `run` subscribes to `stop_tx`. -/
  | spawn
  /-- Task `k` ends. -/
  | ends (k : ℕ) (ending : Ending)
  /-- The head of the loop. -/
  | check
  /-- `stop.changed` is ready. -/
  | stopChanged
  /-- `join_next_with_id` returns task `k`. -/
  | join (k : ℕ)
  /-- `join_next_with_id` returns `None`. -/
  | joinNone
  deriving DecidableEq

/-- Identity of the connection a finished task was driving, `"?"` when the task never registered
one. -/
def ownerOf (owners : ℕ → Option (String × String)) (id : ℕ) :
    (String × String) × (ℕ → Option (String × String)) :=
  ((owners id).getD ("?", "?"), Function.update owners id none)

/-- A task that gave up, with the cause. -/
def State.gaveUp (s : State) (id : ℕ) (cause : String) : State :=
  let (owner, owners) := ownerOf s.owners id
  { s with
    owners := owners
    log := s.log ++ [.gaveUp owner.1 owner.2 cause]
    lastErr := some cause }

/-- What the loop makes of a joined task. -/
def State.account (s : State) (id : ℕ) : Ending → State
  | .error e => s.gaveUp id e
  | .panicked e => s.gaveUp id s!"tunnel connection panicked: {e}"
  | .ok | .cancelled => { s with owners := Function.update s.owners id none }

/-- One step. -/
def step (ids : ℕ → ℕ) (s : State) : Action → Option State
  | .stop => some { s with stop := s.stop.send true }
  | .spawn =>
    match s.pc with
    | .spawning ((tag, serverAddr) :: rest) =>
      some { s with
        tasks := s.tasks ++ [⟨tag, serverAddr, none⟩]
        owners := Function.update s.owners (ids s.tasks.length) (some (tag, serverAddr))
        pc := .spawning rest }
    | .spawning [] => some { s with seen := s.stop.version, pc := .head }
    | _ => none
  | .ends k ending =>
    s.tasks[k]?.bind fun task =>
      if task.ending = none ∧ (ending = .ok → s.stop.value = true) then
        some { s with tasks := s.tasks.set k { task with ending := some ending } }
      else none
  | .check =>
    if s.pc = .head then
      some { s with pc := if s.stop.value then .returned .ok else .select }
    else none
  | .stopChanged =>
    if s.pc = .select ∧ (s.stop.changed s.seen).isSome then some { s with pc := .returned .ok }
    else none
  | .join k =>
    if s.pc = .select ∧ k ∉ s.joined then
      s.tasks[k]?.bind fun task => task.ending.map fun ending =>
        { s.account (ids k) ending with joined := s.joined ++ [k], pc := .head }
    else none
  | .joinNone =>
    if s.pc = .select ∧ ∀ k < s.tasks.length, k ∈ s.joined then
      some { s with pc := .returned (.error "all tunnel connections gave up" s.lastErr) }
    else none

/-! ### Accounting -/

/-- The event a task that ended is due. -/
def Task.gaveUp (task : Task) : Option ConnectionEvent :=
  match task.ending with
  | some (.error e) => some (.gaveUp task.tag task.serverAddr e)
  | some (.panicked e) =>
    some (.gaveUp task.tag task.serverAddr s!"tunnel connection panicked: {e}")
  | _ => none

/-- The connections still to be spawned. -/
def Pc.rest : Pc → List (String × String)
  | .spawning rest => rest
  | _ => []

structure Inv (cfg : Config) (ids : ℕ → ℕ) (s : State) : Prop where
  /-- Every task drives the connection of its number. -/
  spawned : (s.tasks.map fun task => (task.tag, task.serverAddr)) ++ s.pc.rest = connections cfg
  nodup : s.joined.Nodup
  joined : ∀ k ∈ s.joined, ∃ task, s.tasks[k]? = some task ∧ task.ending ≠ none
  owners : ∀ (k : ℕ) (task : Task), s.tasks[k]? = some task → k ∉ s.joined →
    s.owners (ids k) = some (task.tag, task.serverAddr)
  log : s.log = s.joined.filterMap fun k => s.tasks[k]?.bind Task.gaveUp
  /-- `stop_tx` says whether `stop()` was called. -/
  stop : s.stop.closed = false ∧ s.seen ≤ s.stop.version ∧
    (s.stop.version ≠ 0 → s.stop.value = true)
  ended : ∀ task ∈ s.tasks, task.ending = some .ok → s.stop.value = true
  /-- The loop does not go on after a task that returned `Ok`. -/
  select : s.pc = .select → ∀ k ∈ s.joined, ∀ task, s.tasks[k]? = some task →
    task.ending ≠ some .ok
  returned : s.pc = .returned .ok → s.stop.value = true
  gaveUp : ∀ message source, s.pc = .returned (.error message source) →
    ∀ task ∈ s.tasks, task.ending ≠ none ∧ task.ending ≠ some .ok

theorem inv_init (cfg : Config) (ids : ℕ → ℕ) : Inv cfg ids (init cfg) := by
  constructor <;> simp [init, Pc.rest, Watch.channel]

section Steps

variable {cfg : Config} {ids : ℕ → ℕ} {s t : State} {k : ℕ}

/-- The events are the same where the joined tasks are. -/
theorem Inv.log_congr (h : Inv cfg ids s) {tasks : List Task}
    (htasks : ∀ k ∈ s.joined, tasks[k]? = s.tasks[k]?) :
    s.log = s.joined.filterMap fun k => tasks[k]?.bind Task.gaveUp := by
  rw [h.log]
  exact List.filterMap_congr fun k hk => by rw [htasks k hk]

theorem Inv.lt_of_joined (h : Inv cfg ids s) (hk : k ∈ s.joined) : k < s.tasks.length := by
  obtain ⟨task, htask, -⟩ := h.joined k hk
  exact (List.getElem?_eq_some_iff.1 htask).1

/-- A step of `run` that only moves on. -/
theorem Inv.goto (h : Inv cfg ids s) {pc : Pc} (hrest : s.pc.rest = pc.rest)
    (hselect : pc = .select → ∀ k ∈ s.joined, ∀ task, s.tasks[k]? = some task →
      task.ending ≠ some .ok)
    (hreturned : pc = .returned .ok → s.stop.value = true)
    (hgaveUp : ∀ message source, pc = .returned (.error message source) →
      ∀ task ∈ s.tasks, task.ending ≠ none ∧ task.ending ≠ some .ok) :
    Inv cfg ids { s with pc := pc } :=
  ⟨hrest ▸ h.spawned, h.nodup, h.joined, h.owners, h.log, h.stop, h.ended, hselect, hreturned,
    hgaveUp⟩

theorem Inv.stopCalled (h : Inv cfg ids s) : Inv cfg ids { s with stop := s.stop.send true } where
  spawned := h.spawned
  nodup := h.nodup
  joined := h.joined
  owners := h.owners
  log := h.log
  stop := ⟨h.stop.1, Nat.le_succ_of_le h.stop.2.1, fun _ => rfl⟩
  ended _ _ _ := rfl
  select := h.select
  returned _ := rfl
  gaveUp := h.gaveUp

/-- A new task has its owner in the map, under an id no other task has. -/
theorem Inv.spawn (h : Inv cfg ids s) (hids : ids.Injective) {tag serverAddr : String}
    {rest : List (String × String)} (hpc : s.pc = .spawning ((tag, serverAddr) :: rest)) :
    Inv cfg ids { s with
      tasks := s.tasks ++ [⟨tag, serverAddr, none⟩]
      owners := Function.update s.owners (ids s.tasks.length) (some (tag, serverAddr))
      pc := .spawning rest } := by
  have hold : ∀ k ∈ s.joined, (s.tasks ++ [(⟨tag, serverAddr, none⟩ : Task)])[k]? = s.tasks[k]? :=
    fun k hk => List.getElem?_append_left (h.lt_of_joined hk)
  refine ⟨?_, h.nodup, fun k hk => ?_, fun k task htask hk => ?_, h.log_congr hold, h.stop,
    fun task htask hok => ?_, nofun, nofun, nofun⟩
  · rw [← h.spawned, hpc, List.map_append, List.append_assoc]
    rfl
  · rw [hold k hk]
    exact h.joined k hk
  · by_cases hlt : k < s.tasks.length
    · have hne : ids k ≠ ids s.tasks.length := fun heq => Nat.ne_of_lt hlt (hids heq)
      rw [List.getElem?_append_left hlt] at htask
      exact (Function.update_of_ne hne _ _).trans (h.owners k task htask hk)
    · obtain rfl : k = s.tasks.length := by
        have := (List.getElem?_eq_some_iff.1 htask).1
        rw [List.length_append, List.length_singleton] at this
        omega
      rw [List.getElem?_concat_length] at htask
      cases htask
      exact Function.update_self ..
  · rcases List.mem_append.1 htask with htask | htask
    · exact h.ended task htask hok
    · rw [List.mem_singleton.1 htask] at hok
      cases hok

/-- A task ends; it was not joined before. -/
theorem Inv.ends (h : Inv cfg ids s) {task : Task} {ending : Ending}
    (htask : s.tasks[k]? = some task) (hnone : task.ending = none)
    (hok : ending = .ok → s.stop.value = true) :
    Inv cfg ids { s with tasks := s.tasks.set k { task with ending := some ending } } := by
  have hlt := (List.getElem?_eq_some_iff.1 htask).1
  have hk : k ∉ s.joined := by
    intro hk
    obtain ⟨task', htask', hended⟩ := h.joined k hk
    rw [htask] at htask'
    cases htask'
    exact hended hnone
  have hold : ∀ j ∈ s.joined,
      (s.tasks.set k { task with ending := some ending })[j]? = s.tasks[j]? := by
    intro j hj
    refine List.getElem?_set_ne ?_
    rintro rfl
    exact hk hj
  refine ⟨?_, h.nodup, fun j hj => ?_, fun j task' htask' hj => ?_, h.log_congr hold, h.stop,
    fun task' htask' hok' => ?_, fun hpc j hj => ?_, h.returned, fun message source hpc => ?_⟩
  · rw [List.map_set, ← h.spawned]
    congr 1
    refine List.ext_getElem? fun j => ?_
    by_cases hkj : k = j
    · subst hkj
      rw [List.getElem?_set_self (by rw [List.length_map]; exact hlt), List.getElem?_map, htask]
      rfl
    · rw [List.getElem?_set_ne hkj]
  · rw [hold j hj]
    exact h.joined j hj
  · by_cases hkj : k = j
    · subst hkj
      rw [List.getElem?_set_self hlt] at htask'
      cases htask'
      exact h.owners k task htask hj
    · rw [List.getElem?_set_ne hkj] at htask'
      exact h.owners j task' htask' hj
  · rcases List.mem_or_eq_of_mem_set htask' with htask' | rfl
    · exact h.ended task' htask' hok'
    · exact hok (Option.some.inj hok')
  · rw [hold j hj]
    exact h.select hpc j hj
  · exact absurd hnone (h.gaveUp message source hpc task (List.mem_of_getElem? htask)).1

/-- What joining a task emits is what the task is due. -/
theorem Inv.account (h : Inv cfg ids s) {task : Task} {ending : Ending}
    (htask : s.tasks[k]? = some task) (hk : k ∉ s.joined) (hended : task.ending = some ending) :
    s.account (ids k) ending = { s with
      owners := Function.update s.owners (ids k) none
      lastErr := (s.account (ids k) ending).lastErr
      log := s.log ++ task.gaveUp.toList } := by
  have howner := h.owners k task htask hk
  cases ending with
  | ok | cancelled =>
    have hnone : task.gaveUp = none := by rw [Task.gaveUp, hended]
    rw [hnone, Option.toList_none, List.append_nil]
    rfl
  | error e | panicked e =>
    simp only [State.account, State.gaveUp, ownerOf, howner, Task.gaveUp, hended, Option.getD_some]
    rfl

/-- A joined task is accounted for once. -/
theorem Inv.join (h : Inv cfg ids s) (hids : ids.Injective) {task : Task} {ending : Ending}
    (hpc : s.pc = .select) (htask : s.tasks[k]? = some task) (hk : k ∉ s.joined)
    (hended : task.ending = some ending) :
    Inv cfg ids { s.account (ids k) ending with joined := s.joined ++ [k], pc := .head } := by
  rw [h.account htask hk hended]
  refine ⟨?_, ?_, fun j hj => ?_, fun j task' htask' hj => ?_, ?_, h.stop, h.ended, nofun, nofun,
    nofun⟩
  · have hspawned := h.spawned
    rw [hpc] at hspawned
    exact hspawned
  · exact List.Nodup.append h.nodup (List.nodup_singleton k)
      (List.disjoint_singleton.2 hk)
  · rcases List.mem_append.1 hj with hj | hj
    · exact h.joined j hj
    · rw [List.mem_singleton.1 hj]
      exact ⟨task, htask, by rw [hended]; nofun⟩
  · obtain ⟨hj, hjk⟩ : j ∉ s.joined ∧ j ≠ k := by
      simpa [not_or] using hj
    exact (Function.update_of_ne (fun heq => hjk (hids heq)) _ _).trans (h.owners j task' htask' hj)
  · rw [List.filterMap_append, ← h.log]
    simp only [List.filterMap_cons, List.filterMap_nil, htask, Option.bind_some]
    cases task.gaveUp <;> rfl

/-- The `JoinSet` is empty only when every task was joined, and none of them with `Ok`. -/
theorem Inv.joinNone (h : Inv cfg ids s) (hpc : s.pc = .select)
    (hall : ∀ k < s.tasks.length, k ∈ s.joined) {message : String} {source : Option String} :
    Inv cfg ids { s with pc := .returned (.error message source) } := by
  refine h.goto (by rw [hpc]; rfl) nofun nofun fun _ _ _ task htask => ?_
  obtain ⟨k, hk⟩ := List.mem_iff_getElem?.1 htask
  have hjoined := hall k (List.getElem?_eq_some_iff.1 hk).1
  obtain ⟨task', htask', hended⟩ := h.joined k hjoined
  rw [hk] at htask'
  cases htask'
  exact ⟨hended, h.select hpc k hjoined task hk⟩

/-- **Every step keeps the accounts.** -/
theorem Inv.step (hids : ids.Injective) {a : Action} (h : Inv cfg ids s)
    (hstep : step ids s a = some t) : Inv cfg ids t := by
  cases a with
  | stop =>
    cases hstep
    exact h.stopCalled
  | spawn =>
    simp only [Tunnel.step] at hstep
    split at hstep
    · rename_i hpc
      cases hstep
      exact h.spawn hids hpc
    · rename_i hpc
      cases hstep
      have hgoto : Inv cfg ids { s with pc := .head } :=
        h.goto (by rw [hpc]; rfl) nofun nofun nofun
      exact ⟨hgoto.spawned, h.nodup, h.joined, h.owners, h.log,
        ⟨h.stop.1, Nat.le_refl _, h.stop.2.2⟩, h.ended, nofun, nofun, nofun⟩
    · cases hstep
  | ends k ending =>
    obtain ⟨task, htask, hstep⟩ := Option.bind_eq_some_iff.1 hstep
    split_ifs at hstep with hc
    cases hstep
    exact h.ends htask hc.1 hc.2
  | check =>
    simp only [Tunnel.step] at hstep
    split_ifs at hstep with hpc hstop
    · cases hstep
      exact h.goto (by rw [hpc]; rfl) nofun (fun _ => hstop) nofun
    · cases hstep
      refine h.goto (by rw [hpc]; rfl) (fun _ k _ task htask hok => ?_) nofun nofun
      exact hstop (h.ended task (List.mem_of_getElem? htask) hok)
  | stopChanged =>
    simp only [Tunnel.step] at hstep
    split_ifs at hstep with hc
    cases hstep
    obtain ⟨hpc, hchanged⟩ := hc
    refine h.goto (by rw [hpc]; rfl) nofun (fun _ => h.stop.2.2 fun hzero => ?_) nofun
    have hseen : s.seen = 0 := Nat.le_zero.1 (hzero ▸ h.stop.2.1)
    simp [Watch.changed, hzero, hseen, h.stop.1] at hchanged
  | join k =>
    simp only [Tunnel.step] at hstep
    split_ifs at hstep with hc
    obtain ⟨task, htask, hstep⟩ := Option.bind_eq_some_iff.1 hstep
    obtain ⟨ending, hended, rfl⟩ := Option.map_eq_some_iff.1 hstep
    exact h.join hids hc.1 htask hc.2 hended
  | joinNone =>
    simp only [Tunnel.step] at hstep
    split_ifs at hstep with hc
    cases hstep
    exact h.joinNone hc.1 hc.2

@[simp] theorem account_stop (s : State) (id : ℕ) (ending : Ending) :
    (s.account id ending).stop = s.stop := by
  cases ending <;> rfl

@[simp] theorem account_tasks (s : State) (id : ℕ) (ending : Ending) :
    (s.account id ending).tasks = s.tasks := by
  cases ending <;> rfl

/-- Only `stop()` writes `stop_tx`, and a task is ended by its own ending. -/
theorem step_frame {a : Action} (hstep : step ids s a = some t) :
    (a = .stop ∨ t.stop = s.stop) ∧ ∀ task ∈ t.tasks, task ∈ s.tasks ∨ task.ending = none ∨
      ∃ k ending, a = .ends k ending ∧ task.ending = some ending := by
  cases a with
  | stop =>
    cases hstep
    exact ⟨.inl rfl, fun _ h => .inl h⟩
  | spawn =>
    simp only [step] at hstep
    split at hstep <;> cases hstep
    · refine ⟨.inr rfl, fun task htask => ?_⟩
      rcases List.mem_append.1 htask with htask | htask
      · exact .inl htask
      · rw [List.mem_singleton.1 htask]
        exact .inr (.inl rfl)
    · exact ⟨.inr rfl, fun _ h => .inl h⟩
  | ends k ending =>
    obtain ⟨task, htask, hstep⟩ := Option.bind_eq_some_iff.1 hstep
    split_ifs at hstep
    cases hstep
    refine ⟨.inr rfl, fun task' htask' => ?_⟩
    rcases List.mem_or_eq_of_mem_set htask' with htask' | rfl
    · exact .inl htask'
    · exact .inr (.inr ⟨k, ending, rfl, rfl⟩)
  | check | stopChanged | joinNone =>
    simp only [step] at hstep
    split_ifs at hstep <;> cases hstep <;> exact ⟨.inr rfl, fun _ h => .inl h⟩
  | join k =>
    simp only [step] at hstep
    split_ifs at hstep
    obtain ⟨task, htask, hstep⟩ := Option.bind_eq_some_iff.1 hstep
    obtain ⟨ending, hended, rfl⟩ := Option.map_eq_some_iff.1 hstep
    exact ⟨.inr (account_stop ..), fun _ h => .inl (by simpa using h)⟩

end Steps

/-! ### Runs -/

/-- What holds of the accounts in a state reached by the schedule. -/
structure Accounted (cfg : Config) (ids : ℕ → ℕ) (schedule : List Action) (s : State) : Prop where
  /-- Each task drives its own connection. -/
  tasks : (s.tasks.map fun task => (task.tag, task.serverAddr)) <+: connections cfg
  /-- The events are those of the joined tasks: one for each that failed or panicked, with its own
  tag and address, and none for any other. -/
  once : s.joined.Nodup
  gaveUp : s.log = s.joined.filterMap fun k => s.tasks[k]?.bind Task.gaveUp
  /-- A task that is joined has its owner in the map. -/
  owner : ∀ k t, step ids s (.join k) = some t → ∃ task, s.tasks[k]? = some task ∧
    s.owners (ids k) = some (task.tag, task.serverAddr)
  /-- An error is returned only when all tasks failed or panicked. -/
  error : ∀ message source, s.pc = .returned (.error message source) →
    s.tasks.length = (connections cfg).length ∧
      ∀ task ∈ s.tasks, ∃ e, task.ending = some (.error e) ∨ task.ending = some (.panicked e)
  ok : s.pc = .returned .ok → .stop ∈ schedule

/-- **The accounts of `run`.**  Where the tasks have distinct ids and none is cancelled, every
schedule of endings, joins and `stop()` leaves the accounts in order. -/
theorem run_accounted (cfg : Config) (ids : ℕ → ℕ) (hids : ids.Injective) (schedule : List Action)
    (hcancelled : ∀ k, .ends k .cancelled ∉ schedule) (s : State)
    (hrun : runs (step ids) (init cfg) schedule = some s) : Accounted cfg ids schedule s := by
  have h : Inv cfg ids s :=
    runs_invariant (fun _ _ _ hs hstep => hs.step hids hstep) hrun (inv_init cfg ids)
  have hends : ∀ task ∈ s.tasks, task.ending ≠ some .cancelled := by
    refine runs_invariant_of_forall (P := fun s => ∀ task ∈ s.tasks, task.ending ≠ some .cancelled)
      (H := fun a => ∀ k, a ≠ .ends k .cancelled) (fun u a v hu ha hstep task htask => ?_) hrun
      (fun a ha k heq => hcancelled k (heq ▸ ha)) nofun
    rcases (step_frame hstep).2 task htask with htask | hnone | ⟨k, ending, rfl, hended⟩
    · exact hu task htask
    · rw [hnone]
      nofun
    · rw [hended]
      exact fun heq => ha k (by rw [Option.some.inj heq])
  refine ⟨⟨_, h.spawned⟩, h.nodup, h.log, fun k t hstep => ?_, fun message source hpc => ?_,
    fun hpc => ?_⟩
  · simp only [step] at hstep
    split_ifs at hstep with hc
    obtain ⟨task, htask, -⟩ := Option.bind_eq_some_iff.1 hstep
    exact ⟨task, htask, h.owners k task htask hc.2⟩
  · have hspawned := h.spawned
    rw [hpc] at hspawned
    refine ⟨by rw [← hspawned]; simp [Pc.rest], fun task htask => ?_⟩
    obtain ⟨hnone, hok⟩ := h.gaveUp message source hpc task htask
    have hnot := hends task htask
    cases hending : task.ending with
    | none => exact absurd hending hnone
    | some ending =>
      cases ending with
      | ok => exact absurd hending hok
      | error e => exact ⟨e, .inl rfl⟩
      | panicked e => exact ⟨e, .inr rfl⟩
      | cancelled => exact absurd hending hnot
  · obtain ⟨before, a, after, u, v, rfl, -, hu, hstep, hv, -⟩ := exists_step_of_runs
      (P := fun s => s.stop.value = true) hrun Bool.false_ne_true (h.returned hpc)
    rcases (step_frame hstep).1 with rfl | hsame
    · simp
    · rw [hsame] at hv
      exact absurd hv hu

/-- Two addresses and a secondary identity; one task panics and is joined while the others run, one
fails and is not joined before `stop()`. -/
def panicThenStop : List Action :=
  [.spawn, .spawn, .ends 1 (.panicked "index out of bounds"), .spawn, .spawn, .spawn, .check,
    .join 1, .ends 2 (.error "giving up after 3 failed attempts"), .check, .stop, .ends 0 .ok,
    .join 0, .check]

theorem run_accounted_panicThenStop :
    ∃ s, runs (step id) (init ⟨["10.0.0.1:4433", "10.0.0.2:4433"], true⟩) panicThenStop = some s ∧
      s.pc = .returned .ok ∧ s.joined = [1, 0] ∧
      s.log = [.gaveUp "SEC" "10.0.0.1:4433" "tunnel connection panicked: index out of bounds"] ∧
      .stop ∈ panicThenStop ∧ s.joined.Nodup :=
  let h := run_accounted ⟨["10.0.0.1:4433", "10.0.0.2:4433"], true⟩ id Function.injective_id
    panicThenStop (by simp [panicThenStop]) _ rfl
  ⟨_, rfl, rfl, rfl, rfl, h.ok rfl, h.once⟩

end Tunnel

end QuicTunnel
