import QuicTunnel.Relay.Handler

/-!
# The agent registry

`AgentPool` (`tunnel-server/src/lib.rs`), `register` and the clean-up it spawns
(`tunnel-server/src/util.rs`), and the pick of an agent for a user (`handle_public`), for any type
of agents.  An operation on the map is one step; the clean-up is two, and anything may happen
between them.

`State.tasks` keeps every registration in order, with how far its clean-up has come.  The registry
is a function of it: `State.entries id` is `linked id s.tasks` as long as no uid is drawn twice.

The last section is the registry of the relay's model: its runs are runs of this one.
-/

namespace QuicTunnel.Relay.Registry

open Transition

variable {Agent : Type*}

/-! ### Pools -/

structure AgentPool (Agent : Type*) where
  /-- A machine word. -/
  counter : ℕ
  agents : List (ℕ × Agent)

namespace AgentPool

variable (pool : AgentPool Agent)

def default : AgentPool Agent := ⟨0, []⟩

def push (uid : ℕ) (agent : Agent) : AgentPool Agent :=
  { pool with agents := pool.agents ++ [(uid, agent)] }

def remove (uid : ℕ) : AgentPool Agent := { pool with agents := pool.agents.filter (·.1 != uid) }

def isEmpty : Bool := pool.agents.isEmpty

/-- The next agent in turn, and the pool with its counter moved on. -/
def nextAgent : Option (Agent × AgentPool Agent) :=
  pool.agents[pool.counter % pool.agents.length]?.map fun entry =>
    (entry.2, { pool with counter := (pool.counter + 1) % 2 ^ 64 })

end AgentPool

/-! ### Registrations and clean-ups -/

/-- How far the clean-up of a registration has come. -/
inductive Stage
  | linked
  | unlinked
  | swept
  deriving DecidableEq

/-- A call of `register` and the task it spawned. -/
structure Registration (Agent : Type*) where
  id : String
  uid : ℕ
  agent : Agent
  stage : Stage

structure State (Agent : Type*) where
  agents : String → Option (AgentPool Agent)
  tasks : List (Registration Agent)

def init : State Agent := ⟨fun _ => none, []⟩

inductive Action (Agent : Type*)
  /-- `register` pushes its agent. -/
  | register (id : String) (uid : ℕ) (agent : Agent)
  /-- The task of registration `k` removes its agent from the pool. -/
  | unlink (k : ℕ)
  /-- The task removes the pool if it is empty. -/
  | sweep (k : ℕ)
  /-- A user of the client is routed. -/
  | pick (id : String)

/-- What a `register` call registers. -/
def Action.registered? : Action Agent → Option (String × ℕ × Agent)
  | .register id uid agent => some (id, uid, agent)
  | _ => none

/-- `get_mut` and `remove`. -/
def unlink (agents : String → Option (AgentPool Agent)) (id : String) (uid : ℕ) :
    String → Option (AgentPool Agent) :=
  Function.update agents id ((agents id).map (·.remove uid))

/-- `remove_if`. -/
def sweep (agents : String → Option (AgentPool Agent)) (id : String) :
    String → Option (AgentPool Agent) :=
  Function.update agents id ((agents id).filter (!·.isEmpty))

def step (s : State Agent) : Action Agent → Option (State Agent)
  | .register id uid agent =>
    some ⟨Function.update s.agents id (some (((s.agents id).getD .default).push uid agent)),
      s.tasks ++ [⟨id, uid, agent, .linked⟩]⟩
  | .unlink k =>
    match s.tasks[k]? with
    | some ⟨id, uid, agent, .linked⟩ =>
      some ⟨unlink s.agents id uid, s.tasks.set k ⟨id, uid, agent, .unlinked⟩⟩
    | _ => none
  | .sweep k =>
    match s.tasks[k]? with
    | some ⟨id, uid, agent, .unlinked⟩ =>
      some ⟨sweep s.agents id, s.tasks.set k ⟨id, uid, agent, .swept⟩⟩
    | _ => none
  | .pick id =>
    (s.agents id).bind fun pool => pool.nextAgent.map fun (_, pool) =>
      { s with agents := Function.update s.agents id (some pool) }

/-- The agents of an id. -/
def State.entries (s : State Agent) (id : String) : List (ℕ × Agent) :=
  (s.agents id).elim [] (·.agents)

/-! ### What the registry should hold -/

/-- What a registration contributes to the pool of an id. -/
def Registration.entryOf (id : String) (r : Registration Agent) : Option (ℕ × Agent) :=
  if r.id = id ∧ r.stage = .linked then some (r.uid, r.agent) else none

/-- The agents registered under an id whose removal has not run, in the order they came. -/
def linked (id : String) (tasks : List (Registration Agent)) : List (ℕ × Agent) :=
  tasks.filterMap (·.entryOf id)

theorem Registration.entryOf_of_stage {id : String} {r : Registration Agent}
    (h : r.stage ≠ .linked) : r.entryOf id = none := if_neg fun hlinked => h hlinked.2

theorem Registration.entryOf_restage (id : String) (r : Registration Agent) (stage : Stage)
    (h : stage ≠ .linked) : ({ r with stage := stage } : Registration Agent).entryOf id = none :=
  if_neg fun hlinked => h hlinked.2

theorem linked_cons (id : String) (r : Registration Agent) (tasks : List (Registration Agent)) :
    linked id (r :: tasks) = (r.entryOf id).toList ++ linked id tasks := by
  unfold linked
  rw [List.filterMap_cons]
  cases r.entryOf id <;> rfl

theorem linked_append (id : String) (tasks : List (Registration Agent)) (r : Registration Agent) :
    linked id (tasks ++ [r]) = linked id tasks ++ (r.entryOf id).toList := by
  unfold linked
  rw [List.filterMap_append, List.filterMap_cons]
  cases r.entryOf id <;> rfl

theorem mem_linked {id : String} {tasks : List (Registration Agent)} {e : ℕ × Agent} :
    e ∈ linked id tasks ↔
      ∃ r ∈ tasks, (r.id = id ∧ r.stage = .linked) ∧ (r.uid, r.agent) = e := by
  simp [linked, Registration.entryOf, List.mem_filterMap]

/-- A registration that contributes nothing may go on. -/
theorem linked_restage {id : String} {tasks : List (Registration Agent)} {k : ℕ}
    {r : Registration Agent} (hr : tasks[k]? = some r) (hnone : r.entryOf id = none)
    (stage : Stage) (hstage : stage ≠ .linked) :
    linked id (tasks.set k { r with stage := stage }) = linked id tasks := by
  induction tasks generalizing k with
  | nil => rfl
  | cons head tasks ih =>
    cases k with
    | zero =>
      obtain rfl : head = r := Option.some.inj hr
      rw [List.set_cons_zero, linked_cons, linked_cons, hnone,
        Registration.entryOf_restage id head stage hstage]
    | succ k => rw [List.set_cons_succ, linked_cons, linked_cons, ih hr]

/-- A registration that is unlinked leaves its pool, and no other does. -/
theorem linked_unlink {tasks : List (Registration Agent)} {k : ℕ} {r : Registration Agent}
    (huids : (tasks.map (·.uid)).Nodup) (hr : tasks[k]? = some r) :
    linked r.id (tasks.set k { r with stage := .unlinked }) =
      (linked r.id tasks).filter (·.1 != r.uid) := by
  induction tasks generalizing k with
  | nil => cases hr
  | cons head tasks ih =>
    rw [List.map_cons, List.nodup_cons] at huids
    rw [linked_cons, List.filter_append]
    cases k with
    | zero =>
      obtain rfl : head = r := Option.some.inj hr
      have hhead : ((head.entryOf head.id).toList).filter (·.1 != head.uid) = [] := by
        unfold Registration.entryOf
        split_ifs <;> simp
      have htail : (linked head.id tasks).filter (·.1 != head.uid) = linked head.id tasks := by
        refine List.filter_eq_self.2 fun e he => ?_
        obtain ⟨r, hmem, -, rfl⟩ := mem_linked.1 he
        exact bne_iff_ne.2 fun h => huids.1 (h ▸ List.mem_map_of_mem hmem)
      rw [List.set_cons_zero, linked_cons, hhead, htail,
        Registration.entryOf_restage _ _ .unlinked nofun]
      rfl
    | succ k =>
      have hne : head.uid ≠ r.uid := fun h =>
        huids.1 (h ▸ List.mem_map_of_mem (List.mem_of_getElem? hr))
      have hhead : ((head.entryOf r.id).toList).filter (·.1 != r.uid) =
          (head.entryOf r.id).toList := by
        unfold Registration.entryOf
        split_ifs <;> simp [hne]
      rw [List.set_cons_succ, linked_cons, hhead, ih huids.2 hr]

/-! ### Runs of the registry -/

/-- The steps of the registry. -/
inductive Move (s : State Agent) : Action Agent → State Agent → Prop
  | registered (id : String) (uid : ℕ) (agent : Agent) :
    Move s (.register id uid agent)
      ⟨Function.update s.agents id (some (((s.agents id).getD .default).push uid agent)),
        s.tasks ++ [⟨id, uid, agent, .linked⟩]⟩
  | unlinked {k : ℕ} {r : Registration Agent} (hr : s.tasks[k]? = some r)
    (hstage : r.stage = .linked) :
    Move s (.unlink k)
      ⟨unlink s.agents r.id r.uid, s.tasks.set k { r with stage := .unlinked }⟩
  | swept {k : ℕ} {r : Registration Agent} (hr : s.tasks[k]? = some r)
    (hstage : r.stage = .unlinked) :
    Move s (.sweep k) ⟨sweep s.agents r.id, s.tasks.set k { r with stage := .swept }⟩
  | picked {id : String} {pool pool' : AgentPool Agent} (hpool : s.agents id = some pool)
    (hagents : pool'.agents = pool.agents) :
    Move s (.pick id) { s with agents := Function.update s.agents id (some pool') }

theorem step_move {s t : State Agent} {a : Action Agent} (h : step s a = some t) : Move s a t := by
  cases a with
  | register id uid agent =>
    cases h
    exact .registered id uid agent
  | unlink k =>
    simp only [step] at h
    split at h
    · cases h
      exact .unlinked ‹_› rfl
    · cases h
  | sweep k =>
    simp only [step] at h
    split at h
    · cases h
      exact .swept ‹_› rfl
    · cases h
  | pick id =>
    obtain ⟨pool, hpool, h⟩ := Option.bind_eq_some_iff.1 h
    obtain ⟨⟨agent, pool'⟩, hnext, rfl⟩ := Option.map_eq_some_iff.1 h
    obtain ⟨entry, -, heq⟩ := Option.map_eq_some_iff.1 hnext
    cases heq
    exact .picked hpool rfl

/-- A registration keeps what it was called with. -/
theorem Move.tasks {s t : State Agent} {a : Action Agent} (h : Move s a t) :
    t.tasks.map (fun r => (r.id, r.uid, r.agent)) =
      s.tasks.map (fun r => (r.id, r.uid, r.agent)) ++ a.registered?.toList := by
  cases h with
  | registered id uid agent => rw [List.map_append]; rfl
  | picked => exact (List.append_nil _).symm
  | unlinked hr | swept hr =>
    obtain ⟨hk, rfl⟩ := List.getElem?_eq_some_iff.1 hr
    refine Eq.trans (List.ext_getElem (by simp) fun j _ _ => ?_) (List.append_nil _).symm
    rw [List.getElem_map, List.getElem_set, List.getElem_map]
    split_ifs with hj
    · subst hj
      rfl
    · rfl

theorem entries_update (agents : String → Option (AgentPool Agent)) (id : String)
    (pool? : Option (AgentPool Agent)) (tasks : List (Registration Agent)) (id' : String) :
    (⟨Function.update agents id pool?, tasks⟩ : State Agent).entries id' =
      if id' = id then pool?.elim [] (·.agents) else (agents id').elim [] (·.agents) := by
  by_cases h : id' = id
  · subst h
    simp only [State.entries, Function.update_self, if_true]
  · simp only [State.entries, Function.update_of_ne h, if_neg h]

theorem unlink_eq_some {agents : String → Option (AgentPool Agent)} {id id' : String} {uid : ℕ}
    {pool : AgentPool Agent} (h : unlink agents id uid id' = some pool) :
    ∃ pool', agents id' = some pool' := by
  by_cases heq : id' = id
  · subst heq
    rw [unlink, Function.update_self] at h
    obtain ⟨pool', hpool', -⟩ := Option.map_eq_some_iff.1 h
    exact ⟨pool', hpool'⟩
  · rw [unlink, Function.update_of_ne heq] at h
    exact ⟨pool, h⟩

/-- What a sweep leaves was there, and is not empty if it is the pool it looked at. -/
theorem sweep_eq_some {agents : String → Option (AgentPool Agent)} {id id' : String}
    {pool : AgentPool Agent} (h : sweep agents id id' = some pool) :
    agents id' = some pool ∧ (id' = id → pool.agents ≠ []) := by
  by_cases heq : id' = id
  · subst heq
    rw [sweep, Function.update_self] at h
    obtain ⟨hpool, hfull⟩ := Option.filter_eq_some_iff.1 h
    exact ⟨hpool, fun _ hnil => by simp [AgentPool.isEmpty, hnil] at hfull⟩
  · rw [sweep, Function.update_of_ne heq] at h
    exact ⟨h, fun h => absurd h heq⟩

/-- A sweep removes no agent. -/
theorem entries_sweep (agents : String → Option (AgentPool Agent)) (id : String)
    (tasks : List (Registration Agent)) (id' : String) :
    (⟨sweep agents id, tasks⟩ : State Agent).entries id' = (agents id').elim [] (·.agents) := by
  rw [sweep, entries_update]
  split_ifs with heq
  · subst heq
    cases hpool : agents id' with
    | none => rfl
    | some pool =>
      rw [Option.filter_some]
      split_ifs with hfull
      · rfl
      · exact (List.isEmpty_iff.1 (by simpa [AgentPool.isEmpty] using hfull)).symm
  · rfl

theorem mem_set_of_ne {tasks : List (Registration Agent)} {k : ℕ} {r r' other : Registration Agent}
    (hr : tasks[k]? = some r) (hmem : other ∈ tasks) (hne : other ≠ r) :
    other ∈ tasks.set k r' := by
  obtain ⟨j, hj⟩ := List.mem_iff_getElem?.1 hmem
  refine List.mem_of_getElem? (i := j) ?_
  rw [List.getElem?_set_ne, hj]
  rintro rfl
  exact hne (Option.some.inj (hj.symm.trans hr))

/-- The registry holds what it should, and has a key only for ids with a clean-up to come. -/
structure Inv (s : State Agent) : Prop where
  entries : ∀ id, s.entries id = linked id s.tasks
  keys : ∀ id pool, s.agents id = some pool → ∃ r ∈ s.tasks, r.id = id ∧ r.stage ≠ .swept

theorem Inv.registered {s : State Agent} (h : Inv s) (id : String) (uid : ℕ) (agent : Agent) :
    Inv ⟨Function.update s.agents id (some (((s.agents id).getD .default).push uid agent)),
      s.tasks ++ [⟨id, uid, agent, .linked⟩]⟩ where
  entries id' := by
    have hold := h.entries id'
    rw [entries_update, linked_append, ← hold]
    unfold State.entries Registration.entryOf
    by_cases heq : id' = id
    · subst heq
      rw [if_pos rfl, if_pos ⟨rfl, rfl⟩]
      cases s.agents id' <;> rfl
    · rw [if_neg heq, if_neg fun hlinked => heq hlinked.1.symm]
      exact (List.append_nil _).symm
  keys := by
    refine (Function.forall_update_iff s.agents fun id pool? => ∀ pool, pool? = some pool →
      ∃ r ∈ s.tasks ++ [_], r.id = id ∧ r.stage ≠ .swept).2
      ⟨fun _ _ => ?_, fun id' _ pool hpool => ?_⟩
    · exact ⟨_, List.mem_append_right _ (List.mem_singleton.2 rfl), rfl, nofun⟩
    · obtain ⟨r, hr, hid⟩ := h.keys id' pool hpool
      exact ⟨r, List.mem_append_left _ hr, hid⟩

theorem Inv.unlinked {s : State Agent} (h : Inv s) (huids : (s.tasks.map (·.uid)).Nodup) {k : ℕ}
    {r : Registration Agent} (hr : s.tasks[k]? = some r) :
    Inv ⟨unlink s.agents r.id r.uid, s.tasks.set k { r with stage := .unlinked }⟩ where
  entries id' := by
    have hold := h.entries id'
    rw [unlink, entries_update]
    by_cases heq : id' = r.id
    · subst heq
      rw [if_pos rfl, linked_unlink huids hr, ← hold, State.entries]
      cases s.agents r.id <;> rfl
    · have hnone : r.entryOf id' = none := if_neg fun hlinked => heq hlinked.1.symm
      rw [if_neg heq, linked_restage hr hnone .unlinked nofun]
      exact hold
  keys id' pool hpool := by
    obtain ⟨pool', hpool'⟩ := unlink_eq_some hpool
    obtain ⟨other, hother, hid, hstage⟩ := h.keys id' pool' hpool'
    by_cases hne : other = r
    · subst hne
      exact ⟨_, List.mem_of_getElem? (List.getElem?_set_self (List.getElem?_eq_some_iff.1 hr).1),
        hid, nofun⟩
    · exact ⟨other, mem_set_of_ne hr hother hne, hid, hstage⟩

theorem Inv.swept {s : State Agent} (h : Inv s) {k : ℕ} {r : Registration Agent}
    (hr : s.tasks[k]? = some r) (hstage : r.stage = .unlinked) :
    Inv ⟨sweep s.agents r.id, s.tasks.set k { r with stage := .swept }⟩ where
  entries id' := by
    have hnone : r.entryOf id' = none := Registration.entryOf_of_stage (by rw [hstage]; exact nofun)
    rw [linked_restage hr hnone .swept nofun, entries_sweep]
    exact h.entries id'
  keys id' pool hpool := by
    obtain ⟨hpool, hfull⟩ := sweep_eq_some hpool
    by_cases heq : id' = r.id
    · -- The pool was not empty, so another agent of the id is linked.
      have hentries : s.entries id' = pool.agents := by rw [State.entries, hpool]; rfl
      obtain ⟨e, he⟩ := List.exists_mem_of_ne_nil _ (hfull heq)
      rw [← hentries, h.entries id'] at he
      obtain ⟨other, hother, ⟨hid, hlinked⟩, -⟩ := mem_linked.1 he
      refine ⟨other, mem_set_of_ne hr hother ?_, hid, by rw [hlinked]; exact nofun⟩
      rintro rfl
      rw [hstage] at hlinked
      cases hlinked
    · obtain ⟨other, hother, hid, hother'⟩ := h.keys id' pool hpool
      refine ⟨other, mem_set_of_ne hr hother ?_, hid, hother'⟩
      rintro rfl
      exact heq hid.symm

theorem Inv.move {s t : State Agent} {a : Action Agent} (h : Inv s) (hmove : Move s a t)
    (huids : (s.tasks.map (·.uid)).Nodup) : Inv t := by
  cases hmove with
  | registered id uid agent => exact h.registered id uid agent
  | unlinked hr => exact h.unlinked huids hr
  | swept hr hstage => exact h.swept hr hstage
  | @picked id pool pool' hpool hagents =>
    refine ⟨fun id' => ?_, ?_⟩
    · rw [entries_update, ← h.entries id', State.entries]
      split_ifs with heq
      · subst heq
        rw [hpool]
        exact hagents
      · rfl
    · exact (Function.forall_update_iff s.agents fun id pool? => ∀ pool, pool? = some pool →
        ∃ r ∈ s.tasks, r.id = id ∧ r.stage ≠ .swept).2
          ⟨fun _ _ => h.keys id pool hpool, fun id' _ => h.keys id'⟩

/-- A run keeps every registration in the order of the calls. -/
theorem tasks_of_runs {schedule : List (Action Agent)} {s t : State Agent}
    (h : runs step s schedule = some t) :
    t.tasks.map (fun r => (r.id, r.uid, r.agent)) =
      s.tasks.map (fun r => (r.id, r.uid, r.agent)) ++ schedule.filterMap (·.registered?) := by
  induction schedule generalizing s with
  | nil =>
    cases h
    simp
  | cons a schedule ih =>
    obtain ⟨u, hstep, hrest⟩ := runs_cons_eq_some h
    rw [ih hrest, (step_move hstep).tasks, List.append_assoc, List.filterMap_cons]
    cases a.registered? <;> rfl

/-- What a run keeps if no uid is drawn twice in it. -/
theorem inv_of_runs {schedule : List (Action Agent)} {s t : State Agent}
    (h : runs step s schedule = some t) (huids : (t.tasks.map (·.uid)).Nodup) (hinv : Inv s) :
    Inv t := by
  induction schedule generalizing s with
  | nil =>
    cases h
    exact hinv
  | cons a schedule ih =>
    obtain ⟨u, hstep, hrest⟩ := runs_cons_eq_some h
    have htasks := congrArg (List.map (·.2.1)) (tasks_of_runs h)
    rw [List.map_map, List.map_append, List.map_map] at htasks
    refine ih hrest (hinv.move (step_move hstep) ?_)
    exact (List.nodup_append.1 (htasks ▸ huids)).1

theorem inv_init : Inv (init : State Agent) := ⟨fun _ => rfl, nofun⟩

/-! ### Faithfulness -/

/-- What a clean-up takes out of the registry is its own agent. -/
theorem Inv.own_of_cleanUp {s t : State Agent} (h : Inv s) (huids : (s.tasks.map (·.uid)).Nodup)
    {k : ℕ} {r : Registration Agent} (hr : s.tasks[k]? = some r)
    (hstep : step s (.unlink k) = some t ∨ step s (.sweep k) = some t) {id : String}
    {e : ℕ × Agent} (he : e ∈ s.entries id) (hgone : e ∉ t.entries id) :
    id = r.id ∧ e = (r.uid, r.agent) := by
  rcases hstep with hstep | hstep
  · cases step_move hstep with
    | unlinked hr' =>
      cases hr.symm.trans hr'
      rw [unlink, entries_update] at hgone
      split_ifs at hgone with heq
      · subst heq
        have huid : e.1 = r.uid := by
          by_contra hne
          refine hgone ?_
          unfold State.entries at he
          cases hpool : s.agents r.id with
          | none => simp [hpool] at he
          | some pool =>
            rw [hpool] at he
            exact List.mem_filter.2 ⟨he, bne_iff_ne.2 hne⟩
        rw [h.entries r.id] at he
        obtain ⟨other, hother, -, rfl⟩ := mem_linked.1 he
        rw [List.inj_on_of_nodup_map huids hother (List.mem_of_getElem? hr) huid]
        exact ⟨rfl, rfl⟩
      · exact absurd he hgone
  · cases step_move hstep with
    | swept hr' =>
      rw [entries_sweep] at hgone
      exact absurd he hgone

theorem linked_uids_sublist (id : String) (tasks : List (Registration Agent)) :
    ((linked id tasks).map Prod.fst).Sublist (tasks.map (·.uid)) := by
  induction tasks with
  | nil => exact List.Sublist.slnil
  | cons r tasks ih =>
    rw [linked_cons, Registration.entryOf]
    split_ifs
    · exact ih.cons_cons r.uid
    · exact ih.cons r.uid

/-- **The registry is faithful.** Whatever registrations and clean-ups run, as long as no uid is
drawn twice: the pool of an id holds the agents registered under it whose removal has not run, each
once and in the order of their registration; a clean-up takes out nothing but its own agent; and
when every clean-up of an id is complete, the id has no key. -/
theorem registry_faithful (schedule : List (Action Agent)) (s : State Agent)
    (h : runs step init schedule = some s)
    (huids : ((schedule.filterMap (·.registered?)).map (·.2.1)).Nodup) :
    s.tasks.map (fun r => (r.id, r.uid, r.agent)) = schedule.filterMap (·.registered?) ∧
    (∀ id, s.entries id = linked id s.tasks ∧ ((s.entries id).map Prod.fst).Nodup) ∧
    (∀ (k : ℕ) (r : Registration Agent) (t : State Agent), s.tasks[k]? = some r →
      step s (.unlink k) = some t ∨ step s (.sweep k) = some t →
      ∀ id, ∀ e ∈ s.entries id, e ∉ t.entries id → id = r.id ∧ e = (r.uid, r.agent)) ∧
    ∀ id, (∀ r ∈ s.tasks, r.id = id → r.stage = .swept) → s.agents id = none := by
  have htasks : s.tasks.map (fun r => (r.id, r.uid, r.agent)) =
      schedule.filterMap (·.registered?) := tasks_of_runs h
  have huids : (s.tasks.map (·.uid)).Nodup := by
    rw [← htasks, List.map_map] at huids
    exact huids
  have hinv := inv_of_runs h huids inv_init
  refine ⟨htasks, fun id => ⟨hinv.entries id, ?_⟩, ?_, fun id hswept => ?_⟩
  · rw [hinv.entries id]
    exact huids.sublist (linked_uids_sublist id s.tasks)
  · intro k r t hr hstep id e he hgone
    exact hinv.own_of_cleanUp huids hr hstep he hgone
  · cases hpool : s.agents id with
    | none => rfl
    | some pool =>
      obtain ⟨r, hr, hid, hstage⟩ := hinv.keys id pool hpool
      exact absurd (hswept r hr hid) hstage

/-- A client reconnects while its first connection is between the two steps of its clean-up. -/
def reconnect : List (Action String) :=
  [.register "37a1" 11 "first", .pick "37a1", .unlink 0, .register "37a1" 12 "second", .sweep 0]

theorem registry_faithful_reconnect :
    ∃ s, runs step init reconnect = some s ∧ s.entries "37a1" = [(12, "second")] ∧
      ∀ id, s.entries id = linked id s.tasks ∧ ((s.entries id).map Prod.fst).Nodup := by
  have hrun : (runs step init reconnect).map (·.entries "37a1") = some [(12, "second")] := by
    decide +kernel
  obtain ⟨s, hs, hentries⟩ := Option.map_eq_some_iff.1 hrun
  obtain ⟨-, hfaithful, -⟩ := registry_faithful reconnect s hs (by decide +kernel)
  exact ⟨s, hs, hentries, hfaithful⟩

end QuicTunnel.Relay.Registry

/-! ### The registry of the relay -/

namespace QuicTunnel.Relay

open Transition

/-- What a handler has linked under its uid. -/
def Pc.linked? : Pc → Option (String × ℕ)
  | .registered id uid | .unlink id uid => some (id, uid)
  | _ => none

/-- The pool a handler has still to sweep. -/
def Pc.unlinked? : Pc → Option String
  | .sweep id => some id
  | _ => none

/-- What an operation does to the registry, if it is one of connection `k`. -/
inductive Conn.Registers (c c' : Conn) : MapOp → Prop
  | frame {op : MapOp} (hop : ∀ (s : State) (k : ℕ), (s.apply k op).agents = s.agents)
    (hlinked : ∀ link, c'.pc.linked? = some link → c.pc.linked? = some link)
    (hunlinked : ∀ id, c'.pc.unlinked? = some id → c.pc.unlinked? = some id) : Registers c c' op
  | push (id : String) (uid : ℕ) (hlinked : c'.pc.linked? = some (id, uid))
    (hunlinked : c'.pc.unlinked? = none) : Registers c c' (.push id uid)
  | remove (id : String) (uid : ℕ) (hbefore : c.pc.linked? = some (id, uid))
    (hlinked : c'.pc.linked? = none) (hunlinked : c'.pc.unlinked? = some id) :
    Registers c c' (.remove id uid)
  | removeIfEmpty (id : String) (hbefore : c.pc.unlinked? = some id)
    (hlinked : c'.pc.linked? = none) (hunlinked : c'.pc.unlinked? = none) :
    Registers c c' (.removeIfEmpty id)

theorem Conn.Move.registers {env : Env} {cfg : Config} {token : ℕ} {c c' : Conn} {i : Input}
    {op : MapOp} (hmove : c.Move env cfg token i c' op) : c.Registers c' op := by
  cases hmove with
  | data | fin => exact .frame (fun _ _ => rfl) (fun _ h => h) fun _ h => h
  | registered uid hpc => exact .push _ uid rfl rfl
  | closed hpc =>
    refine .frame (fun _ _ => rfl) (fun link h => ?_) nofun
    rw [hpc]
    exact h
  | unlinked hpc => exact .remove _ _ (by rw [hpc]; rfl) rfl rfl
  | swept hpc => exact .removeIfEmpty _ (by rw [hpc]; rfl) rfl rfl
  | removed | abandoned => exact .frame (fun s k => by rw [State.apply_pendingRemove]) nofun nofun
  | _ => exact .frame (fun _ _ => rfl) nofun nofun

/-- A state of the relay and one of the registry: the maps agree, and a handler that is registered
has its registration. -/
structure Simulates (s : State) (g : Registry.State ℕ) : Prop where
  agents : ∀ id, s.agents id = (g.agents id).map (·.agents)
  linked : ∀ (k : ℕ) (c : Conn) (id : String) (uid : ℕ), s.conns[k]? = some c →
    c.pc.linked? = some (id, uid) → ⟨id, uid, k, .linked⟩ ∈ g.tasks
  unlinked : ∀ (k : ℕ) (c : Conn) (id : String), s.conns[k]? = some c →
    c.pc.unlinked? = some id → ∃ uid, ⟨id, uid, k, .unlinked⟩ ∈ g.tasks

/-- Connection `k` takes a step, and no registration of another connection changes. -/
theorem Simulates.set {s t : State} {g g' : Registry.State ℕ} {k : ℕ} {c c' : Conn}
    (h : Simulates s g) (hc : s.conns[k]? = some c) (hconns : t.conns = s.conns.set k c')
    (hagents : ∀ id, t.agents id = (g'.agents id).map (·.agents))
    (hkeep : ∀ r ∈ g.tasks, r.agent ≠ k → r ∈ g'.tasks)
    (hlinked : ∀ id uid, c'.pc.linked? = some (id, uid) → ⟨id, uid, k, .linked⟩ ∈ g'.tasks)
    (hunlinked : ∀ id, c'.pc.unlinked? = some id → ∃ uid, ⟨id, uid, k, .unlinked⟩ ∈ g'.tasks) :
    Simulates t g' := by
  have hself := List.getElem?_set_self (a := c') (List.getElem?_eq_some_iff.1 hc).1
  refine ⟨hagents, fun j d id uid hd hpc => ?_, fun j d id hd hpc => ?_⟩
  all_goals
    rw [hconns] at hd
    by_cases hj : k = j
    · subst hj
      cases hself.symm.trans hd
      first | exact hlinked id uid hpc | exact hunlinked id hpc
    rw [List.getElem?_set_ne hj] at hd
  · exact hkeep _ (h.linked j d id uid hd hpc) (Ne.symm hj)
  · obtain ⟨uid, huid⟩ := h.unlinked j d id hd hpc
    exact ⟨uid, hkeep _ huid (Ne.symm hj)⟩

/-- The registration of connection `k` goes on. -/
theorem mem_tasks_set {g : Registry.State ℕ} {j k : ℕ} {r : Registry.Registration ℕ}
    (hr : g.tasks[j]? = some r) (hk : r.agent = k) (r' : Registry.Registration ℕ) :
    (∀ other ∈ g.tasks, other.agent ≠ k → other ∈ g.tasks.set j r') ∧ r' ∈ g.tasks.set j r' :=
  ⟨fun _ hmem hne => Registry.mem_set_of_ne hr hmem fun h => hne (h ▸ hk),
    List.mem_of_getElem? (List.getElem?_set_self (List.getElem?_eq_some_iff.1 hr).1)⟩

/-- A map that is updated at the same key on both sides. -/
theorem agents_update {agents : String → Option (List (ℕ × ℕ))}
    {pools : String → Option (Registry.AgentPool ℕ)} {id : String}
    {pool? : Option (List (ℕ × ℕ))} {pool?' : Option (Registry.AgentPool ℕ)}
    (h : ∀ id, agents id = (pools id).map (·.agents)) (hid : pool? = pool?'.map (·.agents))
    (id' : String) :
    Function.update agents id pool? id' =
      (Function.update pools id pool?' id').map (·.agents) := by
  by_cases heq : id' = id
  · subst heq
    rw [Function.update_self, Function.update_self, hid]
  · rw [Function.update_of_ne heq, Function.update_of_ne heq, h]

/-- One step of the relay is at most one step of the registry. -/
theorem Simulates.step {env : Env} {cfg : Config} {s t : State} {a : Action}
    {g : Registry.State ℕ} (h : Simulates s g) (hstep : Relay.step env cfg s a = some t) :
    ∃ g', Reach Registry.step g g' ∧ Simulates t g' := by
  cases a with
  | accept transport =>
    cases hstep
    refine ⟨g, .refl g, h.agents, fun j d id uid hd hpc => ?_, fun j d id hd hpc => ?_⟩
    all_goals
      rw [List.getElem?_append] at hd
      split_ifs at hd
    · exact h.linked j d id uid hd hpc
    · cases List.mem_singleton.1 (List.mem_of_getElem? hd)
      cases hpc
    · exact h.unlinked j d id hd hpc
    · cases List.mem_singleton.1 (List.mem_of_getElem? hd)
      cases hpc
  | input k i =>
    obtain ⟨c, c', op, hc, hmove, rfl⟩ := step_input hstep
    have hconns := State.conns_apply { s with conns := s.conns.set k c' } k op
    cases hmove.registers with
    | frame hop hlinked hunlinked =>
      refine ⟨g, .refl g, h.set hc hconns (fun id => ?_) (fun r hr _ => hr)
        (fun id uid hpc => h.linked k c id uid hc (hlinked _ hpc))
        (fun id hpc => h.unlinked k c id hc (hunlinked _ hpc))⟩
      rw [hop]
      exact h.agents id
    | push id uid hlinked hunlinked =>
      refine ⟨_, .single (a := .register id uid k) rfl, h.set hc hconns (agents_update h.agents ?_)
        (fun r hr _ => List.mem_append_left _ hr) (fun id' uid' hpc => ?_) (fun id' hpc => ?_)⟩
      · rw [h.agents id]
        cases g.agents id <;> rfl
      · cases hlinked.symm.trans hpc
        exact List.mem_append_right _ (List.mem_singleton.2 rfl)
      · cases hunlinked.symm.trans hpc
    | remove id uid hbefore hlinked hunlinked =>
      obtain ⟨j, hj⟩ := List.mem_iff_getElem?.1 (h.linked k c id uid hc hbefore)
      obtain ⟨hkeep, hnew⟩ := mem_tasks_set hj rfl ⟨id, uid, k, .unlinked⟩
      have hstep : Registry.step g (.unlink j) =
          some ⟨Registry.unlink g.agents id uid, g.tasks.set j ⟨id, uid, k, .unlinked⟩⟩ := by
        simp only [Registry.step, hj]
      refine ⟨_, .single hstep, h.set hc hconns ?_ hkeep (fun id' uid' hpc => ?_)
        (fun id' hpc => ?_)⟩
      · rw [State.apply_remove]
        refine agents_update h.agents ?_
        rw [h.agents id]
        cases g.agents id <;> rfl
      · cases hlinked.symm.trans hpc
      · cases hunlinked.symm.trans hpc
        exact ⟨uid, hnew⟩
    | removeIfEmpty id hbefore hlinked hunlinked =>
      obtain ⟨uid, hmem⟩ := h.unlinked k c id hc hbefore
      obtain ⟨j, hj⟩ := List.mem_iff_getElem?.1 hmem
      obtain ⟨hkeep, -⟩ := mem_tasks_set hj rfl ⟨id, uid, k, .swept⟩
      have hstep : Registry.step g (.sweep j) =
          some ⟨Registry.sweep g.agents id, g.tasks.set j ⟨id, uid, k, .swept⟩⟩ := by
        simp only [Registry.step, hj]
      refine ⟨_, .single hstep, h.set hc hconns ?_ hkeep (fun id' uid' hpc => ?_)
        (fun id' hpc => ?_)⟩
      · rw [State.apply_removeIfEmpty]
        refine agents_update h.agents ?_
        rw [h.agents id]
        cases hpool : g.agents id with
        | none => rfl
        | some pool =>
          rw [Option.map_some, Option.filter_some, Option.filter_some, Registry.AgentPool.isEmpty]
          split_ifs <;> rfl
      · cases hlinked.symm.trans hpc
      · cases hunlinked.symm.trans hpc

/-- **The relay's registry is a registry.** The agents of every reachable state of the relay are
those of a reachable state of the registry. -/
theorem registry_of_runs {env : Env} {cfg : Config} {schedule : List Action} {s : State}
    (h : runs (step env cfg) init schedule = some s) :
    ∃ g, Reach Registry.step Registry.init g ∧
      ∀ id, s.agents id = (g.agents id).map (·.agents) := by
  have hinit : Simulates init Registry.init := by
    refine ⟨fun _ => rfl, fun k c id uid hc => ?_, fun k c id hc => ?_⟩ <;> cases hc
  have hstep : ∀ s a t, (∃ g, Reach Registry.step Registry.init g ∧ Simulates s g) →
      step env cfg s a = some t → ∃ g, Reach Registry.step Registry.init g ∧ Simulates t g := by
    rintro s a t ⟨g, hreach, hsim⟩ hstep
    obtain ⟨g', hreach', hsim'⟩ := hsim.step hstep
    exact ⟨g', hreach.trans hreach', hsim'⟩
  obtain ⟨g, hreach, hsim⟩ := runs_invariant hstep h ⟨Registry.init, .refl _, hinit⟩
  exact ⟨g, hreach, hsim.agents⟩

end QuicTunnel.Relay
