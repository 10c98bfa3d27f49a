import QuicTunnel.Base.SideBySide
import QuicTunnel.Client.Bracketing
import QuicTunnel.Client.Tunnel

/-!
# What the tasks of a tunnel report

* every event of a connection task carries the tag and the address the task was spawned with, also
  those its pools leave and those of members that outlive their session (`Session.OwnReports`);
* the loop that joins the tasks adds `GaveUp` only, and once it has returned an error it has added
  one for each connection (`Tunnel.Inv.owners_perm`).
-/

namespace QuicTunnel

namespace ConnectionEvent

/-- The connection an event is about. -/
def owner : ConnectionEvent → String × String
  | .established tag addr _ => (tag, addr)
  | .lost tag addr _ _ => (tag, addr)
  | .attemptFailed tag addr _ _ _ => (tag, addr)
  | .gaveUp tag addr _ => (tag, addr)

/-- The connection that was given up, and why. -/
def gaveUp? : ConnectionEvent → Option ((String × String) × String)
  | .gaveUp tag addr cause => some ((tag, addr), cause)
  | _ => none

def isGaveUp (e : ConnectionEvent) : Bool := e.gaveUp?.isSome

end ConnectionEvent

namespace Session

/-- The connection a task drives. -/
def Config.owner (cfg : Config) : String × String := (cfg.tag, cfg.serverAddr)

/-- The pool belongs to this connection. -/
def Owns (cfg : Config) (p : Pool) : Prop := (p.liveness.tag, p.liveness.serverAddr) = cfg.owner

/-- All a task has reported is about its connection, and so is what its pools may still report. -/
structure OwnReports (cfg : Config) (s : State) : Prop where
  log : ∀ e ∈ s.log, e.owner = cfg.owner
  current : ∀ p, s.phase = .pool p → Owns cfg p
  old : ∀ p ∈ s.old, Owns cfg p

section Steps

variable {cfg : Config} {s t : State} {a : Action}

theorem ownReports_init (cfg : Config) : OwnReports cfg (init cfg) :=
  ⟨by simp [init], by simp [init], by simp [init]⟩

/-- The pool a session leaves belongs to the same connection. -/
theorem poolOutcome_owns {p q : Pool} {branch : Branch} {outcome : SessionOutcome}
    (h : poolOutcome s p branch = some (outcome, q)) (hp : Owns cfg p) : Owns cfg q := by
  have hdrained : ∀ p', drained p' = (outcome, q) → q.liveness = p'.liveness := by
    intro p' h'
    unfold drained at h'
    split_ifs at h' <;> cases h' <;> rfl
  cases branch with
  | stop | rejection | down =>
    simp only [poolOutcome] at h
    split_ifs at h
    cases h
    exact hp
  | allParked =>
    simp only [poolOutcome] at h
    split_ifs at h
    rw [Owns, hdrained _ (Option.some.inj h)]
    exact hp
  | drained =>
    simp only [poolOutcome] at h
    split_ifs at h
    rw [Owns, hdrained _ (Option.some.inj h)]
    exact hp

/-- What a member does to its pool and reports stays with the connection. -/
theorem poolStep_owns {policy : ReconnectPolicy} {stopped : Bool} {p : Pool} {i : ℕ}
    {input : MemberInput} {r : MemberStep} (h : p.step policy stopped i input = some r)
    (hp : Owns cfg p) : Owns cfg r.pool ∧ ∀ e ∈ r.event, e.owner = cfg.owner := by
  obtain ⟨m, -, -, hmove⟩ := Pool.step_move h
  cases hmove with
  | edge | failed | rejected | slept | unpark => exact ⟨hp, fun _ he => (by cases he)⟩
  | up hpc =>
    refine ⟨by rw [Owns, PoolLiveness.up_fst]; exact hp, fun e he => ?_⟩
    simp only [up_event] at he
    split_ifs at he <;> cases he
    exact hp
  | down cause hpc =>
    refine ⟨by rw [Owns, PoolLiveness.down_fst]; exact hp, fun e he => ?_⟩
    simp only [down_event] at he
    split_ifs at he <;> cases he
    exact hp
  | park hpc hlive =>
    exact ⟨by rw [Owns, PoolLiveness.park_fst hlive]; exact hp, fun _ he => (by cases he)⟩

/-- What the loop reports after a session is at most one event, about its connection. -/
theorem chargeSession_owner {now : SystemTime} (h : chargeSession cfg s now = some t) :
    (∃ report, t.log = s.log ++ report ∧ report.length ≤ 1 ∧ ∀ e ∈ report, e.owner = cfg.owner) ∧
      t.old = s.old ∧ ∀ p, t.phase ≠ .pool p := by
  simp only [chargeSession] at h
  split at h
  · split at h <;> cases h
    · exact ⟨⟨_, rfl, Nat.le_refl _, by simp [ConnectionEvent.owner, Config.owner]⟩, rfl,
        fun _ hp => (by cases hp)⟩
    · refine ⟨⟨_, rfl, Option.length_toList_le, fun e he => ?_⟩, rfl, fun _ hp => (by cases hp)⟩
      obtain ⟨cause, -, rfl⟩ := Option.map_eq_some_iff.1 (Option.mem_toList.1 he)
      rfl
  · cases h

/-- More events of the connection. -/
theorem OwnReports.log_append (h : OwnReports cfg s) {report : List ConnectionEvent}
    (hreport : ∀ e ∈ report, e.owner = cfg.owner) :
    ∀ e ∈ s.log ++ report, e.owner = cfg.owner := by
  intro e he
  rcases List.mem_append.1 he with he | he
  · exact h.log e he
  · exact hreport e he

theorem OwnReports.step (h : OwnReports cfg s) (hstep : step cfg s a = some t) :
    OwnReports cfg t := by
  cases step_move hstep with
  | stop => exact ⟨h.log, h.current, h.old⟩
  | loop _ _ hto =>
    refine ⟨h.log, fun p hp => ?_, h.old⟩
    rcases hto with rfl | ⟨rfl, -⟩ | rfl <;> cases hp
  | fallback =>
    refine ⟨h.log, fun p hp => ?_, h.old⟩
    cases hp
    rfl
  | quicUp =>
    exact ⟨h.log_append (by simp [ConnectionEvent.owner, Config.owner]), fun _ hp => (by cases hp),
      h.old⟩
  | quicStopped => exact ⟨h.log, fun _ hp => (by cases hp), h.old⟩
  | @quicEnded up =>
    refine ⟨h.log_append ?_, fun _ hp => (by cases hp), h.old⟩
    cases up <;> simp [ConnectionEvent.owner, Config.owner]
  | member hphase hr =>
    obtain ⟨hpool, hevent⟩ := poolStep_owns hr (h.current _ hphase)
    refine ⟨h.log_append fun e he => hevent e (Option.mem_toList.1 he), fun p hp => ?_, h.old⟩
    cases hp
    exact hpool
  | straggler hp hr =>
    obtain ⟨hpool, hevent⟩ := poolStep_owns hr (h.old _ (List.mem_of_getElem? hp))
    refine ⟨h.log_append fun e he => hevent e (Option.mem_toList.1 he), h.current, fun q hq => ?_⟩
    rcases List.mem_or_eq_of_mem_set hq with hq | rfl
    · exact h.old q hq
    · exact hpool
  | @exit p q branch outcome hphase hout =>
    refine ⟨h.log, fun p' hp' => ?_, fun q' hq' => ?_⟩
    · by_cases houtcome : outcome = .stopped <;> simp [houtcome] at hp'
    · rcases List.mem_append.1 hq' with hq' | hq'
      · exact h.old q' hq'
      · rw [List.mem_singleton.1 hq']
        have hq : Owns cfg q := poolOutcome_owns hout (h.current _ hphase)
        exact hq
  | charge =>
    obtain ⟨⟨report, hlog, -, hreport⟩, hold, hphase⟩ := chargeSession_owner hstep
    exact ⟨hlog ▸ h.log_append hreport, fun p hp => absurd hp (hphase p), hold ▸ h.old⟩

/-- The events of a task only grow. -/
theorem step_log_prefix (hstep : step cfg s a = some t) : s.log <+: t.log := by
  cases step_move hstep with
  | stop | loop | fallback | quicStopped | exit => exact List.prefix_rfl
  | quicUp | quicEnded | member | straggler | charge => exact List.prefix_append _ _

/-- Only `stop()` touches the flag. -/
theorem stopped_eq_of_step (ha : a ≠ .stop) (hstep : step cfg s a = some t) :
    t.stopped = s.stopped := by
  cases step_move hstep with
  | stop => exact absurd rfl ha
  | loop | fallback | quicUp | quicStopped | quicEnded | member | straggler | exit | charge => rfl

/-- A step reports at most one event. -/
theorem step_log_length (hstep : step cfg s a = some t) : t.log.length ≤ s.log.length + 1 := by
  cases step_move hstep with
  | stop | loop | fallback | quicStopped | exit => exact Nat.le_succ _
  | quicUp => simp
  | @quicEnded up => cases up <;> simp
  | member | straggler =>
    rw [State.after, List.length_append]
    exact Nat.add_le_add_left Option.length_toList_le _
  | charge =>
    obtain ⟨⟨report, hlog, hlen, -⟩, -⟩ := chargeSession_owner hstep
    rw [hlog, List.length_append]
    exact Nat.add_le_add_left hlen _

end Steps

end Session

/-! ### The loop that joins the tasks -/

namespace Tunnel

/-- The connection a task drives. -/
def Task.owner (task : Task) : String × String := (task.tag, task.serverAddr)

/-- The task has failed or panicked. -/
def Task.Failed (task : Task) : Prop :=
  ∃ e, task.ending = some (.error e) ∨ task.ending = some (.panicked e)

theorem Task.Failed.gaveUp {task : Task} (h : task.Failed) :
    (task.gaveUp.bind ConnectionEvent.gaveUp?).map Prod.fst = some task.owner := by
  obtain ⟨e, h | h⟩ := h <;> rw [Task.gaveUp, h] <;> rfl

/-- The connections given up so far, in the order they were joined. -/
def State.given (s : State) : List ((String × String) × String) :=
  s.log.filterMap ConnectionEvent.gaveUp?

/-- The error kept for the end is that of the last connection given up, and an error is returned
only once every task has been joined. -/
structure Exhausted (s : State) : Prop where
  lastErr : s.lastErr = s.given.getLast?.map Prod.snd
  returned : ∀ message source, s.pc = .returned (.error message source) →
    message = "all tunnel connections gave up" ∧ source = s.lastErr ∧
      ∀ k < s.tasks.length, k ∈ s.joined

theorem exhausted_init (cfg : Config) : Exhausted (init cfg) := ⟨rfl, nofun⟩

/-- What a step of the tunnel adds to the events and to the tasks. -/
structure Step (s t : State) : Prop where
  log : ∃ new, t.log = s.log ++ new ∧ ∀ e ∈ new, e.isGaveUp = true
  tasks : s.tasks.map Task.owner <+: t.tasks.map Task.owner
  exhausted : Exhausted s → Exhausted t

section Steps

variable {cfg : Config} {ids : ℕ → ℕ} {s t : State} {a : Action}

/-- A step that adds neither an event nor a task. -/
theorem Step.of_eq (hlog : t.log = s.log) (hlastErr : t.lastErr = s.lastErr)
    (htasks : t.tasks.map Task.owner = s.tasks.map Task.owner)
    (hreturned : Exhausted s → ∀ message source, t.pc = .returned (.error message source) →
      message = "all tunnel connections gave up" ∧ source = s.lastErr ∧
        ∀ k < t.tasks.length, k ∈ t.joined) : Step s t := by
  refine ⟨⟨[], by rw [hlog, List.append_nil], nofun⟩, by rw [htasks], fun h => ⟨?_, ?_⟩⟩
  · rw [hlastErr, State.given, hlog]
    exact h.lastErr
  · rw [hlastErr]
    exact hreturned h

/-- What the loop makes of a joined task. -/
theorem account_spec (s : State) (id : ℕ) (ending : Ending) :
    (∃ new, (s.account id ending).log = s.log ++ new ∧ ∀ e ∈ new, e.isGaveUp = true) ∧
      (s.account id ending).tasks = s.tasks ∧
      (Exhausted s →
        (s.account id ending).lastErr = (s.account id ending).given.getLast?.map Prod.snd) := by
  cases ending with
  | ok | cancelled => exact ⟨⟨[], (List.append_nil _).symm, nofun⟩, rfl, Exhausted.lastErr⟩
  | error e | panicked e =>
    refine ⟨⟨_, rfl, by simp [ConnectionEvent.isGaveUp, ConnectionEvent.gaveUp?]⟩, rfl, fun _ => ?_⟩
    simp [State.account, State.gaveUp, State.given, ConnectionEvent.gaveUp?]

theorem step_spec (hstep : step ids s a = some t) : Step s t := by
  cases a with
  | stop =>
    cases hstep
    exact .of_eq rfl rfl rfl Exhausted.returned
  | spawn =>
    simp only [step] at hstep
    split at hstep <;> cases hstep
    · exact ⟨⟨[], (List.append_nil _).symm, fun _ he => (by cases he)⟩, by simp,
        fun h => ⟨h.lastErr, fun _ _ hpc => (by cases hpc)⟩⟩
    · exact .of_eq rfl rfl rfl fun _ _ _ hpc => (by cases hpc)
  | ends k ending =>
    obtain ⟨task, htask, hstep⟩ := Option.bind_eq_some_iff.1 hstep
    split_ifs at hstep
    cases hstep
    refine .of_eq rfl rfl ?_ fun h message source hpc => ?_
    · rw [List.map_set]
      exact List.set_of_getElem? (by rw [List.getElem?_map, htask]; rfl)
    · rw [List.length_set]
      exact h.returned message source hpc
  | check =>
    simp only [step] at hstep
    split_ifs at hstep with hpc hstopped
    · cases hstep
      exact .of_eq rfl rfl rfl fun _ _ _ hpc => (by cases hpc)
    · cases hstep
      exact .of_eq rfl rfl rfl fun _ _ _ hpc => (by cases hpc)
  | stopChanged =>
    simp only [step] at hstep
    split_ifs at hstep
    cases hstep
    exact .of_eq rfl rfl rfl fun _ _ _ hpc => (by cases hpc)
  | join k =>
    simp only [step] at hstep
    split_ifs at hstep
    obtain ⟨task, -, hstep⟩ := Option.bind_eq_some_iff.1 hstep
    obtain ⟨ending, -, rfl⟩ := Option.map_eq_some_iff.1 hstep
    obtain ⟨hlog, htasks, hlast⟩ := account_spec s (ids k) ending
    exact ⟨hlog, by rw [htasks], fun h => ⟨hlast h, fun _ _ hpc => (by cases hpc)⟩⟩
  | joinNone =>
    simp only [step] at hstep
    split_ifs at hstep with hall
    cases hstep
    refine .of_eq rfl rfl rfl fun _ message source hpc => ?_
    cases hpc
    exact ⟨rfl, rfl, hall.2⟩

end Steps

/-- Reading a list by its positions. -/
theorem filterMap_range_getElem? {α β : Type*} (l : List α) (f : α → Option β) :
    (List.range l.length).filterMap (fun k => l[k]?.bind f) = l.filterMap f := by
  induction l using List.reverseRecOn with
  | nil => rfl
  | append_singleton l a ih =>
    rw [List.length_append, List.length_singleton, List.range_succ, List.filterMap_append,
      List.filterMap_append, ← ih]
    congr 1
    · refine List.filterMap_congr fun k hk => ?_
      rw [List.getElem?_append_left (List.mem_range.1 hk)]
    · rw [List.filterMap_cons, List.getElem?_concat_length]
      rfl

/-- **Once every task has failed and been joined, each connection was given up exactly once.** -/
theorem Inv.owners_perm {cfg : Config} {ids : ℕ → ℕ} {s : State} (h : Inv cfg ids s)
    (hrest : s.pc.rest = []) (hfailed : ∀ task ∈ s.tasks, task.Failed)
    (hjoined : ∀ k < s.tasks.length, k ∈ s.joined) :
    (s.given.map Prod.fst).Perm (connections cfg) := by
  have hperm : s.joined.Perm (List.range s.tasks.length) := by
    refine (List.perm_ext_iff_of_nodup h.nodup List.nodup_range).2 fun k => ?_
    rw [List.mem_range]
    exact ⟨h.lt_of_joined, hjoined k⟩
  have hspawned : s.tasks.map Task.owner = connections cfg := by
    have := h.spawned
    rwa [hrest, List.append_nil] at this
  have howners : s.tasks.map Task.owner =
      s.tasks.filterMap fun task => (task.gaveUp.bind ConnectionEvent.gaveUp?).map Prod.fst := by
    rw [← List.filterMap_eq_map]
    exact List.filterMap_congr fun task htask => (hfailed task htask).gaveUp.symm
  have hgiven : s.given.map Prod.fst = s.joined.filterMap fun k =>
      s.tasks[k]?.bind fun task => (task.gaveUp.bind ConnectionEvent.gaveUp?).map Prod.fst := by
    rw [State.given, h.log, List.filterMap_filterMap, List.map_filterMap]
    refine List.filterMap_congr fun k _ => ?_
    cases s.tasks[k]? <;> rfl
  rw [hgiven, ← hspawned, howners, ← filterMap_range_getElem? s.tasks]
  exact hperm.filterMap _

end Tunnel

end QuicTunnel
