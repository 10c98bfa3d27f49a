import QuicTunnel.Base.Transition
import QuicTunnel.Common.Time

/-!
# Background renewal of the relay's certificate

`DiskCertResolver` (`tunnel-server/src/cert.rs`): each handshake calls `resolve`, which may start a
renewal task.  The cache and the backoff are behind mutexes and `renewing` is an atomic flag, so a
call reads them one after the other while other calls and a finishing task change them.  `Call` and
`Task` list the points between two such steps; a task holds the mutex of the backoff over two of
them.  What a load from disk and a renewal bring is carried by the action.

* `step` is one step of one call or task, or of the clocks, which advance together;
* `Call.Checked` is what a call has found out so far, and stays true while it goes on;
* `Gate` is what a renewal should start under, and `Current` says that a call's reads still stand.
-/

namespace QuicTunnel.Relay.Renewal

/-! ### The resolver -/

/-- `Instant`, in nanoseconds. -/
abbrev Instant := ℕ

/-- The part of `AcmeRenewalConfig` that decides when to renew. -/
structure AcmeRenewalConfig where
  renewBeforeSecs : ℤ

/-- A cached certificate, with the time it was loaded and its expiry in Unix seconds. -/
structure CachedCert (κ : Type) where
  certifiedKey : κ
  loadedAt : Instant
  notAfter : ℤ
  deriving DecidableEq

def renewalRetryBase : Duration := .fromSecs (5 * 60)

def renewalRetryMax : Duration := .fromSecs (6 * 60 * 60)

/-- Failed-renewal state; no attempt is made before `retryAt`. -/
structure RenewalBackoff where
  failures : ℕ
  retryAt : Option Instant
  deriving DecidableEq

/-- `RenewalBackoff::default()`. -/
def RenewalBackoff.default : RenewalBackoff := ⟨0, none⟩

/-- Doubles from `renewalRetryBase` per consecutive failure, capped at `renewalRetryMax`. -/
def renewalRetryDelay (failures : ℕ) : Duration :=
  min (renewalRetryBase.saturatingMul (2 ^ min (failures - 1) 16)) renewalRetryMax

/-- `RenewalBackoff::record_failure`; the count is a saturating `u32`. -/
def RenewalBackoff.recordFailure (b : RenewalBackoff) (now : Instant) : RenewalBackoff :=
  let failures := min (b.failures + 1) (2 ^ 32 - 1)
  ⟨failures, some (now + (renewalRetryDelay failures).nanos)⟩

/-- Where a call of `resolve` is, with the values it has read. -/
inductive Call (κ : Type)
  /-- Before `cache.lock`. -/
  | resolving
  /-- In `maybe_trigger_renewal`, before `cache.lock`. -/
  | reading (ck : κ)
  /-- Before `SystemTime::now`. -/
  | timing (ck : κ) (notAfter : ℤ)
  /-- In the renewal window; before `backoff.lock`. -/
  | checking (ck : κ) (notAfter : ℤ)
  /-- Before `Instant::now`. -/
  | waiting (ck : κ) (notAfter : ℤ) (retryAt : Option Instant)
  /-- Before `renewing.compare_exchange`. -/
  | claiming (ck : κ) (notAfter : ℤ) (retryAt : Option Instant)
  | returned (result : Option κ)
  deriving DecidableEq

/-- Where a renewal task is. -/
inductive Task (κ : Type)
  /-- In `provision_acme_cert` or the load that follows. -/
  | provisioning
  /-- Before `backoff.lock`. -/
  | provisioned (result : Option (κ × ℤ))
  /-- Holds the backoff. -/
  | locked (result : Option (κ × ℤ))
  /-- Has replaced the cached certificate and holds the backoff. -/
  | cached
  /-- Before the guard is dropped. -/
  | unlocked
  | ended
  deriving DecidableEq

/-- The resolver with its calls and tasks. -/
structure Resolver (κ : Type) where
  /-- `SystemTime::now`, in nanoseconds since the Unix epoch. -/
  wall : ℤ
  /-- `Instant::now`. -/
  now : Instant
  cache : Option (CachedCert κ)
  backoff : RenewalBackoff
  /-- A task holds the mutex of `backoff`. -/
  backoffHeld : Bool
  renewing : Bool
  calls : List (Call κ)
  tasks : List (Task κ)

variable {κ : Type}

/-- `DiskCertResolver::new`. -/
def init (κ : Type) (wall : ℤ) (now : Instant) : Resolver κ :=
  ⟨wall, now, none, .default, false, false, [], []⟩

/-- Whole seconds since the epoch; 0 before it. -/
def Resolver.nowSecs (s : Resolver κ) : ℤ := unixSecs s.wall

/-- Call `i` moves to `pc`. -/
def Resolver.goto (s : Resolver κ) (i : ℕ) (pc : Call κ) : Resolver κ :=
  { s with calls := s.calls.set i pc }

/-- Task `j` moves to `pc`. -/
def Resolver.gotoTask (s : Resolver κ) (j : ℕ) (pc : Task κ) : Resolver κ :=
  { s with tasks := s.tasks.set j pc }

/-- `i64::MAX`. -/
def i64Max : ℤ := 2 ^ 63 - 1

/-! ### Steps -/

inductive Action (κ : Type)
  | tick (elapsed : ℕ)
  /-- A handshake calls `resolve`. -/
  | handshake
  /-- The cache section of call `i`'s `resolve`; `reload` is what is on disk, if it can be read. -/
  | resolve (i : ℕ) (reload : Option (κ × ℤ))
  /-- Call `i` goes on to its next point. -/
  | call (i : ℕ)
  /-- The provisioning of task `j` ends, with the certificate loaded if all went well. -/
  | provision (j : ℕ) (result : Option (κ × ℤ))
  /-- Task `j` goes on to its next point. -/
  | task (j : ℕ)
  /-- The provisioning of task `j` panics or is dropped. -/
  | abort (j : ℕ)

/-- The cached certificate, if it was loaded within the last 60 seconds. -/
def Resolver.fresh (s : Resolver κ) : Option (CachedCert κ) :=
  s.cache.filter fun c => s.now - c.loadedAt < (Duration.fromSecs 60).nanos

/-- `resolve`, up to `maybe_trigger_renewal`. -/
def Resolver.resolve (s : Resolver κ) (i : ℕ) (reload : Option (κ × ℤ)) : Resolver κ :=
  match s.fresh with
  | some c => s.goto i (.reading c.certifiedKey)
  | none =>
    match reload with
    | some (ck, notAfter) =>
      { s.goto i (.reading ck) with cache := some ⟨ck, s.now, notAfter⟩ }
    -- Falls back to the stale certificate, and does not look at the renewal window.
    | none => s.goto i (.returned (s.cache.map (·.certifiedKey)))

/-- `maybe_trigger_renewal`, from one point to the next. -/
def Resolver.advance (renewal : Option AcmeRenewalConfig) (s : Resolver κ) (i : ℕ) :
    Call κ → Option (Resolver κ)
  | .resolving => none
  | .reading ck =>
    match renewal with
    | none => some (s.goto i (.returned (some ck)))
    | some _ => some (s.goto i (.timing ck ((s.cache.map (·.notAfter)).getD i64Max)))
  | .timing ck notAfter =>
    renewal.map fun r =>
      if r.renewBeforeSecs ≤ notAfter - s.nowSecs then s.goto i (.returned (some ck))
      else s.goto i (.checking ck notAfter)
  | .checking ck notAfter =>
    if s.backoffHeld then none else some (s.goto i (.waiting ck notAfter s.backoff.retryAt))
  | .waiting ck notAfter retryAt =>
    if retryAt.any fun t => s.now < t then some (s.goto i (.returned (some ck)))
    else some (s.goto i (.claiming ck notAfter retryAt))
  | .claiming ck _ _ =>
    if s.renewing then some (s.goto i (.returned (some ck)))
    else some { s.goto i (.returned (some ck)) with
      renewing := true, tasks := s.tasks ++ [.provisioning] }
  | .returned _ => none

/-- The end of a renewal task, from one point to the next. -/
def Resolver.finish (s : Resolver κ) (j : ℕ) : Task κ → Option (Resolver κ)
  | .provisioning => none
  | .provisioned result =>
    if s.backoffHeld then none
    else some { s.gotoTask j (.locked result) with backoffHeld := true }
  | .locked (some (ck, notAfter)) =>
    some { s.gotoTask j .cached with cache := some ⟨ck, s.now, notAfter⟩ }
  | .locked none =>
    some { s.gotoTask j .unlocked with
      backoff := s.backoff.recordFailure s.now, backoffHeld := false }
  | .cached => some { s.gotoTask j .unlocked with backoff := .default, backoffHeld := false }
  | .unlocked => some { s.gotoTask j .ended with renewing := false }
  | .ended => none

/-- One step of the resolver. -/
def step (renewal : Option AcmeRenewalConfig) (s : Resolver κ) : Action κ → Option (Resolver κ)
  | .tick elapsed => some { s with wall := s.wall + elapsed, now := s.now + elapsed }
  | .handshake => some { s with calls := s.calls ++ [.resolving] }
  | .resolve i reload =>
    match s.calls[i]? with
    | some .resolving => some (s.resolve i reload)
    | _ => none
  | .call i => s.calls[i]?.bind (s.advance renewal i)
  | .provision j result =>
    match s.tasks[j]? with
    | some .provisioning => some (s.gotoTask j (.provisioned result))
    | _ => none
  | .task j => s.tasks[j]?.bind (s.finish j)
  | .abort j =>
    match s.tasks[j]? with
    -- The guard is all that a task holds here.
    | some .provisioning => some { s.gotoTask j .ended with renewing := false }
    | _ => none

/-! ### What a call has found out -/

/-- What a call has found out holds from then on: the cache is filled, the expiry it read is in the
window, and the retry time it read has come. -/
def Call.Checked (renewal : Option AcmeRenewalConfig) (s : Resolver κ) : Call κ → Prop
  | .resolving | .returned _ => True
  | .reading _ | .timing _ _ => s.cache.isSome
  | .checking _ notAfter | .waiting _ notAfter _ =>
    s.cache.isSome ∧ ∃ r ∈ renewal, notAfter - s.nowSecs < r.renewBeforeSecs
  | .claiming _ notAfter retryAt =>
    s.cache.isSome ∧ (∃ r ∈ renewal, notAfter - s.nowSecs < r.renewBeforeSecs) ∧
      ∀ t ∈ retryAt, t ≤ s.now

/-- What no step takes back. -/
structure Later (s s' : Resolver κ) : Prop where
  cache : s.cache.isSome → s'.cache.isSome
  nowSecs : s.nowSecs ≤ s'.nowSecs
  now : s.now ≤ s'.now

section Steps

variable {renewal : Option AcmeRenewalConfig} {s s' : Resolver κ} {i j : ℕ}

theorem Later.checked (h : Later s s') {c : Call κ} (hc : c.Checked renewal s) :
    c.Checked renewal s' := by
  have window {notAfter : ℤ} (hr : ∃ r ∈ renewal, notAfter - s.nowSecs < r.renewBeforeSecs) :
      ∃ r ∈ renewal, notAfter - s'.nowSecs < r.renewBeforeSecs := by
    obtain ⟨r, hr, hlt⟩ := hr
    exact ⟨r, hr, by have := h.nowSecs; omega⟩
  cases c with
  | resolving | returned => trivial
  | reading | timing => exact h.cache hc
  | checking | waiting => exact ⟨h.cache hc.1, window hc.2⟩
  | claiming => exact ⟨h.cache hc.1, window hc.2.1, fun t ht => (hc.2.2 t ht).trans h.now⟩

/-- Every call knows what it should at its point. -/
def AllChecked (renewal : Option AcmeRenewalConfig) (s : Resolver κ) : Prop :=
  ∀ c ∈ s.calls, c.Checked renewal s

/-- A step that starts no task: nothing is taken back, and a call that moves knows what it should
at its new point. -/
structure Quiet (renewal : Option AcmeRenewalConfig) (s s' : Resolver κ) : Prop where
  later : Later s s'
  calls : ∀ c ∈ s'.calls, c ∈ s.calls ∨ (AllChecked renewal s → c.Checked renewal s')
  tasks : s'.tasks.length = s.tasks.length

/-- A step of a task leaves the calls alone. -/
theorem Quiet.of_task (hlater : Later s s') (hcalls : s'.calls = s.calls) {pc : Task κ}
    (htasks : s'.tasks = s.tasks.set j pc) : Quiet renewal s s' :=
  ⟨hlater, fun _ hc => .inl (hcalls ▸ hc), by rw [htasks, List.length_set]⟩

/-- A step of a call moves that call. -/
theorem Quiet.of_call (hlater : Later s s') {pc : Call κ} (hcalls : s'.calls = s.calls.set i pc)
    (htasks : s'.tasks = s.tasks) (hpc : AllChecked renewal s → pc.Checked renewal s') :
    Quiet renewal s s' := by
  refine ⟨hlater, fun c hc => ?_, by rw [htasks]⟩
  rw [hcalls] at hc
  rcases List.mem_or_eq_of_mem_set hc with hold | rfl
  · exact .inl hold
  · exact .inr hpc

/-- A call that only moves. -/
theorem Quiet.goto {pc : Call κ} (hpc : AllChecked renewal s → pc.Checked renewal s) :
    Quiet renewal s (s.goto i pc) :=
  .of_call ⟨id, le_rfl, le_rfl⟩ rfl rfl fun hs => Later.checked ⟨id, le_rfl, le_rfl⟩ (hpc hs)

theorem resolve_quiet (i : ℕ) (reload : Option (κ × ℤ)) :
    Quiet renewal s (s.resolve i reload) := by
  unfold Resolver.resolve
  rcases hfresh : s.fresh with _ | c
  · rcases reload with _ | ⟨ck, notAfter⟩
    · exact .goto fun _ => trivial
    · refine .of_call ⟨fun _ => rfl, le_rfl, le_rfl⟩ rfl rfl fun _ => ?_
      exact Option.isSome_some
  · have hcache : s.cache = some c := (Option.filter_eq_some_iff.1 hfresh).1
    exact .goto fun _ => Option.isSome_of_eq_some hcache

/-- What a step can do. -/
inductive Move (renewal : Option AcmeRenewalConfig) (s : Resolver κ) :
    Action κ → Resolver κ → Prop
  | quiet {a : Action κ} {s' : Resolver κ} : Quiet renewal s s' → Move renewal s a s'
  /-- A call that has passed both checks finds the flag clear. -/
  | start {i : ℕ} {ck : κ} {notAfter : ℤ} {retryAt : Option Instant} :
      s.calls[i]? = some (.claiming ck notAfter retryAt) → s.renewing = false →
      Move renewal s (.call i) { s.goto i (.returned (some ck)) with
        renewing := true, tasks := s.tasks ++ [.provisioning] }

theorem advance_move {c : Call κ} (hget : s.calls[i]? = some c)
    (h : s.advance renewal i c = some s') : Move renewal s (.call i) s' := by
  have hc : c ∈ s.calls := List.mem_of_getElem? hget
  cases c with
  | resolving | returned => cases h
  | reading ck =>
    rcases renewal with _ | r
    · cases h
      exact .quiet (.goto fun _ => trivial)
    · cases h
      exact .quiet (.goto fun hs => hs (.reading ck) hc)
  | timing ck notAfter =>
    obtain ⟨r, hr, hs'⟩ := Option.map_eq_some_iff.1 h
    split_ifs at hs' with hwin
    · subst hs'
      exact .quiet (.goto fun _ => trivial)
    · subst hs'
      exact .quiet (.goto fun hs => ⟨hs _ hc, r, hr, not_le.1 hwin⟩)
  | checking ck notAfter =>
    simp only [Resolver.advance] at h
    split_ifs at h
    cases h
    exact .quiet (.goto fun hs => hs (.checking ck notAfter) hc)
  | waiting ck notAfter retryAt =>
    simp only [Resolver.advance] at h
    split_ifs at h with hwait
    · cases h
      exact .quiet (.goto fun _ => trivial)
    · cases h
      refine .quiet (.goto fun hs => ?_)
      obtain ⟨hcache, hwin⟩ := hs _ hc
      refine ⟨hcache, hwin, fun t ht => ?_⟩
      rw [Option.mem_def] at ht
      subst ht
      simpa using hwait
  | claiming ck notAfter retryAt =>
    simp only [Resolver.advance] at h
    split_ifs at h with hrenewing
    · cases h
      exact .quiet (.goto fun _ => trivial)
    · cases h
      exact .start hget (Bool.eq_false_of_not_eq_true hrenewing)

theorem finish_quiet {t : Task κ} (h : s.finish j t = some s') : Quiet renewal s s' := by
  cases t with
  | provisioning | ended => cases h
  | provisioned =>
    simp only [Resolver.finish] at h
    split_ifs at h
    cases h
    exact .of_task ⟨id, le_rfl, le_rfl⟩ rfl rfl
  | locked result =>
    rcases result with _ | ⟨ck, notAfter⟩
    · cases h
      exact .of_task ⟨id, le_rfl, le_rfl⟩ rfl rfl
    · cases h
      exact .of_task ⟨fun _ => rfl, le_rfl, le_rfl⟩ rfl rfl
  | cached | unlocked =>
    cases h
    exact .of_task ⟨id, le_rfl, le_rfl⟩ rfl rfl

/-- Every step is one of the moves. -/
theorem step_move {a : Action κ} (h : step renewal s a = some s') : Move renewal s a s' := by
  cases a with
  | tick elapsed =>
    cases h
    have hwall : s.wall ≤ s.wall + elapsed := by omega
    exact .quiet ⟨⟨id, unixSecs_mono hwall, Nat.le_add_right _ _⟩, fun c hc => .inl hc, rfl⟩
  | handshake =>
    cases h
    refine .quiet ⟨⟨id, le_rfl, le_rfl⟩, fun c hc => ?_, rfl⟩
    rcases List.mem_append.1 hc with hold | hnew
    · exact .inl hold
    · rw [List.mem_singleton.1 hnew]
      exact .inr fun _ => trivial
  | resolve i reload =>
    simp only [step] at h
    split at h <;> cases h
    exact .quiet (resolve_quiet i reload)
  | call i =>
    obtain ⟨c, hget, h⟩ := Option.bind_eq_some_iff.1 h
    exact advance_move hget h
  | provision j result | abort j =>
    simp only [step] at h
    split at h <;> cases h
    exact .quiet (.of_task ⟨id, le_rfl, le_rfl⟩ rfl rfl)
  | task j =>
    obtain ⟨t, -, h⟩ := Option.bind_eq_some_iff.1 h
    exact .quiet (finish_quiet h)

theorem step_checked {a : Action κ} (hs : AllChecked renewal s) (h : step renewal s a = some s') :
    AllChecked renewal s' := by
  cases step_move h with
  | quiet hq =>
    intro c hc
    rcases hq.calls c hc with hold | hnew
    · exact hq.later.checked (hs c hold)
    · exact hnew hs
  | start =>
    intro c hc
    rcases List.mem_or_eq_of_mem_set hc with hold | rfl
    · exact Later.checked ⟨id, le_rfl, le_rfl⟩ (hs c hold)
    · trivial

theorem checked_of_runs {wall : ℤ} {now : Instant} {actions : List (Action κ)}
    (h : Transition.runs (step renewal) (init κ wall now) actions = some s) :
    AllChecked renewal s :=
  Transition.runs_invariant (fun _ _ _ hs ha => step_checked hs ha) h (fun _ hc => by cases hc)

end Steps

/-! ### The gate -/

/-- What a renewal should start under: the certificate in the cache expires within the renewal
window, and the stored backoff is over. -/
def Gate (renewal : Option AcmeRenewalConfig) (s : Resolver κ) : Prop :=
  (∃ r ∈ renewal, ∃ c ∈ s.cache, c.notAfter - s.nowSecs < r.renewBeforeSecs) ∧
    ∀ t ∈ s.backoff.retryAt, t ≤ s.now

/-- What the call that moves has read still stands: the expiry in the cache and the stored retry
time are no later than those it read. -/
def Current (s : Resolver κ) : Action κ → Prop
  | .call i => ∀ ck notAfter retryAt, s.calls[i]? = some (.claiming ck notAfter retryAt) →
      (∀ c ∈ s.cache, c.notAfter ≤ notAfter) ∧
        ∀ t ∈ s.backoff.retryAt, ∃ t' ∈ retryAt, t ≤ t'
  | _ => True

/-- **The renewal gate.**  In every run, a step that starts a renewal while what its call has read
still stands does so with the cached certificate in the renewal window and no backoff pending. -/
theorem renewal_gated (renewal : Option AcmeRenewalConfig) (wall : ℤ) (now : Instant)
    (actions : List (Action κ)) (s s' : Resolver κ) (a : Action κ)
    (hrun : Transition.runs (step renewal) (init κ wall now) actions = some s)
    (hstep : step renewal s a = some s') (hstart : s.tasks.length < s'.tasks.length)
    (hcurrent : Current s a) : Gate renewal s := by
  cases step_move hstep with
  | quiet hq => exact absurd hq.tasks hstart.ne'
  | start hget =>
    obtain ⟨hcache, ⟨r, hr, hwin⟩, hretry⟩ :=
      checked_of_runs hrun _ (List.mem_of_getElem? hget)
    obtain ⟨hexpiry, hbackoff⟩ := hcurrent _ _ _ hget
    obtain ⟨c, hc⟩ := Option.isSome_iff_exists.1 hcache
    refine ⟨⟨r, hr, c, hc, ?_⟩, fun t ht => ?_⟩
    · have := hexpiry c hc
      omega
    · obtain ⟨t', ht', hle⟩ := hbackoff t ht
      exact hle.trans (hretry t' ht')

/-- Renew thirty days before the expiry. -/
def thirtyDays : Option AcmeRenewalConfig := some ⟨30 * 24 * 3600⟩

/-- Two handshakes at the epoch, with a certificate on disk that has 1000 s left: both calls pass
both checks. -/
def bothPassed : List (Action ℕ) :=
  [.handshake, .handshake, .resolve 0 (some (0, 1000)), .resolve 1 none, .call 0, .call 1, .call 0,
    .call 1, .call 0, .call 1, .call 0, .call 1]

/-- The state they reach. -/
def passed : Resolver ℕ :=
  { init ℕ 0 0 with
    cache := some ⟨0, 0, 1000⟩, calls := [.claiming 0 1000 none, .claiming 0 1000 none] }

/-- The first of them starts a renewal. -/
theorem renewal_gated_first :
    Transition.runs (step thirtyDays) (init ℕ 0 0) bothPassed = some passed ∧
      Gate thirtyDays passed := by
  refine ⟨rfl, renewal_gated thirtyDays 0 0 bothPassed passed _ (.call 0) rfl rfl (by decide) ?_⟩
  intro ck notAfter retryAt h
  cases h
  exact ⟨fun c hc => (by cases hc; exact le_rfl), fun t ht => (by cases ht)⟩

/-- The renewal of the first call, from its start to the end of its task. -/
def firstRenews (result : Option (ℕ × ℤ)) : List (Action ℕ) :=
  [.call 0, .provision 0 result, .task 0, .task 0] ++
    (if result.isSome then [.task 0] else []) ++ [.task 0]

/-- The second call, which passed both checks before the renewal, starts another one right after it:
five minutes too early when it failed, and for a certificate of ninety days when it succeeded. -/
theorem renewal_not_gated :
    (∃ s s', Transition.runs (step thirtyDays) (init ℕ 0 0) (bothPassed ++ firstRenews none) =
        some s ∧ step thirtyDays s (.call 1) = some s' ∧ s.tasks.length < s'.tasks.length ∧
        s.now = 0 ∧ s.backoff.retryAt = some (300 * 10 ^ 9) ∧ ¬Gate thirtyDays s) ∧
    ∃ s s', Transition.runs (step thirtyDays) (init ℕ 0 0)
        (bothPassed ++ firstRenews (some (1, 90 * 24 * 3600))) = some s ∧
        step thirtyDays s (.call 1) = some s' ∧ s.tasks.length < s'.tasks.length ∧
        s.nowSecs = 0 ∧ s.cache = some ⟨1, 0, 90 * 24 * 3600⟩ ∧ ¬Gate thirtyDays s := by
  let failed : Resolver ℕ :=
    { passed with
      backoff := ⟨1, some (300 * 10 ^ 9)⟩
      calls := [.returned (some 0), .claiming 0 1000 none], tasks := [.ended] }
  let renewed : Resolver ℕ :=
    { passed with
      cache := some ⟨1, 0, 90 * 24 * 3600⟩
      calls := [.returned (some 0), .claiming 0 1000 none], tasks := [.ended] }
  refine ⟨⟨failed, _, rfl, rfl, by decide, rfl, rfl, fun h => ?_⟩,
    ⟨renewed, _, rfl, rfl, by decide, rfl, rfl, fun h => ?_⟩⟩
  · exact absurd (h.2 _ rfl) (by decide)
  · obtain ⟨r, hr, c, hc, hlt⟩ := h.1
    cases hr
    cases hc
    exact absurd hlt (by decide)

end QuicTunnel.Relay.Renewal
