import QuicTunnel.Client.RetryBudget

/-!
# The backoff of `connection_run`

`ReconnectPolicy` documents the interval before the next attempt: it starts at `base_backoff`,
doubles after each failed attempt and stops at `max_backoff`, where a rejection takes it at once.

The loop keeps it in `RetryState::backoff`, which `rejected` and `recovered` set and which `wait`
doubles once it has been slept.  A session that was up and is lost waits as well, so the interval
has doubled before the next attempt fails; `Paced` says what it is after any history, and the
documented schedule (`documented`) is compared with it.
-/

namespace QuicTunnel

/-! ### The history -/

/-- How one result moves whether there was a rejection since the last plain loss. -/
def rejectedNext (seen : Bool) (r : SessionResult) : Bool :=
  if r.PlainLoss then false else seen || r.rejected.isSome

/-- Whether there was a rejection since the start or since the last plain loss. -/
def rejectedSince (history : List SessionResult) : Bool := history.foldl rejectedNext false

/-- Whether a session of the history was lost after it had been up. -/
def lostBefore (history : List SessionResult) : Bool := history.any fun r => r.PlainLoss

theorem rejectedSince_concat (history : List SessionResult) (r : SessionResult) :
    rejectedSince (history ++ [r]) = rejectedNext (rejectedSince history) r := by
  simp [rejectedSince]

theorem lostBefore_concat (history : List SessionResult) (r : SessionResult) :
    lostBefore (history ++ [r]) = (lostBefore history || decide r.PlainLoss) := by
  simp [lostBefore]

/-- The base backoff doubled so often, up to the ceiling. -/
def ReconnectPolicy.interval (p : ReconnectPolicy) (doublings : ℕ) : ℕ :=
  min p.maxBackoff.nanos (p.baseBackoff.nanos * 2 ^ doublings)

/-- The documented wait after the last result of a history, a counted one. -/
def documented (p : ReconnectPolicy) (history : List SessionResult) : ℕ :=
  if rejectedSince history then p.maxBackoff.nanos else p.interval (countedSince history - 1)

/-! ### What the loop keeps -/

/-- The backoff the loop has after a history: one doubling for each counted result since the last
plain loss, and one for the wait after that loss. -/
structure Paced (p : ReconnectPolicy) (history : List SessionResult) (s : RetryState) : Prop where
  policy : s.policy = p
  backoff : s.backoff.nanos =
    if rejectedSince history then p.maxBackoff.nanos
    else p.interval (countedSince history + (lostBefore history).toNat)

section Step

variable {p : ReconnectPolicy} {history : List SessionResult} {s : RetryState} {r : SessionResult}
  {tag serverAddr : String}

theorem ReconnectPolicy.interval_zero (hp : p.baseBackoff ≤ p.maxBackoff) :
    p.interval 0 = p.baseBackoff.nanos := by
  rw [interval, pow_zero, Nat.mul_one]
  exact min_eq_right ((Duration.le_iff _ _).1 hp)

theorem paced_new (hp : p.baseBackoff ≤ p.maxBackoff) : Paced p [] (RetryState.new p) :=
  ⟨rfl, (p.interval_zero hp).symm⟩

/-- Sleeping the backoff doubles it up to the ceiling, also where the doubling saturates. -/
theorem waited_none_backoff (s : RetryState) :
    (s.waited none).backoff.nanos = min s.policy.maxBackoff.nanos (2 * s.backoff.nanos) := by
  have hcap := s.policy.maxBackoff.le_max
  simp only [RetryState.waited, Duration.min_nanos, Duration.saturatingMul]
  omega

theorem ReconnectPolicy.interval_succ (p : ReconnectPolicy) (k : ℕ) :
    min p.maxBackoff.nanos (2 * p.interval k) = p.interval (k + 1) := by
  have hpow : p.baseBackoff.nanos * 2 ^ (k + 1) = 2 * (p.baseBackoff.nanos * 2 ^ k) := by ring
  rw [interval, interval, hpow]
  omega

theorem SessionResult.Counted.not_plainLoss {r : SessionResult} (h : r.Counted) :
    ¬r.PlainLoss := by
  rintro ⟨hout, hrej⟩
  rcases h with hne | ⟨cause, hout'⟩
  · exact hne hrej
  · rw [hout] at hout'
    cases hout'

/-- A result that is no plain loss leaves what was lost before, and adds its own rejection. -/
theorem since_of_not_loss (hl : ¬r.PlainLoss) :
    rejectedSince (history ++ [r]) = (rejectedSince history || r.rejected.isSome) ∧
      lostBefore (history ++ [r]) = lostBefore history := by
  rw [rejectedSince_concat, rejectedNext, if_neg hl, lostBefore_concat, decide_eq_false hl,
    Bool.or_false]
  exact ⟨rfl, rfl⟩

/-- The wait that is reported for a counted result, and the backoff that is left after any. -/
structure Charged (p : ReconnectPolicy) (history : List SessionResult) (r : SessionResult)
    (s' : RetryState) (delay : Option Duration) : Prop where
  paced : Paced p (history ++ [r]) (s'.waited delay)
  reported : r.Counted → (delay.getD s'.backoff).nanos =
    if rejectedSince (history ++ [r]) then p.maxBackoff.nanos
    else p.interval (countedSince history + (lostBefore history).toNat)

/-- A rejection goes to the ceiling, and doubling leaves it there. -/
theorem Paced.rejected (h : Paced p history s) {reason : String}
    (hrej : r.rejected = some reason) : Charged p history r s.rejected none := by
  have hpolicy := h.policy
  have hl : ¬r.PlainLoss := fun hl => by rw [hl.2] at hrej; cases hrej
  have hsince : rejectedSince (history ++ [r]) = true := by
    rw [(since_of_not_loss hl).1, hrej, Option.isSome_some, Bool.or_true]
  refine ⟨⟨by rw [RetryState.waited_policy]; exact hpolicy, ?_⟩, fun _ => ?_⟩
  · rw [waited_none_backoff, RetryState.rejected_policy, RetryState.rejected_backoff, hpolicy,
      hsince, if_pos rfl]
    omega
  · rw [hsince, if_pos rfl, Option.getD_none, RetryState.rejected_backoff, hpolicy]

/-- A plain loss starts over, and doubles in its wait. -/
theorem Paced.lost (hp : p.baseBackoff ≤ p.maxBackoff) (h : Paced p history s)
    (hloss : r.PlainLoss) : Charged p history r s.recovered none := by
  have hpolicy := h.policy
  refine ⟨⟨by rw [RetryState.waited_policy]; exact hpolicy, ?_⟩, fun hcounted => ?_⟩
  · rw [waited_none_backoff, RetryState.recovered_policy, hpolicy, rejectedSince_concat,
      rejectedNext, if_pos hloss, countedSince_concat, countNext_of_loss hloss,
      lostBefore_concat, decide_eq_true hloss, Bool.or_true]
    show min _ (2 * s.policy.baseBackoff.nanos) = p.interval (0 + 1)
    rw [hpolicy, ← p.interval_zero hp, p.interval_succ]
  · exact absurd hloss hcounted.not_plainLoss

/-- A rate limit waits for the CA and leaves the backoff. -/
theorem Paced.rateLimited (h : Paced p history s) {t : SystemTime} (hrate : r.RateLimited t)
    (delay : Duration) : Charged p history r s (some delay) := by
  obtain ⟨hrej, reason, hout⟩ := id hrate
  have hl : ¬r.PlainLoss := fun hl => by rw [hl.1] at hout; cases hout
  refine ⟨⟨h.policy, ?_⟩, fun hcounted => ?_⟩
  · rw [(since_of_not_loss hl).1, (since_of_not_loss hl).2, countedSince_concat,
      countNext_of_rateLimited hrate, hrej, Option.isSome_none, Bool.or_false]
    exact h.backoff
  · rcases hcounted with hne | ⟨reason', hout'⟩
    · exact absurd hrej hne
    · rw [hout] at hout'
      cases hout'

/-- A failure reports the backoff and doubles it. -/
theorem Paced.failed (h : Paced p history s) (hrej : r.rejected = none) (hcounted : r.Counted) :
    Charged p history r s.failed none := by
  have hpolicy := h.policy
  have hl := hcounted.not_plainLoss
  have hsince : rejectedSince (history ++ [r]) = rejectedSince history := by
    rw [(since_of_not_loss hl).1, hrej, Option.isSome_none, Bool.or_false]
  refine ⟨⟨by rw [RetryState.waited_policy]; exact hpolicy, ?_⟩, fun _ => ?_⟩
  · rw [waited_none_backoff, RetryState.failed_policy, RetryState.failed_backoff, hpolicy, hsince,
      (since_of_not_loss hl).2, countedSince_concat, countNext_of_counted hl hcounted, h.backoff]
    split_ifs
    · omega
    · rw [p.interval_succ, Nat.add_right_comm]
  · rw [hsince]
    exact h.backoff

theorem Paced.charge (hp : p.baseBackoff ≤ p.maxBackoff) (h : Paced p history s) (hr : r.NoStop)
    {s' : RetryState} {cause : Option String} {delay : Option Duration}
    (hc : charge tag serverAddr s r.outcome.failure r.rejected r.now = .ok (s', cause, delay)) :
    Charged p history r s' delay := by
  rcases r.kinds hr with ⟨reason, hrej⟩ | hloss | ⟨t, hrate⟩ | ⟨hrej, reason, hout⟩
  · simp only [QuicTunnel.charge, hrej] at hc
    split_ifs at hc
    cases hc
    exact h.rejected hrej
  · simp only [QuicTunnel.charge, hloss.1, hloss.2, SessionOutcome.failure] at hc
    cases hc
    exact h.lost hp hloss
  · obtain ⟨hrej, reason, hout⟩ := id hrate
    simp only [QuicTunnel.charge, hrej, hout, SessionOutcome.failure] at hc
    cases hc
    exact h.rateLimited hrate _
  · simp only [QuicTunnel.charge, hrej, hout, SessionOutcome.failure] at hc
    split_ifs at hc
    cases hc
    exact h.failed hrej (Or.inr ⟨reason, hout⟩)

end Step

/-! ### Whole runs -/

/-- A turn of the loop is made from a state that is paced by the results before it. -/
theorem turn_paced {tag serverAddr : String} {p : ReconnectPolicy}
    (hp : p.baseBackoff ≤ p.maxBackoff) {before : List SessionResult} {r : SessionResult}
    {after : List SessionResult} (hstop : ∀ x ∈ before, x.NoStop) {turn : Turn}
    {history : List SessionResult} {s : RetryState} (h : Paced p history s)
    (hturn : (connectionRun tag serverAddr s (before ++ r :: after))[before.length]? =
      some turn) :
    ∃ s', Paced p (history ++ before) s' ∧
      (connectionRun tag serverAddr s' (r :: after))[0]? = some turn := by
  induction before generalizing history s with
  | nil =>
    rw [List.append_nil]
    exact ⟨s, h, hturn⟩
  | cons x before ih =>
    obtain ⟨hx, hrest⟩ := List.forall_mem_cons.1 hstop
    rw [List.cons_append] at hturn
    cases hc : charge tag serverAddr s x.outcome.failure x.rejected x.now with
    | error e =>
      -- the task has ended, so there is no turn at `r`
      rw [connectionRun_of_error tag serverAddr _ hx hc] at hturn
      simp at hturn
    | ok charged =>
      obtain ⟨s₁, cause, delay⟩ := charged
      rw [connectionRun_of_ok tag serverAddr _ hx hc] at hturn
      obtain ⟨s', hs', hturn'⟩ := ih hrest (h.charge hp hx hc).paced hturn
      refine ⟨s', ?_, hturn'⟩
      rwa [List.append_assoc, List.singleton_append] at hs'

/-- One doubling more is seen only below the ceiling. -/
theorem ReconnectPolicy.interval_succ_eq_iff {p : ReconnectPolicy} (hpos : 0 < p.baseBackoff.nanos)
    (k : ℕ) : p.interval (k + 1) = p.interval k ↔
      p.maxBackoff.nanos ≤ p.baseBackoff.nanos * 2 ^ k := by
  have hdoubled : 0 < p.baseBackoff.nanos * 2 ^ k := Nat.mul_pos hpos (Nat.two_pow_pos k)
  rw [← p.interval_succ, interval]
  omega

/-- **The backoff schedule.**  For a policy that `validate` accepts and results without a stop, the
wait reported for a counted result `r` is the documented one exactly if no session was lost before
it, or there was a rejection since, or the ceiling had been reached anyway. -/
theorem backoff_documented_iff (tag serverAddr : String) (p : ReconnectPolicy)
    (hv : p.validate = .ok ()) (before : List SessionResult) (r : SessionResult)
    (after : List SessionResult) (hstop : ∀ x ∈ before ++ r :: after, x.NoStop)
    (hcounted : r.Counted) (attempt : UInt32) (cause : String) (retryIn wait : Duration)
    (hreport : (connectionRun tag serverAddr (RetryState.new p)
        (before ++ r :: after))[before.length]? =
      some (.again (some (.attemptFailed tag serverAddr attempt cause retryIn)) wait)) :
    retryIn.nanos = documented p (before ++ [r]) ↔
      lostBefore before = false ∨ rejectedSince (before ++ [r]) = true ∨
        p.maxBackoff.nanos ≤ p.baseBackoff.nanos * 2 ^ countedSince before := by
  obtain ⟨hbase, hp, -⟩ := (p.validate_eq_ok_iff).1 hv
  have hpos : 0 < p.baseBackoff.nanos := by
    rw [Duration.isZero, beq_eq_false_iff_ne] at hbase
    omega
  have hr : r.NoStop := hstop r (by simp)
  obtain ⟨s, hs, hturn⟩ := turn_paced hp (fun x hx => hstop x (List.mem_append_left _ hx))
    (paced_new hp) hreport
  rw [List.nil_append] at hs
  -- the wait that the turn at `r` reports
  have hwait : retryIn.nanos =
      if rejectedSince (before ++ [r]) then p.maxBackoff.nanos
      else p.interval (countedSince before + (lostBefore before).toNat) := by
    cases hc : charge tag serverAddr s r.outcome.failure r.rejected r.now with
    | error e =>
      rw [connectionRun_of_error tag serverAddr after hr hc] at hturn
      cases hturn
    | ok charged =>
      obtain ⟨s', cause', delay⟩ := charged
      rw [connectionRun_of_ok tag serverAddr after hr hc] at hturn
      cases cause' with
      | none => cases hturn
      | some cause' =>
        cases hturn
        exact (hs.charge hp hr hc).reported hcounted
  have hcount : countedSince (before ++ [r]) - 1 = countedSince before := by
    rw [countedSince_concat, countNext_of_counted hcounted.not_plainLoss hcounted]
    rfl
  rw [hwait, documented, hcount]
  cases hrej : rejectedSince (before ++ [r]) with
  | true => simp
  | false =>
    cases hlost : lostBefore before with
    | false => simp
    | true =>
      simp only [Bool.false_eq_true, if_false, Bool.toNat_true, p.interval_succ_eq_iff hpos,
        false_or, Bool.true_eq_false]

/-- A session that was up and lost. -/
def lostSession : SessionResult := ⟨.lost, none, .unixEpoch, false⟩

/-- With the default policy, the second of two refused sessions is reported with 4 s. -/
theorem backoff_documented_second :
    documented .default [refusedSession, refusedSession] = (Duration.fromSecs 4).nanos := by
  have hreport : (connectionRun "SEC" "127.0.0.1:4433" (RetryState.new .default)
      ([refusedSession] ++ refusedSession :: []))[1]? =
      some (.again (some (.attemptFailed "SEC" "127.0.0.1:4433" 2 "connection refused"
        (.fromSecs 4))) (.fromSecs 4)) := by decide +kernel
  exact ((backoff_documented_iff "SEC" "127.0.0.1:4433" .default ReconnectPolicy.validate_shipped.1
    [refusedSession] refusedSession [] (by decide) (Or.inr ⟨_, rfl⟩) _ _ _ _ hreport).2
    (Or.inl rfl)).symm

/-- The first refused session after one that was lost is reported with 4 s too, and 2 s are
documented. -/
theorem backoff_doubled_by_loss :
    (connectionRun "SEC" "127.0.0.1:4433" (RetryState.new .default)
        ([lostSession] ++ refusedSession :: []))[1]? =
      some (.again (some (.attemptFailed "SEC" "127.0.0.1:4433" 1 "connection refused"
        (.fromSecs 4))) (.fromSecs 4)) ∧
    documented .default [lostSession, refusedSession] = (Duration.fromSecs 2).nanos := by
  constructor <;> decide +kernel

end QuicTunnel
