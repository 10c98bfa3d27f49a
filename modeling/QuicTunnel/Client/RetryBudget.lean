import QuicTunnel.Client.Retry

/-!
# The retry budget of `connection_run`

What the loop does after a session depends on its whole history only through one number: the
counted results (failures without a rate limit, and rejections) since the start or since the last
plain loss, `countedSince`.  `Tracks` ties the loop's two variables to it, `turn_of_exhausts` and
`turn_of_not_exhausts` say what one turn does in a tracked state, and the whole run is read off it:
the task ends with an error exactly at the first result that brings the count to `maxAttempts`, and
every other result that is not a plain loss is reported once, with its number and its wait.
-/

namespace QuicTunnel

namespace SessionResult

/-- The session was not stopped and no stop interrupts the wait after it. -/
def NoStop (r : SessionResult) : Prop := r.outcome ≠ .stopped ∧ r.stopInWait = false

/-- The session carried traffic and was lost, with no rejection in the slot. -/
def PlainLoss (r : SessionResult) : Prop := r.outcome = .lost ∧ r.rejected = none

/-- The session never came up because the CA rate-limited it until `t`. -/
def RateLimited (r : SessionResult) (t : SystemTime) : Prop :=
  r.rejected = none ∧ ∃ cause, r.outcome = .neverUp ⟨cause, some t⟩

/-- A failure without a rate limit, or any outcome with a rejection in the slot. -/
def Counted (r : SessionResult) : Prop :=
  r.rejected ≠ none ∨ ∃ cause, r.outcome = .neverUp ⟨cause, none⟩

instance (r : SessionResult) : Decidable r.NoStop := by unfold NoStop; infer_instance
instance (r : SessionResult) : Decidable r.PlainLoss := by unfold PlainLoss; infer_instance

/-- Whether a result counts against the budget. -/
def counts (r : SessionResult) : Bool :=
  r.rejected.isSome || match r.outcome with
    | .neverUp ⟨_, none⟩ => true
    | _ => false

theorem counts_iff (r : SessionResult) : r.counts = true ↔ r.Counted := by
  obtain ⟨outcome, rejected, now, stop⟩ := r
  rcases rejected with _ | reason
  · rcases outcome with _ | _ | ⟨cause, _ | t⟩ <;> simp [counts, Counted]
  · simp [counts, Counted]

/-- The four kinds of result of a session that was not stopped. -/
theorem kinds (r : SessionResult) (h : r.NoStop) :
    (∃ reason, r.rejected = some reason) ∨ r.PlainLoss ∨ (∃ t, r.RateLimited t) ∨
      (r.rejected = none ∧ ∃ cause, r.outcome = .neverUp ⟨cause, none⟩) := by
  obtain ⟨outcome, rejected, now, stop⟩ := r
  rcases rejected with _ | reason
  · rcases outcome with _ | _ | ⟨cause, _ | t⟩
    · exact absurd rfl h.1
    · exact Or.inr (Or.inl ⟨rfl, rfl⟩)
    · exact Or.inr (Or.inr (Or.inr ⟨rfl, cause, rfl⟩))
    · exact Or.inr (Or.inr (Or.inl ⟨t, rfl, cause, rfl⟩))
  · exact Or.inl ⟨reason, rfl⟩

end SessionResult

/-! ### The history in one number -/

/-- How one result moves the count of counted results since the last plain loss. -/
def countNext (n : ℕ) (r : SessionResult) : ℕ :=
  if r.PlainLoss then 0 else if r.counts then n + 1 else n

/-- The counted results since the start or since the last plain loss. -/
def countedSince (history : List SessionResult) : ℕ := history.foldl countNext 0

theorem countedSince_concat (history : List SessionResult) (r : SessionResult) :
    countedSince (history ++ [r]) = countNext (countedSince history) r := by
  simp [countedSince]

/-- The history has used the budget up; never, when the budget is unlimited. -/
def Exhausts (p : ReconnectPolicy) (n : ℕ) : Prop := p.maxAttempts ≠ 0 ∧ p.maxAttempts.toNat ≤ n

/-- Some result of the history already brought the count to the budget. -/
def Spent (p : ReconnectPolicy) (history : List SessionResult) : Prop :=
  ∃ first, first <+: history ∧ Exhausts p (countedSince first)

/-- The loop's variables after a history with count `n`: the attempt counter is the count,
saturated, and the backoff lies between the two bounds of the policy. -/
structure Tracks (p : ReconnectPolicy) (n : ℕ) (s : RetryState) : Prop where
  policy : s.policy = p
  attempts : s.attempts.toNat = min n (2 ^ 32 - 1)
  base_le : p.baseBackoff ≤ s.backoff
  le_max : s.backoff ≤ p.maxBackoff

section OneTurn

variable {p : ReconnectPolicy} {n : ℕ} {s : RetryState}

theorem tracks_new (hp : p.baseBackoff ≤ p.maxBackoff) : Tracks p 0 (RetryState.new p) :=
  ⟨rfl, rfl, le_rfl, hp⟩

theorem Tracks.failed (h : Tracks p n s) : Tracks p (n + 1) s.failed where
  policy := h.policy
  attempts := by
    show (saturatingAdd s.attempts 1).toNat = _
    rw [saturatingAdd_toNat, h.attempts, show (1 : UInt32).toNat = 1 from rfl]
    omega
  base_le := h.base_le
  le_max := h.le_max

theorem Tracks.rejected (hp : p.baseBackoff ≤ p.maxBackoff) (h : Tracks p n s) :
    Tracks p (n + 1) s.rejected where
  policy := h.policy
  attempts := h.failed.attempts
  base_le := by rw [RetryState.rejected_backoff, h.policy]; exact hp
  le_max := by rw [RetryState.rejected_backoff, h.policy]

theorem Tracks.recovered (hp : p.baseBackoff ≤ p.maxBackoff) (h : Tracks p n s) :
    Tracks p 0 s.recovered where
  policy := h.policy
  attempts := rfl
  base_le := by show p.baseBackoff ≤ s.policy.baseBackoff; rw [h.policy]
  le_max := by show s.policy.baseBackoff ≤ p.maxBackoff; rw [h.policy]; exact hp

/-- Doubling keeps the backoff between its bounds: it saturates above the ceiling, and the ceiling
is taken afterwards. -/
theorem Tracks.waited (h : Tracks p n s) (delay : Option Duration) :
    Tracks p n (s.waited delay) where
  policy := by rw [RetryState.waited_policy, h.policy]
  attempts := by rw [RetryState.waited_attempts, h.attempts]
  base_le := by
    have hb := h.base_le
    have hm := h.le_max
    have hcap := s.backoff.le_max
    cases delay with
    | some d => exact hb
    | none =>
      rw [Duration.le_iff] at hb hm ⊢
      simp only [RetryState.waited, Duration.min_nanos, Duration.saturatingMul, h.policy]
      omega
  le_max := by
    cases delay with
    | some d => exact h.le_max
    | none =>
      simp only [RetryState.waited, h.policy]
      exact min_le_right _ _

theorem Tracks.exhausted_iff (h : Tracks p n s) : s.exhausted = true ↔ Exhausts p n := by
  have hlt := p.maxAttempts.toNat_lt
  have hle : p.maxAttempts ≤ s.attempts ↔ p.maxAttempts.toNat ≤ n := by
    rw [UInt32.le_iff_toNat_le, h.attempts]
    omega
  unfold RetryState.exhausted ReconnectPolicy.exhausted Exhausts
  rw [h.policy, ← hle]
  simp

theorem Tracks.nextAttempt (h : Tracks p n s) :
    s.nextAttempt.toNat = min (1 + n) (2 ^ 32 - 1) := by
  show (saturatingAdd s.attempts 1).toNat = _
  rw [saturatingAdd_toNat, h.attempts, show (1 : UInt32).toNat = 1 from rfl]
  omega

end OneTurn

/-- The turn `t` reports the result `r` exactly once: numbered one past the count `n`, with a wait
of at least the base backoff; the ceiling bounds it unless the CA set a time, which it then
respects. -/
def ReportsOnce (tag serverAddr : String) (p : ReconnectPolicy) (n : ℕ) (r : SessionResult)
    (t : Turn) : Prop :=
  ∃ attempt cause retryIn,
    t = .again (some (.attemptFailed tag serverAddr attempt cause retryIn)) retryIn ∧
    attempt.toNat = min (1 + n) (2 ^ 32 - 1) ∧
    p.baseBackoff ≤ retryIn ∧
    ((∀ t, ¬ r.RateLimited t) → retryIn ≤ p.maxBackoff) ∧
    (∀ t, r.RateLimited t → (t.nanos - r.now.nanos).toNat ≤ retryIn.nanos)

section Turns

variable (tag serverAddr : String) {p : ReconnectPolicy} {n : ℕ} {s : RetryState}
  {r : SessionResult}

theorem connectionRun_of_error (rs : List SessionResult) {e : String} (hr : r.NoStop)
    (hc : charge tag serverAddr s r.outcome.failure r.rejected r.now = .error e) :
    connectionRun tag serverAddr s (r :: rs) = [.gaveUp e] := by
  rw [connectionRun, if_neg hr.1, hc]

theorem connectionRun_of_ok (rs : List SessionResult) {s' : RetryState} {cause : Option String}
    {delay : Option Duration} (hr : r.NoStop)
    (hc : charge tag serverAddr s r.outcome.failure r.rejected r.now = .ok (s', cause, delay)) :
    connectionRun tag serverAddr s (r :: rs) =
      .again (cause.map fun c => .attemptFailed tag serverAddr s.nextAttempt c
          (delay.getD s'.backoff)) (delay.getD s'.backoff) ::
        connectionRun tag serverAddr (s'.waited delay) rs := by
  rw [connectionRun, if_neg hr.1, hc]
  simp only [hr.2, Bool.false_eq_true, if_false]

theorem countNext_of_loss (h : r.PlainLoss) : countNext n r = 0 := if_pos h

theorem countNext_of_counted (hl : ¬ r.PlainLoss) (hc : r.Counted) : countNext n r = n + 1 := by
  rw [countNext, if_neg hl, if_pos ((r.counts_iff).2 hc)]

theorem countNext_of_rateLimited {t : SystemTime} (h : r.RateLimited t) : countNext n r = n := by
  obtain ⟨hrej, cause, hout⟩ := h
  have hl : ¬ r.PlainLoss := fun hl => by rw [hl.1] at hout; cases hout
  have hc : ¬ r.counts = true := by simp [SessionResult.counts, hrej, hout]
  rw [countNext, if_neg hl, if_neg hc]

/-- A counted result that uses the budget up ends the task, and nothing follows. -/
theorem turn_of_exhausts (hp : p.baseBackoff ≤ p.maxBackoff) (h : Tracks p n s) (hr : r.NoStop)
    (halive : ¬ Exhausts p n) (hex : Exhausts p (countNext n r)) (rs : List SessionResult) :
    ∃ e, connectionRun tag serverAddr s (r :: rs) = [.gaveUp e] := by
  rcases r.kinds hr with ⟨reason, hrej⟩ | hloss | ⟨t, hrate⟩ | ⟨hrej, cause, hout⟩
  · have hl : ¬ r.PlainLoss := fun hl => by rw [hl.2] at hrej; cases hrej
    rw [countNext_of_counted hl (Or.inl (by rw [hrej]; simp))] at hex
    have hspent := (h.rejected hp).exhausted_iff.2 hex
    exact ⟨_, connectionRun_of_error tag serverAddr rs hr (by rw [hrej]; exact if_pos hspent)⟩
  · rw [countNext_of_loss hloss] at hex
    have hpos : 0 < p.maxAttempts.toNat := by
      have := UInt32.toNat_inj.not.2 hex.1
      simpa [Nat.pos_iff_ne_zero] using this
    exact absurd hex.2 (by omega)
  · rw [countNext_of_rateLimited hrate] at hex
    exact absurd hex halive
  · have hl : ¬ r.PlainLoss := fun hl => by rw [hl.1] at hout; cases hout
    rw [countNext_of_counted hl (Or.inr ⟨cause, hout⟩)] at hex
    have hspent := h.failed.exhausted_iff.2 hex
    exact ⟨_, connectionRun_of_error tag serverAddr rs hr (by
      rw [hrej, hout]; exact if_pos hspent)⟩

/-- Any other result keeps the loop going in a state that tracks the new count; a plain loss is
silent, everything else is reported once. -/
theorem turn_of_not_exhausts (hp : p.baseBackoff ≤ p.maxBackoff) (h : Tracks p n s)
    (hr : r.NoStop) (hex : ¬ Exhausts p (countNext n r)) (rs : List SessionResult) :
    ∃ report retryIn s',
      connectionRun tag serverAddr s (r :: rs) =
        .again report retryIn :: connectionRun tag serverAddr s' rs ∧
      Tracks p (countNext n r) s' ∧
      (r.PlainLoss → report = none) ∧
      (¬ r.PlainLoss → ReportsOnce tag serverAddr p n r (.again report retryIn)) := by
  rcases r.kinds hr with ⟨reason, hrej⟩ | hloss | ⟨t, hrate⟩ | ⟨hrej, cause, hout⟩
  · -- a rejection: counted, at the ceiling
    have hl : ¬ r.PlainLoss := fun hl => by rw [hl.2] at hrej; cases hrej
    have hnr : ∀ t, ¬ r.RateLimited t := fun t ht => by rw [ht.1] at hrej; cases hrej
    have hcount := countNext_of_counted (n := n) hl (Or.inl (by rw [hrej]; simp))
    rw [hcount] at hex ⊢
    have ht := h.rejected hp
    have hgo : s.rejected.exhausted ≠ true := fun hs => hex (ht.exhausted_iff.1 hs)
    have hrun := connectionRun_of_ok tag serverAddr rs hr
      (by rw [hrej]; exact if_neg hgo)
    refine ⟨_, _, _, hrun, ht.waited _, fun hl' => absurd hl' hl, fun _ => ?_⟩
    exact ⟨_, _, _, rfl, h.nextAttempt, ht.base_le, fun _ => ht.le_max,
      fun t ht' => absurd ht' (hnr t)⟩
  · -- a plain loss: silent, and the count starts again
    rw [countNext_of_loss hloss]
    have hrun := connectionRun_of_ok tag serverAddr rs (s := s) hr (by rw [hloss.2, hloss.1]; rfl)
    exact ⟨_, _, _, hrun, (h.recovered hp).waited _, fun _ => rfl, fun hl => absurd hloss hl⟩
  · -- a rate limit: not counted, and the CA's time decides the wait
    rw [countNext_of_rateLimited hrate]
    obtain ⟨hrej, cause, hout⟩ := id hrate
    have hl : ¬ r.PlainLoss := fun hl => by rw [hl.1] at hout; cases hout
    have hrun := connectionRun_of_ok tag serverAddr rs (s := s) hr (by rw [hrej, hout]; rfl)
    refine ⟨_, _, _, hrun, h.waited _, fun hl' => absurd hl' hl, fun _ => ?_⟩
    refine ⟨_, _, _, rfl, h.nextAttempt, ?_, fun hn => absurd hrate (hn t), fun t' ht' => ?_⟩
    · rw [← h.policy]
      exact le_max_right _ _
    · obtain ⟨-, cause', hout'⟩ := ht'
      rw [hout] at hout'
      cases hout'
      rw [Option.getD_some, Duration.max_nanos, SystemTime.durationSince_getD_nanos]
      exact le_max_left _ _
  · -- a failure: counted, at the current backoff
    have hl : ¬ r.PlainLoss := fun hl => by rw [hl.1] at hout; cases hout
    have hnr : ∀ t, ¬ r.RateLimited t := fun t ht => by
      obtain ⟨-, cause', hout'⟩ := ht
      rw [hout] at hout'
      cases hout'
    rw [countNext_of_counted hl (Or.inr ⟨cause, hout⟩)] at hex ⊢
    have ht := h.failed
    have hgo : s.failed.exhausted ≠ true := fun hs => hex (ht.exhausted_iff.1 hs)
    have hrun := connectionRun_of_ok tag serverAddr rs hr
      (by rw [hrej, hout]; exact if_neg hgo)
    refine ⟨_, _, _, hrun, ht.waited _, fun hl' => absurd hl' hl, fun _ => ?_⟩
    exact ⟨_, _, _, rfl, h.nextAttempt, ht.base_le, fun _ => ht.le_max,
      fun t ht' => absurd ht' (hnr t)⟩

end Turns

/-! ### Whole runs -/

theorem not_exhausts_zero (p : ReconnectPolicy) : ¬ Exhausts p 0 := by
  rintro ⟨hne, hle⟩
  have := UInt32.toNat_inj.not.2 hne
  simp at this
  omega

section Runs

variable {tag serverAddr : String} {p : ReconnectPolicy}

/-- While no result of the history uses the budget up, the loop makes one turn per result and
ends in a state that tracks the count of the history. -/
theorem run_of_alive (hp : p.baseBackoff ≤ p.maxBackoff) {history rest : List SessionResult}
    (hstop : ∀ x ∈ history, x.NoStop) {n : ℕ} {s : RetryState} (h : Tracks p n s)
    (halive : ∀ first, first <+: history → ¬ Exhausts p (first.foldl countNext n)) :
    ∃ turns s', connectionRun tag serverAddr s (history ++ rest) =
        turns ++ connectionRun tag serverAddr s' rest ∧
      turns.length = history.length ∧ Tracks p (history.foldl countNext n) s' := by
  induction history generalizing n s with
  | nil => exact ⟨[], s, rfl, rfl, h⟩
  | cons r history ih =>
    have hr : r.NoStop := hstop r List.mem_cons_self
    have hex : ¬ Exhausts p (countNext n r) := halive [r] ⟨history, rfl⟩
    obtain ⟨report, retryIn, s₁, hrun, h₁, -, -⟩ := turn_of_not_exhausts tag serverAddr hp h hr hex
      (history ++ rest)
    obtain ⟨turns, s', hturns, hlen, h'⟩ := ih (fun x hx => hstop x (List.mem_cons_of_mem _ hx)) h₁
      (fun first hfirst => halive (r :: first) (List.cons_prefix_cons.2 ⟨rfl, hfirst⟩))
    refine ⟨.again report retryIn :: turns, s', ?_, by simp [hlen], h'⟩
    rw [List.cons_append, hrun, hturns, List.cons_append]

/-- Once a result has used the budget up, the loop makes no turn for any later result. -/
theorem run_of_spent (hp : p.baseBackoff ≤ p.maxBackoff) {history rest : List SessionResult}
    (hstop : ∀ x ∈ history, x.NoStop) {n : ℕ} {s : RetryState} (h : Tracks p n s)
    (halive : ¬ Exhausts p n)
    (hspent : ∃ first, first <+: history ∧ Exhausts p (first.foldl countNext n)) :
    (connectionRun tag serverAddr s (history ++ rest)).length ≤ history.length := by
  induction history generalizing n s with
  | nil =>
    obtain ⟨first, hfirst, hex⟩ := hspent
    rw [List.prefix_nil.1 hfirst] at hex
    exact absurd hex halive
  | cons r history ih =>
    have hr : r.NoStop := hstop r List.mem_cons_self
    by_cases hex : Exhausts p (countNext n r)
    · obtain ⟨e, he⟩ := turn_of_exhausts tag serverAddr hp h hr halive hex
        (history ++ rest)
      rw [List.cons_append, he]
      simp
    · obtain ⟨report, retryIn, s₁, hrun, h₁, -, -⟩ := turn_of_not_exhausts tag
        serverAddr hp h hr hex (history ++ rest)
      obtain ⟨first, hfirst, hfirstEx⟩ := hspent
      cases first with
      | nil => exact absurd hfirstEx halive
      | cons x first =>
        obtain ⟨rfl, hrest⟩ := List.cons_prefix_cons.1 hfirst
        have hlen := ih (fun y hy => hstop y (List.mem_cons_of_mem _ hy)) h₁ hex
          ⟨first, hrest, hfirstEx⟩
        rw [List.cons_append, hrun]
        simpa using hlen

end Runs

/-- **The retry budget.**  For a policy that `validate` accepts and results without a stop, take
any result `r` of the run.  If an earlier result used the budget up, the loop is over.  Otherwise
the task ends with an error at `r` exactly when `r` brings the counted results since the last
plain loss to `maxAttempts`; and if it does not, a plain loss is silent and everything else is
reported exactly once. -/
theorem connectionRun_budget (tag serverAddr : String) (p : ReconnectPolicy)
    (hv : p.validate = .ok ()) (before : List SessionResult) (r : SessionResult)
    (after : List SessionResult) (hstop : ∀ x ∈ before ++ r :: after, x.NoStop) :
    let turns := connectionRun tag serverAddr (RetryState.new p) (before ++ r :: after)
    (Spent p before → turns.length ≤ before.length) ∧
    (¬ Spent p before → Exhausts p (countedSince (before ++ [r])) →
      turns.length = before.length + 1 ∧ ∃ e, turns[before.length]? = some (.gaveUp e)) ∧
    (¬ Spent p before → ¬ Exhausts p (countedSince (before ++ [r])) → r.PlainLoss →
      ∃ retryIn, turns[before.length]? = some (.again none retryIn)) ∧
    (¬ Spent p before → ¬ Exhausts p (countedSince (before ++ [r])) → ¬ r.PlainLoss →
      ∃ t, turns[before.length]? = some t ∧
        ReportsOnce tag serverAddr p (countedSince before) r t) := by
  have hp : p.baseBackoff ≤ p.maxBackoff := ((p.validate_eq_ok_iff).1 hv).2.1
  have hbefore : ∀ x ∈ before, x.NoStop := fun x hx => hstop x (List.mem_append_left _ hx)
  have hr : r.NoStop := hstop r (by simp)
  have h₀ := tracks_new hp
  intro turns
  -- the turn at `r`, once the loop is known to reach it
  have reached : ¬ Spent p before → ∃ turns' s', turns = turns' ++
      connectionRun tag serverAddr s' (r :: after) ∧ turns'.length = before.length ∧
      Tracks p (countedSince before) s' := fun hns =>
    run_of_alive hp hbefore h₀ (fun first hfirst hex => hns ⟨first, hfirst, hex⟩)
  refine ⟨fun hspent => run_of_spent hp hbefore h₀ (not_exhausts_zero p) hspent, ?_, ?_, ?_⟩
  · intro hns hex
    obtain ⟨turns', s', hturns, hlen, hs'⟩ := reached hns
    rw [countedSince_concat] at hex
    have halive : ¬ Exhausts p (countedSince before) := fun he => hns ⟨before, List.prefix_rfl, he⟩
    obtain ⟨e, he⟩ := turn_of_exhausts tag serverAddr hp hs' hr halive hex
      after
    rw [he] at hturns
    exact ⟨by rw [hturns]; simp [hlen], e, by rw [hturns, ← hlen]; simp⟩
  · intro hns hex hloss
    obtain ⟨turns', s', hturns, hlen, hs'⟩ := reached hns
    rw [countedSince_concat] at hex
    obtain ⟨report, retryIn, s₁, hrun, -, hsilent, -⟩ := turn_of_not_exhausts tag
      serverAddr hp hs' hr hex after
    rw [hrun, hsilent hloss] at hturns
    exact ⟨retryIn, by rw [hturns, ← hlen]; simp⟩
  · intro hns hex hloss
    obtain ⟨turns', s', hturns, hlen, hs'⟩ := reached hns
    rw [countedSince_concat] at hex
    obtain ⟨report, retryIn, s₁, hrun, -, -, hreport⟩ := turn_of_not_exhausts tag
      serverAddr hp hs' hr hex after
    rw [hrun] at hturns
    exact ⟨.again report retryIn, by rw [hturns, ← hlen]; simp, hreport hloss⟩

/-- A session that could not connect. -/
def refusedSession : SessionResult :=
  ⟨.neverUp ⟨"connection refused", none⟩, none, .unixEpoch, false⟩

/-- With the default policy and its base backoff of 2 s, four refused sessions are reported and
the fifth ends the task. -/
theorem connectionRun_budget_default :
    let before := List.replicate 4 refusedSession
    let turns := connectionRun "SEC" "127.0.0.1:4433" (RetryState.new ReconnectPolicy.default)
      (before ++ refusedSession :: [])
    turns.length = 5 ∧ ∃ e, turns[4]? = some (.gaveUp e) := by
  have h := connectionRun_budget "SEC" "127.0.0.1:4433" ReconnectPolicy.default
    ReconnectPolicy.validate_shipped.1 (List.replicate 4 refusedSession) refusedSession []
    (by decide)
  refine h.2.1 ?_ ⟨by decide, by decide⟩
  rintro ⟨first, ⟨rest, hfirst⟩, -, hcount⟩
  -- a prefix of four refused sessions counts at most four
  have hle : countedSince first ≤ 4 := by
    obtain ⟨k, hk, rfl⟩ : ∃ k ≤ 4, first = List.replicate k refusedSession := by
      obtain ⟨hlen, hrep, -⟩ := List.append_eq_replicate_iff.1 hfirst
      exact ⟨first.length, by omega, hrep⟩
    interval_cases k <;> decide
  exact absurd hcount (by rw [show ReconnectPolicy.default.maxAttempts.toNat = 5 from rfl]; omega)

end QuicTunnel
