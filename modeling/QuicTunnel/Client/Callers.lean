import QuicTunnel.Client.Provisioner

/-!
# What a caller of the provisioner may do

`step_move` is the inversion of the provisioner's step: beside new calls, the cache and the clock,
one caller moves, and its move is one of

* `Edge`: from one point to another, with the cache, the channels and the entries in flight
  untouched;
* the certificate is put in the cache;
* `Unlink`: the entry of its domain is removed;
* `Touch`: the channels of the order it holds change;
* the claim, which makes a new order.
-/

namespace QuicTunnel.Acme

/-! ### Positions -/

/-- The order whose entry the caller has put in flight and not removed. -/
def Pc.owns : Pc → Option ℕ
  | .setup n | .setupFailed n _ | .leader n _ _ | .finalizing n | .caching n _ | .publish n _
  | .finalRemove n _ => some n
  | _ => none

/-- The order whose certificate sender the caller holds. -/
def Pc.holds : Pc → Option ℕ
  | .dropSenders n _ | .dropPending n _ => some n
  | pc => pc.owns

/-- The order whose entry the caller has cloned. -/
def Pc.reads : Pc → Option ℕ
  | .probed n | .borrow n | .waitKeyAuth n | .removeStale n => some n
  | _ => none

theorem Pc.holds_of_owns {pc : Pc} {n : ℕ} (h : pc.owns = some n) : pc.holds = some n := by
  cases pc <;> simp_all [Pc.holds, Pc.owns]

/-- Caller `i` is `c`. -/
abbrev State.CallerAt (s : State) (i : ℕ) (c : Caller) : Prop := s.callers[i]? = some c

/-- Order `n` is `o`. -/
abbrev State.OrderAt (s : State) (n : ℕ) (o : Order) : Prop := s.orders[n]? = some o

theorem State.OrderAt.unique {s : State} {n : ℕ} {o o' : Order} (h : s.OrderAt n o)
    (h' : s.OrderAt n o') : o = o' :=
  Option.some.inj (h.symm.trans h')

/-- The callers after caller `i` has become `d`. -/
theorem callerAt_cases {s t : State} {i j : ℕ} {c d c' : Caller} (hi : s.CallerAt i c)
    (hcallers : t.callers = s.callers.set i d) (hj : t.CallerAt j c') :
    j = i ∧ c' = d ∨ j ≠ i ∧ s.CallerAt j c' := by
  rw [State.CallerAt, hcallers] at hj
  by_cases hji : j = i
  · subst hji
    rw [List.getElem?_set_self (List.getElem?_eq_some_iff.1 hi).1] at hj
    exact .inl ⟨rfl, (Option.some.inj hj).symm⟩
  · rw [List.getElem?_set_ne (Ne.symm hji)] at hj
    exact .inr ⟨hji, hj⟩

theorem callerAt_self {s t : State} {i : ℕ} {c d c' : Caller} (hi : s.CallerAt i c)
    (hcallers : t.callers = s.callers.set i d) (hi' : t.CallerAt i c') : c' = d := by
  rcases callerAt_cases hi hcallers hi' with ⟨-, h⟩ | ⟨h, -⟩
  · exact h
  · exact absurd rfl h

/-- The orders after a new one was made. -/
theorem orderAt_cases {s t : State} {n : ℕ} {o new : Order} (horders : t.orders = s.orders ++ [new])
    (ho : t.OrderAt n o) : s.OrderAt n o ∨ n = s.orders.length ∧ o = new := by
  rw [State.OrderAt, horders, List.getElem?_append] at ho
  split_ifs at ho with hn
  · exact .inl ho
  · obtain ⟨hz, rfl⟩ := List.getElem?_eq_some_iff.1 ho
    simp only [List.length_singleton] at hz
    exact .inr ⟨by omega, by simp⟩

/-! ### Moves -/

/-- A caller of `domain` goes on; nothing it shares with the others changes. -/
inductive Edge (s : State) (domain : String) : Pc → Pc → Prop
  | hit {e : CacheEntry} (hcache : s.cache domain = some e) (hfresh : s.now < e.renewAt) :
    Edge s domain .checkCache (.cached e.certPem)
  | miss : Edge s domain .checkCache .probe
  | clone {n : ℕ} (hflight : s.inFlight domain = some n) : Edge s domain .probe (.probed n)
  | vacant : Edge s domain .probe .claim
  | stale {n : ℕ} {o : Order} (ho : s.OrderAt n o) (hclosed : o.cert.closed = true) :
    Edge s domain (.probed n) (.removeStale n)
  | fresh (n : ℕ) : Edge s domain (.probed n) (.borrow n)
  | early (n : ℕ) : Edge s domain (.borrow n) (.waitKeyAuth n)
  | follow {pc : Pc} {n : ℕ} {o : Order} {keyAuth : String} (hpc : pc.reads = some n)
    (ho : s.OrderAt n o) (hvalue : o.keyAuth.value = some keyAuth) :
    Edge s domain pc (.follower n keyAuth)
  | empty {n : ℕ} {o : Order} (ho : s.OrderAt n o) (hr : o.keyAuth.changed 0 = some (.ok none)) :
    Edge s domain (.waitKeyAuth n) (.removeStale n)
  | lost {n : ℕ} {o : Order} {u : Unit} (ho : s.OrderAt n o)
    (hr : o.keyAuth.changed 0 = some (.error u)) :
    Edge s domain (.waitKeyAuth n) (.removeStale n)
  | lostRace : Edge s domain .claim .checkCache
  | setupFailed (n : ℕ) (e : String) : Edge s domain (.setup n) (.setupFailed n e)
  | finalize (n : ℕ) (keyAuth url : String) : Edge s domain (.leader n keyAuth url) (.finalizing n)
  | issued (n : ℕ) (pem : String) : Edge s domain (.finalizing n) (.caching n pem)
  | refused (n : ℕ) (e : String) : Edge s domain (.finalizing n) (.finalRemove n (.error e))
  | followed {n : ℕ} {keyAuth pem : String} {o : Order} (ho : s.OrderAt n o)
    (hr : o.cert.changed 0 = some (.ok (some pem))) :
    Edge s domain (.follower n keyAuth) (.followed n pem)
  | unfollowed (n : ℕ) (keyAuth e : String) : Edge s domain (.follower n keyAuth) (.failed e)
  | dropped {pc : Pc} (hpc : pc.holds = none) : Edge s domain pc .dropped

/-- A caller removes the entry of its domain. -/
inductive Unlink : Pc → Pc → Prop
  | stale (n : ℕ) : Unlink (.removeStale n) .checkCache
  | setupFailed (n : ℕ) (e : String) : Unlink (.setupFailed n e) (.dropSenders n e)
  | final (n : ℕ) (result : Except String String) :
    Unlink (.finalRemove n result) (.dropPending n result)

/-- A caller changes the channels of order `n`, which it holds. -/
inductive Touch (n : ℕ) : Pc → Pc → (Order → Order) → Prop
  | lead (keyAuth url : String) :
    Touch n (.setup n) (.leader n keyAuth url) fun o =>
      { o with keyAuth := (o.keyAuth.send (some keyAuth)).close }
  | publish (pem : String) :
    Touch n (.publish n pem) (.finalRemove n (.ok pem)) fun o =>
      { o with cert := o.cert.send (some pem) }
  /-- Both senders are dropped: no key authorization was published. -/
  | dropBoth {pc pc' : Pc}
    (hpc : pc = .setup n ∨ ∃ e, pc = .setupFailed n e ∨ pc = .dropSenders n e)
    (hpc' : pc' = .dropped ∨ ∃ e, pc' = .failed e) :
    Touch n pc pc' fun o => { o with keyAuth := o.keyAuth.close, cert := o.cert.close }
  /-- The sender of the certificate is dropped; right before it publishes is no await point. -/
  | dropCert {pc pc' : Pc} (hpc : pc.holds = some n) (hpublish : ∀ pem, pc ≠ .publish n pem)
    (hpc' : pc' = .dropped ∨ (∃ e, pc' = .failed e) ∨
      ∃ pem, pc = .dropPending n (.ok pem) ∧ pc' = .finalized n pem) :
    Touch n pc pc' fun o => { o with cert := o.cert.close }

/-- What a step of caller `i`, which is `c`, leaves. -/
inductive CallerMove (s : State) (i : ℕ) (c : Caller) : Action → State → Prop
  | edge {a : Action} {pc : Pc} {t : State} (h : Edge s c.domain c.pc pc)
    (hcallers : t.callers = s.callers.set i { c with pc := pc }) (hcache : t.cache = s.cache)
    (horders : t.orders = s.orders) (hflight : t.inFlight = s.inFlight) (hnow : t.now = s.now) :
    CallerMove s i c a t
  | cache {n : ℕ} {pem : String} {renewAt : Option Instant} (hpc : c.pc = .caching n pem) :
    CallerMove s i c (.cache i renewAt) { s.goto i c (.publish n pem) with
      cache := Function.update s.cache c.domain
        (some ⟨pem, renewAt.getD (s.now + defaultRenewAfter.nanos)⟩) }
  | unlink {pc : Pc} (h : Unlink c.pc pc) :
    CallerMove s i c (.step i) ((s.goto i c pc).remove c.domain)
  | touch {a : Action} {pc : Pc} {n : ℕ} {f : Order → Order} (h : Touch n c.pc pc f) :
    CallerMove s i c a ((s.goto i c pc).update n f)
  | claim (hpc : c.pc = .claim) (hflight : s.inFlight c.domain = none) :
    CallerMove s i c (.step i) { s.goto i c (.setup s.orders.length) with
      inFlight := Function.update s.inFlight c.domain (some s.orders.length)
      orders := s.orders ++ [⟨i, .channel none, .channel none⟩] }

/-- What a step leaves. -/
inductive Move (s : State) : Action → State → Prop
  | prepare (domain : String) :
    Move s (.prepare domain) { s with callers := s.callers ++ [⟨domain, .checkCache⟩] }
  /-- Neither the callers nor their orders are concerned. -/
  | idle {a : Action} {t : State} (hcallers : t.callers = s.callers) (horders : t.orders = s.orders)
    (hflight : t.inFlight = s.inFlight) : Move s a t
  | caller {a : Action} {t : State} {i : ℕ} {c : Caller} (hi : s.CallerAt i c)
    (hmove : CallerMove s i c a t) : Move s a t

section Inversion

variable {s t : State} {a : Action} {i : ℕ} {c : Caller}

/-- A move along an edge that changes nothing but the point of the caller. -/
theorem CallerMove.goto {pc₀ pc : Pc} (hpc : c.pc = pc₀) (h : Edge s c.domain pc₀ pc) :
    CallerMove s i c a (s.goto i c pc) := by
  subst hpc
  exact .edge h rfl rfl rfl rfl rfl

theorem advance_move (h : advance s i c = some t) : CallerMove s i c (.step i) t := by
  unfold advance at h
  split at h <;> rename_i hpc
  · -- `checkCache`
    split at h <;> cases h
    · rename_i hcache
      split_ifs with hfresh
      · exact .goto hpc (.hit hcache hfresh)
      · exact .goto hpc .miss
    · exact .goto hpc .miss
  · -- `probe`
    split at h <;> cases h
    · rename_i hflight
      exact .goto hpc (.clone hflight)
    · exact .goto hpc .vacant
  · -- `probed`
    obtain ⟨o, ho, h⟩ := Option.bind_eq_some_iff.1 h
    split at h <;> cases h
    · rename_i hchanged
      exact .goto hpc (.stale ho (Watch.hasChanged_eq_error hchanged))
    · exact .goto hpc (.fresh _)
  · -- `borrow`
    obtain ⟨o, ho, h⟩ := Option.bind_eq_some_iff.1 h
    split at h <;> cases h
    · rename_i hvalue
      exact .goto hpc (.follow rfl ho hvalue)
    · exact .goto hpc (.early _)
  · -- `waitKeyAuth`
    obtain ⟨o, ho, h⟩ := Option.bind_eq_some_iff.1 h
    obtain ⟨r, hr, h⟩ := Option.bind_eq_some_iff.1 h
    split at h <;> cases h
    · exact .goto hpc (.follow rfl ho (Watch.changed_eq_ok hr).2.symm)
    · exact .goto hpc (.empty ho hr)
    · exact .goto hpc (.lost ho hr)
  · -- `removeStale`
    cases h
    exact .unlink (by rw [hpc]; exact .stale _)
  · -- `claim`
    split_ifs at h with hsome <;> cases h
    · exact .goto hpc .lostRace
    · exact .claim hpc (by simpa using hsome)
  · -- `setupFailed`
    cases h
    exact .unlink (by rw [hpc]; exact .setupFailed _ _)
  · -- `dropSenders`
    cases h
    exact .touch (.dropBoth (.inr ⟨_, .inr hpc⟩) (.inr ⟨_, rfl⟩))
  · -- `publish`
    cases h
    exact .touch (by rw [hpc]; exact .publish _)
  · -- `finalRemove`
    cases h
    exact .unlink (by rw [hpc]; exact .final _ _)
  · -- `dropPending`
    rename_i n result
    cases h
    have hholds : c.pc.holds = some n := by rw [hpc]; rfl
    have hpublish : ∀ pem, c.pc ≠ .publish n pem := by rw [hpc]; nofun
    cases result with
    | ok pem => exact .touch (.dropCert hholds hpublish (.inr (.inr ⟨pem, hpc, rfl⟩)))
    | error e => exact .touch (.dropCert hholds hpublish (.inr (.inl ⟨e, rfl⟩)))
  · -- `follower`
    obtain ⟨o, ho, h⟩ := Option.bind_eq_some_iff.1 h
    obtain ⟨r, hr, h⟩ := Option.bind_eq_some_iff.1 h
    split at h <;> cases h
    · exact .goto hpc (.followed ho hr)
    · exact .goto hpc (.unfollowed _ _ _)
    · exact .goto hpc (.unfollowed _ _ _)
  · cases h

theorem answerSetup_move {reply : Except String (List (Except String Authorization))}
    (h : answerSetup s i c reply = some t) : CallerMove s i c a t := by
  unfold answerSetup at h
  split at h <;> rename_i hpc
  · split at h <;> cases h
    · exact .touch (by rw [hpc]; exact .lead _ _)
    · exact .goto hpc (.setupFailed _ _)
  · cases h

theorem answerIssue_move {reply : Except String String}
    (h : answerIssue s i c reply = some t) : CallerMove s i c a t := by
  unfold answerIssue at h
  split at h <;> rename_i hpc
  · split at h <;> cases h
    · exact .edge (by rw [hpc]; exact .issued _ _) rfl rfl rfl rfl rfl
    · exact .goto hpc (.refused _ _)
  · cases h

theorem insertIssued_move {renewAt : Option Instant} (h : insertIssued s i c renewAt = some t) :
    CallerMove s i c (.cache i renewAt) t := by
  unfold insertIssued at h
  split at h <;> rename_i hpc <;> cases h
  exact .cache hpc

theorem cancelled_move (h : cancelled s i c = some t) : CallerMove s i c a t := by
  unfold cancelled at h
  split at h <;> rename_i hpc <;> cases h
  all_goals
    first
    | exact .goto rfl (.dropped (by rw [hpc]; rfl))
    | exact .touch (.dropCert (by rw [hpc]; rfl) (by rw [hpc]; nofun) (.inl rfl))
    | exact .touch (.dropBoth (.inl hpc) (.inl rfl))
    | exact .touch (.dropBoth (.inr ⟨_, .inl hpc⟩) (.inl rfl))

theorem step_move (h : step s a = some t) : Move s a t := by
  cases a with
  | prepare domain =>
    cases h
    exact .prepare domain
  | step i =>
    obtain ⟨c, hi, h⟩ := Option.bind_eq_some_iff.1 h
    exact .caller hi (advance_move h)
  | setup i reply =>
    obtain ⟨c, hi, h⟩ := Option.bind_eq_some_iff.1 h
    exact .caller hi (answerSetup_move h)
  | finalize i =>
    obtain ⟨c, hi, h⟩ := Option.bind_eq_some_iff.1 h
    split at h <;> rename_i hpc <;> cases h
    exact .caller hi (.goto hpc (.finalize _ _ _))
  | issue i reply =>
    obtain ⟨c, hi, h⟩ := Option.bind_eq_some_iff.1 h
    exact .caller hi (answerIssue_move h)
  | cache i renewAt =>
    obtain ⟨c, hi, h⟩ := Option.bind_eq_some_iff.1 h
    exact .caller hi (insertIssued_move h)
  | cancel i =>
    obtain ⟨c, hi, h⟩ := Option.bind_eq_some_iff.1 h
    exact .caller hi (cancelled_move h)
  | seed domain entry =>
    cases h
    exact .idle rfl rfl rfl
  | tick elapsed =>
    cases h
    exact .idle rfl rfl rfl

theorem CallerMove.callers (h : CallerMove s i c a t) :
    ∃ pc, t.callers = s.callers.set i { c with pc := pc } := by
  cases h with
  | edge _ hcallers => exact ⟨_, hcallers⟩
  | cache | unlink | touch | claim => exact ⟨_, rfl⟩

/-- A caller past the start of `prepare` was there before the step, or the step moved it. -/
theorem moved_of_step {d : Caller} (h : step s a = some t) (hi : t.CallerAt i d)
    (hd : d.pc ≠ .checkCache) : s.CallerAt i d ∨ ∃ c, s.CallerAt i c ∧ CallerMove s i c a t := by
  cases step_move h with
  | prepare domain =>
    rw [State.CallerAt, List.getElem?_append] at hi
    split_ifs at hi
    · exact .inl hi
    · rw [List.mem_singleton.1 (List.mem_of_getElem? hi)] at hd
      exact absurd rfl hd
  | idle hcallers =>
    rw [State.CallerAt, hcallers] at hi
    exact .inl hi
  | caller hj hmove =>
    obtain ⟨pc, hcallers⟩ := hmove.callers
    rcases callerAt_cases hj hcallers hi with ⟨rfl, -⟩ | ⟨-, hi⟩
    · exact .inr ⟨_, hj, hmove⟩
    · exact .inl hi

end Inversion

end QuicTunnel.Acme
