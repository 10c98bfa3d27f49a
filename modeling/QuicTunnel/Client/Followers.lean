import QuicTunnel.Client.Callers

/-!
# Followers and their leader

A follower shares the key authorization of an order and waits for its certificate.  Both channels
of an order are written by one caller, its leader, and each at most once: `Order.Le` says that a
value, once there, stays.  `Paired` ties every caller to the channels of the order it is about; it
is kept by every step, whoever removes which entry in flight.

What a follower reads was therefore written by the leader of its own order: following the run back
to the step that wrote it (`exists_step_of_runs`), the key authorization is the one of the
`LeaderChallenge` the leader was given (`Led`), and the certificate is the one its `finalize` put in
the cache (`Stored`).  `finalize` publishes before its last await point, so it may be dropped after
the followers have the certificate, and then does not return it.
-/

namespace QuicTunnel.Acme

open Transition

/-! ### Orders and the points about them -/

/-- The order a point is about. -/
def Pc.order : Pc → Option ℕ
  | .follower n _ | .followed n _ | .finalized n _ => some n
  | pc => pc.holds.or pc.reads

/-- The order a point is about, for its leader. -/
def Pc.leads : Pc → Option ℕ
  | .finalized n _ => some n
  | pc => pc.holds

/-- What a caller at a point knows about the channels of its order. -/
def Pc.Agrees (o : Order) : Pc → Prop
  | .setup _ | .setupFailed _ _ | .dropSenders _ _ => o.keyAuth.value = none ∧ o.cert.value = none
  | .leader _ keyAuth _ => o.keyAuth.value = some keyAuth ∧ o.cert.value = none
  | .finalizing _ | .caching _ _ | .publish _ _ | .finalRemove _ (.error _)
  | .dropPending _ (.error _) => o.cert.value = none
  | .finalRemove _ (.ok pem) | .dropPending _ (.ok pem) | .finalized _ pem | .followed _ pem =>
    o.cert.value = some pem
  | .follower _ keyAuth => o.keyAuth.value = some keyAuth
  | _ => True

/-- A later state of an order: what was published stays. -/
structure Order.Le (o o' : Order) : Prop where
  leader : o'.leader = o.leader
  keyAuth : ∀ keyAuth, o.keyAuth.value = some keyAuth → o'.keyAuth.value = some keyAuth
  cert : ∀ pem, o.cert.value = some pem → o'.cert.value = some pem

theorem Order.Le.refl (o : Order) : o.Le o := ⟨rfl, fun _ h => h, fun _ h => h⟩

theorem Order.Le.trans {o o' o'' : Order} (h : o.Le o') (h' : o'.Le o'') : o.Le o'' :=
  ⟨h'.leader.trans h.leader, fun ka hka => h'.keyAuth ka (h.keyAuth ka hka),
    fun pem hpem => h'.cert pem (h.cert pem hpem)⟩

/-- A channel something was sent on is not empty. -/
def Order.Settled (o : Order) : Prop :=
  (o.keyAuth.version ≠ 0 → o.keyAuth.value ≠ none) ∧ (o.cert.version ≠ 0 → o.cert.value ≠ none)

theorem Pc.order_of_holds {pc : Pc} {n : ℕ} (h : pc.holds = some n) : pc.order = some n := by
  cases pc <;> simp_all [Pc.order, Pc.holds, Pc.owns]

theorem Pc.order_of_reads {pc : Pc} {n : ℕ} (h : pc.reads = some n) : pc.order = some n := by
  cases pc <;> simp_all [Pc.order, Pc.holds, Pc.owns, Pc.reads]

theorem Pc.leads_of_holds {pc : Pc} {n : ℕ} (h : pc.holds = some n) : pc.leads = some n := by
  cases pc <;> simp_all [Pc.leads, Pc.holds, Pc.owns]

/-- Whoever does not hold the order knows only what stays. -/
theorem Pc.Agrees.mono {pc : Pc} {o o' : Order} (h : pc.Agrees o) (hle : o.Le o')
    (hholds : pc.holds = none) : pc.Agrees o' := by
  cases pc with
  | follower n ka => exact hle.keyAuth ka h
  | followed n pem | finalized n pem => exact hle.cert pem h
  | checkCache | probe | probed | borrow | waitKeyAuth | removeStale | claim | cached | failed
  | dropped => trivial
  | _ => cases hholds

/-! ### The invariant -/

/-- Order `n` was made by a caller of `domain`. -/
def State.OrderOf (s : State) (domain : String) (n : ℕ) : Prop :=
  ∃ o c, s.OrderAt n o ∧ s.CallerAt o.leader c ∧ c.domain = domain

/-- A point that caller `i` of `domain` may be at. -/
def State.Fits (s : State) (i : ℕ) (domain : String) (pc : Pc) : Prop :=
  ∀ n, pc.order = some n → s.OrderOf domain n ∧
    ∀ o, s.OrderAt n o → pc.Agrees o ∧ (pc.leads = some n → o.leader = i)

structure Paired (s : State) : Prop where
  inFlight : ∀ domain n, s.inFlight domain = some n → s.OrderOf domain n
  fits : ∀ i c, s.CallerAt i c → s.Fits i c.domain c.pc
  settled : ∀ n o, s.OrderAt n o → o.Settled

theorem paired_init (now : Instant) : Paired (init now) := by
  constructor <;> simp [init]

/-- Nothing is forgotten from `s` to `t`. -/
structure Grows (s t : State) : Prop where
  callers : ∀ i c, s.CallerAt i c → ∃ c', t.CallerAt i c' ∧ c'.domain = c.domain
  orders : ∀ n o, s.OrderAt n o → ∃ o', t.OrderAt n o' ∧ o.Le o'

theorem Grows.orderOf {s t : State} (h : Grows s t) {domain : String} {n : ℕ}
    (hn : s.OrderOf domain n) : t.OrderOf domain n := by
  obtain ⟨o, c, ho, hc, rfl⟩ := hn
  obtain ⟨o', ho', hle⟩ := h.orders n o ho
  obtain ⟨c', hc', hdomain⟩ := h.callers o.leader c hc
  exact ⟨o', c', ho', by rw [hle.leader]; exact hc', hdomain⟩

/-- What fits still does where the orders are the same. -/
theorem State.Fits.grows {s t : State} {i : ℕ} {domain : String} {pc : Pc}
    (h : s.Fits i domain pc) (hg : Grows s t) (horders : t.orders = s.orders) :
    t.Fits i domain pc := by
  intro n hn
  obtain ⟨hof, hall⟩ := h n hn
  refine ⟨hg.orderOf hof, fun o ho => hall o ?_⟩
  rw [State.OrderAt, horders] at ho
  exact ho

/-- A point about no order fits. -/
theorem State.Fits.free {s : State} {i : ℕ} {domain : String} {pc : Pc} (h : pc.order = none) :
    s.Fits i domain pc := by
  intro n hn
  rw [h] at hn
  cases hn

/-- A caller that stays with its order, and knows no more about it, still fits. -/
theorem State.Fits.keep {s : State} {i n : ℕ} {domain : String} {pc pc' : Pc}
    (h : s.Fits i domain pc) (horder : pc.order = some n) (horder' : pc'.order = some n)
    (hagrees : ∀ o, s.OrderAt n o → pc.Agrees o → pc'.Agrees o)
    (hleads : ∀ n, pc'.leads = some n → pc.leads = some n) : s.Fits i domain pc' := by
  intro m hm
  obtain rfl : n = m := Option.some.inj (horder'.symm.trans hm)
  obtain ⟨hof, hall⟩ := h n horder
  exact ⟨hof, fun o ho => ⟨hagrees o ho (hall o ho).1, fun hl => (hall o ho).2 (hleads n hl)⟩⟩

section Moves

variable {s t : State} {a : Action} {i : ℕ} {c : Caller} {pc : Pc}

/-- Every point an edge leads to fits. -/
theorem Paired.edge (h : Paired s) (hi : s.CallerAt i c) (he : Edge s c.domain c.pc pc) :
    s.Fits i c.domain pc := by
  have hfits := h.fits i c hi
  obtain ⟨domain, pc₀⟩ := c
  cases he with
  | hit | miss | vacant | lostRace | unfollowed | dropped => exact .free rfl
  | clone hflight =>
    intro m hm
    cases hm
    exact ⟨h.inFlight _ _ hflight, fun o _ => ⟨trivial, nofun⟩⟩
  | stale | fresh | early | empty | lost =>
    exact hfits.keep rfl rfl (fun _ _ h => h) nofun
  | follow hpc ho hvalue =>
    refine hfits.keep (Pc.order_of_reads hpc) rfl (fun o' ho' _ => ?_) nofun
    rw [ho'.unique ho]
    exact hvalue
  | setupFailed | issued | refused =>
    exact hfits.keep rfl rfl (fun _ _ h => h) fun _ h => h
  | finalize => exact hfits.keep rfl rfl (fun _ _ h => h.2) fun _ h => h
  | followed ho hr =>
    refine hfits.keep rfl rfl (fun o' ho' _ => ?_) nofun
    rw [ho'.unique ho]
    exact (Watch.changed_eq_ok hr).2.symm

theorem Paired.unlink (h : Paired s) (hi : s.CallerAt i c) (hu : Unlink c.pc pc) :
    s.Fits i c.domain pc := by
  have hfits := h.fits i c hi
  obtain ⟨domain, pc₀⟩ := c
  cases hu with
  | stale n => exact .free rfl
  | setupFailed n e => exact hfits.keep rfl rfl (fun _ _ h => h) fun _ h => h
  | final n result =>
    exact hfits.keep rfl rfl (fun _ _ h => by cases result <;> exact h) fun _ h => h

/-- Caller `i` moves to `pc`; only the order it holds may change, and only by a value that was not
there. -/
structure Steps (s t : State) (i : ℕ) (c : Caller) (pc : Pc) : Prop where
  caller : s.CallerAt i c
  callers : t.callers = s.callers.set i { c with pc := pc }
  orders : ∀ n o, s.OrderAt n o → ∃ o', t.OrderAt n o' ∧ o.Le o' ∧ (c.pc.holds ≠ some n → o' = o)

theorem Steps.grows (m : Steps s t i c pc) : Grows s t where
  callers := by
    intro j d hj
    by_cases hji : j = i
    · subst hji
      obtain rfl : c = d := Option.some.inj (m.caller.symm.trans hj)
      refine ⟨{ c with pc := pc }, ?_, rfl⟩
      rw [State.CallerAt, m.callers, List.getElem?_set_self (List.getElem?_eq_some_iff.1 hj).1]
    · refine ⟨d, ?_, rfl⟩
      rw [State.CallerAt, m.callers, List.getElem?_set_ne (Ne.symm hji)]
      exact hj
  orders := by
    intro n o ho
    obtain ⟨o', ho', hle, -⟩ := m.orders n o ho
    exact ⟨o', ho', hle⟩

/-- The other callers still fit: an order one of them holds is not the one that changed. -/
theorem Paired.fits_others (h : Paired s) (m : Steps s t i c pc) {j : ℕ} {d : Caller} (hji : j ≠ i)
    (hj : s.CallerAt j d) : t.Fits j d.domain d.pc := by
  intro n hn
  obtain ⟨hof, hall⟩ := h.fits j d hj n hn
  refine ⟨m.grows.orderOf hof, fun o' ho' => ?_⟩
  obtain ⟨o, -, ho, -⟩ := hof
  obtain ⟨o'', ho'', hle, hsame⟩ := m.orders n o ho
  obtain rfl := ho'.unique ho''
  obtain ⟨hagrees, hleads⟩ := hall o ho
  refine ⟨?_, fun hl => by rw [hle.leader, hleads hl]⟩
  cases hholds : d.pc.holds with
  | none => exact hagrees.mono hle hholds
  | some k =>
    obtain rfl : k = n := Option.some.inj ((Pc.order_of_holds hholds).symm.trans hn)
    have hother : c.pc.holds ≠ some k := by
      intro hmine
      have hlead := (h.fits i c m.caller k (Pc.order_of_holds hmine)).2 o ho
      exact hji ((hleads (Pc.leads_of_holds hholds)).symm.trans
        (hlead.2 (Pc.leads_of_holds hmine)))
    rw [hsame hother]
    exact hagrees

theorem Paired.steps (h : Paired s) (m : Steps s t i c pc)
    (hflight : ∀ domain n, t.inFlight domain = some n →
      s.inFlight domain = some n ∨ t.OrderOf domain n)
    (hfits : t.Fits i c.domain pc) (hsettled : ∀ n o, t.OrderAt n o → o.Settled) : Paired t where
  inFlight domain n hn :=
    (hflight domain n hn).elim (fun h' => m.grows.orderOf (h.inFlight domain n h')) id
  fits j d hj := by
    rcases callerAt_cases m.caller m.callers hj with ⟨rfl, rfl⟩ | ⟨hji, hj'⟩
    · exact hfits
    · exact h.fits_others m hji hj'
  settled := hsettled

/-- A move that touches no channel. -/
theorem Paired.goto (h : Paired s) (hi : s.CallerAt i c)
    (hcallers : t.callers = s.callers.set i { c with pc := pc }) (horders : t.orders = s.orders)
    (hflight : ∀ domain n, t.inFlight domain = some n → s.inFlight domain = some n)
    (hfits : s.Fits i c.domain pc) : Paired t ∧ Grows s t := by
  have hat : ∀ {n o}, t.OrderAt n o ↔ s.OrderAt n o := by
    intro n o
    rw [State.OrderAt, horders]
  have m : Steps s t i c pc := ⟨hi, hcallers, fun n o ho => ⟨o, hat.2 ho, .refl o, fun _ => rfl⟩⟩
  exact ⟨h.steps m (fun d n hn => .inl (hflight d n hn)) (hfits.grows m.grows horders)
    fun n o ho => h.settled n o (hat.1 ho), m.grows⟩

theorem Touch.holds {n : ℕ} {pc₀ : Pc} {f : Order → Order} (h : Touch n pc₀ pc f) :
    pc₀.holds = some n := by
  cases h with
  | lead | publish => rfl
  | dropBoth hfrom _ => rcases hfrom with h | ⟨e, h | h⟩ <;> rw [h] <;> rfl
  | dropCert hholds _ _ => exact hholds

theorem Touch.order {n m : ℕ} {pc₀ : Pc} {f : Order → Order} (h : Touch n pc₀ pc f)
    (hm : pc.order = some m) : m = n := by
  cases h with
  | lead | publish => exact (Option.some.inj hm).symm
  | dropBoth _ hto => rcases hto with rfl | ⟨e, rfl⟩ <;> cases hm
  | dropCert _ _ hto =>
    rcases hto with rfl | ⟨e, rfl⟩ | ⟨pem, -, rfl⟩
    · cases hm
    · cases hm
    · exact (Option.some.inj hm).symm

/-- The leader publishes what was not there, and knows what it published. -/
theorem Touch.channels {n : ℕ} {pc₀ : Pc} {f : Order → Order} (h : Touch n pc₀ pc f) {o : Order}
    (hagrees : pc₀.Agrees o) (hsettled : o.Settled) :
    o.Le (f o) ∧ (f o).Settled ∧ pc.Agrees (f o) := by
  cases h with
  | lead keyAuth url =>
    refine ⟨⟨rfl, fun ka hka => ?_, fun _ h => h⟩, ⟨fun _ => ?_, hsettled.2⟩, rfl, hagrees.2⟩
    · rw [hagrees.1] at hka
      cases hka
    · simp [Watch.send, Watch.close]
  | publish pem =>
    refine ⟨⟨rfl, fun _ h => h, fun pem' hpem => ?_⟩, ⟨hsettled.1, fun _ => ?_⟩, rfl⟩
    · have hnone : o.cert.value = none := hagrees
      rw [hnone] at hpem
      cases hpem
    · simp [Watch.send]
  | dropBoth _ hto =>
    rcases hto with rfl | ⟨e, rfl⟩ <;>
      exact ⟨⟨rfl, fun _ h => h, fun _ h => h⟩, hsettled, trivial⟩
  | dropCert _ _ hto =>
    refine ⟨⟨rfl, fun _ h => h, fun _ h => h⟩, hsettled, ?_⟩
    rcases hto with rfl | ⟨e, rfl⟩ | ⟨pem, rfl, rfl⟩
    · trivial
    · trivial
    · exact hagrees

theorem Paired.touch (h : Paired s) (hi : s.CallerAt i c) {n : ℕ} {f : Order → Order}
    (ht : Touch n c.pc pc f) :
    Paired ((s.goto i c pc).update n f) ∧ Grows s ((s.goto i c pc).update n f) := by
  obtain ⟨hof, hall⟩ := h.fits i c hi n (Pc.order_of_holds ht.holds)
  obtain ⟨o, d, ho, hd, hdomain⟩ := hof
  obtain ⟨hagrees, hleads⟩ := hall o ho
  obtain ⟨hle, hsettled, hagrees'⟩ := ht.channels hagrees (h.settled n o ho)
  have hat : ((s.goto i c pc).update n f).OrderAt n (f o) := by
    have ho' : s.orders[n]? = some o := ho
    simp [State.OrderAt, State.update, State.goto, ho']
  have hother : ∀ m, m ≠ n → ((s.goto i c pc).update n f).orders[m]? = s.orders[m]? := by
    intro m hm
    simp [State.update, State.goto, hm.symm]
  have m : Steps s ((s.goto i c pc).update n f) i c pc := by
    refine ⟨hi, rfl, fun k o₁ ho₁ => ?_⟩
    by_cases hk : k = n
    · subst hk
      rw [ho₁.unique ho]
      exact ⟨f o, hat, hle, fun hne => absurd ht.holds hne⟩
    · exact ⟨o₁, (hother k hk).trans ho₁, .refl o₁, fun _ => rfl⟩
  refine ⟨h.steps m (fun _ _ hn => .inl hn) (fun k hk => ?_) fun k o₁ ho₁ => ?_, m.grows⟩
  · obtain rfl := ht.order hk
    refine ⟨m.grows.orderOf ⟨o, d, ho, hd, hdomain⟩, fun o₁ ho₁ => ?_⟩
    rw [ho₁.unique hat]
    exact ⟨hagrees', fun _ => hle.leader.trans (hleads (Pc.leads_of_holds ht.holds))⟩
  · by_cases hk : k = n
    · subst hk
      rw [ho₁.unique hat]
      exact hsettled
    · exact h.settled k o₁ ((hother k hk).symm.trans ho₁)

/-- A new order has sent nothing. -/
theorem Paired.claim (h : Paired s) (hi : s.CallerAt i c)
    (hcallers : t.callers = s.callers.set i { c with pc := .setup s.orders.length })
    (hflight : t.inFlight = Function.update s.inFlight c.domain (some s.orders.length))
    (horders : t.orders = s.orders ++ [⟨i, .channel none, .channel none⟩]) :
    Paired t ∧ Grows s t := by
  have m : Steps s t i c (.setup s.orders.length) := by
    refine ⟨hi, hcallers, fun n o ho => ⟨o, ?_, .refl o, fun _ => rfl⟩⟩
    rw [State.OrderAt, horders, List.getElem?_append_left (List.getElem?_eq_some_iff.1 ho).1]
    exact ho
  have hnew : t.OrderAt s.orders.length ⟨i, .channel none, .channel none⟩ := by
    rw [State.OrderAt, horders]
    exact List.getElem?_concat_length
  have hof : t.OrderOf c.domain s.orders.length := by
    obtain ⟨d, hd, hdomain⟩ := m.grows.callers i c hi
    exact ⟨_, d, hnew, hd, hdomain⟩
  refine ⟨h.steps m (fun domain n hn => ?_) (fun n hn => ?_) fun n o ho => ?_, m.grows⟩
  · rw [hflight] at hn
    by_cases hdomain : domain = c.domain
    · subst hdomain
      rw [Function.update_self] at hn
      cases hn
      exact .inr hof
    · rw [Function.update_of_ne hdomain] at hn
      exact .inl hn
  · cases hn
    refine ⟨hof, fun o ho => ?_⟩
    rw [ho.unique hnew]
    exact ⟨⟨rfl, rfl⟩, fun _ => rfl⟩
  · rcases orderAt_cases horders ho with ho | ⟨-, rfl⟩
    · exact h.settled n o ho
    · exact ⟨fun hv => absurd rfl hv, fun hv => absurd rfl hv⟩

/-- New callers are about no order. -/
theorem Paired.extend (h : Paired s) (new : List Caller) (hnew : ∀ c ∈ new, c.pc = .checkCache)
    (hcallers : t.callers = s.callers ++ new) (horders : t.orders = s.orders)
    (hflight : t.inFlight = s.inFlight) : Paired t ∧ Grows s t := by
  have hg : Grows s t := by
    refine ⟨fun i c hi => ⟨c, ?_, rfl⟩, fun n o ho => ⟨o, ?_, .refl o⟩⟩
    · rw [State.CallerAt, hcallers, List.getElem?_append_left (List.getElem?_eq_some_iff.1 hi).1]
      exact hi
    · rw [State.OrderAt, horders]
      exact ho
  refine ⟨⟨fun domain n hn => ?_, fun i c hi => ?_, fun n o ho => ?_⟩, hg⟩
  · rw [hflight] at hn
    exact hg.orderOf (h.inFlight domain n hn)
  · rw [State.CallerAt, hcallers, List.getElem?_append] at hi
    split_ifs at hi
    · exact (h.fits i c hi).grows hg horders
    · rw [hnew c (List.mem_of_getElem? hi)]
      exact .free rfl
  · rw [State.OrderAt, horders] at ho
    exact h.settled n o ho

/-- **Every step keeps the pairing, and forgets nothing.** -/
theorem Paired.step (h : Paired s) (hstep : step s a = some t) : Paired t ∧ Grows s t := by
  cases step_move hstep with
  | prepare domain => exact h.extend [⟨domain, .checkCache⟩] (by simp) rfl rfl rfl
  | idle hcallers horders hflight =>
    exact h.extend [] (by simp) (by rw [hcallers, List.append_nil]) horders hflight
  | caller hi hmove =>
    cases hmove with
    | edge he hcallers _ horders hflight =>
      exact h.goto hi hcallers horders (fun _ _ hn => by rw [← hflight]; exact hn) (h.edge hi he)
    | cache hpc =>
      refine h.goto hi rfl rfl (fun _ _ hn => hn) ?_
      have hfits := h.fits _ _ hi
      rw [hpc] at hfits
      exact hfits.keep rfl rfl (fun _ _ h => h) fun _ h => h
    | unlink hu =>
      refine h.goto hi rfl rfl (fun domain n hn => ?_) (h.unlink hi hu)
      simp only [State.remove, Function.update_apply] at hn
      split_ifs at hn
      exact hn
    | touch ht => exact h.touch hi ht
    | claim hpc hflight => exact h.claim hi rfl rfl rfl

end Moves

theorem Grows.refl (s : State) : Grows s s :=
  ⟨fun _ c hi => ⟨c, hi, rfl⟩, fun _ o ho => ⟨o, ho, .refl o⟩⟩

theorem Grows.trans {s t u : State} (h : Grows s t) (h' : Grows t u) : Grows s u where
  callers i c hi := by
    obtain ⟨d, hd, hdomain⟩ := h.callers i c hi
    obtain ⟨e, he, hdomain'⟩ := h'.callers i d hd
    exact ⟨e, he, hdomain'.trans hdomain⟩
  orders n o ho := by
    obtain ⟨o', ho', hle⟩ := h.orders n o ho
    obtain ⟨o'', ho'', hle'⟩ := h'.orders n o' ho'
    exact ⟨o'', ho'', hle.trans hle'⟩

/-- A run from a paired state. -/
theorem paired_runs {s t : State} {schedule : List Action} (h : Paired s)
    (hrun : runs step s schedule = some t) : Paired t ∧ Grows s t :=
  runs_invariant (P := fun t => Paired t ∧ Grows s t)
    (fun _ _ _ hs hstep => ⟨(hs.1.step hstep).1, hs.2.trans (hs.1.step hstep).2⟩) hrun ⟨h, .refl s⟩

/-! ### Back to the leader -/

/-- Along the schedule, `prepare` of caller `i` returned a `LeaderChallenge` with this key
authorization for order `n`. -/
def Led (now : Instant) (schedule : List Action) (i n : ℕ) (keyAuth : String) : Prop :=
  ∃ before after u c url, schedule = before ++ after ∧ runs step (init now) before = some u ∧
    u.CallerAt i c ∧ c.pc = .leader n keyAuth url

/-- Along the schedule, `finalize` of caller `i` put this certificate, of order `n`, in the cache
for `domain`. -/
def Stored (now : Instant) (schedule : List Action) (i n : ℕ) (domain pem : String) : Prop :=
  ∃ before after u v c renewAt, schedule = before ++ .cache i renewAt :: after ∧
    runs step (init now) before = some u ∧ u.CallerAt i c ∧ c.domain = domain ∧
    c.pc = .caching n pem ∧ step u (.cache i renewAt) = some v ∧
    v.cache domain = some ⟨pem, renewAt.getD (u.now + defaultRenewAfter.nanos)⟩

section History

variable {s t : State} {a : Action} {i n : ℕ}

/-- Where the channels of an order after a step come from. -/
theorem order_cases {o' : Order} (hstep : step s a = some t) (ho' : t.OrderAt n o') :
    s.OrderAt n o' ∨ (∃ i, o' = ⟨i, .channel none, .channel none⟩) ∨
      ∃ i c pc f o, s.CallerAt i c ∧ t.CallerAt i { c with pc := pc } ∧ Touch n c.pc pc f ∧
        s.OrderAt n o ∧ o' = f o := by
  cases step_move hstep with
  | prepare domain => exact .inl ho'
  | idle _ horders _ =>
    rw [State.OrderAt, horders] at ho'
    exact .inl ho'
  | @caller _ _ i c hi hmove =>
    cases hmove with
    | edge _ _ _ horders _ =>
      rw [State.OrderAt, horders] at ho'
      exact .inl ho'
    | cache | unlink => exact .inl ho'
    | @touch _ pc k f ht =>
      by_cases hk : k = n
      · subst hk
        have hmodify : (s.orders.modify k f)[k]? = some o' := ho'
        rw [List.getElem?_modify_eq] at hmodify
        obtain ⟨o, ho, rfl⟩ := Option.map_eq_some_iff.1 hmodify
        refine .inr (.inr ⟨i, c, pc, f, o, hi, ?_, ht, ho, rfl⟩)
        exact List.getElem?_set_self (List.getElem?_eq_some_iff.1 hi).1
      · refine .inl ?_
        have hmodify : (s.orders.modify k f)[n]? = some o' := ho'
        rwa [List.getElem?_modify_ne _ _ hk] at hmodify
    | claim hpc hflight =>
      rcases orderAt_cases rfl ho' with ho | ⟨-, rfl⟩
      · exact .inl ho
      · exact .inr (.inl ⟨i, rfl⟩)

/-- A key authorization is published by the step that returns the `LeaderChallenge`. -/
theorem keyAuth_cases {o' : Order} {keyAuth : String} (hstep : step s a = some t)
    (ho' : t.OrderAt n o') (hvalue : o'.keyAuth.value = some keyAuth) :
    (∃ o, s.OrderAt n o ∧ o.keyAuth.value = some keyAuth) ∨
      ∃ i c url, t.CallerAt i c ∧ c.pc = .leader n keyAuth url := by
  rcases order_cases hstep ho' with ho | ⟨i, rfl⟩ | ⟨i, c, pc, f, o, -, hi, ht, ho, rfl⟩
  · exact .inl ⟨o', ho, hvalue⟩
  · cases hvalue
  · generalize c.pc = pc₀ at ht
    cases ht with
    | lead ka url =>
      cases hvalue
      exact .inr ⟨i, _, url, hi, rfl⟩
    | publish | dropBoth | dropCert => exact .inl ⟨o, ho, hvalue⟩

/-- A certificate is published by the leader that is about to. -/
theorem cert_cases {o' : Order} {pem : String} (hstep : step s a = some t)
    (ho' : t.OrderAt n o') (hvalue : o'.cert.value = some pem) :
    (∃ o, s.OrderAt n o ∧ o.cert.value = some pem) ∨
      ∃ i c, s.CallerAt i c ∧ c.pc = .publish n pem := by
  rcases order_cases hstep ho' with ho | ⟨i, rfl⟩ | ⟨i, c, pc, f, o, hi, -, ht, ho, rfl⟩
  · exact .inl ⟨o', ho, hvalue⟩
  · cases hvalue
  · generalize hpc : c.pc = pc₀ at ht
    cases ht with
    | publish =>
      cases hvalue
      exact .inr ⟨i, c, hi, hpc⟩
    | lead | dropBoth | dropCert => exact .inl ⟨o, ho, hvalue⟩

theorem Edge.ne_publish {domain : String} {pc₀ pc : Pc} (h : Edge s domain pc₀ pc) (n : ℕ)
    (pem : String) : pc ≠ .publish n pem := by
  cases h <;> nofun

theorem Unlink.ne_publish {pc₀ pc : Pc} (h : Unlink pc₀ pc) (n : ℕ) (pem : String) :
    pc ≠ .publish n pem := by
  cases h <;> nofun

theorem Touch.ne_publish {m : ℕ} {pc₀ pc : Pc} {f : Order → Order} (h : Touch m pc₀ pc f) (n : ℕ)
    (pem : String) : pc ≠ .publish n pem := by
  cases h with
  | lead | publish => nofun
  | dropBoth _ hto => rcases hto with rfl | ⟨e, rfl⟩ <;> nofun
  | dropCert _ _ hto => rcases hto with rfl | ⟨e, rfl⟩ | ⟨pem, -, rfl⟩ <;> nofun

/-- A leader about to publish has just put the certificate in the cache. -/
theorem publish_cases {d : Caller} {pem : String} (hstep : step s a = some t)
    (hi : t.CallerAt i d) (hpc : d.pc = .publish n pem) :
    s.CallerAt i d ∨ ∃ c renewAt, a = .cache i renewAt ∧ s.CallerAt i c ∧ c.domain = d.domain ∧
      c.pc = .caching n pem ∧
      t.cache d.domain = some ⟨pem, renewAt.getD (s.now + defaultRenewAfter.nanos)⟩ := by
  rcases moved_of_step hstep hi (by rw [hpc]; nofun) with hold | ⟨c, hc, hmove⟩
  · exact .inl hold
  cases hmove with
  | edge he hcallers =>
    rw [callerAt_self hc hcallers hi] at hpc
    exact absurd hpc (he.ne_publish n pem)
  | cache hcaching =>
    rw [callerAt_self hc rfl hi] at hpc ⊢
    cases hpc
    exact .inr ⟨_, _, rfl, hc, rfl, hcaching, Function.update_self ..⟩
  | unlink hu =>
    rw [callerAt_self hc rfl hi] at hpc
    exact absurd hpc (hu.ne_publish n pem)
  | touch ht =>
    rw [callerAt_self hc rfl hi] at hpc
    exact absurd hpc (ht.ne_publish n pem)
  | claim =>
    rw [callerAt_self hc rfl hi] at hpc
    cases hpc

/-- A leader about to publish does. -/
theorem publish_step {c : Caller} {pem : String} (h : Paired s) (hstep : step s a = some t)
    (hi : s.CallerAt i c) (hpc : c.pc = .publish n pem) :
    t.CallerAt i c ∨ ∃ o, t.OrderAt n o ∧ o.cert.value = some pem := by
  have hset : ∀ {j d}, j ≠ i → t.callers = s.callers.set j d → t.CallerAt i c := by
    intro j d hji hcallers
    rw [State.CallerAt, hcallers, List.getElem?_set_ne hji]
    exact hi
  cases step_move hstep with
  | prepare domain =>
    refine .inl ?_
    rw [State.CallerAt, List.getElem?_append_left (List.getElem?_eq_some_iff.1 hi).1]
    exact hi
  | idle hcallers =>
    rw [State.CallerAt, hcallers]
    exact .inl hi
  | @caller _ _ j d hj hmove =>
    by_cases hji : j = i
    · subst hji
      obtain rfl : c = d := Option.some.inj (hi.symm.trans hj)
      cases hmove with
      | edge he =>
        rw [hpc] at he
        cases he with
        | follow hreads => cases hreads
        | dropped hholds => cases hholds
      | cache hcaching =>
        rw [hpc] at hcaching
        cases hcaching
      | unlink hu =>
        rw [hpc] at hu
        cases hu
      | touch ht =>
        rw [hpc] at ht
        cases ht with
        | publish =>
          obtain ⟨o, -, ho, -⟩ := (h.fits j c hi n (by rw [hpc]; rfl)).1
          have ho' : s.orders[n]? = some o := ho
          refine .inr ⟨{ o with cert := o.cert.send (some pem) }, ?_, rfl⟩
          simp [State.OrderAt, State.update, State.goto, ho']
        | dropBoth hfrom => rcases hfrom with hfrom | ⟨e, hfrom | hfrom⟩ <;> cases hfrom
        | dropCert hholds hpublish =>
          cases hholds
          exact absurd rfl (hpublish pem)
      | claim hclaim =>
        rw [hpc] at hclaim
        cases hclaim
    · refine .inl ?_
      cases hmove with
      | edge _ hcallers => exact hset hji hcallers
      | cache | unlink | touch | claim => exact hset hji rfl

/-- Whoever leads an order at some point of a run is its leader at the end. -/
theorem leader_eq {c : Caller} {o : Order} (h : Paired s) (hg : Grows s t) (hi : s.CallerAt i c)
    (hleads : c.pc.leads = some n) (horder : c.pc.order = some n) (ho : t.OrderAt n o) :
    o.leader = i := by
  obtain ⟨⟨o₁, -, ho₁, -⟩, hall⟩ := h.fits i c hi n horder
  obtain ⟨o₂, ho₂, hle⟩ := hg.orders n o₁ ho₁
  rw [ho.unique ho₂, hle.leader]
  exact (hall o₁ ho₁).2 hleads

theorem leader_domain {c : Caller} {o : Order} {domain : String} (hg : Grows s t)
    (hof : t.OrderOf domain n) (ho : t.OrderAt n o) (hi : s.CallerAt o.leader c) :
    c.domain = domain := by
  obtain ⟨o', d, ho', hd, rfl⟩ := hof
  obtain ⟨d', hd', hdomain⟩ := hg.callers _ c hi
  rw [ho.unique ho'] at hd'
  rw [← hdomain, Option.some.inj (hd.symm.trans hd')]

variable {now : Instant} {schedule : List Action}

/-- The key authorization of an order is the one of its leader's `LeaderChallenge`. -/
theorem led_iff {o : Order} {keyAuth : String} (hrun : runs step (init now) schedule = some s)
    (ho : s.OrderAt n o) (hvalue : o.keyAuth.value = some keyAuth) (keyAuth' : String) :
    Led now schedule o.leader n keyAuth' ↔ keyAuth' = keyAuth := by
  constructor
  · rintro ⟨before, after, u, c, url, rfl, hu, hi, hpc⟩
    rw [runs_append, hu] at hrun
    have hpaired := (paired_runs (paired_init now) hu).1
    obtain ⟨⟨o₁, -, ho₁, -⟩, hall⟩ := hpaired.fits _ c hi n (by rw [hpc]; rfl)
    obtain ⟨o₂, ho₂, hle⟩ := (paired_runs hpaired hrun).2.orders n o₁ ho₁
    have hagrees := (hall o₁ ho₁).1
    rw [hpc] at hagrees
    have hlater := hle.keyAuth keyAuth' hagrees.1
    rw [← ho.unique ho₂, hvalue] at hlater
    exact (Option.some.inj hlater).symm
  · rintro rfl
    obtain ⟨before, a, after, u, v, rfl, hu, hnot, hstep, ⟨o₁, ho₁, hvalue₁⟩, hv⟩ :=
      exists_step_of_runs (P := fun s => ∃ o, s.OrderAt n o ∧ o.keyAuth.value = some keyAuth') hrun
        (by rintro ⟨o, ho, -⟩; cases ho) ⟨o, ho, hvalue⟩
    obtain ⟨i, c, url, hi, hpc⟩ := (keyAuth_cases hstep ho₁ hvalue₁).resolve_left hnot
    have hrun₁ : runs step (init now) (before ++ [a]) = some v := by
      rw [runs_append, hu]
      exact (runs_cons step u a []).trans (by rw [hstep]; rfl)
    have hpaired := (paired_runs (paired_init now) hrun₁).1
    refine ⟨before ++ [a], after, v, c, url, by simp, hrun₁, ?_, hpc⟩
    rw [leader_eq hpaired (paired_runs hpaired hv).2 hi (by rw [hpc]; rfl) (by rw [hpc]; rfl) ho]
    exact hi

/-- The leader is about to publish this certificate, or has. -/
def Publishing (s : State) (i n : ℕ) (pem : String) : Prop :=
  (∃ c, s.CallerAt i c ∧ c.pc = .publish n pem) ∨ ∃ o, s.OrderAt n o ∧ o.cert.value = some pem

theorem Publishing.step {pem : String} (h : Publishing s i n pem) (hpaired : Paired s)
    (hstep : step s a = some t) : Publishing t i n pem := by
  rcases h with ⟨c, hi, hpc⟩ | ⟨o, ho, hvalue⟩
  · exact (publish_step hpaired hstep hi hpc).imp_left fun hi => ⟨c, hi, hpc⟩
  · obtain ⟨o', ho', hle⟩ := (hpaired.step hstep).2.orders n o ho
    exact .inr ⟨o', ho', hle.cert pem hvalue⟩

theorem publishing_of_stored {domain pem : String}
    (hrun : runs step (init now) schedule = some s) (h : Stored now schedule i n domain pem) :
    Publishing s i n pem := by
  obtain ⟨before, after, u, v, c, renewAt, rfl, hu, hi, -, hpc, hstep, -⟩ := h
  rw [runs_append, hu] at hrun
  obtain ⟨w, hstep', hrest⟩ := runs_cons_eq_some hrun
  obtain rfl : v = w := Option.some.inj (hstep.symm.trans hstep')
  have hpublish : v.CallerAt i { c with pc := .publish n pem } := by
    rw [step, hi, Option.bind_some, insertIssued, hpc] at hstep
    cases hstep
    exact List.getElem?_set_self (List.getElem?_eq_some_iff.1 hi).1
  have hpaired := ((paired_runs (paired_init now) hu).1.step hstep').1
  refine (runs_invariant (P := fun s => Paired s ∧ Publishing s i n pem) (fun x b y hx hxy => ?_)
    hrest ⟨hpaired, .inl ⟨_, hpublish, rfl⟩⟩).2
  exact ⟨(hx.1.step hxy).1, hx.2.step hx.1 hxy⟩

/-- The certificate of an order is the one its leader's `finalize` put in the cache. -/
theorem stored_iff {o : Order} {domain pem : String}
    (hrun : runs step (init now) schedule = some s) (hof : s.OrderOf domain n)
    (ho : s.OrderAt n o) (hvalue : o.cert.value = some pem) (pem' : String) :
    Stored now schedule o.leader n domain pem' ↔ pem' = pem := by
  constructor
  · intro hstored
    rcases publishing_of_stored hrun hstored with ⟨d, hd, hdpc⟩ | ⟨o₁, ho₁, hvalue₁⟩
    · have hpaired := (paired_runs (paired_init now) hrun).1
      have hagrees := ((hpaired.fits _ d hd n (by rw [hdpc]; rfl)).2 o ho).1
      rw [hdpc] at hagrees
      have hnone : o.cert.value = none := hagrees
      rw [hvalue] at hnone
      cases hnone
    · rw [ho₁.unique ho, hvalue] at hvalue₁
      exact (Option.some.inj hvalue₁).symm
  · rintro rfl
    obtain ⟨before, a, after, u, v, rfl, hu, hnot, hstep, ⟨o₁, ho₁, hvalue₁⟩, hv⟩ :=
      exists_step_of_runs (P := fun s => ∃ o, s.OrderAt n o ∧ o.cert.value = some pem') hrun
        (by rintro ⟨o, ho, -⟩; cases ho) ⟨o, ho, hvalue⟩
    obtain ⟨i, c, hi, hpc⟩ := (cert_cases hstep ho₁ hvalue₁).resolve_left hnot
    obtain ⟨hpaired, -⟩ := paired_runs (paired_init now) hu
    have hgrows : Grows u s := (hpaired.step hstep).2.trans
      (paired_runs (hpaired.step hstep).1 hv).2
    obtain rfl : o.leader = i :=
      leader_eq hpaired hgrows hi (by rw [hpc]; rfl) (by rw [hpc]; rfl) ho
    have hdomain := leader_domain hgrows hof ho hi
    -- Back once more, from the publishing leader to the step that filled the cache.
    obtain ⟨before', b, after', x, y, rfl, hx, hnot', hxy, hpublish, -⟩ :=
      exists_step_of_runs (P := fun s => s.CallerAt o.leader c) hu (fun h => by cases h) hi
    obtain ⟨d, renewAt, rfl, hd, hdd, hdpc, hcache⟩ :=
      (publish_cases hxy hpublish hpc).resolve_left hnot'
    exact ⟨before', after' ++ a :: after, x, y, d, renewAt, by simp, hx, hd, hdd.trans hdomain,
      hdpc, hxy, by rw [← hdomain]; exact hcache⟩

/-- Nothing was ever sent on a channel but a value. -/
theorem Order.Settled.changed {o : Order} (h : o.Settled) :
    o.keyAuth.changed 0 ≠ some (.ok none) ∧ o.cert.changed 0 ≠ some (.ok none) := by
  constructor
  · intro hr
    obtain ⟨hv, hnone⟩ := Watch.changed_eq_ok hr
    exact h.1 hv hnone.symm
  · intro hr
    obtain ⟨hv, hnone⟩ := Watch.changed_eq_ok hr
    exact h.2 hv hnone.symm

end History

/-! ### Runs -/

/-- What the followers get, in a state reached by the schedule. -/
structure FollowersAgree (now : Instant) (schedule : List Action) (s : State) : Prop where
  /-- A `FollowerChallenge` carries the key authorization of the one order whose certificate it
  waits for, which is the one of the `LeaderChallenge` of its leader. -/
  challenge : ∀ i c n keyAuth, s.CallerAt i c → c.pc = .follower n keyAuth →
    s.OrderOf c.domain n ∧ ∀ o, s.OrderAt n o → ∀ keyAuth',
      Led now schedule o.leader n keyAuth' ↔ keyAuth' = keyAuth
  /-- Nobody but the leader of an order holds the sender of its certificate. -/
  sender : ∀ i c n o, s.CallerAt i c → c.pc.holds = some n → s.OrderAt n o → o.leader = i
  /-- The wait of a follower ends with a certificate of its order, or fails. -/
  waits : ∀ i c n keyAuth t, s.CallerAt i c → c.pc = .follower n keyAuth →
    step s (.step i) = some t →
    (∃ pem, t = s.goto i c (.followed n pem)) ∨
      t = s.goto i c (.failed s!"ACME leader for {c.domain} dropped before cert issuance")
  /-- That certificate is the one the leader put in the cache, and the one its `finalize` returned
  if it has returned. -/
  certificate : ∀ i c n pem, s.CallerAt i c → c.pc = .followed n pem →
    s.OrderOf c.domain n ∧ ∀ o, s.OrderAt n o →
      (∀ pem', Stored now schedule o.leader n c.domain pem' ↔ pem' = pem) ∧
      ∀ j d pem', s.CallerAt j d → d.pc = .finalized n pem' → j = o.leader ∧ pem' = pem
  /-- No receiver is woken by an empty value. -/
  sent : ∀ n o, s.OrderAt n o →
    o.keyAuth.changed 0 ≠ some (.ok none) ∧ o.cert.changed 0 ≠ some (.ok none)

/-- **Followers agree with their leader**, in every run of any number of callers. -/
theorem followers_agree (now : Instant) (schedule : List Action) (s : State)
    (hrun : runs step (init now) schedule = some s) : FollowersAgree now schedule s := by
  have h : Paired s := (paired_runs (paired_init now) hrun).1
  refine ⟨fun i c n keyAuth hi hpc => ?_, fun i c n o hi hholds ho => ?_,
    fun i c n keyAuth t hi hpc hstep => ?_, fun i c n pem hi hpc => ?_,
    fun n o ho => (h.settled n o ho).changed⟩
  · obtain ⟨hof, hall⟩ := h.fits i c hi n (by rw [hpc]; rfl)
    refine ⟨hof, fun o ho => led_iff hrun ho ?_⟩
    have hagrees := (hall o ho).1
    rw [hpc] at hagrees
    exact hagrees
  · obtain ⟨-, hall⟩ := h.fits i c hi n (Pc.order_of_holds hholds)
    exact (hall o ho).2 (Pc.leads_of_holds hholds)
  · rw [step, hi, Option.bind_some, advance, hpc] at hstep
    obtain ⟨o, ho, hstep⟩ := Option.bind_eq_some_iff.1 hstep
    obtain ⟨r, hr, hstep⟩ := Option.bind_eq_some_iff.1 hstep
    split at hstep <;> cases hstep
    · exact .inl ⟨_, rfl⟩
    · exact absurd hr (h.settled n o ho).changed.2
    · exact .inr rfl
  · obtain ⟨hof, hall⟩ := h.fits i c hi n (by rw [hpc]; rfl)
    refine ⟨hof, fun o ho => ?_⟩
    have hvalue := (hall o ho).1
    rw [hpc] at hvalue
    refine ⟨stored_iff hrun hof ho hvalue, fun j d pem' hj hd => ?_⟩
    obtain ⟨hreturned, hleads⟩ := (h.fits j d hj n (by rw [hd]; rfl)).2 o ho
    rw [hd] at hreturned
    refine ⟨(hleads (by rw [hd]; rfl)).symm, ?_⟩
    exact Option.some.inj (hreturned.symm.trans hvalue)

/-- A leader and a follower of one order; the leader has just published the certificate. -/
def sharedOrder : List Action :=
  [.prepare "a.b", .step 0, .step 0, .step 0,
    .setup 0 (.ok [.ok ⟨false, some ("token.thumbprint", "https://ca/chall")⟩]),
    .prepare "a.b", .step 1, .step 1, .step 1, .step 1,
    .finalize 0, .issue 0 (.ok "PEM"), .cache 0 none, .step 0]

theorem followers_agree_sharedOrder :
    ∃ s, runs step (init 0) (sharedOrder ++ [.step 1, .step 0, .step 0]) = some s ∧
      (s.callers.map fun c => c.pc) = [.finalized 0 "PEM", .followed 0 "PEM"] ∧
      ∀ pem, Stored 0 (sharedOrder ++ [.step 1, .step 0, .step 0]) 0 0 "a.b" pem ↔ pem = "PEM" :=
  ⟨_, rfl, rfl, (((followers_agree 0 _ _ rfl).certificate 1 ⟨"a.b", .followed 0 "PEM"⟩ 0 "PEM" rfl
    rfl).2 ⟨0, ⟨some "token.thumbprint", 1, true⟩, ⟨some "PEM", 1, true⟩⟩ rfl).1⟩

/-- The leader is dropped at the last await point of `finalize`: the follower has a certificate that
no `finalize` returned. -/
theorem followed_without_finalized :
    ∃ s, runs step (init 0) (sharedOrder ++ [.cancel 0, .step 1]) = some s ∧
      (s.callers.map fun c => c.pc) = [.dropped, .followed 0 "PEM"] ∧
      ∀ i c n pem, s.CallerAt i c → c.pc ≠ .finalized n pem := by
  refine ⟨_, rfl, rfl, fun i c n pem hi hpc => ?_⟩
  have hmem : c.pc ∈ [Pc.dropped, .followed 0 "PEM"] :=
    List.mem_map_of_mem (f := fun c : Caller => c.pc) (List.mem_of_getElem? hi)
  rw [hpc] at hmem
  simp at hmem

end QuicTunnel.Acme
