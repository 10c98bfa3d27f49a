import QuicTunnel.Client.Callers

/-!
# One leader per domain

A caller owns an order from the claim to the removal of its entry.  `Inv` says that an owned order
is the one in flight for its domain, so two owners for one domain own one order and are one
caller.  A step moves one caller (`Moves`), and `Inv.moves` says what such a move has to respect.

The entry in flight is removed by domain, in a lock section of its own, by whoever found the entry
it had cloned stale.  By then another entry may be in flight, and removing that one lets a second
leader in.  `RemovesProbed` excludes exactly this: under it the invariant is kept by every step
(`Inv.step`).
-/

namespace QuicTunnel.Acme

open Transition

/-! ### Positions -/

/-- A live leader: it has inserted its entry, its setup has not failed, and its `AlpnPending` is
neither finalized nor dropped. -/
def Pc.live : Pc → Bool
  | .setup _ | .leader _ _ _ | .finalizing _ | .caching _ _ | .publish _ _
  | .finalRemove _ _ => true
  | _ => false

theorem Pc.owns_of_live {pc : Pc} (h : pc.live = true) : ∃ n, pc.owns = some n := by
  cases pc <;> simp_all [Pc.live, Pc.owns]

/-- Some caller owns the order. -/
def Owned (s : State) (n : ℕ) : Prop := ∃ i c, s.CallerAt i c ∧ c.pc.owns = some n

/-- At most one live leader for each domain. -/
def SingleLeader (s : State) : Prop :=
  ∀ i j c d, s.CallerAt i c → s.CallerAt j d →
    c.pc.live = true → d.pc.live = true → c.domain = d.domain → i = j

/-- The entry of every live leader is in flight. -/
def LeadersInFlight (s : State) : Prop :=
  ∀ i c, s.CallerAt i c → c.pc.live = true →
    ∃ n, c.pc.owns = some n ∧ s.inFlight c.domain = some n

/-! ### The invariant -/

/-- The channels of an order whose leader still owns it: the certificate may come, and the key
authorization has come or may come. -/
def Order.Open (o : Order) : Prop :=
  o.cert.closed = false ∧ (o.keyAuth.closed = true → o.keyAuth.version ≠ 0)

/-- A leader publishes a key authorization, never an empty value. -/
def Order.Published (o : Order) : Prop := o.keyAuth.version ≠ 0 → o.keyAuth.value ≠ none

structure Inv (s : State) : Prop where
  inFlight : ∀ d n, s.inFlight d = some n → n < s.orders.length
  reads : ∀ i c n, s.CallerAt i c → c.pc.reads = some n → n < s.orders.length
  holds : ∀ i c n, s.CallerAt i c → c.pc.holds = some n →
    ∃ o, s.OrderAt n o ∧ o.leader = i
  owns : ∀ i c n, s.CallerAt i c → c.pc.owns = some n → s.inFlight c.domain = some n
  channels : ∀ i c n o, s.CallerAt i c → c.pc.owns = some n → s.OrderAt n o →
    o.Open
  published : ∀ n o, s.OrderAt n o → o.Published
  stale : ∀ i c n, s.CallerAt i c → c.pc = .removeStale n → ¬Owned s n

theorem inv_init (now : Instant) : Inv (init now) := by
  constructor <;> simp [init]

/-- Owners of one domain own one order, and its leader is one caller. -/
theorem Inv.owner_unique {s : State} (h : Inv s) {i j : ℕ} {c d : Caller} {n m : ℕ}
    (hi : s.CallerAt i c) (hj : s.CallerAt j d) (hc : c.pc.owns = some n)
    (hd : d.pc.owns = some m) (hdom : c.domain = d.domain) : i = j := by
  have hn := h.owns i c n hi hc
  have hm := h.owns j d m hj hd
  rw [hdom, hm] at hn
  obtain rfl := Option.some.inj hn
  obtain ⟨o, ho, rfl⟩ := h.holds i c m hi (Pc.holds_of_owns hc)
  obtain ⟨o', ho', rfl⟩ := h.holds j d m hj (Pc.holds_of_owns hd)
  rw [ho.unique ho']

theorem Inv.singleLeader {s : State} (h : Inv s) : SingleLeader s := by
  intro i j c d hi hj hc hd hdom
  obtain ⟨n, hn⟩ := Pc.owns_of_live hc
  obtain ⟨m, hm⟩ := Pc.owns_of_live hd
  exact h.owner_unique hi hj hn hm hdom

theorem Inv.leadersInFlight {s : State} (h : Inv s) : LeadersInFlight s := by
  intro i c hi hc
  obtain ⟨n, hn⟩ := Pc.owns_of_live hc
  exact ⟨n, hn, h.owns i c n hi hn⟩

/-! ### Moves of one caller -/

/-- Caller `i` moves to `pc`: it takes no order it did not own, changes only the channels of the
order it holds, and removes an entry only where no owner is left. -/
structure Moves (s t : State) (i : ℕ) (c : Caller) (pc : Pc) : Prop where
  caller : s.CallerAt i c
  callers : t.callers = s.callers.set i { c with pc := pc }
  owns : ∀ n, pc.owns = some n → c.pc.owns = some n
  holds : ∀ n, pc.holds = some n → c.pc.holds = some n
  length : t.orders.length = s.orders.length
  others : ∀ n, c.pc.holds ≠ some n → t.orders[n]? = s.orders[n]?
  mine : ∀ n o, c.pc.holds = some n → s.OrderAt n o →
    ∃ o', t.OrderAt n o' ∧ o'.leader = o.leader ∧ (pc.owns = some n → o'.Open) ∧
      o'.Published
  inFlight : ∀ d, t.inFlight d = s.inFlight d ∨ t.inFlight d = none ∧
    ∀ j c', t.CallerAt j c' → c'.domain = d → c'.pc.owns = none
  reads : ∀ n, pc.reads = some n → n < s.orders.length
  stale : ∀ n, pc = .removeStale n → ¬Owned s n

section Moves

variable {s t : State} {i : ℕ} {c : Caller} {pc : Pc}

/-- The callers after a move. -/
theorem Moves.caller_cases (m : Moves s t i c pc) {j : ℕ} {c' : Caller}
    (hj : t.CallerAt j c') :
    j = i ∧ c' = { c with pc := pc } ∨ j ≠ i ∧ s.CallerAt j c' :=
  callerAt_cases m.caller m.callers hj

theorem Moves.owned (m : Moves s t i c pc) {n : ℕ} (h : Owned t n) : Owned s n := by
  obtain ⟨j, c', hj, hown⟩ := h
  rcases m.caller_cases hj with ⟨rfl, rfl⟩ | ⟨-, hj'⟩
  · exact ⟨j, c, m.caller, m.owns n hown⟩
  · exact ⟨j, c', hj', hown⟩

/-- The orders another caller holds are not touched. -/
theorem Moves.order_of_other (m : Moves s t i c pc) (h : Inv s) {j : ℕ} {c' : Caller} {n : ℕ}
    (hji : j ≠ i) (hj : s.CallerAt j c') (hn : c'.pc.holds = some n) :
    t.orders[n]? = s.orders[n]? := by
  refine m.others n fun hmine => hji ?_
  obtain ⟨o, ho, rfl⟩ := h.holds j c' n hj hn
  obtain ⟨o', ho', rfl⟩ := h.holds i c n m.caller hmine
  rw [ho.unique ho']

/-- **A move keeps the invariant.** -/
theorem Inv.moves (h : Inv s) (m : Moves s t i c pc) : Inv t where
  inFlight := by
    intro d n hd
    rw [m.length]
    rcases m.inFlight d with hsame | ⟨hnone, -⟩
    · exact h.inFlight d n (hsame ▸ hd)
    · rw [hnone] at hd
      cases hd
  reads := by
    intro j c' n hj hread
    rw [m.length]
    rcases m.caller_cases hj with ⟨-, rfl⟩ | ⟨-, hj'⟩
    · exact m.reads n hread
    · exact h.reads j c' n hj' hread
  holds := by
    intro j c' n hj hhold
    rcases m.caller_cases hj with ⟨rfl, rfl⟩ | ⟨hji, hj'⟩
    · obtain ⟨o, ho, hlead⟩ := h.holds j c n m.caller (m.holds n hhold)
      obtain ⟨o', ho', hlead', -⟩ := m.mine n o (m.holds n hhold) ho
      exact ⟨o', ho', hlead'.trans hlead⟩
    · obtain ⟨o, ho, hlead⟩ := h.holds j c' n hj' hhold
      exact ⟨o, (m.order_of_other h hji hj' hhold).trans ho, hlead⟩
  owns := by
    intro j c' n hj hown
    have hs : s.inFlight c'.domain = some n := by
      rcases m.caller_cases hj with ⟨rfl, rfl⟩ | ⟨-, hj'⟩
      · exact h.owns j c n m.caller (m.owns n hown)
      · exact h.owns j c' n hj' hown
    rcases m.inFlight c'.domain with hsame | ⟨-, hnone⟩
    · rw [hsame, hs]
    · rw [hnone j c' hj rfl] at hown
      cases hown
  channels := by
    intro j c' n o' hj hown ho'
    rcases m.caller_cases hj with ⟨rfl, rfl⟩ | ⟨hji, hj'⟩
    · have hhold := Pc.holds_of_owns (m.owns n hown)
      obtain ⟨o, ho, -⟩ := h.holds j c n m.caller hhold
      obtain ⟨o'', ho'', -, hopen, -⟩ := m.mine n o hhold ho
      rw [ho'.unique ho'']
      exact hopen hown
    · have ho := (m.order_of_other h hji hj' (Pc.holds_of_owns hown)).symm.trans ho'
      exact h.channels j c' n o' hj' hown ho
  published := by
    intro n o' ho'
    by_cases hmine : c.pc.holds = some n
    · obtain ⟨o, ho, -⟩ := h.holds i c n m.caller hmine
      obtain ⟨o'', ho'', -, -, hpub⟩ := m.mine n o hmine ho
      rw [ho'.unique ho'']
      exact hpub
    · exact h.published n o' ((m.others n hmine).symm.trans ho')
  stale := by
    intro j c' n hj hpc howned
    rcases m.caller_cases hj with ⟨rfl, rfl⟩ | ⟨-, hj'⟩
    · exact m.stale n hpc (m.owned howned)
    · exact h.stale j c' n hj' hpc (m.owned howned)

end Moves

/-! ### The kinds of moves -/

section Kinds

variable {s t : State} {i : ℕ} {c : Caller} {pc : Pc}

/-- A move that touches neither an entry nor a channel. -/
theorem Inv.goto (h : Inv s) (hi : s.CallerAt i c)
    (hcallers : t.callers = s.callers.set i { c with pc := pc }) (horders : t.orders = s.orders)
    (hflight : t.inFlight = s.inFlight) (howns : ∀ n, pc.owns = some n → c.pc.owns = some n)
    (hholds : ∀ n, pc.holds = some n → c.pc.holds = some n)
    (hreads : ∀ n, pc.reads = some n → n < s.orders.length)
    (hstale : ∀ n, pc = .removeStale n → ¬Owned s n) : Inv t := by
  have m : Moves s t i c pc :=
    { caller := hi
      callers := hcallers
      owns := howns
      holds := hholds
      length := by rw [horders]
      others := fun _ _ => by rw [horders]
      mine := fun n o _ ho => ⟨o, by rw [State.OrderAt, horders]; exact ho, rfl,
        fun hown => h.channels i c n o hi (howns n hown) ho, h.published n o ho⟩
      inFlight := fun d => Or.inl (by rw [hflight])
      reads := hreads
      stale := hstale }
  exact h.moves m

/-- A move that changes the channels of the order the caller holds. -/
theorem Inv.update (h : Inv s) (hi : s.CallerAt i c) {n : ℕ} (hhold : c.pc.holds = some n)
    (f : Order → Order) (hleader : ∀ o, (f o).leader = o.leader)
    (howns : ∀ m, pc.owns = some m → c.pc.owns = some m)
    (hholds : ∀ m, pc.holds = some m → c.pc.holds = some m) (hreads : pc.reads = none)
    (hopen : ∀ o, pc.owns = some n → o.Open → (f o).Open)
    (hpub : ∀ o, o.Published → (f o).Published) : Inv ((s.goto i c pc).update n f) := by
  have m : Moves s ((s.goto i c pc).update n f) i c pc :=
    { caller := hi
      callers := rfl
      owns := howns
      holds := hholds
      length := by simp [State.update, State.goto]
      others := by
        intro k hk
        have hne : n ≠ k := fun hnk => hk (hnk ▸ hhold)
        simp [State.update, State.goto, hne]
      mine := by
        intro k o hk ho
        obtain rfl : n = k := Option.some.inj (hhold.symm.trans hk)
        have ho' : s.orders[n]? = some o := ho
        refine ⟨f o, by simp [State.OrderAt, State.update, State.goto, ho'],
          hleader o, fun hown => ?_,
          hpub o (h.published n o ho)⟩
        exact hopen o hown (h.channels i c n o hi (howns n hown) ho)
      inFlight := fun d => Or.inl rfl
      reads := fun k hk => by rw [hreads] at hk; cases hk
      stale := fun k hk => by rw [hk] at hreads; cases hreads }
  exact h.moves m

/-- A move that removes the entry of the caller's domain, which no other caller owns. -/
theorem Inv.remove (h : Inv s) (hi : s.CallerAt i c) (hown : pc.owns = none)
    (hholds : ∀ n, pc.holds = some n → c.pc.holds = some n) (hreads : pc.reads = none)
    (hothers : ∀ j c', j ≠ i → s.CallerAt j c' → c'.domain = c.domain → c'.pc.owns = none) :
    Inv ((s.goto i c pc).remove c.domain) := by
  have hcallers : ∀ j c', ((s.goto i c pc).remove c.domain).CallerAt j c' →
      c'.domain = c.domain → c'.pc.owns = none := by
    intro j c' hj hdom
    rcases callerAt_cases hi rfl hj with ⟨-, rfl⟩ | ⟨hji, hj'⟩
    · exact hown
    · exact hothers j c' hji hj' hdom
  have hno : ∀ n, pc.owns ≠ some n := by simp [hown]
  have m : Moves s ((s.goto i c pc).remove c.domain) i c pc :=
    { caller := hi
      callers := rfl
      owns := fun n hn => absurd hn (hno n)
      holds := hholds
      length := rfl
      others := fun _ _ => rfl
      mine := fun n o _ ho => ⟨o, ho, rfl, fun hn => absurd hn (hno n), h.published n o ho⟩
      inFlight := by
        intro d
        by_cases hd : d = c.domain
        · subst hd
          exact Or.inr ⟨by simp [State.remove], hcallers⟩
        · exact Or.inl (Function.update_of_ne hd _ _)
      reads := fun n hn => by rw [hreads] at hn; cases hn
      stale := fun n hn => by rw [hn] at hreads; cases hreads }
  exact h.moves m

/-- The claim: with no entry in flight there is no owner to disturb. -/
theorem Inv.claim (h : Inv s) (hi : s.CallerAt i c) (hnone : s.inFlight c.domain = none)
    (hcallers : t.callers = s.callers.set i { c with pc := .setup s.orders.length })
    (hflight : t.inFlight = Function.update s.inFlight c.domain (some s.orders.length))
    (horders : t.orders = s.orders ++ [⟨i, .channel none, .channel none⟩]) : Inv t := by
  have hlen : t.orders.length = s.orders.length + 1 := by rw [horders]; simp
  have hold : ∀ n o, s.OrderAt n o → t.OrderAt n o := by
    intro n o ho
    have hn : n < s.orders.length := (List.getElem?_eq_some_iff.1 ho).1
    rw [State.OrderAt, horders, List.getElem?_append_left hn]
    exact ho
  have hnew : t.OrderAt s.orders.length ⟨i, .channel none, .channel none⟩ := by
    rw [State.OrderAt, horders]
    simp
  have hcases : ∀ j c', t.CallerAt j c' → j = i ∧ c' = { c with pc := .setup s.orders.length } ∨
      s.CallerAt j c' := fun j c' hj => (callerAt_cases hi hcallers hj).imp_right And.right
  have hordcases := fun n o => orderAt_cases (n := n) (o := o) horders
  have howned : ∀ n, n < s.orders.length → Owned t n → Owned s n := by
    rintro n hn ⟨j, c', hj, hown⟩
    rcases hcases j c' hj with ⟨-, rfl⟩ | hj'
    · cases hown
      omega
    · exact ⟨j, c', hj', hown⟩
  constructor
  · intro d n hd
    rw [hflight] at hd
    by_cases hdom : d = c.domain
    · rw [hdom, Function.update_self] at hd
      cases hd
      omega
    · rw [Function.update_of_ne hdom] at hd
      have := h.inFlight d n hd
      omega
  · intro j c' n hj hread
    rcases hcases j c' hj with ⟨-, rfl⟩ | hj'
    · cases hread
    · have := h.reads j c' n hj' hread
      omega
  · intro j c' n hj hhold
    rcases hcases j c' hj with ⟨rfl, rfl⟩ | hj'
    · cases hhold
      exact ⟨_, hnew, rfl⟩
    · obtain ⟨o, ho, hlead⟩ := h.holds j c' n hj' hhold
      exact ⟨o, hold n o ho, hlead⟩
  · intro j c' n hj hown
    rcases hcases j c' hj with ⟨rfl, rfl⟩ | hj'
    · cases hown
      rw [hflight, Function.update_self]
    · have hs := h.owns j c' n hj' hown
      have hne : c'.domain ≠ c.domain := fun he => by rw [he, hnone] at hs; cases hs
      rw [hflight, Function.update_of_ne hne]
      exact hs
  · intro j c' n o hj hown ho
    rcases hordcases n o ho with ho' | ⟨rfl, rfl⟩
    · have hn : n < s.orders.length := (List.getElem?_eq_some_iff.1 ho').1
      rcases hcases j c' hj with ⟨-, rfl⟩ | hj'
      · cases hown
        omega
      · exact h.channels j c' n o hj' hown ho'
    · exact ⟨rfl, fun hclosed => by cases hclosed⟩
  · intro n o ho
    rcases hordcases n o ho with ho' | ⟨-, rfl⟩
    · exact h.published n o ho'
    · exact fun hv => absurd rfl hv
  · intro j c' n hj hpc hown
    rcases hcases j c' hj with ⟨-, rfl⟩ | hj'
    · cases hpc
    · have hn := h.reads j c' n hj' (by rw [hpc]; rfl)
      exact h.stale j c' n hj' hpc (howned n hn hown)

end Kinds

/-! ### Steps -/

/-- A caller removes an entry it found stale only while that entry, or none, is in flight. -/
def RemovesProbed (s : State) : Action → Prop
  | .step i =>
    match s.callers[i]? with
    | some ⟨domain, .removeStale n⟩ => s.inFlight domain = none ∨ s.inFlight domain = some n
    | _ => True
  | _ => True

instance (s : State) (a : Action) : Decidable (RemovesProbed s a) := by
  unfold RemovesProbed
  split
  · split <;> infer_instance
  · infer_instance

theorem RemovesProbed.of_stale {s : State} {i n : ℕ} {c : Caller}
    (h : RemovesProbed s (.step i)) (hi : s.CallerAt i c) (hpc : c.pc = .removeStale n) :
    s.inFlight c.domain = none ∨ s.inFlight c.domain = some n := by
  obtain ⟨domain, pc⟩ := c
  have hpc' : pc = .removeStale n := hpc
  subst hpc'
  simp only [RemovesProbed] at h
  rw [hi] at h
  exact h

section Steps

variable {s t : State} {i : ℕ} {c : Caller}

/-- The channels of an order that was found stale have lost their senders, so nobody owns it. -/
theorem Inv.not_owned_of_closed (h : Inv s) {n : ℕ} {o : Order} (ho : s.OrderAt n o)
    (hclosed : o.cert.closed = true ∨ o.keyAuth.version = 0 ∧ o.keyAuth.closed = true) :
    ¬Owned s n := by
  rintro ⟨j, c', hj, hown⟩
  obtain ⟨hcert, hkey⟩ := h.channels j c' n o hj hown ho
  rcases hclosed with hc | ⟨hv, hk⟩
  · rw [hcert] at hc
    cases hc
  · exact hkey hk hv

/-- A removal by the owner of the entry. -/
theorem Inv.remove_own (h : Inv s) (hi : s.CallerAt i c) {n : ℕ} {pc : Pc}
    (hc : c.pc.owns = some n) (hown : pc.owns = none) (hholds : pc.holds = some n)
    (hreads : pc.reads = none) : Inv ((s.goto i c pc).remove c.domain) := by
  refine h.remove hi hown (fun m hm => ?_) hreads fun j c' hji hj hdom => ?_
  · rw [Pc.holds_of_owns hc, ← hm, hholds]
  · cases hm : c'.pc.owns with
    | none => rfl
    | some m => exact absurd (h.owner_unique hj hi hm hc hdom) hji

/-- A removal of a stale entry that is still, or again not, in flight. -/
theorem Inv.remove_stale (h : Inv s) (hi : s.CallerAt i c) {n : ℕ} (hpc : c.pc = .removeStale n)
    (hg : s.inFlight c.domain = none ∨ s.inFlight c.domain = some n) :
    Inv ((s.goto i c .checkCache).remove c.domain) := by
  refine h.remove hi rfl (by simp [Pc.holds, Pc.owns]) rfl fun j c' _ hj hdom => ?_
  cases hm : c'.pc.owns with
  | none => rfl
  | some m =>
    have hm' := h.owns j c' m hj hm
    rw [hdom] at hm'
    rcases hg with hnone | hsome
    · rw [hnone] at hm'
      cases hm'
    · rw [hsome] at hm'
      cases hm'
      exact absurd ⟨j, c', hj, hm⟩ (h.stale i c _ hi hpc)

theorem Inv.edge (h : Inv s) (hi : s.CallerAt i c) {pc : Pc} (he : Edge s c.domain c.pc pc)
    (hcallers : t.callers = s.callers.set i { c with pc := pc }) (horders : t.orders = s.orders)
    (hflight : t.inFlight = s.inFlight) : Inv t := by
  have hreads := fun n => h.reads i c n hi
  obtain ⟨domain, pc₀⟩ := c
  cases he with
  | clone hn =>
    refine h.goto hi hcallers horders hflight (by simp [Pc.owns]) (by simp [Pc.holds, Pc.owns])
      (fun m hm => ?_) (by simp)
    cases hm
    exact h.inFlight _ _ hn
  | stale ho hclosed =>
    -- A closed certificate channel makes the entry stale.
    refine h.goto hi hcallers horders hflight (by simp [Pc.owns]) (by simp [Pc.holds, Pc.owns])
      hreads fun m hm => ?_
    cases hm
    exact h.not_owned_of_closed ho (.inl hclosed)
  | fresh | early =>
    exact h.goto hi hcallers horders hflight (by simp [Pc.owns]) (by simp [Pc.holds, Pc.owns])
      hreads (by simp)
  | empty ho hr =>
    obtain ⟨hv, hnone⟩ := Watch.changed_eq_ok hr
    exact absurd hnone.symm (h.published _ _ ho hv)
  | lost ho hr =>
    -- So does a sender dropped before it published.
    refine h.goto hi hcallers horders hflight (by simp [Pc.owns]) (by simp [Pc.holds, Pc.owns])
      hreads fun m hm => ?_
    cases hm
    exact h.not_owned_of_closed ho (.inr (Watch.changed_eq_error hr))
  | _ =>
    exact h.goto hi hcallers horders hflight (by simp [Pc.owns]) (by simp [Pc.holds, Pc.owns])
      (by simp [Pc.reads]) (by simp)

theorem Inv.unlink (h : Inv s) (hi : s.CallerAt i c) (hg : RemovesProbed s (.step i)) {pc : Pc}
    (hu : Unlink c.pc pc) : Inv ((s.goto i c pc).remove c.domain) := by
  generalize hpc : c.pc = pc₀ at hu
  cases hu with
  | stale n => exact h.remove_stale hi hpc (hg.of_stale hi hpc)
  | setupFailed n e => exact h.remove_own hi (by rw [hpc]; rfl) rfl rfl rfl
  | final n result => exact h.remove_own hi (by rw [hpc]; rfl) rfl rfl rfl

theorem Inv.touch (h : Inv s) (hi : s.CallerAt i c) {n : ℕ} {pc : Pc} {f : Order → Order}
    (ht : Touch n c.pc pc f) : Inv ((s.goto i c pc).update n f) := by
  generalize hpc : c.pc = pc₀ at ht
  cases ht with
  | lead keyAuth url =>
    refine h.update hi (by rw [hpc]; rfl) _ (fun _ => rfl) (by simp [hpc, Pc.owns])
      (by simp [hpc, Pc.holds, Pc.owns]) rfl (fun o _ ho => ⟨ho.1, fun _ => ?_⟩)
      (fun o _ _ => by simp [Watch.send, Watch.close])
    simp [Watch.send, Watch.close]
  | publish pem =>
    exact h.update hi (by rw [hpc]; rfl) _ (fun _ => rfl) (by simp [hpc, Pc.owns])
      (by simp [hpc, Pc.holds, Pc.owns]) rfl (fun o _ ho => ho) (fun o ho => ho)
  | dropBoth hfrom hto =>
    have hholds : c.pc.holds = some n := by
      rcases hfrom with h | ⟨e, h | h⟩ <;> rw [hpc, h] <;> rfl
    rcases hto with rfl | ⟨e, rfl⟩ <;>
      exact h.update hi hholds _ (fun _ => rfl) (by simp [Pc.owns]) (by simp [Pc.holds, Pc.owns])
        rfl (by simp [Pc.owns]) (fun o ho => ho)
  | dropCert hholds _ hto =>
    rw [← hpc] at hholds
    rcases hto with rfl | ⟨e, rfl⟩ | ⟨pem, -, rfl⟩ <;>
      exact h.update hi hholds _ (fun _ => rfl) (by simp [Pc.owns]) (by simp [Pc.holds, Pc.owns])
        rfl (by simp [Pc.owns]) (fun o ho => ho)

/-- A new caller owns nothing and has read nothing. -/
theorem Inv.prepare (h : Inv s) (domain : String) :
    Inv { s with callers := s.callers ++ [⟨domain, .checkCache⟩] } := by
  have hcases : ∀ j c', (s.callers ++ [(⟨domain, .checkCache⟩ : Caller)])[j]? = some c' →
      s.CallerAt j c' ∨ c'.pc = .checkCache := by
    intro j c' hj
    rw [List.getElem?_append] at hj
    split_ifs at hj
    · exact Or.inl hj
    · obtain ⟨-, rfl⟩ := List.getElem?_eq_some_iff.1 hj
      exact Or.inr (by simp)
  constructor
  · exact h.inFlight
  · intro j c' n hj hread
    rcases hcases j c' hj with hj' | hpc
    · exact h.reads j c' n hj' hread
    · simp [hpc, Pc.reads] at hread
  · intro j c' n hj hhold
    rcases hcases j c' hj with hj' | hpc
    · exact h.holds j c' n hj' hhold
    · simp [hpc, Pc.holds, Pc.owns] at hhold
  · intro j c' n hj hown
    rcases hcases j c' hj with hj' | hpc
    · exact h.owns j c' n hj' hown
    · simp [hpc, Pc.owns] at hown
  · intro j c' n o hj hown ho
    rcases hcases j c' hj with hj' | hpc
    · exact h.channels j c' n o hj' hown ho
    · simp [hpc, Pc.owns] at hown
  · exact h.published
  · rintro j c' n hj hpc ⟨k, d, hk, hown⟩
    rcases hcases j c' hj with hj' | hpc'
    · rcases hcases k d hk with hk' | hd
      · exact h.stale j c' n hj' hpc ⟨k, d, hk', hown⟩
      · simp [hd, Pc.owns] at hown
    · rw [hpc'] at hpc
      cases hpc

/-- **Every step that removes a stale entry only while it is the one in flight keeps the
invariant.** -/
theorem Inv.step (h : Inv s) {a : Action} (hg : RemovesProbed s a) (hstep : step s a = some t) :
    Inv t := by
  cases step_move hstep with
  | prepare domain => exact h.prepare domain
  | idle hcallers horders hflight =>
    constructor <;> simp only [State.CallerAt, State.OrderAt, Owned, hcallers, horders, hflight]
    exacts [h.inFlight, h.reads, h.holds, h.owns, h.channels, h.published, h.stale]
  | caller hi hmove =>
    cases hmove with
    | edge he hcallers _ horders hflight => exact h.edge hi he hcallers horders hflight
    | cache hpc =>
      exact h.goto hi rfl rfl rfl (by simp [hpc, Pc.owns]) (by simp [hpc, Pc.holds, Pc.owns])
        (by simp [Pc.reads]) (by simp)
    | unlink hu => exact h.unlink hi hg hu
    | touch ht => exact h.touch hi ht
    | claim hpc hflight => exact h.claim hi hflight rfl rfl rfl

end Steps

/-! ### Runs -/

/-- **One leader.**  In every run in which an entry found stale is removed only while it, or none,
is in flight, every state has at most one live leader per domain, and its entry is in flight. -/
theorem single_leader_of_removesProbed (now : Instant) (schedule : List Action) (s : State)
    (h : runs step (init now) schedule = some s)
    (hmeets : Meets step RemovesProbed (init now) schedule) :
    SingleLeader s ∧ LeadersInFlight s := by
  have hinv : Inv s := runs_invariant_of_meets (fun _ _ _ hs hg hstep => hs.step hg hstep) h hmeets
    (inv_init now)
  exact ⟨hinv.singleLeader, hinv.leadersInFlight⟩

/-- A leader is dropped in its setup; the next caller finds its entry stale, removes it, leads. -/
def staleLeader : List Action :=
  [.prepare "a.b", .step 0, .step 0, .step 0, .cancel 0,
    .prepare "a.b", .step 1, .step 1, .step 1, .step 1, .step 1, .step 1, .step 1]

theorem single_leader_after_staleLeader : ∃ s, runs step (init 0) staleLeader = some s ∧
    (s.callers.map fun c => c.pc.live) = [false, true] ∧ SingleLeader s ∧ LeadersInFlight s :=
  ⟨_, rfl, by decide, single_leader_of_removesProbed 0 staleLeader _ rfl (by decide)⟩

/-- Two callers have cloned the entry of a leader that is then dropped.  Both find it stale; the
first removes it and leads, the second then removes the entry of the first. -/
def twoFollowers : List Action :=
  [.prepare "a.b", .step 0, .step 0, .step 0,
    .prepare "a.b", .step 1, .step 1, .prepare "a.b", .step 2, .step 2, .cancel 0,
    .step 1, .step 2, .step 1, .step 1, .step 1, .step 1, .step 2, .step 2, .step 2, .step 2]

/-- Two live leaders for one domain. -/
theorem two_leaders : ∃ s, runs step (init 0) twoFollowers = some s ∧
    s.callers.map (fun c => (c.domain, c.pc.live)) =
      [("a.b", false), ("a.b", true), ("a.b", true)] ∧ ¬SingleLeader s := by
  refine ⟨_, rfl, by decide, fun h => ?_⟩
  exact absurd (h 1 2 _ _ rfl rfl rfl rfl rfl) (by decide)

end QuicTunnel.Acme
