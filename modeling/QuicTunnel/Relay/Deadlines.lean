import QuicTunnel.Relay.Admission

/-!
# How long a permit is held

Every await of a handler before the authentication is under a `timeout`, except QUIC's handshake,
which is left to the QUIC stack.  The scopes a handler passes through add up: on H2 the TLS
handshake, the H2 handshake and the auth exchange, on QUIC the auth exchange.

* `Advance` is where a handler that is not yet authenticated can go;
* `Timely` ties a slot to its handler: the deadline lies ahead, and what may still follow it
  (`Scope.rest`) fits the budget of the transport, counted from the first deadline on.

Time passes only up to the next deadline, so this is about a runtime that serves its timers; that
a deadline never holds up the clock for good is part of the result.
-/

namespace QuicTunnel.Relay

open Transition

variable {env : Env} {cfg : Config}

/-! ### Where a handler goes -/

/-- The steps of a handler that is not yet authenticated. -/
inductive Advance : Pc → Pc → Prop
  | stay (pc : Pc) : Advance pc pc
  | opening : Advance .handshake .openControl
  | opened : Advance .openControl .readDomain
  | exchange {pc pc' : Pc} (h : pc.inAuthExchange = true) (h' : pc'.inAuthExchange = true) :
    Advance pc pc'
  | gone (pc : Pc) (verdict : Verdict) : Advance pc (.gone verdict)
  | authenticated {pc : Pc} (h : pc.inAuthExchange = true) (id : String) :
    Advance pc (.readKeyAuth id)

theorem Conn.Move.advance {token : ℕ} {c c' : Conn} {i : Input} {op : MapOp}
    (hmove : c.Move env cfg token i c' op) (h : c.pc.settled = false) : Advance c.pc c'.pc := by
  cases hmove with
  | data | fin => exact .stay _
  | accepted hpc =>
    rw [hpc]
    exact .opening
  | opened hpc =>
    rw [hpc]
    exact .opened
  | announced _ hpc | lookUp _ hpc =>
    rw [hpc]
    exact .exchange rfl rfl
  | identified _ hpc | authorized hpc =>
    rw [hpc]
    exact .authenticated rfl _
  | refused | timedOut | noKeyAuth | readFailed | notUtf8 | unidentified | unauthorized | abandoned
  | swept => exact .gone _ _
  | cached _ hpc | challenge _ hpc | inserted hpc | acked hpc | notAcked hpc | done _ hpc
  | removed hpc | registered _ hpc | closed hpc | unlinked hpc =>
    rw [hpc] at h
    cases h

theorem Conn.Move.eq_handshake {token : ℕ} {c c' : Conn} {i : Input} {op : MapOp}
    (hmove : c.Move env cfg token i c' op) (h : c'.pc = .handshake) : c.pc = .handshake := by
  cases hmove with
  | data | fin => exact h
  | _ => cases h

/-- What arrives from the peer leaves a handler where it is. -/
theorem Conn.Move.stay {token : ℕ} {c c' : Conn} {i : Input} {op : MapOp}
    (hmove : c.Move env cfg token i c' op) (hi : (∃ bytes, i = .data bytes) ∨ i = .fin)
    (h : c.pc.settled = true) : c'.pc = c.pc := by
  have hread : c.read i = none := by
    obtain ⟨bytes, rfl⟩ | rfl := hi <;> rfl
  cases hmove with
  | data | fin => rfl
  | refused _ hpc =>
    rcases hpc with hpc | hpc
    · rw [hpc] at h
      cases h
    · rw [hpc] at h
      cases h
  | readFailed hr | notUtf8 hr | announced hr | unidentified hr | identified hr | lookUp hr
  | cached hr | challenge hr | done hr =>
    rw [hread] at hr
    cases hr
  | _ => obtain ⟨bytes, hi⟩ | hi := hi <;> cases hi

/-- The deadline of every stage but QUIC's handshake ends in a step of the handler. -/
theorem Conn.step_timeout (c : Conn) (token : ℕ)
    (h : c.pc.settled = false ∨ ∃ id, c.pc = .readKeyAuth id) :
    (c.step env cfg token .timeout).isSome = true := by
  unfold Conn.step Conn.authStep
  cases hpc : c.pc with
  | handshake | openControl | readDomain | readSig | lookupTxt | readKeyAuth => rfl
  | _ => simp [hpc, Pc.settled, Pc.client?] at h

namespace Listening

/-- What may still follow a scope before the permit is dropped. -/
def Scope.rest : Scope → ℕ
  | .tlsHandshake => h2HandshakeTimeout.nanos + authExchangeTimeout.nanos
  | .h2Handshake => authExchangeTimeout.nanos
  | _ => 0

/-- How long a connection may be timed and not authenticated. -/
def budget : Transport → ℕ
  | .quic => authExchangeTimeout.nanos
  | .h2 => tlsHandshakeTimeout.nanos + h2HandshakeTimeout.nanos + authExchangeTimeout.nanos

/-- The scope of a connection in its handshake. -/
def firstScope : Transport → Scope
  | .quic => .unbounded
  | .h2 => .tlsHandshake

/-- The slot keeps the time of its handler. -/
structure Timely (now : ℕ) (c : Conn) (slot : Slot) : Prop where
  inStep : slot.scopeAt c.transport c.pc = slot.scope
  first : c.pc = .handshake → slot.scope = firstScope c.transport
  ahead : ∀ d, slot.deadline = some d → now ≤ d
  timed : slot.scope.budget = none → slot.deadline = none
  /-- Whoever holds a permit and is timed has a deadline that keeps to the budget. -/
  within : slot.permit.isSome = true → ∀ since, slot.timedSince = some since →
    ∃ d, slot.deadline = some d ∧ d + slot.scope.rest ≤ since + budget c.transport
  /-- Only the handshake of QUIC is not timed. -/
  untimed : slot.timedSince = none → c.transport = .quic ∧ c.pc = .handshake

/-- The scopes a handler enters before its permit is dropped. -/
inductive Scope.Next : Scope → Scope → Prop
  | handshake : Next .tlsHandshake .h2Handshake
  | exchange : Next .h2Handshake .authExchange
  | start : Next .unbounded .authExchange
  | reject : Next .tlsHandshake .rejecting
  | rejectInside : Next .authExchange .rejectingInside
  | run (scope : Scope) : Next scope .running

section Slot

variable {now : ℕ} {c : Conn} {slot : Slot} {transport : Transport} {pc : Pc}

theorem Slot.follow_of_eq (h : slot.scopeAt transport pc = slot.scope) :
    slot.follow transport now pc = slot := by
  simp only [Slot.follow, h, if_true]

theorem Slot.follow_of_ne (h : slot.scopeAt transport pc ≠ slot.scope) :
    slot.follow transport now pc =
      { slot with
        scope := slot.scopeAt transport pc
        deadline := slot.deadlineIn (slot.scopeAt transport pc) now
        timedSince := slot.timedSince.or
          ((slot.scopeAt transport pc).budget.map fun _ => now) } := by
  simp only [Slot.follow, if_neg h]

/-- Coming to the same point again changes no scope. -/
theorem Slot.scopeAt_follow (slot : Slot) (transport : Transport) (now : ℕ) (pc : Pc) :
    (slot.follow transport now pc).scopeAt transport pc =
      (slot.follow transport now pc).scope := by
  by_cases h : slot.scopeAt transport pc = slot.scope
  · rw [Slot.follow_of_eq h, h]
  · rw [Slot.follow_of_ne h]
    cases pc with
    | gone verdict =>
      cases verdict with
      | rejected reason =>
        simp only [Slot.scopeAt]
        split_ifs
        · cases transport <;> cases slot.scope <;> rfl
        · rfl
      | _ => rfl
    | _ => rfl

theorem Slot.scopeAt_of_inAuthExchange (h : pc.inAuthExchange = true) :
    slot.scopeAt transport pc = .authExchange := by
  cases pc <;> first | rfl | cases h

/-- A deadline that is set while the old one lies ahead leaves no more time than that did. -/
theorem Slot.deadlineIn_of_next {scope : Scope} {d : ℕ} (hnext : slot.scope.Next scope)
    (hbudget : slot.scope.budget ≠ none) (hd : slot.deadline = some d) (hnow : now ≤ d) :
    ∃ d', slot.deadlineIn scope now = some d' ∧ d' + scope.rest ≤ d + slot.scope.rest := by
  obtain ⟨permit, before, deadline, timedSince⟩ := slot
  simp only at hnext hbudget hd
  subst hd
  cases hnext with
  | start => exact absurd rfl hbudget
  | reject =>
    have : rejectTimeout.nanos ≤ authExchangeTimeout.nanos := by decide
    exact ⟨_, rfl, by simp only [Scope.rest]; omega⟩
  | handshake | exchange | rejectInside | run => exact ⟨_, rfl, by simp only [Scope.rest]; omega⟩

/-- The first deadline leaves the budget. -/
theorem Slot.deadlineIn_of_start (slot : Slot) (now : ℕ) (transport : Transport) {scope : Scope}
    (hnext : Scope.Next .unbounded scope) :
    ∃ d, slot.deadlineIn scope now = some d ∧ scope.budget ≠ none ∧
      d + scope.rest ≤ now + budget transport := by
  have hbudget : authExchangeTimeout.nanos ≤ budget transport := by
    cases transport <;> decide
  cases hnext with
  | start => exact ⟨_, rfl, nofun, by simpa [Scope.rest] using hbudget⟩
  | run => exact ⟨_, rfl, nofun, by simp [Scope.rest]⟩

/-- The scope of a handler that goes on is its old one, or one that may follow it. -/
theorem Timely.next {pc' : Pc} (h : Timely now c slot) (hpermit : slot.permit.isSome = true)
    (hadvance : Advance c.pc pc') :
    slot.scopeAt c.transport pc' = slot.scope ∨
      slot.scope.Next (slot.scopeAt c.transport pc') := by
  have hstep := h.inStep
  have hfirst := h.first
  generalize c.pc = pc at hadvance hstep hfirst
  cases hadvance with
  | stay => exact .inl hstep
  | opening =>
    rw [hfirst rfl]
    cases c.transport with
    | quic => exact .inr .start
    | h2 => exact .inr .handshake
  | opened =>
    rw [← hstep]
    cases c.transport with
    | quic => exact .inl rfl
    | h2 => exact .inr .exchange
  | @exchange pc pc' hpc hpc' =>
    left
    rw [← hstep, Slot.scopeAt_of_inAuthExchange hpc, Slot.scopeAt_of_inAuthExchange hpc']
  | gone pc verdict =>
    cases verdict with
    | rejected reason =>
      simp only [Slot.scopeAt, hpermit, if_true]
      cases c.transport with
      | quic => exact .inr (.run _)
      | h2 =>
        cases slot.scope with
        | tlsHandshake => exact .inr .reject
        | authExchange => exact .inr .rejectInside
        | _ => exact .inl rfl
    | timedOut | dropped =>
      simp only [Slot.scopeAt, hpermit, if_true]
      exact .inr (.run _)
  | authenticated hpc id =>
    simp only [Slot.scopeAt, hpermit, if_true]
    exact .inr (.run _)

theorem Timely.unbounded (h : Timely now c slot) (hnone : slot.timedSince = none) :
    slot.scope = .unbounded := by
  obtain ⟨hquic, hpc⟩ := h.untimed hnone
  rw [h.first hpc, hquic]
  rfl

theorem Scope.eq_unbounded {scope : Scope} (h : scope.budget = none) : scope = .unbounded := by
  cases scope <;> first | rfl | cases h

/-- The new deadline keeps to the budget. -/
theorem Timely.within_follow {pc' : Pc} (h : Timely now c slot)
    (hadvance : slot.permit.isSome = true → Advance c.pc pc')
    (hpermit : slot.permit.isSome = true) {since : ℕ}
    (hsince : (slot.follow c.transport now pc').timedSince = some since) :
    ∃ d, (slot.follow c.transport now pc').deadline = some d ∧
      d + (slot.follow c.transport now pc').scope.rest ≤ since + budget c.transport := by
  by_cases hsame : slot.scopeAt c.transport pc' = slot.scope
  · rw [Slot.follow_of_eq hsame] at hsince ⊢
    exact h.within hpermit since hsince
  · have hnext := (h.next hpermit (hadvance hpermit)).resolve_left hsame
    rw [Slot.follow_of_ne hsame] at hsince ⊢
    cases htimed : slot.timedSince with
    | none =>
      rw [h.unbounded htimed] at hnext
      obtain ⟨d, hd, hbudget, hle⟩ := slot.deadlineIn_of_start now c.transport hnext
      obtain ⟨b, hb⟩ := Option.ne_none_iff_exists'.1 hbudget
      simp only [htimed, Option.none_or, hb, Option.map_some, Option.some.injEq] at hsince
      subst hsince
      exact ⟨d, hd, hle⟩
    | some since₀ =>
      simp only [htimed, Option.some_or, Option.some.injEq] at hsince
      subst hsince
      obtain ⟨d, hd, hle⟩ := h.within hpermit since₀ htimed
      have hbudget : slot.scope.budget ≠ none := fun hnone => by
        rw [h.timed hnone] at hd
        cases hd
      obtain ⟨d', hd', hle'⟩ := Slot.deadlineIn_of_next hnext hbudget hd (h.ahead d hd)
      exact ⟨d', hd', hle'.trans hle⟩

theorem Slot.timedSince_of_follow (h : (slot.follow transport now pc).timedSince = none) :
    slot.timedSince = none ∧ (slot.scopeAt transport pc = slot.scope ∨
      slot.scopeAt transport pc = .unbounded) := by
  by_cases hsame : slot.scopeAt transport pc = slot.scope
  · rw [Slot.follow_of_eq hsame] at h
    exact ⟨h, .inl hsame⟩
  · rw [Slot.follow_of_ne hsame] at h
    obtain ⟨hnone, hbudget⟩ := Option.or_eq_none_iff.1 h
    exact ⟨hnone, .inr (Scope.eq_unbounded (Option.map_eq_none_iff.1 hbudget))⟩

/-- A handler that leaves the handshake of QUIC is timed. -/
theorem Timely.untimed_follow {pc' : Pc} (h : Timely now c slot)
    (hpermit : slot.permit.isSome = true) (hadvance : Advance c.pc pc')
    (hnone : (slot.follow c.transport now pc').timedSince = none) :
    c.transport = .quic ∧ pc' = .handshake := by
  obtain ⟨htimed, hscope⟩ := Slot.timedSince_of_follow hnone
  obtain ⟨hquic, hpc⟩ := h.untimed htimed
  rw [h.unbounded htimed, or_self, hquic] at hscope
  rw [hpc] at hadvance
  refine ⟨hquic, ?_⟩
  cases hadvance with
  | stay => rfl
  | opening => cases hscope
  | exchange h | authenticated h => cases h
  | gone pc verdict => cases verdict <;> simp [Slot.scopeAt, hpermit] at hscope

theorem Slot.le_deadlineIn {scope : Scope} {d : ℕ} (hahead : ∀ d, slot.deadline = some d → now ≤ d)
    (h : slot.deadlineIn scope now = some d) : now ≤ d := by
  obtain ⟨b, -, rfl⟩ := Option.map_eq_some_iff.1 h
  split
  · exact le_min (Nat.le_add_right _ _) (hahead _ ‹_›)
  · exact Nat.le_add_right _ _

/-- A slot that follows its handler keeps its time, if it keeps to the budget. -/
theorem Slot.timely_follow (slot : Slot)
    (hahead : ∀ d, slot.deadline = some d → now ≤ d)
    (htimed : slot.scope.budget = none → slot.deadline = none)
    (huntimed : (slot.follow c.transport now c.pc).timedSince = none →
      c.transport = .quic ∧ c.pc = .handshake)
    (hfirst : c.pc = .handshake → slot.scope = firstScope c.transport)
    (hwithin : slot.permit.isSome = true → ∀ since,
      (slot.follow c.transport now c.pc).timedSince = some since →
      ∃ d, (slot.follow c.transport now c.pc).deadline = some d ∧
        d + (slot.follow c.transport now c.pc).scope.rest ≤ since + budget c.transport) :
    Timely now c (slot.follow c.transport now c.pc) := by
  refine ⟨slot.scopeAt_follow _ _ _, ?_, ?_, ?_, ?_, huntimed⟩
  · intro hpc
    have hsame : slot.scopeAt c.transport c.pc = slot.scope := by rw [hpc]; rfl
    rw [Slot.follow_of_eq hsame]
    exact hfirst hpc
  · by_cases hsame : slot.scopeAt c.transport c.pc = slot.scope
    · rw [Slot.follow_of_eq hsame]
      exact hahead
    · rw [Slot.follow_of_ne hsame]
      exact fun d hd => Slot.le_deadlineIn hahead hd
  · by_cases hsame : slot.scopeAt c.transport c.pc = slot.scope
    · rw [Slot.follow_of_eq hsame]
      exact htimed
    · rw [Slot.follow_of_ne hsame]
      intro hnone
      simp only [Slot.deadlineIn, hnone, Option.map_none]
  · rw [Slot.follow_permit]
    exact hwithin

/-- A connection that was just admitted is timely. -/
theorem timely_admitted (now : ℕ) (transport : Transport) :
    Timely now (.incoming transport) (.admitted transport now) := by
  cases transport with
  | quic => exact ⟨rfl, fun _ => rfl, nofun, fun _ => rfl, nofun, fun _ => ⟨rfl, rfl⟩⟩
  | h2 =>
    refine ⟨rfl, fun _ => rfl, ?_, nofun, ?_, nofun⟩
    · rintro d ⟨⟩
      exact Nat.le_add_right _ _
    · rintro - since ⟨⟩
      refine ⟨_, rfl, ?_⟩
      simp only [Slot.admitted, Scope.rest, budget, Conn.incoming]
      omega

end Slot

/-- A handler that holds a permit goes where one goes that is not yet authenticated. -/
theorem Slot.advance {now token : ℕ} {c c' : Conn} {slot : Slot} {i : Input} {op : MapOp}
    (htake : slot.mayTake now c.pc i = true) (hmove : c.Move env cfg token i c' op)
    (hpermit : slot.permit.isSome = true) : Advance c.pc c'.pc := by
  cases hsettled : c.pc.settled with
  | false => exact hmove.advance hsettled
  | true =>
    rw [hmove.stay ?_ hsettled]
    · exact .stay _
    · cases i with
      | data bytes => exact .inl ⟨bytes, rfl⟩
      | fin => exact .inr rfl
      | _ => simp [Slot.mayTake, hpermit, hsettled] at htake

/-- The slots of a state keep the time of their handlers. -/
def Timed (s : State) : Prop := List.Forall₂ (Timely s.now) s.relay.conns s.slots

theorem Timed.step {s t : State} {e : Event} (h : Timed s) (hinv : Inv s)
    (hstep : step env cfg s e = some t) : Timed t := by
  cases step_cases hstep with
  | passed hpass =>
    refine h.imp_of_mem_right fun c slot hslot htimely => ?_
    exact { htimely with ahead := hpass slot hslot }
  | @admitted transport => exact h.concat (timely_admitted s.now transport)
  | refused => exact h
  | @input k i c c' slot op hc hslot htake hmove =>
    have htimely := h.rel_of_getElem? hc hslot
    have hadvance := fun hpermit => Slot.advance htake hmove hpermit
    simp only [Timed, State.conns_apply, ← hmove.transport]
    refine h.set k (slot.timely_follow htimely.ahead htimely.timed ?_ ?_ ?_)
    · rw [hmove.transport]
      intro hnone
      cases hpermit : slot.permit with
      | some transport =>
        have hpermit : slot.permit.isSome = true := by rw [hpermit]; rfl
        exact htimely.untimed_follow hpermit (hadvance hpermit) hnone
      | none =>
        -- The permit was dropped, so the handshake is over.
        have hsettled := (hinv.slots.rel_of_getElem? hc hslot).2 hpermit
        rw [(htimely.untimed (Slot.timedSince_of_follow hnone).1).2] at hsettled
        cases hsettled
    · intro hpc
      rw [hmove.transport]
      exact htimely.first (hmove.eq_handshake hpc)
    · rw [hmove.transport]
      exact fun hpermit since hsince => htimely.within_follow hadvance hpermit hsince
  | @released k c slot transport hc hslot hpermit hsettled =>
    have htimely := h.rel_of_getElem? hc hslot
    refine h.set_right hc (Slot.timely_follow _ htimely.ahead htimely.timed ?_ ?_ ?_)
    · intro hnone
      exact htimely.untimed (Slot.timedSince_of_follow hnone).1
    · intro hpc
      rw [hpc] at hsettled
      cases hsettled
    · rintro ⟨⟩

theorem timed_of_runs {schedule : List Event} {start : ℕ} {s : State}
    (h : runs (step env cfg) (init start) schedule = some s) : Timed s := by
  have hboth := runs_invariant (P := fun s => Inv s ∧ Timed s)
    (fun _ _ _ hs ht => ⟨hs.1.step ht, hs.2.step hs.1 ht⟩) h ⟨inv_init start, .nil⟩
  exact hboth.2

/-- Without a permit, only the wait for the key authorization has a deadline. -/
theorem Timely.eq_readKeyAuth {now d : ℕ} {c : Conn} {slot : Slot} (h : Timely now c slot)
    (hsettled : c.pc.settled = true) (hpermit : slot.permit = none)
    (hdeadline : slot.deadline = some d) : ∃ id, c.pc = .readKeyAuth id := by
  have hscope : slot.scopeAt c.transport c.pc ≠ .unbounded := by
    intro hunbounded
    rw [h.inStep] at hunbounded
    rw [h.timed (by rw [hunbounded]; rfl)] at hdeadline
    cases hdeadline
  cases hpc : c.pc with
  | readKeyAuth id => exact ⟨id, rfl⟩
  | handshake | openControl | readDomain | readSig | lookupTxt =>
    rw [hpc] at hsettled
    cases hsettled
  | gone verdict =>
    rw [hpc] at hscope
    cases verdict <;> simp [Slot.scopeAt, hpermit] at hscope
  | _ =>
    rw [hpc] at hscope
    exact absurd rfl hscope

/-- A handler whose deadline has come can take a step. -/
theorem Timely.due {s : State} {k : ℕ} {c : Conn} {slot : Slot} (h : Timely s.now c slot)
    (hc : s.relay.conns[k]? = some c) (hslot : s.slots[k]? = some slot)
    (hdue : slot.deadline = some s.now) :
    (step env cfg s (.release k)).isSome = true ∨
      (step env cfg s (.input k .timeout)).isSome = true := by
  cases hrelease : slot.permit.isSome && c.pc.settled with
  | true =>
    left
    obtain ⟨hpermit, hsettled⟩ := Bool.and_eq_true_iff.1 hrelease
    obtain ⟨transport, hpermit⟩ := Option.isSome_iff_exists.1 hpermit
    simp [step, hc, hslot, hpermit, hsettled]
  | false =>
    right
    have htimeout : (c.step env cfg s.relay.nextToken .timeout).isSome = true := by
      refine c.step_timeout _ ?_
      cases hsettled : c.pc.settled with
      | false => exact .inl rfl
      | true =>
        rw [hsettled, Bool.and_true, Option.isSome_eq_false_iff, Option.isNone_iff_eq_none]
          at hrelease
        exact .inr (h.eq_readKeyAuth hsettled hrelease hdue)
    refine isSome_step_input hc hslot ?_ htimeout
    simp [Slot.mayTake, hrelease, hdue]

/-- **A permit is held for a bounded time.** A handler of the H2 listener holds its permit for at
most 50 seconds from its admission on, one of the QUIC listener for at most 30 seconds from the end
of its handshake on; and when a deadline comes the handler can take a step, so the clock is never
held up for good. -/
theorem permit_bounded (env : Env) (cfg : Config) (start : ℕ) (schedule : List Event) (s : State)
    (h : runs (step env cfg) (init start) schedule = some s) (k : ℕ) (c : Conn) (slot : Slot)
    (hc : s.relay.conns[k]? = some c) (hslot : s.slots[k]? = some slot) :
    (slot.permit.isSome = true → (∀ since, slot.timedSince = some since →
        s.now ≤ since + match c.transport with
          | .quic => (Duration.fromSecs 30).nanos
          | .h2 => (Duration.fromSecs 50).nanos) ∧
      (slot.timedSince = none → c.transport = .quic ∧ c.pc = .handshake)) ∧
    (slot.deadline = some s.now →
      (step env cfg s (.release k)).isSome = true ∨
        (step env cfg s (.input k .timeout)).isSome = true) := by
  have htimely := (timed_of_runs h).rel_of_getElem? hc hslot
  refine ⟨fun hpermit => ⟨fun since hsince => ?_, htimely.untimed⟩, htimely.due hc hslot⟩
  obtain ⟨d, hd, hle⟩ := htimely.within hpermit since hsince
  have hahead := htimely.ahead d hd
  have hbudget : budget c.transport = match c.transport with
      | .quic => (Duration.fromSecs 30).nanos
      | .h2 => (Duration.fromSecs 50).nanos := by
    cases c.transport <;> rfl
  rw [← hbudget]
  omega

/-- A peer that uses up the TLS handshake and the H2 handshake, and then says nothing. -/
def stall : List Event :=
  [.arrive .h2 "203.0.113.9:50000" 0, .pass 10000000000,
    .input 0 (.peerCerts (some [sampleCert])), .pass 10000000000, .input 0 .opened,
    .pass 30000000000]

theorem permit_bounded_stall :
    ∃ s c slot, runs (step sampleEnv sampleConfig) (init 0) stall = some s ∧
      s.relay.conns[0]? = some c ∧ s.slots[0]? = some slot ∧ slot.permit = some .h2 ∧
      s.now = 50000000000 ∧ slot.deadline = some s.now ∧
      ((step sampleEnv sampleConfig s (.release 0)).isSome = true ∨
        (step sampleEnv sampleConfig s (.input 0 .timeout)).isSome = true) := by
  have hrun : (runs (step sampleEnv sampleConfig) (init 0) stall).map
      (fun s => (s.now, s.relay.conns.length, s.slots)) =
        some (50000000000, 1, [⟨some .h2, .authExchange, some 50000000000, some 0⟩]) := by
    decide +kernel
  obtain ⟨s, hs, hstate⟩ := Option.map_eq_some_iff.1 hrun
  obtain ⟨hnow, hrest⟩ := Prod.mk.inj hstate
  obtain ⟨hconns, hslots⟩ := Prod.mk.inj hrest
  have hc : s.relay.conns[0]? = some (s.relay.conns.get ⟨0, by rw [hconns]; decide⟩) :=
    List.getElem?_eq_getElem _
  have hslot : s.slots[0]? = some ⟨some .h2, .authExchange, some 50000000000, some 0⟩ := by
    rw [hslots]
    rfl
  have hdue := (permit_bounded sampleEnv sampleConfig 0 stall s hs 0 _ _ hc hslot).2
  exact ⟨s, _, _, hs, hc, hslot, rfl, hnow, by rw [hnow], hdue (by rw [hnow])⟩

end Listening

end QuicTunnel.Relay
