import QuicTunnel.Base.SideBySide
import QuicTunnel.Common.Time
import QuicTunnel.Relay.Registration

/-!
# Admission to the two listeners

`Admission` (`tunnel-server/src/admission.rs`) and its two callers, `run_quic_listener` and
`run_h2_listener`: each listener has a semaphore of its own, a connection is admitted with one of
its permits or refused, and its handler drops the permit once the peer is authenticated, or when it
returns.

The system puts this, and a clock, around the relay of `Relay.World`:

* a `Slot` is what the listener keeps for a connection beside its handler: the permit, and the
  deadline of the innermost `timeout` the handler is in (`Scope`);
* `release` drops the permit; a handler whose peer is authenticated, or that is about to return,
  does nothing else before;
* `pass` lets time pass, up to the next deadline: a timer that fires is served before the clock
  goes on.

`Step` lists what the system can do; `runs_relay` says that it does nothing to the relay that the
relay does not do by itself.
-/

namespace QuicTunnel.Relay

open Transition

/-! ### `Admission` -/

/-- `MAX_UNAUTHENTICATED_CONNS`. -/
def maxUnauthenticatedConns : ℕ := 512

/-- `REFUSAL_LOG_INTERVAL`. -/
def refusalLogInterval : Duration := .fromSecs 5

/-- `AUTH_EXCHANGE_TIMEOUT`. -/
def authExchangeTimeout : Duration := .fromSecs 30

/-- `KEY_AUTH_TIMEOUT`. -/
def keyAuthTimeout : Duration := .fromSecs 120

/-- `TLS_HANDSHAKE_TIMEOUT`. -/
def tlsHandshakeTimeout : Duration := .fromSecs 10

/-- `H2_HANDSHAKE_TIMEOUT`. -/
def h2HandshakeTimeout : Duration := .fromSecs 10

/-- `REJECT_TIMEOUT`. -/
def rejectTimeout : Duration := .fromSecs 2

inductive Level
  | warn
  | debug
  deriving DecidableEq

/-- A line of the log, and the two readings of the clock it was written between. -/
structure Line where
  level : Level
  text : String
  notBefore : ℕ
  notAfter : ℕ
  deriving DecidableEq

/-- `Admission`; of the semaphore, the permits that are free. -/
structure Admission where
  proto : String
  permits : ℕ
  lastRefusalLog : Option ℕ

namespace Admission

/-- `Admission::new`. -/
def new (proto : String) : Admission := ⟨proto, maxUnauthenticatedConns, none⟩

variable (a : Admission)

/-- The warning is due: there was none, or it is long enough ago. -/
def warns (now : ℕ) : Bool := a.lastRefusalLog.all (fun t => refusalLogInterval.nanos ≤ now - t)

/-- `Admission::try_admit`: without a line the permit is taken, with one the connection is refused.
The clock is read again `lag` after the decision to warn. -/
def tryAdmit (remote : String) (now lag : ℕ) : Admission × Option Line :=
  if 0 < a.permits then ({ a with permits := a.permits - 1 }, none)
  else if a.warns now then
    ({ a with lastRefusalLog := some (now + lag) },
      some ⟨.warn, s!"{a.proto}: refusing {remote} — {maxUnauthenticatedConns}" ++
        " unauthenticated connections already in flight", now, now + lag⟩)
  else
    (a, some ⟨.debug, s!"{a.proto}: refusing {remote}" ++
      " (unauthenticated connection budget exhausted)", now, now + lag⟩)

theorem tryAdmit_of_none (h : ¬0 < a.permits) (remote : String) (now lag : ℕ) :
    ∃ a' line, a.tryAdmit remote now lag = (a', some line) := by
  rw [tryAdmit, if_neg h]
  split_ifs
  · exact ⟨_, _, rfl⟩
  · exact ⟨_, _, rfl⟩

theorem permits_of_refused {a a' : Admission} {remote : String} {now lag : ℕ} {line : Line}
    (h : a.tryAdmit remote now lag = (a', some line)) : a'.permits = a.permits := by
  unfold tryAdmit at h
  split_ifs at h
  · cases h
  · cases h
    rfl
  · cases h
    rfl

end Admission

/-! ### The system -/

namespace Listening

/-- The innermost `timeout` a handler is in. -/
inductive Scope
  /-- The TLS handshake, on H2. -/
  | tlsHandshake
  | h2Handshake
  /-- The auth exchange; on QUIC with the control stream's acceptance. -/
  | authExchange
  /-- In `h2_reject`, which does its own handshake first. -/
  | rejecting
  /-- In `h2_send_reject`, inside the auth exchange. -/
  | rejectingInside
  /-- In none: the handler is running up to the point where its permit is dropped. -/
  | running
  | keyAuth
  /-- In none, for as long as it takes. -/
  | unbounded
  deriving DecidableEq

/-- What a scope allows. -/
def Scope.budget : Scope → Option ℕ
  | .tlsHandshake => some tlsHandshakeTimeout.nanos
  | .h2Handshake => some h2HandshakeTimeout.nanos
  | .authExchange => some authExchangeTimeout.nanos
  | .rejecting => some (h2HandshakeTimeout.nanos + rejectTimeout.nanos)
  | .rejectingInside => some rejectTimeout.nanos
  | .running => some 0
  | .keyAuth => some keyAuthTimeout.nanos
  | .unbounded => none

/-- What a listener keeps for a connection. -/
structure Slot where
  /-- The semaphore whose permit the handler holds. -/
  permit : Option Transport
  scope : Scope
  deadline : Option ℕ
  /-- When the first of its deadlines was set. -/
  timedSince : Option ℕ
  deriving DecidableEq

namespace Slot

/-- A connection that was just admitted: QUIC leaves the handshake to the QUIC stack. -/
def admitted (transport : Transport) (now : ℕ) : Slot :=
  match transport with
  | .quic => ⟨some .quic, .unbounded, none, none⟩
  | .h2 => ⟨some .h2, .tlsHandshake, some (now + tlsHandshakeTimeout.nanos), some now⟩

variable (slot : Slot)

/-- The scope of a handler that has come to `pc`. -/
def scopeAt (transport : Transport) : Pc → Scope
  | .handshake => slot.scope
  | .openControl =>
    match transport with
    | .quic => .authExchange
    | .h2 => .h2Handshake
  | .readDomain | .readSig _ | .lookupTxt _ _ _ => .authExchange
  | .readKeyAuth _ => if slot.permit.isSome then .running else .keyAuth
  | .gone (.rejected _) =>
    if slot.permit.isSome then
      match transport, slot.scope with
      | .quic, _ => .running
      | .h2, .tlsHandshake => .rejecting
      | .h2, .authExchange => .rejectingInside
      | .h2, scope => scope
    else .unbounded
  | .gone _ => if slot.permit.isSome then .running else .unbounded
  | _ => .unbounded

/-- The deadline of a scope entered at `now`; a nested one does not outlast the one around it. -/
def deadlineIn (scope : Scope) (now : ℕ) : Option ℕ :=
  scope.budget.map fun d =>
    match scope, slot.deadline with
    | .rejectingInside, some around => min (now + d) around
    | _, _ => now + d

/-- The handler has come to `pc`. -/
def follow (transport : Transport) (now : ℕ) (pc : Pc) : Slot :=
  let scope := slot.scopeAt transport pc
  if scope = slot.scope then slot
  else
    { slot with
      scope := scope
      deadline := slot.deadlineIn scope now
      timedSince := slot.timedSince.or (scope.budget.map fun _ => now) }

/-- The handler may take the input: it does not hold a permit that it is to drop first, and only a
timer that has run out fires.  What arrives from the peer is not up to the handler. -/
def mayTake (now : ℕ) (pc : Pc) : Input → Bool
  | .data _ | .fin => true
  | .timeout => !(slot.permit.isSome && pc.settled) && slot.deadline.any (· ≤ now)
  | _ => !(slot.permit.isSome && pc.settled)

end Slot

/-- The relay with its two listeners. -/
structure State where
  now : ℕ
  relay : Relay.State
  admission : Transport → Admission
  /-- One for each connection of the relay. -/
  slots : List Slot
  log : List (Transport × Line)

def init (now : ℕ) : State where
  now := now
  relay := Relay.init
  admission
    | .quic => .new "QUIC"
    | .h2 => .new "H2"
  slots := []
  log := []

inductive Event
  /-- Time passes. -/
  | pass (d : ℕ)
  /-- The accept loop of a listener has a connection. -/
  | arrive (transport : Transport) (remote : String) (lag : ℕ)
  | input (k : ℕ) (i : Input)
  /-- The handler drops its permit. -/
  | release (k : ℕ)
  deriving DecidableEq

/-- No deadline is passed over. -/
def State.mayPass (s : State) (d : ℕ) : Bool :=
  s.slots.all fun slot => slot.deadline.all (s.now + d ≤ ·)

/-- A step of the relay with its listeners. -/
def step (env : Env) (cfg : Config) (s : State) : Event → Option State
  | .pass d => if s.mayPass d then some { s with now := s.now + d } else none
  | .arrive transport remote lag =>
    match (s.admission transport).tryAdmit remote s.now lag with
    | (a, none) =>
      (Relay.step env cfg s.relay (.accept transport)).map fun relay =>
        { s with relay := relay
                 admission := Function.update s.admission transport a
                 slots := s.slots ++ [.admitted transport s.now] }
    | (a, some line) =>
      some { s with admission := Function.update s.admission transport a
                    log := s.log ++ [(transport, line)] }
  | .input k i => do
    let c ← s.relay.conns[k]?
    let slot ← s.slots[k]?
    if slot.mayTake s.now c.pc i then
      let relay ← Relay.step env cfg s.relay (.input k i)
      let c' ← relay.conns[k]?
      some { s with relay := relay, slots := s.slots.set k (slot.follow c.transport s.now c'.pc) }
    else none
  | .release k => do
    let c ← s.relay.conns[k]?
    let slot ← s.slots[k]?
    let transport ← slot.permit
    if c.pc.settled then
      let a := s.admission transport
      some { s with
        admission := Function.update s.admission transport { a with permits := a.permits + 1 }
        slots := s.slots.set k ({ slot with permit := none }.follow c.transport s.now c.pc) }
    else none

end Listening

/-- A handler stays with its listener. -/
theorem Conn.Move.transport {env : Env} {cfg : Config} {token : ℕ} {c c' : Conn} {i : Input}
    {op : MapOp} (hmove : c.Move env cfg token i c' op) : c'.transport = c.transport := by
  cases hmove <;> rfl

namespace Listening

/-! ### What a step can do -/

/-- A step of the relay with its listeners. -/
inductive Step (env : Env) (cfg : Config) (s : State) : Event → State → Prop
  | passed {d : ℕ} (h : ∀ slot ∈ s.slots, ∀ t, slot.deadline = some t → s.now + d ≤ t) :
    Step env cfg s (.pass d) { s with now := s.now + d }
  | admitted {transport : Transport} {remote : String} {lag : ℕ}
    (h : 0 < (s.admission transport).permits) :
    Step env cfg s (.arrive transport remote lag)
      { s with
        relay := { s.relay with conns := s.relay.conns ++ [.incoming transport] }
        admission := Function.update s.admission transport
          { s.admission transport with permits := (s.admission transport).permits - 1 }
        slots := s.slots ++ [.admitted transport s.now] }
  | refused {transport : Transport} {remote : String} {lag : ℕ} {a : Admission} {line : Line}
    (h : (s.admission transport).permits = 0)
    (ha : (s.admission transport).tryAdmit remote s.now lag = (a, some line)) :
    Step env cfg s (.arrive transport remote lag)
      { s with
        admission := Function.update s.admission transport a
        log := s.log ++ [(transport, line)] }
  | input {k : ℕ} {i : Input} {c c' : Conn} {slot : Slot} {op : MapOp}
    (hc : s.relay.conns[k]? = some c) (hslot : s.slots[k]? = some slot)
    (htake : slot.mayTake s.now c.pc i = true)
    (hmove : c.Move env cfg s.relay.nextToken i c' op)
    (hrelay : Relay.step env cfg s.relay (.input k i) =
      some ({ s.relay with conns := s.relay.conns.set k c' }.apply k op)) :
    Step env cfg s (.input k i)
      { s with
        relay := { s.relay with conns := s.relay.conns.set k c' }.apply k op
        slots := s.slots.set k (slot.follow c.transport s.now c'.pc) }
  | released {k : ℕ} {c : Conn} {slot : Slot} {transport : Transport}
    (hc : s.relay.conns[k]? = some c) (hslot : s.slots[k]? = some slot)
    (hpermit : slot.permit = some transport) (hsettled : c.pc.settled = true) :
    Step env cfg s (.release k)
      { s with
        admission := Function.update s.admission transport
          { s.admission transport with permits := (s.admission transport).permits + 1 }
        slots := s.slots.set k ({ slot with permit := none }.follow c.transport s.now c.pc) }

theorem step_cases {env : Env} {cfg : Config} {s t : State} {e : Event}
    (h : step env cfg s e = some t) : Step env cfg s e t := by
  cases e with
  | pass d =>
    simp only [step] at h
    split_ifs at h with hpass
    cases h
    refine .passed fun slot hslot t ht => ?_
    have hall := List.all_eq_true.1 hpass slot hslot
    rw [ht] at hall
    exact of_decide_eq_true hall
  | arrive transport remote lag =>
    simp only [step] at h
    by_cases hpermits : 0 < (s.admission transport).permits
    · rw [Admission.tryAdmit, if_pos hpermits] at h
      cases h
      exact .admitted hpermits
    · have hzero : (s.admission transport).permits = 0 := by omega
      split at h
      · rename_i a hadmit
        rw [Admission.tryAdmit, if_neg hpermits] at hadmit
        split_ifs at hadmit
        · cases hadmit
        · cases hadmit
      · rename_i a line hadmit
        cases h
        exact .refused hzero hadmit
  | input k i =>
    simp only [step, Option.bind_eq_bind, Option.bind_eq_some_iff] at h
    obtain ⟨c, hc, slot, hslot, h⟩ := h
    split_ifs at h with htake
    obtain ⟨relay, hrelay, h⟩ := Option.bind_eq_some_iff.1 h
    obtain ⟨c₁, hc₁, h⟩ := Option.bind_eq_some_iff.1 h
    cases h
    obtain ⟨c₀, c', op, hc₀, hmove, rfl⟩ := step_input hrelay
    cases hc.symm.trans hc₀
    have hset : (s.relay.conns.set k c')[k]? = some c' :=
      List.getElem?_set_self (List.getElem?_eq_some_iff.1 hc).1
    rw [State.conns_apply] at hc₁
    cases hset.symm.trans hc₁
    exact .input hc hslot htake hmove hrelay
  | release k =>
    simp only [step, Option.bind_eq_bind, Option.bind_eq_some_iff] at h
    obtain ⟨c, hc, slot, hslot, transport, hpermit, h⟩ := h
    split_ifs at h with hsettled
    cases h
    exact .released hc hslot hpermit hsettled

variable {env : Env} {cfg : Config}

theorem isSome_step_input {s : State} {k : ℕ} {i : Input} {c : Conn} {slot : Slot}
    (hc : s.relay.conns[k]? = some c) (hslot : s.slots[k]? = some slot)
    (htake : slot.mayTake s.now c.pc i = true)
    (hstep : (c.step env cfg s.relay.nextToken i).isSome = true) :
    (step env cfg s (.input k i)).isSome = true := by
  obtain ⟨⟨c', op⟩, hstep⟩ := Option.isSome_iff_exists.1 hstep
  have hrelay : Relay.step env cfg s.relay (.input k i) =
      some ({ s.relay with conns := s.relay.conns.set k c' }.apply k op) := by
    rw [Relay.step, hc, Option.bind_some, hstep, Option.map_some]
  have hset : ({ s.relay with conns := s.relay.conns.set k c' }.apply k op).conns[k]? =
      some c' := by
    rw [State.conns_apply]
    exact List.getElem?_set_self (List.getElem?_eq_some_iff.1 hc).1
  simp only [step, Option.bind_eq_bind, hc, hslot, Option.bind_some, if_pos htake, hrelay, hset,
    Option.isSome_some]

/-- Nothing happens to the relay that does not happen to the relay without listeners. -/
theorem runs_relay {schedule : List Event} {start : ℕ} {s : State}
    (h : runs (step env cfg) (init start) schedule = some s) :
    Reach (Relay.step env cfg) Relay.init s.relay := by
  refine Reach.map (f := State.relay) (fun s e t hstep => ?_) ⟨schedule, h⟩
  cases step_cases hstep with
  | passed | refused | released => exact Reach.refl _
  | @admitted transport => exact Reach.single (a := .accept transport) rfl
  | input _ _ _ _ hrelay => exact Reach.single hrelay

/-! ### The permits -/

/-- How many handlers hold a permit of the listener. -/
def State.holders (s : State) (transport : Transport) : ℕ :=
  s.slots.countP (·.permit = some transport)

/-- How many connections of the listener are neither authenticated nor gone. -/
def State.unauthenticated (s : State) (transport : Transport) : ℕ :=
  s.relay.conns.countP fun c => c.transport = transport ∧ c.pc.settled = false

/-- A permit is of the listener of its connection, and is not dropped too early. -/
def Permitted (c : Conn) (slot : Slot) : Prop :=
  (∀ transport, slot.permit = some transport → c.transport = transport) ∧
    (slot.permit = none → c.pc.settled = true)

/-- A connection that is not authenticated holds a permit of its listener. -/
theorem Permitted.permit {c : Conn} {slot : Slot} (h : Permitted c slot)
    (hsettled : c.pc.settled = false) : slot.permit = some c.transport := by
  cases hpermit : slot.permit with
  | none =>
    rw [h.2 hpermit] at hsettled
    cases hsettled
  | some t => rw [h.1 t hpermit]

structure Inv (s : State) : Prop where
  slots : List.Forall₂ Permitted s.relay.conns s.slots
  permits : ∀ transport,
    (s.admission transport).permits + s.holders transport = maxUnauthenticatedConns

theorem Slot.follow_permit (slot : Slot) (transport : Transport) (now : ℕ) (pc : Pc) :
    (slot.follow transport now pc).permit = slot.permit := by
  simp only [Slot.follow]
  split_ifs <;> rfl

theorem Slot.admitted_permit (transport : Transport) (now : ℕ) :
    (Slot.admitted transport now).permit = some transport := by
  cases transport <;> rfl

theorem inv_init (start : ℕ) : Inv (init start) where
  slots := .nil
  permits transport := by cases transport <;> rfl

theorem holders_set {slots : List Slot} {k : ℕ} {slot : Slot} (hslot : slots[k]? = some slot)
    (slot' : Slot) (transport : Transport) :
    (slots.set k slot').countP (·.permit = some transport) +
        (if slot.permit = some transport then 1 else 0) =
      slots.countP (·.permit = some transport) +
        (if slot'.permit = some transport then 1 else 0) := by
  simpa only [decide_eq_true_eq] using
    List.countP_set_add (fun slot => decide (slot.permit = some transport)) hslot slot'

theorem Inv.admitted {s : State} (h : Inv s) {transport : Transport}
    (hpermits : 0 < (s.admission transport).permits) :
    Inv
      { s with
        relay := { s.relay with conns := s.relay.conns ++ [.incoming transport] }
        admission := Function.update s.admission transport
          { s.admission transport with permits := (s.admission transport).permits - 1 }
        slots := s.slots ++ [.admitted transport s.now] } where
  slots := by
    refine h.slots.concat ⟨fun t ht => ?_, fun hnone => ?_⟩
    · rw [Slot.admitted_permit] at ht
      exact Option.some.inj ht
    · rw [Slot.admitted_permit] at hnone
      cases hnone
  permits t := by
    have ht := h.permits t
    simp only [State.holders, List.countP_append, List.countP_singleton, Slot.admitted_permit,
      Option.some.injEq, decide_eq_true_eq] at ht ⊢
    by_cases heq : t = transport
    · subst heq
      rw [Function.update_self, if_pos rfl]
      simp only
      omega
    · rw [Function.update_of_ne heq, if_neg (Ne.symm heq)]
      exact ht

theorem Inv.released {s : State} (h : Inv s) {k : ℕ} {c : Conn} {slot : Slot}
    {transport : Transport} (hc : s.relay.conns[k]? = some c) (hslot : s.slots[k]? = some slot)
    (hpermit : slot.permit = some transport) (hsettled : c.pc.settled = true) :
    Inv
      { s with
        admission := Function.update s.admission transport
          { s.admission transport with permits := (s.admission transport).permits + 1 }
        slots := s.slots.set k ({ slot with permit := none }.follow c.transport s.now c.pc) } where
  slots := by
    refine h.slots.set_right hc ⟨fun t ht => ?_, fun _ => hsettled⟩
    rw [Slot.follow_permit] at ht
    cases ht
  permits t := by
    have ht := h.permits t
    have hset := holders_set hslot ({ slot with permit := none }.follow c.transport s.now c.pc) t
    rw [Slot.follow_permit, hpermit, if_neg (by exact nofun : ¬(none = some t))] at hset
    simp only [State.holders] at ht ⊢
    by_cases heq : t = transport
    · subst heq
      rw [if_pos rfl] at hset
      rw [Function.update_self]
      simp only
      omega
    · rw [if_neg (fun he => heq (Option.some.inj he).symm)] at hset
      rw [Function.update_of_ne heq]
      omega

theorem Inv.input {s : State} (h : Inv s) {k token : ℕ} {i : Input} {c c' : Conn} {slot : Slot}
    {op : MapOp} (hc : s.relay.conns[k]? = some c) (hslot : s.slots[k]? = some slot)
    (hmove : c.Move env cfg token i c' op) :
    Inv
      { s with
        relay := { s.relay with conns := s.relay.conns.set k c' }.apply k op
        slots := s.slots.set k (slot.follow c.transport s.now c'.pc) } where
  slots := by
    obtain ⟨hown, hsettled⟩ := h.slots.rel_of_getElem? hc hslot
    rw [State.conns_apply]
    refine h.slots.set k ⟨fun t ht => ?_, fun hnone => ?_⟩
    · rw [Slot.follow_permit] at ht
      rw [hmove.transport]
      exact hown t ht
    · rw [Slot.follow_permit] at hnone
      exact (hmove.settled (hsettled hnone)).1
  permits t := by
    have ht := h.permits t
    have hset := holders_set hslot (slot.follow c.transport s.now c'.pc) t
    rw [Slot.follow_permit] at hset
    simp only [State.holders] at ht ⊢
    omega

theorem Inv.step {s t : State} {e : Event} (h : Inv s) (hstep : step env cfg s e = some t) :
    Inv t := by
  cases step_cases hstep with
  | passed => exact ⟨h.slots, h.permits⟩
  | admitted hpermits => exact h.admitted hpermits
  | @refused transport remote lag a line hzero ha =>
    refine ⟨h.slots, fun t => ?_⟩
    by_cases heq : t = transport
    · subst heq
      have ht := h.permits t
      rw [← Admission.permits_of_refused ha] at ht
      simpa only [State.holders, Function.update_self] using ht
    · simpa only [State.holders, Function.update_of_ne heq] using h.permits t
  | input hc hslot _ hmove => exact h.input hc hslot hmove
  | released hc hslot hpermit hsettled => exact h.released hc hslot hpermit hsettled

theorem inv_of_runs {schedule : List Event} {start : ℕ} {s : State}
    (h : runs (step env cfg) (init start) schedule = some s) : Inv s :=
  runs_invariant (fun _ _ _ hs ht => Inv.step hs ht) h (inv_init start)

/-- Whoever is neither authenticated nor gone holds a permit. -/
theorem Inv.unauthenticated_le {s : State} (h : Inv s) (transport : Transport) :
    s.unauthenticated transport ≤ s.holders transport := by
  refine h.slots.countP_le fun c slot hpermitted hc => ?_
  obtain ⟨htransport, hsettled⟩ := of_decide_eq_true hc
  rw [hpermitted.permit hsettled, htransport]
  exact decide_eq_true rfl

/-- **The budget of a listener.** Whatever peers do and in whatever order, the permits of a listener
are free or held by its own connections; each connection that is not authenticated holds one; a
handler that is done with its permit gives it back; and the next connection is admitted exactly if
not all 512 are held, whatever happens at the other listener. -/
theorem unauthenticated_bounded (env : Env) (cfg : Config) (start : ℕ) (schedule : List Event)
    (s : State) (h : runs (step env cfg) (init start) schedule = some s) (transport : Transport) :
    ((s.admission transport).permits + s.holders transport = 512 ∧
      s.unauthenticated transport ≤ s.holders transport) ∧
    (∀ (k : ℕ) (c : Conn), s.relay.conns[k]? = some c → c.pc.settled = false →
      ∃ slot : Slot, s.slots[k]? = some slot ∧ slot.permit = some c.transport) ∧
    (∀ k c slot, s.relay.conns[k]? = some c → s.slots[k]? = some slot →
      slot.permit = some transport → c.transport = transport ∧ (c.pc.settled = true →
        ∃ t, step env cfg s (.release k) = some t ∧
          (t.admission transport).permits = (s.admission transport).permits + 1)) ∧
    ∀ remote lag, ∃ t, step env cfg s (.arrive transport remote lag) = some t ∧
      (s.holders transport < 512 → t.relay.conns = s.relay.conns ++ [.incoming transport] ∧
        t.holders transport = s.holders transport + 1) ∧
      (s.holders transport = 512 → t.relay = s.relay ∧ t.slots = s.slots) := by
  have hinv := inv_of_runs h
  have hconserved : (s.admission transport).permits + s.holders transport = 512 :=
    hinv.permits transport
  refine ⟨⟨hconserved, hinv.unauthenticated_le transport⟩,
    fun k c hc hsettled => ?_, ?_, ?_⟩
  · obtain ⟨slot, hslot, hpermitted⟩ := hinv.slots.exists_right hc
    exact ⟨slot, hslot, hpermitted.permit hsettled⟩
  · intro k c slot hc hslot hpermit
    refine ⟨(hinv.slots.rel_of_getElem? hc hslot).1 transport hpermit, fun hsettled => ?_⟩
    simp [step, hc, hslot, hpermit, hsettled]
  · intro remote lag
    by_cases hpermits : 0 < (s.admission transport).permits
    · refine ⟨_, by rw [step, Admission.tryAdmit, if_pos hpermits]; rfl, ?_, ?_⟩
      · intro _
        refine ⟨rfl, ?_⟩
        simp [State.holders, Slot.admitted_permit]
      · intro hfull
        omega
    · obtain ⟨a, line, hadmit⟩ := (s.admission transport).tryAdmit_of_none hpermits remote s.now lag
      refine ⟨{ s with admission := Function.update s.admission transport a
                       log := s.log ++ [(transport, line)] },
        by rw [step, hadmit], ?_, fun _ => ⟨rfl, rfl⟩⟩
      intro hroom
      omega

/-- After `n` QUIC connections of one peer, none of which has come any further. -/
def filled (n : ℕ) : State :=
  { init 0 with
    relay := { Relay.init with conns := List.replicate n (.incoming .quic) }
    admission := Function.update (init 0).admission .quic ⟨"QUIC", 512 - n, none⟩
    slots := List.replicate n (.admitted .quic 0) }

theorem runs_filled (env : Env) (cfg : Config) (remote : String) {n : ℕ} (h : n ≤ 512) :
    runs (step env cfg) (init 0) (List.replicate n (.arrive .quic remote 0)) =
      some (filled n) := by
  induction n with
  | zero =>
    rw [List.replicate_zero, runs_nil, filled, init]
    congr 2
    funext transport
    cases transport <;> rfl
  | succ n ih =>
    rw [List.replicate_succ', runs_append, ih (by omega), Option.bind_some, runs_cons, step,
      Admission.tryAdmit]
    have hpermits : 0 < ((filled n).admission .quic).permits := by
      simp only [filled, Function.update_self]
      omega
    rw [if_pos hpermits]
    simp only [Relay.step, filled, Option.map_some, Option.bind_some, runs_nil,
      Function.update_self, Function.update_idem, List.replicate_succ']
    rfl

/-- More peers than a listener admits, of which one is refused twice within the interval and once
after it. -/
def flood : List Event :=
  List.replicate 512 (.arrive .quic "198.51.100.7:4433" 0) ++
    [.arrive .quic "198.51.100.7:4433" 1, .pass 4000000000, .arrive .quic "198.51.100.7:4433" 0,
      .arrive .h2 "203.0.113.9:50000" 0, .pass 2000000000, .arrive .quic "198.51.100.7:4433" 0]

theorem runs_flood (env : Env) (cfg : Config) :
    runs (step env cfg) (init 0) flood =
      runs (step env cfg) (filled 512)
        [.arrive .quic "198.51.100.7:4433" 1, .pass 4000000000,
          .arrive .quic "198.51.100.7:4433" 0, .arrive .h2 "203.0.113.9:50000" 0,
          .pass 2000000000, .arrive .quic "198.51.100.7:4433" 0] := by
  rw [flood, runs_append, runs_filled env cfg _ (le_refl 512), Option.bind_some]

theorem unauthenticated_bounded_flood :
    ∃ s, runs (step sampleEnv sampleConfig) (init 0) flood = some s ∧
      s.unauthenticated .quic = 512 ∧ s.holders .h2 = 1 ∧
      s.unauthenticated .quic ≤ s.holders .quic := by
  have hrun : (runs (step sampleEnv sampleConfig) (init 0) flood).map
      (fun s => (s.unauthenticated .quic, s.holders .h2)) = some (512, 1) := by
    rw [runs_flood]
    decide +kernel
  obtain ⟨s, hs, hcounts⟩ := Option.map_eq_some_iff.1 hrun
  obtain ⟨hquic, hh2⟩ := Prod.mk.inj hcounts
  exact ⟨s, hs, hquic, hh2,
    (unauthenticated_bounded sampleEnv sampleConfig 0 flood s hs .quic).1.2⟩

/-! ### The refusals -/

/-- The lines of a listener. -/
def linesOf (log : List (Transport × Line)) (transport : Transport) : List Line :=
  (log.filter (·.1 = transport)).map (·.2)

/-- Its warnings. -/
def warningsOf (log : List (Transport × Line)) (transport : Transport) : List Line :=
  (linesOf log transport).filter (·.level = .warn)

/-- The warnings are an interval apart, and the listener remembers the last of them. -/
structure Throttled (warnings : List Line) (a : Admission) : Prop where
  spaced : warnings.Pairwise fun x y => x.notAfter + refusalLogInterval.nanos ≤ y.notBefore
  last : ∀ line ∈ warnings, ∃ t, a.lastRefusalLog = some t ∧ line.notAfter ≤ t

theorem linesOf_concat (log : List (Transport × Line)) (transport t : Transport) (line : Line) :
    linesOf (log ++ [(transport, line)]) t =
      linesOf log t ++ if transport = t then [line] else [] := by
  by_cases heq : transport = t
  · simp [linesOf, List.filter_append, heq]
  · simp [linesOf, List.filter_append, heq]

/-- A refusal keeps the warnings of its listener apart. -/
theorem Throttled.refuse {warnings : List Line} {a a' : Admission} {remote : String} {now lag : ℕ}
    {line : Line} (h : Throttled warnings a)
    (ha : a.tryAdmit remote now lag = (a', some line)) :
    Throttled (warnings ++ if line.level = .warn then [line] else []) a' := by
  unfold Admission.tryAdmit at ha
  split_ifs at ha with hpermits hwarns
  · cases ha
  · cases ha
    -- The last warning is an interval ago, so every earlier one is.
    have hago : ∀ x ∈ warnings, x.notAfter + refusalLogInterval.nanos ≤ now := by
      intro x hx
      obtain ⟨t, hlast, ht⟩ := h.last x hx
      rw [Admission.warns, hlast] at hwarns
      have hdue : refusalLogInterval.nanos ≤ now - t := of_decide_eq_true hwarns
      have hpos : 0 < refusalLogInterval.nanos := by decide
      omega
    refine ⟨?_, ?_⟩
    · rw [if_pos rfl, List.pairwise_append]
      refine ⟨h.spaced, List.pairwise_singleton _ _, fun x hx y hy => ?_⟩
      cases List.mem_singleton.1 hy
      exact hago x hx
    · intro x hx
      refine ⟨now + lag, rfl, ?_⟩
      rcases List.mem_append.1 hx with hold | hnew
      · have := hago x hold
        omega
      · cases List.mem_singleton.1 hnew
        exact le_refl _
  · cases ha
    rw [if_neg (by exact nofun), List.append_nil]
    exact h

theorem lastRefusalLog_update (admission : Transport → Admission) (other t : Transport) (n : ℕ) :
    (Function.update admission other { admission other with permits := n } t).lastRefusalLog =
      (admission t).lastRefusalLog := by
  by_cases heq : t = other
  · subst heq
    rw [Function.update_self]
  · rw [Function.update_of_ne heq]

/-- What a step does to the log of a listener and to what the listener remembers of it. -/
inductive Logged (s t : State) (transport : Transport) : Prop
  | quiet (hlines : linesOf t.log transport = linesOf s.log transport)
    (hlast : (t.admission transport).lastRefusalLog = (s.admission transport).lastRefusalLog)
  | refused {remote : String} {lag : ℕ} {line : Line}
    (hlines : linesOf t.log transport = linesOf s.log transport ++ [line])
    (ha : (s.admission transport).tryAdmit remote s.now lag =
      (t.admission transport, some line))

theorem Step.logged {s t : State} {e : Event} (h : Step env cfg s e t) (transport : Transport) :
    Logged s t transport := by
  cases h with
  | passed | input => exact .quiet rfl rfl
  | admitted | released => exact .quiet rfl (lastRefusalLog_update _ _ _ _)
  | @refused other remote lag a line _ ha =>
    by_cases heq : transport = other
    · subst heq
      refine .refused (by rw [linesOf_concat, if_pos rfl]) (ha.trans ?_)
      simp only [Function.update_self]
    · refine .quiet (by rw [linesOf_concat, if_neg (Ne.symm heq), List.append_nil]) ?_
      simp only [Function.update_of_ne heq]

theorem Throttled.step {s t : State} {e : Event} (hstep : step env cfg s e = some t)
    {transport : Transport}
    (h : Throttled (warningsOf s.log transport) (s.admission transport)) :
    Throttled (warningsOf t.log transport) (t.admission transport) := by
  cases (step_cases hstep).logged transport with
  | quiet hlines hlast =>
    rw [warningsOf, hlines]
    exact ⟨h.spaced, by rw [hlast]; exact h.last⟩
  | refused hlines ha =>
    rw [warningsOf, hlines, List.filter_append, List.filter_singleton]
    simpa only [Bool.cond_decide, warningsOf] using h.refuse ha

/-- The connections of a listener that were admitted. -/
def State.admittedTo (s : State) (transport : Transport) : ℕ :=
  s.relay.conns.countP (·.transport = transport)

/-- The connections that arrive at a listener in a schedule. -/
def arrivals (schedule : List Event) (transport : Transport) : ℕ :=
  schedule.countP fun
    | .arrive other _ _ => other = transport
    | _ => false

theorem arrivals_cons (e : Event) (schedule : List Event) (transport : Transport) :
    arrivals (e :: schedule) transport = arrivals [e] transport + arrivals schedule transport := by
  rw [arrivals, ← List.singleton_append, List.countP_append]
  rfl

/-- Who arrives is admitted or leaves a line. -/
theorem Step.accounted {s t : State} {e : Event} (h : Step env cfg s e t)
    (transport : Transport) :
    t.admittedTo transport + (linesOf t.log transport).length =
      s.admittedTo transport + (linesOf s.log transport).length + arrivals [e] transport := by
  cases h with
  | passed | released => rfl
  | @admitted other =>
    simp only [State.admittedTo, List.countP_append, List.countP_singleton, arrivals,
      Conn.incoming]
    omega
  | @refused other remote lag a line =>
    simp only [State.admittedTo, linesOf_concat, List.length_append, arrivals,
      List.countP_singleton, decide_eq_true_eq]
    split_ifs
    · exact (Nat.add_assoc _ _ _).symm
    · rfl
  | @input k i c c' slot op hc _ _ hmove =>
    have hset := List.countP_set_add (fun c : Conn => decide (c.transport = transport)) hc c'
    rw [hmove.transport] at hset
    simp only [State.admittedTo, State.conns_apply, arrivals, List.countP_singleton]
    simp only [Bool.false_eq_true, if_false]
    omega

theorem accounted_of_runs {schedule : List Event} {s t : State}
    (h : runs (step env cfg) s schedule = some t) (transport : Transport) :
    t.admittedTo transport + (linesOf t.log transport).length =
      s.admittedTo transport + (linesOf s.log transport).length + arrivals schedule transport := by
  induction schedule generalizing s with
  | nil =>
    cases h
    rfl
  | cons e schedule ih =>
    obtain ⟨u, he, hu⟩ := runs_cons_eq_some h
    have hstep := (step_cases he).accounted transport
    have hrest := ih hu
    have hcons := arrivals_cons e schedule transport
    omega

/-- **Refusals are logged, warnings are throttled.** Of the connections that arrived at a listener
each was admitted or left one line; two warnings of a listener are at least five seconds apart,
however many it refuses. -/
theorem refusals_throttled (env : Env) (cfg : Config) (start : ℕ) (schedule : List Event)
    (s : State) (h : runs (step env cfg) (init start) schedule = some s) (transport : Transport) :
    s.admittedTo transport + (linesOf s.log transport).length = arrivals schedule transport ∧
      (warningsOf s.log transport).Pairwise fun x y =>
        x.notAfter + (Duration.fromSecs 5).nanos ≤ y.notBefore := by
  refine ⟨(accounted_of_runs h transport).trans (Nat.zero_add _), ?_⟩
  have hthrottled : Throttled (warningsOf s.log transport) (s.admission transport) :=
    runs_invariant (fun _ _ _ hs ht => Throttled.step ht hs) h ⟨.nil, nofun⟩
  exact hthrottled.spaced

theorem refusals_throttled_flood :
    ∃ s, runs (step sampleEnv sampleConfig) (init 0) flood = some s ∧
      (s.log.map fun p => (p.1, p.2.level, p.2.notBefore, p.2.notAfter)) =
        [(.quic, .warn, 0, 1), (.quic, .debug, 4000000000, 4000000000),
          (.quic, .warn, 6000000000, 6000000000)] ∧
      s.admittedTo .quic + (linesOf s.log .quic).length = 515 := by
  have hrun : (runs (step sampleEnv sampleConfig) (init 0) flood).map
      (fun s => s.log.map fun p => (p.1, p.2.level, p.2.notBefore, p.2.notAfter)) =
        some [(.quic, .warn, 0, 1), (.quic, .debug, 4000000000, 4000000000),
          (.quic, .warn, 6000000000, 6000000000)] := by
    rw [runs_flood]
    decide +kernel
  obtain ⟨s, hs, hlog⟩ := Option.map_eq_some_iff.1 hrun
  refine ⟨s, hs, hlog, ?_⟩
  rw [(refusals_throttled sampleEnv sampleConfig 0 flood s hs .quic).1]
  decide +kernel

end Listening

end QuicTunnel.Relay
