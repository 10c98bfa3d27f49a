import QuicTunnel.Base.Transition
import QuicTunnel.Relay.Auth

/-!
# The relay: its connections and its two maps

`handle_quic_connection` (`tunnel-server/src/quic.rs`) and `handle_h2_connection`
(`tunnel-server/src/h2_listener.rs`), one instance per accepted connection, over the agent registry
and the map of pending ALPN challenges.

The two handlers take the same steps; `Conn.transport` says whose bytes, whose timeouts and whose
close they are.  `Pc` lists the await points and, after the authentication, the points between two
operations on a map: those are atomic, and any other connection may move between them.  What a peer
sends, what the resolver answers and when a deadline passes is carried by the action.

`Evidence` is not in the source: it keeps what a connection was judged by.
-/

namespace QuicTunnel.Relay

open Transition

inductive Transport
  | quic
  | h2
  deriving DecidableEq

/-- Where a handler is. -/
inductive Pc
  /-- In the TLS handshake. -/
  | handshake
  /-- In `accept_bi`, or in the H2 handshake. -/
  | openControl
  /-- In the auth exchange, reading the domain. -/
  | readDomain
  /-- Reading the signature. -/
  | readSig (domain : String)
  /-- In `txt_lookup`. -/
  | lookupTxt (domain id : String) (source : Bytes)
  /-- The auth exchange returned `Some(id)`; reading the key authorization. -/
  | readKeyAuth (id : String)
  /-- In the ACME wait, before `pending_alpn_insert`. -/
  | insertPending (id : String)
  /-- Writing the ack, or sending `/_ctrl/done`. -/
  | sendAck (id : String) (token : ℕ)
  /-- Waiting for the client to be done. -/
  | waitDone (id : String) (token : ℕ)
  /-- Before `pending_alpn_remove`; `completed` is whether the ACME wait returns `Some`. -/
  | removePending (id : String) (token : ℕ) (completed : Bool)
  /-- In `register`, before the push. -/
  | register (id : String)
  /-- Registered; `done` is awaited. -/
  | registered (id : String) (uid : ℕ)
  /-- `done` resolved; before the agent is removed from its pool. -/
  | unlink (id : String) (uid : ℕ)
  /-- Before `remove_if`. -/
  | sweep (id : String)
  | gone (verdict : Verdict)
  deriving DecidableEq

/-- What a handler has read of its peer. -/
structure Evidence where
  /-- The first certificate of the peer. -/
  cert : Option Bytes
  /-- `auth_token`. -/
  authToken : Option Bytes
  domainBytes : Bytes
  sigBytes : Bytes
  /-- The name that was looked up, and the values found. -/
  txt : Option (String × List Bytes)

structure Conn where
  transport : Transport
  pc : Pc
  /-- What has arrived on the control stream and was not read yet, on QUIC. -/
  buffer : Bytes
  /-- The control stream has ended. -/
  fin : Bool
  seen : Evidence

/-- A connection that was just accepted. -/
def Conn.incoming (transport : Transport) : Conn :=
  ⟨transport, .handshake, [], false, ⟨none, none, [], [], none⟩⟩

/-- What happens to a handler. -/
inductive Input
  /-- The handshake is complete, with the peer's certificates if it sent any. -/
  | peerCerts (chain : Option (List Bytes))
  /-- The control stream was accepted, or the H2 handshake is complete. -/
  | opened
  /-- Bytes arrive on the control stream. -/
  | data (bytes : Bytes)
  | fin
  /-- The read of a frame is polled. -/
  | poll
  /-- A control request is answered, with the body in chunks. -/
  | response (chunks : List (Option Bytes))
  /-- The awaited operation fails. -/
  | lost
  /-- `txt_lookup` answers; `none` is an error. -/
  | txtAnswer (answer : Option (List Bytes))
  /-- The deadline of the stage passes. -/
  | timeout
  /-- The ack is written, or the request sent. -/
  | ackSent
  /-- The handler runs on. -/
  | run
  /-- `register` drew its uid. -/
  | drew (uid : ℕ)
  /-- The connection ended: `done` resolves. -/
  | closed
  deriving DecidableEq

/-- An operation on one of the maps. -/
inductive MapOp
  | none
  | pendingInsert (id : String) (token : ℕ)
  | pendingRemove (id : String) (token : ℕ)
  | push (id : String) (uid : ℕ)
  | remove (id : String) (uid : ℕ)
  | removeIfEmpty (id : String)
  deriving DecidableEq

namespace Conn

variable (c : Conn)

def leave (verdict : Verdict) : Conn := { c with pc := .gone verdict }

/-- A timeout of the auth exchange: QUIC closes with a code, H2 aborts its driver. -/
def authTimeout : Conn :=
  match c.transport with
  | .quic => c.leave .timedOut
  | .h2 => c.leave .dropped

/-- `ctrl_read` on QUIC, the body of a control response on H2; `none` while nothing can be read. -/
def read : Input → Option (Except String Bytes × Conn)
  | .poll =>
    match c.transport, ctrlRead c.buffer c.fin with
    | .quic, .frame payload rest => some (.ok payload, { c with buffer := rest })
    | .quic, .error e => some (.error e, c)
    | _, _ => none
  | .response chunks =>
    match c.transport with
    | .h2 => some (collectH2Body maxCtrlFrame [] chunks, c)
    | .quic => none
  | .lost => some (.error "connection lost", c)
  | _ => none

/-- The handler has the domain. -/
def onDomain : Except String Bytes → Conn
  | .error _ => c.leave .dropped
  | .ok bytes =>
    match fromUtf8 bytes with
    | none => c.leave .dropped
    | some domain => { c with seen.domainBytes := bytes, pc := .readSig domain }

/-- The handler has the signature: it checks the identity and goes on to the TXT lookup if the auth
handler returned a deployment source. -/
def onSig (env : Env) (cfg : Config) (domain : String) : Except String Bytes → Conn
  | .error _ => c.leave .dropped
  | .ok bytes =>
    match checkIdentity env cfg domain bytes with
    | .error verdict => c.leave verdict
    | .ok id =>
      match c.seen.authToken with
      | none => { c with seen.sigBytes := bytes, pc := .readKeyAuth id }
      | some source => { c with seen.sigBytes := bytes, pc := .lookupTxt domain id source }

/-- The handler has the answer of the resolver. -/
def onTxt (env : Env) (domain id : String) (source : Bytes) (answer : Option (List Bytes)) : Conn :=
  match checkTxt env domain source answer with
  | .error verdict => c.leave verdict
  | .ok () =>
    { c with seen.txt := answer.map fun values => (txtName (hostOf domain), values),
             pc := .readKeyAuth id }

/-- The handler has the key authorization: empty means the certificate is cached. -/
def onKeyAuth (id : String) : Except String Bytes → Conn
  | .error _ => c.leave .dropped
  | .ok keyAuth => { c with pc := if keyAuth.isEmpty then .register id else .insertPending id }

/-- The steps of a handler up to the key authorization. -/
def authStep (env : Env) (cfg : Config) (i : Input) : Option Conn :=
  match c.pc, i with
  | .handshake, .peerCerts (some (cert :: _)) =>
    match checkHandler env cfg cert with
    | .error verdict => some (c.leave verdict)
    | .ok token =>
      some { c with seen.cert := some cert, seen.authToken := token, pc := .openControl }
  | .handshake, .peerCerts _ => some (c.leave .dropped)
  | .handshake, .lost => some (c.leave .dropped)
  | .handshake, .timeout => some (c.leave .dropped)
  | .openControl, .opened => some { c with pc := .readDomain }
  | .openControl, .lost => some (c.leave .dropped)
  | .openControl, .timeout => some c.authTimeout
  | .readDomain, .timeout => some c.authTimeout
  | .readDomain, i => (c.read i).map fun (result, c) => c.onDomain result
  | .readSig _, .timeout => some c.authTimeout
  | .readSig domain, i => (c.read i).map fun (result, c) => c.onSig env cfg domain result
  | .lookupTxt _ _ _, .timeout => some c.authTimeout
  | .lookupTxt domain id source, .txtAnswer answer => some (c.onTxt env domain id source answer)
  | .readKeyAuth _, .timeout => some (c.leave .dropped)
  | .readKeyAuth id, i => (c.read i).map fun (result, c) => c.onKeyAuth id result
  | _, _ => none

/-- The steps of a handler that has authenticated its peer: the ACME wait, the registration and its
end.  `token` is what the token counter holds. -/
def serveStep (token : ℕ) (i : Input) : Option (Conn × MapOp) :=
  match c.pc, i with
  | .insertPending id, .run => some ({ c with pc := .sendAck id token }, .pendingInsert id token)
  | .sendAck id token, .ackSent => some ({ c with pc := .waitDone id token }, .none)
  | .sendAck id token, .lost => some ({ c with pc := .removePending id token false }, .none)
  | .waitDone id token, i =>
    -- A failed read is only logged: the wait is over either way.
    (c.read i).map fun (_, c) => ({ c with pc := .removePending id token true }, .none)
  | .removePending id token completed, .run =>
    some ({ c with pc := if completed then .register id else .gone .dropped },
      .pendingRemove id token)
  | .register id, .drew uid => some ({ c with pc := .registered id uid }, .push id uid)
  | .registered id uid, .closed => some ({ c with pc := .unlink id uid }, .none)
  | .unlink id uid, .run => some ({ c with pc := .sweep id }, .remove id uid)
  | .sweep id, .run => some (c.leave .dropped, .removeIfEmpty id)
  | _, _ => none

/-- A step of the handler, with what it does to the maps. -/
def step (env : Env) (cfg : Config) (token : ℕ) (i : Input) : Option (Conn × MapOp) :=
  match i with
  | .data bytes => if c.fin then none else some ({ c with buffer := c.buffer ++ bytes }, .none)
  | .fin => some ({ c with fin := true }, .none)
  | i =>
    match c.authStep env cfg i with
    | some c' => some (c', .none)
    | none => c.serveStep token i

end Conn

/-! ### The relay -/

/-- An entry of the maps names its connection by its number. -/
structure State where
  conns : List Conn
  /-- The registry: the agents of an id, each with its uid. -/
  agents : String → Option (List (ℕ × ℕ))
  /-- The pending challenge of an id, with its token. -/
  pending : String → Option (ℕ × ℕ)
  nextToken : ℕ

def init : State := ⟨[], fun _ => none, fun _ => none, 0⟩

inductive Action
  | accept (transport : Transport)
  | input (k : ℕ) (i : Input)
  deriving DecidableEq

namespace State

variable (s : State)

/-- A map operation of connection `k`. -/
def apply (k : ℕ) : MapOp → State
  | .none => s
  | .pendingInsert id token =>
    { s with pending := Function.update s.pending id (some (token, k)), nextToken := token + 1 }
  | .pendingRemove id token =>
    match s.pending id with
    | some (held, _) =>
      if held = token then { s with pending := Function.update s.pending id none } else s
    | none => s
  | .push id uid =>
    { s with agents := Function.update s.agents id (some ((s.agents id).getD [] ++ [(uid, k)])) }
  | .remove id uid =>
    match s.agents id with
    | some pool =>
      { s with agents := Function.update s.agents id (some (pool.filter (·.1 != uid))) }
    | none => s
  | .removeIfEmpty id =>
    if s.agents id = some [] then { s with agents := Function.update s.agents id none } else s

end State

/-- A step of the relay. -/
def step (env : Env) (cfg : Config) (s : State) : Action → Option State
  | .accept transport => some { s with conns := s.conns ++ [.incoming transport] }
  | .input k i =>
    s.conns[k]?.bind fun c =>
      (c.step env cfg s.nextToken i).map fun (c', op) =>
        { s with conns := s.conns.set k c' }.apply k op

end QuicTunnel.Relay
