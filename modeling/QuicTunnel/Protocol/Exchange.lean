import QuicTunnel.Relay.Handler

/-!
# The control exchange

One client connection and the relay's handler for it, on each transport: `quic_loop_inner` and
`h2_ctrl_exchange` (`tunnel-client/src/client.rs`) against the handlers of `Relay.World`.

Between the two parties everything is delivered, in order.  How long it takes is left to the
schedule: what was sent can be read from then on, and may be read at any later time.  A deadline may
pass, a lookup or a local step may fail, and a party that has left ends what the other reads.

* On QUIC both directions of the control stream carry frames.  The end of the relay's direction is
  the sign of acceptance, and it is also sent whenever the relay drops the stream.
* On H2 the relay sends requests, and the client answers the one it has accepted.

The last fields of the two states only record: what was sent and read, whether the client entered
its challenge phase, whether the relay entered its ACME wait, and whether its auth exchange has
returned an id.
-/

namespace QuicTunnel.Protocol

/-! ### What a client runs the exchange with -/

/-- `PrepareResult`, with what the exchange reads of it. -/
inductive PrepareResult
  | cached
  | leaderChallenge (keyAuthorization : String)
  | followerChallenge (keyAuthorization : String)
  deriving DecidableEq

/-- The domain, what `sign_recoverable` returns for it, and what `prepare` returns; `none` is a
client without a provisioner. -/
structure Script where
  domain : String
  sig : Except String Bytes
  prepared : Option PrepareResult

/-- A client with the sample identity. -/
def sampleScript (prepared : Option PrepareResult) : Script :=
  ⟨Sample.domain, .ok Sample.signature, prepared⟩

/-- The key authorization a client sends. -/
def keyAuthOf : Option PrepareResult → Bytes
  | some (.leaderChallenge ka) => utf8 ka
  | some (.followerChallenge ka) => utf8 ka
  | some .cached => []
  | none => []

/-- Whether the client goes on to the challenge. -/
def challengeOf : Option PrepareResult → Bool
  | some (.leaderChallenge _) => true
  | some (.followerChallenge _) => true
  | some .cached => false
  | none => false

theorem challengeOf_of_keyAuthOf {prepared : Option PrepareResult} (h : keyAuthOf prepared ≠ []) :
    challengeOf prepared = true := by
  unfold keyAuthOf at h
  split at h
  · rfl
  · rfl
  · exact absurd rfl h
  · exact absurd rfl h

/-- What a client means to send for each step of the exchange; `done` is what ends a challenge. -/
def Meant (script : Script) (done : Bytes) : Relay.Frame → Bytes → Prop
  | .domain, payload => payload = utf8 script.domain
  | .sig, payload => script.sig = .ok payload
  | .keyAuth, payload => payload = keyAuthOf script.prepared
  | .done, payload => payload = done

end QuicTunnel.Protocol

/-! ### QUIC -/

namespace QuicTunnel.Protocol.Quic

open Relay (Env Config Conn Frame Input)

/-- Where `quic_loop_inner` is. -/
inductive Pc
  | openBi
  | sendDomain
  | sendSig
  /-- In `prepare`. -/
  | prepare
  | sendKeyAuth (challenge : Bool) (keyAuth : Bytes)
  /-- Challenge: waiting for the ack. -/
  | waitAck
  /-- Serving challenge streams until the certificate is there. -/
  | serve
  | sendDone
  /-- In `read_to_end`. -/
  | awaitAccept
  /-- In `build_tls_acceptor`. -/
  | buildAcceptor
  /-- `ctrl_completed` is set and `Established` is emitted. -/
  | up
  | failed (cause : String)
  deriving DecidableEq

structure State where
  client : Pc
  relay : Conn
  /-- What the relay has sent on the control stream and the client has not read. -/
  toClient : Bytes
  /-- The relay has ended its direction of the control stream. -/
  finished : Bool
  relayClosed : Bool
  clientClosed : Bool
  sent : List (Frame × Bytes)
  reads : List (Frame × Bytes)
  acked : Bool
  acks : List Bytes
  challenged : Bool
  waited : Bool
  authenticated : Bool

def init : State :=
  ⟨.openBi, .incoming .quic, [], false, false, false, [], [], false, [], false, false, false⟩

inductive Action
  /-- The client's next step succeeds. -/
  | go
  /-- A local step of the client fails. -/
  | fails (cause : String)
  /-- The client polls what it reads. -/
  | poll
  /-- The client finds the connection closed. -/
  | closed
  /-- `QUIC_ACCEPT_TIMEOUT` passes. -/
  | timeout
  | relay (i : Input)
  deriving DecidableEq

/-- The frame with the relay's ack. -/
def ackFrame : Bytes := toBeBytes 3 ++ utf8 "ack"

namespace State

variable (s : State)

/-- The client returns with an error: its streams end and its connection closes. -/
def fail (cause : String) : State :=
  { s with client := .failed cause, clientClosed := true, relay.fin := true }

/-- `ctrl_write` of the client, and what follows when it succeeds. -/
def write (frame : Frame) (payload : Bytes) (next : State → State) : State :=
  match ctrlWrite payload with
  | .error e => s.fail e
  | .ok wire =>
    next { s with relay.buffer := s.relay.buffer ++ wire, sent := s.sent ++ [(frame, payload)] }

/-- What can happen to the handler: bytes and losses come from this client only, and a stream is
accepted when there is something on it. -/
def admits : Input → Bool
  | .data _ | .fin => false
  | .opened => !s.sent.isEmpty
  | .lost | .closed => s.clientClosed
  | _ => true

/-- The frame a step of the handler reads. -/
def frameRead (i : Input) : List (Frame × Bytes) :=
  match i, s.relay.pc.frame?, ctrlRead s.relay.buffer s.relay.fin with
  | .poll, some frame, .frame payload _ => [(frame, payload)]
  | _, _, _ => []

/-- A step of the handler to `pc` writes the ack. -/
def writesAck (pc : Relay.Pc) : Bool :=
  match s.relay.pc, pc with
  | .sendAck _ _, .waitDone _ _ => true
  | _, _ => false

/-- The handler goes on to `c`. -/
def onRelay (i : Input) (c : Conn) : State :=
  { s with
    relay := c
    reads := s.reads ++ s.frameRead i
    toClient := if s.writesAck c.pc then s.toClient ++ ackFrame else s.toClient
    acked := s.acked || s.writesAck c.pc
    -- The stream is dropped with the handler or before `register`; a rejection closes the
    -- connection first, and nothing can be sent after that.
    finished := s.finished || (s.relay.pc.holdsControl && !c.pc.holdsControl && !c.pc.isRejected)
    relayClosed := s.relayClosed || c.pc.isGone
    waited := s.waited || c.pc.isInsertPending
    authenticated := s.authenticated || c.pc.client?.isSome }

end State

/-- A step of `quic_loop_inner`. -/
def clientStep (script : Script) (s : State) (a : Action) : Option State :=
  match s.client, a with
  | .openBi, .go => some { s with client := .sendDomain }
  | .sendDomain, .go =>
    some (s.write .domain (utf8 script.domain) fun s => { s with client := .sendSig })
  | .sendSig, .go =>
    match script.sig with
    | .error e => some (s.fail e)
    | .ok sig => some (s.write .sig sig fun s => { s with client := .prepare })
  | .prepare, .go =>
    some { s with client := .sendKeyAuth (challengeOf script.prepared) (keyAuthOf script.prepared) }
  | .sendKeyAuth true ka, .go =>
    some (s.write .keyAuth ka fun s => { s with client := .waitAck, challenged := true })
  | .sendKeyAuth false ka, .go =>
    some (s.write .keyAuth ka fun s => { s with client := .awaitAccept })
  | .waitAck, .poll =>
    match ctrlRead s.toClient s.finished with
    | .pending => none
    | .error e => some (s.fail e)
    | .frame ack rest =>
      some { s with client := .serve, toClient := rest, acks := s.acks ++ [ack] }
  | .serve, .go => some { s with client := .sendDone }
  | .sendDone, .go =>
    some (s.write .done (utf8 "done") fun s => { s with client := .awaitAccept })
  | .awaitAccept, .poll =>
    if s.finished then
      if s.toClient.length ≤ maxCtrlFrame then
        some { s with client := .buildAcceptor, relay.fin := true }
      else some (s.fail "stream too long")
    else none
  | .awaitAccept, .timeout => some (s.fail "relay did not accept within 40s")
  | .buildAcceptor, .go => some { s with client := .up }
  -- `open_bi`, `prepare`, the challenge acceptor, the order, the certificate chain and the tunnel
  -- acceptor may fail.
  | .openBi, .fails e => some (s.fail e)
  | .prepare, .fails e => some (s.fail e)
  | .sendKeyAuth true _, .fails e => some (s.fail e)
  | .serve, .fails e => some (s.fail e)
  | .awaitAccept, .fails e => some (s.fail e)
  | .buildAcceptor, .fails e => some (s.fail e)
  | .up, _ => none
  | .failed _, _ => none
  | _, .closed => if s.relayClosed then some (s.fail "connection lost") else none
  | _, _ => none

/-- A step of the exchange. -/
def step (env : Env) (cfg : Config) (script : Script) (s : State) : Action → Option State
  | .relay i =>
    if s.admits i then (s.relay.step env cfg 0 i).map fun (c, _) => s.onRelay i c else none
  | a => clientStep script s a

/-- What a step of the client can do. -/
inductive ClientMove (script : Script) (s : State) : State → Prop
  | failed (cause : String) : ClientMove script s (s.fail cause)
  | opened (hpc : s.client = .openBi) : ClientMove script s { s with client := .sendDomain }
  | domain {wire : Bytes} (hpc : s.client = .sendDomain)
    (hwrite : ctrlWrite (utf8 script.domain) = .ok wire) :
    ClientMove script s
      { s with relay.buffer := s.relay.buffer ++ wire
               sent := s.sent ++ [(.domain, utf8 script.domain)], client := .sendSig }
  | sig {sig wire : Bytes} (hpc : s.client = .sendSig) (hsig : script.sig = .ok sig)
    (hwrite : ctrlWrite sig = .ok wire) :
    ClientMove script s
      { s with relay.buffer := s.relay.buffer ++ wire, sent := s.sent ++ [(.sig, sig)]
               client := .prepare }
  | prepared (hpc : s.client = .prepare) :
    ClientMove script s
      { s with client := .sendKeyAuth (challengeOf script.prepared) (keyAuthOf script.prepared) }
  | challenge {ka wire : Bytes} (hpc : s.client = .sendKeyAuth true ka)
    (hwrite : ctrlWrite ka = .ok wire) :
    ClientMove script s
      { s with relay.buffer := s.relay.buffer ++ wire, sent := s.sent ++ [(.keyAuth, ka)]
               client := .waitAck, challenged := true }
  | cached {ka wire : Bytes} (hpc : s.client = .sendKeyAuth false ka)
    (hwrite : ctrlWrite ka = .ok wire) :
    ClientMove script s
      { s with relay.buffer := s.relay.buffer ++ wire, sent := s.sent ++ [(.keyAuth, ka)]
               client := .awaitAccept }
  | ack {ack rest : Bytes} (hpc : s.client = .waitAck)
    (hread : ctrlRead s.toClient s.finished = .frame ack rest) :
    ClientMove script s { s with client := .serve, toClient := rest, acks := s.acks ++ [ack] }
  | served (hpc : s.client = .serve) : ClientMove script s { s with client := .sendDone }
  | done {wire : Bytes} (hpc : s.client = .sendDone) (hwrite : ctrlWrite (utf8 "done") = .ok wire) :
    ClientMove script s
      { s with relay.buffer := s.relay.buffer ++ wire
               sent := s.sent ++ [(.done, utf8 "done")], client := .awaitAccept }
  | accepted (hpc : s.client = .awaitAccept) (hfinished : s.finished = true) :
    ClientMove script s { s with client := .buildAcceptor, relay.fin := true }
  | built (hpc : s.client = .buildAcceptor) : ClientMove script s { s with client := .up }

/-- A write fails or goes through. -/
theorem write_move {script : Script} {s : State} {frame : Frame} {payload : Bytes}
    {next : State → State}
    (h : ∀ wire, ctrlWrite payload = .ok wire → ClientMove script s (next
      { s with relay.buffer := s.relay.buffer ++ wire
               sent := s.sent ++ [(frame, payload)] })) :
    ClientMove script s (s.write frame payload next) := by
  unfold State.write
  cases hwrite : ctrlWrite payload with
  | error e => exact .failed e
  | ok wire => exact h wire hwrite

theorem clientStep_move {script : Script} {s t : State} {a : Action}
    (h : clientStep script s a = some t) : ClientMove script s t := by
  unfold clientStep at h
  split at h
  · cases h; exact .opened ‹_›
  · cases h; exact write_move fun _ hwrite => .domain ‹_› hwrite
  · split at h
    · cases h; exact .failed _
    · cases h; exact write_move fun _ hwrite => .sig ‹_› ‹_› hwrite
  · cases h; exact .prepared ‹_›
  · cases h; exact write_move fun _ hwrite => .challenge ‹_› hwrite
  · cases h; exact write_move fun _ hwrite => .cached ‹_› hwrite
  · split at h
    · cases h
    · cases h; exact .failed _
    · cases h; exact .ack ‹_› ‹_›
  · cases h; exact .served ‹_›
  · cases h; exact write_move fun _ hwrite => .done ‹_› hwrite
  · split_ifs at h with hfinished
    · cases h; exact .accepted ‹_› hfinished
    · cases h; exact .failed _
  · cases h; exact .failed _
  · cases h; exact .built ‹_›
  all_goals first
    | (cases h; exact .failed _)
    | cases h
    | (split_ifs at h; cases h; exact .failed _)

/-- A step of the exchange is a step of one of the two parties. -/
theorem step_move {env : Env} {cfg : Config} {script : Script} {s t : State} {a : Action}
    (h : step env cfg script s a = some t) :
    ClientMove script s t ∨ ∃ i c op, a = .relay i ∧ s.admits i = true ∧
      s.relay.Move env cfg 0 i c op ∧ t = s.onRelay i c := by
  unfold step at h
  split at h
  · split_ifs at h with hadmits
    obtain ⟨⟨c, op⟩, hstep, rfl⟩ := Option.map_eq_some_iff.1 h
    exact .inr ⟨_, c, op, rfl, hadmits, Conn.step_move hstep, rfl⟩
  · exact .inl (clientStep_move h)

end QuicTunnel.Protocol.Quic

/-! ### H2 -/

namespace QuicTunnel.Protocol.H2

open Relay (Env Config Conn Input)

/-- The requests of the relay: the steps of the exchange, a challenge stream, a tunnel stream, and
the rejection. -/
inductive Request
  | domain
  | sig
  | keyAuth
  | done
  | alpn
  | tunnel
  | reject (reason : String)
  deriving DecidableEq

/-- Why the client gave up. -/
inductive Cause
  | rejected (reason : String)
  /-- The path is not the one the step asks for. -/
  | unexpected (request : Request)
  | error (text : String)
  deriving DecidableEq

/-- Where `h2_ctrl_exchange` is, and the member that runs it. -/
inductive Pc
  | acceptDomain
  | acceptSig
  | acceptKeyAuth
  /-- In `prepare`. -/
  | prepare
  | respondKeyAuth (challenge : Bool) (keyAuth : Bytes)
  /-- Challenge: waiting for `/_ctrl/done`. -/
  | challenge
  /-- Serving challenge streams until the certificate is there. -/
  | finalize
  /-- The exchange is complete; in `build_tls_acceptor`. -/
  | exchanged
  /-- `PoolLiveness::up` was called. -/
  | up
  | failed (cause : Cause)
  deriving DecidableEq

structure State where
  client : Pc
  relay : Conn
  /-- What the relay has sent and the client has not accepted. -/
  requests : List Request
  /-- The client's answer, until the relay reads it. -/
  response : Option Bytes
  relayClosed : Bool
  clientClosed : Bool
  /-- The relay has read, or refused to read, the response to `/_ctrl/key_auth`. -/
  keyAuthRead : Bool
  challenged : Bool
  waited : Bool
  authenticated : Bool

def init : State :=
  ⟨.acceptDomain, .incoming .h2, [], none, false, false, false, false, false, false⟩

inductive Action
  /-- The client's next step succeeds. -/
  | go
  /-- A local step of the client fails. -/
  | fails (text : String)
  /-- The client accepts a request. -/
  | accept
  /-- The client finds the connection closed. -/
  | closed
  | relay (i : Input)
  /-- The relay reads the client's answer, in chunks. -/
  | answer (chunks : List Bytes)
  /-- The relay opens a challenge stream. -/
  | alpn
  /-- The relay opens a tunnel stream. -/
  | tunnel
  deriving DecidableEq

/-- The request a handler sends as it goes on to a point. -/
def requestAt : Relay.Pc → List Request
  | .readDomain => [.domain]
  | .readSig _ => [.sig]
  | .readKeyAuth _ => [.keyAuth]
  | .waitDone _ _ => [.done]
  | .gone (.rejected reason) => [.reject reason]
  | _ => []

/-- The handler's connection is in the map of pending challenges. -/
def isPending : Relay.Pc → Bool
  | .sendAck _ _ | .waitDone _ _ | .removePending _ _ _ => true
  | _ => false

/-- The handler's connection is in the registry. -/
def isRegistered : Relay.Pc → Bool
  | .registered _ _ | .unlink _ _ => true
  | _ => false

namespace State

variable (s : State)

def fail (cause : Cause) : State := { s with client := .failed cause, clientClosed := true }

/-- `accept_ctrl`: a rejection is raised, any other request is passed on. -/
def accept (next : Request → State → State) : Option State :=
  match s.requests with
  | [] => none
  | .reject reason :: rest => some ({ s with requests := rest }.fail (.rejected reason))
  | request :: rest => some (next request { s with requests := rest })

/-- `anyhow::ensure!` on the path. -/
def ensure (expected request : Request) (next : State) : State :=
  if request = expected then next else s.fail (.unexpected request)

/-- What can happen to the handler: answers and losses come from this client only. -/
def admits : Input → Bool
  | .data _ | .fin | .response _ => false
  | .lost | .closed => s.clientClosed
  | _ => true

/-- The handler goes on to `c`. -/
def onRelay (c : Conn) : State :=
  { s with
    relay := c
    requests := s.requests ++ requestAt c.pc
    relayClosed := s.relayClosed || c.pc.isGone
    waited := s.waited || c.pc.isInsertPending
    authenticated := s.authenticated || c.pc.client?.isSome }

/-- The handler has read the client's answer and goes on to `c`. -/
def onAnswer (c : Conn) : State :=
  { s.onRelay c with
    response := none
    keyAuthRead := s.keyAuthRead || s.relay.pc.frame? = some .keyAuth }

end State

/-- A step of `h2_ctrl_exchange`, and of the member after it. -/
def clientStep (script : Script) (s : State) (a : Action) : Option State :=
  match s.client, a with
  | .acceptDomain, .accept => s.accept fun request s =>
    s.ensure .domain request
      { s with response := some (utf8 script.domain), client := .acceptSig }
  | .acceptSig, .accept => s.accept fun request s =>
    s.ensure .sig request
      (match script.sig with
      | .error e => s.fail (.error e)
      | .ok sig => { s with response := some sig, client := .acceptKeyAuth })
  | .acceptKeyAuth, .accept => s.accept fun request s =>
    s.ensure .keyAuth request { s with client := .prepare }
  | .prepare, .go => some { s with
      client := .respondKeyAuth (challengeOf script.prepared) (keyAuthOf script.prepared) }
  | .respondKeyAuth true ka, .go =>
    some { s with response := some ka, client := .challenge, challenged := true }
  | .respondKeyAuth false ka, .go => some { s with response := some ka, client := .exchanged }
  | .challenge, .accept => s.accept fun request s =>
    match request with
    | .alpn => s
    | .done => { s with client := .finalize }
    | request => s.fail (.unexpected request)
  -- Any other request than a rejection is served or dropped meanwhile.
  | .finalize, .accept => s.accept fun _ s => s
  | .finalize, .go => some { s with response := some [], client := .exchanged }
  | .exchanged, .go => some { s with client := .up }
  | .up, .accept => s.accept fun _ s => s
  | .prepare, .fails e => some (s.fail (.error e))
  | .respondKeyAuth true _, .fails e => some (s.fail (.error e))
  | .challenge, .fails e => some (s.fail (.error e))
  | .finalize, .fails e => some (s.fail (.error e))
  | .exchanged, .fails e => some (s.fail (.error e))
  | .up, _ => none
  | .failed _, _ => none
  | _, .closed => if s.relayClosed then some (s.fail (.error "connection lost")) else none
  | _, _ => none

/-- The relay reads the client's answer. -/
def answerStep (env : Env) (cfg : Config) (s : State) (chunks : List Bytes) : Option State :=
  if s.response = some chunks.flatten then
    (s.relay.step env cfg 0 (.response (chunks.map some))).map fun (c, _) => s.onAnswer c
  else none

/-- A step of the exchange. -/
def step (env : Env) (cfg : Config) (script : Script) (s : State) : Action → Option State
  | .relay i =>
    if s.admits i then (s.relay.step env cfg 0 i).map fun (c, _) => s.onRelay c else none
  | .answer chunks => answerStep env cfg s chunks
  | .alpn =>
    if isPending s.relay.pc then some { s with requests := s.requests ++ [.alpn] } else none
  | .tunnel =>
    if isRegistered s.relay.pc then some { s with requests := s.requests ++ [.tunnel] } else none
  | a => clientStep script s a

/-- The requests a step of the client is ready for, rejections apart. -/
def Pc.expects : Pc → Request → Bool
  | .acceptDomain, .domain => true
  | .acceptSig, .sig => true
  | .acceptKeyAuth, .keyAuth => true
  | .challenge, .alpn => true
  | .challenge, .done => true
  | _, _ => false

/-- What a step of the client can do. -/
inductive ClientMove (script : Script) (s : State) : State → Prop
  | failed {rest : List Request} (text : String) (hrest : rest <:+ s.requests) :
    ClientMove script s ({ s with requests := rest }.fail (.error text))
  | rejected {reason : String} {rest : List Request}
    (hrequests : s.requests = .reject reason :: rest) :
    ClientMove script s ({ s with requests := rest }.fail (.rejected reason))
  | unexpected {request : Request} {rest : List Request}
    (hrequests : s.requests = request :: rest) (hreject : ∀ reason, request ≠ .reject reason)
    (hexpects : s.client.expects request = false)
    (hpc : s.client ∈ [.acceptDomain, .acceptSig, .acceptKeyAuth, .challenge]) :
    ClientMove script s ({ s with requests := rest }.fail (.unexpected request))
  | domain {rest : List Request} (hpc : s.client = .acceptDomain)
    (hrequests : s.requests = .domain :: rest) :
    ClientMove script s
      { s with requests := rest, response := some (utf8 script.domain), client := .acceptSig }
  | sig {sig : Bytes} {rest : List Request} (hpc : s.client = .acceptSig)
    (hrequests : s.requests = .sig :: rest) (hsig : script.sig = .ok sig) :
    ClientMove script s
      { s with requests := rest, response := some sig, client := .acceptKeyAuth }
  | keyAuth {rest : List Request} (hpc : s.client = .acceptKeyAuth)
    (hrequests : s.requests = .keyAuth :: rest) :
    ClientMove script s { s with requests := rest, client := .prepare }
  | prepared (hpc : s.client = .prepare) :
    ClientMove script s { s with
      client := .respondKeyAuth (challengeOf script.prepared) (keyAuthOf script.prepared) }
  | challenge {ka : Bytes} (hpc : s.client = .respondKeyAuth true ka) :
    ClientMove script s
      { s with response := some ka, client := .challenge, challenged := true }
  | cached {ka : Bytes} (hpc : s.client = .respondKeyAuth false ka) :
    ClientMove script s { s with response := some ka, client := .exchanged }
  | alpn {rest : List Request} (hpc : s.client = .challenge)
    (hrequests : s.requests = .alpn :: rest) : ClientMove script s { s with requests := rest }
  | done {rest : List Request} (hpc : s.client = .challenge)
    (hrequests : s.requests = .done :: rest) :
    ClientMove script s { s with requests := rest, client := .finalize }
  | serves {request : Request} {rest : List Request} (hpc : s.client = .finalize ∨ s.client = .up)
    (hrequests : s.requests = request :: rest) : ClientMove script s { s with requests := rest }
  | finalized (hpc : s.client = .finalize) :
    ClientMove script s { s with response := some [], client := .exchanged }
  | built (hpc : s.client = .exchanged) : ClientMove script s { s with client := .up }

section Inversion

variable {env : Env} {cfg : Config} {script : Script} {s t : State}

/-- A request that is accepted is a rejection or is passed on. -/
theorem accept_move {next : Request → State → State} (h : s.accept next = some t)
    (hnext : ∀ request rest, s.requests = request :: rest → (∀ reason, request ≠ .reject reason) →
      ClientMove script s (next request { s with requests := rest })) : ClientMove script s t := by
  unfold State.accept at h
  split at h
  · cases h
  · rename_i hrequests
    cases h
    exact .rejected hrequests
  · rename_i request rest hreject hrequests
    cases h
    exact hnext request rest hrequests fun reason hr => hreject reason hr

/-- A path is the expected one, or the step fails. -/
theorem ensure_move {expected request : Request} {rest : List Request} {next : State}
    (hrequests : s.requests = request :: rest) (hreject : ∀ reason, request ≠ .reject reason)
    (hpc : s.client ∈ [.acceptDomain, .acceptSig, .acceptKeyAuth, .challenge])
    (hexpects : ∀ request, request ≠ expected → s.client.expects request = false)
    (hnext : request = expected → ClientMove script s next) :
    ClientMove script s ({ s with requests := rest }.ensure expected request next) := by
  unfold State.ensure
  split_ifs with heq
  · exact hnext heq
  · exact .unexpected hrequests hreject (hexpects request heq) hpc

theorem clientStep_move {a : Action} (h : clientStep script s a = some t) :
    ClientMove script s t := by
  unfold clientStep at h
  split at h
  · rename_i hpc
    refine accept_move h fun request rest hrequests hreject => ensure_move hrequests hreject
      (by simp [hpc]) (fun r hr => ?_) (by rintro rfl; exact .domain hpc hrequests)
    rw [hpc]
    cases r <;> first | rfl | exact absurd rfl hr
  · rename_i hpc
    refine accept_move h fun request rest hrequests hreject => ensure_move hrequests hreject
      (by simp [hpc]) (fun r hr => ?_) ?_
    · rw [hpc]
      cases r <;> first | rfl | exact absurd rfl hr
    · rintro rfl
      cases hsig : script.sig with
      | error e => exact .failed e (by rw [hrequests]; exact List.suffix_cons _ _)
      | ok sig => exact .sig hpc hrequests hsig
  · rename_i hpc
    refine accept_move h fun request rest hrequests hreject => ensure_move hrequests hreject
      (by simp [hpc]) (fun r hr => ?_) (by rintro rfl; exact .keyAuth hpc hrequests)
    rw [hpc]
    cases r <;> first | rfl | exact absurd rfl hr
  · cases h; exact .prepared ‹_›
  · cases h; exact .challenge ‹_›
  · cases h; exact .cached ‹_›
  · rename_i hpc
    refine accept_move h fun request rest hrequests hreject => ?_
    cases request with
    | alpn => exact .alpn hpc hrequests
    | done => exact .done hpc hrequests
    | _ => exact .unexpected hrequests hreject (by rw [hpc]; rfl) (by simp [hpc])
  · exact accept_move h fun _ _ hrequests _ => .serves (.inl ‹_›) hrequests
  · cases h; exact .finalized ‹_›
  · cases h; exact .built ‹_›
  · exact accept_move h fun _ _ hrequests _ => .serves (.inr ‹_›) hrequests
  all_goals first
    | (cases h; exact .failed _ List.suffix_rfl)
    | cases h
    | (split_ifs at h; cases h; exact .failed _ List.suffix_rfl)

/-- A step of the exchange: of the client, of the handler on its own, of the handler with the
client's answer, or a stream that the relay opens. -/
theorem step_move {a : Action} (h : step env cfg script s a = some t) :
    ClientMove script s t ∨
    (∃ i c op, s.admits i = true ∧ s.relay.Move env cfg 0 i c op ∧ t = s.onRelay c) ∨
    (∃ (chunks : List Bytes) (c : Conn) (op : Relay.MapOp), s.response = some chunks.flatten ∧
      s.relay.Move env cfg 0 (.response (chunks.map some)) c op ∧ t = s.onAnswer c) ∨
    (isPending s.relay.pc = true ∧ t = { s with requests := s.requests ++ [.alpn] }) ∨
    (isRegistered s.relay.pc = true ∧ t = { s with requests := s.requests ++ [.tunnel] }) := by
  cases a with
  | relay i =>
    simp only [step] at h
    split_ifs at h with hadmits
    obtain ⟨⟨c, op⟩, hstep, rfl⟩ := Option.map_eq_some_iff.1 h
    exact .inr (.inl ⟨i, c, op, hadmits, Conn.step_move hstep, rfl⟩)
  | answer chunks =>
    simp only [step, answerStep] at h
    split_ifs at h with hresponse
    obtain ⟨⟨c, op⟩, hstep, rfl⟩ := Option.map_eq_some_iff.1 h
    exact .inr (.inr (.inl ⟨chunks, c, op, hresponse, Conn.step_move hstep, rfl⟩))
  | alpn =>
    simp only [step] at h
    split_ifs at h with hpending
    cases h
    exact .inr (.inr (.inr (.inl ⟨hpending, rfl⟩)))
  | tunnel =>
    simp only [step] at h
    split_ifs at h with hregistered
    cases h
    exact .inr (.inr (.inr (.inr ⟨hregistered, rfl⟩)))
  | go | fails | accept | closed => exact .inl (clientStep_move h)

end Inversion

end QuicTunnel.Protocol.H2
