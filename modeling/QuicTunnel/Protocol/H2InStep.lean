import QuicTunnel.Protocol.Exchange

/-!
# The H2 exchange in step

On H2 the relay asks and the client answers, so the places of the two sides determine each other.

* `Phase` is that relation: for each point of the handler, where the client is, which requests are
  under way and whether there is an answer.  It holds as long as neither side has left;
* `Queue` is what is left of it when the relay has left: what the client will still accept is what
  its step is ready for, or a rejection;
* `Branch`: which branch each side has taken.

`InStep` is what the two sides owe each other.  It follows if a challenge always comes with a key
authorization that fits a control body (`Inv.inStep`).
-/

namespace QuicTunnel.Protocol.H2

open Relay (Env Config Conn Input MapOp)
open Transition

variable {env : Env} {cfg : Config} {script : Script} {s t : State}

/-! ### Where the two sides are -/

def Pc.isFailed : Pc → Bool
  | .failed _ => true
  | _ => false

/-- The exchange is complete. -/
def Pc.served : Pc → Bool
  | .exchanged | .up => true
  | _ => false

/-- The client has not answered `/_ctrl/key_auth` yet. -/
def Pc.beforeResponse : Pc → Bool
  | .acceptDomain | .acceptSig | .acceptKeyAuth | .prepare | .respondKeyAuth _ _ => true
  | _ => false

/-- The client has answered `/_ctrl/key_auth`. -/
def Pc.afterResponse : Pc → Bool
  | .challenge | .finalize | .exchanged | .up => true
  | _ => false

theorem Pc.afterResponse_of_before {pc : Pc} (h : pc.beforeResponse = true) :
    pc.afterResponse = false := by
  cases pc with
  | acceptDomain | acceptSig | acceptKeyAuth | prepare | respondKeyAuth => rfl
  | _ => cases h

theorem Pc.isFailed_of_before {pc : Pc} (h : pc.beforeResponse = true) : pc.isFailed = false := by
  cases pc with
  | failed => cases h
  | _ => rfl

def Request.isReject : Request → Bool
  | .reject _ => true
  | _ => false

/-- Where the client is, what is under way to it and whether it has answered, by where the handler
is. -/
def Phase (prepared : Option PrepareResult) (relay : Relay.Pc) (client : Pc)
    (requests : List Request) (response : Option Bytes) : Prop :=
  match relay with
  | .handshake | .openControl => client = .acceptDomain ∧ requests = [] ∧ response = none
  | .readDomain =>
    client = .acceptDomain ∧ requests = [.domain] ∧ response = none ∨
      client = .acceptSig ∧ requests = [] ∧ response.isSome = true
  | .readSig _ =>
    client = .acceptSig ∧ requests = [.sig] ∧ response = none ∨
      client = .acceptKeyAuth ∧ requests = [] ∧ response.isSome = true
  | .lookupTxt _ _ _ => client = .acceptKeyAuth ∧ requests = [] ∧ response = none
  | .readKeyAuth _ =>
    client = .acceptKeyAuth ∧ requests = [.keyAuth] ∧ response = none ∨
      client = .prepare ∧ requests = [] ∧ response = none ∨
      (∃ challenge ka, client = .respondKeyAuth challenge ka) ∧ requests = [] ∧ response = none ∨
      (client = .challenge ∧ challengeOf prepared = true ∨
        client.served = true ∧ challengeOf prepared = false) ∧
        requests = [] ∧ response.isSome = true
  | .insertPending _ | .sendAck _ _ =>
    client = .challenge ∧ (∀ request ∈ requests, request = .alpn) ∧ response = none
  | .waitDone _ _ =>
    client = .challenge ∧ .done ∈ requests ∧
        (∀ request ∈ requests, request = .alpn ∨ request = .done) ∧ response = none ∨
      client = .finalize ∧ response = none ∨ client.served = true ∧ response.isSome = true
  | .removePending _ _ _ | .register _ | .registered _ _ | .unlink _ _ | .sweep _ =>
    client.served = true ∧ response = none
  | .gone _ => True

/-- The next request is the given one, if it is not a rejection, and only rejections follow. -/
def Asked (request : Request) (requests : List Request) : Prop :=
  (∀ r ∈ requests, r.isReject = true) ∨
    ∃ rest, requests = request :: rest ∧ ∀ r ∈ rest, r.isReject = true

/-- What is under way to a client is what its step is ready for. -/
def Queue (client : Pc) (requests : List Request) : Prop :=
  match client with
  | .acceptDomain => Asked .domain requests
  | .acceptSig => Asked .sig requests
  | .acceptKeyAuth => Asked .keyAuth requests
  | .prepare | .respondKeyAuth _ _ => ∀ r ∈ requests, r.isReject = true
  | .challenge => ∀ r ∈ requests, r = .alpn ∨ r = .done ∨ r.isReject = true
  | _ => True

structure Joint (script : Script) (s : State) : Prop where
  h2 : s.relay.transport = .h2
  closed : s.clientClosed = true → s.client.isFailed = true
  phase : s.client.isFailed = false →
    Phase script.prepared s.relay.pc s.client s.requests s.response
  queue : s.client.isFailed = false → Queue s.client s.requests
  expected : ∀ request, s.client ≠ .failed (.unexpected request)

theorem joint_init : Joint script init where
  h2 := rfl
  closed := nofun
  phase _ := ⟨rfl, rfl, rfl⟩
  queue _ := .inl nofun
  expected := nofun

/-- A request that a client accepts is one its step is ready for. -/
theorem Queue.expects {client : Pc} {request : Request} {rest : List Request}
    (h : Queue client (request :: rest)) (hreject : ∀ reason, request ≠ .reject reason)
    (hpc : client ∈ [.acceptDomain, .acceptSig, .acceptKeyAuth, .challenge]) :
    client.expects request = true := by
  have hnot : request.isReject = false := by
    cases request <;> first | rfl | exact absurd rfl (hreject _)
  have hasked : ∀ {r}, Asked r (request :: rest) → request = r := by
    rintro r (hall | ⟨_, heq, -⟩)
    · rw [hall request List.mem_cons_self] at hnot
      cases hnot
    · cases heq
      rfl
  simp only [List.mem_cons, List.not_mem_nil, or_false] at hpc
  rcases hpc with rfl | rfl | rfl | rfl
  · rw [hasked h]; rfl
  · rw [hasked h]; rfl
  · rw [hasked h]; rfl
  · rcases h request List.mem_cons_self with rfl | rfl | hreject'
    · rfl
    · rfl
    · rw [hreject'] at hnot
      cases hnot

/-- Behind an accepted request of the exchange there are only rejections. -/
theorem Asked.rest {request : Request} {rest : List Request} (h : Asked request (request :: rest))
    (hnot : request.isReject = false) : ∀ r ∈ rest, r.isReject = true := by
  rcases h with hall | ⟨_, heq, hrest⟩
  · rw [hall request List.mem_cons_self] at hnot
    cases hnot
  · cases heq
    exact hrest

/-! ### Steps of the client -/

section Phase

variable {prepared : Option PrepareResult} {relay : Relay.Pc} {request : Request}
  {requests : List Request} {response : Option Bytes}

theorem Phase.answerDomain (h : Phase prepared relay .acceptDomain (.domain :: requests) response)
    (body : Bytes) : Phase prepared relay .acceptSig requests (some body) := by
  cases relay <;> simp_all [Phase, Pc.served]

theorem Phase.answerSig (h : Phase prepared relay .acceptSig (.sig :: requests) response)
    (body : Bytes) : Phase prepared relay .acceptKeyAuth requests (some body) := by
  cases relay <;> simp_all [Phase, Pc.served]

theorem Phase.acceptKeyAuth
    (h : Phase prepared relay .acceptKeyAuth (.keyAuth :: requests) response) :
    Phase prepared relay .prepare requests response := by
  cases relay <;> simp_all [Phase, Pc.served]

theorem Phase.prepare (h : Phase prepared relay .prepare requests response) (challenge : Bool)
    (ka : Bytes) : Phase prepared relay (.respondKeyAuth challenge ka) requests response := by
  cases relay <;> simp_all [Phase, Pc.served]

theorem Phase.answerKeyAuth {challenge : Bool} {ka : Bytes}
    (h : Phase prepared relay (.respondKeyAuth challenge ka) requests response)
    (hchallenge : challenge = challengeOf prepared) (body : Bytes) :
    Phase prepared relay (if challenge then .challenge else .exchanged) requests (some body) := by
  cases challenge <;> cases relay <;> simp_all [Phase, Pc.served]

theorem Phase.serveAlpn (h : Phase prepared relay .challenge (.alpn :: requests) response) :
    Phase prepared relay .challenge requests response := by
  cases relay <;> simp_all [Phase, Pc.served] <;> exact h.1

theorem Phase.acceptDone (h : Phase prepared relay .challenge (.done :: requests) response) :
    Phase prepared relay .finalize requests response := by
  cases relay <;> simp_all [Phase, Pc.served]

theorem Phase.serve {client : Pc} (hpc : client = .finalize ∨ client = .up)
    (h : Phase prepared relay client (request :: requests) response) :
    Phase prepared relay client requests response := by
  rcases hpc with rfl | rfl <;> cases relay <;> simp_all [Phase, Pc.served]

theorem Phase.answerDone (h : Phase prepared relay .finalize requests response) :
    Phase prepared relay .exchanged requests (some []) := by
  cases relay <;> simp_all [Phase, Pc.served]

theorem Phase.built (h : Phase prepared relay .exchanged requests response) :
    Phase prepared relay .up requests response := by
  cases relay <;> simp_all [Phase, Pc.served]

end Phase

/-- A client that goes on has not closed its connection. -/
theorem Joint.open (h : Joint script s) (hlive : s.client.isFailed = false) :
    s.clientClosed = false := by
  cases hclosed : s.clientClosed with
  | false => rfl
  | true =>
    rw [h.closed hclosed] at hlive
    cases hlive

/-- Where a client is that has not failed. -/
theorem Joint.at (h : Joint script s) {pc : Pc} (hpc : s.client = pc)
    (hlive : pc.isFailed = false) :
    Phase script.prepared s.relay.pc pc s.requests s.response ∧ Queue pc s.requests := by
  subst hpc
  exact ⟨h.phase hlive, h.queue hlive⟩

/-- The client goes on. -/
theorem Joint.goto (h : Joint script s) {pc : Pc} (hpc : s.client = pc)
    (hlive : pc.isFailed = false) (hrelay : t.relay = s.relay)
    (hclosed : t.clientClosed = s.clientClosed) (hclient : t.client.isFailed = false)
    (hphase : Phase script.prepared s.relay.pc t.client t.requests t.response)
    (hqueue : Queue t.client t.requests) : Joint script t where
  h2 := by rw [hrelay]; exact h.h2
  closed hc := by
    rw [hclosed, h.open (by rw [hpc]; exact hlive)] at hc
    cases hc
  phase _ := by rw [hrelay]; exact hphase
  queue _ := hqueue
  expected request heq := by
    rw [heq] at hclient
    cases hclient

theorem Joint.client (h : Joint script s) (hresponding : ∀ challenge ka,
      s.client = .respondKeyAuth challenge ka → challenge = challengeOf script.prepared)
    (hmove : ClientMove script s t) : Joint script t := by
  cases hmove with
  | failed | rejected => exact ⟨h.h2, fun _ => rfl, nofun, nofun, nofun⟩
  | unexpected hrequests hreject hexpects hpc =>
    -- What the client accepts is what its step is ready for.
    have hlive : s.client.isFailed = false := by
      simp only [List.mem_cons, List.not_mem_nil, or_false] at hpc
      rcases hpc with hpc | hpc | hpc | hpc <;> rw [hpc] <;> rfl
    have hqueue := h.queue hlive
    rw [hrequests] at hqueue
    rw [hqueue.expects hreject hpc] at hexpects
    cases hexpects
  | domain hpc hrequests =>
    obtain ⟨hphase, hqueue⟩ := h.at hpc rfl
    rw [hrequests] at hphase hqueue
    exact h.goto hpc rfl rfl rfl rfl (hphase.answerDomain _) (.inl (hqueue.rest rfl))
  | sig hpc hrequests hsig =>
    obtain ⟨hphase, hqueue⟩ := h.at hpc rfl
    rw [hrequests] at hphase hqueue
    exact h.goto hpc rfl rfl rfl rfl (hphase.answerSig _) (.inl (hqueue.rest rfl))
  | keyAuth hpc hrequests =>
    obtain ⟨hphase, hqueue⟩ := h.at hpc rfl
    rw [hrequests] at hphase hqueue
    exact h.goto hpc rfl rfl rfl rfl hphase.acceptKeyAuth (hqueue.rest rfl)
  | prepared hpc =>
    obtain ⟨hphase, hqueue⟩ := h.at hpc rfl
    exact h.goto hpc rfl rfl rfl rfl (hphase.prepare _ _) hqueue
  | challenge hpc =>
    obtain ⟨hphase, hqueue⟩ := h.at hpc rfl
    exact h.goto hpc rfl rfl rfl rfl (hphase.answerKeyAuth (hresponding _ _ hpc) _)
      fun r hr => .inr (.inr (hqueue r hr))
  | cached hpc =>
    obtain ⟨hphase, -⟩ := h.at hpc rfl
    exact h.goto hpc rfl rfl rfl rfl (hphase.answerKeyAuth (hresponding _ _ hpc) _) trivial
  | alpn hpc hrequests =>
    obtain ⟨hphase, hqueue⟩ := h.at hpc rfl
    rw [hrequests] at hphase hqueue
    refine h.goto hpc rfl rfl rfl (by rw [hpc]; rfl) ?_ ?_
    · rw [hpc]
      exact hphase.serveAlpn
    · rw [hpc]
      exact fun r hr => hqueue r (List.mem_cons_of_mem _ hr)
  | done hpc hrequests =>
    obtain ⟨hphase, -⟩ := h.at hpc rfl
    rw [hrequests] at hphase
    exact h.goto hpc rfl rfl rfl rfl hphase.acceptDone trivial
  | serves hpc hrequests =>
    have hlive : s.client.isFailed = false := by
      rcases hpc with hpc | hpc <;> rw [hpc] <;> rfl
    have hphase := h.phase hlive
    rw [hrequests] at hphase
    refine h.goto rfl hlive rfl rfl hlive (hphase.serve hpc) ?_
    rcases hpc with hpc | hpc <;> rw [hpc] <;> trivial
  | finalized hpc =>
    obtain ⟨hphase, -⟩ := h.at hpc rfl
    exact h.goto hpc rfl rfl rfl rfl hphase.answerDone trivial
  | built hpc =>
    obtain ⟨hphase, -⟩ := h.at hpc rfl
    exact h.goto hpc rfl rfl rfl rfl hphase.built trivial

/-! ### Steps of the handler -/

theorem Queue.of_served {client : Pc} (h : client.served = true) (requests : List Request) :
    Queue client requests := by
  cases client with
  | exchanged | up => trivial
  | _ => cases h

/-- While the handler is there, the queue is as the phase says. -/
theorem Phase.queue {prepared : Option PrepareResult} {relay : Relay.Pc} {client : Pc}
    {requests : List Request} {response : Option Bytes}
    (h : Phase prepared relay client requests response) (hgone : relay.isGone = false) :
    Queue client requests := by
  cases relay with
  | handshake | openControl | lookupTxt =>
    obtain ⟨rfl, rfl, -⟩ := h
    exact .inl nofun
  | readDomain | readSig =>
    rcases h with ⟨rfl, rfl, -⟩ | ⟨rfl, rfl, -⟩
    · exact .inr ⟨[], rfl, nofun⟩
    · exact .inl nofun
  | readKeyAuth =>
    rcases h with ⟨rfl, rfl, -⟩ | ⟨rfl, rfl, -⟩ | ⟨⟨_, _, rfl⟩, rfl, -⟩ | ⟨hclient, rfl, -⟩
    · exact .inr ⟨[], rfl, nofun⟩
    · exact nofun
    · exact nofun
    · rcases hclient with ⟨rfl, -⟩ | ⟨hserved, -⟩
      · exact nofun
      · exact .of_served hserved _
  | insertPending | sendAck =>
    obtain ⟨rfl, halpn, -⟩ := h
    exact fun r hr => .inl (halpn r hr)
  | waitDone =>
    rcases h with ⟨rfl, -, hall, -⟩ | ⟨rfl, -⟩ | ⟨hserved, -⟩
    · exact fun r hr => (hall r hr).imp_right .inl
    · trivial
    · exact .of_served hserved _
  | removePending | register | registered | unlink | sweep => exact .of_served h.1 _
  | gone => cases hgone

/-- A rejection may be added to any queue. -/
theorem Queue.append {client : Pc} {requests rejects : List Request} (h : Queue client requests)
    (hrejects : ∀ r ∈ rejects, r.isReject = true) : Queue client (requests ++ rejects) := by
  have hall : ∀ {q : List Request}, (∀ r ∈ q, r.isReject = true) →
      ∀ r ∈ q ++ rejects, r.isReject = true := by
    intro q hq r hr
    exact (List.mem_append.1 hr).elim (hq r) (hrejects r)
  have hasked : ∀ {request}, Asked request requests → Asked request (requests ++ rejects) := by
    rintro request (hq | ⟨rest, rfl, hrest⟩)
    · exact .inl (hall hq)
    · exact .inr ⟨rest ++ rejects, rfl, hall hrest⟩
  cases client with
  | acceptDomain | acceptSig | acceptKeyAuth => exact hasked h
  | prepare | respondKeyAuth => exact hall h
  | challenge =>
    intro r hr
    exact (List.mem_append.1 hr).elim (h r) fun hreject => .inr (.inr (hrejects r hreject))
  | finalize | exchanged | up | failed => trivial

/-- The handler goes on. -/
theorem Joint.moved (h : Joint script s) {c : Conn} (hrelay : t.relay = c)
    (hclient : t.client = s.client) (hrequests : t.requests = s.requests ++ requestAt c.pc)
    (hclosed : t.clientClosed = s.clientClosed) (htransport : c.transport = s.relay.transport)
    (hphase : s.client.isFailed = false →
      Phase script.prepared c.pc s.client (s.requests ++ requestAt c.pc) t.response) :
    Joint script t where
  h2 := by rw [hrelay, htransport]; exact h.h2
  closed := by rw [hclosed, hclient]; exact h.closed
  phase := by rw [hrelay, hclient, hrequests]; exact hphase
  queue := by
    rw [hclient, hrequests]
    intro hlive
    cases hgone : c.pc.isGone with
    | false => exact (hphase hlive).queue hgone
    | true =>
      refine (h.queue hlive).append ?_
      cases hpc : c.pc with
      | gone verdict =>
        cases verdict with
        | rejected reason => exact fun r hr => by rw [List.mem_singleton.1 hr]; rfl
        | timedOut | dropped => exact nofun
      | _ => rw [hpc] at hgone; cases hgone
  expected := by rw [hclient]; exact h.expected

theorem Joint.onRelay (h : Joint script s) {c : Conn} (htransport : c.transport = s.relay.transport)
    (hphase : s.client.isFailed = false →
      Phase script.prepared c.pc s.client (s.requests ++ requestAt c.pc) s.response) :
    Joint script (s.onRelay c) :=
  h.moved rfl rfl rfl rfl htransport hphase

theorem Joint.onAnswer (h : Joint script s) {c : Conn}
    (htransport : c.transport = s.relay.transport)
    (hphase : s.client.isFailed = false →
      Phase script.prepared c.pc s.client (s.requests ++ requestAt c.pc) none) :
    Joint script (s.onAnswer c) :=
  h.moved rfl rfl rfl rfl htransport hphase

/-- On H2 a read ends with a response or with the connection. -/
theorem input_of_read {c c' : Conn} {i : Input} {result : Except String Bytes}
    (h2 : c.transport = .h2) (hread : c.read i = some (result, c')) :
    (∃ chunks, i = .response chunks) ∨ i = .lost ∧ ∃ e, result = .error e := by
  cases i with
  | response chunks => exact .inl ⟨chunks, rfl⟩
  | poll =>
    simp only [Conn.read, h2] at hread
    cases hread
  | lost =>
    cases hread
    exact .inr ⟨rfl, _, rfl⟩
  | _ => cases hread

/-- Nothing is read without an answer. -/
theorem Joint.not_read (h : Joint script s) {i : Input} (hadmits : s.admits i = true)
    {payload : Bytes} {c : Conn} : s.relay.read i ≠ some (.ok payload, c) := by
  intro hread
  rcases input_of_read h.h2 hread with ⟨chunks, rfl⟩ | ⟨-, e, he⟩
  · cases hadmits
  · cases he

theorem Joint.relay (h : Joint script s) {i : Input} {c : Conn} {op : MapOp}
    (hadmits : s.admits i = true) (hmove : s.relay.Move env cfg 0 i c op) :
    Joint script (s.onRelay c) := by
  have hread : ∀ {payload c'}, s.relay.read i ≠ some (.ok payload, c') := h.not_read hadmits
  -- What only a lost connection leads to does not happen to a client that goes on.
  have hlost : s.client.isFailed = false → i ≠ .lost ∧ i ≠ .closed := by
    intro hlive
    have hopen := h.open hlive
    constructor
    · rintro rfl
      cases hopen.symm.trans hadmits
    · rintro rfl
      cases hopen.symm.trans hadmits
  cases hmove with
  | data | fin => cases hadmits
  | notUtf8 hr | announced hr | unidentified hr | identified hr | lookUp hr | cached hr
  | challenge hr => exact absurd hr hread
  | refused | timedOut | noKeyAuth | readFailed | unauthorized | abandoned | swept =>
    exact h.onRelay rfl fun _ => trivial
  | accepted hpc | inserted hpc =>
    refine h.onRelay rfl fun hlive => ?_
    have hphase := h.phase hlive
    rw [hpc] at hphase
    obtain ⟨hclient, hrequests, hresponse⟩ := hphase
    exact ⟨hclient, (List.append_nil s.requests).symm ▸ hrequests, hresponse⟩
  | opened hpc | authorized hpc =>
    refine h.onRelay rfl fun hlive => ?_
    have hphase := h.phase hlive
    rw [hpc] at hphase
    obtain ⟨hclient, hrequests, hresponse⟩ := hphase
    exact .inl ⟨hclient, by rw [hrequests]; rfl, hresponse⟩
  | acked hpc =>
    refine h.onRelay rfl fun hlive => ?_
    have hphase := h.phase hlive
    rw [hpc] at hphase
    obtain ⟨hclient, halpn, hresponse⟩ := hphase
    refine .inl ⟨hclient, List.mem_append_right _ (List.mem_singleton.2 rfl), ?_, hresponse⟩
    intro r hr
    rcases List.mem_append.1 hr with hold | hnew
    · exact .inl (halpn r hold)
    · exact .inr (List.mem_singleton.1 hnew)
  | notAcked => exact h.onRelay rfl fun hlive => absurd rfl (hlost hlive).1
  | closed => exact h.onRelay rfl fun hlive => absurd rfl (hlost hlive).2
  | removed hpc | registered _ hpc | unlinked hpc =>
    refine h.onRelay rfl fun hlive => ?_
    have hphase := h.phase hlive
    rw [hpc] at hphase
    exact hphase
  | done hr =>
    refine h.onRelay rfl fun hlive => ?_
    rcases input_of_read h.h2 hr with ⟨chunks, rfl⟩ | ⟨rfl, -⟩
    · cases hadmits
    · exact absurd rfl (hlost hlive).1

/-! ### Answers -/

/-- The request the client has before it or is answering. -/
def Pc.answering : Pc → List Request → Option Relay.Frame
  | .acceptDomain, .domain :: _ => some .domain
  | .acceptSig, .sig :: _ => some .sig
  | .acceptKeyAuth, .keyAuth :: _ => some .keyAuth
  | .prepare, _ | .respondKeyAuth _ _, _ => some .keyAuth
  | .challenge, requests => if .done ∈ requests then some .done else none
  | .finalize, _ => some .done
  | _, _ => none

theorem Pc.answering_of_served {pc : Pc} (h : pc.served = true) (requests : List Request) :
    pc.answering requests = none := by
  cases pc with
  | exchanged | up => rfl
  | _ => cases h

/-- What the client is answering is what the handler reads. -/
theorem Phase.frame {prepared : Option PrepareResult} {relay : Relay.Pc} {client : Pc}
    {requests : List Request} {response : Option Bytes} {frame : Relay.Frame}
    (h : Phase prepared relay client requests response)
    (hanswering : client.answering requests = some frame) :
    relay.frame? = some frame ∨ relay.isGone = true := by
  have hserved : client.served = true → False := by
    intro hserved
    rw [Pc.answering_of_served hserved] at hanswering
    cases hanswering
  cases relay with
  | handshake | openControl | lookupTxt =>
    obtain ⟨rfl, rfl, -⟩ := h
    cases hanswering
  | readDomain | readSig =>
    rcases h with ⟨rfl, rfl, -⟩ | ⟨rfl, rfl, -⟩
    · exact .inl hanswering
    · cases hanswering
  | readKeyAuth =>
    rcases h with ⟨rfl, rfl, -⟩ | ⟨rfl, -⟩ | ⟨⟨_, _, rfl⟩, -⟩ | ⟨⟨rfl, -⟩ | ⟨hc, -⟩, rfl, -⟩
    · exact .inl hanswering
    · exact .inl hanswering
    · exact .inl hanswering
    · cases hanswering
    · exact (hserved hc).elim
  | insertPending | sendAck =>
    obtain ⟨rfl, halpn, -⟩ := h
    have hnot : Request.done ∉ requests := fun hmem => nomatch halpn _ hmem
    rw [Pc.answering, if_neg hnot] at hanswering
    cases hanswering
  | waitDone =>
    rcases h with ⟨rfl, hmem, -⟩ | ⟨rfl, -⟩ | ⟨hc, -⟩
    · rw [Pc.answering, if_pos hmem] at hanswering
      exact .inl hanswering
    · exact .inl hanswering
    · exact (hserved hc).elim
  | removePending | register | registered | unlink | sweep => exact (hserved h.1).elim
  | gone => exact .inr rfl

/-- What a handler reads is there, or the client is answering. -/
theorem Phase.answering {prepared : Option PrepareResult} {relay : Relay.Pc} {client : Pc}
    {requests : List Request} {response : Option Bytes} {frame : Relay.Frame}
    (h : Phase prepared relay client requests response) (hframe : relay.frame? = some frame) :
    response.isSome = true ∨ client.answering requests = some frame := by
  cases relay with
  | readDomain | readSig =>
    rcases h with ⟨rfl, rfl, -⟩ | ⟨-, -, hsome⟩
    · exact .inr hframe
    · exact .inl hsome
  | readKeyAuth =>
    rcases h with ⟨rfl, rfl, -⟩ | ⟨rfl, -⟩ | ⟨⟨_, _, rfl⟩, -⟩ | ⟨-, -, hsome⟩
    · exact .inr hframe
    · exact .inr hframe
    · exact .inr hframe
    · exact .inl hsome
  | waitDone =>
    rcases h with ⟨rfl, hmem, -⟩ | ⟨rfl, -⟩ | ⟨-, hsome⟩
    · rw [Pc.answering, if_pos hmem]
      exact .inr hframe
    · exact .inr hframe
    · exact .inl hsome
  | _ => cases hframe

/-- The handler reads an answer or may come to read one. -/
def mayRead : Relay.Pc → Bool
  | .removePending _ _ _ | .register _ | .registered _ _ | .unlink _ _ | .sweep _ | .gone _ => false
  | _ => true

theorem mayRead_of_frame {pc : Relay.Pc} {frame : Relay.Frame} (h : pc.frame? = some frame) :
    mayRead pc = true := by
  cases pc with
  | readDomain | readSig | readKeyAuth | waitDone => rfl
  | _ => cases h

theorem not_mayRead_of_isGone {pc : Relay.Pc} (h : pc.isGone = true) :
    mayRead pc = false ∧ pc.frame? = none := by
  cases pc with
  | gone => exact ⟨rfl, rfl⟩
  | _ => cases h

/-! ### The two branches -/

/-- A challenge comes with a key authorization that fits a control body. -/
def Agrees (prepared : Option PrepareResult) : Prop :=
  challengeOf prepared = true →
    keyAuthOf prepared ≠ [] ∧ (keyAuthOf prepared).length ≤ maxCtrlFrame

structure Branch (script : Script) (s : State) : Prop where
  responding : ∀ challenge ka, s.client = .respondKeyAuth challenge ka →
    challenge = challengeOf script.prepared ∧ ka = keyAuthOf script.prepared
  before : s.client.beforeResponse = true → s.challenged = false ∧ s.keyAuthRead = false
  after : s.client.afterResponse = true → s.challenged = challengeOf script.prepared
  /-- There is no answer before there is a request. -/
  idle : mayRead s.relay.pc = true → s.relay.pc.frame? = none → s.response = none
  /-- The answer a handler can read is the one to its request. -/
  meant : ∀ frame body, s.relay.pc.frame? = some frame → s.response = some body →
    Meant script [] frame body
  answered : s.relay.pc.frame? = some .keyAuth → s.response.isSome = true →
    s.challenged = challengeOf script.prepared
  read : s.keyAuthRead = true → s.challenged = challengeOf script.prepared
  /-- The relay waits if it has read a key authorization that is not empty. -/
  waited : s.waited = (s.keyAuthRead && !(keyAuthOf script.prepared).isEmpty)

theorem branch_init : Branch script init where
  responding := nofun
  before _ := ⟨rfl, rfl⟩
  after := nofun
  idle _ _ := rfl
  meant := nofun
  answered := nofun
  read := nofun
  waited := rfl

/-- The client goes on without an answer. -/
theorem Branch.goto (h : Branch script s) (hrelay : t.relay = s.relay)
    (hresponse : t.response = s.response) (hread : t.keyAuthRead = s.keyAuthRead)
    (hwaited : t.waited = s.waited) (hchallenged : t.challenged = s.challenged)
    (hresponding : ∀ challenge ka, t.client = .respondKeyAuth challenge ka →
      challenge = challengeOf script.prepared ∧ ka = keyAuthOf script.prepared)
    (hbefore : t.client.beforeResponse = true → s.client.beforeResponse = true)
    (hafter : t.client.afterResponse = true → s.client.afterResponse = true) :
    Branch script t where
  responding := hresponding
  before hb := by
    rw [hchallenged, hread]
    exact h.before (hbefore hb)
  after ha := by
    rw [hchallenged]
    exact h.after (hafter ha)
  idle := by rw [hrelay, hresponse]; exact h.idle
  meant := by rw [hrelay, hresponse]; exact h.meant
  answered := by rw [hrelay, hresponse, hchallenged]; exact h.answered
  read := by rw [hread, hchallenged]; exact h.read
  waited := by rw [hwaited, hread]; exact h.waited

/-- The client answers. -/
theorem Branch.respond (h : Branch script s) (hjoint : Joint script s) (frame : Relay.Frame)
    {body : Bytes} (hanswering : s.client.answering s.requests = some frame)
    (hlive : s.client.isFailed = false) (hrelay : t.relay = s.relay)
    (hresponse : t.response = some body) (hmeant : Meant script [] frame body)
    (hread : t.keyAuthRead = s.keyAuthRead) (hwaited : t.waited = s.waited)
    (hresponding : ∀ challenge ka, t.client ≠ .respondKeyAuth challenge ka)
    (hbefore : t.client.beforeResponse = true → t.challenged = false ∧ s.keyAuthRead = false)
    (hafter : t.client.afterResponse = true → t.challenged = challengeOf script.prepared)
    (hanswered : frame = .keyAuth ∨ s.keyAuthRead = true →
      t.challenged = challengeOf script.prepared) : Branch script t := by
  have hframe := (hjoint.phase hlive).frame hanswering
  have hreading : ∀ {frame'}, s.relay.pc.frame? = some frame' → frame' = frame := by
    intro frame' hframe'
    rcases hframe with hframe | hgone
    · exact Option.some.inj (hframe'.symm.trans hframe)
    · rw [(not_mayRead_of_isGone hgone).2] at hframe'
      cases hframe'
  refine ⟨fun _ _ hc => absurd hc (hresponding _ _), ?_, hafter, ?_, ?_, ?_, ?_, ?_⟩
  · rw [hread]
    exact hbefore
  · rw [hrelay]
    intro hmay hnone
    rcases hframe with hframe | hgone
    · rw [hnone] at hframe
      cases hframe
    · rw [(not_mayRead_of_isGone hgone).1] at hmay
      cases hmay
  · rw [hrelay, hresponse]
    rintro frame' _ hframe' ⟨⟩
    rw [hreading hframe']
    exact hmeant
  · rw [hrelay]
    exact fun hkeyAuth _ => hanswered (.inl (hreading hkeyAuth).symm)
  · rw [hread]
    exact fun hr => hanswered (.inr hr)
  · rw [hwaited, hread]
    exact h.waited

theorem Branch.client (h : Branch script s) (hjoint : Joint script s)
    (hmove : ClientMove script s t) : Branch script t := by
  cases hmove with
  | failed | rejected | unexpected => exact h.goto rfl rfl rfl rfl rfl nofun nofun nofun
  | domain hpc hrequests =>
    have hbefore := h.before (by rw [hpc]; rfl)
    exact h.respond hjoint .domain (by rw [hpc, hrequests]; rfl) (by rw [hpc]; rfl) rfl rfl rfl
      rfl rfl nofun (fun _ => hbefore) nofun (fun hread => by simp [hbefore.2] at hread)
  | sig hpc hrequests hsig =>
    have hbefore := h.before (by rw [hpc]; rfl)
    exact h.respond hjoint .sig (by rw [hpc, hrequests]; rfl) (by rw [hpc]; rfl) rfl rfl hsig
      rfl rfl nofun (fun _ => hbefore) nofun (fun hread => by simp [hbefore.2] at hread)
  | keyAuth hpc =>
    exact h.goto rfl rfl rfl rfl rfl nofun (fun _ => by rw [hpc]; rfl) nofun
  | prepared hpc =>
    refine h.goto rfl rfl rfl rfl rfl ?_ (fun _ => by rw [hpc]; rfl) nofun
    rintro challenge ka ⟨⟩
    exact ⟨rfl, rfl⟩
  | challenge hpc =>
    obtain ⟨hchallenge, hka⟩ := h.responding _ _ hpc
    exact h.respond hjoint .keyAuth (by rw [hpc]; rfl) (by rw [hpc]; rfl) rfl rfl hka rfl rfl
      nofun nofun (fun _ => hchallenge) fun _ => hchallenge
  | cached hpc =>
    obtain ⟨hchallenge, hka⟩ := h.responding _ _ hpc
    have hnot := (h.before (by rw [hpc]; rfl)).1.trans hchallenge
    exact h.respond hjoint .keyAuth (by rw [hpc]; rfl) (by rw [hpc]; rfl) rfl rfl hka rfl rfl
      nofun nofun (fun _ => hnot) fun _ => hnot
  | alpn | serves => exact h.goto rfl rfl rfl rfl rfl h.responding id id
  | done hpc | built hpc =>
    exact h.goto rfl rfl rfl rfl rfl nofun nofun fun _ => by rw [hpc]; rfl
  | finalized hpc =>
    have hafter := h.after (by rw [hpc]; rfl)
    exact h.respond hjoint .done (by rw [hpc]; rfl) (by rw [hpc]; rfl) rfl rfl rfl rfl rfl
      nofun nofun (fun _ => hafter) fun _ => hafter

/-- The handler goes on without an answer. -/
theorem Branch.onRelay (h : Branch script s) {c : Conn} (hinsert : c.pc.isInsertPending = false)
    (hnone : mayRead c.pc = true → s.response = none) : Branch script (s.onRelay c) where
  responding := h.responding
  before := h.before
  after := h.after
  idle hmay _ := hnone hmay
  meant frame body hframe hbody := by
    cases (hnone (mayRead_of_frame hframe)).symm.trans hbody
  answered hframe hsome := by
    replace hsome : s.response.isSome = true := hsome
    rw [hnone (mayRead_of_frame hframe)] at hsome
    cases hsome
  read := h.read
  waited := by
    show (s.waited || c.pc.isInsertPending) = _
    rw [hinsert, Bool.or_false]
    exact h.waited

theorem Branch.relay (h : Branch script s) (hjoint : Joint script s) {i : Input} {c : Conn}
    {op : MapOp} (hadmits : s.admits i = true) (hmove : s.relay.Move env cfg 0 i c op) :
    Branch script (s.onRelay c) := by
  have hread : ∀ {payload c'}, s.relay.read i ≠ some (.ok payload, c') :=
    hjoint.not_read hadmits
  cases hmove with
  | data | fin => cases hadmits
  | notUtf8 hr | announced hr | unidentified hr | identified hr | lookUp hr | cached hr
  | challenge hr => exact absurd hr hread
  | accepted hpc | opened hpc | authorized hpc | inserted hpc | acked hpc =>
    exact h.onRelay rfl fun _ => h.idle (by rw [hpc]; rfl) (by rw [hpc]; rfl)
  | _ => exact h.onRelay rfl nofun

/-- The client has answered where the handler reads the key authorization. -/
theorem Joint.responded (h : Joint script s) {id : String} (hpc : s.relay.pc = .readKeyAuth id)
    (hlive : s.client.isFailed = false) (hresponse : s.response.isSome = true) :
    (s.client = .challenge ∧ challengeOf script.prepared = true ∨
      s.client.served = true ∧ challengeOf script.prepared = false) ∧ s.requests = [] := by
  have hphase := h.phase hlive
  rw [hpc] at hphase
  rcases hphase with ⟨-, -, hnone⟩ | ⟨-, -, hnone⟩ | ⟨-, -, hnone⟩ | ⟨hclient, hrequests, -⟩
  · rw [hnone] at hresponse
    cases hresponse
  · rw [hnone] at hresponse
    cases hresponse
  · rw [hnone] at hresponse
    cases hresponse
  · exact ⟨hclient, hrequests⟩

theorem Joint.afterResponse (h : Joint script s) {id : String}
    (hpc : s.relay.pc = .readKeyAuth id) (hlive : s.client.isFailed = false)
    (hresponse : s.response.isSome = true) : s.client.afterResponse = true := by
  rcases (h.responded hpc hlive hresponse).1 with ⟨hclient, -⟩ | ⟨hserved, -⟩
  · rw [hclient]
    rfl
  · cases hclient : s.client with
    | exchanged | up => rfl
    | _ => rw [hclient] at hserved; cases hserved

/-- What is read of an answer is the answer. -/
theorem payload_of_read {c c' : Conn} {chunks : List Bytes} {payload : Bytes}
    (h2 : c.transport = .h2)
    (hread : c.read (.response (chunks.map some)) = some (.ok payload, c')) :
    payload = chunks.flatten := by
  simp only [Conn.read, h2, Option.some.injEq, Prod.mk.injEq] at hread
  exact eq_of_collectH2Body hread.1

/-- An answer within the limit is read. -/
theorem length_of_read_error {c c' : Conn} {chunks : List Bytes} {e : String}
    (h2 : c.transport = .h2)
    (hread : c.read (.response (chunks.map some)) = some (.error e, c')) :
    maxCtrlFrame < chunks.flatten.length := by
  simp only [Conn.read, h2, Option.some.injEq, Prod.mk.injEq] at hread
  by_contra hle
  rw [collectH2Body_eq_ok (by simpa using hle)] at hread
  cases hread.1

theorem readKeyAuth_of_frame {pc : Relay.Pc} (h : pc.frame? = some .keyAuth) :
    ∃ id, pc = .readKeyAuth id := by
  cases pc with
  | readKeyAuth id => exact ⟨id, rfl⟩
  | _ => cases h

theorem Branch.onAnswer (h : Branch script s) (hjoint : Joint script s) {c : Conn}
    (hresponse : s.response.isSome = true)
    (hwaited : (s.waited || c.pc.isInsertPending) =
      ((s.keyAuthRead || decide (s.relay.pc.frame? = some .keyAuth)) &&
        !(keyAuthOf script.prepared).isEmpty)) : Branch script (s.onAnswer c) where
  responding := h.responding
  before hb := by
    refine ⟨(h.before hb).1, ?_⟩
    show (s.keyAuthRead || decide (s.relay.pc.frame? = some .keyAuth)) = false
    rw [(h.before hb).2, Bool.false_or, decide_eq_false_iff_not]
    intro hframe
    -- The client has answered, so it is not before its response.
    obtain ⟨id, hpc⟩ := readKeyAuth_of_frame hframe
    cases (Pc.afterResponse_of_before hb).symm.trans
      (hjoint.afterResponse hpc (Pc.isFailed_of_before hb) hresponse)
  after := h.after
  idle _ _ := rfl
  meant _ _ _ := nofun
  answered _ := nofun
  read hread := by
    rcases Bool.or_eq_true_iff.1 hread with hold | hnew
    · exact h.read hold
    · exact h.answered (of_decide_eq_true hnew) hresponse
  waited := hwaited

/-- A key authorization that agrees with the branch of the client fits a control body. -/
theorem Agrees.length_le {prepared : Option PrepareResult} (h : Agrees prepared) :
    (keyAuthOf prepared).length ≤ maxCtrlFrame := by
  by_cases hempty : keyAuthOf prepared = []
  · rw [hempty]
    exact Nat.zero_le _
  · exact (h (challengeOf_of_keyAuthOf hempty)).2

section Answer

variable {chunks : List Bytes} {c : Conn} {op : MapOp}

/-- What is read as the key authorization is what `prepare` returned. -/
theorem Branch.keyAuth (h : Branch script s) (hresponse : s.response = some chunks.flatten)
    {id : String} (hpc : s.relay.pc = .readKeyAuth id) :
    chunks.flatten = keyAuthOf script.prepared :=
  h.meant .keyAuth _ (by rw [hpc]; rfl) hresponse

theorem Branch.answerStep (h : Branch script s) (hjoint : Joint script s)
    (hagrees : Agrees script.prepared) (hresponse : s.response = some chunks.flatten)
    (hmove : s.relay.Move env cfg 0 (.response (chunks.map some)) c op) :
    Branch script (s.onAnswer c) := by
  have hsome : s.response.isSome = true := by rw [hresponse]; rfl
  -- An answer to another request than that for the key authorization.
  have hother : c.pc.isInsertPending = false → s.relay.pc.frame? ≠ some .keyAuth →
      Branch script (s.onAnswer c) := by
    intro hinsert hframe
    refine h.onAnswer hjoint hsome ?_
    rw [hinsert, Bool.or_false, decide_eq_false hframe, Bool.or_false]
    exact h.waited
  cases hmove with
  | refused verdict hpc =>
    refine hother rfl ?_
    rcases hpc with hpc | hpc <;> rw [hpc] <;> exact nofun
  | readFailed hr =>
    refine hother rfl fun hframe => ?_
    obtain ⟨id, hpc⟩ := readKeyAuth_of_frame hframe
    have hlong := length_of_read_error hjoint.h2 hr
    rw [h.keyAuth hresponse hpc] at hlong
    exact absurd hagrees.length_le (Nat.not_le.2 hlong)
  | notUtf8 hr hpc | announced hr hpc | unidentified hr hpc | identified hr hpc | lookUp hr hpc
  | done hr hpc => exact hother rfl (by rw [hpc]; exact nofun)
  | cached hr hpc =>
    refine h.onAnswer hjoint hsome ?_
    have hempty : keyAuthOf script.prepared = [] := by
      rw [← h.keyAuth hresponse hpc, ← payload_of_read hjoint.h2 hr]
    rw [h.waited, hempty]
    simp [Relay.Pc.isInsertPending]
  | challenge hr hpc hne =>
    refine h.onAnswer hjoint hsome ?_
    rw [payload_of_read hjoint.h2 hr, h.keyAuth hresponse hpc] at hne
    simp [Relay.Pc.isInsertPending, Relay.Pc.frame?, hpc, hne]

theorem Joint.answerStep (h : Joint script s) (hbranch : Branch script s)
    (hagrees : Agrees script.prepared) (hresponse : s.response = some chunks.flatten)
    (hmove : s.relay.Move env cfg 0 (.response (chunks.map some)) c op) :
    Joint script (s.onAnswer c) := by
  cases hmove with
  | refused | readFailed | notUtf8 | unidentified => exact h.onAnswer rfl fun _ => trivial
  | announced hr hpc | identified hr hpc =>
    refine h.onAnswer rfl fun hlive => ?_
    have hphase := h.phase hlive
    rw [hpc, hresponse] at hphase
    rcases hphase with ⟨-, -, hnone⟩ | ⟨hclient, hrequests, -⟩
    · cases hnone
    · exact .inl ⟨hclient, by rw [hrequests]; rfl, rfl⟩
  | lookUp hr hpc =>
    refine h.onAnswer rfl fun hlive => ?_
    have hphase := h.phase hlive
    rw [hpc, hresponse] at hphase
    rcases hphase with ⟨-, -, hnone⟩ | ⟨hclient, hrequests, -⟩
    · cases hnone
    · exact ⟨hclient, by rw [hrequests]; rfl, rfl⟩
  | cached hr hpc =>
    refine h.onAnswer rfl fun hlive => ?_
    have hempty : keyAuthOf script.prepared = [] := by
      rw [← hbranch.keyAuth hresponse hpc, ← payload_of_read h.h2 hr]
    obtain ⟨⟨-, hchallenge⟩ | ⟨hserved, -⟩, -⟩ := h.responded hpc hlive (by rw [hresponse]; rfl)
    · exact absurd hempty (hagrees hchallenge).1
    · exact ⟨hserved, rfl⟩
  | challenge hr hpc hne =>
    refine h.onAnswer rfl fun hlive => ?_
    rw [payload_of_read h.h2 hr, hbranch.keyAuth hresponse hpc] at hne
    obtain ⟨⟨hclient, -⟩ | ⟨-, hnot⟩, hrequests⟩ :=
      h.responded hpc hlive (by rw [hresponse]; rfl)
    · exact ⟨hclient, by rw [hrequests]; exact nofun, rfl⟩
    · rw [challengeOf_of_keyAuthOf hne] at hnot
      cases hnot
  | done hr hpc =>
    refine h.onAnswer rfl fun hlive => ?_
    have hphase := h.phase hlive
    rw [hpc, hresponse] at hphase
    rcases hphase with ⟨-, -, -, hnone⟩ | ⟨-, hnone⟩ | ⟨hserved, -⟩
    · cases hnone
    · cases hnone
    · exact ⟨hserved, rfl⟩

end Answer

/-! ### The invariant -/

/-- The relay opens a challenge stream or a tunnel stream. -/
theorem Joint.opens (h : Joint script s) {request : Request}
    (hopens : isPending s.relay.pc = true ∧ request = .alpn ∨
      isRegistered s.relay.pc = true ∧ request = .tunnel) :
    Joint script { s with requests := s.requests ++ [request] } := by
  have hphase : s.client.isFailed = false →
      Phase script.prepared s.relay.pc s.client (s.requests ++ [request]) s.response := by
    intro hlive
    have hphase := h.phase hlive
    rcases hopens with ⟨hpending, rfl⟩ | ⟨hregistered, rfl⟩
    · cases hpc : s.relay.pc with
      | sendAck =>
        rw [hpc] at hphase
        obtain ⟨hclient, halpn, hnone⟩ := hphase
        exact ⟨hclient, by simpa [or_imp, forall_and] using halpn, hnone⟩
      | waitDone =>
        rw [hpc] at hphase
        rcases hphase with ⟨hclient, hmem, hall, hnone⟩ | hphase
        · refine .inl ⟨hclient, List.mem_append_left _ hmem, fun r hr => ?_, hnone⟩
          exact (List.mem_append.1 hr).elim (hall r) fun hr => .inl (List.mem_singleton.1 hr)
        · exact .inr hphase
      | removePending =>
        rw [hpc] at hphase
        exact hphase
      | _ => rw [hpc] at hpending; cases hpending
    · cases hpc : s.relay.pc with
      | registered | unlink =>
        rw [hpc] at hphase
        exact hphase
      | _ => rw [hpc] at hregistered; cases hregistered
  have hgone : s.relay.pc.isGone = false := by
    cases hpc : s.relay.pc with
    | gone => simp [hpc, isPending, isRegistered] at hopens
    | _ => rfl
  exact ⟨h.h2, h.closed, hphase, fun hlive => (hphase hlive).queue hgone, h.expected⟩

theorem Branch.opens (h : Branch script s) (requests : List Request) :
    Branch script { s with requests := requests } :=
  h.goto rfl rfl rfl rfl rfl h.responding id id

structure Inv (script : Script) (s : State) : Prop where
  joint : Joint script s
  branch : Branch script s

theorem Inv.step (h : Inv script s) (hagrees : Agrees script.prepared) {a : Action}
    (hstep : H2.step env cfg script s a = some t) : Inv script t := by
  rcases step_move hstep with hmove | ⟨i, c, op, hadmits, hmove, rfl⟩ |
    ⟨chunks, c, op, hresponse, hmove, rfl⟩ | ⟨hpending, rfl⟩ | ⟨hregistered, rfl⟩
  · exact ⟨h.joint.client (fun _ _ hpc => (h.branch.responding _ _ hpc).1) hmove,
      h.branch.client h.joint hmove⟩
  · exact ⟨h.joint.relay hadmits hmove, h.branch.relay h.joint hadmits hmove⟩
  · exact ⟨h.joint.answerStep h.branch hagrees hresponse hmove,
      h.branch.answerStep h.joint hagrees hresponse hmove⟩
  · exact ⟨h.joint.opens (.inl ⟨hpending, rfl⟩), h.branch.opens _⟩
  · exact ⟨h.joint.opens (.inr ⟨hregistered, rfl⟩), h.branch.opens _⟩

theorem inv_of_reach (hagrees : Agrees script.prepared)
    (h : Reach (H2.step env cfg script) init s) : Inv script s :=
  h.invariant (fun _ _ _ hinv => hinv.step hagrees) ⟨joint_init, branch_init⟩

/-! ### In step -/

/-- The request without which a client does not go on. -/
def Pc.awaits : Pc → Option Request
  | .acceptDomain => some .domain
  | .acceptSig => some .sig
  | .acceptKeyAuth => some .keyAuth
  | .challenge => some .done
  | _ => none

/-- The handler can still come to send the request. -/
def mayAsk : Relay.Pc → Request → Bool
  | .handshake, .domain | .openControl, .domain => true
  | .readDomain, .sig => true
  | .readSig _, .keyAuth | .lookupTxt _ _ _, .keyAuth => true
  | .readKeyAuth _, .done | .insertPending _, .done | .sendAck _ _, .done => true
  | _, _ => false

/-- **The two sides are in step.** -/
structure InStep (script : Script) (s : State) : Prop where
  /-- Once the relay has read the key authorization, both are in the challenge or neither is. -/
  entered : s.keyAuthRead = true → (s.challenged = true ↔ s.waited = true)
  /-- The answer a handler waits for is there or to come, unless the client has left. -/
  relayWaits : ∀ frame, s.relay.pc.frame? = some frame → s.client.isFailed = true ∨
    s.response.isSome = true ∨ s.client.answering s.requests = some frame
  /-- The request a client waits for is there or to come, unless the relay has left. -/
  clientWaits : ∀ request, s.client.awaits = some request →
    s.relay.pc.isGone = true ∨ mayAsk s.relay.pc request = true ∨ request ∈ s.requests
  /-- No request comes that the client's step is not ready for. -/
  expected : ∀ request, s.client ≠ .failed (.unexpected request)
  /-- Every answer is read as the answer to the request it was sent for. -/
  meant : ∀ frame body, s.relay.pc.frame? = some frame → s.response = some body →
    Meant script [] frame body

theorem Pc.awaits_of_served {pc : Pc} (h : pc.served = true) : pc.awaits = none := by
  cases pc with
  | exchanged | up => rfl
  | _ => cases h

theorem Phase.awaits {prepared : Option PrepareResult} {relay : Relay.Pc} {client : Pc}
    {requests : List Request} {response : Option Bytes} {request : Request}
    (h : Phase prepared relay client requests response) (hawaits : client.awaits = some request) :
    relay.isGone = true ∨ mayAsk relay request = true ∨ request ∈ requests := by
  have hserved : client.served = true → False := by
    intro hserved
    rw [Pc.awaits_of_served hserved] at hawaits
    cases hawaits
  cases relay with
  | handshake | openControl | lookupTxt =>
    obtain ⟨rfl, -⟩ := h
    cases hawaits
    exact .inr (.inl rfl)
  | readDomain | readSig =>
    rcases h with ⟨rfl, rfl, -⟩ | ⟨rfl, -⟩
    · cases hawaits
      exact .inr (.inr List.mem_cons_self)
    · cases hawaits
      exact .inr (.inl rfl)
  | readKeyAuth =>
    rcases h with ⟨rfl, rfl, -⟩ | ⟨rfl, -⟩ | ⟨⟨_, _, rfl⟩, -⟩ | ⟨⟨rfl, -⟩ | ⟨hc, -⟩, -⟩
    · cases hawaits
      exact .inr (.inr List.mem_cons_self)
    · cases hawaits
    · cases hawaits
    · cases hawaits
      exact .inr (.inl rfl)
    · exact (hserved hc).elim
  | insertPending | sendAck =>
    obtain ⟨rfl, -⟩ := h
    cases hawaits
    exact .inr (.inl rfl)
  | waitDone =>
    rcases h with ⟨rfl, hmem, -⟩ | ⟨rfl, -⟩ | ⟨hc, -⟩
    · cases hawaits
      exact .inr (.inr hmem)
    · cases hawaits
    · exact (hserved hc).elim
  | removePending | register | registered | unlink | sweep => exact (hserved h.1).elim
  | gone => exact .inl rfl

theorem Inv.inStep (h : Inv script s) (hagrees : Agrees script.prepared) : InStep script s where
  entered hread := by
    rw [h.branch.read hread, h.branch.waited, hread, Bool.true_and, Bool.not_eq_true',
      List.isEmpty_eq_false_iff]
    exact ⟨fun hchallenge => (hagrees hchallenge).1, challengeOf_of_keyAuthOf⟩
  relayWaits frame hframe := by
    cases hlive : s.client.isFailed with
    | true => exact .inl rfl
    | false => exact .inr ((h.joint.phase hlive).answering hframe)
  clientWaits request hawaits := by
    refine (h.joint.phase ?_).awaits hawaits
    cases hclient : s.client with
    | failed => rw [hclient] at hawaits; cases hawaits
    | _ => rfl
  expected := h.joint.expected
  meant := h.branch.meant

end QuicTunnel.Protocol.H2
