import QuicTunnel.Base.Poll
import QuicTunnel.Common.Bytes
import QuicTunnel.Common.Time

/-!
# Completing an ACME order

`tunnel-common/src/acme.rs`: `finalize_order` polls the order until it is ready, sends the CSR and
polls for the certificate.  What the ACME server answers to one order is an `OrderServer`; a call
that fails answers `.error` with the text of its error, which the source's `?` passes on.

* `finalizeOrder` returns the result together with the time it has slept;
* `readyAnswer_eq_none`, `readyAnswer_eq_some`: what the poll for readiness takes as an answer.
-/

namespace QuicTunnel

open Poll

/-! ### The server's answers -/

/-- `instant_acme::OrderStatus`. -/
inductive OrderStatus
  | pending
  | ready
  | processing
  | valid
  | invalid
  deriving DecidableEq

/-- `instant_acme::OrderState`, as far as it is read; a problem is kept as its text. -/
structure OrderState where
  status : OrderStatus
  error : Option String

/-- A TLS-ALPN-01 challenge: its key authorization, and how `set_ready` ends. -/
structure Challenge where
  keyAuthorization : String
  setReady : Except String Unit

/-- An authorization of the order. -/
structure Authorization where
  /-- Its status is `Valid`. -/
  valid : Bool
  tlsAlpn01 : Option Challenge
  /-- The problem of each challenge, if it has one. -/
  problems : List (Option String)

/-- What the ACME server answers to one order: each refresh, the authorizations one by one, the
CSR, and each request for the certificate. -/
structure OrderServer where
  refresh : ℕ → Except String OrderState
  authorizations : List (Except String Authorization)
  finalizeCsr : Bytes → Except String Unit
  certificate : ℕ → Except String (Option String)

/-! ### `finalize_order` -/

def orderReadyRounds : ℕ := 12

def certPollRounds : ℕ := 30

def certPollInterval : Duration := .fromSecs 2

/-- The first failed challenge's problem, else the order's own; a failed request ends the search. -/
def invalidReason (error : Option String) : List (Except String Authorization) → String
  | .ok authz :: rest =>
    match authz.problems.findSome? id with
    | some problem => problem
    | none => invalidReason error rest
  | _ => error.getD "no reason given"

/-- What a refresh says: the order is ready, cannot become so, or is to be asked about again. -/
def readyAnswer (server : OrderServer) (domain : String) (i : ℕ) : Except String (Option Unit) :=
  match server.refresh i with
  | .error e => .error e
  | .ok state =>
    match state.status with
    | .ready | .valid => .ok (some ())
    | .invalid => .error ("ACME order invalid for " ++ domain ++ ": " ++
        invalidReason state.error server.authorizations)
    | .pending | .processing => .ok none

/-- The poll for readiness, from two seconds up to fifteen. -/
def pollReady (server : OrderServer) (domain : String) : Waited String (Option Unit) :=
  poll Duration.nanos (fun delay => min (delay.saturatingMul 2) (.fromSecs 15))
    (readyAnswer server domain) orderReadyRounds 0 (.fromSecs 2)

/-- The poll for the certificate. -/
def pollCertificate (server : OrderServer) : Waited String (Option String) :=
  poll Duration.nanos id server.certificate certPollRounds 0 certPollInterval

def finalizeOrder (server : OrderServer) (domain : String) (csrDer : Bytes) :
    Waited String String :=
  let ready := pollReady server domain
  match ready.result with
  | .error e => ⟨ready.slept, .error e⟩
  | .ok none => ⟨ready.slept, .error ("ACME order for " ++ domain ++
      " never became ready after " ++ toString orderReadyRounds ++ " polls")⟩
  | .ok (some ()) =>
    match server.finalizeCsr csrDer with
    | .error e => ⟨ready.slept, .error e⟩
    | .ok () =>
      let issued := pollCertificate server
      match issued.result with
      | .error e => ⟨ready.slept + issued.slept, .error e⟩
      | .ok (some pem) => ⟨ready.slept + issued.slept, .ok pem⟩
      | .ok none => ⟨ready.slept + issued.slept, .error ("ACME certificate for " ++ domain ++
          " not issued after " ++ (certPollInterval.saturatingMul certPollRounds).debug)⟩

/-! ### When an order is completed -/

/-- Refresh `i` reports one of these. -/
def OrderServer.Reports (server : OrderServer) (i : ℕ) (statuses : List OrderStatus) : Prop :=
  ∃ state, server.refresh i = .ok state ∧ state.status ∈ statuses

section Answers

variable {server : OrderServer} {domain : String} {i : ℕ}

theorem readyAnswer_eq_none :
    readyAnswer server domain i = .ok none ↔ server.Reports i [.pending, .processing] := by
  rcases hrefresh : server.refresh i with e | ⟨status, error⟩
  · simp [readyAnswer, OrderServer.Reports, hrefresh]
  · cases status <;> simp [readyAnswer, OrderServer.Reports, hrefresh]

theorem readyAnswer_eq_some :
    readyAnswer server domain i = .ok (some ()) ↔ server.Reports i [.ready, .valid] := by
  rcases hrefresh : server.refresh i with e | ⟨status, error⟩
  · simp [readyAnswer, OrderServer.Reports, hrefresh]
  · cases status <;> simp [readyAnswer, OrderServer.Reports, hrefresh]

theorem pollReady_result :
    (pollReady server domain).result = .ok (some ()) ↔
      ∃ i < orderReadyRounds, (∀ k < i, server.Reports k [.pending, .processing]) ∧
        server.Reports i [.ready, .valid] := by
  rw [pollReady, result_eq_some]
  simp only [Silent, Nat.zero_add, readyAnswer_eq_none, readyAnswer_eq_some]

theorem pollCertificate_result {pem : String} :
    (pollCertificate server).result = .ok (some pem) ↔
      ∃ j < certPollRounds, (∀ k < j, server.certificate k = .ok none) ∧
        server.certificate j = .ok (some pem) := by
  rw [pollCertificate, result_eq_some]
  simp only [Silent, Nat.zero_add]

/-- `finalize_order` sleeps in its two polls only, and succeeds when they and the request between
them do. -/
theorem finalizeOrder_spec {csrDer : Bytes} :
    (finalizeOrder server domain csrDer).slept ≤
      (pollReady server domain).slept + (pollCertificate server).slept ∧
    ∀ pem, (finalizeOrder server domain csrDer).result = .ok pem ↔
      (pollReady server domain).result = .ok (some ()) ∧ server.finalizeCsr csrDer = .ok () ∧
        (pollCertificate server).result = .ok (some pem) := by
  rcases hready : (pollReady server domain).result with e | _ | _
  · simp [finalizeOrder, hready]
  · simp [finalizeOrder, hready]
  · rcases hcsr : server.finalizeCsr csrDer with e | _
    · simp [finalizeOrder, hready, hcsr]
    · rcases hissued : (pollCertificate server).result with e | _ | pem <;>
        simp [finalizeOrder, hready, hcsr, hissued]

end Answers

/-- **An order is completed in bounded time.**  `finalize_order` sleeps for at most 209 s.  It
succeeds exactly when one of the first 12 refreshes reports the order ready, those before it having
reported it pending, the CSR is accepted, and one of the first 30 requests brings the certificate,
those before it having brought none. -/
theorem finalizeOrder_bounded (server : OrderServer) (domain : String) (csrDer : Bytes) :
    (finalizeOrder server domain csrDer).slept ≤ (Duration.fromSecs 209).nanos ∧
    ∀ pem, (finalizeOrder server domain csrDer).result = .ok pem ↔
      (∃ i < 12, (∀ k < i, server.Reports k [.pending, .processing]) ∧
        server.Reports i [.ready, .valid]) ∧
      server.finalizeCsr csrDer = .ok () ∧
      ∃ j < 30, (∀ k < j, server.certificate k = .ok none) ∧
        server.certificate j = .ok (some pem) := by
  constructor
  · have hready : (pollReady server domain).slept ≤ (Duration.fromSecs 149).nanos :=
      (slept_le _ _ _).trans (by decide)
    have hissued : (pollCertificate server).slept ≤ (Duration.fromSecs 60).nanos :=
      (slept_le _ _ _).trans (by decide)
    calc (finalizeOrder server domain csrDer).slept
        ≤ (pollReady server domain).slept + (pollCertificate server).slept :=
          finalizeOrder_spec.1
      _ ≤ (Duration.fromSecs 149).nanos + (Duration.fromSecs 60).nanos :=
          Nat.add_le_add hready hissued
      _ = (Duration.fromSecs 209).nanos := rfl
  · intro pem
    rw [finalizeOrder_spec.2, pollReady_result, pollCertificate_result]
    rfl

end QuicTunnel
