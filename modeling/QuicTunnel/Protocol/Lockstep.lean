import QuicTunnel.Client.Provisioner
import QuicTunnel.Protocol.H2InStep
import QuicTunnel.Protocol.QuicInStep
import QuicTunnel.Relay.Registration

/-!
# Lockstep

The client branches on the `PrepareResult`, the relay on whether the key authorization it has read
is empty.  `Lockstep` asks that the two sides stay in step in every reachable state, whatever the
relay is configured with and whatever the client's domain and signature are.  It holds exactly for
the results that `Fits` allows: a challenge has to come with a key authorization, which on H2 has to
fit a control body.

`prepare` does return a challenge with an empty key authorization, for an order whose
authorizations are all valid (`emptyOrder`); then each transport gets out of step.
-/

namespace QuicTunnel.Protocol

open Relay (Env Config sampleCert sampleEnv)
open Transition

/-- With this result of `prepare` the two sides are in step in every reachable state. -/
def Lockstep (transport : Relay.Transport) (prepared : Option PrepareResult) : Prop :=
  ∀ (env : Env) (cfg : Config) (script : Script), script.prepared = prepared →
    match transport with
    | .quic => ∀ s, Reach (Quic.step env cfg script) Quic.init s → Quic.InStep script s
    | .h2 => ∀ s, Reach (H2.step env cfg script) H2.init s → H2.InStep script s

/-- A challenge comes with a key authorization, which on H2 fits a control body.  (On QUIC one that
does not fit is not sent.) -/
def Fits (transport : Relay.Transport) (prepared : Option PrepareResult) : Prop :=
  challengeOf prepared = true → keyAuthOf prepared ≠ [] ∧
    (transport = .h2 → (keyAuthOf prepared).length ≤ maxCtrlFrame)

theorem lockstep_of_fits {transport : Relay.Transport} {prepared : Option PrepareResult}
    (h : Fits transport prepared) : Lockstep transport prepared := by
  rintro env cfg script rfl
  cases transport with
  | quic =>
    intro s hreach
    exact (Quic.inv_of_reach hreach).inStep fun hchallenge => (h hchallenge).1
  | h2 =>
    intro s hreach
    have hagrees : H2.Agrees script.prepared :=
      fun hchallenge => ⟨(h hchallenge).1, (h hchallenge).2 rfl⟩
    exact (H2.inv_of_reach hagrees hreach).inStep hagrees

/-! ### Out of step -/

/-- A relay that takes every domain, without an auth handler. -/
def openConfig : Config := ⟨[], none⟩

/-- The client gets as far as its challenge, and the relay as far as the registration. -/
def quicSchedule : List Quic.Action :=
  [.go, .go, .relay (.peerCerts (some [sampleCert])), .relay .opened, .relay .poll, .go,
    .relay .poll, .go, .go, .relay .poll, .relay (.drew 7)]

/-- The client goes on to its challenge, the relay to the registration and to a tunnel stream. -/
def h2Schedule : List H2.Action :=
  [.relay (.peerCerts (some [sampleCert])), .relay .opened, .accept, .answer [utf8 Sample.domain],
    .accept, .answer [Sample.signature], .accept, .go, .go, .answer [], .relay (.drew 7), .tunnel,
    .accept]

/-- A challenge without a key authorization. -/
def IsEmptyChallenge (prepared : Option PrepareResult) : Prop :=
  prepared = some (.leaderChallenge "") ∨ prepared = some (.followerChallenge "")

theorem isEmptyChallenge_of {prepared : Option PrepareResult}
    (hchallenge : challengeOf prepared = true) (hempty : keyAuthOf prepared = []) :
    IsEmptyChallenge prepared := by
  unfold challengeOf at hchallenge
  split at hchallenge
  · exact .inl (congrArg (some ∘ PrepareResult.leaderChallenge) (utf8_injective hempty))
  · exact .inr (congrArg (some ∘ PrepareResult.followerChallenge) (utf8_injective hempty))
  · cases hchallenge
  · cases hchallenge

/-- On QUIC the client waits for the ack of a relay that has registered it. -/
theorem quic_out_of_step {prepared : Option PrepareResult} (h : IsEmptyChallenge prepared) :
    ∃ s, runs (Quic.step sampleEnv openConfig (sampleScript prepared)) Quic.init quicSchedule =
        some s ∧ s.client = .waitAck ∧ s.relay.pc = .registered Sample.clientId 7 ∧
      s.toClient = [] ∧ s.finished = true := by
  have hrun : (runs (Quic.step sampleEnv openConfig (sampleScript prepared)) Quic.init
      quicSchedule).map (fun s => (s.client, s.relay.pc, s.toClient, s.finished)) =
        some (.waitAck, .registered Sample.clientId 7, [], true) := by
    rcases h with rfl | rfl <;> decide +kernel
  obtain ⟨s, hs, hat⟩ := Option.map_eq_some_iff.1 hrun
  simp only [Prod.mk.injEq] at hat
  exact ⟨s, hs, hat⟩

/-- On H2 the client waits for `/_ctrl/done` and gets a tunnel stream. -/
theorem h2_out_of_step {prepared : Option PrepareResult} (h : IsEmptyChallenge prepared) :
    ∃ s, runs (H2.step sampleEnv openConfig (sampleScript prepared)) H2.init h2Schedule = some s ∧
      s.client = .failed (.unexpected .tunnel) ∧ s.relay.pc = .registered Sample.clientId 7 := by
  have hrun : (runs (H2.step sampleEnv openConfig (sampleScript prepared)) H2.init
      h2Schedule).map (fun s => (s.client, s.relay.pc)) =
        some (.failed (.unexpected .tunnel), .registered Sample.clientId 7) := by
    rcases h with rfl | rfl <;> decide +kernel
  obtain ⟨s, hs, hat⟩ := Option.map_eq_some_iff.1 hrun
  simp only [Prod.mk.injEq] at hat
  exact ⟨s, hs, hat⟩

theorem not_lockstep_of_empty {prepared : Option PrepareResult} (h : IsEmptyChallenge prepared)
    (transport : Relay.Transport) : ¬ Lockstep transport prepared := by
  intro hlock
  have hall := hlock sampleEnv openConfig (sampleScript prepared) rfl
  cases transport with
  | quic =>
    obtain ⟨s, hs, hclient, hrelay, hsent, -⟩ := quic_out_of_step h
    have hwaits := (hall s ⟨quicSchedule, hs⟩).clientWaits hclient
    rw [hrelay, hsent] at hwaits
    rcases hwaits with hgone | hmay | hack
    · cases hgone
    · cases hmay
    · cases hack
  | h2 =>
    obtain ⟨s, hs, hclient, -⟩ := h2_out_of_step h
    exact (hall s ⟨h2Schedule, hs⟩).expected _ hclient

/-- The client is asked for its key authorization. -/
def askedSchedule : List H2.Action :=
  [.relay (.peerCerts (some [sampleCert])), .relay .opened, .accept, .answer [utf8 Sample.domain],
    .accept, .answer [Sample.signature], .accept]

/-- A step of the exchange other than the one out of `prepare` does not depend on its result. -/
theorem h2_step_congr (env : Env) (cfg : Config) (prepared : Option PrepareResult) (s : H2.State)
    (a : H2.Action) (h : s.client ≠ .prepare) :
    H2.step env cfg (sampleScript prepared) s a = H2.step env cfg (sampleScript none) s a := by
  obtain ⟨client, relay, requests, response, relayClosed, clientClosed, read⟩ := s
  cases client with
  | prepare => exact absurd rfl h
  | respondKeyAuth challenge ka => cases challenge <;> cases a <;> rfl
  | _ => cases a <;> rfl

/-- Whatever `prepare` returns, the client is asked for its key authorization. -/
theorem h2_asked (prepared : Option PrepareResult) :
    ∃ s, Reach (H2.step sampleEnv openConfig (sampleScript prepared)) H2.init s ∧
      s.client = .prepare ∧ s.relay.pc = .readKeyAuth Sample.clientId ∧
      s.relay.transport = .h2 ∧ s.waited = false := by
  have hrun : (runs (H2.step sampleEnv openConfig (sampleScript none)) H2.init
      askedSchedule).map (fun s => (s.client, s.relay.pc, s.relay.transport, s.waited)) =
        some (.prepare, .readKeyAuth Sample.clientId, .h2, false) := by decide +kernel
  have hmeets : Meets (H2.step sampleEnv openConfig (sampleScript none))
      (fun s _ => s.client ≠ .prepare) H2.init askedSchedule := by decide +kernel
  obtain ⟨s, hs, hat⟩ := Option.map_eq_some_iff.1 hrun
  simp only [Prod.mk.injEq] at hat
  rw [← runs_congr_of_meets (h2_step_congr sampleEnv openConfig prepared) hmeets] at hs
  exact ⟨s, ⟨askedSchedule, hs⟩, hat⟩

/-- On H2 a relay gives up on a key authorization that does not fit a control body. -/
theorem not_lockstep_of_long {prepared : Option PrepareResult}
    (hchallenge : challengeOf prepared = true)
    (hlong : maxCtrlFrame < (keyAuthOf prepared).length) : ¬ Lockstep .h2 prepared := by
  intro hlock
  obtain ⟨s, hs, hclient, hrelay, htransport, hwaited⟩ := h2_asked prepared
  -- The client answers and is in its challenge.
  let responding : H2.State := { s with client := .respondKeyAuth true (keyAuthOf prepared) }
  let answered : H2.State :=
    { s with client := .challenge, response := some (keyAuthOf prepared), challenged := true }
  have hprepare : H2.step sampleEnv openConfig (sampleScript prepared) s .go = some responding := by
    simp only [H2.step, H2.clientStep, hclient, sampleScript, hchallenge, responding]
  have hrespond : H2.step sampleEnv openConfig (sampleScript prepared) responding .go =
      some answered := rfl
  -- The relay reads the answer and leaves.
  have hread : H2.step sampleEnv openConfig (sampleScript prepared) answered
      (.answer [keyAuthOf prepared]) =
        some (answered.onAnswer (s.relay.leave .dropped)) := by
    simp [H2.step, H2.answerStep, answered, Relay.Conn.step, Relay.Conn.authStep, hrelay,
      Relay.Conn.read, htransport, collectH2Body, hlong, Relay.Conn.onKeyAuth]
  have hin := hlock sampleEnv openConfig (sampleScript prepared) rfl _
    (((hs.tail hprepare).tail hrespond).tail hread)
  have hentered := hin.entered (by simp [H2.State.onAnswer, answered, hrelay, Relay.Pc.frame?])
  simp [H2.State.onAnswer, H2.State.onRelay, answered, hwaited, Relay.Conn.leave,
    Relay.Pc.isInsertPending] at hentered

/-- **Lockstep.** The two sides of the exchange stay in step exactly for the results of `prepare`
that carry a key authorization whenever they call for a challenge, on H2 one that fits a control
body. -/
theorem lockstep_iff_fits (transport : Relay.Transport) (prepared : Option PrepareResult) :
    Lockstep transport prepared ↔ Fits transport prepared := by
  refine ⟨fun hlock hchallenge => ⟨fun hempty => ?_, ?_⟩, lockstep_of_fits⟩
  · exact not_lockstep_of_empty (isEmptyChallenge_of hchallenge hempty) transport hlock
  · rintro rfl
    by_contra hlong
    exact not_lockstep_of_long hchallenge (Nat.not_le.1 hlong) hlock

/-! ### Where the empty key authorization comes from -/

/-- What a caller of `prepare` has got. -/
def result? : Acme.Pc → Option PrepareResult
  | .cached _ => some .cached
  | .leader _ ka _ => some (.leaderChallenge ka)
  | .follower _ ka => some (.followerChallenge ka)
  | _ => none

/-- Two members ask for a certificate; the CA answers that the domain is authorized already. -/
def emptyOrder : List Acme.Action :=
  [.prepare Sample.domain, .step 0, .step 0, .step 0, .prepare Sample.domain, .step 1, .step 1,
    .step 1, .setup 0 (.ok [.ok ⟨true, none⟩]), .step 1]

/-- An order whose authorizations are all valid gives its leader and its follower a challenge with
an empty key authorization, and with it each transport gets out of step. -/
theorem empty_key_authorization_out_of_step :
    (∃ s, runs Acme.step (Acme.init 0) emptyOrder = some s ∧
      s.callers.map (fun c => result? c.pc) =
        [some (.leaderChallenge ""), some (.followerChallenge "")]) ∧
    (∃ s, runs (Quic.step sampleEnv openConfig (sampleScript (some (.leaderChallenge ""))))
        Quic.init quicSchedule = some s ∧ s.client = .waitAck ∧
      s.relay.pc = .registered Sample.clientId 7 ∧ s.toClient = [] ∧ s.finished = true) ∧
    (∃ s, runs (H2.step sampleEnv openConfig (sampleScript (some (.leaderChallenge ""))))
        H2.init h2Schedule = some s ∧ s.client = .failed (.unexpected .tunnel) ∧
      s.relay.pc = .registered Sample.clientId 7) ∧
    ∀ transport, ¬ Lockstep transport (some (.leaderChallenge "")) := by
  refine ⟨?_, quic_out_of_step (.inl rfl), h2_out_of_step (.inl rfl),
    not_lockstep_of_empty (.inl rfl)⟩
  have hrun : (runs Acme.step (Acme.init 0) emptyOrder).map
      (fun s => s.callers.map (fun c => result? c.pc)) =
        some [some (.leaderChallenge ""), some (.followerChallenge "")] := by decide +kernel
  exact Option.map_eq_some_iff.1 hrun

end QuicTunnel.Protocol
