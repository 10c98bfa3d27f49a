import QuicTunnel.Relay.Pending
import QuicTunnel.Relay.Registry
import QuicTunnel.Relay.Sniffing

/-!
# The public listener

`run_public_listener` and `handle_public` (`tunnel-server/src/public.rs`) and `handle_acme`
(`tunnel-server/src/alpn.rs`), one task per user connection, beside the relay of `Relay.World`,
whose connections come, register and leave as they like, and beside the provisioning of the
server's own certificate, which sets and clears `server_challenge` as it likes.

* a task peeks (`Relay.Sniffing`), then takes a challenge to the server's own acceptor or to the
  connection that waits for it, and anything else to an agent of the client that the first label of
  the SNI names;
* `lookUp` reads the maps at one moment; the stream is opened, and the bytes are copied, later;
* the counter of a pool is carried by the action (`Relay.Balance` is about it);
* time passes up to the next deadline, as in `Relay.Admission`; a task that waits for nothing runs
  before the clock goes on.
-/

namespace QuicTunnel.Relay

open Transition

/-- `PEEK_TIMEOUT`. -/
def peekTimeout : Duration := .fromSecs 10

/-- `TUNNEL_OPEN_TIMEOUT`. -/
def tunnelOpenTimeout : Duration := .fromSecs 10

/-- The agent `handle_public` chooses for a host. -/
def handlePublic (counter : ℕ) (s : State) (host : String) : Option ℕ := do
  let id ← firstLabel host
  let pool ← s.agents id
  if pool.isEmpty then none
  else
    let (agent, _) ← (Registry.AgentPool.mk counter pool).nextAgent
    some agent

/-- The agent is one of the pool of the id that the first label names. -/
theorem handlePublic_eq_some {counter k : ℕ} {s : State} {host : String}
    (h : handlePublic counter s host = some k) :
    ∃ id pool uid, firstLabel host = some id ∧ s.agents id = some pool ∧ (uid, k) ∈ pool := by
  simp only [handlePublic, Option.bind_eq_bind, Option.bind_eq_some_iff] at h
  obtain ⟨id, hid, pool, hpool, h⟩ := h
  split_ifs at h
  obtain ⟨⟨agent, pool'⟩, hnext, h⟩ := Option.bind_eq_some_iff.1 h
  cases h
  obtain ⟨entry, hentry, heq⟩ := Option.map_eq_some_iff.1 hnext
  cases heq
  exact ⟨id, pool, entry.1, hid, hpool, List.mem_of_getElem? hentry⟩

/-- A pool that is not empty has an agent, whatever the counter. -/
theorem handlePublic_isSome {s : State} {host id : String} {pool : List (ℕ × ℕ)}
    (hid : firstLabel host = some id) (hpool : s.agents id = some pool) (hne : pool ≠ [])
    (counter : ℕ) : ∃ k, handlePublic counter s host = some k := by
  have hlt : counter % pool.length < pool.length :=
    Nat.mod_lt _ (List.length_pos_iff.2 hne)
  refine ⟨(pool.get ⟨_, hlt⟩).2, ?_⟩
  simp [handlePublic, hid, hpool, hne, Registry.AgentPool.nextAgent, List.getElem?_eq_getElem hlt]

/-- What is stored stays stored. -/
theorem Stored.step {env : Env} {cfg : Config} {s t : State} {a : Action} {id : String} {k : ℕ}
    (h : Stored env cfg s.conns id k) (hstep : Relay.step env cfg s a = some t) :
    Stored env cfg t.conns id k := by
  cases a with
  | accept transport =>
    cases hstep
    obtain ⟨c, hc, hrest⟩ := h
    have hk : k < s.conns.length := (List.getElem?_eq_some_iff.1 hc).1
    exact ⟨c, by rw [List.getElem?_append_left hk]; exact hc, hrest⟩
  | input j i =>
    obtain ⟨c, c', op, hc, hmove, rfl⟩ := step_input hstep
    rw [State.conns_apply]
    exact h.set hc hmove.settled

namespace Routing

/-- What a stream to a connection is for. -/
inductive Purpose
  | user
  | challenge
  deriving DecidableEq

/-- Where the task of a user connection is; `α` are the acceptors of the server's own challenge. -/
inductive Point (α : Type)
  /-- In `peek_sni_alpn`, before the next peek. -/
  | peeking (sniffer : Sniffer)
  | sniffed (host : String) (isAcme : Bool)
  /-- In `handle_acme`: the server's own challenge is not for this host. -/
  | notOwn (host : String)
  /-- Opening a stream to connection `k`. -/
  | opening (host : String) (purpose : Purpose) (k : ℕ)
  /-- In `copy_bidirectional`. -/
  | proxying (host : String) (purpose : Purpose) (k : ℕ)
  /-- The server answers its own challenge. -/
  | answering (host : String) (acceptor : α)
  | closed
  deriving DecidableEq

structure User (α : Type) where
  /-- What the user sends; a peek takes nothing off it. -/
  stream : Bytes
  point : Point α
  deadline : Option ℕ
  arrivedAt : ℕ

structure State (α : Type) where
  now : ℕ
  relay : Relay.State
  /-- `server_challenge`. -/
  challenge : Option (String × α)
  users : List (User α)

variable {α : Type}

def init (now : ℕ) : State α := ⟨now, Relay.init, none, []⟩

inductive Action (α : Type)
  | pass (d : ℕ)
  | relay (a : Relay.Action)
  /-- The provisioning task stores its challenge, or clears it. -/
  | setChallenge (challenge : Option (String × α))
  | connect (stream : Bytes)
  /-- A peek of user `j`, when so many bytes have arrived. -/
  | peek (j arrived : ℕ)
  /-- The peek fails, or the user is gone. -/
  | hangUp (j : ℕ)
  /-- The deadline of the await passes. -/
  | timeout (j : ℕ)
  /-- `handle_acme` compares the host with the server's own challenge. -/
  | check (j : ℕ)
  /-- The maps are read. -/
  | lookUp (j counter : ℕ)
  | opened (j : ℕ)
  | openFailed (j : ℕ)
  /-- The copying, or the acceptor, is done. -/
  | finish (j : ℕ)

namespace User

variable (u : User α)

/-- The task goes on to a point where it waits for at most `d`. -/
def goto (point : Point α) (deadline : Option ℕ) : User α :=
  { u with point := point, deadline := deadline }

def close : User α := u.goto .closed none

/-- A peek. -/
def peeked (tls : TlsParser) (now arrived : ℕ) (sniffer : Sniffer) : User α :=
  match (Sniffing.looping sniffer).step tls u.stream arrived with
  | .looping sniffer => { u with point := .peeking sniffer }
  | .returned (some (host, isAcme)) => u.goto (.sniffed host isAcme) (some now)
  | .returned none => u.close

/-- The outcome of a lookup: the stream is opened under a deadline of its own. -/
def route (now : ℕ) (host : String) (purpose : Purpose) : Option ℕ → User α
  | some k => u.goto (.opening host purpose k) (some (now + tunnelOpenTimeout.nanos))
  | none => u.close

end User

/-- The deadline of the await has come. -/
def User.due (u : User α) (now : ℕ) : Bool := u.deadline.any (· ≤ now)

/-- A step of the task of a user connection. -/
def userStep (tls : TlsParser) (s : State α) (u : User α) : Action α → Option (User α)
  | .peek _ arrived =>
    match u.point with
    | .peeking sniffer => some (u.peeked tls s.now arrived sniffer)
    | _ => none
  | .hangUp _ =>
    match u.point with
    | .peeking _ => some u.close
    | _ => none
  | .timeout _ =>
    match u.point with
    | .peeking _ | .opening _ _ _ => if u.due s.now then some u.close else none
    | _ => none
  | .check _ =>
    match u.point with
    | .sniffed host true =>
      match s.challenge with
      | some (domain, acceptor) =>
        if host = domain then some (u.goto (.answering host acceptor) none)
        else some (u.goto (.notOwn host) (some s.now))
      | none => some (u.goto (.notOwn host) (some s.now))
    | _ => none
  | .lookUp _ counter =>
    match u.point with
    | .sniffed host false => some (u.route s.now host .user (handlePublic counter s.relay host))
    | .notOwn host =>
      some (u.route s.now host .challenge (((firstLabel host).bind s.relay.pending).map Prod.snd))
    | _ => none
  | .opened _ =>
    match u.point with
    | .opening host purpose k => some (u.goto (.proxying host purpose k) none)
    | _ => none
  | .openFailed _ =>
    match u.point with
    | .opening _ _ _ => some u.close
    | _ => none
  | .finish _ =>
    match u.point with
    | .proxying _ _ _ | .answering _ _ => some u.close
    | _ => none
  | _ => none

/-- The user connection an action is about. -/
def Action.user? : Action α → Option ℕ
  | .peek j _ | .hangUp j | .timeout j | .check j | .lookUp j _ | .opened j | .openFailed j
  | .finish j => some j
  | _ => none

/-- No deadline is passed over. -/
def State.mayPass (s : State α) (d : ℕ) : Bool :=
  s.users.all fun u => u.deadline.all (s.now + d ≤ ·)

/-- A step of the relay with its public listener. -/
def step (env : Env) (cfg : Config) (tls : TlsParser) (s : State α) (a : Action α) :
    Option (State α) :=
  match a with
  | .pass d => if s.mayPass d then some { s with now := s.now + d } else none
  | .relay a => (Relay.step env cfg s.relay a).map fun relay => { s with relay := relay }
  | .setChallenge challenge => some { s with challenge := challenge }
  | .connect stream =>
    some { s with users := s.users ++
      [⟨stream, .peeking .new, some (s.now + peekTimeout.nanos), s.now⟩] }
  | a => do
    let j ← a.user?
    let u ← s.users[j]?
    let u' ← userStep tls s u a
    some { s with users := s.users.set j u' }

/-! ### What a step can do -/

/-- A step of the task of a user connection, by an action. -/
inductive User.Move (tls : TlsParser) (s : State α) (u : User α) : Action α → User α → Prop
  | peeked {sniffer : Sniffer} {j : ℕ} (arrived : ℕ) (hpoint : u.point = .peeking sniffer) :
    Move tls s u (.peek j arrived) (u.peeked tls s.now arrived sniffer)
  | closed {a : Action α} : Move tls s u a u.close
  | answered {host : String} {acceptor : α} {j : ℕ} (hpoint : u.point = .sniffed host true)
    (hown : s.challenge = some (host, acceptor)) :
    Move tls s u (.check j) (u.goto (.answering host acceptor) none)
  | notOwn {host : String} {j : ℕ} (hpoint : u.point = .sniffed host true) :
    Move tls s u (.check j) (u.goto (.notOwn host) (some s.now))
  | user {host : String} {j k counter : ℕ} (hpoint : u.point = .sniffed host false)
    (hagent : handlePublic counter s.relay host = some k) :
    Move tls s u (.lookUp j counter)
      (u.goto (.opening host .user k) (some (s.now + tunnelOpenTimeout.nanos)))
  | challenge {host id : String} {j token k counter : ℕ} (hpoint : u.point = .notOwn host)
    (hid : firstLabel host = some id) (hpending : s.relay.pending id = some (token, k)) :
    Move tls s u (.lookUp j counter)
      (u.goto (.opening host .challenge k) (some (s.now + tunnelOpenTimeout.nanos)))
  | opened {host : String} {purpose : Purpose} {j k : ℕ}
    (hpoint : u.point = .opening host purpose k) :
    Move tls s u (.opened j) (u.goto (.proxying host purpose k) none)

theorem userStep_move {tls : TlsParser} {s : State α} {u u' : User α} {a : Action α}
    (h : userStep tls s u a = some u') : u.Move tls s a u' := by
  unfold userStep at h
  split at h
  · split at h
    · cases h
      exact .peeked _ ‹_›
    · cases h
  · split at h
    · cases h
      exact .closed
    · cases h
  · split at h
    · split_ifs at h
      cases h
      exact .closed
    · split_ifs at h
      cases h
      exact .closed
    · cases h
  · split at h
    · split at h
      · rename_i hpoint _ domain acceptor hchallenge
        split_ifs at h with hhost
        · cases h
          subst hhost
          exact .answered hpoint hchallenge
        · cases h
          exact .notOwn hpoint
      · cases h
        exact .notOwn ‹_›
    · cases h
  · split at h
    · rename_i host hpoint
      cases h
      cases hagent : handlePublic _ s.relay host with
      | none => exact .closed
      | some k => exact .user hpoint hagent
    · rename_i host hpoint
      cases h
      cases hfound : (firstLabel host).bind s.relay.pending with
      | none => exact .closed
      | some entry =>
        obtain ⟨token, k⟩ := entry
        obtain ⟨id, hid, hpending⟩ := Option.bind_eq_some_iff.1 hfound
        exact .challenge hpoint hid hpending
    · cases h
  · split at h
    · cases h
      exact .opened ‹_›
    · cases h
  · split at h
    · cases h
      exact .closed
    · cases h
  · split at h
    · cases h
      exact .closed
    · cases h
      exact .closed
    · cases h
  · cases h

/-- A step of the relay with its public listener. -/
inductive Step (env : Env) (cfg : Config) (tls : TlsParser) (s : State α) :
    Action α → State α → Prop
  | passed {d : ℕ} (h : ∀ u ∈ s.users, ∀ t, u.deadline = some t → s.now + d ≤ t) :
    Step env cfg tls s (.pass d) { s with now := s.now + d }
  | relay {a : Relay.Action} {relay : Relay.State} (h : Relay.step env cfg s.relay a = some relay) :
    Step env cfg tls s (.relay a) { s with relay := relay }
  | challenge (challenge : Option (String × α)) :
    Step env cfg tls s (.setChallenge challenge) { s with challenge := challenge }
  | connected (stream : Bytes) :
    Step env cfg tls s (.connect stream)
      { s with users := s.users ++
        [⟨stream, .peeking .new, some (s.now + peekTimeout.nanos), s.now⟩] }
  | user {a : Action α} {j : ℕ} {u u' : User α} (ha : a.user? = some j)
    (hu : s.users[j]? = some u) (hmove : u.Move tls s a u') :
    Step env cfg tls s a { s with users := s.users.set j u' }

theorem step_cases {env : Env} {cfg : Config} {tls : TlsParser} {s t : State α} {a : Action α}
    (h : step env cfg tls s a = some t) : Step env cfg tls s a t := by
  unfold step at h
  split at h
  · split_ifs at h with hpass
    cases h
    refine .passed fun u hu t ht => ?_
    have hall := List.all_eq_true.1 hpass u hu
    rw [ht] at hall
    exact of_decide_eq_true hall
  · obtain ⟨relay, hrelay, rfl⟩ := Option.map_eq_some_iff.1 h
    exact .relay hrelay
  · cases h
    exact .challenge _
  · cases h
    exact .connected _
  · simp only [Option.bind_eq_bind, Option.bind_eq_some_iff] at h
    obtain ⟨j, ha, u, hu, u', hstep, h⟩ := h
    cases h
    exact .user ha hu (userStep_move hstep)

/-! ### Where user connections go -/

section Sound

variable {env : Env} {cfg : Config} {tls : TlsParser}

/-- A prefix of what the user sent is a hello for the host. -/
def Sniffed (tls : TlsParser) (stream : Bytes) (host : String) (isAcme : Bool) : Prop :=
  ∃ n ≤ peekBufMax, extractSniAlpn tls (stream.take n) = some (host, isAcme)

def Purpose.isAcme : Purpose → Bool
  | .user => false
  | .challenge => true

/-- The connection was authenticated as the client that the host names. -/
def Named (env : Env) (cfg : Config) (conns : List Conn) (host : String) (k : ℕ) : Prop :=
  ∃ id, firstLabel host = some id ∧ Stored env cfg conns id k

/-- What is known of a user connection where it is; `own` is every challenge the server has set. -/
def User.Sound (env : Env) (cfg : Config) (tls : TlsParser) (conns : List Conn)
    (own : String → α → Prop) (u : User α) : Prop :=
  match u.point with
  | .peeking sniffer => Relay.Sound tls u.stream (.looping sniffer)
  | .sniffed host isAcme => Sniffed tls u.stream host isAcme
  | .notOwn host => Sniffed tls u.stream host true
  | .opening host purpose k | .proxying host purpose k =>
    Sniffed tls u.stream host purpose.isAcme ∧ Named env cfg conns host k
  | .answering host acceptor => Sniffed tls u.stream host true ∧ own host acceptor
  | .closed => True

structure Inv (env : Env) (cfg : Config) (tls : TlsParser) (own : String → α → Prop)
    (s : State α) : Prop where
  relay : Relay.Inv env cfg s.relay
  challenge : ∀ host acceptor, s.challenge = some (host, acceptor) → own host acceptor
  users : ∀ u ∈ s.users, u.Sound env cfg tls s.relay.conns own

theorem User.Sound.conns {conns conns' : List Conn} {own : String → α → Prop} {u : User α}
    (h : u.Sound env cfg tls conns own)
    (hstored : ∀ id k, Stored env cfg conns id k → Stored env cfg conns' id k) :
    u.Sound env cfg tls conns' own := by
  unfold User.Sound at h ⊢
  split at h
  case h_4 | h_5 =>
    obtain ⟨hsniffed, id, hid, hk⟩ := h
    exact ⟨hsniffed, id, hid, hstored id _ hk⟩
  all_goals exact h

/-- A peek keeps the loop sound, and what it returns is the hello of the user. -/
theorem User.Sound.peeked {conns : List Conn} {own : String → α → Prop} {u : User α}
    {sniffer : Sniffer} (h : Relay.Sound tls u.stream (.looping sniffer)) (now arrived : ℕ) :
    (u.peeked tls now arrived sniffer).Sound env cfg tls conns own := by
  have hstep : Relay.Sound tls u.stream ((Sniffing.looping sniffer).step tls u.stream arrived) :=
    sound_step (turn_of_step sniffer) h (by rw [length_peek]; omega)
  unfold User.peeked
  split
  · rename_i hnext
    rwa [hnext] at hstep
  · rename_i hnext
    rwa [hnext] at hstep
  · trivial

theorem User.Move.sound {own : String → α → Prop} {s : State α} {u u' : User α} {a : Action α}
    (hmove : u.Move tls s a u') (hinv : Inv env cfg tls own s)
    (h : u.Sound env cfg tls s.relay.conns own) :
    u'.Sound env cfg tls s.relay.conns own := by
  cases hmove with
  | peeked arrived hpoint =>
    rw [User.Sound, hpoint] at h
    exact .peeked h s.now arrived
  | closed => trivial
  | answered hpoint hown =>
    rw [User.Sound, hpoint] at h
    exact ⟨h, hinv.challenge _ _ hown⟩
  | notOwn hpoint =>
    rw [User.Sound, hpoint] at h
    exact h
  | user hpoint hagent =>
    rw [User.Sound, hpoint] at h
    obtain ⟨id, pool, uid, hid, hpool, hmem⟩ := handlePublic_eq_some hagent
    exact ⟨h, id, hid, hinv.relay.agents id pool hpool _ hmem⟩
  | challenge hpoint hid hpending =>
    rw [User.Sound, hpoint] at h
    exact ⟨h, _, hid, hinv.relay.pending _ _ hpending⟩
  | opened hpoint =>
    rw [User.Sound, hpoint] at h
    exact h

/-- Every step keeps the invariant, if the challenges it sets are the server's own. -/
theorem Inv.step {own : String → α → Prop} {s t : State α} {a : Action α}
    (h : Inv env cfg tls own s)
    (hown : ∀ host acceptor, a = .setChallenge (some (host, acceptor)) → own host acceptor)
    (hstep : step env cfg tls s a = some t) : Inv env cfg tls own t := by
  cases step_cases hstep with
  | passed => exact ⟨h.relay, h.challenge, h.users⟩
  | relay hrelay =>
    exact ⟨h.relay.step hrelay, h.challenge,
      fun u hu => (h.users u hu).conns fun _ _ hk => hk.step hrelay⟩
  | challenge challenge =>
    refine ⟨h.relay, fun host acceptor hchallenge => ?_, h.users⟩
    exact hown host acceptor (congrArg _ hchallenge)
  | connected stream =>
    refine ⟨h.relay, h.challenge, fun u hu => ?_⟩
    rcases List.mem_append.1 hu with hold | hnew
    · exact h.users u hold
    · cases List.mem_singleton.1 hnew
      exact ⟨by decide, by decide, by simp [Sniffer.new]⟩
  | user _ hu hmove =>
    refine ⟨h.relay, h.challenge, fun v hv => ?_⟩
    rcases List.mem_or_eq_of_mem_set hv with hold | rfl
    · exact h.users v hold
    · exact hmove.sound h (h.users _ (List.mem_of_getElem? hu))

theorem inv_of_runs {own : String → α → Prop} {schedule : List (Action α)} {start : ℕ}
    {s : State α} (h : runs (step env cfg tls) (init start) schedule = some s)
    (hown : ∀ host acceptor, .setChallenge (some (host, acceptor)) ∈ schedule →
      own host acceptor) : Inv env cfg tls own s := by
  refine runs_invariant_of_forall
    (H := fun a => ∀ host acceptor, a = .setChallenge (some (host, acceptor)) → own host acceptor)
    (fun _ _ _ hs ha ht => hs.step ha ht) h ?_ ⟨inv_init, nofun, nofun⟩
  rintro a ha host acceptor rfl
  exact hown host acceptor ha

/-- The connection a task has chosen, and for what host and purpose. -/
def Point.target? : Point α → Option (String × Purpose × ℕ)
  | .opening host purpose k | .proxying host purpose k => some (host, purpose, k)
  | _ => none

theorem User.peeked_target? (u : User α) (now arrived : ℕ) (sniffer : Sniffer) :
    (u.peeked tls now arrived sniffer).point.target? = none := by
  unfold User.peeked
  split <;> rfl

/-- What a lookup finds: an agent for a user, the connection that waits for it for a challenge. -/
def Purpose.finds (counter : ℕ) (s : Relay.State) (host : String) (k : ℕ) : Purpose → Prop
  | .user => handlePublic counter s host = some k
  | .challenge => ∃ id token, firstLabel host = some id ∧ s.pending id = some (token, k)

/-- The lookup of user `j` found connection `k`, in the maps as they were at that moment. -/
def Found (env : Env) (cfg : Config) (tls : TlsParser) (start : ℕ) (schedule : List (Action α))
    (j : ℕ) (host : String) (purpose : Purpose) (k : ℕ) : Prop :=
  ∃ before counter after r, schedule = before ++ .lookUp j counter :: after ∧
    runs (step env cfg tls) (init start) before = some r ∧ purpose.finds counter r.relay host k

section Found

variable {start j k : ℕ} {schedule : List (Action α)} {host : String} {purpose : Purpose}

theorem Found.later (h : Found env cfg tls start schedule j host purpose k) (a : Action α) :
    Found env cfg tls start (schedule ++ [a]) j host purpose k := by
  obtain ⟨before, counter, after, r, rfl, hr, hfound⟩ := h
  exact ⟨before, counter, after ++ [a], r, by simp, hr, hfound⟩

/-- The lookups that have been made. -/
def Looked (env : Env) (cfg : Config) (tls : TlsParser) (start : ℕ) (schedule : List (Action α))
    (s : State α) : Prop :=
  ∀ (j : ℕ) (u : User α) host purpose k, s.users[j]? = some u →
    u.point.target? = some (host, purpose, k) → Found env cfg tls start schedule j host purpose k

/-- A task gets its target by a lookup of its own, and keeps it. -/
theorem User.Move.found {s : State α} {u u' : User α} {a : Action α}
    (hmove : u.Move tls s a u') (hs : runs (step env cfg tls) (init start) schedule = some s)
    (ha : a.user? = some j)
    (hu : ∀ host purpose k, u.point.target? = some (host, purpose, k) →
      Found env cfg tls start schedule j host purpose k)
    (htarget : u'.point.target? = some (host, purpose, k)) :
    Found env cfg tls start (schedule ++ [a]) j host purpose k := by
  cases hmove with
  | peeked arrived =>
    rw [User.peeked_target?] at htarget
    cases htarget
  | closed | answered | notOwn => cases htarget
  | user _ hagent =>
    cases htarget
    cases ha
    exact ⟨schedule, _, [], s, rfl, hs, hagent⟩
  | challenge _ hid hpending =>
    cases htarget
    cases ha
    exact ⟨schedule, _, [], s, rfl, hs, _, _, hid, hpending⟩
  | opened hpoint =>
    cases htarget
    exact (hu host purpose k (by rw [hpoint]; rfl)).later _

theorem Looked.step {s t : State α} {a : Action α}
    (h : Looked env cfg tls start schedule s)
    (hs : runs (step env cfg tls) (init start) schedule = some s)
    (hstep : Routing.step env cfg tls s a = some t) :
    Looked env cfg tls start (schedule ++ [a]) t := by
  intro j u host purpose k hu htarget
  cases step_cases hstep with
  | passed | relay | challenge => exact (h j u host purpose k hu htarget).later _
  | connected stream =>
    rw [List.getElem?_append] at hu
    split_ifs at hu
    · exact (h j u host purpose k hu htarget).later _
    · cases List.mem_singleton.1 (List.mem_of_getElem? hu)
      cases htarget
  | @user a i v v' ha hv hmove =>
    by_cases hij : i = j
    · subst hij
      rw [List.getElem?_set_self (List.getElem?_eq_some_iff.1 hv).1] at hu
      cases hu
      exact hmove.found hs ha (fun host purpose k => h i v host purpose k hv) htarget
    · rw [List.getElem?_set_ne hij] at hu
      exact (h j u host purpose k hu htarget).later a

theorem looked_of_runs {s : State α}
    (h : runs (step env cfg tls) (init start) schedule = some s) :
    Looked env cfg tls start schedule s := by
  refine (runs_history (P := fun schedule s =>
    runs (step env cfg tls) (init start) schedule = some s ∧
      Looked env cfg tls start schedule s) ⟨rfl, ?_⟩ (fun as s a t hs hstep => ⟨?_, ?_⟩) h).2
  · intro j u host purpose k hu
    cases hu
  · rw [runs_append, hs.1]
    simp [runs_cons, hstep]
  · exact hs.2.step hs.1 hstep

end Found

/-- **Traffic goes to whom the name belongs to.** Whatever the relay's connections, the users and
the provisioning of the server's certificate do: a stream that is opened for a user connection goes
to a connection that was authenticated as the client which the first label of the user's own SNI
names; a user to an agent of the pool as the user's own lookup found it, a challenge, and nothing
else, to the connection that was pending for the id at that lookup; and the server itself answers
only a challenge for a host that it set one for. -/
theorem routing_sound (env : Env) (cfg : Config) (tls : TlsParser) (start : ℕ)
    (schedule : List (Action α)) (s : State α)
    (h : runs (step env cfg tls) (init start) schedule = some s) (j : ℕ) (u : User α)
    (hu : s.users[j]? = some u) :
    (∀ host purpose k,
      u.point = .opening host purpose k ∨ u.point = .proxying host purpose k →
      (∃ n, extractSniAlpn tls (u.stream.take n) = some (host, purpose.isAcme)) ∧
      Found env cfg tls start schedule j host purpose k ∧
      ∃ c id domain, s.relay.conns[k]? = some c ∧ firstLabel host = some id ∧
        Admitted env cfg c.seen id domain) ∧
    ∀ host acceptor, u.point = .answering host acceptor →
      (∃ n, extractSniAlpn tls (u.stream.take n) = some (host, true)) ∧
      .setChallenge (some (host, acceptor)) ∈ schedule := by
  have hinv : Inv env cfg tls
      (fun host acceptor => .setChallenge (some (host, acceptor)) ∈ schedule) s :=
    inv_of_runs h fun _ _ hmem => hmem
  have hsound := hinv.users u (List.mem_of_getElem? hu)
  refine ⟨fun host purpose k hpoint => ?_, fun host acceptor hpoint => ?_⟩
  · have hboth : Sniffed tls u.stream host purpose.isAcme ∧ Named env cfg s.relay.conns host k := by
      rcases hpoint with hpoint | hpoint <;> rwa [User.Sound, hpoint] at hsound
    have htarget : u.point.target? = some (host, purpose, k) := by
      rcases hpoint with hpoint | hpoint <;> rw [hpoint] <;> rfl
    obtain ⟨⟨n, -, hn⟩, id, hid, c, hc, -, hcomplete⟩ := hboth
    obtain ⟨domain, hdomain⟩ := hcomplete.admitted
    exact ⟨⟨n, hn⟩, looked_of_runs h j u host purpose k hu htarget, c, id, domain, hc, hid,
      hdomain⟩
  · rw [User.Sound, hpoint] at hsound
    obtain ⟨⟨n, -, hn⟩, hmem⟩ := hsound
    exact ⟨⟨n, hn⟩, hmem⟩

end Sound

/-- A parser that knows two hellos for the sample client, the second of them a challenge, and one
for the relay's own name. -/
def sampleTls : TlsParser where
  parseTlsPlaintext data :=
    if data = [1] ∨ data = [2] ∨ data = [3] then some [.clientHello (some data)] else none
  parseTlsExtensions ext :=
    if ext = [1] then some [.sni [(0, utf8 Sample.domain)]]
    else if ext = [2] then some [.sni [(0, utf8 Sample.domain)], .alpn [acmeTlsAlpn]]
    else some [.sni [(0, utf8 "relay.localhost")], .alpn [acmeTlsAlpn]]

/-- A user, a challenge for the client and one for the relay, behind the sample connections. -/
def sampleUsers : List (Action Unit) :=
  sampleSchedule.map .relay ++
    [.connect [1], .connect [2], .peek 0 1, .setChallenge (some ("relay.localhost", ())),
      .connect [3], .lookUp 0 5, .peek 1 1, .peek 2 1, .check 1, .check 2, .setChallenge none,
      .lookUp 1 0, .opened 0, .opened 1]

theorem routing_sound_sample :
    ∃ s, runs (step sampleEnv sampleConfig sampleTls) (init 0) sampleUsers = some s ∧
      s.users.map (·.point) = [.proxying Sample.domain .user 0,
        .proxying Sample.domain .challenge 1, .answering "relay.localhost" ()] ∧
      (∃ c id domain, s.relay.conns[0]? = some c ∧ firstLabel Sample.domain = some id ∧
        Admitted sampleEnv sampleConfig c.seen id domain) ∧
      ∃ c id domain, s.relay.conns[1]? = some c ∧ firstLabel Sample.domain = some id ∧
        Admitted sampleEnv sampleConfig c.seen id domain := by
  have hrun : (runs (step sampleEnv sampleConfig sampleTls) (init 0) sampleUsers).map
      (fun s => s.users.map (·.point)) = some [.proxying Sample.domain .user 0,
        .proxying Sample.domain .challenge 1, .answering "relay.localhost" ()] := by
    decide +kernel
  obtain ⟨s, hs, hpoints⟩ := Option.map_eq_some_iff.1 hrun
  have huser : ∀ j point, (s.users.map (·.point))[j]? = some point →
      ∃ u : User Unit, s.users[j]? = some u ∧ u.point = point := fun j point hj => by
    rw [List.getElem?_map] at hj
    exact Option.map_eq_some_iff.1 hj
  rw [hpoints] at huser
  obtain ⟨u, hu, hpoint⟩ := huser 0 (.proxying Sample.domain .user 0) rfl
  obtain ⟨v, hv, hpoint'⟩ := huser 1 (.proxying Sample.domain .challenge 1) rfl
  have hsound := routing_sound sampleEnv sampleConfig sampleTls 0 sampleUsers s hs
  exact ⟨s, hs, hpoints, ((hsound 0 u hu).1 _ _ _ (.inr hpoint)).2.2,
    ((hsound 1 v hv).1 _ _ _ (.inr hpoint')).2.2⟩

end Routing

/-! ### How long a user waits -/

namespace Routing

variable {α : Type}

/-- How long after its arrival a user connection may be at a point, if it does not stay there. -/
def Point.budget : Point α → Option ℕ
  | .peeking _ | .sniffed _ _ | .notOwn _ => some peekTimeout.nanos
  | .opening _ _ _ => some (peekTimeout.nanos + tunnelOpenTimeout.nanos)
  | .proxying _ _ _ | .answering _ _ | .closed => none

structure User.Timely (now : ℕ) (u : User α) : Prop where
  ahead : ∀ d, u.deadline = some d → now ≤ d
  within : ∀ b, u.point.budget = some b → ∃ d, u.deadline = some d ∧ d ≤ u.arrivedAt + b
  settled : u.point.budget = none → u.deadline = none

/-- A task that has come to its end waits for nothing. -/
theorem User.timely_settled {now : ℕ} (u : User α) {point : Point α} (h : point.budget = none) :
    (u.goto point none).Timely now where
  ahead := nofun
  within b hb := by
    rw [show (u.goto point none).point.budget = none from h] at hb
    cases hb
  settled _ := rfl

/-- A task that goes on has used up none of the time that comes after its old deadline. -/
theorem User.Timely.goto {now b b' d : ℕ} {u : User α} {point : Point α} (h : u.Timely now)
    (hb : u.point.budget = some b) (hb' : point.budget = some b') (hd : d + b ≤ b') :
    (u.goto point (some (now + d))).Timely now := by
  obtain ⟨old, hold, hle⟩ := h.within b hb
  have hnow := h.ahead old hold
  refine ⟨?_, ?_, fun hnone => ?_⟩
  · rintro t ⟨⟩
    exact Nat.le_add_right _ _
  · intro b'' hb''
    cases hb'.symm.trans hb''
    refine ⟨_, rfl, ?_⟩
    simp only [User.goto]
    omega
  · rw [show (u.goto point (some (now + d))).point.budget = some b' from hb'] at hnone
    cases hnone

theorem User.Timely.peeked {now arrived : ℕ} {u : User α} {sniffer : Sniffer} {tls : TlsParser}
    (h : u.Timely now) (hpoint : u.point = .peeking sniffer) :
    (u.peeked tls now arrived sniffer).Timely now := by
  have hb : u.point.budget = some peekTimeout.nanos := by rw [hpoint]; rfl
  unfold User.peeked
  split
  · exact ⟨h.ahead, fun b hb' => h.within b (hb.trans hb'), nofun⟩
  · exact h.goto (d := 0) hb rfl (by omega)
  · exact u.timely_settled rfl

theorem User.Move.timely {tls : TlsParser} {s : State α} {u u' : User α} {a : Action α}
    (hmove : u.Move tls s a u') (h : u.Timely s.now) : u'.Timely s.now := by
  cases hmove with
  | peeked arrived hpoint => exact h.peeked hpoint
  | closed | answered | opened => exact u.timely_settled rfl
  | notOwn hpoint => exact h.goto (d := 0) (by rw [hpoint]; rfl) rfl (by omega)
  | user hpoint | challenge hpoint => exact h.goto (by rw [hpoint]; rfl) rfl (by omega)

theorem timely_step {env : Env} {cfg : Config} {tls : TlsParser} {s t : State α} {a : Action α}
    (h : ∀ u ∈ s.users, u.Timely s.now) (hstep : step env cfg tls s a = some t) :
    ∀ u ∈ t.users, u.Timely t.now := by
  cases step_cases hstep with
  | passed hpass => exact fun u hu => { h u hu with ahead := hpass u hu }
  | relay | challenge => exact h
  | connected stream =>
    intro u hu
    rcases List.mem_append.1 hu with hold | hnew
    · exact h u hold
    · cases List.mem_singleton.1 hnew
      refine ⟨?_, ?_, nofun⟩
      · rintro d ⟨⟩
        exact Nat.le_add_right _ _
      · rintro b ⟨⟩
        exact ⟨_, rfl, le_refl _⟩
  | user _ hu hmove =>
    intro v hv
    rcases List.mem_or_eq_of_mem_set hv with hold | rfl
    · exact h v hold
    · exact hmove.timely (h _ (List.mem_of_getElem? hu))

/-- What a task does by itself when its deadline has come: it gives up the peek or the stream, or,
where it waits for nothing, goes on. -/
theorem User.Timely.due {env : Env} {cfg : Config} {tls : TlsParser} {s : State α} {j : ℕ}
    {u : User α} (h : u.Timely s.now) (hu : s.users[j]? = some u)
    (hdue : u.deadline = some s.now) :
    step env cfg tls s (.timeout j) = some { s with users := s.users.set j u.close } ∨
      (∃ host, u.point = .sniffed host true) ∧ (step env cfg tls s (.check j)).isSome = true ∨
      (∃ host, u.point = .sniffed host false ∨ u.point = .notOwn host) ∧
        ∀ counter, (step env cfg tls s (.lookUp j counter)).isSome = true := by
  have hdue' : u.due s.now = true := by simp [User.due, hdue]
  cases hpoint : u.point with
  | peeking sniffer =>
    exact .inl (by simp [step, Action.user?, hu, userStep, hpoint, hdue'])
  | opening host purpose k =>
    exact .inl (by simp [step, Action.user?, hu, userStep, hpoint, hdue'])
  | sniffed host isAcme =>
    cases isAcme with
    | false =>
      refine .inr (.inr ⟨⟨host, .inl rfl⟩, fun counter => ?_⟩)
      simp [step, Action.user?, hu, userStep, hpoint]
    | true =>
      refine .inr (.inl ⟨⟨host, rfl⟩, ?_⟩)
      simp only [step, Action.user?, hu, userStep, hpoint, Option.bind_eq_bind, Option.bind_some]
      split
      · split_ifs <;> rfl
      · rfl
  | notOwn host =>
    refine .inr (.inr ⟨⟨host, .inr rfl⟩, fun counter => ?_⟩)
    simp [step, Action.user?, hu, userStep, hpoint]
  | proxying host purpose k | answering host acceptor | closed =>
    rw [h.settled (by rw [hpoint]; rfl)] at hdue
    cases hdue

/-- **No user is kept waiting.** A user connection is routed, answered or closed within 20 seconds
of its arrival, and has been sniffed and looked up within 10.  When its deadline comes, a task that
peeks or opens a stream can give up by its own timeout, which closes the connection; one that has
sniffed a hello can compare or look up, whatever anyone else does. -/
theorem user_wait_bounded (env : Env) (cfg : Config) (tls : TlsParser) (start : ℕ)
    (schedule : List (Action α)) (s : State α)
    (h : runs (step env cfg tls) (init start) schedule = some s) (j : ℕ) (u : User α)
    (hu : s.users[j]? = some u) :
    (s.now ≤ u.arrivedAt + (Duration.fromSecs 20).nanos ∨
      (∃ host purpose k, u.point = .proxying host purpose k) ∨
      (∃ host acceptor, u.point = .answering host acceptor) ∨ u.point = .closed) ∧
    (s.now ≤ u.arrivedAt + (Duration.fromSecs 10).nanos ∨
      (∃ host purpose k, u.point = .opening host purpose k) ∨ u.point.budget = none) ∧
    (u.deadline = some s.now →
      step env cfg tls s (.timeout j) = some { s with users := s.users.set j u.close } ∨
        (∃ host, u.point = .sniffed host true) ∧ (step env cfg tls s (.check j)).isSome = true ∨
        (∃ host, u.point = .sniffed host false ∨ u.point = .notOwn host) ∧
          ∀ counter, (step env cfg tls s (.lookUp j counter)).isSome = true) := by
  have htimely : u.Timely s.now :=
    runs_invariant (P := fun s : State α => ∀ u ∈ s.users, u.Timely s.now)
      (fun _ _ _ hs ht => timely_step hs ht) h nofun u (List.mem_of_getElem? hu)
  refine ⟨?_, ?_, htimely.due hu⟩
  · cases hb : u.point.budget with
    | some b =>
      left
      obtain ⟨d, hd, hle⟩ := htimely.within b hb
      have hnow := htimely.ahead d hd
      have hb20 : b ≤ (Duration.fromSecs 20).nanos := by
        revert hb
        cases u.point <;> rintro ⟨⟩ <;> decide
      omega
    | none =>
      right
      cases hpoint : u.point with
      | proxying host purpose k => exact .inl ⟨host, purpose, k, rfl⟩
      | answering host acceptor => exact .inr (.inl ⟨host, acceptor, rfl⟩)
      | closed => exact .inr (.inr rfl)
      | peeking | sniffed | notOwn | opening =>
        rw [hpoint] at hb
        cases hb
  · cases hpoint : u.point with
    | peeking sniffer | sniffed host isAcme | notOwn host =>
      left
      obtain ⟨d, hd, hle⟩ := htimely.within peekTimeout.nanos (by rw [hpoint]; rfl)
      exact (htimely.ahead d hd).trans hle
    | opening host purpose k => exact .inr (.inl ⟨host, purpose, k, rfl⟩)
    | proxying | answering | closed => exact .inr (.inr rfl)

/-- A user whose hello is late, and an agent that does not accept the stream. -/
def slowUser : List (Action Unit) :=
  sampleSchedule.map .relay ++
    [.connect [1], .pass 10000000000, .peek 0 1, .lookUp 0 0, .pass 10000000000]

theorem user_wait_bounded_slowUser :
    ∃ s u, runs (step sampleEnv sampleConfig sampleTls) (init 0) slowUser = some s ∧
      s.users[0]? = some u ∧ s.now = 20000000000 ∧ u.point = .opening Sample.domain .user 0 ∧
      step sampleEnv sampleConfig sampleTls s (.timeout 0) =
        some { s with users := s.users.set 0 u.close } := by
  have hrun : (runs (step sampleEnv sampleConfig sampleTls) (init 0) slowUser).map
      (fun s => (s.now, s.users[0]?.map fun u => (u.point, u.deadline))) =
        some (20000000000, some (.opening Sample.domain .user 0, some 20000000000)) := by
    decide +kernel
  obtain ⟨s, hs, hstate⟩ := Option.map_eq_some_iff.1 hrun
  obtain ⟨hnow, huser⟩ := Prod.mk.inj hstate
  obtain ⟨u, hu, hpair⟩ := Option.map_eq_some_iff.1 huser
  obtain ⟨hpoint, hdeadline⟩ := Prod.mk.inj hpair
  have hbounded := user_wait_bounded sampleEnv sampleConfig sampleTls 0 slowUser s hs 0 u hu
  refine ⟨s, u, hs, hu, hnow, hpoint, ?_⟩
  rcases hbounded.2.2 (by rw [hdeadline, hnow]) with htimeout | ⟨⟨host, h⟩, -⟩ | ⟨⟨host, h | h⟩, -⟩
  · exact htimeout
  · rw [hpoint] at h
    cases h
  · rw [hpoint] at h
    cases h
  · rw [hpoint] at h
    cases h

end Routing

/-! ### Who is found -/

/-- The agents of an id. -/
def State.pool (s : State) (id : String) : List (ℕ × ℕ) := (s.agents id).getD []

/-- What an operation does to the pools, and a step to the link of its connection. -/
inductive Conn.Links (c c' : Conn) (i : Input) : MapOp → Prop
  | same {op : MapOp} (hop : ∀ (s : State) (k : ℕ), (s.apply k op).pool = s.pool)
    (hlink : c'.pc.linked? = c.pc.linked?) : Links c c' i op
  | push {id : String} {uid : ℕ} (hi : i = .drew uid) (hbefore : c.pc.linked? = none)
    (hafter : c'.pc.linked? = some (id, uid)) : Links c c' i (.push id uid)
  | remove {id : String} {uid : ℕ} (hbefore : c.pc.linked? = some (id, uid))
    (hafter : c'.pc.linked? = none) : Links c c' i (.remove id uid)

theorem Pc.linked?_eq_none {pc : Pc} (h : pc.inAuthExchange = true ∨ pc.frame?.isSome = true) :
    pc.linked? = none := by
  cases pc <;> first | rfl | (rcases h with h | h <;> cases h)

/-- A pool without agents is as good as none. -/
theorem State.pool_removeIfEmpty (s : State) (k : ℕ) (id : String) :
    (s.apply k (.removeIfEmpty id)).pool = s.pool := by
  funext id'
  simp only [State.apply, State.pool]
  split_ifs with hempty
  · by_cases heq : id' = id
    · subst heq
      simp only [Function.update_self, hempty, Option.getD_none, Option.getD_some]
    · simp only [Function.update_of_ne heq]
  · rfl

theorem Conn.Move.links {env : Env} {cfg : Config} {token : ℕ} {c c' : Conn} {i : Input}
    {op : MapOp} (hmove : c.Move env cfg token i c' op) : c.Links c' i op := by
  cases hmove with
  | data | fin => exact .same (fun _ _ => rfl) rfl
  | registered uid hpc => exact .push rfl (by rw [hpc]; rfl) rfl
  | unlinked hpc => exact .remove (by rw [hpc]; rfl) rfl
  | swept hpc => exact .same (fun s k => s.pool_removeIfEmpty k _) (by rw [hpc]; rfl)
  | removed hpc | abandoned hpc =>
    refine .same (fun s k => ?_) (by rw [hpc]; rfl)
    rw [State.apply_pendingRemove]
    rfl
  | refused _ hpc => exact .same (fun _ _ => rfl) (by rcases hpc with hpc | hpc <;> rw [hpc] <;> rfl)
  | timedOut _ hpc => exact .same (fun _ _ => rfl) (Pc.linked?_eq_none (.inl hpc)).symm
  | readFailed _ hframe => exact .same (fun _ _ => rfl) (Pc.linked?_eq_none (.inr hframe)).symm
  | accepted hpc | opened hpc | noKeyAuth hpc | notUtf8 _ hpc | announced _ hpc
  | unidentified _ hpc | identified _ hpc | lookUp _ hpc | unauthorized hpc | authorized hpc
  | cached _ hpc | challenge _ hpc | inserted hpc | acked hpc | notAcked hpc | done _ hpc
  | closed hpc => exact .same (fun _ _ => rfl) (by rw [hpc]; rfl)

/-- The uid that is drawn is not that of a linked agent. -/
def Fresh (s : State) : Action → Prop
  | .input _ (.drew uid) => ∀ c ∈ s.conns, c.pc.linked?.map Prod.snd ≠ some uid
  | _ => True

instance (s : State) (a : Action) : Decidable (Fresh s a) := by
  unfold Fresh
  split <;> infer_instance

/-- Connection `k` is linked under the id with the uid. -/
def State.Linked (s : State) (k : ℕ) (id : String) (uid : ℕ) : Prop :=
  ∃ c, s.conns[k]? = some c ∧ c.pc.linked? = some (id, uid)

/-- The pools hold the connections that are linked, and no uid is in use twice. -/
structure Indexed (s : State) : Prop where
  pool : ∀ id uid k, (uid, k) ∈ s.pool id ↔ s.Linked k id uid
  uids : ∀ k k' id id' uid, s.Linked k id uid → s.Linked k' id' uid → k = k'

theorem indexed_init : Indexed init := by
  refine ⟨fun id uid k => ⟨nofun, ?_⟩, ?_⟩
  · rintro ⟨c, hc, -⟩
    cases hc
  · rintro k k' id id' uid ⟨c, hc, -⟩
    cases hc

theorem State.pool_push (s : State) (k : ℕ) (id id' : String) (uid : ℕ) :
    (s.apply k (.push id uid)).pool id' = s.pool id' ++ if id' = id then [(uid, k)] else [] := by
  simp only [State.apply, State.pool]
  by_cases heq : id' = id
  · subst heq
    rw [Function.update_self, if_pos rfl, Option.getD_some]
  · rw [Function.update_of_ne heq, if_neg heq, List.append_nil]

theorem State.pool_remove (s : State) (k : ℕ) (id id' : String) (uid : ℕ) :
    (s.apply k (.remove id uid)).pool id' =
      if id' = id then (s.pool id').filter (·.1 != uid) else s.pool id' := by
  simp only [State.apply, State.pool]
  by_cases heq : id' = id
  · subst heq
    rw [if_pos rfl]
    cases hpool : s.agents id' with
    | none => simp [hpool]
    | some pool => simp
  · rw [if_neg heq]
    cases hpool : s.agents id with
    | none => rfl
    | some pool => simp only [Function.update_of_ne heq]

/-- A step of connection `k` leaves the links of the others alone. -/
theorem State.linked_set {s : State} {k : ℕ} {c c' : Conn} (hc : s.conns[k]? = some c) (op : MapOp)
    (j : ℕ) (id : String) (uid : ℕ) :
    State.Linked ({ s with conns := s.conns.set k c' }.apply k op) j id uid ↔
      if j = k then c'.pc.linked? = some (id, uid) else s.Linked j id uid := by
  have hset := List.getElem?_set_self (a := c') (List.getElem?_eq_some_iff.1 hc).1
  simp only [State.Linked, State.conns_apply]
  split_ifs with hj
  · subst hj
    simp [hset]
  · rw [List.getElem?_set_ne (Ne.symm hj)]

theorem State.linked_self {s : State} {k : ℕ} {c : Conn} (hc : s.conns[k]? = some c) (id : String)
    (uid : ℕ) : s.Linked k id uid ↔ c.pc.linked? = some (id, uid) := by
  simp [State.Linked, hc]

section Indexed

variable {env : Env} {cfg : Config}

theorem Indexed.same {s : State} {k : ℕ} {c c' : Conn} {op : MapOp} (h : Indexed s)
    (hc : s.conns[k]? = some c) (hop : ∀ (s : State) (k : ℕ), (s.apply k op).pool = s.pool)
    (hlink : c'.pc.linked? = c.pc.linked?) :
    Indexed ({ s with conns := s.conns.set k c' }.apply k op) := by
  have hlinked : ∀ j id uid,
      State.Linked ({ s with conns := s.conns.set k c' }.apply k op) j id uid ↔
        s.Linked j id uid := by
    intro j id uid
    rw [State.linked_set hc]
    split_ifs with hj
    · rw [hj, hlink, State.linked_self hc]
    · rfl
  refine ⟨fun id uid j => ?_, fun j j' id id' uid hj hj' => ?_⟩
  · rw [hop, hlinked]
    exact h.pool id uid j
  · exact h.uids j j' id id' uid ((hlinked _ _ _).1 hj) ((hlinked _ _ _).1 hj')

theorem Indexed.push {s : State} {k : ℕ} {c c' : Conn} {id : String} {uid : ℕ} (h : Indexed s)
    (hc : s.conns[k]? = some c) (hbefore : c.pc.linked? = none)
    (hafter : c'.pc.linked? = some (id, uid))
    (hfresh : ∀ c ∈ s.conns, c.pc.linked?.map Prod.snd ≠ some uid) :
    Indexed ({ s with conns := s.conns.set k c' }.apply k (.push id uid)) := by
  have hnew : ∀ j id', ¬s.Linked j id' uid := by
    rintro j id' ⟨d, hd, hlink⟩
    exact hfresh d (List.mem_of_getElem? hd) (by rw [hlink]; rfl)
  refine ⟨fun id' uid' j => ?_, fun j j' id₁ id₂ uid' hj hj' => ?_⟩
  · rw [State.pool_push, List.mem_append, State.linked_set hc]
    have hold := h.pool id' uid' j
    rw [show State.pool { s with conns := s.conns.set k c' } id' = s.pool id' from rfl, hold]
    split_ifs with hid hj hj
    · rw [hj, State.linked_self hc, hbefore, hafter, hid]
      simp [eq_comm]
    · simp [hj]
    · rw [hj, State.linked_self hc, hbefore, hafter]
      simp [Ne.symm hid]
    · simp
  · rw [State.linked_set hc] at hj hj'
    split_ifs at hj hj' with hjk hjk' hjk'
    · rw [hjk, hjk']
    · rw [hafter] at hj
      cases hj
      exact absurd hj' (hnew _ _)
    · rw [hafter] at hj'
      cases hj'
      exact absurd hj (hnew _ _)
    · exact h.uids j j' id₁ id₂ uid' hj hj'

theorem Indexed.remove {s : State} {k : ℕ} {c c' : Conn} {id : String} {uid : ℕ} (h : Indexed s)
    (hc : s.conns[k]? = some c) (hbefore : c.pc.linked? = some (id, uid))
    (hafter : c'.pc.linked? = none) :
    Indexed ({ s with conns := s.conns.set k c' }.apply k (.remove id uid)) := by
  have hk : s.Linked k id uid := (State.linked_self hc id uid).2 hbefore
  refine ⟨fun id' uid' j => ?_, fun j j' id₁ id₂ uid' hj hj' => ?_⟩
  · rw [State.pool_remove, State.linked_set hc,
      show State.pool { s with conns := s.conns.set k c' } id' = s.pool id' from rfl]
    have hold := h.pool id' uid' j
    by_cases hj : j = k
    · -- The connection that leaves: its own entry is the one with its uid.
      subst hj
      rw [if_pos rfl, hafter]
      refine iff_of_false (fun hmem => ?_) nofun
      split_ifs at hmem with hid
      · obtain ⟨hmem, hne⟩ := List.mem_filter.1 hmem
        have hlink := (State.linked_self hc _ _).1 (hold.1 hmem)
        rw [hbefore] at hlink
        cases hlink
        simp at hne
      · have hlink := (State.linked_self hc _ _).1 (hold.1 hmem)
        rw [hbefore] at hlink
        cases hlink
        exact hid rfl
    · rw [if_neg hj, ← hold]
      split_ifs with hid
      · rw [List.mem_filter, and_iff_left_iff_imp]
        intro hmem
        have hne : uid' ≠ uid := by
          rintro rfl
          exact hj (h.uids j k id' id uid' (hold.1 hmem) hk)
        simpa using hne
      · rfl
  · rw [State.linked_set hc, hafter] at hj hj'
    split_ifs at hj hj'
    exact h.uids j j' id₁ id₂ uid' hj hj'

theorem Indexed.step {s t : State} {a : Action} (h : Indexed s) (hfresh : Fresh s a)
    (hstep : step env cfg s a = some t) : Indexed t := by
  cases a with
  | accept transport =>
    cases hstep
    have hlinked : ∀ j id uid,
        State.Linked { s with conns := s.conns ++ [.incoming transport] } j id uid ↔
          s.Linked j id uid := by
      intro j id uid
      simp only [State.Linked, List.getElem?_append]
      split_ifs with hj
      · rfl
      · refine iff_of_false ?_ ?_
        · rintro ⟨c, hc, hlink⟩
          cases List.mem_singleton.1 (List.mem_of_getElem? hc)
          cases hlink
        · rintro ⟨c, hc, -⟩
          exact hj (List.getElem?_eq_some_iff.1 hc).1
    refine ⟨fun id uid j => ?_, fun j j' id id' uid hj hj' => ?_⟩
    · rw [hlinked]
      exact h.pool id uid j
    · exact h.uids j j' id id' uid ((hlinked _ _ _).1 hj) ((hlinked _ _ _).1 hj')
  | input k i =>
    obtain ⟨c, c', op, hc, hmove, rfl⟩ := step_input hstep
    cases hmove.links with
    | same hop hlink => exact h.same hc hop hlink
    | push hi hbefore hafter =>
      subst hi
      exact h.push hc hbefore hafter hfresh
    | remove hbefore hafter => exact h.remove hc hbefore hafter

theorem indexed_of_runs {schedule : List Action} {s : State}
    (h : runs (Relay.step env cfg) init schedule = some s)
    (hfresh : Meets (Relay.step env cfg) Fresh init schedule) : Indexed s :=
  runs_invariant_of_meets (fun _ _ _ hs hg ht => Indexed.step hs hg ht) h hfresh indexed_init

/-- Each agent of a pool has its turn. -/
theorem exists_handlePublic {s : State} {host id : String} {uid k : ℕ}
    (hid : firstLabel host = some id) (hmem : (uid, k) ∈ s.pool id) :
    ∃ counter, handlePublic counter s host = some k := by
  unfold State.pool at hmem
  cases hpool : s.agents id with
  | none =>
    rw [hpool] at hmem
    cases hmem
  | some pool =>
    rw [hpool, Option.getD_some] at hmem
    obtain ⟨n, hn, hentry⟩ := List.mem_iff_getElem.1 hmem
    have hne : pool ≠ [] := List.ne_nil_of_mem hmem
    refine ⟨n, ?_⟩
    simp [handlePublic, hid, hpool, hne, Registry.AgentPool.nextAgent, Nat.mod_eq_of_lt hn, hn,
      hentry]

/-- **The lookup is exact.** As long as no uid is drawn that a linked agent has: whom `handle_public`
finds for a host is linked under the host's first label at that moment, everyone who is linked
under it is found at some turn of the counter, and a user is turned away only if nobody is. -/
theorem lookup_exact (env : Env) (cfg : Config) (schedule : List Action) (s : State)
    (h : runs (step env cfg) init schedule = some s)
    (hfresh : Meets (step env cfg) Fresh init schedule) (host id : String)
    (hid : firstLabel host = some id) :
    (∀ k, (∃ counter, handlePublic counter s host = some k) ↔ ∃ uid, s.Linked k id uid) ∧
      ∀ counter, handlePublic counter s host = none ↔ ∀ k uid, ¬s.Linked k id uid := by
  have hindexed := indexed_of_runs h hfresh
  have hsound : ∀ counter k, handlePublic counter s host = some k → ∃ uid, s.Linked k id uid := by
    intro counter k hk
    obtain ⟨id', pool, uid, hid', hpool, hmem⟩ := handlePublic_eq_some hk
    cases hid.symm.trans hid'
    exact ⟨uid, (hindexed.pool id uid k).1 (by rw [State.pool, hpool]; exact hmem)⟩
  refine ⟨fun k => ⟨fun ⟨counter, hk⟩ => hsound counter k hk, ?_⟩, fun counter => ⟨?_, ?_⟩⟩
  · rintro ⟨uid, hlinked⟩
    exact exists_handlePublic hid ((hindexed.pool id uid k).2 hlinked)
  · intro hnone k uid hlinked
    have hmem := (hindexed.pool id uid k).2 hlinked
    cases hpool : s.agents id with
    | none =>
      rw [State.pool, hpool] at hmem
      cases hmem
    | some pool =>
      rw [State.pool, hpool] at hmem
      obtain ⟨j, hj⟩ := handlePublic_isSome hid hpool (List.ne_nil_of_mem hmem) counter
      rw [hnone] at hj
      cases hj
  · intro hall
    cases hk : handlePublic counter s host with
    | none => rfl
    | some k =>
      obtain ⟨uid, hlinked⟩ := hsound counter k hk
      exact absurd hlinked (hall k uid)

theorem lookup_exact_sample :
    ∃ s, runs (step sampleEnv sampleConfig) init sampleSchedule = some s ∧
      Meets (step sampleEnv sampleConfig) Fresh init sampleSchedule ∧
      handlePublic 5 s Sample.domain = some 0 ∧ ∃ uid, s.Linked 0 Sample.clientId uid := by
  have hrun : (runs (step sampleEnv sampleConfig) init sampleSchedule).map
      (fun s => handlePublic 5 s Sample.domain) = some (some 0) := by decide +kernel
  have hfresh : Meets (step sampleEnv sampleConfig) Fresh init sampleSchedule := by decide +kernel
  obtain ⟨s, hs, hk⟩ := Option.map_eq_some_iff.1 hrun
  have hexact := lookup_exact sampleEnv sampleConfig sampleSchedule s hs hfresh Sample.domain
    Sample.clientId (by decide +kernel)
  exact ⟨s, hs, hfresh, hk, (hexact.1 0).1 ⟨5, hk⟩⟩

end Indexed

end QuicTunnel.Relay
