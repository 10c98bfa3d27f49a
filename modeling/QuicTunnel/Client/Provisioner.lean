import QuicTunnel.Base.Transition
import QuicTunnel.Base.Watch
import QuicTunnel.Common.Time

/-!
# The certificate provisioner

`CertProvisioner` (`tunnel-client/src/acme.rs`): any number of callers run `prepare` and then, as a
leader, `finalize`.  The two maps are behind mutexes, so each lock section is one step; `Pc` lists
the points between two such steps, in the order of the source.  What the CA answers is carried by
the action, and a caller may be dropped at each of its await points.

An order is the pair of watch channels its leader made.  `leader` is not in the source: it records
which caller made them.
-/

namespace QuicTunnel.Acme

/-! ### Orders and callers -/

/-- `Instant`, in nanoseconds. -/
abbrev Instant := ℕ

/-- Fallback renewal point for an issued cert whose validity cannot be read. -/
def defaultRenewAfter : Duration := .fromSecs (60 * 24 * 3600)

structure CacheEntry where
  certPem : String
  renewAt : Instant
  deriving DecidableEq

/-- The channels of an order: the key authorization, and the issued certificate. -/
structure Order where
  leader : ℕ
  keyAuth : Watch (Option String)
  cert : Watch (Option String)
  deriving DecidableEq

/-- An authorization of a CA order: whether it is already valid, and the key authorization and the
URL of its TLS-ALPN-01 challenge, if it offers one. -/
structure Authorization where
  valid : Bool
  tlsAlpn01 : Option (String × String)
  deriving DecidableEq

/-- The loop of `setup` over the authorizations: the last one that is not valid decides the key
authorization and the challenge URL; both stay as they are if all are valid. -/
def collectChallenges (domain : String) :
    String × String → List (Except String Authorization) → Except String (String × String)
  | found, [] => .ok found
  | _, .error e :: _ => .error e
  | found, .ok authz :: rest =>
    if authz.valid then collectChallenges domain found rest
    else
      match authz.tlsAlpn01 with
      | none => .error s!"no TLS-ALPN-01 challenge for {domain}"
      | some challenge => collectChallenges domain challenge rest

/-- What `setup` makes of the CA's answers: the account or the order fails, or the authorizations
of the order arrive. -/
def setup (domain : String) (reply : Except String (List (Except String Authorization))) :
    Except String (String × String) :=
  reply.bind (collectChallenges domain ("", ""))

/-- Where a caller is. -/
inductive Pc
  /-- `prepare`, before `cache.lock`. -/
  | checkCache
  /-- Before the first `in_flight.lock`. -/
  | probe
  /-- An entry was cloned; before `cert_rx.has_changed`. -/
  | probed (order : ℕ)
  /-- Before `key_auth_rx.borrow`. -/
  | borrow (order : ℕ)
  /-- In `key_auth_rx.changed`. -/
  | waitKeyAuth (order : ℕ)
  /-- The entry is stale; before the `in_flight.lock` that removes it. -/
  | removeStale (order : ℕ)
  /-- Before the `in_flight.lock` that claims the lead. -/
  | claim
  /-- Leader, in `setup`. -/
  | setup (order : ℕ)
  /-- `setup` failed; before the `in_flight.lock` that removes the entry. -/
  | setupFailed (order : ℕ) (error : String)
  /-- The entry is removed; before the senders are dropped. -/
  | dropSenders (order : ℕ) (error : String)
  /-- `prepare` returned `LeaderChallenge`. -/
  | leader (order : ℕ) (keyAuthorization challengeUrl : String)
  /-- In `finalize`, before the CA has issued. -/
  | finalizing (order : ℕ)
  /-- Issued; before `cache.lock`. -/
  | caching (order : ℕ) (pem : String)
  /-- Cached; before `pending.tx.send`. -/
  | publish (order : ℕ) (pem : String)
  /-- Before the `in_flight.lock` that ends `finalize`. -/
  | finalRemove (order : ℕ) (result : Except String String)
  /-- The entry is removed; before `pending` is dropped. -/
  | dropPending (order : ℕ) (result : Except String String)
  /-- `prepare` returned `Cached`. -/
  | cached (pem : String)
  /-- `prepare` returned `FollowerChallenge`; waits in `cert_rx.changed`. -/
  | follower (order : ℕ) (keyAuthorization : String)
  /-- The follower has the leader's certificate. -/
  | followed (order : ℕ) (pem : String)
  /-- `finalize` returned the certificate. -/
  | finalized (order : ℕ) (pem : String)
  | failed (error : String)
  | dropped

structure Caller where
  domain : String
  pc : Pc

/-- The provisioner and its callers. -/
structure State where
  now : Instant
  cache : String → Option CacheEntry
  /-- The order in flight for a domain. -/
  inFlight : String → Option ℕ
  orders : List Order
  callers : List Caller
  /-- What `on_cert_issued` was called with. -/
  issued : List String

/-- `CertProvisioner::new`. -/
def init (now : Instant) : State := ⟨now, fun _ => none, fun _ => none, [], [], []⟩

/-- Caller `i` moves to `pc`. -/
def State.goto (s : State) (i : ℕ) (c : Caller) (pc : Pc) : State :=
  { s with callers := s.callers.set i { c with pc := pc } }

/-- The channels of an order change. -/
def State.update (s : State) (n : ℕ) (f : Order → Order) : State :=
  { s with orders := s.orders.modify n f }

/-- `in_flight.remove(domain)`. -/
def State.remove (s : State) (domain : String) : State :=
  { s with inFlight := Function.update s.inFlight domain none }

/-! ### Steps -/

inductive Action
  /-- A new call of `prepare(domain)`. -/
  | prepare (domain : String)
  /-- Caller `i` goes on to its next point. -/
  | step (i : ℕ)
  /-- The CA answers the `setup` of caller `i`. -/
  | setup (i : ℕ) (reply : Except String (List (Except String Authorization)))
  /-- Caller `i` calls `finalize` with the `AlpnPending` it holds. -/
  | finalize (i : ℕ)
  /-- `finalize_order` of caller `i` returns. -/
  | issue (i : ℕ) (reply : Except String String)
  /-- Caller `i` locks the cache; `renewAt` is what the certificate itself says then. -/
  | cache (i : ℕ) (renewAt : Option Instant)
  /-- Caller `i` is dropped. -/
  | cancel (i : ℕ)
  /-- `seed` puts an entry into the cache. -/
  | seed (domain : String) (entry : CacheEntry)
  | tick (elapsed : ℕ)

/-- The point a caller reaches on its own. -/
def advance (s : State) (i : ℕ) (c : Caller) : Option State :=
  match c.pc with
  | .checkCache =>
    match s.cache c.domain with
    | some e => some (s.goto i c (if s.now < e.renewAt then .cached e.certPem else .probe))
    | none => some (s.goto i c .probe)
  | .probe =>
    match s.inFlight c.domain with
    | some n => some (s.goto i c (.probed n))
    | none => some (s.goto i c .claim)
  | .probed n =>
    s.orders[n]?.bind fun o =>
      match o.cert.hasChanged 0 with
      | .error _ => some (s.goto i c (.removeStale n))
      | .ok _ => some (s.goto i c (.borrow n))
  | .borrow n =>
    s.orders[n]?.bind fun o =>
      match o.keyAuth.value with
      | some keyAuth => some (s.goto i c (.follower n keyAuth))
      | none => some (s.goto i c (.waitKeyAuth n))
  | .waitKeyAuth n =>
    s.orders[n]?.bind fun o => (o.keyAuth.changed 0).bind fun
      | .ok (some keyAuth) => some (s.goto i c (.follower n keyAuth))
      | .ok none => some (s.goto i c (.removeStale n))
      | .error _ => some (s.goto i c (.removeStale n))
  | .removeStale _ => some ((s.goto i c .checkCache).remove c.domain)
  | .claim =>
    if (s.inFlight c.domain).isSome then some (s.goto i c .checkCache)
    else
      some { s.goto i c (.setup s.orders.length) with
        inFlight := Function.update s.inFlight c.domain (some s.orders.length)
        orders := s.orders ++ [⟨i, .channel none, .channel none⟩] }
  | .setupFailed n e => some ((s.goto i c (.dropSenders n e)).remove c.domain)
  | .dropSenders n e =>
    some ((s.goto i c (.failed e)).update n fun o =>
      { o with keyAuth := o.keyAuth.close, cert := o.cert.close })
  | .publish n pem =>
    some ((s.goto i c (.finalRemove n (.ok pem))).update n fun o =>
      { o with cert := o.cert.send (some pem) })
  | .finalRemove n result => some ((s.goto i c (.dropPending n result)).remove c.domain)
  | .dropPending n result =>
    let pc := match result with
      | .ok pem => .finalized n pem
      | .error e => .failed e
    some ((s.goto i c pc).update n fun o => { o with cert := o.cert.close })
  | .follower n _ =>
    s.orders[n]?.bind fun o => (o.cert.changed 0).bind fun
      | .ok (some pem) => some (s.goto i c (.followed n pem))
      | .ok none =>
        some (s.goto i c (.failed s!"ACME leader for {c.domain} signalled empty cert"))
      | .error _ => some (s.goto i c
          (.failed s!"ACME leader for {c.domain} dropped before cert issuance"))
  | _ => none

/-- `setup.await` of a leader: publish the key authorization and return, which drops its sender, or
go on to remove the entry. -/
def answerSetup (s : State) (i : ℕ) (c : Caller)
    (reply : Except String (List (Except String Authorization))) : Option State :=
  match c.pc with
  | .setup n =>
    match setup c.domain reply with
    | .ok (keyAuth, url) =>
      some ((s.goto i c (.leader n keyAuth url)).update n fun o =>
        { o with keyAuth := (o.keyAuth.send (some keyAuth)).close })
    | .error e => some (s.goto i c (.setupFailed n e))
  | _ => none

/-- The issuing part of `finalize`: the callback, then on to the cache; a failure goes straight to
the removal of the entry. -/
def answerIssue (s : State) (i : ℕ) (c : Caller) (reply : Except String String) : Option State :=
  match c.pc with
  | .finalizing n =>
    match reply with
    | .ok pem => some { s.goto i c (.caching n pem) with issued := s.issued ++ [pem] }
    | .error e => some (s.goto i c (.finalRemove n (.error e)))
  | _ => none

/-- `cache.lock` and the insert of `finalize`; the time of renewal is computed under the lock. -/
def insertIssued (s : State) (i : ℕ) (c : Caller) (renewAt : Option Instant) : Option State :=
  match c.pc with
  | .caching n pem =>
    some { s.goto i c (.publish n pem) with
      cache := Function.update s.cache c.domain
        (some ⟨pem, renewAt.getD (s.now + defaultRenewAfter.nanos)⟩) }
  | _ => none

/-- A caller dropped at an await point drops the senders it holds; its entry stays. -/
def cancelled (s : State) (i : ℕ) (c : Caller) : Option State :=
  match c.pc with
  | .checkCache | .probe | .waitKeyAuth _ | .removeStale _ | .claim | .follower _ _ =>
    some (s.goto i c .dropped)
  | .setup n | .setupFailed n _ =>
    some ((s.goto i c .dropped).update n fun o =>
      { o with keyAuth := o.keyAuth.close, cert := o.cert.close })
  | .leader n _ _ | .finalizing n | .caching n _ | .finalRemove n _ =>
    some ((s.goto i c .dropped).update n fun o => { o with cert := o.cert.close })
  | _ => none

/-- One step. -/
def step (s : State) : Action → Option State
  | .prepare domain => some { s with callers := s.callers ++ [⟨domain, .checkCache⟩] }
  | .step i => s.callers[i]?.bind (advance s i)
  | .setup i reply => s.callers[i]?.bind fun c => answerSetup s i c reply
  | .finalize i => s.callers[i]?.bind fun c =>
    match c.pc with
    | .leader n _ _ => some (s.goto i c (.finalizing n))
    | _ => none
  | .issue i reply => s.callers[i]?.bind fun c => answerIssue s i c reply
  | .cache i renewAt => s.callers[i]?.bind fun c => insertIssued s i c renewAt
  | .cancel i => s.callers[i]?.bind (cancelled s i)
  | .seed domain entry => some { s with cache := Function.update s.cache domain (some entry) }
  | .tick elapsed => some { s with now := s.now + elapsed }

end QuicTunnel.Acme
