import QuicTunnel.Relay.Handler

/-!
# What is stored was authenticated

Every connection in the agent registry or in the map of pending challenges passed every check that
the configuration asks for, under the id it is stored with.

* `Evident` is what a handler knows at each of its points, kept by every step of the connection;
* once a connection is past the checks its evidence stays as it is (`Move.settled`);
* `Inv` adds that an entry of a map belongs to a connection that is past the checks.  A map is only
  written by such a connection, so every step of the relay keeps it.

The last section reads `Inv` back in terms of what the peer sent (`Admitted`).
-/

namespace QuicTunnel.Relay

open Transition

variable {env : Env} {cfg : Config}

/-! ### What a handler knows -/

/-- The evidence is complete, or never will be. -/
def Pc.settled : Pc → Bool
  | .gone _ => true
  | pc => pc.client?.isSome

/-- The id a map operation stores its connection under. -/
def MapOp.storesUnder : MapOp → Option String
  | .pendingInsert id _ | .push id _ => some id
  | _ => Option.none

section Evidence

variable (env : Env) (cfg : Config)

/-- The auth handler, if there is one, accepted the certificate. -/
def Evidence.Accepted (e : Evidence) : Prop :=
  ∃ cert, e.cert = some cert ∧ checkHandler env cfg cert = .ok e.authToken

/-- The domain was announced. -/
def Evidence.Announced (e : Evidence) (domain : String) : Prop :=
  e.domainBytes.length ≤ maxCtrlFrame ∧ fromUtf8 e.domainBytes = some domain

/-- The TXT records authorize the deployment source, if there is one. -/
def Evidence.Authorized (e : Evidence) (domain : String) : Prop :=
  ∀ source, e.authToken = some source → ∃ values,
    e.txt = some (txtName (hostOf domain), values) ∧
      txtAuthorizes env.toPrimitives values source (hostOf domain) = true

/-- Every check passed, for the client `id`. -/
def Evidence.Complete (e : Evidence) (id : String) : Prop :=
  e.Accepted env cfg ∧ ∃ domain, e.Announced domain ∧
    checkIdentity env cfg domain e.sigBytes = .ok id ∧ e.Authorized env domain

/-- What a handler knows where it is. -/
def Conn.Evident (c : Conn) : Prop :=
  match c.pc with
  | .handshake | .gone _ => True
  | .openControl | .readDomain => c.seen.Accepted env cfg
  | .readSig domain => c.seen.Accepted env cfg ∧ c.seen.Announced domain
  | .lookupTxt domain id source =>
    c.seen.Accepted env cfg ∧ c.seen.Announced domain ∧
      checkIdentity env cfg domain c.seen.sigBytes = .ok id ∧ c.seen.authToken = some source
  | pc => ∀ id, pc.client? = some id → c.seen.Complete env cfg id

end Evidence

theorem Conn.Evident.complete {c : Conn} (h : c.Evident env cfg) {id : String}
    (hid : c.pc.client? = some id) : c.seen.Complete env cfg id := by
  unfold Conn.Evident at h
  split at h
  all_goals first | exact h id hid | (rw [‹c.pc = _›] at hid; cases hid)

theorem Conn.evident_of_complete {c : Conn} {id : String} (hid : c.pc.client? = some id)
    (h : c.seen.Complete env cfg id) : c.Evident env cfg := by
  unfold Conn.Evident
  split
  all_goals first
    | (rw [‹c.pc = _›] at hid; cases hid)
    | (intro id' hid'; rw [hid] at hid'; cases hid'; exact h)

/-- Every step keeps what a handler knows. -/
theorem Conn.Move.evident {token : ℕ} {c c' : Conn} {i : Input} {op : MapOp}
    (hmove : c.Move env cfg token i c' op) (h : c.Evident env cfg) : c'.Evident env cfg := by
  cases hmove with
  | data | fin => exact h
  | refused | timedOut | noKeyAuth | readFailed | notUtf8 | unidentified | unauthorized | abandoned
  | swept => trivial
  | accepted hpc hcheck => exact ⟨_, rfl, hcheck⟩
  | opened hpc =>
    rw [Conn.Evident, hpc] at h
    exact h
  | announced hread hpc hutf8 =>
    rw [Conn.Evident, hpc] at h
    exact ⟨h, Conn.length_of_read hread, hutf8⟩
  | identified hread hpc hid htoken =>
    rw [Conn.Evident, hpc] at h
    refine Conn.evident_of_complete rfl ⟨h.1, _, h.2, hid, ?_⟩
    intro source hsource
    cases htoken.symm.trans hsource
  | lookUp hread hpc hid htoken =>
    rw [Conn.Evident, hpc] at h
    exact ⟨h.1, h.2, hid, htoken⟩
  | authorized hpc hauth =>
    rw [Conn.Evident, hpc] at h
    obtain ⟨hacc, hann, hid, htoken⟩ := h
    refine Conn.evident_of_complete rfl ⟨hacc, _, hann, hid, ?_⟩
    intro source hsource
    cases htoken.symm.trans hsource
    exact ⟨_, rfl, hauth⟩
  | cached hread hpc | challenge hread hpc | done hread hpc | inserted hpc | acked hpc
  | notAcked hpc | removed hpc | registered uid hpc | closed hpc | unlinked hpc =>
    exact Conn.evident_of_complete rfl (h.complete (by rw [hpc]; rfl))

/-- Once the evidence is settled it stays as it is. -/
theorem Conn.Move.settled {token : ℕ} {c c' : Conn} {i : Input} {op : MapOp}
    (hmove : c.Move env cfg token i c' op) (h : c.pc.settled = true) :
    c'.pc.settled = true ∧ c'.seen = c.seen := by
  cases hmove with
  | data | fin => exact ⟨h, rfl⟩
  | accepted hpc | opened hpc | announced _ hpc | identified _ hpc | lookUp _ hpc
  | authorized hpc =>
    rw [hpc] at h
    cases h
  | _ => exact ⟨rfl, rfl⟩

/-- A connection is stored under the id it was authenticated with. -/
theorem Conn.Move.stores {token : ℕ} {c c' : Conn} {i : Input} {op : MapOp}
    (hmove : c.Move env cfg token i c' op) {id : String} (hop : op.storesUnder = some id) :
    c'.pc.client? = some id := by
  cases hmove with
  | inserted => exact hop
  | registered => exact hop
  | _ => cases hop

theorem Pc.settled_of_client {pc : Pc} {id : String} (h : pc.client? = some id) :
    pc.settled = true := by
  cases pc <;> first | rfl | cases h

/-! ### The maps -/

/-- Connection `k` is past the checks, for the client `id`. -/
def Stored (env : Env) (cfg : Config) (conns : List Conn) (id : String) (k : ℕ) : Prop :=
  ∃ c, conns[k]? = some c ∧ c.pc.settled = true ∧ c.seen.Complete env cfg id

structure Inv (env : Env) (cfg : Config) (s : State) : Prop where
  conns : ∀ c ∈ s.conns, c.Evident env cfg
  agents : ∀ id pool, s.agents id = some pool → ∀ entry ∈ pool, Stored env cfg s.conns id entry.2
  pending : ∀ id entry, s.pending id = some entry → Stored env cfg s.conns id entry.2

theorem inv_init : Inv env cfg init where
  conns := by rintro c ⟨⟩
  agents := by rintro id pool ⟨⟩
  pending := by rintro id entry ⟨⟩

/-- The connections may change as long as what is stored stays stored. -/
theorem Inv.setConns {s : State} (h : Inv env cfg s) {conns : List Conn}
    (hconns : ∀ c ∈ conns, c.Evident env cfg)
    (hstored : ∀ id k, Stored env cfg s.conns id k → Stored env cfg conns id k) :
    Inv env cfg { s with conns := conns } where
  conns := hconns
  agents id pool hpool entry hmem := hstored id _ (h.agents id pool hpool entry hmem)
  pending id entry hentry := hstored id _ (h.pending id entry hentry)

/-- The pool of one id may change as long as its agents are past the checks. -/
theorem Inv.updateAgents {s : State} (h : Inv env cfg s) {id : String}
    {pool? : Option (List (ℕ × ℕ))}
    (hpool : ∀ pool, pool? = some pool → ∀ entry ∈ pool, Stored env cfg s.conns id entry.2) :
    Inv env cfg { s with agents := Function.update s.agents id pool? } where
  conns := h.conns
  agents := (Function.forall_update_iff s.agents fun id pool? =>
    ∀ pool, pool? = some pool → ∀ entry ∈ pool, Stored env cfg s.conns id entry.2).2
      ⟨hpool, fun id' _ => h.agents id'⟩
  pending := h.pending

/-- The challenge of one id may change as long as its connection is past the checks. -/
theorem Inv.updatePending {s : State} (h : Inv env cfg s) {id : String} {held? : Option (ℕ × ℕ)}
    (hentry : ∀ entry, held? = some entry → Stored env cfg s.conns id entry.2) (next : ℕ) :
    Inv env cfg
      { s with pending := Function.update s.pending id held?, nextToken := next } where
  conns := h.conns
  agents := h.agents
  pending := (Function.forall_update_iff s.pending fun id held? =>
    ∀ entry, held? = some entry → Stored env cfg s.conns id entry.2).2
      ⟨hentry, fun id' _ => h.pending id'⟩

/-- A map operation keeps the invariant if the connection it stores is past the checks. -/
theorem Inv.apply {s : State} (h : Inv env cfg s) {k : ℕ} {op : MapOp}
    (hop : ∀ id, op.storesUnder = some id → Stored env cfg s.conns id k) :
    Inv env cfg (s.apply k op) := by
  cases op with
  | none => exact h
  | pendingInsert id token =>
    refine h.updatePending ?_ (token + 1)
    rintro entry ⟨⟩
    exact hop id rfl
  | pendingRemove id token =>
    simp only [State.apply]
    split
    · split_ifs
      · exact h.updatePending (by rintro entry ⟨⟩) s.nextToken
      · exact h
    · exact h
  | push id uid =>
    refine h.updateAgents ?_
    rintro pool ⟨⟩ entry hmem
    rcases List.mem_append.1 hmem with hold | hnew
    · cases hagents : s.agents id with
      | none => rw [hagents] at hold; cases hold
      | some pool => exact h.agents id pool hagents entry (by rwa [hagents] at hold)
    · cases List.mem_singleton.1 hnew
      exact hop id rfl
  | remove id uid =>
    simp only [State.apply]
    split
    · rename_i pool hagents
      refine h.updateAgents ?_
      rintro _ ⟨⟩ entry hmem
      exact h.agents id pool hagents entry (List.mem_of_mem_filter hmem)
    · exact h
  | removeIfEmpty id =>
    simp only [State.apply]
    split_ifs
    · exact h.updateAgents (by rintro pool ⟨⟩)
    · exact h

/-- What is stored stays stored when a connection takes a step. -/
theorem Stored.set {conns : List Conn} {id : String} {j k : ℕ} {c c' : Conn}
    (h : Stored env cfg conns id j) (hc : conns[k]? = some c)
    (hstep : c.pc.settled = true → c'.pc.settled = true ∧ c'.seen = c.seen) :
    Stored env cfg (conns.set k c') id j := by
  obtain ⟨d, hd, hsettled, hcomplete⟩ := h
  by_cases hjk : k = j
  · subst hjk
    cases hc.symm.trans hd
    obtain ⟨hsettled', hseen⟩ := hstep hsettled
    exact ⟨c', List.getElem?_set_self (List.getElem?_eq_some_iff.1 hc).1, hsettled',
      hseen ▸ hcomplete⟩
  · exact ⟨d, by rw [List.getElem?_set_ne hjk]; exact hd, hsettled, hcomplete⟩

theorem Inv.step {s t : State} {a : Action} (h : Inv env cfg s)
    (hstep : Relay.step env cfg s a = some t) : Inv env cfg t := by
  cases a with
  | accept transport =>
    cases hstep
    refine h.setConns ?_ ?_
    · intro c hc
      rcases List.mem_append.1 hc with hold | hnew
      · exact h.conns c hold
      · cases List.mem_singleton.1 hnew
        trivial
    · rintro id k ⟨c, hc, hrest⟩
      have hk : k < s.conns.length := (List.getElem?_eq_some_iff.1 hc).1
      exact ⟨c, by rw [List.getElem?_append_left hk]; exact hc, hrest⟩
  | input k i =>
    obtain ⟨c, c', op, hc, hmove, rfl⟩ := step_input hstep
    have hevident := hmove.evident (h.conns c (List.mem_of_getElem? hc))
    have hset : (s.conns.set k c')[k]? = some c' :=
      List.getElem?_set_self (List.getElem?_eq_some_iff.1 hc).1
    refine Inv.apply (h.setConns ?_ fun id j hj => hj.set hc hmove.settled) ?_
    · intro d hd
      rcases List.mem_or_eq_of_mem_set hd with hold | rfl
      · exact h.conns d hold
      · exact hevident
    · intro id hid
      have hclient := hmove.stores hid
      exact ⟨c', hset, Pc.settled_of_client hclient, hevident.complete hclient⟩

theorem inv_of_runs {schedule : List Action} {s : State}
    (h : runs (step env cfg) init schedule = some s) : Inv env cfg s :=
  runs_invariant (fun _ _ _ hs ht => Inv.step hs ht) h inv_init

/-! ### Registration soundness -/

/-- A connection was authenticated as `id`, in terms of what it sent and what was looked up. -/
structure Admitted (env : Env) (cfg : Config) (e : Evidence) (id domain : String) : Prop where
  /-- The auth handler accepted it, if one is configured. -/
  handler : ∀ handler, cfg.authHandler = some handler → ∃ cert pubkey, e.cert = some cert ∧
    env.pubkeyFromCert cert = some pubkey ∧
    handler pubkey (env.customDataFromCert cert) = .ok e.authToken
  /-- It sent the domain, as UTF-8 in one frame. -/
  announced : fromUtf8 e.domainBytes = some domain ∧ e.domainBytes.length ≤ 4096
  /-- The first label of the domain is the id. -/
  label : (labels domain).head? = some id.toList
  /-- It sent a signature over exactly these bytes, by a key that hashes to the id. -/
  signature : ∃ recSig vk, env.tryFrom e.sigBytes = some recSig ∧
    env.recoverVerifyingKey recSig e.domainBytes = some vk ∧
    id = idFromPubkey env.toPrimitives (env.toSec1 vk true)
  /-- The labels of the domain end with those of a listed suffix, and there is one before. -/
  suffix : cfg.domainSuffixes ≠ [] → ∃ s ∈ cfg.domainSuffixes, ∃ before, before ≠ [] ∧
    labels domain = before ++ labels s
  /-- The TXT records of the domain without its first label authorize the deployment source. -/
  txt : ∀ source, e.authToken = some source → ∃ values,
    e.txt = some (s!"_acu.{withoutFirstLabel domain}.", values) ∧
    txtAuthorizes env.toPrimitives values source (withoutFirstLabel domain) = true

theorem Evidence.Complete.admitted {e : Evidence} {id : String} (h : e.Complete env cfg id) :
    ∃ domain, Admitted env cfg e id domain := by
  obtain ⟨⟨cert, hcert, hcheck⟩, domain, ⟨hlen, hutf8⟩, hid, hauth⟩ := h
  obtain ⟨⟨pubkey, hpubkey⟩, hfirst, hsuffix⟩ := checkIdentity_eq_ok hid
  obtain ⟨recSig, vk, hsig, hvk, rfl, hfirst'⟩ := recoverIdentityPubkey_eq_some _ hpubkey
  have hidEq : id = idFromPubkey env.toPrimitives (env.toSec1 vk true) :=
    Option.some.inj (hfirst.symm.trans hfirst')
  refine ⟨domain, ?_, ⟨hutf8, hlen⟩, ?_, ⟨recSig, vk, hsig, ?_, hidEq⟩, ?_, ?_⟩
  · intro handler hhandler
    obtain ⟨pubkey, hpubkey, hok⟩ := checkHandler_eq_ok hcheck hhandler
    exact ⟨cert, pubkey, hcert, hpubkey, hok⟩
  · obtain ⟨label, hlabel, rfl⟩ := Option.map_eq_some_iff.1 hfirst
    rw [hlabel, String.toList_ofList]
  · rw [← utf8_of_fromUtf8 hutf8]
    exact hvk
  · exact labels_of_allowedSuffix hsuffix
  · intro source hsource
    rw [← hostOf_eq_withoutFirstLabel]
    exact hauth source hsource

/-- **Registration soundness.** Whatever the connections do, an entry of the registry or of the
pending challenges belongs to a connection that was authenticated under the entry's id. -/
theorem registration_sound (env : Env) (cfg : Config) (schedule : List Action) (s : State)
    (h : runs (step env cfg) init schedule = some s) :
    (∀ id pool, s.agents id = some pool → ∀ uid k, (uid, k) ∈ pool →
      ∃ c, s.conns[k]? = some c ∧ ∃ domain, Admitted env cfg c.seen id domain) ∧
    (∀ id token k, s.pending id = some (token, k) →
      ∃ c, s.conns[k]? = some c ∧ ∃ domain, Admitted env cfg c.seen id domain) := by
  have hinv := inv_of_runs h
  refine ⟨fun id pool hpool uid k hmem => ?_, fun id token k hpending => ?_⟩
  · obtain ⟨c, hc, -, hcomplete⟩ := hinv.agents id pool hpool _ hmem
    exact ⟨c, hc, hcomplete.admitted⟩
  · obtain ⟨c, hc, -, hcomplete⟩ := hinv.pending id _ hpending
    exact ⟨c, hc, hcomplete.admitted⟩

/-- A self-signed certificate of a P-256 key. -/
def sampleCert : Bytes :=
  [0x30, 0x81, 0xed, 0x30, 0x81, 0x95, 0xa0, 0x03, 0x02, 0x01, 0x02, 0x02, 0x01, 0x01, 0x30, 0x0a,
   0x06, 0x08, 0x2a, 0x86, 0x48, 0xce, 0x3d, 0x04, 0x03, 0x02, 0x30, 0x00, 0x30, 0x20, 0x17, 0x0d,
   0x37, 0x35, 0x30, 0x31, 0x30, 0x31, 0x30, 0x30, 0x30, 0x30, 0x30, 0x30, 0x5a, 0x18, 0x0f, 0x34,
   0x30, 0x39, 0x36, 0x30, 0x31, 0x30, 0x31, 0x30, 0x30, 0x30, 0x30, 0x30, 0x30, 0x5a, 0x30, 0x00,
   0x30, 0x59, 0x30, 0x13, 0x06, 0x07, 0x2a, 0x86, 0x48, 0xce, 0x3d, 0x02, 0x01, 0x06, 0x08, 0x2a,
   0x86, 0x48, 0xce, 0x3d, 0x03, 0x01, 0x07, 0x03, 0x42, 0x00, 0x04, 0x86, 0xf0, 0xc8, 0xb2, 0xa9,
   0xea, 0xd1, 0x33, 0xbe, 0xde, 0x3c, 0x57, 0xa3, 0x4e, 0x28, 0x6a, 0x0a, 0xfd, 0x49, 0x0c, 0xfa,
   0x54, 0xe2, 0x2b, 0x15, 0xff, 0x3a, 0x34, 0x66, 0xed, 0x27, 0x06, 0x88, 0xc3, 0x22, 0x39, 0x8e,
   0xe7, 0x53, 0x0c, 0xed, 0x03, 0x38, 0x2a, 0x28, 0x45, 0x42, 0x58, 0xaf, 0xb6, 0xfd, 0x13, 0xf5,
   0xde, 0x11, 0xf8, 0xaf, 0x9b, 0x78, 0xa3, 0xd5, 0x1a, 0x74, 0x24, 0x30, 0x0a, 0x06, 0x08, 0x2a,
   0x86, 0x48, 0xce, 0x3d, 0x04, 0x03, 0x02, 0x03, 0x47, 0x00, 0x30, 0x44, 0x02, 0x20, 0x1e, 0x0c,
   0x75, 0x41, 0x43, 0x82, 0xf7, 0x4f, 0x76, 0xa8, 0x69, 0x90, 0x8b, 0x5e, 0x8c, 0x1c, 0xb3, 0x65,
   0xdf, 0x3e, 0x18, 0xdb, 0xa9, 0x2c, 0x49, 0x19, 0xac, 0x06, 0x2f, 0x82, 0xe9, 0x8b, 0x02, 0x20,
   0x31, 0x6c, 0x39, 0xbb, 0x3f, 0x4a, 0x0d, 0x8f, 0xd8, 0xfa, 0x52, 0x30, 0x39, 0xe3, 0x35, 0x1e,
   0xd4, 0xe5, 0xb3, 0x4d, 0xc5, 0xfa, 0x97, 0x97, 0x5b, 0xce, 0x62, 0xc7, 0x51, 0x58, 0xf8, 0x9d]

/-- The public key in it. -/
def sampleCertKey : Bytes :=
  [0x04, 0x86, 0xf0, 0xc8, 0xb2, 0xa9, 0xea, 0xd1, 0x33, 0xbe, 0xde, 0x3c, 0x57, 0xa3, 0x4e, 0x28,
   0x6a, 0x0a, 0xfd, 0x49, 0x0c, 0xfa, 0x54, 0xe2, 0x2b, 0x15, 0xff, 0x3a, 0x34, 0x66, 0xed, 0x27,
   0x06, 0x88, 0xc3, 0x22, 0x39, 0x8e, 0xe7, 0x53, 0x0c, 0xed, 0x03, 0x38, 0x2a, 0x28, 0x45, 0x42,
   0x58, 0xaf, 0xb6, 0xfd, 0x13, 0xf5, 0xde, 0x11, 0xf8, 0xaf, 0x9b, 0x78, 0xa3, 0xd5, 0x1a, 0x74,
   0x24]

def sampleEnv : Env where
  toPrimitives := Sample.primitives
  pubkeyFromCert cert := if cert = sampleCert then some sampleCertKey else none
  customDataFromCert _ := none

/-- One suffix is allowed, and a handler that gives the sample key a deployment source. -/
def sampleConfig : Config where
  domainSuffixes := ["example.org", "localhost"]
  authHandler := some fun pubkey _ =>
    if pubkey = sampleCertKey then .ok (some (List.replicate 32 0x2a)) else .error "unknown key"

def sampleTxt : List Bytes := [utf8 "v=spf1", utf8 "Eto8MPLUvIfkagFntQjEac4Z5i4CnV6IDGysOumZxxo="]

/-- A client comes in on QUIC with a cached certificate, and again on H2 with a challenge. -/
def sampleSchedule : List Action :=
  [.accept .quic, .input 0 (.peerCerts (some [sampleCert])), .input 0 .opened,
    .input 0 (.data (toBeBytes 32 ++ utf8 Sample.domain)), .accept .h2, .input 0 .poll,
    .input 0 (.data (toBeBytes 65 ++ Sample.signature ++ toBeBytes 0)), .input 0 .poll,
    .input 1 (.peerCerts (some [sampleCert])), .input 0 (.txtAnswer (some sampleTxt)),
    .input 1 .opened, .input 0 .poll, .input 1 (.response [some (utf8 Sample.domain)]),
    .input 1 (.response [some Sample.signature]), .input 0 (.drew 7),
    .input 1 (.txtAnswer (some sampleTxt)), .input 1 (.response [some (utf8 "token.thumbprint")]),
    .input 1 .run]

theorem registration_sound_quic_and_h2 :
    ∃ s, runs (step sampleEnv sampleConfig) init sampleSchedule = some s ∧
      s.agents Sample.clientId = some [(7, 0)] ∧ s.pending Sample.clientId = some (0, 1) ∧
      (∃ c, s.conns[0]? = some c ∧
        ∃ domain, Admitted sampleEnv sampleConfig c.seen Sample.clientId domain) ∧
      ∃ c, s.conns[1]? = some c ∧
        ∃ domain, Admitted sampleEnv sampleConfig c.seen Sample.clientId domain := by
  have hrun : (runs (step sampleEnv sampleConfig) init sampleSchedule).map
      (fun s => (s.agents Sample.clientId, s.pending Sample.clientId)) =
        some (some [(7, 0)], some (0, 1)) := by decide +kernel
  obtain ⟨s, hs, hmaps⟩ := Option.map_eq_some_iff.1 hrun
  obtain ⟨hagents, hpending⟩ := Prod.mk.inj hmaps
  obtain ⟨sound, soundPending⟩ := registration_sound sampleEnv sampleConfig sampleSchedule s hs
  exact ⟨s, hs, hagents, hpending, sound _ _ hagents 7 0 (List.mem_singleton.2 rfl),
    soundPending _ 0 1 hpending⟩

end QuicTunnel.Relay
