import QuicTunnel.Relay.World

/-!
# What a step of a handler can do

`Conn.Move` lists the steps of `Conn.step`, each with what was read, what was checked and what is
done to the maps; `Conn.step_move` says that there are no others, on either transport.  Everything
that is proved about handlers is proved by cases over it.
-/

namespace QuicTunnel.Relay

/-- What a handler reads from its peer. -/
inductive Frame
  | domain
  | sig
  | keyAuth
  | done
  deriving DecidableEq

namespace Pc

/-- The frame a handler is reading. -/
def frame? : Pc → Option Frame
  | .readDomain => some .domain
  | .readSig _ => some .sig
  | .readKeyAuth _ => some .keyAuth
  | .waitDone _ _ => some .done
  | _ => none

/-- The client a handler serves, once the auth exchange has returned its id. -/
def client? : Pc → Option String
  | .readKeyAuth id | .insertPending id | .sendAck id _ | .waitDone id _ | .removePending id _ _
  | .register id | .registered id _ | .unlink id _ | .sweep id => some id
  | _ => none

/-- The handler is in the auth exchange. -/
def inAuthExchange : Pc → Bool
  | .readDomain | .readSig _ | .lookupTxt _ _ _ => true
  | _ => false

/-- The handler holds the control stream. -/
def holdsControl : Pc → Bool
  | .readDomain | .readSig _ | .lookupTxt _ _ _ | .readKeyAuth _ | .insertPending _ | .sendAck _ _
  | .waitDone _ _ | .removePending _ _ _ => true
  | _ => false

def isGone : Pc → Bool
  | .gone _ => true
  | _ => false

/-- The handler has closed the connection with a reason. -/
def isRejected : Pc → Bool
  | .gone (.rejected _) => true
  | _ => false

def isInsertPending : Pc → Bool
  | .insertPending _ => true
  | _ => false

end Pc

/-- A step of a handler. -/
inductive Conn.Move (env : Env) (cfg : Config) (token : ℕ) (c : Conn) : Input → Conn → MapOp → Prop
  | data (bytes : Bytes) :
    Move env cfg token c (.data bytes) { c with buffer := c.buffer ++ bytes } .none
  | fin : Move env cfg token c .fin { c with fin := true } .none
  -- Up to the control stream.
  | accepted {cert : Bytes} {chain : List Bytes} {source : Option Bytes} (hpc : c.pc = .handshake)
    (h : checkHandler env cfg cert = .ok source) :
    Move env cfg token c (.peerCerts (some (cert :: chain)))
      { c with seen.cert := some cert, seen.authToken := source, pc := .openControl } .none
  | refused {i : Input} (verdict : Verdict) (hpc : c.pc = .handshake ∨ c.pc = .openControl) :
    Move env cfg token c i { c with pc := .gone verdict } .none
  | opened (hpc : c.pc = .openControl) :
    Move env cfg token c .opened { c with pc := .readDomain } .none
  -- The auth exchange and the key authorization.
  | timedOut (verdict : Verdict) (hpc : c.pc.inAuthExchange = true) :
    Move env cfg token c .timeout { c with pc := .gone verdict } .none
  | noKeyAuth {id : String} (hpc : c.pc = .readKeyAuth id) :
    Move env cfg token c .timeout { c with pc := .gone .dropped } .none
  | readFailed {i : Input} {e : String} (hread : c.read i = some (.error e, c))
    (hframe : c.pc.frame?.isSome = true) (hdone : c.pc.frame? ≠ some .done) :
    Move env cfg token c i { c with pc := .gone .dropped } .none
  | notUtf8 {i : Input} {bytes buffer : Bytes}
    (hread : c.read i = some (.ok bytes, { c with buffer := buffer })) (hpc : c.pc = .readDomain)
    (h : fromUtf8 bytes = none) :
    Move env cfg token c i { c with buffer := buffer, pc := .gone .dropped } .none
  | announced {i : Input} {bytes buffer : Bytes} {domain : String}
    (hread : c.read i = some (.ok bytes, { c with buffer := buffer })) (hpc : c.pc = .readDomain)
    (h : fromUtf8 bytes = some domain) :
    Move env cfg token c i
      { c with buffer := buffer, seen.domainBytes := bytes, pc := .readSig domain } .none
  | unidentified {i : Input} {bytes buffer : Bytes} {domain : String} {verdict : Verdict}
    (hread : c.read i = some (.ok bytes, { c with buffer := buffer }))
    (hpc : c.pc = .readSig domain) (h : checkIdentity env cfg domain bytes = .error verdict) :
    Move env cfg token c i { c with buffer := buffer, pc := .gone verdict } .none
  | identified {i : Input} {bytes buffer : Bytes} {domain id : String}
    (hread : c.read i = some (.ok bytes, { c with buffer := buffer }))
    (hpc : c.pc = .readSig domain) (h : checkIdentity env cfg domain bytes = .ok id)
    (htoken : c.seen.authToken = none) :
    Move env cfg token c i
      { c with buffer := buffer, seen.sigBytes := bytes, pc := .readKeyAuth id } .none
  | lookUp {i : Input} {bytes buffer source : Bytes} {domain id : String}
    (hread : c.read i = some (.ok bytes, { c with buffer := buffer }))
    (hpc : c.pc = .readSig domain) (h : checkIdentity env cfg domain bytes = .ok id)
    (htoken : c.seen.authToken = some source) :
    Move env cfg token c i
      { c with buffer := buffer, seen.sigBytes := bytes, pc := .lookupTxt domain id source } .none
  | unauthorized {answer : Option (List Bytes)} {source : Bytes} {domain id : String}
    {verdict : Verdict} (hpc : c.pc = .lookupTxt domain id source)
    (h : checkTxt env domain source answer = .error verdict) :
    Move env cfg token c (.txtAnswer answer) { c with pc := .gone verdict } .none
  | authorized {values : List Bytes} {source : Bytes} {domain id : String}
    (hpc : c.pc = .lookupTxt domain id source)
    (h : txtAuthorizes env.toPrimitives values source (hostOf domain) = true) :
    Move env cfg token c (.txtAnswer (some values))
      { c with seen.txt := some (txtName (hostOf domain), values), pc := .readKeyAuth id } .none
  | cached {i : Input} {buffer : Bytes} {id : String}
    (hread : c.read i = some (.ok [], { c with buffer := buffer })) (hpc : c.pc = .readKeyAuth id) :
    Move env cfg token c i { c with buffer := buffer, pc := .register id } .none
  | challenge {i : Input} {keyAuth buffer : Bytes} {id : String}
    (hread : c.read i = some (.ok keyAuth, { c with buffer := buffer }))
    (hpc : c.pc = .readKeyAuth id) (h : keyAuth ≠ []) :
    Move env cfg token c i { c with buffer := buffer, pc := .insertPending id } .none
  -- The ACME wait.
  | inserted {id : String} (hpc : c.pc = .insertPending id) :
    Move env cfg token c .run { c with pc := .sendAck id token } (.pendingInsert id token)
  | acked {id : String} {held : ℕ} (hpc : c.pc = .sendAck id held) :
    Move env cfg token c .ackSent { c with pc := .waitDone id held } .none
  | notAcked {id : String} {held : ℕ} (hpc : c.pc = .sendAck id held) :
    Move env cfg token c .lost { c with pc := .removePending id held false } .none
  | done {i : Input} {result : Except String Bytes} {buffer : Bytes} {id : String} {held : ℕ}
    (hread : c.read i = some (result, { c with buffer := buffer }))
    (hpc : c.pc = .waitDone id held) :
    Move env cfg token c i { c with buffer := buffer, pc := .removePending id held true } .none
  | removed {id : String} {held : ℕ} (hpc : c.pc = .removePending id held true) :
    Move env cfg token c .run { c with pc := .register id } (.pendingRemove id held)
  | abandoned {id : String} {held : ℕ} (hpc : c.pc = .removePending id held false) :
    Move env cfg token c .run { c with pc := .gone .dropped } (.pendingRemove id held)
  -- The registration and its end.
  | registered {id : String} (uid : ℕ) (hpc : c.pc = .register id) :
    Move env cfg token c (.drew uid) { c with pc := .registered id uid } (.push id uid)
  | closed {id : String} {uid : ℕ} (hpc : c.pc = .registered id uid) :
    Move env cfg token c .closed { c with pc := .unlink id uid } .none
  | unlinked {id : String} {uid : ℕ} (hpc : c.pc = .unlink id uid) :
    Move env cfg token c .run { c with pc := .sweep id } (.remove id uid)
  | swept {id : String} (hpc : c.pc = .sweep id) :
    Move env cfg token c .run { c with pc := .gone .dropped } (.removeIfEmpty id)

namespace Conn

variable {env : Env} {cfg : Config} {token : ℕ} {c c' : Conn} {i : Input} {op : MapOp}

/-- A read changes only the buffer, and that only if it returns something, which fits one frame. -/
theorem read_eq_some {result : Except String Bytes} (h : c.read i = some (result, c')) :
    (∃ buffer, c' = { c with buffer := buffer }) ∧
      (∀ payload, result = .ok payload → payload.length ≤ maxCtrlFrame) ∧
      ∀ e, result = .error e → c' = c := by
  unfold Conn.read at h
  split at h
  · split at h
    · rename_i payload rest _ hread
      cases h
      exact ⟨⟨rest, rfl⟩, by rintro _ ⟨⟩; exact length_of_ctrlRead hread, nofun⟩
    · cases h
      exact ⟨⟨c.buffer, rfl⟩, nofun, fun _ _ => rfl⟩
    · cases h
  · split at h
    · rw [Option.some.injEq, Prod.mk.injEq] at h
      obtain ⟨hbody, rfl⟩ := h
      exact ⟨⟨c.buffer, rfl⟩, fun payload hp => length_of_collectH2Body (Nat.zero_le _)
        (hbody.trans hp), fun _ _ => rfl⟩
    · cases h
  · cases h
    exact ⟨⟨c.buffer, rfl⟩, nofun, fun _ _ => rfl⟩
  · cases h

theorem length_of_read {payload : Bytes} (h : c.read i = some (.ok payload, c')) :
    payload.length ≤ maxCtrlFrame :=
  (read_eq_some h).2.1 payload rfl

theorem eq_of_read_error {e : String} (h : c.read i = some (.error e, c')) : c' = c :=
  (read_eq_some h).2.2 e rfl

theorem onDomain_move {result : Except String Bytes} {buffer : Bytes}
    (hread : c.read i = some (result, { c with buffer := buffer })) (hpc : c.pc = .readDomain) :
    Move env cfg token c i ({ c with buffer := buffer }.onDomain result) .none := by
  cases result with
  | error e =>
    obtain rfl : buffer = c.buffer := congrArg Conn.buffer (eq_of_read_error hread)
    exact .readFailed hread (by rw [hpc]; rfl) (by rw [hpc]; exact nofun)
  | ok bytes =>
    cases hutf8 : fromUtf8 bytes with
    | none =>
      simp only [Conn.onDomain, hutf8]
      exact .notUtf8 hread hpc hutf8
    | some domain =>
      simp only [Conn.onDomain, hutf8]
      exact .announced hread hpc hutf8

theorem onSig_move {result : Except String Bytes} {buffer : Bytes} {domain : String}
    (hread : c.read i = some (result, { c with buffer := buffer }))
    (hpc : c.pc = .readSig domain) :
    Move env cfg token c i ({ c with buffer := buffer }.onSig env cfg domain result) .none := by
  cases result with
  | error e =>
    obtain rfl : buffer = c.buffer := congrArg Conn.buffer (eq_of_read_error hread)
    exact .readFailed hread (by rw [hpc]; rfl) (by rw [hpc]; exact nofun)
  | ok bytes =>
    cases hid : checkIdentity env cfg domain bytes with
    | error verdict =>
      simp only [Conn.onSig, hid]
      exact .unidentified hread hpc hid
    | ok id =>
      simp only [Conn.onSig, hid]
      split
      · exact .identified hread hpc hid ‹_›
      · exact .lookUp hread hpc hid ‹_›

theorem onTxt_move {domain id : String} {source : Bytes} (hpc : c.pc = .lookupTxt domain id source)
    (answer : Option (List Bytes)) :
    Move env cfg token c (.txtAnswer answer) (c.onTxt env domain id source answer) .none := by
  unfold Conn.onTxt
  cases htxt : checkTxt env domain source answer with
  | error verdict => exact .unauthorized hpc htxt
  | ok u =>
    obtain ⟨values, rfl, hauth⟩ := checkTxt_eq_ok htxt
    exact .authorized hpc hauth

theorem onKeyAuth_move {result : Except String Bytes} {buffer : Bytes} {id : String}
    (hread : c.read i = some (result, { c with buffer := buffer }))
    (hpc : c.pc = .readKeyAuth id) :
    Move env cfg token c i ({ c with buffer := buffer }.onKeyAuth id result) .none := by
  cases result with
  | error e =>
    obtain rfl : buffer = c.buffer := congrArg Conn.buffer (eq_of_read_error hread)
    exact .readFailed hread (by rw [hpc]; rfl) (by rw [hpc]; exact nofun)
  | ok keyAuth =>
    cases keyAuth with
    | nil => exact .cached hread hpc
    | cons b bs => exact .challenge hread hpc (List.cons_ne_nil b bs)

theorem authTimeout_move (hpc : c.pc.inAuthExchange = true) :
    Move env cfg token c .timeout c.authTimeout .none := by
  unfold Conn.authTimeout
  cases c.transport with
  | quic => exact .timedOut _ hpc
  | h2 => exact .timedOut _ hpc

/-- A step that reads is one that has read. -/
theorem read_move {f : Conn → Except String Bytes → Conn}
    (h : ((c.read i).map fun (result, c) => f c result) = some c')
    (hf : ∀ buffer result, c.read i = some (result, { c with buffer := buffer }) →
      Move env cfg token c i (f { c with buffer := buffer } result) .none) :
    Move env cfg token c i c' .none := by
  obtain ⟨⟨result, c₁⟩, hread, rfl⟩ := Option.map_eq_some_iff.1 h
  obtain ⟨⟨buffer, rfl⟩, -⟩ := read_eq_some hread
  exact hf buffer result hread

theorem authStep_move (h : c.authStep env cfg i = some c') : Move env cfg token c i c' .none := by
  unfold Conn.authStep at h
  split at h
  · rename_i cert _ hpc
    cases hcheck : checkHandler env cfg cert with
    | error verdict =>
      rw [hcheck] at h
      cases h
      exact .refused verdict (.inl hpc)
    | ok source =>
      rw [hcheck] at h
      cases h
      exact .accepted hpc hcheck
  · cases h; exact .refused _ (.inl ‹_›)
  · cases h; exact .refused _ (.inl ‹_›)
  · cases h; exact .refused _ (.inl ‹_›)
  · cases h; exact .opened ‹_›
  · cases h; exact .refused _ (.inr ‹_›)
  · rename_i hpc
    cases h
    unfold Conn.authTimeout
    cases c.transport with
    | quic => exact .refused _ (.inr hpc)
    | h2 => exact .refused _ (.inr hpc)
  · cases h; exact authTimeout_move (by rw [‹c.pc = _›]; rfl)
  · exact read_move h fun _ _ hread => onDomain_move hread ‹_›
  · cases h; exact authTimeout_move (by rw [‹c.pc = _›]; rfl)
  · exact read_move (f := fun c => c.onSig env cfg _) h fun _ _ hread => onSig_move hread ‹_›
  · cases h; exact authTimeout_move (by rw [‹c.pc = _›]; rfl)
  · cases h; exact onTxt_move ‹_› _
  · cases h; exact .noKeyAuth ‹_›
  · exact read_move (f := fun c => c.onKeyAuth _) h fun _ _ hread => onKeyAuth_move hread ‹_›
  · cases h

theorem serveStep_move (h : c.serveStep token i = some (c', op)) :
    Move env cfg token c i c' op := by
  unfold Conn.serveStep at h
  split at h
  · cases h; exact .inserted ‹_›
  · cases h; exact .acked ‹_›
  · cases h; exact .notAcked ‹_›
  · obtain ⟨⟨result, c₁⟩, hread, heq⟩ := Option.map_eq_some_iff.1 h
    obtain ⟨⟨buffer, rfl⟩, -⟩ := read_eq_some hread
    cases heq
    exact .done hread ‹_›
  · rename_i completed _
    cases h
    cases completed with
    | true => exact .removed ‹_›
    | false => exact .abandoned ‹_›
  · cases h; exact .registered _ ‹_›
  · cases h; exact .closed ‹_›
  · cases h; exact .unlinked ‹_›
  · cases h; exact .swept ‹_›
  · cases h

theorem step_move (h : c.step env cfg token i = some (c', op)) : Move env cfg token c i c' op := by
  unfold Conn.step at h
  split at h
  · split_ifs at h
    cases h
    exact .data _
  · cases h
    exact .fin
  · split at h
    · rename_i hauth
      cases h
      exact authStep_move hauth
    · exact serveStep_move h

end Conn

/-! ### Steps of the relay -/

theorem State.apply_pendingRemove (s : State) (k : ℕ) (id : String) (token : ℕ) :
    s.apply k (.pendingRemove id token) =
      { s with pending := if (s.pending id).map Prod.fst = some token then
          Function.update s.pending id none else s.pending } := by
  simp only [State.apply]
  cases s.pending id with
  | none => rfl
  | some entry =>
    simp only [Option.map_some, Option.some.injEq]
    split_ifs <;> rfl

theorem State.apply_remove (s : State) (k : ℕ) (id : String) (uid : ℕ) :
    s.apply k (.remove id uid) =
      { s with
        agents := Function.update s.agents id ((s.agents id).map (·.filter (·.1 != uid))) } := by
  simp only [State.apply]
  cases hpool : s.agents id with
  | none =>
    have hsame : Function.update s.agents id none = s.agents := by
      rw [← hpool, Function.update_eq_self]
    simp only [Option.map_none, hsame]
  | some pool => rfl

theorem State.apply_removeIfEmpty (s : State) (k : ℕ) (id : String) :
    s.apply k (.removeIfEmpty id) =
      { s with agents := Function.update s.agents id ((s.agents id).filter (!·.isEmpty)) } := by
  simp only [State.apply]
  split_ifs with hempty
  · rw [hempty]
    rfl
  · have hfull : (s.agents id).filter (!·.isEmpty) = s.agents id := by
      cases hpool : s.agents id with
      | none => rfl
      | some pool =>
        rw [hpool, Option.some.injEq] at hempty
        exact Option.filter_some_pos (by simpa using hempty)
    rw [hfull, Function.update_eq_self]

/-- An operation on a map leaves the connections as they are. -/
theorem State.conns_apply (s : State) (k : ℕ) (op : MapOp) : (s.apply k op).conns = s.conns := by
  cases op with
  | none | pendingInsert | push => rfl
  | pendingRemove id token => rw [State.apply_pendingRemove]
  | remove id uid => rw [State.apply_remove]
  | removeIfEmpty id => rw [State.apply_removeIfEmpty]

/-- An input is a step of its connection, and what that does to the maps. -/
theorem step_input {env : Env} {cfg : Config} {s t : State} {k : ℕ} {i : Input}
    (h : step env cfg s (.input k i) = some t) :
    ∃ c c' op, s.conns[k]? = some c ∧ c.Move env cfg s.nextToken i c' op ∧
      t = { s with conns := s.conns.set k c' }.apply k op := by
  obtain ⟨c, hc, hstep⟩ := Option.bind_eq_some_iff.1 h
  obtain ⟨⟨c', op⟩, hconn, rfl⟩ := Option.map_eq_some_iff.1 hstep
  exact ⟨c, c', op, hc, Conn.step_move hconn, rfl⟩

end QuicTunnel.Relay
