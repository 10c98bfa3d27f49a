import QuicTunnel.Protocol.Exchange

/-!
# The QUIC exchange in step

What holds in every state of the QUIC exchange, whatever `prepare` returned:

* `Stream`: what the relay has read is a prefix of what the client has sent, each frame under the
  step it was sent for, and the rest is in the relay's buffer;
* `Plan`: what the client has sent and what its script still sends are together the frames its
  `PrepareResult` asks for;
* `Branch`: which branch each side has taken.  The client's is decided by the constructor it got
  from `prepare`, the relay's by the bytes it has read;
* `Acks`: the ack is sent once, in the ACME wait, and is read as such.

`InStep` is what the two sides owe each other.  It follows from these if the two branches coincide
(`Inv.inStep`).
-/

namespace QuicTunnel.Protocol.Quic

open Relay (Env Config Conn Frame Input MapOp)
open Transition

variable {env : Env} {cfg : Config} {script : Script} {s t : State}

/-! ### What the client sends -/

/-- The last frame, of a client with a challenge. -/
def doneOf (prepared : Option PrepareResult) : List Frame :=
  if challengeOf prepared then [.done] else []

/-- The frames a client sends, in order. -/
def frames (prepared : Option PrepareResult) : List Frame :=
  [.domain, .sig, .keyAuth] ++ doneOf prepared

/-- The frames a client has still to send, if nothing fails. -/
def Pc.toSend (prepared : Option PrepareResult) : Pc → List Frame
  | .openBi | .sendDomain => [.domain, .sig, .keyAuth] ++ doneOf prepared
  | .sendSig => [.sig, .keyAuth] ++ doneOf prepared
  | .prepare | .sendKeyAuth _ _ => [.keyAuth] ++ doneOf prepared
  | .waitAck | .serve | .sendDone => [.done]
  | _ => []

def Pc.isFailed : Pc → Bool
  | .failed _ => true
  | _ => false

/-- The client is in its challenge phase. -/
def Pc.inChallenge : Pc → Bool
  | .waitAck | .serve | .sendDone => true
  | _ => false

structure Plan (script : Script) (s : State) : Prop where
  sends : s.client.isFailed = false →
    s.sent.map Prod.fst ++ s.client.toSend script.prepared = frames script.prepared
  sent : s.sent.map Prod.fst <+: frames script.prepared
  bounded : ∀ frame ∈ s.sent, frame.2.length ≤ maxCtrlFrame
  meant : ∀ frame ∈ s.sent, Meant script (utf8 "done") frame.1 frame.2
  /-- The branch is the one of the `PrepareResult`. -/
  sendKeyAuth : ∀ challenge ka, s.client = .sendKeyAuth challenge ka →
    challenge = challengeOf script.prepared ∧ ka = keyAuthOf script.prepared
  inChallenge : s.client.inChallenge = true → challengeOf script.prepared = true
  challenged : s.challenged = (challengeOf script.prepared && decide (3 ≤ s.sent.length))

theorem plan_init : Plan script init where
  sends _ := rfl
  sent := List.nil_prefix
  bounded := by rintro frame ⟨⟩
  meant := by rintro frame ⟨⟩
  sendKeyAuth := by rintro challenge ka ⟨⟩
  inChallenge := by rintro ⟨⟩
  challenged := by simp [init]

theorem length_of_ctrlWrite {payload bytes : Bytes} (h : ctrlWrite payload = .ok bytes) :
    payload.length ≤ maxCtrlFrame := by
  unfold ctrlWrite at h
  split_ifs at h with hle
  exact hle

/-- The client sends the next frame of its plan and goes on. -/
theorem Plan.send (h : Plan script s) {frame : Frame} {payload bytes : Bytes} {pc : Pc}
    (hwrite : ctrlWrite payload = .ok bytes) (hclient : t.client = pc)
    (hsent : t.sent = s.sent ++ [(frame, payload)]) (hlive : s.client.isFailed = false)
    (hnext : s.client.toSend script.prepared = frame :: pc.toSend script.prepared)
    (hmeant : Meant script (utf8 "done") frame payload)
    (hpc : ∀ challenge ka, pc ≠ .sendKeyAuth challenge ka)
    (hin : pc.inChallenge = true → challengeOf script.prepared = true)
    (hchallenged : t.challenged =
      (challengeOf script.prepared && decide (3 ≤ s.sent.length + 1))) : Plan script t where
  sends _ := by
    rw [← h.sends hlive, hnext, hsent, hclient]
    simp
  sent := by
    rw [← h.sends hlive, hnext, hsent]
    simp
  bounded := by
    intro f hf
    rcases List.mem_append.1 (hsent ▸ hf) with hold | hnew
    · exact h.bounded f hold
    · cases List.mem_singleton.1 hnew
      exact length_of_ctrlWrite hwrite
  meant := by
    intro f hf
    rcases List.mem_append.1 (hsent ▸ hf) with hold | hnew
    · exact h.meant f hold
    · cases List.mem_singleton.1 hnew
      exact hmeant
  sendKeyAuth challenge ka hc := absurd (hclient ▸ hc) (hpc challenge ka)
  inChallenge := hclient ▸ hin
  challenged := by rw [hchallenged, hsent, List.length_append]; rfl

/-- The client goes on without sending. -/
theorem Plan.goto (h : Plan script s) {pc : Pc} (hclient : t.client = pc)
    (hsent : t.sent = s.sent) (hchallenged : t.challenged = s.challenged)
    (hnext : pc.isFailed = false → s.client.isFailed = false ∧
      s.client.toSend script.prepared = pc.toSend script.prepared)
    (hpc : ∀ challenge ka, pc = .sendKeyAuth challenge ka →
      challenge = challengeOf script.prepared ∧ ka = keyAuthOf script.prepared)
    (hin : pc.inChallenge = true → challengeOf script.prepared = true) : Plan script t where
  sends hlive := by
    rw [hclient] at hlive ⊢
    rw [hsent, ← (hnext hlive).2]
    exact h.sends (hnext hlive).1
  sent := hsent ▸ h.sent
  bounded := hsent ▸ h.bounded
  meant := hsent ▸ h.meant
  sendKeyAuth := hclient ▸ hpc
  inChallenge := hclient ▸ hin
  challenged := by rw [hchallenged, hsent]; exact h.challenged

/-- How many frames the client has sent where it is. -/
theorem Plan.count (h : Plan script s) {n : ℕ} (hlive : s.client.isFailed = false)
    (hn : n + (s.client.toSend script.prepared).length = (frames script.prepared).length) :
    s.sent.length = n := by
  have hsends := congrArg List.length (h.sends hlive)
  rw [List.length_append, List.length_map] at hsends
  omega

theorem Plan.client (h : Plan script s) (hmove : ClientMove script s t) : Plan script t := by
  cases hmove with
  | failed cause => exact h.goto rfl rfl rfl nofun nofun nofun
  | opened hpc => exact h.goto rfl rfl rfl (fun _ => by rw [hpc]; exact ⟨rfl, rfl⟩) nofun nofun
  | prepared hpc =>
    refine h.goto rfl rfl rfl (fun _ => by rw [hpc]; exact ⟨rfl, rfl⟩) ?_ nofun
    rintro challenge ka ⟨⟩
    exact ⟨rfl, rfl⟩
  | ack hpc =>
    have hin := h.inChallenge (by rw [hpc]; rfl)
    exact h.goto rfl rfl rfl (fun _ => by rw [hpc]; exact ⟨rfl, rfl⟩) nofun fun _ => hin
  | served hpc =>
    have hin := h.inChallenge (by rw [hpc]; rfl)
    exact h.goto rfl rfl rfl (fun _ => by rw [hpc]; exact ⟨rfl, rfl⟩) nofun fun _ => hin
  | accepted hpc => exact h.goto rfl rfl rfl (fun _ => by rw [hpc]; exact ⟨rfl, rfl⟩) nofun nofun
  | built hpc => exact h.goto rfl rfl rfl (fun _ => by rw [hpc]; exact ⟨rfl, rfl⟩) nofun nofun
  | domain hpc hwrite =>
    have hcount : s.sent.length = 0 :=
      h.count (by rw [hpc]; rfl) (by rw [hpc]; simp [Pc.toSend, frames])
    refine h.send hwrite rfl rfl (by rw [hpc]; rfl) (by rw [hpc]; rfl) rfl nofun nofun ?_
    simp [h.challenged, hcount]
  | sig hpc hsig hwrite =>
    have hcount : s.sent.length = 1 :=
      h.count (by rw [hpc]; rfl) (by rw [hpc]; simp [Pc.toSend, frames]; omega)
    refine h.send hwrite rfl rfl (by rw [hpc]; rfl) (by rw [hpc]; rfl) hsig nofun nofun ?_
    simp [h.challenged, hcount]
  | challenge hpc hwrite =>
    obtain ⟨hchallenge, rfl⟩ := h.sendKeyAuth _ _ hpc
    have hcount : s.sent.length = 2 :=
      h.count (by rw [hpc]; rfl) (by rw [hpc]; simp [Pc.toSend, frames]; omega)
    refine h.send hwrite rfl rfl (by rw [hpc]; rfl) ?_ rfl nofun
      (fun _ => hchallenge.symm) ?_
    · rw [hpc, Pc.toSend, doneOf, if_pos hchallenge.symm]
      rfl
    · simp [← hchallenge, hcount]
  | cached hpc hwrite =>
    obtain ⟨hchallenge, rfl⟩ := h.sendKeyAuth _ _ hpc
    refine h.send hwrite rfl rfl (by rw [hpc]; rfl) ?_ rfl nofun nofun ?_
    · rw [hpc, Pc.toSend, doneOf, if_neg (by simp [← hchallenge])]
      rfl
    · simp [h.challenged, ← hchallenge]
  | done hpc hwrite =>
    have hin := h.inChallenge (by rw [hpc]; rfl)
    have hcount : s.sent.length = 3 :=
      h.count (by rw [hpc]; rfl) (by rw [hpc]; simp [Pc.toSend, frames, doneOf, hin])
    refine h.send hwrite rfl rfl (by rw [hpc]; rfl) (by rw [hpc]; rfl) rfl nofun nofun ?_
    simp [h.challenged, hcount]

theorem Plan.relay (h : Plan script s) (i : Input) (c : Conn) : Plan script (s.onRelay i c) :=
  ⟨h.sends, h.sent, h.bounded, h.meant, h.sendKeyAuth, h.inChallenge, h.challenged⟩

/-! ### The control stream -/

/-- The position of a frame in the exchange. -/
def index : Frame → ℕ
  | .domain => 0
  | .sig => 1
  | .keyAuth => 2
  | .done => 3

/-- How many frames a handler has read where this is fixed. -/
def position : Relay.Pc → Option ℕ
  | .handshake | .openControl | .readDomain => some 0
  | .readSig _ => some 1
  | .lookupTxt _ _ _ | .readKeyAuth _ => some 2
  | .insertPending _ | .sendAck _ _ | .waitDone _ _ => some 3
  | _ => none

/-- The handler has read the key authorization, whatever it has read since. -/
def pastKeyAuth : Relay.Pc → Bool
  | .removePending _ _ _ | .register _ | .registered _ _ | .unlink _ _ | .sweep _ => true
  | _ => false

/-- Frames as they are on the stream. -/
def wire (frames : List (Frame × Bytes)) : Bytes :=
  frames.flatMap fun frame => toBeBytes frame.2.length ++ frame.2

theorem wire_append_singleton (frames : List (Frame × Bytes)) (frame : Frame)
    {payload bytes : Bytes} (h : ctrlWrite payload = .ok bytes) :
    wire (frames ++ [(frame, payload)]) = wire frames ++ bytes := by
  unfold ctrlWrite at h
  split_ifs at h
  cases h
  simp [wire]

/-- The first frame on the stream is the first that is read. -/
theorem ctrlRead_wire_cons {frame : Frame × Bytes} (h : frame.2.length ≤ maxCtrlFrame)
    (more : List (Frame × Bytes)) (fin : Bool) :
    ctrlRead (wire (frame :: more)) fin = .frame frame.2 (wire more) := by
  have hwrite : ctrlWrite frame.2 = .ok (toBeBytes frame.2.length ++ frame.2) := if_pos h
  rw [wire, List.flatMap_cons, ctrlRead_ctrlWrite hwrite]
  rfl

theorem position_of_frame {pc : Relay.Pc} {frame : Frame} (h : pc.frame? = some frame) :
    position pc = some (index frame) := by
  cases pc <;> first | cases h; rfl | cases h

theorem index_of_frames {prepared : Option PrepareResult} {k : ℕ} {frame : Frame}
    (h : (frames prepared)[k]? = some frame) : index frame = k := by
  unfold frames doneOf at h
  rcases k with _ | _ | _ | _ | k
  · cases h; rfl
  · cases h; rfl
  · cases h; rfl
  · split_ifs at h <;> cases h
    rfl
  · split_ifs at h <;> cases h

/-- Frames are sent in the order of the exchange. -/
theorem Plan.order (h : Plan script s) {k : ℕ} {frame : Frame × Bytes}
    (hget : s.sent[k]? = some frame) : index frame.1 = k := by
  obtain ⟨rest, hrest⟩ := h.sent
  have hk : k < (s.sent.map Prod.fst).length := by
    rw [List.length_map]
    exact (List.getElem?_eq_some_iff.1 hget).1
  have hframe : (frames script.prepared)[k]? = some frame.1 := by
    rw [← hrest, List.getElem?_append_left hk, List.getElem?_map, hget]
    rfl
  exact index_of_frames hframe

structure Stream (s : State) : Prop where
  quic : s.relay.transport = .quic
  reads : s.reads <+: s.sent
  buffer : s.relay.buffer = wire (s.sent.drop s.reads.length)
  position : ∀ n, position s.relay.pc = some n → s.reads.length = n
  past : pastKeyAuth s.relay.pc = true → 3 ≤ s.reads.length

theorem stream_init : Stream init where
  quic := rfl
  reads := List.nil_prefix
  buffer := rfl
  position := by rintro n ⟨⟩; rfl
  past := by rintro ⟨⟩

/-- A frame that is read is the next one that was sent. -/
theorem Stream.next (h : Stream s) (hplan : Plan script s) {payload rest : Bytes}
    (hread : ctrlRead s.relay.buffer s.relay.fin = .frame payload rest) :
    ∃ frame, s.sent[s.reads.length]? = some (frame, payload) ∧
      rest = wire (s.sent.drop (s.reads.length + 1)) := by
  rw [h.buffer] at hread
  cases hdrop : s.sent.drop s.reads.length with
  | nil =>
    -- Nothing is left to read.
    rw [hdrop] at hread
    cases hfin : s.relay.fin <;> simp [wire, ctrlRead, hfin] at hread
  | cons frame more =>
    have hget : s.sent[s.reads.length]? = some frame := by
      rw [← List.head?_drop, hdrop, List.head?_cons]
    have hmore : s.sent.drop (s.reads.length + 1) = more := by
      rw [← List.tail_drop, hdrop, List.tail_cons]
    rw [hdrop, ctrlRead_wire_cons (hplan.bounded frame (List.mem_of_getElem? hget))] at hread
    cases hread
    exact ⟨frame.1, hget, by rw [hmore]⟩

/-- A read fails only at the end of the stream. -/
theorem Stream.fin_of_error (h : Stream s) (hplan : Plan script s) {e : String}
    (hread : ctrlRead s.relay.buffer s.relay.fin = .error e) : s.relay.fin = true := by
  rw [h.buffer] at hread
  cases hdrop : s.sent.drop s.reads.length with
  | nil =>
    rw [hdrop] at hread
    cases hfin : s.relay.fin with
    | true => rfl
    | false => simp [wire, ctrlRead, hfin] at hread
  | cons frame more =>
    have hmem : frame ∈ s.sent := List.mem_of_mem_drop (hdrop ▸ List.mem_cons_self)
    rw [hdrop, ctrlRead_wire_cons (hplan.bounded frame hmem)] at hread
    cases hread

/-- The frame read at a point of the handler is the one meant for it. -/
theorem Stream.next_of_frame (h : Stream s) (hplan : Plan script s) {frame : Frame}
    (hframe : s.relay.pc.frame? = some frame) {payload rest : Bytes}
    (hread : ctrlRead s.relay.buffer s.relay.fin = .frame payload rest) :
    s.sent[s.reads.length]? = some (frame, payload) ∧
      rest = wire (s.sent.drop (s.reads.length + 1)) := by
  obtain ⟨sentFrame, hget, hrest⟩ := h.next hplan hread
  have hindex : index sentFrame = index frame :=
    (hplan.order hget).trans (h.position _ (position_of_frame hframe))
  have heq : sentFrame = frame := by
    cases sentFrame <;> cases frame <;> first | rfl | cases hindex
  exact ⟨heq ▸ hget, hrest⟩

theorem Stream.send (h : Stream s) {frame : Frame} {payload bytes : Bytes}
    (hwrite : ctrlWrite payload = .ok bytes)
    (hrelay : t.relay = { s.relay with buffer := s.relay.buffer ++ bytes })
    (hsent : t.sent = s.sent ++ [(frame, payload)]) (hreads : t.reads = s.reads) : Stream t where
  quic := by rw [hrelay]; exact h.quic
  reads := by
    rw [hreads, hsent]
    exact h.reads.trans (List.prefix_append _ _)
  buffer := by
    rw [hrelay, hsent, hreads, List.drop_append_of_le_length h.reads.length_le,
      wire_append_singleton _ _ hwrite, ← h.buffer]
  position := by
    rw [hrelay, hreads]
    exact h.position
  past := by
    rw [hrelay, hreads]
    exact h.past

theorem Stream.keep (h : Stream s) (htransport : t.relay.transport = s.relay.transport)
    (hpc : t.relay.pc = s.relay.pc) (hbuffer : t.relay.buffer = s.relay.buffer)
    (hsent : t.sent = s.sent) (hreads : t.reads = s.reads) : Stream t where
  quic := by rw [htransport]; exact h.quic
  reads := by rw [hreads, hsent]; exact h.reads
  buffer := by rw [hbuffer, hsent, hreads]; exact h.buffer
  position := by rw [hpc, hreads]; exact h.position
  past := by rw [hpc, hreads]; exact h.past

theorem Stream.client (h : Stream s) (hmove : ClientMove script s t) : Stream t := by
  cases hmove with
  | domain hpc hwrite | sig hpc hsig hwrite | challenge hpc hwrite | cached hpc hwrite
  | done hpc hwrite => exact h.send hwrite rfl rfl rfl
  | failed | accepted | opened | prepared | ack | served | built => exact h.keep rfl rfl rfl rfl rfl

/-! ### The relay's reads -/

/-- On QUIC a successful read is a frame from the buffer. -/
theorem ctrlRead_of_read {c : Conn} (hquic : c.transport = .quic) {i : Input}
    {payload buffer : Bytes} (hread : c.read i = some (.ok payload, { c with buffer := buffer })) :
    i = .poll ∧ ctrlRead c.buffer c.fin = .frame payload buffer := by
  cases i with
  | poll =>
    simp only [Conn.read, hquic] at hread
    split at hread
    · cases hread
      exact ⟨rfl, ‹_›⟩
    · cases hread
    · cases hread
  | response chunks =>
    simp only [Conn.read, hquic] at hread
    cases hread
  | _ => cases hread

theorem frameRead_of_ok (hquic : s.relay.transport = .quic) {i : Input} {payload buffer : Bytes}
    {frame : Frame} (hread : s.relay.read i = some (.ok payload, { s.relay with buffer := buffer }))
    (hframe : s.relay.pc.frame? = some frame) : s.frameRead i = [(frame, payload)] := by
  obtain ⟨rfl, hctrl⟩ := ctrlRead_of_read hquic hread
  simp only [State.frameRead, hframe, hctrl]

theorem frameRead_of_error {i : Input} {e : String} {c : Conn}
    (hread : s.relay.read i = some (.error e, c)) : s.frameRead i = [] := by
  cases i with
  | poll =>
    simp only [Conn.read] at hread
    split at hread
    · cases hread
    · rename_i hctrl
      simp only [State.frameRead, hctrl]
      cases s.relay.pc.frame? <;> rfl
    · cases hread
  | _ => rfl

theorem frameRead_of_frame_eq_none {i : Input} (h : s.relay.pc.frame? = none) :
    s.frameRead i = [] := by
  cases i <;> simp [State.frameRead, h]

/-- The handler reads a frame and goes on. -/
theorem Stream.took (h : Stream s) (hplan : Plan script s) {i : Input} {payload buffer : Bytes}
    {frame : Frame} {c : Conn}
    (hread : s.relay.read i = some (.ok payload, { s.relay with buffer := buffer }))
    (hframe : s.relay.pc.frame? = some frame) (htransport : c.transport = s.relay.transport)
    (hbuffer : c.buffer = buffer)
    (hposition : ∀ n, Quic.position c.pc = some n → n = index frame + 1)
    (hpast : pastKeyAuth c.pc = true → 3 ≤ index frame + 1) : Stream (s.onRelay i c) := by
  have hcount := h.position _ (position_of_frame hframe)
  obtain ⟨hget, hrest⟩ := h.next_of_frame hplan hframe (ctrlRead_of_read h.quic hread).2
  have hreads : (s.onRelay i c).reads = s.reads ++ [(frame, payload)] := by
    rw [← frameRead_of_ok h.quic hread hframe]
    rfl
  have hlen : (s.onRelay i c).reads.length = s.reads.length + 1 := by
    rw [hreads, List.length_append]
    rfl
  refine ⟨htransport.trans h.quic, ?_, ?_, ?_, ?_⟩
  · -- The frame read is the one that follows those read before.
    show _ <+: s.sent
    rw [hreads, List.prefix_iff_eq_take, List.length_append, List.length_singleton,
      List.take_add_one, hget, ← List.prefix_iff_eq_take.1 h.reads]
    rfl
  · rw [hlen]
    exact hbuffer.trans hrest
  · intro n hn
    rw [hlen, hcount]
    exact (hposition n hn).symm
  · intro hp
    rw [hlen, hcount]
    exact hpast hp

/-- The handler goes on without reading. -/
theorem Stream.went (h : Stream s) {i : Input} {c : Conn} (hnone : s.frameRead i = [])
    (htransport : c.transport = s.relay.transport) (hbuffer : c.buffer = s.relay.buffer)
    (hposition : ∀ n, Quic.position c.pc = some n → Quic.position s.relay.pc = some n)
    (hpast : pastKeyAuth c.pc = true →
      Quic.position s.relay.pc = some 3 ∨ pastKeyAuth s.relay.pc = true) :
    Stream (s.onRelay i c) := by
  have hreads : (s.onRelay i c).reads = s.reads := by
    show s.reads ++ s.frameRead i = s.reads
    rw [hnone, List.append_nil]
  refine ⟨htransport.trans h.quic, ?_, ?_, ?_, ?_⟩
  · rw [hreads]
    exact h.reads
  · rw [hreads]
    exact hbuffer.trans h.buffer
  · intro n hn
    rw [hreads]
    exact h.position n (hposition n hn)
  · intro hp
    rw [hreads]
    rcases hpast hp with hthree | hpast
    · exact (h.position 3 hthree).ge
    · exact h.past hpast

theorem Stream.relay (h : Stream s) (hplan : Plan script s) {i : Input} {c : Conn} {op : MapOp}
    (hadmits : s.admits i = true) (hmove : s.relay.Move env cfg 0 i c op) :
    Stream (s.onRelay i c) := by
  cases hmove with
  | data | fin => cases hadmits
  | notUtf8 hread hpc | announced hread hpc | unidentified hread hpc | identified hread hpc
  | lookUp hread hpc | cached hread hpc | challenge hread hpc =>
    refine h.took hplan hread (by rw [hpc]; rfl) rfl rfl ?_ ?_
    · rintro n ⟨⟩
      try rfl
    · rintro ⟨⟩
      try exact le_rfl
  | @done i result buffer id held hread hpc =>
    cases result with
    | ok payload =>
      refine h.took hplan hread (by rw [hpc]; rfl) rfl rfl (by rintro n ⟨⟩) ?_
      exact fun _ => by decide
    | error e =>
      have hbuffer : buffer = s.relay.buffer := congrArg Conn.buffer (Conn.eq_of_read_error hread)
      exact h.went (frameRead_of_error hread) rfl hbuffer (by rintro n ⟨⟩)
        fun _ => .inl (by rw [hpc]; rfl)
  | readFailed hread => exact h.went (frameRead_of_error hread) rfl rfl (by rintro n ⟨⟩) nofun
  | refused verdict hpc =>
    have hnone : s.relay.pc.frame? = none := by
      rcases hpc with hpc | hpc <;> rw [hpc] <;> rfl
    exact h.went (frameRead_of_frame_eq_none hnone) rfl rfl (by rintro n ⟨⟩) nofun
  | timedOut | noKeyAuth | unauthorized | abandoned | swept =>
    exact h.went rfl rfl rfl (by rintro n ⟨⟩) nofun
  | accepted hpc | opened hpc | authorized hpc | inserted hpc | acked hpc =>
    refine h.went rfl rfl rfl ?_ nofun
    rintro n ⟨⟩
    rw [hpc]
    rfl
  | notAcked hpc => exact h.went rfl rfl rfl (by rintro n ⟨⟩) fun _ => .inl (by rw [hpc]; rfl)
  | removed hpc | registered uid hpc | closed hpc | unlinked hpc =>
    exact h.went rfl rfl rfl (by rintro n ⟨⟩) fun _ => .inr (by rw [hpc]; rfl)

/-! ### The two branches -/

structure Branch (script : Script) (s : State) : Prop where
  /-- The relay waits if it has read a key authorization that is not empty. -/
  waited : s.waited =
    (decide (3 ≤ s.reads.length) && !(keyAuthOf script.prepared).isEmpty)
  acmeWait : Quic.position s.relay.pc = some 3 → s.waited = true

theorem branch_init : Branch script init where
  waited := rfl
  acmeWait := nofun

/-- What the relay reads as the key authorization is what `prepare` returned. -/
theorem Stream.keyAuth (h : Stream s) (hplan : Plan script s) {i : Input} {payload buffer : Bytes}
    {id : String} (hpc : s.relay.pc = .readKeyAuth id)
    (hread : s.relay.read i = some (.ok payload, { s.relay with buffer := buffer })) :
    payload = keyAuthOf script.prepared := by
  have hframe : s.relay.pc.frame? = some .keyAuth := by rw [hpc]; rfl
  obtain ⟨hget, -⟩ := h.next_of_frame hplan hframe (ctrlRead_of_read h.quic hread).2
  exact hplan.meant _ (List.mem_of_getElem? hget)

theorem Branch.client (h : Branch script s) (hmove : ClientMove script s t) : Branch script t := by
  cases hmove <;> exact ⟨h.waited, h.acmeWait⟩

/-- The branch of the relay stays as it is. -/
theorem Branch.went (h : Branch script s) {i : Input} {c : Conn}
    (hpc : c.pc.isInsertPending = false)
    (hreads : 3 ≤ (s.reads ++ s.frameRead i).length ↔ 3 ≤ s.reads.length)
    (hposition : Quic.position c.pc = some 3 → Quic.position s.relay.pc = some 3) :
    Branch script (s.onRelay i c) := by
  have hwaited : (s.onRelay i c).waited = s.waited := by
    show (s.waited || c.pc.isInsertPending) = s.waited
    rw [hpc, Bool.or_false]
  refine ⟨?_, fun hp => hwaited.trans (h.acmeWait (hposition hp))⟩
  rw [hwaited, h.waited, ← decide_eq_decide.2 hreads]
  rfl

theorem Branch.relay (h : Branch script s) (hplan : Plan script s) (hstream : Stream s) {i : Input}
    {c : Conn} {op : MapOp} (hadmits : s.admits i = true)
    (hmove : s.relay.Move env cfg 0 i c op) : Branch script (s.onRelay i c) := by
  cases hmove with
  | data | fin => cases hadmits
  | notUtf8 hread hpc | announced hread hpc | unidentified hread hpc | identified hread hpc
  | lookUp hread hpc =>
    -- At most two frames are read by now.
    have hcount := hstream.position _ (by rw [hpc]; rfl)
    refine h.went rfl ?_ nofun
    rw [frameRead_of_ok hstream.quic hread (by rw [hpc]; rfl), List.length_append,
      List.length_singleton, hcount]
    decide
  | cached hread hpc =>
    have hcount := hstream.position _ (by rw [hpc]; rfl)
    have hkeyAuth := hstream.keyAuth hplan hpc hread
    refine ⟨?_, nofun⟩
    show (s.waited || false) = _
    rw [h.waited, ← hkeyAuth]
    simp
  | challenge hread hpc hne =>
    have hcount := hstream.position _ (by rw [hpc]; rfl)
    have hkeyAuth := hstream.keyAuth hplan hpc hread
    refine ⟨?_, fun _ => Bool.or_true _⟩
    show (s.waited || true) =
      (decide (3 ≤ (s.reads ++ s.frameRead i).length) && !(keyAuthOf script.prepared).isEmpty)
    rw [frameRead_of_ok hstream.quic hread (by rw [hpc]; rfl), List.length_append, hcount,
      ← hkeyAuth]
    simp [hne]
  | @done _ result _ _ _ hread hpc =>
    have hcount := hstream.position 3 (by rw [hpc]; rfl)
    refine h.went rfl ?_ nofun
    rw [List.length_append, hcount]
    omega
  | readFailed hread =>
    exact h.went rfl (by rw [frameRead_of_error hread, List.append_nil]) nofun
  | refused verdict hpc =>
    have hnone : s.relay.pc.frame? = none := by
      rcases hpc with hpc | hpc <;> rw [hpc] <;> rfl
    exact h.went rfl (by rw [frameRead_of_frame_eq_none hnone, List.append_nil]) nofun
  | inserted hpc | acked hpc =>
    exact h.went rfl (by simp [State.frameRead]) fun _ => by rw [hpc]; rfl
  | _ => exact h.went rfl (by simp [State.frameRead]) nofun

/-! ### The ack -/

/-- The client has not read the ack yet. -/
def Pc.beforeAck : Pc → Bool
  | .openBi | .sendDomain | .sendSig | .prepare | .sendKeyAuth _ _ | .waitAck => true
  | _ => false

/-- The ack may have been sent. -/
def afterAck : Relay.Pc → Bool
  | .waitDone _ _ | .removePending _ _ true | .register _ | .registered _ _ | .unlink _ _ | .sweep _
  | .gone _ => true
  | _ => false

/-- The ack has been sent if the handler was in the ACME wait. -/
def ackDue : Relay.Pc → Bool
  | .waitDone _ _ | .removePending _ _ true | .register _ | .registered _ _ | .unlink _ _
  | .sweep _ => true
  | _ => false

structure Acks (s : State) : Prop where
  unsent : s.acked = false → s.toClient = [] ∧ s.acks = []
  sent : s.acked = true → s.acks = [] ∧ s.toClient = ackFrame ∨
    s.acks = [utf8 "ack"] ∧ s.toClient = []
  before : s.client.beforeAck = true → s.acks = []
  after : s.acked = true → afterAck s.relay.pc = true
  due : ackDue s.relay.pc = true → s.waited = true → s.acked = true

theorem acks_init : Acks init where
  unsent _ := ⟨rfl, rfl⟩
  sent := nofun
  before _ := rfl
  after := nofun
  due := nofun

theorem ctrlRead_ackFrame (fin : Bool) : ctrlRead ackFrame fin = .frame (utf8 "ack") [] := by
  cases fin <;> decide

/-- The one frame a client can read is the ack. -/
theorem Acks.read (h : Acks s) {ack rest : Bytes}
    (hread : ctrlRead s.toClient s.finished = .frame ack rest) :
    s.acked = true ∧ ack = utf8 "ack" ∧ rest = [] := by
  have hempty : s.toClient ≠ [] := by
    intro hnil
    rw [hnil] at hread
    cases hfin : s.finished <;> simp [ctrlRead, hfin] at hread
  cases hacked : s.acked with
  | false => exact absurd (h.unsent hacked).1 hempty
  | true =>
    rcases h.sent hacked with ⟨-, hframe⟩ | ⟨-, hnil⟩
    · rw [hframe, ctrlRead_ackFrame] at hread
      cases hread
      exact ⟨rfl, rfl, rfl⟩
    · exact absurd hnil hempty

theorem Acks.client (h : Acks s) (hmove : ClientMove script s t) : Acks t := by
  cases hmove with
  | ack hpc hread =>
    obtain ⟨hacked, rfl, rfl⟩ := h.read hread
    have hacks := h.before (by rw [hpc]; rfl)
    refine ⟨fun hno => ?_, fun _ => .inr ⟨?_, rfl⟩, nofun, h.after, h.due⟩
    · cases hacked.symm.trans hno
    · show s.acks ++ [utf8 "ack"] = _
      rw [hacks, List.nil_append]
  | opened hpc | domain hpc | sig hpc | prepared hpc | challenge hpc =>
    exact ⟨h.unsent, h.sent, fun _ => h.before (by rw [hpc]; rfl), h.after, h.due⟩
  | failed | cached | served | done | accepted | built =>
    exact ⟨h.unsent, h.sent, nofun, h.after, h.due⟩

/-- The handler goes on without an ack. -/
theorem Acks.went (h : Acks s) {i : Input} {c : Conn} (hack : s.writesAck c.pc = false)
    (hafter : afterAck s.relay.pc = true → afterAck c.pc = true)
    (hdue : ackDue c.pc = true → (s.waited || c.pc.isInsertPending) = true →
      ackDue s.relay.pc = true ∧ s.waited = true) : Acks (s.onRelay i c) := by
  have hacked : (s.onRelay i c).acked = s.acked := by
    show (s.acked || s.writesAck c.pc) = s.acked
    rw [hack, Bool.or_false]
  have htoClient : (s.onRelay i c).toClient = s.toClient := by
    show (if s.writesAck c.pc then s.toClient ++ ackFrame else s.toClient) = s.toClient
    rw [hack]
    rfl
  refine ⟨?_, ?_, h.before, ?_, ?_⟩
  · rw [hacked, htoClient]
    exact h.unsent
  · rw [hacked, htoClient]
    exact h.sent
  · rw [hacked]
    exact fun ha => hafter (h.after ha)
  · rw [hacked]
    exact fun hd hw => h.due (hdue hd hw).1 (hdue hd hw).2

theorem writesAck_eq_false {pc : Relay.Pc} (h : ∀ id token, pc ≠ .waitDone id token) :
    s.writesAck pc = false := by
  unfold State.writesAck
  split
  · exact absurd rfl (h _ _)
  · rfl

theorem Acks.relay (h : Acks s) (hstream : Stream s) (hbranch : Branch script s) {i : Input}
    {c : Conn} {op : MapOp} (hadmits : s.admits i = true)
    (hmove : s.relay.Move env cfg 0 i c op) : Acks (s.onRelay i c) := by
  cases hmove with
  | data | fin => cases hadmits
  | @acked id held hpc =>
    have hnot : s.acked = false := by
      cases hacked : s.acked with
      | false => rfl
      | true =>
        have hafter := h.after hacked
        rw [hpc] at hafter
        cases hafter
    obtain ⟨hempty, hacks⟩ := h.unsent hnot
    have hwrites : s.writesAck (.waitDone id held) = true := by
      unfold State.writesAck
      rw [hpc]
    have hacked : (s.onRelay .ackSent { s.relay with pc := .waitDone id held }).acked = true := by
      show (s.acked || s.writesAck (.waitDone id held)) = true
      rw [hwrites, Bool.or_true]
    refine ⟨fun hno => ?_, fun _ => .inl ⟨hacks, ?_⟩, h.before, fun _ => rfl, fun _ _ => hacked⟩
    · cases hacked.symm.trans hno
    · show (if s.writesAck (.waitDone id held) then s.toClient ++ ackFrame else s.toClient) = _
      rw [if_pos hwrites, hempty, List.nil_append]
  | cached hread hpc =>
    -- Two frames were read before this one, so the relay has not waited.
    have hcount := hstream.position _ (by rw [hpc]; rfl)
    have hwaited : s.waited = false := by rw [hbranch.waited, hcount]; rfl
    refine h.went (writesAck_eq_false nofun) (fun _ => rfl) fun _ hw => ?_
    rw [hwaited] at hw
    cases hw
  | refused | timedOut | noKeyAuth | readFailed | notUtf8 | unidentified | unauthorized | abandoned
  | swept => exact h.went (writesAck_eq_false nofun) (fun _ => rfl) nofun
  | accepted hpc | opened hpc | announced _ hpc | identified _ hpc | lookUp _ hpc | authorized hpc
  | challenge _ hpc | inserted hpc | notAcked hpc =>
    exact h.went (writesAck_eq_false nofun) (by rw [hpc]; exact nofun) nofun
  | done _ hpc | removed hpc | registered _ hpc | closed hpc | unlinked hpc =>
    refine h.went (writesAck_eq_false nofun) (fun _ => rfl) fun _ hw => ⟨by rw [hpc]; rfl, ?_⟩
    exact (Bool.or_false _).symm.trans hw

/-! ### How the two sides leave -/

/-- The handler has dropped the control stream and registered its client. -/
def pastControl : Relay.Pc → Bool
  | .register _ | .registered _ _ | .unlink _ _ | .sweep _ => true
  | _ => false

def isAbandoned : Relay.Pc → Bool
  | .removePending _ _ false => true
  | _ => false

structure Leaving (s : State) : Prop where
  closed : s.clientClosed = true → s.client.isFailed = true
  /-- The ack could not be sent because the client had left. -/
  abandoned : isAbandoned s.relay.pc = true → s.clientClosed = true
  finished : pastControl s.relay.pc = true → s.finished = true

theorem leaving_init : Leaving init := ⟨nofun, nofun, nofun⟩

theorem Leaving.client (h : Leaving s) (hmove : ClientMove script s t) : Leaving t := by
  cases hmove with
  | failed => exact ⟨fun _ => rfl, fun _ => rfl, h.finished⟩
  | opened hpc | domain hpc | sig hpc | prepared hpc | challenge hpc | cached hpc | ack hpc
  | served hpc | done hpc | accepted hpc | built hpc =>
    refine ⟨fun hclosed => ?_, h.abandoned, h.finished⟩
    have hfailed := h.closed hclosed
    rw [hpc] at hfailed
    cases hfailed

theorem Leaving.relay (h : Leaving s) {i : Input} {c : Conn} {op : MapOp}
    (hadmits : s.admits i = true) (hmove : s.relay.Move env cfg 0 i c op) :
    Leaving (s.onRelay i c) := by
  refine ⟨h.closed, fun ha => ?_, fun hp => ?_⟩
  · cases hmove with
    | notAcked => exact hadmits
    | data | fin => cases hadmits
    | _ => cases ha
  · show (s.finished || (s.relay.pc.holdsControl && !c.pc.holdsControl && !c.pc.isRejected)) = true
    cases hmove with
    | data | fin => cases hadmits
    | cached _ hpc | removed hpc =>
      rw [hpc]
      exact Bool.or_true _
    | registered _ hpc | closed hpc | unlinked hpc =>
      rw [h.finished (by rw [hpc]; rfl)]
      rfl
    | _ => cases hp

/-! ### Every run -/

structure Inv (script : Script) (s : State) : Prop where
  plan : Plan script s
  stream : Stream s
  branch : Branch script s
  acks : Acks s
  leaving : Leaving s

theorem inv_init : Inv script init :=
  ⟨plan_init, stream_init, branch_init, acks_init, leaving_init⟩

theorem Inv.step {a : Action} (h : Inv script s) (hstep : Quic.step env cfg script s a = some t) :
    Inv script t := by
  rcases step_move hstep with hmove | ⟨i, c, op, -, hadmits, hmove, rfl⟩
  · exact ⟨h.plan.client hmove, h.stream.client hmove, h.branch.client hmove, h.acks.client hmove,
      h.leaving.client hmove⟩
  · exact ⟨h.plan.relay i c, h.stream.relay h.plan hadmits hmove,
      h.branch.relay h.plan h.stream hadmits hmove, h.acks.relay h.stream h.branch hadmits hmove,
      h.leaving.relay hadmits hmove⟩

theorem inv_of_reach (h : Reach (step env cfg script) init s) : Inv script s :=
  h.invariant (fun _ _ _ hs hstep => Inv.step hs hstep) inv_init

/-! ### In step -/

/-- The handler may still send the ack. -/
def mayAck : Relay.Pc → Bool
  | .handshake | .openControl | .readDomain | .readSig _ | .lookupTxt _ _ _ | .readKeyAuth _
  | .insertPending _ | .sendAck _ _ => true
  | _ => false

/-- What the two sides owe each other. -/
structure InStep (script : Script) (s : State) : Prop where
  /-- Once the relay has read the key authorization, both are in the challenge or neither is. -/
  entered : (∃ payload, (.keyAuth, payload) ∈ s.reads) →
    (s.challenged = true ↔ s.waited = true)
  /-- The frame a handler waits for is the next one to come, unless the client has left. -/
  relayWaits : ∀ frame, s.relay.pc.frame? = some frame → s.client.isFailed = true ∨
    ((s.sent.drop s.reads.length).map Prod.fst ++ s.client.toSend script.prepared).head? =
      some frame
  /-- The ack a client waits for is there or to come, unless the relay has left. -/
  clientWaits : s.client = .waitAck →
    s.relay.pc.isGone = true ∨ mayAck s.relay.pc = true ∨ s.toClient = ackFrame
  /-- The stream has ended once the client is registered. -/
  accepts : pastControl s.relay.pc = true → s.finished = true
  /-- Every frame is read as the step it was sent for. -/
  frames : s.reads <+: s.sent ∧ ∀ frame ∈ s.reads, Meant script (utf8 "done") frame.1 frame.2
  acks : ∀ ack ∈ s.acks, ack = utf8 "ack"

/-- The relay waits only if the client goes on to the challenge. -/
theorem Branch.challengeOf (h : Branch script s) (hwaited : s.waited = true) :
    challengeOf script.prepared = true := by
  rw [h.waited, Bool.and_eq_true, Bool.not_eq_true', List.isEmpty_eq_false_iff] at hwaited
  exact challengeOf_of_keyAuthOf hwaited.2

theorem Inv.relayWaits (h : Inv script s) {frame : Frame} (hframe : s.relay.pc.frame? = some frame)
    (hlive : s.client.isFailed = false) :
    ((s.sent.drop s.reads.length).map Prod.fst ++ s.client.toSend script.prepared).head? =
      some frame := by
  have hcount := h.stream.position _ (position_of_frame hframe)
  have hle : s.reads.length ≤ (s.sent.map Prod.fst).length := by
    rw [List.length_map]
    exact h.stream.reads.length_le
  rw [List.map_drop, ← List.drop_append_of_le_length hle, h.plan.sends hlive, List.head?_drop,
    hcount]
  cases frame with
  | domain | sig | keyAuth => rfl
  | done =>
    have hwaited := h.branch.acmeWait (position_of_frame hframe)
    rw [Quic.frames, doneOf, if_pos (h.branch.challengeOf hwaited)]
    rfl

theorem Inv.three_le_reads (h : Inv script s) {payload : Bytes}
    (hmem : (.keyAuth, payload) ∈ s.reads) : 3 ≤ s.reads.length := by
  obtain ⟨k, hk⟩ := List.mem_iff_getElem?.1 hmem
  have hlt : k < s.reads.length := (List.getElem?_eq_some_iff.1 hk).1
  have hsent : s.sent[k]? = some (.keyAuth, payload) := by
    obtain ⟨rest, hrest⟩ := h.stream.reads
    rw [← hrest, List.getElem?_append_left hlt]
    exact hk
  have hindex : 2 = k := h.plan.order hsent
  omega

/-- Where the ack stands, by where the handler is. -/
theorem ackDue_cases (pc : Relay.Pc) : ackDue pc = true ∧
      (Quic.position pc = some 3 ∨ pastKeyAuth pc = true) ∨
    isAbandoned pc = true ∨ pc.isGone = true ∨ mayAck pc = true := by
  cases pc with
  | removePending id token completed =>
    cases completed with
    | true => exact .inl ⟨rfl, .inr rfl⟩
    | false => exact .inr (.inl rfl)
  | waitDone => exact .inl ⟨rfl, .inl rfl⟩
  | register | registered | unlink | sweep => exact .inl ⟨rfl, .inr rfl⟩
  | gone => exact .inr (.inr (.inl rfl))
  | _ => exact .inr (.inr (.inr rfl))

theorem Inv.clientWaits (h : Inv script s)
    (hagrees : challengeOf script.prepared = true → keyAuthOf script.prepared ≠ [])
    (hpc : s.client = .waitAck) :
    s.relay.pc.isGone = true ∨ mayAck s.relay.pc = true ∨ s.toClient = ackFrame := by
  rcases ackDue_cases s.relay.pc with ⟨hdue, hread⟩ | habandoned | hgone | hmay
  · -- The handler has read the key authorization, and it was not empty.
    have hreads : 3 ≤ s.reads.length := by
      rcases hread with hthree | hpast
      · exact (h.stream.position 3 hthree).ge
      · exact h.stream.past hpast
    have hkeyAuth := hagrees (h.plan.inChallenge (by rw [hpc]; rfl))
    have hwaited : s.waited = true := by
      rw [h.branch.waited, decide_eq_true hreads, Bool.true_and, Bool.not_eq_true',
        List.isEmpty_eq_false_iff]
      exact hkeyAuth
    have hacks := h.acks.before (by rw [hpc]; rfl)
    rcases h.acks.sent (h.acks.due hdue hwaited) with ⟨-, hframe⟩ | ⟨hone, -⟩
    · exact .inr (.inr hframe)
    · rw [hacks] at hone
      cases hone
  · have hfailed := h.leaving.closed (h.leaving.abandoned habandoned)
    rw [hpc] at hfailed
    cases hfailed
  · exact .inl hgone
  · exact .inr (.inl hmay)

/-- The two sides are in step if a challenge always comes with a key authorization. -/
theorem Inv.inStep (h : Inv script s)
    (hagrees : challengeOf script.prepared = true → keyAuthOf script.prepared ≠ []) :
    InStep script s where
  entered := by
    rintro ⟨payload, hmem⟩
    have hreads := h.three_le_reads hmem
    have hsent : 3 ≤ s.sent.length := hreads.trans h.stream.reads.length_le
    rw [h.plan.challenged, h.branch.waited, decide_eq_true hreads, decide_eq_true hsent,
      Bool.and_true, Bool.true_and, Bool.not_eq_true', List.isEmpty_eq_false_iff]
    exact ⟨hagrees, challengeOf_of_keyAuthOf⟩
  relayWaits := by
    intro frame hframe
    cases hlive : s.client.isFailed with
    | true => exact .inl rfl
    | false => exact .inr (h.relayWaits hframe hlive)
  clientWaits := h.clientWaits hagrees
  accepts := h.leaving.finished
  frames := ⟨h.stream.reads, fun frame hmem => h.plan.meant frame (h.stream.reads.subset hmem)⟩
  acks := by
    intro ack hmem
    cases hacked : s.acked with
    | false =>
      rw [(h.acks.unsent hacked).2] at hmem
      cases hmem
    | true =>
      rcases h.acks.sent hacked with ⟨hnil, -⟩ | ⟨hone, -⟩
      · rw [hnil] at hmem
        cases hmem
      · rw [hone] at hmem
        exact List.mem_singleton.1 hmem

end QuicTunnel.Protocol.Quic
