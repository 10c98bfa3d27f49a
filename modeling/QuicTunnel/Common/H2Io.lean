import QuicTunnel.Base.Transition
import QuicTunnel.Common.Bytes

/-!
# H2 streams as byte streams

`H2Send` and `H2Recv` (`tunnel-common/src/lib.rs`), the two ends of one direction of a tunnel
stream.  Between them is h2: `Wire` is what it was sent and has not delivered, in order.  How much
capacity it has, what it answers to a poll and how it cuts the bytes into chunks is carried by the
calls, so every answer is possible that loses nothing and keeps the order.

* `pollWrite`, `pollShutdown`: the sending end; the loop of `poll_write` takes one turn for each
  capacity it reads;
* `pollRead`: the receiving end, with the rest of a chunk that did not fit;
* `State`: both ends, with the bytes the writes reported and the bytes the reads returned.

The invariant is one equation: what was reported is what was read, followed by the rest of the last
chunk and by what h2 still has.  `poll_flush` does nothing, and is left out.
-/

namespace QuicTunnel.H2Io

open Transition

inductive Poll (α : Type*)
  | pending
  | ready (value : α)
  deriving DecidableEq

/-! ### The wire -/

/-- What h2 was sent and has not delivered. -/
structure Wire where
  inFlight : Bytes
  /-- The end of the stream was sent. -/
  ended : Bool
  deriving DecidableEq

/-- `send_data`.  h2 may refuse it, and does once the stream has ended; `none` if it does not answer
so. -/
def Wire.sendData (w : Wire) (data : Bytes) (endOfStream : Bool) (refused : Option String) :
    Option (Except String Wire) :=
  match refused with
  | some e => some (.error e)
  | none => if w.ended then none else some (.ok ⟨w.inFlight ++ data, endOfStream⟩)

/-- What h2 answers to `poll_data`. -/
inductive DataAnswer
  /-- A chunk of this length. -/
  | chunk (length : ℕ)
  | error (e : String)
  | closed
  | pending
  deriving DecidableEq

/-- A chunk is taken from what is in flight, and the stream is closed when nothing is left; `none`
if h2 does not answer so. -/
def Wire.pollData (w : Wire) : DataAnswer → Option (Poll (Option (Except String Bytes)) × Wire)
  | .chunk length =>
    if length ≤ w.inFlight.length then
      some (.ready (some (.ok (w.inFlight.take length))),
        { w with inFlight := w.inFlight.drop length })
    else none
  | .error e => some (.ready (some (.error e)), w)
  | .closed => if w.ended ∧ w.inFlight = [] then some (.ready none, w) else none
  | .pending => some (.pending, w)

/-! ### Sending -/

/-- What h2 answers to `poll_capacity`. -/
inductive CapacityAnswer
  | ready
  | error (e : String)
  | closed
  | pending
  deriving DecidableEq

/-- The loop of `poll_write`, one turn for each capacity that is read; `none` if it goes on. -/
def pollWriteLoop (w : Wire) (buf : Bytes) (refused : Option String) :
    List (ℕ × CapacityAnswer) → Option (Poll (Except String ℕ) × Wire)
  | [] => none
  | (capacity, answer) :: turns =>
    let n := min capacity buf.length
    if 0 < n then
      (w.sendData (buf.take n) false refused).map fun
        | .error e => (.ready (.error e), w)
        | .ok w => (.ready (.ok n), w)
    else
      match answer with
      | .ready => pollWriteLoop w buf refused turns
      | .pending => some (.pending, w)
      | .error e => some (.ready (.error e), w)
      | .closed => some (.ready (.error "closed"), w)

def pollWrite (w : Wire) (buf : Bytes) (refused : Option String)
    (turns : List (ℕ × CapacityAnswer)) : Option (Poll (Except String ℕ) × Wire) :=
  if buf = [] then some (.ready (.ok 0), w) else pollWriteLoop w buf refused turns

def pollShutdown (w : Wire) (refused : Option String) :
    Option (Poll (Except String Unit) × Wire) :=
  (w.sendData [] true refused).map fun
    | .error e => (.ready (.error e), w)
    | .ok w => (.ready (.ok ()), w)

/-! ### Receiving -/

/-- `poll_read` into a buffer with this much left, where `buf` is the rest of the last chunk: what
is put into the buffer, and the new rest. -/
def pollRead (w : Wire) (buf : Bytes) (remaining : ℕ) (answer : DataAnswer) :
    Option (Poll (Except String Bytes) × Wire × Bytes) :=
  if buf ≠ [] then
    let n := min remaining buf.length
    some (.ready (.ok (buf.take n)), w, buf.drop n)
  else
    (w.pollData answer).map fun
      | (.ready (some (.ok data)), w) =>
        let n := min remaining data.length
        (.ready (.ok (data.take n)), w, if n < data.length then data.drop n else buf)
      | (.ready (some (.error e)), w) => (.ready (.error e), w, buf)
      | (.ready none, w) => (.ready (.ok []), w, buf)
      | (.pending, w) => (.pending, w, buf)

/-! ### Both ends -/

structure State where
  wire : Wire
  /-- The rest of the last chunk, in `H2Recv`. -/
  buf : Bytes
  /-- What the writes reported as written. -/
  accepted : Bytes
  /-- What the reads returned. -/
  read : Bytes
  deriving DecidableEq

def init : State := ⟨⟨[], false⟩, [], [], []⟩

inductive Action
  | write (buf : Bytes) (refused : Option String) (turns : List (ℕ × CapacityAnswer))
  | shutdown (refused : Option String)
  | read (remaining : ℕ) (answer : DataAnswer)
  deriving DecidableEq

/-- What a write reports of its buffer. -/
def reported (buf : Bytes) : Poll (Except String ℕ) → Bytes
  | .ready (.ok n) => buf.take n
  | _ => []

/-- What a read returns. -/
def returned : Poll (Except String Bytes) → Bytes
  | .ready (.ok data) => data
  | _ => []

def step (s : State) : Action → Option State
  | .write buf refused turns =>
    (pollWrite s.wire buf refused turns).map fun (result, wire) =>
      { s with wire := wire, accepted := s.accepted ++ reported buf result }
  | .shutdown refused => (pollShutdown s.wire refused).map fun (_, wire) => { s with wire := wire }
  | .read remaining answer =>
    (pollRead s.wire s.buf remaining answer).map fun (result, wire, buf) =>
      { s with wire := wire, buf := buf, read := s.read ++ returned result }

/-! ### What a write does -/

/-- The capacity that was read last, after turns that found none. -/
def Offered (turns : List (ℕ × CapacityAnswer)) (capacity : ℕ) : Prop :=
  ∃ before answer after, turns = before ++ (capacity, answer) :: after ∧
    ∀ turn ∈ before, turn = (0, .ready)

/-- The outcomes of `poll_write`. -/
inductive Written (w : Wire) (buf : Bytes) (turns : List (ℕ × CapacityAnswer)) :
    Poll (Except String ℕ) → Wire → Prop
  | empty (hbuf : buf = []) : Written w buf turns (.ready (.ok 0)) w
  /-- A non-empty part is handed over. -/
  | sent {capacity n : ℕ} (hoffered : Offered turns capacity) (hpos : 0 < n) (hcap : n ≤ capacity)
    (hlen : n ≤ buf.length) (hended : w.ended = false) :
    Written w buf turns (.ready (.ok n)) ⟨w.inFlight ++ buf.take n, false⟩
  | pending : Written w buf turns .pending w
  | error (e : String) : Written w buf turns (.ready (.error e)) w

theorem Offered.cons {turns : List (ℕ × CapacityAnswer)} {capacity : ℕ}
    (h : Offered turns capacity) : Offered ((0, .ready) :: turns) capacity := by
  obtain ⟨before, answer, after, rfl, hbefore⟩ := h
  exact ⟨(0, .ready) :: before, answer, after, rfl, List.forall_mem_cons.2 ⟨rfl, hbefore⟩⟩

section Calls

variable {w w' : Wire} {buf buf' : Bytes}

theorem pollWriteLoop_written {refused : Option String} {turns : List (ℕ × CapacityAnswer)}
    {result : Poll (Except String ℕ)} (hbuf : buf ≠ [])
    (h : pollWriteLoop w buf refused turns = some (result, w')) :
    Written w buf turns result w' := by
  induction turns with
  | nil => cases h
  | cons turn turns ih =>
    obtain ⟨capacity, answer⟩ := turn
    simp only [pollWriteLoop] at h
    split_ifs at h with hpos
    · obtain ⟨sent, hsent, heq⟩ := Option.map_eq_some_iff.1 h
      cases refused with
      | some e =>
        cases hsent
        cases heq
        exact .error e
      | none =>
        simp only [Wire.sendData] at hsent
        split_ifs at hsent with hended
        cases hsent
        cases heq
        exact .sent ⟨[], answer, turns, rfl, nofun⟩ hpos (Nat.min_le_left _ _)
          (Nat.min_le_right _ _) (Bool.eq_false_of_not_eq_true hended)
    · cases answer with
      | ready =>
        -- No capacity yet: the turns that follow decide.
        obtain rfl : capacity = 0 := by
          have := List.length_pos_of_ne_nil hbuf
          omega
        cases ih h with
        | empty hempty => exact .empty hempty
        | sent hoffered hpos hcap hlen hended => exact .sent hoffered.cons hpos hcap hlen hended
        | pending => exact .pending
        | error e => exact .error e
      | pending =>
        cases h
        exact .pending
      | error e =>
        cases h
        exact .error e
      | closed =>
        cases h
        exact .error _

theorem pollWrite_written {refused : Option String} {turns : List (ℕ × CapacityAnswer)}
    {result : Poll (Except String ℕ)} (h : pollWrite w buf refused turns = some (result, w')) :
    Written w buf turns result w' := by
  rw [pollWrite] at h
  split_ifs at h with hbuf
  · cases h
    exact .empty hbuf
  · exact pollWriteLoop_written hbuf h

/-- What a write reports is what it has handed over. -/
theorem Written.inFlight {turns : List (ℕ × CapacityAnswer)} {result : Poll (Except String ℕ)}
    (h : Written w buf turns result w') :
    w'.inFlight = w.inFlight ++ reported buf result ∧ w'.ended = w.ended := by
  cases h with
  | empty hbuf => exact ⟨by simp [reported], rfl⟩
  | sent _ _ _ _ hended => exact ⟨rfl, hended.symm⟩
  | pending | error => exact ⟨(List.append_nil _).symm, rfl⟩

theorem pollShutdown_wire {refused : Option String} {result : Poll (Except String Unit)}
    (h : pollShutdown w refused = some (result, w')) :
    w'.inFlight = w.inFlight ∧ (w'.ended = w.ended ∨ refused = none) := by
  obtain ⟨sent, hsent, heq⟩ := Option.map_eq_some_iff.1 h
  cases refused with
  | some e =>
    cases hsent
    cases heq
    exact ⟨rfl, .inl rfl⟩
  | none =>
    simp only [Wire.sendData] at hsent
    split_ifs at hsent
    cases hsent
    cases heq
    exact ⟨List.append_nil _, .inr rfl⟩

/-- The outcomes of `poll_read`. -/
inductive Received (w : Wire) (buf : Bytes) (remaining : ℕ) (answer : DataAnswer) :
    Poll (Except String Bytes) → Wire → Bytes → Prop
  | rest (hbuf : buf ≠ []) :
    Received w buf remaining answer (.ready (.ok (buf.take remaining))) w (buf.drop remaining)
  | chunk {data left : Bytes} (hbuf : buf = []) (hdata : data ++ left = w.inFlight)
    (hanswer : answer = .chunk data.length) :
    Received w buf remaining answer (.ready (.ok (data.take remaining)))
      { w with inFlight := left } (data.drop remaining)
  | closed (hbuf : buf = []) (hended : w.ended = true) (hempty : w.inFlight = []) :
    Received w buf remaining answer (.ready (.ok [])) w []
  | error (e : String) (hbuf : buf = []) :
    Received w buf remaining answer (.ready (.error e)) w []
  | pending (hbuf : buf = []) : Received w buf remaining answer .pending w []

theorem take_min_length (bytes : Bytes) (n : ℕ) :
    bytes.take (min n bytes.length) = bytes.take n := by
  rw [← List.take_take, List.take_length]

theorem drop_min_length (bytes : Bytes) (n : ℕ) :
    bytes.drop (min n bytes.length) = bytes.drop n := by
  rcases Nat.le_total n bytes.length with hle | hle
  · rw [Nat.min_eq_left hle]
  · rw [Nat.min_eq_right hle, List.drop_length, List.drop_of_length_le hle]

/-- What `poll_read` keeps of a chunk is what does not fit. -/
theorem rest_of_chunk (data : Bytes) (n : ℕ) :
    (if min n data.length < data.length then data.drop (min n data.length) else []) =
      data.drop n := by
  rw [drop_min_length]
  split_ifs with hlt
  · rfl
  · rw [List.drop_of_length_le (by omega)]

theorem pollRead_received {remaining : ℕ} {answer : DataAnswer}
    {result : Poll (Except String Bytes)}
    (h : pollRead w buf remaining answer = some (result, w', buf')) :
    Received w buf remaining answer result w' buf' := by
  rw [pollRead] at h
  split_ifs at h with hbuf
  · simp only [take_min_length, drop_min_length] at h
    cases h
    exact .rest hbuf
  · obtain rfl : buf = [] := not_not.1 hbuf
    obtain ⟨⟨data, w₁⟩, hdata, heq⟩ := Option.map_eq_some_iff.1 h
    cases answer with
    | chunk length =>
      simp only [Wire.pollData] at hdata
      split_ifs at hdata with hle
      cases hdata
      simp only [take_min_length, rest_of_chunk] at heq
      cases heq
      refine .chunk rfl (List.take_append_drop length w.inFlight) ?_
      rw [List.length_take, Nat.min_eq_left hle]
    | error e =>
      cases hdata
      cases heq
      exact .error e rfl
    | closed =>
      simp only [Wire.pollData] at hdata
      split_ifs at hdata with hclosed
      cases hdata
      cases heq
      exact .closed rfl hclosed.1 hclosed.2
    | pending =>
      cases hdata
      cases heq
      exact .pending rfl

/-- A read takes the next bytes, from the rest of the last chunk or from the wire, and keeps what
does not fit. -/
theorem Received.bytes {remaining : ℕ} {answer : DataAnswer} {result : Poll (Except String Bytes)}
    (h : Received w buf remaining answer result w' buf') :
    returned result ++ buf' ++ w'.inFlight = buf ++ w.inFlight ∧ w'.ended = w.ended := by
  cases h with
  | rest _ => exact ⟨by rw [returned, List.take_append_drop], rfl⟩
  | chunk hbuf hdata _ =>
    refine ⟨?_, rfl⟩
    rw [hbuf, returned, List.take_append_drop, hdata]
    rfl
  | closed hbuf | error _ hbuf | pending hbuf =>
    rw [hbuf]
    exact ⟨rfl, rfl⟩

/-- A read with room that returns nothing has found the end, unless it was given an empty chunk. -/
theorem Received.eof {remaining : ℕ} {answer : DataAnswer} (hpos : 0 < remaining)
    (hchunk : answer ≠ .chunk 0) (h : Received w buf remaining answer (.ready (.ok [])) w' buf') :
    buf = [] ∧ w.inFlight = [] ∧ w.ended = true := by
  have htake : ∀ {bytes : Bytes}, bytes.take remaining = [] → bytes = [] := fun hnil =>
    (List.take_eq_nil_iff.1 hnil).resolve_left (Nat.ne_of_gt hpos)
  generalize hresult : Poll.ready (Except.ok ([] : Bytes)) = result at h
  cases h with
  | rest hbuf =>
    cases htake (Except.ok.inj (Poll.ready.inj hresult)).symm
    exact absurd rfl hbuf
  | chunk hbuf hdata hanswer =>
    cases htake (Except.ok.inj (Poll.ready.inj hresult)).symm
    exact absurd hanswer hchunk
  | closed hbuf hended hempty => exact ⟨hbuf, hempty, hended⟩
  | error | pending => cases hresult

end Calls

/-! ### Runs -/

/-- What was reported is read, kept in `H2Recv`, or in flight, in this order. -/
def Conserved (s : State) : Prop := s.accepted = s.read ++ s.buf ++ s.wire.inFlight

theorem Conserved.step {s t : State} {a : Action} (h : Conserved s) (hstep : step s a = some t) :
    Conserved t := by
  unfold Conserved at h ⊢
  cases a with
  | write buf refused turns =>
    obtain ⟨⟨result, wire⟩, hwrite, rfl⟩ := Option.map_eq_some_iff.1 hstep
    have hsent := (pollWrite_written hwrite).inFlight.1
    show s.accepted ++ reported buf result = s.read ++ s.buf ++ wire.inFlight
    rw [hsent, h, List.append_assoc]
  | shutdown refused =>
    obtain ⟨⟨result, wire⟩, hshutdown, rfl⟩ := Option.map_eq_some_iff.1 hstep
    show s.accepted = s.read ++ s.buf ++ wire.inFlight
    rw [(pollShutdown_wire hshutdown).1, h]
  | read remaining answer =>
    obtain ⟨⟨result, wire, buf⟩, hread, rfl⟩ := Option.map_eq_some_iff.1 hstep
    have hbytes := (pollRead_received hread).bytes.1
    show s.accepted = s.read ++ returned result ++ buf ++ wire.inFlight
    rw [h, List.append_assoc s.read, ← hbytes]
    simp only [List.append_assoc]

/-- Only a shutdown that h2 takes ends the stream. -/
theorem ended_step {s t : State} {a : Action} (hstep : step s a = some t)
    (hs : s.wire.ended = false) (ht : t.wire.ended = true) : a = .shutdown none := by
  cases a with
  | write buf refused turns =>
    obtain ⟨⟨result, wire⟩, hwrite, rfl⟩ := Option.map_eq_some_iff.1 hstep
    rw [← (pollWrite_written hwrite).inFlight.2, ht] at hs
    cases hs
  | shutdown refused =>
    obtain ⟨⟨result, wire⟩, hshutdown, rfl⟩ := Option.map_eq_some_iff.1 hstep
    rcases (pollShutdown_wire hshutdown).2 with hsame | rfl
    · rw [← hsame, ht] at hs
      cases hs
    · rfl
  | read remaining answer =>
    obtain ⟨⟨result, wire, buf⟩, hread, rfl⟩ := Option.map_eq_some_iff.1 hstep
    rw [← (pollRead_received hread).bytes.2, ht] at hs
    cases hs

/-- What a tunnel stream does in a state reached by the schedule. -/
structure Faithful (schedule : List Action) (s : State) : Prop where
  /-- The bytes read are the first bytes the writes reported. -/
  inOrder : s.read <+: s.accepted
  /-- A read with room returns nothing only at the end of the stream, when all has been read. -/
  eof : ∀ remaining answer wire buf, 0 < remaining → answer ≠ .chunk 0 →
    pollRead s.wire s.buf remaining answer = some (.ready (.ok []), wire, buf) →
    .shutdown none ∈ schedule ∧ s.read = s.accepted
  /-- A write that succeeds hands over a non-empty part of its buffer, within the capacity that was
  offered, and reports its length. -/
  sent : ∀ data refused turns n wire, data ≠ [] →
    pollWrite s.wire data refused turns = some (.ready (.ok n), wire) →
    0 < n ∧ n ≤ data.length ∧ wire.inFlight = s.wire.inFlight ++ data.take n ∧
      ∃ capacity, Offered turns capacity ∧ n ≤ capacity
  /-- A write that does not succeed hands over nothing. -/
  unsent : ∀ data refused turns result wire,
    pollWrite s.wire data refused turns = some (result, wire) →
    (result = .pending ∨ ∃ e, result = .ready (.error e)) → wire = s.wire

/-- **A tunnel stream over H2 is faithful**, for every sequence of writes and reads, whatever h2
answers. -/
theorem stream_faithful (schedule : List Action) (s : State)
    (hrun : runs step init schedule = some s) : Faithful schedule s := by
  have h : Conserved s := runs_invariant (fun _ _ _ hs hstep => hs.step hstep) hrun rfl
  refine ⟨?_, fun remaining answer wire buf hpos hchunk hread => ?_,
    fun data refused turns n wire hdata hwrite => ?_,
    fun data refused turns result wire hwrite hresult => ?_⟩
  · rw [h, List.append_assoc]
    exact List.prefix_append _ _
  · obtain ⟨hbuf, hempty, hended⟩ := (pollRead_received hread).eof hpos hchunk
    obtain ⟨before, a, after, u, v, rfl, -, hu, hstep, hv, -⟩ := exists_step_of_runs
      (P := fun s => s.wire.ended = true) hrun Bool.false_ne_true hended
    obtain rfl := ended_step hstep (Bool.eq_false_of_not_eq_true hu) hv
    refine ⟨by simp, ?_⟩
    rw [h, hbuf, hempty, List.append_nil, List.append_nil]
  · generalize hresult : Poll.ready (Except.ok n) = result at hwrite
    cases pollWrite_written hwrite with
    | empty hnil => exact absurd hnil hdata
    | sent hoffered hpos hcap hlen _ =>
      cases hresult
      exact ⟨hpos, hlen, rfl, _, hoffered, hcap⟩
    | pending | error => cases hresult
  · cases pollWrite_written hwrite with
    | empty | sent => rcases hresult with hresult | ⟨e, hresult⟩ <;> cases hresult
    | pending | error => rfl

/-- Five bytes in two writes, the second after turns without capacity; a read without room, a chunk
that does not fit, and the end. -/
def fiveBytes : List Action :=
  [.write [1, 2, 3, 4, 5] none [(3, .pending)], .read 0 (.chunk 2), .read 1 .pending,
    .write [4, 5] none [(0, .ready), (0, .ready), (9, .pending)], .read 4 .pending,
    .shutdown none, .read 4 (.chunk 3)]

theorem stream_faithful_fiveBytes :
    ∃ s wire buf, runs step init fiveBytes = some s ∧ s.read = [1, 2, 3, 4, 5] ∧
      pollRead s.wire s.buf 1 .closed = some (.ready (.ok []), wire, buf) ∧
      s.read = s.accepted ∧ .shutdown none ∈ fiveBytes :=
  have h := stream_faithful fiveBytes _ rfl
  ⟨_, _, _, rfl, rfl, rfl, (h.eof 1 .closed _ _ Nat.one_pos nofun rfl).2,
    (h.eof 1 .closed _ _ Nat.one_pos nofun rfl).1⟩

end QuicTunnel.H2Io
