import QuicTunnel.Ffi.Run

/-!
# What the foreign side sees

`step_effect` says once what a step can do to the stream: nothing, put an item behind the queue,
complete a `Started`, complete an item, complete a terminal event.  The one other thing, a future
dropped inside the `deliver` of an item, is `cancelled_midDelivery`.  Every result below follows the
effects:

* `Flow`: the completed items, the item in hand and the queue are, in this order, the enqueued
  items without the ones lost to a cancellation;
* `Announced`: at most one `Started`, before every `ConnectionEstablished`, and only for one;
* `TerminalLast`: no terminal event before the stream is finished, and then one, the last.
-/

namespace QuicTunnel.Ffi

open Transition

/-! ### The items of a state -/

/-- The item taken from the queue whose own `on_event` has not returned. -/
def Pc.inHand : Pc → List Inner
  | .starting _ item => [item]
  | .delivering _ item => [item]
  | _ => []

/-- The item whose own `on_event` is in progress. -/
def Pc.handed : Pc → List Inner
  | .delivering _ item => [item]
  | _ => []

/-- The items that are neither delivered nor lost. -/
def State.pending (s : State) : List Inner := s.pc.inHand ++ s.queue

/-- The future stands inside the `deliver` of an item. -/
def State.MidDelivery (s : State) : Prop := s.pc.inHand ≠ []

instance (s : State) : Decidable s.MidDelivery := inferInstanceAs (Decidable (_ ≠ _))

instance (s : State) : Decidable s.finished := inferInstanceAs (Decidable (_ ∨ _))

/-- What each await point relies on: `Started` is delivered only before it was, and for an
`Established`; an `Established` only afterwards; the closing event is a terminal one. -/
def PcOk (s : State) : Prop :=
  match s.pc with
  | .starting _ item => item.isEstablished = true ∧ s.announced = false
  | .delivering _ item => item.isEstablished = true → s.announced = true
  | .ending event => event.isTerminal = true
  | _ => True

theorem Outcome.event_isTerminal (o : Outcome) : o.event.isTerminal = true := by
  cases o <;> rfl

/-! ### Delivery up to the next await -/

section Deliver

variable (s : State) (site : Site) (item : Inner)

/-- The await points of `deliver`. -/
theorem deliver_cases :
    (item.isEstablished = true ∧ s.announced = false ∧
        deliver s site item = { s with pc := .starting site item }) ∨
      ((item.isEstablished = true → s.announced = true) ∧
        deliver s site item = { s with pc := .delivering site item }) := by
  unfold deliver
  cases item.isEstablished <;> cases s.announced <;> simp

/-- A drain ends at an empty queue, or takes an item for `deliver`. -/
theorem drain_cases (next : Pc) :
    drain s site next = { s with pc := next } ∧ (s.receiver = true → s.queue = []) ∨
      ∃ item rest, s.queue = item :: rest ∧
        drain s site next = deliver { s with queue := rest } site item := by
  unfold drain
  split
  · rename_i item rest _ hq
    exact Or.inr ⟨item, rest, hq, rfl⟩
  · rename_i hne
    refine Or.inl ⟨rfl, fun hr => ?_⟩
    cases hq : s.queue with
    | nil => rfl
    | cons item rest => exact absurd hq (hne item rest hr)

/-- What a loop's next turn leaves: an await point of its own, or an item taken for `deliver`. -/
theorem resume_cases :
    (∃ pc, resume s site = { s with pc := pc } ∧ pc.inHand = [] ∧ pc ≠ .returned ∧
        pc ≠ .tailDone ∧ pc ≠ .idle ∧ ∀ e, pc = .ending e → e.isTerminal = true) ∨
      ∃ item rest, s.queue = item :: rest ∧
        resume s site = deliver { s with queue := rest } site item := by
  cases site with
  | select => exact Or.inl ⟨.select, rfl, rfl, by simp, by simp, by simp, by simp⟩
  | joined o =>
    rcases drain_cases s (.joined o) (.ending o.event) with ⟨h, -⟩ | h
    · refine Or.inl ⟨_, h, rfl, by simp, by simp, by simp, ?_⟩
      rintro e he
      cases he
      exact o.event_isTerminal
    · exact Or.inr h
  | tail =>
    rcases drain_cases s .tail .tailEnding with ⟨h, -⟩ | h
    · exact Or.inl ⟨_, h, rfl, by simp, by simp, by simp, by simp⟩
    · exact Or.inr h

/-- A state in which nothing is in hand moved on to its next await point. -/
structure MovedOn (s t : State) : Prop where
  log : t.log = s.log
  announced : t.announced = s.announced
  enqueued : t.enqueued = s.enqueued
  pending : t.pending = s.queue
  handed : ∀ x ∈ t.pc.handed, x.isEstablished = true → s.announced = true
  unfinished : ¬t.finished
  pcOk : PcOk t

theorem deliver_movedOn : MovedOn { s with queue := item :: s.queue } (deliver s site item) := by
  rcases deliver_cases s site item with ⟨hest, hann, h⟩ | ⟨hest, h⟩
  · rw [h]
    exact ⟨rfl, rfl, rfl, rfl, by simp [Pc.handed], by simp [State.finished], hest, hann⟩
  · rw [h]
    refine ⟨rfl, rfl, rfl, rfl, ?_, by simp [State.finished], hest⟩
    intro x hx
    rw [List.mem_singleton.1 hx]
    exact hest

theorem resume_movedOn : MovedOn s (resume s site) := by
  rcases resume_cases s site with ⟨pc, h, hin, hr, ht, -, hend⟩ | ⟨item, rest, hq, h⟩
  · rw [h]
    refine ⟨rfl, rfl, rfl, by simp [State.pending, hin], ?_, by simp [State.finished, hr, ht], ?_⟩
    · cases pc <;> simp_all [Pc.handed, Pc.inHand]
    · cases pc <;> simp_all [PcOk, Pc.inHand]
  · have := deliver_movedOn { s with queue := rest } site item
    rw [← h] at this
    simpa only [← hq] using this

end Deliver

/-! ### What a step can do -/

/-- What a step that does not drop an item does to the stream. -/
inductive Effect (s t : State) : Prop
  /-- Nothing: the future may have moved to another await point. -/
  | quiet (log : t.log = s.log) (announced : t.announced = s.announced)
      (enqueued : t.enqueued = s.enqueued) (pending : t.pending = s.pending)
      (handed : t.pc.handed = s.pc.handed ∨ s.pc.handed = [] ∧
        ∀ x ∈ t.pc.handed, x.isEstablished = true → s.announced = true)
      (pc : t.pc = s.pc ∨ ¬s.finished ∧ ¬t.finished)
  /-- The channel accepts an item. -/
  | enqueue (x : Inner) (log : t.log = s.log) (announced : t.announced = s.announced)
      (enqueued : t.enqueued = s.enqueued ++ [x]) (pending : t.pending = s.pending ++ [x])
      (pc : t.pc = s.pc)
  /-- `on_event(Started)` returns. -/
  | announce (x : Inner) (est : x.isEstablished = true) (fresh : s.announced = false)
      (log : t.log = s.log ++ [.started]) (announced : t.announced = true)
      (enqueued : t.enqueued = s.enqueued) (pending : t.pending = s.pending)
      (head : s.pending = x :: s.queue) (before : s.pc.handed = []) (handed : t.pc.handed = [x])
      (unfinished : ¬s.finished ∧ ¬t.finished)
  /-- The `on_event` of an item returns. -/
  | handle (x : Inner) (ready : x.isEstablished = true → s.announced = true)
      (log : t.log = s.log ++ [x.toEvent]) (announced : t.announced = s.announced)
      (enqueued : t.enqueued = s.enqueued) (pending : s.pending = x :: t.pending)
      (before : s.pc.handed = [x])
      (handed : ∀ y ∈ t.pc.handed, y.isEstablished = true → s.announced = true)
      (unfinished : ¬s.finished ∧ ¬t.finished)
  /-- The `on_event` of a terminal event returns. -/
  | finish (e : TunnelEvent) (terminal : e.isTerminal = true) (log : t.log = s.log ++ [e])
      (announced : t.announced = s.announced) (enqueued : t.enqueued = s.enqueued)
      (pending : t.pending = s.pending) (before : s.pc.handed = []) (handed : t.pc.handed = [])
      (unfinished : ¬s.finished) (finished : t.finished) (tail : t.pc = .tailDone → e = .stopped)

/-- A step that changes neither the stream nor the await point. -/
theorem Effect.of_pc_eq {s t : State} (hlog : t.log = s.log) (hann : t.announced = s.announced)
    (henq : t.enqueued = s.enqueued) (hq : t.queue = s.queue) (hpc : t.pc = s.pc) : Effect s t :=
  .quiet hlog hann henq (by simp [State.pending, hq, hpc]) (Or.inl (by rw [hpc]))
    (Or.inl hpc)

/-- A state with nothing in hand that moves on. -/
theorem MovedOn.effect {s t : State} (h : MovedOn s t) (hin : s.pc.inHand = [])
    (hs : ¬s.finished) : Effect s t := by
  have hhanded : s.pc.handed = [] := by
    cases hpc : s.pc <;> simp_all [Pc.inHand, Pc.handed]
  exact .quiet h.log h.announced h.enqueued (by rw [h.pending, State.pending, hin]; rfl)
    (Or.inr ⟨hhanded, h.handed⟩) (Or.inr ⟨hs, h.unfinished⟩)

/-- `run()` is at `idle` until it is called. -/
def Fresh (s : State) : Prop := s.started = false → s.pc = .idle

section Effects

variable {s t : State}

theorem callRun_effect (hf : Fresh s) (runtime : Except String Unit) :
    Effect s (callRun s runtime) ∧ (PcOk s → PcOk (callRun s runtime)) := by
  cases hstarted : s.started with
  | true =>
    have h : callRun s runtime = s := by simp [callRun, hstarted]
    rw [h]
    exact ⟨.of_pc_eq rfl rfl rfl rfl rfl, id⟩
  | false =>
    have hidle := hf hstarted
    have key : ∃ pc tunnel, callRun s runtime =
        { s with started := true, pc := pc, tunnel := tunnel } ∧ pc.inHand = [] ∧
        pc ≠ .returned ∧ pc ≠ .tailDone ∧ pc.handed = [] ∧
        ∀ e, pc = .ending e → e.isTerminal = true := by
      unfold callRun
      simp only [hstarted, Bool.false_eq_true, if_false]
      split_ifs
      · exact ⟨.ending .stopped, s.tunnel, rfl, rfl, by simp, by simp, rfl,
          fun e he => by cases he; rfl⟩
      · rcases runtime with cause | _
        · exact ⟨.ending (.failed cause), s.tunnel, rfl, rfl, by simp, by simp, rfl,
            fun e he => by cases he; rfl⟩
        · exact ⟨.select, .running, rfl, rfl, by simp, by simp, rfl, by simp⟩
    obtain ⟨pc, tunnel, h, hin, hr, ht, hhanded, hend⟩ := key
    rw [h]
    refine ⟨.quiet rfl rfl rfl ?_ (Or.inl ?_) (Or.inr ?_), fun _ => ?_⟩
    · show pc.inHand ++ s.queue = s.pc.inHand ++ s.queue
      rw [hin, hidle]
      rfl
    · rw [hhanded, hidle]
      rfl
    · simp [State.finished, hr, ht, hidle]
    · cases pc <;> simp_all [PcOk, Pc.inHand]

theorem completed_effect (hok : PcOk s) (h : completed s = some t) : Effect s t ∧ PcOk t := by
  unfold completed at h
  split at h <;> rename_i hpc
  · rename_i site item
    cases h
    simp only [PcOk, hpc] at hok
    refine ⟨.announce item hok.1 hok.2 rfl rfl rfl ?_ ?_ ?_ rfl ?_, fun _ => rfl⟩
    · simp [State.pending, hpc, Pc.inHand]
    · simp [State.pending, hpc, Pc.inHand]
    · simp [hpc, Pc.handed]
    · simp [State.finished, hpc]
  · rename_i site item
    cases h
    simp only [PcOk, hpc] at hok
    have hm := resume_movedOn { s with log := s.log ++ [item.toEvent] } site
    refine ⟨.handle item hok hm.log hm.announced hm.enqueued ?_ ?_ hm.handed ?_, hm.pcOk⟩
    · rw [hm.pending]
      simp [State.pending, hpc, Pc.inHand]
    · simp [hpc, Pc.handed]
    · exact ⟨by simp [State.finished, hpc], hm.unfinished⟩
  · rename_i event
    cases h
    simp only [PcOk, hpc] at hok
    refine ⟨.finish event hok rfl rfl rfl ?_ ?_ rfl ?_ (Or.inl rfl) (by simp), trivial⟩
    · simp [State.pending, hpc, Pc.inHand]
    · simp [hpc, Pc.handed]
    · simp [State.finished, hpc]
  · cases h
    refine ⟨.finish .stopped rfl rfl rfl rfl ?_ ?_ rfl ?_ (Or.inr rfl) (fun _ => rfl),
      trivial⟩
    · simp [State.pending, hpc, Pc.inHand]
    · simp [hpc, Pc.handed]
    · simp [State.finished, hpc]
  · cases h

/-- Dropping the future keeps everything but the await point. -/
theorem cancelled_spec {spawned : Bool} (h : cancelled s spawned = some t) :
    t = { s with pc := if spawned then .shutdown else .abandoned } ∧ s.pc.guarded = true ∧
      ¬s.finished := by
  by_cases hg : s.pc.guarded = true
  · rw [cancelled, if_pos hg] at h
    refine ⟨(Option.some.inj h).symm, hg, ?_⟩
    rintro (hpc | hpc) <;> simp [hpc, Pc.guarded] at hg
  · rw [cancelled, if_neg hg] at h
    cases h

theorem cancelled_pc {spawned : Bool} (h : cancelled s spawned = some t) :
    t.pc.inHand = [] ∧ t.pc.handed = [] ∧ ¬t.finished ∧ PcOk t := by
  obtain ⟨rfl, -, -⟩ := cancelled_spec h
  cases spawned <;> simp [Pc.inHand, Pc.handed, State.finished, PcOk]

theorem cancelled_effect {spawned : Bool} (hmid : ¬s.MidDelivery)
    (h : cancelled s spawned = some t) : Effect s t := by
  obtain ⟨hin, hhanded, ht, -⟩ := cancelled_pc h
  obtain ⟨rfl, -, hs⟩ := cancelled_spec h
  refine MovedOn.effect ⟨rfl, rfl, rfl, ?_, ?_, ht, ?_⟩ (not_not.1 hmid) hs
  · simp [State.pending, hin]
  · simp [hhanded]
  · exact (cancelled_pc h).2.2.2

/-- A future dropped inside the `deliver` of an item: the item is gone. -/
theorem cancelled_midDelivery {spawned : Bool} (hmid : s.MidDelivery)
    (h : cancelled s spawned = some t) :
    ∃ x, s.pending = x :: t.pending ∧ t.log = s.log ∧ t.announced = s.announced ∧
      t.enqueued = s.enqueued := by
  obtain ⟨hin, -, -, -⟩ := cancelled_pc h
  obtain ⟨x, hx⟩ : ∃ x, s.pc.inHand = [x] := by
    cases hpc : s.pc <;> simp_all [State.MidDelivery, Pc.inHand]
  obtain ⟨rfl, -, -⟩ := cancelled_spec h
  exact ⟨x, by simp [State.pending, hx, hin], rfl, rfl, rfl⟩

end Effects

/-! ### One step -/

section Step

variable {s t : State}

theorem recv_spec (h : step s .recv = some t) :
    s.pc = .select ∧ ∃ item rest, s.queue = item :: rest ∧
      t = deliver { s with queue := rest } .select item := by
  simp only [step] at h
  split at h
  · rename_i item rest hpc _ hq
    exact ⟨hpc, item, rest, hq, (Option.some.inj h).symm⟩
  · cases h

theorem recvClosed_spec (h : step s .recvClosed = some t) :
    s.queue = [] ∧ t = { s with receiver := false } := by
  simp only [step] at h
  split at h
  · rename_i _ _ hq
    split_ifs at h
    exact ⟨hq, (Option.some.inj h).symm⟩
  · cases h

theorem join_spec (h : step s .join = some t) :
    s.pc = .select ∧ ∃ o, s.tunnel = .ended o ∧
      t = resume { s with tunnel := s.tunnel.reaped } (.joined o) := by
  simp only [step] at h
  split at h
  · rename_i o hpc htunnel
    exact ⟨hpc, o, htunnel, (Option.some.inj h).symm⟩
  · cases h

theorem shutdown_spec (h : step s .shutdown = some t) :
    s.pc = .shutdown ∧ t = resume { s with tunnel := s.tunnel.reaped } .tail := by
  simp only [step] at h
  split at h
  · rename_i hpc
    exact ⟨hpc, (Option.some.inj h).symm⟩
  · cases h

theorem emit_spec {x : Inner} (h : step s (.emit x) = some t) :
    s.tunnel ≠ .none ∧ (t = s ∨ s.receiver = true ∧
      t = { s with queue := s.queue ++ [x], enqueued := s.enqueued ++ [x] }) := by
  simp only [step] at h
  split_ifs at h with hoff hr
  · exact ⟨fun hn => hoff (Or.inl hn), Or.inr ⟨hr, (Option.some.inj h).symm⟩⟩
  · exact ⟨fun hn => hoff (Or.inl hn), Or.inl (Option.some.inj h).symm⟩

theorem tunnelEnds_spec {o : Outcome} (h : step s (.tunnelEnds o) = some t) :
    s.tunnel = .running ∧ t = { s with tunnel := .ended o, beforeEnd := s.enqueued } := by
  simp only [step] at h
  split_ifs at h with hrun
  exact ⟨hrun, (Option.some.inj h).symm⟩

/-- A step that resumes a loop from an await point with nothing in hand. -/
theorem resume_effect (s : State) (task : Task) (site : Site) (hin : s.pc.inHand = [])
    (hs : ¬s.finished) : Effect s (resume { s with tunnel := task } site) := by
  have hm := resume_movedOn { s with tunnel := task } site
  exact MovedOn.effect ⟨hm.log, hm.announced, hm.enqueued, hm.pending, hm.handed, hm.unfinished,
    hm.pcOk⟩ hin hs

/-- **The effect of a step** that does not drop the future inside a `deliver`. -/
theorem step_effect {a : Action} (hf : Fresh s) (hok : PcOk s) (h : step s a = some t)
    (hmid : ∀ spawned, a = .cancel spawned → ¬s.MidDelivery) : Effect s t := by
  cases a with
  | run runtime => cases h; exact (callRun_effect hf runtime).1
  | stop => cases h; exact .of_pc_eq rfl rfl rfl rfl rfl
  | dropSenders => cases h; exact .of_pc_eq rfl rfl rfl rfl rfl
  | emit x =>
    rcases (emit_spec h).2 with rfl | ⟨-, rfl⟩
    · exact .of_pc_eq rfl rfl rfl rfl rfl
    · exact .enqueue x rfl rfl rfl (by simp [State.pending]) rfl
  | tunnelEnds o => obtain ⟨-, rfl⟩ := tunnelEnds_spec h; exact .of_pc_eq rfl rfl rfl rfl rfl
  | recv =>
    obtain ⟨hpc, item, rest, hq, rfl⟩ := recv_spec h
    have hm := deliver_movedOn { s with queue := rest } .select item
    exact MovedOn.effect ⟨hm.log, hm.announced, hm.enqueued, hm.pending.trans hq.symm, hm.handed,
      hm.unfinished, hm.pcOk⟩ (by rw [hpc]; rfl) (by simp [State.finished, hpc])
  | recvClosed => obtain ⟨-, rfl⟩ := recvClosed_spec h; exact .of_pc_eq rfl rfl rfl rfl rfl
  | join =>
    obtain ⟨hpc, o, -, rfl⟩ := join_spec h
    exact resume_effect s _ _ (by rw [hpc]; rfl) (by simp [State.finished, hpc])
  | complete => exact (completed_effect hok h).1
  | cancel spawned => exact cancelled_effect (hmid spawned rfl) h
  | shutdown =>
    obtain ⟨hpc, rfl⟩ := shutdown_spec h
    exact resume_effect s _ _ (by rw [hpc]; rfl) (by simp [State.finished, hpc])

theorem PcOk.step {a : Action} (hf : Fresh s) (hok : PcOk s) (h : step s a = some t) :
    PcOk t := by
  cases a with
  | run runtime => cases h; exact (callRun_effect hf runtime).2 hok
  | stop => cases h; exact hok
  | dropSenders => cases h; exact hok
  | emit x =>
    rcases (emit_spec h).2 with rfl | ⟨-, rfl⟩
    · exact hok
    · exact hok
  | tunnelEnds o => obtain ⟨-, rfl⟩ := tunnelEnds_spec h; exact hok
  | recv =>
    obtain ⟨-, item, rest, -, rfl⟩ := recv_spec h
    exact (deliver_movedOn { s with queue := rest } .select item).pcOk
  | recvClosed => obtain ⟨-, rfl⟩ := recvClosed_spec h; exact hok
  | join => obtain ⟨-, o, -, rfl⟩ := join_spec h; exact (resume_movedOn _ _).pcOk
  | complete => exact (completed_effect hok h).2
  | cancel spawned => exact (cancelled_pc h).2.2.2
  | shutdown => obtain ⟨-, rfl⟩ := shutdown_spec h; exact (resume_movedOn _ _).pcOk

end Step

/-! ### The items, in order -/

/-- The completed items of a log. -/
def items (log : List TunnelEvent) : List TunnelEvent := log.filter TunnelEvent.isItem

theorem items_concat_item (log : List TunnelEvent) (x : Inner) :
    items (log ++ [x.toEvent]) = items log ++ [x.toEvent] := by
  simp [items]

theorem items_concat_other (log : List TunnelEvent) {e : TunnelEvent} (h : e.isItem = false) :
    items (log ++ [e]) = items log := by
  simp [items, h]

theorem isItem_of_isTerminal {e : TunnelEvent} (h : e.isTerminal = true) : e.isItem = false := by
  cases e <;> simp_all [TunnelEvent.isTerminal, TunnelEvent.isItem]

/-- An event is an item, `Started` or a terminal one. -/
theorem eq_nil_of_items {log : List TunnelEvent} (hitems : items log = [])
    (hstarted : .started ∉ log) (hterminal : ∀ e ∈ log, e.isTerminal = false) : log = [] := by
  rw [List.eq_nil_iff_forall_not_mem]
  intro e he
  have hno := List.filter_eq_nil_iff.1 hitems e he
  have hterm := hterminal e he
  cases e <;> simp_all [TunnelEvent.isItem, TunnelEvent.isTerminal]

/-- The completed items followed by the pending ones are the enqueued ones without `k` lost. -/
def Flow (k : ℕ) (s : State) : Prop :=
  ∃ kept : List Inner, kept.Sublist s.enqueued ∧ kept.length + k = s.enqueued.length ∧
    items s.log ++ s.pending.map Inner.toEvent = kept.map Inner.toEvent

section Invariants

variable {s t : State} {k : ℕ}

theorem Flow.effect (h : Flow k s) (he : Effect s t) : Flow k t := by
  obtain ⟨kept, hsub, hlen, heq⟩ := h
  cases he with
  | quiet log _ enqueued pending => exact ⟨kept, enqueued ▸ hsub, by rw [hlen, enqueued],
      by rw [log, pending, heq]⟩
  | enqueue x log _ enqueued pending =>
    refine ⟨kept ++ [x], ?_, ?_, ?_⟩
    · rw [enqueued]
      exact hsub.append_right [x]
    · rw [enqueued, List.length_append, List.length_append, ← hlen]
      omega
    · rw [log, pending, List.map_append, ← List.append_assoc, heq, List.map_append]
  | announce x _ _ log _ enqueued pending =>
    exact ⟨kept, enqueued ▸ hsub, by rw [hlen, enqueued],
      by rw [log, pending, items_concat_other _ rfl, heq]⟩
  | handle x _ log _ enqueued pending =>
    refine ⟨kept, enqueued ▸ hsub, by rw [hlen, enqueued], ?_⟩
    rw [log, items_concat_item, ← heq, pending]
    simp
  | finish e terminal log _ enqueued pending =>
    exact ⟨kept, enqueued ▸ hsub, by rw [hlen, enqueued],
      by rw [log, pending, items_concat_other _ (isItem_of_isTerminal terminal), heq]⟩

/-- A future dropped inside a `deliver` loses one item. -/
theorem Flow.lost {spawned : Bool} (h : Flow k s) (hmid : s.MidDelivery)
    (hc : cancelled s spawned = some t) : Flow (k + 1) t := by
  obtain ⟨kept, hsub, hlen, heq⟩ := h
  obtain ⟨x, hpending, hlog, -, henq⟩ := cancelled_midDelivery hmid hc
  rw [hpending, List.map_cons] at heq
  obtain ⟨done, rest, rfl, hdone, hrest⟩ := List.map_eq_append_iff.1 heq.symm
  obtain ⟨y, rest, rfl, -, hrest⟩ := List.map_eq_cons_iff.1 hrest
  refine ⟨done ++ rest, ?_, ?_, ?_⟩
  · rw [henq]
    exact ((List.sublist_cons_self y rest).append_left done).trans hsub
  · rw [henq, ← hlen]
    simp only [List.length_append, List.length_cons]
    omega
  · rw [hlog, List.map_append, hdone, hrest]

/-- Without a loss the completed and the pending items are all of the enqueued ones. -/
theorem Flow.all (h : Flow 0 s) :
    items s.log ++ s.pending.map Inner.toEvent = s.enqueued.map Inner.toEvent := by
  obtain ⟨kept, hsub, hlen, heq⟩ := h
  rw [heq, hsub.eq_of_length (by omega)]

/-- The items are delivered, pending or lost. -/
theorem Flow.length (h : Flow k s) :
    (items s.log).length + s.pending.length + k = s.enqueued.length := by
  obtain ⟨kept, -, hlen, heq⟩ := h
  have hcount := congrArg List.length heq
  rw [List.length_append, List.length_map, List.length_map] at hcount
  omega

/-! ### `Started` -/

theorem append_cons_eq_concat {α : Type*} {l r m : List α} {e z : α}
    (h : m ++ [z] = l ++ e :: r) : l = m ∧ e = z ∨ ∃ r', m = l ++ e :: r' := by
  rcases List.eq_nil_or_concat r with rfl | ⟨r', y, rfl⟩
  · have := List.append_inj' h rfl
    exact Or.inl ⟨this.1.symm, by simpa using this.2.symm⟩
  · rw [List.concat_eq_append, ← List.cons_append, ← List.append_assoc] at h
    exact Or.inr ⟨r', (List.append_inj' h rfl).1⟩

/-- `Started` comes at most once, before every `ConnectionEstablished` and only for one. -/
structure Announced (s : State) : Prop where
  iff : s.announced = true ↔ .started ∈ s.log
  once : s.log.count .started ≤ 1
  first : ∀ l e r, s.log = l ++ e :: r → e.isEstablished = true → .started ∈ l
  due : s.announced = true → ∃ x ∈ s.enqueued, x.isEstablished = true

theorem Announced.of_eq (h : Announced s) (hlog : t.log = s.log)
    (hann : t.announced = s.announced) (henq : s.enqueued ⊆ t.enqueued) : Announced t where
  iff := by rw [hann, hlog]; exact h.iff
  once := hlog ▸ h.once
  first := hlog ▸ h.first
  due ht := by
    obtain ⟨x, hx, hest⟩ := h.due (hann ▸ ht)
    exact ⟨x, henq hx, hest⟩

/-- One more completed event, other than `Started`. -/
theorem Announced.concat (h : Announced s) {e : TunnelEvent} (hlog : t.log = s.log ++ [e])
    (hann : t.announced = s.announced) (henq : t.enqueued = s.enqueued) (hne : e ≠ .started)
    (hest : e.isEstablished = true → s.announced = true) : Announced t where
  iff := by rw [hann, h.iff, hlog]; simp [hne.symm]
  once := by rw [hlog, List.count_append]; simpa [hne] using h.once
  first := by
    intro l e' r heq he'
    rw [hlog] at heq
    rcases append_cons_eq_concat heq with ⟨rfl, rfl⟩ | ⟨r', hr'⟩
    · exact h.iff.1 (hest he')
    · exact h.first l e' r' hr' he'
  due := by rw [hann, henq]; exact h.due

/-- A pending item is one that was enqueued, as far as its event tells. -/
theorem Flow.exists_enqueued (h : Flow k s) {x : Inner} (hx : x ∈ s.pending) :
    ∃ y ∈ s.enqueued, y.toEvent = x.toEvent := by
  obtain ⟨kept, hsub, -, heq⟩ := h
  have hmem : x.toEvent ∈ kept.map Inner.toEvent := by
    rw [← heq]
    exact List.mem_append_right _ (List.mem_map_of_mem hx)
  obtain ⟨y, hy, hxy⟩ := List.mem_map.1 hmem
  exact ⟨y, hsub.subset hy, hxy⟩

theorem Announced.effect (h : Announced s) (hflow : Flow k s) (he : Effect s t) :
    Announced t := by
  cases he with
  | quiet log ann enqueued => exact h.of_eq log ann (by rw [enqueued]; exact List.Subset.refl _)
  | enqueue x log ann enqueued =>
    exact h.of_eq log ann (by rw [enqueued]; exact List.subset_append_left _ _)
  | announce x est fresh log ann enqueued _ head =>
    have hno : .started ∉ s.log := fun hin => by rw [h.iff.2 hin] at fresh; cases fresh
    refine ⟨by rw [ann, log]; simp, by rw [log]; simp [List.count_eq_zero.2 hno], ?_, fun _ => ?_⟩
    · intro l e r heq hest
      rw [log] at heq
      rcases append_cons_eq_concat heq with ⟨-, rfl⟩ | ⟨r', hr'⟩
      · cases hest
      · exact h.first l e r' hr' hest
    · obtain ⟨y, hy, hxy⟩ := hflow.exists_enqueued (x := x) (by rw [head]; simp)
      rw [enqueued]
      exact ⟨y, hy, by rw [← y.toEvent_isEstablished, hxy, x.toEvent_isEstablished, est]⟩
  | handle x ready log ann enqueued =>
    exact h.concat log ann enqueued x.toEvent_ne_started
      (by rw [Inner.toEvent_isEstablished]; exact ready)
  | finish e terminal log ann enqueued =>
    refine h.concat log ann enqueued ?_ ?_ <;> cases e <;>
      simp_all [TunnelEvent.isTerminal, TunnelEvent.isEstablished]

/-! ### The terminal event -/

/-- No terminal event before the stream is finished; then one, the last. -/
structure TerminalLast (s : State) : Prop where
  before : ¬s.finished → ∀ e ∈ s.log, e.isTerminal = false
  last : s.finished → ∃ body e, s.log = body ++ [e] ∧ e.isTerminal = true ∧
    (s.pc = .tailDone → e = .stopped) ∧ ∀ e ∈ body, e.isTerminal = false

theorem TerminalLast.of_log_eq (h : TerminalLast s) (hlog : t.log = s.log)
    (hpc : t.pc = s.pc ∨ ¬s.finished ∧ ¬t.finished) : TerminalLast t := by
  rcases hpc with hpc | ⟨hs, ht⟩
  · have hfin : t.finished ↔ s.finished := by simp [State.finished, hpc]
    exact ⟨fun ht => hlog ▸ h.before (fun hs => ht (hfin.2 hs)),
      fun ht => by rw [hlog, hpc]; exact h.last (hfin.1 ht)⟩
  · exact ⟨fun _ => hlog ▸ h.before hs, fun hfin => absurd hfin ht⟩

theorem TerminalLast.concat (h : TerminalLast s) {e : TunnelEvent} (hlog : t.log = s.log ++ [e])
    (he : e.isTerminal = false) (hs : ¬s.finished) (ht : ¬t.finished) : TerminalLast t := by
  refine ⟨fun _ e' he' => ?_, fun hfin => absurd hfin ht⟩
  rw [hlog, List.mem_append, List.mem_singleton] at he'
  rcases he' with he' | rfl
  · exact h.before hs e' he'
  · exact he

theorem TerminalLast.effect (h : TerminalLast s) (he : Effect s t) : TerminalLast t := by
  cases he with
  | quiet log _ _ _ _ pc => exact h.of_log_eq log pc
  | enqueue x log _ _ _ pc => exact h.of_log_eq log (Or.inl pc)
  | announce x _ _ log _ _ _ _ _ _ unfinished =>
    exact h.concat log rfl unfinished.1 unfinished.2
  | handle x _ log _ _ _ _ _ unfinished =>
    exact h.concat log x.toEvent_isTerminal unfinished.1 unfinished.2
  | finish e terminal log _ _ _ _ _ unfinished finished tail =>
    exact ⟨fun hn => absurd finished hn,
      fun _ => ⟨s.log, e, log, terminal, tail, h.before unfinished⟩⟩

end Invariants

end QuicTunnel.Ffi
