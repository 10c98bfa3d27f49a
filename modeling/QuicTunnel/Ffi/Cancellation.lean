import QuicTunnel.Ffi.Discipline

/-!
# Dropping the future of `run()`

`announce` is the stream the foreign side should see for a queue of items: each item once, in
order, with `Started` right before the first `Established`.  `Clean` says that what was delivered
so far, followed by what the pending items still call for, is that stream; every step keeps it but
one, a future dropped inside the `deliver` of an item.  That item has left the channel, and the
guard owns only the channel: nothing is lost on a cancellation exactly when it comes at another
await point.
-/

namespace QuicTunnel.Ffi

open Transition

/-! ### The stream of a queue -/

/-- The events owed for a list of items; `announced` is whether `Started` was delivered. -/
def announce (announced : Bool) : List Inner → List TunnelEvent
  | [] => []
  | x :: xs =>
    if x.isEstablished && !announced then .started :: x.toEvent :: announce true xs
    else x.toEvent :: announce announced xs

theorem announce_fresh {x : Inner} (h : x.isEstablished = true) (xs : List Inner) :
    announce false (x :: xs) = .started :: announce true (x :: xs) := by
  simp [announce, h]

theorem announce_ready {x : Inner} {announced : Bool}
    (h : x.isEstablished = true → announced = true) (xs : List Inner) :
    announce announced (x :: xs) = x.toEvent :: announce announced xs := by
  cases announced <;> simp_all [announce]

/-- Whether a list of items calls for a `Started`. -/
def anyEstablished (xs : List Inner) : Bool := xs.any Inner.isEstablished

theorem announce_append (announced : Bool) (xs ys : List Inner) :
    announce announced (xs ++ ys) =
      announce announced xs ++ announce (announced || anyEstablished xs) ys := by
  induction xs generalizing announced with
  | nil => simp [announce, anyEstablished]
  | cons x xs ih =>
    cases hest : x.isEstablished <;> cases announced <;>
      simp [announce, hest, ih, anyEstablished]

/-- The items of the stream of a queue are the items of the queue. -/
theorem items_announce (announced : Bool) (xs : List Inner) :
    items (announce announced xs) = xs.map Inner.toEvent := by
  induction xs generalizing announced with
  | nil => rfl
  | cons x xs ih =>
    unfold announce items
    split_ifs
    · rw [List.filter_cons_of_neg (by simp [TunnelEvent.isItem]),
        List.filter_cons_of_pos (by simp), List.map_cons]
      exact congrArg _ (ih true)
    · rw [List.filter_cons_of_pos (by simp), List.map_cons]
      exact congrArg _ (ih announced)

/-! ### A stream without a loss -/

/-- The log without its terminal event. -/
def body (log : List TunnelEvent) : List TunnelEvent := log.filter fun e => !e.isTerminal

/-- The delivered events and the ones the pending items still call for are the stream of all that
was enqueued; `seen` are the items delivered. -/
structure Clean (seen : List Inner) (s : State) : Prop where
  seen_pending : seen ++ s.pending = s.enqueued
  owed : body s.log ++ announce s.announced s.pending = announce false s.enqueued
  announced : s.announced = anyEstablished (seen ++ s.pc.handed)

section Clean

variable {s t : State} {seen : List Inner}

theorem anyEstablished_append (xs ys : List Inner) :
    anyEstablished (xs ++ ys) = (anyEstablished xs || anyEstablished ys) := List.any_append

/-- The item being delivered is a pending one. -/
theorem anyEstablished_handed (s : State) :
    (anyEstablished s.pc.handed || anyEstablished s.pending) = anyEstablished s.pending := by
  rw [State.pending]
  cases s.pc <;> simp [Pc.handed, Pc.inHand, anyEstablished]

/-- Moving to another await point hands over an `Established` only once it was announced. -/
theorem anyEstablished_move {pre old new : List Inner} {announced : Bool}
    (h : announced = anyEstablished (pre ++ old))
    (hmove : new = old ∨ old = [] ∧ ∀ x ∈ new, x.isEstablished = true → announced = true) :
    announced = anyEstablished (pre ++ new) := by
  rcases hmove with rfl | ⟨rfl, hnew⟩
  · exact h
  · rw [List.append_nil] at h
    rw [anyEstablished_append, ← h]
    cases hany : anyEstablished new with
    | false => simp
    | true =>
      obtain ⟨x, hx, hest⟩ := List.any_eq_true.1 hany
      simp [hnew x hx hest]

/-- **Every step but a cancellation inside a `deliver` keeps the stream clean.** -/
theorem Clean.effect (h : Clean seen s) (he : Effect s t) : ∃ seen', Clean seen' t := by
  cases he with
  | quiet log ann enqueued pending handed _ =>
    refine ⟨seen, by rw [pending, enqueued, h.seen_pending], ?_, ?_⟩
    · rw [log, ann, pending, enqueued, h.owed]
    · rw [ann]
      exact anyEstablished_move h.announced handed
  | enqueue x log ann enqueued pending pc =>
    refine ⟨seen, ?_, ?_, by rw [ann, pc]; exact h.announced⟩
    · rw [pending, enqueued, ← List.append_assoc, h.seen_pending]
    · have hann : (s.announced || anyEstablished s.pending) = anyEstablished s.enqueued := by
        rw [← h.seen_pending, h.announced, anyEstablished_append, anyEstablished_append,
          Bool.or_assoc, anyEstablished_handed]
      rw [log, ann, pending, enqueued, announce_append, announce_append, ← List.append_assoc,
        h.owed, hann, Bool.false_or]
  | announce x est fresh log ann enqueued pending head before handed _ =>
    refine ⟨seen, by rw [pending, enqueued, h.seen_pending], ?_, ?_⟩
    · rw [enqueued, ← h.owed, log, ann, pending, fresh, head, announce_fresh est]
      simp [body, TunnelEvent.isTerminal]
    · rw [ann, handed]
      simp [anyEstablished, est]
  | handle x ready log ann enqueued pending before handed _ =>
    refine ⟨seen ++ [x], ?_, ?_, ?_⟩
    · rw [enqueued, ← h.seen_pending, pending]
      simp
    · rw [enqueued, ← h.owed, log, ann, pending, announce_ready ready]
      simp [body]
    · have hann := h.announced
      rw [before] at hann
      rw [ann]
      refine anyEstablished_move ?_ (Or.inr ⟨(rfl : ([] : List Inner) = []), handed⟩)
      rw [List.append_nil]
      exact hann
  | finish e terminal log ann enqueued pending before handed _ _ _ =>
    refine ⟨seen, by rw [pending, enqueued, h.seen_pending], ?_, ?_⟩
    · rw [enqueued, ← h.owed, log, ann, pending]
      simp [body, terminal]
    · rw [ann, handed, ← before]
      exact h.announced

/-- With nothing in hand, the delivered events are the stream of the delivered items. -/
theorem Clean.body_eq (h : Clean seen s) (hin : s.pc.inHand = []) (hhanded : s.pc.handed = []) :
    seen ++ s.queue = s.enqueued ∧ body s.log = announce false seen := by
  have hpending : s.pending = s.queue := by rw [State.pending, hin]; rfl
  have hseen := h.seen_pending
  have howed := h.owed
  have hann := h.announced
  rw [hpending] at hseen howed
  rw [hhanded, List.append_nil] at hann
  rw [← hseen, announce_append, Bool.false_or, ← hann] at howed
  exact ⟨hseen, List.append_cancel_right howed⟩

end Clean

/-! ### The tail -/

theorem Effect.enqueued_prefix {s t : State} (h : Effect s t) : s.enqueued <+: t.enqueued := by
  cases h with
  | quiet _ _ enqueued => rw [enqueued]
  | enqueue _ _ _ enqueued => rw [enqueued]; exact List.prefix_append _ _
  | announce _ _ _ _ _ enqueued => rw [enqueued]
  | handle _ _ _ _ enqueued => rw [enqueued]
  | finish _ _ _ _ enqueued => rw [enqueued]

section Tail

variable {s t : State} {a : Action}

/-- A tail whose future was dropped in `s₀`: what was enqueued by then is out of the queue once
the drain is over. -/
structure TailOf (s₀ s : State) : Prop extends Discipline s where
  inTail : s.pc.inTail = true
  kept : s₀.enqueued <+: s.enqueued
  drained : s.pc.drained = true → s₀.enqueued.length + s.queue.length ≤ s.enqueued.length

/-- The steps of a tail: none of them drops a future. -/
theorem TailOf.step {s₀ : State} (h : TailOf s₀ s) (hstep : Ffi.step s a = some t) :
    TailOf s₀ t ∧ Effect s t := by
  have heff : Effect s t := by
    refine step_effect h.fresh h.pcOk hstep ?_
    rintro spawned rfl
    have := Pc.guarded_not_inTail (cancelled_spec hstep).2.1
    simp [h.inTail] at this
  have htail : t.pc.inTail = true := by
    by_contra hn
    have := (step_inTail h.fresh hstep (Bool.eq_false_iff.2 hn)).1
    simp [h.inTail] at this
  have hidle : s.pc ≠ .idle := by
    intro hpc
    have := h.inTail
    rw [hpc] at this
    cases this
  have hkept := h.kept.trans heff.enqueued_prefix
  refine ⟨⟨h.toDiscipline.step hstep, htail, hkept, fun hd => ?_⟩, heff⟩
  rcases h.toControl.step_drained hstep hd with hq | hpc | ⟨hs, hle⟩
  · rw [hq]
    exact hkept.length_le
  · exact absurd hpc hidle
  · have := h.drained hs
    omega

end Tail

/-! ### What a cancellation loses -/

/-- Nothing that was enqueued before the future was dropped in `s` is lost in `t`: `seen`, all of
it and perhaps more, was delivered, each item once and in order, with `Started` right before the
first `Established` and `Stopped` at the end; the rest is still in the channel. -/
def NothingLost (s t : State) : Prop :=
  ∃ seen, seen ++ t.queue = t.enqueued ∧ s.enqueued <+: seen ∧
    t.log = announce false seen ++ [.stopped]

section Cancel

variable {s c t : State} {spawned : Bool}

/-- Before the future is dropped the stream is clean. -/
theorem clean_of_runs {schedule : List Action} (h : runs step init schedule = some s)
    (hs : s.pc.inTail = false) : Discipline s ∧ ∃ seen, Clean seen s := by
  have key : Discipline s ∧ (s.pc.inTail = false → ∃ seen, Clean seen s) := by
    refine runs_invariant
      (P := fun s => Discipline s ∧ (s.pc.inTail = false → ∃ seen, Clean seen s))
      (fun s a t hP hstep => ⟨hP.1.step hstep, fun ht => ?_⟩) h
      ⟨discipline_init, fun _ => ⟨[], rfl, rfl, rfl⟩⟩
    obtain ⟨hin, hne⟩ := step_inTail hP.1.fresh hstep ht
    obtain ⟨seen, hclean⟩ := hP.2 hin
    exact hclean.effect (step_effect hP.1.fresh hP.1.pcOk hstep
      fun spawned ha => absurd ha (hne spawned))
  exact ⟨key.1, key.2 hs⟩

theorem tailOf_cancel (hd : Discipline s) (hc : step s (.cancel spawned) = some c) :
    TailOf s c := by
  have hspec := cancelled_spec hc
  refine ⟨hd.step hc, ?_, ?_, ?_⟩ <;> obtain ⟨rfl, -, -⟩ := hspec
  · cases spawned <;> rfl
  · exact List.prefix_rfl
  · cases spawned <;> simp [Pc.drained]

/-- What every effect keeps holds at the end of the tail. -/
theorem TailOf.run {s₀ : State} {Q : State → Prop} (hQ : ∀ u v, Q u → Effect u v → Q v)
    {schedule : List Action} (h : runs Ffi.step c schedule = some t) (hc : TailOf s₀ c) (hq : Q c) :
    TailOf s₀ t ∧ Q t :=
  runs_invariant (P := fun u => TailOf s₀ u ∧ Q u)
    (fun _ _ _ hu hstep => ⟨(hu.1.step hstep).1, hQ _ _ hu.2 (hu.1.step hstep).2⟩) h ⟨hc, hq⟩

theorem TailOf.nothingLost (h : TailOf s t) (hdone : t.pc = .tailDone) {seen : List Inner}
    (hclean : Clean seen t) : NothingLost s t := by
  obtain ⟨hseen, hbody⟩ := hclean.body_eq (by rw [hdone]; rfl) (by rw [hdone]; rfl)
  refine ⟨seen, hseen, ?_, ?_⟩
  · have hlen := h.drained (by rw [hdone]; rfl)
    have hkept := h.kept
    rw [← hseen] at hlen hkept
    rw [List.length_append] at hlen
    exact List.prefix_of_prefix_length_le hkept (List.prefix_append _ _) (by omega)
  · obtain ⟨before, e, hlog, he, hstop, hbefore⟩ := h.terminal.last (Or.inr hdone)
    have : body t.log = before := by
      rw [hlog, body, List.filter_append, List.filter_eq_self.2 fun x hx => by simp [hbefore x hx]]
      simp [he]
    rw [← hbody, this, hlog, hstop hdone]

/-- A tail with one item short cannot have delivered them all. -/
theorem Flow.not_nothingLost {k : ℕ} (h : Flow (k + 1) t) (hdone : t.pc = .tailDone) :
    ¬NothingLost s t := by
  rintro ⟨seen, hseen, -, hlog⟩
  obtain ⟨kept, -, hlen, heq⟩ := h
  have hitems : items t.log = seen.map Inner.toEvent := by
    rw [hlog, items_concat_other _ rfl, items_announce]
  have hpending : t.pending = t.queue := by rw [State.pending, hdone]; rfl
  have hcount := congrArg List.length heq
  rw [hitems, hpending, List.length_append, List.length_map, List.length_map, List.length_map]
    at hcount
  rw [← hseen, List.length_append] at hlen
  omega

end Cancel

/-- **What a cancellation loses.**  Drop the future of a polled `run()` at any await point and let
the tail finish: nothing is lost exactly when the future did not stand inside the `deliver` of an
item. -/
theorem cancel_loses_nothing_iff (schedule rest : List Action) (s c t : State)
    (hs : runs step init schedule = some s) (hc : step s (.cancel true) = some c)
    (ht : runs step c rest = some t) (hdone : t.pc = .tailDone) :
    NothingLost s t ↔ ¬s.MidDelivery := by
  have hout := Pc.guarded_not_inTail (cancelled_spec hc).2.1
  obtain ⟨hd, seen, hclean⟩ := clean_of_runs hs hout
  have htail := tailOf_cancel hd hc
  constructor
  · intro hnothing hmid
    obtain ⟨k, hflow, -⟩ := hd.flow
    obtain ⟨-, hshort⟩ := htail.run (Q := Flow (k + 1)) (fun _ _ h he => h.effect he) ht
      (hflow.lost hmid hc)
    exact hshort.not_nothingLost hdone hnothing
  · intro hmid
    have hclean' := hclean.effect (cancelled_effect hmid hc)
    obtain ⟨htail', seen', hfinal⟩ := htail.run (Q := fun u => ∃ seen, Clean seen u)
      (fun _ _ h he => h.elim fun _ h => h.effect he) ht hclean'
    exact htail'.nothingLost hdone hfinal

/-- A certificate and a first connection, both still queued. -/
def twoQueued : List Action :=
  [.run (.ok ()), .emit (.cert "PEM"), .emit (.conn (.established "SEC" "127.0.0.1:4433" .quic))]

/-- The tail that delivers them. -/
def twoDelivered : List Action := [.shutdown, .complete, .complete, .complete, .complete]

/-- Dropped in the `select!`: the queued certificate and `Started` come out in the tail. -/
theorem cancel_loses_nothing_in_select : ∃ s c t, runs step init twoQueued = some s ∧
    step s (.cancel true) = some c ∧ runs step c twoDelivered = some t ∧
    t.pc = .tailDone ∧ NothingLost s t :=
  ⟨_, _, _, rfl, rfl, rfl, rfl,
    (cancel_loses_nothing_iff twoQueued twoDelivered _ _ _ rfl rfl rfl rfl).2 (by decide)⟩

/-- Dropped while `on_event(CertIssued)` is executing: the certificate is never delivered. -/
theorem cancel_mid_delivery_loses_certificate : ∃ s c t,
    runs step init [.run (.ok ()), .emit (.cert "PEM"), .recv] = some s ∧
    step s (.cancel true) = some c ∧ runs step c [.shutdown, .complete] = some t ∧
    t.pc = .tailDone ∧ t.enqueued = [.cert "PEM"] ∧ t.log = [.stopped] ∧ ¬NothingLost s t := by
  refine ⟨_, _, _, rfl, rfl, rfl, rfl, rfl, rfl, ?_⟩
  rintro ⟨seen, hseen, -, hlog⟩
  have hone : seen = [.cert "PEM"] := by rw [← List.append_nil seen]; exact hseen
  rw [hone] at hlog
  exact absurd hlog (by decide)

end QuicTunnel.Ffi
