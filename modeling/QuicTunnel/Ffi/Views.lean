import QuicTunnel.Ffi.Whole

/-!
# What the foreign side sees of one connection

The events of all connections share one channel.  Seen from one connection the stream is the
connection's own: apart from `GaveUp`, which the loop adds at the join, what the foreign side is
told of a connection is an initial part of what its task reported, in the order it did.
-/

namespace QuicTunnel.Ffi.Whole

open Transition

/-! ### Definitions -/

/-- What a task has reported, apart from the `GaveUp` of its log. -/
def sessionReports (c : ConnectionRun.State) : List ConnectionEvent :=
  c.log.filter fun e => !e.isGaveUp

/-- An event of this connection that its own task reports. -/
def isReportOf (owner : String × String) (e : ConnectionEvent) : Bool :=
  !e.isGaveUp && decide (e.owner = owner)

/-- The items about a connection that its own task put into the channel. -/
def reports (owner : String × String) (xs : List Inner) : List ConnectionEvent :=
  (xs.filterMap event?).filter (isReportOf owner)

/-- Whether a foreign event is a report of this connection. -/
def about (owner : String × String) : TunnelEvent → Bool
  | .connectionEstablished tag addr _ => decide ((tag, addr) = owner)
  | .connectionLost tag addr _ _ => decide ((tag, addr) = owner)
  | .connectionAttemptFailed tag addr _ _ _ => decide ((tag, addr) = owner)
  | _ => false

/-- What the foreign side was told of a connection. -/
def told (owner : String × String) (log : List TunnelEvent) : List TunnelEvent :=
  log.filter (about owner)

/-! ### The channel, seen from one connection -/

section Lists

variable {owner : String × String}

theorem reports_append (xs ys : List Inner) :
    reports owner (xs ++ ys) = reports owner xs ++ reports owner ys := by
  simp [reports]

theorem reports_conn (events : List ConnectionEvent) :
    reports owner (events.map .conn) = events.filter (isReportOf owner) := by
  rw [reports, filterMap_event?_conn]

/-- Reports of the connection itself are all seen. -/
theorem reports_own {events : List ConnectionEvent}
    (h : ∀ e ∈ events, e.isGaveUp = false ∧ e.owner = owner) :
    reports owner (events.map .conn) = events := by
  rw [reports_conn]
  refine List.filter_eq_self.2 fun e he => ?_
  simp [isReportOf, h e he]

/-- Other items are not seen. -/
theorem reports_other {events : List ConnectionEvent}
    (h : ∀ e ∈ events, e.isGaveUp = false → e.owner ≠ owner) :
    reports owner (events.map .conn) = [] := by
  rw [reports_conn]
  refine List.filter_eq_nil_iff.2 fun e he => ?_
  simpa [isReportOf] using h e he

theorem about_conn (e : ConnectionEvent) :
    about owner (Inner.conn e).toEvent = isReportOf owner e := by
  cases e <;> rfl

/-- What the foreign side is told, by the items it was handed. -/
theorem told_items {log : List TunnelEvent} {xs : List Inner}
    (h : items log = xs.map Inner.toEvent) :
    told owner log = (reports owner xs).map .ofConnectionEvent := by
  have hitems : told owner log = told owner (items log) := by
    rw [told, told, items, List.filter_filter]
    refine List.filter_congr fun e _ => ?_
    cases e <;> simp [about, TunnelEvent.isItem, TunnelEvent.isTerminal]
  rw [hitems, h, told]
  clear h hitems
  induction xs with
  | nil => rfl
  | cons x xs ih =>
    rw [List.map_cons, List.filter_cons, ih]
    rcases x with pem | e
    · rfl
    · rw [about_conn, reports, reports, List.filterMap_cons]
      simp only [event?, List.filter_cons]
      split_ifs <;> rfl

end Lists

/-! ### The invariant -/

structure Reported (s : State) : Prop where
  /-- Only tasks that were spawned report. -/
  known : ∀ e ∈ s.stream.enqueued.filterMap event?, e.isGaveUp = false →
    e.owner ∈ s.tunnel.tasks.map Tunnel.Task.owner
  /-- The channel took a first part of what each task reported, all of it while it is open. -/
  views : ∀ (k : ℕ) (owner : String × String) (c : ConnectionRun.State),
    (s.tunnel.tasks.map Tunnel.Task.owner)[k]? = some owner → s.sessions[k]? = some c →
    reports owner s.stream.enqueued <+: sessionReports c ∧
      (s.stream.receiver = true → reports owner s.stream.enqueued = sessionReports c)

theorem reported_init (cfg : Config) : Reported (init cfg) where
  known := by simp [init, Ffi.init]
  views := by simp [init, Tunnel.init]

section Steps

variable {cfg : Config} {ids : ℕ → ℕ} {s t : State} {a : Action}

/-- A receiver that is dropped stays so. -/
theorem receiver_of_step {s t : Ffi.State} {a : Ffi.Action} (hstep : Ffi.step s a = some t)
    (ht : t.receiver = true) : s.receiver = true := by
  cases a with
  | run runtime =>
    cases hstep
    rcases callRun_cases s runtime with h | ⟨-, ⟨e, h⟩ | h⟩ <;> rw [h] at ht <;> exact ht
  | stop | dropSenders => cases hstep; exact ht
  | emit x => rcases (emit_spec hstep).2 with rfl | ⟨hr, -⟩ <;> assumption
  | tunnelEnds o => obtain ⟨-, rfl⟩ := tunnelEnds_spec hstep; exact ht
  | recv =>
    obtain ⟨-, item, rest, -, rfl⟩ := recv_spec hstep
    obtain ⟨pc, hd, -⟩ := deliver_frame { s with queue := rest } .select item
    rw [hd] at ht
    exact ht
  | recvClosed => obtain ⟨-, rfl⟩ := recvClosed_spec hstep; cases ht
  | join =>
    obtain ⟨-, o, -, rfl⟩ := join_spec hstep
    obtain ⟨pc, q, hr, -⟩ := resume_frame { s with tunnel := s.tunnel.reaped } (.joined o)
    rw [hr] at ht
    exact ht
  | complete =>
    simp only [Ffi.step, completed] at hstep
    split at hstep <;> cases hstep
    · exact ht
    · rename_i site item _
      obtain ⟨pc, q, hr, -⟩ := resume_frame { s with log := s.log ++ [item.toEvent] } site
      rw [hr] at ht
      exact ht
    · cases ht
    · cases ht
  | cancel spawned => obtain ⟨rfl, -, -⟩ := cancelled_spec hstep; exact ht
  | shutdown =>
    obtain ⟨-, rfl⟩ := shutdown_spec hstep
    obtain ⟨pc, q, hr, -⟩ := resume_frame { s with tunnel := s.tunnel.reaped } .tail
    rw [hr] at ht
    exact ht

/-- More items in the channel, none of them a report of a spawned task. -/
theorem Reported.takes (h : Reported s) {v : Tunnel.State} {u : Ffi.State} {xs : List Inner}
    (howners : v.tasks.map Tunnel.Task.owner = s.tunnel.tasks.map Tunnel.Task.owner)
    (henq : u.enqueued = s.stream.enqueued ++ xs) (hreceiver : u.receiver = s.stream.receiver)
    (hxs : ∀ e ∈ xs.filterMap event?, e.isGaveUp = true) :
    Reported ⟨v, s.sessions, u⟩ := by
  have hnone : ∀ owner, reports owner xs = [] := by
    intro owner
    refine List.filter_eq_nil_iff.2 fun e he => ?_
    simp [isReportOf, hxs e he]
  refine ⟨fun e he hgave => ?_, fun k owner c hk hc => ?_⟩
  · show e.owner ∈ v.tasks.map _
    rw [henq, List.filterMap_append] at he
    rw [howners]
    rcases List.mem_append.1 he with he | he
    · exact h.known e he hgave
    · exact absurd (hxs e he) (by simp [hgave])
  · show reports owner u.enqueued <+: _ ∧ (u.receiver = true → _)
    rw [henq, hreceiver, reports_append, hnone, List.append_nil]
    exact h.views k owner c (howners ▸ hk) hc

/-- A stream that takes nothing. -/
theorem Reported.stream (h : Reported s) {u : Ffi.State}
    (henq : u.enqueued = s.stream.enqueued)
    (hreceiver : u.receiver = true → s.stream.receiver = true) :
    Reported { s with stream := u } := by
  refine ⟨?_, fun k owner c hk hc => ?_⟩
  · show ∀ e ∈ u.enqueued.filterMap event?, _
    rw [henq]
    exact h.known
  · show reports owner u.enqueued <+: _ ∧ (u.receiver = true → _)
    rw [henq]
    obtain ⟨hinitial, hall⟩ := h.views k owner c hk hc
    exact ⟨hinitial, fun hr => hall (hreceiver hr)⟩

/-- What a task has reported after a step. -/
theorem sessionReports_step {ccfg : Session.Config} {c c' : ConnectionRun.State}
    {a : ConnectionRun.Action} (hstep : ConnectionRun.step ccfg c a = some c') :
    sessionReports c' = sessionReports c ++
      (c'.log.drop c.log.length).filter fun e => !e.isGaveUp := by
  have hlog := List.prefix_iff_eq_append.1 (ConnectionRun.log_prefix_of_step hstep)
  rw [sessionReports, sessionReports, ← List.filter_append, hlog]

/-- The task of one connection makes a step. -/
theorem Reported.session (h : Reported s) (hp : Parts cfg ids s)
    (hnodup : (s.tunnel.tasks.map Tunnel.Task.owner).Nodup) {k : ℕ}
    {a : ConnectionRun.Action} {task : Tunnel.Task} {c c' : ConnectionRun.State}
    {v : Tunnel.State} {u : Ffi.State}
    (htask : s.tunnel.tasks[k]? = some task) (hc : s.sessions[k]? = some c)
    (hc' : ConnectionRun.step (cfg.session task.owner) c a = some c')
    (hv : afterSession ids s.tunnel k task c' = some v)
    (hsend : send s.stream ((c'.log.drop c.log.length).filter fun e => !e.isGaveUp) = some u) :
    Reported ⟨v, s.sessions.set k c', u⟩ := by
  have howner : (s.tunnel.tasks.map Tunnel.Task.owner)[k]? = some task.owner := by
    rw [List.getElem?_map, htask]
    rfl
  -- all it reports is about its own connection
  have howned : ∀ e ∈ (c'.log.drop c.log.length).filter fun e => !e.isGaveUp,
      e.isGaveUp = false ∧ e.owner = task.owner := by
    intro e he
    obtain ⟨hlog, hgave⟩ := List.mem_filter.1 he
    have hreach := (hp.sessions.rel_of_getElem? howner hc).tail hc'
    exact ⟨by simpa using hgave,
      (ConnectionRun.ownReports_of_reach hreach).log e (List.mem_of_mem_drop hlog)⟩
  have hreports := sessionReports_step hc'
  generalize (c'.log.drop c.log.length).filter (fun e => !e.isGaveUp) = events at *
  obtain ⟨-, q, rfl⟩ := send_taken hsend
  obtain ⟨tasks, rfl, howners⟩ := afterSession_owners hv
  refine ⟨fun e he hgave => ?_, fun j owner d hj hd => ?_⟩
  · show e.owner ∈ tasks.map _
    rw [howners]
    rcases List.mem_append.1 (List.filterMap_append ▸ he) with he | he
    · exact h.known e he hgave
    · split_ifs at he
      · rw [filterMap_event?_conn] at he
        rw [(howned e he).2]
        exact List.mem_of_getElem? howner
      · cases he
  · show reports owner (_ ++ _) <+: _ ∧ (s.stream.receiver = true → reports owner (_ ++ _) = _)
    replace hj : (tasks.map Tunnel.Task.owner)[j]? = some owner := hj
    rw [howners] at hj
    rw [reports_append]
    by_cases hjk : j = k
    · subst hjk
      cases howner.symm.trans hj
      rw [List.getElem?_set_self (List.getElem?_eq_some_iff.1 hc).1] at hd
      cases hd
      obtain ⟨hinitial, hall⟩ := h.views j task.owner c howner hc
      rw [hreports]
      split_ifs with hr
      · rw [reports_own howned, hall hr]
        exact ⟨List.prefix_rfl, fun _ => rfl⟩
      · exact ⟨by simpa [reports] using hinitial.trans (List.prefix_append _ _),
          fun hr' => absurd hr' hr⟩
    · rw [List.getElem?_set_ne (Ne.symm hjk)] at hd
      have hne : owner ≠ task.owner := by
        rintro rfl
        exact hjk ((List.getElem?_inj (List.getElem?_eq_some_iff.1 hj).1 hnodup).1
          (hj.trans howner.symm))
      have hother : reports owner (events.map .conn) = [] :=
        reports_other fun e he _ heq => hne (heq.symm.trans (howned e he).2)
      have hnil : reports owner (if s.stream.receiver then events.map .conn else []) = [] := by
        split_ifs
        · exact hother
        · rfl
      rw [hnil, List.append_nil]
      exact h.views j owner d hj hd

/-- The loop spawns or joins a task. -/
theorem Reported.tunnel (h : Reported s) (hp : Parts cfg ids s) {a : Tunnel.Action}
    {v : Tunnel.State} {u : Ffi.State} (hv : Tunnel.step ids s.tunnel a = some v)
    (hnodup : (v.tasks.map Tunnel.Task.owner).Nodup)
    (hsend : send s.stream (v.log.drop s.tunnel.log.length) = some u) :
    Reported ⟨v, s.sessions ++
      (v.tasks.drop s.tunnel.tasks.length).map (spawned cfg s.tunnel.stop.value), u⟩ := by
  obtain ⟨new, hlog, hnew⟩ := (Tunnel.step_spec hv).log
  rw [hlog, List.drop_left] at hsend
  have howners := tunnel_owners hv
  have hlen : s.sessions.length = (s.tunnel.tasks.map Tunnel.Task.owner).length :=
    hp.sessions.length_eq.symm
  obtain ⟨-, q, rfl⟩ := send_taken hsend
  -- what the loop adds is `GaveUp` only
  have hquiet : Reported ⟨s.tunnel, s.sessions, { s.stream with
      queue := q
      enqueued := s.stream.enqueued ++ if s.stream.receiver then new.map .conn else [] }⟩ := by
    refine h.takes rfl rfl rfl fun e he => ?_
    split_ifs at he
    · rw [filterMap_event?_conn] at he
      exact hnew e he
    · cases he
  refine ⟨fun e he hgave => ?_, fun k owner c hk hc => ?_⟩
  · show e.owner ∈ v.tasks.map _
    rw [howners]
    exact List.mem_append_left _ (hquiet.known e he hgave)
  · replace hk : (v.tasks.map Tunnel.Task.owner)[k]? = some owner := hk
    rw [howners] at hk hnodup
    by_cases hlt : k < s.sessions.length
    · rw [List.getElem?_append_left (hlen ▸ hlt)] at hk
      rw [List.getElem?_append_left hlt] at hc
      exact hquiet.views k owner c hk hc
    · -- a task that has just been spawned: nothing was reported of its connection yet
      rw [List.getElem?_append_right (by omega)] at hk
      rw [List.getElem?_append_right (by omega), List.getElem?_map] at hc
      obtain ⟨task, -, rfl⟩ := Option.map_eq_some_iff.1 hc
      have hfresh : owner ∉ s.tunnel.tasks.map Tunnel.Task.owner := fun hmem =>
        List.disjoint_of_nodup_append hnodup hmem (List.mem_of_getElem? hk)
      have hnone : reports owner (s.stream.enqueued ++
          if s.stream.receiver then new.map .conn else []) = [] := by
        refine List.filter_eq_nil_iff.2 fun e he hreport => hfresh ?_
        simp only [isReportOf, Bool.and_eq_true, Bool.not_eq_eq_eq_not, Bool.not_true,
          decide_eq_true_eq] at hreport
        rw [← hreport.2]
        exact hquiet.known e he hreport.1
      show reports owner (_ ++ _) <+: _ ∧ (_ → reports owner (_ ++ _) = _)
      rw [hnone]
      exact ⟨List.nil_prefix, fun _ => rfl⟩

theorem Reported.step (h : Reported s) (hp : Parts cfg ids s)
    (hnodup : (Tunnel.connections cfg.tunnel).Nodup) (ht : Parts cfg ids t)
    (hstep : Step cfg ids s a t) : Reported t := by
  have hdistinct : ∀ {r : State}, Parts cfg ids r →
      (r.tunnel.tasks.map Tunnel.Task.owner).Nodup := fun hr =>
    (List.IsPrefix.sublist ⟨_, hr.tunnel.spawned⟩).nodup hnodup
  cases hstep with
  | stream hforeign hu =>
    exact h.stream (foreign_accepted hforeign hu).enqueued (receiver_of_step hu)
  | signal =>
    refine ⟨h.known, fun k owner c hk hc => ?_⟩
    rw [List.getElem?_map] at hc
    obtain ⟨c₀, hc₀, rfl⟩ := Option.map_eq_some_iff.1 hc
    exact h.views k owner c₀ hk hc₀
  | tunnel _ _ hv hsend => exact h.tunnel hp hv (hdistinct ht) hsend
  | session _ htask hc hc' hv hsend => exact h.session hp (hdistinct hp) htask hc hc' hv hsend
  | panics hv =>
    obtain ⟨tasks, rfl, howners⟩ := ends_owners hv
    exact h.takes howners (List.append_nil _).symm rfl nofun
  | cert hu =>
    obtain ⟨-, q, rfl⟩ := emit_taken hu
    refine h.takes rfl rfl rfl fun e he => ?_
    split_ifs at he <;> cases he
  | returns _ hu =>
    obtain ⟨-, rfl⟩ := tunnelEnds_spec hu
    exact h.stream rfl id
  | tunnelPanics hu =>
    obtain ⟨-, rfl⟩ := tunnelEnds_spec hu
    exact h.stream rfl id

end Steps

/-! ### The view -/

/-- **What the foreign side sees of one connection.**  In every reachable state, with every
connection configured once: a connection task has made a run of its own, one of the `Session`
machine until the tunnel is stopped; what the foreign side was told of it is, in this order, among
what the task reported; unless `run()` was cancelled it is an initial part of that; and it is all of
it whenever `run()` waits for the next event. -/
theorem connection_view (cfg : Config) (ids : ℕ → ℕ) (hids : ids.Injective)
    (hnodup : (Tunnel.connections cfg.tunnel).Nodup) (schedule : List Action) (s : State)
    (hrun : runs (step cfg ids) (init cfg) schedule = some s) (k : ℕ) (task : Tunnel.Task)
    (c : ConnectionRun.State) (htask : s.tunnel.tasks[k]? = some task)
    (hc : s.sessions[k]? = some c) :
    Reach (ConnectionRun.step (cfg.session task.owner))
        (ConnectionRun.init (cfg.session task.owner)) c ∧
      (s.tunnel.stop.value = false →
        Reach (Session.step (cfg.session task.owner)) (Session.init (cfg.session task.owner))
          c.toState) ∧
      (told task.owner s.stream.log).Sublist ((sessionReports c).map .ofConnectionEvent) ∧
      (s.stream.pc.inTail = false →
        told task.owner s.stream.log <+: (sessionReports c).map .ofConnectionEvent) ∧
      (s.stream.pc = .select → s.stream.queue = [] →
        told task.owner s.stream.log = (sessionReports c).map .ofConnectionEvent) := by
  obtain ⟨hp, ha⟩ := accounts_of_runs hids hrun
  obtain ⟨-, hreported⟩ := runs_invariant (P := fun s => Parts cfg ids s ∧ Reported s)
    (fun s a t h hstep => ⟨h.1.step hids (step_cases hstep),
      h.2.step h.1 hnodup (h.1.step hids (step_cases hstep)) (step_cases hstep)⟩) hrun
    ⟨parts_init cfg ids, reported_init cfg⟩
  have howner : (s.tunnel.tasks.map Tunnel.Task.owner)[k]? = some task.owner := by
    rw [List.getElem?_map, htask]
    rfl
  obtain ⟨hinitial, hall⟩ := hreported.views k task.owner c howner hc
  obtain ⟨n, hflow, hn⟩ := hp.stream.flow
  have hflow₀ : s.stream.pc.inTail = false → ∃ xs ys, s.stream.enqueued = xs ++ ys ∧
      items s.stream.log = xs.map Inner.toEvent ∧
      s.stream.pending.map Inner.toEvent = ys.map Inner.toEvent := by
    intro htail
    rw [hn htail] at hflow
    obtain ⟨xs, ys, henq, hxs, hys⟩ := List.map_eq_append_iff.1 hflow.all.symm
    exact ⟨xs, ys, henq, hxs.symm, hys.symm⟩
  have hreach := hp.sessions.rel_of_getElem? howner hc
  have hflag := hp.flags c (List.mem_of_getElem? hc)
  refine ⟨hreach, fun hstop => ConnectionRun.reach_session hreach (hflag.trans hstop), ?_,
    fun htail => ?_, fun hpc hqueue => ?_⟩
  · obtain ⟨kept, hsub, -, heq⟩ := hflow
    obtain ⟨xs, ys, rfl, hxs, -⟩ := List.map_eq_append_iff.1 heq.symm
    rw [told_items hxs.symm]
    refine List.Sublist.map _ (List.Sublist.trans ?_ hinitial.sublist)
    exact (((List.sublist_append_left xs ys).trans hsub).filterMap _).filter _
  · obtain ⟨xs, ys, henq, hxs, -⟩ := hflow₀ htail
    rw [told_items hxs]
    refine List.IsPrefix.map _ (List.IsPrefix.trans ?_ hinitial)
    rw [henq, reports_append]
    exact List.prefix_append _ _
  · have htail : s.stream.pc.inTail = false := by rw [hpc]; rfl
    obtain ⟨xs, ys, henq, hxs, hys⟩ := hflow₀ htail
    have hpending : s.stream.pending = [] := by
      rw [Ffi.State.pending, hpc, hqueue]
      rfl
    rw [hpending] at hys
    rw [List.map_eq_nil_iff.1 hys.symm, List.append_nil] at henq
    have hreceiver : s.stream.receiver = true := by
      by_contra hr
      have := (ha htail).receiver (Bool.eq_false_of_not_eq_true hr)
      rw [hpc] at this
      cases this
    rw [told_items hxs, ← henq, hall hreceiver]

/-- A primary and a secondary connection to one relay. -/
def twoConnections : Config := ⟨⟨["127.0.0.1:4433"], true⟩, .default, 1, false⟩

/-- Both come up, the secondary first, and the secondary is lost. -/
def lostRun : List Action :=
  [.stream (.run (.ok ())), .tunnel .spawn, .tunnel .spawn, .tunnel .spawn, .session 0 .enter,
    .session 1 .enter, .session 1 (.go .connected), .session 1 (.go .quicUp),
    .session 0 (.go .connected), .session 0 (.go .quicUp),
    .session 1 (.go (.quicEnded ⟨"reset", none⟩ none)), .stream .recv, .stream .complete,
    .stream .complete, .stream .recv, .stream .complete, .stream .recv, .stream .complete]

theorem connection_view_lostRun : ∃ s task c,
    runs (step twoConnections id) (init twoConnections) lostRun = some s ∧
      s.tunnel.tasks[1]? = some task ∧ s.sessions[1]? = some c ∧
      s.stream.log = [.started, .connectionEstablished "SEC" "127.0.0.1:4433" "quic",
        .connectionEstablished "PRI" "127.0.0.1:4433" "quic",
        .connectionLost "SEC" "127.0.0.1:4433" "quic" "reset"] ∧
      told task.owner s.stream.log = (sessionReports c).map .ofConnectionEvent :=
  let h := connection_view twoConnections id Function.injective_id (by decide) lostRun _ rfl 1 _ _
    rfl rfl
  ⟨_, _, _, rfl, rfl, rfl, by decide, h.2.2.2.2 rfl rfl⟩

end QuicTunnel.Ffi.Whole
