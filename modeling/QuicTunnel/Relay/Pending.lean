import QuicTunnel.Relay.Registration

/-!
# The map of pending challenges

`pending_alpn_insert`, `pending_alpn_remove` (`tunnel-server/src/lib.rs`) and `handle_acme`
(`tunnel-server/src/alpn.rs`), with the ACME waits of both transports around them.

A connection is in its wait from its insert to its remove: `State.waiting? k` is the id and the
token it holds there.  A step of the relay is a step of that function and of the map
(`step_wait`): it leaves both alone, or connection `k` enters its wait, or it leaves it.

* No token is held twice, and an entry belongs to the connection that holds its token (`Held`).
* The map has one entry for an id, and whoever comes last owns it.  A connection that leaves its
  wait while it owns the entry takes the entry away from all others that wait under its id.
-/

namespace QuicTunnel.Relay

open Transition

variable {env : Env} {cfg : Config}

/-! ### Waits -/

/-- The id and the token a handler holds between its insert and its remove. -/
def Pc.waiting? : Pc → Option (String × ℕ)
  | .sendAck id token | .waitDone id token | .removePending id token _ => some (id, token)
  | _ => none

/-- The id and the token connection `k` holds. -/
def State.waiting? (s : State) (k : ℕ) : Option (String × ℕ) := s.conns[k]?.bind (·.pc.waiting?)

/-- What a step of a handler is to its wait. -/
inductive Conn.Waits (token : ℕ) (c c' : Conn) : Input → MapOp → Prop
  | frame {i : Input} {op : MapOp} (hwait : c'.pc.waiting? = c.pc.waiting?)
    (hop : ∀ (s : State) (k : ℕ), (s.apply k op).pending = s.pending ∧
      (s.apply k op).nextToken = s.nextToken) : Waits token c c' i op
  | enter (id : String) (hbefore : c.pc.waiting? = none)
    (hwait : c'.pc.waiting? = some (id, token)) : Waits token c c' .run (.pendingInsert id token)
  | leave (id : String) (held : ℕ) (hbefore : c.pc.waiting? = some (id, held))
    (hwait : c'.pc.waiting? = none) : Waits token c c' .run (.pendingRemove id held)

theorem Conn.Move.waits {token : ℕ} {c c' : Conn} {i : Input} {op : MapOp}
    (hmove : c.Move env cfg token i c' op) : c.Waits token c' i op := by
  cases hmove with
  | data | fin => exact .frame rfl fun _ _ => ⟨rfl, rfl⟩
  | refused verdict hpc =>
    refine .frame ?_ fun _ _ => ⟨rfl, rfl⟩
    rcases hpc with hpc | hpc <;> rw [hpc] <;> rfl
  | timedOut verdict hpc =>
    refine .frame ?_ fun _ _ => ⟨rfl, rfl⟩
    cases hc : c.pc <;> simp [hc, Pc.inAuthExchange] at hpc <;> rfl
  | readFailed hread hframe hdone =>
    refine .frame ?_ fun _ _ => ⟨rfl, rfl⟩
    cases hc : c.pc <;> simp [hc, Pc.frame?] at hframe hdone <;> rfl
  | accepted hpc | opened hpc | noKeyAuth hpc | notUtf8 _ hpc | announced _ hpc
  | unidentified _ hpc | identified _ hpc | lookUp _ hpc | unauthorized hpc | authorized hpc
  | cached _ hpc | challenge _ hpc | acked hpc | notAcked hpc | done _ hpc | closed hpc =>
    refine .frame ?_ fun _ _ => ⟨rfl, rfl⟩
    rw [hpc]
    rfl
  | registered uid hpc =>
    refine .frame ?_ fun _ _ => ⟨rfl, rfl⟩
    rw [hpc]
    rfl
  | unlinked hpc =>
    refine .frame ?_ fun s k => ?_
    · rw [hpc]
      rfl
    · rw [State.apply_remove]
      exact ⟨rfl, rfl⟩
  | swept hpc =>
    refine .frame ?_ fun s k => ?_
    · rw [hpc]
      rfl
    · rw [State.apply_removeIfEmpty]
      exact ⟨rfl, rfl⟩
  | inserted hpc => exact .enter _ (by rw [hpc]; rfl) rfl
  | removed hpc | abandoned hpc => exact .leave _ _ (by rw [hpc]; rfl) rfl

/-- What a step of the relay is to the waits and to the map. -/
inductive Wait (s t : State) : Action → Prop
  | frame {a : Action} (hwaits : t.waiting? = s.waiting?) (hpending : t.pending = s.pending)
    (htoken : t.nextToken = s.nextToken) : Wait s t a
  | enter (k : ℕ) (id : String) (hbefore : s.waiting? k = none)
    (hwaits : t.waiting? = Function.update s.waiting? k (some (id, s.nextToken)))
    (hpending : t.pending = Function.update s.pending id (some (s.nextToken, k)))
    (htoken : t.nextToken = s.nextToken + 1) : Wait s t (.input k .run)
  | leave (k : ℕ) (id : String) (held : ℕ) (hbefore : s.waiting? k = some (id, held))
    (hwaits : t.waiting? = Function.update s.waiting? k none)
    (hpending : t.pending = if (s.pending id).map Prod.fst = some held then
      Function.update s.pending id none else s.pending)
    (htoken : t.nextToken = s.nextToken) : Wait s t (.input k .run)

theorem waiting_set {s t : State} {k : ℕ} {c c' : Conn} (hc : s.conns[k]? = some c)
    (hconns : t.conns = s.conns.set k c') :
    t.waiting? = Function.update s.waiting? k c'.pc.waiting? := by
  funext j
  unfold State.waiting?
  rw [hconns]
  by_cases hj : j = k
  · subst hj
    rw [Function.update_self, List.getElem?_set_self (List.getElem?_eq_some_iff.1 hc).1]
    rfl
  · rw [Function.update_of_ne hj, List.getElem?_set_ne (Ne.symm hj)]

theorem step_wait {s t : State} {a : Action} (h : step env cfg s a = some t) : Wait s t a := by
  cases a with
  | accept transport =>
    cases h
    refine .frame (funext fun j => ?_) rfl rfl
    unfold State.waiting?
    rw [List.getElem?_append]
    split_ifs with hj
    · rfl
    · rw [List.getElem?_eq_none (Nat.le_of_not_lt hj)]
      cases hnew : [Conn.incoming transport][j - s.conns.length]? with
      | none => rfl
      | some c =>
        cases List.mem_singleton.1 (List.mem_of_getElem? hnew)
        rfl
  | input k i =>
    obtain ⟨c, c', op, hc, hmove, rfl⟩ := step_input h
    have hwaiting : s.waiting? k = c.pc.waiting? := by
      rw [State.waiting?, hc]
      rfl
    have hwaits := waiting_set hc (State.conns_apply { s with conns := s.conns.set k c' } k op)
    cases hmove.waits with
    | frame hwait hop =>
      obtain ⟨hpending, htoken⟩ := hop { s with conns := s.conns.set k c' } k
      refine .frame ?_ hpending htoken
      rw [hwaits, hwait, ← hwaiting, Function.update_eq_self]
    | enter id hbefore hwait => exact .enter k id (hwaiting.trans hbefore) (hwait ▸ hwaits) rfl rfl
    | leave id held hbefore hwait =>
      refine .leave k id held (hwaiting.trans hbefore) (hwait ▸ hwaits) ?_ ?_
      all_goals rw [State.apply_pendingRemove]

/-! ### Ownership -/

/-- No token is held twice, and an entry belongs to the connection that holds its token. -/
structure Held (s : State) : Prop where
  fresh : ∀ k id token, s.waiting? k = some (id, token) → token < s.nextToken
  once : ∀ j k id id' token, s.waiting? j = some (id, token) → s.waiting? k = some (id', token) →
    j = k
  owner : ∀ id token k, s.pending id = some (token, k) → s.waiting? k = some (id, token)

/-- The entry that is removed is the one of the connection that leaves, if it has one. -/
theorem Held.pending_leave {s t : State} (h : Held s) {k : ℕ} {id : String} {held : ℕ}
    (hk : s.waiting? k = some (id, held))
    (hpending : t.pending = if (s.pending id).map Prod.fst = some held then
      Function.update s.pending id none else s.pending) (id' : String) :
    t.pending id' = if s.pending id' = some (held, k) then none else s.pending id' := by
  have hid : s.pending id' = some (held, k) → id' = id := fun hentry => by
    cases (h.owner id' held k hentry).symm.trans hk
    rfl
  rw [hpending]
  by_cases hfst : (s.pending id).map Prod.fst = some held
  · obtain ⟨⟨token, j⟩, hentry, rfl⟩ := Option.map_eq_some_iff.1 hfst
    obtain rfl : j = k := h.once j k id id token (h.owner id token j hentry) hk
    rw [if_pos hfst]
    by_cases heq : id' = id
    · subst heq
      rw [Function.update_self, if_pos hentry]
    · rw [Function.update_of_ne heq, if_neg fun hentry' => heq (hid hentry')]
  · rw [if_neg hfst, if_neg]
    intro hentry
    obtain rfl := hid hentry
    exact hfst (by rw [hentry]; rfl)

theorem Held.leave {s t : State} (h : Held s) {k : ℕ} {id : String} {held : ℕ}
    (hk : s.waiting? k = some (id, held)) (hwaits : t.waiting? = Function.update s.waiting? k none)
    (hpending : t.pending = if (s.pending id).map Prod.fst = some held then
      Function.update s.pending id none else s.pending)
    (htoken : t.nextToken = s.nextToken) : Held t := by
  have hsub : ∀ j id token, t.waiting? j = some (id, token) →
      j ≠ k ∧ s.waiting? j = some (id, token) := by
    intro j id token hj
    rw [hwaits] at hj
    by_cases hjk : j = k
    · subst hjk
      rw [Function.update_self] at hj
      cases hj
    · rw [Function.update_of_ne hjk] at hj
      exact ⟨hjk, hj⟩
  refine ⟨fun j id token hj => ?_, fun i j id id' token hi hj => ?_, fun id' token j hentry => ?_⟩
  · rw [htoken]
    exact h.fresh j id token (hsub j id token hj).2
  · exact h.once i j id id' token (hsub i id token hi).2 (hsub j id' token hj).2
  · rw [hwaits]
    rw [h.pending_leave hk hpending] at hentry
    split_ifs at hentry with hown
    have hj := h.owner id' token j hentry
    rw [Function.update_of_ne, hj]
    rintro rfl
    cases hj.symm.trans hk
    exact hown hentry

theorem Held.enter {s t : State} (h : Held s) {k : ℕ} {id : String} (hk : s.waiting? k = none)
    (hwaits : t.waiting? = Function.update s.waiting? k (some (id, s.nextToken)))
    (hpending : t.pending = Function.update s.pending id (some (s.nextToken, k)))
    (htoken : t.nextToken = s.nextToken + 1) : Held t := by
  have hcases : ∀ j id' token, t.waiting? j = some (id', token) →
      (j = k ∧ token = s.nextToken) ∨ s.waiting? j = some (id', token) := by
    intro j id' token hj
    rw [hwaits] at hj
    by_cases hjk : j = k
    · subst hjk
      rw [Function.update_self] at hj
      cases hj
      exact .inl ⟨rfl, rfl⟩
    · rw [Function.update_of_ne hjk] at hj
      exact .inr hj
  refine ⟨fun j id' token hj => ?_, fun i j id₁ id₂ token hi hj => ?_, fun id' token j hentry => ?_⟩
  · rw [htoken]
    rcases hcases j id' token hj with ⟨-, rfl⟩ | hold
    · exact Nat.lt_succ_self _
    · exact Nat.lt_succ_of_lt (h.fresh j id' token hold)
  · -- A token that was held before is not the one that was just drawn.
    rcases hcases i id₁ token hi with ⟨rfl, rfl⟩ | hi'
    · rcases hcases j id₂ _ hj with ⟨rfl, -⟩ | hj'
      · rfl
      · exact absurd (h.fresh j id₂ _ hj') (Nat.lt_irrefl _)
    · rcases hcases j id₂ token hj with ⟨rfl, rfl⟩ | hj'
      · exact absurd (h.fresh i id₁ _ hi') (Nat.lt_irrefl _)
      · exact h.once i j id₁ id₂ token hi' hj'
  · rw [hwaits]
    rw [hpending] at hentry
    by_cases hid : id' = id
    · subst hid
      rw [Function.update_self] at hentry
      cases hentry
      rw [Function.update_self]
    · rw [Function.update_of_ne hid] at hentry
      have hj := h.owner id' token j hentry
      rw [Function.update_of_ne, hj]
      rintro rfl
      cases hk.symm.trans hj

theorem Held.step {s t : State} {a : Action} (h : Held s)
    (hstep : Relay.step env cfg s a = some t) : Held t := by
  cases step_wait hstep with
  | frame hwaits hpending htoken =>
    exact ⟨by rw [hwaits, htoken]; exact h.fresh, by rw [hwaits]; exact h.once,
      by rw [hwaits, hpending]; exact h.owner⟩
  | enter k id hk hwaits hpending htoken => exact h.enter hk hwaits hpending htoken
  | leave k id held hk hwaits hpending htoken => exact h.leave hk hwaits hpending htoken

theorem held_init : Held init := ⟨nofun, nofun, nofun⟩

theorem held_of_runs {schedule : List Action} {s : State}
    (h : runs (step env cfg) init schedule = some s) : Held s :=
  runs_invariant (fun _ _ _ hs ht => Held.step hs ht) h held_init

/-- **No stale challenge.** Whatever the connections do, an entry belongs to a connection that is in
its wait and was authenticated under the entry's id.  A step of a connection in its wait keeps it
there and leaves the map alone, or it is its exit and takes its own entry out, if the map still has
it, and no other. -/
theorem pending_owned (env : Env) (cfg : Config) (schedule : List Action) (s : State)
    (h : runs (step env cfg) init schedule = some s) :
    (∀ id token k, s.pending id = some (token, k) →
      ∃ c, s.conns[k]? = some c ∧ c.pc.waiting? = some (id, token) ∧
        ∃ domain, Admitted env cfg c.seen id domain) ∧
    (∀ k i t id token, s.waiting? k = some (id, token) → step env cfg s (.input k i) = some t →
      t.waiting? k = some (id, token) ∧ t.pending = s.pending ∨
      t.waiting? k = none ∧ ∀ id', t.pending id' =
        if s.pending id' = some (token, k) then none else s.pending id') := by
  have hheld := held_of_runs h
  refine ⟨fun id token k hentry => ?_, fun k i t id token hk hstep => ?_⟩
  · obtain ⟨c, hc, -, hcomplete⟩ := (inv_of_runs h).pending id _ hentry
    have hwaiting := hheld.owner id token k hentry
    rw [State.waiting?, hc] at hwaiting
    exact ⟨c, hc, hwaiting, hcomplete.admitted⟩
  · cases step_wait hstep with
    | frame hwaits hpending => exact .inl ⟨by rw [hwaits, hk], hpending⟩
    | enter _ _ hbefore => cases hk.symm.trans hbefore
    | leave _ _ _ hbefore hwaits hpending =>
      cases hk.symm.trans hbefore
      exact .inr ⟨by rw [hwaits, Function.update_self], hheld.pending_leave hk hpending⟩

/-- An H2 connection of the sample client comes in, as connection `k`, and enters its wait. -/
def enterWait (k : ℕ) : List Action :=
  [.accept .h2, .input k (.peerCerts (some [sampleCert])), .input k .opened,
    .input k (.response [some (utf8 Sample.domain)]), .input k (.response [some Sample.signature]),
    .input k (.txtAnswer (some sampleTxt)), .input k (.response [some (utf8 "token.thumbprint")]),
    .input k .run, .input k .ackSent]

/-- The first of two waits was replaced, and its request fails. -/
theorem pending_owned_replaced :
    ∃ s, runs (step sampleEnv sampleConfig) init
        (enterWait 0 ++ enterWait 1 ++ [.input 0 .lost]) = some s ∧
      s.pending Sample.clientId = some (1, 1) ∧
      (∃ c, s.conns[1]? = some c ∧ c.pc.waiting? = some (Sample.clientId, 1)) ∧
      ∀ t, step sampleEnv sampleConfig s (.input 0 .run) = some t →
        t.pending Sample.clientId = some (1, 1) := by
  have hrun : (runs (step sampleEnv sampleConfig) init
      (enterWait 0 ++ enterWait 1 ++ [.input 0 .lost])).map
        (fun s => (s.pending Sample.clientId, s.waiting? 0)) =
      some (some (1, 1), some (Sample.clientId, 0)) := by decide +kernel
  obtain ⟨s, hs, hobserved⟩ := Option.map_eq_some_iff.1 hrun
  obtain ⟨hpending, hwaiting⟩ := Prod.mk.inj hobserved
  obtain ⟨howned, hexit⟩ := pending_owned sampleEnv sampleConfig _ s hs
  obtain ⟨c, hc, hwait, -⟩ := howned _ _ _ hpending
  refine ⟨s, hs, hpending, ⟨c, hc, hwait⟩, fun t ht => ?_⟩
  rcases hexit 0 .run t _ _ hwaiting ht with ⟨-, hsame⟩ | ⟨-, hsame⟩
  · rw [hsame, hpending]
  · rw [hsame, hpending]
    rfl

/-! ### Routing a validation -/

/-- Where `handle_acme` takes a validation connection. -/
inductive Routed
  /-- The server answers its own challenge. -/
  | server
  | client (k : ℕ)
  | dropped
  deriving DecidableEq

/-- `handle_acme`; `challenge` is the domain of the server's own challenge. -/
def handleAcme (challenge : Option String) (s : State) (host : String) : Routed :=
  if challenge = some host then .server
  else
    match (firstLabel host).bind s.pending with
    | some (_, k) => .client k
    | none => .dropped

/-- Whoever waits can be reached: the map has an entry of its id, and that of a connection in its
wait. -/
def Reachable (s : State) : Prop :=
  ∀ k id token, s.waiting? k = some (id, token) →
    ∃ token' k', s.pending id = some (token', k') ∧ s.waiting? k' = some (id, token')

/-- A connection that leaves its wait while it owns the entry is the only one that waits under its
id. -/
def LeavesAlone (s : State) : Action → Prop
  | .input k .run =>
    match s.waiting? k with
    | some (id, token) => s.pending id = some (token, k) →
      ∀ j < s.conns.length, j ≠ k → (s.waiting? j).map Prod.fst ≠ some id
    | none => True
  | _ => True

instance (s : State) (a : Action) : Decidable (LeavesAlone s a) := by
  unfold LeavesAlone
  split
  · split <;> infer_instance
  · infer_instance

theorem lt_of_waiting {s : State} {k : ℕ} {wait : String × ℕ} (h : s.waiting? k = some wait) :
    k < s.conns.length := by
  obtain ⟨c, hc, -⟩ := Option.bind_eq_some_iff.1 h
  exact (List.getElem?_eq_some_iff.1 hc).1

theorem Reachable.enter {s t : State} (h : Reachable s) {k : ℕ} {id : String}
    (hk : s.waiting? k = none)
    (hwaits : t.waiting? = Function.update s.waiting? k (some (id, s.nextToken)))
    (hpending : t.pending = Function.update s.pending id (some (s.nextToken, k))) :
    Reachable t := by
  intro j id' token hj
  rw [hwaits] at hj ⊢
  rw [hpending]
  by_cases hid : id' = id
  · -- The entry of the id is now the one of connection `k`.
    subst hid
    exact ⟨s.nextToken, k, by rw [Function.update_self], by rw [Function.update_self]⟩
  · have hj' : s.waiting? j = some (id', token) := by
      by_cases hjk : j = k
      · subst hjk
        rw [Function.update_self] at hj
        cases hj
        exact absurd rfl hid
      · rwa [Function.update_of_ne hjk] at hj
    obtain ⟨token', k', hentry, hk'⟩ := h j id' token hj'
    refine ⟨token', k', by rw [Function.update_of_ne hid, hentry], ?_⟩
    rw [Function.update_of_ne, hk']
    rintro rfl
    cases hk.symm.trans hk'

theorem Reachable.leave {s t : State} (h : Reachable s) (hheld : Held s) {k : ℕ} {id : String}
    {held : ℕ} (hk : s.waiting? k = some (id, held)) (halone : LeavesAlone s (.input k .run))
    (hwaits : t.waiting? = Function.update s.waiting? k none)
    (hpending : t.pending = if (s.pending id).map Prod.fst = some held then
      Function.update s.pending id none else s.pending) : Reachable t := by
  intro j id' token hj
  rw [hwaits] at hj ⊢
  have hjk : j ≠ k := by
    rintro rfl
    rw [Function.update_self] at hj
    cases hj
  rw [Function.update_of_ne hjk] at hj
  obtain ⟨token', k', hentry, hk'⟩ := h j id' token hj
  have hother : s.pending id' ≠ some (held, k) := by
    intro hown
    cases (hheld.owner id' held k hown).symm.trans hk
    simp only [LeavesAlone, hk] at halone
    exact halone hown j (lt_of_waiting hj) hjk (by rw [hj]; rfl)
  refine ⟨token', k', by rw [hheld.pending_leave hk hpending, if_neg hother, hentry], ?_⟩
  rw [Function.update_of_ne, hk']
  rintro rfl
  cases hk'.symm.trans hk
  exact hother hentry

theorem Reachable.step {s t : State} {a : Action} (h : Reachable s) (hheld : Held s)
    (halone : LeavesAlone s a) (hstep : Relay.step env cfg s a = some t) : Reachable t := by
  cases step_wait hstep with
  | frame hwaits hpending =>
    unfold Reachable
    rw [hwaits, hpending]
    exact h
  | enter k id hk hwaits hpending => exact h.enter hk hwaits hpending
  | leave k id held hk hwaits hpending => exact h.leave hheld hk halone hwaits hpending

/-- The condition is exact: a connection that leaves others behind makes them unreachable. -/
theorem not_reachable_of_leave {s t : State} {k : ℕ} (hheld : Held s)
    (hstep : Relay.step env cfg s (.input k .run) = some t)
    (hleft : ¬LeavesAlone s (.input k .run)) (hgone : t.waiting? k = none) : ¬Reachable t := by
  simp only [LeavesAlone] at hleft
  rcases hk : s.waiting? k with _ | ⟨id, token⟩
  · rw [hk] at hleft
    exact absurd trivial hleft
  rw [hk] at hleft
  simp only [not_forall, not_not] at hleft
  obtain ⟨hown, j, -, hjk, hfst⟩ := hleft
  obtain ⟨⟨_, token'⟩, hj, rfl⟩ := Option.map_eq_some_iff.1 hfst
  intro hreach
  cases step_wait hstep with
  | frame hwaits => cases hgone.symm.trans (hwaits ▸ hk)
  | enter _ _ hbefore => cases hk.symm.trans hbefore
  | leave _ _ _ hbefore hwaits hpending =>
    cases hk.symm.trans hbefore
    obtain ⟨_, _, hentry, -⟩ := hreach j _ token' (by rw [hwaits, Function.update_of_ne hjk, hj])
    rw [hheld.pending_leave hk hpending, if_pos hown] at hentry
    cases hentry

/-- **Who waits can be reached** in every run in which a connection that leaves its wait while it
owns the entry leaves no other behind: `handle_acme` takes a validation for its id to a connection
that is in its wait. -/
theorem waiting_reachable (env : Env) (cfg : Config) (schedule : List Action) (s : State)
    (h : runs (step env cfg) init schedule = some s)
    (halone : Meets (step env cfg) LeavesAlone init schedule) :
    ∀ k id token, s.waiting? k = some (id, token) →
      (s.pending id).isSome = true ∧
      ∀ host challenge, firstLabel host = some id → challenge ≠ some host →
        ∃ k' token', handleAcme challenge s host = .client k' ∧
          s.waiting? k' = some (id, token') := by
  obtain ⟨-, hreach⟩ := runs_invariant_of_meets (P := fun s => Held s ∧ Reachable s)
    (fun _ _ _ hs hg ht => ⟨hs.1.step ht, hs.2.step hs.1 hg ht⟩) h halone ⟨held_init, nofun⟩
  intro k id token hk
  obtain ⟨token', k', hentry, hk'⟩ := hreach k id token hk
  refine ⟨by rw [hentry]; rfl, fun host challenge hhost hserver => ⟨k', token', ?_, hk'⟩⟩
  rw [handleAcme, if_neg hserver, hhost, Option.bind_some, hentry]

/-- The first of two waits is over: the second is reached. -/
theorem waiting_reachable_second :
    ∃ s, runs (step sampleEnv sampleConfig) init
        (enterWait 0 ++ enterWait 1 ++ [.input 0 .lost, .input 0 .run]) = some s ∧
      s.waiting? 1 = some (Sample.clientId, 1) ∧
      ∃ k' token', handleAcme none s Sample.domain = .client k' ∧
        s.waiting? k' = some (Sample.clientId, token') := by
  have hrun : (runs (step sampleEnv sampleConfig) init
      (enterWait 0 ++ enterWait 1 ++ [.input 0 .lost, .input 0 .run])).map (·.waiting? 1) =
      some (some (Sample.clientId, 1)) := by decide +kernel
  obtain ⟨s, hs, hwaiting⟩ := Option.map_eq_some_iff.1 hrun
  refine ⟨s, hs, hwaiting, ?_⟩
  exact (waiting_reachable sampleEnv sampleConfig _ s hs (by decide +kernel) 1 _ _ hwaiting).2
    Sample.domain none (by decide +kernel) nofun

/-- The second of two waits is over: the first, which still waits, is not reached. -/
theorem waiting_unreachable :
    ∃ s, runs (step sampleEnv sampleConfig) init
        (enterWait 0 ++ enterWait 1 ++ [.input 1 .lost, .input 1 .run]) = some s ∧
      s.waiting? 0 = some (Sample.clientId, 0) ∧ s.pending Sample.clientId = none ∧
      handleAcme none s Sample.domain = .dropped := by
  have hrun : (runs (step sampleEnv sampleConfig) init
      (enterWait 0 ++ enterWait 1 ++ [.input 1 .lost, .input 1 .run])).map
        (fun s => (s.waiting? 0, s.pending Sample.clientId, handleAcme none s Sample.domain)) =
      some (some (Sample.clientId, 0), none, .dropped) := by decide +kernel
  obtain ⟨s, hs, hobserved⟩ := Option.map_eq_some_iff.1 hrun
  simp only [Prod.mk.injEq] at hobserved
  exact ⟨s, hs, hobserved⟩

end QuicTunnel.Relay
