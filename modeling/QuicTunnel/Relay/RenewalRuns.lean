import QuicTunnel.Base.SideBySide
import QuicTunnel.Relay.Renewal

/-!
# Whole runs of the certificate resolver

What `DiskCertResolver` keeps to over any run of its calls and tasks (`Renewal`).

* `Effect` is what each step does to the whole resolver;
* `Exclusive`: the flag is set exactly while one task is under way, and never are there two;
* `Holds P`: all that calls and tasks carry satisfies `P`, when what the loads bring does.
-/

namespace QuicTunnel.Relay.Renewal

variable {κ : Type} {renewal : Option AcmeRenewalConfig} {s s' : Resolver κ} {i j : ℕ}
  {a : Action κ}

/-! ### What a step does -/

/-- The certificate that a call carries. -/
def Call.cert : Call κ → Option κ
  | .resolving => none
  | .reading ck | .timing ck _ | .checking ck _ | .waiting ck _ _ | .claiming ck _ _ => some ck
  | .returned result => result

/-- The certificate that a task carries, with its expiry. -/
def Task.result : Task κ → Option (κ × ℤ)
  | .provisioned result | .locked result => result
  | _ => none

/-- A task that still holds the guard of `renewing`. -/
def Task.live : Task κ → Bool
  | .ended => false
  | _ => true

/-- What a step does. -/
inductive Effect (s : Resolver κ) : Action κ → Resolver κ → Prop
  | tick {elapsed : ℕ} :
      Effect s (.tick elapsed) { s with wall := s.wall + elapsed, now := s.now + elapsed }
  | handshake : Effect s .handshake { s with calls := s.calls ++ [.resolving] }
  | hit {i : ℕ} {reload : Option (κ × ℤ)} {e : CachedCert κ} :
      s.calls[i]? = some .resolving → s.fresh = some e →
      Effect s (.resolve i reload) (s.goto i (.reading e.certifiedKey))
  | reloaded {i : ℕ} {ck : κ} {notAfter : ℤ} : s.calls[i]? = some .resolving → s.fresh = none →
      Effect s (.resolve i (some (ck, notAfter)))
        { s.goto i (.reading ck) with cache := some ⟨ck, s.now, notAfter⟩ }
  | stale {i : ℕ} : s.calls[i]? = some .resolving → s.fresh = none →
      Effect s (.resolve i none) (s.goto i (.returned (s.cache.map (·.certifiedKey))))
  | goes {i : ℕ} {c pc : Call κ} {ck : κ} : s.calls[i]? = some c → c.cert = some ck →
      pc.cert = some ck → Effect s (.call i) (s.goto i pc)
  | starts {i : ℕ} {c : Call κ} {ck : κ} : s.calls[i]? = some c → c.cert = some ck →
      s.renewing = false →
      Effect s (.call i) { s.goto i (.returned (some ck)) with
        renewing := true, tasks := s.tasks ++ [.provisioning] }
  | provisioned {j : ℕ} {result : Option (κ × ℤ)} : s.tasks[j]? = some .provisioning →
      Effect s (.provision j result) (s.gotoTask j (.provisioned result))
  | aborted {j : ℕ} : s.tasks[j]? = some .provisioning →
      Effect s (.abort j) { s.gotoTask j .ended with renewing := false }
  | locked {j : ℕ} {result : Option (κ × ℤ)} : s.tasks[j]? = some (.provisioned result) →
      Effect s (.task j) { s.gotoTask j (.locked result) with backoffHeld := true }
  | cached {j : ℕ} {ck : κ} {notAfter : ℤ} : s.tasks[j]? = some (.locked (some (ck, notAfter))) →
      Effect s (.task j) { s.gotoTask j .cached with cache := some ⟨ck, s.now, notAfter⟩ }
  | unlocked {j : ℕ} {t : Task κ} {backoff : RenewalBackoff} : s.tasks[j]? = some t → t.live →
      t ≠ .provisioning →
      Effect s (.task j) { s.gotoTask j .unlocked with backoff := backoff, backoffHeld := false }
  | ended {j : ℕ} : s.tasks[j]? = some .unlocked →
      Effect s (.task j) { s.gotoTask j .ended with renewing := false }

theorem resolve_effect {reload : Option (κ × ℤ)} (hget : s.calls[i]? = some .resolving) :
    Effect s (.resolve i reload) (s.resolve i reload) := by
  unfold Resolver.resolve
  rcases hfresh : s.fresh with _ | e
  · rcases reload with _ | ⟨ck, notAfter⟩
    · exact .stale hget hfresh
    · exact .reloaded hget hfresh
  · exact .hit hget hfresh

theorem advance_effect {c : Call κ} (hget : s.calls[i]? = some c)
    (h : s.advance renewal i c = some s') : Effect s (.call i) s' := by
  cases c with
  | resolving | returned => cases h
  | reading =>
    cases renewal <;> cases h <;> exact .goes hget rfl rfl
  | timing =>
    obtain ⟨r, -, rfl⟩ := Option.map_eq_some_iff.1 h
    split_ifs <;> exact .goes hget rfl rfl
  | checking =>
    simp only [Resolver.advance] at h
    split_ifs at h
    cases h
    exact .goes hget rfl rfl
  | waiting =>
    simp only [Resolver.advance] at h
    split_ifs at h <;> cases h <;> exact .goes hget rfl rfl
  | claiming =>
    simp only [Resolver.advance] at h
    split_ifs at h with hrenewing
    · cases h
      exact .goes hget rfl rfl
    · cases h
      exact .starts hget rfl (Bool.eq_false_of_not_eq_true hrenewing)

theorem finish_effect {t : Task κ} (hget : s.tasks[j]? = some t) (h : s.finish j t = some s') :
    Effect s (.task j) s' := by
  cases t with
  | provisioning | ended => cases h
  | provisioned =>
    simp only [Resolver.finish] at h
    split_ifs at h
    cases h
    exact .locked hget
  | locked result =>
    rcases result with _ | ⟨ck, notAfter⟩
    · cases h
      exact .unlocked hget rfl (fun ht => by cases ht)
    · cases h
      exact .cached hget
  | cached =>
    cases h
    exact .unlocked hget rfl (fun ht => by cases ht)
  | unlocked =>
    cases h
    exact .ended hget

/-- Every step has one of the effects. -/
theorem step_effect (h : step renewal s a = some s') : Effect s a s' := by
  cases a with
  | tick =>
    cases h
    exact .tick
  | handshake =>
    cases h
    exact .handshake
  | resolve i reload =>
    simp only [step] at h
    split at h <;> cases h
    exact resolve_effect ‹_›
  | call i =>
    obtain ⟨c, hget, h⟩ := Option.bind_eq_some_iff.1 h
    exact advance_effect hget h
  | provision j result =>
    simp only [step] at h
    split at h <;> cases h
    exact .provisioned ‹_›
  | task j =>
    obtain ⟨t, hget, h⟩ := Option.bind_eq_some_iff.1 h
    exact finish_effect hget h
  | abort j =>
    simp only [step] at h
    split at h <;> cases h
    exact .aborted ‹_›

/-! ### One task at a time -/

/-- One task is under way while the flag is set, and none otherwise. -/
def Exclusive (s : Resolver κ) : Prop := s.tasks.countP Task.live = if s.renewing then 1 else 0

/-- A task under way goes on. -/
theorem Exclusive.goes (hs : Exclusive s) {t t' : Task κ} (hget : s.tasks[j]? = some t)
    (ht : t.live) (htasks : s'.tasks = s.tasks.set j t') (ht' : t'.live)
    (hflag : s'.renewing = s.renewing) : Exclusive s' := by
  have hcount := List.countP_set_add Task.live hget t'
  rw [if_pos ht, if_pos ht', hs] at hcount
  rw [Exclusive, htasks, hflag]
  exact Nat.add_right_cancel hcount

/-- The task under way ends. -/
theorem Exclusive.ends (hs : Exclusive s) {t : Task κ} (hget : s.tasks[j]? = some t)
    (ht : t.live) (htasks : s'.tasks = s.tasks.set j .ended)
    (hflag : s'.renewing = false) : Exclusive s' := by
  have hcount := List.countP_set_add Task.live hget .ended
  rw [if_pos ht, if_neg (by exact nofun), hs] at hcount
  rw [Exclusive, htasks, hflag, if_neg (by exact nofun)]
  split_ifs at hcount <;> omega

theorem Exclusive.effect (hs : Exclusive s) (h : Effect s a s') : Exclusive s' := by
  cases h with
  | tick | handshake | hit | reloaded | stale | goes => exact hs
  | starts _ _ hflag =>
    unfold Exclusive at *
    rw [List.countP_append, hs, hflag]
    rfl
  | provisioned hget => exact hs.goes hget rfl rfl rfl rfl
  | locked hget => exact hs.goes hget rfl rfl rfl rfl
  | cached hget => exact hs.goes hget rfl rfl rfl rfl
  | unlocked hget hlive => exact hs.goes hget hlive rfl rfl rfl
  | aborted hget => exact hs.ends hget rfl rfl rfl
  | ended hget => exact hs.ends hget rfl rfl rfl

theorem exclusive_init (wall : ℤ) (now : Instant) : Exclusive (init κ wall now) := rfl

/-- Two tasks under way are one. -/
theorem Exclusive.unique (hs : Exclusive s) {k : ℕ} {t u : Task κ} (hj : s.tasks[j]? = some t)
    (hk : s.tasks[k]? = some u) (ht : t.live) (hu : u.live) : j = k := by
  by_contra hne
  have hcount := List.countP_set_add Task.live hj .ended
  have hk' : (s.tasks.set j .ended)[k]? = some u := by
    rw [List.getElem?_set_ne hne]
    exact hk
  have hpos : 0 < (s.tasks.set j .ended).countP Task.live :=
    List.countP_pos_iff.2 ⟨u, List.mem_of_getElem? hk', hu⟩
  rw [if_pos ht, if_neg (by exact nofun), hs] at hcount
  split_ifs at hcount <;> omega

/-- **Renewals do not overlap.**  In every run, one renewal task is under way while `renewing` is
set, from the call that starts it to the drop of its guard, and none is while it is clear. -/
theorem renewals_exclusive (renewal : Option AcmeRenewalConfig) (wall : ℤ) (now : Instant)
    (actions : List (Action κ)) (s : Resolver κ)
    (hrun : Transition.runs (step renewal) (init κ wall now) actions = some s) :
    s.tasks.countP Task.live = if s.renewing then 1 else 0 :=
  Transition.runs_invariant (P := Exclusive) (fun _ _ _ hs h => hs.effect (step_effect h)) hrun
    (exclusive_init wall now)

/-- Of two calls that passed both checks, the first starts a renewal and the second does not. -/
theorem renewals_exclusive_passed :
    (∃ s, Transition.runs (step thirtyDays) (init ℕ 0 0) (bothPassed ++ [.call 0, .call 1]) =
      some s ∧ s.renewing = true) ∧
    ∀ s, Transition.runs (step thirtyDays) (init ℕ 0 0) (bothPassed ++ [.call 0, .call 1]) =
      some s → s.tasks.countP Task.live = if s.renewing then 1 else 0 :=
  ⟨⟨_, rfl, rfl⟩, fun s h => renewals_exclusive thirtyDays 0 0 _ s h⟩

/-! ### What calls and tasks carry -/

/-- What the action brings satisfies `P`. -/
def Action.Brings (P : κ → Prop) : Action κ → Prop
  | .resolve _ result | .provision _ result => ∀ r ∈ result, P r.1
  | _ => True

/-- Every certificate in the resolver satisfies `P`. -/
structure Holds (P : κ → Prop) (s : Resolver κ) : Prop where
  cache : ∀ e ∈ s.cache, P e.certifiedKey
  calls : ∀ c ∈ s.calls, ∀ ck ∈ c.cert, P ck
  tasks : ∀ t ∈ s.tasks, ∀ r ∈ t.result, P r.1

section Holds

variable {P Q : κ → Prop}

theorem holds_init (wall : ℤ) (now : Instant) : Holds P (init κ wall now) :=
  ⟨fun _ h => (by cases h), fun _ h => (by cases h), fun _ h => (by cases h)⟩

theorem Action.Brings.mono (ha : a.Brings P) (hPQ : ∀ ck, P ck → Q ck) : a.Brings Q := by
  cases a with
  | resolve | provision => exact fun r hr => hPQ _ (ha r hr)
  | _ => trivial

theorem Holds.mono (hs : Holds P s) (hPQ : ∀ ck, P ck → Q ck) : Holds Q s :=
  ⟨fun e he => hPQ _ (hs.cache e he), fun c hc ck hck => hPQ _ (hs.calls c hc ck hck),
    fun t ht r hr => hPQ _ (hs.tasks t ht r hr)⟩

theorem Holds.goto (hs : Holds P s) {pc : Call κ} (hpc : ∀ ck ∈ pc.cert, P ck) :
    Holds P (s.goto i pc) := by
  refine ⟨hs.cache, fun c hc => ?_, hs.tasks⟩
  rcases List.mem_or_eq_of_mem_set hc with hold | rfl
  · exact hs.calls c hold
  · exact hpc

theorem Holds.gotoTask (hs : Holds P s) {pc : Task κ} (hpc : ∀ r ∈ pc.result, P r.1) :
    Holds P (s.gotoTask j pc) := by
  refine ⟨hs.cache, hs.calls, fun t ht => ?_⟩
  rcases List.mem_or_eq_of_mem_set ht with hold | rfl
  · exact hs.tasks t hold
  · exact hpc

theorem Holds.store (hs : Holds P s) {ck : κ} (hck : P ck) {loadedAt : Instant} {notAfter : ℤ} :
    Holds P { s with cache := some ⟨ck, loadedAt, notAfter⟩ } :=
  ⟨fun e he => by cases he; exact hck, hs.calls, hs.tasks⟩

theorem Holds.effect (hs : Holds P s) (ha : a.Brings P) (h : Effect s a s') : Holds P s' := by
  have carried {i : ℕ} {c : Call κ} {ck : κ} (hget : s.calls[i]? = some c)
      (hck : c.cert = some ck) : P ck := hs.calls c (List.mem_of_getElem? hget) ck hck
  cases h with
  | tick => exact ⟨hs.cache, hs.calls, hs.tasks⟩
  | handshake =>
    refine ⟨hs.cache, fun c hc => ?_, hs.tasks⟩
    rcases List.mem_append.1 hc with hold | hnew
    · exact hs.calls c hold
    · rw [List.mem_singleton.1 hnew]
      exact nofun
  | hit _ hfresh =>
    refine hs.goto fun ck hck => ?_
    cases hck
    exact hs.cache _ (Option.filter_eq_some_iff.1 hfresh).1
  | reloaded =>
    have hck := ha _ rfl
    exact (hs.store hck).goto fun ck h => by cases h; exact hck
  | stale =>
    refine hs.goto fun ck hck => ?_
    obtain ⟨e, he, rfl⟩ := Option.map_eq_some_iff.1 hck
    exact hs.cache e he
  | goes hget hc hpc =>
    refine hs.goto fun ck hck => ?_
    cases hpc.symm.trans hck
    exact carried hget hc
  | @starts i c ck hget hc =>
    have hgoto : Holds P (s.goto i (.returned (some ck))) :=
      hs.goto fun ck' h => by cases h; exact carried hget hc
    refine ⟨hgoto.cache, hgoto.calls, fun t ht => ?_⟩
    rcases List.mem_append.1 ht with hold | hnew
    · exact hs.tasks t hold
    · rw [List.mem_singleton.1 hnew]
      exact nofun
  | provisioned => exact hs.gotoTask ha
  | @locked j result hget =>
    have hgoto : Holds P (s.gotoTask j (.locked result)) :=
      hs.gotoTask (hs.tasks (.provisioned result) (List.mem_of_getElem? hget))
    exact ⟨hgoto.cache, hgoto.calls, hgoto.tasks⟩
  | cached hget =>
    exact (hs.store (hs.tasks _ (List.mem_of_getElem? hget) _ rfl)).gotoTask nofun
  | @unlocked j =>
    have hgoto : Holds P (s.gotoTask j .unlocked) := hs.gotoTask nofun
    exact ⟨hgoto.cache, hgoto.calls, hgoto.tasks⟩
  | @aborted j | @ended j =>
    have hgoto : Holds P (s.gotoTask j .ended) := hs.gotoTask nofun
    exact ⟨hgoto.cache, hgoto.calls, hgoto.tasks⟩

end Holds

/-! ### What a handshake is served -/

/-- What a call gets that takes the cache in state `s`: the certificate in it, if it was loaded
within the last 60 seconds; else the one on disk; else the stale one. -/
def Resolver.served (s : Resolver κ) (reload : Option (κ × ℤ)) : Option κ :=
  match s.fresh, reload with
  | some e, _ => some e.certifiedKey
  | none, some (ck, _) => some ck
  | none, none => s.cache.map (·.certifiedKey)

theorem served_isSome (h : s.cache.isSome) (reload : Option (κ × ℤ)) :
    (s.served reload).isSome := by
  unfold Resolver.served
  split
  · rfl
  · rfl
  · rw [Option.isSome_map]
    exact h

/-- Call `i` has taken the cache and got `r`. -/
def Got (i : ℕ) (r : Option κ) (s : Resolver κ) : Prop :=
  ∃ c, s.calls[i]? = some c ∧ c ≠ .resolving ∧ c.cert = r

theorem getElem?_goto {pc c : Call κ} {k : ℕ} (h : (s.goto k pc).calls[i]? = some c) :
    (k = i ∧ c = pc) ∨ s.calls[i]? = some c := by
  simp only [Resolver.goto, List.getElem?_set] at h
  split_ifs at h with hk hlen
  · cases h
    exact .inl ⟨hk, rfl⟩
  · exact .inr h

theorem Call.ne_resolving {c : Call κ} {ck : κ} (h : c.cert = some ck) : c ≠ .resolving := by
  rintro rfl
  cases h

/-- A call gets what it is served in the step that takes the cache. -/
theorem Effect.gets {c : Call κ} (h : Effect s a s') (hbefore : ∀ r, ¬Got i r s)
    (hget : s'.calls[i]? = some c) (hc : c ≠ .resolving) :
    ∃ reload, a = .resolve i reload ∧ c.cert = s.served reload := by
  have old {c : Call κ} (hget : s.calls[i]? = some c) (hc : c ≠ .resolving) : False :=
    hbefore _ ⟨c, hget, hc, rfl⟩
  cases h with
  | tick | provisioned | aborted | locked | cached | unlocked | ended =>
    exact (old hget hc).elim
  | handshake =>
    rw [List.getElem?_append] at hget
    split_ifs at hget
    · exact (old hget hc).elim
    · exact absurd (List.mem_singleton.1 (List.mem_of_getElem? hget)) hc
  | hit _ hfresh | reloaded _ hfresh | stale _ hfresh =>
    rcases getElem?_goto hget with ⟨rfl, rfl⟩ | h
    · exact ⟨_, rfl, by simp only [Resolver.served, hfresh]; rfl⟩
    · exact (old h hc).elim
  | goes hget' hcert | starts hget' hcert =>
    rcases getElem?_goto hget with ⟨rfl, -⟩ | h
    · exact (old hget' (Call.ne_resolving hcert)).elim
    · exact (old h hc).elim

theorem Got.goto {r : Option κ} {pc : Call κ} {k : ℕ} (hs : Got i r s)
    (hpc : k = i → pc ≠ .resolving ∧ pc.cert = r) : Got i r (s.goto k pc) := by
  obtain ⟨c, hget, hc, hr⟩ := hs
  by_cases hk : k = i
  · subst hk
    refine ⟨pc, ?_, hpc rfl⟩
    rw [Resolver.goto, List.getElem?_set_self (List.getElem?_eq_some_iff.1 hget).1]
  · refine ⟨c, ?_, hc, hr⟩
    rw [Resolver.goto, List.getElem?_set_ne hk]
    exact hget

/-- A call keeps what it has got. -/
theorem Got.effect {r : Option κ} (hs : Got i r s) (h : Effect s a s') : Got i r s' := by
  obtain ⟨c, hget, hc, hr⟩ := id hs
  cases h with
  | tick | provisioned | aborted | locked | cached | unlocked | ended => exact hs
  | handshake =>
    refine ⟨c, ?_, hc, hr⟩
    exact (List.getElem?_append_left (List.getElem?_eq_some_iff.1 hget).1).trans hget
  | hit hget' | reloaded hget' | stale hget' =>
    refine Got.goto (s := s) hs ?_
    rintro rfl
    cases hget.symm.trans hget'
    exact absurd rfl hc
  | goes hget' hcert hpc =>
    refine hs.goto ?_
    rintro rfl
    cases hget.symm.trans hget'
    exact ⟨Call.ne_resolving hpc, hpc.trans (hcert.symm.trans hr)⟩
  | starts hget' hcert =>
    refine Got.goto (s := s) hs ?_
    rintro rfl
    cases hget.symm.trans hget'
    exact ⟨nofun, hcert.symm.trans hr⟩

/-- A filled cache stays filled. -/
theorem Effect.cache_isSome (h : Effect s a s') (hs : s.cache.isSome) : s'.cache.isSome := by
  cases h with
  | reloaded | cached => rfl
  | tick | handshake | hit | stale | goes | starts | provisioned | aborted | locked | unlocked
  | ended => exact hs

/-- A certificate that a handshake finds on disk is in the cache, or one that is still fresh is. -/
theorem Effect.loads {reload : κ × ℤ} (h : Effect s (.resolve i (some reload)) s') :
    s'.cache.isSome := by
  cases h with
  | hit _ hfresh =>
    have hcache := (Option.filter_eq_some_iff.1 hfresh).1
    exact Option.isSome_of_mem hcache
  | reloaded => rfl

theorem cache_isSome_of_runs {actions : List (Action κ)}
    (hrun : Transition.runs (step renewal) s actions = some s') (hs : s.cache.isSome) :
    s'.cache.isSome :=
  Transition.runs_invariant (P := fun s : Resolver κ => s.cache.isSome)
    (fun _ _ _ hs h => (step_effect h).cache_isSome hs) hrun hs

/-- Once a handshake has found a certificate on disk, the cache is filled for good. -/
theorem cache_isSome_of_loaded {wall : ℤ} {now : Instant} {actions : List (Action κ)}
    (hrun : Transition.runs (step renewal) (init κ wall now) actions = some s) {reload : κ × ℤ}
    (hload : .resolve i (some reload) ∈ actions) : s.cache.isSome := by
  refine Transition.runs_history (P := fun (actions : List (Action κ)) s =>
    ∀ i reload, .resolve i (some reload) ∈ actions → s.cache.isSome)
    (fun _ _ h => (by cases h)) (fun actions s a t hs hstep i reload h => ?_) hrun i reload hload
  have heffect := step_effect hstep
  rcases List.mem_append.1 h with hold | hnew
  · exact heffect.cache_isSome (hs i reload hold)
  · cases List.mem_singleton.1 hnew
    exact heffect.loads

/-- **What a handshake is served.**  In every run, a call of `resolve` that has returned took the
cache once, and returned the certificate that was in it, if that had been loaded within the last 60
seconds, else what it found on disk, else the stale one.  A cache that was filled at any time
before is still filled then, so a handshake is never left without a certificate once one has been
loaded. -/
theorem served_exact (renewal : Option AcmeRenewalConfig) (wall : ℤ) (now : Instant)
    (actions : List (Action κ)) (s : Resolver κ) (i : ℕ) (result : Option κ)
    (hrun : Transition.runs (step renewal) (init κ wall now) actions = some s)
    (hreturn : s.calls[i]? = some (.returned result)) :
    ∃ before reload after u, actions = before ++ .resolve i reload :: after ∧
      Transition.runs (step renewal) (init κ wall now) before = some u ∧
      result = u.served reload ∧ (u.cache.isSome → result.isSome) ∧
      (∀ earlier later w, before = earlier ++ later →
        Transition.runs (step renewal) (init κ wall now) earlier = some w →
        w.cache.isSome → result.isSome) ∧
      ∀ k loaded, .resolve k (some loaded) ∈ before → result.isSome := by
  obtain ⟨before, a, after, u, v, hactions, hu, hbefore, ha, ⟨r, c, hget, hc, hr⟩, hafter⟩ :=
    Transition.exists_step_of_runs (P := fun s => ∃ r, Got i r s) hrun
      (by rintro ⟨r, c, hget, -⟩; cases hget) ⟨_, _, hreturn, nofun, rfl⟩
  obtain ⟨reload, rfl, hserved⟩ :=
    (step_effect ha).gets (fun r hr => hbefore ⟨r, hr⟩) hget hc
  obtain ⟨c', hget', -, hr'⟩ : Got i (u.served reload) s :=
    Transition.runs_invariant (fun _ _ _ hs h => hs.effect (step_effect h)) hafter
      ⟨c, hget, hc, hserved⟩
  cases hget'.symm.trans hreturn
  have hfilled : u.cache.isSome → result.isSome := fun hcache => by
    rw [show result = u.served reload from hr']
    exact served_isSome hcache reload
  refine ⟨before, reload, after, u, hactions, hu, hr', hfilled, ?_,
    fun k loaded hload => hfilled (cache_isSome_of_loaded hu hload)⟩
  rintro earlier later w rfl hw hcache
  rw [Transition.runs_append, hw, Option.bind_some] at hu
  exact hfilled (cache_isSome_of_runs hu hcache)

/-- The first of two handshakes loads the certificate, the second finds it in the cache, though
nothing can be read from disk any more. -/
theorem served_exact_passed :
    (∃ s, Transition.runs (step none) (init ℕ 0 0)
      [.handshake, .resolve 0 (some (7, 1000)), .handshake, .resolve 1 none, .call 1] = some s ∧
      s.calls[1]? = some (.returned (some 7))) ∧
    ∀ s, Transition.runs (step none) (init ℕ 0 0)
      [.handshake, .resolve 0 (some (7, 1000)), .handshake, .resolve 1 none, .call 1] = some s →
      s.calls[1]? = some (.returned (some 7)) →
      ∃ before reload after u,
        [.handshake, .resolve 0 (some (7, 1000)), .handshake, .resolve 1 none, .call 1] =
          before ++ .resolve 1 reload :: after ∧
        Transition.runs (step none) (init ℕ 0 0) before = some u ∧
        some 7 = u.served reload := by
  refine ⟨⟨_, rfl, rfl⟩, fun s h hreturn => ?_⟩
  obtain ⟨before, reload, after, u, hactions, hu, hserved, -⟩ :=
    served_exact none 0 0 _ s 1 _ h hreturn
  exact ⟨before, reload, after, u, hactions, hu, hserved⟩

end QuicTunnel.Relay.Renewal
