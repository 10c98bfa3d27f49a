import Mathlib.Data.Int.CardIntervalMod
import QuicTunnel.Relay.Registry

/-!
# The turns of the agents

`AgentPool::next_agent` (`tunnel-server/src/lib.rs`) takes the agents of a client in turn, by a
machine word that every call moves on and that neither a push nor a removal resets.

* `AgentPool.serve`: consecutive calls, with the position each of them chose;
* `count_residue`: among consecutive numbers no residue is ahead of another by more than one;
* `AgentPool.Balanced`: what follows for the positions.  The word wraps at `2 ^ 64`, which need not
  be a multiple of the number of agents, so the calls before and after are counted apart.
-/

namespace QuicTunnel.Relay.Registry

/-! ### Residues of consecutive numbers -/

theorem count_congr {p q : ℕ → Prop} [DecidablePred p] [DecidablePred q] {k : ℕ}
    (h : ∀ t < k, p t ↔ q t) : k.count p = k.count q :=
  le_antisymm (Nat.count_mono_left fun t ht => (h t ht).1)
    (Nat.count_mono_left fun t ht => (h t ht).2)

/-- Among `k` consecutive numbers a residue occurs `k / m` times, or once more. -/
theorem count_residue {m i : ℕ} (hi : i < m) (c k : ℕ) :
    k / m ≤ k.count (fun t => (c + t) % m = i) ∧
      k.count (fun t => (c + t) % m = i) ≤ k / m + 1 := by
  have hm : 0 < m := Nat.zero_lt_of_lt hi
  have hlt : c % m < m := Nat.mod_lt c hm
  -- `c + t` has the residue `i` when `t` has that of `i - c`, taken modulo `m`
  have hback : c + (i + (m - c % m)) ≡ i [MOD m] := by
    have hsum : c + (i + (m - c % m)) = i + (c / m + 1) * m := by
      have hdiv := Nat.div_add_mod' c m
      rw [Nat.add_mul, Nat.one_mul]
      omega
    rw [hsum]
    exact Nat.add_mul_modulus_modEq_iff.2 rfl
  have hshift : ∀ t, (c + t) % m = i ↔ t ≡ i + (m - c % m) [MOD m] := by
    intro t
    calc (c + t) % m = i ↔ c + t ≡ i [MOD m] := by rw [Nat.ModEq, Nat.mod_eq_of_lt hi]
      _ ↔ c + t ≡ c + (i + (m - c % m)) [MOD m] := ⟨fun h => h.trans hback.symm, fun h =>
        h.trans hback⟩
      _ ↔ t ≡ i + (m - c % m) [MOD m] := ⟨Nat.ModEq.add_left_cancel' c, Nat.ModEq.add_left c⟩
  simp only [hshift, Nat.count_modEq_card _ hm]
  split_ifs <;> omega

variable {Agent : Type*}

namespace AgentPool

variable (pool : AgentPool Agent)

/-! ### Consecutive calls -/

/-- The position whose turn it is. -/
def turn : ℕ := pool.counter % pool.agents.length

/-- Consecutive calls of `next_agent`: the position and the agent of each, and the pool they
leave. -/
def serve : ℕ → AgentPool Agent → Option (List (ℕ × Agent) × AgentPool Agent)
  | 0, pool => some ([], pool)
  | k + 1, pool =>
    pool.nextAgent.bind fun (agent, next) =>
      (serve k next).map fun (served, last) => ((pool.turn, agent) :: served, last)

/-- How often a position was chosen. -/
def timesChosen (served : List (ℕ × Agent)) (i : ℕ) : ℕ := (served.map Prod.fst).count i

/-- The position of the `t`-th of the calls to come. -/
def turnAfter (t : ℕ) : ℕ := (pool.counter + t) % 2 ^ 64 % pool.agents.length

variable {pool}

/-- The turn is always that of a member, whatever the counter is. -/
theorem turn_lt (h : pool.agents ≠ []) : pool.turn < pool.agents.length :=
  Nat.mod_lt _ (List.length_pos_iff.2 h)

theorem nextAgent_eq (h : pool.agents ≠ []) :
    ∃ uid agent, pool.agents[pool.turn]? = some (uid, agent) ∧
      pool.nextAgent = some (agent, { pool with counter := (pool.counter + 1) % 2 ^ 64 }) := by
  have hturn := turn_lt h
  refine ⟨_, _, List.getElem?_eq_getElem hturn, ?_⟩
  rw [nextAgent, ← turn, List.getElem?_eq_getElem hturn]
  rfl

/-- Consecutive calls choose the positions of consecutive values of the word. -/
theorem serve_eq (hne : pool.agents ≠ []) (hword : pool.counter < 2 ^ 64) (k : ℕ) :
    ∃ served, serve k pool =
        some (served, { pool with counter := (pool.counter + k) % 2 ^ 64 }) ∧
      served.map Prod.fst = (List.range k).map pool.turnAfter ∧
      ∀ p ∈ served, ∃ uid, pool.agents[p.1]? = some (uid, p.2) := by
  induction k generalizing pool with
  | zero =>
    refine ⟨[], ?_, rfl, by simp⟩
    rw [Nat.add_zero, Nat.mod_eq_of_lt hword]
    rfl
  | succ k ih =>
    obtain ⟨uid, agent, hagent, hnext⟩ := nextAgent_eq hne
    obtain ⟨served, hserve, hpos, hmem⟩ :=
      @ih { pool with counter := (pool.counter + 1) % 2 ^ 64 } hne (Nat.mod_lt _ (by decide))
    refine ⟨(pool.turn, agent) :: served, ?_, ?_, ?_⟩
    · simp only [serve, hnext, Option.bind_some, hserve, Nat.mod_add_mod, Option.map_some]
      rw [Nat.add_assoc, Nat.add_comm 1 k]
    · rw [List.map_cons, hpos, List.range_succ_eq_map, List.map_cons, List.map_map]
      refine congrArg₂ List.cons ?_ (List.map_congr_left fun t _ => ?_)
      · rw [turnAfter, Nat.add_zero, Nat.mod_eq_of_lt hword]
        rfl
      · show ((pool.counter + 1) % 2 ^ 64 + t) % 2 ^ 64 % _ = (pool.counter + (t + 1)) % 2 ^ 64 % _
        rw [Nat.mod_add_mod, Nat.add_assoc, Nat.add_comm 1 t]
    · intro p hp
      rcases List.mem_cons.1 hp with rfl | hp
      · exact ⟨uid, hagent⟩
      · exact hmem p hp

/-! ### How often a position is chosen -/

theorem count_map_range (f : ℕ → ℕ) (i k : ℕ) :
    ((List.range k).map f).count i = k.count (fun t => f t = i) := by
  induction k with
  | zero => rfl
  | succ k ih =>
    rw [List.range_succ, List.map_append, List.count_append, ih, Nat.count_succ]
    simp [List.count_singleton]

/-- Without a wrap the positions are the residues of consecutive numbers. -/
theorem count_turnAfter_of_le {i k : ℕ} (hi : i < pool.agents.length)
    (h : pool.counter + k ≤ 2 ^ 64) :
    k / pool.agents.length ≤ k.count (fun t => pool.turnAfter t = i) ∧
      k.count (fun t => pool.turnAfter t = i) ≤ k / pool.agents.length + 1 := by
  have hsame : k.count (fun t => pool.turnAfter t = i) =
      k.count (fun t => (pool.counter + t) % pool.agents.length = i) := by
    refine count_congr fun t ht => ?_
    have hlt : pool.counter + t < 2 ^ 64 := by omega
    rw [turnAfter, Nat.mod_eq_of_lt hlt]
  rw [hsame]
  exact count_residue hi pool.counter k

/-- With one wrap they are residues before it, and residues after it. -/
theorem count_turnAfter_of_wrap {i k : ℕ} (hi : i < pool.agents.length)
    (hword : pool.counter < 2 ^ 64) (hlow : 2 ^ 64 ≤ pool.counter + k)
    (hhigh : pool.counter + k ≤ 2 * 2 ^ 64) :
    let before := 2 ^ 64 - pool.counter
    let least := before / pool.agents.length + (k - before) / pool.agents.length
    least ≤ k.count (fun t => pool.turnAfter t = i) ∧
      k.count (fun t => pool.turnAfter t = i) ≤ least + 2 := by
  intro before least
  obtain ⟨after, rfl⟩ : ∃ after, k = before + after := ⟨k - before, by omega⟩
  have hbefore := count_turnAfter_of_le hi (k := before) (by omega)
  have hafter := count_residue hi 0 after
  have hsame : after.count (fun t => pool.turnAfter (before + t) = i) =
      after.count (fun t => (0 + t) % pool.agents.length = i) := by
    refine count_congr fun t ht => ?_
    have hsum : pool.counter + (before + t) = t + 2 ^ 64 := by omega
    have hlt : t < 2 ^ 64 := by omega
    rw [turnAfter, hsum, Nat.add_mod_right, Nat.mod_eq_of_lt hlt, Nat.zero_add]
  have hleast : least = before / pool.agents.length + after / pool.agents.length := by
    show before / _ + (before + after - before) / _ = _
    rw [Nat.add_sub_cancel_left]
  rw [Nat.count_add, hsame, hleast]
  omega

/-! ### Balance -/

/-- What changes the members of a pool. -/
inductive Change (Agent : Type*)
  | push (uid : ℕ) (agent : Agent)
  | remove (uid : ℕ)

def change (pool : AgentPool Agent) : Change Agent → AgentPool Agent
  | .push uid agent => pool.push uid agent
  | .remove uid => pool.remove uid

/-- The calls that were made on a pool, and the pool they left. -/
structure Balanced (pool : AgentPool Agent) (served : List (ℕ × Agent))
    (last : AgentPool Agent) : Prop where
  /-- The members are as they were. -/
  agents : last.agents = pool.agents
  /-- Every call returned a member. -/
  member : ∀ p ∈ served, ∃ uid, pool.agents[p.1]? = some (uid, p.2)
  /-- No member is ahead of another by more than one if the word did not wrap. -/
  unwrapped : pool.counter + served.length ≤ 2 ^ 64 → ∀ i < pool.agents.length,
    ∀ j < pool.agents.length, timesChosen served i ≤ timesChosen served j + 1
  /-- Nor by more than two if it wrapped once. -/
  wrapped : pool.counter + served.length ≤ 2 * 2 ^ 64 → ∀ i < pool.agents.length,
    ∀ j < pool.agents.length, timesChosen served i ≤ timesChosen served j + 2
  /-- Whatever joins and leaves then, the next call returns one of those who are there. -/
  inRange : ∀ changes : List (Change Agent), (changes.foldl change last).agents ≠ [] →
    ∃ entry ∈ (changes.foldl change last).agents, ∃ next,
      (changes.foldl change last).nextAgent = some (entry.2, next)

/-- **Agents take turns**: any number of consecutive calls, from any value of the word. -/
theorem serve_balanced (pool : AgentPool Agent) (hne : pool.agents ≠ [])
    (hword : pool.counter < 2 ^ 64) (k : ℕ) :
    ∃ served last, serve k pool = some (served, last) ∧ served.length = k ∧
      Balanced pool served last := by
  obtain ⟨served, hserve, hpos, hmem⟩ := serve_eq hne hword k
  have hlen : served.length = k := by
    have := congrArg List.length hpos
    simpa using this
  have htimes : ∀ i, timesChosen served i = k.count (fun t => pool.turnAfter t = i) := fun i => by
    rw [timesChosen, hpos, count_map_range]
  have hunwrapped : pool.counter + k ≤ 2 ^ 64 → ∀ i < pool.agents.length,
      ∀ j < pool.agents.length, timesChosen served i ≤ timesChosen served j + 1 := by
    intro hle i hi j hj
    have hci := count_turnAfter_of_le hi hle
    have hcj := count_turnAfter_of_le hj hle
    rw [htimes, htimes]
    omega
  refine ⟨served, _, hserve, hlen, rfl, hmem, by rwa [hlen], ?_, fun changes hne' => ?_⟩
  · rw [hlen]
    intro hle i hi j hj
    by_cases hwrap : 2 ^ 64 ≤ pool.counter + k
    · have hci := count_turnAfter_of_wrap hi hword hwrap hle
      have hcj := count_turnAfter_of_wrap hj hword hwrap hle
      rw [htimes, htimes]
      simp only at hci hcj
      omega
    · have := hunwrapped (by omega) i hi j hj
      omega
  · obtain ⟨uid, agent, hagent, hnext⟩ := nextAgent_eq hne'
    exact ⟨(uid, agent), List.mem_of_getElem? hagent, _, hnext⟩

/-- Three agents and two calls around the wrap: the first of them is chosen twice, as `2 ^ 64 - 1`
is a multiple of three. -/
theorem serve_balanced_wrap :
    let pool : AgentPool String := ⟨2 ^ 64 - 1, [(7, "a"), (8, "b"), (9, "c")]⟩
    ∃ served last, serve 2 pool = some (served, last) ∧ Balanced pool served last ∧
      timesChosen served 0 = 2 ∧ timesChosen served 1 = 0 := by
  obtain ⟨served, last, hserve, hlen, h⟩ := serve_balanced
    (⟨2 ^ 64 - 1, [(7, "a"), (8, "b"), (9, "c")]⟩ : AgentPool String) (by simp) (by decide) 2
  have hserved : serve 2 (⟨2 ^ 64 - 1, [(7, "a"), (8, "b"), (9, "c")]⟩ : AgentPool String) =
      some ([(0, "a"), (0, "a")], ⟨1, [(7, "a"), (8, "b"), (9, "c")]⟩) := rfl
  rw [hserved] at hserve
  cases hserve
  exact ⟨_, _, hserved, h, rfl, rfl⟩

end AgentPool

end QuicTunnel.Relay.Registry
