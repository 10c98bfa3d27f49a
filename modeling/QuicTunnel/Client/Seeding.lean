import QuicTunnel.Client.Callers
import QuicTunnel.Common.Bytes

/-!
# What the provisioner keeps in its cache

`prepare` hands out a cached certificate until its time of renewal, an `Instant` that `renew_at`
computes from the validity of the leaf and the two clocks.  A certificate gets into the cache from
`finalize`, or from `seed` if it serves the domain and is not due.  This is the provisioner together
with the wall clock and the calls of `seed`; a call computes its entry at once and then waits for
the lock of the cache.

* `renewAt`, `seedMismatch` and `seed` are the source's functions, over the parsers of PEM and
  X.509, which are parameters;
* `step` is a step of the provisioner of `Acme.step` with both clocks;
* `Timely` and `Lasting` say when an entry is handed out at the latest and at the earliest;
* `NoOverflow` lists the intermediate results of `renewAt`.
-/

namespace QuicTunnel.Acme.Seeding

/-! ### Certificates -/

/-- The validity of a certificate in Unix seconds, from the year 0 to the end of 9999, which is what
X.509 can express. -/
structure Validity where
  notBefore : ℤ
  notAfter : ℤ
  le_notBefore : -62167219200 ≤ notBefore
  notBefore_le : notBefore ≤ 253402300799
  le_notAfter : -62167219200 ≤ notAfter
  notAfter_le : notAfter ≤ 253402300799

/-- The time a certificate is due for renewal: once a third of its lifetime is left. -/
def Validity.due (v : Validity) : ℤ := v.notAfter - (v.notAfter - v.notBefore).tdiv 3

/-- What is read of a leaf certificate. -/
structure Leaf where
  /-- The DNS names among its subject alternative names. -/
  dnsNames : List String
  publicKey : Bytes
  validity : Validity

/-- The parsers in use: the first certificate of a PEM text, the certificate itself, and the point
of a SEC1 public key. -/
structure CertReader where
  certs : String → Option (Except String Bytes)
  parseX509Certificate : Bytes → Except String Leaf
  fromSec1Bytes : Bytes → Option Bytes

/-- The leaf of a PEM text that can be read. -/
def CertReader.leaf (r : CertReader) (pem : String) : Option Leaf :=
  match r.certs pem with
  | some (.ok der) => (r.parseX509Certificate der).toOption
  | _ => none

/-- The instant at which `due` comes, by the two clocks; now if it has passed. -/
def instantOf (due wall : ℤ) (now : ℕ) : ℕ :=
  now + (max (due - unixSecs wall) 0).toNat * 10 ^ 9

/-- When the leaf in `pem` is due for renewal. -/
def renewAt (r : CertReader) (wall : ℤ) (now : Instant) (pem : String) : Except String Instant :=
  match r.certs pem with
  | none => .error "no certificate in PEM"
  | some (.error e) => .error e
  | some (.ok der) =>
    match r.parseX509Certificate der with
    | .error e => .error e
    | .ok leaf => .ok (instantOf leaf.validity.due wall now)

/-- `str::eq_ignore_ascii_case`. -/
def eqIgnoreAsciiCase (a b : String) : Bool :=
  a.toList.map Char.toLower == b.toList.map Char.toLower

/-- Compares SEC1 points regardless of compression; other keys byte for byte. -/
def samePublicKey (r : CertReader) (a b : Bytes) : Bool :=
  match r.fromSec1Bytes a, r.fromSec1Bytes b with
  | some p, some q => p == q
  | _, _ => a == b

/-- The leaf names the domain. -/
def Leaf.names (leaf : Leaf) (domain : String) : Bool :=
  leaf.dnsNames.any fun d => eqIgnoreAsciiCase d domain

/-- Why the leaf in `pem` cannot serve `domain` under `publicKey`, if it cannot. -/
def seedMismatch (r : CertReader) (domain : String) (publicKey : Bytes) (pem : String) :
    Option String :=
  match r.certs pem with
  | some (.ok der) =>
    match r.parseX509Certificate der with
    | .error e => some s!"unparseable certificate: {e}"
    | .ok leaf =>
      if !leaf.names domain then some s!"certificate does not name {domain}"
      else if !samePublicKey r leaf.publicKey publicKey then
        some "certificate is for a different key"
      else none
  | _ => some "no certificate in PEM"

/-- `seed` up to the lock of the cache: the entry to insert, or what the warning says. -/
def seed (r : CertReader) (wall : ℤ) (now : Instant) (domain : String) (publicKey : Bytes)
    (pem : String) : Except String CacheEntry :=
  match seedMismatch r domain publicKey pem with
  | some why => .error s!"ACME: ignoring seeded cert for {domain}: {why}"
  | none =>
    match renewAt r wall now pem with
    | .ok t =>
      if now < t then .ok ⟨pem, t⟩
      else .error s!"ACME: ignoring seeded cert for {domain}: due for renewal"
    | .error e => .error s!"ACME: ignoring seeded cert for {domain}: {e}"

/-! ### Steps -/

/-- The provisioner, the wall clock, and the calls of `seed` that wait for the cache. -/
structure Provisioner where
  acme : State
  /-- `SystemTime::now`, in nanoseconds since the Unix epoch. -/
  wall : ℤ
  /-- The domain and the entry of a call of `seed`, until it has inserted it. -/
  seeds : List (Option (String × CacheEntry))

def init (wall : ℤ) (now : Instant) : Provisioner := ⟨Acme.init now, wall, []⟩

inductive Event
  /-- A step of `prepare` or `finalize` that computes no time of renewal. -/
  | call (a : Action)
  /-- `finalize` of caller `i` locks the cache and inserts its certificate. -/
  | cache (i : ℕ)
  /-- A call of `seed`, up to the lock of the cache. -/
  | seed (domain : String) (publicKey : Bytes) (pem : String)
  /-- The `k`-th accepted call of `seed` inserts its entry. -/
  | insert (k : ℕ)
  /-- Both clocks advance. -/
  | tick (elapsed : ℕ)

/-- The actions of callers other than the insert of `finalize`. -/
def ofCaller : Action → Bool
  | .cache _ _ | .seed _ _ | .tick _ => false
  | _ => true

/-- One step: an action of the provisioner with what its clocks and certificates say. -/
def step (r : CertReader) (s : Provisioner) : Event → Option Provisioner
  | .call a =>
    if ofCaller a then (Acme.step s.acme a).map fun acme => { s with acme } else none
  | .cache i =>
    s.acme.callers[i]?.bind fun c =>
      match c.pc with
      | .caching _ pem =>
        (Acme.step s.acme (.cache i (renewAt r s.wall s.acme.now pem).toOption)).map
          fun acme => { s with acme }
      | _ => none
  | .seed domain publicKey pem =>
    match seed r s.wall s.acme.now domain publicKey pem with
    | .ok entry => some { s with seeds := s.seeds ++ [some (domain, entry)] }
    | .error _ => some s
  | .insert k =>
    s.seeds[k]?.join.bind fun (domain, entry) =>
      (Acme.step s.acme (.seed domain entry)).map
        fun acme => { s with acme, seeds := s.seeds.set k none }
  | .tick elapsed =>
    (Acme.step s.acme (.tick elapsed)).map fun acme => { s with acme, wall := s.wall + elapsed }

/-! ### What the functions compute -/

section Functions

variable {r : CertReader} {pem domain : String} {publicKey : Bytes} {leaf : Leaf} {wall : ℤ}
  {now : ℕ}

/-- The leaf serves the domain under this key. -/
structure Serves (r : CertReader) (domain : String) (publicKey : Bytes) (pem : String)
    (leaf : Leaf) : Prop where
  leaf_eq : r.leaf pem = some leaf
  names : leaf.names domain = true
  samePublicKey : samePublicKey r leaf.publicKey publicKey = true

theorem CertReader.leaf_eq_some :
    r.leaf pem = some leaf ↔
      ∃ der, r.certs pem = some (.ok der) ∧ r.parseX509Certificate der = .ok leaf := by
  unfold CertReader.leaf
  constructor
  · intro h
    split at h
    · rename_i der hder
      rcases hparse : r.parseX509Certificate der with e | leaf'
      · rw [hparse] at h
        cases h
      · rw [hparse] at h
        cases h
        exact ⟨der, hder, hparse⟩
    · cases h
  · rintro ⟨der, hder, hparse⟩
    rw [hder]
    show (r.parseX509Certificate der).toOption = some leaf
    rw [hparse]
    rfl

theorem renewAt_of_leaf (h : r.leaf pem = some leaf) :
    renewAt r wall now pem = .ok (instantOf leaf.validity.due wall now) := by
  obtain ⟨der, hder, hparse⟩ := CertReader.leaf_eq_some.1 h
  simp only [renewAt, hder, hparse]

theorem toOption_renewAt (h : r.leaf pem = some leaf) :
    (renewAt r wall now pem).toOption = some (instantOf leaf.validity.due wall now) := by
  rw [renewAt_of_leaf h, Except.toOption]

theorem seedMismatch_eq_none :
    seedMismatch r domain publicKey pem = none ↔ ∃ leaf, Serves r domain publicKey pem leaf := by
  unfold seedMismatch
  constructor
  · intro h
    split at h
    · rename_i der hder
      split at h
      · cases h
      · rename_i leaf hparse
        split_ifs at h with hnames hkey
        exact ⟨leaf, CertReader.leaf_eq_some.2 ⟨der, hder, hparse⟩, by simpa using hnames,
          by simpa using hkey⟩
    · cases h
  · rintro ⟨leaf, hleaf, hnames, hkey⟩
    obtain ⟨der, hder, hparse⟩ := CertReader.leaf_eq_some.1 hleaf
    simp only [hder, hparse, hnames, hkey, Bool.not_true, Bool.false_eq_true, if_false]

theorem lt_instantOf {due : ℤ} : now < instantOf due wall now ↔ unixSecs wall < due := by
  unfold instantOf
  omega

/-- What `seed` accepts. -/
theorem seed_eq_ok {entry : CacheEntry} :
    seed r wall now domain publicKey pem = .ok entry ↔
      ∃ leaf, Serves r domain publicKey pem leaf ∧ unixSecs wall < leaf.validity.due ∧
        entry = ⟨pem, instantOf leaf.validity.due wall now⟩ := by
  unfold seed
  constructor
  · intro h
    split at h
    · cases h
    · rename_i hnone
      obtain ⟨leaf, hserves⟩ := seedMismatch_eq_none.1 hnone
      rw [renewAt_of_leaf hserves.leaf_eq] at h
      dsimp only at h
      split_ifs at h with hlt
      cases h
      exact ⟨leaf, hserves, lt_instantOf.1 hlt, rfl⟩
  · rintro ⟨leaf, hserves, hdue, rfl⟩
    rw [seedMismatch_eq_none.2 ⟨leaf, hserves⟩]
    dsimp only
    rw [renewAt_of_leaf hserves.leaf_eq]
    dsimp only
    rw [if_pos (lt_instantOf.2 hdue)]

/-- The intermediate results of `renewAt` and the types they have to fit: an `i64`, a `Duration`,
and an `Instant`, whose seconds are an `i64` too. -/
structure NoOverflow (v : Validity) (wall : ℤ) (now : ℕ) : Prop where
  lifetime : -2 ^ 63 ≤ v.notAfter - v.notBefore ∧ v.notAfter - v.notBefore < 2 ^ 63
  third : -2 ^ 63 ≤ (v.notAfter - v.notBefore).tdiv 3 ∧ (v.notAfter - v.notBefore).tdiv 3 < 2 ^ 63
  due : -2 ^ 63 ≤ v.due ∧ v.due < 2 ^ 63
  nowSecs : 0 ≤ unixSecs wall ∧ unixSecs wall < 2 ^ 63
  /-- `saturating_sub` saturates at most below zero, where `max(0)` follows. -/
  left : v.due - unixSecs wall < 2 ^ 63
  duration : (max (v.due - unixSecs wall) 0).toNat * 10 ^ 9 ≤ durationMax
  instant : instantOf v.due wall now < 2 ^ 63 * 10 ^ 9

/-- A third of a lifetime, rounded towards zero as an `i64` division does. -/
theorem tdiv_three_bounds (x : ℤ) : min x 0 ≤ 3 * x.tdiv 3 ∧ 3 * x.tdiv 3 ≤ max x 0 := by
  have hsign : Int.sign 3 = 1 := rfl
  rw [Int.tdiv_eq_ediv]
  split_ifs <;> omega

theorem Validity.due_bounds (v : Validity) :
    -2 ^ 40 ≤ v.due ∧ v.due ≤ 2 ^ 40 := by
  have := v.le_notBefore
  have := v.notBefore_le
  have := v.le_notAfter
  have := v.notAfter_le
  have := tdiv_three_bounds (v.notAfter - v.notBefore)
  unfold Validity.due
  omega

theorem noOverflow (v : Validity) (hwall : wall < 2 ^ 63 * 10 ^ 9)
    (hnow : now < (2 ^ 63 - 2 ^ 41) * 10 ^ 9) : NoOverflow v wall now := by
  have := v.le_notBefore
  have := v.notBefore_le
  have := v.le_notAfter
  have := v.notAfter_le
  have hdue := v.due_bounds
  have hnonneg := unixSecs_nonneg wall
  have hsecs : unixSecs wall < 2 ^ 63 := by
    unfold unixSecs
    split_ifs <;> omega
  have := tdiv_three_bounds (v.notAfter - v.notBefore)
  refine ⟨by omega, by omega, by omega, by omega, by omega, ?_, ?_⟩
  · unfold durationMax
    omega
  · unfold instantOf
    omega

end Functions

/-! ### What a step does -/

/-- What an action of a caller other than the insert of `finalize` leaves alone. -/
theorem CallerMove.frame {s t : State} {i : ℕ} {c : Caller} {a : Action}
    (h : CallerMove s i c a t) (ha : ofCaller a = true) : t.cache = s.cache ∧ t.now = s.now := by
  cases h with
  | edge _ _ hcache _ _ hnow => exact ⟨hcache, hnow⟩
  | cache => cases ha
  | unlink | touch | claim => exact ⟨rfl, rfl⟩

theorem frame_of_caller {s t : State} {a : Action} (ha : ofCaller a = true)
    (h : Acme.step s a = some t) : t.cache = s.cache ∧ t.now = s.now := by
  cases a with
  | cache | seed | tick => cases ha
  | prepare =>
    cases h
    exact ⟨rfl, rfl⟩
  | step i =>
    obtain ⟨c, -, h⟩ := Option.bind_eq_some_iff.1 h
    exact CallerMove.frame (advance_move h) ha
  | setup i reply =>
    obtain ⟨c, -, h⟩ := Option.bind_eq_some_iff.1 h
    exact CallerMove.frame (answerSetup_move h) ha
  | finalize i =>
    obtain ⟨c, -, h⟩ := Option.bind_eq_some_iff.1 h
    split at h <;> cases h
    exact ⟨rfl, rfl⟩
  | issue i reply =>
    obtain ⟨c, -, h⟩ := Option.bind_eq_some_iff.1 h
    exact CallerMove.frame (answerIssue_move h) ha
  | cancel i =>
    obtain ⟨c, -, h⟩ := Option.bind_eq_some_iff.1 h
    exact CallerMove.frame (cancelled_move h) ha

/-- The entry is what `finalize` or `seed` make of `pem` at this instant. -/
structure Computed (r : CertReader) (s : Provisioner) (pem : String) (entry : CacheEntry) :
    Prop where
  certPem : entry.certPem = pem
  renewAt : ∀ leaf, r.leaf pem = some leaf →
    entry.renewAt = instantOf leaf.validity.due s.wall s.acme.now

/-- What a step leaves of the cache, the clocks and the calls of `seed`. -/
inductive Move (r : CertReader) (s t : Provisioner) : Event → Prop
  | call {a : Action} (hstep : Acme.step s.acme a = some t.acme)
    (hcache : t.acme.cache = s.acme.cache) (hnow : t.acme.now = s.acme.now)
    (hwall : t.wall = s.wall) (hseeds : t.seeds = s.seeds) : Move r s t (.call a)
  | cache {i : ℕ} {c : Caller} {pem : String} {entry : CacheEntry} (hi : s.acme.CallerAt i c)
    (hstep : ∃ x, Acme.step s.acme (.cache i x) = some t.acme) (hentry : Computed r s pem entry)
    (hcache : t.acme.cache = Function.update s.acme.cache c.domain (some entry))
    (hnow : t.acme.now = s.acme.now) (hwall : t.wall = s.wall) (hseeds : t.seeds = s.seeds) :
    Move r s t (.cache i)
  | accepted {domain pem : String} {publicKey : Bytes} {entry : CacheEntry}
    (hseed : seed r s.wall s.acme.now domain publicKey pem = .ok entry) (hacme : t.acme = s.acme)
    (hwall : t.wall = s.wall) (hseeds : t.seeds = s.seeds ++ [some (domain, entry)]) :
    Move r s t (.seed domain publicKey pem)
  | ignored {domain pem : String} {publicKey : Bytes} (h : t = s) :
    Move r s t (.seed domain publicKey pem)
  | insert {k : ℕ} {domain : String} {entry : CacheEntry}
    (hk : s.seeds[k]? = some (some (domain, entry)))
    (hcache : t.acme.cache = Function.update s.acme.cache domain (some entry))
    (hcallers : t.acme.callers = s.acme.callers)
    (hnow : t.acme.now = s.acme.now) (hwall : t.wall = s.wall)
    (hseeds : t.seeds = s.seeds.set k none) : Move r s t (.insert k)
  | tick {elapsed : ℕ} (hcache : t.acme.cache = s.acme.cache)
    (hcallers : t.acme.callers = s.acme.callers) (hnow : t.acme.now = s.acme.now + elapsed)
    (hwall : t.wall = s.wall + elapsed) (hseeds : t.seeds = s.seeds) : Move r s t (.tick elapsed)

section Steps

variable {r : CertReader} {s t : Provisioner} {e : Event}

theorem step_move (h : step r s e = some t) : Move r s t e := by
  cases e with
  | call a =>
    simp only [step] at h
    split_ifs at h with ha
    obtain ⟨acme, hstep, rfl⟩ := Option.map_eq_some_iff.1 h
    obtain ⟨hcache, hnow⟩ := frame_of_caller ha hstep
    exact .call hstep hcache hnow rfl rfl
  | cache i =>
    obtain ⟨c, hi, h⟩ := Option.bind_eq_some_iff.1 h
    split at h
    · rename_i n pem hpc
      obtain ⟨acme, hstep, rfl⟩ := Option.map_eq_some_iff.1 h
      have hstep' := hstep
      rw [Acme.step, hi, Option.bind_some, insertIssued, hpc] at hstep
      cases hstep
      refine .cache hi ⟨_, hstep'⟩ ⟨rfl, fun leaf hleaf => ?_⟩ rfl rfl rfl rfl
      show Option.getD _ _ = _
      rw [toOption_renewAt hleaf, Option.getD_some]
    · cases h
  | seed domain publicKey pem =>
    simp only [step] at h
    split at h <;> cases h
    · rename_i hseed
      exact .accepted hseed rfl rfl rfl
    · exact .ignored rfl
  | insert k =>
    obtain ⟨⟨domain, entry⟩, hk, h⟩ := Option.bind_eq_some_iff.1 h
    cases h
    exact .insert (Option.join_eq_some_iff.1 hk) rfl rfl rfl rfl rfl
  | tick elapsed =>
    cases h
    exact .tick rfl rfl rfl rfl rfl

end Steps

/-- Every run is one of the provisioner of `Acme.step`. -/
theorem reach_acme {r : CertReader} {s : Provisioner} {wall : ℤ} {now : Instant}
    {events : List Event} (h : Transition.runs (step r) (init wall now) events = some s) :
    Transition.Reach Acme.step (Acme.init now) s.acme := by
  refine Transition.runs_invariant
    (P := fun s => Transition.Reach Acme.step (Acme.init now) s.acme) (fun s e t hs hstep => ?_) h
    (Transition.Reach.refl _)
  cases e with
  | call a =>
    simp only [step] at hstep
    split_ifs at hstep
    obtain ⟨acme, hacme, rfl⟩ := Option.map_eq_some_iff.1 hstep
    exact hs.tail hacme
  | cache i =>
    obtain ⟨c, -, hstep⟩ := Option.bind_eq_some_iff.1 hstep
    split at hstep
    · obtain ⟨acme, hacme, rfl⟩ := Option.map_eq_some_iff.1 hstep
      exact hs.tail hacme
    · cases hstep
  | seed =>
    simp only [step] at hstep
    split at hstep <;> cases hstep <;> exact hs
  | insert k =>
    obtain ⟨⟨domain, entry⟩, -, hstep⟩ := Option.bind_eq_some_iff.1 hstep
    obtain ⟨acme, hacme, rfl⟩ := Option.map_eq_some_iff.1 hstep
    exact hs.tail hacme
  | tick elapsed =>
    cases hstep
    exact hs.tail (a := .tick elapsed) rfl

/-! ### Times of renewal -/

section Times

variable {due wall : ℤ} {now renewAt : ℕ}

/-- An entry that is renewed at `renewAt` is handed out until less than a second past `due`. -/
def TimelyAt (due wall : ℤ) (now renewAt : ℕ) : Prop :=
  renewAt ≤ now ∨ wall + (renewAt - now) < (due + 1) * 10 ^ 9

/-- An entry that is renewed at `renewAt` is handed out up to `due`. -/
def LastingAt (due wall : ℤ) (now renewAt : ℕ) : Prop := due * 10 ^ 9 - wall ≤ renewAt - now

theorem timelyAt_instantOf : TimelyAt due wall now (instantOf due wall now) := by
  have := lt_unixSecs_add_one wall
  unfold TimelyAt instantOf
  omega

theorem TimelyAt.tick (h : TimelyAt due wall now renewAt) (elapsed : ℕ) :
    TimelyAt due (wall + elapsed) (now + elapsed) renewAt := by
  unfold TimelyAt at *
  omega

theorem TimelyAt.lt (h : TimelyAt due wall now renewAt) (hlt : now < renewAt) :
    wall < (due + 1) * 10 ^ 9 := by
  unfold TimelyAt at h
  omega

/-- Only at or after the epoch do the whole seconds of the wall clock not run ahead of it. -/
theorem lastingAt_instantOf (hwall : 0 ≤ wall) (hdue : unixSecs wall < due) :
    LastingAt due wall now (instantOf due wall now) := by
  unfold LastingAt instantOf
  unfold unixSecs at *
  rw [if_pos hwall] at *
  omega

theorem LastingAt.tick (h : LastingAt due wall now renewAt) (elapsed : ℕ) :
    LastingAt due (wall + elapsed) (now + elapsed) renewAt := by
  unfold LastingAt at *
  omega

theorem LastingAt.lt (h : LastingAt due wall now renewAt) (hlt : wall < due * 10 ^ 9) :
    now < renewAt := by
  unfold LastingAt at h
  omega

end Times

/-- The entry is not handed out longer than its leaf allows. -/
def Timely (r : CertReader) (s : Provisioner) (entry : CacheEntry) : Prop :=
  ∀ leaf, r.leaf entry.certPem = some leaf →
    TimelyAt leaf.validity.due s.wall s.acme.now entry.renewAt

/-- Every entry in the cache, or on its way there, is timely. -/
structure AllTimely (r : CertReader) (s : Provisioner) : Prop where
  cache : ∀ domain entry, s.acme.cache domain = some entry → Timely r s entry
  seeds : ∀ domain entry, some (domain, entry) ∈ s.seeds → Timely r s entry

section Runs

variable {r : CertReader} {s t : Provisioner} {e : Event} {domain : String} {entry : CacheEntry}

/-- Only the clocks matter. -/
theorem Timely.congr (h : Timely r s entry) (hnow : t.acme.now = s.acme.now)
    (hwall : t.wall = s.wall) : Timely r t entry := by
  intro leaf hleaf
  rw [hnow, hwall]
  exact h leaf hleaf

theorem Computed.timely {pem : String} (h : Computed r s pem entry) : Timely r s entry := by
  intro leaf hleaf
  rw [h.certPem] at hleaf
  rw [h.renewAt leaf hleaf]
  exact timelyAt_instantOf

theorem computed_of_seed {pem : String} {publicKey : Bytes}
    (h : seed r s.wall s.acme.now domain publicKey pem = .ok entry) : Computed r s pem entry := by
  obtain ⟨leaf, hserves, -, rfl⟩ := seed_eq_ok.1 h
  refine ⟨rfl, fun leaf' hleaf' => ?_⟩
  rw [Option.some.inj (hserves.leaf_eq.symm.trans hleaf')]

/-- The entries of a cache after one was inserted. -/
theorem entry_cases {cache : String → Option CacheEntry} {domain' : String} {new : CacheEntry}
    (h : Function.update cache domain' (some new) domain = some entry) :
    entry = new ∨ cache domain = some entry := by
  by_cases hd : domain = domain'
  · rw [hd, Function.update_self] at h
    exact .inl (Option.some.inj h).symm
  · rw [Function.update_of_ne hd] at h
    exact .inr h

theorem AllTimely.step (hs : AllTimely r s) (h : step r s e = some t) : AllTimely r t := by
  cases step_move h with
  | call _ hcache hnow hwall hseeds =>
    refine ⟨fun domain entry he => ?_, fun domain entry he => ?_⟩
    · exact (hs.cache domain entry (hcache ▸ he)).congr hnow hwall
    · exact (hs.seeds domain entry (hseeds ▸ he)).congr hnow hwall
  | cache _ _ hentry hcache hnow hwall hseeds =>
    refine ⟨fun domain entry he => ?_, fun domain entry he => ?_⟩
    · rw [hcache] at he
      rcases entry_cases he with rfl | hold
      · exact hentry.timely.congr hnow hwall
      · exact (hs.cache domain entry hold).congr hnow hwall
    · exact (hs.seeds domain entry (hseeds ▸ he)).congr hnow hwall
  | accepted hseed hacme hwall hseeds =>
    have hnow : t.acme.now = s.acme.now := by rw [hacme]
    refine ⟨fun domain entry he => ?_, fun domain entry he => ?_⟩
    · exact (hs.cache domain entry (hacme ▸ he)).congr hnow hwall
    · rw [hseeds] at he
      rcases List.mem_append.1 he with hold | hnew
      · exact (hs.seeds domain entry hold).congr hnow hwall
      · cases List.mem_singleton.1 hnew
        exact (computed_of_seed hseed).timely.congr hnow hwall
  | ignored heq =>
    rw [heq]
    exact hs
  | insert hk hcache _ hnow hwall hseeds =>
    refine ⟨fun domain entry he => ?_, fun domain entry he => ?_⟩
    · rw [hcache] at he
      rcases entry_cases he with rfl | hold
      · exact (hs.seeds _ entry (List.mem_of_getElem? hk)).congr hnow hwall
      · exact (hs.cache domain entry hold).congr hnow hwall
    · rw [hseeds] at he
      rcases List.mem_or_eq_of_mem_set he with hold | hnone
      · exact (hs.seeds domain entry hold).congr hnow hwall
      · cases hnone
  | tick hcache _ hnow hwall hseeds =>
    refine ⟨fun domain entry he leaf hleaf => ?_, fun domain entry he leaf hleaf => ?_⟩
    · rw [hnow, hwall]
      exact (hs.cache domain entry (hcache ▸ he) leaf hleaf).tick _
    · rw [hnow, hwall]
      exact (hs.seeds domain entry (hseeds ▸ he) leaf hleaf).tick _

theorem allTimely_init (r : CertReader) (wall : ℤ) (now : Instant) : AllTimely r (init wall now) :=
  ⟨fun _ _ he => (by cases he), fun _ _ he => (by cases he)⟩

theorem allTimely_of_runs {wall : ℤ} {now : Instant} {events : List Event}
    (h : Transition.runs (Seeding.step r) (init wall now) events = some s) : AllTimely r s :=
  Transition.runs_invariant (fun _ _ _ hs hstep => hs.step hstep) h (allTimely_init r wall now)

/-! ### What is handed out -/

/-- `prepare` returns a cached certificate when it finds it in the cache, before its renewal. -/
theorem cached_cases {s t : State} {a : Action} {i : ℕ} {d : Caller} {pem : String}
    (hstep : Acme.step s a = some t) (hi : t.CallerAt i d) (hpc : d.pc = .cached pem) :
    s.CallerAt i d ∨
      ∃ e, s.cache d.domain = some e ∧ e.certPem = pem ∧ s.now < e.renewAt := by
  rcases moved_of_step hstep hi (by rw [hpc]; nofun) with hold | ⟨c, hc, hmove⟩
  · exact .inl hold
  cases hmove with
  | edge he hcallers =>
    rw [callerAt_self hc hcallers hi] at hpc ⊢
    cases hpc
    generalize c.pc = pc at he
    cases he with
    | hit hcache hfresh => exact .inr ⟨_, hcache, rfl, hfresh⟩
  | unlink hu =>
    rw [callerAt_self hc rfl hi] at hpc
    cases hpc
    generalize c.pc = pc at hu
    cases hu
  | touch ht =>
    rw [callerAt_self hc rfl hi] at hpc
    generalize c.pc = pc at ht
    cases ht with
    | lead | publish => cases hpc
    | dropBoth _ hto => rcases hto with rfl | ⟨e, rfl⟩ <;> cases hpc
    | dropCert _ _ hto => rcases hto with rfl | ⟨e, rfl⟩ | ⟨pem, -, rfl⟩ <;> cases hpc
  | cache | claim =>
    rw [callerAt_self hc rfl hi] at hpc
    cases hpc

theorem handedOut_cases {i : ℕ} {d : Caller} {pem : String} (hstep : step r s e = some t)
    (hi : t.acme.CallerAt i d) (hpc : d.pc = .cached pem) :
    s.acme.CallerAt i d ∨
      ∃ e, s.acme.cache d.domain = some e ∧ e.certPem = pem ∧ s.acme.now < e.renewAt := by
  cases step_move hstep with
  | call hacme => exact cached_cases hacme hi hpc
  | cache _ hacme =>
    obtain ⟨x, hacme⟩ := hacme
    exact cached_cases hacme hi hpc
  | accepted _ hacme => exact .inl (hacme ▸ hi)
  | ignored heq => exact .inl (heq ▸ hi)
  | insert _ _ hcallers | tick _ hcallers =>
    rw [State.CallerAt, hcallers] at hi
    exact .inl hi

/-- The event puts no certificate for `domain` into the cache. -/
def Keeps (domain : String) (s : Provisioner) : Event → Prop
  | .insert k => ∀ d entry, s.seeds[k]? = some (some (d, entry)) → d ≠ domain
  | .cache i => ∀ c, s.acme.CallerAt i c → c.domain ≠ domain
  | _ => True

theorem LastingAt.step {due : ℤ} {renewAt : ℕ}
    (h : LastingAt due s.wall s.acme.now renewAt) (hstep : Seeding.step r s e = some t) :
    LastingAt due t.wall t.acme.now renewAt := by
  cases step_move hstep with
  | call _ _ hnow hwall | cache _ _ _ _ hnow hwall | insert _ _ _ hnow hwall =>
    rw [hnow, hwall]
    exact h
  | accepted _ hacme hwall =>
    rw [hacme, hwall]
    exact h
  | ignored heq =>
    rw [heq]
    exact h
  | tick _ _ hnow hwall =>
    rw [hnow, hwall]
    exact h.tick _

/-- The entry is in the cache, to be handed out up to `due`. -/
def Stands (domain : String) (entry : CacheEntry) (due : ℤ) (s : Provisioner) : Prop :=
  s.acme.cache domain = some entry ∧ LastingAt due s.wall s.acme.now entry.renewAt

theorem Stands.step {due : ℤ} (h : Stands domain entry due s) (hkeep : Keeps domain s e)
    (hstep : Seeding.step r s e = some t) : Stands domain entry due t := by
  refine ⟨?_, h.2.step hstep⟩
  cases step_move hstep with
  | call _ hcache | tick hcache =>
    rw [hcache]
    exact h.1
  | cache hi _ _ hcache =>
    rw [hcache, Function.update_of_ne (hkeep _ hi).symm]
    exact h.1
  | accepted _ hacme =>
    rw [hacme]
    exact h.1
  | ignored heq =>
    rw [heq]
    exact h.1
  | insert hk hcache =>
    rw [hcache, Function.update_of_ne (hkeep _ _ hk).symm]
    exact h.1

/-- Call `k` of `seed` still waits with its entry, or has inserted it. -/
def Waits (k : ℕ) (domain : String) (entry : CacheEntry) (due : ℤ) (s : Provisioner) : Prop :=
  LastingAt due s.wall s.acme.now entry.renewAt ∧
    (s.seeds[k]? = some (some (domain, entry)) ∨ s.seeds[k]? = some none)

theorem Waits.step {k : ℕ} {due : ℤ} (h : Waits k domain entry due s)
    (hstep : Seeding.step r s e = some t) : Waits k domain entry due t := by
  refine ⟨h.1.step hstep, ?_⟩
  cases step_move hstep with
  | call _ _ _ _ hseeds | cache _ _ _ _ _ _ hseeds | tick _ _ _ _ hseeds =>
    rw [hseeds]
    exact h.2
  | accepted _ _ _ hseeds =>
    have hlt : k < s.seeds.length := by
      rcases h.2 with hk | hk <;> exact (List.getElem?_eq_some_iff.1 hk).1
    rw [hseeds, List.getElem?_append_left hlt]
    exact h.2
  | ignored heq =>
    rw [heq]
    exact h.2
  | @insert k' _ _ hk' _ _ _ _ hseeds =>
    rw [hseeds]
    by_cases hkk : k' = k
    · subst hkk
      exact .inr (List.getElem?_set_self (List.getElem?_eq_some_iff.1 hk').1)
    · rw [List.getElem?_set_ne hkk]
      exact h.2

/-- An accepted seed: from the insert on, as long as nothing replaces it, its entry stands. -/
theorem stands_of_seed {publicKey : Bytes} {pem : String} {leaf : Leaf} {mid rest : List Event}
    {v w : Provisioner} (hserves : Serves r domain publicKey pem leaf) (hwall : 0 ≤ s.wall)
    (hdue : unixSecs s.wall < leaf.validity.due)
    (hinsert : Transition.runs (step r) s
      (.seed domain publicKey pem :: (mid ++ [.insert s.seeds.length])) = some v)
    (hkeep : Transition.Meets (step r) (Keeps domain) v rest)
    (hrest : Transition.runs (step r) v rest = some w) :
    ∃ entry, entry.certPem = pem ∧ Stands domain entry leaf.validity.due w := by
  let entry : CacheEntry := ⟨pem, instantOf leaf.validity.due s.wall s.acme.now⟩
  have hseed : seed r s.wall s.acme.now domain publicKey pem = .ok entry :=
    seed_eq_ok.2 ⟨leaf, hserves, hdue, rfl⟩
  obtain ⟨u, hu, hmid⟩ := Transition.runs_cons_eq_some hinsert
  rw [step, hseed] at hu
  cases hu
  rw [Transition.runs_append] at hmid
  obtain ⟨x, hx, hlast⟩ := Option.bind_eq_some_iff.1 hmid
  have hwaits : Waits s.seeds.length domain entry leaf.validity.due x :=
    Transition.runs_invariant (fun _ _ _ h hstep => h.step hstep) hx
      ⟨lastingAt_instantOf hwall hdue, .inl List.getElem?_concat_length⟩
  obtain ⟨y, hy, hyv⟩ := Transition.runs_cons_eq_some hlast
  cases hyv
  have hlasting := hwaits.1.step hy
  refine ⟨entry, rfl, Transition.runs_invariant_of_meets
    (fun _ _ _ h hg hstep => h.step hg hstep) hrest hkeep ⟨?_, hlasting⟩⟩
  cases step_move hy with
  | insert hk hcache =>
    rcases hwaits.2 with hsome | hnone
    · cases Option.some.inj (hk.symm.trans hsome)
      rw [hcache, Function.update_self]
    · cases hk.symm.trans hnone

end Runs

/-- What `seed` and `prepare` do in a state. -/
structure Sound (r : CertReader) (s : Provisioner) : Prop where
  /-- A certificate that does not serve the domain, or is due, leaves everything as it was. -/
  ignored : ∀ domain publicKey pem,
    (∀ leaf, Serves r domain publicKey pem leaf → leaf.validity.due ≤ s.wall / 10 ^ 9) →
    step r s (.seed domain publicKey pem) = some s
  /-- At or after the epoch, any other is accepted, and once inserted it is what `prepare` returns
  up to its due time, until another one is inserted. -/
  accepted : ∀ domain publicKey pem leaf, Serves r domain publicKey pem leaf → 0 ≤ s.wall →
    s.wall / 10 ^ 9 < leaf.validity.due →
    (∃ entry : CacheEntry, entry.certPem = pem ∧ step r s (.seed domain publicKey pem) =
      some { s with seeds := s.seeds ++ [some (domain, entry)] }) ∧
    ∀ mid rest v w, Transition.runs (step r) s
        (.seed domain publicKey pem :: (mid ++ [.insert s.seeds.length])) = some v →
      Transition.Meets (step r) (Keeps domain) v rest →
      Transition.runs (step r) v rest = some w → w.wall < leaf.validity.due * 10 ^ 9 →
      ∀ i c, w.acme.CallerAt i c → c.domain = domain → c.pc = .checkCache →
        step r w (.call (.step i)) = some { w with acme := w.acme.goto i c (.cached pem) }
  /-- What `prepare` returns from the cache is less than a second past its due time. -/
  timely : ∀ e t i c pem leaf, step r s e = some t → t.acme.CallerAt i c → c.pc = .cached pem →
    ¬s.acme.CallerAt i c → r.leaf pem = some leaf →
    leaf.validity.notBefore ≤ leaf.validity.notAfter →
    s.wall < (leaf.validity.due + 1) * 10 ^ 9 ∧
      (3 ≤ leaf.validity.notAfter - leaf.validity.notBefore →
        s.wall < leaf.validity.notAfter * 10 ^ 9)
  /-- Nothing overflows, with a monotonic clock not in the last 2^41 seconds of its range. -/
  noOverflow : ∀ v : Validity, s.wall < 2 ^ 63 * 10 ^ 9 → s.acme.now < (2 ^ 63 - 2 ^ 41) * 10 ^ 9 →
    NoOverflow v s.wall s.acme.now

theorem seed_ignored {r : CertReader} {s : Provisioner} {domain pem : String} {publicKey : Bytes}
    (h : ∀ leaf, Serves r domain publicKey pem leaf → leaf.validity.due ≤ unixSecs s.wall) :
    step r s (.seed domain publicKey pem) = some s := by
  rcases hseed : seed r s.wall s.acme.now domain publicKey pem with e | entry
  · simp only [step, hseed]
  · obtain ⟨leaf, hserves, hdue, -⟩ := seed_eq_ok.1 hseed
    exact absurd (h leaf hserves) (not_le.2 hdue)

/-- A caller that looks into the cache in time finds what stands there. -/
theorem step_of_stands {r : CertReader} {w : Provisioner} {domain : String} {entry : CacheEntry}
    {due : ℤ} {i : ℕ} {c : Caller} (h : Stands domain entry due w)
    (hlt : w.wall < due * 10 ^ 9) (hi : w.acme.CallerAt i c) (hdomain : c.domain = domain)
    (hpc : c.pc = .checkCache) :
    step r w (.call (.step i)) =
      some { w with acme := w.acme.goto i c (.cached entry.certPem) } := by
  have hfresh : w.acme.now < entry.renewAt := h.2.lt hlt
  have hcache : w.acme.cache c.domain = some entry := hdomain ▸ h.1
  have hadvance : Acme.step w.acme (.step i) = some (w.acme.goto i c (.cached entry.certPem)) := by
    rw [Acme.step, hi, Option.bind_some, advance, hpc]
    simp only [hcache, if_pos hfresh]
  simp only [step, ofCaller, if_true, hadvance, Option.map_some]

/-- **The cache hands out no certificate that is not fit for use**, in every run of any number of
callers with both clocks advancing together. -/
theorem cache_sound (r : CertReader) (wall : ℤ) (now : Instant) (events : List Event)
    (s : Provisioner) (hrun : Transition.runs (step r) (init wall now) events = some s) :
    Sound r s := by
  refine ⟨fun domain publicKey pem h => ?_, fun domain publicKey pem leaf hserves hwall hlt => ?_,
    fun e t i c pem leaf hstep hi hpc hnew hleaf hvalid => ?_,
    fun v hwall hnow => Seeding.noOverflow v hwall hnow⟩
  · refine seed_ignored fun leaf hserves => (h leaf hserves).trans ?_
    unfold unixSecs
    split_ifs <;> omega
  · have hdue : unixSecs s.wall < leaf.validity.due := by rwa [unixSecs, if_pos hwall]
    let entry : CacheEntry := ⟨pem, instantOf leaf.validity.due s.wall s.acme.now⟩
    have hseed : seed r s.wall s.acme.now domain publicKey pem = .ok entry :=
      seed_eq_ok.2 ⟨leaf, hserves, hdue, rfl⟩
    refine ⟨⟨entry, rfl, by simp only [step, hseed]⟩,
      fun mid rest v w hinsert hkeep hrest hbefore i c hi hdomain hpc => ?_⟩
    obtain ⟨entry, rfl, hstands⟩ := stands_of_seed hserves hwall hdue hinsert hkeep hrest
    exact step_of_stands hstands hbefore hi hdomain hpc
  · obtain ⟨entry, hcache, rfl, hfresh⟩ := (handedOut_cases hstep hi hpc).resolve_left hnew
    have hlt := ((allTimely_of_runs hrun).cache _ entry hcache leaf hleaf).lt hfresh
    refine ⟨hlt, fun hlong => ?_⟩
    have := tdiv_three_bounds (leaf.validity.notAfter - leaf.validity.notBefore)
    have hthird : 1 ≤ (leaf.validity.notAfter - leaf.validity.notBefore).tdiv 3 := by
      rw [Int.tdiv_eq_ediv_of_nonneg (by omega)]
      omega
    unfold Validity.due at hlt
    omega

/-- A reader that knows one certificate, for `abc.localhost`. -/
def oneCert (validity : Validity) : CertReader where
  certs pem := if pem = "PEM" then some (.ok [48]) else none
  parseX509Certificate der :=
    if der = [48] then .ok ⟨["abc.localhost"], [4], validity⟩ else .error "not a certificate"
  fromSec1Bytes _ := none

theorem serves_oneCert (validity : Validity) :
    Serves (oneCert validity) "abc.localhost" [4] "PEM" ⟨["abc.localhost"], [4], validity⟩ :=
  ⟨rfl, by rfl, by rfl⟩

/-- Ninety days from the epoch. -/
def ninetyDays : Validity := ⟨0, 7776000, by decide, by decide, by decide, by decide⟩

/-- A seed at the epoch, and a caller that asks for it. -/
theorem cache_sound_seeded : ∃ w,
    Transition.runs (step (oneCert ninetyDays)) (init 0 0)
      [.seed "abc.localhost" [4] "PEM", .insert 0, .call (.prepare "abc.localhost")] = some w ∧
    step (oneCert ninetyDays) w (.call (.step 0)) =
      some { w with acme := w.acme.goto 0 ⟨"abc.localhost", .checkCache⟩ (.cached "PEM") } :=
  ⟨_, rfl, ((cache_sound (oneCert ninetyDays) 0 0 [] (init 0 0) rfl).accepted "abc.localhost" [4]
    "PEM" _ (serves_oneCert ninetyDays) le_rfl (by decide)).2 [] [.call (.prepare "abc.localhost")]
    _ _ rfl ⟨trivial, trivial⟩ rfl (by decide) 0 _ rfl rfl rfl⟩

/-- A minute and a half up to the epoch. -/
def beforeEpoch : Validity := ⟨-90, 0, by decide, by decide, by decide, by decide⟩

/-- With a wall clock before the epoch, a seed that is not due for another 70 seconds is ignored. -/
theorem seed_ignored_beforeEpoch :
    Serves (oneCert beforeEpoch) "abc.localhost" [4] "PEM" ⟨["abc.localhost"], [4], beforeEpoch⟩ ∧
      (-100 * 10 ^ 9 : ℤ) / 10 ^ 9 < beforeEpoch.due ∧
      step (oneCert beforeEpoch) (init (-100 * 10 ^ 9) 0) (.seed "abc.localhost" [4] "PEM") =
        some (init (-100 * 10 ^ 9) 0) := by
  refine ⟨serves_oneCert beforeEpoch, by decide, seed_ignored fun leaf hserves => ?_⟩
  cases (serves_oneCert beforeEpoch).leaf_eq.symm.trans hserves.leaf_eq
  decide

end QuicTunnel.Acme.Seeding
