import QuicTunnel.Relay.Auth

/-!
# What the TXT records of a host authorize

`txt_authorizes` (`tunnel-server/src/util.rs`) on the records of a host: those of deployment sources
(`compute_txt_expected`), in any order and any number, among records of any other kind.

The digest is over the source followed by the host, with nothing between them.  All records are read
for the same host, so the texts that are hashed are equal only if the sources are.
-/

namespace QuicTunnel.Relay

variable {env : Primitives} {host : String}

/-! ### Records -/

/-- A TXT record of the host: that of a deployment source, or any other value. -/
inductive Record
  | source (s : Bytes)
  | other (value : Bytes)
  deriving DecidableEq

def Record.value (env : Primitives) (host : String) : Record → Bytes
  | .source s => utf8 (computeTxtExpected env s host)
  | .other value => value

/-- No two of the sources have the same digest. -/
def CollisionFree (env : Primitives) (host : String) (sources : Set Bytes) : Prop :=
  Set.InjOn (fun source => env.sha256 (source ++ utf8 host)) sources

/-- The records are those of some of the sources, and values that no source has. -/
def Published (env : Primitives) (host : String) (sources : Set Bytes) (records : List Record) :
    Prop :=
  ∀ r ∈ records, match r with
    | .source source => source ∈ sources
    | .other value => ∀ source, value ≠ utf8 (computeTxtExpected env source host)

variable {sources : Set Bytes} {records : List Record}

/-- The record of a source tells which source it is. -/
theorem computeTxtExpected_injOn (h : CollisionFree env host sources) {s s' : Bytes}
    (hs : s ∈ sources) (hs' : s' ∈ sources)
    (heq : utf8 (computeTxtExpected env s host) = utf8 (computeTxtExpected env s' host)) :
    s = s' :=
  h hs hs' (base64Encode_injective (utf8_injective heq))

theorem value_eq_iff (h : CollisionFree env host sources) (hrecords : Published env host sources
    records) {r : Record} (hr : r ∈ records) {s : Bytes} (hs : s ∈ sources) :
    r.value env host = utf8 (computeTxtExpected env s host) ↔ r = .source s := by
  have hpublished := hrecords r hr
  cases r with
  | source s' =>
    refine ⟨fun heq => ?_, fun heq => by rw [heq]; rfl⟩
    rw [computeTxtExpected_injOn h hpublished hs heq]
  | other value =>
    exact ⟨fun heq => absurd heq (hpublished s), nofun⟩

/-! ### The verdict -/

/-- A lone record of the zero source admits everyone; otherwise the listed sources are admitted. -/
theorem txtAuthorizes_iff (h : CollisionFree env host sources)
    (hzero : zeroDeploymentSource ∈ sources) (hrecords : Published env host sources records)
    {source : Bytes} (hsource : source ∈ sources) :
    txtAuthorizes env (records.map (·.value env host)) source host = true ↔
      records = [.source zeroDeploymentSource] ∨ .source source ∈ records := by
  have hopen : (records.map (·.value env host)).length = 1 ∧
      (records.map (·.value env host)).head? =
        some (utf8 (computeTxtExpected env zeroDeploymentSource host)) ↔
      records = [.source zeroDeploymentSource] := by
    constructor
    · rintro ⟨hlen, hhead⟩
      rw [List.length_map] at hlen
      obtain ⟨r, rfl⟩ := List.length_eq_one_iff.1 hlen
      rw [(value_eq_iff h hrecords List.mem_cons_self hzero).1 (Option.some.inj hhead)]
    · rintro rfl
      exact ⟨rfl, rfl⟩
  have hlisted : ((records.map (·.value env host)).any fun v =>
      v == utf8 (computeTxtExpected env source host)) = true ↔ .source source ∈ records := by
    rw [List.any_eq_true]
    constructor
    · rintro ⟨v, hv, heq⟩
      obtain ⟨r, hr, rfl⟩ := List.mem_map.1 hv
      rwa [← (value_eq_iff h hrecords hr hsource).1 (eq_of_beq heq)]
    · intro hmem
      exact ⟨_, List.mem_map_of_mem hmem, beq_self_eq_true _⟩
  simp only [txtAuthorizes, hopen]
  by_cases hlone : records = [.source zeroDeploymentSource]
  · rw [if_pos hlone]
    exact ⟨fun _ => .inl hlone, fun _ => rfl⟩
  · rw [if_neg hlone, hlisted]
    exact ⟨.inr, fun hor => hor.resolve_left hlone⟩

/-- What the records of a host say about the sources. -/
structure Admits (env : Primitives) (host : String) (sources : Set Bytes) : Prop where
  /-- A lone record of the zero source admits everyone. -/
  openToAll : ∀ source,
    txtAuthorizes env [(Record.source zeroDeploymentSource).value env host] source host = true
  /-- Any other records admit the sources that are listed. -/
  listed : ∀ records, Published env host sources records →
    records ≠ [.source zeroDeploymentSource] → ∀ source ∈ sources,
    (txtAuthorizes env (records.map (·.value env host)) source host = true ↔
      .source source ∈ records)
  /-- Their order does not matter. -/
  unordered : ∀ records records', Published env host sources records → records.Perm records' →
    ∀ source ∈ sources, txtAuthorizes env (records.map (·.value env host)) source host =
      txtAuthorizes env (records'.map (·.value env host)) source host
  /-- One more record beside the zero source's, before or after it, leaves the listed sources. -/
  withdrawn : ∀ r records, Published env host sources [r] →
    records = [r, .source zeroDeploymentSource] ∨ records = [.source zeroDeploymentSource, r] →
    ∀ source ∈ sources, (txtAuthorizes env (records.map (·.value env host)) source host = true ↔
      source = zeroDeploymentSource ∨ r = .source source)

/-- **TXT records admit exactly the published sources**, among any sources whose digests do not
collide. -/
theorem txtAuthorizes_published (env : Primitives) (host : String) (sources : Set Bytes)
    (h : CollisionFree env host sources) (hzero : zeroDeploymentSource ∈ sources) :
    Admits env host sources where
  openToAll source := by
    rw [txtAuthorizes]
    exact if_pos ⟨rfl, rfl⟩
  listed records hrecords hne source hsource := by
    rw [txtAuthorizes_iff h hzero hrecords hsource]
    exact ⟨fun hor => hor.resolve_left hne, .inr⟩
  unordered records records' hrecords hperm source hsource := by
    have hrecords' : Published env host sources records' := fun r hr =>
      hrecords r (hperm.mem_iff.2 hr)
    rw [Bool.eq_iff_iff, txtAuthorizes_iff h hzero hrecords hsource,
      txtAuthorizes_iff h hzero hrecords' hsource, hperm.mem_iff]
    refine or_congr_left ⟨fun hlone => ?_, fun hlone => ?_⟩
    · rw [hlone] at hperm
      exact List.perm_singleton.1 hperm.symm
    · rw [hlone] at hperm
      exact List.perm_singleton.1 hperm
  withdrawn r records hr hrecords source hsource := by
    have hmem : ∀ r', r' ∈ records ↔ r' = r ∨ r' = .source zeroDeploymentSource := by
      rcases hrecords with rfl | rfl <;> intro r' <;> simp [or_comm]
    have hpublished : Published env host sources records := by
      intro r' hr'
      rcases (hmem r').1 hr' with rfl | rfl
      · exact hr _ List.mem_cons_self
      · exact hzero
    have hne : records ≠ [.source zeroDeploymentSource] := by
      rcases hrecords with rfl | rfl <;> simp
    rw [txtAuthorizes_iff h hzero hpublished hsource, or_iff_right hne, hmem, or_comm,
      Record.source.injEq, eq_comm (a := Record.source source)]

/-- One source and the zero source: together they admit both, the record of the one alone does not
admit the other. -/
theorem txtAuthorizes_published_pair :
    let source : Bytes := List.replicate 32 0x2a
    let host := "relay.localhost"
    let published := fun records : List Record =>
      records.map (·.value Sample.primitives host)
    txtAuthorizes Sample.primitives
        (published [.source zeroDeploymentSource, .source source]) source host = true ∧
      txtAuthorizes Sample.primitives (published [.source source]) zeroDeploymentSource host ≠
        true := by
  intro source host published
  have hdigests : Sample.primitives.sha256 (source ++ utf8 host) = Sample.sourceDigest ∧
      Sample.primitives.sha256 (zeroDeploymentSource ++ utf8 host) = Sample.openDigest := by
    constructor <;> decide +kernel
  have hfree : CollisionFree Sample.primitives host {source, zeroDeploymentSource} := by
    refine (Set.injOn_pair).2 fun heq => ?_
    rw [hdigests.1, hdigests.2] at heq
    exact absurd heq (by decide)
  have hpublished : ∀ records, (∀ r ∈ records, r = .source source ∨
      r = .source zeroDeploymentSource) →
      Published Sample.primitives host {source, zeroDeploymentSource} records := by
    intro records hrecords r hr
    rcases hrecords r hr with rfl | rfl
    · exact Set.mem_insert _ _
    · exact Set.mem_insert_of_mem _ rfl
  have h := txtAuthorizes_published Sample.primitives host {source, zeroDeploymentSource} hfree
    (Set.mem_insert_of_mem _ rfl)
  constructor
  · exact (h.listed _ (hpublished _ (by simp)) (by simp) source (Set.mem_insert _ _)).2 (by simp)
  · intro hauth
    have hmem := (h.listed _ (hpublished [.source source] (by simp)) (by decide +kernel)
      zeroDeploymentSource (Set.mem_insert_of_mem _ rfl)).1 hauth
    exact absurd hmem (by decide +kernel)

end QuicTunnel.Relay
