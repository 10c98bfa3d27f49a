import QuicTunnel.Relay.Provision
import QuicTunnel.Relay.RenewalRuns

/-!
# The relay's certificate, from one start to the next

`determine_cert`, `build_server_tls_config` and `load_certified_key_from_paths`
(`tunnel-server/src/cert.rs`), with the resolver (`Renewal`) and the provisionings (`Provision`) they
bring together.  A process provisions at its start if it has to, then serves handshakes: each loads
the two files one after the other while a renewal may be replacing them.  A process can be killed at
any point, and the next one starts from the files it leaves behind.  Nothing else changes the files.

* `step` is one step of such a process, its calls and its renewals;
* `Issued`: a chain that the ACME server has issued, with the key it was issued for;
* `Server.Sound`, `Process.Sound`: what the parties of a process know about the files.
-/

namespace QuicTunnel.Relay.Serving

open Provision (Crypto Target Host Pc Act Disk KeyIs Established Kept)
open Renewal (Resolver AcmeRenewalConfig)

/-! ### Loading -/

/-- `rustls::sign::CertifiedKey`. -/
structure CertifiedKey (κ : Type) where
  certs : List Bytes
  key : κ
  deriving DecidableEq

/-- The code that reads certificates and keys. -/
structure Parsers (κ : Type) where
  /-- `rustls_pemfile::certs`. -/
  certs : String → List (Except String Bytes)
  /-- The `not_after` of an X.509 certificate, in Unix seconds. -/
  notAfter : Bytes → Option ℤ
  /-- `rustls_pemfile::private_key`. -/
  privateKey : String → Except String (Option Bytes)
  /-- `any_supported_type`, with the `Debug` text of its error. -/
  anySupportedType : Bytes → Except String κ

variable {κ : Type}

/-- `load_certified_key_from_paths`, once both files are read. -/
def loadCertifiedKey (x : Parsers κ) (t : Target) (certPem keyPem : String) :
    Except String (CertifiedKey κ × ℤ) :=
  match (x.certs certPem).mapM id with
  | .error e => .error e
  | .ok [] => .error ("no certificates found in " ++ t.certPath)
  | .ok (cert :: chain) =>
    let notAfter := (x.notAfter cert).getD 0
    match x.privateKey keyPem with
    | .error e => .error e
    | .ok none => .error ("no private key found in " ++ t.keyPath)
    | .ok (some der) =>
      match x.anySupportedType der with
      | .error e => .error ("unsupported key type: " ++ e)
      | .ok key => .ok (⟨cert :: chain, key⟩, notAfter)

/-- Whether the first certificate in `path` is expired, or cannot be read. -/
def isCertExpired (x : Parsers κ) (h : Host κ) (path : String) (now : ℤ) : Bool :=
  match h.readToString path with
  | none => true
  | some pem =>
    match (x.certs pem).head? with
    | some (.ok der) =>
      match x.notAfter der with
      | none => true
      | some notAfter => notAfter < now
    | _ => true

/-! ### The choice of a certificate -/

/-- The part of `ServerConfig` that is about the relay's certificate. -/
structure Config where
  certPath : Option String
  keyPath : Option String
  acmeDomain : Option String
  acmeCredsPath : String
  acmeRenewDaysBeforeExpiry : UInt32

/-- The paths, with their defaults, and the domain. -/
def Config.target (config : Config) : Target where
  domain := config.acmeDomain.getD ""
  credsPath := config.acmeCredsPath
  certPath := config.certPath.getD "server_cert.pem"
  keyPath := config.keyPath.getD "server.key"

inductive Choice
  | selfSigned
  | files (isAcme : Bool)
  | provision

/-- `determine_cert`, up to the provisioning. -/
def determineCert (config : Config) (expired : Bool) : Choice :=
  if config.certPath.isNone && config.acmeDomain.isNone then .selfSigned
  else if !expired then .files config.acmeDomain.isSome
  else if config.acmeDomain.isSome then .provision
  else .selfSigned

/-- The renewal that `build_server_tls_config` attaches to the resolver. -/
def Config.renewal (config : Config) (isAcme : Bool) : Option AcmeRenewalConfig :=
  if isAcme then config.acmeDomain.map fun _ => ⟨config.acmeRenewDaysBeforeExpiry.toNat * 86400⟩
  else none

/-! ### Processes -/

/-- What a renewal task does up to the result. -/
inductive Work (κ : Type)
  | provisioning (pc : Pc κ)
  /-- Has read the certificate, for the load that follows. -/
  | loading (certPem : String)
  | done
  deriving DecidableEq

/-- A process that serves the certificate on disk. -/
structure Server (κ : Type) where
  isAcme : Bool
  resolver : Resolver (CertifiedKey κ)
  /-- The call that holds the cache while it loads, and the certificate it has read. -/
  loading : Option (ℕ × String)
  /-- For each task of the resolver, how far it has come. -/
  works : List (Work κ)

inductive Process (κ : Type)
  | down
  /-- In `determine_cert`, before `is_cert_expired`. -/
  | determining
  /-- In `determine_cert`, in or after the provisioning. -/
  | provisioning (pc : Pc κ)
  | selfSigned
  | serving (server : Server κ)

structure State (κ : Type) where
  host : Host κ
  process : Process κ

inductive Event (κ : Type)
  /-- The process is killed, or ends. -/
  | stop
  | start
  /-- `is_cert_expired`, and what follows from it. -/
  | determine (wall : ℤ) (now : ℕ)
  /-- A step of the provisioning of `determine_cert`. -/
  | provision (a : Act κ)
  /-- `determine_cert` returns from the provisioning. -/
  | determined (wall : ℤ) (now : ℕ)
  | tick (elapsed : ℕ)
  | handshake
  /-- Call `i` takes the cache; if it has to load, it reads the certificate, unless that fails. -/
  | resolve (i : ℕ) (io : Bool)
  /-- The call that loads reads the key, unless that fails. -/
  | readKey (io : Bool)
  | call (i : ℕ)
  /-- A step of the provisioning of task `j`. -/
  | work (j : ℕ) (a : Act κ)
  /-- A step of the load of task `j`; a read may fail. -/
  | load (j : ℕ) (io : Bool)
  | task (j : ℕ)
  /-- Task `j` panics. -/
  | abort (j : ℕ)

section Step

variable (config : Config) (c : Crypto κ) (x : Parsers κ)

/-- A process that begins to serve. -/
def Server.new (isAcme : Bool) (wall : ℤ) (now : ℕ) : Server κ :=
  ⟨isAcme, Renewal.init _ wall now, none, []⟩

/-- One of the two reads of a load. -/
def read (h : Host κ) (path : String) (io : Bool) : Option String :=
  if io then h.readToString path else none

/-- The rest of a load: the key is read, and both are parsed. -/
def reload (h : Host κ) (certPem : String) (io : Bool) : Option (CertifiedKey κ × ℤ) :=
  (read h config.target.keyPath io).bind fun keyPem =>
    (loadCertifiedKey x config.target certPem keyPem).toOption

/-- The work of the tasks that a step of the resolver has started. -/
def begun {ι : Type} (before after : Resolver ι) : List (Work κ) :=
  (after.tasks.drop before.tasks.length).map fun _ => .provisioning .keypair

/-- The resolver takes a step. -/
def Server.resolverStep (v : Server κ) (a : Renewal.Action (CertifiedKey κ)) :
    Option (Server κ) :=
  (Renewal.step (config.renewal v.isAcme) v.resolver a).map fun resolver =>
    { v with resolver := resolver, works := v.works ++ begun v.resolver resolver }

/-- Task `j` has its result. -/
def Server.finish (v : Server κ) (j : ℕ) (a : Renewal.Action (CertifiedKey κ)) :
    Option (Server κ) :=
  { v with works := v.works.set j .done }.resolverStep config a

/-- Whether call `i` is at the start of `resolve`. -/
def Server.resolves (v : Server κ) (i : ℕ) : Bool :=
  match v.resolver.calls[i]? with
  | some .resolving => true
  | _ => false

/-- Whether call `i` is about to take the cache, in `maybe_trigger_renewal`. -/
def Server.callLocks (v : Server κ) (i : ℕ) : Bool :=
  match v.resolver.calls[i]? with
  | some (.reading _) => true
  | _ => false

/-- Whether task `j` is about to take the cache. -/
def Server.taskLocks (v : Server κ) (j : ℕ) : Bool :=
  match v.resolver.tasks[j]? with
  | some (.locked (some _)) => true
  | _ => false

/-- In a call to the file system, which may fail but does not panic. -/
def inFileCall : Pc κ → Bool
  | .opening _ | .writing _ _ | .renamingKey _ _ | .renamingCert _ _ => true
  | _ => false

/-- One step of a serving process. -/
def Server.step (h : Host κ) (v : Server κ) : Event κ → Option (Host κ × Server κ)
  | .tick elapsed => (v.resolverStep config (.tick elapsed)).map (h, ·)
  | .handshake => (v.resolverStep config .handshake).map (h, ·)
  | .resolve i io =>
    if v.loading.isSome || !v.resolves i then none
    else if v.resolver.fresh.isSome then (v.resolverStep config (.resolve i none)).map (h, ·)
    else match read h config.target.certPath io with
      | none => (v.resolverStep config (.resolve i none)).map (h, ·)
      | some certPem => some (h, { v with loading := some (i, certPem) })
  | .readKey io =>
    v.loading.bind fun (i, certPem) =>
      ({ v with loading := none }.resolverStep config
        (.resolve i (reload config x h certPem io))).map (h, ·)
  | .call i =>
    if v.loading.isSome && v.callLocks i then none
    else (v.resolverStep config (.call i)).map (h, ·)
  | .task j =>
    if v.loading.isSome && v.taskLocks j then none
    else (v.resolverStep config (.task j)).map (h, ·)
  | .work j a =>
    match v.works[j]? with
    | some (.provisioning pc) =>
      (pc.step c config.target h a).map fun (h', pc') =>
        (h', { v with works := v.works.set j (.provisioning pc') })
    | _ => none
  | .load j io =>
    match v.works[j]? with
    | some (.provisioning (.ended (.error _))) => (v.finish config j (.provision j none)).map (h, ·)
    | some (.provisioning (.ended (.ok ()))) =>
      match read h config.target.certPath io with
      | none => (v.finish config j (.provision j none)).map (h, ·)
      | some certPem => some (h, { v with works := v.works.set j (.loading certPem) })
    | some (.loading certPem) =>
      (v.finish config j (.provision j (reload config x h certPem io))).map (h, ·)
    | _ => none
  | .abort j =>
    match v.works[j]? with
    | some (.provisioning pc) =>
      if inFileCall pc then none else (v.finish config j (.abort j)).map (h, ·)
    | some (.loading _) => (v.finish config j (.abort j)).map (h, ·)
    | _ => none
  | _ => none

/-- One step of the relay's process, or its end or start. -/
def step (s : State κ) : Event κ → Option (State κ)
  | .stop => some ⟨{ s.host with challenge := none }, .down⟩
  | .start =>
    match s.process with
    | .down => some { s with process := .determining }
    | _ => none
  | .determine wall now =>
    match s.process with
    | .determining =>
      match determineCert config (isCertExpired x s.host config.target.certPath (unixSecs wall)) with
      | .selfSigned => some { s with process := .selfSigned }
      | .files isAcme => some { s with process := .serving (.new isAcme wall now) }
      | .provision => some { s with process := .provisioning .keypair }
    | _ => none
  | .provision a =>
    match s.process with
    | .provisioning pc =>
      (pc.step c config.target s.host a).map fun (h, pc') => ⟨h, .provisioning pc'⟩
    | _ => none
  | .determined wall now =>
    match s.process with
    | .provisioning (.ended (.ok ())) => some { s with process := .serving (.new true wall now) }
    | .provisioning (.ended (.error _)) => some ⟨{ s.host with challenge := none }, .down⟩
    | _ => none
  | e =>
    match s.process with
    | .serving v => (v.step config c x s.host e).map fun (h, v') => ⟨h, .serving v'⟩
    | _ => none

end Step

/-! ### What a step does -/

section Steps

variable {config : Config} {c : Crypto κ} {x : Parsers κ} {h h' : Host κ} {v v' : Server κ}
  {e : Event κ}

/-- An action of the resolver that does not end a provisioning. -/
def plain {ι : Type} : Renewal.Action ι → Bool
  | .provision _ _ | .abort _ => false
  | _ => true

/-- What a step of a serving process can do. -/
inductive ServerStep (config : Config) (c : Crypto κ) (x : Parsers κ) (h : Host κ) (v : Server κ) :
    Event κ → Host κ → Server κ → Prop
  | resolver {e : Event κ} {a : Renewal.Action (CertifiedKey κ)} {v' : Server κ} :
      plain a → a.Brings (fun _ => False) → v.resolverStep config a = some v' →
      ServerStep config c x h v e h v'
  | readCert {e : Event κ} {i : ℕ} {certPem : String} :
      h.readToString config.target.certPath = some certPem →
      ServerStep config c x h v e h { v with loading := some (i, certPem) }
  | readKey {e : Event κ} {i : ℕ} {certPem : String} {io : Bool} {v' : Server κ} :
      v.loading = some (i, certPem) →
      { v with loading := none }.resolverStep config
        (.resolve i (reload config x h certPem io)) = some v' → ServerStep config c x h v e h v'
  | work {j : ℕ} {a : Act κ} {pc pc' : Pc κ} {h' : Host κ} :
      v.works[j]? = some (.provisioning pc) → Provision.Move c config.target h pc h' pc' →
      ServerStep config c x h v (.work j a) h' { v with works := v.works.set j (.provisioning pc') }
  | workReads {e : Event κ} {j : ℕ} {certPem : String} :
      v.works[j]? = some (.provisioning (.ended (.ok ()))) →
      h.readToString config.target.certPath = some certPem →
      ServerStep config c x h v e h { v with works := v.works.set j (.loading certPem) }
  /-- A task has its result: what its load has brought, if it has come so far. -/
  | finished {e : Event κ} {j : ℕ} {w : Work κ} {result : Option (CertifiedKey κ × ℤ)}
      {v' : Server κ} : v.works[j]? = some w → (∀ pc, w = .provisioning pc → ∃ r, pc = .ended r) →
      (∀ r ∈ result, ∃ certPem io, w = .loading certPem ∧ reload config x h certPem io = some r) →
      v.finish config j (.provision j result) = some v' → ServerStep config c x h v e h v'
  | aborted {j : ℕ} {v' : Server κ} : v.finish config j (.abort j) = some v' →
      ServerStep config c x h v (.abort j) h v'

theorem readToString_of_read {path : String} {io : Bool} {text : String}
    (hread : read h path io = some text) : h.readToString path = some text := by
  unfold read at hread
  split_ifs at hread
  exact hread

theorem Server.step_cases (hstep : v.step config c x h e = some (h', v')) :
    ServerStep config c x h v e h' v' := by
  have resolver {a : Renewal.Action (CertifiedKey κ)}
      (h₁ : (v.resolverStep config a).map (h, ·) = some (h', v')) (ha : plain a)
      (hbrings : a.Brings (fun _ => False)) : ServerStep config c x h v e h' v' := by
    obtain ⟨v₁, hv₁, heq⟩ := Option.map_eq_some_iff.1 h₁
    cases heq
    exact .resolver ha hbrings hv₁
  have finish {j : ℕ} {w : Work κ} {result : Option (CertifiedKey κ × ℤ)}
      (hw : v.works[j]? = some w) (hend : ∀ pc, w = .provisioning pc → ∃ r, pc = .ended r)
      (hresult : ∀ r ∈ result, ∃ certPem io, w = .loading certPem ∧
        reload config x h certPem io = some r)
      (h₁ : (v.finish config j (.provision j result)).map (h, ·) = some (h', v')) :
      ServerStep config c x h v e h' v' := by
    obtain ⟨v₁, hv₁, heq⟩ := Option.map_eq_some_iff.1 h₁
    cases heq
    exact .finished hw hend hresult hv₁
  have ended {r : Except String Unit} (pc : Pc κ)
      (hpc : Work.provisioning (.ended r) = .provisioning pc) : ∃ r, pc = .ended r := by
    cases hpc
    exact ⟨_, rfl⟩
  cases e with
  | stop | start | determine | provision | determined => cases hstep
  | tick | handshake =>
    simp only [Server.step] at hstep
    exact resolver hstep rfl trivial
  | resolve i io =>
    simp only [Server.step] at hstep
    split at hstep
    · cases hstep
    · split at hstep
      · exact resolver hstep rfl (by exact nofun)
      · split at hstep
        · exact resolver hstep rfl (by exact nofun)
        · cases hstep
          exact .readCert (readToString_of_read ‹_›)
  | readKey io =>
    obtain ⟨⟨i, certPem⟩, hloading, h₁⟩ := Option.bind_eq_some_iff.1 hstep
    obtain ⟨v₁, hv₁, heq⟩ := Option.map_eq_some_iff.1 h₁
    cases heq
    exact .readKey hloading hv₁
  | call i | task j =>
    simp only [Server.step] at hstep
    split at hstep
    · cases hstep
    · exact resolver hstep rfl trivial
  | work j a =>
    simp only [Server.step] at hstep
    split at hstep
    · obtain ⟨⟨h₁, pc'⟩, hpc, heq⟩ := Option.map_eq_some_iff.1 hstep
      cases heq
      exact .work ‹_› (Provision.step_move hpc)
    · cases hstep
  | load j io =>
    simp only [Server.step] at hstep
    split at hstep
    · next hw => exact finish hw ended (by exact nofun) hstep
    · next hw =>
      split at hstep
      · exact finish hw ended (by exact nofun) hstep
      · next hread =>
        cases hstep
        exact .workReads hw (readToString_of_read hread)
    · next hw => exact finish hw (by exact nofun) (fun r hr => ⟨_, _, rfl, hr⟩) hstep
    · cases hstep
  | abort j =>
    have abort (h₁ : (v.finish config j (.abort j)).map (h, ·) = some (h', v')) :
        ServerStep config c x h v (.abort j) h' v' := by
      obtain ⟨v₁, hv₁, heq⟩ := Option.map_eq_some_iff.1 h₁
      cases heq
      exact .aborted hv₁
    simp only [Server.step] at hstep
    split at hstep
    · split at hstep
      · cases hstep
      · exact abort hstep
    · exact abort hstep
    · cases hstep

/-- What a step of the relay can do. -/
inductive Step (config : Config) (c : Crypto κ) (x : Parsers κ) (s : State κ) :
    Event κ → State κ → Prop
  | down {e : Event κ} : Step config c x s e ⟨{ s.host with challenge := none }, .down⟩
  | start {e : Event κ} : s.process = .down →
      Step config c x s e { s with process := .determining }
  | selfSigned {e : Event κ} : s.process = .determining →
      Step config c x s e { s with process := .selfSigned }
  | provisions {e : Event κ} : s.process = .determining →
      Step config c x s e { s with process := .provisioning .keypair }
  | serves {e : Event κ} {isAcme : Bool} {wall : ℤ} {now : ℕ} :
      s.process = .determining ∨ s.process = .provisioning (.ended (.ok ())) →
      Step config c x s e { s with process := .serving (.new isAcme wall now) }
  | provision {e : Event κ} {pc pc' : Pc κ} {h' : Host κ} : s.process = .provisioning pc →
      Provision.Move c config.target s.host pc h' pc' → Step config c x s e ⟨h', .provisioning pc'⟩
  | serving {e : Event κ} {v v' : Server κ} {h' : Host κ} : s.process = .serving v →
      ServerStep config c x s.host v e h' v' → Step config c x s e ⟨h', .serving v'⟩

/-- Every step of the relay is one of these. -/
theorem step_cases {s s' : State κ} (hstep : step config c x s e = some s') :
    Step config c x s e s' := by
  obtain ⟨h, process⟩ := s
  cases e with
  | stop =>
    cases hstep
    exact .down
  | start =>
    cases process <;> cases hstep
    exact .start rfl
  | determine wall now =>
    cases process with
    | determining =>
      simp only [step] at hstep
      split at hstep <;> cases hstep
      · exact .selfSigned rfl
      · exact .serves (.inl rfl)
      · exact .provisions rfl
    | _ => cases hstep
  | provision a =>
    cases process with
    | provisioning pc =>
      obtain ⟨⟨h', pc'⟩, hpc, rfl⟩ := Option.map_eq_some_iff.1 hstep
      exact .provision rfl (Provision.step_move hpc)
    | _ => cases hstep
  | determined wall now =>
    simp only [step] at hstep
    split at hstep
    · cases hstep
      exact .serves (.inr rfl)
    · cases hstep
      exact .down
    · cases hstep
  | _ =>
    cases process with
    | serving v =>
      simp only [step] at hstep
      obtain ⟨⟨h', v'⟩, hv', rfl⟩ := Option.map_eq_some_iff.1 hstep
      exact .serving rfl (Server.step_cases hv')
    | _ => cases hstep

end Steps

/-! ### What a load finds -/

section Loads

variable {config : Config} {c : Crypto κ} {x : Parsers κ} {t : Target} {h h' : Host κ}

/-- A chain that was issued, with the key it was issued for. -/
def Issued (x : Parsers κ) (h : Host κ) (ck : CertifiedKey κ) : Prop :=
  ∃ pem, (ck.key, pem) ∈ h.issued ∧ (x.certs pem).mapM id = .ok ck.certs

/-- The certificate was issued for the key on disk. -/
def Matches (c : Crypto κ) (t : Target) (h : Host κ) (certPem : String) : Prop :=
  ∃ k, (k, certPem) ∈ h.issued ∧ Established c t h k

/-- The code that loads a key reads the same one as the code that provisions for it. -/
def Agree (c : Crypto κ) (x : Parsers κ) : Prop :=
  ∀ pem k der k', c.fromPem pem = .ok k → x.privateKey pem = .ok (some der) →
    x.anySupportedType der = .ok k' → k' = k

theorem Issued.kept {ck : CertifiedKey κ} (hk : Kept c t h h') (hck : Issued x h ck) :
    Issued x h' ck := by
  obtain ⟨pem, hmem, hcerts⟩ := hck
  exact ⟨pem, hk.issued hmem, hcerts⟩

theorem Matches.kept {certPem : String} (hk : Kept c t h h') (hm : Matches c t h certPem) :
    Matches c t h' certPem := by
  obtain ⟨k, hmem, hestablished⟩ := hm
  exact ⟨k, hk.issued hmem, hk.established k hestablished⟩

theorem matches_of_read (hd : Disk c t h) {certPem : String}
    (hread : h.readToString t.certPath = some certPem) : Matches c t h certPem := by
  obtain ⟨bytes, hbytes, htext⟩ := Option.bind_eq_some_iff.1 hread
  obtain ⟨k, pem, hmem, rfl, hk⟩ := hd bytes hbytes
  rw [fromUtf8_utf8] at htext
  cases htext
  exact ⟨k, hmem, by rw [hbytes]; rfl, hk⟩

theorem loadCertifiedKey_ok {certPem keyPem : String} {ck : CertifiedKey κ} {notAfter : ℤ}
    (hload : loadCertifiedKey x t certPem keyPem = .ok (ck, notAfter)) :
    (x.certs certPem).mapM id = .ok ck.certs ∧
      ∃ der, x.privateKey keyPem = .ok (some der) ∧ x.anySupportedType der = .ok ck.key := by
  unfold loadCertifiedKey at hload
  split at hload
  · cases hload
  · cases hload
  · next hcerts =>
    dsimp only at hload
    split at hload
    · cases hload
    · cases hload
    · next hder =>
      split at hload
      · cases hload
      · next hkey =>
        cases hload
        exact ⟨hcerts, _, hder, hkey⟩

/-- A load that goes through brings a chain with the key it was issued for. -/
theorem issued_of_reload (hagree : Agree c x) {certPem : String}
    (hm : Matches c config.target h certPem) {io : Bool} {r : CertifiedKey κ × ℤ}
    (hload : reload config x h certPem io = some r) : Issued x h r.1 := by
  obtain ⟨keyPem, hread, hparse⟩ := Option.bind_eq_some_iff.1 hload
  obtain ⟨k, hmem, -, pem, hpem, hk⟩ := hm
  cases (readToString_of_read hread).symm.trans hpem
  cases hresult : loadCertifiedKey x config.target certPem keyPem with
  | error e =>
    rw [hresult] at hparse
    cases hparse
  | ok r' =>
    rw [hresult] at hparse
    cases hparse
    obtain ⟨hcerts, der, hder, hkey⟩ := loadCertifiedKey_ok hresult
    rw [← hagree keyPem k der _ hk hder hkey] at hmem
    exact ⟨certPem, hmem, hcerts⟩

end Loads

/-! ### One provisioning at a time -/

section InLine

variable {config : Config} {c : Crypto κ} {x : Parsers κ} {h h' : Host κ} {v v' : Server κ}
  {e : Event κ}

/-- A task's work is done once it has a result. -/
def Aligned {ι : Type} (task : Renewal.Task ι) (work : Work κ) : Prop :=
  work = .done ↔ task ≠ .provisioning

/-- The tasks are at work one at a time. -/
structure Server.InLine (v : Server κ) : Prop where
  exclusive : Renewal.Exclusive v.resolver
  aligned : List.Forall₂ Aligned v.resolver.tasks v.works

theorem resolverStep_eq {a : Renewal.Action (CertifiedKey κ)}
    (hstep : v.resolverStep config a = some v') :
    ∃ r, Renewal.Effect v.resolver a r ∧
      v' = { v with resolver := r, works := v.works ++ begun v.resolver r } := by
  obtain ⟨r, hr, rfl⟩ := Option.map_eq_some_iff.1 hstep
  exact ⟨r, Renewal.step_effect hr, rfl⟩

theorem begun_of_length {ι : Type} {s r : Resolver ι} (hlen : r.tasks.length = s.tasks.length) :
    begun (κ := κ) s r = [] := by
  rw [begun, List.drop_eq_nil_of_le hlen.le, List.map_nil]

/-- A step of the resolver on its own keeps the works in line. -/
theorem aligned_effect {s r : Resolver (CertifiedKey κ)} {a : Renewal.Action (CertifiedKey κ)}
    {works : List (Work κ)} (ha : plain a) (heffect : Renewal.Effect s a r)
    (hs : List.Forall₂ Aligned s.tasks works) :
    List.Forall₂ Aligned r.tasks (works ++ begun s r) := by
  have same {r : Resolver (CertifiedKey κ)} (hr : r.tasks = s.tasks) :
      List.Forall₂ Aligned r.tasks (works ++ begun s r) := by
    rw [begun_of_length (by rw [hr]), List.append_nil, hr]
    exact hs
  have moved {r : Resolver (CertifiedKey κ)} {j : ℕ} {task task' : Renewal.Task (CertifiedKey κ)}
      (hget : s.tasks[j]? = some task) (hne : task ≠ .provisioning)
      (hr : r.tasks = s.tasks.set j task') (hne' : task' ≠ .provisioning) :
      List.Forall₂ Aligned r.tasks (works ++ begun s r) := by
    obtain ⟨w, hw, haligned⟩ := hs.exists_right hget
    rw [begun_of_length (by rw [hr, List.length_set]), List.append_nil, hr]
    exact hs.set_left hw ⟨fun _ => hne', fun _ => haligned.2 hne⟩
  cases heffect with
  | tick | handshake | hit | reloaded | stale | goes => exact same rfl
  | starts =>
    simp only [begun, List.drop_left, List.map_cons, List.map_nil]
    exact hs.concat ⟨nofun, fun hne => absurd rfl hne⟩
  | provisioned | aborted => cases ha
  | locked hget => exact moved hget nofun rfl nofun
  | cached hget => exact moved hget nofun rfl nofun
  | unlocked hget _ hne => exact moved hget hne rfl nofun
  | ended hget => exact moved hget nofun rfl nofun

/-- So does one that gives a task its result, or ends it. -/
theorem aligned_finish {s r : Resolver (CertifiedKey κ)} {a : Renewal.Action (CertifiedKey κ)}
    {works : List (Work κ)} {j : ℕ} (ha : (∃ result, a = .provision j result) ∨ a = .abort j)
    (heffect : Renewal.Effect s a r) (hs : List.Forall₂ Aligned s.tasks works) :
    List.Forall₂ Aligned r.tasks (works.set j .done ++ begun s r) := by
  have moved {r : Resolver (CertifiedKey κ)} {task : Renewal.Task (CertifiedKey κ)}
      (hr : r.tasks = s.tasks.set j task) (hne : task ≠ .provisioning) :
      List.Forall₂ Aligned r.tasks (works.set j .done ++ begun s r) := by
    rw [begun_of_length (by rw [hr, List.length_set]), List.append_nil, hr]
    exact hs.set j ⟨fun _ => hne, fun _ => rfl⟩
  rcases ha with ⟨result, rfl⟩ | rfl
  · cases heffect
    exact moved rfl nofun
  · cases heffect
    exact moved rfl nofun

/-- While one task is at work, the work of every other is done. -/
theorem Server.InLine.others_done (hv : v.InLine) {j k : ℕ} {w u : Work κ}
    (hj : v.works[j]? = some w) (hk : v.works[k]? = some u) (hw : w ≠ .done) (hne : k ≠ j) :
    u = .done := by
  obtain ⟨task, htask, haligned⟩ := hv.aligned.flip.exists_right hj
  obtain ⟨task', htask', haligned'⟩ := hv.aligned.flip.exists_right hk
  by_contra hu
  have hlive : task = .provisioning := by
    by_contra hn
    exact hw (haligned.2 hn)
  have hlive' : task' = .provisioning := by
    by_contra hn
    exact hu (haligned'.2 hn)
  subst hlive hlive'
  exact hne (hv.exclusive.unique htask' htask rfl rfl)

/-- A task at work goes on with another part of it. -/
theorem Server.InLine.set (hv : v.InLine) {j : ℕ} {w w' : Work κ} (hj : v.works[j]? = some w)
    (hw : w ≠ .done) (hw' : w' ≠ .done) : { v with works := v.works.set j w' }.InLine := by
  obtain ⟨task, htask, haligned⟩ := hv.aligned.flip.exists_right hj
  refine ⟨hv.exclusive, hv.aligned.set_right htask ⟨fun hdone => absurd hdone hw', fun hne => ?_⟩⟩
  exact absurd (haligned.2 hne) hw

theorem Server.InLine.mem_set (hv : v.InLine) {j : ℕ} {w w' u : Work κ}
    (hj : v.works[j]? = some w) (hw : w ≠ .done) (hu : u ∈ v.works.set j w') :
    u = w' ∨ u = .done := by
  obtain ⟨k, hk⟩ := List.getElem?_of_mem hu
  by_cases hkj : k = j
  · subst hkj
    rw [List.getElem?_set_self (List.getElem?_eq_some_iff.1 hj).1] at hk
    cases hk
    exact .inl rfl
  · rw [List.getElem?_set_ne (Ne.symm hkj)] at hk
    exact .inr (hv.others_done hj hk hw hkj)

theorem Server.InLine.resolverStep (hv : v.InLine) {a : Renewal.Action (CertifiedKey κ)}
    (ha : plain a) (hstep : v.resolverStep config a = some v') : v'.InLine := by
  obtain ⟨r, heffect, rfl⟩ := resolverStep_eq hstep
  exact ⟨hv.exclusive.effect heffect, aligned_effect ha heffect hv.aligned⟩

theorem Server.InLine.finish (hv : v.InLine) {j : ℕ} {a : Renewal.Action (CertifiedKey κ)}
    (ha : (∃ result, a = .provision j result) ∨ a = .abort j)
    (hstep : v.finish config j a = some v') : v'.InLine := by
  obtain ⟨r, heffect, rfl⟩ := resolverStep_eq hstep
  exact ⟨hv.exclusive.effect heffect, aligned_finish ha heffect hv.aligned⟩

theorem Server.InLine.step (hv : v.InLine) (hstep : ServerStep config c x h v e h' v') :
    v'.InLine := by
  cases hstep with
  | resolver ha _ hstep => exact hv.resolverStep ha hstep
  | readCert => exact ⟨hv.exclusive, hv.aligned⟩
  | readKey _ hstep =>
    have hidle : { v with loading := none }.InLine := ⟨hv.exclusive, hv.aligned⟩
    exact hidle.resolverStep (by rfl) hstep
  | work hget => exact hv.set hget nofun nofun
  | workReads hget => exact hv.set hget nofun nofun
  | finished _ _ _ hstep => exact hv.finish (.inl ⟨_, rfl⟩) hstep
  | aborted hstep => exact hv.finish (.inr rfl) hstep

theorem new_inLine (isAcme : Bool) (wall : ℤ) (now : ℕ) :
    (Server.new isAcme wall now : Server κ).InLine := ⟨rfl, .nil⟩

/-- What comes out of a step of the resolver is old, or begins. -/
theorem mem_works_of_resolverStep {a : Renewal.Action (CertifiedKey κ)} {w : Work κ}
    (hstep : v.resolverStep config a = some v') (hw : w ∈ v'.works) :
    w ∈ v.works ∨ w = .provisioning .keypair := by
  obtain ⟨r, -, rfl⟩ := resolverStep_eq hstep
  rcases List.mem_append.1 hw with hold | hnew
  · exact .inl hold
  · obtain ⟨_, -, rfl⟩ := List.mem_map.1 hnew
    exact .inr rfl

end InLine

/-! ### What the parties of a process know -/

section Sound

variable {config : Config} {c : Crypto κ} {x : Parsers κ} {h h' : Host κ} {v v' : Server κ}
  {e : Event κ}

def Work.Sound (c : Crypto κ) (t : Target) (h : Host κ) : Work κ → Prop
  | .provisioning pc => pc.Sound c t h
  | .loading certPem => Matches c t h certPem
  | .done => True

structure Server.Sound (c : Crypto κ) (x : Parsers κ) (t : Target) (h : Host κ) (v : Server κ) :
    Prop where
  inLine : v.InLine
  works : ∀ w ∈ v.works, w.Sound c t h
  holds : Renewal.Holds (Issued x h) v.resolver
  loading : ∀ l ∈ v.loading, Matches c t h l.2

theorem sound_keypair {t : Target} : (Work.provisioning .keypair).Sound c t h := trivial

/-- What a step of the resolver keeps, with what it brings. -/
theorem Server.Sound.resolverStep {t : Target} (hv : v.Sound c x t h)
    {a : Renewal.Action (CertifiedKey κ)} (ha : plain a) (hbrings : a.Brings (Issued x h))
    (hstep : v.resolverStep config a = some v') : v'.Sound c x t h := by
  have hinLine := hv.inLine.resolverStep ha hstep
  have hworks : ∀ w ∈ v'.works, w.Sound c t h := fun w hw =>
    (mem_works_of_resolverStep hstep hw).elim (hv.works w) (· ▸ sound_keypair)
  obtain ⟨r, heffect, rfl⟩ := resolverStep_eq hstep
  exact ⟨hinLine, hworks, hv.holds.effect hbrings heffect, hv.loading⟩

theorem Server.Sound.finish {t : Target} (hv : v.Sound c x t h) {j : ℕ}
    {a : Renewal.Action (CertifiedKey κ)} (ha : (∃ result, a = .provision j result) ∨ a = .abort j)
    (hbrings : a.Brings (Issued x h)) (hstep : v.finish config j a = some v') :
    v'.Sound c x t h := by
  have hinLine := hv.inLine.finish ha hstep
  have hworks : ∀ w ∈ v'.works, w.Sound c t h := by
    intro w hw
    rcases mem_works_of_resolverStep hstep hw with hold | rfl
    · rcases List.mem_or_eq_of_mem_set hold with hold | rfl
      · exact hv.works w hold
      · trivial
    · trivial
  obtain ⟨r, heffect, rfl⟩ := resolverStep_eq hstep
  exact ⟨hinLine, hworks, hv.holds.effect hbrings heffect, hv.loading⟩

/-- The provisioning of a task takes a step: no other is at work. -/
theorem Server.Sound.work {t : Target} (hdistinct : t.Distinct) (hc : c.RoundTrip)
    (hd : Disk c t h) (hv : v.Sound c x t h) {j : ℕ} {pc pc' : Pc κ}
    (hget : v.works[j]? = some (.provisioning pc)) (hm : Provision.Move c t h pc h' pc') :
    Disk c t h' ∧ { v with works := v.works.set j (.provisioning pc') }.Sound c x t h' := by
  obtain ⟨hkept, hdisk, hpc'⟩ :=
    hm.sound hdistinct hc hd (hv.works _ (List.mem_of_getElem? hget))
  refine ⟨hdisk, hv.inLine.set hget nofun nofun, fun w hw => ?_,
    hv.holds.mono fun _ => .kept hkept, fun l hl => (hv.loading l hl).kept hkept⟩
  rcases hv.inLine.mem_set hget nofun hw with rfl | rfl
  · exact hpc'
  · trivial

/-- A step of a serving process keeps the files sound, and what its parties know. -/
theorem Server.Sound.step (hdistinct : config.target.Distinct) (hc : c.RoundTrip)
    (hagree : Agree c x) (hd : Disk c config.target h) (hv : v.Sound c x config.target h)
    (hstep : ServerStep config c x h v e h' v') :
    Disk c config.target h' ∧ v'.Sound c x config.target h' := by
  cases hstep with
  | resolver ha hbrings hstep =>
    exact ⟨hd, hv.resolverStep ha (hbrings.mono fun _ hf => hf.elim) hstep⟩
  | readCert hread =>
    refine ⟨hd, ⟨hv.inLine.exclusive, hv.inLine.aligned⟩, hv.works, hv.holds, fun l hl => ?_⟩
    cases hl
    exact matches_of_read hd hread
  | readKey hloading hstep =>
    have hidle : { v with loading := none }.Sound c x config.target h :=
      ⟨⟨hv.inLine.exclusive, hv.inLine.aligned⟩, hv.works, hv.holds, nofun⟩
    refine ⟨hd, hidle.resolverStep (by rfl) ?_ hstep⟩
    exact fun r hr => issued_of_reload hagree (hv.loading _ hloading) hr
  | work hget hm => exact hv.work hdistinct hc hd hget hm
  | workReads hget hread =>
    refine ⟨hd, hv.inLine.set hget nofun nofun, fun w hw => ?_, hv.holds, hv.loading⟩
    rcases hv.inLine.mem_set hget nofun hw with rfl | rfl
    · exact matches_of_read hd hread
    · trivial
  | finished hget _ hresult hstep =>
    refine ⟨hd, hv.finish (.inl ⟨_, rfl⟩) (fun r hr => ?_) hstep⟩
    obtain ⟨certPem, io, rfl, hload⟩ := hresult r hr
    exact issued_of_reload hagree (hv.works _ (List.mem_of_getElem? hget)) hload
  | aborted hstep => exact ⟨hd, hv.finish (.inr rfl) trivial hstep⟩

def Process.Sound (c : Crypto κ) (x : Parsers κ) (t : Target) (h : Host κ) : Process κ → Prop
  | .provisioning pc => pc.Sound c t h
  | .serving v => v.Sound c x t h
  | _ => True

theorem new_sound {t : Target} (isAcme : Bool) (wall : ℤ) (now : ℕ) :
    (Server.new isAcme wall now : Server κ).Sound c x t h :=
  ⟨new_inLine isAcme wall now, nofun, Renewal.holds_init wall now, nofun⟩

/-- **A step of the relay** keeps the files sound, and what its process knows about them. -/
theorem Step.sound (hdistinct : config.target.Distinct) (hc : c.RoundTrip) (hagree : Agree c x)
    {s s' : State κ} (hstep : Step config c x s e s')
    (hs : Disk c config.target s.host ∧ s.process.Sound c x config.target s.host) :
    Disk c config.target s'.host ∧ s'.process.Sound c x config.target s'.host := by
  obtain ⟨hd, hprocess⟩ := hs
  cases hstep with
  | down | start | selfSigned | provisions => exact ⟨hd, trivial⟩
  | serves => exact ⟨hd, new_sound _ _ _⟩
  | provision heq hm =>
    rw [heq] at hprocess
    exact (hm.sound hdistinct hc hd hprocess).2
  | serving heq hv =>
    rw [heq] at hprocess
    exact Server.Sound.step hdistinct hc hagree hd hprocess hv

theorem sound_of_runs (hdistinct : config.target.Distinct) (hc : c.RoundTrip) (hagree : Agree c x)
    (hd : Disk c config.target h) {events : List (Event κ)} {s : State κ}
    (hrun : Transition.runs (step config c x) ⟨h, .down⟩ events = some s) :
    Disk c config.target s.host ∧ s.process.Sound c x config.target s.host :=
  Transition.runs_invariant
    (P := fun s => Disk c config.target s.host ∧ s.process.Sound c x config.target s.host)
    (fun _ _ _ hs h => (step_cases h).sound hdistinct hc hagree hs) hrun ⟨hd, trivial⟩

end Sound

/-! ### What handshakes are served -/

/-- **Handshakes are served matching pairs.**  Take any files in which a certificate stands beside the
key it was issued for, and any run of processes over them, with renewals that replace both files
while handshakes read one after the other, and kills at any point.  Whatever a handshake is served is
a whole chain that the ACME server has issued, with the key it was issued for. -/
theorem served_issued (config : Config) (c : Crypto κ) (x : Parsers κ)
    (hdistinct : config.target.Distinct) (hc : c.RoundTrip) (hagree : Agree c x) (h : Host κ)
    (hd : Disk c config.target h) (events : List (Event κ)) (s : State κ)
    (hrun : Transition.runs (step config c x) ⟨h, .down⟩ events = some s)
    (v : Server κ) (hv : s.process = .serving v) (i : ℕ) (ck : CertifiedKey κ)
    (hserved : v.resolver.calls[i]? = some (.returned (some ck))) : Issued x s.host ck := by
  obtain ⟨-, hsound⟩ := sound_of_runs hdistinct hc hagree hd hrun
  rw [hv] at hsound
  exact hsound.holds.calls _ (List.mem_of_getElem? hserved) ck rfl

/-- The files of a relay that starts for the first time. -/
def noFiles : Host Bool := ⟨fun _ => none, none, []⟩

def sampleConfig : Config := ⟨none, none, some "relay.example", "server_acme_creds.json", 0⟩

/-- Two keys, and their texts. -/
def sampleCrypto : Crypto Bool where
  serializePem k := if k then "K1" else "K0"
  fromPem pem := if pem = "K1" then .ok true else if pem = "K0" then .ok false else .error "no key"
  serializeRequest _ _ := .ok []
  buildAlpnAcceptor _ _ := .ok ()
  credentials _ := .ok ()

def sampleParsers : Parsers Bool where
  certs pem := [.ok (utf8 pem)]
  notAfter _ := some 1000
  privateKey pem := .ok (some (utf8 pem))
  anySupportedType der :=
    if der = utf8 "K1" then .ok true else if der = utf8 "K0" then .ok false else .error "no key"

/-- An ACME server that issues a chain at once. -/
def sampleServer : OrderServer where
  refresh _ := .ok ⟨.ready, none⟩
  authorizations := []
  finalizeCsr _ := .ok ()
  certificate _ := .ok (some "C")

/-- A provisioning that goes through, from no files at all. -/
def sampleActs : List (Act Bool) :=
  [.go, .generate true, .go, .put 2, .go, .go, .created "{}", .go, .put 2, .go,
    .ordered [.ok ⟨false, some ⟨"ka", .ok ()⟩, []⟩], .answered [] sampleServer, .go,
    .go, .put 2, .go, .go, .go, .put 1, .go, .go]

/-- The relay's first start, and its first handshake. -/
def firstStart : List (Event Bool) :=
  [.start, .determine 0 0] ++ sampleActs.map .provision ++
    [.determined 0 0, .handshake, .resolve 0 true, .readKey true, .call 0, .call 0]

/-- What the calls of a serving process have come to. -/
def State.calls (s : State κ) : List (Renewal.Call (CertifiedKey κ)) :=
  match s.process with
  | .serving v => v.resolver.calls
  | _ => []

theorem sample_distinct : sampleConfig.target.Distinct := by
  constructor <;> decide

theorem sample_roundTrip : sampleCrypto.RoundTrip := by
  intro k
  cases k <;> decide

theorem sample_agree : Agree sampleCrypto sampleParsers := by
  intro pem k der k' hk hder hk'
  cases hder
  simp only [sampleCrypto] at hk
  split_ifs at hk with h1 h0
  · subst h1
    cases hk
    cases hk'
    rfl
  · subst h0
    cases hk
    revert hk'
    decide +revert

theorem exists_serving {s : State κ} {call : Renewal.Call (CertifiedKey κ)}
    {calls : List (Renewal.Call (CertifiedKey κ))} (hcalls : s.calls = call :: calls) :
    ∃ v, s.process = .serving v ∧ v.resolver.calls = call :: calls := by
  unfold State.calls at hcalls
  split at hcalls
  · exact ⟨_, ‹_›, hcalls⟩
  · cases hcalls

theorem served_issued_firstStart :
    ∃ s v, Transition.runs (step sampleConfig sampleCrypto sampleParsers) ⟨noFiles, .down⟩
        firstStart = some s ∧ s.process = .serving v ∧
      v.resolver.calls[0]? = some (.returned (some ⟨[utf8 "C"], true⟩)) ∧
      Issued sampleParsers s.host ⟨[utf8 "C"], true⟩ := by
  obtain ⟨s, hrun, hcalls⟩ := Option.map_eq_some_iff.1
    (show (Transition.runs (step sampleConfig sampleCrypto sampleParsers) ⟨noFiles, .down⟩
      firstStart).map State.calls = some [.returned (some ⟨[utf8 "C"], true⟩)] by decide +kernel)
  obtain ⟨v, hv, hcalls⟩ := exists_serving hcalls
  have hserved : v.resolver.calls[0]? = some (.returned (some ⟨[utf8 "C"], true⟩)) := by
    rw [hcalls]
    rfl
  exact ⟨s, v, hrun, hv, hserved, served_issued sampleConfig sampleCrypto sampleParsers
    sample_distinct sample_roundTrip sample_agree noFiles nofun firstStart s hrun v hv 0 _ hserved⟩

end QuicTunnel.Relay.Serving
