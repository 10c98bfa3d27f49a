import QuicTunnel.Base.Files
import QuicTunnel.Base.Transition
import QuicTunnel.Common.Order

/-!
# Provisioning the relay's certificate

`provision_acme_cert` (`tunnel-server/src/cert.rs`) with what it calls, over the files it shares with
the handshakes that load them and with the next start of the relay.  `Pc` lists the points between
two of its steps.  A file is written piece by piece; what the ACME server answers is carried by the
action, and so is the failure of a call to the file system or the network.  The third-party key and
certificate code is a `Crypto`; an error of it, or of a call, is its text.

* `Pc.step` is one step of a provisioning;
* `Pc.Sound` is what a provisioning has established about the files at each point, and `Disk` what
  the files satisfy throughout: a certificate on disk was issued for the key on disk.

`issued` is not part of the program: it records what the ACME server has issued, for which key.
-/

namespace QuicTunnel.Relay.Provision

open Files

/-! ### Files and parameters -/

/-- The key and certificate code, for keys `κ`. -/
structure Crypto (κ : Type) where
  /-- `rcgen::KeyPair::serialize_pem`. -/
  serializePem : κ → String
  /-- `rcgen::KeyPair::from_pem`. -/
  fromPem : String → Except String κ
  /-- The DER of the CSR for a domain. -/
  serializeRequest : String → κ → Except String Bytes
  /-- Whether `build_alpn_acceptor` succeeds, for a domain and a key authorization. -/
  buildAlpnAcceptor : String → String → Except String Unit
  /-- Whether a text is that of `AccountCredentials`. -/
  credentials : String → Except String Unit

/-- The domain and the paths of `provision_acme_cert`. -/
structure Target where
  domain : String
  credsPath : String
  certPath : String
  keyPath : String
  deriving DecidableEq

/-- The temporary file of `write_atomic`. -/
def tmp (path : String) : String := path ++ ".tmp"

/-- No two of the files that a provisioning writes are the same. -/
structure Target.Distinct (t : Target) : Prop where
  cert_ne_key : t.certPath ≠ t.keyPath
  cert_ne_keyTmp : t.certPath ≠ tmp t.keyPath
  key_ne_certTmp : t.keyPath ≠ tmp t.certPath
  cert_ne_creds : t.certPath ≠ t.credsPath
  key_ne_creds : t.keyPath ≠ t.credsPath

/-- What a provisioning shares with the rest of the relay. -/
structure Host (κ : Type) where
  files : String → Option Bytes
  /-- `ServerChallenge`: the domain, and the key authorization its acceptor shows. -/
  challenge : Option (String × String)
  /-- The chains issued so far, with the key they were requested for. -/
  issued : List (κ × String)

/-- `read_to_string`; `none` if it fails. -/
def Host.readToString {κ : Type} (h : Host κ) (path : String) : Option String :=
  (h.files path).bind fromUtf8

/-! ### The order -/

/-- The key authorization of the last authorization that is not valid yet. -/
def keyAuthorization (domain : String) :
    List (Except String Authorization) → String → Except String String
  | [], ka => .ok ka
  | .error e :: _, _ => .error e
  | .ok authz :: rest, ka =>
    if authz.valid then keyAuthorization domain rest ka
    else match authz.tlsAlpn01 with
      | none => .error ("no TLS-ALPN-01 challenge for " ++ domain)
      | some challenge => keyAuthorization domain rest challenge.keyAuthorization

/-- Marks the first challenge of `finalize_acme_order` ready. -/
def setReady : List (Except String Authorization) → Except String Unit
  | [] => .ok ()
  | .error e :: _ => .error e
  | .ok authz :: rest =>
    if authz.valid then setReady rest
    else match authz.tlsAlpn01 with
      | none => setReady rest
      | some challenge => challenge.setReady

/-- `finalize_acme_order`. -/
def finalizeAcmeOrder (authorizations : List (Except String Authorization)) (server : OrderServer)
    (domain : String) (csrDer : Bytes) : Except String String :=
  match setReady authorizations with
  | .error e => .error e
  | .ok () => (finalizeOrder server domain csrDer).result

/-! ### Steps -/

/-- A file that a provisioning writes, with what it has at hand then. -/
inductive Write (κ : Type)
  /-- A new key, in `load_or_generate_keypair`. -/
  | key (k : κ)
  /-- A new account's credentials, in `acme_load_or_create_account`. -/
  | creds (k : κ) (csrDer : Bytes) (json : String)
  /-- The temporary file of `write_atomic` for the key. -/
  | keyTmp (k : κ) (pem : String)
  /-- The temporary file of `write_atomic` for the certificate. -/
  | certTmp (k : κ) (pem : String)
  deriving DecidableEq

/-- Where a provisioning is. -/
inductive Pc (κ : Type)
  /-- Before `Path::exists` on the key. -/
  | keypair
  /-- Before the key is read. -/
  | keyExists
  /-- Before `KeyPair::generate`. -/
  | keyMissing
  /-- Before `Path::exists` on the credentials. -/
  | account (k : κ) (csrDer : Bytes)
  /-- Before the credentials are read. -/
  | credsExist (k : κ) (csrDer : Bytes)
  /-- Before the account is created. -/
  | credsMissing (k : κ) (csrDer : Bytes)
  /-- In `new_order` or the first round over its authorizations. -/
  | ordering (k : κ) (csrDer : Bytes)
  /-- In `finalize_acme_order`. -/
  | finalizing (k : κ) (csrDer : Bytes)
  /-- Before the challenge is cleared. -/
  | finalized (k : κ) (issued : Except String String)
  /-- Before a file is opened for writing. -/
  | opening (w : Write κ)
  /-- `rest` is still to be written. -/
  | writing (w : Write κ) (rest : Bytes)
  /-- Before the key's temporary file is renamed. -/
  | renamingKey (k : κ) (pem : String)
  /-- Before the certificate's temporary file is renamed. -/
  | renamingCert (k : κ) (pem : String)
  | ended (result : Except String Unit)
  deriving DecidableEq

inductive Act (κ : Type)
  /-- Goes on to the next point; a call to the file system or the ACME server succeeds. -/
  | go
  /-- The call at this point fails. -/
  | fail (e : String)
  /-- `KeyPair::generate` gives `k`. -/
  | generate (k : κ)
  /-- `n` more bytes reach the file. -/
  | put (n : ℕ)
  /-- The ACME server creates the account with these credentials. -/
  | created (json : String)
  /-- The ACME server takes the order and answers with its authorizations. -/
  | ordered (authorizations : List (Except String Authorization))
  /-- What the ACME server answers in `finalize_acme_order`. -/
  | answered (authorizations : List (Except String Authorization)) (server : OrderServer)

section Step

variable {κ : Type} (c : Crypto κ) (t : Target)

def Write.path : Write κ → String
  | .key _ => t.keyPath
  | .creds _ _ _ => t.credsPath
  | .keyTmp _ _ => tmp t.keyPath
  | .certTmp _ _ => tmp t.certPath

def Write.contents : Write κ → Bytes
  | .key k | .keyTmp k _ => utf8 (c.serializePem k)
  | .creds _ _ json => utf8 json
  | .certTmp _ pem => utf8 pem

/-- With the key at hand, the CSR is made. -/
def requested (k : κ) : Pc κ :=
  match c.serializeRequest t.domain k with
  | .error e => .ended (.error e)
  | .ok csrDer => .account k csrDer

/-- Where a provisioning goes on when a file is written. -/
def Write.next : Write κ → Pc κ
  | .key k => requested c t k
  | .creds k csrDer _ => .ordering k csrDer
  | .keyTmp k pem => .renamingKey k pem
  | .certTmp k pem => .renamingCert k pem

/-- The points whose call can fail; an order that cannot be finalized is an answer, not a failure,
since the challenge is cleared all the same. -/
def Pc.fallible : Pc κ → Bool
  | .keypair | .account _ _ | .finalizing _ _ | .finalized _ _ | .ended _ => false
  | _ => true

/-- One step of `provision_acme_cert`. -/
def Pc.step (h : Host κ) : Pc κ → Act κ → Option (Host κ × Pc κ)
  | pc, .fail e => if pc.fallible then some (h, .ended (.error e)) else none
  | .keypair, .go =>
    some (h, if (h.files t.keyPath).isSome then .keyExists else .keyMissing)
  | .keyExists, .go =>
    (h.readToString t.keyPath).map fun pem =>
      match c.fromPem pem with
      | .error e => (h, .ended (.error e))
      | .ok k => (h, requested c t k)
  | .keyMissing, .generate k => some (h, .opening (.key k))
  | .account k csrDer, .go =>
    some (h, if (h.files t.credsPath).isSome then .credsExist k csrDer else .credsMissing k csrDer)
  | .credsExist k csrDer, .go =>
    (h.readToString t.credsPath).map fun json =>
      match c.credentials json with
      | .error e => (h, .ended (.error e))
      | .ok () => (h, .ordering k csrDer)
  | .credsMissing k csrDer, .created json => some (h, .opening (.creds k csrDer json))
  | .ordering k csrDer, .ordered authorizations =>
    match keyAuthorization t.domain authorizations "" with
    | .error e => some (h, .ended (.error e))
    | .ok ka =>
      match c.buildAlpnAcceptor t.domain ka with
      | .error e => some (h, .ended (.error e))
      | .ok () => some ({ h with challenge := some (t.domain, ka) }, .finalizing k csrDer)
  | .finalizing k csrDer, .answered authorizations server =>
    let issued := finalizeAcmeOrder authorizations server t.domain csrDer
    some ({ h with issued := h.issued ++ (issued.toOption.map (k, ·)).toList }, .finalized k issued)
  | .finalized k issued, .go =>
    some ({ h with challenge := none },
      match issued with
      | .error e => .ended (.error e)
      | .ok pem => .opening (.keyTmp k pem))
  | .opening w, .go =>
    some ({ h with files := create h.files (w.path t) }, .writing w (w.contents c))
  | .writing w rest, .put n =>
    if 0 < n ∧ n ≤ rest.length then
      some ({ h with files := append h.files (w.path t) (rest.take n) }, .writing w (rest.drop n))
    else none
  | .writing w rest, .go => if rest = [] then some (h, w.next c t) else none
  | .renamingKey k pem, .go =>
    if (h.files (tmp t.keyPath)).isSome then
      some ({ h with files := rename h.files (tmp t.keyPath) t.keyPath }, .opening (.certTmp k pem))
    else none
  | .renamingCert _ _, .go =>
    if (h.files (tmp t.certPath)).isSome then
      some ({ h with files := rename h.files (tmp t.certPath) t.certPath }, .ended (.ok ()))
    else none
  | _, _ => none

end Step

/-! ### What a step does -/

section Moves

variable {κ : Type} {c : Crypto κ} {t : Target} {h h' : Host κ} {pc pc' : Pc κ} {a : Act κ}

/-- What a step of a provisioning can do. -/
inductive Move (c : Crypto κ) (t : Target) (h : Host κ) : Pc κ → Host κ → Pc κ → Prop
  | failed {pc : Pc κ} {e : String} : pc.fallible → Move c t h pc h (.ended (.error e))
  | keyExists : (h.files t.keyPath).isSome → Move c t h .keypair h .keyExists
  | keyMissing : h.files t.keyPath = none → Move c t h .keypair h .keyMissing
  | keyLoaded {pem : String} {k : κ} : h.readToString t.keyPath = some pem →
      c.fromPem pem = .ok k → Move c t h .keyExists h (requested c t k)
  | keyGenerated {k : κ} : Move c t h .keyMissing h (.opening (.key k))
  | credsExist {k : κ} {csrDer : Bytes} : Move c t h (.account k csrDer) h (.credsExist k csrDer)
  | credsMissing {k : κ} {csrDer : Bytes} :
      Move c t h (.account k csrDer) h (.credsMissing k csrDer)
  | credsLoaded {k : κ} {csrDer : Bytes} : Move c t h (.credsExist k csrDer) h (.ordering k csrDer)
  | created {k : κ} {csrDer : Bytes} {json : String} :
      Move c t h (.credsMissing k csrDer) h (.opening (.creds k csrDer json))
  | challenged {k : κ} {csrDer : Bytes} {ka : String} :
      Move c t h (.ordering k csrDer) { h with challenge := some (t.domain, ka) }
        (.finalizing k csrDer)
  | answered {k : κ} {csrDer : Bytes} {issued : Except String String} :
      Move c t h (.finalizing k csrDer)
        { h with issued := h.issued ++ (issued.toOption.map (k, ·)).toList } (.finalized k issued)
  | refused {k : κ} {e : String} :
      Move c t h (.finalized k (.error e)) { h with challenge := none } (.ended (.error e))
  | cleared {k : κ} {pem : String} :
      Move c t h (.finalized k (.ok pem)) { h with challenge := none } (.opening (.keyTmp k pem))
  | opened {w : Write κ} :
      Move c t h (.opening w) { h with files := create h.files (w.path t) }
        (.writing w (w.contents c))
  | put {w : Write κ} {rest : Bytes} {n : ℕ} :
      Move c t h (.writing w rest) { h with files := append h.files (w.path t) (rest.take n) }
        (.writing w (rest.drop n))
  | written {w : Write κ} : Move c t h (.writing w []) h (w.next c t)
  | keyRenamed {k : κ} {pem : String} :
      Move c t h (.renamingKey k pem)
        { h with files := rename h.files (tmp t.keyPath) t.keyPath } (.opening (.certTmp k pem))
  | certRenamed {k : κ} {pem : String} :
      Move c t h (.renamingCert k pem)
        { h with files := rename h.files (tmp t.certPath) t.certPath } (.ended (.ok ()))

theorem step_move_go (hstep : pc.step c t h .go = some (h', pc')) : Move c t h pc h' pc' := by
  cases pc with
  | keyMissing | credsMissing | ordering | finalizing | ended => cases hstep
  | keypair =>
    cases hstep
    split_ifs with hfile
    · exact .keyExists hfile
    · exact .keyMissing (by simpa using hfile)
  | keyExists =>
    obtain ⟨pem, hpem, heq⟩ := Option.map_eq_some_iff.1 hstep
    rcases hkey : c.fromPem pem with e | k
    · rw [hkey] at heq
      cases heq
      exact .failed rfl
    · rw [hkey] at heq
      cases heq
      exact .keyLoaded hpem hkey
  | account k csrDer =>
    cases hstep
    split_ifs
    · exact .credsExist
    · exact .credsMissing
  | credsExist k csrDer =>
    obtain ⟨json, -, heq⟩ := Option.map_eq_some_iff.1 hstep
    split at heq <;> cases heq
    · exact .failed rfl
    · exact .credsLoaded
  | finalized k issued =>
    cases hstep
    cases issued with
    | error e => exact .refused
    | ok pem => exact .cleared
  | opening w =>
    cases hstep
    exact .opened
  | writing w rest =>
    simp only [Pc.step] at hstep
    split_ifs at hstep with hrest
    cases hstep
    rw [hrest]
    exact .written
  | renamingKey k pem =>
    simp only [Pc.step] at hstep
    split_ifs at hstep
    cases hstep
    exact .keyRenamed
  | renamingCert k pem =>
    simp only [Pc.step] at hstep
    split_ifs at hstep
    cases hstep
    exact .certRenamed

/-- Every step is one of the moves. -/
theorem step_move (hstep : pc.step c t h a = some (h', pc')) : Move c t h pc h' pc' := by
  cases a with
  | fail e =>
    simp only [Pc.step] at hstep
    split_ifs at hstep with hfallible
    cases hstep
    exact .failed hfallible
  | generate k =>
    cases pc <;> cases hstep
    exact .keyGenerated
  | created json =>
    cases pc <;> cases hstep
    exact .created
  | put n =>
    cases pc with
    | writing w rest =>
      simp only [Pc.step] at hstep
      split_ifs at hstep
      cases hstep
      exact .put
    | _ => cases hstep
  | ordered authorizations =>
    cases pc with
    | ordering k csrDer =>
      simp only [Pc.step] at hstep
      split at hstep
      · cases hstep
        exact .failed rfl
      · split at hstep
        · cases hstep
          exact .failed rfl
        · cases hstep
          exact .challenged
    | _ => cases hstep
  | answered authorizations server =>
    cases pc <;> cases hstep
    exact .answered
  | go => exact step_move_go hstep

end Moves

/-! ### The files -/

section Disk

variable {κ : Type} (c : Crypto κ) (t : Target)

/-- The key file holds `k`. -/
def KeyIs (h : Host κ) (k : κ) : Prop :=
  ∃ pem, h.readToString t.keyPath = some pem ∧ c.fromPem pem = .ok k

/-- The certificate on disk was issued, as it stands there, for the key on disk. -/
def Disk (h : Host κ) : Prop :=
  ∀ bytes, h.files t.certPath = some bytes →
    ∃ k pem, (k, pem) ∈ h.issued ∧ bytes = utf8 pem ∧ KeyIs c t h k

/-- What a provisioning knows when it writes a file. -/
def Write.Grounded (h : Host κ) : Write κ → Prop
  -- A key is only generated where there is no certificate.
  | .key _ => h.files t.certPath = none
  | .creds k _ _ => KeyIs c t h k
  | .keyTmp k pem | .certTmp k pem => KeyIs c t h k ∧ (k, pem) ∈ h.issued

/-- What a provisioning has established at each point. -/
def Pc.Sound (h : Host κ) : Pc κ → Prop
  | .keypair | .keyExists | .ended _ => True
  | .keyMissing => h.files t.certPath = none
  | .account k _ | .credsExist k _ | .credsMissing k _ | .ordering k _ | .finalizing k _ =>
    KeyIs c t h k
  | .finalized k issued => KeyIs c t h k ∧ ∀ pem, issued = .ok pem → (k, pem) ∈ h.issued
  | .opening w => w.Grounded c t h
  | .writing w rest => w.Grounded c t h ∧ Writing h.files (w.path t) rest (w.contents c)
  | .renamingKey k pem => KeyIs c t h k ∧ (k, pem) ∈ h.issued ∧
      h.files (tmp t.keyPath) = some (utf8 (c.serializePem k))
  | .renamingCert k pem => KeyIs c t h k ∧ (k, pem) ∈ h.issued ∧
      h.files (tmp t.certPath) = some (utf8 pem)

/-- There is a certificate, and the key is `k`. -/
def Established (h : Host κ) (k : κ) : Prop := (h.files t.certPath).isSome ∧ KeyIs c t h k

/-- What no step takes back. -/
structure Kept (h h' : Host κ) : Prop where
  issued : h.issued ⊆ h'.issued
  established : ∀ k, Established c t h k → Established c t h' k

variable {c t} {h h' : Host κ} {k k' : κ}

theorem KeyIs.unique (hk : KeyIs c t h k) (hk' : KeyIs c t h k') : k = k' := by
  obtain ⟨pem, hread, hpem⟩ := hk
  obtain ⟨pem', hread', hpem'⟩ := hk'
  rw [hread] at hread'
  cases hread'
  rw [hpem] at hpem'
  cases hpem'
  rfl

/-- The key file alone decides what key it holds. -/
theorem KeyIs.congr (hkey : h'.files t.keyPath = h.files t.keyPath) (hk : KeyIs c t h k) :
    KeyIs c t h' k := by
  obtain ⟨pem, hread, hpem⟩ := hk
  exact ⟨pem, by rw [Host.readToString, hkey]; exact hread, hpem⟩

theorem Kept.refl : Kept c t h h := ⟨List.Subset.refl _, fun _ hk => hk⟩

theorem tmp_ne (path : String) : path ≠ tmp path := by
  intro heq
  have hlen := congrArg String.length heq
  simp [tmp] at hlen

/-- A step that leaves the key and the certificate as they are. -/
structure Aside (t : Target) (h h' : Host κ) : Prop where
  key : h'.files t.keyPath = h.files t.keyPath
  cert : h'.files t.certPath = h.files t.certPath
  issued : h.issued ⊆ h'.issued

theorem Aside.kept (ha : Aside t h h') : Kept c t h h' :=
  ⟨ha.issued, fun _ ⟨hcert, hk⟩ => ⟨by rw [ha.cert]; exact hcert, hk.congr ha.key⟩⟩

theorem Aside.disk (ha : Aside t h h') (hd : Disk c t h) : Disk c t h' := by
  intro bytes hbytes
  rw [ha.cert] at hbytes
  obtain ⟨k, pem, hmem, rfl, hk⟩ := hd bytes hbytes
  exact ⟨k, pem, ha.issued hmem, rfl, hk.congr ha.key⟩

theorem Aside.grounded (ha : Aside t h h') {w : Write κ} (hw : w.Grounded c t h) :
    w.Grounded c t h' := by
  cases w with
  | key => exact ha.cert.trans hw
  | creds => exact KeyIs.congr ha.key hw
  | keyTmp | certTmp => exact ⟨hw.1.congr ha.key, ha.issued hw.2⟩

theorem aside_challenge {challenge : Option (String × String)} :
    Aside t h { h with challenge := challenge } := ⟨rfl, rfl, List.Subset.refl _⟩

/-- Only a new key is written in place. -/
theorem aside_of_path {w : Write κ} (hdistinct : t.Distinct) (hw : ∀ k, w ≠ .key k)
    {files : String → Option Bytes} (hfiles : ∀ q, q ≠ w.path t → files q = h.files q) :
    Aside t h { h with files := files } := by
  have hne : t.keyPath ≠ w.path t ∧ t.certPath ≠ w.path t := by
    cases w with
    | key k => exact absurd rfl (hw k)
    | creds => exact ⟨hdistinct.key_ne_creds, hdistinct.cert_ne_creds⟩
    | keyTmp => exact ⟨tmp_ne _, hdistinct.cert_ne_keyTmp⟩
    | certTmp => exact ⟨hdistinct.key_ne_certTmp, tmp_ne _⟩
  exact ⟨hfiles _ hne.1, hfiles _ hne.2, List.Subset.refl _⟩

/-- A step that touches only the file of a write it has the ground for. -/
theorem Write.Grounded.keeps {w : Write κ} (hdistinct : t.Distinct) (hd : Disk c t h)
    (hw : w.Grounded c t h) {files : String → Option Bytes}
    (hfiles : ∀ q, q ≠ w.path t → files q = h.files q) :
    Kept c t h { h with files := files } ∧ Disk c t { h with files := files } ∧
      w.Grounded c t { h with files := files } := by
  by_cases hkey : ∃ k, w = .key k
  · obtain ⟨k, rfl⟩ := hkey
    have hcert : files t.certPath = none := (hfiles _ hdistinct.cert_ne_key).trans hw
    refine ⟨⟨List.Subset.refl _, fun k' hk' => ?_⟩, fun bytes hbytes => ?_, hcert⟩
    · exact absurd hk'.1 (by rw [show h.files t.certPath = none from hw]; exact nofun)
    · rw [show files t.certPath = some bytes from hbytes] at hcert
      cases hcert
  · have haside : Aside t h { h with files := files } :=
      aside_of_path hdistinct (fun k hk => hkey ⟨k, hk⟩) hfiles
    exact ⟨haside.kept, haside.disk hd, haside.grounded hw⟩

theorem requested_sound (hk : KeyIs c t h k) : (requested c t k).Sound c t h := by
  unfold requested
  split
  · trivial
  · exact hk

/-- The laws of the key code: what it writes it reads back. -/
def Crypto.RoundTrip (c : Crypto κ) : Prop := ∀ k, c.fromPem (c.serializePem k) = .ok k

theorem keyIs_of_file (hc : c.RoundTrip)
    (hfile : h.files t.keyPath = some (utf8 (c.serializePem k))) : KeyIs c t h k :=
  ⟨c.serializePem k, by rw [Host.readToString, hfile]; exact fromUtf8_utf8 _, hc k⟩

/-- When a file is written, a provisioning goes on with what it knows. -/
theorem next_sound (hc : c.RoundTrip) {w : Write κ} (hw : w.Grounded c t h)
    (hwhole : h.files (w.path t) = some (w.contents c)) : (w.next c t).Sound c t h := by
  cases w with
  | key k => exact requested_sound (keyIs_of_file hc hwhole)
  | creds => exact hw
  | keyTmp | certTmp => exact ⟨hw.1, hw.2, hwhole⟩

/-- A new key file with the key that was there, beside the same certificate. -/
theorem keyRenamed_keeps (hdistinct : t.Distinct) (hc : c.RoundTrip) (hd : Disk c t h)
    (hk : KeyIs c t h k) (hfile : h.files (tmp t.keyPath) = some (utf8 (c.serializePem k))) :
    let h' := { h with files := rename h.files (tmp t.keyPath) t.keyPath }
    Kept c t h h' ∧ Disk c t h' ∧ KeyIs c t h' k := by
  intro h'
  have hk' : KeyIs c t h' k := keyIs_of_file hc (rename_target.trans hfile)
  have hcert : h'.files t.certPath = h.files t.certPath :=
    rename_of_ne hdistinct.cert_ne_keyTmp hdistinct.cert_ne_key
  refine ⟨⟨List.Subset.refl _, fun k₁ ⟨hsome, hk₁⟩ => ⟨by rw [hcert]; exact hsome, ?_⟩⟩, ?_, hk'⟩
  · rw [← hk.unique hk₁]
    exact hk'
  · intro bytes hbytes
    obtain ⟨k₁, pem, hmem, rfl, hk₁⟩ := hd bytes (hcert.symm.trans hbytes)
    rw [← hk.unique hk₁] at hmem
    exact ⟨k, pem, hmem, rfl, hk'⟩

/-- A new certificate, for the key on disk. -/
theorem certRenamed_keeps (hdistinct : t.Distinct) {pem : String} (hk : KeyIs c t h k)
    (hmem : (k, pem) ∈ h.issued) (hfile : h.files (tmp t.certPath) = some (utf8 pem)) :
    let h' := { h with files := rename h.files (tmp t.certPath) t.certPath }
    Kept c t h h' ∧ Disk c t h' := by
  intro h'
  have hkey : h'.files t.keyPath = h.files t.keyPath :=
    rename_of_ne hdistinct.key_ne_certTmp hdistinct.cert_ne_key.symm
  have hcert : h'.files t.certPath = some (utf8 pem) := rename_target.trans hfile
  refine ⟨⟨List.Subset.refl _, fun k₁ hk₁ => ⟨by rw [hcert]; rfl, hk₁.2.congr hkey⟩⟩, ?_⟩
  intro bytes hbytes
  rw [hcert] at hbytes
  cases hbytes
  exact ⟨k, pem, hmem, rfl, hk.congr hkey⟩

/-- **A step of a provisioning** keeps the files sound, and what it has established. -/
theorem Move.sound (hdistinct : t.Distinct) (hc : c.RoundTrip) {pc pc' : Pc κ}
    (hm : Move c t h pc h' pc') (hd : Disk c t h) (hpc : pc.Sound c t h) :
    Kept c t h h' ∧ Disk c t h' ∧ pc'.Sound c t h' := by
  cases hm with
  | failed => exact ⟨.refl, hd, trivial⟩
  | keyExists => exact ⟨.refl, hd, trivial⟩
  | keyMissing hkey =>
    refine ⟨.refl, hd, Option.eq_none_iff_forall_ne_some.2 fun bytes hbytes => ?_⟩
    obtain ⟨k, -, -, -, pem, hread, -⟩ := hd bytes hbytes
    rw [Host.readToString, hkey] at hread
    cases hread
  | keyLoaded hread hpem => exact ⟨.refl, hd, requested_sound ⟨_, hread, hpem⟩⟩
  | keyGenerated | credsExist | credsMissing | credsLoaded | created => exact ⟨.refl, hd, hpc⟩
  | challenged => exact ⟨aside_challenge.kept, hd, hpc⟩
  | refused => exact ⟨aside_challenge.kept, hd, trivial⟩
  | cleared => exact ⟨aside_challenge.kept, hd, hpc.1, hpc.2 _ rfl⟩
  | @answered k csrDer issued =>
    have haside : Aside t h { h with issued := h.issued ++ (issued.toOption.map (k, ·)).toList } :=
      ⟨rfl, rfl, List.subset_append_left _ _⟩
    refine ⟨haside.kept, haside.disk hd, hpc, fun pem hpem => ?_⟩
    subst hpem
    exact List.mem_append_right _ List.mem_cons_self
  | opened =>
    obtain ⟨hkept, hdisk, hw⟩ := Write.Grounded.keeps hdistinct hd hpc fun q hq => create_of_ne hq
    exact ⟨hkept, hdisk, hw, writing_create _⟩
  | put =>
    obtain ⟨hkept, hdisk, hw⟩ :=
      Write.Grounded.keeps hdistinct hd hpc.1 fun q hq => append_of_ne hq _
    exact ⟨hkept, hdisk, hw, hpc.2.append _⟩
  | written => exact ⟨.refl, hd, next_sound hc hpc.1 hpc.2.whole⟩
  | keyRenamed =>
    obtain ⟨hkept, hdisk, hk⟩ := keyRenamed_keeps hdistinct hc hd hpc.1 hpc.2.2
    exact ⟨hkept, hdisk, hk, hpc.2.1⟩
  | certRenamed =>
    obtain ⟨hkept, hdisk⟩ := certRenamed_keeps (c := c) hdistinct hpc.1 hpc.2.1 hpc.2.2
    exact ⟨hkept, hdisk, trivial⟩

end Disk

end QuicTunnel.Relay.Provision
