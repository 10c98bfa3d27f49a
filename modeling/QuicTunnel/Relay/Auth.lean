import Mathlib.Data.List.TakeWhile
import QuicTunnel.Common.Control
import QuicTunnel.Common.Primitives

/-!
# What the relay checks

`tunnel-server/src/util.rs`: the identity behind an announced domain, the suffix list, and the TXT
authorization; and the auth handler as both listeners call it.

`recoverIdentityPubkey_eq_some` and `labels_of_allowedSuffix` say what passing a check means in
terms of the bytes and labels the peer sent.
-/

namespace QuicTunnel.Relay

/-! ### Domains -/

/-- `domain.split('.')`. -/
def labels (domain : String) : List (List Char) := domain.toList.splitOn '.'

/-- `domain.split('.').next()`. -/
def firstLabel (domain : String) : Option String := (labels domain).head?.map String.ofList

/-- `domain.split_once('.').map(|x| x.1).unwrap_or("")`. -/
def hostOf (domain : String) : String := String.ofList ((domain.toList.dropWhile (· != '.')).drop 1)

/-- `allowed_suffix`. -/
def allowedSuffix (domain : String) (suffixes : List String) : Bool :=
  if suffixes.isEmpty then true
  else suffixes.any fun s => ('.' :: s.toList).isSuffixOf domain.toList

/-- A dot splits the labels before it from the labels behind it. -/
theorem labels_of_dot {domain : String} {before after : List Char}
    (h : domain.toList = before ++ '.' :: after) :
    labels domain = before.splitOn '.' ++ after.splitOn '.' := by
  rw [labels, h]
  exact List.splitOn_append_cons_of_beq before after (beq_self_eq_true '.')

/-- A suffix that is matched is matched in whole labels, with a label before it. -/
theorem labels_of_allowedSuffix {domain : String} {suffixes : List String}
    (h : allowedSuffix domain suffixes = true) (hne : suffixes ≠ []) :
    ∃ s ∈ suffixes, ∃ before, before ≠ [] ∧ labels domain = before ++ labels s := by
  unfold allowedSuffix at h
  rw [if_neg (by simpa using hne), List.any_eq_true] at h
  obtain ⟨s, hs, hsuffix⟩ := h
  obtain ⟨before, hbefore⟩ := List.isSuffixOf_iff_suffix.1 hsuffix
  exact ⟨s, hs, before.splitOn '.', List.splitOn_ne_nil _ _, labels_of_dot hbefore.symm⟩

/-- The part of a domain behind its first label. -/
def withoutFirstLabel (domain : String) : String :=
  String.ofList (List.intercalate ['.'] (labels domain).tail)

theorem hostOf_eq_withoutFirstLabel (domain : String) :
    hostOf domain = withoutFirstLabel domain := by
  rw [hostOf, withoutFirstLabel]
  have hne : ∀ {l : List Char}, '.' ∉ l → ∀ c ∈ l, (c != '.') = true := by
    intro l hl c hc
    exact bne_iff_ne.2 fun h => hl (h ▸ hc)
  by_cases hdot : '.' ∈ domain.toList
  · obtain ⟨label, rest, hdomain, hlabel⟩ := List.eq_append_cons_of_mem hdot
    rw [labels_of_dot hdomain, List.splitOn_eq_singleton hlabel, hdomain,
      List.dropWhile_append_of_pos (hne hlabel)]
    simp [List.intercalate_splitOn]
  · -- No dot: the one label is the whole domain.
    rw [labels, List.splitOn_eq_singleton hdot, List.dropWhile_eq_nil_iff.2 (hne hdot)]
    rfl

/-! ### Identity -/

section Identity

variable (env : Primitives)

/-- `id_from_pubkey`. -/
def idFromPubkey (pubkeySec1Compressed : Bytes) : String :=
  hexEncode ((env.sha256 pubkeySec1Compressed).take 8)

/-- `recover_identity_pubkey`. -/
def recoverIdentityPubkey (domain : String) (sigRecoverable : Bytes) : Option Bytes :=
  (env.tryFrom sigRecoverable).bind fun recSig =>
    (env.recoverVerifyingKey recSig (utf8 domain)).bind fun vk =>
      let pubkey := env.toSec1 vk true
      (firstLabel domain).bind fun idTarget =>
        if idFromPubkey env pubkey = idTarget then some pubkey else none

/-- The domain carries the id of the key recovered from the signature over it. -/
theorem recoverIdentityPubkey_eq_some {domain : String} {sig pubkey : Bytes}
    (h : recoverIdentityPubkey env domain sig = some pubkey) :
    ∃ recSig vk, env.tryFrom sig = some recSig ∧
      env.recoverVerifyingKey recSig (utf8 domain) = some vk ∧ pubkey = env.toSec1 vk true ∧
      firstLabel domain = some (idFromPubkey env pubkey) := by
  obtain ⟨recSig, hsig, h⟩ := Option.bind_eq_some_iff.1 h
  obtain ⟨vk, hvk, h⟩ := Option.bind_eq_some_iff.1 h
  obtain ⟨idTarget, hid, h⟩ := Option.bind_eq_some_iff.1 h
  split_ifs at h with heq
  cases h
  exact ⟨recSig, vk, hsig, hvk, rfl, by rw [hid, heq]⟩

/-! ### TXT authorization -/

/-- `compute_txt_expected`. -/
def computeTxtExpected (deploymentSource : Bytes) (host : String) : String :=
  base64Encode (env.sha256 (deploymentSource ++ utf8 host))

/-- Deployment source representing "open to all". -/
def zeroDeploymentSource : Bytes := List.replicate 64 0

/-- The name whose TXT records are looked up. -/
def txtName (host : String) : String := s!"_acu.{host}."

/-- `txt_authorizes`. -/
def txtAuthorizes (values : List Bytes) (deploymentSource : Bytes) (host : String) : Bool :=
  let openToAll := computeTxtExpected env zeroDeploymentSource host
  if values.length = 1 ∧ values.head? = some (utf8 openToAll) then true
  else
    let expected := computeTxtExpected env deploymentSource host
    values.any fun v => v == utf8 expected

end Identity

/-! ### The listeners' configuration -/

/-- `AuthHandler`: the certificate's public key and custom data decide. -/
abbrev AuthHandler := Bytes → Option Bytes → Except String (Option Bytes)

/-- What both listeners are started with. -/
structure Config where
  domainSuffixes : List String
  authHandler : Option AuthHandler

/-- What the relay uses of other libraries. -/
structure Env extends Primitives where
  pubkeyFromCert : Bytes → Option Bytes
  customDataFromCert : Bytes → Option Bytes

/-- How a connection that is not registered ended: with a reason for the peer, with the close code
of a timeout, or without a word. -/
inductive Verdict
  | rejected (reason : String)
  | timedOut
  | dropped
  deriving DecidableEq

/-- The auth handler's part of both listeners: the deployment source it returns. -/
def checkHandler (env : Env) (cfg : Config) (cert : Bytes) : Except Verdict (Option Bytes) :=
  match cfg.authHandler with
  | none => .ok none
  | some handler =>
    match env.pubkeyFromCert cert with
    | none => .error (.rejected "unauthorized: client certificate")
    | some pubkey =>
      match handler pubkey (env.customDataFromCert cert) with
      | .ok token => .ok token
      | .error _ => .error (.rejected "unauthorized: auth handler rejected")

/-- What both exchanges check once they have the signature; the `client_id` if it holds. -/
def checkIdentity (env : Env) (cfg : Config) (domain : String) (sigBytes : Bytes) :
    Except Verdict String :=
  match recoverIdentityPubkey env.toPrimitives domain sigBytes with
  | none => .error (.rejected "unauthorized: identity signature")
  | some _ =>
    match firstLabel domain with
    | none => .error .dropped
    | some id =>
      if allowedSuffix domain cfg.domainSuffixes then .ok id
      else .error (.rejected "unauthorized: domain suffix not allowed")

/-- What both exchanges make of the TXT lookup; `none` is a lookup that failed. -/
def checkTxt (env : Env) (domain : String) (source : Bytes) (answer : Option (List Bytes)) :
    Except Verdict Unit :=
  match answer with
  | none => .error .dropped
  | some values =>
    if txtAuthorizes env.toPrimitives values source (hostOf domain) then .ok ()
    else .error (.rejected "unauthorized: deployment source not authorized by TXT")

theorem checkHandler_eq_ok {env : Env} {cfg : Config} {cert : Bytes} {token : Option Bytes}
    (h : checkHandler env cfg cert = .ok token) {handler : AuthHandler}
    (hcfg : cfg.authHandler = some handler) :
    ∃ pubkey, env.pubkeyFromCert cert = some pubkey ∧
      handler pubkey (env.customDataFromCert cert) = .ok token := by
  rw [checkHandler, hcfg] at h
  simp only at h
  split at h
  · cases h
  · rename_i pubkey hpubkey
    split at h
    · rename_i source hok
      cases h
      exact ⟨pubkey, hpubkey, hok⟩
    · cases h

theorem checkIdentity_eq_ok {env : Env} {cfg : Config} {domain id : String} {sig : Bytes}
    (h : checkIdentity env cfg domain sig = .ok id) :
    (∃ pubkey, recoverIdentityPubkey env.toPrimitives domain sig = some pubkey) ∧
      firstLabel domain = some id ∧ allowedSuffix domain cfg.domainSuffixes = true := by
  unfold checkIdentity at h
  split at h
  · cases h
  · rename_i pubkey hpubkey
    split at h
    · cases h
    · rename_i label hlabel
      split_ifs at h with hsuffix
      cases h
      exact ⟨⟨pubkey, hpubkey⟩, hlabel, hsuffix⟩

theorem checkTxt_eq_ok {env : Env} {domain : String} {source : Bytes}
    {answer : Option (List Bytes)} (h : checkTxt env domain source answer = .ok ()) :
    ∃ values, answer = some values ∧
      txtAuthorizes env.toPrimitives values source (hostOf domain) = true := by
  unfold checkTxt at h
  split at h
  · cases h
  · split_ifs at h with hauth
    exact ⟨_, rfl, hauth⟩

/-- An identity that does not hold is rejected with a reason. -/
theorem checkIdentity_eq_error {env : Env} {cfg : Config} {domain : String} {sig : Bytes}
    {verdict : Verdict} (h : checkIdentity env cfg domain sig = .error verdict) :
    ∃ reason, verdict = .rejected reason := by
  unfold checkIdentity at h
  split at h
  · cases h
    exact ⟨_, rfl⟩
  · rename_i pubkey hpubkey
    -- A key was recovered, so the domain has a first label.
    obtain ⟨_, _, -, -, -, hlabel⟩ := recoverIdentityPubkey_eq_some _ hpubkey
    rw [hlabel] at h
    simp only at h
    split_ifs at h
    cases h
    exact ⟨_, rfl⟩

/-- Records that do not authorize are rejected with a reason. -/
theorem checkTxt_eq_error {env : Env} {domain : String} {source : Bytes} {values : List Bytes}
    {verdict : Verdict} (h : checkTxt env domain source (some values) = .error verdict) :
    ∃ reason, verdict = .rejected reason := by
  simp only [checkTxt] at h
  split_ifs at h
  cases h
  exact ⟨_, rfl⟩

end QuicTunnel.Relay
