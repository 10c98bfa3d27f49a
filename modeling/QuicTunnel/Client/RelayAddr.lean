import QuicTunnel.Base.IpAddr

/-!
# How a relay is verified

The client verifies a relay by its name, and not at all when the configured address has a bare IP
address for a host (`server_name_from_addr` and `ClientTls::for_addr` in
`tunnel-client/src/client.rs`).  Both transports resolve the address first and hand the server name
to rustls, which takes host names and addresses only.

* `forAddr` is the choice of the source, `lookupHost` what the connector makes of an address;
* `serverNameFromAddr_host` is the choice in terms of the host;
* `AsIntended` is what the choice is meant to be.
-/

namespace QuicTunnel.RelayAddr

open Net

/-- `str::rsplit_once`. -/
def rsplitOnce (sep : Char) (s : String) : Option (String × String) :=
  match s.toList.reverse.dropWhile (· != sep) with
  | [] => none
  | _ :: before =>
    some (.ofList before.reverse, .ofList (s.toList.reverse.takeWhile (· != sep)).reverse)

/-- `str::parse::<u16>`, which takes a leading plus sign. -/
def parseU16 (s : String) : Option (Fin 65536) :=
  parseWith (fun
    | '+' :: cs => readNumber 65536 10 none true cs
    | cs => readNumber 65536 10 none true cs) s

/-- The addresses a connect tries: that of a socket address, or those of the host. -/
def lookupHost (resolve : String → List IpAddr) (addr : String) : List SocketAddr :=
  match SocketAddr.parse addr with
  | some socketAddr => [socketAddr]
  | none =>
    match rsplitOnce ':' addr with
    | none => []
    | some (host, port) =>
      match parseU16 port with
      | none => []
      | some port => (resolve host).map fun ip => .new ip port

/-- The server name to verify a relay by; none for a bare IP address. -/
def serverNameFromAddr (addr : String) : Option String :=
  let host := ((rsplitOnce ':' addr).map Prod.fst).getD addr
  if (IpAddr.parse host).isSome then none else some host

/-- The two configurations of `ClientTls`: verified against the CA roots, or not at all. -/
inductive TlsMode
  | named
  | ip
  deriving DecidableEq

/-- `ClientTls::for_addr`: configuration and SNI for one relay address. -/
def forAddr (addr : String) : TlsMode × String :=
  match serverNameFromAddr addr with
  | some name => (.named, name)
  | none => (.ip, "localhost")

/-- What rustls takes as a server name (`ServerName::try_from`); both transports ask it. -/
structure ServerNames where
  valid : String → Bool
  valid_localhost : valid "localhost" = true
  /-- Neither a host name nor an IP address has a bracket. -/
  not_valid_of_bracket : ∀ s : String, '[' ∈ s.toList → valid s = false

/-! ### The host of an address -/

theorem takeWhile_append_sep {sep : Char} {after : List Char} (before : List Char)
    (h : sep ∉ after) :
    (after ++ sep :: before).takeWhile (· != sep) = after ∧
      (after ++ sep :: before).dropWhile (· != sep) = sep :: before := by
  have hall : ∀ c ∈ after, (c != sep) = true := fun c hc => by
    rw [bne_iff_ne]
    rintro rfl
    exact h hc
  rw [List.takeWhile_append_of_pos hall, List.dropWhile_append_of_pos hall]
  simp

theorem rsplitOnce_colon (host : String) {port : String} (h : ':' ∉ port.toList) :
    rsplitOnce ':' (host ++ ":" ++ port) = some (host, port) := by
  have hrev : (host ++ ":" ++ port).toList.reverse =
      port.toList.reverse ++ ':' :: host.toList.reverse := by
    simp
  have hmem : ':' ∉ port.toList.reverse := by rwa [List.mem_reverse]
  obtain ⟨htake, hdrop⟩ := takeWhile_append_sep host.toList.reverse hmem
  simp only [rsplitOnce, hrev, htake, hdrop, List.reverse_reverse, String.ofList_toList]

theorem serverNameFromAddr_host (host : String) {port : String} (h : ':' ∉ port.toList) :
    serverNameFromAddr (host ++ ":" ++ port) =
      if (IpAddr.parse host).isSome then none else some host := by
  rw [serverNameFromAddr, rsplitOnce_colon host h]
  rfl

theorem forAddr_host (host : String) {port : String} (h : ':' ∉ port.toList) :
    forAddr (host ++ ":" ++ port) =
      if (IpAddr.parse host).isSome then (.ip, "localhost") else (.named, host) := by
  rw [forAddr, serverNameFromAddr_host host h]
  rcases (IpAddr.parse host).isSome with _ | _ <;> rfl

/-! ### Hosts that are IP addresses -/

/-- An IPv4 address. -/
def isIpv4 (host : String) : Bool :=
  match IpAddr.parse host with
  | some (.v4 _) => true
  | _ => false

/-- An IPv6 address without brackets. -/
def isBareIpv6 (host : String) : Bool :=
  match IpAddr.parse host with
  | some (.v6 _) => true
  | _ => false

/-- An IPv6 address in the brackets that a socket address puts around it. -/
def isBracketedIpv6 (host : String) : Bool := (parseWith readBracketed host).isSome

/-- The host of a socket address. -/
def isIpLiteral (host : String) : Bool := isIpv4 host || isBracketedIpv6 host

theorem isSome_parse (host : String) :
    (IpAddr.parse host).isSome = (isIpv4 host || isBareIpv6 host) := by
  unfold isIpv4 isBareIpv6
  rcases IpAddr.parse host with _ | _ | _ <;> rfl

theorem exists_bracket {host : String} (h : isBracketedIpv6 host = true) :
    ∃ rest, host.toList = '[' :: rest := by
  unfold isBracketedIpv6 parseWith at h
  rcases hread : readBracketed host.toList with _ | r
  · rw [hread] at h
    cases h
  · exact exists_cons_of_readBracketed hread

/-- Brackets keep an address from being recognised. -/
theorem parse_of_bracketed {host : String} (h : isBracketedIpv6 host = true) :
    IpAddr.parse host = none := by
  obtain ⟨rest, hrest⟩ := exists_bracket h
  rw [IpAddr.parse, parseWith, hrest, readIpAddr_bracket]

/-- What is meant for the address `addr` of a relay at `host`: no verification and a fixed name for
an IP address, verification by the host text for anything else, and a server name that rustls takes
whenever an IP address can be connected to. -/
structure AsIntended (names : ServerNames) (resolve : String → List IpAddr) (addr host : String) :
    Prop where
  choice : forAddr addr = if isIpLiteral host then (.ip, "localhost") else (.named, host)
  usable : isIpLiteral host = true → lookupHost resolve addr ≠ [] →
    names.valid (forAddr addr).2 = true

/-- **How a relay is verified.**  The choice is the intended one exactly when the host is not an
IPv6 address, with or without its brackets.  Only a host that is an IP address goes unverified; a
bracketed one is verified, by a name that rustls does not take. -/
theorem forAddr_asIntended_iff (names : ServerNames) (resolve : String → List IpAddr)
    (host port : String) (hport : ':' ∉ port.toList) :
    (AsIntended names resolve (host ++ ":" ++ port) host ↔
      isBracketedIpv6 host = false ∧ isBareIpv6 host = false) ∧
    ((forAddr (host ++ ":" ++ port)).1 = .ip → (IpAddr.parse host).isSome = true) ∧
    (isBracketedIpv6 host = true →
      forAddr (host ++ ":" ++ port) = (.named, host) ∧ names.valid host = false) := by
  have hfor := forAddr_host host hport
  refine ⟨⟨fun h => ?_, fun ⟨hbracket, hbare⟩ => ?_⟩, fun h => ?_, fun h => ?_⟩
  · have hchoice := h.choice
    rcases hbracket : isBracketedIpv6 host with _ | _
    · refine ⟨rfl, ?_⟩
      by_contra hbare
      rw [Bool.not_eq_false] at hbare
      have hv4 : isIpv4 host = false := by
        unfold isIpv4 isBareIpv6 at *
        split at hbare <;> simp_all
      rw [hfor, isSome_parse, isIpLiteral, hv4, hbare, hbracket] at hchoice
      simp at hchoice
    · rw [hfor, parse_of_bracketed hbracket, isIpLiteral, hbracket] at hchoice
      simp at hchoice
  · have hchoice : forAddr (host ++ ":" ++ port) =
        if isIpLiteral host then (.ip, "localhost") else (.named, host) := by
      rw [hfor, isSome_parse, isIpLiteral, hbracket, hbare]
    refine ⟨hchoice, fun hip _ => ?_⟩
    rw [hchoice, if_pos hip]
    exact names.valid_localhost
  · by_contra hparse
    rw [hfor, if_neg hparse] at h
    cases h
  · obtain ⟨rest, hrest⟩ := exists_bracket h
    rw [hfor, parse_of_bracketed h]
    exact ⟨rfl, names.not_valid_of_bracket host (by rw [hrest]; exact List.mem_cons_self)⟩

/-- Host names: letters, digits, hyphens, underscores and dots. -/
def hostNames : ServerNames where
  valid s := !s.isEmpty && s.toList.all fun c => c.isAlphanum || c == '-' || c == '_' || c == '.'
  valid_localhost := by decide
  not_valid_of_bracket s h := by
    rw [Bool.and_eq_false_iff]
    refine .inr (List.all_eq_false.2 ⟨'[', h, by decide⟩)

/-- A relay on an IPv4 address. -/
theorem forAddr_asIntended_ipv4 :
    AsIntended hostNames (fun _ => []) ("127.0.0.1" ++ ":" ++ "4433") "127.0.0.1" :=
  (forAddr_asIntended_iff hostNames (fun _ => []) "127.0.0.1" "4433" (by decide)).1.2
    ⟨by decide +kernel, by decide +kernel⟩

/-- A relay on an IPv6 address, which a connect accepts, is verified by a name that rustls does not
take. -/
theorem forAddr_ipv6_unusable :
    (SocketAddr.parse "[::1]:4433").isSome = true ∧ isIpLiteral "[::1]" = true ∧
      forAddr "[::1]:4433" = (.named, "[::1]") ∧
      ∀ names : ServerNames, names.valid (forAddr "[::1]:4433").2 = false := by
  have hfor : forAddr "[::1]:4433" = (.named, "[::1]") := by decide +kernel
  refine ⟨by decide +kernel, by decide +kernel, hfor, fun names => ?_⟩
  rw [hfor]
  exact names.not_valid_of_bracket _ (by decide)

end QuicTunnel.RelayAddr
