import Mathlib.Tactic

/-!
# The address parser of the standard library

`std::net` reads addresses with a small backtracking parser (`core::net::parser`).  A reader takes
the characters that are left and gives a value and what it leaves; a reader that fails leaves
everything.

* `readIpv4Addr`, `readIpv6Addr` and `readIpAddr` read an address, `readSocketAddr` one with a port;
* `parseWith` asks that nothing is left; the two parsers are irreducible, since their nested cases
  grow when they are unfolded on an unknown text;
* `readIpAddr_bracket`: an address does not begin with a bracket.
-/

namespace Net

/-- A reader: a value and the characters it leaves. -/
abbrev Reader (α : Type) := List Char → Option (α × List Char)

/-- The value of the whole text. -/
def parseWith {α : Type} (read : Reader α) (s : String) : Option α :=
  match read s.toList with
  | some (a, []) => some a
  | _ => none

/-- `read_given_char`. -/
def readGivenChar (target : Char) : Reader Unit
  | c :: cs => if c = target then some ((), cs) else none
  | [] => none

/-- `read_separator`: all but the first item come after a separator. -/
def readSeparator {α : Type} (sep : Char) (index : ℕ) (inner : Reader α) : Reader α := fun cs =>
  if 0 < index then (readGivenChar sep cs).bind fun r => inner r.2 else inner cs

/-- `char::to_digit`, for a radix up to 36. -/
def toDigit (radix : ℕ) (c : Char) : Option ℕ :=
  let value :=
    if '0' ≤ c ∧ c ≤ '9' then some (c.toNat - '0'.toNat)
    else if 'a' ≤ c ∧ c ≤ 'z' then some (c.toNat - 'a'.toNat + 10)
    else if 'A' ≤ c ∧ c ≤ 'Z' then some (c.toNat - 'A'.toNat + 10)
    else none
  value.filter (· < radix)

/-- The value of a sequence of digits. -/
def ofDigits (radix : ℕ) (digits : List Char) : ℕ :=
  digits.foldl (fun n c => n * radix + (toDigit radix c).getD 0) 0

/-- `read_number`: all the digits that come next, as a number below `bound`. -/
def readNumber (bound radix : ℕ) (maxDigits : Option ℕ) (allowZeroPrefix : Bool) :
    Reader (Fin bound) := fun cs =>
  let digits := cs.takeWhile fun c => (toDigit radix c).isSome
  if digits.isEmpty || maxDigits.any (· < digits.length) then none
  else if !allowZeroPrefix && cs.head? == some '0' && 1 < digits.length then none
  else if h : ofDigits radix digits < bound then
    some (⟨ofDigits radix digits, h⟩, cs.dropWhile fun c => (toDigit radix c).isSome)
  else none

/-- An IPv4 address, by its octets. -/
structure Ipv4Addr where
  a : Fin 256
  b : Fin 256
  c : Fin 256
  d : Fin 256
  deriving DecidableEq

/-- An octet of an IPv4 address: up to three decimal digits, without a leading zero. -/
def readOctet (index : ℕ) : Reader (Fin 256) :=
  readSeparator '.' index (readNumber 256 10 (some 3) false)

/-- `read_ipv4_addr`. -/
def readIpv4Addr : Reader Ipv4Addr := fun cs => do
  let (a, cs) ← readOctet 0 cs
  let (b, cs) ← readOctet 1 cs
  let (c, cs) ← readOctet 2 cs
  let (d, cs) ← readOctet 3 cs
  some (⟨a, b, c, d⟩, cs)

/-- Two octets as one group. -/
def Ipv4Addr.group (hi lo : Fin 256) : Fin 65536 := ⟨hi * 256 + lo, by omega⟩

/-- `read_groups`, with `k` of `limit` groups to go: the groups, whether they end in an IPv4
address, and what is left. -/
def readGroups (limit : ℕ) : ℕ → List Char → List (Fin 65536) × Bool × List Char
  | 0, cs => ([], false, cs)
  | k + 1, cs =>
    let index := limit - (k + 1)
    -- An IPv4 address takes two groups.
    match if 0 < k then readSeparator ':' index readIpv4Addr cs else none with
    | some (v4, cs) => ([Ipv4Addr.group v4.a v4.b, Ipv4Addr.group v4.c v4.d], true, cs)
    | none =>
      match readSeparator ':' index (readNumber 65536 16 (some 4) true) cs with
      | some (group, cs) =>
        let (groups, v4, cs) := readGroups limit k cs
        (group :: groups, v4, cs)
      | none => ([], false, cs)

theorem length_readGroups (limit k : ℕ) (cs : List Char) :
    (readGroups limit k cs).1.length ≤ k := by
  induction k generalizing cs with
  | zero => exact le_rfl
  | succ k ih =>
    simp only [readGroups]
    split
    · rename_i h
      have hk : 0 < k := by
        by_contra hk
        rw [if_neg hk] at h
        cases h
      show 2 ≤ k + 1
      omega
    · split
      · exact Nat.succ_le_succ (ih _)
      · exact Nat.zero_le _

/-- An IPv6 address, by its eight groups. -/
structure Ipv6Addr where
  groups : List (Fin 65536)
  length_groups : groups.length = 8
  deriving DecidableEq

/-- The groups before and after a `::`, with zeros between. -/
def Ipv6Addr.concat (head tail : List (Fin 65536)) (h : head.length + tail.length ≤ 8) : Ipv6Addr :=
  ⟨head ++ List.replicate (8 - head.length - tail.length) 0 ++ tail, by
    simp only [List.length_append, List.length_replicate]
    omega⟩

/-- `read_ipv6_addr`. -/
def readIpv6Addr : Reader Ipv6Addr := fun cs =>
  let head := readGroups 8 8 cs
  if h : head.1.length = 8 then some (⟨head.1, h⟩, head.2.2)
  -- An IPv4 part is not allowed before `::`.
  else if head.2.1 then none
  else
    (readGivenChar ':' head.2.2).bind fun r => (readGivenChar ':' r.2).map fun r =>
      let limit := 8 - (head.1.length + 1)
      let tail := readGroups limit limit r.2
      have hle : head.1.length + tail.1.length ≤ 8 := by
        have hhead : head.1.length ≤ 8 := length_readGroups 8 8 cs
        have htail : tail.1.length ≤ 8 - (head.1.length + 1) := length_readGroups _ _ _
        omega
      (Ipv6Addr.concat head.1 tail.1 hle, tail.2.2)

/-- `std::net::IpAddr`. -/
inductive IpAddr
  | v4 (addr : Ipv4Addr)
  | v6 (addr : Ipv6Addr)
  deriving DecidableEq

/-- `read_ip_addr`. -/
def readIpAddr : Reader IpAddr := fun cs =>
  match readIpv4Addr cs with
  | some (addr, cs) => some (.v4 addr, cs)
  | none => (readIpv6Addr cs).map fun r => (.v6 r.1, r.2)

/-- `str::parse::<IpAddr>`. -/
@[irreducible] def IpAddr.parse (s : String) : Option IpAddr := parseWith readIpAddr s

/-- `std::net::SocketAddr`; the scope is 0 but for an IPv6 address that names one. -/
structure SocketAddr where
  ip : IpAddr
  port : Fin 65536
  scopeId : Fin (2 ^ 32)
  deriving DecidableEq

/-- `SocketAddr::new`. -/
def SocketAddr.new (ip : IpAddr) (port : Fin 65536) : SocketAddr := ⟨ip, port, 0⟩

/-- `read_port`. -/
def readPort : Reader (Fin 65536) := fun cs =>
  (readGivenChar ':' cs).bind fun r => readNumber 65536 10 none true r.2

/-- `read_scope_id`. -/
def readScopeId : Reader (Fin (2 ^ 32)) := fun cs =>
  (readGivenChar '%' cs).bind fun r => readNumber (2 ^ 32) 10 none true r.2

/-- An IPv6 address in brackets, with its scope if it has one: `read_socket_addr_v6` up to the
port. -/
def readBracketed : Reader (Ipv6Addr × Fin (2 ^ 32)) := fun cs => do
  let (_, cs) ← readGivenChar '[' cs
  let (addr, cs) ← readIpv6Addr cs
  let (scopeId, cs) := (readScopeId cs).getD (0, cs)
  let (_, cs) ← readGivenChar ']' cs
  some ((addr, scopeId), cs)

/-- `read_socket_addr_v4`. -/
def readSocketAddrV4 : Reader SocketAddr := fun cs => do
  let (addr, cs) ← readIpv4Addr cs
  let (port, cs) ← readPort cs
  some (.new (.v4 addr) port, cs)

/-- `read_socket_addr_v6`. -/
def readSocketAddrV6 : Reader SocketAddr := fun cs => do
  let ((addr, scopeId), cs) ← readBracketed cs
  let (port, cs) ← readPort cs
  some (⟨.v6 addr, port, scopeId⟩, cs)

/-- `str::parse::<SocketAddr>`. -/
@[irreducible] def SocketAddr.parse (s : String) : Option SocketAddr :=
  parseWith (fun cs => readSocketAddrV4 cs <|> readSocketAddrV6 cs) s

/-! ### No address begins with a bracket -/

@[simp] theorem readSeparator_zero {α : Type} (sep : Char) (inner : Reader α) (cs : List Char) :
    readSeparator sep 0 inner cs = inner cs := rfl

theorem readNumber_of_notDigit {bound radix : ℕ} {maxDigits : Option ℕ} {allowZeroPrefix : Bool}
    {c : Char} (h : toDigit radix c = none) (cs : List Char) :
    readNumber bound radix maxDigits allowZeroPrefix (c :: cs) = none := by
  simp [readNumber, h]

theorem readIpv4Addr_bracket (cs : List Char) : readIpv4Addr ('[' :: cs) = none := by
  have hoctet : readOctet 0 ('[' :: cs) = none := by
    rw [readOctet, readSeparator_zero]
    exact readNumber_of_notDigit (by decide) cs
  rw [readIpv4Addr, hoctet]
  rfl

theorem readGroups_bracket (cs : List Char) :
    readGroups 8 8 ('[' :: cs) = ([], false, '[' :: cs) := by
  have hgroup : readNumber 65536 16 (some 4) true ('[' :: cs) = none :=
    readNumber_of_notDigit (by decide) cs
  simp only [readGroups, Nat.sub_self, readSeparator_zero, readIpv4Addr_bracket, hgroup, ite_self]

theorem readIpAddr_bracket (cs : List Char) : readIpAddr ('[' :: cs) = none := by
  rw [readIpAddr, readIpv4Addr_bracket]
  simp [readIpv6Addr, readGroups_bracket, readGivenChar]

/-- What a bracketed address begins with. -/
theorem exists_cons_of_readBracketed {cs : List Char} {r : (Ipv6Addr × Fin (2 ^ 32)) × List Char}
    (h : readBracketed cs = some r) : ∃ rest, cs = '[' :: rest := by
  rcases cs with _ | ⟨c, rest⟩
  · cases h
  · by_cases hc : c = '['
    · exact ⟨rest, by rw [hc]⟩
    · simp [readBracketed, readGivenChar, hc] at h

end Net
