import Mathlib.Tactic

/-!
# Bytes and their texts

Byte strings, UTF-8, and the two encodings the sources use: lower-case hex (`hex::encode`) and
padded standard Base64 (`general_purpose::STANDARD`).
-/

namespace QuicTunnel

abbrev Bytes := List UInt8

/-- `str::as_bytes`. -/
def utf8 (s : String) : Bytes := s.toByteArray.data.toList

/-- `str::from_utf8`. -/
def fromUtf8 (bytes : Bytes) : Option String := String.fromUTF8? ⟨bytes.toArray⟩

theorem utf8_of_fromUtf8 {bytes : Bytes} {s : String} (h : fromUtf8 bytes = some s) :
    utf8 s = bytes := by
  unfold fromUtf8 String.fromUTF8? at h
  split_ifs at h
  cases h
  simp [utf8, String.fromUTF8]

theorem fromUtf8_utf8 (s : String) : fromUtf8 (utf8 s) = some s := by
  have hbytes : (⟨(utf8 s).toArray⟩ : ByteArray) = s.toByteArray := by simp [utf8]
  rw [fromUtf8, hbytes, String.fromUTF8?, dif_pos s.isValidUTF8]
  rfl

theorem utf8_injective {s t : String} (h : utf8 s = utf8 t) : s = t := by
  have := fromUtf8_utf8 s
  rw [h, fromUtf8_utf8] at this
  exact (Option.some.inj this).symm

/-- The digit of a number below 16. -/
def hexDigit (n : ℕ) : Char := "0123456789abcdef".toList.getD n '0'

/-- `hex::encode`. -/
def hexEncode (bytes : Bytes) : String :=
  String.ofList (bytes.flatMap fun b => [hexDigit (b.toNat / 16), hexDigit (b.toNat % 16)])

example : hexEncode [0x00, 0x9f, 0xe1] = "009fe1" := by decide

/-- A hex text has no dot in it. -/
theorem dot_notMem_hexEncode (bytes : Bytes) : '.' ∉ (hexEncode bytes).toList := by
  have hdigit : ∀ n < 16, hexDigit n ≠ '.' := by decide
  simp only [hexEncode, String.toList_ofList, List.mem_flatMap, not_exists, not_and]
  intro b _ hmem
  have hb := b.toNat_lt
  rcases List.mem_cons.1 hmem with h | h
  · exact hdigit _ (by omega) h.symm
  · exact hdigit _ (by omega) (List.mem_singleton.1 h).symm

/-- The character of a number below 64. -/
def base64Char (n : ℕ) : Char :=
  "ABCDEFGHIJKLMNOPQRSTUVWXYZabcdefghijklmnopqrstuvwxyz0123456789+/".toList.getD n '='

/-- `general_purpose::STANDARD.encode`, three bytes at a time. -/
def base64Chars : Bytes → List Char
  | a :: b :: c :: rest =>
    base64Char (a.toNat / 4) :: base64Char (a.toNat % 4 * 16 + b.toNat / 16) ::
      base64Char (b.toNat % 16 * 4 + c.toNat / 64) :: base64Char (c.toNat % 64) :: base64Chars rest
  | [a, b] =>
    [base64Char (a.toNat / 4), base64Char (a.toNat % 4 * 16 + b.toNat / 16),
      base64Char (b.toNat % 16 * 4), '=']
  | [a] => [base64Char (a.toNat / 4), base64Char (a.toNat % 4 * 16), '=', '=']
  | [] => []

def base64Encode (bytes : Bytes) : String := String.ofList (base64Chars bytes)

example : base64Encode (utf8 "relay") = "cmVsYXk=" := by decide

/-! ### Base64 can be read back -/

/-- The number of a character. -/
def base64Value (c : Char) : ℕ :=
  "ABCDEFGHIJKLMNOPQRSTUVWXYZabcdefghijklmnopqrstuvwxyz0123456789+/".toList.idxOf c

/-- The bytes of a padded text, four characters at a time. -/
def base64Decode : List Char → Bytes
  | p :: q :: r :: s :: rest =>
    let first := UInt8.ofNat (base64Value p * 4 + base64Value q / 16)
    if r = '=' then [first]
    else
      let second := UInt8.ofNat (base64Value q % 16 * 16 + base64Value r / 4)
      if s = '=' then [first, second]
      else
        first :: second :: UInt8.ofNat (base64Value r % 4 * 64 + base64Value s) ::
          base64Decode rest
  | _ => []

theorem base64Value_base64Char : ∀ n < 64, base64Value (base64Char n) = n := by
  decide +kernel

theorem base64Char_ne_pad : ∀ n < 64, base64Char n ≠ '=' := by decide +kernel

theorem base64Decode_base64Chars (bytes : Bytes) : base64Decode (base64Chars bytes) = bytes := by
  induction bytes using base64Chars.induct with
  | case1 a b c rest ih =>
    have ha := a.toNat_lt
    have hb := b.toNat_lt
    have hc := c.toNat_lt
    rw [base64Chars, base64Decode, if_neg (base64Char_ne_pad _ (by omega)),
      if_neg (base64Char_ne_pad _ (by omega)), ih]
    simp only [base64Value_base64Char (a.toNat / 4) (by omega),
      base64Value_base64Char (a.toNat % 4 * 16 + b.toNat / 16) (by omega),
      base64Value_base64Char (b.toNat % 16 * 4 + c.toNat / 64) (by omega),
      base64Value_base64Char (c.toNat % 64) (by omega)]
    rw [show a.toNat / 4 * 4 + (a.toNat % 4 * 16 + b.toNat / 16) / 16 = a.toNat by omega,
      show (a.toNat % 4 * 16 + b.toNat / 16) % 16 * 16 + (b.toNat % 16 * 4 + c.toNat / 64) / 4 =
        b.toNat by omega,
      show (b.toNat % 16 * 4 + c.toNat / 64) % 4 * 64 + c.toNat % 64 = c.toNat by omega]
    simp only [UInt8.ofNat_toNat]
  | case2 a b =>
    have ha := a.toNat_lt
    have hb := b.toNat_lt
    rw [base64Chars, base64Decode, if_neg (base64Char_ne_pad _ (by omega)), if_pos rfl]
    simp only [base64Value_base64Char (a.toNat / 4) (by omega),
      base64Value_base64Char (a.toNat % 4 * 16 + b.toNat / 16) (by omega),
      base64Value_base64Char (b.toNat % 16 * 4) (by omega)]
    rw [show a.toNat / 4 * 4 + (a.toNat % 4 * 16 + b.toNat / 16) / 16 = a.toNat by omega,
      show (a.toNat % 4 * 16 + b.toNat / 16) % 16 * 16 + b.toNat % 16 * 4 / 4 = b.toNat by omega]
    simp only [UInt8.ofNat_toNat]
  | case3 a =>
    have ha := a.toNat_lt
    rw [base64Chars, base64Decode, if_pos rfl]
    simp only [base64Value_base64Char (a.toNat / 4) (by omega),
      base64Value_base64Char (a.toNat % 4 * 16) (by omega)]
    rw [show a.toNat / 4 * 4 + a.toNat % 4 * 16 / 16 = a.toNat by omega]
    simp only [UInt8.ofNat_toNat]
  | case4 => rfl

theorem base64Encode_injective {bytes bytes' : Bytes}
    (h : base64Encode bytes = base64Encode bytes') : bytes = bytes' := by
  have hchars := String.ofList_injective h
  rw [← base64Decode_base64Chars bytes, hchars, base64Decode_base64Chars]

end QuicTunnel
