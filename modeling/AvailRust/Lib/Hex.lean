/-
  Bytes as hexadecimal digits.

  `encode` writes two lower-case digits a byte; `decode` reads either case, behind one `0x` or
  none, and names the first byte that is no digit. What was encoded decodes (`decode_encode`).
  `trimStartMatches` drops every leading copy of a marker, such as `0x`, and a text that does not
  start with the marker is left alone.
-/
import AvailRust.Lib.Scale

namespace Hex

open Scale (Bytes)

/-- The digit of a number below 16. -/
def digit (n : Nat) : Char :=
  if n < 10 then Char.ofNat (48 + n) else Char.ofNat (87 + n)

/-- The number a digit stands for. -/
def value (c : Char) : Option Nat :=
  if 48 ≤ c.toNat ∧ c.toNat ≤ 57 then some (c.toNat - 48)
  else if 97 ≤ c.toNat ∧ c.toNat ≤ 102 then some (c.toNat - 87)
  else if 65 ≤ c.toNat ∧ c.toNat ≤ 70 then some (c.toNat - 55)
  else none

def encode (bytes : Bytes) : List Char :=
  bytes.flatMap fun x => [digit (x.toNat / 16), digit (x.toNat % 16)]

/-! ## Naming a byte -/

/-- The digits of `\u{..}`. -/
def escapeUnicode (n : Nat) : String :=
  "'\\u\x7b" ++ String.ofList (Nat.toDigits 16 n) ++ "\x7d'"

/-- `{:?}` of a `u8` as a `char`. -/
def debugByteChar (byte : UInt8) : String :=
  match byte.toNat with
  | 0 => "'\\0'"
  | 9 => "'\\t'"
  | 10 => "'\\n'"
  | 13 => "'\\r'"
  | 39 => "'\\''"
  | 92 => "'\\\\'"
  | n =>
    if n < 32 ∨ 127 ≤ n ∧ n ≤ 160 ∨ n = 173 then escapeUnicode n
    else "'" ++ String.singleton (Char.ofNat n) ++ "'"

/-- `c` is no digit. Its first byte stands at `position`: digits, of one byte each, are before. -/
def invalidCharacter (c : Char) (position : Nat) : String :=
  "invalid character " ++ debugByteChar ((String.singleton c).toUTF8.toList.headD 0)
    ++ " at position " ++ toString position

/-! ## Reading digits -/

/-- The bytes of the digits from `position` on. Where one character is left of a text of an even
    number of bytes, it is no digit. -/
def decodeDigits (position : Nat) : List Char → Except String Bytes
  | [] => .ok []
  | [c] => .error (invalidCharacter c position)
  | c :: d :: rest =>
    match value c, value d with
    | none, _ => .error (invalidCharacter c position)
    | some _, none => .error (invalidCharacter d (position + 1))
    | some hi, some lo =>
      (UInt8.ofNat (16 * hi + lo) :: ·) <$> decodeDigits (position + 2) rest

def byteLength (text : List Char) : Nat := (text.map Char.utf8Size).sum

/-- One `0x` in front is left out. -/
def stripPrefix (text : List Char) : List Char :=
  if ['0', 'x'] <+: text then text.drop 2 else text

/-- The bytes a text of digits stands for, or what is wrong with it. -/
def decode (text : List Char) : Except String Bytes :=
  if byteLength text % 2 ≠ 0 then .error "odd number of digits"
  else decodeDigits 0 (stripPrefix text)

theorem value_digit : ∀ n < 16, value (digit n) = some n := by decide

theorem decodeDigits_encode (position : Nat) (bytes : Bytes) :
    decodeDigits position (encode bytes) = .ok bytes := by
  induction bytes generalizing position with
  | nil => rfl
  | cons x bytes ih =>
    have hx := x.toNat_lt
    have hhi := value_digit (x.toNat / 16) (by omega)
    have hlo := value_digit (x.toNat % 16) (by omega)
    have hbyte : UInt8.ofNat (16 * (x.toNat / 16) + x.toNat % 16) = x := by
      rw [Nat.div_add_mod]
      exact UInt8.ofNat_toNat
    change decodeDigits position (digit (x.toNat / 16) :: digit (x.toNat % 16) :: encode bytes) = _
    rw [decodeDigits, hhi, hlo]
    simp only [hbyte, ih]
    rfl

theorem utf8Size_digit : ∀ n < 16, (digit n).utf8Size = 1 := by decide

theorem byteLength_encode (bytes : Bytes) : byteLength (encode bytes) = 2 * bytes.length := by
  induction bytes with
  | nil => rfl
  | cons x bytes ih =>
    have hx := x.toNat_lt
    have hhi := utf8Size_digit (x.toNat / 16) (by omega)
    have hlo := utf8Size_digit (x.toNat % 16) (by omega)
    change byteLength (digit (x.toNat / 16) :: digit (x.toNat % 16) :: encode bytes) = _
    simp only [byteLength, List.map_cons, List.sum_cons, List.length_cons] at ih ⊢
    omega

/-- No digit of an encoding is the `x` of a `0x`. -/
theorem not_zeroX_encode (bytes : Bytes) : ¬ ['0', 'x'] <+: encode bytes := by
  cases bytes with
  | nil => decide
  | cons x bytes =>
    have hlt : x.toNat % 16 < 16 := Nat.mod_lt _ (by decide)
    have hne : ∀ n < 16, digit n ≠ 'x' := by decide
    change ¬ ['0', 'x'] <+: digit (x.toNat / 16) :: digit (x.toNat % 16) :: encode bytes
    rw [List.cons_prefix_cons, List.cons_prefix_cons]
    rintro ⟨-, h, -⟩
    exact hne _ hlt h.symm

theorem decode_encode (bytes : Bytes) : decode (encode bytes) = .ok bytes := by
  have heven : byteLength (encode bytes) % 2 = 0 := by
    have hlength := byteLength_encode bytes
    omega
  have hstrip : stripPrefix (encode bytes) = encode bytes := if_neg (not_zeroX_encode bytes)
  rw [decode, if_neg (by omega), hstrip, decodeDigits_encode]

/-! ## Leading copies of a marker -/

/-- Drop every copy of `marker` the text starts with. -/
def trimStartMatches (marker text : List Char) : List Char :=
  if marker ≠ [] ∧ marker <+: text then trimStartMatches marker (text.drop marker.length) else text
termination_by text.length
decreasing_by
  rename_i h
  have hpos : 0 < marker.length := List.length_pos_iff.mpr h.1
  have hle := h.2.length_le
  simp only [List.length_drop]
  omega

theorem trimStartMatches_of_not {marker text : List Char} (h : ¬ marker <+: text) :
    trimStartMatches marker text = text := by
  rw [trimStartMatches, if_neg (fun hc => h hc.2)]

theorem trimStartMatches_append {marker text : List Char} (hm : marker ≠ [])
    (h : ¬ marker <+: text) : trimStartMatches marker (marker ++ text) = text := by
  rw [trimStartMatches, if_pos ⟨hm, List.prefix_append _ _⟩, List.drop_left]
  exact trimStartMatches_of_not h

end Hex
