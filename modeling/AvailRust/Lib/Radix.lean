/-
  Numbers as text in a base up to 16.

  `padded` writes the lower-case digits of a number, with zeros in front up to a width.
  `fromStrRadix` reads a number below a bound: a plus sign may lead, digits are of either case,
  and a number that does not fit is refused. `numeral` is what a text of digits means, whatever
  its length. A number below the bound reads back from its padded digits at every width
  (`fromStrRadix_padded`).
-/
import AvailRust.Lib.Hex

namespace Radix

/-- The value of a digit of the base. -/
def digitValue (radix : Nat) (c : Char) : Option Nat := (Hex.value c).filter (· < radix)

/-- The digits of a number, at least `width` of them. -/
def padded (radix width n : Nat) : List Char := (Nat.toDigits radix n).leftpad width '0'

/-- Read digits behind those that make up `acc`. -/
def readDigits {bound : Nat} (radix : Nat) (acc : Fin bound) :
    List Char → Except String (Fin bound)
  | [] => .ok acc
  | c :: rest =>
    match digitValue radix c with
    | none => .error "invalid digit found in string"
    | some d =>
      if h : acc.val * radix + d < bound then readDigits radix ⟨acc.val * radix + d, h⟩ rest
      else .error "number too large to fit in target type"

/-- `from_str_radix` of an unsigned type. -/
def fromStrRadix (bound : Nat) [NeZero bound] (radix : Nat) :
    List Char → Except String (Fin bound)
  | [] => .error "cannot parse integer from empty string"
  | ['+'] => .error "invalid digit found in string"
  | '+' :: digits => readDigits radix 0 digits
  | digits => readDigits radix 0 digits

/-! ## What digits mean -/

/-- The number digits stand for, behind those that make up `acc`. -/
def numeral (radix acc : Nat) : List Char → Option Nat
  | [] => some acc
  | c :: rest => (digitValue radix c).bind fun d => numeral radix (acc * radix + d) rest

theorem numeral_cons_eq_some {radix acc n : Nat} {c : Char} {rest : List Char} :
    numeral radix acc (c :: rest) = some n ↔
      ∃ d, digitValue radix c = some d ∧ numeral radix (acc * radix + d) rest = some n :=
  Option.bind_eq_some_iff

theorem numeral_append {radix acc n : Nat} {xs : List Char} (h : numeral radix acc xs = some n)
    (ys : List Char) : numeral radix acc (xs ++ ys) = numeral radix n ys := by
  induction xs generalizing acc with
  | nil =>
    have hacc : acc = n := Option.some.inj h
    rw [List.nil_append, hacc]
  | cons c xs ih =>
    obtain ⟨d, hd, hrest⟩ := numeral_cons_eq_some.mp h
    rw [List.cons_append, numeral, hd, Option.bind_some]
    exact ih hrest

/-- More digits never make the number smaller. -/
theorem le_of_numeral {radix acc n : Nat} (hradix : 0 < radix) {text : List Char}
    (h : numeral radix acc text = some n) : acc ≤ n := by
  induction text generalizing acc with
  | nil => exact Nat.le_of_eq (Option.some.inj h)
  | cons c text ih =>
    obtain ⟨d, -, hrest⟩ := numeral_cons_eq_some.mp h
    have hgrow : acc ≤ acc * radix := Nat.le_mul_of_pos_right acc hradix
    have hle : acc * radix + d ≤ n := ih hrest
    omega

/-- Reading checks the bound at every digit. As the number only grows, it is enough that the
    whole number is below the bound. -/
theorem readDigits_of_numeral {bound radix n : Nat} (hradix : 0 < radix) (hn : n < bound)
    {acc : Fin bound} {text : List Char} (h : numeral radix acc.val text = some n) :
    readDigits radix acc text = .ok ⟨n, hn⟩ := by
  induction text generalizing acc with
  | nil =>
    have hacc : acc = ⟨n, hn⟩ := Fin.ext (Option.some.inj h)
    rw [readDigits, hacc]
  | cons c text ih =>
    obtain ⟨d, hd, hrest⟩ := numeral_cons_eq_some.mp h
    have hle : acc.val * radix + d ≤ n := le_of_numeral hradix hrest
    have hfits : acc.val * radix + d < bound := by omega
    have hread : readDigits radix ⟨acc.val * radix + d, hfits⟩ text = .ok ⟨n, hn⟩ := ih hrest
    rw [readDigits, hd]
    simp only [dif_pos hfits, hread]

/-- A text of digits has no sign. -/
theorem fromStrRadix_of_numeral {bound radix n : Nat} [NeZero bound] (hradix : 0 < radix)
    (hn : n < bound) {text : List Char} (hne : text ≠ []) (h : numeral radix 0 text = some n) :
    fromStrRadix bound radix text = .ok ⟨n, hn⟩ := by
  have hread : readDigits radix (0 : Fin bound) text = .ok ⟨n, hn⟩ :=
    readDigits_of_numeral hradix hn h
  have hplus : digitValue radix '+' = none := rfl
  unfold fromStrRadix
  split
  · contradiction
  · simp [numeral, hplus] at h
  · simp [numeral, hplus] at h
  · exact hread

/-! ## What `padded` writes -/

theorem digitValue_digitChar {radix d : Nat} (hradix : radix ≤ 16) (hd : d < radix) :
    digitValue radix d.digitChar = some d := by
  have hvalue : ∀ d < 16, Hex.value d.digitChar = some d := by decide
  have hlt : decide (d < radix) = true := decide_eq_true hd
  rw [digitValue, hvalue d (by omega), Option.filter_some, if_pos hlt]

theorem numeral_digitChar {radix acc d : Nat} (hradix : radix ≤ 16) (hd : d < radix) :
    numeral radix acc [d.digitChar] = some (acc * radix + d) := by
  rw [numeral, digitValue_digitChar hradix hd]
  rfl

theorem numeral_toDigits {radix : Nat} (hone : 1 < radix) (hradix : radix ≤ 16) (n : Nat) :
    numeral radix 0 (Nat.toDigits radix n) = some n := by
  induction n using Nat.base_induction radix hone with
  | single m hm =>
    rw [Nat.toDigits_of_lt_base hm, numeral_digitChar hradix hm, Nat.zero_mul, Nat.zero_add]
  | digit m k hk hm ih =>
    rw [← Nat.toDigits_append_toDigits hone hm hk, numeral_append ih,
      Nat.toDigits_of_lt_base hk, numeral_digitChar hradix hk, Nat.mul_comm]

theorem numeral_zeros {radix : Nat} (hone : 1 < radix) (hradix : radix ≤ 16) (k : Nat) :
    numeral radix 0 (List.replicate k '0') = some 0 := by
  induction k with
  | zero => rfl
  | succ k ih =>
    have hzero : digitValue radix (Nat.digitChar 0) = some 0 :=
      digitValue_digitChar hradix (by omega)
    change digitValue radix '0' = some 0 at hzero
    rw [List.replicate_succ, numeral, hzero, Option.bind_some, Nat.zero_mul]
    exact ih

theorem numeral_padded {radix : Nat} (hone : 1 < radix) (hradix : radix ≤ 16) (width n : Nat) :
    numeral radix 0 (padded radix width n) = some n := by
  rw [padded, List.leftpad, numeral_append (numeral_zeros hone hradix _)]
  exact numeral_toDigits hone hradix n

theorem padded_ne_nil (radix width n : Nat) : padded radix width n ≠ [] := by
  simp [padded, List.leftpad]

/-- A number reads back from its digits at every width. -/
theorem fromStrRadix_padded {bound radix : Nat} [NeZero bound] (hone : 1 < radix)
    (hradix : radix ≤ 16) (width : Nat) (n : Fin bound) :
    fromStrRadix bound radix (padded radix width n) = .ok n :=
  fromStrRadix_of_numeral (by omega) n.isLt (padded_ne_nil radix width n)
    (numeral_padded hone hradix width n)

/-- A number that needs at most `width` digits has exactly `width`. -/
theorem length_padded {radix width n : Nat} (hone : 1 < radix) (hwidth : 0 < width)
    (hn : n < radix ^ width) : (padded radix width n).length = width := by
  have hlen : (Nat.toDigits radix n).length ≤ width :=
    (Nat.length_toDigits_le_iff hone hwidth).mpr hn
  rw [padded, List.length_leftpad]
  omega

/-! ## The bytes of digits -/

theorem utf8Size_of_value {c : Char} (h : Hex.value c ≠ none) : c.utf8Size = 1 := by
  have hascii : c.toNat ≤ 102 := by
    unfold Hex.value at h
    split at h
    · omega
    · split at h
      · omega
      · split at h
        · omega
        · contradiction
  rw [Char.utf8Size_eq_one_iff, UInt32.le_iff_toNat_le]
  exact Nat.le_trans hascii (by decide)

/-- Digits are one byte each. -/
theorem utf8ByteSize_of_numeral {radix acc n : Nat} {text : List Char}
    (h : numeral radix acc text = some n) : (String.ofList text).utf8ByteSize = text.length := by
  induction text generalizing acc with
  | nil => rfl
  | cons c text ih =>
    obtain ⟨d, hd, hrest⟩ := numeral_cons_eq_some.mp h
    have hvalue : Hex.value c ≠ none := by
      intro hnone
      rw [digitValue, hnone] at hd
      cases hd
    have hcons : String.ofList (c :: text) = String.singleton c ++ String.ofList text := by
      rw [String.singleton_eq_ofList, ← String.ofList_append]
      rfl
    rw [hcons, String.utf8ByteSize_append, String.utf8ByteSize_singleton,
      utf8Size_of_value hvalue, ih hrest, List.length_cons, Nat.add_comm]

end Radix
