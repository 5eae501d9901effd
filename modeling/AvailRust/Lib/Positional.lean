/-
  Numbers as digits, most significant first.

  `value` is what digits stand for and `digits` writes a number without zeros in front. A long
  multiplication goes over the digits from the right and carries (`mulSteps`); what is left of the
  carry is put in front (`pushCarry`). `convert` changes the base and keeps the zeros in front, as
  codes for byte strings do; it is undone by converting back (`convert_convert`).
-/
import Mathlib.Data.List.TakeWhile
import Mathlib.Data.Nat.Digits.Lemmas
import Mathlib.Tactic.Ring

namespace Positional

/-- The number that digits stand for. -/
def value (base : Nat) (ds : List Nat) : Nat := Nat.ofDigits base ds.reverse

/-- The digits of a number, none for zero. -/
def digits (base n : Nat) : List Nat := (Nat.digits base n).reverse

def zeros (ds : List Nat) : Nat := (ds.takeWhile (· == 0)).length

def strip (ds : List Nat) : List Nat := ds.dropWhile (· == 0)

/-- The same number in another base, behind as many zeros. -/
def convert (base base' : Nat) (ds : List Nat) : List Nat :=
  List.replicate (zeros ds) 0 ++ digits base' (value base ds)

/-! ## Values -/

@[simp] theorem value_nil (base : Nat) : value base [] = 0 := rfl

theorem value_cons (base d : Nat) (ds : List Nat) :
    value base (d :: ds) = d * base ^ ds.length + value base ds := by
  rw [value, List.reverse_cons, Nat.ofDigits_append, Nat.ofDigits_singleton, List.length_reverse,
    Nat.mul_comm, Nat.add_comm, value]

theorem value_snoc (base d : Nat) (ds : List Nat) :
    value base (ds ++ [d]) = value base ds * base + d := by
  rw [value, List.reverse_append, List.reverse_singleton, List.singleton_append, Nat.ofDigits_cons,
    value, Nat.add_comm, Nat.mul_comm]

theorem value_replicate_zero_append (base k : Nat) (ds : List Nat) :
    value base (List.replicate k 0 ++ ds) = value base ds := by
  rw [value, List.reverse_append, List.reverse_replicate, Nat.ofDigits_append_replicate_zero, value]

theorem value_digits (base n : Nat) : value base (digits base n) = n := by
  rw [value, digits, List.reverse_reverse, Nat.ofDigits_digits]

theorem takeWhile_zero (ds : List Nat) : ds.takeWhile (· == 0) = List.replicate (zeros ds) 0 := by
  apply List.eq_replicate_iff.mpr
  refine ⟨rfl, fun d hd => ?_⟩
  simpa using List.mem_takeWhile_imp hd

theorem zeros_append_strip (ds : List Nat) : List.replicate (zeros ds) 0 ++ strip ds = ds := by
  rw [← takeWhile_zero, strip, List.takeWhile_append_dropWhile]

theorem value_strip (base : Nat) (ds : List Nat) : value base (strip ds) = value base ds := by
  have hsplit := value_replicate_zero_append base (zeros ds) (strip ds)
  rw [zeros_append_strip] at hsplit
  exact hsplit.symm

/-- Digits without zeros in front are those of their value. -/
theorem digits_value {base : Nat} (hbase : 1 < base) {ds : List Nat} (hds : ∀ d ∈ ds, d < base) :
    digits base (value base ds) = strip ds := by
  rw [← value_strip, digits, value, Nat.digits_ofDigits base hbase, List.reverse_reverse]
  · intro d hd
    rw [List.mem_reverse] at hd
    exact hds d ((List.dropWhile_sublist _).subset hd)
  · intro hne hzero
    rw [List.getLast_reverse] at hzero
    have hhead := List.head_dropWhile_not (· == 0) (fun h => hne (by rw [strip, h]; rfl))
    simp [strip] at hzero
    simp [hzero] at hhead

theorem digit_lt {base : Nat} (hbase : 1 < base) (n : Nat) : ∀ d ∈ digits base n, d < base := by
  intro d hd
  exact Nat.digits_lt_base hbase (List.mem_reverse.mp hd)

/-! ## Changing the base -/

section

variable {base base' : Nat} {ds : List Nat}

theorem value_convert : value base' (convert base base' ds) = value base ds := by
  rw [convert, value_replicate_zero_append, value_digits]

theorem convert_lt (hbase' : 1 < base') : ∀ d ∈ convert base base' ds, d < base' := by
  intro d hd
  rcases List.mem_append.mp hd with hzero | hdigit
  · have heq := List.eq_of_mem_replicate hzero
    omega
  · exact digit_lt hbase' _ d hdigit

theorem strip_digits (n : Nat) : strip (digits base n) = digits base n := by
  rcases Nat.eq_zero_or_pos n with rfl | hpos
  · rw [digits, Nat.digits_zero]
    rfl
  · have hlast := Nat.getLast_digit_ne_zero base hpos.ne'
    have hne : digits base n ≠ [] := by
      simpa [digits] using Nat.digits_ne_nil_iff_ne_zero.mpr hpos.ne'
    obtain ⟨d, rest, hcons⟩ := List.exists_cons_of_ne_nil hne
    have hhead : d ≠ 0 := by
      intro hd
      apply hlast
      have hrev : Nat.digits base n = rest.reverse ++ [d] := by
        rw [← List.reverse_cons, ← hcons, digits, List.reverse_reverse]
      simp only [hrev, List.getLast_concat, hd]
    rw [hcons, strip, List.dropWhile_cons_of_neg (by simpa using hhead)]

theorem zeros_convert : zeros (convert base base' ds) = zeros ds := by
  have hdrop := @strip_digits base' (value base ds)
  have hnone : (digits base' (value base ds)).takeWhile (· == 0) = [] := by
    have hall := List.takeWhile_append_dropWhile (p := (· == 0))
      (l := digits base' (value base ds))
    rw [strip] at hdrop
    rw [hdrop] at hall
    exact List.append_left_eq_self.mp hall
  rw [zeros, convert, List.takeWhile_append_of_pos (by simp), List.length_append, hnone]
  simp

/-- Converting back undoes a conversion. -/
theorem convert_convert (hbase : 1 < base) (hds : ∀ d ∈ ds, d < base) :
    convert base' base (convert base base' ds) = ds := by
  rw [convert, zeros_convert, value_convert, digits_value hbase hds, zeros_append_strip]

end

/-! ## Long multiplication -/

/-- One digit of a product, from the right: the digits so far, and the carry. -/
def mulStep (base m d : Nat) (s : List Nat × Nat) : List Nat × Nat :=
  ((d * m + s.2) % base :: s.1, (d * m + s.2) / base)

def mulSteps (base m carry : Nat) (ds : List Nat) : List Nat × Nat :=
  ds.foldr (mulStep base m) ([], carry)

/-- The digits of the carry go in front. -/
def pushCarry (base : Nat) (hbase : 1 < base) (carry : Nat) (ds : List Nat) : List Nat :=
  if _ : carry = 0 then ds else pushCarry base hbase (carry / base) (carry % base :: ds)
termination_by carry
decreasing_by exact Nat.div_lt_self (Nat.pos_of_ne_zero ‹_›) hbase

theorem length_mulSteps (base m carry : Nat) (ds : List Nat) :
    (mulSteps base m carry ds).1.length = ds.length := by
  induction ds with
  | nil => rfl
  | cons d ds ih => simpa [mulSteps, mulStep] using ih

/-- The product is in the digits and the carry, which counts in front of them. -/
theorem value_mulSteps (base m carry : Nat) (ds : List Nat) :
    (mulSteps base m carry ds).2 * base ^ ds.length + value base (mulSteps base m carry ds).1
      = value base ds * m + carry := by
  induction ds with
  | nil => simp [mulSteps]
  | cons d ds ih =>
    have hlength := length_mulSteps base m carry ds
    have hstep : mulSteps base m carry (d :: ds) = mulStep base m d (mulSteps base m carry ds) :=
      rfl
    have hdigit := Nat.div_add_mod (d * m + (mulSteps base m carry ds).2) base
    rw [hstep, mulStep, value_cons, value_cons, hlength, List.length_cons]
    calc (d * m + (mulSteps base m carry ds).2) / base * base ^ (ds.length + 1)
          + ((d * m + (mulSteps base m carry ds).2) % base * base ^ ds.length
            + value base (mulSteps base m carry ds).1)
        = (base * ((d * m + (mulSteps base m carry ds).2) / base)
            + (d * m + (mulSteps base m carry ds).2) % base) * base ^ ds.length
            + value base (mulSteps base m carry ds).1 := by ring
      _ = d * m * base ^ ds.length + ((mulSteps base m carry ds).2 * base ^ ds.length
            + value base (mulSteps base m carry ds).1) := by rw [hdigit]; ring
      _ = (d * base ^ ds.length + value base ds) * m + carry := by rw [ih]; ring

theorem value_pushCarry (base : Nat) (hbase : 1 < base) (carry : Nat) (ds : List Nat) :
    value base (pushCarry base hbase carry ds) = carry * base ^ ds.length + value base ds := by
  fun_induction pushCarry base hbase carry ds with
  | case1 ds => simp
  | case2 carry ds h ih =>
    have hdigit := Nat.div_add_mod carry base
    rw [ih, value_cons, List.length_cons]
    calc carry / base * base ^ (ds.length + 1) + (carry % base * base ^ ds.length + value base ds)
        = (base * (carry / base) + carry % base) * base ^ ds.length + value base ds := by ring
      _ = carry * base ^ ds.length + value base ds := by rw [hdigit]

end Positional
