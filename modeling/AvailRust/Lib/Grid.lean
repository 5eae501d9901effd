/-
  Lists laid out in a grid.

  Item `n` of a grid with `cols` columns stands in row `n / cols` and column `n % cols`. A grid may
  be folded to `width` columns: each of its rows becomes `bands` rows, and the positions stay apart
  (`folded_inj`). `window width xs i` is the `i`-th piece of `xs` with `width` items; the pieces
  one behind the other are the list (`flatten_windows`).
-/
import Mathlib.Data.Nat.Basic

namespace Grid

/-! ## Positions -/

theorem index_inj {cols m n : Nat} (hrow : m / cols = n / cols) (hcol : m % cols = n % cols) :
    m = n := by
  rw [← Nat.div_add_mod m cols, ← Nat.div_add_mod n cols, hrow, hcol]

theorem row_lt {rows cols n : Nat} (h : n < rows * cols) : n / cols < rows :=
  Nat.div_lt_of_lt_mul (by rwa [Nat.mul_comm])

/-- Two rows of `bands` do not overlap. -/
theorem folded_inj {bands row row' band band' : Nat} (hband : band < bands) (hband' : band' < bands)
    (h : row * bands + band = row' * bands + band') : row = row' ∧ band = band' := by
  have hpos : 0 < bands := Nat.zero_lt_of_lt hband
  have hrow := congrArg (· / bands) h
  have hrest := congrArg (· % bands) h
  simp only [Nat.mul_comm _ bands, Nat.mul_add_div hpos, Nat.div_eq_of_lt hband,
    Nat.div_eq_of_lt hband', Nat.mul_add_mod, Nat.mod_eq_of_lt hband, Nat.mod_eq_of_lt hband',
    Nat.add_zero] at hrow hrest
  exact ⟨hrow, hrest⟩

/-- So many rows of `width` columns hold `cols` columns. -/
theorem band_lt {cols width col : Nat} (hwidth : 0 < width) (h : col < cols) :
    col / width < (cols + (width - 1)) / width := by
  rw [Nat.lt_div_iff_mul_lt hwidth]
  have hle := Nat.div_mul_le_self col width
  omega

theorem bands_le (cols : Nat) {width : Nat} (hwidth : 0 < width) :
    (cols + (width - 1)) / width ≤ cols := by
  have hmul : cols ≤ cols * width := Nat.le_mul_of_pos_right cols hwidth
  apply Nat.lt_succ_iff.mp
  rw [Nat.div_lt_iff_lt_mul hwidth, Nat.succ_mul]
  omega

/-! ## Windows -/

section

variable {α : Type}

def window (width : Nat) (xs : List α) (i : Nat) : List α := (xs.drop (i * width)).take width

theorem length_window {width count i : Nat} {xs : List α} (hlength : xs.length = count * width)
    (hi : i < count) : (window width xs i).length = width := by
  have hfits : (i + 1) * width ≤ count * width := Nat.mul_le_mul_right width hi
  rw [Nat.succ_mul] at hfits
  rw [window, List.length_take, List.length_drop]
  omega

/-- The pieces of a loop that counts from `start`. -/
theorem map_window_range' (width : Nat) (xs : List α) (start count : Nat) :
    (List.range' start count).map (fun n => window width xs (n - start))
      = (List.range count).map (window width xs) := by
  rw [List.range'_eq_map_range, List.map_map]
  apply List.map_congr_left
  intro i _
  show window width xs (start + i - start) = _
  rw [Nat.add_sub_cancel_left]

theorem flatten_windows (width : Nat) (xs : List α) (count : Nat) :
    ((List.range count).map (window width xs)).flatten = xs.take (count * width) := by
  induction count with
  | zero => simp
  | succ count ih =>
    rw [List.range_succ, List.map_append, List.flatten_append, ih, Nat.succ_mul, List.take_add]
    simp [window]

end

end Grid
