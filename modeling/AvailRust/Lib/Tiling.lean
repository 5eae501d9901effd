/-
  Intervals one behind the other.

  `Tiles start stop lo hi items`: the items' intervals, each from its start up to its stop and
  without the stop, begin at `lo`, each where the one before it ends, and end at `hi`. So they lie
  apart (`Tiles.pairwise`) and hold the points from `lo` up to `hi`, and no others
  (`Tiles.mem_iff`). Intervals may be empty. A run that appends one interval after the other keeps
  the tiling (`Tiles.push`).
-/
import Mathlib.Order.Lattice

namespace Tiling

variable {α ι : Type} [LinearOrder α] {start stop : ι → α}

inductive Tiles (start stop : ι → α) : α → α → List ι → Prop where
  | nil (x : α) : Tiles start stop x x []
  | cons {item : ι} {items : List ι} {hi : α} : start item ≤ stop item →
      Tiles start stop (stop item) hi items → Tiles start stop (start item) hi (item :: items)

namespace Tiles

variable {lo mid hi : α} {item : ι} {items : List ι}

theorem le (h : Tiles start stop lo hi items) : lo ≤ hi := by
  induction h with
  | nil x => exact le_refl x
  | cons hle _ ih => exact le_trans hle ih

/-- One more interval, where the last one ends. -/
theorem push (h : Tiles start stop lo mid items) (item : ι) (hstart : start item = mid)
    (hle : mid ≤ stop item) : Tiles start stop lo (stop item) (items ++ [item]) := by
  induction h with
  | nil x =>
    subst hstart
    exact .cons hle (.nil _)
  | cons hfirst _ ih => exact .cons hfirst (ih hstart hle)

theorem lo_le_start (h : Tiles start stop lo hi items) (hitem : item ∈ items) :
    lo ≤ start item := by
  induction h with
  | nil x => cases hitem
  | cons hle _ ih =>
    rcases List.mem_cons.mp hitem with rfl | htail
    · exact le_refl _
    · exact le_trans hle (ih htail)

/-- No two intervals share a point. -/
theorem pairwise (h : Tiles start stop lo hi items) :
    items.Pairwise fun a b => stop a ≤ start b := by
  induction h with
  | nil x => exact .nil
  | cons _ hrest ih => exact .cons (fun _ hitem => hrest.lo_le_start hitem) ih

/-- Every point between the ends is in an interval, and no other point is. -/
theorem mem_iff (h : Tiles start stop lo hi items) (x : α) :
    (∃ item ∈ items, start item ≤ x ∧ x < stop item) ↔ lo ≤ x ∧ x < hi := by
  induction h with
  | nil y =>
    simp only [List.not_mem_nil, false_and, exists_false, false_iff]
    rintro ⟨hle, hlt⟩
    exact absurd (lt_of_le_of_lt hle hlt) (lt_irrefl y)
  | @cons item items hi hle hrest ih =>
    simp only [List.mem_cons, exists_eq_or_imp, ih]
    constructor
    · rintro (⟨hfrom, hbefore⟩ | ⟨hfrom, hbefore⟩)
      · exact ⟨hfrom, lt_of_lt_of_le hbefore hrest.le⟩
      · exact ⟨le_trans hle hfrom, hbefore⟩
    · rintro ⟨hfrom, hbefore⟩
      rcases lt_or_ge x (stop item) with hlt | hge
      · exact .inl ⟨hfrom, hlt⟩
      · exact .inr ⟨hge, hbefore⟩

end Tiles

end Tiling
