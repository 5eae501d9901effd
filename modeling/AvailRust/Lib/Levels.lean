/-
  Streams of items by their level.

  A stream gives items at a level, and climbs one level at a time. It keeps a `Record` of the
  items it gave at its level and forgets it when it climbs. That is enough to give no item
  twice, since an item has one level (`Covers.not_mem`). A stream that forgets its record
  without climbing may give again what it gave there; `Covers.reset` is the case that it gave
  nothing.
-/
import Mathlib.Data.List.Chain
import Mathlib.Data.List.Nodup

namespace Levels

variable {α : Type}

/-- The level a stream is at, and what it gave there. -/
structure Record (α : Type) where
  level : Nat
  seen : List α

namespace Record

/-- A record of nothing. -/
def fresh (n : Nat) : Record α := ⟨n, []⟩

variable (level : α → Nat)

/-- The items a stream may give next: one of its level first, then another one of that level or
    one of the level above. -/
def Admits (r : Record α) (x : α) : Prop :=
  if r.seen = [] then level x = r.level
  else level x = r.level ∧ x ∉ r.seen ∨ level x = r.level + 1

/-- The record after an item was given. -/
def give (r : Record α) (x : α) : Record α :=
  if level x = r.level then { r with seen := r.seen ++ [x] } else { level := level x, seen := [x] }

/-- Everything given lies at or below the level, and what lies at it is on record. -/
def Covers (r : Record α) (given : List α) : Prop :=
  ∀ y ∈ given, level y < r.level ∨ level y = r.level ∧ y ∈ r.seen

/-- The item given last is of the level. -/
def Last (r : Record α) (given : List α) : Prop :=
  ∀ y ∈ given.getLast?, level y = r.level ∧ r.seen ≠ []

variable {level} {r : Record α} {x : α} {given : List α} {n : Nat}

theorem Admits.cases (h : r.Admits level x) :
    level x = r.level ∧ x ∉ r.seen ∨ level x = r.level + 1 := by
  unfold Admits at h
  split at h
  case isTrue hseen =>
    refine .inl ⟨h, ?_⟩
    rw [hseen]
    exact List.not_mem_nil
  case isFalse => exact h

/-- Nothing on record is given again. -/
theorem Covers.not_mem (hcovers : r.Covers level given) (hadmits : r.Admits level x) :
    x ∉ given := by
  intro hx
  have hold := hcovers x hx
  rcases hadmits.cases with ⟨hlevel, hnew⟩ | hlevel
  · rcases hold with hbelow | ⟨-, hseen⟩
    · omega
    · exact hnew hseen
  · omega

theorem Covers.nodup (hcovers : r.Covers level given) (hadmits : r.Admits level x)
    (hnodup : given.Nodup) : (given ++ [x]).Nodup := by
  rw [← List.concat_eq_append]
  exact hnodup.concat (hcovers.not_mem hadmits)

theorem level_give : (r.give level x).level = level x := by
  unfold give
  split
  case isTrue h => exact h.symm
  case isFalse => rfl

theorem mem_seen_give : x ∈ (r.give level x).seen := by
  unfold give
  split
  · exact List.mem_append_right _ List.mem_cons_self
  · exact List.mem_cons_self

/-- An item given or not, its record covers what was given before. -/
theorem Covers.skip (hcovers : r.Covers level given) (hadmits : r.Admits level x) :
    (r.give level x).Covers level given := by
  intro y hy
  have hold := hcovers y hy
  unfold give
  split
  case isTrue =>
    rcases hold with hbelow | ⟨hlevel, hseen⟩
    · exact .inl hbelow
    · exact .inr ⟨hlevel, List.mem_append_left _ hseen⟩
  case isFalse hne =>
    left
    show level y < level x
    rcases hadmits.cases with ⟨hlevel, -⟩ | hlevel
    · exact absurd hlevel hne
    · omega

theorem Covers.give (hcovers : r.Covers level given) (hadmits : r.Admits level x) :
    (r.give level x).Covers level (given ++ [x]) := by
  intro y hy
  rcases List.mem_append.mp hy with hold | hnew
  · exact hcovers.skip hadmits y hold
  · rw [List.mem_singleton.mp hnew]
    exact .inr ⟨level_give.symm, mem_seen_give⟩

/-- A record may be forgotten at a level where nothing was given. -/
theorem Covers.reset (hcovers : r.Covers level given) (hle : r.level ≤ n)
    (hnone : ∀ y ∈ given, level y ≠ n) : (fresh n : Record α).Covers level given := by
  intro y hy
  have hold := hcovers y hy
  have hne := hnone y hy
  left
  show level y < n
  omega

theorem Covers.nil (r : Record α) : r.Covers level [] := by
  intro y hy
  cases hy

theorem Last.nil (r : Record α) : r.Last level [] := by
  intro y hy
  cases hy

theorem Last.give : (r.give level x).Last level (given ++ [x]) := by
  intro y hy
  rw [List.getLast?_concat] at hy
  cases hy
  exact ⟨level_give.symm, List.ne_nil_of_mem mem_seen_give⟩

/-- From the last item the next one is at most one level up. -/
theorem Last.climbs (hlast : r.Last level given) (hadmits : r.Admits level x)
    (hchain : given.IsChain fun y z => level y ≤ level z ∧ level z ≤ level y + 1) :
    (given ++ [x]).IsChain fun y z => level y ≤ level z ∧ level z ≤ level y + 1 := by
  apply hchain.append (List.isChain_singleton x)
  intro y hy z hz
  cases hz
  have hlevel := (hlast y hy).1
  rcases hadmits.cases with ⟨hx, -⟩ | hx
  · omega
  · omega

end Record

end Levels
