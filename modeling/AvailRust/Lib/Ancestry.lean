/-
  Trees by their parents.

  Every element of a tree has a height, and every element above height 0 has a parent one
  below. An element's ancestors form a chain: any two of them are comparable, and there is
  exactly one at each height up to the element's own (`exists_ancestor`, `Ancestor.unique`).
-/
import Mathlib.Logic.Relation

namespace Ancestry

/-- A tree: the elements are those that have a height. -/
structure Tree (α : Type) where
  height : α → Option Nat
  parent : α → Option α
  height_of_parent : ∀ a p, parent a = some p → ∃ n, height a = some (n + 1) ∧ height p = some n
  exists_parent : ∀ a n, height a = some (n + 1) → ∃ p, parent a = some p

variable {α : Type} {t : Tree α} {a a' b c : α} {n m : Nat}

namespace Tree

/-- `a` is `b` or above it. -/
def Ancestor (t : Tree α) (a b : α) : Prop :=
  Relation.ReflTransGen (fun x p => t.parent x = some p) b a

theorem Ancestor.refl (t : Tree α) (a : α) : t.Ancestor a a := Relation.ReflTransGen.refl

theorem Ancestor.trans (h : t.Ancestor a b) (h' : t.Ancestor b c) : t.Ancestor a c :=
  Relation.ReflTransGen.trans h' h

/-- An ancestor is not higher. -/
theorem Ancestor.height_le (h : t.Ancestor a b) (hb : t.height b = some n) :
    ∃ m, m ≤ n ∧ t.height a = some m := by
  unfold Ancestor at h
  induction h with
  | refl => exact ⟨n, Nat.le_refl n, hb⟩
  | tail _ hparent ih =>
    obtain ⟨m, hm, hx⟩ := ih
    obtain ⟨k, hk, hp⟩ := t.height_of_parent _ _ hparent
    rw [hk] at hx
    have hkm := Option.some.inj hx
    exact ⟨k, by omega, hp⟩

/-- The only ancestor at an element's own height is the element. -/
theorem Ancestor.eq_of_height (h : t.Ancestor a b) (ha : t.height a = some n)
    (hb : t.height b = some n) : a = b := by
  rcases Relation.ReflTransGen.cases_head h with heq | ⟨p, hparent, hrest⟩
  · exact heq.symm
  · obtain ⟨k, hk, hp⟩ := t.height_of_parent _ _ hparent
    have hrest' : t.Ancestor a p := hrest
    obtain ⟨m, hm, ha'⟩ := hrest'.height_le hp
    rw [hb] at hk
    rw [ha] at ha'
    have hkn := Option.some.inj hk
    have hmn := Option.some.inj ha'
    omega

theorem Ancestor.antisymm (h : t.Ancestor a b) (h' : t.Ancestor b a) (hb : t.height b = some n) :
    a = b := by
  obtain ⟨m, hm, ha⟩ := h.height_le hb
  obtain ⟨k, hk, hb'⟩ := h'.height_le ha
  rw [hb] at hb'
  have hkn := Option.some.inj hb'
  have hmn : m = n := by omega
  rw [hmn] at ha
  exact h.eq_of_height ha hb

/-- The ancestors of an element form a chain. -/
theorem Ancestor.comparable (h : t.Ancestor a b) (h' : t.Ancestor a' b) :
    t.Ancestor a a' ∨ t.Ancestor a' a := by
  have hunique : Relator.RightUnique fun x p => t.parent x = some p := by
    intro x p q hp hq
    rw [hp] at hq
    exact Option.some.inj hq
  exact (Relation.ReflTransGen.total_of_right_unique hunique h h').symm

/-- At one height an element has one ancestor. -/
theorem Ancestor.unique (h : t.Ancestor a b) (h' : t.Ancestor a' b) (ha : t.height a = some n)
    (ha' : t.height a' = some n) : a = a' := by
  rcases h.comparable h' with hle | hle
  · exact hle.eq_of_height ha ha'
  · exact (hle.eq_of_height ha' ha).symm

/-- Of two ancestors of an element, the one that is not higher is an ancestor of the other. -/
theorem Ancestor.of_height_le (h : t.Ancestor a b) (h' : t.Ancestor a' b) (ha : t.height a = some n)
    (ha' : t.height a' = some m) (hle : n ≤ m) : t.Ancestor a a' := by
  rcases h.comparable h' with hanc | hanc
  · exact hanc
  · obtain ⟨k, hk, hka⟩ := hanc.height_le ha
    rw [ha'] at hka
    have hmk := Option.some.inj hka
    have hnm : n = m := by omega
    subst hnm
    rw [hanc.eq_of_height ha' ha]
    exact .refl t a

/-- An element has an ancestor at every height up to its own. -/
theorem exists_ancestor (t : Tree α) (hb : t.height b = some n) (hle : m ≤ n) :
    ∃ a, t.Ancestor a b ∧ t.height a = some m := by
  induction n generalizing b with
  | zero => exact ⟨b, .refl t b, by rw [hb, Nat.le_zero.mp hle]⟩
  | succ n ih =>
    rcases Nat.lt_or_eq_of_le hle with hlt | heq
    · obtain ⟨p, hparent⟩ := t.exists_parent b n hb
      obtain ⟨k, hk, hp⟩ := t.height_of_parent _ _ hparent
      rw [hb] at hk
      have hkn : n = k := Nat.succ.inj (Option.some.inj hk)
      subst hkn
      obtain ⟨a, hanc, ha⟩ := ih hp (Nat.lt_succ_iff.mp hlt)
      exact ⟨a, hanc.trans (Relation.ReflTransGen.single hparent), ha⟩
    · exact ⟨b, .refl t b, by rw [hb, heq]⟩

end Tree

end Ancestry
