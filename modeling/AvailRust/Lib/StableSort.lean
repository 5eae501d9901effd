/-
  Stable sorting by a key, and grouping.

  `sortBy` is a stable sort (`sortBy_sortOf`). What a stable sort does to some of the items it
  does as well when the others are not there (`filter_sortBy`); sorted by a pair, the items of
  one first component are sorted by the second, and stand together (`flatMap_columns`). `group`
  collects items under a number, each group in the order of the items.
-/
import Mathlib.Data.Prod.Lex
import Mathlib.Data.List.Induction
import Mathlib.Data.List.Perm.Basic
import Mathlib.Data.List.Sort
import Mathlib.Logic.Function.Basic

namespace StableSort

section

variable {α K : Type} [LinearOrder K] (key : α → K)

def sortBy (xs : List α) : List α := xs.mergeSort (fun a b => decide (key a ≤ key b))

theorem sortBy_perm (xs : List α) : (sortBy key xs).Perm xs := List.mergeSort_perm _ _

theorem mem_sortBy {xs : List α} {a : α} : a ∈ sortBy key xs ↔ a ∈ xs :=
  (sortBy_perm key xs).mem_iff

theorem sortBy_sorted (xs : List α) : (sortBy key xs).Pairwise fun a b => key a ≤ key b := by
  have hsorted := @List.pairwise_mergeSort _ (fun a b => decide (key a ≤ key b))
    (fun a b c => by simpa using le_trans) (fun a b => by simpa using le_total (key a) (key b)) xs
  simpa only [sortBy, decide_eq_true_eq] using hsorted

/-- Where an item goes: behind all that are smaller, before all that are not. -/
theorem sortBy_cons (a : α) (xs : List α) :
    ∃ before after, sortBy key (a :: xs) = before ++ a :: after ∧ sortBy key xs = before ++ after ∧
      (∀ b ∈ before, key b < key a) ∧ ∀ b ∈ after, key a ≤ key b := by
  obtain ⟨before, after, hcons, htail, hbefore⟩ :=
    @List.mergeSort_cons _ (fun a b => decide (key a ≤ key b))
      (fun a b c => by simpa using le_trans)
      (fun a b => by simpa using le_total (key a) (key b)) a xs
  refine ⟨before, after, hcons, htail, ?_, ?_⟩
  · intro b hb
    simpa using hbefore b hb
  · intro b hb
    have hsorted := sortBy_sorted key (a :: xs)
    rw [sortBy, hcons, List.pairwise_append, List.pairwise_cons] at hsorted
    exact hsorted.2.1.1 b hb

/-- A list is cut in only one way into smaller items and others. -/
theorem cut_unique {k : K} {before after before' after' : List α}
    (h : before ++ after = before' ++ after') (hbefore : ∀ b ∈ before, key b < k)
    (hafter : ∀ b ∈ after, k ≤ key b) (hbefore' : ∀ b ∈ before', key b < k)
    (hafter' : ∀ b ∈ after', k ≤ key b) : before = before' ∧ after = after' := by
  induction before generalizing before' with
  | nil =>
    cases before' with
    | nil => exact ⟨rfl, h⟩
    | cons b before' =>
      have hmem : b ∈ after := by
        rw [List.nil_append] at h
        rw [h]
        exact List.mem_cons_self
      exact absurd (hbefore' b List.mem_cons_self) (not_lt.mpr (hafter b hmem))
  | cons b before ih =>
    cases before' with
    | nil =>
      have hmem : b ∈ after' := by
        rw [List.nil_append] at h
        rw [← h]
        exact List.mem_cons_self
      exact absurd (hbefore b List.mem_cons_self) (not_lt.mpr (hafter' b hmem))
    | cons b' before' =>
      rw [List.cons_append, List.cons_append, List.cons.injEq] at h
      obtain ⟨hrest, hafters⟩ := ih h.2 (fun c hc => hbefore c (List.mem_cons_of_mem _ hc))
        fun c hc => hbefore' c (List.mem_cons_of_mem _ hc)
      exact ⟨by rw [h.1, hrest], hafters⟩

/-- Sorting and choosing items commute, also when the chosen ones are sorted by another key that
    orders them alike. -/
theorem filter_sortBy {K' : Type} [LinearOrder K'] {key' : α → K'} {p : α → Bool}
    (hkeys : ∀ a b, p a → p b → (key a ≤ key b ↔ key' a ≤ key' b)) (xs : List α) :
    (sortBy key xs).filter p = sortBy key' (xs.filter p) := by
  induction xs with
  | nil => simp [sortBy]
  | cons a xs ih =>
    obtain ⟨before, after, hcons, htail, hbefore, hafter⟩ := sortBy_cons key a xs
    rw [htail, List.filter_append] at ih
    rw [hcons, List.filter_append]
    by_cases ha : p a
    · obtain ⟨before', after', hcons', htail', hbefore', hafter'⟩ :=
        sortBy_cons key' a (xs.filter p)
      have hlt : ∀ b, p b → (key b < key a ↔ key' b < key' a) := by
        intro b hb
        rw [← not_le, ← not_le, hkeys a b ha hb]
      have hcut := cut_unique key' (ih.trans htail')
        (fun b hb => (hlt b (List.mem_filter.mp hb).2).mp (hbefore b (List.mem_filter.mp hb).1))
        (fun b hb => (hkeys a b ha (List.mem_filter.mp hb).2).mp
          (hafter b (List.mem_filter.mp hb).1))
        hbefore' hafter'
      rw [List.filter_cons_of_pos ha, List.filter_cons_of_pos ha, hcons', hcut.1, hcut.2]
    · rw [List.filter_cons_of_neg ha, List.filter_cons_of_neg ha, ih]

/-- The items in the order of their keys; items with one key in the order they had. -/
structure SortOf (sorted xs : List α) : Prop where
  perm : sorted.Perm xs
  ordered : sorted.Pairwise fun a b => key a ≤ key b
  stable : ∀ k, sorted.filter (fun a => decide (key a = k)) = xs.filter fun a => decide (key a = k)

theorem sortBy_sortOf (xs : List α) : SortOf key (sortBy key xs) xs where
  perm := sortBy_perm key xs
  ordered := sortBy_sorted key xs
  stable := by
    intro k
    have hkeys : ∀ a b, decide (key a = k) = true → decide (key b = k) = true →
        (key a ≤ key b ↔ (() : Unit) ≤ ()) := by
      intro a b ha hb
      simp [of_decide_eq_true ha, of_decide_eq_true hb]
    -- by a key that all of them share, they are in order already
    have hclass : (sortBy key xs).filter (fun a => decide (key a = k))
        = sortBy (fun _ => ()) (xs.filter fun a => decide (key a = k)) := filter_sortBy key hkeys xs
    rw [hclass]
    exact List.mergeSort_of_pairwise (List.pairwise_of_forall fun _ _ => by simp)

end

/-! ## Columns -/

/-- Items in the order of their columns are the columns one behind the other. -/
theorem flatMap_columns {α : Type} {col : α → Nat} {n : Nat} {xs : List α}
    (hsorted : xs.Pairwise fun a b => col a ≤ col b) (hlt : ∀ a ∈ xs, col a < n) :
    xs = (List.range n).flatMap fun c => xs.filter (fun a => decide (col a = c)) := by
  induction n generalizing xs with
  | zero =>
    cases xs with
    | nil => rfl
    | cons a xs => exact absurd (hlt a List.mem_cons_self) (Nat.not_lt_zero _)
  | succ n ih =>
    have hcut : xs = xs.filter (fun a => decide (col a < n))
        ++ xs.filter (fun a => decide (col a = n)) := by
      clear ih
      induction xs with
      | nil => rfl
      | cons a xs ihx =>
        rw [List.pairwise_cons] at hsorted
        have hrest := ihx hsorted.2 fun b hb => hlt b (List.mem_cons_of_mem _ hb)
        have ha := hlt a List.mem_cons_self
        rcases Nat.lt_or_ge (col a) n with hbelow | habove
        · rw [List.filter_cons_of_pos (by simpa using hbelow),
            List.filter_cons_of_neg (by simp; omega), List.cons_append, ← hrest]
        · have hnone : xs.filter (fun b => decide (col b < n)) = [] := by
            apply List.filter_eq_nil_iff.mpr
            intro b hb
            have hle := hsorted.1 b hb
            simp only [decide_eq_true_eq]
            omega
          rw [hnone, List.nil_append] at hrest
          rw [List.filter_cons_of_neg (by simpa using habove),
            List.filter_cons_of_pos (by simp; omega), hnone, List.nil_append, ← hrest]
    have hbelow := @ih (xs.filter (fun a => decide (col a < n)))
      (hsorted.sublist List.filter_sublist) fun a ha => by simpa using (List.mem_filter.mp ha).2
    rw [List.range_succ, List.flatMap_append, List.flatMap_singleton]
    conv_lhs => rw [hcut, hbelow]
    congr 1
    apply List.flatMap_congr
    intro c hc
    rw [List.filter_filter]
    apply List.filter_congr
    intro a _
    have hcn := List.mem_range.mp hc
    by_cases heq : col a = c
    · simp [heq, hcn]
    · simp [heq]

theorem flatMap_range_single {α : Type} (a : α) (n i : Nat) :
    ((List.range n).flatMap fun j => if j = i then [a] else []) = if i < n then [a] else [] := by
  induction n with
  | zero => simp
  | succ n ih =>
    rw [List.range_succ, List.flatMap_append, List.flatMap_singleton, ih]
    rcases Nat.lt_trichotomy i n with hlt | rfl | hgt
    · rw [if_pos hlt, if_neg (by omega), if_pos (by omega), List.append_nil]
    · simp
    · rw [if_neg (by omega), if_neg (by omega), if_neg (by omega), List.append_nil]

/-- Items in any order, and their columns. -/
theorem perm_columns {α : Type} {col : α → Option Nat} {n : Nat} {xs : List α}
    (hlt : ∀ a ∈ xs, ∃ i < n, col a = some i) :
    xs.Perm ((List.range n).flatMap fun i => xs.filter (fun a => decide (col a = some i))) := by
  induction xs with
  | nil => simp
  | cons a xs ih =>
    have hrest := ih fun b hb => hlt b (List.mem_cons_of_mem _ hb)
    obtain ⟨i, hi, hcol⟩ := hlt a List.mem_cons_self
    have hsplit : (fun j => (a :: xs).filter (fun b => decide (col b = some j)))
        = fun j => (if j = i then [a] else []) ++ xs.filter (fun b => decide (col b = some j)) := by
      funext j
      by_cases hj : j = i
      · rw [List.filter_cons_of_pos (by simp [hcol, hj]), if_pos hj, List.singleton_append]
      · rw [List.filter_cons_of_neg (by simpa [hcol] using Ne.symm hj), if_neg hj, List.nil_append]
    have hone := flatMap_range_single a n i
    rw [if_pos hi] at hone
    rw [hsplit]
    refine List.Perm.trans ?_ (List.flatMap_append_perm _ _ _)
    rw [hone, List.singleton_append]
    exact hrest.cons a

/-! ## Grouping -/

section

variable {α : Type} (col : α → Nat)

/-- `entry(col).or_default().push(x)` for each item. -/
def group (xs : List α) : Nat → Option (List α) :=
  xs.foldl (fun groups x =>
    Function.update groups (col x) (some ((groups (col x)).getD [] ++ [x]))) fun _ => none

theorem group_snoc (xs : List α) (x : α) :
    group col (xs ++ [x])
      = Function.update (group col xs) (col x) (some ((group col xs (col x)).getD [] ++ [x])) := by
  rw [group, List.foldl_append]
  rfl

/-- A group is what a filter chooses; there is none where nothing is chosen. -/
theorem group_eq (xs : List α) (c : Nat) :
    group col xs c = if xs.filter (fun a => decide (col a = c)) = [] then none
      else some (xs.filter (fun a => decide (col a = c))) := by
  induction xs using List.reverseRecOn with
  | nil => rfl
  | append_singleton xs x ih =>
    rw [group_snoc, List.filter_append]
    by_cases hc : col x = c
    · subst hc
      have hne : xs.filter (fun a => decide (col a = col x)) ++ [x] ≠ [] := by simp
      rw [Function.update_self, ih, List.filter_cons_of_pos (by simp), List.filter_nil, if_neg hne]
      split
      case isTrue hnone => simp [hnone]
      case isFalse => rfl
    · rw [Function.update_of_ne (Ne.symm hc), ih, List.filter_cons_of_neg (by simpa using hc),
        List.filter_nil, List.append_nil]

end

end StableSort
