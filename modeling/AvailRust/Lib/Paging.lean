/-
  Reading a sorted list page by page, and one item a call.

  A server gives the keys of a list that come after a start key (`after`). When the start key
  is the last one read, these are the keys that are still to be read (`after_read`).

  A reader takes one item a call (`takeItem`): an item that cannot be read stays where it is,
  and past the end there is nothing. `taken_iff` says when all items are read as they should.
-/
import Mathlib.Data.List.Forall2

namespace Paging

/-! ## Pages -/

section

variable {κ : Type} [LT κ] [DecidableLT κ]

/-- The keys after a start key, if there is one. -/
def after (start : Option κ) (keys : List κ) : List κ :=
  keys.filter fun key => start.all (· < key)

/-- After the last key that was read come those that were not. -/
theorem after_read [Std.Asymm (α := κ) (· < ·)] {read unread : List κ}
    (hsorted : (read ++ unread).Pairwise (· < ·)) :
    after read.getLast? (read ++ unread) = unread := by
  rcases List.eq_nil_or_concat read with rfl | ⟨keys, last, rfl⟩
  · exact List.filter_eq_self.mpr fun _ _ => rfl
  · rw [List.concat_eq_append] at hsorted ⊢
    obtain ⟨hread, -, hacross⟩ := List.pairwise_append.mp hsorted
    obtain ⟨-, -, hlast⟩ := List.pairwise_append.mp hread
    have hnone : (keys ++ [last]).filter (fun key => decide (last < key)) = [] := by
      refine List.filter_eq_nil_iff.mpr fun key hkey => ?_
      rw [decide_eq_true_eq]
      rcases List.mem_append.mp hkey with hkey | hkey
      · exact Std.Asymm.asymm _ _ (hlast key hkey last List.mem_cons_self)
      · obtain rfl := List.mem_singleton.mp hkey
        exact fun h => Std.Asymm.asymm _ _ h h
    have hall : unread.filter (fun key => decide (last < key)) = unread := by
      refine List.filter_eq_self.mpr fun key hkey => ?_
      rw [decide_eq_true_eq]
      exact hacross last (List.mem_append_right _ List.mem_cons_self) key hkey
    rw [List.getLast?_concat]
    simp only [after, Option.all_some, List.filter_append]
    rw [← List.filter_append, hnone, hall, List.nil_append]

end

/-! ## Items -/

section

variable {ε ι α : Type}

/-- What one call gives of the items, and the items it leaves. -/
def takeItem (read : ι → Except ε α) : List ι → Except ε (Option α) × List ι
  | [] => (.ok none, [])
  | item :: items =>
    match read item with
    | .error e => (.error e, item :: items)
    | .ok a => (.ok (some a), items)

/-- What `n` calls give. -/
def taken (read : ι → Except ε α) : Nat → List ι → List (Except ε (Option α))
  | 0, _ => []
  | n + 1, items => (takeItem read items).1 :: taken read n (takeItem read items).2

theorem takeItem_error {read : ι → Except ε α} {item : ι} {items : List ι} {e : ε}
    (h : read item = .error e) : takeItem read (item :: items) = (.error e, item :: items) := by
  simp only [takeItem, h]

theorem takeItem_ok {read : ι → Except ε α} {item : ι} {items : List ι} {a : α}
    (h : read item = .ok a) : takeItem read (item :: items) = (.ok (some a), items) := by
  simp only [takeItem, h]

theorem takeItem_none {read : ι → Except ε α} {items : List ι} :
    (takeItem read items).1 = .ok none ↔ items = [] := by
  rcases items with _ | ⟨item, items⟩
  · exact ⟨fun _ => rfl, fun _ => rfl⟩
  · rcases hread : read item with e | a
    · rw [takeItem_error hread]
      exact ⟨nofun, nofun⟩
    · rw [takeItem_ok hread]
      exact ⟨nofun, nofun⟩

theorem takeItem_some {read : ι → Except ε α} {items : List ι} {a : α} :
    (takeItem read items).1 = .ok (some a) ↔ ∃ item rest, items = item :: rest ∧
      read item = .ok a ∧ (takeItem read items).2 = rest := by
  constructor
  · intro h
    rcases items with _ | ⟨item, items⟩
    · cases h
    · rcases hread : read item with e | b
      · rw [takeItem_error hread] at h
        cases h
      · rw [takeItem_ok hread] at h ⊢
        cases h
        exact ⟨item, items, rfl, hread, rfl⟩
  · rintro ⟨item, rest, rfl, hread, -⟩
    rw [takeItem_ok hread]

/-- One call more than there should be results gives these and then nothing exactly when the
    items are read as these, one by one. -/
theorem taken_iff {read : ι → Except ε α} {items : List ι} {results : List α} :
    taken read (results.length + 1) items = results.map (.ok ∘ some) ++ [.ok none] ↔
      List.Forall₂ (fun item a => read item = .ok a) items results := by
  induction results generalizing items with
  | nil =>
    simp only [List.length_nil, taken, List.map_nil, List.nil_append, List.cons.injEq, and_true]
    rw [takeItem_none, List.forall₂_nil_right_iff]
  | cons a results ih =>
    rw [List.length_cons, taken, List.map_cons, List.cons_append, List.cons.injEq,
      Function.comp_apply, takeItem_some, List.forall₂_cons_right_iff]
    constructor
    · rintro ⟨⟨item, rest, rfl, hread, hrest⟩, htaken⟩
      rw [hrest] at htaken
      exact ⟨item, rest, hread, ih.mp htaken, rfl⟩
    · rintro ⟨item, rest, hread, hforall, rfl⟩
      have hrest : (takeItem read (item :: rest)).2 = rest := by rw [takeItem_ok hread]
      refine ⟨⟨item, rest, rfl, hread, hrest⟩, ?_⟩
      rw [hrest]
      exact ih.mpr hforall

/-- The calls that succeeded, with what they gave. -/
def succeeded {κ : Type} (out : List (κ × Except ε α)) : List (κ × α) :=
  out.filterMap fun p => match p.2 with
    | .ok x => some (p.1, x)
    | .error _ => none

/-- How many calls failed. -/
def failed {κ : Type} (out : List (κ × Except ε α)) : Nat :=
  out.countP fun p => match p.2 with
    | .ok _ => false
    | .error _ => true

section

variable {κ : Type} {out : List (κ × Except ε α)} {c : κ}

theorem succeeded_concat_ok {x : α} :
    succeeded (out ++ [(c, .ok x)]) = succeeded out ++ [(c, x)] := by
  unfold succeeded
  rw [List.filterMap_append]
  rfl

theorem succeeded_concat_error {e : ε} : succeeded (out ++ [(c, .error e)]) = succeeded out := by
  unfold succeeded
  rw [List.filterMap_append]
  exact List.append_nil _

theorem failed_concat_ok {x : α} : failed (out ++ [(c, .ok x)]) = failed out := by
  unfold failed
  rw [List.countP_append]
  rfl

theorem failed_concat_error {e : ε} : failed (out ++ [(c, .error e)]) = failed out + 1 := by
  unfold failed
  rw [List.countP_append]
  rfl

end

/-- An item of a list with one more at its end. -/
theorem getElem?_concat {xs : List α} {a b : α} {i : Nat}
    (h : (xs ++ [a])[i]? = some b) : xs[i]? = some b ∨ i = xs.length ∧ a = b := by
  rcases Nat.lt_trichotomy i xs.length with hlt | heq | hgt
  · rw [List.getElem?_append_left hlt] at h
    exact .inl h
  · subst heq
    rw [List.getElem?_concat_length] at h
    exact .inr ⟨rfl, Option.some.inj h⟩
  · rw [List.getElem?_eq_none (by rw [List.length_append]; exact hgt)] at h
    cases h

/-- An item of a list that is related to results has a result. -/
theorem exists_result {R : ι → α → Prop} {items : List ι} {results : List α}
    (h : List.Forall₂ R items results) : ∀ item ∈ items, ∃ a, R item a := by
  induction h with
  | nil => exact fun _ hmem => absurd hmem List.not_mem_nil
  | cons hfirst _ ih => exact List.forall_mem_cons.mpr ⟨⟨_, hfirst⟩, ih⟩

/-- Items that are related to their results one by one have a property the relation decides
    exactly when all the results have it. -/
theorem forall₂_iff_of_related {S T : ι → α → Prop} {Q : α → Prop} {items : List ι}
    {results : List α} (hS : List.Forall₂ S items results) (h : ∀ i a, S i a → (T i a ↔ Q a)) :
    List.Forall₂ T items results ↔ ∀ a ∈ results, Q a := by
  induction hS with
  | nil => exact ⟨fun _ => nofun, fun _ => .nil⟩
  | cons hfirst _ ih =>
    rw [List.forall₂_cons, List.forall_mem_cons, h _ _ hfirst, ih]

end

end Paging
