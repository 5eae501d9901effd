/-
  Results that may be errors, and loops over a list whose body may fail.

  A loop ends if its body does for each item. `forall₂_of_mapM` says so for a loop that collects
  its results, `pushes_eq_ok` for one that pushes them onto what it holds, in order;
  `exists_pushes_iff` forgets the results, and `appends_of_forall` is the case where they are
  known.
-/
import Mathlib.Data.List.Forall2

namespace Results

variable {α β γ ε σ : Type}

/-! ## One step -/

theorem bind_ok_iff {x : Except ε α} {g : α → Except ε β} {y : β} :
    x >>= g = .ok y ↔ ∃ a, x = .ok a ∧ g a = .ok y := by
  cases x with
  | error e =>
    have herror : (.error e : Except ε α) >>= g = .error e := rfl
    simp only [herror, reduceCtorEq, false_and, exists_false]
  | ok a =>
    have hok : (.ok a : Except ε α) >>= g = g a := rfl
    simp only [hok, Except.ok.injEq, exists_eq_left']

theorem map_ok_iff {x : Except ε α} {g : α → β} {y : β} :
    g <$> x = .ok y ↔ ∃ a, x = .ok a ∧ g a = y := by
  cases x with
  | error e =>
    have herror : g <$> (.error e : Except ε α) = .error e := rfl
    simp only [herror, reduceCtorEq, false_and, exists_false]
  | ok a =>
    have hok : g <$> (.ok a : Except ε α) = .ok (g a) := rfl
    simp only [hok, Except.ok.injEq, exists_eq_left']

/-! ## Loops that collect -/

section

variable {f : α → Except ε β} {xs : List α} {ys : List β}

theorem forall₂_of_mapM (h : xs.mapM f = .ok ys) :
    List.Forall₂ (fun x y => f x = .ok y) xs ys := by
  induction xs generalizing ys with
  | nil =>
    cases h
    exact .nil
  | cons x xs ih =>
    rw [List.mapM_cons] at h
    obtain ⟨y, hy, h⟩ := bind_ok_iff.mp h
    obtain ⟨ys, hys, h⟩ := bind_ok_iff.mp h
    cases h
    exact .cons hy (ih hys)

theorem mapM_head? (h : List.Forall₂ (fun x y => f x = .ok y) xs ys) :
    xs.head?.mapM f = .ok ys.head? := by
  cases h with
  | nil => rfl
  | cons hx _ =>
    show some <$> f _ = _
    rw [hx]
    rfl

theorem mapM_getLast? (h : List.Forall₂ (fun x y => f x = .ok y) xs ys) :
    xs.getLast?.mapM f = .ok ys.getLast? := by
  rw [← List.head?_reverse, ← List.head?_reverse]
  exact mapM_head? (List.forall₂_reverse_iff.mpr h)

end

/-- What a loop's body returns has what it is known to have, item by item. -/
theorem map_eq_of_forall₂ {R : α → β → Prop} {g : β → γ} {k : α → γ} {xs : List α}
    {ys : List β} (h : List.Forall₂ R xs ys) (heq : ∀ x y, R x y → g y = k x) :
    ys.map g = xs.map k := by
  induction h with
  | nil => rfl
  | cons hxy _ ih => rw [List.map_cons, List.map_cons, heq _ _ hxy, ih]

/-- What is read of each result is known from its item. -/
theorem mapM_of_forall₂ {R : α → β → Prop} {g : β → Except ε γ} {k : α → γ}
    {xs : List α} {ys : List β} (h : List.Forall₂ R xs ys)
    (heq : ∀ x ∈ xs, ∀ y, R x y → g y = .ok (k x)) : ys.mapM g = .ok (xs.map k) := by
  induction h with
  | nil => rfl
  | @cons x y xs ys hxy _ ih =>
    have hrest := ih fun x hx => heq x (List.mem_cons_of_mem _ hx)
    rw [List.mapM_cons, heq x List.mem_cons_self y hxy, hrest]
    rfl

/-! ## Loops that push -/

section

variable {f : α → Except ε β} {push : σ → β → σ}

/-- The loop ends if the body does for each item, and what it returns is pushed in order. -/
theorem pushes_eq_ok {xs : List α} {acc out : σ} :
    xs.foldlM (fun acc x => push acc <$> f x) acc = .ok out ↔
      ∃ ys, List.Forall₂ (fun x y => f x = .ok y) xs ys ∧ out = ys.foldl push acc := by
  induction xs generalizing acc with
  | nil =>
    simp only [List.foldlM_nil, List.forall₂_nil_left_iff, exists_eq_left, List.foldl_nil]
    constructor
    · intro h
      exact (Except.ok.inj h).symm
    · intro h
      rw [h]
      rfl
  | cons x xs ih =>
    rw [List.foldlM_cons, bind_ok_iff]
    simp only [map_ok_iff, ih]
    constructor
    · rintro ⟨_, ⟨y, hy, rfl⟩, ys, hys, hout⟩
      exact ⟨y :: ys, .cons hy hys, hout⟩
    · rintro ⟨_, hall, hout⟩
      cases hall with
      | @cons _ y _ ys hy hys => exact ⟨push acc y, ⟨y, hy, rfl⟩, ys, hys, hout⟩

/-- The loop ends if its body does for each item. -/
theorem exists_pushes_iff {xs : List α} {acc : σ} :
    (∃ out, xs.foldlM (fun acc x => push acc <$> f x) acc = .ok out) ↔
      ∀ x ∈ xs, ∃ y, f x = .ok y := by
  simp only [pushes_eq_ok]
  constructor
  · rintro ⟨_, ys, hys, -⟩
    induction hys with
    | nil => simp
    | @cons x y xs ys hxy _ ih =>
      intro x' hx'
      rcases List.mem_cons.mp hx' with rfl | htail
      · exact ⟨y, hxy⟩
      · exact ih x' htail
  · intro h
    have hys : ∃ ys, List.Forall₂ (fun x y => f x = .ok y) xs ys := by
      induction xs with
      | nil => exact ⟨[], .nil⟩
      | cons x xs ih =>
        obtain ⟨y, hy⟩ := h x List.mem_cons_self
        obtain ⟨ys, hys⟩ := ih fun x' hx' => h x' (List.mem_cons_of_mem _ hx')
        exact ⟨y :: ys, .cons hy hys⟩
    obtain ⟨ys, hys⟩ := hys
    exact ⟨_, ys, hys, rfl⟩

/-- A loop that appends what its body returns, where that is known, ends. -/
theorem appends_of_forall {f : α → Except ε (List β)} {k : α → List β} {xs : List α}
    (h : ∀ x ∈ xs, f x = .ok (k x)) (acc : List β) :
    xs.foldlM (fun acc x => (acc ++ ·) <$> f x) acc = .ok (acc ++ xs.flatMap k) := by
  have hys : List.Forall₂ (fun x y => f x = .ok y) xs (xs.map k) := by
    rw [List.forall₂_map_right_iff, List.forall₂_same]
    exact h
  refine pushes_eq_ok.mpr ⟨xs.map k, hys, ?_⟩
  rw [List.foldl_append_eq_append, List.flatMap_def, List.map_id']

/-- A loop that appends each of its results collects them. -/
theorem foldlM_snoc {f : α → Except ε β} (xs : List α) (acc : List β) :
    xs.foldlM (fun acc x => (acc ++ [·]) <$> f x) acc = (acc ++ ·) <$> xs.mapM f := by
  induction xs generalizing acc with
  | nil =>
    show Except.ok acc = .ok (acc ++ [])
    rw [List.append_nil]
  | cons x xs ih =>
    rw [List.foldlM_cons, List.mapM_cons]
    cases f x with
    | error e => rfl
    | ok y =>
      show xs.foldlM _ (acc ++ [y]) = (acc ++ ·) <$> ((y :: ·) <$> xs.mapM f)
      rw [ih]
      cases xs.mapM f with
      | error e => rfl
      | ok ys =>
        show Except.ok (acc ++ [y] ++ ys) = .ok (acc ++ y :: ys)
        rw [List.append_assoc, List.singleton_append]

end

end Results
