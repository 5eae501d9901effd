/-
  Many queues kept in one list.

  `queue key items` is the queue of one key: its items in order. A machine with such a list takes
  the first item of a key, wherever it stands, and puts new items at the end. `IsQueues` is what
  makes a machine a family of queues; a run of one, seen through the operations of one key, is a
  run of a plain queue (`run_refines`), and a plain queue gives out what was put in, once and in
  order (`fifo_conserves`).
-/
import Mathlib.Data.List.Basic

namespace Queues

variable {κ α σ : Type}

/-- An operation on a queue. -/
inductive Move (α : Type) where
  | put (item : α)
  | take

/-! ## One queue -/

/-- What a queue gives for each `take`, and what is left in it. -/
def fifo : List (Move α) → List α → List (Option α) × List α
  | [], items => ([], items)
  | .put item :: moves, items => fifo moves (items ++ [item])
  | .take :: moves, items =>
    let (given, left) := fifo moves items.tail
    (items.head? :: given, left)

theorem fifo_take (moves : List (Move α)) (items : List α) :
    fifo (.take :: moves) items
      = (items.head? :: (fifo moves items.tail).1, (fifo moves items.tail).2) := rfl

/-- What is put into a queue. -/
def added (moves : List (Move α)) : List α :=
  moves.filterMap fun move =>
    match move with
    | .put item => some item
    | .take => none

/-- What was in the queue and what was put into it is given out in this order, or left. -/
theorem fifo_conserves (moves : List (Move α)) (items : List α) :
    (fifo moves items).1.filterMap id ++ (fifo moves items).2 = items ++ added moves := by
  induction moves generalizing items with
  | nil => simp [fifo, added]
  | cons move moves ih =>
    cases move with
    | put item =>
      have hadded : added (.put item :: moves) = item :: added moves := rfl
      rw [fifo, ih, hadded, List.append_assoc]
      rfl
    | take =>
      have hadded : added (.take :: moves) = added moves := rfl
      rw [hadded]
      cases items with
      | nil => exact ih []
      | cons item items =>
        have hrest := ih items
        simp only [fifo, List.tail_cons, List.head?_cons]
        rw [List.filterMap_cons, List.cons_append, ← hrest]
        rfl

/-! ## Many queues -/

variable [DecidableEq κ]

/-- The items of one key, in order. -/
def queue (key : κ) (items : List (κ × α)) : List α :=
  (items.filter fun item => item.1 = key).map Prod.snd

theorem queue_append (key : κ) (items items' : List (κ × α)) :
    queue key (items ++ items') = queue key items ++ queue key items' := by
  unfold queue
  rw [List.filter_append, List.map_append]

theorem queue_cons_self (key : κ) (item : α) (items : List (κ × α)) :
    queue key ((key, item) :: items) = item :: queue key items := by
  unfold queue
  rw [List.filter_cons_of_pos (by simp), List.map_cons]

theorem queue_cons_of_ne {key other : κ} (h : other ≠ key) (item : α) (items : List (κ × α)) :
    queue key ((other, item) :: items) = queue key items := by
  unfold queue
  rw [List.filter_cons_of_neg (by simpa using h)]

/-- Where a key is first found, the first item of its queue stands. -/
theorem head?_queue_of_findIdx? {key : κ} {items : List (κ × α)} {pos : Nat}
    (h : items.findIdx? (fun item => item.1 = key) = some pos) :
    (queue key items).head? = items[pos]?.map Prod.snd := by
  induction items generalizing pos with
  | nil => simp at h
  | cons item items ih =>
    obtain ⟨found, value⟩ := item
    by_cases heq : found = key
    · subst heq
      have hpos : pos = 0 := by simpa [List.findIdx?_cons] using h.symm
      rw [hpos, queue_cons_self]
      rfl
    · simp only [List.findIdx?_cons, heq, decide_false, Bool.false_eq_true, if_false,
        Option.map_eq_some_iff] at h
      obtain ⟨p, hp, rfl⟩ := h
      rw [queue_cons_of_ne heq, ih hp]
      rfl

theorem queue_of_findIdx?_none {key : κ} {items : List (κ × α)}
    (h : items.findIdx? (fun item => item.1 = key) = none) : queue key items = [] := by
  have hnone : items.filter (fun item => decide (item.1 = key)) = [] := by
    rw [List.filter_eq_nil_iff]
    simpa using h
  unfold queue
  rw [hnone]
  rfl

/-- Without it, the others are left, and nothing happens to the other queues. -/
theorem queue_eraseIdx {key : κ} {items : List (κ × α)} {pos : Nat}
    (h : items.findIdx? (fun item => item.1 = key) = some pos) (other : κ) :
    queue other (items.eraseIdx pos)
      = if other = key then (queue key items).tail else queue other items := by
  induction items generalizing pos with
  | nil => simp at h
  | cons item items ih =>
    obtain ⟨found, value⟩ := item
    by_cases heq : found = key
    · subst heq
      have hpos : pos = 0 := by simpa [List.findIdx?_cons] using h.symm
      subst hpos
      rw [List.eraseIdx_cons_zero, queue_cons_self, List.tail_cons]
      split
      · next h => rw [h]
      · next h => rw [queue_cons_of_ne (Ne.symm h)]
    · simp only [List.findIdx?_cons, heq, decide_false, Bool.false_eq_true, if_false,
        Option.map_eq_some_iff] at h
      obtain ⟨p, hp, rfl⟩ := h
      rw [List.eraseIdx_cons_succ, queue_cons_of_ne heq]
      have hrest := ih hp
      by_cases hsame : found = other
      · subst hsame
        rw [queue_cons_self, queue_cons_self, hrest, if_neg heq, if_neg heq]
      · rw [queue_cons_of_ne hsame, queue_cons_of_ne hsame, hrest]

/-! ## A machine with many queues -/

/-- A machine that keeps a queue for each key: `put` puts an item at the end of its own, `take`
    gives and removes the first of its own, and neither touches another one. -/
structure IsQueues (put : κ → α → σ → σ) (take : κ → σ → Option α × σ)
    (contents : κ → σ → List α) : Prop where
  put : ∀ key item s other,
    contents other (put key item s) = contents other s ++ if other = key then [item] else []
  given : ∀ key s, (take key s).1 = (contents key s).head?
  left : ∀ key s other, contents other (take key s).2
    = if other = key then (contents key s).tail else contents other s

/-- A run of the machine, its operations with their keys: what each `take` gave, and the last
    state. -/
def run (put : κ → α → σ → σ) (take : κ → σ → Option α × σ) :
    List (κ × Move α) → σ → List (κ × Option α) × σ
  | [], s => ([], s)
  | (key, .put item) :: ops, s => run put take ops (put key item s)
  | (key, .take) :: ops, s =>
    let (given, s') := run put take ops (take key s).2
    ((key, (take key s).1) :: given, s')

omit [DecidableEq κ] in
theorem run_take (put : κ → α → σ → σ) (take : κ → σ → Option α × σ) (key : κ)
    (ops : List (κ × Move α)) (s : σ) :
    run put take ((key, .take) :: ops) s
      = ((key, (take key s).1) :: (run put take ops (take key s).2).1,
        (run put take ops (take key s).2).2) := rfl

/-- Seen through one key, a run is a run of one queue. -/
theorem run_refines {put : κ → α → σ → σ} {take : κ → σ → Option α × σ}
    {contents : κ → σ → List α} (h : IsQueues put take contents) (key : κ)
    (ops : List (κ × Move α)) (s : σ) :
    (queue key (run put take ops s).1, contents key (run put take ops s).2)
      = fifo (queue key ops) (contents key s) := by
  induction ops generalizing s with
  | nil => rfl
  | cons op ops ih =>
    obtain ⟨other, move⟩ := op
    cases move with
    | put item =>
      rw [run, ih, h.put]
      by_cases heq : other = key
      · subst heq
        rw [queue_cons_self, if_pos rfl]
        rfl
      · rw [queue_cons_of_ne heq, if_neg (Ne.symm heq), List.append_nil]
    | take =>
      have hrest := ih (take other s).2
      rw [h.left] at hrest
      rw [run_take]
      by_cases heq : other = key
      · subst heq
        rw [if_pos rfl] at hrest
        rw [queue_cons_self, queue_cons_self, fifo_take, ← hrest, h.given]
      · rw [if_neg (Ne.symm heq)] at hrest
        rw [queue_cons_of_ne heq, queue_cons_of_ne heq, ← hrest]

/-- What is given out for a key has to do with the operations on it alone. -/
theorem run_alone {put : κ → α → σ → σ} {take : κ → σ → Option α × σ}
    {contents : κ → σ → List α} (h : IsQueues put take contents) (key : κ)
    (ops : List (κ × Move α)) (s : σ) :
    queue key (run put take ops s).1
      = queue key (run put take (ops.filter fun op => op.1 = key) s).1 := by
  have hsame : queue key (ops.filter fun op => op.1 = key) = queue key ops := by
    unfold queue
    rw [List.filter_filter]
    simp only [Bool.and_self]
  have hall := congrArg Prod.fst (run_refines h key ops s)
  have halone := congrArg Prod.fst (run_refines h key (ops.filter fun op => op.1 = key) s)
  rw [hsame] at halone
  exact hall.trans halone.symm

/-- Everything that was put in under a key is given out under it, in order, or left. -/
theorem run_conserves {put : κ → α → σ → σ} {take : κ → σ → Option α × σ}
    {contents : κ → σ → List α} (h : IsQueues put take contents) (key : κ)
    (ops : List (κ × Move α)) (s : σ) :
    (queue key (run put take ops s).1).filterMap id ++ contents key (run put take ops s).2
      = contents key s ++ added (queue key ops) := by
  rw [← fifo_conserves, ← run_refines h]

end Queues
