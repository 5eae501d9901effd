/-
  Programs in dialogue that may stop with an error.

  A step is an attempt to ask, whose error is wrapped, or a check of what is known already. A run
  that ends well is taken apart step by step (`bind_eq_ok`, `attempt_eq_ok`, `check_eq_ok`). `Fixed`
  says that a program has one result when all moves of the environment are of one kind.
-/
import AvailRust.Lib.Dialogue

namespace Dialogue

/-- A program that may stop with an error. -/
abbrev Fallible (R E ε : Type) := ExceptT ε (Prog R E)

namespace Fallible

variable {R E ε ε' α β : Type}

/-- Ask, and stop with the wrapped error if that fails. -/
def attempt (wrap : ε' → ε) (x : Prog R E (Except ε' α)) : Fallible R E ε α :=
  ExceptT.mk (do
    let result ← x
    pure (result.mapError wrap))

/-- Stop with the wrapped error if a check fails. -/
def check (wrap : ε' → ε) (x : Except ε' α) : Fallible R E ε α :=
  ExceptT.mk (pure (x.mapError wrap))

/-- `.ok_or(error)` -/
def okOr (error : ε) (x : Option α) : Except ε α :=
  match x with
  | none => .error error
  | some a => .ok a

/-- Stop if a condition holds. -/
def refuseIf (condition : Prop) [Decidable condition] (error : ε) : Except ε Unit :=
  if condition then .error error else .ok ()

theorem okOr_eq_ok {error : ε} {x : Option α} {a : α} : okOr error x = .ok a ↔ x = some a := by
  cases x with
  | none => simp [okOr]
  | some b => simp [okOr]

theorem refuseIf_eq_ok {condition : Prop} [Decidable condition] {error : ε} {u : Unit} :
    refuseIf condition error = .ok u ↔ ¬ condition := by
  unfold refuseIf
  split
  case isTrue h => simp [h]
  case isFalse h => simp [h]

theorem mapError_eq_ok {wrap : ε' → ε} {x : Except ε' α} {a : α} :
    x.mapError wrap = .ok a ↔ x = .ok a := by
  cases x with
  | error e =>
    constructor
    · intro h
      cases h
    · intro h
      cases h
  | ok b => exact ⟨fun h => congrArg _ (Except.ok.inj h), fun h => congrArg _ (Except.ok.inj h)⟩

theorem bind_eq_ok {x : Fallible R E ε α} {f : α → Fallible R E ε β} {w w' : World R E} {b : β} :
    (x >>= f).run w = some (.ok b, w') ↔
      ∃ a w1, x.run w = some (.ok a, w1) ∧ (f a).run w1 = some (.ok b, w') := by
  rw [ExceptT.run_bind, Dialogue.bind_eq_some]
  constructor
  · rintro ⟨result, w1, hx, hf⟩
    cases result with
    | error e =>
      have hpure := (pure_eq_some.mp hf).1
      cases hpure
    | ok a => exact ⟨a, w1, hx, hf⟩
  · rintro ⟨a, w1, hx, hf⟩
    exact ⟨.ok a, w1, hx, hf⟩

/-- Every run, also one that ends with an error. -/
theorem bind_cases {x : Fallible R E ε α} {f : α → Fallible R E ε β} {w w' : World R E}
    {r : Except ε β} (h : (x >>= f).run w = some (r, w')) :
    (∃ e, x.run w = some (.error e, w') ∧ r = .error e) ∨
      ∃ a w1, x.run w = some (.ok a, w1) ∧ (f a).run w1 = some (r, w') := by
  rw [ExceptT.run_bind, Dialogue.bind_eq_some] at h
  obtain ⟨result, w1, hx, hf⟩ := h
  cases result with
  | error e =>
    obtain ⟨rfl, rfl⟩ := pure_eq_some.mp hf
    exact .inl ⟨e, hx, rfl⟩
  | ok a => exact .inr ⟨a, w1, hx, hf⟩

theorem attempt_eq_lift {wrap : ε' → ε} {x : Prog R E (Except ε' α)} :
    attempt wrap x = (ExceptT.lift x >>= check wrap : Fallible R E ε α) := by
  apply ExceptT.ext
  rw [ExceptT.run_bind_lift]
  rfl

theorem attempt_eq_ok {wrap : ε' → ε} {x : Prog R E (Except ε' α)} {w w' : World R E} {a : α} :
    (attempt wrap x).run w = some (.ok a, w') ↔ x w = some (.ok a, w') := by
  show (x >>= fun result => pure (result.mapError wrap)) w = _ ↔ _
  rw [Dialogue.bind_eq_some]
  constructor
  · rintro ⟨result, w1, hx, hpure⟩
    obtain ⟨hresult, rfl⟩ := pure_eq_some.mp hpure
    rwa [mapError_eq_ok.mp hresult] at hx
  · intro hx
    exact ⟨.ok a, w', hx, rfl⟩

theorem check_eq_ok {wrap : ε' → ε} {x : Except ε' α} {w w' : World R E} {a : α} :
    (check wrap x : Fallible R E ε α).run w = some (.ok a, w') ↔ x = .ok a ∧ w = w' := by
  show (pure (x.mapError wrap) : Prog R E _) w = _ ↔ _
  rw [pure_eq_some, mapError_eq_ok]

theorem pure_eq_ok {w w' : World R E} {a b : α} :
    (pure a : Fallible R E ε α).run w = some (.ok b, w') ↔ a = b ∧ w = w' := by
  show (pure (.ok a) : Prog R E (Except ε α)) w = _ ↔ _
  rw [pure_eq_some, Except.ok.injEq]

theorem lift_eq_ok {x : Prog R E α} {w w' : World R E} {a : α} :
    (ExceptT.lift x : Fallible R E ε α).run w = some (.ok a, w') ↔ x w = some (a, w') := by
  have hlift : (ExceptT.lift x : Fallible R E ε α).run = x >>= fun a => pure (.ok a) :=
    map_eq_pure_bind _ x
  rw [hlift, Dialogue.bind_eq_some]
  constructor
  · rintro ⟨b, w1, hx, hpure⟩
    obtain ⟨hresult, rfl⟩ := pure_eq_some.mp hpure
    rwa [Except.ok.inj hresult] at hx
  · intro hx
    exact ⟨a, w', hx, rfl⟩

/-! ## Frames -/

section

variable {γ : Type} {g : World R E → γ}

theorem Keeps.attempt {x : Prog R E (Except ε' α)} (hx : Keeps g x) (wrap : ε' → ε) :
    Keeps g (attempt wrap x).run :=
  hx.bind fun _ => .pure _

theorem Keeps.check (wrap : ε' → ε) (x : Except ε' α) :
    Keeps g (check wrap x : Fallible R E ε α).run :=
  .pure _

theorem Keeps.andThen {x : Fallible R E ε α} {f : α → Fallible R E ε β} (hx : Keeps g x.run)
    (hf : ∀ a, Keeps g (f a).run) : Keeps g (x >>= f).run := by
  rw [ExceptT.run_bind]
  refine hx.bind fun result => ?_
  cases result with
  | error e => exact .pure _
  | ok a => exact hf a

end

/-! ## One answer -/

section

variable {P : E → Prop}

/-- On moves of the kind `P` the program can succeed with `answer` only. -/
def Settles (P : E → Prop) (m : Prog R E (Except ε α)) (answer : Option α) : Prop :=
  ∀ w x w', w.Plays P → m w = some (x, w') → w'.Plays P ∧ ∀ a, x = .ok a → answer = some a

/-- On moves of the kind `P` the program succeeds with one result, if it does. -/
def Settled (P : E → Prop) (m : Prog R E (Except ε α)) : Prop := ∃ answer, Settles P m answer

/-- Two runs that succeed end alike. -/
theorem Settled.unique {m : Prog R E (Except ε α)} (h : Settled P m) {w1 w2 w1' w2' : World R E}
    {a b : α} (hw1 : w1.Plays P) (hw2 : w2.Plays P) (h1 : m w1 = some (.ok a, w1'))
    (h2 : m w2 = some (.ok b, w2')) : a = b ∧ w1'.Plays P ∧ w2'.Plays P := by
  obtain ⟨answer, hsettles⟩ := h
  obtain ⟨hw1', ha⟩ := hsettles w1 _ w1' hw1 h1
  obtain ⟨hw2', hb⟩ := hsettles w2 _ w2' hw2 h2
  have hsame := (ha a rfl).symm.trans (hb b rfl)
  exact ⟨Option.some.inj hsame, hw1', hw2'⟩

theorem Settled.plays {m : Prog R E (Except ε α)} (h : Settled P m) {w w' : World R E}
    {x : Except ε α} (hw : w.Plays P) (hrun : m w = some (x, w')) : w'.Plays P := by
  obtain ⟨answer, hsettles⟩ := h
  exact (hsettles w x w' hw hrun).1

theorem Settles.error (e : ε) : Settles P (pure (.error e) : Prog R E (Except ε α)) none := by
  intro w x w' hw h
  obtain ⟨rfl, rfl⟩ := pure_eq_some.mp h
  refine ⟨hw, fun a ha => ?_⟩
  cases ha

theorem Settled.pure (x : Except ε α) : Settled P (Pure.pure x : Prog R E (Except ε α)) := by
  cases x with
  | error e => exact ⟨none, .error e⟩
  | ok b =>
    refine ⟨some b, ?_⟩
    intro w x w' hw h
    obtain ⟨rfl, rfl⟩ := pure_eq_some.mp h
    refine ⟨hw, fun a ha => ?_⟩
    rw [Except.ok.inj ha]

/-- A program that goes on with a result, and fails without one. -/
theorem Settled.bind {m : Prog R E (Except ε α)} {k : Except ε α → Prog R E (Except ε' β)}
    (hm : Settled P m) (herror : ∀ e, Settles P (k (.error e)) none)
    (hok : ∀ a, Settled P (k (.ok a))) : Settled P (m >>= k) := by
  obtain ⟨answer, hm⟩ := hm
  have hnext : ∃ next, ∀ a, answer = some a → Settles P (k (.ok a)) next := by
    cases answer with
    | none =>
      refine ⟨none, fun a ha => ?_⟩
      cases ha
    | some a =>
      obtain ⟨next, hnext⟩ := hok a
      refine ⟨next, fun b hb => ?_⟩
      rwa [← Option.some.inj hb]
  obtain ⟨next, hnext⟩ := hnext
  refine ⟨next, ?_⟩
  intro w y w' hw h
  obtain ⟨x, w1, hrun, h⟩ := Dialogue.bind_eq_some.mp h
  obtain ⟨hw1, hx⟩ := hm w x w1 hw hrun
  cases x with
  | ok a => exact hnext a (hx a rfl) w1 y w' hw1 h
  | error e =>
    obtain ⟨hw', hy⟩ := herror e w1 y w' hw1 h
    refine ⟨hw', fun b hb => ?_⟩
    cases hy b hb

theorem Settled.attempt {x : Prog R E (Except ε' α)} (hx : Settled P x) (wrap : ε' → ε) :
    Settled P (attempt wrap x).run :=
  hx.bind (fun e => .error (wrap e)) fun _ => .pure _

theorem Settled.check (wrap : ε' → ε) (x : Except ε' α) :
    Settled P (check wrap x : Fallible R E ε α).run :=
  .pure _

theorem Settled.andThen {x : Fallible R E ε α} {f : α → Fallible R E ε β} (hx : Settled P x.run)
    (hf : ∀ a, Settled P (f a).run) : Settled P (x >>= f).run := by
  rw [ExceptT.run_bind]
  exact hx.bind .error hf

end

end Fallible

end Dialogue
