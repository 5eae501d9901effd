/-
  Objects that follow a reference.

  A `Reference` says what each call of an object returns and what state it leads to, with
  nothing of how the object does it. An object follows it as long as the calls are those it
  is `FollowedBy`; then its runs and those of the reference return the same (`run_iff`).
-/
import AvailRust.Lib.Dialogue

namespace Dialogue

variable {R E σ ρ ι A ε : Type}

structure Reference (ι ρ A : Type) where
  returns : A → ι → ρ
  next : A → ι → A

namespace Reference

/-- What the calls return, one after the other. -/
def run (m : Reference ι ρ A) : A → List ι → List ρ
  | _, [] => []
  | a, i :: is => m.returns a i :: m.run (m.next a i) is

/-- Every call is one that `P` allows in the state in which it is made. -/
def Along (m : Reference ι ρ A) (P : A → ι → Prop) : A → List ι → Prop
  | _, [] => True
  | a, i :: is => P a i ∧ m.Along P (m.next a i) is

/-- From related states, a call that succeeds returns what the reference does and leads to
    related states, if it is allowed; if not, it returns something else. -/
structure FollowedBy (m : Reference ι ρ A) (op : ι → σ → Prog R E (Except ε ρ × σ))
    (P : A → ι → Prop) (Rel : A → σ → World R E → Prop) : Prop where
  follows : ∀ {a s w i r s' w'}, Rel a s w → P a i → op i s w = some ((.ok r, s'), w') →
    r = m.returns a i ∧ Rel (m.next a i) s' w'
  leaves : ∀ {a s w i r s' w'}, Rel a s w → ¬ P a i → op i s w = some ((.ok r, s'), w') →
    r ≠ m.returns a i

variable {m : Reference ι ρ A} {op : ι → σ → Prog R E (Except ε ρ × σ)} {P : A → ι → Prop}
  {Rel : A → σ → World R E → Prop}

theorem along_true (m : Reference ι ρ A) (a : A) (is : List ι) :
    m.Along (fun _ _ => True) a is := by
  induction is generalizing a with
  | nil => trivial
  | cons i is ih => exact ⟨trivial, ih (m.next a i)⟩

/-- A run in which every call succeeds returns what the reference does exactly when its calls
    are allowed. -/
theorem FollowedBy.run_iff (hm : m.FollowedBy op P Rel) {a : A} {s t : σ} {w w' : World R E}
    {is : List ι} {out : List (ι × Except ε ρ)} (hrel : Rel a s w)
    (h : perform op is s w = some ((out, t), w')) (hok : ∀ q ∈ out, ∃ r, q.2 = .ok r) :
    out.map Prod.snd = (m.run a is).map .ok ↔ m.Along P a is := by
  induction is generalizing a s w out with
  | nil =>
    obtain ⟨rfl, rfl, -⟩ := pure_pair_eq_some.mp h
    exact ⟨fun _ => trivial, fun _ => rfl⟩
  | cons i is ih =>
    obtain ⟨x, s1, w1, rest, hop, hrest, rfl⟩ := perform_cons_eq_some.mp h
    obtain ⟨r, hr⟩ := hok (i, x) List.mem_cons_self
    have hx : x = .ok r := hr
    subst hx
    have hrestok : ∀ q ∈ rest, ∃ r, q.2 = .ok r :=
      fun q hq => hok q (List.mem_cons_of_mem _ hq)
    rw [run, Along, List.map_cons, List.map_cons, List.cons.injEq]
    by_cases hP : P a i
    · obtain ⟨hreturned, hrel1⟩ := hm.follows hrel hP hop
      rw [ih hrel1 hrest hrestok, hreturned]
      exact ⟨fun hboth => ⟨hP, hboth.2⟩, fun hboth => ⟨rfl, hboth.2⟩⟩
    · have hdiffers := hm.leaves hrel hP hop
      constructor
      · intro hboth
        exact absurd (Except.ok.inj hboth.1) hdiffers
      · intro hboth
        exact absurd hboth.1 hP

end Reference

end Dialogue
