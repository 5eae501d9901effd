/-
  The retry helpers.

  Both helpers run an operation again after a failure, with one budget of five pauses; the
  second also runs it again after an empty result. `attempts` is what they share: run again
  while the result asks for it and a pause is left.

  `Asked` describes what such a run did to the world: it asked one request once or more, every
  answer but the last was one that is retried, and the last answer is the result.
-/
import AvailRust.Client.Node
import AvailRust.Lib.Fallible

namespace AvailRust

open Dialogue

variable {R E ε α : Type}

/-- The pauses between attempts, in seconds; the last one is taken first. -/
def sleepDuration : List Nat := [8, 5, 3, 2, 1]

/-- Time is not modelled: what the node does during a pause is in the script. -/
def sleep (_seconds : Nat) : Prog R E Unit := pure ()

/-- The loop of `withRetryOnError`, with the pauses that are left. -/
def withRetryOnErrorLoop (f : Prog R E (Except ε α)) : List Nat → Prog R E (Except ε α)
  | [] => f
  | duration :: durations => do
    match ← f with
    | .ok x => pure (.ok x)
    | .error _ => do
      sleep duration
      withRetryOnErrorLoop f durations

def withRetryOnError (f : Prog R E (Except ε α)) (retryOnError : Bool) : Prog R E (Except ε α) :=
  withRetryOnErrorLoop f (if retryOnError then sleepDuration.reverse else [])

/-- The loop of `withRetryOnErrorAndNone`, with the pauses that are left. -/
def withRetryOnErrorAndNoneLoop (f : Prog R E (Except ε (Option α)))
    (retryOnError retryOnNone : Bool) : List Nat → Prog R E (Except ε (Option α))
  | [] => f
  | duration :: durations => do
    match ← f with
    | .ok (some x) => pure (.ok (some x))
    | .ok none =>
      if retryOnNone then do
        sleep duration
        withRetryOnErrorAndNoneLoop f retryOnError retryOnNone durations
      else pure (.ok none)
    | .error err =>
      if retryOnError then do
        sleep duration
        withRetryOnErrorAndNoneLoop f retryOnError retryOnNone durations
      else pure (.error err)

def withRetryOnErrorAndNone (f : Prog R E (Except ε (Option α))) (retryOnError retryOnNone : Bool) :
    Prog R E (Except ε (Option α)) :=
  withRetryOnErrorAndNoneLoop f retryOnError retryOnNone sleepDuration.reverse

/-! ## One loop for both -/

/-- Run `f` again while its result is `retried` and a pause is left. -/
def attempts (retried : α → Bool) (f : Prog R E α) : List Nat → Prog R E α
  | [] => f
  | _ :: durations => do
    let x ← f
    if retried x then attempts retried f durations else pure x

/-- Errors are retried. -/
def isError : Except ε α → Bool
  | .ok _ => false
  | .error _ => true

/-- Errors and empty results are retried, each if its flag is set. -/
def isErrorOrNone (retryOnError retryOnNone : Bool) : Except ε (Option α) → Bool
  | .ok (some _) => false
  | .ok none => retryOnNone
  | .error _ => retryOnError

theorem withRetryOnErrorLoop_eq (f : Prog R E (Except ε α)) (durations : List Nat) :
    withRetryOnErrorLoop f durations = attempts isError f durations := by
  induction durations with
  | nil => rfl
  | cons d ds ih =>
    unfold withRetryOnErrorLoop attempts
    congr 1
    funext x
    cases x with
    | ok x => rfl
    | error e => exact ih

theorem withRetryOnErrorAndNoneLoop_eq (f : Prog R E (Except ε (Option α)))
    (retryOnError retryOnNone : Bool) (durations : List Nat) :
    withRetryOnErrorAndNoneLoop f retryOnError retryOnNone durations
      = attempts (isErrorOrNone retryOnError retryOnNone) f durations := by
  induction durations with
  | nil => rfl
  | cons d ds ih =>
    unfold withRetryOnErrorAndNoneLoop attempts
    congr 1
    funext x
    match x with
    | .ok (some x) => rfl
    | .ok none =>
      cases retryOnNone with
      | true => exact ih
      | false => rfl
    | .error e =>
      cases retryOnError with
      | true => exact ih
      | false => rfl

/-! ## Every run asks -/

theorem attempts_consumes {f : Prog R E α} (h : Consumes f) (retried : α → Bool)
    (durations : List Nat) : Consumes (attempts retried f durations) := by
  induction durations with
  | nil => exact h
  | cons d ds ih =>
    refine h.bind fun x => ?_
    split
    · exact ih.logged
    · exact .pure x

theorem withRetryOnError_consumes {f : Prog R E (Except ε α)} (h : Consumes f) (retry : Bool) :
    Consumes (withRetryOnError f retry) := by
  rw [withRetryOnError, withRetryOnErrorLoop_eq]
  exact attempts_consumes h _ _

theorem withRetryOnErrorAndNone_consumes {f : Prog R E (Except ε (Option α))} (h : Consumes f)
    (retryOnError retryOnNone : Bool) :
    Consumes (withRetryOnErrorAndNone f retryOnError retryOnNone) := by
  rw [withRetryOnErrorAndNone, withRetryOnErrorAndNoneLoop_eq]
  exact attempts_consumes h _ _

/-! ## A node that does not change -/

/-- The answer of this view, or a failure on the way. -/
def OneView (view : View) (e : Event) : Prop :=
  e = .answer view ∨ ∃ reached error, e = .fail reached error

section

open Fallible

variable {P : E → Prop} {answer : Option α}

theorem call_settles (view : View) (r : Request) :
    Settles (OneView view) (call r) (view r).toOption := by
  intro w x w' hw h
  obtain ⟨e, hs, ht, rfl⟩ := call_eq_some.mp h
  have hafter : w.After [(r, e)] w' := ⟨ht, hs⟩
  refine ⟨hw.after hafter, fun a ha => ?_⟩
  have he : e ∈ w.script := by
    rw [hs]
    exact List.mem_cons_self
  rcases hw.1 e he with rfl | ⟨reached, error, rfl⟩
  · have hanswer : view r = .ok a := ha
    rw [hanswer]
    rfl
  · cases ha

theorem call_settled (view : View) (r : Request) : Settled (OneView view) (call r) :=
  ⟨_, call_settles view r⟩

/-- An attempt that is made again has the answer of the one before it, if it has one. -/
theorem attempts_settles {f : Prog R E (Except ε α)} (hf : Settles P f answer)
    (retried : Except ε α → Bool) (durations : List Nat) :
    Settles P (attempts retried f durations) answer := by
  induction durations with
  | nil => exact hf
  | cons d ds ih =>
    intro w x w' hw h
    obtain ⟨y, w1, hrun, h⟩ := bind_eq_some.mp h
    obtain ⟨hw1, hy⟩ := hf w y w1 hw hrun
    split at h
    case isTrue => exact ih w1 x w' hw1 h
    case isFalse =>
      obtain ⟨rfl, rfl⟩ := pure_eq_some.mp h
      exact ⟨hw1, hy⟩

theorem withRetryOnError_settled {f : Prog R E (Except ε α)} (hf : Settled P f) (retry : Bool) :
    Settled P (withRetryOnError f retry) := by
  obtain ⟨answer, hf⟩ := hf
  rw [withRetryOnError, withRetryOnErrorLoop_eq]
  exact ⟨answer, attempts_settles hf _ _⟩

theorem withRetryOnErrorAndNone_settled {f : Prog R E (Except ε (Option α))} (hf : Settled P f)
    (onError onNone : Bool) : Settled P (withRetryOnErrorAndNone f onError onNone) := by
  obtain ⟨answer, hf⟩ := hf
  rw [withRetryOnErrorAndNone, withRetryOnErrorAndNoneLoop_eq]
  exact ⟨answer, attempts_settles hf _ _⟩

end

/-! ## What a run does -/

/-- Only `r` is asked, at least once; answers that are `retried` may precede the last one. -/
inductive Asked (r : Request) (retried : Except RpcError r.Response → Bool) :
    RpcWorld → Except RpcError r.Response → RpcWorld → Prop where
  | last {w w' e} (hs : w.script = e :: w'.script) (ht : w'.trace = (r, e) :: w.trace) :
      Asked r retried w (e.response r) w'
  | again {w w1 w' e x} (hs : w.script = e :: w1.script) (ht : w1.trace = (r, e) :: w.trace)
      (he : retried (e.response r) = true) (rest : Asked r retried w1 x w') :
      Asked r retried w x w'

/-- The last attempt is the latest move of the trace. -/
theorem Asked.last_move {r : Request} {p : Except RpcError r.Response → Bool} {w w' : RpcWorld}
    {x : Except RpcError r.Response} (h : Asked r p w x w') :
    ∃ e rest, w'.trace = (r, e) :: rest ∧ e.response r = x := by
  induction h with
  | last _ ht => exact ⟨_, _, ht, rfl⟩
  | again _ _ _ _ ih => exact ih

theorem Asked.after {r : Request} {p : Except RpcError r.Response → Bool} {w w' : RpcWorld}
    {x : Except RpcError r.Response} (h : Asked r p w x w') : ∃ new, w.After new w' := by
  induction h with
  | @last w w' e hs ht => exact ⟨[(r, e)], ht, hs⟩
  | @again w w1 w' e x hs ht _ _ ih =>
    obtain ⟨new, hnew⟩ := ih
    have hfirst : w.After [(r, e)] w1 := ⟨ht, hs⟩
    exact ⟨new ++ [(r, e)], hfirst.trans hnew⟩

theorem attempts_asked {r : Request} {retried : Except RpcError r.Response → Bool}
    (durations : List Nat) {w w' : RpcWorld} {x : Except RpcError r.Response}
    (h : attempts retried (call r) durations w = some (x, w')) : Asked r retried w x w' := by
  induction durations generalizing w with
  | nil =>
    obtain ⟨e, hs, ht, rfl⟩ := call_eq_some.mp h
    exact .last hs ht
  | cons d ds ih =>
    obtain ⟨y, w1, hcall, h⟩ := bind_eq_some.mp h
    obtain ⟨e, hs, ht, rfl⟩ := call_eq_some.mp hcall
    split at h
    case isTrue he => exact .again hs ht he (ih h)
    case isFalse =>
      obtain ⟨rfl, rfl⟩ := pure_eq_some.mp h
      exact .last hs ht

/-- Attempts go on through what is retried, and return with what is not, or with the last pause. -/
theorem attempts_returns {r : Request} {retried : Except RpcError r.Response → Bool}
    {durations : List Nat} {earlier rest : List Event} {last : Event} {w : RpcWorld}
    (hscript : w.script = earlier ++ last :: rest) (hlen : earlier.length ≤ durations.length)
    (hearlier : ∀ e ∈ earlier, retried (e.response r) = true)
    (hlast : retried (last.response r) = true → earlier.length = durations.length) :
    ∃ w', attempts retried (call r) durations w = some (last.response r, w') ∧
      w.After ((earlier ++ [last]).map (r, ·)).reverse w' := by
  induction durations generalizing w earlier with
  | nil =>
    obtain rfl := List.eq_nil_of_length_eq_zero (Nat.le_zero.mp hlen)
    exact ⟨⟨rest, (r, last) :: w.trace⟩, call_eq_some.mpr ⟨last, hscript, rfl, rfl⟩, rfl, hscript⟩
  | cons d ds ih =>
    cases earlier with
    | nil =>
      have hcall : call r w = some (last.response r, ⟨rest, (r, last) :: w.trace⟩) :=
        call_eq_some.mpr ⟨last, hscript, rfl, rfl⟩
      have hstop : ¬ retried (last.response r) = true := by
        intro hretried
        have hzero := hlast hretried
        simp at hzero
      refine ⟨⟨rest, (r, last) :: w.trace⟩, ?_, rfl, hscript⟩
      rw [attempts, bind_of_eq hcall, if_neg hstop]
      rfl
    | cons e earlier =>
      let w1 : RpcWorld := ⟨earlier ++ last :: rest, (r, e) :: w.trace⟩
      have hcall : call r w = some (e.response r, w1) :=
        call_eq_some.mpr ⟨e, hscript, rfl, rfl⟩
      have hfirst : w.After [(r, e)] w1 := ⟨rfl, hscript⟩
      obtain ⟨w', hrun, hnew⟩ := @ih earlier w1 rfl (Nat.le_of_succ_le_succ hlen)
        (fun e' he' => hearlier e' (List.mem_cons_of_mem e he'))
        fun hretried => Nat.succ.inj (hlast hretried)
      refine ⟨w', ?_, ?_⟩
      · rw [attempts, bind_of_eq hcall, if_pos (hearlier e List.mem_cons_self)]
        exact hrun
      · simpa using hfirst.trans hnew

theorem withRetryOnError_asked {r : Request} {retry : Bool} {w w' : RpcWorld}
    {x : Except RpcError r.Response} (h : withRetryOnError (call r) retry w = some (x, w')) :
    Asked r isError w x w' := by
  rw [withRetryOnError, withRetryOnErrorLoop_eq] at h
  exact attempts_asked _ h

/-- A run that retries empty results as well, as a run of attempts. -/
theorem withRetryOnErrorAndNone_attempts {f : Prog R E (Except ε (Option α))}
    {onError onNone : Bool} {w w' : World R E} {x : Except ε (Option α)}
    (h : withRetryOnErrorAndNone f onError onNone w = some (x, w')) :
    attempts (isErrorOrNone onError onNone) f sleepDuration.reverse w = some (x, w') := by
  rw [← withRetryOnErrorAndNoneLoop_eq]
  exact h

theorem attempts_keeps {γ : Type} {g : World R E → γ} {f : Prog R E α} (h : Keeps g f)
    (retried : α → Bool) (durations : List Nat) : Keeps g (attempts retried f durations) := by
  induction durations with
  | nil => exact h
  | cons d ds ih =>
    refine h.bind fun x => ?_
    split
    · exact ih
    · exact .pure x

theorem withRetryOnError_keeps {γ : Type} {g : World R E → γ} {f : Prog R E (Except ε α)}
    (h : Keeps g f) (retry : Bool) : Keeps g (withRetryOnError f retry) := by
  rw [withRetryOnError, withRetryOnErrorLoop_eq]
  exact attempts_keeps h _ _

theorem withRetryOnErrorAndNone_keeps {γ : Type} {g : World R E → γ}
    {f : Prog R E (Except ε (Option α))} (h : Keeps g f) (retryOnError retryOnNone : Bool) :
    Keeps g (withRetryOnErrorAndNone f retryOnError retryOnNone) := by
  rw [withRetryOnErrorAndNone, withRetryOnErrorAndNoneLoop_eq]
  exact attempts_keeps h _ _

/-- Against an environment that does not change, retrying changes nothing. -/
theorem attempts_steady {e : E} {f : Prog R E α} {retried : α → Bool} {x : α}
    (h : Steady e f x) (durations : List Nat) : Steady e (attempts retried f durations) x := by
  induction durations with
  | nil => exact h
  | cons d ds ih =>
    refine h.bind ?_
    split
    · exact ih
    · exact .pure e x

theorem call_steady (e : Event) (r : Request) : Steady e (call r) (e.response r) :=
  (Steady.ask e r).bind (.pure e _)

theorem withRetryOnError_steady {e : E} {f : Prog R E (Except ε α)} {x : Except ε α}
    (h : Steady e f x) (retry : Bool) : Steady e (withRetryOnError f retry) x := by
  rw [withRetryOnError, withRetryOnErrorLoop_eq]
  exact attempts_steady h _

theorem withRetryOnErrorAndNone_steady {e : E} {f : Prog R E (Except ε (Option α))}
    {x : Except ε (Option α)} (h : Steady e f x) (retryOnError retryOnNone : Bool) :
    Steady e (withRetryOnErrorAndNone f retryOnError retryOnNone) x := by
  rw [withRetryOnErrorAndNone, withRetryOnErrorAndNoneLoop_eq]
  exact attempts_steady h _

/-- What is answered is asked for once. -/
theorem withRetryOnError_settles {P : E → Prop} {f : Prog R E (Except ε α)} {a : α}
    (h : Settles P f (.ok a)) (retry : Bool) : Settles P (withRetryOnError f retry) (.ok a) := by
  unfold withRetryOnError
  split
  · exact h.bind (.pure _)
  · exact h

theorem withRetryOnErrorAndNone_settles {P : E → Prop}
    {f : Prog R E (Except ε (Option α))} {a : α} (h : Settles P f (.ok (some a)))
    (retryOnError retryOnNone : Bool) :
    Settles P (withRetryOnErrorAndNone f retryOnError retryOnNone) (.ok (some a)) :=
  h.bind (.pure _)

end AvailRust
