/-
  What the retry helpers return.

  The helpers are run against an operation whose calls give a sequence of responses (`Replies`).
  `FinalResponse retried budget responses k` is what they are for: response `k` is the first that is
  not `retried`, or the one after `budget` retries. Both helpers stop there (`attempts_final`),
  so one budget is shared by whatever is retried, and where nothing is empty they do the same.
-/
import AvailRust.Client.Utils

namespace AvailRust

open Dialogue

variable {ε α : Type}

/-- The calls of `f`, one after the other, lead through these worlds and give these responses. -/
def Replies (f : Rpc α) (worlds : Nat → RpcWorld) (responses : Nat → α) : Prop :=
  ∀ n, f (worlds n) = some (responses n, worlds (n + 1))

/-- Response `k` is the first that is not retried, or the last one that the budget allows. -/
structure FinalResponse (retried : α → Bool) (budget : Nat) (responses : Nat → α) (k : Nat) :
    Prop where
  within : k ≤ budget
  earlier : ∀ j < k, retried (responses j) = true
  terminal : k < budget → retried (responses k) = false

/-- There is only one such response. -/
theorem FinalResponse.unique {retried : α → Bool} {budget : Nat} {responses : Nat → α}
    {k k' : Nat} (h : FinalResponse retried budget responses k)
    (h' : FinalResponse retried budget responses k') : k = k' := by
  have hle : ∀ {i j}, FinalResponse retried budget responses i →
      FinalResponse retried budget responses j → i ≤ j := by
    intro i j hi hj
    by_contra hlt
    have hagain := hi.earlier j (by omega)
    have hwithin := hi.within
    rw [hj.terminal (by omega)] at hagain
    cases hagain
  exact Nat.le_antisymm (hle h h') (hle h' h)

/-- One retry, and then what the rest of the budget gives. -/
theorem FinalResponse.succ {retried : α → Bool} {budget : Nat} {responses : Nat → α} {k : Nat}
    (hfirst : retried (responses 0) = true)
    (h : FinalResponse retried budget (fun n => responses (n + 1)) k) :
    FinalResponse retried (budget + 1) responses (k + 1) where
  within := Nat.succ_le_succ h.within
  earlier j hj := by
    cases j with
    | zero => exact hfirst
    | succ j => exact h.earlier j (by omega)
  terminal hk := h.terminal (by omega)

/-- A run of attempts ends with the final response, and asks no further. -/
theorem attempts_final (retried : α → Bool) (durations : List Nat) {f : Rpc α}
    {worlds : Nat → RpcWorld} {responses : Nat → α} (h : Replies f worlds responses) :
    ∃ k, FinalResponse retried durations.length responses k ∧
      attempts retried f durations (worlds 0) = some (responses k, worlds (k + 1)) := by
  induction durations generalizing worlds responses with
  | nil => exact ⟨0, ⟨Nat.le_refl 0, by omega, by simp⟩, h 0⟩
  | cons duration durations ih =>
    have hstep : attempts retried f (duration :: durations) (worlds 0)
        = (if retried (responses 0) then attempts retried f durations else pure (responses 0))
          (worlds 1) := bind_of_eq (h 0)
    rw [hstep]
    cases hfirst : retried (responses 0) with
    | false => exact ⟨0, ⟨Nat.zero_le _, by omega, fun _ => hfirst⟩, rfl⟩
    | true =>
      have hrest : Replies f (fun n => worlds (n + 1)) (fun n => responses (n + 1)) :=
        fun n => h (n + 1)
      obtain ⟨k, hk, hrun⟩ := ih hrest
      exact ⟨k + 1, hk.succ hfirst, hrun⟩

/-! ## The two helpers -/

/-- Errors are retried if the flag is set. -/
def isErrorIf (retryOnError : Bool) : Except ε α → Bool
  | .ok _ => false
  | .error _ => retryOnError

theorem withRetryOnError_final {f : Rpc (Except ε α)} {worlds : Nat → RpcWorld}
    {responses : Nat → Except ε α} (h : Replies f worlds responses) (retryOnError : Bool) :
    ∃ k, FinalResponse (isErrorIf retryOnError) 5 responses k ∧
      withRetryOnError f retryOnError (worlds 0) = some (responses k, worlds (k + 1)) := by
  unfold withRetryOnError
  cases retryOnError with
  | false =>
    -- without pauses there is one attempt, and nothing counts as retried
    have hnever : ∀ x : Except ε α, isErrorIf false x = false := by
      intro x
      cases x <;> rfl
    exact ⟨0, ⟨Nat.zero_le 5, by omega, fun _ => hnever _⟩, h 0⟩
  | true =>
    have hsame : (isErrorIf true : Except ε α → Bool) = isError := by
      funext x
      cases x <;> rfl
    rw [hsame, withRetryOnErrorLoop_eq]
    exact attempts_final isError sleepDuration.reverse h

theorem withRetryOnErrorAndNone_final {f : Rpc (Except ε (Option α))} {worlds : Nat → RpcWorld}
    {responses : Nat → Except ε (Option α)} (h : Replies f worlds responses)
    (retryOnError retryOnNone : Bool) :
    ∃ k, FinalResponse (isErrorOrNone retryOnError retryOnNone) 5 responses k ∧
      withRetryOnErrorAndNone f retryOnError retryOnNone (worlds 0)
        = some (responses k, worlds (k + 1)) := by
  rw [withRetryOnErrorAndNone, withRetryOnErrorAndNoneLoop_eq]
  exact attempts_final _ sleepDuration.reverse h

/-- Where nothing is empty, the flag for empty results makes no difference. -/
theorem FinalResponse.of_never_none {responses : Nat → Except ε (Option α)}
    (hnone : ∀ n, responses n ≠ .ok none) {retryOnError : Bool} (retryOnNone : Bool) {k : Nat}
    (h : FinalResponse (isErrorIf retryOnError) 5 responses k) :
    FinalResponse (isErrorOrNone retryOnError retryOnNone) 5 responses k := by
  have hsame : ∀ n, isErrorOrNone retryOnError retryOnNone (responses n)
      = isErrorIf retryOnError (responses n) := by
    intro n
    match hresponse : responses n with
    | .ok (some x) => rfl
    | .ok none => exact absurd hresponse (hnone n)
    | .error e => rfl
  exact ⟨h.within, fun j hj => (hsame j).trans (h.earlier j hj),
    fun hk => (hsame k).trans (h.terminal hk)⟩

/-- Whatever the responses are: each helper returns the final one of at most six, and the two agree
    where nothing is empty. -/
theorem retries_meet_spec (worlds : Nat → RpcWorld) (retryOnError retryOnNone : Bool) :
    (∀ (f : Rpc (Except ε α)) (responses : Nat → Except ε α), Replies f worlds responses →
      ∃ k, FinalResponse (isErrorIf retryOnError) 5 responses k ∧
        withRetryOnError f retryOnError (worlds 0) = some (responses k, worlds (k + 1))) ∧
    (∀ (f : Rpc (Except ε (Option α))) (responses : Nat → Except ε (Option α)),
      Replies f worlds responses →
      ∃ k, FinalResponse (isErrorOrNone retryOnError retryOnNone) 5 responses k ∧
        withRetryOnErrorAndNone f retryOnError retryOnNone (worlds 0)
          = some (responses k, worlds (k + 1))) ∧
    ∀ (f : Rpc (Except ε (Option α))) (responses : Nat → Except ε (Option α)),
      Replies f worlds responses → (∀ n, responses n ≠ .ok none) →
        withRetryOnErrorAndNone f retryOnError retryOnNone (worlds 0)
          = withRetryOnError f retryOnError (worlds 0) := by
  refine ⟨?error, ?none, ?agree⟩
  case error =>
    intro f responses h
    exact withRetryOnError_final h retryOnError
  case none =>
    intro f responses h
    exact withRetryOnErrorAndNone_final h retryOnError retryOnNone
  case agree =>
    intro f responses h hnone
    obtain ⟨k, hk, hrun⟩ := withRetryOnError_final h retryOnError
    obtain ⟨k', hk', hrun'⟩ := withRetryOnErrorAndNone_final h retryOnError retryOnNone
    have hkk : k' = k := hk'.unique (hk.of_never_none hnone retryOnNone)
    rw [hrun, hrun', hkk]

/-- An operation with these responses; it counts its calls in the trace. -/
def replaying (responses : Nat → α) : Rpc α := fun w =>
  some (responses w.trace.length,
    ⟨w.script, (.latestChainInfo, .fail none (.rpc "down")) :: w.trace⟩)

/-- After `n` such calls. -/
def replayed (n : Nat) : RpcWorld :=
  ⟨[], List.replicate n (.latestChainInfo, .fail none (.rpc "down"))⟩

/-- There is an operation for every sequence of responses. -/
theorem replaying_replies (responses : Nat → α) :
    Replies (replaying responses) replayed responses := by
  intro n
  unfold replaying replayed
  rw [List.length_replicate]
  rfl

/-- Two errors, an empty result, and then the number of the call. -/
def flaky : Nat → Except String (Option Nat)
  | 0 => .error "down"
  | 1 => .error "down"
  | 2 => .ok none
  | n + 3 => .ok (some (n + 3))

/-- The errors and the empty result share one budget, and the fourth call is the last. -/
theorem retries_meet_spec_flaky :
    withRetryOnErrorAndNone (replaying flaky) true true (replayed 0)
      = some (.ok (some 3), replayed 4) := by
  obtain ⟨k, hk, hrun⟩ :=
    (retries_meet_spec replayed true true).2.1 _ flaky (replaying_replies flaky)
  have hfourth : FinalResponse (isErrorOrNone true true) 5 flaky 3 :=
    ⟨by decide, by decide, fun _ => rfl⟩
  rw [hrun, hk.unique hfourth]
  rfl

end AvailRust
