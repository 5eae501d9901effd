/-
  Why a dispatched call failed, as the events of a block say it.

  An error is one tag byte; for four of the fourteen tags a more precise error follows. What an
  event calls a result is the codec's own `Result`, with nothing in it on success.
-/
import AvailRust.Core.Types

namespace AvailRust.System

open Scale

structure ModuleError where
  /-- Module index, matching the metadata module index. -/
  index : UInt8
  /-- Module specific error value. -/
  error : FixedBytes 4
deriving DecidableEq

instance : Record ModuleError (UInt8 × FixedBytes 4) where
  toFields x := (x.index, x.error)
  ofFields p := ⟨p.1, p.2⟩

inductive TokenError where
  | fundsUnavailable
  | onlyProvider
  | belowMinimum
  | cannotCreate
  | unknownAsset
  | frozen
  | unsupported
  | cannotCreateHold
  | notExpendable
  | blocked
deriving DecidableEq

instance : ByteEnum TokenError where
  toByte
    | .fundsUnavailable => 0
    | .onlyProvider => 1
    | .belowMinimum => 2
    | .cannotCreate => 3
    | .unknownAsset => 4
    | .frozen => 5
    | .unsupported => 6
    | .cannotCreateHold => 7
    | .notExpendable => 8
    | .blocked => 9
  ofByte
    | 0 => some .fundsUnavailable
    | 1 => some .onlyProvider
    | 2 => some .belowMinimum
    | 3 => some .cannotCreate
    | 4 => some .unknownAsset
    | 5 => some .frozen
    | 6 => some .unsupported
    | 7 => some .cannotCreateHold
    | 8 => some .notExpendable
    | 9 => some .blocked
    | _ => none
  unknown := "Failed to decode TokenError. Unknown variant"
  toByte_ofByte n x h := by split at h <;> cases h <;> rfl

inductive ArithmeticError where
  | underflow
  | overflow
  | divisionByZero
deriving DecidableEq

instance : ByteEnum ArithmeticError where
  toByte
    | .underflow => 0
    | .overflow => 1
    | .divisionByZero => 2
  ofByte
    | 0 => some .underflow
    | 1 => some .overflow
    | 2 => some .divisionByZero
    | _ => none
  unknown := "Failed to decode ArithmeticError. Unknown variant"
  toByte_ofByte n x h := by split at h <;> cases h <;> rfl

inductive TransactionalError where
  | limitReached
  | noLayer
deriving DecidableEq

instance : ByteEnum TransactionalError where
  toByte
    | .limitReached => 0
    | .noLayer => 1
  ofByte
    | 0 => some .limitReached
    | 1 => some .noLayer
    | _ => none
  unknown := "Failed to decode TransactionalError. Unknown variant"
  toByte_ofByte n x h := by split at h <;> cases h <;> rfl

inductive DispatchError where
  | other
  /-- Failed to lookup some data. -/
  | cannotLookup
  /-- A bad origin. -/
  | badOrigin
  /-- A custom error in a module. -/
  | module (error : ModuleError)
  /-- At least one consumer is remaining so the account cannot be destroyed. -/
  | consumerRemaining
  /-- There are no providers so the account cannot be created. -/
  | noProviders
  /-- There are too many consumers so the account cannot be created. -/
  | tooManyConsumers
  | token (error : TokenError)
  | arithmetic (error : ArithmeticError)
  | transactional (error : TransactionalError)
  /-- Resources exhausted. -/
  | exhausted
  | corruption
  | unavailable
  | rootNotAllowed
deriving DecidableEq

instance : Encode DispatchError := ⟨fun
  | .other => [0]
  | .cannotLookup => [1]
  | .badOrigin => [2]
  | .module x => 3 :: encode x
  | .consumerRemaining => [4]
  | .noProviders => [5]
  | .tooManyConsumers => [6]
  | .token x => 7 :: encode x
  | .arithmetic x => 8 :: encode x
  | .transactional x => 9 :: encode x
  | .exhausted => [10]
  | .corruption => [11]
  | .unavailable => [12]
  | .rootNotAllowed => [13]⟩

instance : Decode DispatchError := ⟨do
  let variant ← readByte
  match variant with
  | 0 => pure .other
  | 1 => pure .cannotLookup
  | 2 => pure .badOrigin
  | 3 => .module <$> decode
  | 4 => pure .consumerRemaining
  | 5 => pure .noProviders
  | 6 => pure .tooManyConsumers
  | 7 => .token <$> decode
  | 8 => .arithmetic <$> decode
  | 9 => .transactional <$> decode
  | 10 => pure .exhausted
  | 11 => pure .corruption
  | 12 => pure .unavailable
  | 13 => pure .rootNotAllowed
  | _ => fail "Failed to decode Runtime Call. Unknown variant"⟩

instance : RoundTrips DispatchError where
  decode_encode x rest := by
    cases x with
    | module x => exact map_of_ok (decode_encode x rest)
    | token x => exact map_of_ok (decode_encode x rest)
    | arithmetic x => exact map_of_ok (decode_encode x rest)
    | transactional x => exact map_of_ok (decode_encode x rest)
    | _ => rfl

instance : Canonical DispatchError where
  encode_decode b rest x h := by
    replace h := readByte_bind_eq_ok.mp h
    obtain ⟨variant, b1, rfl, h⟩ := h
    -- one goal for each tag, and one for the bytes that are none
    split at h
    all_goals first
      | exact const_of_decode rfl h
      | exact case_of_decode (fun _ => rfl) h
      | exact (fail_eq_ok.mp h).elim

/-- What an event says about a call that was dispatched. -/
abbrev DispatchResult := Except DispatchError Unit

end AvailRust.System
