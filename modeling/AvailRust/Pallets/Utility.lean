/-
  The calls of the utility pallet.

  The three batch calls hold the same data and are coded the same: a count, and the calls as
  bytes up to the end of the input.
-/
import AvailRust.Core.Extrinsic

namespace AvailRust.Utility

open Scale

def palletId : UInt8 := 1

/-- What `Batch`, `BatchAll` and `ForceBatch` hold. -/
structure Calls where
  length : U32
  calls : Bytes
deriving DecidableEq

instance : Encode Calls := ⟨fun x => encode (Compact.mk x.length) ++ x.calls⟩

instance : Decode Calls := ⟨do
  let length : Compact 4 ← decode
  let calls ← readAll
  pure { length := length.val, calls }⟩

instance : Canonical Calls where
  encode_decode b rest x h := by
    obtain ⟨length, b1, hlength, h⟩ := bind_eq_ok.mp h
    obtain ⟨calls, b2, hcalls, h⟩ := bind_eq_ok.mp h
    obtain ⟨rfl, rfl⟩ := readAll_eq_ok.mp hcalls
    obtain ⟨rfl, rfl⟩ := pure_eq_ok.mp h
    rw [encode_decode _ _ _ hlength, List.append_nil]
    rfl

namespace Tx

structure Batch extends Calls

instance : HasHeader Batch := ⟨palletId, 0⟩

instance : Record Batch Calls where
  toFields x := x.toCalls
  ofFields p := ⟨p⟩

structure BatchAll extends Calls

instance : HasHeader BatchAll := ⟨palletId, 2⟩

instance : Record BatchAll Calls where
  toFields x := x.toCalls
  ofFields p := ⟨p⟩

structure ForceBatch extends Calls

instance : HasHeader ForceBatch := ⟨palletId, 4⟩

instance : Record ForceBatch Calls where
  toFields x := x.toCalls
  ofFields p := ⟨p⟩

end Tx

end AvailRust.Utility
