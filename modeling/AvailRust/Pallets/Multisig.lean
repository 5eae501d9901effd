/-
  The calls of the multisig pallet.

  `AsMulti` is decoded by way of a runtime call; its decoder stands with the runtime calls.
-/
import AvailRust.Core.Extrinsic

namespace AvailRust

open Scale

structure Weight where
  refTime : U64
  proofSize : U64

instance : Record Weight (Compact 8 × Compact 8) where
  toFields x := (⟨x.refTime⟩, ⟨x.proofSize⟩)
  ofFields p := ⟨p.1.val, p.2.val⟩

namespace Multisig

def palletId : UInt8 := 34

structure Timepoint where
  height : U32
  index : U32

instance : Record Timepoint (U32 × U32) where
  toFields x := (x.height, x.index)
  ofFields p := ⟨p.1, p.2⟩

namespace Tx

structure AsMultiThreshold1 where
  otherSignatories : Vec AccountId
  call : ExtrinsicCall

instance : HasHeader AsMultiThreshold1 := ⟨palletId, 0⟩

instance : Record AsMultiThreshold1 (Vec AccountId × ExtrinsicCall) where
  toFields x := (x.otherSignatories, x.call)
  ofFields p := ⟨p.1, p.2⟩

structure AsMulti where
  threshold : U16
  otherSignatories : Vec AccountId
  maybeTimepoint : Option Timepoint
  call : ExtrinsicCall
  maxWeight : Weight

instance : HasHeader AsMulti := ⟨palletId, 1⟩

instance : Encode AsMulti := ⟨fun x =>
  encode x.threshold ++ encode x.otherSignatories ++ encode x.maybeTimepoint ++ encode x.call
    ++ encode x.maxWeight⟩

structure ApproveAsMulti where
  threshold : U16
  otherSignatories : Vec AccountId
  maybeTimepoint : Option Timepoint
  callHash : H256
  maxWeight : Weight

instance : HasHeader ApproveAsMulti := ⟨palletId, 2⟩

instance : Record ApproveAsMulti (U16 × Vec AccountId × Option Timepoint × H256 × Weight) where
  toFields x := (x.threshold, x.otherSignatories, x.maybeTimepoint, x.callHash, x.maxWeight)
  ofFields p := ⟨p.1, p.2.1, p.2.2.1, p.2.2.2.1, p.2.2.2.2⟩

structure CancelAsMulti where
  threshold : U16
  otherSignatories : Vec AccountId
  timepoint : Timepoint
  callHash : H256

instance : HasHeader CancelAsMulti := ⟨palletId, 3⟩

instance : Record CancelAsMulti (U16 × Vec AccountId × Timepoint × H256) where
  toFields x := (x.threshold, x.otherSignatories, x.timepoint, x.callHash)
  ofFields p := ⟨p.1, p.2.1, p.2.2.1, p.2.2.2⟩

end Tx

end Multisig

end AvailRust
