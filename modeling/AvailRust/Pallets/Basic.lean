/-
  The calls that hold plain data: those of the timestamp, session, system, balances and data
  availability pallets.

  Fields are coded in the order of the structure; the product that a record is coded as says
  which of them are compact.
-/
import AvailRust.Core.Extrinsic

namespace AvailRust

open Scale

/-! ## Timestamp -/

namespace Timestamp

def palletId : UInt8 := 3

namespace Tx

structure Set where
  now : U64

instance : HasHeader Set := ⟨palletId, 0⟩

instance : Record Set (Compact 8) where
  toFields x := ⟨x.now⟩
  ofFields p := ⟨p.val⟩

end Tx

end Timestamp

/-! ## Session -/

namespace Session

def palletId : UInt8 := 11

namespace Tx

structure SetKeys where
  babe : H256
  grandpa : H256
  imOnline : H256
  authorityDiscovery : H256
  proof : Vec UInt8

instance : HasHeader SetKeys := ⟨palletId, 0⟩

instance : Record SetKeys (H256 × H256 × H256 × H256 × Vec UInt8) where
  toFields x := (x.babe, x.grandpa, x.imOnline, x.authorityDiscovery, x.proof)
  ofFields p := ⟨p.1, p.2.1, p.2.2.1, p.2.2.2.1, p.2.2.2.2⟩

structure PurgeKeys where

instance : HasHeader PurgeKeys := ⟨palletId, 1⟩

instance : Record PurgeKeys Unit where
  toFields _ := ()
  ofFields _ := {}

end Tx

end Session

/-! ## System -/

namespace System

def palletId : UInt8 := 0

namespace Tx

structure Remark where
  remark : Vec UInt8

instance : HasHeader Remark := ⟨palletId, 0⟩

instance : Record Remark (Vec UInt8) where
  toFields x := x.remark
  ofFields p := ⟨p⟩

structure SetCode where
  code : Vec UInt8

instance : HasHeader SetCode := ⟨palletId, 2⟩

instance : Record SetCode (Vec UInt8) where
  toFields x := x.code
  ofFields p := ⟨p⟩

structure SetCodeWithoutChecks where
  code : Vec UInt8

instance : HasHeader SetCodeWithoutChecks := ⟨palletId, 3⟩

instance : Record SetCodeWithoutChecks (Vec UInt8) where
  toFields x := x.code
  ofFields p := ⟨p⟩

structure RemarkWithEvent where
  remark : Vec UInt8

instance : HasHeader RemarkWithEvent := ⟨palletId, 7⟩

instance : Record RemarkWithEvent (Vec UInt8) where
  toFields x := x.remark
  ofFields p := ⟨p⟩

end Tx

end System

/-! ## Balances -/

namespace Balances

def palletId : UInt8 := 6

namespace Tx

structure TransferAllowDeath where
  dest : MultiAddress
  value : U128

instance : HasHeader TransferAllowDeath := ⟨palletId, 0⟩

instance : Record TransferAllowDeath (MultiAddress × Compact 16) where
  toFields x := (x.dest, ⟨x.value⟩)
  ofFields p := ⟨p.1, p.2.val⟩

structure TransferKeepAlive where
  dest : MultiAddress
  value : U128

instance : HasHeader TransferKeepAlive := ⟨palletId, 3⟩

instance : Record TransferKeepAlive (MultiAddress × Compact 16) where
  toFields x := (x.dest, ⟨x.value⟩)
  ofFields p := ⟨p.1, p.2.val⟩

structure TransferAll where
  dest : MultiAddress
  keepAlive : Bool

instance : HasHeader TransferAll := ⟨palletId, 4⟩

instance : Record TransferAll (MultiAddress × Bool) where
  toFields x := (x.dest, x.keepAlive)
  ofFields p := ⟨p.1, p.2⟩

end Tx

end Balances

/-! ## DataAvailability -/

namespace DataAvailability

def palletId : UInt8 := 29

namespace Tx

structure CreateApplicationKey where
  key : Vec UInt8

instance : HasHeader CreateApplicationKey := ⟨palletId, 0⟩

instance : Record CreateApplicationKey (Vec UInt8) where
  toFields x := x.key
  ofFields p := ⟨p⟩

structure SubmitData where
  data : Vec UInt8

instance : HasHeader SubmitData := ⟨palletId, 1⟩

instance : Record SubmitData (Vec UInt8) where
  toFields x := x.data
  ofFields p := ⟨p⟩

structure SubmitBlobMetadata where
  blobHash : H256
  size : U64
  commitments : Vec UInt8

instance : HasHeader SubmitBlobMetadata := ⟨palletId, 5⟩

instance : Record SubmitBlobMetadata (H256 × U64 × Vec UInt8) where
  toFields x := (x.blobHash, x.size, x.commitments)
  ofFields p := ⟨p.1, p.2.1, p.2.2⟩

end Tx

end DataAvailability

end AvailRust
