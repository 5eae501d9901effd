/-
  What the system pallet stores for an account.
-/
import AvailRust.Core.Types

namespace AvailRust

open Scale

structure AccountData where
  free : U128
  reserved : U128
  frozen : U128
  flags : U128
deriving DecidableEq

instance : Encode AccountData := ⟨fun x =>
  encode x.free ++ encode x.reserved ++ encode x.frozen ++ encode x.flags⟩

instance : Decode AccountData := ⟨do
  let free ← decode
  let reserved ← decode
  let frozen ← decode
  let flags ← decode
  pure { free, reserved, frozen, flags }⟩

instance : Fields AccountData (U128 × U128 × U128 × U128) where
  toFields x := (x.free, x.reserved, x.frozen, x.flags)
  ofFields p := ⟨p.1, p.2.1, p.2.2.1, p.2.2.2⟩

structure AccountInfo where
  nonce : U32
  consumers : U32
  providers : U32
  sufficients : U32
  data : AccountData
deriving DecidableEq

instance : Encode AccountInfo := ⟨fun x =>
  encode x.nonce ++ encode x.consumers ++ encode x.providers ++ encode x.sufficients
    ++ encode x.data⟩

instance : Decode AccountInfo := ⟨do
  let nonce ← decode
  let consumers ← decode
  let providers ← decode
  let sufficients ← decode
  let data ← decode
  pure { nonce, consumers, providers, sufficients, data }⟩

instance : Fields AccountInfo (U32 × U32 × U32 × U32 × AccountData) where
  toFields x := (x.nonce, x.consumers, x.providers, x.sufficients, x.data)
  ofFields p := ⟨p.1, p.2.1, p.2.2.1, p.2.2.2.1, p.2.2.2.2⟩

/-- An account the chain has no entry for. -/
instance : Inhabited AccountInfo := ⟨0, 0, 0, 0, ⟨0, 0, 0, 0⟩⟩

end AvailRust
