/-
  The calls of the vector pallet, and the messages that it bridges.

  Numbers are compact except the whitelisted domains and the period of a sync committee, which
  are written at their full width.
-/
import AvailRust.Core.Extrinsic

namespace AvailRust.Vector

open Scale

def palletId : UInt8 := 39

/-- Possible types of Messages allowed by Avail to bridge to other chains. -/
inductive Message where
  | arbitraryMessage (items : Vec UInt8)
  | fungibleToken (assetId : H256) (amount : U128)

instance : Encode Message := ⟨fun
  | .arbitraryMessage items => 0 :: encode items
  | .fungibleToken assetId amount => 1 :: (encode assetId ++ encode (Compact.mk amount))⟩

/-- What stands behind the tag of a `FungibleToken`. -/
def Message.decodeFungibleToken : Decoder Message := do
  let assetId ← decode
  let amount : Compact 16 ← decode
  pure (.fungibleToken assetId amount.val)

instance : Decode Message := ⟨do
  let variant ← readByte
  if variant = 0 then .arbitraryMessage <$> decode
  else if variant = 1 then Message.decodeFungibleToken
  else fail "Failed to decode Message. Unknown Message variant"⟩

theorem Message.decodeFungibleToken_encode (assetId : H256) (amount : U128) (rest : Bytes) :
    Message.decodeFungibleToken (encode assetId ++ encode (Compact.mk amount) ++ rest)
      = .ok (.fungibleToken assetId amount, rest) := by
  unfold Message.decodeFungibleToken
  rw [List.append_assoc, bind_encode, bind_encode]
  rfl

theorem Message.decodeFungibleToken_eq_ok {b rest : Bytes} {x : Message}
    (h : Message.decodeFungibleToken b = .ok (x, rest)) :
    ∃ assetId amount, x = .fungibleToken assetId amount ∧
      b = encode assetId ++ encode (Compact.mk amount) ++ rest := by
  unfold Message.decodeFungibleToken at h
  obtain ⟨assetId, b1, hasset, h⟩ := bind_eq_ok.mp h
  obtain ⟨amount, b2, hamount, h⟩ := bind_eq_ok.mp h
  obtain ⟨rfl, rfl⟩ := pure_eq_ok.mp h
  refine ⟨assetId, amount.val, rfl, ?_⟩
  rw [List.append_assoc, encode_decode _ _ _ hasset, encode_decode _ _ _ hamount]

instance : RoundTrips Message where
  decode_encode x rest := by
    cases x with
    | arbitraryMessage items => exact map_of_ok (decode_encode items rest)
    | fungibleToken assetId amount => exact Message.decodeFungibleToken_encode assetId amount rest

instance : Canonical Message where
  encode_decode b rest x h := by
    replace h := readByte_bind_eq_ok.mp h
    obtain ⟨variant, b1, rfl, h⟩ := h
    split_ifs at h with h0 h1 <;> try subst variant
    · obtain ⟨items, hitems, rfl⟩ := map_eq_ok.mp h
      rw [encode_decode _ _ _ hitems]
      rfl
    · obtain ⟨assetId, amount, rfl, rfl⟩ := Message.decodeFungibleToken_eq_ok h
      rfl
    · simp at h

/-- Message type used to bridge between Avail & other chains. -/
structure AddressedMessage where
  message : Message
  «from» : H256
  «to» : H256
  originDomain : U32
  destinationDomain : U32
  id : U64

instance : Record AddressedMessage
    (Message × H256 × H256 × Compact 4 × Compact 4 × Compact 8) where
  toFields x := (x.message, x.«from», x.«to», ⟨x.originDomain⟩, ⟨x.destinationDomain⟩, ⟨x.id⟩)
  ofFields p := ⟨p.1, p.2.1, p.2.2.1, p.2.2.2.1.val, p.2.2.2.2.1.val, p.2.2.2.2.2.val⟩

structure Configuration where
  slotsPerPeriod : Compact 8
  finalityThreshold : Compact 2

instance : Record Configuration (Compact 8 × Compact 2) where
  toFields x := (x.slotsPerPeriod, x.finalityThreshold)
  ofFields p := ⟨p.1, p.2⟩

namespace Tx

structure FulfillCall where
  functionId : H256
  input : Vec UInt8
  output : Vec UInt8
  proof : Vec UInt8
  slot : U64

instance : HasHeader FulfillCall := ⟨palletId, 0⟩

instance : Record FulfillCall (H256 × Vec UInt8 × Vec UInt8 × Vec UInt8 × Compact 8) where
  toFields x := (x.functionId, x.input, x.output, x.proof, ⟨x.slot⟩)
  ofFields p := ⟨p.1, p.2.1, p.2.2.1, p.2.2.2.1, p.2.2.2.2.val⟩

structure Execute where
  slot : U64
  addrMessage : AddressedMessage
  accountProof : Vec (Vec UInt8)
  storageProof : Vec (Vec UInt8)

instance : HasHeader Execute := ⟨palletId, 1⟩

instance : Record Execute (Compact 8 × AddressedMessage × Vec (Vec UInt8) × Vec (Vec UInt8)) where
  toFields x := (⟨x.slot⟩, x.addrMessage, x.accountProof, x.storageProof)
  ofFields p := ⟨p.1.val, p.2.1, p.2.2.1, p.2.2.2⟩

structure SourceChainFroze where
  sourceChainId : U32
  frozen : Bool

instance : HasHeader SourceChainFroze := ⟨palletId, 2⟩

instance : Record SourceChainFroze (Compact 4 × Bool) where
  toFields x := (⟨x.sourceChainId⟩, x.frozen)
  ofFields p := ⟨p.1.val, p.2⟩

structure SendMessage where
  message : Message
  «to» : H256
  domain : U32

instance : HasHeader SendMessage := ⟨palletId, 3⟩

instance : Record SendMessage (Message × H256 × Compact 4) where
  toFields x := (x.message, x.«to», ⟨x.domain⟩)
  ofFields p := ⟨p.1, p.2.1, p.2.2.val⟩

structure SetPoseidonHash where
  period : Compact 8
  poseidonHash : Vec UInt8

instance : HasHeader SetPoseidonHash := ⟨palletId, 4⟩

instance : Record SetPoseidonHash (Compact 8 × Vec UInt8) where
  toFields x := (x.period, x.poseidonHash)
  ofFields p := ⟨p.1, p.2⟩

structure SetBroadcaster where
  broadcasterDomain : Compact 4
  broadcaster : H256

instance : HasHeader SetBroadcaster := ⟨palletId, 5⟩

instance : Record SetBroadcaster (Compact 4 × H256) where
  toFields x := (x.broadcasterDomain, x.broadcaster)
  ofFields p := ⟨p.1, p.2⟩

structure SetWhitelistedDomains where
  value : Vec U32

instance : HasHeader SetWhitelistedDomains := ⟨palletId, 6⟩

instance : Record SetWhitelistedDomains (Vec U32) where
  toFields x := x.value
  ofFields p := ⟨p⟩

structure SetConfiguration where
  value : Configuration

instance : HasHeader SetConfiguration := ⟨palletId, 7⟩

instance : Record SetConfiguration Configuration where
  toFields x := x.value
  ofFields p := ⟨p⟩

structure SetFunctionIds where
  value : Option (H256 × H256)

instance : HasHeader SetFunctionIds := ⟨palletId, 8⟩

instance : Record SetFunctionIds (Option (H256 × H256)) where
  toFields x := x.value
  ofFields p := ⟨p⟩

structure SetStepVerificationKey where
  value : Option (Vec UInt8)

instance : HasHeader SetStepVerificationKey := ⟨palletId, 9⟩

instance : Record SetStepVerificationKey (Option (Vec UInt8)) where
  toFields x := x.value
  ofFields p := ⟨p⟩

structure SetRotateVerificationKey where
  value : Option (Vec UInt8)

instance : HasHeader SetRotateVerificationKey := ⟨palletId, 10⟩

instance : Record SetRotateVerificationKey (Option (Vec UInt8)) where
  toFields x := x.value
  ofFields p := ⟨p⟩

structure SetUpdater where
  updater : H256

instance : HasHeader SetUpdater := ⟨palletId, 12⟩

instance : Record SetUpdater H256 where
  toFields x := x.updater
  ofFields p := ⟨p⟩

structure Fulfill where
  proof : Vec UInt8
  publicValues : Vec UInt8

instance : HasHeader Fulfill := ⟨palletId, 13⟩

instance : Record Fulfill (Vec UInt8 × Vec UInt8) where
  toFields x := (x.proof, x.publicValues)
  ofFields p := ⟨p.1, p.2⟩

structure SetSp1VerificationKey where
  sp1Vk : H256

instance : HasHeader SetSp1VerificationKey := ⟨palletId, 14⟩

instance : Record SetSp1VerificationKey H256 where
  toFields x := x.sp1Vk
  ofFields p := ⟨p⟩

structure SetSyncCommitteeHash where
  period : U64
  hash : H256

instance : HasHeader SetSyncCommitteeHash := ⟨palletId, 15⟩

instance : Record SetSyncCommitteeHash (U64 × H256) where
  toFields x := (x.period, x.hash)
  ofFields p := ⟨p.1, p.2⟩

structure EnableMock where
  value : Bool

instance : HasHeader EnableMock := ⟨palletId, 16⟩

instance : Record EnableMock Bool where
  toFields x := x.value
  ofFields p := ⟨p⟩

structure MockFulfill where
  publicValues : Vec UInt8

instance : HasHeader MockFulfill := ⟨palletId, 17⟩

instance : Record MockFulfill (Vec UInt8) where
  toFields x := x.publicValues
  ofFields p := ⟨p⟩

structure FailedSendMessageTxs where
  failedTxs : Vec U32

instance : HasHeader FailedSendMessageTxs := ⟨palletId, 11⟩

instance : Record FailedSendMessageTxs (Vec (Compact 4)) where
  toFields x := x.failedTxs.map Compact.mk
  ofFields p := ⟨p.map Compact.val⟩
  ofFields_toFields x :=
    congrArg FailedSendMessageTxs.mk (Vec.map_map_of_leftInverse (fun _ => rfl) x.failedTxs)
  toFields_ofFields p := Vec.map_map_of_leftInverse (fun _ => rfl) p

end Tx

end AvailRust.Vector
