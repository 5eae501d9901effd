/-
  The calls of the staking pallet.
-/
import AvailRust.Core.Extrinsic

namespace AvailRust.Staking

open Scale

def palletId : UInt8 := 10

inductive RewardDestination where
  | staked
  | stash
  | controller
  | account (account : AccountId)
  | none
deriving DecidableEq

instance : Encode RewardDestination := ⟨fun
  | .staked => [0]
  | .stash => [1]
  | .controller => [2]
  | .account x => 3 :: encode x
  | .none => [4]⟩

instance : Decode RewardDestination := ⟨do
  let variant ← readByte
  if variant = 0 then pure .staked
  else if variant = 1 then pure .stash
  else if variant = 2 then pure .controller
  else if variant = 3 then .account <$> decode
  else if variant = 4 then pure .none
  else fail "Failed to decode RewardDestination. Unknown variant"⟩

instance : RoundTrips RewardDestination where
  decode_encode x rest := by
    cases x with
    | account x => exact map_of_ok (decode_encode x rest)
    | _ => rfl

instance : Canonical RewardDestination where
  encode_decode b rest x h := by
    replace h := readByte_bind_eq_ok.mp h
    obtain ⟨variant, b1, rfl, h⟩ := h
    split_ifs at h with h0 h1 h2 h3 h4 <;> try subst variant
    · exact const_of_decode rfl h
    · exact const_of_decode rfl h
    · exact const_of_decode rfl h
    · exact case_of_decode (fun _ => rfl) h
    · exact const_of_decode rfl h
    · simp at h

structure ValidatorPrefs where
  commission : U32
  blocked : Bool

instance : Record ValidatorPrefs (Compact 4 × Bool) where
  toFields x := (⟨x.commission⟩, x.blocked)
  ofFields p := ⟨p.1.val, p.2⟩

namespace Tx

structure Bond where
  value : U128
  payee : RewardDestination

instance : HasHeader Bond := ⟨palletId, 0⟩

instance : Record Bond (Compact 16 × RewardDestination) where
  toFields x := (⟨x.value⟩, x.payee)
  ofFields p := ⟨p.1.val, p.2⟩

structure BondExtra where
  value : U128

instance : HasHeader BondExtra := ⟨palletId, 1⟩

instance : Record BondExtra (Compact 16) where
  toFields x := ⟨x.value⟩
  ofFields p := ⟨p.val⟩

structure Unbond where
  value : U128

instance : HasHeader Unbond := ⟨palletId, 2⟩

instance : Record Unbond (Compact 16) where
  toFields x := ⟨x.value⟩
  ofFields p := ⟨p.val⟩

structure Rebond where
  value : U128

instance : HasHeader Rebond := ⟨palletId, 19⟩

instance : Record Rebond (Compact 16) where
  toFields x := ⟨x.value⟩
  ofFields p := ⟨p.val⟩

structure Validate where
  prefs : ValidatorPrefs

instance : HasHeader Validate := ⟨palletId, 4⟩

instance : Record Validate ValidatorPrefs where
  toFields x := x.prefs
  ofFields p := ⟨p⟩

structure Nominate where
  targets : Vec MultiAddress

instance : HasHeader Nominate := ⟨palletId, 5⟩

instance : Record Nominate (Vec MultiAddress) where
  toFields x := x.targets
  ofFields p := ⟨p⟩

structure ChillOther where
  stash : AccountId

instance : HasHeader ChillOther := ⟨palletId, 23⟩

instance : Record ChillOther AccountId where
  toFields x := x.stash
  ofFields p := ⟨p⟩

structure PayoutStakers where
  validatorStash : AccountId
  era : U32

instance : HasHeader PayoutStakers := ⟨palletId, 18⟩

instance : Record PayoutStakers (AccountId × U32) where
  toFields x := (x.validatorStash, x.era)
  ofFields p := ⟨p.1, p.2⟩

structure SetController where

instance : HasHeader SetController := ⟨palletId, 8⟩

instance : Record SetController Unit where
  toFields _ := ()
  ofFields _ := {}

structure SetPayee where
  payee : RewardDestination

instance : HasHeader SetPayee := ⟨palletId, 7⟩

instance : Record SetPayee RewardDestination where
  toFields x := x.payee
  ofFields p := ⟨p⟩

structure Chill where

instance : HasHeader Chill := ⟨palletId, 6⟩

instance : Record Chill Unit where
  toFields _ := ()
  ofFields _ := {}

structure WithdrawUnbonded where
  numSlashingSpans : U32

instance : HasHeader WithdrawUnbonded := ⟨palletId, 3⟩

instance : Record WithdrawUnbonded U32 where
  toFields x := x.numSlashingSpans
  ofFields p := ⟨p⟩

structure ReapStash where
  stash : AccountId
  numSlashingSpans : U32

instance : HasHeader ReapStash := ⟨palletId, 20⟩

instance : Record ReapStash (AccountId × U32) where
  toFields x := (x.stash, x.numSlashingSpans)
  ofFields p := ⟨p.1, p.2⟩

structure Kick where
  who : Vec MultiAddress

instance : HasHeader Kick := ⟨palletId, 21⟩

instance : Record Kick (Vec MultiAddress) where
  toFields x := x.who
  ofFields p := ⟨p⟩

structure ForceApplyMinCommission where
  validatorStash : AccountId

instance : HasHeader ForceApplyMinCommission := ⟨palletId, 24⟩

instance : Record ForceApplyMinCommission AccountId where
  toFields x := x.validatorStash
  ofFields p := ⟨p⟩

structure PayoutStakersByPage where
  validatorStash : AccountId
  era : U32
  page : U32

instance : HasHeader PayoutStakersByPage := ⟨palletId, 26⟩

instance : Record PayoutStakersByPage (AccountId × U32 × U32) where
  toFields x := (x.validatorStash, x.era, x.page)
  ofFields p := ⟨p.1, p.2.1, p.2.2⟩

end Tx

end AvailRust.Staking
