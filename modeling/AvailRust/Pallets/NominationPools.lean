/-
  The calls of the nomination pools pallet.

  `ConfigOpAccount` writes two of its cases with the same first byte, so its codec does not
  round-trip; what it reads is still as long as what it writes.
-/
import AvailRust.Core.Extrinsic

namespace AvailRust.NominationPools

open Scale

def palletId : UInt8 := 36

inductive ClaimPermission where
  | permissioned
  | permissionlessCompound
  | permissionlessWithdraw
  | permissionlessAll
deriving DecidableEq

instance : ByteEnum ClaimPermission where
  toByte
    | .permissioned => 0
    | .permissionlessCompound => 1
    | .permissionlessWithdraw => 2
    | .permissionlessAll => 3
  ofByte
    | 0 => some .permissioned
    | 1 => some .permissionlessCompound
    | 2 => some .permissionlessWithdraw
    | 3 => some .permissionlessAll
    | _ => none
  unknown := "Failed to decode ClaimPermission. Unknown variant"
  toByte_ofByte n x h := by split at h <;> cases h <;> rfl

inductive BondExtraValue where
  | freBalance (value : U128)
  | rewards
deriving DecidableEq

instance : Encode BondExtraValue := ⟨fun
  | .freBalance v => 0 :: encode v
  | .rewards => [1]⟩

instance : Decode BondExtraValue := ⟨do
  let variant ← readByte
  if variant = 0 then .freBalance <$> decode
  else if variant = 1 then pure .rewards
  else fail "Failed to decode BondExtra. Unknown variant"⟩

instance : RoundTrips BondExtraValue where
  decode_encode x rest := by
    cases x with
    | freBalance v => exact map_of_ok (decode_encode v rest)
    | rewards => rfl

instance : Canonical BondExtraValue where
  encode_decode b rest x h := by
    replace h := readByte_bind_eq_ok.mp h
    obtain ⟨variant, b1, rfl, h⟩ := h
    split_ifs at h with h0 h1 <;> try subst variant
    · exact case_of_decode (fun _ => rfl) h
    · exact const_of_decode rfl h
    · simp at h

inductive PoolState where
  | opened
  | blocked
  | destroying
deriving DecidableEq

instance : ByteEnum PoolState where
  toByte
    | .opened => 0
    | .blocked => 1
    | .destroying => 2
  ofByte
    | 0 => some .opened
    | 1 => some .blocked
    | 2 => some .destroying
    | _ => none
  unknown := "Failed to decode PoolState. Unknown variant"
  toByte_ofByte n x h := by split at h <;> cases h <;> rfl

inductive ConfigOpAccount where
  | noop
  | set (account : AccountId)
  | remove
deriving DecidableEq

-- the source writes 1 for `Noop` too
instance : Encode ConfigOpAccount := ⟨fun
  | .noop => [1]
  | .set v => 1 :: encode v
  | .remove => [2]⟩

instance : Decode ConfigOpAccount := ⟨do
  let variant ← readByte
  if variant = 0 then pure .noop
  else if variant = 1 then .set <$> decode
  else if variant = 2 then pure .remove
  else fail "Failed to decode ConfigOpAccount. Unknown variant"⟩

theorem ConfigOpAccount.readsBack {x : ConfigOpAccount} (h : x ≠ .noop) : ReadsBack x := by
  intro rest
  cases x with
  | noop => exact absurd rfl h
  | set v => exact map_of_ok (decode_encode v rest)
  | remove => rfl

/-- What is written for `Noop` is read as a `Set`, if at all; the others come back. -/
theorem ConfigOpAccount.decode_encode_eq_ok {x : ConfigOpAccount} {b rest : Bytes} :
    decode (encode x ++ b) = .ok (x, rest) ↔ x ≠ .noop ∧ rest = b := by
  constructor
  · intro h
    have hset : x ≠ .noop := by
      rintro rfl
      change (ConfigOpAccount.set <$> (decode : Decoder AccountId)) b = _ at h
      obtain ⟨v, -, heq⟩ := map_eq_ok.mp h
      cases heq
    rw [ConfigOpAccount.readsBack hset b] at h
    cases h
    exact ⟨hset, rfl⟩
  · rintro ⟨hset, rfl⟩
    exact ConfigOpAccount.readsBack hset rest

instance : NonGrowing ConfigOpAccount where
  length_le b rest x h := by
    replace h := readByte_bind_eq_ok.mp h
    obtain ⟨variant, b1, rfl, h⟩ := h
    split_ifs at h with h0 h1 h2
    · obtain ⟨rfl, rfl⟩ := pure_eq_ok.mp h
      simp [encode, Nat.add_comm]
    · obtain ⟨y, hy, rfl⟩ := map_eq_ok.mp h
      have hle := length_le _ _ _ hy
      simp only [encode, List.length_cons] at hle ⊢
      omega
    · obtain ⟨rfl, rfl⟩ := pure_eq_ok.mp h
      simp [encode, Nat.add_comm]
    · simp at h

namespace Tx

structure BondExtra where
  value : BondExtraValue

instance : HasHeader BondExtra := ⟨palletId, 1⟩

instance : Record BondExtra BondExtraValue where
  toFields x := x.value
  ofFields p := ⟨p⟩

structure BondExtraOther where
  member : MultiAddress
  value : BondExtraValue

instance : HasHeader BondExtraOther := ⟨palletId, 14⟩

instance : Record BondExtraOther (MultiAddress × BondExtraValue) where
  toFields x := (x.member, x.value)
  ofFields p := ⟨p.1, p.2⟩

structure Chill where
  poolId : U32

instance : HasHeader Chill := ⟨palletId, 13⟩

instance : Record Chill U32 where
  toFields x := x.poolId
  ofFields p := ⟨p⟩

structure ClaimCommission where
  poolId : U32

instance : HasHeader ClaimCommission := ⟨palletId, 20⟩

instance : Record ClaimCommission U32 where
  toFields x := x.poolId
  ofFields p := ⟨p⟩

structure ClaimPayout where

instance : HasHeader ClaimPayout := ⟨palletId, 2⟩

instance : Record ClaimPayout Unit where
  toFields _ := ()
  ofFields _ := {}

structure ClaimPayoutOther where
  owner : AccountId

instance : HasHeader ClaimPayoutOther := ⟨palletId, 16⟩

instance : Record ClaimPayoutOther AccountId where
  toFields x := x.owner
  ofFields p := ⟨p⟩

structure Create where
  amount : U128
  root : MultiAddress
  nominator : MultiAddress
  bouncer : MultiAddress

instance : HasHeader Create := ⟨palletId, 6⟩

instance : Record Create (Compact 16 × MultiAddress × MultiAddress × MultiAddress) where
  toFields x := (⟨x.amount⟩, x.root, x.nominator, x.bouncer)
  ofFields p := ⟨p.1.val, p.2.1, p.2.2.1, p.2.2.2⟩

structure CreateWithPoolId where
  amount : U128
  root : MultiAddress
  nominator : MultiAddress
  bouncer : MultiAddress
  poolId : U32

instance : HasHeader CreateWithPoolId := ⟨palletId, 7⟩

instance : Record CreateWithPoolId
    (Compact 16 × MultiAddress × MultiAddress × MultiAddress × U32) where
  toFields x := (⟨x.amount⟩, x.root, x.nominator, x.bouncer, x.poolId)
  ofFields p := ⟨p.1.val, p.2.1, p.2.2.1, p.2.2.2.1, p.2.2.2.2⟩

structure Join where
  amount : U128
  poolId : U32

instance : HasHeader Join := ⟨palletId, 0⟩

instance : Record Join (Compact 16 × U32) where
  toFields x := (⟨x.amount⟩, x.poolId)
  ofFields p := ⟨p.1.val, p.2⟩

structure Nominate where
  poolId : U32
  validators : Vec AccountId

instance : HasHeader Nominate := ⟨palletId, 8⟩

instance : Record Nominate (U32 × Vec AccountId) where
  toFields x := (x.poolId, x.validators)
  ofFields p := ⟨p.1, p.2⟩

structure SetClaimPermission where
  permission : ClaimPermission

instance : HasHeader SetClaimPermission := ⟨palletId, 15⟩

instance : Record SetClaimPermission ClaimPermission where
  toFields x := x.permission
  ofFields p := ⟨p⟩

structure SetCommission where
  poolId : U32
  newCommission : Option (U32 × AccountId)

instance : HasHeader SetCommission := ⟨palletId, 17⟩

instance : Record SetCommission (U32 × Option (U32 × AccountId)) where
  toFields x := (x.poolId, x.newCommission)
  ofFields p := ⟨p.1, p.2⟩

structure SetCommissionChangeRate where
  poolId : U32
  maxIncrease : U32
  minDelay : U32

instance : HasHeader SetCommissionChangeRate := ⟨palletId, 19⟩

instance : Record SetCommissionChangeRate (U32 × U32 × U32) where
  toFields x := (x.poolId, x.maxIncrease, x.minDelay)
  ofFields p := ⟨p.1, p.2.1, p.2.2⟩

structure SetCommissionMax where
  poolId : U32
  maxCommission : U32

instance : HasHeader SetCommissionMax := ⟨palletId, 18⟩

instance : Record SetCommissionMax (U32 × U32) where
  toFields x := (x.poolId, x.maxCommission)
  ofFields p := ⟨p.1, p.2⟩

structure SetMetadata where
  poolId : U32
  metadata : Vec UInt8

instance : HasHeader SetMetadata := ⟨palletId, 10⟩

instance : Record SetMetadata (U32 × Vec UInt8) where
  toFields x := (x.poolId, x.metadata)
  ofFields p := ⟨p.1, p.2⟩

structure SetState where
  poolId : U32
  state : PoolState

instance : HasHeader SetState := ⟨palletId, 9⟩

instance : Record SetState (U32 × PoolState) where
  toFields x := (x.poolId, x.state)
  ofFields p := ⟨p.1, p.2⟩

structure Unbond where
  memberAccount : MultiAddress
  unbondingPoints : U128

instance : HasHeader Unbond := ⟨palletId, 3⟩

instance : Record Unbond (MultiAddress × Compact 16) where
  toFields x := (x.memberAccount, ⟨x.unbondingPoints⟩)
  ofFields p := ⟨p.1, p.2.val⟩

structure UpdateRoles where
  poolId : U32
  newRoot : ConfigOpAccount
  newNominator : ConfigOpAccount
  newBouncer : ConfigOpAccount

instance : HasHeader UpdateRoles := ⟨palletId, 12⟩

instance : Record UpdateRoles (U32 × ConfigOpAccount × ConfigOpAccount × ConfigOpAccount) where
  toFields x := (x.poolId, x.newRoot, x.newNominator, x.newBouncer)
  ofFields p := ⟨p.1, p.2.1, p.2.2.1, p.2.2.2⟩

structure WithdrawUnbonded where
  memberAccount : MultiAddress
  numSlashingSpans : U32

instance : HasHeader WithdrawUnbonded := ⟨palletId, 5⟩

instance : Record WithdrawUnbonded (MultiAddress × U32) where
  toFields x := (x.memberAccount, x.numSlashingSpans)
  ofFields p := ⟨p.1, p.2⟩

end Tx

end AvailRust.NominationPools
