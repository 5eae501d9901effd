/-
  Runtime calls.

  `RuntimeCall` has a variant for every call type the client decodes. Its decoder reads a
  pallet id and a variant id and then the call of that header; `AsMulti` holds a call that is
  decoded as a runtime call in turn, so the two decoders call each other. `decodeDepth` bounds
  how deep; the length of the input is always enough (`decode_eq`).

  A decoder of runtime calls takes at least two bytes more than its result is encoded in
  (`length_decode`), since the encoder of runtime calls writes no ids.
-/
import AvailRust.Pallets.Basic
import AvailRust.Pallets.Multisig
import AvailRust.Pallets.NominationPools
import AvailRust.Pallets.Proxy
import AvailRust.Pallets.Staking
import AvailRust.Pallets.Utility

namespace AvailRust

open Scale

inductive RuntimeCall where
  | balancesTransferAllDeath (call : Balances.Tx.TransferAllowDeath)
  | balancesTransferKeepAlive (call : Balances.Tx.TransferKeepAlive)
  | balancesTransferAll (call : Balances.Tx.TransferAll)
  | utilityBatch (call : Utility.Tx.Batch)
  | utilityBatchAll (call : Utility.Tx.BatchAll)
  | utilityForceBatch (call : Utility.Tx.ForceBatch)
  | systemRemark (call : System.Tx.Remark)
  | systemSetCode (call : System.Tx.SetCode)
  | systemSetCodeWithoutChecks (call : System.Tx.SetCodeWithoutChecks)
  | systemRemarkWithEvent (call : System.Tx.RemarkWithEvent)
  | proxyProxy (call : Proxy.Tx.Proxy)
  | proxyAddProxy (call : Proxy.Tx.AddProxy)
  | proxyRemoveProxy (call : Proxy.Tx.RemoveProxy)
  | proxyRemoveProxies (call : Proxy.Tx.RemoveProxies)
  | proxyCreatePure (call : Proxy.Tx.CreatePure)
  | proxyKillPure (call : Proxy.Tx.KillPure)
  | multisigAsMultiThreshold1 (call : Multisig.Tx.AsMultiThreshold1)
  | multisigAsMulti (call : Multisig.Tx.AsMulti)
  | multisigApproveAsMulti (call : Multisig.Tx.ApproveAsMulti)
  | multisigCancelAsMulti (call : Multisig.Tx.CancelAsMulti)
  | dataAvailabilityCreateApplicationKey (call : DataAvailability.Tx.CreateApplicationKey)
  | dataAvailabilitySubmitData (call : DataAvailability.Tx.SubmitData)
  | stakingBond (call : Staking.Tx.Bond)
  | stakingBondExtra (call : Staking.Tx.BondExtra)
  | stakingChill (call : Staking.Tx.Chill)
  | stakingChillOther (call : Staking.Tx.ChillOther)
  | stakingForceApplyMinCommission (call : Staking.Tx.ForceApplyMinCommission)
  | stakingKick (call : Staking.Tx.Kick)
  | stakingNominate (call : Staking.Tx.Nominate)
  | stakingPayoutStakers (call : Staking.Tx.PayoutStakers)
  | stakingPayoutStakersByPage (call : Staking.Tx.PayoutStakersByPage)
  | stakingReapStash (call : Staking.Tx.ReapStash)
  | stakingRebond (call : Staking.Tx.Rebond)
  | stakingSetController (call : Staking.Tx.SetController)
  | stakingSetPayee (call : Staking.Tx.SetPayee)
  | stakingUnbond (call : Staking.Tx.Unbond)
  | stakingValidate (call : Staking.Tx.Validate)
  | stakingWithdrawUnbonded (call : Staking.Tx.WithdrawUnbonded)
  | nominationPoolsBondExtra (call : NominationPools.Tx.BondExtra)
  | nominationPoolsBondExtraOther (call : NominationPools.Tx.BondExtraOther)
  | nominationPoolsChill (call : NominationPools.Tx.Chill)
  | nominationPoolsClaimCommission (call : NominationPools.Tx.ClaimCommission)
  | nominationPoolsClaimPayout (call : NominationPools.Tx.ClaimPayout)
  | nominationPoolsClaimPayoutOther (call : NominationPools.Tx.ClaimPayoutOther)
  | nominationPoolsCreate (call : NominationPools.Tx.Create)
  | nominationPoolsCreateWithPoolId (call : NominationPools.Tx.CreateWithPoolId)
  | nominationPoolsJoin (call : NominationPools.Tx.Join)
  | nominationPoolsNominate (call : NominationPools.Tx.Nominate)
  | nominationPoolsSetClaimPermission (call : NominationPools.Tx.SetClaimPermission)
  | nominationPoolsSetCommission (call : NominationPools.Tx.SetCommission)
  | nominationPoolsSetCommissionChangeRate (call : NominationPools.Tx.SetCommissionChangeRate)
  | nominationPoolsSetCommissionMax (call : NominationPools.Tx.SetCommissionMax)
  | nominationPoolsSetMetadata (call : NominationPools.Tx.SetMetadata)
  | nominationPoolsSetState (call : NominationPools.Tx.SetState)
  | nominationPoolsUnbond (call : NominationPools.Tx.Unbond)
  | nominationPoolsUpdateRoles (call : NominationPools.Tx.UpdateRoles)
  | nominationPoolsWithdrawUnbonded (call : NominationPools.Tx.WithdrawUnbonded)
  | sessionSetKeys (call : Session.Tx.SetKeys)
  | sessionPurgeKeys (call : Session.Tx.PurgeKeys)
  | timestampSet (call : Timestamp.Tx.Set)

instance : Encode RuntimeCall := ⟨fun
  | .balancesTransferAllDeath x => encode x
  | .balancesTransferKeepAlive x => encode x
  | .balancesTransferAll x => encode x
  | .utilityBatch x => encode x
  | .utilityBatchAll x => encode x
  | .utilityForceBatch x => encode x
  | .systemRemark x => encode x
  | .systemSetCode x => encode x
  | .systemSetCodeWithoutChecks x => encode x
  | .systemRemarkWithEvent x => encode x
  | .proxyProxy x => encode x
  | .proxyAddProxy x => encode x
  | .proxyRemoveProxy x => encode x
  | .proxyRemoveProxies x => encode x
  | .proxyCreatePure x => encode x
  | .proxyKillPure x => encode x
  | .multisigAsMultiThreshold1 x => encode x
  | .multisigAsMulti x => encode x
  | .multisigApproveAsMulti x => encode x
  | .multisigCancelAsMulti x => encode x
  | .dataAvailabilityCreateApplicationKey x => encode x
  | .dataAvailabilitySubmitData x => encode x
  | .stakingBond x => encode x
  | .stakingBondExtra x => encode x
  | .stakingChill x => encode x
  | .stakingChillOther x => encode x
  | .stakingForceApplyMinCommission x => encode x
  | .stakingKick x => encode x
  | .stakingNominate x => encode x
  | .stakingPayoutStakers x => encode x
  | .stakingPayoutStakersByPage x => encode x
  | .stakingReapStash x => encode x
  | .stakingRebond x => encode x
  | .stakingSetController x => encode x
  | .stakingSetPayee x => encode x
  | .stakingUnbond x => encode x
  | .stakingValidate x => encode x
  | .stakingWithdrawUnbonded x => encode x
  | .nominationPoolsBondExtra x => encode x
  | .nominationPoolsBondExtraOther x => encode x
  | .nominationPoolsChill x => encode x
  | .nominationPoolsClaimCommission x => encode x
  | .nominationPoolsClaimPayout x => encode x
  | .nominationPoolsClaimPayoutOther x => encode x
  | .nominationPoolsCreate x => encode x
  | .nominationPoolsCreateWithPoolId x => encode x
  | .nominationPoolsJoin x => encode x
  | .nominationPoolsNominate x => encode x
  | .nominationPoolsSetClaimPermission x => encode x
  | .nominationPoolsSetCommission x => encode x
  | .nominationPoolsSetCommissionChangeRate x => encode x
  | .nominationPoolsSetCommissionMax x => encode x
  | .nominationPoolsSetMetadata x => encode x
  | .nominationPoolsSetState x => encode x
  | .nominationPoolsUnbond x => encode x
  | .nominationPoolsUpdateRoles x => encode x
  | .nominationPoolsWithdrawUnbonded x => encode x
  | .sessionSetKeys x => encode x
  | .sessionPurgeKeys x => encode x
  | .timestampSet x => encode x⟩

/-- A call type with a variant of `RuntimeCall`, which is encoded as the call is. -/
class IsRuntimeCall (T : Type) [Encode T] where
  toRuntimeCall : T → RuntimeCall
  encode_toRuntimeCall : ∀ x, encode (toRuntimeCall x) = encode x

export IsRuntimeCall (toRuntimeCall)

instance : IsRuntimeCall Balances.Tx.TransferAllowDeath := ⟨.balancesTransferAllDeath, fun _ => rfl⟩
instance : IsRuntimeCall Balances.Tx.TransferKeepAlive := ⟨.balancesTransferKeepAlive, fun _ => rfl⟩
instance : IsRuntimeCall Balances.Tx.TransferAll := ⟨.balancesTransferAll, fun _ => rfl⟩
instance : IsRuntimeCall Utility.Tx.Batch := ⟨.utilityBatch, fun _ => rfl⟩
instance : IsRuntimeCall Utility.Tx.BatchAll := ⟨.utilityBatchAll, fun _ => rfl⟩
instance : IsRuntimeCall Utility.Tx.ForceBatch := ⟨.utilityForceBatch, fun _ => rfl⟩
instance : IsRuntimeCall System.Tx.Remark := ⟨.systemRemark, fun _ => rfl⟩
instance : IsRuntimeCall System.Tx.SetCode := ⟨.systemSetCode, fun _ => rfl⟩
instance : IsRuntimeCall System.Tx.SetCodeWithoutChecks :=
  ⟨.systemSetCodeWithoutChecks, fun _ => rfl⟩
instance : IsRuntimeCall System.Tx.RemarkWithEvent := ⟨.systemRemarkWithEvent, fun _ => rfl⟩
instance : IsRuntimeCall Proxy.Tx.Proxy := ⟨.proxyProxy, fun _ => rfl⟩
instance : IsRuntimeCall Proxy.Tx.AddProxy := ⟨.proxyAddProxy, fun _ => rfl⟩
instance : IsRuntimeCall Proxy.Tx.RemoveProxy := ⟨.proxyRemoveProxy, fun _ => rfl⟩
instance : IsRuntimeCall Proxy.Tx.RemoveProxies := ⟨.proxyRemoveProxies, fun _ => rfl⟩
instance : IsRuntimeCall Proxy.Tx.CreatePure := ⟨.proxyCreatePure, fun _ => rfl⟩
instance : IsRuntimeCall Proxy.Tx.KillPure := ⟨.proxyKillPure, fun _ => rfl⟩
instance : IsRuntimeCall Multisig.Tx.AsMultiThreshold1 := ⟨.multisigAsMultiThreshold1, fun _ => rfl⟩
instance : IsRuntimeCall Multisig.Tx.AsMulti := ⟨.multisigAsMulti, fun _ => rfl⟩
instance : IsRuntimeCall Multisig.Tx.ApproveAsMulti := ⟨.multisigApproveAsMulti, fun _ => rfl⟩
instance : IsRuntimeCall Multisig.Tx.CancelAsMulti := ⟨.multisigCancelAsMulti, fun _ => rfl⟩
instance : IsRuntimeCall DataAvailability.Tx.CreateApplicationKey :=
  ⟨.dataAvailabilityCreateApplicationKey, fun _ => rfl⟩
instance : IsRuntimeCall DataAvailability.Tx.SubmitData :=
  ⟨.dataAvailabilitySubmitData, fun _ => rfl⟩
instance : IsRuntimeCall Staking.Tx.Bond := ⟨.stakingBond, fun _ => rfl⟩
instance : IsRuntimeCall Staking.Tx.BondExtra := ⟨.stakingBondExtra, fun _ => rfl⟩
instance : IsRuntimeCall Staking.Tx.Chill := ⟨.stakingChill, fun _ => rfl⟩
instance : IsRuntimeCall Staking.Tx.ChillOther := ⟨.stakingChillOther, fun _ => rfl⟩
instance : IsRuntimeCall Staking.Tx.ForceApplyMinCommission :=
  ⟨.stakingForceApplyMinCommission, fun _ => rfl⟩
instance : IsRuntimeCall Staking.Tx.Kick := ⟨.stakingKick, fun _ => rfl⟩
instance : IsRuntimeCall Staking.Tx.Nominate := ⟨.stakingNominate, fun _ => rfl⟩
instance : IsRuntimeCall Staking.Tx.PayoutStakers := ⟨.stakingPayoutStakers, fun _ => rfl⟩
instance : IsRuntimeCall Staking.Tx.PayoutStakersByPage :=
  ⟨.stakingPayoutStakersByPage, fun _ => rfl⟩
instance : IsRuntimeCall Staking.Tx.ReapStash := ⟨.stakingReapStash, fun _ => rfl⟩
instance : IsRuntimeCall Staking.Tx.Rebond := ⟨.stakingRebond, fun _ => rfl⟩
instance : IsRuntimeCall Staking.Tx.SetController := ⟨.stakingSetController, fun _ => rfl⟩
instance : IsRuntimeCall Staking.Tx.SetPayee := ⟨.stakingSetPayee, fun _ => rfl⟩
instance : IsRuntimeCall Staking.Tx.Unbond := ⟨.stakingUnbond, fun _ => rfl⟩
instance : IsRuntimeCall Staking.Tx.Validate := ⟨.stakingValidate, fun _ => rfl⟩
instance : IsRuntimeCall Staking.Tx.WithdrawUnbonded := ⟨.stakingWithdrawUnbonded, fun _ => rfl⟩
instance : IsRuntimeCall NominationPools.Tx.BondExtra := ⟨.nominationPoolsBondExtra, fun _ => rfl⟩
instance : IsRuntimeCall NominationPools.Tx.BondExtraOther :=
  ⟨.nominationPoolsBondExtraOther, fun _ => rfl⟩
instance : IsRuntimeCall NominationPools.Tx.Chill := ⟨.nominationPoolsChill, fun _ => rfl⟩
instance : IsRuntimeCall NominationPools.Tx.ClaimCommission :=
  ⟨.nominationPoolsClaimCommission, fun _ => rfl⟩
instance : IsRuntimeCall NominationPools.Tx.ClaimPayout :=
  ⟨.nominationPoolsClaimPayout, fun _ => rfl⟩
instance : IsRuntimeCall NominationPools.Tx.ClaimPayoutOther :=
  ⟨.nominationPoolsClaimPayoutOther, fun _ => rfl⟩
instance : IsRuntimeCall NominationPools.Tx.Create := ⟨.nominationPoolsCreate, fun _ => rfl⟩
instance : IsRuntimeCall NominationPools.Tx.CreateWithPoolId :=
  ⟨.nominationPoolsCreateWithPoolId, fun _ => rfl⟩
instance : IsRuntimeCall NominationPools.Tx.Join := ⟨.nominationPoolsJoin, fun _ => rfl⟩
instance : IsRuntimeCall NominationPools.Tx.Nominate := ⟨.nominationPoolsNominate, fun _ => rfl⟩
instance : IsRuntimeCall NominationPools.Tx.SetClaimPermission :=
  ⟨.nominationPoolsSetClaimPermission, fun _ => rfl⟩
instance : IsRuntimeCall NominationPools.Tx.SetCommission :=
  ⟨.nominationPoolsSetCommission, fun _ => rfl⟩
instance : IsRuntimeCall NominationPools.Tx.SetCommissionChangeRate :=
  ⟨.nominationPoolsSetCommissionChangeRate, fun _ => rfl⟩
instance : IsRuntimeCall NominationPools.Tx.SetCommissionMax :=
  ⟨.nominationPoolsSetCommissionMax, fun _ => rfl⟩
instance : IsRuntimeCall NominationPools.Tx.SetMetadata :=
  ⟨.nominationPoolsSetMetadata, fun _ => rfl⟩
instance : IsRuntimeCall NominationPools.Tx.SetState := ⟨.nominationPoolsSetState, fun _ => rfl⟩
instance : IsRuntimeCall NominationPools.Tx.Unbond := ⟨.nominationPoolsUnbond, fun _ => rfl⟩
instance : IsRuntimeCall NominationPools.Tx.UpdateRoles :=
  ⟨.nominationPoolsUpdateRoles, fun _ => rfl⟩
instance : IsRuntimeCall NominationPools.Tx.WithdrawUnbonded :=
  ⟨.nominationPoolsWithdrawUnbonded, fun _ => rfl⟩
instance : IsRuntimeCall Session.Tx.SetKeys := ⟨.sessionSetKeys, fun _ => rfl⟩
instance : IsRuntimeCall Session.Tx.PurgeKeys := ⟨.sessionPurgeKeys, fun _ => rfl⟩
instance : IsRuntimeCall Timestamp.Tx.Set := ⟨.timestampSet, fun _ => rfl⟩

namespace RuntimeCall

/-! ## Decoding -/

/-- One branch of the decoder: a header, and what is decoded behind it. Only the branch of
    `AsMulti` uses the decoder it is given. -/
structure Arm where
  header : UInt8 × UInt8
  decode : Decoder Multisig.Tx.AsMulti → Decoder RuntimeCall
  decode_congr : ∀ d d' b, d b = d' b → decode d b = decode d' b
  length_decode : ∀ d, (∀ b rest x, d b = .ok (x, rest) →
      (encode x).length + rest.length ≤ b.length) →
    ∀ b rest call, decode d b = .ok (call, rest) → (encode call).length + rest.length ≤ b.length

def arm (T : Type) [HasHeader T] [Encode T] [Decode T] [NonGrowing T] [IsRuntimeCall T] : Arm where
  header := headerIndex T
  decode _ := toRuntimeCall <$> (Decode.decode : Decoder T)
  decode_congr _ _ _ _ := rfl
  length_decode _ _ b rest call h := by
    obtain ⟨x, hx, rfl⟩ := map_eq_ok.mp h
    rw [IsRuntimeCall.encode_toRuntimeCall]
    exact length_le b rest x hx

def asMultiArm : Arm where
  header := headerIndex Multisig.Tx.AsMulti
  decode asMulti := toRuntimeCall <$> asMulti
  decode_congr d d' b h := by
    change (d b >>= _) = (d' b >>= _)
    rw [h]
  length_decode d hd b rest call h := by
    obtain ⟨x, hx, rfl⟩ := map_eq_ok.mp h
    exact hd b rest x hx

/-- The branches, in the order of the source. -/
def arms : List Arm := [
  arm Timestamp.Tx.Set, arm Session.Tx.SetKeys, arm Session.Tx.PurgeKeys,
  arm Balances.Tx.TransferAllowDeath, arm Balances.Tx.TransferKeepAlive,
  arm Balances.Tx.TransferAll, arm Utility.Tx.Batch, arm Utility.Tx.BatchAll,
  arm Utility.Tx.ForceBatch, arm System.Tx.Remark, arm System.Tx.SetCode,
  arm System.Tx.SetCodeWithoutChecks, arm System.Tx.RemarkWithEvent, arm Proxy.Tx.Proxy,
  arm Proxy.Tx.AddProxy, arm Proxy.Tx.CreatePure, arm Proxy.Tx.KillPure,
  arm Proxy.Tx.RemoveProxies, arm Proxy.Tx.RemoveProxy, arm Multisig.Tx.ApproveAsMulti,
  asMultiArm, arm Multisig.Tx.AsMultiThreshold1, arm Multisig.Tx.CancelAsMulti,
  arm DataAvailability.Tx.CreateApplicationKey, arm DataAvailability.Tx.SubmitData,
  arm Staking.Tx.Bond, arm Staking.Tx.BondExtra, arm Staking.Tx.Chill, arm Staking.Tx.ChillOther,
  arm Staking.Tx.ForceApplyMinCommission, arm Staking.Tx.Kick, arm Staking.Tx.Nominate,
  arm Staking.Tx.PayoutStakers, arm Staking.Tx.PayoutStakersByPage, arm Staking.Tx.ReapStash,
  arm Staking.Tx.Rebond, arm Staking.Tx.SetController, arm Staking.Tx.SetPayee,
  arm Staking.Tx.Unbond, arm Staking.Tx.Validate, arm Staking.Tx.WithdrawUnbonded,
  arm NominationPools.Tx.BondExtra, arm NominationPools.Tx.BondExtraOther,
  arm NominationPools.Tx.Chill, arm NominationPools.Tx.ClaimCommission,
  arm NominationPools.Tx.ClaimPayout, arm NominationPools.Tx.ClaimPayoutOther,
  arm NominationPools.Tx.Create, arm NominationPools.Tx.CreateWithPoolId,
  arm NominationPools.Tx.Join, arm NominationPools.Tx.Nominate,
  arm NominationPools.Tx.SetClaimPermission, arm NominationPools.Tx.SetCommission,
  arm NominationPools.Tx.SetCommissionChangeRate, arm NominationPools.Tx.SetCommissionMax,
  arm NominationPools.Tx.SetMetadata, arm NominationPools.Tx.SetState,
  arm NominationPools.Tx.Unbond, arm NominationPools.Tx.UpdateRoles,
  arm NominationPools.Tx.WithdrawUnbonded]

/-- What is decoded behind a header. -/
def branch (header : UInt8 × UInt8) (asMulti : Decoder Multisig.Tx.AsMulti) :
    Decoder RuntimeCall :=
  match arms.find? (fun arm => arm.header = header) with
  | some arm => arm.decode asMulti
  | none => fail "Failed to decode runtime call"

/-- The decoder of runtime calls, given one of `AsMulti`. -/
def dispatch (asMulti : Decoder Multisig.Tx.AsMulti) : Decoder RuntimeCall := do
  let palletId ← readByte
  let variantId ← readByte
  branch (palletId, variantId) asMulti

end RuntimeCall

/-- The decoder of `AsMulti`, given one of runtime calls: the call is encoded again and read as
    ids and data. -/
def Multisig.Tx.AsMulti.decodeWith (runtimeCall : Decoder RuntimeCall) :
    Decoder Multisig.Tx.AsMulti := do
  let threshold ← decode
  let otherSignatories ← decode
  let maybeTimepoint ← decode
  let call ← runtimeCall
  let maxWeight ← decode
  match (decode : Decoder ExtrinsicCall) (encode call) with
  | .error e => fail e
  | .ok (call, _) => pure { threshold, otherSignatories, maybeTimepoint, call, maxWeight }

namespace RuntimeCall

/-- Runtime calls at most `n` deep in `AsMulti`s. -/
def decodeDepth : Nat → Decoder RuntimeCall
  | 0 => fail "too deep"
  | n + 1 => dispatch (Multisig.Tx.AsMulti.decodeWith (decodeDepth n))

instance : Decode RuntimeCall := ⟨fun b => decodeDepth (b.length + 1) b⟩

instance : Decode Multisig.Tx.AsMulti := ⟨Multisig.Tx.AsMulti.decodeWith decode⟩

/-! ## The depth does not matter -/

theorem branch_congr {header : UInt8 × UInt8} {d d' : Decoder Multisig.Tx.AsMulti} {b : Bytes}
    (h : d b = d' b) : branch header d b = branch header d' b := by
  unfold branch
  rcases arms.find? _ with _ | arm
  · rfl
  · exact arm.decode_congr d d' b h

theorem dispatch_congr {d d' : Decoder Multisig.Tx.AsMulti} {b : Bytes}
    (h : ∀ b1, b1.length < b.length → d b1 = d' b1) : dispatch d b = dispatch d' b := by
  rcases b with _ | ⟨palletId, _ | ⟨variantId, b⟩⟩
  · rfl
  · rfl
  · exact branch_congr (h b (by simp only [List.length_cons]; omega))

theorem decodeWith_congr {r r' : Decoder RuntimeCall} {b : Bytes}
    (h : ∀ b1, b1.length ≤ b.length → r b1 = r' b1) :
    Multisig.Tx.AsMulti.decodeWith r b = Multisig.Tx.AsMulti.decodeWith r' b := by
  unfold Multisig.Tx.AsMulti.decodeWith
  refine decode_bind_congr fun threshold b1 h1 => ?_
  refine decode_bind_congr fun otherSignatories b2 h2 => ?_
  refine decode_bind_congr fun maybeTimepoint b3 h3 => ?_
  change (r b3 >>= _) = (r' b3 >>= _)
  rw [h b3 (h3.trans (h2.trans h1))]

/-- Every depth above the length of the input gives the same. -/
theorem decodeDepth_enough (n m : Nat) (b : Bytes) (hn : b.length < n) (hm : b.length < m) :
    decodeDepth n b = decodeDepth m b := by
  induction n generalizing m b with
  | zero => omega
  | succ n ih =>
    obtain ⟨m, rfl⟩ : ∃ k, m = k + 1 := ⟨m - 1, by omega⟩
    refine dispatch_congr fun b1 h1 => decodeWith_congr fun b2 h2 => ?_
    exact ih m b2 (by omega) (by omega)

/-- The decoders of runtime calls and of `AsMulti` call each other. -/
theorem decode_eq (b : Bytes) : (decode : Decoder RuntimeCall) b = dispatch decode b := by
  refine dispatch_congr fun b1 h1 => decodeWith_congr fun b2 h2 => ?_
  exact decodeDepth_enough _ _ b2 (by omega) (by omega)

/-! ## What is decoded is longer than what is encoded -/

theorem length_branch {header : UInt8 × UInt8} {d : Decoder Multisig.Tx.AsMulti}
    (hd : ∀ b rest x, d b = .ok (x, rest) → (encode x).length + rest.length ≤ b.length)
    {b rest : Bytes} {call : RuntimeCall} (h : branch header d b = .ok (call, rest)) :
    (encode call).length + rest.length ≤ b.length := by
  unfold branch at h
  rcases harm : arms.find? (fun arm => arm.header = header) with _ | arm
  · simp only [harm, fail_eq_ok] at h
  · simp only [harm] at h
    exact arm.length_decode d hd b rest call h

/-- If the decoder of `AsMulti` takes at least as many bytes as it gives, the decoder of runtime
    calls takes the two ids besides. -/
theorem length_dispatch {d : Decoder Multisig.Tx.AsMulti}
    (hd : ∀ b rest x, d b = .ok (x, rest) → (encode x).length + rest.length ≤ b.length)
    {b rest : Bytes} {call : RuntimeCall} (h : dispatch d b = .ok (call, rest)) :
    (encode call).length + 2 + rest.length ≤ b.length := by
  obtain ⟨palletId, b1, rfl, hpallet⟩ := readByte_bind_eq_ok.mp h
  obtain ⟨variantId, b2, rfl, hvariant⟩ := readByte_bind_eq_ok.mp hpallet
  have hle := length_branch hd hvariant
  simp only [List.length_cons]
  omega

theorem length_decodeWith {r : Decoder RuntimeCall}
    (hr : ∀ b rest call, r b = .ok (call, rest) →
      (encode call).length + 2 + rest.length ≤ b.length)
    {b rest : Bytes} {x : Multisig.Tx.AsMulti}
    (h : Multisig.Tx.AsMulti.decodeWith r b = .ok (x, rest)) :
    (encode x).length + rest.length ≤ b.length := by
  obtain ⟨threshold, b1, h1, h⟩ := bind_eq_ok.mp h
  obtain ⟨otherSignatories, b2, h2, h⟩ := bind_eq_ok.mp h
  obtain ⟨maybeTimepoint, b3, h3, h⟩ := bind_eq_ok.mp h
  obtain ⟨call, b4, h4, h⟩ := bind_eq_ok.mp h
  obtain ⟨maxWeight, b5, h5, h⟩ := bind_eq_ok.mp h
  have e1 := length_le _ _ _ h1
  have e2 := length_le _ _ _ h2
  have e3 := length_le _ _ _ h3
  have e4 := hr _ _ _ h4
  have e5 := length_le _ _ _ h5
  rcases hcall : (decode : Decoder ExtrinsicCall) (encode call) with e | ⟨extrinsicCall, left⟩
  · simp only [hcall, fail_eq_ok] at h
  · simp only [hcall] at h
    obtain ⟨rfl, rfl⟩ := pure_eq_ok.mp h
    have ecall := length_le _ _ _ hcall
    show (encode threshold ++ encode otherSignatories ++ encode maybeTimepoint
      ++ encode extrinsicCall ++ encode maxWeight).length + b5.length ≤ b.length
    simp only [List.length_append]
    omega

theorem length_decodeDepth (n : Nat) {b rest : Bytes} {call : RuntimeCall}
    (h : decodeDepth n b = .ok (call, rest)) :
    (encode call).length + 2 + rest.length ≤ b.length := by
  induction n generalizing b rest call with
  | zero => simp [decodeDepth] at h
  | succ n ih => exact length_dispatch (fun b rest x => length_decodeWith fun b rest call => ih) h

theorem length_decode {b rest : Bytes} {call : RuntimeCall} (h : decode b = .ok (call, rest)) :
    (encode call).length + 2 + rest.length ≤ b.length :=
  length_decodeDepth (b.length + 1) h

/-- No runtime call comes back from its own encoding. -/
theorem decode_encode_never (call : RuntimeCall) :
    ¬ ∃ rest, decode (encode call) = .ok (call, rest) := by
  rintro ⟨rest, h⟩
  have hle := length_decode h
  omega

/-- The five of `set(5)` is taken for a pallet id, and there is no variant id. -/
theorem decode_encode_not_set :
    decode (encode (timestampSet ⟨5⟩)) = (.error "Not enough data to fill buffer" :
      Except String (RuntimeCall × Bytes)) := by
  rfl

end RuntimeCall

end AvailRust
