/-
  The dispatch of runtime calls.

  Every call but `AsMulti` and `UpdateRoles` decodes from its own ids and data to its own
  variant (`decode_toCall`); a variant comes from input with its own header only
  (`header_of_decode`), and no two variants share one (`header_inj`). The five calls that take
  all input that is left need to be alone; the others leave what stands behind them
  (`decode_toCall_append`).
-/
import AvailRust.Pallets.RuntimeCall

namespace AvailRust.RuntimeCall

open Scale

/-- The bytes of the call that a variant carries: `to_call` of its type. -/
def toCall : RuntimeCall → Bytes
  | .balancesTransferAllDeath x => AvailRust.toCall x
  | .balancesTransferKeepAlive x => AvailRust.toCall x
  | .balancesTransferAll x => AvailRust.toCall x
  | .utilityBatch x => AvailRust.toCall x
  | .utilityBatchAll x => AvailRust.toCall x
  | .utilityForceBatch x => AvailRust.toCall x
  | .systemRemark x => AvailRust.toCall x
  | .systemSetCode x => AvailRust.toCall x
  | .systemSetCodeWithoutChecks x => AvailRust.toCall x
  | .systemRemarkWithEvent x => AvailRust.toCall x
  | .proxyProxy x => AvailRust.toCall x
  | .proxyAddProxy x => AvailRust.toCall x
  | .proxyRemoveProxy x => AvailRust.toCall x
  | .proxyRemoveProxies x => AvailRust.toCall x
  | .proxyCreatePure x => AvailRust.toCall x
  | .proxyKillPure x => AvailRust.toCall x
  | .multisigAsMultiThreshold1 x => AvailRust.toCall x
  | .multisigAsMulti x => AvailRust.toCall x
  | .multisigApproveAsMulti x => AvailRust.toCall x
  | .multisigCancelAsMulti x => AvailRust.toCall x
  | .dataAvailabilityCreateApplicationKey x => AvailRust.toCall x
  | .dataAvailabilitySubmitData x => AvailRust.toCall x
  | .stakingBond x => AvailRust.toCall x
  | .stakingBondExtra x => AvailRust.toCall x
  | .stakingChill x => AvailRust.toCall x
  | .stakingChillOther x => AvailRust.toCall x
  | .stakingForceApplyMinCommission x => AvailRust.toCall x
  | .stakingKick x => AvailRust.toCall x
  | .stakingNominate x => AvailRust.toCall x
  | .stakingPayoutStakers x => AvailRust.toCall x
  | .stakingPayoutStakersByPage x => AvailRust.toCall x
  | .stakingReapStash x => AvailRust.toCall x
  | .stakingRebond x => AvailRust.toCall x
  | .stakingSetController x => AvailRust.toCall x
  | .stakingSetPayee x => AvailRust.toCall x
  | .stakingUnbond x => AvailRust.toCall x
  | .stakingValidate x => AvailRust.toCall x
  | .stakingWithdrawUnbonded x => AvailRust.toCall x
  | .nominationPoolsBondExtra x => AvailRust.toCall x
  | .nominationPoolsBondExtraOther x => AvailRust.toCall x
  | .nominationPoolsChill x => AvailRust.toCall x
  | .nominationPoolsClaimCommission x => AvailRust.toCall x
  | .nominationPoolsClaimPayout x => AvailRust.toCall x
  | .nominationPoolsClaimPayoutOther x => AvailRust.toCall x
  | .nominationPoolsCreate x => AvailRust.toCall x
  | .nominationPoolsCreateWithPoolId x => AvailRust.toCall x
  | .nominationPoolsJoin x => AvailRust.toCall x
  | .nominationPoolsNominate x => AvailRust.toCall x
  | .nominationPoolsSetClaimPermission x => AvailRust.toCall x
  | .nominationPoolsSetCommission x => AvailRust.toCall x
  | .nominationPoolsSetCommissionChangeRate x => AvailRust.toCall x
  | .nominationPoolsSetCommissionMax x => AvailRust.toCall x
  | .nominationPoolsSetMetadata x => AvailRust.toCall x
  | .nominationPoolsSetState x => AvailRust.toCall x
  | .nominationPoolsUnbond x => AvailRust.toCall x
  | .nominationPoolsUpdateRoles x => AvailRust.toCall x
  | .nominationPoolsWithdrawUnbonded x => AvailRust.toCall x
  | .sessionSetKeys x => AvailRust.toCall x
  | .sessionPurgeKeys x => AvailRust.toCall x
  | .timestampSet x => AvailRust.toCall x

/-- The header of the type that a variant carries, as its bytes start with it. -/
def header (call : RuntimeCall) : UInt8 × UInt8 := (call.toCall.getD 0 0, call.toCall.getD 1 0)

/-- The calls that end with bytes which are read up to the end of the input. -/
def isGreedy : RuntimeCall → Bool
  | .utilityBatch _ => true
  | .utilityBatchAll _ => true
  | .utilityForceBatch _ => true
  | .proxyProxy _ => true
  | .multisigAsMultiThreshold1 _ => true
  | _ => false

/-- Calls that the codec of their own type reads back: no `AsMulti`, and no `UpdateRoles` that
    leaves a role as it is. -/
def readable : RuntimeCall → Bool
  | .multisigAsMulti _ => false
  | .nominationPoolsUpdateRoles x =>
    x.newRoot ≠ .noop ∧ x.newNominator ≠ .noop ∧ x.newBouncer ≠ .noop
  | _ => true

/-! ## Headers -/

theorem toCall_eq_cons (call : RuntimeCall) :
    call.toCall = call.header.1 :: call.header.2 :: encode call := by
  cases call <;> rfl

theorem two_le_length_toCall (call : RuntimeCall) : 2 ≤ call.toCall.length := by
  rw [toCall_eq_cons, List.length_cons, List.length_cons]
  omega

/-- The headers in the order of the variants. -/
def headers : List (UInt8 × UInt8) := [
  headerIndex Balances.Tx.TransferAllowDeath, headerIndex Balances.Tx.TransferKeepAlive,
  headerIndex Balances.Tx.TransferAll, headerIndex Utility.Tx.Batch,
  headerIndex Utility.Tx.BatchAll, headerIndex Utility.Tx.ForceBatch,
  headerIndex System.Tx.Remark, headerIndex System.Tx.SetCode,
  headerIndex System.Tx.SetCodeWithoutChecks, headerIndex System.Tx.RemarkWithEvent,
  headerIndex Proxy.Tx.Proxy, headerIndex Proxy.Tx.AddProxy, headerIndex Proxy.Tx.RemoveProxy,
  headerIndex Proxy.Tx.RemoveProxies, headerIndex Proxy.Tx.CreatePure,
  headerIndex Proxy.Tx.KillPure, headerIndex Multisig.Tx.AsMultiThreshold1,
  headerIndex Multisig.Tx.AsMulti, headerIndex Multisig.Tx.ApproveAsMulti,
  headerIndex Multisig.Tx.CancelAsMulti, headerIndex DataAvailability.Tx.CreateApplicationKey,
  headerIndex DataAvailability.Tx.SubmitData, headerIndex Staking.Tx.Bond,
  headerIndex Staking.Tx.BondExtra, headerIndex Staking.Tx.Chill,
  headerIndex Staking.Tx.ChillOther, headerIndex Staking.Tx.ForceApplyMinCommission,
  headerIndex Staking.Tx.Kick, headerIndex Staking.Tx.Nominate,
  headerIndex Staking.Tx.PayoutStakers, headerIndex Staking.Tx.PayoutStakersByPage,
  headerIndex Staking.Tx.ReapStash, headerIndex Staking.Tx.Rebond,
  headerIndex Staking.Tx.SetController, headerIndex Staking.Tx.SetPayee,
  headerIndex Staking.Tx.Unbond, headerIndex Staking.Tx.Validate,
  headerIndex Staking.Tx.WithdrawUnbonded, headerIndex NominationPools.Tx.BondExtra,
  headerIndex NominationPools.Tx.BondExtraOther, headerIndex NominationPools.Tx.Chill,
  headerIndex NominationPools.Tx.ClaimCommission, headerIndex NominationPools.Tx.ClaimPayout,
  headerIndex NominationPools.Tx.ClaimPayoutOther, headerIndex NominationPools.Tx.Create,
  headerIndex NominationPools.Tx.CreateWithPoolId, headerIndex NominationPools.Tx.Join,
  headerIndex NominationPools.Tx.Nominate, headerIndex NominationPools.Tx.SetClaimPermission,
  headerIndex NominationPools.Tx.SetCommission,
  headerIndex NominationPools.Tx.SetCommissionChangeRate,
  headerIndex NominationPools.Tx.SetCommissionMax, headerIndex NominationPools.Tx.SetMetadata,
  headerIndex NominationPools.Tx.SetState, headerIndex NominationPools.Tx.Unbond,
  headerIndex NominationPools.Tx.UpdateRoles, headerIndex NominationPools.Tx.WithdrawUnbonded,
  headerIndex Session.Tx.SetKeys, headerIndex Session.Tx.PurgeKeys, headerIndex Timestamp.Tx.Set]

theorem headers_nodup : headers.Nodup := by decide

theorem getElem?_headers (call : RuntimeCall) : headers[call.ctorIdx]? = some call.header := by
  cases call <;> rfl

/-- Calls with one header are calls of one type. -/
theorem header_inj {call call' : RuntimeCall} (h : call.header = call'.header) :
    call.ctorIdx = call'.ctorIdx := by
  have heq := getElem?_headers call
  rw [h, ← getElem?_headers call'] at heq
  have hlt : call.ctorIdx < headers.length := by
    have hsome := getElem?_headers call
    exact (List.getElem?_eq_some_iff.mp hsome).1
  exact (List.getElem?_inj hlt headers_nodup).mp heq

/-- What an arm decodes carries the arm's header. -/
def Arm.Own (arm : Arm) : Prop :=
  ∀ d b rest call, arm.decode d b = .ok (call, rest) → call.header = arm.header

section

variable {T : Type} [HasHeader T] [Encode T] [Decode T] [NonGrowing T] [IsRuntimeCall T]

theorem arm_own (h : ∀ x : T, (toRuntimeCall x).header = headerIndex T) : (arm T).Own := by
  intro d b rest call hdecode
  obtain ⟨x, -, rfl⟩ := map_eq_ok.mp hdecode
  exact h x

/-- Behind the header of a type, the type's own decoder runs, if no other arm takes the header
    first. -/
theorem decode_arm (harm : arms.find? (fun arm => arm.header = headerIndex T) = some (arm T))
    (x : T) (b : Bytes) :
    decode (AvailRust.toCall x ++ b)
      = (toRuntimeCall <$> (decode : Decoder T)) (encode x ++ b) := by
  rw [decode_eq]
  change branch (headerIndex T) decode (encode x ++ b) = _
  unfold branch
  rw [harm]
  rfl

theorem decode_header (harm : arms.find? (fun arm => arm.header = headerIndex T) = some (arm T))
    {x : T} {b rest : Bytes} (h : decode (encode x ++ b) = .ok (x, rest)) :
    decode (AvailRust.toCall x ++ b) = .ok (toRuntimeCall x, rest) := by
  rw [decode_arm harm]
  exact map_of_ok h

theorem decode_header_alone
    (harm : arms.find? (fun arm => arm.header = headerIndex T) = some (arm T)) {x : T}
    (h : ReadsAlone x) : decode (AvailRust.toCall x) = .ok (toRuntimeCall x, []) := by
  have hx : decode (encode x ++ []) = .ok (x, []) := by
    rw [List.append_nil]
    exact h
  have hdecode := decode_header harm hx
  rwa [List.append_nil] at hdecode

end

theorem asMultiArm_own : asMultiArm.Own := by
  intro d b rest call hdecode
  obtain ⟨x, -, rfl⟩ := map_eq_ok.mp hdecode
  rfl

theorem arms_own : ∀ arm ∈ arms, arm.Own := by
  simp only [arms, List.forall_mem_cons]
  and_intros
  all_goals first | exact arm_own fun _ => rfl | exact asMultiArm_own | simp

/-- A variant is decoded from input with its own header only. -/
theorem header_of_decode {b rest : Bytes} {call : RuntimeCall} (h : decode b = .ok (call, rest)) :
    ∃ data, b = call.header.1 :: call.header.2 :: data := by
  rw [decode_eq] at h
  obtain ⟨palletId, b1, rfl, hpallet⟩ := readByte_bind_eq_ok.mp h
  obtain ⟨variantId, b2, rfl, hvariant⟩ := readByte_bind_eq_ok.mp hpallet
  unfold branch at hvariant
  rcases harm : arms.find? (fun arm => arm.header = (palletId, variantId)) with _ | arm
  · simp only [harm, fail_eq_ok] at hvariant
  · simp only [harm] at hvariant
    have hown := arms_own arm (List.mem_of_find?_eq_some harm) _ _ _ _ hvariant
    have hheader : arm.header = (palletId, variantId) := by simpa using List.find?_some harm
    rw [hown, hheader]
    exact ⟨b2, rfl⟩

/-! ## Calls are read back -/

theorem calls_readsAlone (x : Utility.Calls) : ReadsAlone x := by
  change decode (encode (Compact.mk x.length) ++ x.calls) = _
  change (decode >>= _) _ = _
  rw [bind_encode]
  rfl

theorem extrinsicCall_readsAlone (x : ExtrinsicCall) : ReadsAlone x :=
  ExtrinsicCall.decode_eq_ok.mpr ⟨rfl, rfl⟩

theorem updateRoles_readsBack {x : NominationPools.Tx.UpdateRoles}
    (h : (nominationPoolsUpdateRoles x).readable = true) : ReadsBack x := by
  have hroles : x.newRoot ≠ .noop ∧ x.newNominator ≠ .noop ∧ x.newBouncer ≠ .noop :=
    of_decide_eq_true h
  have hroot := NominationPools.ConfigOpAccount.readsBack hroles.1
  have hnominator := NominationPools.ConfigOpAccount.readsBack hroles.2.1
  have hbouncer := NominationPools.ConfigOpAccount.readsBack hroles.2.2
  exact Fields.readsBack ((readsBack x.poolId).pair (hroot.pair (hnominator.pair hbouncer)))

/-- A call that stops at its own end leaves what stands behind it. -/
theorem decode_toCall_append {call : RuntimeCall} (hgreedy : call.isGreedy = false)
    (hreadable : call.readable = true) (rest : Bytes) :
    decode (call.toCall ++ rest) = .ok (call, rest) := by
  cases call with
  | utilityBatch x => cases hgreedy
  | utilityBatchAll x => cases hgreedy
  | utilityForceBatch x => cases hgreedy
  | proxyProxy x => cases hgreedy
  | multisigAsMultiThreshold1 x => cases hgreedy
  | multisigAsMulti x => cases hreadable
  | nominationPoolsUpdateRoles x => exact decode_header rfl (updateRoles_readsBack hreadable rest)
  | _ x => exact decode_header rfl (decode_encode x rest)

/-- A greedy call takes all input, and decodes as itself when it is alone. -/
theorem decode_toCall_greedy {call : RuntimeCall} (hgreedy : call.isGreedy = true) :
    decode call.toCall = .ok (call, []) := by
  cases call with
  | utilityBatch x => exact decode_header_alone rfl (Fields.readsAlone (calls_readsAlone _))
  | utilityBatchAll x => exact decode_header_alone rfl (Fields.readsAlone (calls_readsAlone _))
  | utilityForceBatch x => exact decode_header_alone rfl (Fields.readsAlone (calls_readsAlone _))
  | proxyProxy x =>
    have hcall := extrinsicCall_readsAlone x.call
    have hfields := (readsBack x.id).pair_readsAlone
      ((readsBack x.forceProxyType).pair_readsAlone hcall)
    exact decode_header_alone rfl (Fields.readsAlone hfields)
  | multisigAsMultiThreshold1 x =>
    have hcall := extrinsicCall_readsAlone x.call
    have hfields := (readsBack x.otherSignatories).pair_readsAlone hcall
    exact decode_header_alone rfl (Fields.readsAlone hfields)
  | _ x => cases hgreedy

/-- Bytes behind a greedy call are read as part of it. -/
theorem toCall_append_greedy {call : RuntimeCall} (hgreedy : call.isGreedy = true) (b : Bytes) :
    ∃ longer : RuntimeCall, longer.isGreedy = true ∧ call.toCall ++ b = longer.toCall := by
  cases call with
  | utilityBatch x =>
    refine ⟨utilityBatch ⟨x.length, x.calls ++ b⟩, rfl, ?_⟩
    change _ :: _ :: ((encode (Compact.mk x.length) ++ x.calls) ++ b) = _
    rw [List.append_assoc]
    rfl
  | utilityBatchAll x =>
    refine ⟨utilityBatchAll ⟨x.length, x.calls ++ b⟩, rfl, ?_⟩
    change _ :: _ :: ((encode (Compact.mk x.length) ++ x.calls) ++ b) = _
    rw [List.append_assoc]
    rfl
  | utilityForceBatch x =>
    refine ⟨utilityForceBatch ⟨x.length, x.calls ++ b⟩, rfl, ?_⟩
    change _ :: _ :: ((encode (Compact.mk x.length) ++ x.calls) ++ b) = _
    rw [List.append_assoc]
    rfl
  | proxyProxy x =>
    refine ⟨proxyProxy { x with call.data := x.call.data ++ b }, rfl, ?_⟩
    change _ :: _ ::
      ((encode x.id ++ (encode x.forceProxyType ++ (_ :: _ :: x.call.data))) ++ b) = _
    rw [List.append_assoc, List.append_assoc]
    rfl
  | multisigAsMultiThreshold1 x =>
    refine ⟨multisigAsMultiThreshold1 { x with call.data := x.call.data ++ b }, rfl, ?_⟩
    change _ :: _ :: ((encode x.otherSignatories ++ (_ :: _ :: x.call.data)) ++ b) = _
    rw [List.append_assoc]
    rfl
  | _ x => cases hgreedy

/-- Nothing is left behind a greedy call. -/
theorem rest_of_greedy {call call' : RuntimeCall} (hgreedy : call.isGreedy = true) {b rest : Bytes}
    (h : decode (call.toCall ++ b) = .ok (call', rest)) : rest = [] := by
  obtain ⟨longer, hlonger, heq⟩ := toCall_append_greedy hgreedy b
  rw [heq, decode_toCall_greedy hlonger] at h
  cases h
  rfl

/-- A readable call decodes from its own bytes. -/
theorem decode_toCall {call : RuntimeCall} (hreadable : call.readable = true) :
    decode call.toCall = .ok (call, []) := by
  cases hgreedy : call.isGreedy with
  | true => exact decode_toCall_greedy hgreedy
  | false =>
    have h := decode_toCall_append hgreedy hreadable []
    rwa [List.append_nil] at h

/-! ## The dispatch as a whole -/

/-- An `AsMulti` of two, around the call that withdraws what is unbonded. -/
def asMultiBytes : Bytes := [34, 1, 2, 0, 0, 0, 10, 3, 0, 0, 0, 0, 0, 0]

/-- An `UpdateRoles` that removes all three roles. -/
def updateRoles : NominationPools.Tx.UpdateRoles := ⟨1, .remove, .remove, .remove⟩

/-- Every variant is decoded from some input. -/
theorem reachable (call : RuntimeCall) :
    ∃ (b : Bytes) (call' : RuntimeCall) (rest : Bytes),
      decode b = .ok (call', rest) ∧ call'.ctorIdx = call.ctorIdx := by
  cases call with
  | multisigAsMulti x => exact ⟨asMultiBytes, _, [], rfl, rfl⟩
  | nominationPoolsUpdateRoles x =>
    exact ⟨_, nominationPoolsUpdateRoles updateRoles, [], decode_toCall rfl, rfl⟩
  | _ x => exact ⟨_, _, [], decode_toCall rfl, rfl⟩

/-- The dispatch is faithful: apart from the two call types with codecs of their own, a call's
    bytes decode to the call; no header is shared, no arm decodes another type, and no type is
    out of reach. -/
theorem dispatch_faithful :
    (∀ call : RuntimeCall, (∀ x, call ≠ multisigAsMulti x) →
        (∀ x, call ≠ nominationPoolsUpdateRoles x) → decode call.toCall = .ok (call, [])) ∧
      (∀ call call' : RuntimeCall, call.header = call'.header → call.ctorIdx = call'.ctorIdx) ∧
      (∀ b rest (call : RuntimeCall), decode b = .ok (call, rest) →
        ∃ data, b = call.header.1 :: call.header.2 :: data) ∧
      ∀ call : RuntimeCall, ∃ (b : Bytes) (call' : RuntimeCall) (rest : Bytes),
        decode b = .ok (call', rest) ∧ call'.ctorIdx = call.ctorIdx := by
  refine ⟨?_, fun _ _ => header_inj, fun _ _ _ => header_of_decode, reachable⟩
  intro call hasMulti hupdateRoles
  apply decode_toCall
  cases call with
  | multisigAsMulti x => exact absurd rfl (hasMulti x)
  | nominationPoolsUpdateRoles x => exact absurd rfl (hupdateRoles x)
  | _ x => rfl

end AvailRust.RuntimeCall
