/-
  Which typed calls come back from their bytes.

  The codec laws of a record follow from those of its fields, so for most calls there is
  nothing left to prove: `lossless_calls` lists the calls whose bytes and values determine each
  other. The calls of the nomination pools pallet come back from their call bytes as well,
  `UpdateRoles` with a role left as it is excepted.
-/
import AvailRust.Pallets.Batch
import AvailRust.Pallets.Vector

namespace AvailRust

open Scale

theorem fromCall_toCall_of_roundTrips {T : Type} [HasHeader T] [Encode T] [Decode T] [RoundTrips T]
    (x : T) : fromCall T (toCall x) = .ok x := by
  rw [fromCall_toCall, (readsBack x).readsAlone]
  rfl

/-! ## Calls without other calls in them -/

/-- The bytes and the values of these calls determine each other, whatever stands behind. -/
theorem lossless_calls :
    Lossless Balances.Tx.TransferAllowDeath ∧ Lossless Balances.Tx.TransferKeepAlive ∧
    Lossless Balances.Tx.TransferAll ∧
    Lossless Session.Tx.SetKeys ∧ Lossless Session.Tx.PurgeKeys ∧
    Lossless Staking.Tx.Bond ∧ Lossless Staking.Tx.BondExtra ∧ Lossless Staking.Tx.Unbond ∧
    Lossless Staking.Tx.Rebond ∧ Lossless Staking.Tx.Validate ∧ Lossless Staking.Tx.Nominate ∧
    Lossless Staking.Tx.ChillOther ∧ Lossless Staking.Tx.PayoutStakers ∧
    Lossless Staking.Tx.SetController ∧ Lossless Staking.Tx.SetPayee ∧ Lossless Staking.Tx.Chill ∧
    Lossless Staking.Tx.WithdrawUnbonded ∧ Lossless Staking.Tx.ReapStash ∧
    Lossless Staking.Tx.Kick ∧ Lossless Staking.Tx.ForceApplyMinCommission ∧
    Lossless Staking.Tx.PayoutStakersByPage ∧
    Lossless System.Tx.Remark ∧ Lossless System.Tx.SetCode ∧
    Lossless System.Tx.SetCodeWithoutChecks ∧ Lossless System.Tx.RemarkWithEvent ∧
    Lossless Timestamp.Tx.Set ∧
    Lossless DataAvailability.Tx.CreateApplicationKey ∧ Lossless DataAvailability.Tx.SubmitData ∧
    Lossless DataAvailability.Tx.SubmitBlobMetadata ∧
    Lossless Proxy.Tx.AddProxy ∧ Lossless Proxy.Tx.RemoveProxy ∧ Lossless Proxy.Tx.RemoveProxies ∧
    Lossless Proxy.Tx.CreatePure ∧ Lossless Proxy.Tx.KillPure ∧
    Lossless Multisig.Tx.ApproveAsMulti ∧ Lossless Multisig.Tx.CancelAsMulti ∧
    Lossless Vector.Tx.FulfillCall ∧ Lossless Vector.Tx.Execute ∧
    Lossless Vector.Tx.SourceChainFroze ∧ Lossless Vector.Tx.SendMessage ∧
    Lossless Vector.Tx.SetPoseidonHash ∧ Lossless Vector.Tx.SetBroadcaster ∧
    Lossless Vector.Tx.SetWhitelistedDomains ∧ Lossless Vector.Tx.SetConfiguration ∧
    Lossless Vector.Tx.SetFunctionIds ∧ Lossless Vector.Tx.SetStepVerificationKey ∧
    Lossless Vector.Tx.SetRotateVerificationKey ∧ Lossless Vector.Tx.FailedSendMessageTxs ∧
    Lossless Vector.Tx.SetUpdater ∧ Lossless Vector.Tx.Fulfill ∧
    Lossless Vector.Tx.SetSp1VerificationKey ∧ Lossless Vector.Tx.SetSyncCommitteeHash ∧
    Lossless Vector.Tx.EnableMock ∧ Lossless Vector.Tx.MockFulfill := by
  and_intros <;> exact lossless

/-! ## Nomination pools -/

namespace NominationPools.Tx

/-- The bytes of an `UpdateRoles` give it back if and only if it leaves no role as it is. -/
theorem UpdateRoles.fromCall_toCall_iff (x : UpdateRoles) :
    fromCall UpdateRoles (toCall x) = .ok x ↔
      x.newRoot ≠ .noop ∧ x.newNominator ≠ .noop ∧ x.newBouncer ≠ .noop := by
  rw [fromCall_toCall]
  constructor
  · intro h
    rcases hdecode : (decode : Decoder UpdateRoles) (encode x) with e | ⟨y, rest⟩
    · rw [hdecode] at h
      cases h
    · rw [hdecode] at h
      cases h
      have halone : decode (encode y ++ []) = .ok (y, rest) := by
        rw [List.append_nil]
        exact hdecode
      exact of_decide_eq_true (RuntimeCall.readable_of_updateRoles halone)
  · intro h
    have hback := RuntimeCall.updateRoles_readsBack (x := x) (decide_eq_true h)
    rw [hback.readsAlone]
    rfl

/-- Every call of the pallet comes back from its bytes, but for an `UpdateRoles` with a `Noop`. -/
theorem calls_fromCall_toCall (roles : UpdateRoles) :
    (fromCall UpdateRoles (toCall roles) = .ok roles ↔
      roles.newRoot ≠ .noop ∧ roles.newNominator ≠ .noop ∧ roles.newBouncer ≠ .noop) ∧
    (∀ x : BondExtra, fromCall BondExtra (toCall x) = .ok x) ∧
    (∀ x : BondExtraOther, fromCall BondExtraOther (toCall x) = .ok x) ∧
    (∀ x : Chill, fromCall Chill (toCall x) = .ok x) ∧
    (∀ x : ClaimCommission, fromCall ClaimCommission (toCall x) = .ok x) ∧
    (∀ x : ClaimPayout, fromCall ClaimPayout (toCall x) = .ok x) ∧
    (∀ x : ClaimPayoutOther, fromCall ClaimPayoutOther (toCall x) = .ok x) ∧
    (∀ x : Create, fromCall Create (toCall x) = .ok x) ∧
    (∀ x : CreateWithPoolId, fromCall CreateWithPoolId (toCall x) = .ok x) ∧
    (∀ x : Join, fromCall Join (toCall x) = .ok x) ∧
    (∀ x : Nominate, fromCall Nominate (toCall x) = .ok x) ∧
    (∀ x : SetClaimPermission, fromCall SetClaimPermission (toCall x) = .ok x) ∧
    (∀ x : SetCommission, fromCall SetCommission (toCall x) = .ok x) ∧
    (∀ x : SetCommissionChangeRate, fromCall SetCommissionChangeRate (toCall x) = .ok x) ∧
    (∀ x : SetCommissionMax, fromCall SetCommissionMax (toCall x) = .ok x) ∧
    (∀ x : SetMetadata, fromCall SetMetadata (toCall x) = .ok x) ∧
    (∀ x : SetState, fromCall SetState (toCall x) = .ok x) ∧
    (∀ x : Unbond, fromCall Unbond (toCall x) = .ok x) ∧
    ∀ x : WithdrawUnbonded, fromCall WithdrawUnbonded (toCall x) = .ok x := by
  refine ⟨UpdateRoles.fromCall_toCall_iff roles, ?_⟩
  and_intros
  all_goals exact fromCall_toCall_of_roundTrips

/-- Pool 1, with two roles left as they are and one removed. -/
def UpdateRoles.keeping : UpdateRoles := ⟨1, .noop, .noop, .remove⟩

/-- The tag of a `Noop` is read as that of a `Set`, and there is no account behind it. -/
theorem UpdateRoles.fromCall_toCall_keeping :
    ∃ error, fromCall UpdateRoles (toCall keeping) = .error error :=
  ⟨_, rfl⟩

end NominationPools.Tx

end AvailRust
