/-
  Which bytes typed decoding accepts.

  `from_call` and `from_event` check the two ids and decode the data behind them. They do not ask
  whether the input ends there. For a type whose values end by themselves they accept the bytes of
  a value with anything behind them (`ReadsFront`); for a call that ends with raw bytes what
  stands behind is part of the value, so its bytes are all that is accepted (`ReadsWhole`).
-/
import AvailRust.Lib.Delimit
import AvailRust.Pallets.Batch
import AvailRust.Pallets.Events
import AvailRust.Pallets.Vector

namespace AvailRust

open Scale

/-- `from_call` gives a value for its bytes, whatever stands behind them, and for nothing else. -/
def ReadsFront (T : Type) [HasHeader T] [Encode T] [Decode T] : Prop :=
  ∀ (b : Bytes) (x : T), fromCall T b = .ok x ↔ ∃ rest, b = toCall x ++ rest

/-- `from_call` gives a value for its bytes and for nothing else. -/
def ReadsWhole (T : Type) [HasHeader T] [Encode T] [Decode T] : Prop :=
  ∀ (b : Bytes) (x : T), fromCall T b = .ok x ↔ b = toCall x

/-- `from_event` gives an event for its bytes, whatever stands behind them, and for nothing else. -/
def EventReadsFront (T : Type) [HasHeader T] [Encode T] [Decode T] : Prop :=
  ∀ (b : Bytes) (x : T), fromEvent T b = .ok x ↔ ∃ rest, b = toEvent x ++ rest

/-! ## What is behind the header -/

theorem checkHeader_eq_ok {data : Bytes} {header : UInt8 × UInt8} :
    checkHeader data header = .ok () ↔ ∃ tail, data = header.1 :: header.2 :: tail := by
  unfold checkHeader
  constructor
  · intro h
    split at h
    · split at h
      case isTrue => cases h
      case isFalse hids =>
        obtain ⟨hpallet, hvariant⟩ := not_or.mp hids
        rw [not_not.mp hpallet, not_not.mp hvariant]
        exact ⟨_, rfl⟩
    · cases h
  · rintro ⟨tail, rfl⟩
    simp

section

variable {T : Type} [HasHeader T] [Encode T] [Decode T] {b : Bytes} {x : T}

omit [Encode T] in
/-- The two ids, and data that decodes to the value and leaves something. -/
theorem fromCall_eq_ok : fromCall T b = .ok x ↔
    ∃ data rest, b = (headerIndex T).1 :: (headerIndex T).2 :: data ∧
      decode data = .ok (x, rest) := by
  unfold fromCall
  constructor
  · intro h
    rcases hcheck : checkHeader b (headerIndex T) with e | ⟨⟩
    · rw [hcheck] at h
      cases h
    · obtain ⟨data, rfl⟩ := checkHeader_eq_ok.mp hcheck
      rw [hcheck] at h
      replace h : Prod.fst <$> (decode : Decoder T) data = .ok x := h
      rcases hdecode : (decode : Decoder T) data with e | ⟨y, rest⟩
      · rw [hdecode] at h
        cases h
      · rw [hdecode] at h
        cases h
        exact ⟨data, rest, rfl, hdecode⟩
  · rintro ⟨data, rest, rfl, hdecode⟩
    rw [checkHeader_eq_ok.mpr ⟨data, rfl⟩]
    show Prod.fst <$> (decode : Decoder T) data = .ok x
    rw [hdecode]
    rfl

theorem readsFront [RoundTrips T] [Canonical T] : ReadsFront T := by
  intro b x
  rw [fromCall_eq_ok]
  constructor
  · rintro ⟨data, rest, rfl, hdecode⟩
    refine ⟨rest, ?_⟩
    rw [encode_decode _ _ _ hdecode]
    rfl
  · rintro ⟨rest, rfl⟩
    exact ⟨encode x ++ rest, rest, rfl, decode_encode x rest⟩

theorem readsWhole [TakesAll T] : ReadsWhole T := by
  intro b x
  rw [fromCall_eq_ok]
  constructor
  · rintro ⟨data, rest, rfl, hdecode⟩
    obtain ⟨rfl, -⟩ := (decode_iff _ _ _).mp hdecode
    rfl
  · rintro rfl
    exact ⟨encode x, [], rfl, (decode_iff _ _ _).mpr ⟨rfl, rfl⟩⟩

/-- Events and calls are read the same way. -/
theorem eventReadsFront [RoundTrips T] [Canonical T] : EventReadsFront T := readsFront

end

instance : TakesAll ExtrinsicCall := ⟨fun _ _ _ => ExtrinsicCall.decode_eq_ok⟩

instance : TakesAll Utility.Calls where
  decode_iff b rest x := by
    constructor
    · intro h
      have hrest : rest = [] := by
        obtain ⟨length, b1, -, h⟩ := bind_eq_ok.mp h
        obtain ⟨calls, b2, hcalls, h⟩ := bind_eq_ok.mp h
        obtain ⟨-, rfl⟩ := pure_eq_ok.mp h
        exact (readAll_eq_ok.mp hcalls).2
      have hb := encode_decode b rest x h
      rw [hrest, List.append_nil] at hb
      exact ⟨hb, hrest⟩
    · rintro ⟨rfl, rfl⟩
      exact RuntimeCall.calls_readsAlone x

/-- What typed decoding accepts: the bytes of a value with anything behind them, for the calls
    and events that end by themselves, and the bytes alone for the calls that end with bytes. -/
theorem typed_decoding_accepts :
    (ReadsFront Timestamp.Tx.Set ∧
     ReadsFront Session.Tx.SetKeys ∧ ReadsFront Session.Tx.PurgeKeys ∧
     ReadsFront System.Tx.Remark ∧ ReadsFront System.Tx.SetCode ∧
     ReadsFront System.Tx.SetCodeWithoutChecks ∧ ReadsFront System.Tx.RemarkWithEvent ∧
     ReadsFront Balances.Tx.TransferAllowDeath ∧ ReadsFront Balances.Tx.TransferKeepAlive ∧
     ReadsFront Balances.Tx.TransferAll ∧
     ReadsFront DataAvailability.Tx.CreateApplicationKey ∧
     ReadsFront DataAvailability.Tx.SubmitData ∧ ReadsFront DataAvailability.Tx.SubmitBlobMetadata ∧
     ReadsFront Proxy.Tx.AddProxy ∧ ReadsFront Proxy.Tx.RemoveProxy ∧
     ReadsFront Proxy.Tx.RemoveProxies ∧ ReadsFront Proxy.Tx.CreatePure ∧
     ReadsFront Proxy.Tx.KillPure ∧
     ReadsFront Multisig.Tx.ApproveAsMulti ∧ ReadsFront Multisig.Tx.CancelAsMulti ∧
     ReadsFront Staking.Tx.Bond ∧ ReadsFront Staking.Tx.BondExtra ∧ ReadsFront Staking.Tx.Unbond ∧
     ReadsFront Staking.Tx.Rebond ∧ ReadsFront Staking.Tx.Validate ∧
     ReadsFront Staking.Tx.Nominate ∧
     ReadsFront Staking.Tx.ChillOther ∧ ReadsFront Staking.Tx.PayoutStakers ∧
     ReadsFront Staking.Tx.SetController ∧ ReadsFront Staking.Tx.SetPayee ∧
     ReadsFront Staking.Tx.Chill ∧ ReadsFront Staking.Tx.WithdrawUnbonded ∧
     ReadsFront Staking.Tx.ReapStash ∧ ReadsFront Staking.Tx.Kick ∧
     ReadsFront Staking.Tx.ForceApplyMinCommission ∧ ReadsFront Staking.Tx.PayoutStakersByPage ∧
     ReadsFront NominationPools.Tx.BondExtra ∧ ReadsFront NominationPools.Tx.BondExtraOther ∧
     ReadsFront NominationPools.Tx.Chill ∧ ReadsFront NominationPools.Tx.ClaimCommission ∧
     ReadsFront NominationPools.Tx.ClaimPayout ∧ ReadsFront NominationPools.Tx.ClaimPayoutOther ∧
     ReadsFront NominationPools.Tx.Create ∧ ReadsFront NominationPools.Tx.CreateWithPoolId ∧
     ReadsFront NominationPools.Tx.Join ∧ ReadsFront NominationPools.Tx.Nominate ∧
     ReadsFront NominationPools.Tx.SetClaimPermission ∧
     ReadsFront NominationPools.Tx.SetCommission ∧
     ReadsFront NominationPools.Tx.SetCommissionChangeRate ∧
     ReadsFront NominationPools.Tx.SetCommissionMax ∧ ReadsFront NominationPools.Tx.SetMetadata ∧
     ReadsFront NominationPools.Tx.SetState ∧ ReadsFront NominationPools.Tx.Unbond ∧
     ReadsFront NominationPools.Tx.WithdrawUnbonded ∧
     ReadsFront Vector.Tx.FulfillCall ∧ ReadsFront Vector.Tx.Execute ∧
     ReadsFront Vector.Tx.SourceChainFroze ∧ ReadsFront Vector.Tx.SendMessage ∧
     ReadsFront Vector.Tx.SetPoseidonHash ∧ ReadsFront Vector.Tx.SetBroadcaster ∧
     ReadsFront Vector.Tx.SetWhitelistedDomains ∧ ReadsFront Vector.Tx.SetConfiguration ∧
     ReadsFront Vector.Tx.SetFunctionIds ∧ ReadsFront Vector.Tx.SetStepVerificationKey ∧
     ReadsFront Vector.Tx.SetRotateVerificationKey ∧ ReadsFront Vector.Tx.FailedSendMessageTxs ∧
     ReadsFront Vector.Tx.SetUpdater ∧ ReadsFront Vector.Tx.Fulfill ∧
     ReadsFront Vector.Tx.SetSp1VerificationKey ∧ ReadsFront Vector.Tx.SetSyncCommitteeHash ∧
     ReadsFront Vector.Tx.EnableMock ∧ ReadsFront Vector.Tx.MockFulfill) ∧
    (ReadsWhole Utility.Tx.Batch ∧ ReadsWhole Utility.Tx.BatchAll ∧
     ReadsWhole Utility.Tx.ForceBatch ∧
     ReadsWhole Proxy.Tx.Proxy ∧
     ReadsWhole Multisig.Tx.AsMultiThreshold1) ∧
    (EventReadsFront DataAvailability.Events.ApplicationKeyCreated ∧
     EventReadsFront DataAvailability.Events.DataSubmitted ∧
     EventReadsFront Balances.Events.Endowed ∧ EventReadsFront Balances.Events.DustLost ∧
     EventReadsFront Balances.Events.Transfer ∧ EventReadsFront Balances.Events.Reserved ∧
     EventReadsFront Balances.Events.Unreserved ∧ EventReadsFront Balances.Events.Deposit ∧
     EventReadsFront Balances.Events.Withdraw ∧ EventReadsFront Balances.Events.Slashed ∧
     EventReadsFront Balances.Events.Locked ∧ EventReadsFront Balances.Events.Unlocked ∧
     EventReadsFront Balances.Events.Frozen ∧ EventReadsFront Balances.Events.Thawed ∧
     EventReadsFront Proxy.Events.ProxyExecuted ∧ EventReadsFront Proxy.Events.PureCreated ∧
     EventReadsFront Proxy.Events.Announced ∧ EventReadsFront Proxy.Events.ProxyAdded ∧
     EventReadsFront Proxy.Events.ProxyRemoved ∧
     EventReadsFront Multisig.Events.NewMultisig ∧
     EventReadsFront Multisig.Events.MultisigApproval ∧
     EventReadsFront Multisig.Events.MultisigExecuted ∧
     EventReadsFront Multisig.Events.MultisigCancelled ∧
     EventReadsFront Staking.Events.Bonded ∧ EventReadsFront Staking.Events.Unbonded ∧
     EventReadsFront Staking.Events.ValidatorPrefsSet ∧ EventReadsFront Staking.Events.Chilled ∧
     EventReadsFront Staking.Events.EraPaid ∧ EventReadsFront Staking.Events.Rewarded ∧
     EventReadsFront Staking.Events.Slashed ∧ EventReadsFront Staking.Events.Withdraw ∧
     EventReadsFront Staking.Events.Kicked ∧ EventReadsFront Staking.Events.PayoutStarted ∧
     EventReadsFront TransactionPayment.Events.TransactionFeePaid ∧
     EventReadsFront Treasury.Events.UpdatedInactive) := by
  refine ⟨?front, ?whole, ?events⟩
  case front => and_intros <;> exact readsFront
  case whole => and_intros <;> exact readsWhole
  case events => and_intros <;> exact eventReadsFront

/-- A balance of 1 was reactivated and one of 2 deactivated. -/
def updatedInactive : Treasury.Events.UpdatedInactive := ⟨1, 2⟩

/-- A byte behind a call or an event is ignored, not refused. -/
theorem typed_decoding_accepts_longer :
    (fromCall Staking.Tx.Chill [10, 6, 0] = .ok {} ∧ toCall ({} : Staking.Tx.Chill) ≠ [10, 6, 0]) ∧
    fromEvent Treasury.Events.UpdatedInactive (toEvent updatedInactive ++ [0])
      = .ok updatedInactive ∧ toEvent updatedInactive ≠ toEvent updatedInactive ++ [0] := by
  refine ⟨⟨rfl, by decide⟩, ?_, by decide⟩
  exact (eventReadsFront _ _).mpr ⟨[0], rfl⟩

end AvailRust
