/-
  The events of the pallets that can be written as well as read.

  An event is the two ids of its type and its fields, in the order of the structure. Amounts are
  written at their full width; the product that a record is coded as says which numbers are
  compact. The events of the utility and system pallets have no encoder in the source and are
  left out.
-/
import AvailRust.Pallets.Basic
import AvailRust.Pallets.DispatchError
import AvailRust.Pallets.Multisig
import AvailRust.Pallets.Proxy
import AvailRust.Pallets.Staking

namespace AvailRust

open Scale

/-- `TransactionEventEncodable::to_event`. -/
def toEvent {T : Type} [HasHeader T] [Encode T] (x : T) : Bytes :=
  (headerIndex T).1 :: (headerIndex T).2 :: encode x

/-- `TransactionEventDecodable::from_event`: what follows the value is dropped. -/
def fromEvent (T : Type) [HasHeader T] [Decode T] (event : Bytes) : Except String T := do
  checkHeader event (headerIndex T)
  Prod.fst <$> (decode : Decoder T) (event.drop 2)

/-! ## DataAvailability -/

namespace DataAvailability

namespace Events

structure ApplicationKeyCreated where
  key : Vec UInt8
  owner : AccountId
  id : U32

instance : HasHeader ApplicationKeyCreated := ⟨palletId, 0⟩

instance : Record ApplicationKeyCreated (Vec UInt8 × AccountId × Compact 4) where
  toFields x := (x.key, x.owner, ⟨x.id⟩)
  ofFields p := ⟨p.1, p.2.1, p.2.2.val⟩

structure DataSubmitted where
  who : AccountId
  dataHash : H256

instance : HasHeader DataSubmitted := ⟨palletId, 1⟩

instance : Record DataSubmitted (AccountId × H256) where
  toFields x := (x.who, x.dataHash)
  ofFields p := ⟨p.1, p.2⟩

end Events

end DataAvailability

/-! ## Balances -/

namespace Balances

namespace Events

structure Endowed where
  account : AccountId
  freeBalance : U128

instance : HasHeader Endowed := ⟨palletId, 0⟩

instance : Record Endowed (AccountId × U128) where
  toFields x := (x.account, x.freeBalance)
  ofFields p := ⟨p.1, p.2⟩

structure DustLost where
  account : AccountId
  amount : U128

instance : HasHeader DustLost := ⟨palletId, 1⟩

instance : Record DustLost (AccountId × U128) where
  toFields x := (x.account, x.amount)
  ofFields p := ⟨p.1, p.2⟩

structure Transfer where
  «from» : AccountId
  «to» : AccountId
  amount : U128

instance : HasHeader Transfer := ⟨palletId, 2⟩

instance : Record Transfer (AccountId × AccountId × U128) where
  toFields x := (x.«from», x.«to», x.amount)
  ofFields p := ⟨p.1, p.2.1, p.2.2⟩

/-- What the events about the balance of one account hold. -/
structure Change where
  who : AccountId
  amount : U128

instance : Record Change (AccountId × U128) where
  toFields x := (x.who, x.amount)
  ofFields p := ⟨p.1, p.2⟩

structure Reserved extends Change

instance : HasHeader Reserved := ⟨palletId, 4⟩

instance : Record Reserved Change where
  toFields x := x.toChange
  ofFields p := ⟨p⟩

structure Unreserved extends Change

instance : HasHeader Unreserved := ⟨palletId, 5⟩

instance : Record Unreserved Change where
  toFields x := x.toChange
  ofFields p := ⟨p⟩

structure Deposit extends Change

instance : HasHeader Deposit := ⟨palletId, 7⟩

instance : Record Deposit Change where
  toFields x := x.toChange
  ofFields p := ⟨p⟩

structure Withdraw extends Change

instance : HasHeader Withdraw := ⟨palletId, 8⟩

instance : Record Withdraw Change where
  toFields x := x.toChange
  ofFields p := ⟨p⟩

structure Slashed extends Change

instance : HasHeader Slashed := ⟨palletId, 9⟩

instance : Record Slashed Change where
  toFields x := x.toChange
  ofFields p := ⟨p⟩

structure Locked extends Change

instance : HasHeader Locked := ⟨palletId, 17⟩

instance : Record Locked Change where
  toFields x := x.toChange
  ofFields p := ⟨p⟩

structure Unlocked extends Change

instance : HasHeader Unlocked := ⟨palletId, 18⟩

instance : Record Unlocked Change where
  toFields x := x.toChange
  ofFields p := ⟨p⟩

structure Frozen extends Change

instance : HasHeader Frozen := ⟨palletId, 19⟩

instance : Record Frozen Change where
  toFields x := x.toChange
  ofFields p := ⟨p⟩

structure Thawed extends Change

instance : HasHeader Thawed := ⟨palletId, 20⟩

instance : Record Thawed Change where
  toFields x := x.toChange
  ofFields p := ⟨p⟩

end Events

end Balances

/-! ## Proxy -/

namespace Proxy

namespace Events

structure ProxyExecuted where
  result : System.DispatchResult

instance : HasHeader ProxyExecuted := ⟨palletId, 0⟩

instance : Record ProxyExecuted System.DispatchResult where
  toFields x := x.result
  ofFields p := ⟨p⟩

structure PureCreated where
  pure : AccountId
  who : AccountId
  proxyType : ProxyType
  disambiguationIndex : U16

instance : HasHeader PureCreated := ⟨palletId, 1⟩

instance : Record PureCreated (AccountId × AccountId × ProxyType × U16) where
  toFields x := (x.pure, x.who, x.proxyType, x.disambiguationIndex)
  ofFields p := ⟨p.1, p.2.1, p.2.2.1, p.2.2.2⟩

structure Announced where
  real : AccountId
  proxy : AccountId
  callHash : H256

instance : HasHeader Announced := ⟨palletId, 2⟩

instance : Record Announced (AccountId × AccountId × H256) where
  toFields x := (x.real, x.proxy, x.callHash)
  ofFields p := ⟨p.1, p.2.1, p.2.2⟩

structure ProxyAdded where
  delegator : AccountId
  delegatee : AccountId
  proxyType : ProxyType
  delay : U32

instance : HasHeader ProxyAdded := ⟨palletId, 3⟩

instance : Record ProxyAdded (AccountId × AccountId × ProxyType × U32) where
  toFields x := (x.delegator, x.delegatee, x.proxyType, x.delay)
  ofFields p := ⟨p.1, p.2.1, p.2.2.1, p.2.2.2⟩

structure ProxyRemoved where
  delegator : AccountId
  delegatee : AccountId
  proxyType : ProxyType
  delay : U32

instance : HasHeader ProxyRemoved := ⟨palletId, 4⟩

instance : Record ProxyRemoved (AccountId × AccountId × ProxyType × U32) where
  toFields x := (x.delegator, x.delegatee, x.proxyType, x.delay)
  ofFields p := ⟨p.1, p.2.1, p.2.2.1, p.2.2.2⟩

end Events

end Proxy

/-! ## Multisig -/

namespace Multisig

namespace Events

structure NewMultisig where
  approving : AccountId
  multisig : AccountId
  callHash : H256

instance : HasHeader NewMultisig := ⟨palletId, 0⟩

instance : Record NewMultisig (AccountId × AccountId × H256) where
  toFields x := (x.approving, x.multisig, x.callHash)
  ofFields p := ⟨p.1, p.2.1, p.2.2⟩

structure MultisigApproval where
  approving : AccountId
  timepoint : Timepoint
  multisig : AccountId
  callHash : H256

instance : HasHeader MultisigApproval := ⟨palletId, 1⟩

instance : Record MultisigApproval (AccountId × Timepoint × AccountId × H256) where
  toFields x := (x.approving, x.timepoint, x.multisig, x.callHash)
  ofFields p := ⟨p.1, p.2.1, p.2.2.1, p.2.2.2⟩

structure MultisigExecuted where
  approving : AccountId
  timepoint : Timepoint
  multisig : AccountId
  callHash : H256
  result : System.DispatchResult

instance : HasHeader MultisigExecuted := ⟨palletId, 2⟩

instance : Record MultisigExecuted
    (AccountId × Timepoint × AccountId × H256 × System.DispatchResult) where
  toFields x := (x.approving, x.timepoint, x.multisig, x.callHash, x.result)
  ofFields p := ⟨p.1, p.2.1, p.2.2.1, p.2.2.2.1, p.2.2.2.2⟩

structure MultisigCancelled where
  cancelling : AccountId
  timepoint : Timepoint
  multisig : AccountId
  callHash : H256

instance : HasHeader MultisigCancelled := ⟨palletId, 3⟩

instance : Record MultisigCancelled (AccountId × Timepoint × AccountId × H256) where
  toFields x := (x.cancelling, x.timepoint, x.multisig, x.callHash)
  ofFields p := ⟨p.1, p.2.1, p.2.2.1, p.2.2.2⟩

end Events

end Multisig

/-! ## Staking -/

namespace Staking

namespace Events

structure Bonded where
  stash : AccountId
  amount : U128

instance : HasHeader Bonded := ⟨palletId, 6⟩

instance : Record Bonded (AccountId × U128) where
  toFields x := (x.stash, x.amount)
  ofFields p := ⟨p.1, p.2⟩

structure Unbonded where
  stash : AccountId
  amount : U128

instance : HasHeader Unbonded := ⟨palletId, 7⟩

instance : Record Unbonded (AccountId × U128) where
  toFields x := (x.stash, x.amount)
  ofFields p := ⟨p.1, p.2⟩

structure ValidatorPrefsSet where
  stash : AccountId
  prefs : ValidatorPrefs

instance : HasHeader ValidatorPrefsSet := ⟨palletId, 13⟩

instance : Record ValidatorPrefsSet (AccountId × ValidatorPrefs) where
  toFields x := (x.stash, x.prefs)
  ofFields p := ⟨p.1, p.2⟩

structure Chilled where
  stash : AccountId

instance : HasHeader Chilled := ⟨palletId, 11⟩

instance : Record Chilled AccountId where
  toFields x := x.stash
  ofFields p := ⟨p⟩

structure EraPaid where
  eraIndex : U32
  validatorPayout : U128
  remainder : U128

instance : HasHeader EraPaid := ⟨palletId, 0⟩

instance : Record EraPaid (U32 × U128 × U128) where
  toFields x := (x.eraIndex, x.validatorPayout, x.remainder)
  ofFields p := ⟨p.1, p.2.1, p.2.2⟩

structure Rewarded where
  stash : AccountId
  dest : RewardDestination
  amount : U128

instance : HasHeader Rewarded := ⟨palletId, 1⟩

instance : Record Rewarded (AccountId × RewardDestination × U128) where
  toFields x := (x.stash, x.dest, x.amount)
  ofFields p := ⟨p.1, p.2.1, p.2.2⟩

structure Slashed where
  staker : AccountId
  amount : U128

instance : HasHeader Slashed := ⟨palletId, 2⟩

instance : Record Slashed (AccountId × U128) where
  toFields x := (x.staker, x.amount)
  ofFields p := ⟨p.1, p.2⟩

structure Withdraw where
  stash : AccountId
  amount : U128

instance : HasHeader Withdraw := ⟨palletId, 8⟩

instance : Record Withdraw (AccountId × U128) where
  toFields x := (x.stash, x.amount)
  ofFields p := ⟨p.1, p.2⟩

structure Kicked where
  nominator : AccountId
  stash : AccountId

instance : HasHeader Kicked := ⟨palletId, 9⟩

instance : Record Kicked (AccountId × AccountId) where
  toFields x := (x.nominator, x.stash)
  ofFields p := ⟨p.1, p.2⟩

structure PayoutStarted where
  eraIndex : U32
  validatorStash : AccountId

instance : HasHeader PayoutStarted := ⟨palletId, 12⟩

instance : Record PayoutStarted (U32 × AccountId) where
  toFields x := (x.eraIndex, x.validatorStash)
  ofFields p := ⟨p.1, p.2⟩

end Events

end Staking

/-! ## TransactionPayment -/

namespace TransactionPayment

def palletId : UInt8 := 7

namespace Events

structure TransactionFeePaid where
  who : AccountId
  actualFee : U128
  tip : U128

instance : HasHeader TransactionFeePaid := ⟨palletId, 0⟩

instance : Record TransactionFeePaid (AccountId × U128 × U128) where
  toFields x := (x.who, x.actualFee, x.tip)
  ofFields p := ⟨p.1, p.2.1, p.2.2⟩

end Events

end TransactionPayment

/-! ## Treasury -/

namespace Treasury

def palletId : UInt8 := 18

namespace Events

structure UpdatedInactive where
  reactivated : U128
  deactivated : U128

instance : HasHeader UpdatedInactive := ⟨palletId, 8⟩

instance : Record UpdatedInactive (U128 × U128) where
  toFields x := (x.reactivated, x.deactivated)
  ofFields p := ⟨p.1, p.2⟩

end Events

end Treasury

/-! ## Events are read back -/

/-- The event comes back from its bytes. -/
def EventReadsBack (T : Type) [HasHeader T] [Encode T] [Decode T] : Prop :=
  ∀ x : T, fromEvent T (toEvent x) = .ok x

theorem eventReadsBack {T : Type} [HasHeader T] [Encode T] [Decode T] [RoundTrips T] :
    EventReadsBack T := by
  intro x
  have hheader : checkHeader (toEvent x) (headerIndex T) = .ok () := checkHeader_toCall x
  have hdata : decode (encode x) = .ok (x, []) := (readsBack x).readsAlone
  unfold fromEvent
  rw [hheader]
  show Prod.fst <$> (decode : Decoder T) (encode x) = .ok x
  rw [hdata]
  rfl

/-- Every event and every error of a dispatch is read back from its bytes, the errors also with
    other bytes behind them. -/
theorem events_readBack :
    EventReadsBack DataAvailability.Events.ApplicationKeyCreated ∧
    EventReadsBack DataAvailability.Events.DataSubmitted ∧
    EventReadsBack Balances.Events.Endowed ∧ EventReadsBack Balances.Events.DustLost ∧
    EventReadsBack Balances.Events.Transfer ∧ EventReadsBack Balances.Events.Reserved ∧
    EventReadsBack Balances.Events.Unreserved ∧ EventReadsBack Balances.Events.Deposit ∧
    EventReadsBack Balances.Events.Withdraw ∧ EventReadsBack Balances.Events.Slashed ∧
    EventReadsBack Balances.Events.Locked ∧ EventReadsBack Balances.Events.Unlocked ∧
    EventReadsBack Balances.Events.Frozen ∧ EventReadsBack Balances.Events.Thawed ∧
    EventReadsBack Proxy.Events.ProxyExecuted ∧ EventReadsBack Proxy.Events.PureCreated ∧
    EventReadsBack Proxy.Events.Announced ∧ EventReadsBack Proxy.Events.ProxyAdded ∧
    EventReadsBack Proxy.Events.ProxyRemoved ∧
    EventReadsBack Multisig.Events.NewMultisig ∧ EventReadsBack Multisig.Events.MultisigApproval ∧
    EventReadsBack Multisig.Events.MultisigExecuted ∧
    EventReadsBack Multisig.Events.MultisigCancelled ∧
    EventReadsBack Staking.Events.Bonded ∧ EventReadsBack Staking.Events.Unbonded ∧
    EventReadsBack Staking.Events.ValidatorPrefsSet ∧ EventReadsBack Staking.Events.Chilled ∧
    EventReadsBack Staking.Events.EraPaid ∧ EventReadsBack Staking.Events.Rewarded ∧
    EventReadsBack Staking.Events.Slashed ∧ EventReadsBack Staking.Events.Withdraw ∧
    EventReadsBack Staking.Events.Kicked ∧ EventReadsBack Staking.Events.PayoutStarted ∧
    EventReadsBack TransactionPayment.Events.TransactionFeePaid ∧
    EventReadsBack Treasury.Events.UpdatedInactive ∧
    (∀ x : System.ModuleError, ReadsBack x) ∧ (∀ x : System.TokenError, ReadsBack x) ∧
    (∀ x : System.ArithmeticError, ReadsBack x) ∧
    (∀ x : System.TransactionalError, ReadsBack x) ∧
    (∀ x : System.DispatchError, ReadsBack x) ∧ ∀ x : System.DispatchResult, ReadsBack x := by
  and_intros
  all_goals first | exact eventReadsBack | exact readsBack

end AvailRust
