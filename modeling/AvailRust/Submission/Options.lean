/-
  Transaction options and their refinement.

  A missing nonce is read from the node, a missing mortality is 32 blocks from the finalized
  head, a missing application id or tip is zero. A mortality by period is refined to the block
  its era starts at; the extrinsic's era is derived from that block again.
-/
import AvailRust.Client.Chain

namespace AvailRust

open Scale

structure RefinedMortality where
  period : Nat
  blockHash : H256
  blockHeight : Nat
deriving DecidableEq

inductive MortalityOption where
  | period (blocks : Nat)
  | full (mortality : RefinedMortality)
deriving DecidableEq

structure Options where
  appId : Option U32
  mortality : Option MortalityOption
  nonce : Option U32
  tip : Option U128
deriving DecidableEq

instance : Inhabited Options := ⟨none, none, none, none⟩

structure RefinedOptions where
  appId : U32
  mortality : RefinedMortality
  nonce : U32
  tip : U128
deriving DecidableEq

namespace RefinedMortality

/-- The first height of an era that holds at height `current`. -/
def birthOf (era : Era) (current : Nat) : Nat :=
  match era with
  | .Immortal => current
  | .Mortal period phase => (current - (current - phase) % period) % 2 ^ 32

/-- The mortality of `period` blocks a transaction signed now gets. -/
def fromPeriod (client : Client) (period : Nat) : Rpc (Except Error RefinedMortality) := do
  match ← client.finalized.blockHeader with
  | .error e => pure (.error e)
  | .ok header => do
    let current := header.number.val
    let birth := birthOf (Era.mortal period current) current
    match ← client.chain.blockHash (some birth) with
    | .error e => pure (.error (.rpcError e))
    | .ok none =>
      pure (.error (.user (.other
        ("Failed to resolve mortality birth block hash at height " ++ toString birth))))
    | .ok (some blockHash) => pure (.ok { period, blockHash, blockHeight := birth })

end RefinedMortality

namespace Options

def buildMortality (client : Client) : MortalityOption → Rpc (Except Error RefinedMortality)
  | .period period => RefinedMortality.fromPeriod client period
  | .full mortality => pure (.ok mortality)

def buildNonce (options : Options) (client : Client) (account : AccountId)
    (retryOnError : Option Bool) : Rpc (Except Error U32) :=
  match options.nonce with
  | some nonce => pure (.ok nonce)
  | none => (client.chain.retryOn retryOnError none).accountNonce account

def build (options : Options) (client : Client) (account : AccountId)
    (retryOnError : Option Bool) : Rpc (Except Error RefinedOptions) := do
  let appId := options.appId.getD 0
  let tip := options.tip.getD 0
  match ← options.buildNonce client account retryOnError with
  | .error e => pure (.error e)
  | .ok nonce => do
    match ← buildMortality client (options.mortality.getD (.period 32)) with
    | .error e => pure (.error e)
    | .ok mortality => pure (.ok { appId, mortality, nonce, tip })

end Options

namespace ExtrinsicExtra

/-- `From<&RefinedOptions>`. -/
def ofRefined (value : RefinedOptions) : ExtrinsicExtra where
  era := Era.mortal value.mortality.period value.mortality.blockHeight
  nonce := value.nonce
  tip := value.tip
  appId := value.appId

end ExtrinsicExtra

end AvailRust
