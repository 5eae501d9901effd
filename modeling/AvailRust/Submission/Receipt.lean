/-
  Finding a transaction on chain.

  `findCorrectBlockInfo` does not look for the transaction block by block: it looks at the
  account's nonce after each block and stops where it has passed the transaction's, and only
  where that nonce is 0 at the extrinsics of the block. `TransactionReceipt.fromRange` looks
  at the extrinsics of every block of a range, asking for them by height.
-/
import AvailRust.Client.Block
import AvailRust.Submission.Submit
import AvailRust.Subscription.Sub

namespace AvailRust

open Scale Dialogue

inductive HashString where
  | hash (hash : H256)
  | string (text : String)
deriving DecidableEq

/-- `conversions::hash_string::to_hash`. -/
def HashString.toHash : HashString → Except Error H256
  | .hash h => .ok h
  | .string text =>
    match h256FromStr text with
    | .error e => .error (.other e)
    | .ok h => .ok h

structure TransactionReceipt where
  client : Client
  blockHash : H256
  blockHeight : Nat
  extHash : H256
  extIndex : Nat

namespace TransactionReceipt

/-- The receipt of the first match in a block, if there is one. -/
def ofFirst (client : Client) (block : BlockInfo) (infos : List ExtrinsicInfo) :
    Option TransactionReceipt :=
  infos.head?.map fun info => ⟨client, block.hash, block.height, info.extHash, info.extIndex⟩

/-- One pass of the search through a range. -/
def rangeStep (client : Client) (txHash : H256) (blockEnd : Nat) (sub : Sub) :
    Rpc (Sub ⊕ Except Error (Option TransactionReceipt)) := do
  match ← sub.next with
  | (.error e, _) => pure (.inr (.error (.rpcError e)))
  | (.ok blockInfo, sub) => do
    let block := Block.new client (.number blockInfo.height)
    match ← block.extrinsicInfos (.byHash txHash) with
    | .error e => pure (.inr (.error e))
    | .ok infos =>
      match ofFirst client blockInfo infos with
      | some receipt => pure (.inr (.ok (some receipt)))
      | none => if blockInfo.height ≥ blockEnd then pure (.inr (.ok none)) else pure (.inl sub)

def fromRange (client : Client) (extHash : HashString) (blockStart blockEnd : Nat)
    (useBestBlock : Bool) : Rpc (Except Error (Option TransactionReceipt)) :=
  if blockStart > blockEnd then
    pure (.error (.user (.validationFailed "Block Start cannot start after Block End")))
  else
    match extHash.toHash with
    | .error e => pure (.error e)
    | .ok txHash =>
      let sub := ((Sub.new client).useBestBlock useBestBlock).setBlockHeight blockStart
      loop (rangeStep client txHash blockEnd) sub

end TransactionReceipt

namespace Utils

/-- The last height the search goes past. -/
def mortalityEndsHeight (mortality : RefinedMortality) : Nat :=
  u32SaturatingAdd mortality.blockHeight (mortality.period % 2 ^ 32)

/-- The head that is logged before the search, when the crate is built with `tracing`. -/
def traceHead (client : Client) (useBestBlock : Bool) : Rpc (Except RpcError Unit) :=
  if client.tracing then do
    match ← (if useBestBlock then client.best.blockInfo else client.finalized.blockInfo) with
    | .error e => pure (.error e)
    | .ok _ => pure (.ok ())
  else pure (.ok ())

/-- One pass of the search, with the height it has come to. -/
def searchStep (client : Client) (nonce : U32) (txHash : H256) (account : AccountId)
    (endsHeight : Nat) (s : Sub × Nat) :
    Rpc ((Sub × Nat) ⊕ Except Error (Option BlockInfo)) :=
  if endsHeight ≥ s.2 then do
    match ← s.1.next with
    | (.error e, _) => pure (.inr (.error (.rpcError e)))
    | (.ok info, sub) => do
      match ← client.chain.blockNonce account (.hash info.hash) with
      | .error e => pure (.inr (.error e))
      | .ok stateNonce =>
        if stateNonce > nonce then pure (.inr (.ok (some info)))
        else if stateNonce = 0 then do
          let block := Block.new client (.hash info.hash)
          match ← block.extrinsicInfos (.byHash txHash) with
          | .error e => pure (.inr (.error e))
          | .ok ext =>
            if ext.isEmpty then pure (.inl (sub, info.height)) else pure (.inr (.ok (some info)))
        else pure (.inl (sub, info.height))
  else pure (.inr (.ok none))

def findCorrectBlockInfo (client : Client) (nonce : U32) (txHash : H256) (account : AccountId)
    (mortality : RefinedMortality) (useBestBlock : Bool) :
    Rpc (Except Error (Option BlockInfo)) := do
  let endsHeight := mortalityEndsHeight mortality
  let sub := ((Sub.new client).setBlockHeight mortality.blockHeight).useBestBlock useBestBlock
  match ← traceHead client useBestBlock with
  | .error e => pure (.error (.rpcError e))
  | .ok _ =>
    loop (searchStep client nonce txHash account endsHeight) (sub, mortality.blockHeight)

def transactionReceipt (client : Client) (txHash : H256) (nonce : U32) (account : AccountId)
    (mortality : RefinedMortality) (useBestBlock : Bool) :
    Rpc (Except Error (Option TransactionReceipt)) := do
  match ← findCorrectBlockInfo client nonce txHash account mortality useBestBlock with
  | .error e => pure (.error e)
  | .ok none => pure (.ok none)
  | .ok (some blockInfo) => do
    let block := Block.new client (.hash blockInfo.hash)
    match ← block.extrinsicInfos (.byHash txHash) with
    | .error e => pure (.error e)
    | .ok infos => pure (.ok (TransactionReceipt.ofFirst client blockInfo infos))

end Utils

def SubmittedTransaction.receipt (tx : SubmittedTransaction) (useBestBlock : Bool) :
    Rpc (Except Error (Option TransactionReceipt)) :=
  Utils.transactionReceipt tx.client tx.extHash tx.options.nonce tx.accountId tx.options.mortality
    useBestBlock

end AvailRust
