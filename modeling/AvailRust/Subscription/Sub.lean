/-
  The block cursor: `Sub` and its two concrete cursors.

  An operation takes the cursor and returns its result with the cursor it leaves behind, also
  when the result is an error. Heights are `u32`: `+ 1` wraps, `saturating_sub` stops at 0.
-/
import AvailRust.Client.Chain

namespace AvailRust

open Dialogue

/-- `subscription::should_retry`. -/
def shouldRetry (client : Client) (value : Option Bool) : Bool :=
  value.getD client.globalRetriesEnabled

/-- The block at a height, whose hash the node has to know. All cursors read blocks so. -/
def blockAt (chain : Chain) (height : Nat) : Rpc (Except RpcError BlockInfo) := do
  match ← chain.blockHash (some height) with
  | .error e => pure (.error e)
  | .ok none => pure (.error (.expectedData "Expected to fetch block hash"))
  | .ok (some hash) => pure (.ok { hash, height })

/-! ## The finalized cursor -/

structure FinalizedBlockSub where
  client : Client
  pollRate : Nat
  nextBlockHeight : Nat
  retryOnError : Option Bool
  latestFinalizedHeight : Option Nat
  processedPreviousBlock : Bool

namespace FinalizedBlockSub

/-- The latest finalized height, asked for once and then remembered. -/
def fetchLatestFinalizedHeight (s : FinalizedBlockSub) :
    Rpc (Except RpcError Nat × FinalizedBlockSub) :=
  match s.latestFinalizedHeight with
  | some height => pure (.ok height, s)
  | none => do
    let retryOnError := some (shouldRetry s.client s.retryOnError)
    match ← (s.client.finalized.retryOn retryOnError).blockHeight with
    | .error e => pure (.error e, s)
    | .ok height => pure (.ok height, { s with latestFinalizedHeight := some height })

def runHistorical (s : FinalizedBlockSub) : Rpc (Except RpcError BlockInfo) :=
  blockAt (s.client.chain.retryOn s.retryOnError none) s.nextBlockHeight

/-- One pass of the polling loop. -/
def runHeadStep (s : FinalizedBlockSub) (_ : Unit) : Rpc (Unit ⊕ Except RpcError BlockInfo) := do
  match ← s.client.finalized.blockInfo with
  | .error e => pure (.inr (.error e))
  | .ok head =>
    let isPastBlock := s.nextBlockHeight > head.height
    if isPastBlock then do
      sleep s.pollRate
      pure (.inl ())
    else if s.nextBlockHeight = head.height then pure (.inr (.ok head))
    else do
      let result ← blockAt (s.client.chain.retryOn s.retryOnError (some true)) s.nextBlockHeight
      pure (.inr result)

def runHead (s : FinalizedBlockSub) : Rpc (Except RpcError BlockInfo) := loop s.runHeadStep ()

def next (s : FinalizedBlockSub) : Rpc (Except RpcError BlockInfo × FinalizedBlockSub) := do
  match ← s.fetchLatestFinalizedHeight with
  | (.error e, s) => pure (.error e, s)
  | (.ok latestFinalizedHeight, s) => do
    match ← (if latestFinalizedHeight > s.nextBlockHeight then s.runHistorical else s.runHead) with
    | .error e => pure (.error e, s)
    | .ok info =>
      pure (.ok info, { s with
        nextBlockHeight := u32Add info.height 1
        processedPreviousBlock := true })

/-- What `prev` does to the cursor before it fetches. -/
def stepBack (s : FinalizedBlockSub) : FinalizedBlockSub :=
  let height := s.nextBlockHeight - 1
  { s with
    nextBlockHeight := if s.processedPreviousBlock then height - 1 else height
    processedPreviousBlock := false }

def prev (s : FinalizedBlockSub) : Rpc (Except RpcError BlockInfo × FinalizedBlockSub) :=
  s.stepBack.next

end FinalizedBlockSub

/-! ## The best-block cursor -/

structure BestBlockSub where
  client : Client
  pollRate : Nat
  currentBlockHeight : Nat
  blockProcessed : List H256
  retryOnError : Option Bool
  latestFinalizedHeight : Option Nat

namespace BestBlockSub

/-- The latest finalized height, asked for once and then remembered. -/
def fetchLatestFinalizedHeight (s : BestBlockSub) : Rpc (Except RpcError Nat × BestBlockSub) :=
  match s.latestFinalizedHeight with
  | some height => pure (.ok height, s)
  | none => do
    match ← (s.client.finalized.retryOn s.retryOnError).blockHeight with
    | .error e => pure (.error e, s)
    | .ok height => pure (.ok height, { s with latestFinalizedHeight := some height })

def runHistorical (s : BestBlockSub) : Rpc (Except RpcError BlockInfo) :=
  let height :=
    if s.blockProcessed.isEmpty then s.currentBlockHeight else u32Add s.currentBlockHeight 1
  blockAt (s.client.chain.retryOn s.retryOnError none) height

/-- One pass of the polling loop. -/
def runHeadStep (s : BestBlockSub) (_ : Unit) : Rpc (Unit ⊕ Except RpcError BlockInfo) := do
  match ← (s.client.best.retryOn s.retryOnError).blockInfo with
  | .error e => pure (.inr (.error e))
  | .ok head =>
    let isPastBlock := s.currentBlockHeight > head.height
    let blockAlreadyProcessed := head.hash ∈ s.blockProcessed
    if isPastBlock ∨ blockAlreadyProcessed then do
      sleep s.pollRate
      pure (.inl ())
    else
      let noBlockProcessedYet := s.blockProcessed.isEmpty
      if noBlockProcessedYet then do
        let result ←
          blockAt (s.client.chain.retryOn s.retryOnError (some true)) s.currentBlockHeight
        pure (.inr result)
      else
        let isCurrentBlock := s.currentBlockHeight = head.height
        let isNextBlock := u32Add s.currentBlockHeight 1 = head.height
        if isCurrentBlock ∨ isNextBlock then pure (.inr (.ok head))
        else do
          -- the override of the subscription is not passed on here
          let result ← blockAt (s.client.chain.retryOn (some true) (some true))
            (u32Add s.currentBlockHeight 1)
          pure (.inr result)

def runHead (s : BestBlockSub) : Rpc (Except RpcError BlockInfo) := loop s.runHeadStep ()

def next (s : BestBlockSub) : Rpc (Except RpcError BlockInfo × BestBlockSub) := do
  match ← s.fetchLatestFinalizedHeight with
  | (.error e, s) => pure (.error e, s)
  | (.ok latestFinalizedHeight, s) =>
    if latestFinalizedHeight > s.currentBlockHeight then do
      match ← s.runHistorical with
      | .error e => pure (.error e, s)
      | .ok info =>
        pure (.ok info, { s with blockProcessed := [info.hash], currentBlockHeight := info.height })
    else do
      match ← s.runHead with
      | .error e => pure (.error e, s)
      | .ok info =>
        if info.height = s.currentBlockHeight then
          pure (.ok info, { s with blockProcessed := s.blockProcessed ++ [info.hash] })
        else
          pure (.ok info,
            { s with blockProcessed := [info.hash], currentBlockHeight := info.height })

/-- What `prev` does to the cursor before it fetches. -/
def stepBack (s : BestBlockSub) : BestBlockSub :=
  { s with currentBlockHeight := s.currentBlockHeight - 1, blockProcessed := [] }

def prev (s : BestBlockSub) : Rpc (Except RpcError BlockInfo × BestBlockSub) :=
  s.stepBack.next

end BestBlockSub

/-! ## The subscription -/

structure UnInitSub where
  client : Client
  useBestBlock : Bool
  blockHeight : Option Nat
  pollRate : Nat
  retryOnError : Option Bool

inductive Sub where
  | unInit (s : UnInitSub)
  | bestBlock (s : BestBlockSub)
  | finalizedBlock (s : FinalizedBlockSub)

namespace UnInitSub

def new (client : Client) : UnInitSub where
  client := client
  useBestBlock := false
  blockHeight := none
  pollRate := 3
  retryOnError := none

/-- The height a subscription starts from. -/
def startHeight (s : UnInitSub) : Rpc (Except RpcError Nat) :=
  match s.blockHeight with
  | some height => pure (.ok height)
  | none => if s.useBestBlock then s.client.best.blockHeight else s.client.finalized.blockHeight

def build (s : UnInitSub) : Rpc (Except RpcError Sub) := do
  match ← s.startHeight with
  | .error e => pure (.error e)
  | .ok blockHeight =>
    if s.useBestBlock then
      pure (.ok (.bestBlock {
        client := s.client
        pollRate := s.pollRate
        currentBlockHeight := blockHeight
        blockProcessed := []
        retryOnError := s.retryOnError
        latestFinalizedHeight := none }))
    else
      pure (.ok (.finalizedBlock {
        client := s.client
        pollRate := s.pollRate
        nextBlockHeight := blockHeight
        retryOnError := s.retryOnError
        latestFinalizedHeight := none
        processedPreviousBlock := false }))

end UnInitSub

namespace Sub

def new (client : Client) : Sub := .unInit (UnInitSub.new client)

/-- Materialise an uninitialised subscription; a concrete one stays as it is. -/
def materialize : Sub → Rpc (Except RpcError Unit × Sub)
  | .unInit u => do
    match ← u.build with
    | .error e => pure (.error e, .unInit u)
    | .ok concrete => pure (.ok (), concrete)
  | s => pure (.ok (), s)

/-- The two directions a cursor moves in. -/
inductive Op where
  | next
  | prev
deriving DecidableEq

/-- An operation on a concrete subscription. The source declares the remaining case
    unreachable: `materialize` has just excluded it. -/
def runConcrete (op : Op) : Sub → Rpc (Except RpcError BlockInfo × Sub)
  | .bestBlock s => do
    let (result, s) ← match op with
      | .next => s.next
      | .prev => s.prev
    pure (result, .bestBlock s)
  | .finalizedBlock s => do
    let (result, s) ← match op with
      | .next => s.next
      | .prev => s.prev
    pure (result, .finalizedBlock s)
  | .unInit _ => fun _ => none

def run (op : Op) (s : Sub) : Rpc (Except RpcError BlockInfo × Sub) := do
  match ← s.materialize with
  | (.error e, s) => pure (.error e, s)
  | (.ok _, s) => s.runConcrete op

def next : Sub → Rpc (Except RpcError BlockInfo × Sub) := run .next
def prev : Sub → Rpc (Except RpcError BlockInfo × Sub) := run .prev

def client : Sub → Client
  | .unInit s => s.client
  | .bestBlock s => s.client
  | .finalizedBlock s => s.client

def retryOnError : Sub → Option Bool
  | .unInit s => s.retryOnError
  | .bestBlock s => s.retryOnError
  | .finalizedBlock s => s.retryOnError

def shouldRetryOnError (s : Sub) : Bool := shouldRetry s.client s.retryOnError

def useBestBlock (value : Bool) : Sub → Sub
  | .unInit u => .unInit { u with useBestBlock := value }
  | s => s

def setBlockHeight (value : Nat) : Sub → Sub
  | .unInit u => .unInit { u with blockHeight := some value }
  | .bestBlock x => .bestBlock { x with currentBlockHeight := value, blockProcessed := [] }
  | .finalizedBlock x =>
    .finalizedBlock { x with nextBlockHeight := value, processedPreviousBlock := false }

def setRetryOnError (value : Option Bool) : Sub → Sub
  | .unInit u => .unInit { u with retryOnError := value }
  | .bestBlock x => .bestBlock { x with retryOnError := value }
  | .finalizedBlock x => .finalizedBlock { x with retryOnError := value }

end Sub

end AvailRust
