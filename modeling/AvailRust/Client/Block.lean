/-
  The queries about one block: its extrinsics, raw or decoded, and its events.

  A query names its block once and carries a retry override. Decoding stops at the first
  extrinsic that does not decode, and then the whole query fails.
-/
import AvailRust.Client.Chain

namespace AvailRust

open Scale Dialogue

structure BlockContext where
  client : Client
  blockId : HashStringNumber
  retryOnError : Option Bool

namespace BlockContext

def new (client : Client) (blockId : HashStringNumber) : BlockContext := ⟨client, blockId, none⟩

def setRetryOnError (ctx : BlockContext) (value : Option Bool) : BlockContext :=
  { ctx with retryOnError := value }

def hashNumber (ctx : BlockContext) : Except Error HashNumber := Chain.toHashNumber ctx.blockId

def chain (ctx : BlockContext) : Chain := ctx.client.chain.retryOn ctx.retryOnError none

end BlockContext

/-- `extrinsic_options::Options`. -/
structure ExtrinsicOptions where
  filter : Option ExtrinsicFilter
  ss58Address : Option String
  appId : Option Nat
  nonce : Option Nat
deriving DecidableEq

instance : Inhabited ExtrinsicOptions := ⟨none, none, none, none⟩

def ExtrinsicOptions.toRpcOpts (opts : ExtrinsicOptions) (encodeAs : EncodeSelector) :
    ExtrinsicOpts where
  transactionFilter := opts.filter.getD .all
  ss58Address := opts.ss58Address
  appId := opts.appId
  nonce := opts.nonce
  encodeAs := encodeAs

/-- The options that ask where an extrinsic is, without its data. -/
def ExtrinsicOpts.byHash (hash : H256) : ExtrinsicOpts where
  transactionFilter := .txHash [hash]
  ss58Address := none
  appId := none
  nonce := none
  encodeAs := .none

/-! ## Raw extrinsics -/

structure BlockExtrinsicMetadata where
  extHash : H256
  extIndex : Nat
  palletId : UInt8
  variantId : UInt8
  blockId : HashNumber
deriving DecidableEq

def BlockExtrinsicMetadata.fromExtrinsicInfo (info : ExtrinsicInfo) (blockId : HashNumber) :
    BlockExtrinsicMetadata :=
  ⟨info.extHash, info.extIndex, info.palletId, info.variantId, blockId⟩

structure BlockEncodedExtrinsic where
  signature : Option ExtrinsicSignature
  call : Bytes
  metadata : BlockExtrinsicMetadata
deriving DecidableEq

def BlockEncodedExtrinsic.fromExtrinsicInfo (info : ExtrinsicInfo) (blockId : HashNumber) :
    Except Error BlockEncodedExtrinsic :=
  let metadata := BlockExtrinsicMetadata.fromExtrinsicInfo info blockId
  match info.data with
  | none => .error (.rpcError (.expectedData "Expected data for encoded extrinsic."))
  | some data =>
    match EncodedExtrinsic.tryFromStr data with
    | .error e => .error (.other e)
    | .ok extrinsic => .ok ⟨extrinsic.signature, extrinsic.call, metadata⟩

structure BlockEncodedExtrinsicsQuery where
  ctx : BlockContext

namespace BlockEncodedExtrinsicsQuery

def new (client : Client) (blockId : HashStringNumber) : BlockEncodedExtrinsicsQuery :=
  ⟨BlockContext.new client blockId⟩

def setRetryOnError (query : BlockEncodedExtrinsicsQuery) (value : Option Bool) :
    BlockEncodedExtrinsicsQuery :=
  ⟨query.ctx.setRetryOnError value⟩

/-- Every extrinsic of an answer, in its order. -/
def decodeAll (infos : List ExtrinsicInfo) (blockId : HashNumber) :
    Except Error (List BlockEncodedExtrinsic) :=
  infos.mapM (BlockEncodedExtrinsic.fromExtrinsicInfo · blockId)

def all (query : BlockEncodedExtrinsicsQuery) (opts : ExtrinsicOptions) :
    Rpc (Except Error (List BlockEncodedExtrinsic)) :=
  match query.ctx.hashNumber with
  | .error e => pure (.error e)
  | .ok blockId => do
    match ← query.ctx.chain.systemFetchExtrinsics blockId.toHashStringNumber
      (opts.toRpcOpts .extrinsic) with
    | .error e => pure (.error e)
    | .ok extrinsics => pure (decodeAll extrinsics blockId)

/-- One extrinsic of the answer, if it has one to pick. -/
def one (pick : List ExtrinsicInfo → Option ExtrinsicInfo) (query : BlockEncodedExtrinsicsQuery)
    (opts : ExtrinsicOptions) : Rpc (Except Error (Option BlockEncodedExtrinsic)) :=
  match query.ctx.hashNumber with
  | .error e => pure (.error e)
  | .ok blockId => do
    match ← query.ctx.chain.systemFetchExtrinsics blockId.toHashStringNumber
      (opts.toRpcOpts .extrinsic) with
    | .error e => pure (.error e)
    | .ok result =>
      match pick result with
      | none => pure (.ok none)
      | some info => pure (some <$> BlockEncodedExtrinsic.fromExtrinsicInfo info blockId)

def first (query : BlockEncodedExtrinsicsQuery) (opts : ExtrinsicOptions) :
    Rpc (Except Error (Option BlockEncodedExtrinsic)) :=
  query.one List.head? opts

def last (query : BlockEncodedExtrinsicsQuery) (opts : ExtrinsicOptions) :
    Rpc (Except Error (Option BlockEncodedExtrinsic)) :=
  query.one List.getLast? opts

def count (query : BlockEncodedExtrinsicsQuery) (opts : ExtrinsicOptions) :
    Rpc (Except Error Nat) := do
  match ← query.ctx.chain.systemFetchExtrinsics query.ctx.blockId (opts.toRpcOpts .none) with
  | .error e => pure (.error e)
  | .ok result => pure (.ok result.length)

def «exists» (query : BlockEncodedExtrinsicsQuery) (opts : ExtrinsicOptions) :
    Rpc (Except Error Bool) := do
  match ← query.count opts with
  | .error e => pure (.error e)
  | .ok count => pure (.ok (count > 0))

end BlockEncodedExtrinsicsQuery

/-! ## Decoded extrinsics -/

structure BlockExtrinsic (T : Type) where
  signature : Option ExtrinsicSignature
  call : T
  metadata : BlockExtrinsicMetadata

section

variable {T : Type} [HasHeader T] [Decode T]

def BlockEncodedExtrinsic.asExtrinsic (value : BlockEncodedExtrinsic) :
    Except Error (BlockExtrinsic T) :=
  match fromCall T value.call with
  | .error e => .error (.other e)
  | .ok call => .ok ⟨value.signature, call, value.metadata⟩

structure BlockExtrinsicsQuery where
  xt : BlockEncodedExtrinsicsQuery

namespace BlockExtrinsicsQuery

def new (client : Client) (blockId : HashStringNumber) : BlockExtrinsicsQuery :=
  ⟨BlockEncodedExtrinsicsQuery.new client blockId⟩

def setRetryOnError (query : BlockExtrinsicsQuery) (value : Option Bool) : BlockExtrinsicsQuery :=
  ⟨query.xt.setRetryOnError value⟩

/-- The options, filtered by the call's header when they have no filter. -/
def withHeader (T : Type) [HasHeader T] (opts : ExtrinsicOptions) : ExtrinsicOptions :=
  { opts with filter := opts.filter.or (some (.palletCall [headerIndex T])) }

def all (query : BlockExtrinsicsQuery) (opts : ExtrinsicOptions) :
    Rpc (Except Error (List (BlockExtrinsic T))) := do
  match ← query.xt.all (withHeader T opts) with
  | .error e => pure (.error e)
  | .ok all => pure (all.mapM BlockEncodedExtrinsic.asExtrinsic)

/-- What one raw extrinsic decodes to, if there is one. -/
def decodeOne (encoded : Rpc (Except Error (Option BlockEncodedExtrinsic))) :
    Rpc (Except Error (Option (BlockExtrinsic T))) := do
  match ← encoded with
  | .error e => pure (.error e)
  | .ok none => pure (.ok none)
  | .ok (some encoded) => pure (some <$> encoded.asExtrinsic)

def first (query : BlockExtrinsicsQuery) (opts : ExtrinsicOptions) :
    Rpc (Except Error (Option (BlockExtrinsic T))) :=
  decodeOne (query.xt.first (withHeader T opts))

def last (query : BlockExtrinsicsQuery) (opts : ExtrinsicOptions) :
    Rpc (Except Error (Option (BlockExtrinsic T))) :=
  decodeOne (query.xt.last (withHeader T opts))

/-- The options with the call's header as their filter, in place of the one they have. -/
def onlyHeader (T : Type) [HasHeader T] (opts : ExtrinsicOptions) : ExtrinsicOptions :=
  { opts with filter := some (.palletCall [headerIndex T]) }

def count (T : Type) [HasHeader T] (query : BlockExtrinsicsQuery) (opts : ExtrinsicOptions) :
    Rpc (Except Error Nat) :=
  query.xt.count (onlyHeader T opts)

def «exists» (T : Type) [HasHeader T] (query : BlockExtrinsicsQuery) (opts : ExtrinsicOptions) :
    Rpc (Except Error Bool) :=
  query.xt.exists (onlyHeader T opts)

end BlockExtrinsicsQuery

end

/-! ## Events and raw answers -/

structure BlockEventsQuery where
  ctx : BlockContext

namespace BlockEventsQuery

def new (client : Client) (blockId : HashStringNumber) : BlockEventsQuery :=
  ⟨BlockContext.new client blockId⟩

def raw (query : BlockEventsQuery) (opts : EventOpts) :
    Rpc (Except Error (List BlockPhaseEvent)) :=
  query.ctx.chain.systemFetchEvents query.ctx.blockId opts

end BlockEventsQuery

structure Block where
  ctx : BlockContext

namespace Block

def new (client : Client) (blockId : HashStringNumber) : Block := ⟨BlockContext.new client blockId⟩

def encoded (block : Block) : BlockEncodedExtrinsicsQuery := .new block.ctx.client block.ctx.blockId

def extrinsics (block : Block) : BlockExtrinsicsQuery := .new block.ctx.client block.ctx.blockId

def extrinsicInfos (block : Block) (opts : ExtrinsicOpts) :
    Rpc (Except Error (List ExtrinsicInfo)) :=
  block.ctx.chain.systemFetchExtrinsics block.ctx.blockId opts

end Block

end AvailRust
