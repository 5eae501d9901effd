/-
  The chain helpers: each builds one request and runs it under the retry settings of the
  `Chain` it is called on. `Finalized` and `Best` fix the settings of the two heads.
-/
import AvailRust.Client.Utils

namespace AvailRust

open Scale Dialogue

/-- A connected client: what it was configured with and what it read at connection time. -/
structure Client where
  globalRetriesEnabled : Bool
  /-- Whether the crate is built with its `tracing` feature, which is on by default. -/
  tracing : Bool
  specVersion : U32
  transactionVersion : U32
  genesisHash : H256

/-- A client of a development chain, built with the default features. -/
def Client.devnet : Client where
  globalRetriesEnabled := true
  tracing := true
  specVersion := 49
  transactionVersion := 1
  genesisHash := FixedBytes.fill 32 0

structure Chain where
  client : Client
  retryOnError : Option Bool
  retryOnNone : Option Bool

/-! ## Block identifiers -/

inductive HashStringNumber where
  | hash (hash : H256)
  | string (text : String)
  | number (height : Nat)
deriving DecidableEq

def HashNumber.toHashStringNumber : HashNumber → HashStringNumber
  | .hash h => .hash h
  | .number n => .number n

/-- `H256Ext::from_str`. -/
def h256FromStr (s : String) : Except String H256 :=
  let s := if "0x".toList <+: s.toList then s.toList.drop 2 else s.toList
  let len := (String.ofList s).utf8ByteSize
  if len ≠ 64 then
    .error ("Failed to convert string to H256. Expected 64 bytes got " ++ toString len
      ++ ". Input string: " ++ String.ofList s)
  else
    match Hex.decode s with
    | .error e => .error e
    | .ok bytes =>
      if h : bytes.length = 32 then .ok ⟨bytes, h⟩
      else
        .error ("Failed to covert decoded string to H256. Input "
          ++ toString (bytes.map UInt8.toNat))

namespace Chain

def new (client : Client) : Chain := ⟨client, none, none⟩

def retryOn (c : Chain) (onError onNone : Option Bool) : Chain :=
  { c with retryOnError := onError, retryOnNone := onNone }

def shouldRetryOnError (c : Chain) : Bool := c.retryOnError.getD c.client.globalRetriesEnabled

def blockHash (c : Chain) (blockHeight : Option Nat) : Rpc (Except RpcError (Option H256)) :=
  withRetryOnErrorAndNone (call (.getBlockHash blockHeight)) c.shouldRetryOnError
    (c.retryOnNone.getD false)

theorem blockHash_asked {c : Chain} {n : Option Nat} {w w' : RpcWorld}
    {x : Except RpcError (Option H256)} (h : c.blockHash n w = some (x, w')) :
    Asked (.getBlockHash n) (isErrorOrNone c.shouldRetryOnError (c.retryOnNone.getD false))
      w x w' :=
  attempts_asked sleepDuration.reverse (withRetryOnErrorAndNone_attempts h)

theorem blockHash_steady (c : Chain) (e : Event) (n : Option Nat) :
    Steady e (c.blockHash n) (e.response (.getBlockHash n)) :=
  withRetryOnErrorAndNone_steady (call_steady e (.getBlockHash n)) _ _

theorem blockHash_consumes (c : Chain) (n : Option Nat) : Consumes (c.blockHash n) :=
  withRetryOnErrorAndNone_consumes (call_consumes (.getBlockHash n)) _ _

/-- `conversions::hash_string_number::to_hash`. -/
def toHash (c : Chain) : HashStringNumber → Rpc (Except Error H256)
  | .hash hash => pure (.ok hash)
  | .string text =>
    match h256FromStr text with
    | .error e => pure (.error (.other e))
    | .ok hash => pure (.ok hash)
  | .number height => do
    match ← c.blockHash (some height) with
    | .error e => pure (.error (.rpcError e))
    | .ok none =>
      pure (.error (.other ("No block hash was found for block height: " ++ toString height)))
    | .ok (some hash) => pure (.ok hash)

/-- `conversions::hash_string_number::to_hash_number`. -/
def toHashNumber : HashStringNumber → Except Error HashNumber
  | .hash hash => .ok (.hash hash)
  | .string text =>
    match h256FromStr text with
    | .error e => .error (.other e)
    | .ok hash => .ok (.hash hash)
  | .number height => .ok (.number height)

/-- The optional block a header is asked for. -/
def toHashOption (c : Chain) : Option HashStringNumber → Rpc (Except Error (Option H256))
  | none => pure (.ok none)
  | some blockId => do
    match ← c.toHash blockId with
    | .error e => pure (.error e)
    | .ok hash => pure (.ok (some hash))

def blockHeader (c : Chain) (blockId : Option HashStringNumber) :
    Rpc (Except Error (Option AvailHeader)) := do
  match ← c.toHashOption blockId with
  | .error e => pure (.error e)
  | .ok hash => do
    match ← withRetryOnErrorAndNone (call (.getHeader hash)) c.shouldRetryOnError
      (c.retryOnNone.getD false) with
    | .error e => pure (.error (.rpcError e))
    | .ok header => pure (.ok header)

def legacyBlock (c : Chain) (hash : Option H256) : Rpc (Except RpcError (Option LegacyBlock)) :=
  withRetryOnErrorAndNone (call (.getBlock hash)) c.shouldRetryOnError (c.retryOnNone.getD false)

def accountNonce (c : Chain) (account : AccountId) : Rpc (Except Error U32) := do
  match ← withRetryOnError (call (.accountNextIndex account)) c.shouldRetryOnError with
  | .error e => pure (.error (.rpcError e))
  | .ok nonce => pure (.ok nonce)

/-- An account without an entry has the default record. -/
def accountInfo (c : Chain) (account : AccountId) (blockId : HashStringNumber) :
    Rpc (Except Error AccountInfo) := do
  match ← c.toHash blockId with
  | .error e => pure (.error e)
  | .ok hash => do
    match ← withRetryOnError (call (.systemAccount account hash)) c.shouldRetryOnError with
    | .error e => pure (.error (.rpcError e))
    | .ok info => pure (.ok (Option.getD info default))

def blockNonce (c : Chain) (account : AccountId) (blockId : HashStringNumber) :
    Rpc (Except Error U32) := do
  match ← c.accountInfo account blockId with
  | .error e => pure (.error e)
  | .ok info => pure (.ok info.nonce)

/-- The height of the block with a hash. -/
def blockHeight (c : Chain) (hash : H256) : Rpc (Except Error (Option Nat)) := do
  match ← withRetryOnErrorAndNone (call (.getBlockNumber hash)) c.shouldRetryOnError
    (c.retryOnNone.getD false) with
  | .error e => pure (.error (.rpcError e))
  | .ok height => pure (.ok height)

def blockInfo (c : Chain) (useBestBlock : Bool) : Rpc (Except RpcError BlockInfo) :=
  withRetryOnError (call (.latestBlockInfo useBestBlock)) c.shouldRetryOnError

def blockInfoFrom (c : Chain) (blockId : HashStringNumber) : Rpc (Except Error BlockInfo) :=
  match toHashNumber blockId with
  | .error e => pure (.error e)
  | .ok (.hash hash) => do
    match ← c.blockHeight hash with
    | .error e => pure (.error e)
    | .ok none =>
      pure (.error (.user (.other ("No block height was found for hash: " ++ displayHash hash))))
    | .ok (some height) => pure (.ok ⟨hash, height⟩)
  | .ok (.number height) => do
    match ← c.blockHash (some height) with
    | .error e => pure (.error (.rpcError e))
    | .ok none =>
      pure (.error (.user (.other ("No block hash was found for height: " ++ toString height))))
    | .ok (some hash) => pure (.ok ⟨hash, height⟩)

theorem blockInfo_consumes (c : Chain) (useBestBlock : Bool) :
    Consumes (c.blockInfo useBestBlock) :=
  withRetryOnError_consumes (call_consumes (.latestBlockInfo useBestBlock)) _

theorem blockInfo_steady (c : Chain) (e : Event) (useBestBlock : Bool) :
    Steady e (c.blockInfo useBestBlock) (e.response (.latestBlockInfo useBestBlock)) :=
  withRetryOnError_steady (call_steady e (.latestBlockInfo useBestBlock)) _

def chainInfo (c : Chain) : Rpc (Except RpcError ChainInfo) :=
  withRetryOnError (call .latestChainInfo) c.shouldRetryOnError

/-- The text of the justification is hexadecimal SCALE. -/
def decodeJustification (text : String) : Except RpcError Grandpa.GrandpaJustification :=
  match Hex.decode (Hex.trimStartMatches "0x".toList text.toList) with
  | .error e => .error (.malformedResponse e)
  | .ok justification =>
    match (decode : Decoder Grandpa.GrandpaJustification) justification with
    | .error e => .error (.malformedResponse e)
    | .ok (justification, _) => .ok justification

/-- The text of a justification is read as this justification. -/
theorem decodeJustification_encode (justification : Grandpa.GrandpaJustification) :
    decodeJustification (String.ofList (Hex.encode (encode justification)))
      = .ok justification := by
  have htext : (String.ofList (Hex.encode (encode justification))).toList
      = Hex.encode (encode justification) := String.toList_ofList
  have hno : ¬ "0x".toList <+: Hex.encode (encode justification) := Hex.not_zeroX_encode _
  unfold decodeJustification
  rw [htext, Hex.trimStartMatches_of_not hno, Hex.decode_encode]
  have halone : decode (encode justification) = .ok (justification, []) :=
    (readsBack justification).readsAlone
  simp only [halone]

def grandpaBlockJustification (c : Chain) (height : Nat) :
    Rpc (Except RpcError (Option Grandpa.GrandpaJustification)) := do
  match ← withRetryOnError (call (.blockJustification height)) c.shouldRetryOnError with
  | .error e => pure (.error e)
  | .ok none => pure (.ok none)
  | .ok (some text) => pure (some <$> decodeJustification text)

def systemFetchExtrinsics (c : Chain) (blockId : HashStringNumber) (opts : ExtrinsicOpts) :
    Rpc (Except Error (List ExtrinsicInfo)) :=
  match toHashNumber blockId with
  | .error e => pure (.error e)
  | .ok blockId => do
    match ← withRetryOnError (call (.fetchExtrinsics blockId opts)) c.shouldRetryOnError with
    | .error e => pure (.error (.rpcError e))
    | .ok extrinsics => pure (.ok extrinsics)

def systemFetchEvents (c : Chain) (blockId : HashStringNumber) (opts : EventOpts) :
    Rpc (Except Error (List BlockPhaseEvent)) := do
  match ← c.toHash blockId with
  | .error e => pure (.error e)
  | .ok hash => do
    match ← withRetryOnError (call (.fetchEvents hash opts)) c.shouldRetryOnError with
    | .error e => pure (.error (.rpcError e))
    | .ok events => pure (.ok events)

/-! ### A node that does not change -/

open Fallible in
theorem blockHeader_settled (view : View) (c : Chain) (hash : H256) :
    Settled (OneView view) (c.blockHeader (some (.hash hash))) := by
  have hhash : Settled (OneView view) (c.toHashOption (some (.hash hash))) :=
    .pure (.ok (some hash))
  refine hhash.bind .error fun hash => ?_
  refine (withRetryOnErrorAndNone_settled (call_settled view (.getHeader hash)) _ _).bind
    (fun e => .error (Error.rpcError e)) fun header => .pure _

open Fallible in
theorem systemFetchExtrinsics_settled (view : View) (c : Chain) (blockId : HashStringNumber)
    (opts : ExtrinsicOpts) : Settled (OneView view) (c.systemFetchExtrinsics blockId opts) := by
  unfold Chain.systemFetchExtrinsics
  split
  case h_1 => exact .pure _
  case h_2 blockId _ =>
    exact (withRetryOnError_settled (call_settled view (.fetchExtrinsics blockId opts)) _).bind
      (fun e => .error (Error.rpcError e)) fun extrinsics => .pure _

/-! ### The script is only used up -/

theorem legacyBlock_logged (c : Chain) (hash : Option H256) : Logged (c.legacyBlock hash) :=
  (withRetryOnErrorAndNone_consumes (call_consumes (.getBlock hash)) _ _).logged

theorem toHash_logged (c : Chain) (blockId : HashStringNumber) : Logged (c.toHash blockId) := by
  cases blockId with
  | hash h => exact .pure _
  | string text => unfold toHash; simp only; split <;> exact .pure _
  | number n =>
    refine (c.blockHash_consumes (some n)).logged.bind fun x => ?_
    split <;> exact .pure _

theorem blockHeader_logged (c : Chain) (blockId : Option HashStringNumber) :
    Logged (c.blockHeader blockId) := by
  have hhash : Logged (c.toHashOption blockId) := by
    cases blockId with
    | none => exact .pure _
    | some blockId => exact (c.toHash_logged blockId).bind fun x => by split <;> exact .pure _
  refine hhash.bind fun x => ?_
  split
  · exact .pure _
  · refine (withRetryOnErrorAndNone_consumes (call_consumes (.getHeader _)) _ _).logged.bind
      fun x => ?_
    split <;> exact .pure _

theorem grandpaBlockJustification_logged (c : Chain) (height : Nat) :
    Logged (c.grandpaBlockJustification height) := by
  refine (withRetryOnError_consumes (call_consumes (.blockJustification height)) _).logged.bind
    fun x => ?_
  split <;> exact .pure _

theorem blockNonce_logged (c : Chain) (account : AccountId) (blockId : HashStringNumber) :
    Logged (c.blockNonce account blockId) := by
  have hinfo : Logged (c.accountInfo account blockId) := by
    refine (c.toHash_logged blockId).bind fun x => ?_
    split
    · exact .pure _
    · refine (withRetryOnError_consumes (call_consumes (.systemAccount account _)) _).logged.bind
        fun x => ?_
      split <;> exact .pure _
  refine hinfo.bind fun x => ?_
  split <;> exact .pure _

theorem systemFetchExtrinsics_logged (c : Chain) (blockId : HashStringNumber)
    (opts : ExtrinsicOpts) : Logged (c.systemFetchExtrinsics blockId opts) := by
  unfold systemFetchExtrinsics
  split
  · exact .pure _
  · refine (withRetryOnError_consumes (call_consumes (.fetchExtrinsics _ _)) _).logged.bind
      fun x => ?_
    split <;> exact .pure _

theorem systemFetchEvents_logged (c : Chain) (blockId : HashStringNumber) (opts : EventOpts) :
    Logged (c.systemFetchEvents blockId opts) := by
  refine (c.toHash_logged blockId).bind fun x => ?_
  split
  · exact .pure _
  · refine (withRetryOnError_consumes (call_consumes (.fetchEvents _ _)) _).logged.bind
      fun x => ?_
    split <;> exact .pure _

end Chain

/-! ## The two heads -/

structure Finalized where
  chain : Chain

namespace Finalized

def new (client : Client) : Finalized := ⟨(Chain.new client).retryOn none (some true)⟩

def retryOn (f : Finalized) (error : Option Bool) : Finalized :=
  ⟨f.chain.retryOn error (some true)⟩

def blockInfo (f : Finalized) : Rpc (Except RpcError BlockInfo) := f.chain.blockInfo false

def blockHash (f : Finalized) : Rpc (Except RpcError H256) := do
  let info ← f.blockInfo
  pure (BlockInfo.hash <$> info)

def blockHeight (f : Finalized) : Rpc (Except RpcError Nat) := do
  let info ← f.blockInfo
  pure (BlockInfo.height <$> info)

def blockHeader (f : Finalized) : Rpc (Except Error AvailHeader) := do
  match ← f.blockHash with
  | .error e => pure (.error (.rpcError e))
  | .ok blockHash => do
    match ← f.chain.blockHeader (some (.hash blockHash)) with
    | .error e => pure (.error e)
    | .ok none =>
      pure (.error (.rpcError (.expectedData "Failed to fetch finalized block header")))
    | .ok (some blockHeader) => pure (.ok blockHeader)

theorem blockHeight_steady (f : Finalized) (e : Event) :
    Steady e f.blockHeight (BlockInfo.height <$> e.response (.latestBlockInfo false)) :=
  (f.chain.blockInfo_steady e false).bind (.pure _ _)

end Finalized

structure Best where
  chain : Chain

namespace Best

def new (client : Client) : Best := ⟨(Chain.new client).retryOn none (some true)⟩

def retryOn (b : Best) (error : Option Bool) : Best := ⟨b.chain.retryOn error (some true)⟩

def blockInfo (b : Best) : Rpc (Except RpcError BlockInfo) := b.chain.blockInfo true

def blockHash (b : Best) : Rpc (Except RpcError H256) := do
  let info ← b.blockInfo
  pure (BlockInfo.hash <$> info)

def blockHeight (b : Best) : Rpc (Except RpcError Nat) := do
  let info ← b.blockInfo
  pure (BlockInfo.height <$> info)

end Best

namespace Client

def chain (client : Client) : Chain := Chain.new client
def best (client : Client) : Best := Best.new client
def finalized (client : Client) : Finalized := Finalized.new client

end Client

end AvailRust
