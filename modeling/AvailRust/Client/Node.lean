/-
  The node as the client sees it: requests, answers and failures.

  Each attempt of an RPC asks one request and takes one move of the node. A move either
  answers, from the view the node holds at that moment, or fails with an error of the
  transport; a failure may come before the node saw the request, or after it processed it
  and the response was lost. A view answers every request, so moves of one view are
  consistent with each other; what may change from one move to the next is up to the
  statement that quantifies over the script.
-/
import AvailRust.Lib.Dialogue
import AvailRust.Core.Account
import AvailRust.Core.Extrinsic
import AvailRust.Core.Grandpa

namespace AvailRust

open Scale Dialogue

/-! ## Errors -/

inductive RpcError where
  | rpc (text : String)
  | malformedResponse (text : String)
  | decodingFailed (text : String)
  | expectedData (text : String)
deriving DecidableEq

def RpcError.toText : RpcError → String
  | .rpc text => text
  | .malformedResponse text =>
    "RPC error: cannot decode some part of the response. Response might be malformed: " ++ text
  | .decodingFailed text => "RPC error: cannot decode some part of the response: " ++ text
  | .expectedData text =>
    "RPC error: expected to receive data but not data was received: " ++ text

inductive UserError where
  | decoding (text : String)
  | validationFailed (text : String)
  | other (text : String)
deriving DecidableEq

inductive Error where
  | rpcError (error : RpcError)
  | user (error : UserError)
  | other (text : String)
deriving DecidableEq

def Error.toText : Error → String
  | .rpcError e => e.toText
  | .user (.decoding text) | .user (.validationFailed text) | .user (.other text) => text
  | .other text => text

/-! ## Bytes and hashes as text -/

/-- The bytes as the node writes them. -/
def hexText (bytes : Bytes) : String := String.ofList ("0x".toList ++ Hex.encode bytes)

/-- `{:?}` of a hash. -/
def debugHash (hash : H256) : String := hexText hash.bytes

/-- `{}` of a hash. -/
def displayHash (hash : H256) : String :=
  hexText (hash.bytes.take 2) ++ "…" ++ String.ofList (Hex.encode (hash.bytes.drop 30))

/-! ## Query options and answers -/

inductive EncodeSelector where
  | none
  | call
  | extrinsic
deriving DecidableEq

inductive ExtrinsicFilter where
  | all
  | txHash (hashes : List H256)
  | txIndex (indices : List Nat)
  | pallet (ids : List UInt8)
  | palletCall (ids : List (UInt8 × UInt8))
deriving DecidableEq

/-- Options of `system_fetchExtrinsicsV1`. -/
structure ExtrinsicOpts where
  transactionFilter : ExtrinsicFilter
  ss58Address : Option String
  appId : Option Nat
  nonce : Option Nat
  encodeAs : EncodeSelector
deriving DecidableEq

structure SignerPayload where
  appId : Nat
  nonce : Nat
  ss58Address : Option String
  mortality : Option (Nat × Nat)
deriving DecidableEq

structure ExtrinsicInfo where
  data : Option String
  extHash : H256
  extIndex : Nat
  palletId : UInt8
  variantId : UInt8
  signerPayload : Option SignerPayload
deriving DecidableEq

inductive EventFilter where
  | all
  | onlyExtrinsics
  | onlyNonExtrinsics
  | only (indices : List Nat)
deriving DecidableEq

/-- Options of `system_fetchEventsV1`. -/
structure EventOpts where
  filter : Option EventFilter
  enableEncoding : Option Bool
  enableDecoding : Option Bool
deriving DecidableEq

inductive RuntimePhase where
  | applyExtrinsic (index : Nat)
  | finalization
  | initialization
deriving DecidableEq

structure PhaseEvent where
  index : Nat
  palletId : UInt8
  variantId : UInt8
  encodedData : Option String
  decodedData : Option String
deriving DecidableEq

structure BlockPhaseEvent where
  phase : RuntimePhase
  events : List PhaseEvent
deriving DecidableEq

structure LegacyBlock where
  header : AvailHeader
  extrinsics : List Bytes
  justifications : Option (List (ConsensusEngineId × Bytes))

/-! ## Requests and views -/

inductive Request where
  | latestBlockInfo (useBestBlock : Bool)
  | latestChainInfo
  | getBlockHash (blockHeight : Option Nat)
  | getBlockNumber (hash : H256)
  | getHeader (hash : Option H256)
  | getBlock (hash : Option H256)
  | blockJustification (height : Nat)
  | fetchExtrinsics (blockId : HashNumber) (opts : ExtrinsicOpts)
  | fetchEvents (hash : H256) (opts : EventOpts)
  | systemAccount (account : AccountId) (hash : H256)
  | accountNextIndex (account : AccountId)
  | submitExtrinsic (extrinsic : Bytes)
deriving DecidableEq

/-- What a successful answer to a request carries. -/
abbrev Request.Response : Request → Type
  | .latestBlockInfo _ => BlockInfo
  | .latestChainInfo => ChainInfo
  | .getBlockHash _ => Option H256
  | .getBlockNumber _ => Option Nat
  | .getHeader _ => Option AvailHeader
  | .getBlock _ => Option LegacyBlock
  | .blockJustification _ => Option String
  | .fetchExtrinsics _ _ => List ExtrinsicInfo
  | .fetchEvents _ _ => List BlockPhaseEvent
  | .systemAccount _ _ => Option AccountInfo
  | .accountNextIndex _ => U32
  | .submitExtrinsic _ => H256

/-- The node at one moment: its answer to every request. -/
abbrev View := (r : Request) → Except RpcError r.Response

/-- One move of the node and its transport. -/
inductive Event where
  | answer (view : View)
  /-- An error reaches the client; `reached` is the view that processed the request, if any. -/
  | fail (reached : Option View) (error : RpcError)

/-- A client program: it asks requests and takes events. -/
abbrev Rpc (α : Type) := Prog Request Event α

abbrev RpcWorld := World Request Event

/-- What the client receives for a request. -/
def Event.response (r : Request) : Event → Except RpcError r.Response
  | .answer view => view r
  | .fail _ error => .error error

/-- One attempt of an RPC. -/
def call (r : Request) : Rpc (Except RpcError r.Response) := do
  let event ← ask r
  pure (event.response r)

theorem call_eq_some {r : Request} {w w' : RpcWorld} {x : Except RpcError r.Response} :
    call r w = some (x, w') ↔ ∃ e, w.script = e :: w'.script ∧ w'.trace = (r, e) :: w.trace ∧
      e.response r = x := by
  unfold call
  rw [bind_eq_some]
  constructor
  · rintro ⟨e, w1, h1, h2⟩
    obtain ⟨rfl, rfl⟩ := pure_eq_some.mp h2
    obtain ⟨h3, h4⟩ := ask_eq_some.mp h1
    exact ⟨e, h3, h4, rfl⟩
  · rintro ⟨e, h1, h2, rfl⟩
    exact ⟨e, w', ask_eq_some.mpr ⟨h1, h2⟩, pure_eq_some.mpr ⟨rfl, rfl⟩⟩

theorem call_consumes (r : Request) : Consumes (call r) :=
  (ask_consumes r).bind fun _ => .pure _

end AvailRust
