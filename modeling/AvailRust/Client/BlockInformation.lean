/-
  What can be asked of a block: its number and hash, header, justification, time, author, weight
  and counts.

  A block is named by its hash, by a text of it or by its height, and each question resolves the
  name by itself. The author is the validator to which the header's BABE pre-digest points. While
  the chain goes on and the node answers for a block always the same (`Shows`), every question gets
  the block's own answer, however the block is named (`names_agree`).
-/
import AvailRust.Client.BlockEvents
import AvailRust.Core.Consensus
import AvailRust.Pallets.Basic
import AvailRust.Pallets.Multisig
import AvailRust.Storage.Fetch

namespace AvailRust

open Scale Dialogue

/-! ## Requests to the chain and to its storage -/

/-- A move of the node: what a request to the chain is met with, and one to the storage. -/
abbrev NodeMove := Event × StateView

abbrev NodeRpc (α : Type) := Prog (Request ⊕ StateRequest) NodeMove α

def Rpc.node {α : Type} (m : Rpc α) : NodeRpc α := embed .inl Prod.fst m

def StateRpc.node {α : Type} (m : StateRpc α) : NodeRpc α := embed .inr Prod.snd m

/-! ## Texts -/

namespace HashStringNumber

def display : HashStringNumber → String
  | .hash h => "Hash: " ++ displayHash h
  | .string text => "String Hash: " ++ text
  | .number height => "Number: " ++ toString height

def debug : HashStringNumber → String
  | .hash h => "Hash(" ++ debugHash h ++ ")"
  | .string text => "String(" ++ text.quote ++ ")"
  | .number height => "Number(" ++ toString height ++ ")"

end HashStringNumber

/-! ## Storage -/

def Session.Storage.validators : StorageValue (Vec AccountId) := ⟨"Session", "Validators"⟩

def System.Storage.eventCount : StorageValue U32 := ⟨"System", "EventCount"⟩

structure PerDispatchClassWeight where
  normal : Weight
  operational : Weight
  mandatory : Weight

instance : Record PerDispatchClassWeight (Weight × Weight × Weight) where
  toFields x := (x.normal, x.operational, x.mandatory)
  ofFields p := ⟨p.1, p.2.1, p.2.2⟩

def System.Storage.blockWeight : StorageValue PerDispatchClassWeight := ⟨"System", "BlockWeight"⟩

/-! ## Questions to the chain -/

namespace Chain

section

variable (crypto : SpCryptoHashing) (schnorrkel : Schnorrkel)

/-- The logs that are left, of the header of the block with this hash. -/
def authorFrom (hash : H256) : List DigestItem → NodeRpc (Except Error AccountId)
  | [] => pure (.error (.other
      ("Failed to find block author for block hash: " ++ displayHash hash)))
  | .preRuntime id value :: logs =>
    if id ≠ Babe.engineId then authorFrom hash logs else
      match (decode : Decoder (Babe.PreDigest schnorrkel)) value.items with
      | .error e => pure (.error (.other e))
      | .ok (preDigest, _) => do
        match ← (Session.Storage.validators.fetch crypto (some hash)).node with
        | .error e => pure (.error (.rpcError e))
        | .ok none => pure (.error (.other
            ("No validators in storage was found for block hash: " ++ debugHash hash)))
        | .ok (some validators) =>
          match validators.items[preDigest.authorityIndex.val]? with
          | some accountId => pure (.ok accountId)
          | none => authorFrom hash logs
  | _ :: logs => authorFrom hash logs

def blockAuthor (c : Chain) (blockId : HashStringNumber) : NodeRpc (Except Error AccountId) := do
  match ← (c.toHash blockId).node with
  | .error e => pure (.error e)
  | .ok hash => do
    match ← (c.blockHeader (some (.hash hash))).node with
    | .error e => pure (.error e)
    | .ok none => pure (.error (.other "No block header was found"))
    | .ok (some header) => authorFrom crypto schnorrkel hash header.digest.logs.items

/-- What `block_event_count` and `block_weight` do with their item of the storage. -/
def blockValue {Value : Type} [Decode Value] (item : StorageValue Value) (what : String)
    (c : Chain) (blockId : HashStringNumber) : NodeRpc (Except Error Value) := do
  match ← (c.toHash blockId).node with
  | .error e => pure (.error e)
  | .ok hash => do
    match ← StateRpc.node (withRetryOnErrorAndNone (item.fetch crypto (some hash))
        c.shouldRetryOnError false) with
    | .error e => pure (.error (.rpcError e))
    | .ok none => pure (.error (.other
        ("Failed to find block " ++ what ++ " at block hash: " ++ debugHash hash)))
    | .ok (some value) => pure (.ok value)

def blockEventCount := blockValue crypto System.Storage.eventCount "event count"

def blockWeight := blockValue crypto System.Storage.blockWeight "weight"

end

end Chain

/-! ## Questions to a block -/

def BlockContext.shouldRetryOnError (ctx : BlockContext) : Bool :=
  ctx.retryOnError.getD ctx.client.globalRetriesEnabled

def BlockContext.header (ctx : BlockContext) : Rpc (Except Error AvailHeader) := do
  match ← ctx.chain.blockHeader (some ctx.blockId) with
  | .error e => pure (.error e)
  | .ok none => pure (.error (.user (.other
      ("No block header found for block id: " ++ ctx.blockId.display))))
  | .ok (some header) => pure (.ok header)

namespace Block

def setRetryOnError (block : Block) (value : Option Bool) : Block :=
  ⟨block.ctx.setRetryOnError value⟩

/-- Justifications are asked for by height. -/
def heightOf (block : Block) : HashNumber → Rpc (Except Error Nat)
  | .hash h => do
    match ← block.ctx.chain.blockHeight h with
    | .error e => pure (.error e)
    | .ok none => pure (.error (.other "Failed to find block from the provided hash"))
    | .ok (some height) => pure (.ok height)
  | .number n => pure (.ok n)

def justification (block : Block) : Rpc (Except Error (Option Grandpa.GrandpaJustification)) :=
  match block.ctx.hashNumber with
  | .error e => pure (.error e)
  | .ok blockId => do
    match ← block.heightOf blockId with
    | .error e => pure (.error e)
    | .ok height => do
      match ← block.ctx.chain.grandpaBlockJustification height with
      | .error e => pure (.error (.rpcError e))
      | .ok justification => pure (.ok justification)

def timestamp (block : Block) : Rpc (Except Error U64) := do
  match ← (block.extrinsics.first default : Rpc (Except Error (Option (BlockExtrinsic
      Timestamp.Tx.Set)))) with
  | .error e => pure (.error e)
  | .ok none => pure (.error (.other
      ("No timestamp transaction found in block: " ++ block.ctx.blockId.debug)))
  | .ok (some timestamp) => pure (.ok timestamp.call.now)

def info (block : Block) : Rpc (Except Error BlockInfo) :=
  block.ctx.chain.blockInfoFrom block.ctx.blockId

def header (block : Block) : Rpc (Except Error AvailHeader) := block.ctx.header

def author (crypto : SpCryptoHashing) (schnorrkel : Schnorrkel) (block : Block) :
    NodeRpc (Except Error AccountId) :=
  block.ctx.chain.blockAuthor crypto schnorrkel block.ctx.blockId

def extrinsicCount (block : Block) : Rpc (Except Error Nat) :=
  (block.encoded.setRetryOnError (some block.ctx.shouldRetryOnError)).count default

def eventCount (crypto : SpCryptoHashing) (block : Block) : NodeRpc (Except Error U32) :=
  block.ctx.chain.blockEventCount crypto block.ctx.blockId

def weight (crypto : SpCryptoHashing) (block : Block) :
    NodeRpc (Except Error PerDispatchClassWeight) :=
  block.ctx.chain.blockWeight crypto block.ctx.blockId

end Block

/-! ## A block, and nodes that know it -/

/-- What a node says of a block. -/
structure BlockRecord where
  hash : H256
  height : Nat
  header : AvailHeader
  justification : Option Grandpa.GrandpaJustification
  extrinsics : ExtrinsicOpts → List ExtrinsicInfo
  events : EventOpts → List BlockPhaseEvent
  storage : Storage

namespace BlockRecord

/-- The identifiers that name the block. -/
inductive Named (b : BlockRecord) : HashStringNumber → Prop where
  | hash : Named b (.hash b.hash)
  | text {text : String} (h : h256FromStr text = .ok b.hash) : Named b (.string text)
  | height : Named b (.number b.height)

def justificationText (b : BlockRecord) : Option String :=
  b.justification.map fun justification => String.ofList (Hex.encode (encode justification))

/-- The node has the block on its chain. Of other blocks, of its heads and of what is submitted it
    may say anything. -/
structure Known (b : BlockRecord) (view : View) : Prop where
  getBlockHash : view (.getBlockHash (some b.height)) = .ok (some b.hash)
  getBlockNumber : view (.getBlockNumber b.hash) = .ok (some b.height)
  getHeader : view (.getHeader (some b.hash)) = .ok (some b.header)
  blockJustification : view (.blockJustification b.height) = .ok b.justificationText
  fetchExtrinsics : ∀ opts, view (.fetchExtrinsics (.hash b.hash) opts) = .ok (b.extrinsics opts) ∧
    view (.fetchExtrinsics (.number b.height) opts) = .ok (b.extrinsics opts)
  fetchEvents : ∀ opts, view (.fetchEvents b.hash opts) = .ok (b.events opts)

/-- Whatever else has happened on the chain, the node answers for this block. -/
def Answers (b : BlockRecord) (event : Event) : Prop :=
  ∃ view, event = .answer view ∧ b.Known view

def Shows (b : BlockRecord) (move : NodeMove) : Prop :=
  b.Answers move.1 ∧ Serves b.storage b.hash move.2

/-- A node that knows nothing else. -/
def view (b : BlockRecord) : View
  | .getBlockHash _ => .ok (some b.hash)
  | .getBlockNumber _ => .ok (some b.height)
  | .getHeader _ => .ok (some b.header)
  | .blockJustification _ => .ok b.justificationText
  | .fetchExtrinsics _ opts => .ok (b.extrinsics opts)
  | .fetchEvents _ opts => .ok (b.events opts)
  | _ => .error (.rpc "not known")

theorem view_shows (b : BlockRecord) : b.Shows (.answer b.view, b.storage.view) :=
  ⟨⟨b.view, rfl, rfl, rfl, rfl, rfl, fun _ => ⟨rfl, rfl⟩, fun _ => rfl⟩,
    b.storage.view_serves b.hash⟩

end BlockRecord

/-! ## What they answer -/

section

variable {α : Type}

theorem Rpc.node_settles {b : BlockRecord} {m : Rpc α} {a : α} (h : Settles b.Answers m a) :
    Settles b.Shows m.node a :=
  h.embed fun _ hmove => hmove.1

theorem StateRpc.node_settles {b : BlockRecord} {m : StateRpc α} {a : α}
    (h : Settles (Serves b.storage b.hash) m a) : Settles b.Shows m.node a :=
  h.embed fun _ hmove => hmove.2

end

theorem getStorage_settles_of {storage : Storage} {hash : H256} {text : String} {key : Bytes}
    (hkey : unhex text = .ok key) :
    Settles (Serves storage hash) (getStorage text (some hash)) (.ok (storage.get key)) := by
  have hasked : Settles (Serves storage hash) (stateRequest (.getStorage text (some hash)))
      (.ok ((storage.get key).map hexText)) := .ask fun view hview => hview.getStorage text key hkey
  refine hasked.bind ?_
  cases storage.get key with
  | none => exact .pure _
  | some value =>
    simp only [Option.map_some, unhex_hexText]
    exact .pure _

/-- A fetch gives what the storage holds. -/
theorem fetchAt_settles (storage : Storage) (hash : H256) (Value : Type) [Decode Value]
    (storageKey : Bytes) :
    Settles (Serves storage hash) (fetchAt Value storageKey (some hash))
      (storage.read Value storageKey) := by
  refine (getStorage_settles_of (unhex_encode storageKey)).bind ?_
  unfold Storage.read
  cases storage.get storageKey with
  | none => exact .pure _
  | some value =>
    cases hvalue : (decode : Decoder Value) value with
    | error e =>
      simp only [hvalue]
      exact .pure _
    | ok p =>
      simp only [hvalue]
      exact .pure _

namespace BlockRecord

section

variable {b : BlockRecord} {name : HashStringNumber} (hname : b.Named name)

theorem call_settles {r : Request} {x : r.Response}
    (h : ∀ view, b.Known view → view r = .ok x) : Settles b.Answers (call r) (.ok x) := by
  refine Settles.ask (f := fun e : Event => e.response r) ?_
  rintro e ⟨view, rfl, hview⟩
  exact h view hview

theorem blockHash_settles (c : Chain) :
    Settles b.Answers (c.blockHash (some b.height)) (.ok (some b.hash)) :=
  withRetryOnErrorAndNone_settles (call_settles fun _ hview => hview.getBlockHash) _ _

theorem blockHeight_settles (c : Chain) :
    Settles b.Answers (c.blockHeight b.hash) (.ok (some b.height)) :=
  (withRetryOnErrorAndNone_settles (call_settles fun _ hview => hview.getBlockNumber) _ _).bind
    (.pure _)

include hname

/-- A name of the block as a hash, or as its height. -/
theorem toHashNumber_named :
    Chain.toHashNumber name = .ok (.hash b.hash) ∨
      Chain.toHashNumber name = .ok (.number b.height) := by
  cases hname with
  | hash => exact .inl rfl
  | text h =>
    left
    simp only [Chain.toHashNumber, h]
  | height => exact .inr rfl

theorem toHash_settles (c : Chain) : Settles b.Answers (c.toHash name) (.ok b.hash) := by
  cases hname with
  | hash => exact .pure _
  | text h =>
    simp only [Chain.toHash, h]
    exact .pure _
  | height => exact (blockHash_settles c).bind (.pure _)

theorem blockHeader_settles (c : Chain) :
    Settles b.Answers (c.blockHeader (some name)) (.ok (some b.header)) := by
  have hoption : Settles b.Answers (c.toHashOption (some name)) (.ok (some b.hash)) :=
    (toHash_settles hname c).bind (.pure _)
  have hheader := withRetryOnErrorAndNone_settles
    (call_settles fun _ hview => hview.getHeader : Settles b.Answers _ _)
    c.shouldRetryOnError (c.retryOnNone.getD false)
  exact hoption.bind (hheader.bind (.pure _))

theorem blockInfoFrom_settles (c : Chain) :
    Settles b.Answers (c.blockInfoFrom name) (.ok ⟨b.hash, b.height⟩) := by
  unfold Chain.blockInfoFrom
  rcases toHashNumber_named hname with h | h
  · rw [h]
    exact (blockHeight_settles c).bind (.pure _)
  · rw [h]
    exact (blockHash_settles c).bind (.pure _)

theorem systemFetchExtrinsics_settles (c : Chain) (opts : ExtrinsicOpts) :
    Settles b.Answers (c.systemFetchExtrinsics name opts) (.ok (b.extrinsics opts)) := by
  unfold Chain.systemFetchExtrinsics
  rcases toHashNumber_named hname with h | h
  · rw [h]
    have hasked := withRetryOnError_settles
      (call_settles fun _ hview => (hview.fetchExtrinsics opts).1 : Settles b.Answers _ _)
      c.shouldRetryOnError
    exact hasked.bind (.pure _)
  · rw [h]
    have hasked := withRetryOnError_settles
      (call_settles fun _ hview => (hview.fetchExtrinsics opts).2 : Settles b.Answers _ _)
      c.shouldRetryOnError
    exact hasked.bind (.pure _)

theorem systemFetchEvents_settles (c : Chain) (opts : EventOpts) :
    Settles b.Answers (c.systemFetchEvents name opts) (.ok (b.events opts)) := by
  have hasked := withRetryOnError_settles
    (call_settles fun _ hview => hview.fetchEvents opts : Settles b.Answers _ _)
    c.shouldRetryOnError
  exact (toHash_settles hname c).bind (hasked.bind (.pure _))

theorem justification_settles (block : Block) (hblock : block.ctx.blockId = name) :
    Settles b.Answers block.justification (.ok b.justification) := by
  have hjustification : Settles b.Answers
      (block.ctx.chain.grandpaBlockJustification b.height) (.ok b.justification) := by
    have hasked := withRetryOnError_settles
      (call_settles fun _ hview => hview.blockJustification : Settles b.Answers _ _)
      block.ctx.chain.shouldRetryOnError
    refine hasked.bind ?_
    unfold justificationText
    cases b.justification with
    | none => exact .pure _
    | some justification =>
      simp only [Option.map_some, Chain.decodeJustification_encode]
      exact .pure _
  unfold Block.justification BlockContext.hashNumber
  rw [hblock]
  rcases toHashNumber_named hname with h | h
  · rw [h]
    have hheight : Settles b.Answers (block.heightOf (.hash b.hash)) (.ok b.height) :=
      (blockHeight_settles _).bind (.pure _)
    exact hheight.bind (hjustification.bind (.pure _))
  · rw [h]
    exact Settles.bind (.pure _) (hjustification.bind (.pure _))

end

/-! ## The time and the author of a block -/

/-- The first `set` of the timestamp pallet among its extrinsics sets this time. -/
structure SetsTime (b : BlockRecord) (now : U64) : Prop where
  first : ∃ info data extrinsic,
    (b.extrinsics ((BlockExtrinsicsQuery.withHeader Timestamp.Tx.Set default).toRpcOpts
      .extrinsic)).head? = some info ∧
    info.data = some data ∧ EncodedExtrinsic.tryFromStr data = .ok extrinsic ∧
    fromCall Timestamp.Tx.Set extrinsic.call = .ok ⟨now⟩

/-- The first pre-digest of BABE in its header points to this validator. -/
structure AuthoredBy (b : BlockRecord) (crypto : SpCryptoHashing) (schnorrkel : Schnorrkel)
    (preDigest : Babe.PreDigest schnorrkel) (accountId : AccountId) : Prop where
  sealed : ∃ before value after,
    b.header.digest.logs.items = before ++ .preRuntime Babe.engineId value :: after ∧
    (∀ other, .preRuntime Babe.engineId other ∉ before) ∧ value.items = encode preDigest
  validator : ∃ validators,
    b.storage.read (Vec AccountId) (Session.Storage.validators.encodeStorageKey crypto)
      = .ok (some validators) ∧
    validators.items[preDigest.authorityIndex.val]? = some accountId

section

variable {b : BlockRecord} {crypto : SpCryptoHashing} {schnorrkel : Schnorrkel}

/-- The logs in front of the pre-digest are passed over. -/
theorem authorFrom_settles {preDigest : Babe.PreDigest schnorrkel} {accountId : AccountId}
    {value : Vec UInt8} (hvalue : value.items = encode preDigest) {validators : Vec AccountId}
    (hvalidators : b.storage.read (Vec AccountId)
      (Session.Storage.validators.encodeStorageKey crypto) = .ok (some validators))
    (haccount : validators.items[preDigest.authorityIndex.val]? = some accountId)
    (before after : List DigestItem)
    (hbefore : ∀ other, DigestItem.preRuntime Babe.engineId other ∉ before) :
    Settles b.Shows (Chain.authorFrom crypto schnorrkel b.hash
      (before ++ .preRuntime Babe.engineId value :: after)) (.ok accountId) := by
  induction before with
  | nil =>
    have hdecoded : decode value.items = .ok (preDigest, []) := by
      rw [hvalue]
      exact (readsBack preDigest).readsAlone
    have hfetch : Settles b.Shows (Session.Storage.validators.fetch crypto (some b.hash)).node
        (.ok (some validators)) := by
      refine StateRpc.node_settles ?_
      have hread := fetchAt_settles b.storage b.hash (Vec AccountId)
        (Session.Storage.validators.encodeStorageKey crypto)
      rwa [hvalidators] at hread
    simp only [List.nil_append, Chain.authorFrom, hdecoded]
    refine hfetch.bind ?_
    simp only [haccount]
    exact .pure _
  | cons item before ih =>
    have hrest := ih fun other hmem => hbefore other (List.mem_cons_of_mem _ hmem)
    rw [List.cons_append]
    cases item with
    | preRuntime id other =>
      have hne : id ≠ Babe.engineId := by
        rintro rfl
        exact hbefore other List.mem_cons_self
      simp only [Chain.authorFrom, if_pos hne]
      exact hrest
    | _ => exact hrest

theorem blockValue_settles {name : HashStringNumber} (hname : b.Named name) {Value : Type}
    [Decode Value] (item : StorageValue Value) (what : String) (c : Chain) {value : Value}
    (hvalue : b.storage.read Value (item.encodeStorageKey crypto) = .ok (some value)) :
    Settles b.Shows (c.blockValue crypto item what name) (.ok value) := by
  have hfetch : Settles (Serves b.storage b.hash) (item.fetch crypto (some b.hash))
      (.ok (some value)) := by
    have hread := fetchAt_settles b.storage b.hash Value
      (item.encodeStorageKey crypto)
    rwa [hvalue] at hread
  have hfetched := StateRpc.node_settles
    (withRetryOnErrorAndNone_settles hfetch c.shouldRetryOnError false)
  exact (Rpc.node_settles (toHash_settles hname c)).bind (hfetched.bind (.pure _))

theorem timestamp_settles {name : HashStringNumber} (hname : b.Named name) {now : U64}
    (htime : b.SetsTime now) (block : Block) (hblock : block.ctx.blockId = name) :
    Settles b.Answers block.timestamp (.ok now) := by
  obtain ⟨info, data, extrinsic, hfirst, hdata, hextrinsic, hcall⟩ := htime.first
  obtain ⟨id, hid, hnamed⟩ : ∃ id, Chain.toHashNumber name = .ok id ∧
      b.Named id.toHashStringNumber := by
    rcases toHashNumber_named hname with h | h
    · exact ⟨_, h, .hash⟩
    · exact ⟨_, h, .height⟩
  have hencoded : Settles b.Answers (block.extrinsics.xt.first
      (BlockExtrinsicsQuery.withHeader Timestamp.Tx.Set default))
      (.ok (some ⟨extrinsic.signature, extrinsic.call, .fromExtrinsicInfo info id⟩)) := by
    unfold BlockEncodedExtrinsicsQuery.first BlockEncodedExtrinsicsQuery.one
    have hresolved : block.extrinsics.xt.ctx.hashNumber = .ok id := by
      rw [← hid, ← hblock]
      rfl
    rw [hresolved]
    refine (systemFetchExtrinsics_settles hnamed _ _).bind ?_
    simp only [hfirst, BlockEncodedExtrinsic.fromExtrinsicInfo, hdata, hextrinsic]
    exact .pure _
  have hdecoded : Settles b.Answers (block.extrinsics.first default :
      Rpc (Except Error (Option (BlockExtrinsic Timestamp.Tx.Set))))
      (.ok (some ⟨extrinsic.signature, ⟨now⟩, .fromExtrinsicInfo info id⟩)) := by
    refine hencoded.bind ?_
    simp only [BlockEncodedExtrinsic.asExtrinsic, hcall]
    exact .pure _
  exact hdecoded.bind (.pure _)

theorem author_settles {name : HashStringNumber} (hname : b.Named name)
    {preDigest : Babe.PreDigest schnorrkel} {accountId : AccountId}
    (hauthor : b.AuthoredBy crypto schnorrkel preDigest accountId) (c : Chain) :
    Settles b.Shows (c.blockAuthor crypto schnorrkel name) (.ok accountId) := by
  obtain ⟨before, value, after, hlogs, hbefore, hvalue⟩ := hauthor.sealed
  obtain ⟨validators, hvalidators, haccount⟩ := hauthor.validator
  have hheader := Rpc.node_settles (blockHeader_settles (.hash : b.Named (.hash b.hash)) c)
  refine (Rpc.node_settles (toHash_settles hname c)).bind (hheader.bind ?_)
  simp only [hlogs]
  exact authorFrom_settles hvalue hvalidators haccount before after hbefore

end

/-- Every question to the block gets the answer of this record. -/
structure Reads (crypto : SpCryptoHashing) (schnorrkel : Schnorrkel) (b : BlockRecord)
    (block : Block) : Prop where
  info : Settles b.Answers block.info (.ok ⟨b.hash, b.height⟩)
  header : Settles b.Answers block.header (.ok b.header)
  justification : Settles b.Answers block.justification (.ok b.justification)
  extrinsicInfos : ∀ opts, Settles b.Answers (block.extrinsicInfos opts) (.ok (b.extrinsics opts))
  extrinsicCount : Settles b.Answers block.extrinsicCount
    (.ok (b.extrinsics ((default : ExtrinsicOptions).toRpcOpts .none)).length)
  events : ∀ opts, Settles b.Answers (block.events.raw opts) (.ok (b.events opts))
  timestamp : ∀ now, b.SetsTime now → Settles b.Answers block.timestamp (.ok now)
  author : ∀ preDigest accountId, b.AuthoredBy crypto schnorrkel preDigest accountId →
    Settles b.Shows (block.author crypto schnorrkel) (.ok accountId)
  eventCount : ∀ count,
    b.storage.read U32 (System.Storage.eventCount.encodeStorageKey crypto) = .ok (some count) →
    Settles b.Shows (block.eventCount crypto) (.ok count)
  weight : ∀ weight,
    b.storage.read PerDispatchClassWeight (System.Storage.blockWeight.encodeStorageKey crypto)
      = .ok (some weight) →
    Settles b.Shows (block.weight crypto) (.ok weight)

/-- However a block is named, and whatever else happens on the chain between the requests, its
    questions are answered as its record says; the author is the validator to which the first BABE
    pre-digest points, whatever other logs stand around it. -/
theorem names_agree (crypto : SpCryptoHashing) (schnorrkel : Schnorrkel) (b : BlockRecord)
    (name : HashStringNumber) (client : Client) (retry : Option Bool) (hname : b.Named name) :
    Reads crypto schnorrkel b ((Block.new client name).setRetryOnError retry) where
  info := blockInfoFrom_settles hname _
  header := (blockHeader_settles hname _).bind (.pure _)
  justification := justification_settles hname _ rfl
  extrinsicInfos opts := systemFetchExtrinsics_settles hname _ opts
  extrinsicCount := (systemFetchExtrinsics_settles hname _ _).bind (.pure _)
  events opts := systemFetchEvents_settles hname _ opts
  timestamp _ htime := timestamp_settles hname htime _ rfl
  author _ _ hauthor := author_settles hname hauthor _
  eventCount _ hcount := blockValue_settles hname _ _ _ hcount
  weight _ hweight := blockValue_settles hname _ _ _ hweight

def validatorsOfTwo : Vec AccountId := ⟨[FixedBytes.fill 32 1, FixedBytes.fill 32 2], by decide⟩

/-- The second of two validators has authored a block, in whose header another engine's log stands
    in front. -/
def secondsBlock : BlockRecord where
  hash := FixedBytes.fill 32 7
  height := 1
  header :=
    { parentHash := FixedBytes.fill 32 6
      number := 1
      stateRoot := FixedBytes.fill 32 0
      extrinsicsRoot := FixedBytes.fill 32 0
      digest := ⟨[.preRuntime ⟨[1, 2, 3, 4], rfl⟩ Vec.nil, .preRuntime Babe.engineId
        ⟨[2, 1, 0, 0, 0, 9, 0, 0, 0, 0, 0, 0, 0], by decide⟩], by decide⟩
      extension := .V3 ⟨⟨0, Vec.nil⟩, ⟨0, 0, Vec.nil, FixedBytes.fill 32 0⟩⟩ }
  justification := none
  extrinsics _ := []
  events _ := []
  storage := ⟨[(Session.Storage.validators.encodeStorageKey noCrypto, encode validatorsOfTwo)],
    List.pairwise_singleton _ _⟩

theorem names_agree_second :
    secondsBlock.Shows (.answer secondsBlock.view, secondsBlock.storage.view) ∧
      Settles secondsBlock.Shows
        ((Block.new Client.devnet (.number 1)).author noCrypto ⟨fun _ => .ok (), fun _ => .ok ()⟩)
        (.ok (FixedBytes.fill 32 2)) := by
  have hvalidators : secondsBlock.storage.read (Vec AccountId)
      (Session.Storage.validators.encodeStorageKey noCrypto) = .ok (some validatorsOfTwo) := by
    have hget : secondsBlock.storage.get (Session.Storage.validators.encodeStorageKey noCrypto)
        = some (encode validatorsOfTwo) := secondsBlock.storage.get_of_mem List.mem_cons_self
    have hdecoded : decode (encode validatorsOfTwo) = .ok (validatorsOfTwo, []) :=
      (readsBack validatorsOfTwo).readsAlone
    simp only [Storage.read, hget, hdecoded]
  have hauthor : secondsBlock.AuthoredBy noCrypto ⟨fun _ => .ok (), fun _ => .ok ()⟩
      (.secondaryPlain ⟨1, 9⟩) (FixedBytes.fill 32 2) := by
    refine ⟨⟨[_], _, [], rfl, ?_, rfl⟩, ⟨_, hvalidators, rfl⟩⟩
    intro other hmem
    simp [Babe.engineId] at hmem
  exact ⟨view_shows _,
    (names_agree noCrypto _ secondsBlock (.number 1) Client.devnet none .height).author _ _ hauthor⟩

end BlockRecord

end AvailRust
