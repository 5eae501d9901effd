/-
  The two programs that map a receipt.

  `MapPayloadRecoveryReceipt.main` is the older one. It lists the cells of the runtime's grid
  without what is expected in them, takes the first matching extrinsic on trust, and goes on with a
  fallback when the node does not tell its grid. Against a node that does not change, where both
  programs build a map, the two maps agree on the block, the extrinsic and the range, and on every
  cell unless the older one went on with a fallback, whatever requests failed (`maps_agree`). Their
  grids have the same columns; of the rows, the older map has all that the node tells, the other
  one those its lookup needs.
-/
import AvailRust.Recovery.Program

namespace AvailRust

open Scale Dialogue Fallible Results

namespace MapPayloadRecoveryReceipt

open BuildPayloadRecoveryMapNative (kateBlockLength)
open Text (parseU32)

def dataChunkSize : Nat := 31
def blockChunkSize : Nat := 32
def v4RuntimeGridRowsFallback : Nat := 64
def v4RuntimeGridColsFallback : Nat := 64

structure RequiredCell where
  scalarIndex : Nat
  row : Nat
  col : Nat
deriving DecidableEq

structure GridSummary where
  rows : Nat
  cols : Nat
  chunkSize : Nat
  blockChunkSize : Nat
  source : String
deriving DecidableEq

structure PayloadRecoveryMap where
  network : String
  userRunId : String
  userRunDir : String
  submitFull : String
  endpoint : String
  blockNumber : Nat
  chainMatch : ChainMatch
  appIdRangeFromDataLookup : AppIdRange
  grid : GridSummary
  requiredOriginalGridCells : List RequiredCell
  expectedPayload : ExpectedPayload
  finalized : Bool

def appIdRange (appId : U32) (selected : ExpandedAppRange) : AppIdRange where
  appId := appId
  startScalar := selected.startScalar
  endScalar := selected.endScalar
  scalarCount := selected.scalarCount
  startStreamByte := selected.startScalar * dataChunkSize
  endStreamByte := selected.endScalar * dataChunkSize
  counted := selected.counted

def requiredCells (range : AppIdRange) (cols : Nat) : Except String (List RequiredCell) :=
  if cols = 0 then .error "block length cols must be non-zero"
  else .ok ((List.range' range.startScalar (range.endScalar - range.startScalar)).map
    fun scalarIndex => ⟨scalarIndex, scalarIndex / cols, scalarIndex % cols⟩)

/-- A fallback for the grid: its rows, columns and chunk size, and where they are from. -/
abbrev Fallback := Nat × Nat × Nat × String

section

variable (env : String → Option String)

def envU32 (name : String) : Except BoxError (Option Nat) :=
  match env name with
  | none => .ok none
  | some value =>
    match parseU32 value with
    | .error err => .error (.envVar name value err)
    | .ok n => .ok (some n)

def v4RuntimeGridFallback : Except BoxError Fallback := do
  let rows ← envU32 env "AVAIL_RUNTIME_GRID_ROWS"
  let rows := rows.getD v4RuntimeGridRowsFallback
  let cols ← envU32 env "AVAIL_RUNTIME_GRID_COLS"
  let cols := cols.getD v4RuntimeGridColsFallback
  let chunkSize ← envU32 env "AVAIL_RUNTIME_GRID_BLOCK_CHUNK_SIZE"
  let chunkSize := chunkSize.getD blockChunkSize
  if rows = 0 ∨ cols = 0 ∨ chunkSize = 0 then
    .error (.text "runtime grid fallback rows, cols, and block chunk size must be non-zero")
  else .ok (rows, cols, chunkSize, "v4_private_testnet_runtime_grid_fallback")

/-- What a header offers when the node does not tell its grid. -/
def fallbackGrid : HeaderExtension → Except BoxError (Option Fallback)
  | .V3 ext =>
    .ok (if ext.commitment.rows.1 > 0 ∧ ext.commitment.cols.1 > 0 then
      some (ext.commitment.rows.1, ext.commitment.cols.1, blockChunkSize,
        "v3_header_commitment_fallback")
    else none)
  | .V4 _ => some <$> v4RuntimeGridFallback env

/-- The grid the node tells, or the fallback. -/
def gridOf (fallback : Option Fallback) :
    Except RpcError BlockLength → Except BoxError Fallback
  | .ok length => .ok (length.rows, length.cols, length.chunkSize, "kate_blockLength")
  | .error err =>
    match fallback with
    | none =>
      .error (.wrapped "kate_blockLength failed and no header fallback is available" err)
    | some fallback => .ok fallback

end

section

variable (parseHash : String → Except String H256)
  (blockLength : Option H256 → Rpc (Except RpcError BlockLength)) (client : Client)
  (env : String → Option String) (receipt : SubmissionReceipt)

def main : Tool PayloadRecoveryMap := do
  let (expectedBlockHash, actualBlockHash, extInfo) ← checkReceipt parseHash client receipt
  let header ← attempt .client (client.chain.blockHeader (some (.hash expectedBlockHash)))
  let header ← check .text (okOr "block header not found for receipt block hash" header)
  let (headerExtension, lookupSize, lookupIndex) := header.extension.lookup
  let fallback ← check id (fallbackGrid env header.extension)
  let length ← ExceptT.lift (kateBlockLength client.chain blockLength (some expectedBlockHash))
  let (rows, cols, chunkSize, source) ← check id (gridOf fallback length)
  let dataLookupRanges := expandLookup lookupSize lookupIndex
  let selected ← check .text
    (okOr "receipt app_id was not present in header extension DataLookup"
      (selectRange receipt.appId dataLookupRanges))
  let range := appIdRange receipt.appId selected
  let capacity ← check .text (okOr "grid capacity overflow" (u32CheckedMul rows cols))
  check .text (refuseIf (range.endScalar > capacity)
    ("app_id range exceeds grid capacity: end_scalar=" ++ toString range.endScalar ++ " capacity="
      ++ toString capacity))
  let cells ← check .text (requiredCells range cols)
  pure {
    network := receipt.network
    userRunId := receipt.userRunId
    userRunDir := receipt.userRunDir
    submitFull := receipt.submitFull
    endpoint := (env "ENDPOINT").getD receipt.submitEndpoint
    blockNumber := receipt.blockNumber
    chainMatch :=
      { blockHash := hexText actualBlockHash.bytes
        extrinsicHash := hexText extInfo.extHash.bytes
        extrinsicMatch :=
          { txIndex := extInfo.extIndex
            extHash := hexText extInfo.extHash.bytes
            palletId := extInfo.palletId
            variantId := extInfo.variantId
            signerAppId := extInfo.signerPayload.map (·.appId) }
        headerExtension
        dataLookupSizeScalars := lookupSize
        dataLookupRanges }
    appIdRangeFromDataLookup := range
    grid := ⟨rows, cols, dataChunkSize, chunkSize, source⟩
    requiredOriginalGridCells := cells
    expectedPayload := ⟨receipt.payloadSize, receipt.payloadSha256⟩
    finalized := receipt.finalized }

end

end MapPayloadRecoveryReceipt

namespace MapPayloadRecoveryReceipt

/-- No fallback is the grid of the node. -/
theorem fallbackGrid_source {env : String → Option String} {ext : HeaderExtension}
    {rows cols chunkSize : Nat} {source : String}
    (h : fallbackGrid env ext = .ok (some (rows, cols, chunkSize, source))) :
    source ≠ "kate_blockLength" := by
  cases ext with
  | V3 ext =>
    have hsome := Except.ok.inj h
    split at hsome
    case isTrue =>
      cases hsome
      decide
    case isFalse => cases hsome
  | V4 ext =>
    obtain ⟨fallback, hfallback, hsome⟩ := map_ok_iff.mp h
    obtain rfl := Option.some.inj hsome
    unfold v4RuntimeGridFallback at hfallback
    obtain ⟨rows, -, hfallback⟩ := bind_ok_iff.mp hfallback
    obtain ⟨cols, -, hfallback⟩ := bind_ok_iff.mp hfallback
    obtain ⟨chunkSize, -, hfallback⟩ := bind_ok_iff.mp hfallback
    dsimp only at hfallback
    split at hfallback
    case isTrue => cases hfallback
    case isFalse =>
      cases hfallback
      decide

/-- The grid of the node is the one that was told. -/
theorem gridOf_eq_ok {env : String → Option String} {ext : HeaderExtension}
    {fallback : Option Fallback} {answer : Except RpcError BlockLength}
    {rows cols chunkSize : Nat} (hfallback : fallbackGrid env ext = .ok fallback)
    (h : gridOf fallback answer = .ok (rows, cols, chunkSize, "kate_blockLength")) :
    answer = .ok ⟨cols, rows, chunkSize⟩ := by
  unfold gridOf at h
  split at h
  case h_1 length =>
    cases h
    rfl
  case h_2 =>
    split at h
    case h_1 => cases h
    case h_2 =>
      obtain rfl := Except.ok.inj h
      exact absurd rfl (fallbackGrid_source hfallback)

end MapPayloadRecoveryReceipt

/-! ## A node that does not change -/

section

variable {view : View}

theorem checkReceipt_settled (view : View) (parseHash : String → Except String H256)
    (client : Client) (receipt : SubmissionReceipt) :
    Settled (OneView view) (checkReceipt parseHash client receipt).run := by
  refine (Settled.check _ _).andThen fun expected => ?_
  refine (Settled.attempt
    (withRetryOnErrorAndNone_settled (call_settled view (.getBlockHash _)) _ _)
    _).andThen fun found => ?_
  refine (Settled.check _ _).andThen fun actual => ?_
  refine (Settled.check _ _).andThen fun _ => ?_
  refine (Settled.check _ _).andThen fun txHash => ?_
  refine (Settled.attempt (Chain.systemFetchExtrinsics_settled view _ _ _) _).andThen
    fun extInfos => ?_
  refine (Settled.check _ _).andThen fun extInfo => ?_
  refine (Settled.check _ _).andThen fun _ => ?_
  exact .pure _

open BuildPayloadRecoveryMapNative in
theorem fetchExtrinsic_settled (view : View) (crypto : SpCryptoHashing) (client : Client)
    (receipt : SubmissionReceipt) (hash : H256) (extInfo : ExtrinsicInfo) :
    Settled (OneView view) (fetchExtrinsic crypto client receipt hash extInfo).run := by
  refine (Settled.attempt (withRetryOnErrorAndNone_settled (call_settled view (.getBlock _)) _ _)
    _).andThen fun found => ?_
  refine (Settled.check _ _).andThen fun legacyBlock => ?_
  refine (Settled.check _ _).andThen fun txBytes => ?_
  refine (Settled.check _ _).andThen fun _ => ?_
  exact .pure _

end

/-! ## Two maps of one receipt -/

open BuildPayloadRecoveryMapNative in
/-- The cells of the runtime's grid that a map lists. -/
theorem requiredCells_original {Owner : Type} {lookupSize runtimeRows runtimeCols custodyCols : Nat}
    {range : AppIdRange} {appStream : Bytes} {activeOwnersByCol : Nat → Option (List Owner)}
    {cells : RequiredCells Owner}
    (h : BuildPayloadRecoveryMapNative.requiredCells lookupSize runtimeRows runtimeCols custodyCols
      range appStream activeOwnersByCol = .ok cells) :
    cells.original = (List.range' range.startScalar (range.endScalar - range.startScalar)).map
      (originalCell runtimeCols custodyCols) := by
  obtain ⟨rows, hrows, hfits, hproduct, hend, hlength⟩ := requiredCells_eq_ok h
  rw [requiredCells_eq hrows hfits hproduct hend hlength] at h
  obtain ⟨new, hrun, rfl⟩ := pushes_eq_ok.mp h
  rw [foldl_pushCells]
  exact run_original hrun

/-- What two maps of one receipt have in common. The grid and the cells are the same where the
    older map has them of the node, not of a fallback. -/
structure Agree (map : BuildPayloadRecoveryMapNative.PayloadRecoveryMap)
    (map' : MapPayloadRecoveryReceipt.PayloadRecoveryMap) : Prop where
  block : map.blockNumber = map'.blockNumber
  chainMatch : map.chainMatch = map'.chainMatch
  range : map.appIdRangeFromDataLookup = map'.appIdRangeFromDataLookup
  reported : map'.grid.source = "kate_blockLength" →
    map.grid.runtimeReportedRows = map'.grid.rows ∧ map.grid.runtimeReportedCols = map'.grid.cols
  grid : map'.grid.source = "kate_blockLength" →
    map.grid.cols = map'.grid.cols ∧ map.grid.rows ≤ map'.grid.rows
  cells : map'.grid.source = "kate_blockLength" →
    map.requiredOriginalGridCells.map (fun cell =>
        (⟨cell.scalarIndex, cell.row, cell.col⟩ : MapPayloadRecoveryReceipt.RequiredCell))
      = map'.requiredOriginalGridCells

section

variable {crypto : SpCryptoHashing} {sha256 : Bytes → Bytes}
  {parseHash : String → Except String H256}
  {blockLength : Option H256 → Rpc (Except RpcError BlockLength)} {client : Client}
  {env env' : String → Option String} {inventory : String} {receipt : SubmissionReceipt}
  {map : BuildPayloadRecoveryMapNative.PayloadRecoveryMap}
  {map' : MapPayloadRecoveryReceipt.PayloadRecoveryMap} {view : View}

/-- Two maps built against a node that does not change agree, whatever requests failed. -/
theorem maps_agree (hblockLength : ∀ hash, Settled (OneView view) (blockLength hash))
    {w1 w2 w1' w2' : RpcWorld} (hw1 : w1.Plays (OneView view)) (hw2 : w2.Plays (OneView view))
    (h1 : (BuildPayloadRecoveryMapNative.main crypto sha256 parseHash blockLength client env
      inventory receipt).run w1 = some (.ok map, w1'))
    (h2 : (MapPayloadRecoveryReceipt.main parseHash blockLength client env' receipt).run w2
      = some (.ok map', w2')) : Agree map map' := by
  -- the native program first reads its inventory, which asks nothing
  obtain ⟨custodyCols, v1, hcustody, h1⟩ := bind_eq_ok.mp h1
  obtain ⟨-, rfl⟩ := check_eq_ok.mp hcustody
  obtain ⟨storeOwners, v2, howners, h1⟩ := bind_eq_ok.mp h1
  obtain ⟨-, rfl⟩ := check_eq_ok.mp howners
  obtain ⟨active, v3, hactive, h1⟩ := bind_eq_ok.mp h1
  obtain ⟨-, rfl⟩ := check_eq_ok.mp hactive
  obtain ⟨⟨expected, actual, extInfo⟩, v4, hreceipt1, h1⟩ := bind_eq_ok.mp h1
  obtain ⟨⟨expected', actual', extInfo'⟩, u1, hreceipt2, h2⟩ := bind_eq_ok.mp h2
  obtain ⟨hsame, hv4, hu1⟩ := (checkReceipt_settled view parseHash client receipt).unique hw1 hw2
    hreceipt1 hreceipt2
  simp only [Prod.mk.injEq] at hsame
  obtain ⟨rfl, rfl, rfl⟩ := hsame
  -- and then the extrinsic's bytes, which the other program does not ask for
  obtain ⟨txBytes, v5, htx, h1⟩ := bind_eq_ok.mp h1
  have hv5 := (fetchExtrinsic_settled view crypto client receipt expected extInfo).plays hv4 htx
  obtain ⟨found, v6, hheader1, h1⟩ := bind_eq_ok.mp h1
  obtain ⟨found', u2, hheader2, h2⟩ := bind_eq_ok.mp h2
  obtain ⟨hfound, hv6, hu2⟩ := ((Chain.blockHeader_settled view client.chain expected).attempt
    _).unique hv5 hu1 hheader1 hheader2
  subst hfound
  obtain ⟨header, v7, hsome1, h1⟩ := bind_eq_ok.mp h1
  obtain ⟨header', u3, hsome2, h2⟩ := bind_eq_ok.mp h2
  obtain ⟨hheader, rfl⟩ := check_eq_ok.mp hsome1
  obtain ⟨hheader', rfl⟩ := check_eq_ok.mp hsome2
  obtain rfl := Except.ok.inj (hheader.symm.trans hheader')
  obtain ⟨fallback, u4, hfallback, h2⟩ := bind_eq_ok.mp h2
  obtain ⟨hfallbackOk, rfl⟩ := check_eq_ok.mp hfallback
  obtain ⟨length, v8, hlength1, h1⟩ := bind_eq_ok.mp h1
  obtain ⟨answer, u5, hanswer, h2⟩ := bind_eq_ok.mp h2
  obtain ⟨_, v9, -, h1⟩ := bind_eq_ok.mp h1
  obtain ⟨⟨rows', cols', chunkSize, source⟩, u6, hgrid, h2⟩ := bind_eq_ok.mp h2
  -- the grids: the same answer, unless the older program had none
  have hnode : source = "kate_blockLength" → length = ⟨cols', rows', chunkSize⟩ := by
    rintro rfl
    obtain rfl := MapPayloadRecoveryReceipt.gridOf_eq_ok hfallbackOk (check_eq_ok.mp hgrid).1
    exact ((withRetryOnError_settled (hblockLength (some expected)) _).unique hv6 hu2
      (attempt_eq_ok.mp hlength1) (lift_eq_ok.mp hanswer)).1
  obtain ⟨selected, v10, hselected1, h1⟩ := bind_eq_ok.mp h1
  obtain ⟨selected', u7, hselected2, h2⟩ := bind_eq_ok.mp h2
  obtain rfl := Except.ok.inj ((check_eq_ok.mp hselected1).1.symm.trans
    (check_eq_ok.mp hselected2).1)
  obtain ⟨rows, v11, hrows, h1⟩ := bind_eq_ok.mp h1
  obtain ⟨appStream, v12, -, h1⟩ := bind_eq_ok.mp h1
  obtain ⟨cells, v13, hcells, h1⟩ := bind_eq_ok.mp h1
  obtain ⟨padded, v14, -, h1⟩ := bind_eq_ok.mp h1
  obtain ⟨rfl, -⟩ := Fallible.pure_eq_ok.mp h1
  obtain ⟨capacity, u8, -, h2⟩ := bind_eq_ok.mp h2
  obtain ⟨_, u9, -, h2⟩ := bind_eq_ok.mp h2
  obtain ⟨cells', u10, hcells', h2⟩ := bind_eq_ok.mp h2
  obtain ⟨rfl, -⟩ := Fallible.pure_eq_ok.mp h2
  have hcellsOk := (check_eq_ok.mp hcells).1
  obtain ⟨computed, hcomputed, hfits, -⟩ :=
    BuildPayloadRecoveryMapNative.requiredCells_eq_ok hcellsOk
  obtain rfl := Except.ok.inj ((check_eq_ok.mp hrows).1.symm.trans hcomputed)
  have hlisted := (check_eq_ok.mp hcells').1
  unfold MapPayloadRecoveryReceipt.requiredCells at hlisted
  split at hlisted
  case isTrue => cases hlisted
  case isFalse =>
    obtain rfl := Except.ok.inj hlisted
    refine ⟨rfl, rfl, rfl, ?_, ?_, ?_⟩
    · intro hsource
      obtain rfl := hnode hsource
      exact ⟨rfl, rfl⟩
    · intro hsource
      obtain rfl := hnode hsource
      exact ⟨rfl, hfits⟩
    · intro hsource
      obtain rfl := hnode hsource
      show cells.original.map _ = _
      rw [requiredCells_original hcellsOk, List.map_map]
      rfl

end

namespace OneCell

open BuildPayloadRecoveryMapNative.OneCell

def blockLength : Option H256 → Rpc (Except RpcError BlockLength) := fun _ => pure (.ok ⟨1, 4, 32⟩)

/-- Moves of the node, of which one is a lost connection. -/
def world (before after : Nat) : RpcWorld :=
  start Request (List.replicate before (.answer view)
    ++ .fail none (.rpc "connection lost") :: List.replicate after (.answer view))

def native : Option (Except BoxError BuildPayloadRecoveryMapNative.PayloadRecoveryMap × RpcWorld) :=
  (BuildPayloadRecoveryMapNative.main noCrypto id h256FromStr blockLength Client.devnet
    (fun _ => none) inventory receipt).run (world 0 4)

def older : Option (Except BoxError MapPayloadRecoveryReceipt.PayloadRecoveryMap × RpcWorld) :=
  (MapPayloadRecoveryReceipt.main h256FromStr blockLength Client.devnet (fun _ => none)
    receipt).run (world 2 1)

/-- Whether both runs have built a map, of the node's grid. -/
def bothBuilt : Bool :=
  match native, older with
  | some (.ok _, _), some (.ok map', _) => map'.grid.source = "kate_blockLength"
  | _, _ => false

theorem plays_world (before after : Nat) : (world before after).Plays (OneView view) := by
  apply World.plays_start
  intro e he
  rcases List.mem_append.mp he with he | he
  · exact .inl (List.eq_of_mem_replicate he)
  · rcases List.mem_cons.mp he with rfl | he
    · exact .inr ⟨_, _, rfl⟩
    · exact .inl (List.eq_of_mem_replicate he)

end OneCell

/-- The first request of one program fails, and the third of the other. -/
theorem maps_agree_one : ∃ map map' w1 w2, OneCell.native = some (.ok map, w1) ∧
    OneCell.older = some (.ok map', w2) ∧ map'.grid.source = "kate_blockLength" ∧
    Agree map map' := by
  have hbuilt : OneCell.bothBuilt = true := by decide +kernel
  unfold OneCell.bothBuilt at hbuilt
  split at hbuilt
  case h_1 map w1 map' w2 h1 h2 =>
    exact ⟨map, map', w1, w2, h1, h2, of_decide_eq_true hbuilt,
      maps_agree (fun _ => .pure _) (OneCell.plays_world 0 4) (OneCell.plays_world 2 1) h1 h2⟩
  case h_2 => cases hbuilt

end AvailRust
