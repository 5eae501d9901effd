/-
  The program that maps a submission's receipt to the cells that recover it.

  `main` checks the receipt against the chain, finds the app's scalars in the block's data lookup
  and lists the cells with the stores that hold them. Each step may stop the program. When it ends
  well, the cells it lists give back the receipt's extrinsic, whatever the node answered
  (`main_recovers`).

  `kate_blockLength` is asked by a program of its own, any that ends. The parser for hashes and the
  digest of the streams are not the repository's, so they are parameters as well.
-/
import AvailRust.Client.Block
import AvailRust.Lib.Fallible
import AvailRust.Recovery.Map
import AvailRust.Recovery.Owners
import AvailRust.Storage.State

namespace AvailRust

open Scale Dialogue Fallible Results StableSort Text

/-! ## What goes in and what comes out -/

structure SubmissionReceipt where
  network : String
  userRunId : String
  userRunDir : String
  payloadSha256 : String
  payloadSize : Nat
  submitFull : String
  submitEndpoint : String
  appId : U32
  blockNumber : Nat
  blockHash : String
  extrinsicHash : String
  finalized : Bool
deriving DecidableEq

/-- The answer of `kate_blockLength`, without the limits of the dispatch classes. -/
structure BlockLength where
  cols : Nat
  rows : Nat
  chunkSize : Nat
deriving DecidableEq

/-- `Box<dyn Error>`. -/
inductive BoxError where
  | text (message : String)
  | rpc (error : RpcError)
  | client (error : Error)
  /-- `{message}: {error:?}` -/
  | wrapped (message : String) (error : RpcError)
  /-- `{name} must be a positive integer, got {value:?}: {error}` -/
  | envVar (name value error : String)
deriving DecidableEq

structure ExpectedPayload where
  size : Nat
  sha256 : String
deriving DecidableEq

structure ExtrinsicMatch where
  txIndex : Nat
  extHash : String
  palletId : UInt8
  variantId : UInt8
  signerAppId : Option Nat
deriving DecidableEq

/-- What the two programs share of what they write of the chain. -/
structure ChainMatch where
  blockHash : String
  extrinsicHash : String
  extrinsicMatch : ExtrinsicMatch
  headerExtension : String
  dataLookupSizeScalars : Nat
  dataLookupRanges : List ExpandedAppRange

/-- A program over the node that may stop. -/
abbrev Tool := Fallible Request Event BoxError

/-- The lookup of a header, in either version. -/
def HeaderExtension.lookup : HeaderExtension → String × Nat × List DataLookupItem
  | .V3 ext => ("V3", ext.appLookup.size.1, ext.appLookup.index.items)
  | .V4 ext => ("V4", ext.appLookup.size.1, ext.appLookup.index.items)

/-- The app's first range with scalars, or else its first range. -/
def selectRange (appId : U32) (ranges : List ExpandedAppRange) : Option ExpandedAppRange :=
  (ranges.find? fun range => range.appId = appId ∧ range.scalarCount > 0).or
    (ranges.find? fun range => range.appId = appId)

theorem selectRange_spec {appId : U32} {ranges : List ExpandedAppRange} {range : ExpandedAppRange}
    (h : selectRange appId ranges = some range) : range ∈ ranges ∧ range.appId = appId := by
  rcases Option.or_eq_some_iff.mp h with hfirst | ⟨-, hsecond⟩
  · have hfound := List.find?_some hfirst
    simp only [Bool.decide_and, Bool.and_eq_true, decide_eq_true_eq] at hfound
    exact ⟨List.mem_of_find?_eq_some hfirst, hfound.1⟩
  · exact ⟨List.mem_of_find?_eq_some hsecond, by simpa using List.find?_some hsecond⟩

section

variable (parseHash : String → Except String H256)

/-- The steps both programs start with: the block and the extrinsic of the receipt. -/
def checkReceipt (client : Client) (receipt : SubmissionReceipt) :
    Tool (H256 × H256 × ExtrinsicInfo) := do
  let chain := client.chain
  let expectedBlockHash ← check .text (parseHash receipt.blockHash)
  let found ← attempt .rpc (chain.blockHash (some receipt.blockNumber))
  let actualBlockHash ← check .text (okOr "block hash not found for receipt block_number" found)
  check .text (refuseIf (actualBlockHash ≠ expectedBlockHash)
    ("receipt block hash mismatch: receipt=" ++ receipt.blockHash ++ " chain="
      ++ hexText actualBlockHash.bytes))
  let txHash ← check .text (parseHash receipt.extrinsicHash)
  let extInfos ← attempt .client
    ((Block.new client (.number receipt.blockNumber)).extrinsicInfos (.byHash txHash))
  let extInfo ← check .text
    (okOr "extrinsic hash from receipt was not found in receipt block" extInfos.head?)
  check .text (match extInfo.signerPayload with
    | none => .ok ()
    | some signer => refuseIf (signer.appId ≠ receipt.appId.1)
      ("receipt app_id mismatch: receipt=" ++ toString receipt.appId.1 ++ " extrinsic="
        ++ toString signer.appId))
  pure (expectedBlockHash, actualBlockHash, extInfo)

end

namespace BuildPayloadRecoveryMapNative

/-- `kate_blockLength`, asked again as the chain's other queries are. -/
def kateBlockLength (c : Chain) (query : Option H256 → Rpc (Except RpcError BlockLength))
    (hash : Option H256) : Rpc (Except RpcError BlockLength) :=
  withRetryOnError (query hash) c.shouldRetryOnError

structure GridSummary where
  rows : Nat
  cols : Nat
  chunkSize : Nat
  blockChunkSize : Nat
  extendedRows : Nat
  extendedCols : Nat
  runtimeReportedRows : Nat
  runtimeReportedCols : Nat
deriving DecidableEq

structure RuntimeStoreOwnership where
  ownerCount : Nat
  activeOwnerCount : Nat
  generatedOwnerCount : Nat
  inactiveOwnerFilteredCount : Nat
  activeOwnerScope : ActiveOwnerScope
  owners : List RuntimeOwner
  cdaRawCellOwnerStoreMultiaddrs : String

structure ExpectedAppStream where
  unpaddedSize : Nat
  paddedSize : Nat
  sha256 : String
  paddedSha256 : String
  chunkSize : Nat
  chunkCount : Nat
  paddedHex : String
  chunksHex : List String

structure PayloadRecoveryMap where
  network : String
  userRunId : String
  userRunDir : String
  submitFull : String
  endpoint : String
  blockNumber : Nat
  chainMatch : ChainMatch
  appIdRangeFromDataLookup : AppIdRange
  grid : GridSummary
  requiredOriginalGridCells : List RequiredOriginalCell
  expectedPayload : ExpectedPayload
  finalized : Bool
  requiredCdaExtCells : List (RequiredCdaCell RuntimeOwner)
  storeCustodyCols : Nat
  runtimeStoreOwnership : RuntimeStoreOwnership
  expectedAppStream : ExpectedAppStream

/-- `vec![tx_bytes].encode()`, which panics where the length does not fit. -/
def appStreamOf (txBytes : Bytes) : Except String Bytes :=
  match Vec.ofList txBytes with
  | none => .error "Attempted to serialize a collection with too many elements."
  | some tx => .ok (encode (⟨[tx], by simp⟩ : Vec (Vec UInt8)))

/-- `slice::chunks`. -/
def chunks (width : Nat) (xs : Bytes) : List Bytes :=
  (List.range ((xs.length + (width - 1)) / width)).map (Grid.window width xs)

def hexOf (bytes : Bytes) : String := String.ofList (Hex.encode bytes)

section

variable (crypto : SpCryptoHashing) (sha256 : Bytes → Bytes)
  (parseHash : String → Except String H256)
  (blockLength : Option H256 → Rpc (Except RpcError BlockLength)) (client : Client)
  (env : String → Option String) (inventory : String) (receipt : SubmissionReceipt)

def blake2_256_hex (data : Bytes) : String := hexText (crypto.blake2_256 data).bytes

def sha256Hex (data : Bytes) : String := hexOf (sha256 data)

/-- The receipt's extrinsic, out of its block. -/
def fetchExtrinsic (expectedBlockHash : H256) (extInfo : ExtrinsicInfo) : Tool Bytes := do
  let found ← attempt .rpc (client.chain.legacyBlock (some expectedBlockHash))
  let legacyBlock ← check .text (okOr "block not found for receipt block hash" found)
  let txBytes ← check .text (okOr ("tx_index " ++ toString extInfo.extIndex
    ++ " is outside block extrinsics len " ++ toString legacyBlock.extrinsics.length)
    legacyBlock.extrinsics[extInfo.extIndex]?)
  let actualExtHash := blake2_256_hex crypto txBytes
  check .text (refuseIf (toAsciiLowercase actualExtHash ≠ toAsciiLowercase receipt.extrinsicHash)
    ("receipt extrinsic hash mismatch: receipt=" ++ receipt.extrinsicHash ++ " actual="
      ++ actualExtHash))
  pure txBytes

def main : Tool PayloadRecoveryMap := do
  let custodyCols ← check .text (custodyColsFromEnv env)
  let storeOwners ← check .text (readRuntimeStoreOwners crypto inventory custodyCols)
  let allRuntimeOwners := storeOwners.all
  let scope := activeScopeFromEnv env allRuntimeOwners
  let activeRuntimeOwners ← check .text (filterActiveOwners allRuntimeOwners scope)
  let (expectedBlockHash, actualBlockHash, extInfo) ← checkReceipt parseHash client receipt
  let txBytes ← fetchExtrinsic crypto client receipt expectedBlockHash extInfo
  let header ← attempt .client (client.chain.blockHeader (some (.hash expectedBlockHash)))
  let header ← check .text (okOr "block header not found for receipt block hash" header)
  let (headerExtension, lookupSize, lookupIndex) := header.extension.lookup
  let length ← attempt
    (.wrapped ("kate_blockLength failed for " ++ hexText expectedBlockHash.bytes))
    (kateBlockLength client.chain blockLength (some expectedBlockHash))
  check .text (refuseIf (length.rows = 0 ∨ length.cols = 0)
    "kate_blockLength returned zero rows or cols")
  let dataLookupRanges := expandLookup lookupSize lookupIndex
  let selected ← check .text
    (okOr "receipt app_id was not present in header extension DataLookup"
      (selectRange receipt.appId dataLookupRanges))
  let range := appIdRange receipt.appId selected
  let rows ← check .text (computedGridRows lookupSize length.cols)
  let appStream ← check .text (appStreamOf txBytes)
  let cells ← check .text (requiredCells lookupSize length.rows length.cols custodyCols range
    appStream (activeOwnersByCol activeRuntimeOwners))
  let appStreamPadded ← check .text (padAppStream appStream range.scalarCount)
  let inactive := allRuntimeOwners.length - activeRuntimeOwners.length
  pure {
    network := receipt.network
    userRunId := receipt.userRunId
    userRunDir := receipt.userRunDir
    submitFull := receipt.submitFull
    endpoint := (env "ENDPOINT").getD receipt.submitEndpoint
    blockNumber := receipt.blockNumber
    chainMatch :=
      { blockHash := hexText actualBlockHash.bytes
        extrinsicHash := hexText extInfo.extHash.bytes
        extrinsicMatch :=
          { txIndex := extInfo.extIndex
            extHash := hexText extInfo.extHash.bytes
            palletId := extInfo.palletId
            variantId := extInfo.variantId
            signerAppId := extInfo.signerPayload.map (·.appId) }
        headerExtension
        dataLookupSizeScalars := lookupSize
        dataLookupRanges }
    appIdRangeFromDataLookup := range
    grid :=
      { rows
        cols := length.cols
        chunkSize := dataChunkSize
        blockChunkSize := scalarSize
        extendedRows := u32Mul rows rowExtensionV4
        extendedCols := u32Mul length.cols colExtensionV4
        runtimeReportedRows := length.rows
        runtimeReportedCols := length.cols }
    requiredOriginalGridCells := cells.original
    expectedPayload := ⟨receipt.payloadSize, receipt.payloadSha256⟩
    finalized := receipt.finalized
    requiredCdaExtCells := cells.cda
    storeCustodyCols := custodyCols
    runtimeStoreOwnership :=
      { ownerCount := allRuntimeOwners.length
        activeOwnerCount := activeRuntimeOwners.length
        generatedOwnerCount := allRuntimeOwners.length
        inactiveOwnerFilteredCount := inactive
        activeOwnerScope :=
          { scope with
            ownerCount := activeRuntimeOwners.length
            generatedOwnerCount := allRuntimeOwners.length
            inactiveOwnerFilteredCount := inactive }
        owners := allRuntimeOwners
        cdaRawCellOwnerStoreMultiaddrs :=
          " ".intercalate (activeRuntimeOwners.map (·.storeCdaMultiaddr)) }
    expectedAppStream :=
      { unpaddedSize := appStream.length
        paddedSize := appStreamPadded.length
        sha256 := sha256Hex sha256 appStream
        paddedSha256 := sha256Hex sha256 appStreamPadded
        chunkSize := dataChunkSize
        chunkCount := range.scalarCount
        paddedHex := hexOf appStreamPadded
        chunksHex := (chunks dataChunkSize appStreamPadded).map hexOf } }

end

/-! ## What a map is good for -/

/-- The owners of a cell are those of its column, the first one first. -/
theorem mapScalar_owners {Owner : Type} {runtimeCols custodyCols startScalar scalarIndex : Nat}
    {appStreamPadded : Bytes} {activeOwnersByCol : Nat → Option (List Owner)}
    {cells : RequiredOriginalCell × RequiredCdaCell Owner}
    (h : mapScalar runtimeCols custodyCols startScalar appStreamPadded activeOwnersByCol scalarIndex
      = .ok cells) :
    cells.2.runtimeOwnerCandidates = (activeOwnersByCol cells.2.custodyCol).getD [] ∧
      cells.2.runtimeOwnerCandidates.head? = some cells.2.runtimeOwner := by
  unfold mapScalar at h
  dsimp only at h
  split at h
  case h_1 => cases h
  case h_2 howners =>
    obtain ⟨cell, -, rfl⟩ := map_ok_iff.mp h
    exact ⟨rfl, by rw [howners]; rfl⟩

/-- The checks a list of cells has passed. -/
theorem requiredCells_eq_ok {Owner : Type} {lookupSize runtimeRows runtimeCols custodyCols : Nat}
    {range : AppIdRange} {appStream : Bytes} {activeOwnersByCol : Nat → Option (List Owner)}
    {cells : RequiredCells Owner}
    (h : requiredCells lookupSize runtimeRows runtimeCols custodyCols range appStream
      activeOwnersByCol = .ok cells) :
    ∃ rows, computedGridRows lookupSize runtimeCols = .ok rows ∧ rows ≤ runtimeRows ∧
      rows * runtimeCols < 2 ^ 32 ∧ range.endScalar ≤ rows * runtimeCols ∧
      appStream.length ≤ range.scalarCount * dataChunkSize := by
  unfold requiredCells at h
  obtain ⟨rows, hrows, h⟩ := bind_ok_iff.mp h
  split at h
  case isTrue => cases h
  case isFalse hfits =>
    split at h
    case h_1 => cases h
    case h_2 capacity hcapacity =>
      obtain ⟨hproduct, rfl⟩ := u32CheckedMul_eq_some.mp hcapacity
      split at h
      case isTrue => cases h
      case isFalse hend =>
        obtain ⟨padded, hpadded, -⟩ := bind_ok_iff.mp h
        unfold padAppStream at hpadded
        dsimp only at hpadded
        split at hpadded
        case isTrue => cases hpadded
        case isFalse hlength =>
          exact ⟨rows, hrows, Nat.not_lt.mp hfits, hproduct, Nat.not_lt.mp hend,
            Nat.not_lt.mp hlength⟩

theorem requiredCells_owners {Owner : Type} {lookupSize runtimeRows runtimeCols custodyCols : Nat}
    {range : AppIdRange} {appStream : Bytes} {activeOwnersByCol : Nat → Option (List Owner)}
    {cells : RequiredCells Owner}
    (h : requiredCells lookupSize runtimeRows runtimeCols custodyCols range appStream
      activeOwnersByCol = .ok cells) :
    ∀ cell ∈ cells.cda,
      cell.runtimeOwnerCandidates = (activeOwnersByCol cell.custodyCol).getD [] ∧
        cell.runtimeOwnerCandidates.head? = some cell.runtimeOwner := by
  obtain ⟨rows, hrows, hfits, hproduct, hend, hlength⟩ := requiredCells_eq_ok h
  rw [requiredCells_eq hrows hfits hproduct hend hlength] at h
  obtain ⟨new, hrun, rfl⟩ := pushes_eq_ok.mp h
  rw [foldl_pushCells]
  intro cell hcell
  obtain ⟨cells, hcells, rfl⟩ := List.mem_map.mp (show cell ∈ new.map (·.2) from hcell)
  obtain ⟨i, hi, rfl⟩ := List.getElem_of_mem hcells
  have hscalar := (List.forall₂_iff_get.mp hrun).2 i
    (by rw [List.Forall₂.length_eq hrun]; exact hi) hi
  exact mapScalar_owners hscalar

theorem padAppStream_eq_ok {appStream padded : Bytes} {scalarCount : Nat}
    (h : padAppStream appStream scalarCount = .ok padded) :
    appStream.length ≤ scalarCount * dataChunkSize ∧
      padded = appStream ++ List.replicate (scalarCount * dataChunkSize - appStream.length) 0 := by
  unfold padAppStream at h
  dsimp only at h
  split at h
  case isTrue => cases h
  case isFalse hlength => exact ⟨Nat.not_lt.mp hlength, (Except.ok.inj h).symm⟩

theorem flatten_chunks {width count : Nat} (hwidth : 0 < width) {xs : Bytes}
    (hlength : xs.length = count * width) : (chunks width xs).flatten = xs := by
  have hcount : (xs.length + (width - 1)) / width = count := by
    rw [hlength, Nat.mul_comm, Nat.mul_add_div hwidth, Nat.div_eq_of_lt (by omega), Nat.add_zero]
  rw [chunks, hcount, Grid.flatten_windows, ← hlength, List.take_length]

theorem decode_hexOf (bytes : Bytes) : Hex.decode (hexOf bytes).toList = .ok bytes := by
  rw [hexOf, String.toList_ofList, Hex.decode_encode]

/-- The chunks that are written are those of the stream. -/
theorem decode_chunksHex {count : Nat} {padded : Bytes}
    (hlength : padded.length = count * dataChunkSize) :
    List.flatten <$> ((chunks dataChunkSize padded).map hexOf).mapM (fun text =>
      Hex.decode text.toList) = .ok padded := by
  have hread : ((chunks dataChunkSize padded).map hexOf).mapM (fun text => Hex.decode text.toList)
      = .ok (chunks dataChunkSize padded) := by
    rw [List.mapM_map]
    have hsame : List.Forall₂ (fun x y : Bytes => x = y) (chunks dataChunkSize padded)
        (chunks dataChunkSize padded) := List.forall₂_same.mpr fun _ _ => rfl
    have hmap := mapM_of_forall₂ (g := fun chunk => Hex.decode (hexOf chunk).toList) (k := id) hsame
      (by intro x _ y hxy; rw [decode_hexOf, hxy]; rfl)
    rwa [List.map_id] at hmap
  rw [hread]
  show Except.ok (List.flatten _) = _
  rw [flatten_chunks (by decide) hlength]

/-- A stream holds its extrinsic, in front of whatever follows. -/
theorem decode_appStream {txBytes appStream : Bytes} (h : appStreamOf txBytes = .ok appStream)
    (rest : Bytes) :
    ∃ tx : Vec (Vec UInt8), decode (appStream ++ rest) = .ok (tx, rest) ∧
      tx.items.map (·.items) = [txBytes] := by
  unfold appStreamOf at h
  split at h
  case h_1 => cases h
  case h_2 tx htx =>
    obtain rfl := Except.ok.inj h
    obtain rfl := Vec.ofList_eq_some.mp htx
    exact ⟨_, readsBack _ rest, rfl⟩

/-- What is known of a receipt that has passed the checks. -/
theorem checkReceipt_eq_ok {parseHash : String → Except String H256} {client : Client}
    {receipt : SubmissionReceipt} {expected actual : H256} {extInfo : ExtrinsicInfo}
    {w w' : RpcWorld}
    (h : (checkReceipt parseHash client receipt).run w
      = some (.ok (expected, actual, extInfo), w')) :
    parseHash receipt.blockHash = .ok actual ∧ actual = expected ∧
      ∀ signer, extInfo.signerPayload = some signer → signer.appId = receipt.appId.1 := by
  obtain ⟨expectedHash, w1, hparse, h⟩ := bind_eq_ok.mp h
  obtain ⟨found, w2, -, h⟩ := bind_eq_ok.mp h
  obtain ⟨actualHash, w3, -, h⟩ := bind_eq_ok.mp h
  obtain ⟨_, w4, hsame, h⟩ := bind_eq_ok.mp h
  obtain ⟨txHash, w5, -, h⟩ := bind_eq_ok.mp h
  obtain ⟨extInfos, w6, -, h⟩ := bind_eq_ok.mp h
  obtain ⟨info, w7, -, h⟩ := bind_eq_ok.mp h
  obtain ⟨_, w8, hsigner, h⟩ := bind_eq_ok.mp h
  obtain ⟨hresult, -⟩ := Fallible.pure_eq_ok.mp h
  simp only [Prod.mk.injEq] at hresult
  obtain ⟨rfl, rfl, rfl⟩ := hresult
  have heq := not_not.mp (refuseIf_eq_ok.mp (check_eq_ok.mp hsame).1)
  refine ⟨heq ▸ (check_eq_ok.mp hparse).1, heq, ?_⟩
  intro signer hsome
  have hcheck := (check_eq_ok.mp hsigner).1
  rw [hsome] at hcheck
  exact not_not.mp (refuseIf_eq_ok.mp hcheck)

/-- A map from which the extrinsic `txBytes` is recovered, with the stores `active`. -/
structure Complete (crypto : SpCryptoHashing) (parseHash : String → Except String H256)
    (receipt : SubmissionReceipt) (map : PayloadRecoveryMap) (txBytes : Bytes)
    (active : List RuntimeOwner) : Prop where
  block : ∃ hash, parseHash receipt.blockHash = .ok hash ∧
    map.chainMatch.blockHash = hexText hash.bytes
  signer : ∀ appId, map.chainMatch.extrinsicMatch.signerAppId = some appId →
    appId = receipt.appId.1
  extrinsic : toAsciiLowercase (blake2_256_hex crypto txBytes)
    = toAsciiLowercase receipt.extrinsicHash
  range : ∃ selected ∈ map.chainMatch.dataLookupRanges, selected.appId = receipt.appId ∧
    map.appIdRangeFromDataLookup = appIdRange receipt.appId selected
  cells : ∃ appStream, Recovers map.grid.rows map.grid.cols map.appIdRangeFromDataLookup appStream
    ⟨map.requiredOriginalGridCells, map.requiredCdaExtCells⟩
  stream : ∃ stream padding, ∃ tx : Vec (Vec UInt8),
    List.flatten <$> map.requiredCdaExtCells.mapM (fun cell => readCell cell.expectedCellLeHex)
      = .ok stream ∧
    List.flatten <$> map.expectedAppStream.chunksHex.mapM (fun text => Hex.decode text.toList)
      = .ok stream ∧
    decode stream = .ok (tx, List.replicate padding 0) ∧ tx.items.map (·.items) = [txBytes]
  activeOwners : active.Sublist map.runtimeStoreOwnership.owners ∧
    map.runtimeStoreOwnership.owners.Pairwise (fun a b => ownerKey a ≤ ownerKey b) ∧
    ∀ owner ∈ map.runtimeStoreOwnership.owners,
      gridPositionFromPeerId crypto owner.storePeerId map.storeCustodyCols
        = .ok (owner.runtimeP2pRow, owner.runtimeP2pCol)
  owners : ∀ cell ∈ map.requiredCdaExtCells,
    cell.runtimeOwnerCandidates = sortBy activeKey
        (active.filter fun owner => decide (owner.runtimeP2pCol = cell.custodyCol)) ∧
      cell.runtimeOwnerCandidates.head? = some cell.runtimeOwner

section

variable {crypto : SpCryptoHashing} {sha256 : Bytes → Bytes}
  {parseHash : String → Except String H256}
  {blockLength : Option H256 → Rpc (Except RpcError BlockLength)} {client : Client}
  {env : String → Option String} {inventory : String} {receipt : SubmissionReceipt}
  {map : PayloadRecoveryMap}

/-- The extrinsic a run goes on with is the receipt's. -/
theorem fetchExtrinsic_eq_ok {expectedBlockHash : H256} {extInfo : ExtrinsicInfo} {txBytes : Bytes}
    {w w' : RpcWorld}
    (h : (fetchExtrinsic crypto client receipt expectedBlockHash extInfo).run w
      = some (.ok txBytes, w')) :
    toAsciiLowercase (blake2_256_hex crypto txBytes) = toAsciiLowercase receipt.extrinsicHash := by
  obtain ⟨found, w1, -, h⟩ := bind_eq_ok.mp h
  obtain ⟨legacyBlock, w2, -, h⟩ := bind_eq_ok.mp h
  obtain ⟨tx, w3, -, h⟩ := bind_eq_ok.mp h
  obtain ⟨_, w4, hhash, h⟩ := bind_eq_ok.mp h
  obtain ⟨rfl, -⟩ := Fallible.pure_eq_ok.mp h
  have hsame := refuseIf_eq_ok.mp (check_eq_ok.mp hhash).1
  exact not_not.mp hsame

/-- A map that is built recovers the receipt's extrinsic, whatever the node answered. -/
theorem main_recovers {w w' : RpcWorld}
    (h : (main crypto sha256 parseHash blockLength client env inventory receipt).run w
      = some (.ok map, w')) :
    ∃ txBytes active, Complete crypto parseHash receipt map txBytes active := by
  obtain ⟨custodyCols, w1, hcustody, h⟩ := bind_eq_ok.mp h
  obtain ⟨storeOwners, w2, howners, h⟩ := bind_eq_ok.mp h
  obtain ⟨active, w3, hactive, h⟩ := bind_eq_ok.mp h
  obtain ⟨⟨expectedBlockHash, actualBlockHash, extInfo⟩, w4, hreceipt, h⟩ := bind_eq_ok.mp h
  obtain ⟨txBytes, w5, htx, h⟩ := bind_eq_ok.mp h
  obtain ⟨header, w6, -, h⟩ := bind_eq_ok.mp h
  obtain ⟨header, w7, -, h⟩ := bind_eq_ok.mp h
  obtain ⟨length, w8, -, h⟩ := bind_eq_ok.mp h
  obtain ⟨_, w9, -, h⟩ := bind_eq_ok.mp h
  obtain ⟨selected, w10, hselected, h⟩ := bind_eq_ok.mp h
  obtain ⟨rows, w11, hrows, h⟩ := bind_eq_ok.mp h
  obtain ⟨appStream, w12, hstream, h⟩ := bind_eq_ok.mp h
  obtain ⟨cells, w13, hcells, h⟩ := bind_eq_ok.mp h
  obtain ⟨padded, w14, hpadded, h⟩ := bind_eq_ok.mp h
  obtain ⟨rfl, -⟩ := Fallible.pure_eq_ok.mp h
  have hcustodyOk := (check_eq_ok.mp hcustody).1
  have hcustodyPos := custodyCols_pos hcustodyOk
  have hinventory := inventory_of_read hcustodyPos (check_eq_ok.mp howners).1
  have hcellsOk := (check_eq_ok.mp hcells).1
  have hrowsOk := (check_eq_ok.mp hrows).1
  have hstreamOk := (check_eq_ok.mp hstream).1
  obtain ⟨hlength, hpaddedEq⟩ := padAppStream_eq_ok (check_eq_ok.mp hpadded).1
  obtain ⟨hmem, happ⟩ := selectRange_spec (okOr_eq_ok.mp (check_eq_ok.mp hselected).1)
  obtain ⟨rows', hrows', hfits, hproduct, hend, -⟩ := requiredCells_eq_ok hcellsOk
  obtain rfl := Except.ok.inj (hrowsOk.symm.trans hrows')
  have hfolds : Folds length.cols custodyCols (appIdRange receipt.appId selected) :=
    folds_of_dvd (custodyCols_dvd hcustodyOk) _ _
  have hrecovers := requiredCells_recovers hcustodyPos hrowsOk hfits hproduct hend hlength hfolds
    hcellsOk
  have hpaddedLength : padded.length = selected.scalarCount * dataChunkSize := by
    have hcount : appStream.length ≤ selected.scalarCount * dataChunkSize := hlength
    rw [hpaddedEq, List.length_append, List.length_replicate]
    show appStream.length + (selected.scalarCount * dataChunkSize - appStream.length) = _
    omega
  obtain ⟨padding, hpadding⟩ : ∃ padding, padded = appStream ++ List.replicate padding 0 :=
    ⟨_, hpaddedEq⟩
  obtain ⟨tx, hdecode, hitems⟩ := decode_appStream hstreamOk (List.replicate padding 0)
  obtain ⟨hparse, -, hsigner⟩ := checkReceipt_eq_ok hreceipt
  refine ⟨txBytes, active, ⟨actualBlockHash, hparse, rfl⟩, ?_, fetchExtrinsic_eq_ok htx,
    ⟨selected, hmem, happ, rfl⟩, ⟨appStream, hrecovers⟩,
    ⟨padded, padding, tx, ?_, ?_, ?_, hitems⟩, ⟨?_, ?_, ?_⟩, ?_⟩
  · intro appId happId
    obtain ⟨signer, hsome, rfl⟩ := Option.map_eq_some_iff.mp happId
    exact hsigner signer hsome
  · exact hrecovers.stream.trans (congrArg _ hpaddedEq.symm)
  · exact decode_chunksHex hpaddedLength
  · rw [hpadding]
    exact hdecode
  · exact filterActiveOwners_sublist (check_eq_ok.mp hactive).1
  · exact hinventory.sorted
  · intro owner howner
    exact (hinventory.positions owner howner).1
  · intro cell hcell
    obtain ⟨hcandidates, hfirst⟩ := requiredCells_owners hcellsOk cell hcell
    exact ⟨hcandidates.trans (activeOwnersByCol_getD active cell.custodyCol), hfirst⟩

end

namespace OneCell

/-- A store in column 0, where `noCrypto` puts all stores. -/
def inventory : String :=
  "store_name,store_host,store_cda_multiaddr,runtime_cda_peer_id,runtime_p2p_col\n" ++
    "store,host,multiaddr,12D3,0\n"

def receipt : SubmissionReceipt where
  network := "devnet"
  userRunId := "1"
  userRunDir := "run"
  payloadSha256 := ""
  payloadSize := 2
  submitFull := ""
  submitEndpoint := ""
  appId := 1
  blockNumber := 10
  blockHash := hexText (List.replicate 32 0)
  extrinsicHash := hexText (List.replicate 32 0)
  finalized := true

/-- A block with one app, of two scalars. -/
def header : AvailHeader where
  parentHash := FixedBytes.fill 32 9
  number := 10
  stateRoot := FixedBytes.fill 32 0
  extrinsicsRoot := FixedBytes.fill 32 0
  digest := ⟨Vec.nil⟩
  extension := .V3 ⟨⟨2, ⟨[⟨1, 0⟩], by decide⟩⟩, ⟨0, 0, Vec.nil, FixedBytes.fill 32 0⟩⟩

def view : View
  | .getBlockHash _ => .ok (some (FixedBytes.fill 32 0))
  | .fetchExtrinsics _ _ => .ok [⟨none, FixedBytes.fill 32 0, 0, 29, 1, none⟩]
  | .getBlock _ => .ok (some ⟨header, [[7, 8]], none⟩)
  | .getHeader _ => .ok (some header)
  | _ => .error (.rpc "Method not found")

def run : Option (Except BoxError PayloadRecoveryMap × RpcWorld) :=
  (main noCrypto id h256FromStr (fun _ => pure (.ok ⟨1, 4, 32⟩)) Client.devnet (fun _ => none)
    inventory receipt).run (start Request (List.replicate 4 (.answer view)))

/-- Whether a run has built a map. -/
def built : Option (Except BoxError PayloadRecoveryMap × RpcWorld) → Bool
  | some (.ok _, _) => true
  | _ => false

end OneCell

theorem main_recovers_one :
    ∃ map w', OneCell.run = some (.ok map, w') ∧
      ∃ txBytes active, Complete noCrypto h256FromStr OneCell.receipt map txBytes active := by
  have hbuilt : OneCell.built OneCell.run = true := by decide +kernel
  unfold OneCell.built at hbuilt
  split at hbuilt
  case h_1 map w' hrun => exact ⟨map, w', hrun, main_recovers hrun⟩
  case h_2 => cases hbuilt

end BuildPayloadRecoveryMapNative

end AvailRust
