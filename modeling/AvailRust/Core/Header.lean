/-
  Block headers with their data-availability extension.
-/
import AvailRust.Core.Types

namespace AvailRust

open Scale

/-! ## Digests -/

abbrev ConsensusEngineId := FixedBytes 4

inductive DigestItem where
  | other (value : Vec UInt8)
  | consensus (engine : ConsensusEngineId) (value : Vec UInt8)
  | seal (engine : ConsensusEngineId) (value : Vec UInt8)
  | preRuntime (engine : ConsensusEngineId) (value : Vec UInt8)
  | runtimeEnvironmentUpdated
deriving DecidableEq

instance : Encode DigestItem := ⟨fun
  | .other value => 0 :: encode value
  | .consensus engine value => 4 :: encode (engine, value)
  | .seal engine value => 5 :: encode (engine, value)
  | .preRuntime engine value => 6 :: encode (engine, value)
  | .runtimeEnvironmentUpdated => [8]⟩

instance : Decode DigestItem := ⟨do
  let variant ← readByte
  if variant = 0 then .other <$> decode
  else if variant = 4 then Function.uncurry .consensus <$> decode
  else if variant = 5 then Function.uncurry .seal <$> decode
  else if variant = 6 then Function.uncurry .preRuntime <$> decode
  else if variant = 8 then pure .runtimeEnvironmentUpdated
  else fail "Could not decode `DigestItemType`, variant doesn't exist"⟩

instance : RoundTrips DigestItem where
  decode_encode x rest := by
    match x with
    | .other value => exact map_of_ok (decode_encode value rest)
    | .consensus engine value => exact map_of_ok (decode_encode (engine, value) rest)
    | .seal engine value => exact map_of_ok (decode_encode (engine, value) rest)
    | .preRuntime engine value => exact map_of_ok (decode_encode (engine, value) rest)
    | .runtimeEnvironmentUpdated => rfl

structure Digest where
  logs : Vec DigestItem

instance : Encode Digest := ⟨fun x => encode x.logs⟩

instance : Decode Digest := ⟨do
  let logs ← decode
  pure { logs }⟩

instance : Fields Digest (Vec DigestItem) where
  toFields x := x.logs
  ofFields p := ⟨p⟩
  decode_eq := by rw [map_eq_pure_bind]; rfl

/-! ## Data lookup and commitment -/

structure DataLookupItem where
  appId : U32
  start : U32
deriving DecidableEq

instance : Encode DataLookupItem := ⟨fun x =>
  encode (Compact.mk x.appId) ++ encode (Compact.mk x.start)⟩

instance : Decode DataLookupItem := ⟨do
  let appId : Compact 4 ← decode
  let start : Compact 4 ← decode
  pure { appId := appId.val, start := start.val }⟩

instance : Fields DataLookupItem (Compact 4 × Compact 4) where
  toFields x := (⟨x.appId⟩, ⟨x.start⟩)
  ofFields p := ⟨p.1.val, p.2.val⟩

structure CompactDataLookup where
  size : U32
  index : Vec DataLookupItem

instance : Encode CompactDataLookup := ⟨fun x => encode (Compact.mk x.size) ++ encode x.index⟩

instance : Decode CompactDataLookup := ⟨do
  let size : Compact 4 ← decode
  let index ← decode
  pure { size := size.val, index }⟩

instance : Fields CompactDataLookup (Compact 4 × Vec DataLookupItem) where
  toFields x := (⟨x.size⟩, x.index)
  ofFields p := ⟨p.1.val, p.2⟩

structure KateCommitment where
  rows : U16
  cols : U16
  commitment : Vec UInt8
  dataRoot : H256
deriving DecidableEq

instance : Encode KateCommitment := ⟨fun x =>
  encode (Compact.mk x.rows) ++ encode (Compact.mk x.cols) ++ encode x.commitment
    ++ encode x.dataRoot⟩

instance : Decode KateCommitment := ⟨do
  let rows : Compact 2 ← decode
  let cols : Compact 2 ← decode
  let commitment ← decode
  let dataRoot ← decode
  pure { rows := rows.val, cols := cols.val, commitment, dataRoot }⟩

instance : Fields KateCommitment (Compact 2 × Compact 2 × Vec UInt8 × H256) where
  toFields x := (⟨x.rows⟩, ⟨x.cols⟩, x.commitment, x.dataRoot)
  ofFields p := ⟨p.1.val, p.2.1.val, p.2.2.1, p.2.2.2⟩

structure V4CompactDataLookup where
  size : U32
  index : Vec DataLookupItem
  rowsPerTx : Vec U16

instance : Encode V4CompactDataLookup := ⟨fun x =>
  encode (Compact.mk x.size) ++ encode x.index ++ encode x.rowsPerTx⟩

instance : Decode V4CompactDataLookup := ⟨do
  let size : Compact 4 ← decode
  let index ← decode
  let rowsPerTx ← decode
  pure { size := size.val, index, rowsPerTx }⟩

instance : Fields V4CompactDataLookup (Compact 4 × Vec DataLookupItem × Vec U16) where
  toFields x := (⟨x.size⟩, x.index, x.rowsPerTx)
  ofFields p := ⟨p.1.val, p.2.1, p.2.2⟩

structure V3HeaderExtension where
  appLookup : CompactDataLookup
  commitment : KateCommitment

instance : Encode V3HeaderExtension := ⟨fun x => encode x.appLookup ++ encode x.commitment⟩

instance : Decode V3HeaderExtension := ⟨do
  let appLookup ← decode
  let commitment ← decode
  pure { appLookup, commitment }⟩

instance : Fields V3HeaderExtension (CompactDataLookup × KateCommitment) where
  toFields x := (x.appLookup, x.commitment)
  ofFields p := ⟨p.1, p.2⟩

structure V4HeaderExtension where
  appLookup : V4CompactDataLookup
  commitment : KateCommitment

instance : Encode V4HeaderExtension := ⟨fun x => encode x.appLookup ++ encode x.commitment⟩

instance : Decode V4HeaderExtension := ⟨do
  let appLookup ← decode
  let commitment ← decode
  pure { appLookup, commitment }⟩

instance : Fields V4HeaderExtension (V4CompactDataLookup × KateCommitment) where
  toFields x := (x.appLookup, x.commitment)
  ofFields p := ⟨p.1, p.2⟩

inductive HeaderExtension where
  | V3 (extension : V3HeaderExtension)
  | V4 (extension : V4HeaderExtension)

instance : Encode HeaderExtension := ⟨fun
  | .V3 x => 2 :: encode x
  | .V4 x => 3 :: encode x⟩

instance : Decode HeaderExtension := ⟨do
  let variant ← readByte
  if variant = 2 then .V3 <$> decode
  else if variant = 3 then .V4 <$> decode
  else fail "Could not decode `HeaderExtension`, variant doesn't exist"⟩

instance : RoundTrips HeaderExtension where
  decode_encode x rest := by
    cases x with
    | V3 x => exact map_of_ok (decode_encode x rest)
    | V4 x => exact map_of_ok (decode_encode x rest)

/-! ## Headers -/

structure AvailHeader where
  parentHash : H256
  number : U32
  stateRoot : H256
  extrinsicsRoot : H256
  digest : Digest
  extension : HeaderExtension

instance : Encode AvailHeader := ⟨fun x =>
  encode x.parentHash ++ encode (Compact.mk x.number) ++ encode x.stateRoot
    ++ encode x.extrinsicsRoot ++ encode x.digest ++ encode x.extension⟩

instance : Decode AvailHeader := ⟨do
  let parentHash ← decode
  let number : Compact 4 ← decode
  let stateRoot ← decode
  let extrinsicsRoot ← decode
  let digest ← decode
  let extension ← decode
  pure { parentHash, number := number.val, stateRoot, extrinsicsRoot, digest, extension }⟩

instance : Fields AvailHeader (H256 × Compact 4 × H256 × H256 × Digest × HeaderExtension) where
  toFields x :=
    (x.parentHash, ⟨x.number⟩, x.stateRoot, x.extrinsicsRoot, x.digest, x.extension)
  ofFields p := ⟨p.1, p.2.1.val, p.2.2.1, p.2.2.2.1, p.2.2.2.2.1, p.2.2.2.2.2⟩

end AvailRust
