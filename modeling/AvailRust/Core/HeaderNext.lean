/-
  Headers and justifications under the `next` feature.

  The feature replaces the module of headers by a copy of it in which the fourth version of the
  extension has a commitment of its own, without the size of the grid. What is copied unchanged is
  not repeated here. Both builds read back every justification and every header that they write
  (`consensus_readsBack`), since each part of them takes the bytes it was written as and no more.
-/
import AvailRust.Core.Grandpa

namespace AvailRust

open Scale

namespace HeaderNext

structure V4KateCommitment where
  columnCommitments : Vec UInt8
  dataRoot : H256
deriving DecidableEq

instance : Record V4KateCommitment (Vec UInt8 × H256) where
  toFields x := (x.columnCommitments, x.dataRoot)
  ofFields p := ⟨p.1, p.2⟩

structure V4HeaderExtension where
  appLookup : V4CompactDataLookup
  commitment : V4KateCommitment

instance : Record V4HeaderExtension (V4CompactDataLookup × V4KateCommitment) where
  toFields x := (x.appLookup, x.commitment)
  ofFields p := ⟨p.1, p.2⟩

inductive HeaderExtension where
  | V3 (extension : V3HeaderExtension)
  | V4 (extension : V4HeaderExtension)

instance : Encode HeaderExtension := ⟨fun
  | .V3 x => 2 :: encode x
  | .V4 x => 3 :: encode x⟩

instance : Decode HeaderExtension := ⟨do
  let variant ← readByte
  if variant = 2 then .V3 <$> decode
  else if variant = 3 then .V4 <$> decode
  else fail "Could not decode `HeaderExtension`, variant doesn't exist"⟩

instance : RoundTrips HeaderExtension where
  decode_encode x rest := by
    cases x with
    | V3 x => exact map_of_ok (decode_encode x rest)
    | V4 x => exact map_of_ok (decode_encode x rest)

structure AvailHeader where
  parentHash : H256
  number : U32
  stateRoot : H256
  extrinsicsRoot : H256
  digest : Digest
  extension : HeaderExtension

instance : Record AvailHeader (H256 × Compact 4 × H256 × H256 × Digest × HeaderExtension) where
  toFields x :=
    (x.parentHash, ⟨x.number⟩, x.stateRoot, x.extrinsicsRoot, x.digest, x.extension)
  ofFields p := ⟨p.1, p.2.1.val, p.2.2.1, p.2.2.2.1, p.2.2.2.2.1, p.2.2.2.2.2⟩

/-- The justification with the headers of the feature. -/
structure GrandpaJustification where
  round : U64
  commit : Grandpa.Commit
  votesAncestries : Vec AvailHeader

instance : Record GrandpaJustification (U64 × Grandpa.Commit × Vec AvailHeader) where
  toFields x := (x.round, x.commit, x.votesAncestries)
  ofFields p := ⟨p.1, p.2.1, p.2.2⟩

end HeaderNext

/-- Every justification and every header is read back from its bytes and leaves what stands behind
    them, in both builds. -/
theorem consensus_readsBack :
    (∀ x : Grandpa.GrandpaJustification, ReadsBack x) ∧ (∀ x : AvailHeader, ReadsBack x) ∧
      (∀ x : HeaderNext.GrandpaJustification, ReadsBack x) ∧
      ∀ x : HeaderNext.AvailHeader, ReadsBack x := by
  refine ⟨?_, ?_, ?_, ?_⟩
  all_goals exact readsBack

end AvailRust
