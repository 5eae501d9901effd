/-
  Finality justifications: a round's commit and the headers that connect its votes.
-/
import AvailRust.Core.Header

namespace AvailRust.Grandpa

open Scale

structure AuthorityId where
  key : FixedBytes 32
deriving DecidableEq

instance : Encode AuthorityId := ⟨fun x => encode x.key⟩

instance : Decode AuthorityId := ⟨do
  let key ← decode
  pure { key }⟩

instance : Fields AuthorityId (FixedBytes 32) where
  toFields x := x.key
  ofFields p := ⟨p⟩
  decode_eq := by rw [map_eq_pure_bind]; rfl

structure Signature where
  bytes : FixedBytes 64
deriving DecidableEq

instance : Encode Signature := ⟨fun x => encode x.bytes⟩

instance : Decode Signature := ⟨do
  let bytes ← decode
  pure { bytes }⟩

instance : Fields Signature (FixedBytes 64) where
  toFields x := x.bytes
  ofFields p := ⟨p⟩
  decode_eq := by rw [map_eq_pure_bind]; rfl

structure Precommit where
  targetHash : H256
  targetNumber : U32
deriving DecidableEq

instance : Encode Precommit := ⟨fun x => encode x.targetHash ++ encode x.targetNumber⟩

instance : Decode Precommit := ⟨do
  let targetHash ← decode
  let targetNumber ← decode
  pure { targetHash, targetNumber }⟩

instance : Fields Precommit (H256 × U32) where
  toFields x := (x.targetHash, x.targetNumber)
  ofFields p := ⟨p.1, p.2⟩

structure SignedPrecommit where
  precommit : Precommit
  signature : Signature
  id : AuthorityId
deriving DecidableEq

instance : Encode SignedPrecommit := ⟨fun x =>
  encode x.precommit ++ encode x.signature ++ encode x.id⟩

instance : Decode SignedPrecommit := ⟨do
  let precommit ← decode
  let signature ← decode
  let id ← decode
  pure { precommit, signature, id }⟩

instance : Fields SignedPrecommit (Precommit × Signature × AuthorityId) where
  toFields x := (x.precommit, x.signature, x.id)
  ofFields p := ⟨p.1, p.2.1, p.2.2⟩

structure Commit where
  targetHash : H256
  targetNumber : U32
  precommits : Vec SignedPrecommit

instance : Encode Commit := ⟨fun x =>
  encode x.targetHash ++ encode x.targetNumber ++ encode x.precommits⟩

instance : Decode Commit := ⟨do
  let targetHash ← decode
  let targetNumber ← decode
  let precommits ← decode
  pure { targetHash, targetNumber, precommits }⟩

instance : Fields Commit (H256 × U32 × Vec SignedPrecommit) where
  toFields x := (x.targetHash, x.targetNumber, x.precommits)
  ofFields p := ⟨p.1, p.2.1, p.2.2⟩

structure GrandpaJustification where
  round : U64
  commit : Commit
  votesAncestries : Vec AvailHeader

instance : Encode GrandpaJustification := ⟨fun x =>
  encode x.round ++ encode x.commit ++ encode x.votesAncestries⟩

instance : Decode GrandpaJustification := ⟨do
  let round ← decode
  let commit ← decode
  let votesAncestries ← decode
  pure { round, commit, votesAncestries }⟩

instance : Fields GrandpaJustification (U64 × Commit × Vec AvailHeader) where
  toFields x := (x.round, x.commit, x.votesAncestries)
  ofFields p := ⟨p.1, p.2.1, p.2.2⟩

end AvailRust.Grandpa
