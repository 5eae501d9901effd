/-
  The chain a node shows at one moment.

  `Heads` is what the component is about: one block at each height, a finalized head and a
  best head above it. `Shows` connects it to the node's answers, and `ShowsFinalized` is the
  part of it that does not look at the best head.
-/
import AvailRust.Client.Chain

namespace AvailRust

/-- The canonical chain at one moment, with its finalized and its best height. -/
structure Heads where
  hashAt : Nat → H256
  finalized : Nat
  best : Nat
  finalized_le_best : finalized ≤ best

namespace Heads

def infoAt (c : Heads) (n : Nat) : BlockInfo := ⟨c.hashAt n, n⟩

end Heads

/-- The node answers head and height requests from one chain. -/
structure Shows (v : View) (c : Heads) : Prop where
  finalizedHead : v (.latestBlockInfo false) = .ok (c.infoAt c.finalized)
  bestHead : v (.latestBlockInfo true) = .ok (c.infoAt c.best)
  blockHash : ∀ n ≤ c.best, v (.getBlockHash (some n)) = .ok (some (c.hashAt n))

/-- The node answers requests for the finalized head and the blocks up to it. -/
structure ShowsFinalized (v : View) (hashAt : Nat → H256) (f : Nat) : Prop where
  finalizedHead : v (.latestBlockInfo false) = .ok ⟨hashAt f, f⟩
  blockHash : ∀ n ≤ f, v (.getBlockHash (some n)) = .ok (some (hashAt n))

theorem Shows.toFinalized {v : View} {c : Heads} (h : Shows v c) :
    ShowsFinalized v c.hashAt c.finalized :=
  ⟨h.finalizedHead, fun n hn => h.blockHash n (hn.trans c.finalized_le_best)⟩

end AvailRust
