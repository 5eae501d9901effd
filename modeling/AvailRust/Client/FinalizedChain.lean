/-
  A finalized chain and the node that shows it.

  `FinalizedChain` is the chain once and for all: the hash at every height and what is stored
  under it. `ServedBy` is a node that has finalized it up to a height: whatever it is asked
  about those blocks, it answers from the chain.
-/
import AvailRust.Client.Feed

namespace AvailRust

open Scale Dialogue

structure FinalizedChain where
  hashAt : Nat → H256
  block : H256 → Option LegacyBlock
  header : H256 → Option AvailHeader
  justification : Nat → Option String
  extrinsics : H256 → ExtrinsicOpts → List ExtrinsicInfo
  events : H256 → EventOpts → List BlockPhaseEvent
  account : H256 → AccountId → Option AccountInfo

namespace FinalizedChain

def infoAt (c : FinalizedChain) (n : Nat) : BlockInfo := ⟨c.hashAt n, n⟩

/-- The node shows the chain, finalized up to height `g`. -/
structure ServedBy (c : FinalizedChain) (g : Nat) (v : View) : Prop where
  heads : ShowsFinalized v c.hashAt g
  block : ∀ n ≤ g, v (.getBlock (some (c.hashAt n))) = .ok (c.block (c.hashAt n))
  header : ∀ n ≤ g, v (.getHeader (some (c.hashAt n))) = .ok (c.header (c.hashAt n))
  justification : ∀ n ≤ g, v (.blockJustification n) = .ok (c.justification n)
  extrinsics : ∀ n ≤ g, ∀ opts, v (.fetchExtrinsics (.hash (c.hashAt n)) opts)
    = .ok (c.extrinsics (c.hashAt n) opts)
  events : ∀ n ≤ g, ∀ opts, v (.fetchEvents (c.hashAt n) opts)
    = .ok (c.events (c.hashAt n) opts)
  account : ∀ n ≤ g, ∀ account, v (.systemAccount account (c.hashAt n))
    = .ok (c.account (c.hashAt n) account)

/-- What a node may play that shows the chain. -/
abbrev Feed (c : FinalizedChain) : Nat → List Event → Nat → Prop := AvailRust.Feed c.ServedBy

theorem showsChain (c : FinalizedChain) : ShowsChain c.ServedBy c.hashAt := fun _ _ hv => hv.heads

/-- The node that shows the chain up to height `g` and nothing else. -/
def viewAt (c : FinalizedChain) (g : Nat) : View
  | .latestBlockInfo _ => .ok (c.infoAt g)
  | .latestChainInfo => .ok ⟨c.hashAt g, g, c.hashAt g, g, c.hashAt 0⟩
  | .getBlockHash none => .ok (some (c.hashAt g))
  | .getBlockHash (some n) => .ok (if n ≤ g then some (c.hashAt n) else none)
  | .getBlockNumber hash => .ok ((List.range (g + 1)).find? fun n => c.hashAt n = hash)
  | .getHeader hash => .ok (c.header (hash.getD (c.hashAt g)))
  | .getBlock hash => .ok (c.block (hash.getD (c.hashAt g)))
  | .blockJustification n => .ok (c.justification n)
  | .fetchExtrinsics (.hash hash) opts => .ok (c.extrinsics hash opts)
  | .fetchExtrinsics (.number n) opts => .ok (c.extrinsics (c.hashAt n) opts)
  | .fetchEvents hash opts => .ok (c.events hash opts)
  | .systemAccount account hash => .ok (c.account hash account)
  | .accountNextIndex account => .ok ((c.account (c.hashAt g) account).getD default).nonce
  | .submitExtrinsic _ => .error (.rpc "submission is closed")

theorem viewAt_served (c : FinalizedChain) (g : Nat) : c.ServedBy g (c.viewAt g) where
  heads := ⟨rfl, fun _ hn => congrArg Except.ok (if_pos hn)⟩
  block _ _ := rfl
  header _ _ := rfl
  justification _ _ := rfl
  extrinsics _ _ _ := rfl
  events _ _ _ := rfl
  account _ _ _ := rfl

/-- The chain with these hashes and nothing in its blocks. -/
def bare (hashAt : Nat → H256) : FinalizedChain where
  hashAt := hashAt
  block _ := none
  header _ := none
  justification _ := none
  extrinsics _ _ := []
  events _ _ := []
  account _ _ := none

/-- A hash that says the height of its block. -/
def heightHash (n : Nat) : H256 := ⟨leBytes 32 n, length_leBytes 32 n⟩

theorem leValue_heightHash {n : Nat} (hn : n < 2 ^ 32) : leValue (heightHash n).bytes = n := by
  unfold heightHash
  rw [leValue_leBytes]
  exact Nat.mod_eq_of_lt (hn.trans (by decide))

variable {c : FinalizedChain} {f top : Nat}

/-! ## What the chain helpers read -/

theorem legacyBlock_yields (chain : Chain) {n : Nat} (hn : n ≤ f) :
    Yields c.ServedBy f top (chain.legacyBlock (some (c.hashAt n)))
      (fun _ x => x = c.block (c.hashAt n)) := by
  refine (Yields.of_asked (r := .getBlock (some (c.hashAt n))) fun _ _ _ h =>
    attempts_asked sleepDuration.reverse (withRetryOnErrorAndNone_attempts h)).imp ?_
  rintro g x hg ⟨v, hv, hx⟩
  rw [hv.block n (hn.trans hg)] at hx
  cases hx
  rfl

theorem blockHeader_yields (chain : Chain) {n : Nat} (hn : n ≤ f) :
    Yields c.ServedBy f top (chain.blockHeader (some (.hash (c.hashAt n))))
      (fun _ x => x = c.header (c.hashAt n)) := by
  simp only [Chain.blockHeader, Chain.toHashOption, Chain.toHash, pure_bind]
  refine Yields.finish (Yields.of_asked (r := .getHeader (some (c.hashAt n))) fun _ _ _ h =>
    attempts_asked sleepDuration.reverse (withRetryOnErrorAndNone_attempts h))
    (fun e => ⟨_, rfl⟩) ?_
  rintro g x hg ⟨v, hv, hx⟩
  rw [hv.header n (hn.trans hg)] at hx
  cases hx
  exact ⟨_, rfl, rfl⟩

/-- The justification of a block, decoded. -/
def decodedJustification (c : FinalizedChain) (n : Nat) :
    Except RpcError (Option Grandpa.GrandpaJustification) :=
  match c.justification n with
  | none => .ok none
  | some text => some <$> Chain.decodeJustification text

theorem grandpaBlockJustification_yields (chain : Chain) {n : Nat} (hn : n ≤ f)
    {x : Option Grandpa.GrandpaJustification} (hx : c.decodedJustification n = .ok x) :
    Yields c.ServedBy f top (chain.grandpaBlockJustification n) (fun _ y => y = x) := by
  refine Yields.finish (Yields.withRetryOnError (.blockJustification n) _)
    (fun e => ⟨_, rfl⟩) ?_
  rintro g text hg ⟨v, hv, ha⟩
  rw [hv.justification n (hn.trans hg)] at ha
  cases ha
  unfold decodedJustification at hx
  cases hj : c.justification n with
  | none =>
    rw [hj] at hx
    cases hx
    exact ⟨_, rfl, rfl⟩
  | some text =>
    rw [hj] at hx
    exact ⟨x, congrArg pure hx, rfl⟩

theorem systemFetchExtrinsics_yields (chain : Chain) {n : Nat} (hn : n ≤ f) (opts : ExtrinsicOpts) :
    Yields c.ServedBy f top (chain.systemFetchExtrinsics (.hash (c.hashAt n)) opts)
      (fun _ x => x = c.extrinsics (c.hashAt n) opts) := by
  refine Yields.finish (Yields.withRetryOnError (.fetchExtrinsics (.hash (c.hashAt n)) opts) _)
    (fun e => ⟨_, rfl⟩) ?_
  rintro g x hg ⟨v, hv, hx⟩
  rw [hv.extrinsics n (hn.trans hg)] at hx
  cases hx
  exact ⟨_, rfl, rfl⟩

theorem systemFetchEvents_yields (chain : Chain) {n : Nat} (hn : n ≤ f) (opts : EventOpts) :
    Yields c.ServedBy f top (chain.systemFetchEvents (.hash (c.hashAt n)) opts)
      (fun _ x => x = c.events (c.hashAt n) opts) := by
  simp only [Chain.systemFetchEvents, Chain.toHash, pure_bind]
  refine Yields.finish (Yields.withRetryOnError (.fetchEvents (c.hashAt n) opts) _)
    (fun e => ⟨_, rfl⟩) ?_
  rintro g x hg ⟨v, hv, hx⟩
  rw [hv.events n (hn.trans hg)] at hx
  cases hx
  exact ⟨_, rfl, rfl⟩

/-- The account's nonce after the block at a height. -/
def nonceAt (c : FinalizedChain) (account : AccountId) (n : Nat) : U32 :=
  ((c.account (c.hashAt n) account).getD default).nonce

theorem blockNonce_yields (chain : Chain) {n : Nat} (hn : n ≤ f) (account : AccountId) :
    Yields c.ServedBy f top (chain.blockNonce account (.hash (c.hashAt n)))
      (fun _ x => x = c.nonceAt account n) := by
  have hinfo : Yields c.ServedBy f top (chain.accountInfo account (.hash (c.hashAt n)))
      (fun _ x => x = (c.account (c.hashAt n) account).getD default) := by
    simp only [Chain.accountInfo, Chain.toHash, pure_bind]
    refine Yields.finish (Yields.withRetryOnError (.systemAccount account (c.hashAt n)) _)
      (fun e => ⟨_, rfl⟩) ?_
    rintro g x hg ⟨v, hv, hx⟩
    rw [hv.account n (hn.trans hg)] at hx
    cases hx
    exact ⟨_, rfl, rfl⟩
  refine Yields.finish hinfo (fun e => ⟨_, rfl⟩) ?_
  rintro g x - rfl
  exact ⟨_, rfl, rfl⟩

/-! ## A node that does not change -/

variable {g n : Nat} {v : View}

theorem legacyBlock_steady (hv : c.ServedBy g v) (chain : Chain) (hn : n ≤ g) :
    Steady (.answer v) (chain.legacyBlock (some (c.hashAt n))) (.ok (c.block (c.hashAt n))) := by
  rw [← hv.block n hn]
  exact withRetryOnErrorAndNone_steady (call_steady (.answer v) (.getBlock _)) _ _

theorem blockHeader_steady (hv : c.ServedBy g v) (chain : Chain) (hn : n ≤ g) :
    Steady (.answer v) (chain.blockHeader (some (.hash (c.hashAt n))))
      (.ok (c.header (c.hashAt n))) := by
  simp only [Chain.blockHeader, Chain.toHashOption, Chain.toHash, pure_bind]
  refine (withRetryOnErrorAndNone_steady (call_steady (.answer v)
    (.getHeader (some (c.hashAt n)))) _ _).bind ?_
  simp only [Event.response, hv.header n hn]
  exact .pure _ _

theorem grandpaBlockJustification_steady (hv : c.ServedBy g v) (chain : Chain) (hn : n ≤ g)
    {x : Option Grandpa.GrandpaJustification} (hx : c.decodedJustification n = .ok x) :
    Steady (.answer v) (chain.grandpaBlockJustification n) (.ok x) := by
  refine (withRetryOnError_steady (call_steady (.answer v) (.blockJustification n)) _).bind ?_
  simp only [Event.response, hv.justification n hn]
  unfold decodedJustification at hx
  cases hj : c.justification n with
  | none =>
    rw [hj] at hx
    rw [← hx]
    exact .pure _ _
  | some text =>
    rw [hj] at hx
    rw [← hx]
    exact .pure _ _

theorem systemFetchExtrinsics_steady (hv : c.ServedBy g v) (chain : Chain) (hn : n ≤ g)
    (opts : ExtrinsicOpts) :
    Steady (.answer v) (chain.systemFetchExtrinsics (.hash (c.hashAt n)) opts)
      (.ok (c.extrinsics (c.hashAt n) opts)) := by
  refine (withRetryOnError_steady (call_steady (.answer v)
    (.fetchExtrinsics (.hash (c.hashAt n)) opts)) _).bind ?_
  simp only [Event.response, hv.extrinsics n hn]
  exact .pure _ _

theorem systemFetchEvents_steady (hv : c.ServedBy g v) (chain : Chain) (hn : n ≤ g)
    (opts : EventOpts) :
    Steady (.answer v) (chain.systemFetchEvents (.hash (c.hashAt n)) opts)
      (.ok (c.events (c.hashAt n) opts)) := by
  simp only [Chain.systemFetchEvents, Chain.toHash, pure_bind]
  refine (withRetryOnError_steady (call_steady (.answer v)
    (.fetchEvents (c.hashAt n) opts)) _).bind ?_
  simp only [Event.response, hv.events n hn]
  exact .pure _ _

theorem blockNonce_steady (hv : c.ServedBy g v) (chain : Chain) (hn : n ≤ g)
    (account : AccountId) :
    Steady (.answer v) (chain.blockNonce account (.hash (c.hashAt n)))
      (.ok (c.nonceAt account n)) := by
  have hinfo : Steady (.answer v) (chain.accountInfo account (.hash (c.hashAt n)))
      (.ok ((c.account (c.hashAt n) account).getD default)) := by
    simp only [Chain.accountInfo, Chain.toHash, pure_bind]
    refine (withRetryOnError_steady (call_steady (.answer v)
      (.systemAccount account (c.hashAt n))) _).bind ?_
    simp only [Event.response, hv.account n hn]
    exact .pure _ _
  exact hinfo.bind (.pure _ _)

end FinalizedChain

end AvailRust
