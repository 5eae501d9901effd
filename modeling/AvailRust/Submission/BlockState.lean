/-
  The state of a block.

  `Snapshot` is a node at one moment: a tree of known blocks with a best head and a finalized
  head on its chain. `IsState` says what state a block is in, by the tree alone;
  `Chain.blockState` works it out from the two heads, the height of the block and the hash at
  that height. The two agree but for known blocks above the best head (`blockState_iff`).
-/
import AvailRust.Lib.Ancestry
import AvailRust.Submission.Receipt

namespace AvailRust

open Scale Dialogue Ancestry

inductive BlockState where
  | included
  | finalized
  | discarded
  | doesNotExist
deriving DecidableEq

/-- The state by height alone. -/
def ChainInfo.stateAt (chainInfo : ChainInfo) (n : Nat) : BlockState :=
  if n > chainInfo.bestHeight then .doesNotExist
  else if n > chainInfo.finalizedHeight then .included
  else .finalized

namespace Chain

/-- The state of a block that is no head, by its hash. -/
def blockStateByHash (c : Chain) (chainInfo : ChainInfo) (h : H256) :
    Rpc (Except Error BlockState) := do
  match ← c.blockHeight h with
  | .error e => pure (.error e)
  | .ok none => pure (.ok .doesNotExist)
  | .ok (some n) => do
    match ← c.blockHash (some n) with
    | .error e => pure (.error (.rpcError e))
    | .ok none => pure (.ok .doesNotExist)
    | .ok (some blockHash) =>
      if blockHash ≠ h then pure (.ok .discarded) else pure (.ok (chainInfo.stateAt n))

def blockState (c : Chain) (blockId : HashStringNumber) : Rpc (Except Error BlockState) :=
  match toHashNumber blockId with
  | .error e => pure (.error e)
  | .ok blockId => do
    match ← c.chainInfo with
    | .error e => pure (.error (.rpcError e))
    | .ok chainInfo =>
      match blockId with
      | .hash h =>
        if h = chainInfo.finalizedHash then pure (.ok .finalized)
        else if h = chainInfo.bestHash then pure (.ok .included)
        else c.blockStateByHash chainInfo h
      | .number n => pure (.ok (chainInfo.stateAt n))

end Chain

def TransactionReceipt.blockState (r : TransactionReceipt) : Rpc (Except Error BlockState) :=
  r.client.chain.blockState (.hash r.blockHash)

/-! ## What the state of a block is -/

/-- The blocks a node knows, with its two heads. -/
structure Snapshot where
  blocks : Ancestry.Tree H256
  genesis : H256
  best : H256
  bestHeight : Nat
  finalized : H256
  finalizedHeight : Nat
  height_genesis : ∀ h, blocks.height h = some 0 ↔ h = genesis
  height_best : blocks.height best = some bestHeight
  height_finalized : blocks.height finalized = some finalizedHeight
  finalized_ancestor : blocks.Ancestor finalized best

namespace Snapshot

def info (s : Snapshot) : ChainInfo :=
  ⟨s.best, s.bestHeight, s.finalized, s.finalizedHeight, s.genesis⟩

/-- The state of the block with a hash. -/
def OfBlock (s : Snapshot) (h : H256) : BlockState → Prop
  | .finalized => s.blocks.Ancestor h s.finalized
  | .included => s.blocks.Ancestor h s.best ∧ ¬ s.blocks.Ancestor h s.finalized
  | .discarded => (∃ n, s.blocks.height h = some n) ∧ ¬ s.blocks.Ancestor h s.best
  | .doesNotExist => s.blocks.height h = none

/-- The state of a block by its hash, or of the block of the best chain at a height. -/
def IsState (s : Snapshot) : HashNumber → BlockState → Prop
  | .hash h, state => s.OfBlock h state
  | .number n, state =>
    (∃ h, s.blocks.Ancestor h s.best ∧ s.blocks.height h = some n ∧ s.OfBlock h state) ∨
      (n > s.bestHeight ∧ state = .doesNotExist)

/-- The node answers from the snapshot. -/
structure Answers (s : Snapshot) (v : View) : Prop where
  chainInfo : v .latestChainInfo = .ok s.info
  blockNumber : ∀ h, v (.getBlockNumber h) = .ok (s.blocks.height h)
  blockHash : ∀ h n, s.blocks.Ancestor h s.best → s.blocks.height h = some n →
    v (.getBlockHash (some n)) = .ok (some h)
  beyond : ∀ n, n > s.bestHeight → v (.getBlockHash (some n)) = .ok none

/-- No known block above the best head is asked for. -/
def Placed (s : Snapshot) (blockId : HashNumber) : Prop :=
  ∀ h n, blockId = .hash h → s.blocks.height h = some n → n ≤ s.bestHeight

variable {s : Snapshot} {h : H256} {n : Nat} {state state' : BlockState}

/-! ## A block has one state -/

theorem ancestor_best (hf : s.blocks.Ancestor h s.finalized) : s.blocks.Ancestor h s.best :=
  hf.trans s.finalized_ancestor

theorem known_of_ancestor (hb : s.blocks.Ancestor h s.best) :
    ∃ n ≤ s.bestHeight, s.blocks.height h = some n := by
  obtain ⟨n, hn, hh⟩ := hb.height_le s.height_best
  exact ⟨n, hn, hh⟩

theorem OfBlock.unique (hs : s.OfBlock h state) (hs' : s.OfBlock h state') : state = state' := by
  have hknown : s.blocks.Ancestor h s.best → s.blocks.height h ≠ none := by
    intro hb hnone
    obtain ⟨n, -, hn⟩ := known_of_ancestor hb
    rw [hnone] at hn
    cases hn
  have hknown' : s.blocks.Ancestor h s.finalized → s.blocks.height h ≠ none :=
    fun hf => hknown (ancestor_best hf)
  have hdiscarded : s.OfBlock h .discarded → s.blocks.height h ≠ none := by
    rintro ⟨⟨n, hn⟩, -⟩ hnone
    rw [hnone] at hn
    cases hn
  cases state <;> cases state'
  case included.included => rfl
  case included.finalized => exact absurd hs' hs.2
  case included.discarded => exact absurd hs.1 hs'.2
  case included.doesNotExist => exact absurd hs' (hknown hs.1)
  case finalized.included => exact absurd hs hs'.2
  case finalized.finalized => rfl
  case finalized.discarded => exact absurd (ancestor_best hs) hs'.2
  case finalized.doesNotExist => exact absurd hs' (hknown' hs)
  case discarded.included => exact absurd hs'.1 hs.2
  case discarded.finalized => exact absurd (ancestor_best hs') hs.2
  case discarded.discarded => rfl
  case discarded.doesNotExist => exact absurd hs' (hdiscarded hs)
  case doesNotExist.included => exact absurd hs (hknown hs'.1)
  case doesNotExist.finalized => exact absurd hs (hknown' hs')
  case doesNotExist.discarded => exact absurd hs (hdiscarded hs')
  case doesNotExist.doesNotExist => rfl

theorem IsState.unique {blockId : HashNumber} (hs : s.IsState blockId state)
    (hs' : s.IsState blockId state') : state = state' := by
  cases blockId with
  | hash h => exact OfBlock.unique hs hs'
  | number n =>
    rcases hs with ⟨a, ha, han, hs⟩ | ⟨hn, rfl⟩
    · rcases hs' with ⟨a', ha', han', hs'⟩ | ⟨hn', rfl⟩
      · have heq := ha.unique ha' han han'
        subst heq
        exact hs.unique hs'
      · obtain ⟨m, hm, ham⟩ := ha.height_le s.height_best
        rw [han] at ham
        cases ham
        omega
    · rcases hs' with ⟨a', ha', han', hs'⟩ | ⟨hn', rfl⟩
      · obtain ⟨m, hm, ham⟩ := ha'.height_le s.height_best
        rw [han'] at ham
        cases ham
        omega
      · rfl

/-- On the best chain the height decides. -/
theorem ofBlock_stateAt (hb : s.blocks.Ancestor h s.best) (hh : s.blocks.height h = some n) :
    s.OfBlock h (s.info.stateAt n) := by
  obtain ⟨m, hm, hh'⟩ := hb.height_le s.height_best
  rw [hh] at hh'
  cases hh'
  unfold ChainInfo.stateAt
  rw [if_neg (show ¬ n > s.info.bestHeight from Nat.not_lt.mpr hm)]
  split
  case isTrue habove =>
    refine ⟨hb, fun hf => ?_⟩
    obtain ⟨k, hk, hhk⟩ := hf.height_le s.height_finalized
    rw [hh] at hhk
    cases hhk
    exact absurd habove (Nat.not_lt.mpr hk)
  case isFalse hle =>
    exact hb.of_height_le s.finalized_ancestor hh s.height_finalized (Nat.not_lt.mp hle)

/-- A height has the state of its block on the best chain, if it has one. -/
theorem isState_number (n : Nat) : s.IsState (.number n) (s.info.stateAt n) := by
  by_cases hn : n > s.bestHeight
  · refine .inr ⟨hn, ?_⟩
    unfold ChainInfo.stateAt
    exact if_pos hn
  · obtain ⟨a, ha, han⟩ := s.blocks.exists_ancestor s.height_best (Nat.not_lt.mp hn)
    exact .inl ⟨a, ha, han, ofBlock_stateAt ha han⟩

end Snapshot

/-! ## What `block_state` returns -/

namespace Chain

variable {s : Snapshot} {v : View} {h : H256} {n : Nat}

theorem chainInfo_steady (c : Chain) (hv : s.Answers v) :
    Steady (.answer v) c.chainInfo (.ok s.info) := by
  have h := withRetryOnError_steady (call_steady (.answer v) .latestChainInfo) c.shouldRetryOnError
  have hresponse : (Event.answer v).response .latestChainInfo = .ok s.info := hv.chainInfo
  rwa [hresponse] at h

theorem blockHeight_known (c : Chain) (hv : s.Answers v) (h : H256) :
    Steady (.answer v) (c.blockHeight h) (.ok (s.blocks.height h)) := by
  have hasked := withRetryOnErrorAndNone_steady (call_steady (.answer v) (.getBlockNumber h))
    c.shouldRetryOnError (c.retryOnNone.getD false)
  have hresponse : (Event.answer v).response (.getBlockNumber h) = .ok (s.blocks.height h) :=
    hv.blockNumber h
  rw [hresponse] at hasked
  exact hasked.bind (.pure _ _)

/-- By its hash, a block gets its state, unless it is known and above the best head. -/
theorem blockStateByHash_steady (c : Chain) (hv : s.Answers v) (h : H256) :
    ∃ state, Steady (.answer v) (c.blockStateByHash s.info h) (.ok state) ∧
      (s.Placed (.hash h) → s.OfBlock h state) ∧
      (¬ s.Placed (.hash h) → state = .doesNotExist) := by
  have hheight := c.blockHeight_known hv h
  rcases hknown : s.blocks.height h with _ | n
  · rw [hknown] at hheight
    exact ⟨.doesNotExist, hheight.bind (.pure _ _), fun _ => hknown, fun _ => rfl⟩
  · rw [hknown] at hheight
    have hhash := c.blockHash_steady (.answer v) (some n)
    by_cases hn : n > s.bestHeight
    · have hresponse : (Event.answer v).response (.getBlockHash (some n)) = .ok none :=
        hv.beyond n hn
      rw [hresponse] at hhash
      refine ⟨.doesNotExist, hheight.bind (hhash.bind (.pure _ _)), fun hplaced => ?_, fun _ => rfl⟩
      exact absurd (hplaced h n rfl hknown) (Nat.not_le.mpr hn)
    · have hplaced : s.Placed (.hash h) := by
        intro h' n' heq hn'
        cases heq
        rw [hknown] at hn'
        cases hn'
        exact Nat.not_lt.mp hn
      obtain ⟨a, ha, han⟩ := s.blocks.exists_ancestor s.height_best (Nat.not_lt.mp hn)
      have hresponse : (Event.answer v).response (.getBlockHash (some n)) = .ok (some a) :=
        hv.blockHash a n ha han
      rw [hresponse] at hhash
      by_cases heq : a = h
      · subst heq
        refine ⟨s.info.stateAt n, hheight.bind (hhash.bind ?_),
          fun _ => Snapshot.ofBlock_stateAt ha han, fun hnot => absurd hplaced hnot⟩
        simp only [ne_eq, not_true_eq_false, if_false]
        exact .pure _ _
      · refine ⟨.discarded, hheight.bind (hhash.bind ?_), fun _ => ⟨⟨n, hknown⟩, fun hb => ?_⟩,
          fun hnot => absurd hplaced hnot⟩
        · simp only [ne_eq, heq, not_false_eq_true, if_true]
          exact .pure _ _
        · exact heq (ha.unique hb han hknown)

/-- Every block identifier gets its state, but a known block above the best head is said not to
    exist. -/
theorem blockState_steady (c : Chain) (hv : s.Answers v) {id : HashStringNumber}
    {blockId : HashNumber} (hid : toHashNumber id = .ok blockId) :
    ∃ state, Steady (.answer v) (c.blockState id) (.ok state) ∧
      (s.Placed blockId → s.IsState blockId state) ∧
      (¬ s.Placed blockId → state = .doesNotExist) := by
  have hinfo := c.chainInfo_steady hv
  unfold blockState
  rw [hid]
  cases blockId with
  | number n =>
    refine ⟨s.info.stateAt n, hinfo.bind (.pure _ _), fun _ => Snapshot.isState_number n, ?_⟩
    exact fun hnot => absurd (fun h n' heq => by cases heq) hnot
  | hash h =>
    have hplaced : ∀ n ≤ s.bestHeight, s.blocks.height h = some n → s.Placed (.hash h) := by
      intro n hn hh h' n' heq hn'
      cases heq
      rw [hh] at hn'
      cases hn'
      exact hn
    suffices hchoice : ∃ state, Steady (.answer v)
        (if h = s.finalized then pure (.ok .finalized)
          else if h = s.best then pure (.ok .included)
          else c.blockStateByHash s.info h : Rpc (Except Error BlockState)) (.ok state) ∧
        (s.Placed (.hash h) → s.OfBlock h state) ∧
        (¬ s.Placed (.hash h) → state = .doesNotExist) by
      obtain ⟨state, hsteady, hstate⟩ := hchoice
      exact ⟨state, hinfo.bind hsteady, hstate⟩
    by_cases hfinalized : h = s.finalized
    · have hancestor : s.blocks.Ancestor h s.finalized := hfinalized ▸ .refl _ _
      obtain ⟨n, hn, hh⟩ := Snapshot.known_of_ancestor (Snapshot.ancestor_best hancestor)
      rw [if_pos hfinalized]
      exact ⟨.finalized, .pure _ _, fun _ => hancestor, fun hnot => absurd (hplaced n hn hh) hnot⟩
    rw [if_neg hfinalized]
    by_cases hbest : h = s.best
    · have hancestor : s.blocks.Ancestor h s.best := hbest ▸ .refl _ _
      obtain ⟨n, hn, hh⟩ := Snapshot.known_of_ancestor hancestor
      rw [if_pos hbest]
      refine ⟨.included, .pure _ _, fun _ => ⟨hancestor, fun hf => hfinalized ?_⟩,
        fun hnot => absurd (hplaced n hn hh) hnot⟩
      rw [hbest] at hf ⊢
      exact hf.antisymm s.finalized_ancestor s.height_finalized
    · rw [if_neg hbest]
      exact c.blockStateByHash_steady hv h

/-- A block that is placed gets its state. -/
theorem blockState_placed (hv : s.Answers v) (c : Chain) {id : HashStringNumber}
    {blockId : HashNumber} (hid : toHashNumber id = .ok blockId) (hplaced : s.Placed blockId)
    (state : BlockState) :
    Steady (.answer v) (c.blockState id) (.ok state) ↔ s.IsState blockId state := by
  obtain ⟨returned, hsteady, hstate, -⟩ := c.blockState_steady hv hid
  constructor
  · intro h
    have heq := Except.ok.inj (h.unique hsteady)
    rw [heq]
    exact hstate hplaced
  · intro h
    rw [h.unique (hstate hplaced)]
    exact hsteady

theorem blockState_tells_iff (hv : s.Answers v) (c : Chain) {id : HashStringNumber}
    {blockId : HashNumber} (hid : toHashNumber id = .ok blockId) :
    (∀ state, Steady (.answer v) (c.blockState id) (.ok state) ↔ s.IsState blockId state) ↔
      s.Placed blockId := by
  refine ⟨fun hall => ?_, c.blockState_placed hv hid⟩
  by_contra hnot
  obtain ⟨returned, hsteady, -, hwrong⟩ := c.blockState_steady hv hid
  rw [hwrong hnot] at hsteady
  have hstate := (hall .doesNotExist).mp hsteady
  refine hnot fun h n heq hh => ?_
  subst heq
  have hnone : s.blocks.height h = none := hstate
  rw [hnone] at hh
  cases hh

/-- `block_state` tells the state of a block, by hash, by height and for a receipt, exactly when
    it is not asked for a known block above the best head; and a block of the best chain gets
    one answer by its hash and by its height. -/
theorem blockState_iff (hv : s.Answers v) :
    (∀ (c : Chain) id blockId, toHashNumber id = .ok blockId →
        ((∀ state, Steady (.answer v) (c.blockState id) (.ok state) ↔ s.IsState blockId state) ↔
          s.Placed blockId)) ∧
      (∀ r : TransactionReceipt,
        (∀ state, Steady (.answer v) r.blockState (.ok state) ↔ s.OfBlock r.blockHash state) ↔
          s.Placed (.hash r.blockHash)) ∧
      ∀ (c : Chain) h n state, s.blocks.Ancestor h s.best → s.blocks.height h = some n →
        (Steady (.answer v) (c.blockState (.hash h)) (.ok state) ↔
          Steady (.answer v) (c.blockState (.number n)) (.ok state)) := by
  refine ⟨fun c _ _ hid => c.blockState_tells_iff hv hid, fun r => ?_, ?_⟩
  · have hid : toHashNumber (.hash r.blockHash) = .ok (.hash r.blockHash) := rfl
    exact r.client.chain.blockState_tells_iff hv hid
  intro c h n state hb hh
  obtain ⟨m, hm, hh'⟩ := Snapshot.known_of_ancestor hb
  have hplaced : s.Placed (.hash h) := by
    intro h' n' heq hn'
    cases heq
    rw [hh'] at hn'
    cases hn'
    exact hm
  have hnumber : s.Placed (.number n) := fun h n heq => by cases heq
  rw [c.blockState_placed hv rfl hplaced, c.blockState_placed hv rfl hnumber]
  have hstate : s.IsState (.hash h) (s.info.stateAt n) := Snapshot.ofBlock_stateAt hb hh
  have hstate' := s.isState_number n
  constructor
  · intro h
    rw [h.unique hstate]
    exact hstate'
  · intro h
    rw [h.unique hstate']
    exact hstate

end Chain

/-! ## A fork that is longer than the best chain -/

/-- A best chain of height 1, and a fork of height 2. -/
def forkTree : Ancestry.Tree H256 where
  height h :=
    if h = FixedBytes.fill 32 0 then some 0 else if h = FixedBytes.fill 32 1 then some 1
    else if h = FixedBytes.fill 32 2 then some 1 else if h = FixedBytes.fill 32 3 then some 2
    else none
  parent h :=
    if h = FixedBytes.fill 32 1 then some (FixedBytes.fill 32 0)
    else if h = FixedBytes.fill 32 2 then some (FixedBytes.fill 32 0)
    else if h = FixedBytes.fill 32 3 then some (FixedBytes.fill 32 2) else none
  height_of_parent h p hp := by
    split_ifs at hp with h1 h2 h3
    · subst h1; cases hp; exact ⟨0, by decide, by decide⟩
    · subst h2; cases hp; exact ⟨0, by decide, by decide⟩
    · subst h3; cases hp; exact ⟨1, by decide, by decide⟩
  exists_parent h n hn := by
    split_ifs at hn with h0 h1 h2 h3
    · cases hn
    · subst h1; exact ⟨FixedBytes.fill 32 0, by decide⟩
    · subst h2; exact ⟨FixedBytes.fill 32 0, by decide⟩
    · subst h3; exact ⟨FixedBytes.fill 32 2, by decide⟩

def forkSnapshot : Snapshot where
  blocks := forkTree
  genesis := FixedBytes.fill 32 0
  best := FixedBytes.fill 32 1
  bestHeight := 1
  finalized := FixedBytes.fill 32 0
  finalizedHeight := 0
  height_genesis h := by
    constructor
    · intro hh
      change (if _ then _ else _) = _ at hh
      split_ifs at hh with h0 h1 h2 h3
      · exact h0
      · cases hh
      · cases hh
      · cases hh
    · rintro rfl
      decide
  height_best := by decide
  height_finalized := by decide
  finalized_ancestor := Relation.ReflTransGen.single (by decide)

def forkView : View
  | .latestChainInfo => .ok forkSnapshot.info
  | .getBlockNumber h => .ok (forkTree.height h)
  | .getBlockHash (some n) =>
    .ok (if n = 0 then some (FixedBytes.fill 32 0)
      else if n = 1 then some (FixedBytes.fill 32 1) else none)
  | _ => .error (.rpc "not asked")

theorem forkView_answers : forkSnapshot.Answers forkView where
  chainInfo := rfl
  blockNumber _ := rfl
  blockHash h n hb hh := by
    obtain ⟨m, hm, hh'⟩ := Snapshot.known_of_ancestor hb
    rw [hh] at hh'
    cases hh'
    have hle : n ≤ 1 := hm
    obtain rfl | rfl : n = 0 ∨ n = 1 := by omega
    · rw [hb.unique forkSnapshot.finalized_ancestor hh forkSnapshot.height_finalized]
      rfl
    · rw [hb.eq_of_height hh forkSnapshot.height_best]
      rfl
  beyond n hn := by
    have hlt : 1 < n := hn
    change Except.ok (if n = 0 then _ else if n = 1 then _ else none) = _
    rw [if_neg (by omega), if_neg (by omega)]

namespace Chain

/-- The node knows the block at the end of the fork, and it is on no chain of a head; but it is
    said not to exist. -/
theorem blockState_fork_lost :
    forkSnapshot.Answers forkView ∧
      forkSnapshot.OfBlock (FixedBytes.fill 32 3) .discarded ∧
      Steady (.answer forkView)
        ((new .devnet).blockState (.hash (FixedBytes.fill 32 3))) (.ok .doesNotExist) := by
  refine ⟨forkView_answers, ⟨⟨2, by decide⟩, fun hb => ?_⟩, ?_⟩
  · obtain ⟨m, hm, hh⟩ := Snapshot.known_of_ancestor hb
    have htwo : forkSnapshot.blocks.height (FixedBytes.fill 32 3) = some 2 := by decide
    rw [htwo] at hh
    cases hh
    exact absurd hm (by decide)
  · exact ⟨[.getBlockHash (some 2), .getBlockNumber (FixedBytes.fill 32 3), .latestChainInfo],
      fun _ _ => rfl⟩

/-- The block of the fork at the height of the best head is told to be discarded. -/
theorem blockState_iff_fork :
    Steady (.answer forkView)
      ((new .devnet).blockState (.hash (FixedBytes.fill 32 2))) (.ok .discarded) := by
  have hone : forkSnapshot.blocks.height (FixedBytes.fill 32 2) = some 1 := by decide
  have hplaced : forkSnapshot.Placed (.hash (FixedBytes.fill 32 2)) := by
    intro h n heq hn
    cases heq
    rw [hone] at hn
    cases hn
    exact Nat.le_refl 1
  have hstate : forkSnapshot.IsState (.hash (FixedBytes.fill 32 2)) .discarded := by
    refine ⟨⟨1, hone⟩, fun hb => ?_⟩
    have heq := hb.eq_of_height hone forkSnapshot.height_best
    exact absurd heq (by decide)
  have htold := ((blockState_iff forkView_answers).1 (new .devnet)
    (.hash (FixedBytes.fill 32 2)) _ rfl).mpr hplaced
  exact (htold .discarded).mpr hstate

end Chain

end AvailRust
