/-
  Receipts while the best chain is replaced.

  `BlockTree` is every block there is, on whatever fork. A node shows one chain of it at a time;
  between two requests it may show another one, as long as that keeps the finalized blocks. A
  receipt names a block of the tree when the block with its hash has its height and holds its
  extrinsic.

  `transactionReceipt` asks for the extrinsics by the hash it was given, so its receipts name
  blocks always. `TransactionReceipt.fromRange` asks for them by height: while it follows the
  best head, the block it was given may be off the chain by then (`receipts_name_iff`).
-/
import AvailRust.Submission.Window
import AvailRust.Subscription.Atomicity

namespace AvailRust

open Scale Dialogue

/-- The blocks that exist: the height of each and the hashes of its extrinsics. -/
structure BlockTree where
  height : H256 → Option Nat
  extrinsics : H256 → List H256

namespace BlockTree

/-- An answer says where a block holds the extrinsic, and nothing else. -/
def Lists (t : BlockTree) (block txHash : H256) (infos : List ExtrinsicInfo) : Prop :=
  ∀ i hash, (∃ info ∈ infos, info.extIndex = i ∧ info.extHash = hash) ↔
    hash = txHash ∧ (t.extrinsics block)[i]? = some hash

/-- The node shows a chain of the tree, and answers from that. -/
structure ShowsAt (t : BlockTree) (c : Heads) (v : View) : Prop where
  heads : Shows v c
  known : ∀ n ≤ c.best, t.height (c.hashAt n) = some n
  beyond : ∀ n hash, v (.getBlockHash (some n)) = .ok (some hash) → n ≤ c.best
  byHash : ∀ hash txHash infos, v (.fetchExtrinsics (.hash hash) (.byHash txHash)) = .ok infos →
    t.Lists hash txHash infos
  byNumber : ∀ n txHash infos, v (.fetchExtrinsics (.number n) (.byHash txHash)) = .ok infos →
    n ≤ c.best ∧ t.Lists (c.hashAt n) txHash infos

/-- The node has finalized the chain up to height `g`, and shows that chain with any blocks of
    the tree above it. -/
def ShowsForks (t : BlockTree) (hashAt : Nat → H256) (g : Nat) (v : View) : Prop :=
  ∃ c, t.ShowsAt c v ∧ c.finalized = g ∧ ∀ n ≤ g, c.hashAt n = hashAt n

/-- The block with the receipt's hash has its height, and holds its extrinsic at its index. -/
def Names (t : BlockTree) (receipt : TransactionReceipt) : Prop :=
  t.height receipt.blockHash = some receipt.blockHeight ∧
    (t.extrinsics receipt.blockHash)[receipt.extIndex]? = some receipt.extHash

variable {t : BlockTree} {hashAt : Nat → H256}

theorem showsChain (t : BlockTree) (hashAt : Nat → H256) :
    ShowsChain (t.ShowsForks hashAt) hashAt := by
  rintro g v ⟨c, hv, rfl, hfinal⟩
  have hheads := hv.heads.toFinalized
  refine ⟨?_, fun n hn => ?_⟩
  · rw [hheads.finalizedHead, hfinal _ le_rfl]
  · rw [hheads.blockHash n hn, hfinal n hn]

/-- A block that the node names exists. -/
theorem height_of_names {c : Heads} {v : View} {r : Request} {info : BlockInfo}
    (hv : t.ShowsAt c v) (h : AvailRust.Names (r, .answer v) info) :
    ∃ n ≤ c.best, info = c.infoAt n ∧ t.height info.hash = some info.height := by
  obtain ⟨n, hn, rfl⟩ : ∃ n ≤ c.best, info = c.infoAt n := by
    rcases h with ⟨best, -, hinfo⟩ | ⟨-, hhash⟩
    · cases best with
      | true => exact ⟨c.best, le_rfl, Except.ok.inj (hinfo.symm.trans hv.heads.bestHead)⟩
      | false =>
        exact ⟨c.finalized, c.finalized_le_best,
          Except.ok.inj (hinfo.symm.trans hv.heads.finalizedHead)⟩
    · replace hhash : v (.getBlockHash (some info.height)) = .ok (some info.hash) := hhash
      have hle := hv.beyond _ _ hhash
      rw [hv.heads.blockHash _ hle] at hhash
      refine ⟨info.height, hle, ?_⟩
      rw [Heads.infoAt, Option.some.inj (Except.ok.inj hhash)]
  exact ⟨n, hn, rfl, hv.known n hn⟩

/-- A receipt made of a block and of what that block lists. -/
theorem names_of_lists {client : Client} {txHash : H256} {info : BlockInfo}
    {infos : List ExtrinsicInfo} {receipt : TransactionReceipt}
    (hheight : t.height info.hash = some info.height) (hlists : t.Lists info.hash txHash infos)
    (h : TransactionReceipt.ofFirst client info infos = some receipt) : t.Names receipt := by
  obtain ⟨ext, hext, rfl⟩ := Option.map_eq_some_iff.mp h
  exact ⟨hheight, ((hlists _ _).mp ⟨ext, List.mem_of_head? hext, rfl, rfl⟩).2⟩

end BlockTree

theorem Chain.systemFetchExtrinsics_read {chain : Chain} (id : HashNumber) {opts : ExtrinsicOpts}
    {infos : List ExtrinsicInfo} {w w' : RpcWorld}
    (h : chain.systemFetchExtrinsics id.toHashStringNumber opts w = some (.ok infos, w')) :
    ∃ e, (Request.fetchExtrinsics id opts, e) ∈ w'.trace ∧
      e.response (.fetchExtrinsics id opts) = .ok infos := by
  have hid : Chain.toHashNumber id.toHashStringNumber = .ok id := by cases id <;> rfl
  unfold Chain.systemFetchExtrinsics at h
  rw [hid] at h
  obtain ⟨x, w1, hx, h⟩ := bind_eq_some.mp h
  obtain ⟨e, rest, htrace, hresp⟩ := (withRetryOnError_asked hx).last_move
  cases x with
  | error e =>
    obtain ⟨h1, -⟩ := pure_eq_some.mp h
    cases h1
  | ok infos' =>
    obtain ⟨h1, rfl⟩ := pure_eq_some.mp h
    cases h1
    exact ⟨e, by rw [htrace]; exact List.mem_cons_self, hresp⟩

/-! ## Receipts by hash -/

namespace Utils

variable {client : Client} {txHash : H256} {nonce : U32} {account : AccountId}
  {mortality : RefinedMortality} {useBestBlock : Bool}

/-- The block the search returns is one the node has named. -/
theorem loop_names {ends : Nat} {s : Sub × Nat} {w w' : RpcWorld} {info : BlockInfo}
    (h : loop (searchStep client nonce txHash account ends) s w = some (.ok (some info), w')) :
    ∃ q ∈ w'.trace, Names q info := by
  refine loop_rule (fun _ _ => True)
    (fun r w' => ∀ info, r = .ok (some info) → ∃ q ∈ w'.trace, Names q info)
    (fun _ _ _ _ _ _ => trivial) ?_ trivial h info rfl
  clear h
  rintro ⟨s, current⟩ w r w' - h info rfl
  obtain ⟨-, h1, -⟩ | ⟨e, h1⟩ | ⟨info', sub, w1, stateNonce, w2, -, hnext, hnonce, hcases⟩ :=
    searchStep_cases h
  · cases h1
  · cases h1
  obtain ⟨-, -, q, rest, htrace, hnames⟩ := Sub.run_next_due hnext
  obtain ⟨new, hnew, -⟩ := Chain.blockNonce_logged _ _ _ w1 _ w2 hnonce
  have hq : q ∈ w2.trace := by rw [hnew, htrace]; simp
  obtain ⟨-, h1, rfl⟩ | ⟨-, -, h1, -⟩ | ⟨-, -, ext, hext, h1⟩ := hcases
  · cases h1
    exact ⟨q, hq, hnames⟩
  · cases h1
  · obtain ⟨new', hnew', -⟩ := extrinsicInfos_logged _ _ w2 _ w' hext
    split at h1
    · cases h1
    · cases h1
      exact ⟨q, by rw [hnew']; exact List.mem_append_right _ hq, hnames⟩

theorem traceHead_logged (client : Client) (useBestBlock : Bool) :
    Logged (traceHead client useBestBlock) := by
  unfold traceHead
  split
  · cases useBestBlock with
    | true =>
      exact (Chain.blockInfo_consumes _ true).logged.bind fun x => by split <;> exact .pure _
    | false =>
      exact (Chain.blockInfo_consumes _ false).logged.bind fun x => by split <;> exact .pure _
  · exact .pure _

theorem transactionReceipt_logged : Logged
    (transactionReceipt client txHash nonce account mortality useBestBlock) := by
  have hfind : Logged
      (findCorrectBlockInfo client nonce txHash account mortality useBestBlock) := by
    refine (traceHead_logged _ _).bind fun x => ?_
    cases x with
    | error e => exact .pure _
    | ok _ => exact loop_logged searchStep_logged _
  refine hfind.bind fun x => ?_
  rcases x with e | _ | info
  · exact .pure _
  · exact .pure _
  · refine (extrinsicInfos_logged _ _).bind fun y => ?_
    split <;> exact .pure _

/-- A receipt is made of a block the node has named and of what it listed for that block. -/
theorem transactionReceipt_read {receipt : TransactionReceipt} {w w' : RpcWorld}
    (h : transactionReceipt client txHash nonce account mortality useBestBlock w
      = some (.ok (some receipt), w')) :
    ∃ info infos, (∃ q ∈ w'.trace, Names q info) ∧
      (∃ e, (Request.fetchExtrinsics (.hash info.hash) (.byHash txHash), e) ∈ w'.trace ∧
        e.response (.fetchExtrinsics (.hash info.hash) (.byHash txHash)) = .ok infos) ∧
      TransactionReceipt.ofFirst client info infos = some receipt := by
  obtain ⟨x, w1, hfind, h⟩ := bind_eq_some.mp h
  rcases x with e | _ | info
  · obtain ⟨h1, -⟩ := pure_eq_some.mp h
    cases h1
  · obtain ⟨h1, -⟩ := pure_eq_some.mp h
    cases h1
  obtain ⟨y, w2, htrace, hloop⟩ := bind_eq_some.mp hfind
  cases y with
  | error e =>
    obtain ⟨h1, -⟩ := pure_eq_some.mp hloop
    cases h1
  | ok _ =>
    obtain ⟨q, hq, hnames⟩ := loop_names hloop
    obtain ⟨z, w3, hext, h⟩ := bind_eq_some.mp h
    obtain ⟨new, hnew, -⟩ := extrinsicInfos_logged _ _ w1 z w3 hext
    cases z with
    | error e =>
      obtain ⟨h1, -⟩ := pure_eq_some.mp h
      cases h1
    | ok infos =>
      obtain ⟨h1, rfl⟩ := pure_eq_some.mp h
      exact ⟨info, infos, ⟨q, by rw [hnew]; exact List.mem_append_right _ hq, hnames⟩,
        Chain.systemFetchExtrinsics_read (.hash info.hash) hext, Except.ok.inj h1⟩

end Utils

/-- Whatever the node shows, the receipts of a query name blocks of the tree. -/
def ReceiptsName (query : Rpc (Except Error (Option TransactionReceipt))) : Prop :=
  ∀ (t : BlockTree) (hashAt : Nat → H256) (script : List Event) (top : Nat)
    (receipt : TransactionReceipt) (w' : RpcWorld), Feed (t.ShowsForks hashAt) 0 script top →
    query (start Request script) = some (.ok (some receipt), w') → t.Names receipt

theorem Utils.transactionReceipt_names (client : Client) (txHash : H256) (nonce : U32)
    (account : AccountId) (mortality : RefinedMortality) (useBestBlock : Bool) :
    ReceiptsName (transactionReceipt client txHash nonce account mortality useBestBlock) := by
  intro t hashAt script top receipt w' hfeed h
  obtain ⟨info, infos, ⟨⟨r, e⟩, hq, hnames⟩, ⟨e', hmem, hresp⟩, hfirst⟩ := transactionReceipt_read h
  have hheight : t.height info.hash = some info.height := by
    obtain ⟨v, g, rfl, c, hv, -⟩ | ⟨reached, err, rfl⟩ := hfeed.trace transactionReceipt_logged h hq
    · obtain ⟨n, -, -, hheight⟩ := BlockTree.height_of_names hv hnames
      exact hheight
    · rcases hnames with ⟨best, -, h1⟩ | ⟨-, h1⟩ <;> cases h1
  have hlists : t.Lists info.hash txHash infos := by
    obtain ⟨v, g, rfl, c, hv, -⟩ | ⟨reached, err, rfl⟩ :=
      hfeed.trace transactionReceipt_logged h hmem
    · exact hv.byHash _ _ _ hresp
    · cases hresp
  exact BlockTree.names_of_lists hheight hlists hfirst

/-! ## Receipts by height -/

namespace TransactionReceipt

variable {client : Client} {txHash : H256} {t : BlockTree} {hashAt : Nat → H256} {f top : Nat}

/-- What one pass can do: a request fails, or the next block is searched. -/
theorem rangeStep_cases {blockEnd : Nat} {s : Sub} {w w' : RpcWorld}
    {r : Sub ⊕ Except Error (Option TransactionReceipt)}
    (h : rangeStep client txHash blockEnd s w = some (r, w')) :
    (∃ e, r = .inr (.error e)) ∨
    ∃ info sub w1 infos, s.run .next w = some ((.ok info, sub), w1) ∧
      (Block.new client (.number info.height)).extrinsicInfos (.byHash txHash) w1
        = some (.ok infos, w') ∧
      ((∃ receipt, ofFirst client info infos = some receipt ∧ r = .inr (.ok (some receipt))) ∨
       (info.height ≥ blockEnd ∧ r = .inr (.ok none)) ∨
       (¬ info.height ≥ blockEnd ∧ r = .inl sub)) := by
  obtain ⟨⟨x, sub⟩, w1, hnext, h⟩ := bind_eq_some.mp h
  cases x with
  | error e => exact .inl ⟨_, (pure_eq_some.mp h).1.symm⟩
  | ok info =>
    obtain ⟨y, w2, hext, h⟩ := bind_eq_some.mp h
    cases y with
    | error e => exact .inl ⟨_, (pure_eq_some.mp h).1.symm⟩
    | ok infos =>
      refine .inr ⟨info, sub, w1, infos, hnext, ?_⟩
      cases hfirst : ofFirst client info infos with
      | some receipt =>
        simp only [hfirst] at h
        obtain ⟨rfl, rfl⟩ := pure_eq_some.mp h
        exact ⟨hext, .inl ⟨receipt, rfl, rfl⟩⟩
      | none =>
        simp only [hfirst] at h
        split at h
        case isTrue hend =>
          obtain ⟨rfl, rfl⟩ := pure_eq_some.mp h
          exact ⟨hext, .inr (.inl ⟨hend, rfl⟩)⟩
        case isFalse hend =>
          obtain ⟨rfl, rfl⟩ := pure_eq_some.mp h
          exact ⟨hext, .inr (.inr ⟨hend, rfl⟩)⟩

/-- A query that finds something has gone through the range. -/
theorem fromRange_loop {extHash : HashString} {blockStart blockEnd : Nat} {useBestBlock : Bool}
    {receipt : TransactionReceipt} {w w' : RpcWorld}
    (h : fromRange client extHash blockStart blockEnd useBestBlock w
      = some (.ok (some receipt), w')) :
    ∃ txHash, extHash.toHash = .ok txHash ∧ blockStart ≤ blockEnd ∧
      loop (rangeStep client txHash blockEnd)
        (((Sub.new client).useBestBlock useBestBlock).setBlockHeight blockStart) w
        = some (.ok (some receipt), w') := by
  unfold fromRange at h
  split at h
  case isTrue =>
    obtain ⟨h1, -⟩ := pure_eq_some.mp h
    cases h1
  case isFalse hle =>
    cases hhash : extHash.toHash with
    | error e =>
      rw [hhash] at h
      obtain ⟨h1, -⟩ := pure_eq_some.mp h
      cases h1
    | ok txHash =>
      rw [hhash] at h
      exact ⟨txHash, rfl, Nat.not_lt.mp hle, h⟩

/-- Asking for a finalized height lists the finalized block there. -/
theorem lists_of_number {n : Nat} {infos : List ExtrinsicInfo} {w w' : RpcWorld}
    (hw : Feed (t.ShowsForks hashAt) f w.script top) (hn : n ≤ f)
    (h : (Block.new client (.number n)).extrinsicInfos (.byHash txHash) w
      = some (.ok infos, w')) :
    t.height (hashAt n) = some n ∧ t.Lists (hashAt n) txHash infos ∧
      ∃ g, f ≤ g ∧ Feed (t.ShowsForks hashAt) g w'.script top := by
  obtain ⟨x, w1, hx, h⟩ := bind_eq_some.mp h
  obtain ⟨g, hg, hw1, -, hgood⟩ := Yields.withRetryOnError _ _ w x w1 hw hx
  cases x with
  | error e =>
    obtain ⟨h1, -⟩ := pure_eq_some.mp h
    cases h1
  | ok infos' =>
    obtain ⟨h1, rfl⟩ := pure_eq_some.mp h
    cases h1
    obtain ⟨v, ⟨c, hv, rfl, hfinal⟩, hans⟩ := hgood _ rfl
    obtain ⟨-, hlists⟩ := hv.byNumber _ _ _ hans
    have hknown := hv.known n ((hn.trans hg).trans c.finalized_le_best)
    rw [hfinal n (hn.trans hg)] at hlists hknown
    exact ⟨hknown, hlists, c.finalized, hg, hw1⟩

/-- One pass over a finalized block: the cursor is where it was, on the block of its height, and
    what is listed is of that block. -/
theorem rangeStep_finalized {g n blockEnd : Nat} {s : Sub} {w w' : RpcWorld}
    {r : Sub ⊕ Except Error (Option TransactionReceipt)}
    (hw : Feed (t.ShowsForks hashAt) g w.script top) (hs : s.At g n)
    (h : rangeStep client txHash blockEnd s w = some (r, w')) :
    (∃ e, r = .inr (.error e)) ∨
    ∃ infos sub g' n', t.height (hashAt n) = some n ∧ t.Lists (hashAt n) txHash infos ∧
      Feed (t.ShowsForks hashAt) g' w'.script top ∧ sub.At g' n' ∧
      ((∃ receipt, ofFirst client ⟨hashAt n, n⟩ infos = some receipt ∧
          r = .inr (.ok (some receipt))) ∨
        r = .inr (.ok none) ∨ r = .inl sub) := by
  obtain herror | ⟨info, sub, w1, infos, hnext, hext, hr⟩ := rangeStep_cases h
  · exact .inl herror
  obtain ⟨g1, hg1, hw1, -, ⟨⟨e, he⟩, -⟩ | ⟨hinfo, hn, hat, -⟩⟩ :=
    Sub.run_fed_wrap (t.showsChain hashAt) hs hw hnext
  · cases he
  cases hinfo
  obtain ⟨hheight, hlists, g2, hg2, hw2⟩ := lists_of_number hw1 hn hext
  refine .inr ⟨infos, sub, g2, _, hheight, hlists, hw2, hat.mono hg2, ?_⟩
  obtain hfound | ⟨-, hr⟩ | ⟨-, hr⟩ := hr
  · exact .inl hfound
  · exact .inr (.inl hr)
  · exact .inr (.inr hr)

/-- Over finalized blocks the block and what is listed for its height agree. -/
theorem fromRange_names_finalized (client : Client) (extHash : HashString)
    (blockStart blockEnd : Nat) :
    ReceiptsName (fromRange client extHash blockStart blockEnd false) := by
  intro t hashAt script top receipt w' hfeed h
  obtain ⟨txHash, -, -, h⟩ := fromRange_loop h
  refine loop_rule
    (fun s w => ∃ g n, Feed (t.ShowsForks hashAt) g w.script top ∧ s.At g n)
    (fun r w' => ∀ receipt, r = .ok (some receipt) → t.Names receipt) ?_ ?_
    ⟨0, blockStart, hfeed, rfl, rfl⟩ h receipt rfl
  · rintro s w s' w' ⟨g, n, hw, hs⟩ h
    obtain ⟨e, hr⟩ | ⟨infos, sub, g', n', -, -, hw', hat, hr⟩ := rangeStep_finalized hw hs h
    · cases hr
    obtain ⟨receipt, -, hr⟩ | hr | hr := hr
    · cases hr
    · cases hr
    · cases hr
      exact ⟨g', n', hw', hat⟩
  · rintro s w r w' ⟨g, n, hw, hs⟩ h receipt rfl
    obtain ⟨e, hr⟩ | ⟨infos, sub, g', n', hheight, hlists, -, -, hr⟩ :=
      rangeStep_finalized hw hs h
    · cases hr
    obtain ⟨receipt', hfirst, hr⟩ | hr | hr := hr
    · cases hr
      exact BlockTree.names_of_lists hheight hlists hfirst
    · cases hr
    · cases hr

/-- The block at height 0 is the same on every fork. -/
theorem fromRange_names_genesis (client : Client) (extHash : HashString) (useBestBlock : Bool) :
    ReceiptsName (fromRange client extHash 0 0 useBestBlock) := by
  intro t hashAt script top receipt w' hfeed h
  obtain ⟨txHash, -, -, h⟩ := fromRange_loop h
  -- there is one pass only
  refine loop_rule
    (fun s w => Feed (t.ShowsForks hashAt) 0 w.script top ∧ ∀ n, s.Due n → n = 0)
    (fun r w' => ∀ receipt, r = .ok (some receipt) → t.Names receipt) ?_ ?_
    ⟨hfeed, fun n hn => hn 0 rfl⟩ h receipt rfl
  · rintro s w s' w' - h
    obtain ⟨e, h1⟩ | ⟨info, sub, w1, infos, -, -, hr⟩ := rangeStep_cases h
    · cases h1
    obtain ⟨receipt, -, h1⟩ | ⟨-, h1⟩ | ⟨hend, -⟩ := hr
    · cases h1
    · cases h1
    · exact absurd (Nat.zero_le _) hend
  · rintro s w r w' ⟨hw, hdue⟩ h receipt rfl
    obtain ⟨e, h1⟩ | ⟨info, sub, w1, infos, hnext, hext, hr⟩ := rangeStep_cases h
    · cases h1
    obtain ⟨hinfo, -, q, rest, htrace, hnames⟩ := Sub.run_next_due hnext
    obtain ⟨new, hne, hnew⟩ := Sub.run_consumes .next s w _ w1 hnext
    obtain ⟨⟨g1, -, hw1⟩, hall⟩ := hw.after hnew
    have hq : q ∈ new := by
      obtain ⟨q', new', rfl⟩ := List.exists_cons_of_ne_nil hne
      have h1 := hnew.1
      rw [htrace, List.cons_append] at h1
      rw [(List.cons.inj h1).1]
      exact List.mem_cons_self
    have hhash : info.hash = hashAt 0 := by
      obtain ⟨r, e⟩ := q
      obtain ⟨v, g, he, c, hv, -, hfinal⟩ | ⟨reached, err, he⟩ := hall _ hq
      · obtain rfl : e = .answer v := he
        obtain ⟨n, -, rfl, -⟩ := BlockTree.height_of_names hv hnames
        obtain rfl : n = 0 := hdue n hinfo
        exact hfinal 0 (Nat.zero_le g)
      · obtain rfl : e = .fail reached err := he
        rcases hnames with ⟨best, -, h1⟩ | ⟨-, h1⟩ <;> cases h1
    rw [hdue _ hinfo] at hext
    obtain ⟨hheight, hlists, -⟩ := lists_of_number hw1 (Nat.zero_le g1) hext
    obtain ⟨receipt', hfirst, h1⟩ | ⟨-, h1⟩ | ⟨-, h1⟩ := hr
    · cases h1
      rw [← hhash] at hheight hlists
      rw [← hdue _ hinfo] at hheight
      exact BlockTree.names_of_lists hheight hlists hfirst
    · cases h1
    · cases h1

end TransactionReceipt

/-! ## Two forks -/

namespace BlockTree

/-- Where a block holds the extrinsic. -/
def list (t : BlockTree) (block txHash : H256) : List ExtrinsicInfo :=
  ((t.extrinsics block).zipIdx.filter fun p => p.1 = txHash).map fun p =>
    ⟨none, p.1, p.2, 0, 0, none⟩

theorem lists_list (t : BlockTree) (block txHash : H256) :
    t.Lists block txHash (t.list block txHash) := by
  intro i hash
  unfold list
  constructor
  · rintro ⟨info, hinfo, rfl, rfl⟩
    obtain ⟨⟨x, j⟩, hp, rfl⟩ := List.mem_map.mp hinfo
    obtain ⟨hmem, hx⟩ := List.mem_filter.mp hp
    exact ⟨by simpa using hx, List.mem_zipIdx_iff_getElem?.mp hmem⟩
  · rintro ⟨rfl, hi⟩
    have hmem : (hash, i) ∈ (t.extrinsics block).zipIdx := List.mem_zipIdx_iff_getElem?.mpr hi
    exact ⟨_, List.mem_map_of_mem (List.mem_filter.mpr ⟨hmem, by simp⟩), rfl, rfl⟩

/-- What a block holds of a filter by one hash. -/
def select (t : BlockTree) (block : H256) (opts : ExtrinsicOpts) : List ExtrinsicInfo :=
  match opts.transactionFilter with
  | .txHash [txHash] => t.list block txHash
  | _ => []

/-- The node that shows a chain of the tree and nothing else. -/
def viewOf (t : BlockTree) (c : Heads) : View
  | .latestBlockInfo best => .ok (c.infoAt (if best then c.best else c.finalized))
  | .latestChainInfo =>
    .ok ⟨c.hashAt c.best, c.best, c.hashAt c.finalized, c.finalized, c.hashAt 0⟩
  | .getBlockHash none => .ok (some (c.hashAt c.best))
  | .getBlockHash (some n) => .ok (if n ≤ c.best then some (c.hashAt n) else none)
  | .getBlockNumber hash => .ok (t.height hash)
  | .getHeader _ => .ok none
  | .getBlock _ => .ok none
  | .blockJustification _ => .ok none
  | .fetchExtrinsics (.hash hash) opts => .ok (t.select hash opts)
  | .fetchExtrinsics (.number n) opts =>
    if n ≤ c.best then .ok (t.select (c.hashAt n) opts) else .error (.rpc "block not found")
  | .fetchEvents _ _ => .ok []
  | .systemAccount _ _ => .ok none
  | .accountNextIndex _ => .ok 0
  | .submitExtrinsic _ => .error (.rpc "submission is closed")

theorem viewOf_showsAt {t : BlockTree} {c : Heads}
    (h : ∀ n ≤ c.best, t.height (c.hashAt n) = some n) :
    t.ShowsAt c (t.viewOf c) where
  heads := ⟨rfl, rfl, fun n hn => congrArg Except.ok (if_pos hn)⟩
  known := h
  beyond n hash hn := by
    by_contra hlt
    have hn' : (if n ≤ c.best then some (c.hashAt n) else none) = some hash := Except.ok.inj hn
    rw [if_neg hlt] at hn'
    cases hn'
  byHash hash txHash infos hinfos := by
    obtain rfl := Except.ok.inj hinfos
    exact t.lists_list hash txHash
  byNumber n txHash infos hinfos := by
    simp only [viewOf] at hinfos
    by_cases hn : n ≤ c.best
    · rw [if_pos hn] at hinfos
      obtain rfl := Except.ok.inj hinfos
      exact ⟨hn, t.lists_list _ txHash⟩
    · rw [if_neg hn] at hinfos
      cases hinfos

end BlockTree

/-- The block of a fork at a height. -/
def forkHash (fork : UInt8) (n : Nat) : H256 := ⟨fork :: leBytes 31 n, by simp⟩

/-- Two forks: the blocks of the second one hold the extrinsic. -/
def twoForks (txHash : H256) : BlockTree where
  height hash := if hash.bytes.headD 2 ≤ 1 then some (leValue hash.bytes.tail) else none
  extrinsics hash := if hash.bytes.headD 2 = 1 then [txHash] else []

/-- The chain of a fork, from a common first block on. -/
def forkHeads (fork : UInt8) (best : Nat) : Heads where
  hashAt n := if n = 0 then forkHash 0 0 else forkHash fork n
  finalized := 0
  best := best
  finalized_le_best := Nat.zero_le best

theorem forkHeads_known (txHash : H256) {fork : UInt8} {best : Nat} (hfork : fork ≤ 1)
    (hbest : best < 2 ^ 32) :
    ∀ n ≤ best, (twoForks txHash).height ((forkHeads fork best).hashAt n) = some n := by
  intro n hn
  by_cases h0 : n = 0
  · subst h0
    rfl
  · have hvalue : leValue (leBytes 31 n) = n := by
      rw [leValue_leBytes]
      exact Nat.mod_eq_of_lt (by omega)
    have hheight : (twoForks txHash).height (forkHash fork n) = some n := by
      show (if fork ≤ 1 then some (leValue (leBytes 31 n)) else none) = some n
      rw [if_pos hfork, hvalue]
    rw [← hheight]
    simp only [forkHeads, if_neg h0]

theorem forkHeads_shows (txHash : H256) {fork : UInt8} {best : Nat} (hfork : fork ≤ 1)
    (hbest : best < 2 ^ 32) :
    (twoForks txHash).ShowsForks (forkHash 0) 0
      ((twoForks txHash).viewOf (forkHeads fork best)) := by
  refine ⟨_, BlockTree.viewOf_showsAt (forkHeads_known txHash hfork hbest), rfl, fun n hn => ?_⟩
  rw [Nat.le_zero.mp hn]
  rfl

namespace TransactionReceipt

variable {client : Client} {txHash : H256}

theorem rangeStep_productive (client : Client) (txHash : H256) (blockEnd : Nat) :
    Productive (rangeStep client txHash blockEnd) := by
  refine .of_consumes fun s => (s.run_consumes .next).bind ?_
  rintro ⟨x, sub⟩
  cases x with
  | error e => exact .pure _
  | ok info =>
    refine (Utils.extrinsicInfos_logged _ _).bind fun y => ?_
    cases y with
    | error e => exact .pure _
    | ok infos =>
      simp only
      split
      · exact .pure _
      · split <;> exact .pure _

/-- A node that is up lists the block of its chain at a height. -/
theorem extrinsicInfos_steady {t : BlockTree} {c : Heads} {n : Nat} (hn : n ≤ c.best) :
    Steady (.answer (t.viewOf c)) ((Block.new client (.number n)).extrinsicInfos (.byHash txHash))
      (.ok (t.list (c.hashAt n) txHash)) := by
  refine (withRetryOnError_steady (call_steady (.answer (t.viewOf c))
    (.fetchExtrinsics (.number n) (.byHash txHash))) _).bind ?_
  simp only [Event.response, BlockTree.viewOf, if_pos hn]
  exact .pure _ _

/-- A pass over a block without the extrinsic. -/
theorem rangeStep_passes {v : View} {blockEnd : Nat} {s s' : Sub} {info : BlockInfo}
    {infos : List ExtrinsicInfo} (hs : Steady (.answer v) (s.run .next) (.ok info, s'))
    (hext : Steady (.answer v)
      ((Block.new client (.number info.height)).extrinsicInfos (.byHash txHash)) (.ok infos))
    (hnone : ofFirst client info infos = none) (hend : ¬ info.height ≥ blockEnd) :
    Steady (.answer v) (rangeStep client txHash blockEnd s) (.inl s') := by
  refine hs.bind (hext.bind ?_)
  simp only [hnone, if_neg hend]
  exact .pure _ _

/-- The node changes forks between the two requests of a pass. -/
theorem rangeStep_turns {blockEnd best n : Nat} {s s' : Sub} (hn : n ≠ 0) (hbest : n ≤ best)
    (hs : Steady (.answer ((twoForks txHash).viewOf (forkHeads 0 best))) (s.run .next)
      (.ok ⟨forkHash 0 n, n⟩, s')) :
    Turns (.answer ((twoForks txHash).viewOf (forkHeads 0 best)))
      (.answer ((twoForks txHash).viewOf (forkHeads 1 best)))
      (rangeStep client txHash blockEnd s)
      (.inr (.ok (some ⟨client, forkHash 0 n, n, txHash, 0⟩))) := by
  refine .of_steady hs ((extrinsicInfos_steady (c := forkHeads 1 best) hbest).bind ?_)
  have hlist : (twoForks txHash).list ((forkHeads 1 best).hashAt n) txHash
      = [⟨none, txHash, 0, 0, 0, none⟩] := by
    simp [forkHeads, hn, BlockTree.list, twoForks, forkHash]
  rw [hlist]
  exact .pure _ _

/-- A cursor set to follow the best head from a height. -/
def bestFrom (client : Client) (height : Nat) : Sub :=
  ((Sub.new client).useBestBlock true).setBlockHeight height

/-- What the cursor becomes with its first call. -/
def freshBest (client : Client) (height : Nat) : BestBlockSub where
  client := client
  pollRate := 3
  currentBlockHeight := height
  blockProcessed := []
  retryOnError := none
  latestFinalizedHeight := none

/-- The first block of a cursor on the chain of a fork. -/
theorem bestFrom_steady (client : Client) (txHash : H256) {best n : Nat} (hn : n ≤ best)
    (hbest : best < 2 ^ 32) :
    Steady (.answer ((twoForks txHash).viewOf (forkHeads 0 best))) ((bestFrom client n).run .next)
      (.ok ((forkHeads 0 best).infoAt n),
        .bestBlock (((freshBest client n).withLatest (some 0)).recorded
          ((forkHeads 0 best).infoAt n))) := by
  have hv : (twoForks txHash).ShowsAt (forkHeads 0 best)
      ((twoForks txHash).viewOf (forkHeads 0 best)) :=
    BlockTree.viewOf_showsAt (forkHeads_known txHash (by decide) hbest)
  have hdue : (Sub.bestBlock (freshBest client n)).dueNext (forkHeads 0 best)
      = some ((forkHeads 0 best).infoAt n) := by
    simp [Sub.dueNext, freshBest, forkHeads, hn]
  obtain ⟨f, hf, hnext⟩ := BestBlockSub.next_steady hv.heads (fun f hf => by cases hf)
    (fun h => absurd rfl h) (fun _ => List.not_mem_nil) hdue
  rw [Nat.le_zero.mp hf] at hnext
  have hrun : (bestFrom client n).run .next
      = (Sub.bestBlock (freshBest client n)).runConcrete .next := rfl
  rw [hrun]
  exact hnext.bind (.pure _ _)

/-- The block after the first one. -/
theorem second_steady (client : Client) (txHash : H256) :
    ∃ s', Steady (.answer ((twoForks txHash).viewOf (forkHeads 0 1)))
      ((Sub.bestBlock (((freshBest client 0).withLatest (some 0)).recorded
        ((forkHeads 0 1).infoAt 0))).run .next) (.ok ⟨forkHash 0 1, 1⟩, s') := by
  have hv : (twoForks txHash).ShowsAt (forkHeads 0 1)
      ((twoForks txHash).viewOf (forkHeads 0 1)) :=
    BlockTree.viewOf_showsAt (forkHeads_known txHash (by decide) (by decide))
  let s : BestBlockSub := { freshBest client 0 with
    latestFinalizedHeight := some 0, blockProcessed := [forkHash 0 0] }
  have hs : ((freshBest client 0).withLatest (some 0)).recorded ((forkHeads 0 1).infoAt 0) = s :=
    rfl
  have hdue : (Sub.bestBlock s).dueNext (forkHeads 0 1) = some ⟨forkHash 0 1, 1⟩ := rfl
  have hhead : (forkHeads 0 1).hashAt (forkHeads 0 1).best ∉ [forkHash 0 0] := by decide
  obtain ⟨f, -, hnext⟩ := BestBlockSub.next_steady hv.heads
    (fun f hf => le_of_eq (Option.some.inj hf).symm) (fun _ => by decide) (fun _ => hhead) hdue
  rw [hs]
  exact ⟨_, (Steady.pure _ _).bind (hnext.bind (.pure _ _))⟩

/-- While it follows the best head, the query can be made to return a receipt that names no
    block, unless it looks at the first block only. -/
theorem fromRange_splits (client : Client) {extHash : HashString} {blockStart blockEnd : Nat}
    (hhash : extHash.toHash = .ok txHash) (hle : blockStart ≤ blockEnd) (hend : blockEnd ≠ 0)
    (hstart : blockStart < 2 ^ 32) :
    ∃ n k k' w', n ≠ 0 ∧
      fromRange client extHash blockStart blockEnd true (start Request
        (List.replicate k (.answer ((twoForks txHash).viewOf (forkHeads 0 (max blockStart 1)))) ++
         List.replicate k' (.answer ((twoForks txHash).viewOf (forkHeads 1 (max blockStart 1))))))
        = some (.ok (some ⟨client, forkHash 0 n, n, txHash, 0⟩), w') := by
  have hbest : max blockStart 1 < 2 ^ 32 := by omega
  have hrange : fromRange client extHash blockStart blockEnd true
      = loop (rangeStep client txHash blockEnd) (bestFrom client blockStart) := by
    unfold fromRange
    rw [if_neg (Nat.not_lt.mpr hle), hhash]
    rfl
  rw [hrange]
  have hfirst := bestFrom_steady client txHash
    (Nat.le_max_left blockStart 1) hbest
  suffices h : ∃ n, n ≠ 0 ∧ Turns
      (.answer ((twoForks txHash).viewOf (forkHeads 0 (max blockStart 1))))
      (.answer ((twoForks txHash).viewOf (forkHeads 1 (max blockStart 1))))
      (loop (rangeStep client txHash blockEnd) (bestFrom client blockStart))
      (.ok (some ⟨client, forkHash 0 n, n, txHash, 0⟩)) by
    obtain ⟨n, hn, k, k', h⟩ := h
    obtain ⟨w', hrun⟩ := h []
    exact ⟨n, k, k', w', hn, hrun⟩
  by_cases h0 : blockStart = 0
  · -- the first block is the same on both forks, so the second one is split
    subst h0
    obtain ⟨s', hsecond⟩ := second_steady client txHash
    refine ⟨1, one_ne_zero, .loop_step (rangeStep_productive client txHash blockEnd) ?_
      (.loop_exit (rangeStep_turns one_ne_zero le_rfl hsecond))⟩
    exact rangeStep_passes hfirst (extrinsicInfos_steady (Nat.zero_le _)) rfl (by
      show ¬ 0 ≥ blockEnd
      omega)
  · have hinfo : (forkHeads 0 (max blockStart 1)).infoAt blockStart
        = ⟨forkHash 0 blockStart, blockStart⟩ := by
      simp [Heads.infoAt, forkHeads, h0]
    rw [hinfo] at hfirst
    exact ⟨blockStart, h0, .loop_exit (rangeStep_turns h0 (Nat.le_max_left _ _) hfirst)⟩

/-- A query by range names blocks always exactly when it cannot follow a fork: over finalized
    blocks, over the first block only, or when it asks the node nothing. -/
theorem fromRange_names_iff {extHash : HashString} {blockStart blockEnd : Nat}
    {useBestBlock : Bool} (hstart : blockStart < 2 ^ 32) :
    ReceiptsName (fromRange client extHash blockStart blockEnd useBestBlock) ↔
      useBestBlock = false ∨ blockEnd < blockStart ∨ blockEnd = 0 ∨
        ∀ txHash, extHash.toHash ≠ .ok txHash := by
  constructor
  · intro hnames
    by_contra hnot
    obtain ⟨hbest, hrange, hend, hhash⟩ : useBestBlock = true ∧ blockStart ≤ blockEnd ∧
        blockEnd ≠ 0 ∧ ∃ txHash, extHash.toHash = .ok txHash := by
      simpa only [not_or, Bool.not_eq_false, not_lt, not_forall, not_not] using hnot
    obtain ⟨txHash, hhash⟩ := hhash
    subst hbest
    obtain ⟨n, k, k', w', hn, hrun⟩ := fromRange_splits client hhash hrange hend hstart
    have hbest : max blockStart 1 < 2 ^ 32 := by omega
    have hfeed : Feed ((twoForks txHash).ShowsForks (forkHash 0)) 0
        (List.replicate k (.answer ((twoForks txHash).viewOf (forkHeads 0 (max blockStart 1)))) ++
         List.replicate k'
          (.answer ((twoForks txHash).viewOf (forkHeads 1 (max blockStart 1))))) 0 := by
      refine .settled fun e he => ?_
      rcases List.mem_append.mp he with h | h
      · exact ⟨_, List.eq_of_mem_replicate h, forkHeads_shows txHash (by decide) hbest⟩
      · exact ⟨_, List.eq_of_mem_replicate h, forkHeads_shows txHash (by decide) hbest⟩
    obtain ⟨-, hholds⟩ := hnames _ _ _ _ _ _ hfeed hrun
    -- the block of the first fork is empty
    cases hholds
  · rintro (rfl | hlt | rfl | hhash) t hashAt script top receipt w' hfeed h
    · exact fromRange_names_finalized client extHash blockStart blockEnd _ _ _ _ _ _ hfeed h
    · obtain ⟨-, -, hle, -⟩ := fromRange_loop h
      exact absurd hle (Nat.not_le.mpr hlt)
    · obtain ⟨-, -, hle, -⟩ := fromRange_loop h
      rw [Nat.le_zero.mp hle] at h
      exact fromRange_names_genesis client extHash useBestBlock _ _ _ _ _ _ hfeed h
    · obtain ⟨txHash, hok, -⟩ := fromRange_loop h
      exact absurd hok (hhash txHash)

end TransactionReceipt

/-- Queries for one transaction name blocks always, and queries by range exactly when they cannot
    follow a fork. -/
theorem receipts_name_iff (client : Client) (txHash : H256) (nonce : U32) (account : AccountId)
    (mortality : RefinedMortality) (extHash : HashString) (blockStart blockEnd : Nat)
    (useBestBlock : Bool) (hstart : blockStart < 2 ^ 32) :
    ReceiptsName (Utils.transactionReceipt client txHash nonce account mortality useBestBlock) ∧
    (ReceiptsName (TransactionReceipt.fromRange client extHash blockStart blockEnd useBestBlock) ↔
      useBestBlock = false ∨ blockEnd < blockStart ∨ blockEnd = 0 ∨
        ∀ txHash, extHash.toHash ≠ .ok txHash) :=
  ⟨Utils.transactionReceipt_names client txHash nonce account mortality useBestBlock,
    TransactionReceipt.fromRange_names_iff hstart⟩

theorem receipts_name_iff_finalized :
    ReceiptsName (TransactionReceipt.fromRange Client.devnet (.hash (FixedBytes.fill 32 7)) 5 9
      false) :=
  (receipts_name_iff Client.devnet (FixedBytes.fill 32 7) 0 (FixedBytes.fill 32 1)
    ⟨32, FixedBytes.fill 32 0, 5⟩ (.hash (FixedBytes.fill 32 7)) 5 9 false (by decide)).2.mpr
    (.inl rfl)

/-- The node shows block 5 of one fork, and answers for height 5 from the other one: the receipt
    names a block that is empty. -/
theorem receipts_name_not_best :
    let t := twoForks (FixedBytes.fill 32 7)
    let before := Event.answer (t.viewOf (forkHeads 0 5))
    let after := Event.answer (t.viewOf (forkHeads 1 5))
    Feed (t.ShowsForks (forkHash 0)) 0 [before, before, before, after] 0 ∧
    ∃ receipt w', TransactionReceipt.fromRange Client.devnet (.hash (FixedBytes.fill 32 7)) 5 9 true
        (start Request [before, before, before, after]) = some (.ok (some receipt), w') ∧
      receipt.blockHash = forkHash 0 5 ∧ t.extrinsics (forkHash 0 5) = [] ∧ ¬ t.Names receipt := by
  intro t before after
  refine ⟨?_, ?_⟩
  · have hbefore := forkHeads_shows (FixedBytes.fill 32 7) (show (0 : UInt8) ≤ 1 by decide)
      (show 5 < 2 ^ 32 by decide)
    have hafter := forkHeads_shows (FixedBytes.fill 32 7) (show (1 : UInt8) ≤ 1 by decide)
      (show 5 < 2 ^ 32 by decide)
    exact .answer le_rfl hbefore (.answer le_rfl hbefore (.answer le_rfl hbefore
      (.answer le_rfl hafter (.done 0))))
  · have hfound : (TransactionReceipt.fromRange Client.devnet (.hash (FixedBytes.fill 32 7)) 5 9
        true (start Request [before, before, before, after])).map
          (fun p => p.1.toOption.bind fun r => r.map TransactionReceipt.blockHash)
        = some (some (forkHash 0 5)) := by
      decide +kernel
    obtain ⟨⟨r, w'⟩, hrun, hr⟩ := Option.map_eq_some_iff.mp hfound
    rcases r with e | _ | receipt
    · cases hr
    · cases hr
    · have hhash : receipt.blockHash = forkHash 0 5 := Option.some.inj hr
      refine ⟨receipt, w', hrun, hhash, rfl, ?_⟩
      rintro ⟨-, hholds⟩
      rw [hhash] at hholds
      cases hholds

end AvailRust
