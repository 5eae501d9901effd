/-
  Searching a range of finalized blocks for a transaction.

  `TransactionReceipt.fromRange` walks up from the start with a cursor and stops at the first
  block that holds the extrinsic, or behind the last of the range. `rangeStep_fed` is one pass
  on a growing chain and `rangeStep_steady` one against a node that is up; the loop goes on
  exactly from blocks without the extrinsic below the end (`IsFirst.later`).
-/
import AvailRust.Submission.NonceSearch
import AvailRust.Submission.Reorg
import AvailRust.Subscription.Forward

namespace AvailRust

open Scale Dialogue FinalizedChain

namespace FinalizedChain

/-- The node shows the chain, and lists the extrinsics of its blocks by height too. -/
structure ListedBy (c : FinalizedChain) (g : Nat) (v : View) : Prop where
  served : c.ServedBy g v
  byNumber : ∀ n ≤ g, ∀ opts,
    v (.fetchExtrinsics (.number n) opts) = .ok (c.extrinsics (c.hashAt n) opts)

theorem viewAt_listed (c : FinalizedChain) (g : Nat) : c.ListedBy g (c.viewAt g) :=
  ⟨c.viewAt_served g, fun _ _ _ => rfl⟩

theorem listed_showsChain (c : FinalizedChain) : ShowsChain c.ListedBy c.hashAt :=
  fun _ _ hv => hv.served.heads

variable {c : FinalizedChain} {client : Client} {f top n : Nat}

/-- What is listed for a finalized height is what the chain has there. -/
theorem listedInfos_yields (hn : n ≤ f) (opts : ExtrinsicOpts) :
    Yields c.ListedBy f top ((Block.new client (.number n)).extrinsicInfos opts)
      (fun _ x => x = c.extrinsics (c.hashAt n) opts) := by
  refine Yields.finish (Yields.withRetryOnError (.fetchExtrinsics (.number n) opts) _)
    (fun e => ⟨_, rfl⟩) ?_
  rintro g x hg ⟨v, hv, hx⟩
  rw [hv.byNumber n (hn.trans hg)] at hx
  cases hx
  exact ⟨_, rfl, rfl⟩

theorem listedInfos_steady {g : Nat} {v : View} (hv : c.ListedBy g v) (hn : n ≤ g)
    (opts : ExtrinsicOpts) :
    Steady (.answer v) ((Block.new client (.number n)).extrinsicInfos opts)
      (.ok (c.extrinsics (c.hashAt n) opts)) := by
  refine (withRetryOnError_steady (call_steady (.answer v)
    (.fetchExtrinsics (.number n) opts)) _).bind ?_
  simp only [Event.response, hv.byNumber n hn]
  exact .pure _ _

end FinalizedChain

namespace TransactionReceipt

open Utils

variable {c : FinalizedChain} {l : Ledger} {client : Client} {txHash : H256}
  {blockStart blockEnd f top n : Nat}

theorem receiptAt_isSome (client : Client) :
    (receiptAt c client txHash n).isSome ↔ c.Holds txHash n := by
  unfold receiptAt ofFirst Holds
  cases c.extrinsics (c.hashAt n) (.byHash txHash) <;> simp

theorem receiptAt_eq_none : receiptAt c client txHash n = none ↔ ¬ c.Holds txHash n := by
  rw [← receiptAt_isSome client, Option.not_isSome_iff_eq_none]

/-- What a pass over a block does when no request fails. -/
def passed (c : FinalizedChain) (client : Client) (txHash : H256) (blockEnd n : Nat) (sub : Sub) :
    Sub ⊕ Except Error (Option TransactionReceipt) :=
  match receiptAt c client txHash n with
  | some receipt => .inr (.ok (some receipt))
  | none => if n ≥ blockEnd then .inr (.ok none) else .inl sub

theorem passed_holds (hholds : c.Holds txHash n) (sub : Sub) :
    passed c client txHash blockEnd n sub = .inr (.ok (receiptAt c client txHash n)) := by
  obtain ⟨receipt, hsome⟩ := Option.isSome_iff_exists.mp ((receiptAt_isSome client).mpr hholds)
  unfold passed
  rw [hsome]

theorem passed_end (hholds : ¬ c.Holds txHash n) (hend : blockEnd ≤ n) (sub : Sub) :
    passed c client txHash blockEnd n sub = .inr (.ok none) := by
  unfold passed
  rw [receiptAt_eq_none.mpr hholds]
  exact if_pos hend

theorem passed_on (hholds : ¬ c.Holds txHash n) (hlt : n < blockEnd) (sub : Sub) :
    passed c client txHash blockEnd n sub = .inl sub := by
  unfold passed
  rw [receiptAt_eq_none.mpr hholds]
  exact if_neg (Nat.not_le.mpr hlt)

/-! ## Every behaviour of the node -/

/-- One pass on a growing chain: a request fails, or the block at the cursor is searched. -/
theorem rangeStep_fed {s : Sub} {w w' : RpcWorld}
    {r : Sub ⊕ Except Error (Option TransactionReceipt)} (hs : s.At f n)
    (hw : AvailRust.Feed c.ListedBy f w.script top)
    (h : rangeStep client txHash blockEnd s w = some (r, w')) :
    (∃ e, r = .inr (.error e) ∧ lastFailed w' = true) ∨
    ∃ g sub, f ≤ g ∧ AvailRust.Feed c.ListedBy g w'.script top ∧ sub.At g (u32Add n 1) ∧
      r = passed c client txHash blockEnd n sub := by
  obtain ⟨⟨x, sub⟩, w1, hnext, h⟩ := bind_eq_some.mp h
  obtain ⟨g1, hg1, hw1, hlast, ⟨⟨e, rfl⟩, -⟩ | ⟨hx, hn, hat, -⟩⟩ :=
    Sub.run_fed_wrap c.listed_showsChain hs hw hnext
  · obtain ⟨rfl, rfl⟩ := pure_eq_some.mp h
    exact .inl ⟨_, rfl, hlast⟩
  · replace hx : x = .ok (c.infoAt n) := hx
    replace hn : n ≤ g1 := hn
    subst hx
    obtain ⟨y, w2, hext, h⟩ := bind_eq_some.mp h
    obtain ⟨g2, hg2, hw2, hlast2, hgood⟩ := listedInfos_yields hn _ w1 y w2 hw1 hext
    cases y with
    | error e =>
      obtain ⟨rfl, rfl⟩ := pure_eq_some.mp h
      exact .inl ⟨_, rfl, hlast2⟩
    | ok infos =>
      obtain rfl := hgood infos rfl
      refine .inr ⟨g2, sub, hg1.trans hg2, ?_⟩
      have hat' : sub.At g2 (u32Add n 1) := hat.mono hg2
      unfold passed
      cases hfirst : receiptAt c client txHash n with
      | some receipt =>
        unfold receiptAt at hfirst
        simp only [hfirst] at h
        obtain ⟨rfl, rfl⟩ := pure_eq_some.mp h
        exact ⟨hw2, hat', rfl⟩
      | none =>
        unfold receiptAt at hfirst
        simp only [hfirst] at h ⊢
        split at h
        case isTrue hend =>
          obtain ⟨rfl, rfl⟩ := pure_eq_some.mp h
          exact ⟨hw2, hat', (if_pos hend).symm⟩
        case isFalse hend =>
          obtain ⟨rfl, rfl⟩ := pure_eq_some.mp h
          exact ⟨hw2, hat', (if_neg hend).symm⟩

/-- From a feed the search gives the receipt of the first block of the range that holds the
    extrinsic, unless its last request fails. -/
theorem loop_fed {s : Sub} {b : Nat} {m : Option Nat} {w w' : RpcWorld}
    {r : Except Error (Option TransactionReceipt)} (hend : blockEnd ≤ u32Max) (hs : s.At f b)
    (hb : b ≤ blockEnd) (hm : IsFirst (c.Holds txHash) b blockEnd m)
    (hw : AvailRust.Feed c.ListedBy f w.script top)
    (h : loop (rangeStep client txHash blockEnd) s w = some (r, w')) :
    r = .ok (m.bind (receiptAt c client txHash)) ∨ (∃ e, r = .error e) ∧ lastFailed w' = true := by
  refine loop_rule
    (fun s w => ∃ g n, AvailRust.Feed c.ListedBy g w.script top ∧ s.At g n ∧ n ≤ blockEnd ∧
      IsFirst (c.Holds txHash) n blockEnd m)
    (fun r w' => r = .ok (m.bind (receiptAt c client txHash)) ∨
      (∃ e, r = .error e) ∧ lastFailed w' = true)
    ?_ ?_ ⟨f, b, hw, hs, hb, hm⟩ h
  · rintro s w s' w' ⟨g, n, hw, hs, hn, hm⟩ h
    obtain ⟨e, h1, -⟩ | ⟨g', sub, -, hw', hat, h1⟩ := rangeStep_fed hs hw h
    · cases h1
    by_cases hholds : c.Holds txHash n
    · rw [passed_holds hholds] at h1
      cases h1
    · by_cases hlt : n < blockEnd
      · rw [passed_on hholds hlt] at h1
        cases h1
        have hadd : u32Add n 1 = n + 1 := u32Add_of_lt (by unfold u32Max at hend; omega)
        rw [hadd] at hat
        exact ⟨g', n + 1, hw', hat, hlt, hm.later hholds⟩
      · rw [passed_end hholds (Nat.not_lt.mp hlt)] at h1
        cases h1
  · rintro s w r w' ⟨g, n, hw, hs, hn, hm⟩ h
    obtain ⟨e, h1, hlast⟩ | ⟨g', sub, -, hw', hat, h1⟩ := rangeStep_fed hs hw h
    · cases h1
      exact .inr ⟨⟨e, rfl⟩, hlast⟩
    by_cases hholds : c.Holds txHash n
    · rw [passed_holds hholds] at h1
      cases h1
      obtain rfl := hm.here hholds hn
      exact .inl rfl
    · by_cases hlt : n < blockEnd
      · rw [passed_on hholds hlt] at h1
        cases h1
      · rw [passed_end hholds (Nat.not_lt.mp hlt)] at h1
        cases h1
        obtain rfl := (hm.later hholds).over (by omega)
        exact .inl rfl

/-! ## A node that is up -/

theorem rangeStep_steady {g : Nat} {v : View} {s s' : Sub} (client : Client) (txHash : H256)
    (blockEnd : Nat) (hv : c.ListedBy g v) (hn : n ≤ g)
    (hs : Steady (.answer v) (s.run .next) (.ok (c.infoAt n), s')) :
    Steady (.answer v) (rangeStep client txHash blockEnd s)
      (passed c client txHash blockEnd n s') := by
  refine hs.bind ((listedInfos_steady hv hn (.byHash txHash)).bind ?_)
  unfold passed
  cases hfirst : receiptAt c client txHash n with
  | some receipt =>
    unfold receiptAt at hfirst
    simp only [hfirst]
    exact .pure _ _
  | none =>
    unfold receiptAt at hfirst
    simp only [hfirst]
    by_cases hend : (c.infoAt n).height ≥ blockEnd
    · rw [if_pos hend, if_pos (show n ≥ blockEnd from hend)]
      exact .pure _ _
    · rw [if_neg hend, if_neg (show ¬ n ≥ blockEnd from hend)]
      exact .pure _ _

/-- The search against a node that has all blocks of the range. -/
theorem loop_steady {g : Nat} {v : View} {s : Sub} {m : Option Nat} (hv : c.ListedBy g v)
    (hend : blockEnd ≤ u32Max) (hg : blockEnd ≤ g) (hf : f ≤ g) (hs : s.At f n) (hn : n ≤ blockEnd)
    (hm : IsFirst (c.Holds txHash) n blockEnd m) :
    Steady (.answer v) (loop (rangeStep client txHash blockEnd) s)
      (.ok (m.bind (receiptAt c client txHash))) := by
  -- by induction on the number of blocks that are left
  obtain ⟨d, hd⟩ : ∃ d, d = blockEnd - n := ⟨_, rfl⟩
  induction d generalizing n f s with
  | zero =>
    obtain rfl : n = blockEnd := by omega
    obtain ⟨s', hrun, -⟩ := Sub.run_next_steady_wrap hs hf hv.served hg
    have hpass := rangeStep_steady client txHash n hv hg hrun
    apply Steady.loop_exit
    by_cases hholds : c.Holds txHash n
    · rw [passed_holds hholds] at hpass
      obtain rfl := hm.here hholds le_rfl
      exact hpass
    · rw [passed_end hholds le_rfl] at hpass
      obtain rfl := (hm.later hholds).over (Nat.lt_succ_self n)
      exact hpass
  | succ d ih =>
    obtain ⟨s', hrun, hat⟩ := Sub.run_next_steady_wrap hs hf hv.served (hn.trans hg)
    have hpass := rangeStep_steady client txHash blockEnd hv (hn.trans hg) hrun
    by_cases hholds : c.Holds txHash n
    · rw [passed_holds hholds] at hpass
      obtain rfl := hm.here hholds hn
      exact Steady.loop_exit hpass
    · have hadd : u32Add n 1 = n + 1 := u32Add_of_lt (by unfold u32Max at hend; omega)
      rw [passed_on hholds (by omega)] at hpass
      rw [hadd] at hat
      exact Steady.loop_step (rangeStep_productive client txHash blockEnd) hpass
        (ih le_rfl hat (by omega) (hm.later hholds) (by omega))

/-! ## The whole search -/

/-- Where the ledger holds the extrinsic first in the range, or that it does not. -/
def Located (c : FinalizedChain) (l : Ledger) (client : Client) (txHash : H256)
    (blockStart blockEnd : Nat) : Option TransactionReceipt → Prop
  | none => ∀ n, blockStart ≤ n → n ≤ blockEnd → ¬ l.Includes n txHash
  | some receipt => ∃ n i, (blockStart ≤ n ∧ n ≤ blockEnd) ∧ l.HoldsAt n i txHash ∧
      (∀ j, blockStart ≤ j → j < n → ¬ l.Includes j txHash) ∧
      receipt = ⟨client, c.hashAt n, n, txHash, i⟩

theorem located_of_isFirst {m : Option Nat}
    (hlists : ∀ n, blockStart ≤ n → n ≤ blockEnd → c.Lists l n txHash)
    (hm : IsFirst (c.Holds txHash) blockStart blockEnd m) :
    Located c l client txHash blockStart blockEnd (m.bind (receiptAt c client txHash)) := by
  cases m with
  | none => exact fun n hb he hincludes => hm n hb he ((holds_iff (hlists n hb he)).mpr hincludes)
  | some n =>
    obtain ⟨⟨hb, he⟩, hholds, hbefore⟩ := hm
    have hbefore' : ∀ j, blockStart ≤ j → j < n → ¬ l.Includes j txHash := by
      intro j hj hlt hincludes
      exact hbefore j hj hlt ((holds_iff (hlists j hj (by omega))).mpr hincludes)
    rw [Option.bind_some, receiptAt_eq client (hlists n hb he)]
    cases hp : (l.positions n txHash).head? with
    | none =>
      have hincludes := (holds_iff (hlists n hb he)).mp hholds
      exact absurd (List.head?_eq_none_iff.mp hp) (Ledger.includes_iff.mp hincludes)
    | some i =>
      have hi := Ledger.mem_positions.mp (List.mem_of_head? hp)
      exact ⟨n, i, ⟨hb, he⟩, hi, hbefore', rfl⟩

theorem fromRange_eq {extHash : HashString} (hhash : extHash.toHash = .ok txHash)
    (hle : blockStart ≤ blockEnd) (useBestBlock : Bool) :
    fromRange client extHash blockStart blockEnd useBestBlock
      = loop (rangeStep client txHash blockEnd)
          (((Sub.new client).useBestBlock useBestBlock).setBlockHeight blockStart) := by
  unfold fromRange
  rw [if_neg (Nat.not_lt.mpr hle), hhash]

/-- The search of a range gives the first place in it where the extrinsic is, whatever the node
    plays while its chain grows, unless the last request fails; and it does give that against a
    node that has the range. A range that ends before it starts is refused. -/
theorem fromRange_exact (client : Client) {extHash : HashString} {txHash : H256}
    (hhash : extHash.toHash = .ok txHash) {c : FinalizedChain} {l : Ledger}
    {blockStart blockEnd : Nat} (hend : blockEnd ≤ u32Max)
    (hlists : ∀ n, blockStart ≤ n → n ≤ blockEnd → c.Lists l n txHash) :
    (blockStart ≤ blockEnd → ∃ found, Located c l client txHash blockStart blockEnd found ∧
      (∀ f script top r w', AvailRust.Feed c.ListedBy f script top →
        fromRange client extHash blockStart blockEnd false (start Request script) = some (r, w') →
        r = .ok found ∨ (∃ e, r = .error e) ∧ lastFailed w' = true) ∧
      ∀ g v, blockEnd ≤ g → c.ListedBy g v →
        Steady (.answer v) (fromRange client extHash blockStart blockEnd false) (.ok found)) ∧
    (blockEnd < blockStart → ∀ useBestBlock, ∃ e,
      fromRange client extHash blockStart blockEnd useBestBlock = pure (.error e)) := by
  constructor
  · intro hle
    obtain ⟨m, hm⟩ := exists_isFirst (c.Holds txHash) blockStart blockEnd
    rw [fromRange_eq hhash hle]
    have hnew : ∀ g, Sub.At g blockStart
        (((Sub.new client).useBestBlock false).setBlockHeight blockStart) := by
      intro g
      exact Sub.at_new (u := { UnInitSub.new client with
        blockHeight := some blockStart, useBestBlock := false }) rfl rfl
    refine ⟨m.bind (receiptAt c client txHash), located_of_isFirst hlists hm, ?_, ?_⟩
    · intro f script top r w' hfeed hrun
      exact loop_fed hend (hnew f) hle hm hfeed hrun
    · intro g v hg hv
      exact loop_steady hv hend hg le_rfl (hnew g) hle hm
  · intro hlt useBestBlock
    exact ⟨_, if_pos hlt⟩

/-- Alice's last transaction is in block 3, the second of the range. -/
theorem fromRange_exact_comeback : ∃ found,
    Located (ofLedger comeback) comeback Client.devnet (txHashOf 4) 2 5 found ∧
      Steady (.answer ((ofLedger comeback).viewAt 9))
        (fromRange Client.devnet (.hash (txHashOf 4)) 2 5 false) (.ok found) := by
  have hlists : ∀ n, 2 ≤ n → n ≤ 5 → (ofLedger comeback).Lists comeback n (txHashOf 4) := by
    intro n _ hn
    exact (ofLedger_executes comeback).extrinsics n (by unfold u32Max; omega) _
  obtain ⟨found, hlocated, -, hsteady⟩ :=
    (fromRange_exact Client.devnet (show (HashString.hash (txHashOf 4)).toHash = _ from rfl)
      (by decide) hlists).1 (by decide)
  exact ⟨found, hlocated, hsteady 9 _ (by decide) (viewAt_listed _ 9)⟩

end TransactionReceipt

end AvailRust
