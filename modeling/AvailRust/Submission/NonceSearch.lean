/-
  What the search by nonce finds on a chain that executes a ledger.

  `Finds` is the promise: whatever receipt or absence of one the search reports is right for
  the blocks it covers, and a node that is up and far enough makes it report. The search keeps
  it exactly when no covered block holds the extrinsic, or the first block that decides does
  (`finds_iff`). An account that is never removed in these blocks has such a block
  (`traceable_of_kept`); one that was removed and came back may not.
-/
import AvailRust.Submission.Ledger
import AvailRust.Submission.Window

namespace AvailRust

open Scale Dialogue FinalizedChain

/-- A search of the block at a height by hash lists where the ledger's block holds the hash. -/
def FinalizedChain.Lists (c : FinalizedChain) (l : Ledger) (n : Nat) (hash : H256) : Prop :=
  (c.extrinsics (c.hashAt n) (.byHash hash)).map (fun info => (info.extHash, info.extIndex))
    = (l.positions n hash).map (hash, ·)

/-- The chain executes the ledger: its accounts have the ledger's nonces and its blocks the
    ledger's extrinsics. -/
structure FinalizedChain.Executes (c : FinalizedChain) (l : Ledger) : Prop where
  nonce : ∀ n < u32Max, ∀ account, c.nonceAt account n = l.nonceAfter n account
  extrinsics : ∀ n < u32Max, ∀ hash, c.Lists l n hash

namespace Utils

variable {c : FinalizedChain} {l : Ledger} {client : Client} {txHash : H256} {nonce : U32}
  {account : AccountId} {mortality : RefinedMortality} {f g top : Nat}

/-! ## The whole query -/

/-- The receipt for the block the search has found. -/
def receiptAt (c : FinalizedChain) (client : Client) (txHash : H256) (n : Nat) :
    Option TransactionReceipt :=
  TransactionReceipt.ofFirst client (c.infoAt n) (c.extrinsics (c.hashAt n) (.byHash txHash))

/-- The first height from the birth of the mortality on that decides, if there is one. -/
def Deciding (c : FinalizedChain) (txHash : H256) (nonce : U32) (account : AccountId)
    (mortality : RefinedMortality) : Option Nat → Prop :=
  IsFirst (c.Decides nonce txHash account) mortality.blockHeight
    (mortalityEndsHeight mortality + 1)

theorem traceHead_fed {w w' : RpcWorld} {r : Except RpcError Unit} (hw : c.Feed f w.script top)
    (h : traceHead client false w = some (r, w')) : ∃ g, f ≤ g ∧ c.Feed g w'.script top := by
  unfold traceHead at h
  split at h
  · obtain ⟨x, w1, hx, h⟩ := bind_eq_some.mp h
    obtain ⟨g, hg, hw1, -⟩ := blockInfo_yields c.showsChain client.finalized.chain w x w1 hw hx
    cases x with
    | error e =>
      obtain ⟨-, rfl⟩ := pure_eq_some.mp h
      exact ⟨g, hg, hw1⟩
    | ok info =>
      obtain ⟨-, rfl⟩ := pure_eq_some.mp h
      exact ⟨g, hg, hw1⟩
  · obtain ⟨-, rfl⟩ := pure_eq_some.mp h
    exact ⟨f, le_rfl, hw⟩

/-- From a feed the query returns the receipt for the first block that decides. -/
theorem transactionReceipt_fed {w w' : RpcWorld} {r : Option TransactionReceipt}
    (hb : mortality.blockHeight ≤ mortalityEndsHeight mortality) (hw : c.Feed f w.script top)
    (htop : top < u32Max)
    (h : transactionReceipt client txHash nonce account mortality false w = some (.ok r, w')) :
    ∃ m, Deciding c txHash nonce account mortality m ∧
      m.getD (mortalityEndsHeight mortality + 1) ≤ top ∧
      r = m.bind (receiptAt c client txHash) := by
  obtain ⟨x, w1, hfind, h⟩ := bind_eq_some.mp h
  obtain ⟨y, w2, htrace, hloop⟩ := bind_eq_some.mp hfind
  obtain ⟨g1, hg1, hw2⟩ := traceHead_fed hw htrace
  cases y with
  | error e =>
    obtain ⟨rfl, -⟩ := pure_eq_some.mp hloop
    obtain ⟨h1, -⟩ := pure_eq_some.mp h
    cases h1
  | ok _ =>
    cases x with
    | error e =>
      obtain ⟨h1, -⟩ := pure_eq_some.mp h
      cases h1
    | ok found =>
      obtain ⟨g2, m, hg2, hw1, rfl, hreach, hm⟩ := search_yields
        (Sub.at_new (u := { UnInitSub.new client with
          blockHeight := some mortality.blockHeight, useBestBlock := false }) rfl rfl)
        hb hw2 htop hloop
      refine ⟨m, hm, hreach.trans hw1.le, ?_⟩
      cases m with
      | none =>
        obtain ⟨h1, -⟩ := pure_eq_some.mp h
        cases h1
        rfl
      | some n =>
        obtain ⟨z, w3, hext, h⟩ := bind_eq_some.mp h
        obtain ⟨g3, -, -, -, hgood⟩ := systemFetchExtrinsics_yields _ hreach _ w1 z w3 hw1 hext
        cases z with
        | error e =>
          obtain ⟨h1, -⟩ := pure_eq_some.mp h
          cases h1
        | ok infos =>
          obtain rfl := hgood infos rfl
          obtain ⟨h1, -⟩ := pure_eq_some.mp h
          cases h1
          rfl

/-- A node that is up, and has finalized the block that decides, makes the query return. -/
theorem transactionReceipt_steady (client : Client) {v : View} {m : Option Nat}
    (hv : c.ServedBy g v) (hg : g < u32Max)
    (hb : mortality.blockHeight ≤ mortalityEndsHeight mortality)
    (hm : Deciding c txHash nonce account mortality m)
    (hreach : m.getD (mortalityEndsHeight mortality + 1) ≤ g) :
    Steady (.answer v) (transactionReceipt client txHash nonce account mortality false)
      (.ok (m.bind (receiptAt c client txHash))) := by
  have hfind : Steady (.answer v) (findCorrectBlockInfo client nonce txHash account mortality false)
      (.ok (m.map c.infoAt)) := by
    refine (traceHead_steady client hv.heads.finalizedHead).bind ?_
    refine search_steady (Sub.At g) hv ?_ ⟨rfl, rfl⟩ hb (by omega) hm hreach
    intro n s hn hs
    exact Sub.run_next_steady hs le_rfl hg hv hn
  refine hfind.bind ?_
  cases m with
  | none => exact .pure _ _
  | some n => exact (systemFetchExtrinsics_steady hv _ hreach _).bind (.pure _ _)

/-! ## The promise -/

/-- The heights the search may inspect. -/
def InWindow (mortality : RefinedMortality) (n : Nat) : Prop :=
  mortality.blockHeight ≤ n ∧ n ≤ mortalityEndsHeight mortality + 1 ∧ n < u32Max

instance (mortality : RefinedMortality) (n : Nat) : Decidable (InWindow mortality n) :=
  inferInstanceAs (Decidable (_ ∧ _))

/-- What the query may say: where a block of the window holds the extrinsic, or that none does. -/
def Right (c : FinalizedChain) (l : Ledger) (client : Client) (txHash : H256)
    (mortality : RefinedMortality) : Option TransactionReceipt → Prop
  | none => ∀ n, InWindow mortality n → ¬ l.Includes n txHash
  | some receipt => ∃ n i, InWindow mortality n ∧ l.HoldsAt n i txHash ∧
      receipt = ⟨client, c.hashAt n, n, txHash, i⟩

/-- Whatever the query returns is right, and a node that is up and far enough makes it return. -/
def Finds (c : FinalizedChain) (l : Ledger) (client : Client) (txHash : H256) (nonce : U32)
    (account : AccountId) (mortality : RefinedMortality) : Prop :=
  (∀ script top r w', c.Feed 0 script top → top < u32Max →
    transactionReceipt client txHash nonce account mortality false (start Request script)
      = some (.ok r, w') → Right c l client txHash mortality r) ∧
  ∃ g0 < u32Max, ∀ g v, g0 ≤ g → g < u32Max → c.ServedBy g v → ∃ k r w',
    transactionReceipt client txHash nonce account mortality false
      (start Request (List.replicate k (.answer v))) = some (.ok r, w')

/-- The account's nonce after a block shows that the search need not go on: it is past the
    transaction's, or 0 where the block holds the transaction. -/
def Stops (l : Ledger) (txHash : H256) (nonce : U32) (account : AccountId) (n : Nat) : Prop :=
  nonce < l.nonceAfter n account ∨ l.nonceAfter n account = 0 ∧ l.Includes n txHash

/-- A block of the window holds the extrinsic, and the search does not stop before it. -/
def Traceable (l : Ledger) (txHash : H256) (nonce : U32) (account : AccountId)
    (mortality : RefinedMortality) : Prop :=
  ∃ n, InWindow mortality n ∧ l.Includes n txHash ∧ Stops l txHash nonce account n ∧
    ∀ j, mortality.blockHeight ≤ j → j < n → ¬ Stops l txHash nonce account j

/-- No block of the window holds the extrinsic, and the search comes to an end. -/
def Absent (l : Ledger) (txHash : H256) (nonce : U32) (account : AccountId)
    (mortality : RefinedMortality) : Prop :=
  (∀ n, InWindow mortality n → ¬ l.Includes n txHash) ∧
    (mortalityEndsHeight mortality + 1 < u32Max ∨
      ∃ n, InWindow mortality n ∧ Stops l txHash nonce account n)

/-! ## When it is kept -/

theorem holds_iff {n : Nat} (hlists : c.Lists l n txHash) :
    c.Holds txHash n ↔ l.Includes n txHash := by
  unfold FinalizedChain.Lists at hlists
  rw [Holds, Ledger.includes_iff, not_iff_not, ← List.map_eq_nil_iff, hlists, List.map_eq_nil_iff]

/-- A block of the window decides where the ledger says so. -/
theorem decides_iff (hc : c.Executes l) {n : Nat} (hn : n < u32Max) :
    c.Decides nonce txHash account n ↔ Stops l txHash nonce account n := by
  rw [Decides, Stops, hc.nonce n hn, holds_iff (hc.extrinsics n hn txHash)]

/-- The receipt for a block is the first of the places where the block holds the extrinsic. -/
theorem receiptAt_eq (client : Client) {n : Nat} (hlists : c.Lists l n txHash) :
    receiptAt c client txHash n = (l.positions n txHash).head?.map
      fun i => ⟨client, c.hashAt n, n, txHash, i⟩ := by
  have hinfos := congrArg List.head? hlists
  rw [List.head?_map, List.head?_map] at hinfos
  unfold receiptAt TransactionReceipt.ofFirst
  cases hx : (c.extrinsics (c.hashAt n) (.byHash txHash)).head? with
  | none =>
    rw [hx] at hinfos
    rw [Option.map_eq_none_iff.mp hinfos.symm]
    rfl
  | some info =>
    rw [hx] at hinfos
    obtain ⟨i, hi, heq⟩ := Option.map_eq_some_iff.mp hinfos.symm
    injection heq with hhash hindex
    rw [hi, hindex, hhash]
    rfl

theorem receiptAt_right (hc : c.Executes l) {n : Nat} (hn : InWindow mortality n)
    (hholds : l.Includes n txHash) :
    Right c l client txHash mortality (receiptAt c client txHash n) := by
  rw [receiptAt_eq client (hc.extrinsics n hn.2.2 txHash)]
  cases hp : (l.positions n txHash).head? with
  | none => exact absurd (List.head?_eq_none_iff.mp hp) (Ledger.includes_iff.mp hholds)
  | some i => exact ⟨n, i, hn, Ledger.mem_positions.mp (List.mem_of_head? hp), rfl⟩

theorem receiptAt_none (hc : c.Executes l) {n : Nat} (hn : n < u32Max)
    (hholds : ¬ l.Includes n txHash) : receiptAt c client txHash n = none := by
  rw [receiptAt_eq client (hc.extrinsics n hn txHash),
    not_not.mp (mt Ledger.includes_iff.mpr hholds)]
  rfl

/-- The first block that decides, when the extrinsic can be traced. -/
theorem deciding_of_traceable (hc : c.Executes l) {n : Nat} (hn : InWindow mortality n)
    (hstops : Stops l txHash nonce account n)
    (hfirst : ∀ j, mortality.blockHeight ≤ j → j < n → ¬ Stops l txHash nonce account j) :
    Deciding c txHash nonce account mortality (some n) := by
  obtain ⟨hbn, hne, hmax⟩ := hn
  refine ⟨⟨hbn, hne⟩, (decides_iff hc hmax).mpr hstops, fun j hj hjn => ?_⟩
  rw [decides_iff hc (hjn.trans hmax)]
  exact hfirst j hj hjn

/-- The search is over at the first block that decides or past the window, before the heights of
    a `u32` run out. -/
theorem search_ends (hc : c.Executes l)
    (hcond : Traceable l txHash nonce account mortality ∨ Absent l txHash nonce account mortality)
    {m : Option Nat} (hm : Deciding c txHash nonce account mortality m) :
    m.getD (mortalityEndsHeight mortality + 1) < u32Max := by
  have hover : ∀ n, InWindow mortality n → Stops l txHash nonce account n →
      m.getD (mortalityEndsHeight mortality + 1) < u32Max := by
    intro n hn hstops
    have hdec := (decides_iff hc hn.2.2).mpr hstops
    cases m with
    | none => exact absurd hdec (hm n hn.1 hn.2.1)
    | some k =>
      refine lt_of_le_of_lt (Nat.not_lt.mp fun hlt => ?_) hn.2.2
      exact hm.2.2 n hn.1 hlt hdec
  rcases hcond with ⟨n, hn, -, hstops, -⟩ | ⟨-, hlt | ⟨n, hn, hstops⟩⟩
  · exact hover n hn hstops
  · cases m with
    | none => exact hlt
    | some k => exact lt_of_le_of_lt hm.1.2 hlt
  · exact hover n hn hstops

/-- The search by nonce keeps its promise exactly when the extrinsic is in no block of the
    window, or in the first one where the search stops. -/
theorem finds_iff (hc : c.Executes l) (hb : mortality.blockHeight < 2 ^ 32) :
    Finds c l client txHash nonce account mortality ↔
      Traceable l txHash nonce account mortality ∨ Absent l txHash nonce account mortality := by
  have hends : mortality.blockHeight ≤ mortalityEndsHeight mortality := by
    unfold mortalityEndsHeight u32SaturatingAdd u32Max
    omega
  constructor
  · rintro ⟨hright, g0, hg0, hreturns⟩
    obtain ⟨k, r, w', hrun⟩ :=
      hreturns g0 (c.viewAt g0) le_rfl hg0 (c.viewAt_served g0)
    obtain ⟨top, htop, hfeed⟩ := Feed.replicate (c.viewAt_served g0) (Nat.zero_le g0) k
    replace htop := lt_of_le_of_lt htop hg0
    replace hright := hright _ top r w' hfeed htop hrun
    obtain ⟨m, hm, hreach, rfl⟩ := transactionReceipt_fed hends hfeed htop hrun
    cases m with
    | none => exact .inr ⟨hright, .inl (lt_of_le_of_lt hreach htop)⟩
    | some n =>
      obtain ⟨⟨hbn, hne⟩, hdec, hfirst⟩ := hm
      have hn : InWindow mortality n := ⟨hbn, hne, lt_of_le_of_lt hreach htop⟩
      have hstops := (decides_iff hc hn.2.2).mp hdec
      by_cases hholds : l.Includes n txHash
      · refine .inl ⟨n, hn, hholds, hstops, fun j hj hjn => ?_⟩
        rw [← decides_iff hc (hjn.trans hn.2.2)]
        exact hfirst j hj hjn
      · simp only [Option.bind_some, receiptAt_none hc hn.2.2 hholds] at hright
        exact .inr ⟨hright, .inr ⟨n, hn, hstops⟩⟩
  · intro hcond
    constructor
    · intro script top r w' hfeed htop hrun
      obtain ⟨m, hm, hreach, rfl⟩ := transactionReceipt_fed hends hfeed htop hrun
      rcases hcond with ⟨n, hn, hholds, hstops, hfirst⟩ | ⟨hnone, -⟩
      · obtain rfl := hm.unique (deciding_of_traceable hc hn hstops hfirst)
        exact receiptAt_right hc hn hholds
      · cases m with
        | none => exact hnone
        | some n =>
          have hn : InWindow mortality n := ⟨hm.1.1, hm.1.2, lt_of_le_of_lt hreach htop⟩
          simp only [Option.bind_some, receiptAt_none hc hn.2.2 (hnone n hn)]
          exact hnone
    · obtain ⟨m, hm⟩ := exists_isFirst (c.Decides nonce txHash account) mortality.blockHeight
        (mortalityEndsHeight mortality + 1)
      refine ⟨_, search_ends hc hcond hm, fun g v hg0 hg hv => ?_⟩
      obtain ⟨k, w', hrun, -⟩ := (transactionReceipt_steady client hv hg hends hm hg0).run
      exact ⟨k, _, w', hrun⟩

/-! ## An account that is removed and comes back -/

/-- A chain that executes the ledger and shows nothing else of it. -/
def ofLedger (l : Ledger) : FinalizedChain :=
  { FinalizedChain.bare heightHash with
    extrinsics := fun hash opts =>
      match opts.transactionFilter with
      | .txHash [txHash] => (l.positions (leValue hash.bytes) txHash).map fun i =>
          ⟨none, txHash, i, 0, 0, none⟩
      | _ => []
    account := fun hash account =>
      some { (default : AccountInfo) with nonce := l.nonceAfter (leValue hash.bytes) account } }

theorem ofLedger_executes (l : Ledger) : (ofLedger l).Executes l where
  nonce n hn account := by
    show l.nonceAfter (leValue (heightHash n).bytes) account = _
    rw [leValue_heightHash (hn.trans (by decide))]
  extrinsics n hn hash := by
    show List.map _ ((l.positions (leValue (heightHash n).bytes) hash).map _) = _
    rw [leValue_heightHash (hn.trans (by decide)), List.map_map]
    rfl

def alice : AccountId := FixedBytes.fill 32 1
def bob : AccountId := FixedBytes.fill 32 2

/-- The hash of the `n`-th transaction. -/
def txHashOf (n : UInt8) : H256 := FixedBytes.fill 32 n

/-- Alice signs one transaction and gives everything away in a second one. Bob endows her account
    again, and she signs once more, with nonce 0. -/
def comeback : Ledger where
  blocks
    | 1 => [⟨txHashOf 1, some (alice, 0), []⟩]
    | 2 => [⟨txHashOf 2, some (alice, 1), [alice]⟩]
    | 3 => [⟨txHashOf 3, some (bob, 0), []⟩, ⟨txHashOf 4, some (alice, 0), []⟩]
    | _ => []

theorem validBlock_nil (nonces : AccountId → U32) : ValidBlock [] nonces := by
  intro i x hx
  cases hx

theorem validBlock_cons {x : Executed} {xs : List Executed} {nonces : AccountId → U32}
    (hx : x.Valid nonces) (hxs : ValidBlock xs (x.execute nonces)) :
    ValidBlock (x :: xs) nonces := by
  intro i y hy
  cases i with
  | zero =>
    cases hy
    exact hx
  | succ i => exact hxs i y hy

theorem comeback_valid : comeback.Valid := by
  intro n
  match n with
  | 0 => exact validBlock_nil _
  | 1 => exact validBlock_cons (by rintro p ⟨⟩; decide +kernel) (validBlock_nil _)
  | 2 => exact validBlock_cons (by rintro p ⟨⟩; decide +kernel) (validBlock_nil _)
  | 3 =>
    exact validBlock_cons (by rintro p ⟨⟩; decide +kernel)
      (validBlock_cons (by rintro p ⟨⟩; decide +kernel) (validBlock_nil _))
  | n + 4 => exact validBlock_nil _

/-- The transaction in block 3 is not found: after block 1 Alice's nonce was past 0 already. -/
theorem finds_not_comeback : comeback.Valid ∧ (ofLedger comeback).Executes comeback ∧
    (InWindow ⟨32, heightHash 1, 1⟩ 3 ∧ comeback.HoldsAt 3 1 (txHashOf 4)) ∧
    ∃ w', (ofLedger comeback).Feed 0
        (List.replicate 5 (.answer ((ofLedger comeback).viewAt 40))) 40 ∧
      transactionReceipt Client.devnet (txHashOf 4) 0 alice ⟨32, heightHash 1, 1⟩ false
        (start Request (List.replicate 5 (.answer ((ofLedger comeback).viewAt 40))))
        = some (.ok none, w') := by
  refine ⟨comeback_valid, ofLedger_executes _, ⟨by decide +kernel, by decide +kernel⟩, ?_⟩
  have hv := (ofLedger comeback).viewAt_served 40
  have hnone : (transactionReceipt Client.devnet (txHashOf 4) 0 alice ⟨32, heightHash 1, 1⟩ false
      (start Request (List.replicate 5 (.answer ((ofLedger comeback).viewAt 40))))).map
        (fun p => p.1.toOption.map Option.isNone) = some (some true) := by
    decide +kernel
  obtain ⟨⟨r, w'⟩, hrun, hr⟩ := Option.map_eq_some_iff.mp hnone
  obtain rfl : r = .ok none := by
    rcases r with e | _ | receipt
    · cases hr
    · rfl
    · cases hr
  exact ⟨w', .answer (Nat.zero_le 40) hv (.answer le_rfl hv (.answer le_rfl hv (.answer le_rfl hv
    (.answer le_rfl hv (.done 40))))), hrun⟩

/-- The transaction in block 1 is found. -/
theorem finds_iff_comeback :
    Finds (ofLedger comeback) comeback Client.devnet (txHashOf 1) 0 alice
      ⟨32, heightHash 1, 1⟩ := by
  refine (finds_iff (ofLedger_executes comeback) (by decide)).mpr (.inl ?_)
  exact ⟨1, by decide +kernel, ⟨0, by decide +kernel⟩, .inl (by decide +kernel), by
    intro j hj hlt
    exact absurd hj (Nat.not_le.mpr hlt)⟩

/-! ## Accounts that are not removed -/

/-- A transaction of an account that keeps existing in the window can be traced. -/
theorem traceable_of_kept {n i : Nat} {x : Executed} (hvalid : l.Valid)
    (hn : InWindow mortality n) (hx : (l.blocks n)[i]? = some x) (hhash : x.extHash = txHash)
    (hsigned : x.signed = some (account, nonce))
    (hkept : ∀ j, mortality.blockHeight ≤ j → j ≤ n → l.Keeps account j) :
    Traceable l txHash nonce account mortality := by
  obtain ⟨hbn, hne, hmax⟩ := hn
  obtain ⟨hbefore, hafter⟩ := Ledger.nonce_of_signed hvalid (hkept n hbn le_rfl) hx hsigned
  have hincludes : l.Includes n txHash := by
    refine ⟨i, ?_⟩
    rw [Ledger.HoldsAt, hx, ← hhash]
    rfl
  obtain ⟨m, hm⟩ := exists_isFirst (Stops l txHash nonce account) mortality.blockHeight n
  cases m with
  | none => exact absurd (.inl hafter) (hm n hbn le_rfl)
  | some k =>
    obtain ⟨⟨hbk, hkn⟩, hstops, hfirst⟩ := hm
    refine ⟨k, ⟨hbk, hkn.trans hne, lt_of_le_of_lt hkn hmax⟩, ?_, hstops, hfirst⟩
    rcases Nat.eq_or_lt_of_le hkn with rfl | hlt
    · exact hincludes
    · -- before its own block the nonce is not past the transaction's
      have hmono : (l.before (k + 1) account).val ≤ (l.before n account).val :=
        Ledger.before_mono (fun j hj hjn => hkept j hj (by omega)) (by omega) hlt
      rcases hstops with hpast | ⟨-, hholds⟩
      · rw [Fin.lt_def] at hpast
        rw [Fin.le_def] at hbefore
        unfold Ledger.nonceAfter at hpast
        omega
      · exact hholds

end Utils

end AvailRust
