/-
  The blocks the search reads before it reports that there is none.

  The runtime accepts a transaction in the blocks of its era: `effectivePeriod` of them, from
  the block the era starts at. The search goes by the period the transaction was given, which
  the era rounds up to a power of two. It reads one block more than the height it stops above,
  so it has read the whole era when the rounding adds at most two blocks (`covers_iff`).
-/
import AvailRust.Submission.Search
import AvailRust.Subscription.Forward

namespace AvailRust

open Scale Dialogue FinalizedChain

/-! ## What a cursor returns, whatever the node answers -/

namespace BestBlockSub

theorem serves_cases {s : BestBlockSub} {info : BlockInfo} (h : s.Serves info) :
    info.height = s.currentBlockHeight ∨
      s.blockProcessed ≠ [] ∧ info.height = u32Add s.currentBlockHeight 1 := by
  unfold Serves at h
  split at h
  case isTrue => exact .inl h
  case isFalse hne =>
    rcases h with ⟨hcur, -⟩ | hnext
    · exact .inl hcur
    · exact .inr ⟨hne, hnext⟩

theorem recorded_past (s : BestBlockSub) (info : BlockInfo) :
    (s.recorded info).currentBlockHeight = info.height ∧ (s.recorded info).blockProcessed ≠ [] := by
  unfold recorded
  split
  case isTrue h => exact ⟨h.symm, by simp⟩
  case isFalse => exact ⟨rfl, by simp⟩

end BestBlockSub

namespace Sub

/-- The heights the next block of a cursor may have. -/
def Due : Sub → Nat → Prop
  | .unInit u, n => ∀ b ∈ u.blockHeight, n = b
  | .bestBlock s, n => n = s.currentBlockHeight ∨
      s.blockProcessed ≠ [] ∧ n = u32Add s.currentBlockHeight 1
  | .finalizedBlock s, n => n = s.nextBlockHeight

/-- The last block the cursor returned had height `n`. -/
def Past (n : Nat) : Sub → Prop
  | .unInit _ => False
  | .bestBlock s => s.currentBlockHeight = n ∧ s.blockProcessed ≠ []
  | .finalizedBlock s => s.nextBlockHeight = u32Add n 1

theorem Past.due {s : Sub} {n m : Nat} (h : s.Past n) (hm : s.Due m) : m = n ∨ m = u32Add n 1 := by
  cases s with
  | unInit u => exact h.elim
  | bestBlock s =>
    obtain ⟨rfl, -⟩ := h
    exact hm.imp_right And.right
  | finalizedBlock s =>
    rw [← show s.nextBlockHeight = u32Add n 1 from h]
    exact .inr hm

theorem runConcrete_due {s s' : Sub} {w w' : RpcWorld} {info : BlockInfo}
    (h : s.runConcrete .next w = some ((.ok info, s'), w')) :
    s.Due info.height ∧ s'.Past info.height ∧ LastNames w' info := by
  cases s with
  | unInit u => cases h
  | bestBlock s =>
    obtain ⟨⟨x, s1⟩, w1, hnext, h⟩ := bind_eq_some.mp h
    obtain ⟨rfl, rfl, rfl⟩ := pure_pair_eq_some.mp h
    obtain ⟨e, -, he, -⟩ | ⟨info', latest, hinfo, hserves, rfl, hlast⟩ :=
      BestBlockSub.next_cases hnext
    · cases he
    · cases hinfo
      exact ⟨BestBlockSub.serves_cases hserves, BestBlockSub.recorded_past _ _, hlast⟩
  | finalizedBlock s =>
    obtain ⟨⟨x, s1⟩, w1, hnext, h⟩ := bind_eq_some.mp h
    obtain ⟨rfl, rfl, rfl⟩ := pure_pair_eq_some.mp h
    obtain ⟨e, -, he, -⟩ | ⟨hash, latest, hinfo, rfl, hlast⟩ := FinalizedBlockSub.next_cases hnext
    · cases he
    · cases hinfo
      exact ⟨rfl, rfl, hlast⟩

/-- A cursor that returns a block returns one that is due, and is past it then. -/
theorem run_next_due {s s' : Sub} {w w' : RpcWorld} {info : BlockInfo}
    (h : s.run .next w = some ((.ok info, s'), w')) :
    s.Due info.height ∧ s'.Past info.height ∧ LastNames w' info := by
  cases s with
  | bestBlock s => exact runConcrete_due (s := .bestBlock s) h
  | finalizedBlock s => exact runConcrete_due (s := .finalizedBlock s) h
  | unInit u =>
    obtain ⟨⟨x, t⟩, w1, hmat, h⟩ := bind_eq_some.mp h
    cases x with
    | error e =>
      obtain ⟨h1, -⟩ := pure_eq_some.mp h
      cases h1
    | ok _ =>
      obtain ⟨hdue, hpast, hlast⟩ := runConcrete_due h
      refine ⟨?_, hpast, hlast⟩
      intro b hb
      have hmat' : (Sub.unInit u).materialize w = some ((.ok (), t), w1) := hmat
      simp only [materialize, UnInitSub.build, UnInitSub.startHeight, Option.mem_def.mp hb,
        pure_bind] at hmat'
      split at hmat'
      · obtain ⟨h1, -⟩ := pure_eq_some.mp hmat'
        cases h1
        rcases hdue with hn | ⟨hne, -⟩
        · exact hn
        · exact absurd rfl hne
      · obtain ⟨h1, -⟩ := pure_eq_some.mp hmat'
        cases h1
        exact hdue

end Sub

/-- The node gave a block at height `n`, and the account as it was after that block. -/
def Inspected (account : AccountId) (trace : List (Request × Event)) (n : Nat) : Prop :=
  ∃ hash, (∃ q ∈ trace, Names q ⟨hash, n⟩) ∧
    ∃ e x, (Request.systemAccount account hash, e) ∈ trace ∧
      e.response (.systemAccount account hash) = .ok x

theorem Inspected.mono {account : AccountId} {trace new : List (Request × Event)} {n : Nat}
    (h : Inspected account trace n) : Inspected account (new ++ trace) n := by
  obtain ⟨hash, ⟨q, hq, hnames⟩, e, x, hmem, hx⟩ := h
  exact ⟨hash, ⟨q, List.mem_append_right _ hq, hnames⟩, e, x, List.mem_append_right _ hmem, hx⟩

theorem Chain.blockNonce_read {chain : Chain} {account : AccountId} {hash : H256} {nonce : U32}
    {w w' : RpcWorld} (h : chain.blockNonce account (.hash hash) w = some (.ok nonce, w')) :
    ∃ e x, (Request.systemAccount account hash, e) ∈ w'.trace ∧
      e.response (.systemAccount account hash) = .ok x := by
  obtain ⟨y, w1, hinfo, h⟩ := bind_eq_some.mp h
  cases y with
  | error e =>
    obtain ⟨h1, -⟩ := pure_eq_some.mp h
    cases h1
  | ok info =>
    obtain ⟨-, rfl⟩ := pure_eq_some.mp h
    simp only [Chain.accountInfo, Chain.toHash, pure_bind] at hinfo
    obtain ⟨z, w2, hread, h⟩ := bind_eq_some.mp hinfo
    obtain ⟨e, rest, htrace, hresp⟩ := (withRetryOnError_asked hread).last_move
    cases z with
    | error e =>
      obtain ⟨h1, -⟩ := pure_eq_some.mp h
      cases h1
    | ok x =>
      obtain ⟨-, rfl⟩ := pure_eq_some.mp h
      exact ⟨e, x, by rw [htrace]; exact List.mem_cons_self, hresp⟩

namespace Utils

variable {client : Client} {nonce : U32} {txHash : H256} {account : AccountId} {ends b : Nat}

/-- A pass that goes on has inspected a block that was due. -/
theorem searchStep_inspects {s s' : Sub} {current current' : Nat} {w w' : RpcWorld}
    (h : searchStep client nonce txHash account ends (s, current) w
      = some (.inl (s', current'), w')) :
    current ≤ ends ∧ s.Due current' ∧ s'.Past current' ∧ Inspected account w'.trace current' := by
  obtain ⟨-, h1, -⟩ | ⟨e, h1⟩ | ⟨info, sub, w1, stateNonce, w2, hle, hnext, hnonce, hcases⟩ :=
    searchStep_cases h
  · cases h1
  · cases h1
  obtain ⟨hdue, hpast, q, rest, htrace, hnames⟩ := Sub.run_next_due hnext
  obtain ⟨new, hnew, -⟩ := Chain.blockNonce_logged _ _ _ w1 _ w2 hnonce
  have hq : q ∈ w2.trace := by rw [hnew, htrace]; simp
  have hinspected : Inspected account w2.trace info.height :=
    ⟨info.hash, ⟨q, hq, hnames⟩, Chain.blockNonce_read hnonce⟩
  obtain ⟨-, h1, -⟩ | ⟨-, -, h1, rfl⟩ | ⟨-, -, ext, hext, h1⟩ := hcases
  · cases h1
  · cases h1
    exact ⟨hle, hdue, hpast, hinspected⟩
  · obtain ⟨new', hnew', -⟩ := extrinsicInfos_logged _ _ w2 _ w' hext
    split at h1
    · cases h1
      exact ⟨hle, hdue, hpast, by rw [hnew']; exact hinspected.mono⟩
    · cases h1

/-- A pass only adds to what has been inspected. -/
theorem searchStep_logged (s : Sub × Nat) :
    Logged (searchStep client nonce txHash account ends s) := by
  by_cases hle : s.2 ≤ ends
  · exact (searchStep_consumes s hle).logged
  · unfold searchStep
    rw [if_neg hle]
    exact .pure _

/-- A search from height `b` that reports nothing has inspected every block up to the one above
    the last height. -/
theorem loop_inspects {s : Sub} {w w' : RpcWorld} (hs : ∀ n, s.Due n → n = b) (hb : b ≤ ends)
    (hends : ends ≤ u32Max)
    (h : loop (searchStep client nonce txHash account ends) (s, b) w = some (.ok none, w')) :
    ends < u32Max ∧ ∀ n, b ≤ n → n ≤ ends + 1 → Inspected account w'.trace n := by
  refine loop_rule
    (fun s w => s.2 < 2 ^ 32 ∧ (s.2 = b ∧ (∀ n, s.1.Due n → n = b) ∨
      s.1.Past s.2 ∧ (ends < u32Max → ∀ n, b ≤ n → n ≤ s.2 → Inspected account w.trace n)))
    (fun r w' => r = .ok none → ends < u32Max ∧ ∀ n, b ≤ n → n ≤ ends + 1 →
      Inspected account w'.trace n) ?_ ?_
    ⟨lt_of_le_of_lt (hb.trans hends) (by decide), .inl ⟨rfl, hs⟩⟩ h rfl
  · rintro ⟨s, current⟩ w ⟨s', current'⟩ w' ⟨hfits, hI⟩ h
    obtain ⟨hle, hdue, hpast, hinspected⟩ := searchStep_inspects h
    obtain ⟨new, hnew, -⟩ := searchStep_logged _ _ _ _ h
    rcases hI with ⟨rfl, hfresh⟩ | ⟨hat, hall⟩
    · obtain rfl := hfresh current' hdue
      refine ⟨hfits, .inr ⟨hpast, fun _ n hn hnc => ?_⟩⟩
      obtain rfl := le_antisymm hnc hn
      exact hinspected
    · have hnext : current' = current ∨ current' = u32Add current 1 := hat.due hdue
      have hlt : current' < 2 ^ 32 := by
        rcases hnext with rfl | rfl
        · exact hfits
        · exact Nat.mod_lt _ (by norm_num)
      refine ⟨hlt, .inr ⟨hpast, fun hmax n hn hnc => ?_⟩⟩
      have hup : current' ≤ current + 1 := by
        rcases hnext with rfl | rfl
        · exact Nat.le_succ _
        · exact Nat.mod_le _ _
      rcases Nat.lt_or_ge current n with hgt | hge
      · obtain rfl : n = current' := by
          simp only at hnc
          omega
        exact hinspected
      · rw [hnew]
        exact (hall hmax n hn hge).mono
  · rintro ⟨s, current⟩ w r w' ⟨hfits, hI⟩ h rfl
    obtain ⟨hgt, -, rfl⟩ | ⟨e, h1⟩ | ⟨info, sub, w1, stateNonce, w2, -, -, -, hcases⟩ :=
      searchStep_cases h
    · simp only at hgt hfits hI
      have hmax : ends < u32Max := by
        unfold u32Max at hends ⊢
        omega
      refine ⟨hmax, fun n hn hne => ?_⟩
      rcases hI with ⟨rfl, -⟩ | ⟨-, hall⟩
      · omega
      · exact hall hmax n hn (by omega)
    · cases h1
    · obtain ⟨-, h1, -⟩ | ⟨-, -, h1, -⟩ | ⟨-, -, ext, -, h1⟩ := hcases
      · cases h1
      · cases h1
      · split at h1 <;> cases h1

end Utils

/-! ## A node that has no more blocks than the search reads -/

namespace BestBlockSub

variable {v : View} {hashAt : Nat → H256} {g n : Nat} {s : BestBlockSub}

/-- The cursor next returns block `n`, at a height the node has finalized. -/
def Behind (g n : Nat) (s : BestBlockSub) : Prop :=
  (∀ l ∈ s.latestFinalizedHeight, l = g) ∧ s.currentBlockHeight < g ∧
    (if s.blockProcessed = [] then s.currentBlockHeight else u32Add s.currentBlockHeight 1) = n

/-- A node that is up serves a cursor behind its finalized head from the finalized blocks. -/
theorem next_steady_behind (hv : ShowsFinalized v hashAt g) (hs : s.Behind g n) (hn : n ≤ g) :
    Steady (.answer v) s.next (.ok ⟨hashAt n, n⟩,
      { s with latestFinalizedHeight := some g, blockProcessed := [hashAt n],
               currentBlockHeight := n }) := by
  obtain ⟨hlatest, hlt, hdue⟩ := hs
  have hfetch : s.latestFinalizedHeight.getD g = g := by
    cases hl : s.latestFinalizedHeight with
    | none => rfl
    | some l => exact hlatest l hl
  refine (fetch_steady hv).bind ?_
  rw [hfetch]
  simp only
  rw [if_pos (show g > (s.withLatest (some g)).currentBlockHeight from hlt)]
  have hread : (s.withLatest (some g)).runHistorical
      = blockAt (s.client.chain.retryOn s.retryOnError none) n := by
    rw [← hdue]
    simp only [runHistorical, withLatest_processed, withLatest_current, List.isEmpty_iff]
    rfl
  rw [hread]
  exact (blockAt_steady (e := .answer v) _ (hv.blockHash n hn)).bind (.pure _ _)

end BestBlockSub

namespace Sub

variable {c : FinalizedChain} {v : View} {g n : Nat} {s : Sub}

/-- The cursor follows the best head and is behind the finalized one: it returns block `n` next. -/
def Behind (g n : Nat) : Sub → Prop
  | .unInit u => u.useBestBlock = true ∧ u.blockHeight = some n ∧ n < g
  | .bestBlock s => s.Behind g n
  | .finalizedBlock _ => False

theorem runConcrete_steady_behind {s : BestBlockSub} (hv : c.ServedBy g v) (hg : g < u32Max)
    (hn : n ≤ g) (hs : s.Behind g n) :
    ∃ s', Steady (.answer v) ((Sub.bestBlock s).runConcrete .next) (.ok (c.infoAt n), s') ∧
      (n < g → s'.Behind g (n + 1)) := by
  refine ⟨_, (BestBlockSub.next_steady_behind hv.heads hs hn).bind (.pure _ _), fun hlt => ?_⟩
  refine ⟨?_, hlt, ?_⟩
  · rintro l hl
    cases hl
    rfl
  · show u32Add n 1 = n + 1
    exact u32Add_of_lt (by unfold u32Max at hg; omega)

theorem run_steady_behind {s : Sub} (hv : c.ServedBy g v) (hg : g < u32Max) (hn : n ≤ g)
    (hs : s.Behind g n) :
    ∃ s', Steady (.answer v) (s.run .next) (.ok (c.infoAt n), s') ∧
      (n < g → s'.Behind g (n + 1)) := by
  cases s with
  | unInit u =>
    obtain ⟨hmode, hheight, hlt⟩ := hs
    rw [run]
    simp only [materialize, UnInitSub.build, UnInitSub.startHeight, hmode, hheight, pure_bind,
      if_true]
    exact runConcrete_steady_behind hv hg hn ⟨fun l hl => (by cases hl), hlt, if_pos rfl⟩
  | bestBlock s =>
    rw [run]
    simp only [materialize, pure_bind]
    exact runConcrete_steady_behind hv hg hn hs
  | finalizedBlock s => exact hs.elim

end Sub

namespace Utils

variable {client : Client} {nonce : U32} {txHash : H256} {account : AccountId}

/-- On a chain with nothing in its blocks the search goes through all the heights it may, and
    no node has to have more blocks than these. -/
theorem search_bare (hashAt : Nat → H256) {b ends : Nat} (hb : b ≤ ends) (hends : ends + 1 < u32Max)
    (useBestBlock : Bool) :
    Steady (.answer ((bare hashAt).viewAt (ends + 1)))
      (loop (searchStep client nonce txHash account ends)
        (((Sub.new client).setBlockHeight b).useBestBlock useBestBlock, b)) (.ok none) := by
  have hv := (bare hashAt).viewAt_served (ends + 1)
  have hnone : ∀ n, ¬ (bare hashAt).Decides nonce txHash account n := by
    rintro n (h | ⟨-, h⟩)
    · exact absurd h (Nat.not_lt.mpr (Nat.zero_le _))
    · exact h rfl
  cases useBestBlock with
  | false =>
    refine search_steady (m := none) (Sub.At (ends + 1)) hv ?_ ⟨rfl, rfl⟩ hb (by omega)
      (fun n _ _ => hnone n) le_rfl
    intro n s hn hs
    exact Sub.run_next_steady hs le_rfl hends hv hn
  | true =>
    refine search_steady (m := none)
      (fun n s => n ≤ ends + 1 → s.Behind (ends + 1) n) hv ?_
      (fun _ => ⟨rfl, rfl, by omega⟩) hb (by omega) (fun n _ _ => hnone n) le_rfl
    intro n s hn hs
    obtain ⟨s', hrun, hs'⟩ := Sub.run_steady_behind hv hends hn (hs hn)
    exact ⟨s', hrun, fun hlt => hs' hlt⟩

theorem traceHead_steady {v : View} {useBestBlock : Bool} {head : BlockInfo} (client : Client)
    (hhead : v (.latestBlockInfo useBestBlock) = .ok head) :
    Steady (.answer v) (traceHead client useBestBlock) (.ok ()) := by
  unfold traceHead
  split
  · cases useBestBlock with
    | true =>
      refine (Chain.blockInfo_steady client.best.chain (.answer v) true).bind ?_
      simp only [Event.response, hhead]
      exact .pure _ _
    | false =>
      refine (Chain.blockInfo_steady client.finalized.chain (.answer v) false).bind ?_
      simp only [Event.response, hhead]
      exact .pure _ _
  · exact .pure _ _

/-! ## The window -/

/-- The search never reports that there is no block without having inspected every block of the
    era that the mortality signs. -/
def Covers (client : Client) (nonce : U32) (txHash : H256) (account : AccountId)
    (mortality : RefinedMortality) (useBestBlock : Bool) : Prop :=
  ∀ script w', findCorrectBlockInfo client nonce txHash account mortality useBestBlock
      (start Request script) = some (.ok none, w') →
    ∀ n, mortality.blockHeight ≤ n →
      n < mortality.blockHeight + (Era.mortal mortality.period mortality.blockHeight).validity →
      n < u32Max → Inspected account w'.trace n

variable {mortality : RefinedMortality} {useBestBlock : Bool}

/-- The last block inspected is the one above the height the search stops at. -/
theorem findCorrectBlockInfo_inspects {script : List Event} {w' : RpcWorld}
    (hb : mortality.blockHeight < 2 ^ 32)
    (h : findCorrectBlockInfo client nonce txHash account mortality useBestBlock
      (start Request script) = some (.ok none, w')) :
    ∀ n, mortality.blockHeight ≤ n → n ≤ mortalityEndsHeight mortality + 1 →
      Inspected account w'.trace n := by
  obtain ⟨x, w1, -, h⟩ := bind_eq_some.mp h
  cases x with
  | error e =>
    obtain ⟨h1, -⟩ := pure_eq_some.mp h
    cases h1
  | ok _ =>
    have hends : mortality.blockHeight ≤ mortalityEndsHeight mortality := by
      unfold mortalityEndsHeight u32SaturatingAdd u32Max
      omega
    refine (loop_inspects ?_ hends (Nat.min_le_right _ _) h).2
    cases useBestBlock <;> exact fun n hn => hn _ rfl

/-- A search that stops below the largest heights reports nothing when the node has no block at
    the next height but one, and has not inspected that. -/
theorem findCorrectBlockInfo_misses (client : Client) (nonce : U32) (txHash : H256)
    (account : AccountId) (mortality : RefinedMortality) (useBestBlock : Bool)
    (hends : mortalityEndsHeight mortality + 1 < u32Max)
    (hb : mortality.blockHeight ≤ mortalityEndsHeight mortality) :
    ∃ script w', findCorrectBlockInfo client nonce txHash account mortality useBestBlock
        (start Request script) = some (.ok none, w') ∧
      ¬ Inspected account w'.trace (mortalityEndsHeight mortality + 2) := by
  let ends := mortalityEndsHeight mortality
  let v := (bare fun _ => mortality.blockHash).viewAt (ends + 1)
  have hsteady : Steady (.answer v)
      (findCorrectBlockInfo client nonce txHash account mortality useBestBlock) (.ok none) :=
    (traceHead_steady client rfl).bind (search_bare _ hb hends useBestBlock)
  obtain ⟨k, w', hrun, hall⟩ := hsteady.run
  refine ⟨_, w', hrun, ?_⟩
  rintro ⟨hash, ⟨⟨r, e⟩, hq, hnames⟩, -⟩
  obtain rfl : e = .answer v := hall _ hq
  rcases hnames with ⟨best, -, hinfo⟩ | ⟨-, hhash⟩
  · -- the head is at the height below
    have hheight : (⟨mortality.blockHash, ends + 1⟩ : BlockInfo) = ⟨hash, ends + 2⟩ :=
      Except.ok.inj hinfo
    injection hheight with _ h1
    omega
  · have hhash' : (if ends + 2 ≤ ends + 1 then some mortality.blockHash else none) = some hash :=
      Except.ok.inj hhash
    rw [if_neg (by omega)] at hhash'
    cases hhash'

/-- The search covers the era exactly when rounding the period adds at most two blocks to it, or
    the era reaches the largest heights. -/
theorem covers_iff (client : Client) (nonce : U32) (txHash : H256) (account : AccountId)
    (mortality : RefinedMortality) (useBestBlock : Bool) :
    Covers client nonce txHash account mortality useBestBlock ↔
      Era.effectivePeriod mortality.period ≤ mortality.period % 2 ^ 32 + 2 ∨
      2 ^ 32 ≤ mortality.blockHeight + mortality.period % 2 ^ 32 + 3 := by
  constructor
  · intro hcovers
    by_contra hnot
    obtain ⟨hperiod, hheight⟩ := not_or.mp hnot
    have hends : mortalityEndsHeight mortality
        = mortality.blockHeight + mortality.period % 2 ^ 32 := by
      unfold mortalityEndsHeight u32SaturatingAdd u32Max
      omega
    obtain ⟨script, w', hrun, hmissed⟩ := findCorrectBlockInfo_misses client nonce txHash account
      mortality useBestBlock (by unfold u32Max; omega) (by omega)
    refine hmissed (hcovers script w' hrun _ (by omega) ?_ (by unfold u32Max; omega))
    show _ < mortality.blockHeight + Era.effectivePeriod mortality.period
    omega
  · intro hcond script w' hrun n hn hera hmax
    have hb : mortality.blockHeight < 2 ^ 32 := by unfold u32Max at hmax; omega
    refine findCorrectBlockInfo_inspects hb hrun n hn ?_
    replace hera : n < mortality.blockHeight + Era.effectivePeriod mortality.period := hera
    unfold mortalityEndsHeight u32SaturatingAdd
    unfold u32Max at hmax ⊢
    omega

/-- A period of five blocks is rounded to eight: an era from block 1000 on ends with block 1007,
    and the search ends with block 1006. -/
theorem covers_not_five : ∃ script w',
    findCorrectBlockInfo Client.devnet 0 (FixedBytes.fill 32 1) (FixedBytes.fill 32 2)
      ⟨5, FixedBytes.fill 32 3, 1000⟩ false (start Request script) = some (.ok none, w') ∧
    (1000 ≤ 1007 ∧ 1007 < 1000 + (Era.mortal 5 1000).validity ∧ 1007 < u32Max) ∧
    ¬ Inspected (FixedBytes.fill 32 2) w'.trace 1007 := by
  obtain ⟨script, w', hrun, hmissed⟩ := findCorrectBlockInfo_misses Client.devnet 0
    (FixedBytes.fill 32 1) (FixedBytes.fill 32 2) ⟨5, FixedBytes.fill 32 3, 1000⟩ false
    (by decide) (by decide)
  exact ⟨script, w', hrun, by decide +kernel, hmissed⟩

end Utils

end AvailRust
