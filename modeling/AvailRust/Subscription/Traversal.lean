/-
  The finalized cursor and its wrappers on a growing chain.

  `At` is the invariant: where a cursor stands, and that it remembers no finalized height the
  chain has not reached. `run_fed` says what one `next` or `prev` of the cursor does to it and
  `step_fed` what one of a wrapper does. Both directions aim at one height (`Op.target`); a
  call that fails leaves the cursor there, a call that succeeds leaves it one above.
-/
import AvailRust.Client.FinalizedChain
import AvailRust.Subscription.Cursor
import AvailRust.Subscription.Wrappers

namespace AvailRust

open Scale Dialogue FinalizedChain

variable {S : Nat → View → Prop} {hashAt : Nat → H256} {c : FinalizedChain} {f top n : Nat}
  {w w' : RpcWorld}

theorem blockAt_yields (hS : ShowsChain S hashAt) (chain : Chain) (hn : n ≤ f) :
    Yields S f top (blockAt chain n) (fun _ x => x = ⟨hashAt n, n⟩) := by
  refine Yields.finish (blockHash_yields hS chain hn) (fun e => ⟨_, rfl⟩) ?_
  rintro g x - rfl
  exact ⟨_, rfl, rfl⟩

namespace FinalizedBlockSub

variable {s s' : FinalizedBlockSub}

/-- The polling loop returns the block the cursor is at, once the chain has reached it. -/
theorem runHead_yields (hS : ShowsChain S hashAt) (s : FinalizedBlockSub) :
    Yields S f top s.runHead
      (fun g x => x = ⟨hashAt s.nextBlockHeight, s.nextBlockHeight⟩ ∧ s.nextBlockHeight ≤ g) := by
  intro w r w' hw h
  refine loop_rule (fun _ w => ∃ g, f ≤ g ∧ Feed S g w.script top)
    (fun r w' => ∃ g, f ≤ g ∧ Feed S g w'.script top ∧ lastFailed w' = isError r ∧
      ∀ x, r = .ok x → x = ⟨hashAt s.nextBlockHeight, s.nextBlockHeight⟩ ∧ s.nextBlockHeight ≤ g)
    ?_ ?_ ⟨f, le_rfl, hw⟩ h
  · intro _ w _ w' hfed hpass
    obtain ⟨g, hg, hw⟩ := hfed
    obtain ⟨x, w1, hhead, hcases⟩ := runHeadStep_cases hpass
    obtain ⟨g1, hg1, hw1, -, -⟩ := blockInfo_yields hS _ w x w1 hw hhead
    rcases hcases with ⟨e, -, hr, -⟩ | ⟨head, -, ⟨-, rfl⟩ | ⟨-, hr, -⟩ | ⟨-, c, y, -, hr⟩⟩
    · cases hr
    · exact ⟨g1, hg.trans hg1, hw1⟩
    · cases hr
    · cases hr
  · intro _ w r w' hfed hpass
    obtain ⟨g, hg, hw⟩ := hfed
    obtain ⟨x, w1, hhead, hcases⟩ := runHeadStep_cases hpass
    obtain ⟨g1, hg1, hw1, hlast, hgood⟩ := blockInfo_yields hS _ w x w1 hw hhead
    rcases hcases with ⟨e, rfl, hr, rfl⟩ |
      ⟨head, rfl, ⟨hr, -⟩ | ⟨heq, hr, rfl⟩ | ⟨hlt, c, y, hy, hr⟩⟩
    · cases hr
      exact ⟨g1, hg.trans hg1, hw1, hlast, fun x hx => by cases hx⟩
    · cases hr
    · cases hr
      obtain rfl := hgood head rfl
      have heq' : s.nextBlockHeight = g1 := heq
      rw [heq']
      refine ⟨g1, hg.trans hg1, hw1, hlast, fun x hx => ?_⟩
      cases hx
      exact ⟨rfl, le_rfl⟩
    · cases hr
      obtain rfl := hgood head rfl
      have hle : s.nextBlockHeight ≤ g1 := Nat.le_of_lt hlt
      obtain ⟨g2, hg2, hw2, hlast2, hgood2⟩ := blockAt_yields hS _ hle w1 _ w' hw1 hy
      exact ⟨g2, hg.trans (hg1.trans hg2), hw2, hlast2, fun x hx => ⟨hgood2 x hx, hle.trans hg2⟩⟩

theorem fetch_fed {r : Except RpcError Nat} (hS : ShowsChain S hashAt)
    (hlatest : ∀ l ∈ s.latestFinalizedHeight, l ≤ f)
    (hw : Feed S f w.script top)
    (h : s.fetchLatestFinalizedHeight w = some ((r, s'), w')) :
    ∃ g latest, f ≤ g ∧ Feed S g w'.script top ∧ s' = s.withLatest latest ∧
      (∀ l ∈ latest, l ≤ g) ∧
      ((∃ e, r = .error e ∧ lastFailed w' = true) ∨ ∃ l ≤ g, r = .ok l) := by
  obtain ⟨l, hl, rfl, rfl, rfl⟩ | ⟨hnone, x, hasked, hx⟩ := fetch_cases h
  · exact ⟨f, s'.latestFinalizedHeight, le_rfl, hw, rfl, hlatest, .inr ⟨l, hlatest l hl, rfl⟩⟩
  · obtain ⟨g, hg, hw', hlast, hans⟩ := hasked.fed hw
    obtain ⟨e, rfl, rfl, rfl⟩ | ⟨info, rfl, rfl, rfl⟩ := hx
    · exact ⟨g, s'.latestFinalizedHeight, hg, hw', rfl, fun l hl => (hlatest l hl).trans hg,
        .inl ⟨e, rfl, hlast⟩⟩
    · have hinfo : info.height ≤ g := by
        rcases hans with ⟨err, herr⟩ | ⟨v, hv, hans⟩
        · cases herr
        · rw [(hS g v hv).finalizedHead] at hans
          cases hans
          exact le_rfl
      refine ⟨g, some info.height, hg, hw', rfl, ?_, .inr ⟨_, hinfo, rfl⟩⟩
      rintro l hl
      cases hl
      exact hinfo

/-- One `next` on a growing chain. -/
theorem next_fed {r : Except RpcError BlockInfo} (hS : ShowsChain S hashAt)
    (hlatest : ∀ l ∈ s.latestFinalizedHeight, l ≤ f)
    (hw : Feed S f w.script top) (h : s.next w = some ((r, s'), w')) :
    ∃ g latest, f ≤ g ∧ Feed S g w'.script top ∧ lastFailed w' = isError r ∧
      (∀ l ∈ latest, l ≤ g) ∧
      ((∃ e, r = .error e ∧ s' = s.withLatest latest) ∨
       (r = .ok (⟨hashAt s.nextBlockHeight, s.nextBlockHeight⟩) ∧ s.nextBlockHeight ≤ g ∧
        s' = (s.withLatest latest).advanced)) := by
  obtain ⟨⟨x, s1⟩, w1, hfetch, h⟩ := bind_eq_some.mp h
  obtain ⟨g, latest, hg, hw1, rfl, hlatest', hx⟩ := fetch_fed hS hlatest hw hfetch
  obtain ⟨e, rfl, hlast⟩ | ⟨l, hl, rfl⟩ := hx
  · obtain ⟨rfl, rfl, rfl⟩ := pure_pair_eq_some.mp h
    exact ⟨g, latest, hg, hw1, hlast, hlatest', .inl ⟨e, rfl, rfl⟩⟩
  · obtain ⟨y, w2, hy, h⟩ := bind_eq_some.mp h
    have hyields : Yields S g top
        (if l > s.nextBlockHeight then (s.withLatest latest).runHistorical
          else (s.withLatest latest).runHead)
        (fun g x => x = ⟨hashAt s.nextBlockHeight, s.nextBlockHeight⟩ ∧ s.nextBlockHeight ≤ g) := by
      split
      case isTrue hgt =>
        have hle : s.nextBlockHeight ≤ g := le_of_lt (lt_of_lt_of_le hgt hl)
        exact (blockAt_yields hS _ hle).imp fun g' x hg' hx => ⟨hx, hle.trans hg'⟩
      case isFalse => exact runHead_yields hS (s.withLatest latest)
    obtain ⟨g2, hg2, hw2, hlast, hgood⟩ := hyields w1 y w2 hw1 hy
    have hlatest2 : ∀ l ∈ latest, l ≤ g2 := fun l hl => (hlatest' l hl).trans hg2
    cases y with
    | error e =>
      obtain ⟨rfl, rfl, rfl⟩ := pure_pair_eq_some.mp h
      exact ⟨g2, latest, hg.trans hg2, hw2, hlast, hlatest2, .inl ⟨e, rfl, rfl⟩⟩
    | ok info =>
      obtain ⟨rfl, hle⟩ := hgood info rfl
      obtain ⟨rfl, rfl, rfl⟩ := pure_pair_eq_some.mp h
      exact ⟨g2, latest, hg.trans hg2, hw2, hlast, hlatest2, .inr ⟨rfl, hle, rfl⟩⟩

end FinalizedBlockSub

namespace Sub

variable {ε α : Type} {s s' : Sub}

/-- The cursor follows finalized blocks, stands at height `n`, and remembers no finalized
    height above `f`. -/
def At (f n : Nat) : Sub → Prop
  | .unInit u => u.useBestBlock = false ∧ u.blockHeight = some n
  | .bestBlock _ => False
  | .finalizedBlock s => s.nextBlockHeight = n ∧ ∀ l ∈ s.latestFinalizedHeight, l ≤ f

/-- Whether the block below the cursor is the last one returned. -/
def processed : Sub → Bool
  | .unInit _ => false
  | .bestBlock _ => false
  | .finalizedBlock s => s.processedPreviousBlock

/-- The height an operation aims at from height `n`. -/
def Op.target (processed : Bool) (n : Nat) : Op → Nat
  | .next => n
  | .prev => if processed then n - 1 - 1 else n - 1

/-- A subscription set to a height stands there, whatever its chain has reached. -/
theorem at_new {u : UnInitSub} (hmode : u.useBestBlock = false) (hheight : u.blockHeight = some n) :
    (Sub.unInit u).At f n :=
  ⟨hmode, hheight⟩

theorem At.mono {g : Nat} (h : s.At f n) (hg : f ≤ g) : s.At g n := by
  cases s with
  | unInit u => exact h
  | bestBlock s => exact h
  | finalizedBlock s => exact ⟨h.1, fun l hl => (h.2 l hl).trans hg⟩

theorem at_setBlockHeight {m : Nat} (h : s.At f n) :
    (s.setBlockHeight m).At f m ∧ (s.setBlockHeight m).processed = false := by
  cases s with
  | unInit u => exact ⟨⟨h.1, rfl⟩, rfl⟩
  | bestBlock s => exact h.elim
  | finalizedBlock s => exact ⟨⟨rfl, h.2⟩, rfl⟩

/-- An uninitialised cursor becomes a concrete one without asking anything. -/
theorem materialize_at (h : s.At f n) :
    ∃ t : FinalizedBlockSub, (Sub.finalizedBlock t).At f n ∧
      t.processedPreviousBlock = s.processed ∧
      s.materialize = pure (.ok (), .finalizedBlock t) := by
  cases s with
  | unInit u =>
    obtain ⟨hmode, hheight⟩ := h
    refine ⟨{ client := u.client, pollRate := u.pollRate, nextBlockHeight := n,
              retryOnError := u.retryOnError, latestFinalizedHeight := none,
              processedPreviousBlock := false }, ⟨rfl, nofun⟩, rfl, ?_⟩
    simp only [materialize, UnInitSub.build, UnInitSub.startHeight, hmode, hheight, pure_bind,
      Bool.false_eq_true, if_false]
  | bestBlock s => exact h.elim
  | finalizedBlock t => exact ⟨t, h, rfl, rfl⟩

/-- One operation of the cursor, wherever it stands. -/
theorem run_fed_wrap {op : Op} {r : Except RpcError BlockInfo} (hS : ShowsChain S hashAt)
    (hs : s.At f n) (hw : Feed S f w.script top) (h : s.run op w = some ((r, s'), w')) :
    ∃ g, f ≤ g ∧ Feed S g w'.script top ∧ lastFailed w' = isError r ∧
      (((∃ e, r = .error e) ∧ s'.At g (op.target s.processed n) ∧
        (op = .prev → s'.processed = false)) ∨
       (r = .ok ⟨hashAt (op.target s.processed n), op.target s.processed n⟩ ∧
        op.target s.processed n ≤ g ∧ s'.At g (u32Add (op.target s.processed n) 1) ∧
        s'.processed = true)) := by
  obtain ⟨t, ht, hproc, hmat⟩ := materialize_at hs
  rw [run, hmat, pure_bind] at h
  -- `prev` is `next` from one step back, so one operation is one `next` from its target
  obtain ⟨t0, hnext, hheight, hlatest, hflag⟩ : ∃ t0 : FinalizedBlockSub,
      (t0.next >>= fun p => pure (p.1, Sub.finalizedBlock p.2)) w = some ((r, s'), w') ∧
      t0.nextBlockHeight = op.target s.processed n ∧
      (∀ l ∈ t0.latestFinalizedHeight, l ≤ f) ∧
      (op = .prev → t0.processedPreviousBlock = false) := by
    cases op with
    | next => exact ⟨t, h, ht.1, ht.2, fun hop => by cases hop⟩
    | prev =>
      refine ⟨t.stepBack, h, ?_, ht.2, fun _ => rfl⟩
      simp only [FinalizedBlockSub.stepBack, Op.target, ht.1, hproc]
  obtain ⟨⟨r', t'⟩, w1, hrun, h⟩ := bind_eq_some.mp hnext
  obtain ⟨rfl, rfl, rfl⟩ := pure_pair_eq_some.mp h
  obtain ⟨g, latest, hg, hw', hlast, hlatest', hcases⟩ :=
    FinalizedBlockSub.next_fed hS hlatest hw hrun
  refine ⟨g, hg, hw', hlast, ?_⟩
  rw [← hheight]
  obtain ⟨e, rfl, rfl⟩ | ⟨rfl, hle, rfl⟩ := hcases
  · exact .inl ⟨⟨e, rfl⟩, ⟨rfl, hlatest'⟩, hflag⟩
  · exact .inr ⟨rfl, hle, ⟨rfl, hlatest'⟩, rfl⟩

/-- One operation of the cursor on a growing chain. -/
theorem run_fed {op : Op} {r : Except RpcError BlockInfo} (hS : ShowsChain S hashAt)
    (hs : s.At f n) (hw : Feed S f w.script top) (htop : top < u32Max)
    (h : s.run op w = some ((r, s'), w')) :
    ∃ g, f ≤ g ∧ Feed S g w'.script top ∧ lastFailed w' = isError r ∧
      (((∃ e, r = .error e) ∧ s'.At g (op.target s.processed n) ∧
        (op = .prev → s'.processed = false)) ∨
       (r = .ok ⟨hashAt (op.target s.processed n), op.target s.processed n⟩ ∧
        op.target s.processed n ≤ g ∧ s'.At g (op.target s.processed n + 1) ∧
        s'.processed = true)) := by
  obtain ⟨g, hg, hw', hlast, hfail | ⟨hr, hle, hat, hproc⟩⟩ := run_fed_wrap hS hs hw h
  · exact ⟨g, hg, hw', hlast, .inl hfail⟩
  · have hfits : op.target s.processed n + 1 < 2 ^ 32 := by
      have htop' := hw'.le
      unfold u32Max at htop
      omega
    rw [u32Add_of_lt hfits] at hat
    exact ⟨g, hg, hw', hlast, .inr ⟨hr, hle, hat, hproc⟩⟩

/-- What a wrapper reads of the finalized block at each height is `items`, or its read fails;
    and a node that is up does not make it fail. -/
structure ReadsAs (c : FinalizedChain) (read : Sub → BlockInfo → Rpc (Except ε α))
    (items : Nat → α) : Prop where
  yields : ∀ s f top n, n ≤ f →
    Yields c.ServedBy f top (read s (c.infoAt n)) (fun _ x => x = items n)
  steady : ∀ s g v n, c.ServedBy g v → n ≤ g →
    Steady (.answer v) (read s (c.infoAt n)) (.ok (items n))
  logged : ∀ s info, Logged (read s info)

/-- One step of a wrapper on a growing chain. -/
theorem step_fed {op : Op} {ofRpcError : RpcError → ε}
    {read : Sub → BlockInfo → Rpc (Except ε α)} {items : Nat → α} (hread : ReadsAs c read items)
    {r : Except ε α} (hs : s.At f n) (hw : c.Feed f w.script top) (htop : top < u32Max)
    (h : s.step op ofRpcError read w = some ((r, s'), w')) :
    ∃ g, f ≤ g ∧ c.Feed g w'.script top ∧ lastFailed w' = isError r ∧
      (((∃ e, r = .error e) ∧ s'.At g (op.target s.processed n) ∧
        (op = .prev → s'.processed = false)) ∨
       (r = .ok (items (op.target s.processed n)) ∧
        s'.At g (op.target s.processed n + 1) ∧ s'.processed = true)) := by
  obtain ⟨⟨x, s1⟩, w1, hrun, h⟩ := bind_eq_some.mp h
  obtain ⟨g, hg, hw1, hlast, hcases⟩ := run_fed c.showsChain hs hw htop hrun
  obtain ⟨⟨e, rfl⟩, hat, hflag⟩ | ⟨rfl, hle, hat, hproc⟩ := hcases
  · obtain ⟨rfl, rfl, rfl⟩ := pure_pair_eq_some.mp h
    exact ⟨g, hg, hw1, hlast, .inl ⟨⟨_, rfl⟩, hat, hflag⟩⟩
  · obtain ⟨y, w2, hy, h⟩ := bind_eq_some.mp h
    obtain ⟨g2, hg2, hw2, hlast2, hgood⟩ := hread.yields s1 g top _ hle w1 y w2 hw1 hy
    cases y with
    | error e =>
      obtain ⟨rfl, rfl, rfl⟩ := pure_pair_eq_some.mp h
      obtain ⟨hback, hflag⟩ := at_setBlockHeight (m := op.target s.processed n) (hat.mono hg2)
      exact ⟨g2, hg.trans hg2, hw2, hlast2, .inl ⟨⟨e, rfl⟩, hback, fun _ => hflag⟩⟩
    | ok x =>
      obtain rfl := hgood x rfl
      obtain ⟨rfl, rfl, rfl⟩ := pure_pair_eq_some.mp h
      exact ⟨g2, hg.trans hg2, hw2, hlast2, .inr ⟨rfl, hat.mono hg2, hproc⟩⟩

end Sub

/-! ## What each wrapper reads -/

theorem LegacyBlockSub.readsAs (c : FinalizedChain) :
    Sub.ReadsAs c LegacyBlockSub.read (fun n => c.block (c.hashAt n)) where
  yields _ _ _ _ hn := legacyBlock_yields _ hn
  steady _ _ _ _ hv hn := legacyBlock_steady hv _ hn
  logged _ _ := Chain.legacyBlock_logged _ _

theorem BlockHeaderSub.readsAs (c : FinalizedChain) :
    Sub.ReadsAs c BlockHeaderSub.read (fun n => c.header (c.hashAt n)) where
  yields _ _ _ _ hn := blockHeader_yields _ hn
  steady _ _ _ _ hv hn := blockHeader_steady hv _ hn
  logged _ _ := Chain.blockHeader_logged _ _

theorem Sub.ReadsAs.withBlock {ε α β : Type} {read : Sub → BlockInfo → Rpc (Except ε α)}
    {items : Nat → α} (hread : Sub.ReadsAs c read items) (value : α → Nat → H256 → β) :
    Sub.ReadsAs c (Sub.withBlock value read) (fun n => value (items n) n (c.hashAt n)) where
  yields s f top n hn := by
    refine Yields.finish (hread.yields s f top n hn) (fun e => ⟨_, rfl⟩) ?_
    rintro g x - rfl
    exact ⟨_, rfl, rfl⟩
  steady s g v n hv hn := (hread.steady s g v n hv hn).bind (.pure _ _)
  logged s info := (hread.logged s info).bind fun x => by split <;> exact .pure _

theorem GrandpaJustificationSub.readsAs {value : Nat → Option Grandpa.GrandpaJustification}
    (hvalue : ∀ n, c.decodedJustification n = .ok (value n)) :
    Sub.ReadsAs c GrandpaJustificationSub.read (fun n => ⟨value n, n, c.hashAt n⟩) :=
  have hfetch : Sub.ReadsAs c (fun s info => fetchJustification s info.height) value :=
    { yields := fun _ _ _ _ hn => grandpaBlockJustification_yields _ hn (hvalue _)
      steady := fun _ _ _ _ hv hn => grandpaBlockJustification_steady hv _ hn (hvalue _)
      logged := fun _ _ => Chain.grandpaBlockJustification_logged _ _ }
  hfetch.withBlock GrandpaJustificationSubValue.mk

theorem BlockEventsSub.readsAs (c : FinalizedChain) (opts : EventOpts) :
    Sub.ReadsAs c (BlockEventsSub.read opts)
      (fun n => ⟨c.events (c.hashAt n) opts, n, c.hashAt n⟩) :=
  have hraw : Sub.ReadsAs c (fun s info =>
      (BlockEventsQuery.new s.client (.hash info.hash)).raw opts)
      (fun n => c.events (c.hashAt n) opts) :=
    { yields := fun _ _ _ _ hn => systemFetchEvents_yields _ hn opts
      steady := fun _ _ _ _ hv hn => systemFetchEvents_steady hv _ hn opts
      logged := fun _ _ => Chain.systemFetchEvents_logged _ _ _ }
  hraw.withBlock BlockEventsSubValue.mk

namespace FinalizedChain

/-- The extrinsics of a block that match the options, as a query decodes them. -/
def encodedExtrinsics (c : FinalizedChain) (opts : ExtrinsicOptions) (n : Nat) :
    Except Error (List BlockEncodedExtrinsic) :=
  BlockEncodedExtrinsicsQuery.decodeAll (c.extrinsics (c.hashAt n) (opts.toRpcOpts .extrinsic))
    (.hash (c.hashAt n))

/-- The calls of type `T` among them. -/
def decodedExtrinsics (T : Type) [HasHeader T] [Decode T] (c : FinalizedChain)
    (opts : ExtrinsicOptions) (n : Nat) : Except Error (List (BlockExtrinsic T)) :=
  match c.encodedExtrinsics (BlockExtrinsicsQuery.withHeader T opts) n with
  | .error e => .error e
  | .ok all => all.mapM BlockEncodedExtrinsic.asExtrinsic

variable {query : BlockEncodedExtrinsicsQuery} {opts : ExtrinsicOptions}
  {list : List BlockEncodedExtrinsic}

theorem encodedAll_yields (hblock : query.ctx.blockId = .hash (c.hashAt n)) (hn : n ≤ f)
    (hlist : c.encodedExtrinsics opts n = .ok list) :
    Yields c.ServedBy f top (query.all opts) (fun _ x => x = list) := by
  simp only [BlockEncodedExtrinsicsQuery.all, BlockContext.hashNumber, hblock, Chain.toHashNumber]
  refine Yields.finish (systemFetchExtrinsics_yields _ hn _) (fun e => ⟨_, rfl⟩) ?_
  rintro g x - rfl
  exact ⟨list, congrArg pure hlist, rfl⟩

theorem encodedAll_steady {g : Nat} {v : View} (hblock : query.ctx.blockId = .hash (c.hashAt n))
    (hv : c.ServedBy g v) (hn : n ≤ g) (hlist : c.encodedExtrinsics opts n = .ok list) :
    Steady (.answer v) (query.all opts) (.ok list) := by
  simp only [BlockEncodedExtrinsicsQuery.all, BlockContext.hashNumber, hblock, Chain.toHashNumber]
  refine (systemFetchExtrinsics_steady hv _ hn _).bind ?_
  rw [← hlist]
  exact .pure _ _

theorem encodedAll_logged (query : BlockEncodedExtrinsicsQuery) (opts : ExtrinsicOptions) :
    Logged (query.all opts) := by
  unfold BlockEncodedExtrinsicsQuery.all
  split
  · exact .pure _
  · refine (Chain.systemFetchExtrinsics_logged _ _ _).bind fun x => ?_
    split <;> exact .pure _

end FinalizedChain

theorem EncodedExtrinsicSub.readsAs {opts : ExtrinsicOptions}
    {list : Nat → List BlockEncodedExtrinsic}
    (hlist : ∀ n, c.encodedExtrinsics opts n = .ok (list n)) :
    Sub.ReadsAs c (EncodedExtrinsicSub.read opts) (fun n => ⟨list n, n, c.hashAt n⟩) :=
  have hall : Sub.ReadsAs c (fun s info => ((Block.new s.client (.hash info.hash)).encoded
      |>.setRetryOnError (some s.shouldRetryOnError)).all opts) list :=
    { yields := fun _ _ _ _ hn => encodedAll_yields rfl hn (hlist _)
      steady := fun _ _ _ _ hv hn => encodedAll_steady rfl hv hn (hlist _)
      logged := fun _ _ => encodedAll_logged _ _ }
  hall.withBlock EncodedExtrinsicSubValue.mk

theorem ExtrinsicSub.readsAs {T : Type} [HasHeader T] [Decode T] {opts : ExtrinsicOptions}
    {list : Nat → List (BlockExtrinsic T)}
    (hlist : ∀ n, c.decodedExtrinsics T opts n = .ok (list n)) :
    Sub.ReadsAs c (ExtrinsicSub.read T opts) (fun n => ⟨list n, n, c.hashAt n⟩) := by
  have hall : ∀ n, ∃ all, c.encodedExtrinsics (BlockExtrinsicsQuery.withHeader T opts) n = .ok all ∧
      all.mapM BlockEncodedExtrinsic.asExtrinsic = .ok (list n) := by
    intro n
    have h := hlist n
    unfold decodedExtrinsics at h
    split at h
    case h_1 => cases h
    case h_2 all hall => exact ⟨all, hall, h⟩
  suffices hread : Sub.ReadsAs c (fun s info => (((Block.new s.client (.hash info.hash)).extrinsics
      |>.setRetryOnError (some s.shouldRetryOnError)).all opts :
        Rpc (Except Error (List (BlockExtrinsic T))))) list from
    hread.withBlock ExtrinsicSubValue.mk
  refine ⟨fun s f top n hn => ?_, fun s g v n hv hn => ?_, fun s info => ?_⟩
  · obtain ⟨all, hencoded, hdecoded⟩ := hall n
    refine Yields.finish (encodedAll_yields rfl hn hencoded) (fun e => ⟨_, rfl⟩) ?_
    rintro g x - rfl
    exact ⟨_, congrArg pure hdecoded, rfl⟩
  · obtain ⟨all, hencoded, hdecoded⟩ := hall n
    refine (encodedAll_steady rfl hv hn hencoded).bind ?_
    rw [← hdecoded]
    exact .pure _ _
  · refine (encodedAll_logged _ _).bind fun x => ?_
    split <;> exact .pure _

end AvailRust
