/-
  Reading forward: every finalized block once.

  `Delivers` is the promise of a subscription from a height on: what its calls have returned
  are the contents worth keeping of the blocks from there up to some block, in order and each
  once, whatever failed in between; and as soon as the node is up the next call returns the
  next content worth keeping. All six subscriptions keep it (`next_delivers`).

  `Advances` is what one call does, for a step that returns every block and for a loop over
  steps that skips some; `calls_advance` is the run.
-/
import AvailRust.Subscription.Traversal

namespace AvailRust

open Scale Dialogue FinalizedChain

variable {ε α σ : Type}

/-- The results of the calls that did not fail. -/
def successes (rs : List (Except ε α)) : List α := rs.filterMap Except.toOption

/-- The contents worth keeping of the `m` blocks from height `n` on. -/
def keptFrom (items : Nat → α) (kept : α → Bool) (n m : Nat) : List α :=
  ((List.range' n m).map items).filter kept

/-- From height `h` on, calls of `next` return the contents worth keeping in order and each
    once, and do return them when the node is up. -/
def Delivers (c : FinalizedChain) (next : σ → Rpc (Except ε α × σ)) (items : Nat → α)
    (kept : α → Bool) (s : σ) (h : Nat) : Prop :=
  ∀ script top n rs s' w', c.Feed 0 script top → top < u32Max →
    calls next n s (start Request script) = some ((rs, s'), w') →
    ∃ m, successes rs = keptFrom items kept h m ∧
      ∀ g v n, top ≤ g → g < u32Max → c.ServedBy g v → h + m ≤ n → n ≤ g →
        (∀ j, h + m ≤ j → j < n → kept (items j) = false) → kept (items n) = true →
        ∃ k s'' w'', next s' (start Request (List.replicate k (.answer v)))
          = some ((.ok (items n), s''), w'')

theorem keptFrom_append (items : Nat → α) (kept : α → Bool) (n m k : Nat) :
    keptFrom items kept n m ++ keptFrom items kept (n + m) k = keptFrom items kept n (m + k) := by
  unfold keptFrom
  rw [← List.filter_append, ← List.map_append, List.range'_append_1]

theorem keptFrom_all (items : Nat → α) (n m : Nat) :
    keptFrom items (fun _ => true) n m = (List.range' n m).map items :=
  List.filter_eq_self.mpr fun _ _ => rfl

theorem keptFrom_eq_filter (items : Nat → α) (kept : α → Bool) (n m : Nat) :
    keptFrom items kept n m = (keptFrom items (fun _ => true) n m).filter kept := by
  rw [keptFrom_all]
  rfl

theorem successes_append (rs : List (Except ε α)) (r : Except ε α) :
    successes (rs ++ [r]) = successes rs ++ r.toOption.toList := by
  unfold successes
  rw [List.filterMap_append]
  cases r <;> rfl

namespace Sub

variable {c : FinalizedChain} {items : Nat → α} {kept : α → Bool}
  {step : Sub → Rpc (Except ε α × Sub)} {ofRpcError : RpcError → ε}
  {read : Sub → BlockInfo → Rpc (Except ε α)}

/-- What one call does: it passes `m` blocks and returns what is worth keeping of them. -/
def Advances (c : FinalizedChain) (items : Nat → α) (kept : α → Bool)
    (step : Sub → Rpc (Except ε α × Sub)) : Prop :=
  ∀ ⦃s s' f top n w w' r⦄, s.At f n → c.Feed f w.script top → top < u32Max →
    step s w = some ((r, s'), w') →
    ∃ g m, f ≤ g ∧ c.Feed g w'.script top ∧ s'.At g (n + m) ∧
      keptFrom items kept n m = r.toOption.toList

/-- When the node is up, a call returns the next content worth keeping. -/
def Resumes (c : FinalizedChain) (items : Nat → α) (kept : α → Bool)
    (step : Sub → Rpc (Except ε α × Sub)) : Prop :=
  ∀ ⦃s f n g v k⦄, s.At f n → f ≤ g → g < u32Max → c.ServedBy g v → n ≤ k → k ≤ g →
    (∀ j, n ≤ j → j < k → kept (items j) = false) → kept (items k) = true →
    ∃ s', Steady (.answer v) (step s) (.ok (items k), s') ∧ s'.At g (k + 1)

/-! ## One block at a time -/

theorem step_advances (hread : ReadsAs c read items) :
    Advances c items (fun _ => true) (Sub.step .next ofRpcError read) := by
  intro s s' f top n w w' r hs hw htop h
  obtain ⟨g, hg, hw', -, ⟨⟨e, rfl⟩, hat, -⟩ | ⟨rfl, hat, -⟩⟩ := step_fed hread hs hw htop h
  · exact ⟨g, 0, hg, hw', hat, rfl⟩
  · exact ⟨g, 1, hg, hw', hat, rfl⟩

/-- A node that is up serves the block a cursor is at, at the last height there is too. -/
theorem run_next_steady_wrap {s : Sub} {f n g : Nat} {v : View} (hs : s.At f n) (hf : f ≤ g)
    (hv : c.ServedBy g v) (hn : n ≤ g) :
    ∃ s', Steady (.answer v) (s.run .next) (.ok (c.infoAt n), s') ∧ s'.At g (u32Add n 1) := by
  obtain ⟨t, ⟨ht, hlatest⟩, -, hmat⟩ := materialize_at hs
  obtain ⟨l, hl, hnext⟩ := FinalizedBlockSub.next_steady (s := t) hv.heads
    (fun l hl => (hlatest l hl).trans hf) (by rw [ht]; exact hn)
  rw [ht] at hnext
  refine ⟨.finalizedBlock (t.withLatest (some l)).advanced, ?_, ?_, ?_⟩
  · rw [run, hmat, pure_bind]
    exact hnext.bind (.pure _ _)
  · rw [← ht]
    rfl
  · rintro l' h'
    cases h'
    exact hl

/-- A node that is up serves the block a cursor is at. -/
theorem run_next_steady {s : Sub} {f n g : Nat} {v : View} (hs : s.At f n) (hf : f ≤ g)
    (hg : g < u32Max) (hv : c.ServedBy g v) (hn : n ≤ g) :
    ∃ s', Steady (.answer v) (s.run .next) (.ok (c.infoAt n), s') ∧ s'.At g (n + 1) := by
  have hadd : u32Add n 1 = n + 1 := u32Add_of_lt (by unfold u32Max at hg; omega)
  rw [← hadd]
  exact run_next_steady_wrap hs hf hv hn

theorem step_steady (hread : ReadsAs c read items) {s : Sub} {f n g : Nat} {v : View}
    (hs : s.At f n) (hf : f ≤ g) (hg : g < u32Max) (hv : c.ServedBy g v) (hn : n ≤ g) :
    ∃ s', Steady (.answer v) (s.step .next ofRpcError read) (.ok (items n), s') ∧
      s'.At g (n + 1) := by
  obtain ⟨s', hrun, hat⟩ := run_next_steady hs hf hg hv hn
  exact ⟨s', hrun.bind ((hread.steady s' g v n hv hn).bind (.pure _ _)), hat⟩

theorem step_resumes (hread : ReadsAs c read items) :
    Resumes c items (fun _ => true) (Sub.step .next ofRpcError read) := by
  intro s f n g v k hs hf hg hv hnk hk hskip _
  have hkn : k = n := by
    by_contra hne
    exact Bool.noConfusion (hskip n le_rfl (by omega))
  subst hkn
  exact step_steady hread hs hf hg hv hk

theorem step_consumes (hread : ReadsAs c read items) (s : Sub) :
    Consumes (s.step .next ofRpcError read) := by
  refine (s.run_consumes .next).bind ?_
  rintro ⟨x, t⟩
  cases x with
  | error e => exact .pure _
  | ok info =>
    refine (hread.logged t info).bind fun y => ?_
    split <;> exact .pure _

/-! ## Skipping blocks with nothing to return -/

theorem skipEmpty_consumes (hstep : ∀ s, Consumes (step s)) (isEmpty : α → Bool) (s : Sub) :
    Consumes (skipEmpty isEmpty step s) := by
  refine (hstep s).bind ?_
  rintro ⟨x, t⟩
  cases x with
  | error e => exact .pure _
  | ok x =>
    simp only
    split <;> exact .pure _

/-- The loop of the source: step again while what was read is empty. -/
theorem nextNonEmpty_eq (hstep : ∀ s, Consumes (step s)) (isEmpty : α → Bool) (s : Sub)
    (w : RpcWorld) :
    nextNonEmpty isEmpty step s w = (do
      match ← step s with
      | (.error e, s) => pure (.error e, s)
      | (.ok x, s) => if isEmpty x then nextNonEmpty isEmpty step s else pure (.ok x, s) :
      Rpc (Except ε α × Sub)) w := by
  rw [nextNonEmpty, loop_eq (.of_consumes (skipEmpty_consumes hstep isEmpty))]
  refine congrFun ?_ w
  conv_lhs => rw [skipEmpty, bind_assoc]
  congr 1
  funext ⟨x, t⟩
  cases x with
  | error e => rfl
  | ok x =>
    simp only
    split <;> rfl

theorem nextNonEmpty_advances {isEmpty : α → Bool} (hstep : Advances c items (fun _ => true) step) :
    Advances c items (fun x => !isEmpty x) (nextNonEmpty isEmpty step) := by
  intro s s' f top n w w' r hs hw htop h
  -- the blocks passed so far were all empty
  refine nextNonEmpty_rule (fun s w => ∃ g m, f ≤ g ∧ c.Feed g w.script top ∧ s.At g (n + m) ∧
      keptFrom items (fun x => !isEmpty x) n m = [])
    (fun p w' => ∃ g m, f ≤ g ∧ c.Feed g w'.script top ∧ p.2.At g (n + m) ∧
      keptFrom items (fun x => !isEmpty x) n m = p.1.toOption.toList)
    ?_ ?_ ⟨f, 0, le_rfl, hw, hs, rfl⟩ h
  · intro s w x t w1 hpassed hx hempty
    obtain ⟨g, m, hg, hw, hs, hnone⟩ := hpassed
    obtain ⟨g2, k, hg2, hw2, ht, hk⟩ := hstep hs hw htop hx
    refine ⟨g2, m + k, hg.trans hg2, hw2, by rwa [← Nat.add_assoc], ?_⟩
    rw [← keptFrom_append, hnone, List.nil_append, keptFrom_eq_filter, hk]
    simp [hempty, Except.toOption]
  · intro s w r t w1 hpassed hr hkept
    obtain ⟨g, m, hg, hw, hs, hnone⟩ := hpassed
    obtain ⟨g2, k, hg2, hw2, ht, hk⟩ := hstep hs hw htop hr
    refine ⟨g2, m + k, hg.trans hg2, hw2, by rwa [← Nat.add_assoc], ?_⟩
    rw [← keptFrom_append, hnone, List.nil_append, keptFrom_eq_filter, hk]
    cases r with
    | error e => rfl
    | ok x =>
      have hempty : isEmpty x = false := hkept x rfl
      simp [hempty, Except.toOption]

theorem nextNonEmpty_resumes {isEmpty : α → Bool} (hconsumes : ∀ s, Consumes (step s))
    (hstep : Resumes c items (fun _ => true) step) :
    Resumes c items (fun x => !isEmpty x) (nextNonEmpty isEmpty step) := by
  intro s f n g v k hs hf hg hv hnk hk hskip hkept
  -- by induction on the number of empty blocks in front of the one to return
  obtain ⟨d, rfl⟩ : ∃ d, k = n + d := ⟨k - n, by omega⟩
  induction d generalizing s f n with
  | zero =>
    obtain ⟨s', hsteady, hat⟩ := hstep (k := n) hs hf hg hv le_rfl (by omega)
      (by omega) rfl
    refine ⟨s', Steady.loop_exit (hsteady.bind ?_), hat⟩
    have hempty : isEmpty (items n) = false := by simpa using hkept
    simp only [hempty, Bool.false_eq_true, if_false]
    exact .pure _ _
  | succ d ih =>
    obtain ⟨s', hsteady, hat⟩ := hstep (k := n) hs hf hg hv le_rfl (by omega)
      (by omega) rfl
    have hshift : n + (d + 1) = n + 1 + d := by omega
    rw [hshift] at hk hkept hskip ⊢
    obtain ⟨s'', hrest, hat''⟩ := ih hat le_rfl (by omega) hk
      (fun j hj hlt => hskip j (by omega) hlt) hkept
    have hempty : isEmpty (items n) = true := by
      simpa using hskip n le_rfl (by omega)
    refine ⟨s'', Steady.loop_step (.of_consumes (skipEmpty_consumes hconsumes isEmpty))
      (hsteady.bind ?_) hrest, hat''⟩
    simp only [hempty, if_true]
    exact .pure _ _

/-! ## Runs -/

theorem calls_advance (hstep : Advances c items kept step) {s s' : Sub} {n k top : Nat}
    {w w' : RpcWorld} {rs : List (Except ε α)} (hs : s.At 0 n) (hw : c.Feed 0 w.script top)
    (htop : top < u32Max) (h : calls step k s w = some ((rs, s'), w')) :
    ∃ g m, c.Feed g w'.script top ∧ s'.At g (n + m) ∧ successes rs = keptFrom items kept n m := by
  refine calls_rule (fun rs s w => ∃ g m, c.Feed g w.script top ∧ s.At g (n + m) ∧
    successes rs = keptFrom items kept n m) ?_ [] ⟨0, 0, hw, hs, rfl⟩ h
  rintro rs s w r s1 w1 ⟨g, m, hw, hs, hrs⟩ h
  obtain ⟨g1, k, hg1, hw1, hs1, hk⟩ := hstep hs hw htop h
  refine ⟨g1, m + k, hw1, by rwa [← Nat.add_assoc], ?_⟩
  rw [successes_append, hrs, ← hk, keptFrom_append]

/-- A subscription whose calls advance and resume delivers, for any object around it. -/
theorem delivers_of {next : σ → Rpc (Except ε α × σ)} (whole : Sub → σ)
    (hnext : ∀ s, next (whole s) = (fun p => (p.1, whole p.2)) <$> step s)
    (hadvances : Advances c items kept step) (hresumes : Resumes c items kept step)
    {s : Sub} {h : Nat} (hs : s.At 0 h) : Delivers c next items kept (whole s) h := by
  intro script top n rs s' w' hfeed htop hrun
  obtain ⟨t, rfl, hcalls⟩ := calls_part whole hnext hrun
  obtain ⟨g0, m, hw', ht, hrs⟩ := calls_advance hadvances hs hfeed htop hcalls
  refine ⟨m, hrs, fun g v k htg hg hv hmk hk hskip hkept => ?_⟩
  obtain ⟨t', hsteady, -⟩ := hresumes ht (hw'.le.trans htg) hg hv hmk hk hskip hkept
  have hwhole : Steady (.answer v) (next (whole t)) (.ok (items k), whole t') := by
    rw [hnext, map_eq_pure_bind]
    exact hsteady.bind (.pure _ _)
  obtain ⟨j, w'', hrun', -⟩ := hwhole.run
  exact ⟨j, whole t', w'', hrun'⟩

/-- A subscription that returns what it reads of every block. -/
theorem delivers_each (hread : ReadsAs c read items) (whole : Sub → σ)
    {next : σ → Rpc (Except ε α × σ)}
    (hnext : ∀ s, next (whole s) = (fun p => (p.1, whole p.2)) <$> s.step .next ofRpcError read)
    {s : Sub} {h : Nat} (hs : s.At 0 h) : Delivers c next items (fun _ => true) (whole s) h :=
  delivers_of whole hnext (step_advances hread) (step_resumes hread) hs

/-- A subscription that goes on while what it reads is empty. -/
theorem delivers_nonEmpty (hread : ReadsAs c read items) (isEmpty : α → Bool) (whole : Sub → σ)
    {next : σ → Rpc (Except ε α × σ)}
    (hnext : ∀ s, next (whole s) = (fun p => (p.1, whole p.2)) <$>
      nextNonEmpty isEmpty (Sub.step .next ofRpcError read) s)
    {s : Sub} {h : Nat} (hs : s.At 0 h) :
    Delivers c next items (fun x => !isEmpty x) (whole s) h :=
  delivers_of whole hnext (nextNonEmpty_advances (step_advances hread))
    (nextNonEmpty_resumes (step_consumes hread) (step_resumes hread)) hs

end Sub

/-! ## The six subscriptions -/

/-- A finalized subscription at height `h`. -/
def UnInitSub.finalizedFrom (u : UnInitSub) (h : Nat) : Sub :=
  .unInit { u with useBestBlock := false, blockHeight := some h }

/-- Every subscription, set to follow finalized blocks from a height on, delivers what each
    block from there on has for it, read at the hash of the block, in order and each once. -/
theorem subscriptions_deliver (c : FinalizedChain) (u : UnInitSub) (h : Nat) :
    Delivers c LegacyBlockSub.next (fun n => c.block (c.hashAt n)) (fun _ => true)
      ⟨u.finalizedFrom h⟩ h ∧
    Delivers c BlockHeaderSub.next (fun n => c.header (c.hashAt n)) (fun _ => true)
      ⟨u.finalizedFrom h⟩ h ∧
    (∀ value : Nat → Option Grandpa.GrandpaJustification,
      (∀ n, c.decodedJustification n = .ok (value n)) →
      Delivers c GrandpaJustificationSub.next (fun n => ⟨value n, n, c.hashAt n⟩) (fun _ => true)
        ⟨u.finalizedFrom h⟩ h) ∧
    (∀ opts, Delivers c BlockEventsSub.next (fun n => ⟨c.events (c.hashAt n) opts, n, c.hashAt n⟩)
      (fun x => !x.list.isEmpty) ⟨u.finalizedFrom h, opts⟩ h) ∧
    (∀ (opts : ExtrinsicOptions) (list : Nat → List BlockEncodedExtrinsic),
      (∀ n, c.encodedExtrinsics opts n = .ok (list n)) →
      Delivers c EncodedExtrinsicSub.next (fun n => ⟨list n, n, c.hashAt n⟩)
        (fun x => !x.list.isEmpty) ⟨u.finalizedFrom h, opts⟩ h) ∧
    (∀ (T : Type) [HasHeader T] [Decode T] (opts : ExtrinsicOptions)
      (list : Nat → List (BlockExtrinsic T)),
      (∀ n, c.decodedExtrinsics T opts n = .ok (list n)) →
      Delivers c ExtrinsicSub.next (fun n => ⟨list n, n, c.hashAt n⟩)
        (fun x => !x.list.isEmpty) ⟨u.finalizedFrom h, opts⟩ h) := by
  have hs : (u.finalizedFrom h).At 0 h := ⟨rfl, rfl⟩
  refine ⟨?_, ?_, fun value hvalue => ?_, fun opts => ?_, fun opts list hlist => ?_,
    fun T _ _ opts list hlist => ?_⟩
  · exact Sub.delivers_each (LegacyBlockSub.readsAs c) LegacyBlockSub.mk (fun _ => rfl) hs
  · exact Sub.delivers_each (BlockHeaderSub.readsAs c) BlockHeaderSub.mk (fun _ => rfl) hs
  · exact Sub.delivers_each (GrandpaJustificationSub.readsAs hvalue) GrandpaJustificationSub.mk
      (fun _ => rfl) hs
  · exact Sub.delivers_nonEmpty (BlockEventsSub.readsAs c opts) (fun x => x.list.isEmpty)
      (BlockEventsSub.mk · opts) (fun _ => rfl) hs
  · exact Sub.delivers_nonEmpty (EncodedExtrinsicSub.readsAs hlist) (fun x => x.list.isEmpty)
      (EncodedExtrinsicSub.mk · opts) (fun _ => rfl) hs
  · exact Sub.delivers_nonEmpty (ExtrinsicSub.readsAs hlist) (fun x => x.list.isEmpty)
      (ExtrinsicSub.mk · opts) (fun _ => rfl) hs

/-- Blocks without justifications, and events in the blocks of even height only. -/
def evenEvents : FinalizedChain :=
  { FinalizedChain.bare (fun n => FixedBytes.fill 32 (UInt8.ofNat n)) with
    events := fun hash _ =>
      if hash.bytes.headD 0 % 2 = 0 then [⟨.finalization, []⟩] else [] }

/-- The node shows ten blocks, and loses the connection twice. -/
def evenEventsScript : List Event :=
  let up := Event.answer (evenEvents.viewAt 9)
  let down := Event.fail none (.rpc "connection lost")
  [up, up, down, up, up, up, down, up, up, up, up]

theorem evenEventsScript_feed : evenEvents.Feed 0 evenEventsScript 9 := by
  have hv := evenEvents.viewAt_served 9
  exact .answer (Nat.zero_le 9) hv (.answer le_rfl hv (.fail none _ (.answer le_rfl hv
    (.answer le_rfl hv (.answer le_rfl hv (.fail none _ (.answer le_rfl hv (.answer le_rfl hv
      (.answer le_rfl hv (.answer le_rfl hv (.done 9)))))))))))

def quietSub : UnInitSub := { UnInitSub.new Client.devnet with retryOnError := some false }

/-- Three calls from block 5: the first lost connection is retried, the second ends a call. -/
theorem subscriptions_deliver_evenEvents :
    (∃ rs s' w', calls BlockEventsSub.next 3 ⟨quietSub.finalizedFrom 5, ⟨none, none, none⟩⟩
        (start Request evenEventsScript) = some ((rs, s'), w') ∧ rs.length = 3 ∧
      ∃ m, successes rs = keptFrom (fun n => ⟨evenEvents.events (evenEvents.hashAt n)
        ⟨none, none, none⟩, n, evenEvents.hashAt n⟩) (fun x => !x.list.isEmpty) 5 m) ∧
    Delivers evenEvents GrandpaJustificationSub.next (fun n => ⟨none, n, evenEvents.hashAt n⟩)
      (fun _ => true) ⟨quietSub.finalizedFrom 5⟩ 5 := by
  obtain ⟨-, -, hjust, hevents, -, -⟩ := subscriptions_deliver evenEvents quietSub 5
  refine ⟨?_, hjust (fun _ => none) fun _ => rfl⟩
  have hlength : (calls BlockEventsSub.next 3 ⟨quietSub.finalizedFrom 5, ⟨none, none, none⟩⟩
      (start Request evenEventsScript)).map (fun p => p.1.1.length) = some 3 := by
    decide +kernel
  obtain ⟨⟨⟨rs, s'⟩, w'⟩, hrun, hlen⟩ := Option.map_eq_some_iff.mp hlength
  obtain ⟨m, hm, -⟩ := hevents ⟨none, none, none⟩ _ 9 3 rs s' w' evenEventsScript_feed
    (by decide) hrun
  exact ⟨rs, s', w', hrun, hlen, m, hm⟩

end AvailRust
