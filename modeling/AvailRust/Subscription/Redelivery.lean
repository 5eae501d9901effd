/-
  Subscriptions to the best chain whose reads fail.

  When the read of a block fails, a subscription puts its cursor back to the height of the
  block, and that makes the cursor forget all it returned there. So a block delivered before,
  at the same height, may come again (`redelivers`). In a run in which no read fails at a
  height where a block was delivered, each block is delivered once (`delivers_once`).

  A run is taken apart into steps of the cursor, with the block that each step reads.
-/
import AvailRust.Subscription.BestStream

namespace AvailRust

open Scale Dialogue Levels

variable {heightOf : H256 → Nat} {ε α β σ : Type} {w w' : RpcWorld}

/-! ## Steps and the blocks they read -/

namespace Sub

/-- The block a step read, if the cursor returned one, and what the step returns. -/
abbrev Step (ε α : Type) := Option BlockInfo × Except ε α

/-- `step`, with the block it reads. -/
def stepFrom (op : Op) (ofRpcError : RpcError → ε) (read : Sub → BlockInfo → Rpc (Except ε α))
    (s : Sub) : Rpc (Step ε α × Sub) := do
  match ← s.run op with
  | (.error e, s) => pure ((none, .error (ofRpcError e)), s)
  | (.ok info, s) => do
    match ← read s info with
    | .error e => pure ((some info, .error e), s.setBlockHeight info.height)
    | .ok x => pure ((some info, .ok x), s)

/-- What a step returns it returns with the block it read. -/
theorem step_eq_some {op : Op} {ofRpcError : RpcError → ε}
    {read : Sub → BlockInfo → Rpc (Except ε α)} {s s' : Sub} {r : Except ε α}
    (h : s.step op ofRpcError read w = some ((r, s'), w')) :
    ∃ info, s.stepFrom op ofRpcError read w = some (((info, r), s'), w') := by
  obtain ⟨⟨x, t⟩, w1, hrun, h⟩ := bind_eq_some.mp h
  cases x with
  | error e =>
    obtain ⟨rfl, rfl, rfl⟩ := pure_pair_eq_some.mp h
    exact ⟨none, bind_eq_some.mpr ⟨_, _, hrun, rfl⟩⟩
  | ok info =>
    obtain ⟨y, w2, hread, h⟩ := bind_eq_some.mp h
    cases y with
    | error e =>
      obtain ⟨rfl, rfl, rfl⟩ := pure_pair_eq_some.mp h
      exact ⟨some info, bind_eq_some.mpr ⟨_, _, hrun, bind_eq_some.mpr ⟨_, _, hread, rfl⟩⟩⟩
    | ok y =>
      obtain ⟨rfl, rfl, rfl⟩ := pure_pair_eq_some.mp h
      exact ⟨some info, bind_eq_some.mpr ⟨_, _, hrun, bind_eq_some.mpr ⟨_, _, hread, rfl⟩⟩⟩

/-- What a call returns after the step: nothing yet if there is nothing to deliver. -/
def Step.result (isEmpty : α → Bool) : Step ε α → Option (Except ε α)
  | (_, .error e) => some (.error e)
  | (_, .ok x) => if isEmpty x then none else some (.ok x)

/-- The block the step delivered. -/
def Step.delivered (isEmpty : α → Bool) : Step ε α → Option BlockInfo
  | (_, .error _) => none
  | (info, .ok x) => if isEmpty x then none else info

/-- The blocks that the steps delivered. -/
def delivered (isEmpty : α → Bool) (steps : List (Step ε α)) : List BlockInfo :=
  steps.filterMap (Step.delivered isEmpty)

/-- No step fails to read a block of a height at which a block was delivered before. -/
def Spares (isEmpty : α → Bool) (steps : List (Step ε α)) : Prop :=
  ∀ earlier info e later, steps = earlier ++ (some info, .error e) :: later →
    ∀ given ∈ delivered isEmpty earlier, given.height ≠ info.height

variable {isEmpty : α → Bool} {steps : List (Step ε α)} {x : Step ε α}

theorem filterMap_concat (f : α → Option β) (xs : List α) (x : α) :
    (xs ++ [x]).filterMap f = xs.filterMap f ++ (f x).toList := by
  rw [List.filterMap_append]
  cases hx : f x with
  | none => rw [List.filterMap_cons_none hx]; rfl
  | some y => rw [List.filterMap_cons_some hx]; rfl

theorem delivered_append (steps : List (Step ε α)) (x : Step ε α) :
    delivered isEmpty (steps ++ [x]) = delivered isEmpty steps ++ (x.delivered isEmpty).toList :=
  filterMap_concat _ _ _

theorem Spares.of_append (h : Spares isEmpty (steps ++ [x])) : Spares isEmpty steps := by
  intro earlier info e later heq
  apply h earlier info e (later ++ [x])
  rw [heq, List.append_assoc, List.cons_append]

/-! ## One step and a run of steps -/

variable {ofRpcError : RpcError → ε} {read : Sub → BlockInfo → Rpc (Except ε α)} {s s' : Sub}

theorem stepFrom_logged (hread : ∀ s info, Logged (read s info)) (s : Sub) :
    Logged (s.stepFrom .next ofRpcError read) := by
  refine (s.run_consumes .next).logged.bind fun p => ?_
  split
  · exact .pure _
  · refine (hread _ _).bind fun y => ?_
    split
    · exact .pure _
    · exact .pure _

/-- A step keeps what was given on record, and gives nothing twice, unless it forgets a block
    that was delivered. -/
theorem stepFrom_gave (hs : s.FollowsBest) (hw : w.Plays (Consistent heightOf))
    (hspares : Spares isEmpty (steps ++ [x])) (hgave : s.Gave heightOf (delivered isEmpty steps))
    (h : s.stepFrom .next ofRpcError read w = some ((x, s'), w')) :
    s'.FollowsBest ∧ s'.Gave heightOf (delivered isEmpty (steps ++ [x])) := by
  obtain ⟨⟨r, t⟩, w1, hrun, h⟩ := bind_eq_some.mp h
  obtain ⟨ht, hcases⟩ := run_next_record hs hw hrun
  rw [delivered_append]
  rcases hcases with ⟨⟨e, rfl⟩, hkept⟩ | ⟨info, record, b, rfl, rfl, hreturned⟩
  · obtain ⟨heq, -⟩ := pure_eq_some.mp h
    cases heq
    refine ⟨ht, ?_⟩
    show s'.Gave heightOf (delivered isEmpty steps ++ [])
    rw [List.append_nil]
    exact hgave.kept hkept
  obtain ⟨y, w2, -, h⟩ := bind_eq_some.mp h
  cases y with
  | error e =>
    obtain ⟨rfl, rfl, -⟩ := pure_pair_eq_some.mp h
    refine ⟨ht, ?_⟩
    show ((Sub.bestBlock b).setBlockHeight info.height).Gave heightOf
      (delivered isEmpty steps ++ [])
    rw [List.append_nil, ← hreturned.currentBlockHeight]
    apply (hgave.skipped hreturned).reset
    rw [hreturned.currentBlockHeight]
    exact hspares steps info e [] rfl
  | ok y =>
    obtain ⟨rfl, rfl, -⟩ := pure_pair_eq_some.mp h
    refine ⟨ht, ?_⟩
    unfold Step.delivered
    by_cases hempty : isEmpty y = true
    · simp only [hempty, if_true, Option.toList_none, List.append_nil]
      exact hgave.skipped hreturned
    · simp only [hempty, Bool.false_eq_true, if_false, Option.toList_some]
      exact hgave.returned hreturned

theorem steps_nodup (hread : ∀ s info, Logged (read s info)) (hs : s.FollowsBest)
    (hw : w.Plays (Consistent heightOf)) {k : Nat}
    (h : calls (stepFrom .next ofRpcError read) k s w = some ((steps, s'), w'))
    (hspares : Spares isEmpty steps) :
    ((delivered isEmpty steps).map BlockInfo.hash).Nodup := by
  have hrun := calls_rule (fun steps s w => w.Plays (Consistent heightOf) ∧
    (Spares isEmpty steps → s.FollowsBest ∧ s.Gave heightOf (delivered isEmpty steps)))
    ?_ [] ⟨hw, fun _ => ⟨hs, .nothing s⟩⟩ h
  · exact (hrun.2 hspares).2.nodup
  · intro steps s w x s' w' hinvariant hstep
    obtain ⟨hw, hgave⟩ := hinvariant
    obtain ⟨new, hnew⟩ := stepFrom_logged hread s _ _ _ hstep
    refine ⟨hw.after hnew, fun hspares => ?_⟩
    obtain ⟨hs, hgave⟩ := hgave hspares.of_append
    exact stepFrom_gave hs hw hspares hgave hstep

/-! ## Calls as steps -/

/-- Some calls with the results `rs` are these steps. -/
structure StepsOf (isEmpty : α → Bool) (take : Sub → Rpc (Step ε α × Sub)) (s s' : Sub)
    (w w' : RpcWorld) (rs : List (Except ε α)) (steps : List (Step ε α)) : Prop where
  run : ∃ k, calls take k s w = some ((steps, s'), w')
  results : rs = steps.filterMap (Step.result isEmpty)

section

variable {take : Sub → Rpc (Step ε α × Sub)} {t : Sub} {w1 : RpcWorld} {rs : List (Except ε α)}
  {r : Except ε α} {op : Op}

theorem StepsOf.nil (s : Sub) (w : RpcWorld) : StepsOf isEmpty take s s w w [] [] :=
  ⟨⟨0, rfl⟩, rfl⟩

theorem StepsOf.snoc (h : StepsOf isEmpty take s t w w1 rs steps)
    (hstep : take t w1 = some ((x, s'), w')) :
    StepsOf isEmpty take s s' w w' (rs ++ (x.result isEmpty).toList) (steps ++ [x]) := by
  obtain ⟨k, hcalls⟩ := h.run
  refine ⟨⟨_, calls_append hcalls (calls_one hstep)⟩, ?_⟩
  rw [filterMap_concat, h.results]

/-- A call that takes one step, whatever it reads. -/
theorem StepsOf.step (h : StepsOf (fun _ => false) (stepFrom op ofRpcError read) s t w w1 rs steps)
    (hstep : t.step op ofRpcError read w1 = some ((r, s'), w')) :
    ∃ steps,
      StepsOf (fun _ => false) (stepFrom op ofRpcError read) s s' w w' (rs ++ [r]) steps := by
  obtain ⟨info, hfrom⟩ := step_eq_some hstep
  have hsnoc := h.snoc hfrom
  have hresult : Step.result (fun _ => false) (info, r) = some r := by
    cases r with
    | error e => rfl
    | ok y => rfl
  rw [hresult] at hsnoc
  exact ⟨_, hsnoc⟩

/-- A call that steps over blocks with nothing to deliver. -/
theorem StepsOf.nextNonEmpty
    (h : StepsOf isEmpty (stepFrom op ofRpcError read) s t w w1 rs steps)
    (hcall : Sub.nextNonEmpty isEmpty (Sub.step op ofRpcError read) t w1 = some ((r, s'), w')) :
    ∃ steps, StepsOf isEmpty (stepFrom op ofRpcError read) s s' w w' (rs ++ [r]) steps := by
  refine nextNonEmpty_rule
    (fun t w1 => ∃ steps, StepsOf isEmpty (stepFrom op ofRpcError read) s t w w1 rs steps)
    (fun p w' => ∃ steps,
      StepsOf isEmpty (stepFrom op ofRpcError read) s p.2 w w' (rs ++ [p.1]) steps)
    ?_ ?_ ⟨steps, h⟩ hcall
  · intro t w1 y t1 w2 hsteps hstep hempty
    obtain ⟨steps, hsteps⟩ := hsteps
    obtain ⟨info, hfrom⟩ := step_eq_some hstep
    have hsnoc := hsteps.snoc hfrom
    rw [Step.result, if_pos hempty, Option.toList_none, List.append_nil] at hsnoc
    exact ⟨_, hsnoc⟩
  · intro t w1 y t1 w2 hsteps hstep hkept
    obtain ⟨steps, hsteps⟩ := hsteps
    obtain ⟨info, hfrom⟩ := step_eq_some hstep
    have hsnoc := hsteps.snoc hfrom
    have hresult : Step.result isEmpty (info, y) = some y := by
      cases y with
      | error e => rfl
      | ok x =>
        have hempty : isEmpty x = false := hkept x rfl
        unfold Step.result
        simp only [hempty, Bool.false_eq_true, if_false]
    rw [hresult] at hsnoc
    exact ⟨_, hsnoc⟩

/-- Calls of a subscription around the cursor, whose parts are so many steps each. -/
theorem stepsOf_part {next : σ → Rpc (Except ε α × σ)} {part : Sub → Rpc (Except ε α × Sub)}
    (whole : Sub → σ) (hnext : ∀ s, next (whole s) = (fun p => (p.1, whole p.2)) <$> part s)
    (hpart : ∀ {t s' : Sub} {w1 w' : RpcWorld} {rs : List (Except ε α)} {r : Except ε α}
      {steps : List (Step ε α)}, StepsOf isEmpty take s t w w1 rs steps →
        part t w1 = some ((r, s'), w') →
          ∃ steps, StepsOf isEmpty take s s' w w' (rs ++ [r]) steps)
    {n : Nat} {u : σ} (h : calls next n (whole s) w = some ((rs, u), w')) :
    ∃ s' steps, u = whole s' ∧ StepsOf isEmpty take s s' w w' rs steps := by
  obtain ⟨s', rfl, hcalls⟩ := calls_part whole hnext h
  have hrun := calls_rule (fun rs t w1 => ∃ steps, StepsOf isEmpty take s t w w1 rs steps)
    ?_ [] ⟨[], .nil s w⟩ hcalls
  · obtain ⟨steps, hsteps⟩ := hrun
    exact ⟨s', steps, rfl, hsteps⟩
  · intro rs t w1 r t' w2 hsteps hstep
    obtain ⟨steps, hsteps⟩ := hsteps
    exact hpart hsteps hstep

/-- Calls of a subscription around the cursor that take one step each. -/
theorem stepsOf_calls {next : σ → Rpc (Except ε α × σ)} (whole : Sub → σ)
    (hnext : ∀ s, next (whole s) = (fun p => (p.1, whole p.2)) <$> s.step op ofRpcError read)
    {n : Nat} {u : σ} (h : calls next n (whole s) w = some ((rs, u), w')) :
    ∃ s' steps, u = whole s' ∧
      StepsOf (fun _ => false) (stepFrom op ofRpcError read) s s' w w' rs steps :=
  stepsOf_part whole hnext StepsOf.step h

/-- Calls of one that step on over blocks with nothing to deliver. -/
theorem stepsOf_nonEmpty {next : σ → Rpc (Except ε α × σ)} (isEmpty : α → Bool)
    (ofRpcError : RpcError → ε) (read : Sub → BlockInfo → Rpc (Except ε α)) (whole : Sub → σ)
    (hnext : ∀ s, next (whole s) = (fun p => (p.1, whole p.2)) <$>
      s.nextNonEmpty isEmpty (Sub.step op ofRpcError read))
    {n : Nat} {u : σ} (h : calls next n (whole s) w = some ((rs, u), w')) :
    ∃ s' steps, u = whole s' ∧
      StepsOf isEmpty (stepFrom op ofRpcError read) s s' w w' rs steps :=
  stepsOf_part whole hnext StepsOf.nextNonEmpty h

/-- If what is read carries the hash of its block, the results carry the hashes of the blocks
    delivered. -/
theorem StepsOf.hashes {hashOf : α → H256}
    (hread : ∀ s info w x w', read s info w = some (.ok x, w') → hashOf x = info.hash)
    (h : StepsOf isEmpty (stepFrom op ofRpcError read) s s' w w' rs steps) :
    (successes rs).map hashOf = (delivered isEmpty steps).map BlockInfo.hash := by
  obtain ⟨⟨k, hcalls⟩, rfl⟩ := h
  refine calls_rule (fun steps _ _ =>
    (successes (steps.filterMap (Step.result isEmpty))).map hashOf
      = (delivered isEmpty steps).map BlockInfo.hash) ?_ [] rfl hcalls
  intro steps t w1 x t' w2 hsteps hstep
  have hone : (successes (x.result isEmpty).toList).map hashOf
      = (x.delivered isEmpty).toList.map BlockInfo.hash := by
    obtain ⟨⟨r, t1⟩, w3, -, hstep⟩ := bind_eq_some.mp hstep
    cases r with
    | error e =>
      obtain ⟨rfl, rfl, -⟩ := pure_pair_eq_some.mp hstep
      rfl
    | ok info =>
      obtain ⟨y, w4, hvalue, hstep⟩ := bind_eq_some.mp hstep
      cases y with
      | error e =>
        obtain ⟨rfl, rfl, -⟩ := pure_pair_eq_some.mp hstep
        rfl
      | ok y =>
        obtain ⟨rfl, rfl, -⟩ := pure_pair_eq_some.mp hstep
        have hhash := hread _ _ _ _ _ hvalue
        unfold Step.result Step.delivered
        by_cases hempty : isEmpty y = true
        · simp only [hempty, if_true]
          rfl
        · simp only [hempty]
          exact congrArg (fun hash => [hash]) hhash
  rw [filterMap_concat, delivered_append, List.map_append, ← hsteps, ← hone, ← List.map_append]
  congr 1
  exact List.filterMap_append

end

theorem withBlock_hash {value : α → Nat → H256 → β} {hashOf : β → H256}
    (hvalue : ∀ a n hash, hashOf (value a n hash) = hash)
    {read : Sub → BlockInfo → Rpc (Except ε α)}
    (s : Sub) (info : BlockInfo) (w : RpcWorld) (x : β) (w' : RpcWorld)
    (h : withBlock value read s info w = some (.ok x, w')) : hashOf x = info.hash := by
  obtain ⟨y, w1, -, h⟩ := bind_eq_some.mp h
  cases y with
  | error e =>
    obtain ⟨heq, -⟩ := pure_eq_some.mp h
    cases heq
  | ok y =>
    obtain ⟨heq, -⟩ := pure_eq_some.mp h
    cases heq
    exact hvalue _ _ _

theorem withBlock_logged {value : α → Nat → H256 → β} {read : Sub → BlockInfo → Rpc (Except ε α)}
    (hread : ∀ s info, Logged (read s info)) (s : Sub) (info : BlockInfo) :
    Logged (withBlock value read s info) := by
  refine (hread s info).bind fun x => ?_
  split
  · exact .pure _
  · exact .pure _

end Sub

/-! ## The subscriptions -/

theorem BlockEncodedExtrinsicsQuery.all_logged (query : BlockEncodedExtrinsicsQuery)
    (opts : ExtrinsicOptions) : Logged (query.all opts) := by
  unfold BlockEncodedExtrinsicsQuery.all
  split
  · exact .pure _
  · refine (Chain.systemFetchExtrinsics_logged _ _ _).bind fun x => ?_
    split
    · exact .pure _
    · exact .pure _

theorem BlockExtrinsicsQuery.all_logged {T : Type} [HasHeader T] [Decode T]
    (query : BlockExtrinsicsQuery) (opts : ExtrinsicOptions) :
    Logged (query.all opts : Rpc (Except Error (List (BlockExtrinsic T)))) := by
  refine (query.xt.all_logged _).bind fun x => ?_
  split
  · exact .pure _
  · exact .pure _

/-- Some calls of `next` with the results `rs` are these steps. -/
def LegacyBlockSub.TakesSteps (s s' : LegacyBlockSub) (w w' : RpcWorld)
    (rs : List (Except RpcError (Option LegacyBlock)))
    (steps : List (Sub.Step RpcError (Option LegacyBlock))) : Prop :=
  Sub.StepsOf (fun _ => false) (Sub.stepFrom .next id read) s.sub s'.sub w w' rs steps

namespace ExtrinsicSub

variable {T : Type} [HasHeader T] [Decode T] {opts : ExtrinsicOptions}

theorem read_logged (s : Sub) (info : BlockInfo) : Logged (read T opts s info) := by
  unfold read
  exact Sub.withBlock_logged (fun _ _ => BlockExtrinsicsQuery.all_logged _ _) s info

theorem read_hash (s : Sub) (info : BlockInfo) (w : RpcWorld) (x : ExtrinsicSubValue T)
    (w' : RpcWorld) (h : read T opts s info w = some (.ok x, w')) : x.blockHash = info.hash := by
  unfold read at h
  exact Sub.withBlock_hash (fun _ _ _ => rfl) s info w x w' h

/-- Some calls of `next` with the results `rs` are these steps. -/
def TakesSteps (s s' : ExtrinsicSub T) (w w' : RpcWorld)
    (rs : List (Except Error (ExtrinsicSubValue T)))
    (steps : List (Sub.Step Error (ExtrinsicSubValue T))) : Prop :=
  Sub.StepsOf (fun x => x.list.isEmpty) (Sub.stepFrom .next .rpcError (read T s.opts))
    s.sub s'.sub w w' rs steps

end ExtrinsicSub

namespace EncodedExtrinsicSub

variable {opts : ExtrinsicOptions}

theorem read_logged (s : Sub) (info : BlockInfo) : Logged (read opts s info) := by
  unfold read
  exact Sub.withBlock_logged (fun _ _ => BlockEncodedExtrinsicsQuery.all_logged _ _) s info

theorem read_hash (s : Sub) (info : BlockInfo) (w : RpcWorld) (x : EncodedExtrinsicSubValue)
    (w' : RpcWorld) (h : read opts s info w = some (.ok x, w')) : x.blockHash = info.hash := by
  unfold read at h
  exact Sub.withBlock_hash (fun _ _ _ => rfl) s info w x w' h

/-- Some calls of `next` with the results `rs` are these steps. -/
def TakesSteps (s s' : EncodedExtrinsicSub) (w w' : RpcWorld)
    (rs : List (Except Error EncodedExtrinsicSubValue))
    (steps : List (Sub.Step Error EncodedExtrinsicSubValue)) : Prop :=
  Sub.StepsOf (fun x => x.list.isEmpty) (Sub.stepFrom .next .rpcError (read s.opts))
    s.sub s'.sub w w' rs steps

end EncodedExtrinsicSub

namespace Sub

/-- Calls of a subscription to the best chain, whatever that does and whatever requests fail.
    They consist of steps, and if no step fails to read a block of a height at which a block
    was delivered, then no block is delivered twice. -/
theorem delivers_once {script : List Event} (hscript : ∀ e ∈ script, Consistent heightOf e)
    (n : Nat) (w' : RpcWorld) :
    (∀ (s s' : LegacyBlockSub) rs, s.sub.FollowsBest →
      calls LegacyBlockSub.next n s (start Request script) = some ((rs, s'), w') →
      (∃ steps, s.TakesSteps s' (start Request script) w' rs steps) ∧
        ∀ steps, s.TakesSteps s' (start Request script) w' rs steps →
          Spares (fun _ => false) steps →
          ((delivered (fun _ => false) steps).map BlockInfo.hash).Nodup) ∧
    (∀ (T : Type) [HasHeader T] [Decode T] (s s' : ExtrinsicSub T) rs, s.sub.FollowsBest →
      calls ExtrinsicSub.next n s (start Request script) = some ((rs, s'), w') →
      (∃ steps, s.TakesSteps s' (start Request script) w' rs steps) ∧
        ∀ steps, s.TakesSteps s' (start Request script) w' rs steps →
          Spares (fun x => x.list.isEmpty) steps →
          ((successes rs).map ExtrinsicSubValue.blockHash).Nodup) ∧
    (∀ (s s' : EncodedExtrinsicSub) rs, s.sub.FollowsBest →
      calls EncodedExtrinsicSub.next n s (start Request script) = some ((rs, s'), w') →
      (∃ steps, s.TakesSteps s' (start Request script) w' rs steps) ∧
        ∀ steps, s.TakesSteps s' (start Request script) w' rs steps →
          Spares (fun x => x.list.isEmpty) steps →
          ((successes rs).map EncodedExtrinsicSubValue.blockHash).Nodup) := by
  have hw : (start Request script).Plays (Consistent heightOf) := World.plays_start hscript
  refine ⟨fun s s' rs hs h => ⟨?_, ?_⟩, fun T _ _ s s' rs hs h => ⟨?_, ?_⟩,
    fun s s' rs hs h => ⟨?_, ?_⟩⟩
  · obtain ⟨t, steps, rfl, hsteps⟩ := stepsOf_calls LegacyBlockSub.mk (fun _ => rfl) h
    exact ⟨steps, hsteps⟩
  · intro steps hsteps hspares
    obtain ⟨k, hcalls⟩ := hsteps.run
    exact steps_nodup (fun _ _ => Chain.legacyBlock_logged _ _) hs hw hcalls hspares
  · obtain ⟨t, steps, rfl, hsteps⟩ :=
      stepsOf_nonEmpty (fun x => x.list.isEmpty) .rpcError (ExtrinsicSub.read T s.opts)
        (ExtrinsicSub.mk · s.opts) (fun _ => rfl) h
    exact ⟨steps, hsteps⟩
  · intro steps hsteps hspares
    rw [hsteps.hashes ExtrinsicSub.read_hash]
    obtain ⟨k, hcalls⟩ := hsteps.run
    exact steps_nodup ExtrinsicSub.read_logged hs hw hcalls hspares
  · obtain ⟨t, steps, rfl, hsteps⟩ :=
      stepsOf_nonEmpty (fun x => x.list.isEmpty) .rpcError (EncodedExtrinsicSub.read s.opts)
        (EncodedExtrinsicSub.mk · s.opts) (fun _ => rfl) h
    exact ⟨steps, hsteps⟩
  · intro steps hsteps hspares
    rw [hsteps.hashes EncodedExtrinsicSub.read_hash]
    obtain ⟨k, hcalls⟩ := hsteps.run
    exact steps_nodup EncodedExtrinsicSub.read_logged hs hw hcalls hspares

end Sub

/-! ## A read that fails after a reorganisation -/

/-- Blocks of the best chain from height 5, without retries. -/
def blocksFrom5 : LegacyBlockSub := ⟨.unInit (bestFrom5 (some false))⟩

def timeout : Event := .fail none (.rpc "timeout")

theorem timeout_consistent : Consistent heightOf timeout where
  head _ _ h := by cases h
  block _ _ h := by cases h
  fits _ _ h := by cases h

/-- The first read of the first block fails. -/
def failsEarly : List Event :=
  List.replicate 3 (.answer (bestView block5)) ++ timeout ::
    List.replicate 3 (.answer (bestView block5)) ++
      List.replicate 2 (.answer (bestView otherBlock5)) ++
        List.replicate 2 (.answer (bestView block6))

/-- The read of the second block fails, and then the first one is the best again. -/
def failsBetween : List Event :=
  List.replicate 4 (.answer (bestView block5)) ++
    [.answer (bestView otherBlock5), timeout] ++ List.replicate 3 (.answer (bestView block5))

theorem block5_consistent : Consistent heightOfFork (.answer (bestView block5)) :=
  bestView_consistent (by decide) (by decide) (by decide)

theorem otherBlock5_consistent : Consistent heightOfFork (.answer (bestView otherBlock5)) :=
  bestView_consistent (by decide) (by decide) (by decide)

theorem block6_consistent : Consistent heightOfFork (.answer (bestView block6)) :=
  bestView_consistent (by decide) (by decide) (by decide)

namespace Sub

/-- With nothing delivered at the height of the read that failed, both blocks of height 5 and the
    one of height 6 are delivered. -/
theorem delivers_once_failsEarly :
    ∃ rs s' w' steps, calls LegacyBlockSub.next 4 blocksFrom5 (start Request failsEarly)
        = some ((rs, s'), w') ∧
      blocksFrom5.TakesSteps s' (start Request failsEarly) w' rs steps ∧
      delivered (fun _ => false) steps = [block5, otherBlock5, block6] ∧
      ((delivered (fun _ => false) steps).map BlockInfo.hash).Nodup := by
  have hconsistent : ∀ e ∈ failsEarly, Consistent heightOfFork e := by
    intro e he
    simp only [failsEarly, List.mem_append, List.mem_cons, List.mem_replicate] at he
    rcases he with ((⟨-, rfl⟩ | rfl | ⟨-, rfl⟩) | ⟨-, rfl⟩) | ⟨-, rfl⟩
    · exact block5_consistent
    · exact timeout_consistent
    · exact block5_consistent
    · exact otherBlock5_consistent
    · exact block6_consistent
  obtain ⟨rs, s', w', steps, hrun, hsteps, hdelivered, hsteps4⟩ : ∃ rs s' w' steps,
      calls LegacyBlockSub.next 4 blocksFrom5 (start Request failsEarly) = some ((rs, s'), w') ∧
        blocksFrom5.TakesSteps s' (start Request failsEarly) w' rs steps ∧
        delivered (fun _ => false) steps = [block5, otherBlock5, block6] ∧
        steps = [(some block5, .error (.rpc "timeout")), (some block5, .ok (some emptyBlock)),
          (some otherBlock5, .ok (some emptyBlock)), (some block6, .ok (some emptyBlock))] :=
    ⟨_, _, _, _, rfl, ⟨⟨4, rfl⟩, rfl⟩, rfl, rfl⟩
  have hspares : Spares (fun _ => false) steps := by
    intro earlier info e later heq given hgiven
    rw [hsteps4] at heq
    rcases earlier with _ | ⟨first, earlier⟩
    · cases hgiven
    · rw [List.cons_append, List.cons.injEq] at heq
      have hlater : (some info, Except.error e) ∈ earlier ++ (some info, .error e) :: later :=
        List.mem_append_right _ List.mem_cons_self
      rw [← heq.2] at hlater
      simp at hlater
  have hmode : blocksFrom5.sub.FollowsBest := rfl
  exact ⟨rs, s', w', steps, hrun, hsteps, hdelivered,
    ((delivers_once hconsistent 4 w').1 _ _ rs hmode hrun).2 steps hsteps hspares⟩

/-- A block is delivered, the read of its replacement fails, and when it is the best block again
    it is delivered again. -/
theorem redelivers : ¬ ∀ (heightOf : H256 → Nat) (script : List Event),
    (∀ e ∈ script, Consistent heightOf e) → ∀ n w' (s s' : LegacyBlockSub) rs steps,
      s.sub.FollowsBest →
      calls LegacyBlockSub.next n s (start Request script) = some ((rs, s'), w') →
      s.TakesSteps s' (start Request script) w' rs steps →
      ((delivered (fun _ => false) steps).map BlockInfo.hash).Nodup := by
  intro honce
  have hconsistent : ∀ e ∈ failsBetween, Consistent heightOfFork e := by
    intro e he
    simp only [failsBetween, List.mem_append, List.mem_cons, List.mem_replicate,
      List.not_mem_nil, or_false] at he
    rcases he with (⟨-, rfl⟩ | rfl | rfl) | ⟨-, rfl⟩
    · exact block5_consistent
    · exact otherBlock5_consistent
    · exact timeout_consistent
    · exact block5_consistent
  obtain ⟨rs, s', w', steps, hrun, hsteps, hdelivered⟩ : ∃ rs s' w' steps,
      calls LegacyBlockSub.next 3 blocksFrom5 (start Request failsBetween) = some ((rs, s'), w') ∧
        blocksFrom5.TakesSteps s' (start Request failsBetween) w' rs steps ∧
        delivered (fun _ => false) steps = [block5, block5] :=
    ⟨_, _, _, _, rfl, ⟨⟨3, rfl⟩, rfl⟩, rfl⟩
  have hnodup := honce heightOfFork failsBetween hconsistent 3 w' blocksFrom5 s' rs steps rfl
    hrun hsteps
  rw [hdelivered] at hnodup
  exact absurd hnodup (by decide)

end Sub

end AvailRust
