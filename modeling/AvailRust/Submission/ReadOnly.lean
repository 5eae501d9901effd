/-
  Programs that submit nothing: the queries, the block cursor, and the search for a receipt with
  what can be asked of it.
-/
import AvailRust.Submission.AtMostOnce
import AvailRust.Submission.FollowUps

namespace AvailRust

open Scale Dialogue

/-! ## The heads -/

theorem Finalized.blockInfo_keeps (f : Finalized) : Keeps submitted f.blockInfo :=
  withRetryOnError_keeps (call_keeps_submitted (r := .latestBlockInfo false) nofun) _

theorem Finalized.blockHeight_keeps (f : Finalized) : Keeps submitted f.blockHeight :=
  f.blockInfo_keeps.bind fun _ => .pure _

theorem Best.blockInfo_keeps (b : Best) : Keeps submitted b.blockInfo :=
  withRetryOnError_keeps (call_keeps_submitted (r := .latestBlockInfo true) nofun) _

theorem Best.blockHeight_keeps (b : Best) : Keeps submitted b.blockHeight :=
  b.blockInfo_keeps.bind fun _ => .pure _

/-! ## The cursor -/

theorem blockAt_keeps (chain : Chain) (height : Nat) : Keeps submitted (blockAt chain height) := by
  refine (blockHash_keeps chain (some height)).bind fun x => ?_
  match x with
  | .error e => exact .pure _
  | .ok none => exact .pure _
  | .ok (some hash) => exact .pure _

namespace FinalizedBlockSub

theorem fetchLatestFinalizedHeight_keeps (s : FinalizedBlockSub) :
    Keeps submitted s.fetchLatestFinalizedHeight := by
  unfold fetchLatestFinalizedHeight
  split
  · exact .pure _
  · refine (Finalized.blockHeight_keeps _).bind fun x => ?_
    cases x with
    | error e => exact .pure _
    | ok height => exact .pure _

theorem runHeadStep_keeps (s : FinalizedBlockSub) (u : Unit) :
    Keeps submitted (s.runHeadStep u) := by
  refine (Finalized.blockInfo_keeps _).bind fun x => ?_
  cases x with
  | error e => exact .pure _
  | ok head =>
    simp only
    split
    · exact (Keeps.pure ()).bind fun _ => .pure _
    · split
      · exact .pure _
      · exact (blockAt_keeps _ _).bind fun _ => .pure _

theorem next_keeps (s : FinalizedBlockSub) : Keeps submitted s.next := by
  refine s.fetchLatestFinalizedHeight_keeps.bind fun p => ?_
  match p with
  | (.error e, s) => exact .pure _
  | (.ok height, s) =>
    have hfetch : Keeps submitted
        (if height > s.nextBlockHeight then s.runHistorical else s.runHead) := by
      split
      · exact blockAt_keeps _ _
      · exact .loop s.runHeadStep_keeps ()
    refine hfetch.bind fun x => ?_
    cases x with
    | error e => exact .pure _
    | ok info => exact .pure _

end FinalizedBlockSub

namespace BestBlockSub

theorem fetchLatestFinalizedHeight_keeps (s : BestBlockSub) :
    Keeps submitted s.fetchLatestFinalizedHeight := by
  unfold fetchLatestFinalizedHeight
  split
  · exact .pure _
  · refine (Finalized.blockHeight_keeps _).bind fun x => ?_
    cases x with
    | error e => exact .pure _
    | ok height => exact .pure _

theorem runHeadStep_keeps (s : BestBlockSub) (u : Unit) : Keeps submitted (s.runHeadStep u) := by
  refine (Best.blockInfo_keeps _).bind fun x => ?_
  cases x with
  | error e => exact .pure _
  | ok head =>
    simp only
    split
    · exact (Keeps.pure ()).bind fun _ => .pure _
    · split
      · exact (blockAt_keeps _ _).bind fun _ => .pure _
      · split
        · exact .pure _
        · exact (blockAt_keeps _ _).bind fun _ => .pure _

theorem next_keeps (s : BestBlockSub) : Keeps submitted s.next := by
  refine s.fetchLatestFinalizedHeight_keeps.bind fun p => ?_
  match p with
  | (.error e, s) => exact .pure _
  | (.ok height, s) =>
    simp only
    split
    · refine (blockAt_keeps _ _ : Keeps submitted s.runHistorical).bind fun x => ?_
      cases x with
      | error e => exact .pure _
      | ok info => exact .pure _
    · refine (Keeps.loop s.runHeadStep_keeps () : Keeps submitted s.runHead).bind fun x => ?_
      cases x with
      | error e => exact .pure _
      | ok info =>
        simp only
        split
        · exact .pure _
        · exact .pure _

end BestBlockSub

namespace Sub

theorem materialize_keeps (s : Sub) : Keeps submitted s.materialize := by
  cases s with
  | unInit u =>
    have hstart : Keeps submitted u.startHeight := by
      unfold UnInitSub.startHeight
      split
      · exact .pure _
      · split
        · exact Best.blockHeight_keeps _
        · exact Finalized.blockHeight_keeps _
    have hbuild : Keeps submitted u.build := by
      refine hstart.bind fun x => ?_
      cases x with
      | error e => exact .pure _
      | ok height =>
        simp only
        split
        · exact .pure _
        · exact .pure _
    refine hbuild.bind fun x => ?_
    cases x with
    | error e => exact .pure _
    | ok concrete => exact .pure _
  | bestBlock s => exact .pure _
  | finalizedBlock s => exact .pure _

theorem next_keeps (s : Sub) : Keeps submitted s.next := by
  refine s.materialize_keeps.bind fun p => ?_
  match p with
  | (.error e, s) => exact .pure _
  | (.ok _, .bestBlock s) => exact s.next_keeps.bind fun _ => .pure _
  | (.ok _, .finalizedBlock s) => exact s.next_keeps.bind fun _ => .pure _
  | (.ok _, .unInit u) =>
    intro w a w' h
    cases h

end Sub

/-! ## Receipts -/

theorem systemFetchExtrinsics_keeps (c : Chain) (blockId : HashStringNumber)
    (opts : ExtrinsicOpts) : Keeps submitted (c.systemFetchExtrinsics blockId opts) := by
  unfold Chain.systemFetchExtrinsics
  split
  · exact .pure _
  · refine (withRetryOnError_keeps
      (call_keeps_submitted (r := .fetchExtrinsics _ opts) nofun) _).bind fun x => ?_
    cases x with
    | error e => exact .pure _
    | ok infos => exact .pure _

theorem systemFetchEvents_keeps (c : Chain) (blockId : HashStringNumber) (opts : EventOpts) :
    Keeps submitted (c.systemFetchEvents blockId opts) := by
  refine (toHash_keeps c blockId).bind fun x => ?_
  cases x with
  | error e => exact .pure _
  | ok hash =>
    refine (withRetryOnError_keeps
      (call_keeps_submitted (r := .fetchEvents hash opts) nofun) _).bind fun y => ?_
    cases y with
    | error e => exact .pure _
    | ok groups => exact .pure _

namespace TransactionReceipt

theorem fromRange_keeps (client : Client) (extHash : HashString) (blockStart blockEnd : Nat)
    (useBestBlock : Bool) :
    Keeps submitted (fromRange client extHash blockStart blockEnd useBestBlock) := by
  unfold fromRange
  split
  · exact .pure _
  · split
    · exact .pure _
    · refine .loop (fun sub => sub.next_keeps.bind fun p => ?_) _
      match p with
      | (.error e, sub) => exact .pure _
      | (.ok info, sub) =>
        refine (systemFetchExtrinsics_keeps _ _ _).bind fun x => ?_
        cases x with
        | error e => exact .pure _
        | ok infos =>
          simp only
          split
          · exact .pure _
          · split
            · exact .pure _
            · exact .pure _

theorem events_keeps (r : TransactionReceipt) : Keeps submitted r.events := by
  have hall : ∀ filter, Keeps submitted (r.block.events.all filter) := by
    intro filter
    refine (systemFetchEvents_keeps _ _ _).bind fun x => ?_
    cases x with
    | error e => exact .pure _
    | ok groups => exact .pure _
  have hextrinsic : Keeps submitted (r.block.events.extrinsic r.extIndex) := by
    refine (hall _).bind fun x => ?_
    cases x with
    | error e => exact .pure _
    | ok events => exact .pure _
  refine hextrinsic.bind fun x => ?_
  cases x with
  | error e => exact .pure _
  | ok events =>
    simp only
    split
    · exact .pure _
    · exact .pure _

end TransactionReceipt

end AvailRust
