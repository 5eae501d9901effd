/-
  The best-block cursor going forward, whatever the best chain does.

  A call returns a block at the cursor's height, one that is not on its record, or one at the
  height above (`next_climbs`); the height does not wrap around, since the cursor goes up only
  when it has seen a head above it. So the record of a cursor is one in the sense of `Levels`,
  and the blocks its calls return have heights that go up by at most one, and are all
  different (`best_stream`).
-/
import AvailRust.Lib.Levels
import AvailRust.Subscription.Cursor
import AvailRust.Subscription.Forward

namespace AvailRust

open Scale Dialogue Levels

/-! ## Moves that name blocks by their heights -/

/-- The heads a move gives have heights that are `u32`. -/
def HeadsFit (e : Event) : Prop :=
  ∀ best info, e.response (.latestBlockInfo best) = .ok info → info.height ≤ u32Max

/-- A hash that a move gives for a head or for a height is that of a block of this height. -/
structure Consistent (heightOf : H256 → Nat) (e : Event) : Prop where
  head : ∀ best info, e.response (.latestBlockInfo best) = .ok info →
    heightOf info.hash = info.height
  block : ∀ n hash, e.response (.getBlockHash (some n)) = .ok (some hash) → heightOf hash = n
  fits : HeadsFit e

variable {heightOf : H256 → Nat} {w w' : RpcWorld} {info : BlockInfo}

theorem LastNames.height (h : LastNames w info) (hw : w.Plays (Consistent heightOf)) :
    heightOf info.hash = info.height := by
  obtain ⟨q, rest, htrace, hnames⟩ := h
  have hmove : Consistent heightOf q.2 := hw.2 q (by rw [htrace]; exact List.mem_cons_self)
  rcases hnames with ⟨best, -, hhead⟩ | ⟨-, hblock⟩
  · exact hmove.head best info hhead
  · exact hmove.block info.height info.hash hblock

theorem Asked.head_fits {best : Bool} {p : Except RpcError BlockInfo → Bool}
    (h : Asked (.latestBlockInfo best) p w (.ok info) w') (hw : w.Plays HeadsFit) :
    info.height ≤ u32Max := by
  obtain ⟨new, hnew⟩ := h.after
  obtain ⟨e, rest, htrace, hresponse⟩ := h.last_move
  have hmove : HeadsFit e := (hw.after hnew).2 (_, e) (by rw [htrace]; exact List.mem_cons_self)
  exact hmove best info hresponse

/-! ## What a call returns -/

namespace BestBlockSub

variable {s s' : BestBlockSub} {r : Except RpcError BlockInfo}

/-- The height of the cursor, and the blocks it returned there. -/
def record (s : BestBlockSub) : Record H256 := ⟨s.currentBlockHeight, s.blockProcessed⟩

/-- The blocks the cursor may return: as `Serves`, and without wrapping around. -/
def Climbs (s : BestBlockSub) (info : BlockInfo) : Prop :=
  if s.blockProcessed = [] then info.height = s.currentBlockHeight
  else info.height = s.currentBlockHeight ∧ info.hash ∉ s.blockProcessed ∨
    info.height = s.currentBlockHeight + 1

/-- Going up, there is a height to go to. -/
def HasRoom (s : BestBlockSub) (info : BlockInfo) : Prop :=
  s.blockProcessed ≠ [] → info.height = s.currentBlockHeight ∨ s.currentBlockHeight < u32Max

theorem Serves.climbs (h : s.Serves info) (hroom : s.HasRoom info) : s.Climbs info := by
  unfold Serves at h
  unfold Climbs
  by_cases hp : s.blockProcessed = []
  · rw [if_pos hp] at h ⊢
    exact h
  rw [if_neg hp] at h ⊢
  rcases h with hcur | hnext
  · exact .inl hcur
  rcases hroom hp with hcur | hlt
  · rw [hcur] at hnext
    exact absurd hnext.symm (u32Add_one_ne _)
  · right
    rw [hnext]
    apply u32Add_of_lt
    unfold u32Max at hlt
    omega

theorem runHead_hasRoom (hw : w.Plays HeadsFit) (h : s.runHead w = some (.ok info, w')) :
    s.HasRoom info := by
  refine loop_rule (fun _ w => w.Plays HeadsFit)
    (fun r _ => ∀ info, r = .ok info → s.HasRoom info) ?_ ?_ hw h info rfl
  · intro u w1 u' w2 hw1 hpass
    obtain ⟨new, hnew⟩ := (s.runHeadStep_consumes u).logged _ _ _ hpass
    exact hw1.after hnew
  · intro u w1 r w2 hw1 hpass info hr hne
    subst hr
    obtain ⟨x, w3, hasked, ⟨e, -, hr⟩ | ⟨head, rfl, hr | ⟨hle, -, hcases⟩⟩⟩ :=
      runHeadStep_cases hpass
    · cases hr
    · cases hr
    have hfits := hasked.head_fits hw1
    rcases hcases with ⟨hp, -⟩ | ⟨-, hr, -, hhead⟩ | ⟨-, hother, -⟩
    · exact absurd hp hne
    · cases hr
      rcases hhead with hcur | hnext
      · exact .inl hcur.symm
      · right
        have hother := u32Add_one_ne s.currentBlockHeight
        rw [hnext] at hother
        omega
    · right
      omega

/-- The finalized height a cursor fetches, and the one it then remembers, are `u32`. -/
theorem fetch_fits {x : Except RpcError Nat} {latest : Option Nat}
    (hlatest : ∀ l ∈ s.latestFinalizedHeight, l ≤ u32Max) (hw : w.Plays HeadsFit)
    (h : s.fetchLatestFinalizedHeight w = some ((x, s.withLatest latest), w')) :
    w'.Plays HeadsFit ∧ (∀ l ∈ latest, l ≤ u32Max) ∧ ∀ f, x = .ok f → f ≤ u32Max := by
  have hsame : ∀ {other}, s.withLatest latest = s.withLatest other → latest = other :=
    fun h => congrArg latestFinalizedHeight h
  obtain ⟨f, hf, rfl, hs, rfl⟩ | ⟨-, y, hasked, hy⟩ := fetch_cases h
  · obtain rfl : latest = s.latestFinalizedHeight := hsame hs
    refine ⟨hw, hlatest, ?_⟩
    intro g hg
    cases hg
    exact hlatest f hf
  obtain ⟨new, hnew⟩ := hasked.after
  refine ⟨hw.after hnew, ?_⟩
  obtain ⟨e, rfl, rfl, hs⟩ | ⟨head, rfl, rfl, hs⟩ := hy
  · obtain rfl : latest = s.latestFinalizedHeight := hsame hs
    exact ⟨hlatest, fun f hf => by cases hf⟩
  · obtain rfl := hsame hs
    have hfits := hasked.head_fits hw
    constructor
    · intro l hl
      cases hl
      exact hfits
    · intro f hf
      cases hf
      exact hfits

/-- The remembered finalized height stays a `u32`, and so does the height of the cursor. -/
theorem next_hasRoom (hlatest : ∀ l ∈ s.latestFinalizedHeight, l ≤ u32Max)
    (hw : w.Plays HeadsFit) (h : s.next w = some ((r, s'), w')) :
    (∀ l ∈ s'.latestFinalizedHeight, l ≤ u32Max) ∧ ∀ info, r = .ok info → s.HasRoom info := by
  obtain ⟨x, latest, w1, hfetch, ⟨e, rfl, rfl⟩ | ⟨f, info, rfl, rfl, rfl, hread⟩⟩ := next_reads h
  · obtain ⟨-, hlatest1, -⟩ := fetch_fits hlatest hw hfetch
    exact ⟨hlatest1, fun info hr => by cases hr⟩
  obtain ⟨hw1, hlatest1, hknown⟩ := fetch_fits hlatest hw hfetch
  have hroom : s.HasRoom info := by
    rcases hread with ⟨hgt, -⟩ | hhead
    · exact fun _ => .inr (lt_of_lt_of_le hgt (hknown f rfl))
    · exact runHead_hasRoom (s := s.withLatest latest) hw1 hhead
  constructor
  · unfold recorded
    split
    · exact hlatest1
    · exact hlatest1
  · intro info' hr
    cases hr
    exact hroom

/-- A call fails and leaves the record as it was, or returns a block the cursor may return and
    records it. -/
theorem next_climbs (hlatest : ∀ l ∈ s.latestFinalizedHeight, l ≤ u32Max)
    (hw : w.Plays HeadsFit) (h : s.next w = some ((r, s'), w')) :
    (∀ l ∈ s'.latestFinalizedHeight, l ≤ u32Max) ∧
      ((∃ e, r = .error e) ∧ s'.record = s.record ∨
        ∃ info, r = .ok info ∧ s.Climbs info ∧ LastNames w' info ∧
          s'.record = (s.recorded info).record) := by
  obtain ⟨hlatest', hroom⟩ := next_hasRoom hlatest hw h
  refine ⟨hlatest', ?_⟩
  obtain ⟨e, latest, rfl, rfl⟩ | ⟨info, latest, rfl, hserves, rfl, hlast⟩ := next_cases h
  · exact .inl ⟨⟨e, rfl⟩, rfl⟩
  · refine .inr ⟨info, rfl, hserves.climbs (hroom info rfl), hlast, ?_⟩
    unfold recorded
    rw [withLatest_current]
    split
    · rfl
    · rfl

theorem Climbs.admits (h : s.Climbs info) (hheight : heightOf info.hash = info.height) :
    s.record.Admits heightOf info.hash := by
  unfold Record.Admits
  rw [hheight]
  exact h

theorem record_recorded (hheight : heightOf info.hash = info.height) :
    (s.recorded info).record = s.record.give heightOf info.hash := by
  unfold recorded Record.give
  rw [hheight]
  by_cases hcur : info.height = s.currentBlockHeight
  · rw [if_pos hcur, if_pos (show info.height = s.record.level from hcur)]
    rfl
  · rw [if_neg hcur, if_neg (show ¬ info.height = s.record.level from hcur)]
    rfl

end BestBlockSub

/-! ## The stream of a subscription -/

namespace Sub

variable {s s' : Sub} {r : Except RpcError BlockInfo}

/-- The subscription follows the best chain. -/
def FollowsBest : Sub → Prop
  | .unInit u => u.useBestBlock = true
  | .bestBlock s => ∀ l ∈ s.latestFinalizedHeight, l ≤ u32Max
  | .finalizedBlock _ => False

/-- The record of the cursor, any one while there is no cursor. -/
def HasRecord (r : Record H256) : Sub → Prop
  | .unInit _ => True
  | .bestBlock s => s.record = r
  | .finalizedBlock _ => False

/-- The cursor `b` that a subscription is after it returned a block: the record it had admits the
    block, and has it now. -/
structure Returned (heightOf : H256 → Nat) (s : Sub) (info : BlockInfo) (record : Record H256)
    (b : BestBlockSub) : Prop where
  height : heightOf info.hash = info.height
  before : s.HasRecord record
  admits : record.Admits heightOf info.hash
  after : b.record = record.give heightOf info.hash

theorem Returned.currentBlockHeight {record : Record H256} {b : BestBlockSub}
    (h : Returned heightOf s info record b) : b.currentBlockHeight = info.height := by
  have hlevel : b.record.level = heightOf info.hash := by
    rw [h.after]
    exact Record.level_give
  exact hlevel.trans h.height

theorem runConcrete_record {b : BestBlockSub} (hlatest : ∀ l ∈ b.latestFinalizedHeight, l ≤ u32Max)
    (hw : w.Plays (Consistent heightOf))
    (h : (Sub.bestBlock b).runConcrete .next w = some ((r, s'), w')) :
    s'.FollowsBest ∧
      ((∃ e, r = .error e) ∧ (∃ b', s' = .bestBlock b' ∧ b'.record = b.record) ∨
        ∃ info b', r = .ok info ∧ s' = .bestBlock b' ∧
          Returned heightOf (.bestBlock b) info b.record b') := by
  obtain ⟨⟨x, b'⟩, w1, hnext, h⟩ := bind_eq_some.mp h
  obtain ⟨rfl, rfl, rfl⟩ := pure_pair_eq_some.mp h
  obtain ⟨new, hnew⟩ := b.next_consumes.logged _ _ _ hnext
  obtain ⟨hlatest', hcases⟩ := BestBlockSub.next_climbs hlatest (hw.mono fun e he => he.fits) hnext
  refine ⟨hlatest', ?_⟩
  rcases hcases with ⟨herror, hrecord⟩ | ⟨info, rfl, hclimbs, hlast, hrecord⟩
  · exact .inl ⟨herror, b', rfl, hrecord⟩
  · have hheight := hlast.height (hw.after hnew)
    rw [BestBlockSub.record_recorded hheight] at hrecord
    exact .inr ⟨info, b', rfl, rfl, hheight, rfl, hclimbs.admits hheight, hrecord⟩

/-- One call of a subscription to the best chain: it fails and the record stays, or it returns a
    block the record admits, and records it. -/
theorem run_next_record (hs : s.FollowsBest) (hw : w.Plays (Consistent heightOf))
    (h : s.run .next w = some ((r, s'), w')) :
    s'.FollowsBest ∧
      ((∃ e, r = .error e) ∧ (∀ record, s'.HasRecord record → s.HasRecord record) ∨
        ∃ info record b, r = .ok info ∧ s' = .bestBlock b ∧ Returned heightOf s info record b) := by
  obtain ⟨⟨x, t⟩, w1, hmat, h⟩ := bind_eq_some.mp h
  obtain ⟨new, hnew⟩ := s.materialize_logged _ _ _ hmat
  have hw1 := hw.after hnew
  cases s with
  | finalizedBlock s => exact hs.elim
  | bestBlock b =>
    obtain ⟨rfl, rfl, rfl⟩ := pure_pair_eq_some.mp hmat
    obtain ⟨hs', hcases⟩ := runConcrete_record hs hw1 h
    refine ⟨hs', ?_⟩
    rcases hcases with ⟨herror, b', rfl, hrecord⟩ | ⟨info, b', hr, hs', hreturned⟩
    · exact .inl ⟨herror, fun record hhas => hrecord.symm.trans hhas⟩
    · exact .inr ⟨info, b.record, b', hr, hs', hreturned⟩
  | unInit u =>
    rcases materialize_cases hmat with ⟨⟨e, rfl⟩, rfl⟩ | ⟨rfl, height, rfl, -⟩
    · obtain ⟨rfl, rfl, -⟩ := pure_pair_eq_some.mp h
      exact ⟨hs, .inl ⟨⟨e, rfl⟩, fun _ _ => trivial⟩⟩
    · rw [u.cursor_best hs] at h
      have hfits : ∀ l ∈ (u.bestCursor height).latestFinalizedHeight, l ≤ u32Max := by
        intro l hl
        cases hl
      obtain ⟨hs', hcases⟩ := runConcrete_record hfits hw1 h
      refine ⟨hs', ?_⟩
      rcases hcases with ⟨herror, -⟩ | ⟨info, b', hr, hs', hreturned⟩
      · exact .inl ⟨herror, fun _ _ => trivial⟩
      · exact .inr ⟨info, _, b', hr, hs', { hreturned with before := trivial }⟩

/-- Blocks given so far, each once, and a cursor that has on record what it gave at its
    height. -/
structure Gave (heightOf : H256 → Nat) (infos : List BlockInfo) (s : Sub) : Prop where
  heights : ∀ info ∈ infos, heightOf info.hash = info.height
  covers : ∀ record, s.HasRecord record → record.Covers heightOf (infos.map BlockInfo.hash)
  nodup : (infos.map BlockInfo.hash).Nodup

section

variable {infos : List BlockInfo} {record : Record H256} {b : BestBlockSub}

theorem Gave.nothing (s : Sub) : s.Gave heightOf [] where
  heights info hinfo := by cases hinfo
  covers record _ := .nil record
  nodup := .nil

theorem Gave.kept (hgave : s.Gave heightOf infos)
    (hkept : ∀ record, s'.HasRecord record → s.HasRecord record) : s'.Gave heightOf infos where
  heights := hgave.heights
  covers record hrecord := hgave.covers record (hkept record hrecord)
  nodup := hgave.nodup

/-- The block returned was not given before. -/
theorem Gave.returned (hgave : s.Gave heightOf infos)
    (h : Returned heightOf s info record b) :
    (Sub.bestBlock b).Gave heightOf (infos ++ [info]) := by
  have hcovers := hgave.covers record h.before
  have hmap : (infos ++ [info]).map BlockInfo.hash = infos.map BlockInfo.hash ++ [info.hash] :=
    List.map_append
  refine ⟨?_, ?_, ?_⟩
  · intro info' hinfo
    rcases List.mem_append.mp hinfo with hold | hnew
    · exact hgave.heights info' hold
    · rw [List.mem_singleton.mp hnew]
      exact h.height
  · intro record' hrecord
    rw [← show b.record = record' from hrecord, h.after, hmap]
    exact hcovers.give h.admits
  · rw [hmap]
    exact hcovers.nodup h.admits hgave.nodup

/-- A cursor put back to a height at which no block was given. -/
theorem Gave.reset (hgave : (Sub.bestBlock b).Gave heightOf infos)
    (hnone : ∀ info ∈ infos, info.height ≠ b.currentBlockHeight) :
    ((Sub.bestBlock b).setBlockHeight b.currentBlockHeight).Gave heightOf infos := by
  refine ⟨hgave.heights, fun record hrecord => ?_, hgave.nodup⟩
  have hfresh : .fresh b.currentBlockHeight = record := hrecord
  rw [← hfresh]
  apply (hgave.covers b.record rfl).reset (Nat.le_refl _)
  intro hash hhash
  obtain ⟨info, hinfo, rfl⟩ := List.mem_map.mp hhash
  rw [hgave.heights info hinfo]
  exact hnone info hinfo

/-- A block that is returned by the cursor and not given on. -/
theorem Gave.skipped (hgave : s.Gave heightOf infos)
    (h : Returned heightOf s info record b) : (Sub.bestBlock b).Gave heightOf infos := by
  refine ⟨hgave.heights, fun record' hrecord => ?_, hgave.nodup⟩
  rw [← show b.record = record' from hrecord, h.after]
  exact (hgave.covers record h.before).skip h.admits

end

/-- The blocks calls have returned so far: they go up by one at most. -/
structure Streams (heightOf : H256 → Nat) (infos : List BlockInfo) (s : Sub) : Prop where
  gave : s.Gave heightOf infos
  last : ∀ record, s.HasRecord record → record.Last heightOf (infos.map BlockInfo.hash)
  climbs : (infos.map BlockInfo.hash).IsChain fun a b =>
    heightOf a ≤ heightOf b ∧ heightOf b ≤ heightOf a + 1

theorem Streams.nothing (s : Sub) : s.Streams heightOf [] where
  gave := .nothing s
  last record _ := .nil record
  climbs := .nil

theorem Streams.next {infos : List BlockInfo} (hs : s.FollowsBest)
    (hstreams : s.Streams heightOf infos) (hw : w.Plays (Consistent heightOf))
    (h : s.run .next w = some ((r, s'), w')) :
    s'.FollowsBest ∧ s'.Streams heightOf (infos ++ r.toOption.toList) := by
  obtain ⟨hs', hcases⟩ := run_next_record hs hw h
  refine ⟨hs', ?_⟩
  rcases hcases with ⟨⟨e, rfl⟩, hkept⟩ | ⟨info, record, b, rfl, rfl, hreturned⟩
  · have hnone : infos ++ (Except.error e : Except RpcError BlockInfo).toOption.toList = infos :=
      List.append_nil infos
    rw [hnone]
    refine ⟨hstreams.gave.kept hkept, fun record hrecord => ?_, hstreams.climbs⟩
    exact hstreams.last record (hkept record hrecord)
  · change Streams heightOf (infos ++ [info]) (.bestBlock b)
    have hmap : (infos ++ [info]).map BlockInfo.hash = infos.map BlockInfo.hash ++ [info.hash] :=
      List.map_append
    refine ⟨hstreams.gave.returned hreturned, fun record' hrecord => ?_, ?_⟩
    · rw [← show b.record = record' from hrecord, hreturned.after, hmap]
      exact .give
    · rw [hmap]
      exact (hstreams.last record hreturned.before).climbs hreturned.admits hstreams.climbs

end Sub

/-! ## A reorganisation -/

def emptyBlock : LegacyBlock where
  header := {
    parentHash := FixedBytes.fill 32 4
    number := ⟨5, by decide⟩
    stateRoot := FixedBytes.fill 32 0
    extrinsicsRoot := FixedBytes.fill 32 0
    digest := ⟨Vec.nil⟩
    extension := .V3 ⟨⟨0, Vec.nil⟩, ⟨0, 0, Vec.nil, FixedBytes.fill 32 0⟩⟩ }
  extrinsics := []
  justifications := none

/-- A node whose best block is this one. -/
def bestView (info : BlockInfo) : View
  | .latestBlockInfo true => .ok info
  | .latestBlockInfo false => .ok ⟨FixedBytes.fill 32 4, 4⟩
  | .getBlockHash (some n) => .ok (if n = info.height then some info.hash else none)
  | .getBlock _ => .ok (some emptyBlock)
  | _ => .error (.rpc "not asked")

theorem bestView_consistent (hfinalized : heightOf (FixedBytes.fill 32 4) = 4)
    (hheight : heightOf info.hash = info.height) (hfits : info.height ≤ u32Max) :
    Consistent heightOf (.answer (bestView info)) where
  head best info' h := by
    cases best with
    | true => cases h; exact hheight
    | false => cases h; exact hfinalized
  block n hash h := by
    change Except.ok (if n = info.height then some info.hash else none) = _ at h
    split at h
    case isTrue heq => cases h; rw [heq]; exact hheight
    case isFalse => cases h
  fits best info' h := by
    cases best with
    | true => cases h; exact hfits
    | false => cases h; exact (by decide)

/-- Two blocks at height 5 and one at height 6. -/
def block5 : BlockInfo := ⟨FixedBytes.fill 32 5, 5⟩
def otherBlock5 : BlockInfo := ⟨FixedBytes.fill 32 15, 5⟩
def block6 : BlockInfo := ⟨FixedBytes.fill 32 6, 6⟩

def heightOfFork (hash : H256) : Nat :=
  if hash = FixedBytes.fill 32 4 then 4 else if hash = block6.hash then 6 else 5

/-- The best block of height 5 is replaced, and then the chain goes on. -/
def reorganised : List Event :=
  List.replicate 3 (.answer (bestView block5)) ++
    [.answer (bestView otherBlock5), .answer (bestView block6)]

theorem reorganised_consistent : ∀ e ∈ reorganised, Consistent heightOfFork e := by
  intro e he
  rcases List.mem_append.mp he with hfirst | hlater
  · rw [List.eq_of_mem_replicate hfirst]
    exact bestView_consistent (by decide) (by decide) (by decide)
  · rcases List.mem_cons.mp hlater with hother | hlast
    · rw [hother]
      exact bestView_consistent (by decide) (by decide) (by decide)
    · rw [List.mem_singleton.mp hlast]
      exact bestView_consistent (by decide) (by decide) (by decide)

/-- A subscription to the best chain, from height 5. -/
def bestFrom5 (retryOnError : Option Bool) : UnInitSub where
  client := .devnet
  useBestBlock := true
  blockHeight := some 5
  pollRate := 3
  retryOnError := retryOnError

namespace Sub

/-- Whatever the best chain does, the blocks that calls of `next` return have heights that never
    fall and go up by one at most, and no block is returned twice. -/
theorem best_stream {script : List Event} (hscript : ∀ e ∈ script, Consistent heightOf e)
    (hs : s.FollowsBest) {n : Nat} {rs : List (Except RpcError BlockInfo)}
    (h : calls Sub.next n s (start Request script) = some ((rs, s'), w')) :
    ((successes rs).IsChain fun a b => a.height ≤ b.height ∧ b.height ≤ a.height + 1) ∧
      ((successes rs).map BlockInfo.hash).Nodup := by
  have hrun := calls_rule (fun rs s w => w.Plays (Consistent heightOf) ∧ s.FollowsBest ∧
    s.Streams heightOf (successes rs)) ?_ [] ⟨World.plays_start hscript, hs, .nothing s⟩ h
  · have hstreams := hrun.2.2
    refine ⟨?_, hstreams.gave.nodup⟩
    have hchain := (List.isChain_map _).mp hstreams.climbs
    refine hchain.imp_of_mem_imp fun a b ha hb hab => ?_
    rw [hstreams.gave.heights a ha, hstreams.gave.heights b hb] at hab
    exact hab
  · intro rs s w r s' w' hinvariant hnext
    obtain ⟨hw, hs, hstreams⟩ := hinvariant
    obtain ⟨new, hnew⟩ := (s.run_consumes .next).logged _ _ _ hnext
    rw [successes_append]
    exact ⟨hw.after hnew, hstreams.next hs hw hnext⟩

/-- Both blocks of height 5 are returned, and then that of height 6. -/
theorem best_stream_reorganised :
    ∃ rs s' w', calls Sub.next 3 (.unInit (bestFrom5 none)) (start Request reorganised)
        = some ((rs, s'), w') ∧
      successes rs = [block5, otherBlock5, block6] ∧
      ((successes rs).IsChain fun a b => a.height ≤ b.height ∧ b.height ≤ a.height + 1) ∧
      ((successes rs).map BlockInfo.hash).Nodup := by
  have hmode : (Sub.unInit (bestFrom5 none)).FollowsBest := rfl
  obtain ⟨rs, s', w', hrun, hreturned⟩ : ∃ rs s' w',
      calls Sub.next 3 (.unInit (bestFrom5 none)) (start Request reorganised)
        = some ((rs, s'), w') ∧ successes rs = [block5, otherBlock5, block6] :=
    ⟨_, _, _, rfl, rfl⟩
  exact ⟨rs, s', w', hrun, hreturned, best_stream reorganised_consistent hmode hrun⟩

end Sub

end AvailRust
