/-
  Whether a failing `next` or `prev` leaves the cursor where it was.

  `ErrorAtomic` is the promise of the documentation: after an error the cursor is at the same
  position, and the same operation, tried again on a node that is up, returns the block the
  failed call should have returned. `next` keeps it. `prev` moves the cursor before its first
  request, so it keeps it only at height 0 with nothing processed, where there is nothing to
  move (`errorAtomic_iff`).
-/
import AvailRust.Subscription.Cursor

namespace AvailRust

open Dialogue

namespace Sub

/-- Where a cursor stands: the height served next and the record of blocks processed. -/
inductive Position where
  | unInit (blockHeight : Option Nat)
  | finalized (height : Nat) (processedPreviousBlock : Bool)
  | best (height : Nat) (blockProcessed : List H256)
deriving DecidableEq

def position : Sub → Position
  | .unInit s => .unInit s.blockHeight
  | .bestBlock s => .best s.currentBlockHeight s.blockProcessed
  | .finalizedBlock s => .finalized s.nextBlockHeight s.processedPreviousBlock

def Initialised : Sub → Prop
  | .unInit _ => False
  | .bestBlock _ => True
  | .finalizedBlock _ => True

def latest : Sub → Option Nat
  | .unInit _ => none
  | .bestBlock s => s.latestFinalizedHeight
  | .finalizedBlock s => s.latestFinalizedHeight

/-- Height 0 and no block processed. -/
def AtOrigin : Sub → Prop
  | .unInit _ => False
  | .bestBlock s => s.currentBlockHeight = 0 ∧ s.blockProcessed = []
  | .finalizedBlock s => s.nextBlockHeight = 0 ∧ s.processedPreviousBlock = false

/-- The block `next` owes its caller on a chain: the one at the cursor, or past it when the
    record holds a block of that height. -/
def dueNext (c : Heads) : Sub → Option BlockInfo
  | .unInit _ => none
  | .finalizedBlock s =>
    if s.nextBlockHeight ≤ c.finalized then some (c.infoAt s.nextBlockHeight) else none
  | .bestBlock s =>
    if s.blockProcessed = [] then
      if s.currentBlockHeight ≤ c.best then some (c.infoAt s.currentBlockHeight) else none
    else if s.currentBlockHeight < c.best then some (c.infoAt (s.currentBlockHeight + 1))
    else if s.currentBlockHeight = c.best ∧ c.hashAt c.best ∉ s.blockProcessed then
      some (c.infoAt c.best)
    else none

def stepBack : Sub → Sub
  | .unInit s => .unInit s
  | .bestBlock s => .bestBlock s.stepBack
  | .finalizedBlock s => .finalizedBlock s.stepBack

/-- The block an operation owes its caller. -/
def due (c : Heads) (s : Sub) : Op → Option BlockInfo
  | .next => s.dueNext c
  | .prev => s.stepBack.dueNext c

/-- The chain has not fallen behind what the cursor knows of it: the finalized height it
    remembers is still finalized, and a head above the cursor is not a block of its record. -/
def Agrees (c : Heads) (s : Sub) : Prop :=
  (∀ f ∈ s.latest, f ≤ c.finalized) ∧ c.best < u32Max ∧
    match s with
    | .bestBlock s => s.currentBlockHeight < c.best → c.hashAt c.best ∉ s.blockProcessed
    | _ => True

/-- After any failing run the cursor is where it was, and the same operation returns the
    block it owed as soon as the node is up. -/
def ErrorAtomic (op : Op) (s : Sub) : Prop :=
  ∀ script e s' w', s.run op (start Request script) = some ((.error e, s'), w') →
    s'.position = s.position ∧
    ∀ c v, Shows v c → s'.Agrees c → ∀ info, s.due c op = some info →
      ∃ k s'' w'', s'.run op (start Request (List.replicate k (.answer v)))
        = some ((.ok info, s''), w'')

end Sub

/-! ## A node that does not change -/

namespace FinalizedBlockSub

/-- A node that is down makes `next` fail. -/
theorem next_steady_down (s : FinalizedBlockSub) (err : RpcError) :
    ∃ s', Steady (.fail none err) s.next (.error err, s') := by
  have hhead : Steady (.fail none err) s.runHead (.error err) :=
    Steady.loop_exit ((Chain.blockInfo_steady _ (.fail none err) false).bind (.pure _ _))
  have hfetch : Steady (.fail none err) s.fetchLatestFinalizedHeight
      (s.latestFinalizedHeight.elim (.error err) .ok, s) := heightOnce_steady_down err
  refine ⟨s, hfetch.bind ?_⟩
  cases s.latestFinalizedHeight with
  | some f =>
    have hresult : Steady (.fail none err)
        (if f > s.nextBlockHeight then s.runHistorical else s.runHead) (.error err) := by
      split
      · exact blockAt_steady_error _ _ rfl
      · exact hhead
    exact hresult.bind (.pure _ _)
  | none => exact .pure _ _

end FinalizedBlockSub

namespace BestBlockSub

variable {v : View} {c : Heads} {s : BestBlockSub}

/-- What a due block says about where the cursor is. -/
theorem due_cases {info : BlockInfo} (h : (Sub.bestBlock s).dueNext c = some info) :
    (s.blockProcessed = [] ∧ s.currentBlockHeight ≤ c.best ∧ info = c.infoAt s.currentBlockHeight) ∨
    (s.blockProcessed ≠ [] ∧ s.currentBlockHeight < c.best ∧
      info = c.infoAt (s.currentBlockHeight + 1)) ∨
    (s.blockProcessed ≠ [] ∧ s.currentBlockHeight = c.best ∧ c.hashAt c.best ∉ s.blockProcessed ∧
      info = c.infoAt c.best) := by
  simp only [Sub.dueNext] at h
  split_ifs at h with hp hle hlt heq
  · exact .inl ⟨hp, hle, (Option.some.inj h).symm⟩
  · exact .inr (.inl ⟨hp, hlt, (Option.some.inj h).symm⟩)
  · exact .inr (.inr ⟨hp, heq.1, heq.2, (Option.some.inj h).symm⟩)

theorem runHistorical_steady (hv : Shows v c) (hbest : s.blockProcessed ≠ [] → c.best < u32Max)
    {info : BlockInfo} (hdue : (Sub.bestBlock s).dueNext c = some info)
    (hlt : s.currentBlockHeight < c.best) : Steady (.answer v) s.runHistorical (.ok info) := by
  unfold runHistorical
  obtain ⟨hp, hle, rfl⟩ | ⟨hp, -, rfl⟩ | ⟨-, heq, -, -⟩ := due_cases hdue
  · simp only [hp, List.isEmpty_nil, if_true]
    exact blockAt_steady (e := .answer v) _ (hv.blockHash _ hle)
  · have hadd : u32Add s.currentBlockHeight 1 = s.currentBlockHeight + 1 :=
      u32Add_of_lt (by have := hbest hp; unfold u32Max at this; omega)
    have hne : s.blockProcessed.isEmpty = false := by simpa using hp
    simp only [hne, Bool.false_eq_true, if_false, hadd]
    exact blockAt_steady (e := .answer v) _ (hv.blockHash _ hlt)
  · omega

theorem runHead_steady (hv : Shows v c) (hbest : s.blockProcessed ≠ [] → c.best < u32Max)
    (hhead : s.currentBlockHeight < c.best → c.hashAt c.best ∉ s.blockProcessed) {info : BlockInfo}
    (hdue : (Sub.bestBlock s).dueNext c = some info) :
    Steady (.answer v) s.runHead (.ok info) := by
  refine Steady.loop_exit ((Chain.blockInfo_steady _ (.answer v) true).bind ?_)
  simp only [Event.response, hv.bestHead, Heads.infoAt]
  obtain ⟨hp, hle, rfl⟩ | ⟨hp, hlt, rfl⟩ | ⟨hp, heq, hnot, rfl⟩ := due_cases hdue
  · rw [if_neg (by simp [hp]; omega), if_pos (by simp [hp])]
    exact (blockAt_steady (e := .answer v) _ (hv.blockHash _ hle)).bind (.pure _ _)
  · have hadd : u32Add s.currentBlockHeight 1 = s.currentBlockHeight + 1 :=
      u32Add_of_lt (by have := hbest hp; unfold u32Max at this; omega)
    rw [if_neg (not_or.mpr ⟨by omega, hhead hlt⟩), if_neg (by simpa using hp)]
    split
    case isTrue hnext =>
      have heq : s.currentBlockHeight + 1 = c.best := by omega
      rw [heq]
      exact .pure _ _
    case isFalse =>
      rw [hadd]
      exact (blockAt_steady (e := .answer v) _ (hv.blockHash _ hlt)).bind (.pure _ _)
  · rw [if_neg (not_or.mpr ⟨by omega, hnot⟩), if_neg (by simpa using hp), if_pos (.inl heq)]
    exact .pure _ _

/-- A node that is up serves the block the cursor owes, and the cursor records it. -/
theorem next_steady (hv : Shows v c) (hlatest : ∀ f ∈ s.latestFinalizedHeight, f ≤ c.finalized)
    (hbest : s.blockProcessed ≠ [] → c.best < u32Max)
    (hhead : s.currentBlockHeight < c.best → c.hashAt c.best ∉ s.blockProcessed) {info : BlockInfo}
    (hdue : (Sub.bestBlock s).dueNext c = some info) :
    ∃ f ≤ c.finalized, Steady (.answer v) s.next
      (.ok info, (s.withLatest (some f)).recorded info) := by
  obtain ⟨f, hf, hfetch⟩ : ∃ f ≤ c.finalized,
      Steady (.answer v) s.fetchLatestFinalizedHeight (.ok f, s.withLatest (some f)) := by
    refine ⟨_, ?_, fetch_steady hv.toFinalized⟩
    cases hl : s.latestFinalizedHeight with
    | none => exact le_rfl
    | some l => exact hlatest l hl
  let s1 := s.withLatest (some f)
  refine ⟨f, hf, hfetch.bind ?_⟩
  by_cases hlt : f > s1.currentBlockHeight
  · have hbelow : s1.currentBlockHeight < c.best := by have := c.finalized_le_best; omega
    have hrun := runHistorical_steady (s := s1) hv hbest hdue hbelow
    obtain ⟨k, w', hw', -⟩ := hrun.run
    simp only
    rw [if_pos hlt, (runHistorical_serves hw').2]
    exact hrun.bind (.pure _ _)
  · have hrun := runHead_steady (s := s1) hv hbest hhead hdue
    simp only
    rw [if_neg hlt]
    refine hrun.bind ?_
    unfold recorded
    simp only
    by_cases hh : info.height = s1.currentBlockHeight
    · rw [if_pos hh, if_pos hh]
      exact .pure _ _
    · rw [if_neg hh, if_neg hh]
      exact .pure _ _

/-- A node that is down makes `next` fail. -/
theorem next_steady_down (s : BestBlockSub) (err : RpcError) :
    ∃ s', Steady (.fail none err) s.next (.error err, s') := by
  have hhead : Steady (.fail none err) s.runHead (.error err) :=
    Steady.loop_exit ((Chain.blockInfo_steady _ (.fail none err) true).bind (.pure _ _))
  have hfetch : Steady (.fail none err) s.fetchLatestFinalizedHeight
      (s.latestFinalizedHeight.elim (.error err) .ok, s) := heightOnce_steady_down err
  refine ⟨s, hfetch.bind ?_⟩
  cases s.latestFinalizedHeight with
  | some f =>
    simp only [Option.elim_some]
    split
    · exact (blockAt_steady_error _ _ rfl).bind (.pure _ _)
    · exact hhead.bind (.pure _ _)
  | none => exact .pure _ _

end BestBlockSub

namespace Sub

/-- The subscription with another remembered finalized height. -/
def withLatest (latest : Option Nat) : Sub → Sub
  | .unInit s => .unInit s
  | .bestBlock s => .bestBlock (s.withLatest latest)
  | .finalizedBlock s => .finalizedBlock (s.withLatest latest)

theorem position_withLatest (s : Sub) (latest : Option Nat) :
    (s.withLatest latest).position = s.position := by
  cases s <;> rfl

theorem dueNext_withLatest (c : Heads) (s : Sub) (latest : Option Nat) :
    (s.withLatest latest).dueNext c = s.dueNext c := by
  cases s <;> rfl

theorem initialised_withLatest {s : Sub} (latest : Option Nat) (h : s.Initialised) :
    (s.withLatest latest).Initialised := by
  cases s with
  | unInit s => exact h
  | bestBlock s => trivial
  | finalizedBlock s => trivial

theorem atOrigin_withLatest {s : Sub} (latest : Option Nat) (h : s.AtOrigin) :
    (s.withLatest latest).AtOrigin := by
  cases s <;> exact h

theorem initialised_stepBack {s : Sub} (h : s.Initialised) : s.stepBack.Initialised := by
  cases s with
  | unInit s => exact h
  | bestBlock s => trivial
  | finalizedBlock s => trivial

/-- `prev` is `next` from one step back. -/
theorem run_prev {s : Sub} (h : s.Initialised) : s.run .prev = s.stepBack.run .next := by
  cases s with
  | unInit s => exact h.elim
  | bestBlock s => rfl
  | finalizedBlock s => rfl

theorem next_error {s s' : Sub} {w w' : RpcWorld} {e : RpcError} (hs : s.Initialised)
    (h : s.run .next w = some ((.error e, s'), w')) : ∃ latest, s' = s.withLatest latest := by
  cases s with
  | unInit s => exact hs.elim
  | bestBlock s =>
    obtain ⟨⟨r, t⟩, w1, hnext, h⟩ := bind_eq_some.mp (show (s.next >>= fun p =>
      pure (p.1, Sub.bestBlock p.2)) w = some ((.error e, s'), w') from h)
    obtain ⟨rfl, rfl, -⟩ := pure_pair_eq_some.mp h
    obtain ⟨_, latest, -, rfl⟩ | ⟨_, _, hr, -⟩ := BestBlockSub.next_cases hnext
    · exact ⟨latest, rfl⟩
    · cases hr
  | finalizedBlock s =>
    obtain ⟨⟨r, t⟩, w1, hnext, h⟩ := bind_eq_some.mp (show (s.next >>= fun p =>
      pure (p.1, Sub.finalizedBlock p.2)) w = some ((.error e, s'), w') from h)
    obtain ⟨rfl, rfl, -⟩ := pure_pair_eq_some.mp h
    obtain ⟨_, latest, -, rfl⟩ | ⟨_, _, hr, -⟩ := FinalizedBlockSub.next_cases hnext
    · exact ⟨latest, rfl⟩
    · cases hr

/-- A node that is up serves the block `next` owes. -/
theorem next_steady {c : Heads} {v : View} {s : Sub} (hv : Shows v c) (hs : s.Agrees c)
    {info : BlockInfo} (hdue : s.dueNext c = some info) :
    ∃ s', Steady (.answer v) (s.run .next) (.ok info, s') := by
  cases s with
  | unInit s => simp [dueNext] at hdue
  | bestBlock s =>
    obtain ⟨hlatest, hbest, hhead⟩ := hs
    obtain ⟨f, -, h⟩ := BestBlockSub.next_steady hv hlatest (fun _ => hbest) hhead hdue
    exact ⟨.bestBlock _, (Steady.pure _ _).bind (h.bind (.pure _ _))⟩
  | finalizedBlock s =>
    simp only [dueNext, Option.ite_none_right_eq_some, Option.some.injEq] at hdue
    obtain ⟨hn, rfl⟩ := hdue
    obtain ⟨f, -, h⟩ := FinalizedBlockSub.next_steady hv.toFinalized hs.1 hn
    exact ⟨.finalizedBlock _, (Steady.pure _ _).bind (h.bind (.pure _ _))⟩

/-- A node that is down makes `next` fail. -/
theorem next_steady_down {s : Sub} (hs : s.Initialised) (err : RpcError) :
    ∃ s', Steady (.fail none err) (s.run .next) (.error err, s') := by
  cases s with
  | unInit s => exact hs.elim
  | bestBlock s =>
    obtain ⟨s', h⟩ := BestBlockSub.next_steady_down s err
    exact ⟨.bestBlock s', (Steady.pure _ _).bind (h.bind (.pure _ _))⟩
  | finalizedBlock s =>
    obtain ⟨s', h⟩ := FinalizedBlockSub.next_steady_down s err
    exact ⟨.finalizedBlock s', (Steady.pure _ _).bind (h.bind (.pure _ _))⟩

/-- Stepping back from a position is seen there, except from height 0 with no record. -/
theorem position_stepBack {s : Sub} (hs : s.Initialised) :
    s.stepBack.position = s.position ↔ s.AtOrigin := by
  cases s with
  | unInit s => exact hs.elim
  | bestBlock s =>
    simp only [stepBack, position, BestBlockSub.stepBack, Position.best.injEq, AtOrigin]
    constructor
    · rintro ⟨h1, h2⟩
      exact ⟨by omega, h2.symm⟩
    · rintro ⟨h1, h2⟩
      exact ⟨by omega, h2.symm⟩
  | finalizedBlock s =>
    simp only [stepBack, position, FinalizedBlockSub.stepBack, Position.finalized.injEq, AtOrigin]
    constructor
    · rintro ⟨h1, h2⟩
      rw [← h2] at h1
      simp only [Bool.false_eq_true, if_false] at h1
      exact ⟨by omega, h2.symm⟩
    · rintro ⟨h1, h2⟩
      simp [h1, h2]

theorem stepBack_atOrigin {s : Sub} (h : s.AtOrigin) : s.stepBack = s := by
  cases s with
  | unInit s => rfl
  | bestBlock s =>
    obtain ⟨client, rate, height, processed, retry, latest⟩ := s
    obtain ⟨rfl, rfl⟩ : height = 0 ∧ processed = [] := h
    rfl
  | finalizedBlock s =>
    obtain ⟨client, rate, height, retry, latest, processed⟩ := s
    obtain ⟨rfl, rfl⟩ : height = 0 ∧ processed = false := h
    rfl

theorem errorAtomic_next {s : Sub} (hs : s.Initialised) : s.ErrorAtomic .next := by
  intro script e s' w' h
  obtain ⟨latest, rfl⟩ := next_error hs h
  refine ⟨position_withLatest s latest, fun c v hv hagrees info hdue => ?_⟩
  have hdue' : (s.withLatest latest).dueNext c = some info := by
    rw [dueNext_withLatest]; exact hdue
  obtain ⟨s'', hrun⟩ := next_steady hv hagrees hdue'
  obtain ⟨k, w'', hrun, -⟩ := hrun.run
  exact ⟨k, s'', w'', hrun⟩

/-- A failing operation leaves the cursor where it was, to be tried again, exactly when it is
    `next` or there is nothing to step back over. -/
theorem errorAtomic_iff (op : Op) (s : Sub) (hs : s.Initialised) :
    s.ErrorAtomic op ↔ op = .next ∨ s.AtOrigin := by
  cases op with
  | next => exact ⟨fun _ => .inl rfl, fun _ => errorAtomic_next hs⟩
  | prev =>
    constructor
    · intro hatomic
      obtain ⟨t, hdown⟩ := next_steady_down (initialised_stepBack hs) (.rpc "connection lost")
      obtain ⟨k, w', hrun, -⟩ := hdown.run
      obtain ⟨latest, rfl⟩ := next_error (initialised_stepBack hs) hrun
      rw [← run_prev hs] at hrun
      have hpos := (hatomic _ _ _ _ hrun).1
      rw [position_withLatest] at hpos
      exact .inr ((position_stepBack hs).mp hpos)
    · rintro (h | horigin)
      · cases h
      · intro script e s' w' h
        rw [run_prev hs, stepBack_atOrigin horigin] at h
        obtain ⟨latest, rfl⟩ := next_error hs h
        obtain ⟨hpos, hretry⟩ := errorAtomic_next hs script e _ w' h
        refine ⟨hpos, fun c v hv hagrees info hdue => ?_⟩
        rw [due, stepBack_atOrigin horigin] at hdue
        rw [run_prev (initialised_withLatest latest hs),
          stepBack_atOrigin (atOrigin_withLatest latest horigin)]
        exact hretry c v hv hagrees info hdue

/-- A cursor that returned block 4, on a chain finalized up to block 9, without retries. -/
def afterBlock4 : Sub := .finalizedBlock
  { client := Client.devnet
    pollRate := 3
    nextBlockHeight := 5
    retryOnError := some false
    latestFinalizedHeight := some 9
    processedPreviousBlock := true }

theorem errorAtomic_iff_afterBlock4 :
    afterBlock4.ErrorAtomic .prev ↔ Op.prev = .next ∨ afterBlock4.AtOrigin :=
  errorAtomic_iff .prev afterBlock4 trivial

/-- One lost connection and `prev` has moved from block 4 to block 3. -/
theorem prev_moves_on_error : ¬ ∀ op (s : Sub), s.Initialised → s.ErrorAtomic op := by
  intro h
  have hmoved := (h .prev afterBlock4 trivial [.fail none (.rpc "connection lost")] _ _ _ rfl).1
  exact absurd hmoved (by decide)

end Sub

end AvailRust
