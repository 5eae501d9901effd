/-
  The cursors against the reference cursor.

  The reference cursor is a height: the one it was set to, or that of the block it returned
  last. `next` and `prev` go to the height after and before it (`Place.target`), and return the
  block there. On a chain without reorganisations the best-block cursor does the same, and so
  does the finalized cursor on any chain, as long as it is not moved on from the last block a
  `u32` can number, where its next height wraps around (`follows_reference`).
-/
import AvailRust.Lib.Reference
import AvailRust.Subscription.BestStream
import AvailRust.Subscription.Traversal

namespace AvailRust

open Dialogue Levels FinalizedChain

/-! ## The reference cursor -/

inductive CursorCall where
  | move (op : Sub.Op)
  | setBlockHeight (height : Nat)

/-- Where a cursor stands: at the height it was set to, or past the block it returned. -/
inductive Place where
  | set (height : Nat)
  | past (height : Nat)

namespace Place

/-- The height an operation goes to. -/
def target : Place → Sub.Op → Nat
  | set height, .next => height
  | set height, .prev => height - 1
  | past height, .next => height + 1
  | past height, .prev => height - 1

/-- The call does not move on from the last block a `u32` can number. -/
def Fits (p : Place) (c : CursorCall) : Prop := ∀ op, c = .move op → p ≠ past u32Max

end Place

def referenceCursor (hashAt : Nat → H256) : Reference CursorCall (Option BlockInfo) Place where
  returns p
    | .move op => some ⟨hashAt (p.target op), p.target op⟩
    | .setBlockHeight _ => none
  next p
    | .move op => .past (p.target op)
    | .setBlockHeight height => .set height

namespace Sub

/-- A call of a subscription. -/
def call : CursorCall → Sub → Rpc (Except RpcError (Option BlockInfo) × Sub)
  | .move op, s => do
    let (result, s) ← s.run op
    pure (some <$> result, s)
  | .setBlockHeight height, s => pure (.ok none, s.setBlockHeight height)

theorem call_move_eq_some {op : Op} {s s' : Sub} {w w' : RpcWorld} {r : Option BlockInfo}
    (h : call (.move op) s w = some ((.ok r, s'), w')) :
    ∃ info, r = some info ∧ s.run op w = some ((.ok info, s'), w') := by
  obtain ⟨⟨x, t⟩, w1, hrun, hpure⟩ := bind_eq_some.mp h
  obtain ⟨heq, rfl⟩ := pure_eq_some.mp hpure
  cases x with
  | error e => cases heq
  | ok info =>
    cases heq
    exact ⟨info, rfl, hrun⟩

/-- An operation that returns a block is one of the cursor the subscription becomes. -/
theorem run_started {op : Op} {s s' : Sub} {w w' : RpcWorld} {info : BlockInfo}
    (h : s.run op w = some ((.ok info, s'), w')) :
    ∃ t w1, s.materialize w = some ((.ok (), t), w1) ∧
      t.runConcrete op w1 = some ((.ok info, s'), w') ∧
      t.run op w1 = some ((.ok info, s'), w') := by
  obtain ⟨⟨x, t⟩, w1, hmat, h⟩ := bind_eq_some.mp h
  cases x with
  | error e =>
    obtain ⟨heq, -⟩ := pure_eq_some.mp h
    cases heq
  | ok _ =>
    refine ⟨t, w1, hmat, h, ?_⟩
    cases t with
    | unInit u => cases h
    | bestBlock b => exact h
    | finalizedBlock b => exact h

end Sub

/-! ## The finalized cursor -/

variable {S : Nat → View → Prop} {hashAt : Nat → H256} {top : Nat} {w w' : RpcWorld}

namespace Sub

/-- A subscription to finalized blocks that stands at a place, on a chain finalized up to `f`. -/
def StandsAt (f : Nat) : Place → Sub → Prop
  | .set n, s => s.At f n ∧ s.processed = false
  | .past n, s => s.At f (u32Add n 1) ∧ s.processed = true ∧ n ≤ f

/-- Short of the last block a `u32` can number, an operation goes where the reference cursor
    does. -/
theorem StandsAt.target {s : Sub} {f : Nat} {p : Place} {op : Op} (h : s.StandsAt f p)
    (hf : f ≤ u32Max) (hp : p ≠ .past u32Max) :
    ∃ n, s.At f n ∧ op.target s.processed n = p.target op := by
  cases p with
  | set n =>
    refine ⟨n, h.1, ?_⟩
    rw [h.2]
    cases op with
    | next => rfl
    | prev => rfl
  | past n =>
    obtain ⟨hat, hprocessed, hle⟩ := h
    have hlast : n ≠ u32Max := fun heq => hp (congrArg Place.past heq)
    have hadd : u32Add n 1 = n + 1 := by
      unfold u32Max at hlast hf
      exact u32Add_of_lt (by omega)
    rw [hadd] at hat
    refine ⟨n + 1, hat, ?_⟩
    rw [hprocessed]
    cases op with
    | next => rfl
    | prev => rfl

/-- Past the last block a `u32` can number the next height has wrapped around, and both
    operations go to block 0. -/
theorem target_wrapped (op : Op) (processed : Bool) :
    op.target processed (u32Add u32Max 1) = 0 := by
  cases op with
  | next => rfl
  | prev =>
    cases processed with
    | true => rfl
    | false => rfl

theorem finalized_follows (hS : ShowsChain S hashAt) (htop : top ≤ u32Max) :
    (referenceCursor hashAt).FollowedBy call Place.Fits
      fun p s w => ∃ f, s.StandsAt f p ∧ Feed S f w.script top where
  follows := by
    intro p s w c r s' w' hrel hfits h
    obtain ⟨f, hstands, hw⟩ := hrel
    cases c with
    | setBlockHeight height =>
      obtain ⟨heq, rfl⟩ := pure_eq_some.mp h
      cases heq
      refine ⟨rfl, f, ?_, hw⟩
      cases p with
      | set n => exact at_setBlockHeight hstands.1
      | past n => exact at_setBlockHeight hstands.1
    | move op =>
      obtain ⟨info, rfl, hrun⟩ := call_move_eq_some h
      obtain ⟨n, hat, htarget⟩ := hstands.target (hw.le.trans htop) (hfits op rfl)
      obtain ⟨g, -, hw', -, hcases⟩ := run_fed_wrap hS hat hw hrun
      rw [htarget] at hcases
      rcases hcases with ⟨⟨e, he⟩, -⟩ | ⟨hinfo, hle, hat', hprocessed⟩
      · cases he
      · cases hinfo
        exact ⟨rfl, g, ⟨hat', hprocessed, hle⟩, hw'⟩
  leaves := by
    intro p s w c r s' w' hrel hnot h
    obtain ⟨f, hstands, hw⟩ := hrel
    cases c with
    | setBlockHeight height =>
      refine absurd (fun op hop => ?_) hnot
      cases hop
    | move op =>
      have hplace : p = .past u32Max := by
        by_contra hother
        exact hnot fun _ _ => hother
      subst hplace
      obtain ⟨info, rfl, hrun⟩ := call_move_eq_some h
      obtain ⟨g, -, -, -, hcases⟩ := run_fed_wrap hS hstands.1 hw hrun
      rw [target_wrapped] at hcases
      rcases hcases with ⟨⟨e, he⟩, -⟩ | ⟨hinfo, -⟩
      · cases he
      · cases hinfo
        intro heq
        have hheight : 0 = (Place.past u32Max).target op :=
          congrArg BlockInfo.height (Option.some.inj heq)
        cases op with
        | next => exact absurd hheight (by decide)
        | prev => exact absurd hheight (by decide)

end Sub

/-! ## The best-block cursor -/

/-- A hash that a move gives for a head or for a height is the one of the chain at this height. -/
structure Canonical (hashAt : Nat → H256) (e : Event) : Prop where
  head : ∀ best info, e.response (.latestBlockInfo best) = .ok info →
    info.hash = hashAt info.height
  block : ∀ n hash, e.response (.getBlockHash (some n)) = .ok (some hash) → hash = hashAt n
  fits : HeadsFit e

theorem LastNames.canonical {info : BlockInfo} (h : LastNames w info)
    (hw : w.Plays (Canonical hashAt)) : info.hash = hashAt info.height := by
  obtain ⟨q, rest, htrace, hnames⟩ := h
  have hmove : Canonical hashAt q.2 := hw.2 q (by rw [htrace]; exact List.mem_cons_self)
  rcases hnames with ⟨best, -, hhead⟩ | ⟨-, hblock⟩
  · exact hmove.head best info hhead
  · exact hmove.block info.height info.hash hblock

namespace BestBlockSub

variable {b b' : BestBlockSub}

/-- The cursor stands at a place: it has nothing on record there, or the block it returned. -/
def StandsAt (hashAt : Nat → H256) (b : BestBlockSub) : Place → Prop
  | .set n => b.record = .fresh n ∧ ∀ l ∈ b.latestFinalizedHeight, l ≤ u32Max
  | .past n => b.record = ⟨n, [hashAt n]⟩ ∧ ∀ l ∈ b.latestFinalizedHeight, l ≤ u32Max

theorem next_follows {p : Place} {info : BlockInfo} (hstands : b.StandsAt hashAt p)
    (hw : w.Plays (Canonical hashAt)) (h : b.next w = some ((.ok info, b'), w')) :
    info = ⟨hashAt (p.target .next), p.target .next⟩ ∧
      b'.StandsAt hashAt (.past (p.target .next)) := by
  have hlatest : ∀ l ∈ b.latestFinalizedHeight, l ≤ u32Max := by
    cases p with
    | set n => exact hstands.2
    | past n => exact hstands.2
  obtain ⟨hlatest', hcases⟩ := next_climbs hlatest (hw.mono fun e he => he.fits) h
  rcases hcases with ⟨⟨e, he⟩, -⟩ | ⟨info', hinfo, hclimbs, hlast, hrecord⟩
  · cases he
  cases hinfo
  obtain ⟨new, hnew⟩ := b.next_consumes.logged _ _ _ h
  have hhash := hlast.canonical (hw.after hnew)
  obtain ⟨hash, height⟩ := info
  change hash = hashAt height at hhash
  subst hhash
  unfold Climbs at hclimbs
  unfold recorded at hrecord
  cases p with
  | set n =>
    obtain ⟨hfresh, -⟩ := hstands
    have hcur : b.currentBlockHeight = n := congrArg Record.level hfresh
    have hseen : b.blockProcessed = [] := congrArg Record.seen hfresh
    rw [if_pos hseen] at hclimbs
    rw [if_pos hclimbs] at hrecord
    change height = b.currentBlockHeight at hclimbs
    rw [hcur] at hclimbs
    subst hclimbs
    refine ⟨rfl, ?_, hlatest'⟩
    rw [hrecord]
    unfold record
    rw [hcur, hseen]
    rfl
  | past n =>
    obtain ⟨hgiven, -⟩ := hstands
    have hcur : b.currentBlockHeight = n := congrArg Record.level hgiven
    have hseen : b.blockProcessed = [hashAt n] := congrArg Record.seen hgiven
    rw [hcur, hseen, if_neg (List.cons_ne_nil _ _)] at hclimbs
    have hheight : height = n + 1 := by
      rcases hclimbs with ⟨heq, hnew⟩ | hnext
      · change height = n at heq
        rw [heq] at hnew
        exact absurd List.mem_cons_self hnew
      · exact hnext
    subst hheight
    refine ⟨rfl, ?_, hlatest'⟩
    rw [hrecord, hcur, if_neg (show ¬ n + 1 = n by omega)]
    rfl

theorem stepBack_standsAt {p : Place} (hstands : b.StandsAt hashAt p) :
    b.stepBack.StandsAt hashAt (.set (p.target .prev)) := by
  cases p with
  | set n =>
    have hcur : b.currentBlockHeight = n := congrArg Record.level hstands.1
    refine ⟨?_, hstands.2⟩
    unfold stepBack record
    rw [hcur]
    rfl
  | past n =>
    have hcur : b.currentBlockHeight = n := congrArg Record.level hstands.1
    refine ⟨?_, hstands.2⟩
    unfold stepBack record
    rw [hcur]
    rfl

end BestBlockSub

namespace Sub

/-- A subscription to the best chain that stands at a place; one that was not started stands
    where it was set to. -/
def StandsBest (hashAt : Nat → H256) (p : Place) : Sub → Prop
  | .unInit u => u.useBestBlock = true ∧ ∃ n, u.blockHeight = some n ∧ p = .set n
  | .bestBlock b => b.StandsAt hashAt p
  | .finalizedBlock _ => False

theorem StandsBest.setBlockHeight {s : Sub} {p : Place} (h : s.StandsBest hashAt p) (height : Nat) :
    (s.setBlockHeight height).StandsBest hashAt (.set height) := by
  cases s with
  | unInit u => exact ⟨h.1, height, rfl, rfl⟩
  | bestBlock b =>
    refine ⟨rfl, ?_⟩
    cases p with
    | set n => exact h.2
    | past n => exact h.2
  | finalizedBlock b => exact h.elim

/-- Started, a subscription to the best chain is a best-block cursor at the same place. -/
theorem StandsBest.materialize {s t : Sub} {p : Place} (h : s.StandsBest hashAt p)
    (hmat : s.materialize w = some ((.ok (), t), w')) :
    ∃ b, t = .bestBlock b ∧ b.StandsAt hashAt p := by
  cases s with
  | finalizedBlock b => exact h.elim
  | bestBlock b =>
    obtain ⟨heq, -⟩ := pure_eq_some.mp hmat
    cases heq
    exact ⟨b, rfl, h⟩
  | unInit u =>
    obtain ⟨hmode, n, hheight, rfl⟩ := h
    rcases materialize_cases hmat with ⟨⟨e, he⟩, -⟩ | ⟨-, height, rfl, hset⟩
    · cases he
    · rw [hset n hheight]
      refine ⟨u.bestCursor n, u.cursor_best hmode, rfl, ?_⟩
      intro l hl
      cases hl

/-- `prev` is `next` from one step back. -/
theorem runConcrete_best_next {b : BestBlockSub} {s' : Sub} {p : Place} {op : Op}
    {info : BlockInfo} (hb : b.StandsAt hashAt p)
    (h : (Sub.bestBlock b).runConcrete op w = some ((.ok info, s'), w')) :
    ∃ b0 q b', BestBlockSub.StandsAt hashAt b0 q ∧ q.target .next = p.target op ∧
      b0.next w = some ((.ok info, b'), w') ∧ s' = .bestBlock b' := by
  have hnext : ∀ b0 : BestBlockSub, (b0.next >>= fun x => pure (x.1, Sub.bestBlock x.2)) w
      = some ((.ok info, s'), w') →
      ∃ b', b0.next w = some ((.ok info, b'), w') ∧ s' = .bestBlock b' := by
    intro b0 h
    obtain ⟨⟨x, b'⟩, w2, hblock, hpure⟩ := bind_eq_some.mp h
    obtain ⟨rfl, rfl, rfl⟩ := pure_pair_eq_some.mp hpure
    exact ⟨b', hblock, rfl⟩
  cases op with
  | next =>
    obtain ⟨b', hblock, rfl⟩ := hnext b h
    exact ⟨b, p, b', hb, rfl, hblock, rfl⟩
  | prev =>
    obtain ⟨b', hblock, rfl⟩ := hnext b.stepBack h
    exact ⟨b.stepBack, .set (p.target .prev), b', BestBlockSub.stepBack_standsAt hb, rfl, hblock,
      rfl⟩

theorem best_follows (hashAt : Nat → H256) :
    (referenceCursor hashAt).FollowedBy call (fun _ _ => True)
      fun p s w => s.StandsBest hashAt p ∧ w.Plays (Canonical hashAt) where
  follows := by
    intro p s w c r s' w' hrel _ h
    obtain ⟨hstands, hw⟩ := hrel
    cases c with
    | setBlockHeight height =>
      obtain ⟨heq, rfl⟩ := pure_eq_some.mp h
      cases heq
      exact ⟨rfl, hstands.setBlockHeight height, hw⟩
    | move op =>
      obtain ⟨info, rfl, hrun⟩ := call_move_eq_some h
      obtain ⟨new, hnew⟩ := (s.run_consumes op).logged _ _ _ hrun
      obtain ⟨t, w1, hmat, hconcrete, -⟩ := run_started hrun
      obtain ⟨new1, hnew1⟩ := s.materialize_logged _ _ _ hmat
      obtain ⟨b, rfl, hb⟩ := hstands.materialize hmat
      obtain ⟨b0, q, b', hb0, htarget, hblock, rfl⟩ := runConcrete_best_next hb hconcrete
      obtain ⟨hinfo, hafter⟩ := BestBlockSub.next_follows hb0 (hw.after hnew1) hblock
      rw [htarget] at hinfo hafter
      exact ⟨congrArg some hinfo, hafter, hw.after hnew⟩
  leaves := fun _ hnot _ => absurd trivial hnot

/-! ## From the start of a subscription -/

/-- Calls of a subscription with no start height are calls of one set to a height, or of the
    cursor it becomes. -/
theorem perform_started {u : UnInitSub} {s' : Sub} {calls : List CursorCall}
    {out : List (CursorCall × Except RpcError (Option BlockInfo))}
    (h : perform call calls (.unInit u) w = some ((out, s'), w'))
    (hok : ∀ q ∈ out, ∃ r, q.2 = .ok r) :
    (∃ s', perform call calls (.unInit { u with blockHeight := some 0 }) w
        = some ((out, s'), w')) ∨
      ∃ t w1, (Sub.unInit u).materialize w = some ((.ok (), t), w1) ∧
        perform call calls t w1 = some ((out, s'), w') := by
  cases calls with
  | nil =>
    obtain ⟨rfl, rfl, rfl⟩ := pure_pair_eq_some.mp h
    exact .inl ⟨_, rfl⟩
  | cons c calls =>
    cases c with
    | setBlockHeight height => exact .inl ⟨s', h⟩
    | move op =>
      obtain ⟨x, s1, w2, rest, hcall, hrest, rfl⟩ := perform_cons_eq_some.mp h
      obtain ⟨r, hr⟩ := hok (.move op, x) List.mem_cons_self
      have hx : x = .ok r := hr
      subst hx
      obtain ⟨info, rfl, hrun⟩ := call_move_eq_some hcall
      obtain ⟨t, w1, hmat, -, hrun'⟩ := run_started hrun
      have hcall' : call (.move op) t w1 = some ((.ok (some info), s1), w2) :=
        bind_eq_some.mpr ⟨(.ok info, s1), w2, hrun', rfl⟩
      exact .inr ⟨t, w1, hmat, perform_cons_eq_some.mpr ⟨_, s1, w2, rest, hcall', hrest, rfl⟩⟩

/-- Whatever a subscription is set to, it stands at a height when it starts. -/
theorem run_iff_from_start {u : UnInitSub} {s' : Sub} {calls : List CursorCall}
    {out : List (CursorCall × Except RpcError (Option BlockInfo))}
    {P : Place → CursorCall → Prop} {Rel : Place → Sub → RpcWorld → Prop} {W : RpcWorld → Prop}
    (hfollowed : (referenceCursor hashAt).FollowedBy call P Rel)
    (hset : ∀ n w, W w → Rel (.set n) (.unInit { u with blockHeight := some n }) w)
    (hcursor : ∀ n w, W w → Rel (.set n) (u.cursor n) w)
    (hafter : ∀ w new w', W w → w.After new w' → W w') (hw : W w)
    (h : perform call calls (.unInit u) w = some ((out, s'), w'))
    (hok : ∀ q ∈ out, ∃ r, q.2 = .ok r) :
    ∃ n, (∀ height ∈ u.blockHeight, n = height) ∧
      (out.map Prod.snd = ((referenceCursor hashAt).run (.set n) calls).map .ok ↔
        (referenceCursor hashAt).Along P (.set n) calls) := by
  cases hheight : u.blockHeight with
  | some n =>
    have hu : { u with blockHeight := some n } = u := by rw [← hheight]
    have hrel := hset n w hw
    rw [hu] at hrel
    refine ⟨n, fun height hmem => ?_, hfollowed.run_iff hrel h hok⟩
    cases hmem
    rfl
  | none =>
    rcases perform_started h hok with ⟨t, hrun⟩ | ⟨t, w1, hmat, hrun⟩
    · exact ⟨0, (fun height hmem => by cases hmem), hfollowed.run_iff (hset 0 w hw) hrun hok⟩
    · obtain ⟨new, hnew⟩ := (Sub.unInit u).materialize_logged _ _ _ hmat
      rcases materialize_cases hmat with ⟨⟨e, he⟩, -⟩ | ⟨-, n, rfl, -⟩
      · cases he
      · have hrel := hcursor n w1 (hafter w new w1 hw hnew)
        exact ⟨n, (fun height hmem => by cases hmem), hfollowed.run_iff hrel hrun hok⟩

/-- A run of successful calls of a subscription, set to some height or to none. To finalized
    blocks, it returns what the reference cursor does exactly when it does not move on from the
    last block a `u32` can number; to the best chain it always does, if that has no
    reorganisations. -/
theorem follows_reference {u : UnInitSub} {s' : Sub} {script : List Event}
    {calls : List CursorCall} {out : List (CursorCall × Except RpcError (Option BlockInfo))}
    (h : perform call calls (.unInit u) (start Request script) = some ((out, s'), w'))
    (hok : ∀ q ∈ out, ∃ r, q.2 = .ok r) :
    (∀ S f top, u.useBestBlock = false → ShowsChain S hashAt → Feed S f script top →
      top ≤ u32Max → ∃ n, (∀ height ∈ u.blockHeight, n = height) ∧
        (out.map Prod.snd = ((referenceCursor hashAt).run (.set n) calls).map .ok ↔
          (referenceCursor hashAt).Along Place.Fits (.set n) calls)) ∧
    (u.useBestBlock = true → (∀ e ∈ script, Canonical hashAt e) →
      ∃ n, (∀ height ∈ u.blockHeight, n = height) ∧
        out.map Prod.snd = ((referenceCursor hashAt).run (.set n) calls).map .ok) := by
  constructor
  · intro S f top hmode hS hscript htop
    refine run_iff_from_start (W := fun w => ∃ f, Feed S f w.script top)
      (finalized_follows hS htop) ?_ ?_ ?_ ⟨f, hscript⟩ h hok
    · intro n w hw
      obtain ⟨f, hw⟩ := hw
      exact ⟨f, ⟨⟨hmode, rfl⟩, rfl⟩, hw⟩
    · intro n w hw
      obtain ⟨f, hw⟩ := hw
      rw [u.cursor_finalized hmode]
      refine ⟨f, ⟨⟨rfl, fun l hl => ?_⟩, rfl⟩, hw⟩
      cases hl
    · intro w new w' hw hnew
      obtain ⟨f, hw⟩ := hw
      obtain ⟨⟨g, -, hw'⟩, -⟩ := hw.after hnew
      exact ⟨g, hw'⟩
  · intro hmode hscript
    obtain ⟨n, hn, hiff⟩ := run_iff_from_start (W := fun w => w.Plays (Canonical hashAt))
      (best_follows hashAt)
      (fun n w hw => ⟨⟨hmode, n, rfl, rfl⟩, hw⟩)
      (fun n w hw => ⟨by
        rw [u.cursor_best hmode]
        exact ⟨rfl, fun l hl => by cases hl⟩, hw⟩)
      (fun w new w' hw hnew => hw.after hnew) (World.plays_start hscript) h hok
    exact ⟨n, hn, hiff.mpr (Reference.along_true _ _ _)⟩

/-- A subscription to finalized blocks from a height on. -/
def finalizedFrom (height : Nat) : UnInitSub where
  client := .devnet
  useBestBlock := false
  blockHeight := some height
  pollRate := 3
  retryOnError := none

/-- A node that has finalized blocks up to a height, for some requests. -/
def finalizedUpTo (height requests : Nat) : List Event :=
  List.replicate requests (.answer ((bare heightHash).viewAt height))

theorem finalizedUpTo_feed (height requests : Nat) :
    Feed (bare heightHash).ServedBy height (finalizedUpTo height requests) height := by
  apply Feed.settled
  intro e he
  exact ⟨_, List.eq_of_mem_replicate he, viewAt_served _ _⟩

/-- Both directions and a reset. -/
theorem follows_reference_upTo9 :
    ∃ out s' w', perform call
        [.move .next, .move .prev, .setBlockHeight 3, .move .prev, .move .next]
        (.unInit (finalizedFrom 5)) (start Request (finalizedUpTo 9 5)) = some ((out, s'), w') ∧
      out.map Prod.snd = [.ok (some ⟨heightHash 5, 5⟩), .ok (some ⟨heightHash 4, 4⟩), .ok none,
        .ok (some ⟨heightHash 2, 2⟩), .ok (some ⟨heightHash 3, 3⟩)] := by
  obtain ⟨out, s', w', hrun, hok⟩ : ∃ out s' w', perform call
      [.move .next, .move .prev, .setBlockHeight 3, .move .prev, .move .next]
        (.unInit (finalizedFrom 5)) (start Request (finalizedUpTo 9 5)) = some ((out, s'), w') ∧
      out.all (fun q => !isError q.2) = true := ⟨_, _, _, rfl, rfl⟩
  have hsucceeded : ∀ q ∈ out, ∃ r, q.2 = .ok r := by
    intro q hq
    have hgood := List.all_eq_true.mp hok q hq
    rcases hr : q.2 with e | r
    · rw [hr] at hgood
      cases hgood
    · exact ⟨r, rfl⟩
  obtain ⟨n, hn, hiff⟩ := (follows_reference hrun hsucceeded).1 _ _ _ rfl
    (bare heightHash).showsChain (finalizedUpTo_feed 9 5) (by decide)
  obtain rfl : n = 5 := hn 5 rfl
  refine ⟨out, s', w', hrun, hiff.mpr ?_⟩
  have hpast : ∀ (k : Nat) c, k < u32Max → (Place.past k).Fits c := by
    intro k c hk op _ heq
    exact absurd (Place.past.inj heq) (Nat.ne_of_lt hk)
  have hset : ∀ (k : Nat) c, (Place.set k).Fits c := by
    intro k c op _ heq
    cases heq
  exact ⟨hset 5 _, hpast 5 _ (by decide), hpast 4 _ (by decide), hset 3 _, hpast 2 _ (by decide),
    trivial⟩

/-- After the last block a `u32` can number, `prev` returns block 0. -/
theorem prev_wraps_around :
    ¬ ∀ (hashAt : Nat → H256) (u : UnInitSub) calls script out s' w' S f top,
    perform call calls (.unInit u) (start Request script) = some ((out, s'), w') →
    (∀ q ∈ out, ∃ r, q.2 = .ok r) → u.useBestBlock = false → ShowsChain S hashAt →
    Feed S f script top → top ≤ u32Max → ∃ n, (∀ height ∈ u.blockHeight, n = height) ∧
      out.map Prod.snd = ((referenceCursor hashAt).run (.set n) calls).map .ok := by
  intro hfollows
  obtain ⟨s', w', hrun⟩ : ∃ s' w', perform call [.move .next, .move .prev]
      (.unInit (finalizedFrom u32Max)) (start Request (finalizedUpTo u32Max 3))
        = some (([(.move .next, .ok (some ⟨heightHash u32Max, u32Max⟩)),
            (.move .prev, .ok (some ⟨heightHash 0, 0⟩))], s'), w') := ⟨_, _, rfl⟩
  obtain ⟨n, hn, hsame⟩ := hfollows heightHash (finalizedFrom u32Max) _ _ _ s' w' _ _ _ hrun
    (by
      intro q hq
      rcases List.mem_cons.mp hq with rfl | hq
      · exact ⟨_, rfl⟩
      · rw [List.mem_singleton.mp hq]
        exact ⟨_, rfl⟩)
    rfl (bare heightHash).showsChain (finalizedUpTo_feed u32Max 3) (Nat.le_refl _)
  obtain rfl : n = u32Max := hn u32Max rfl
  have hsecond := congrArg (fun rs : List (Except RpcError (Option BlockInfo)) => rs[1]?) hsame
  have hinfo := Option.some.inj (Except.ok.inj (Option.some.inj hsecond))
  have hheight : 0 = u32Max - 1 := congrArg BlockInfo.height hinfo
  exact absurd hheight (by decide)

end Sub

end AvailRust
