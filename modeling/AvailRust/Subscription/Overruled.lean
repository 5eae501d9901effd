/-
  Which requests of a cursor run under its own retry setting.

  Most of them do. Three kinds go by another one (`Sub.RunsUnder`): the start height of a
  subscription that was set to none, the head the finalized cursor polls, both under the setting of
  the client, and a block the best-block cursor has to jump to, which is always retried. The
  start height, the finalized height a cursor remembers and the head it polls are one request to
  the node: what came before it tells which it is. A call keeps the setting unless an attempt at
  one of these failed (`Sub.run_kept`).
-/
import AvailRust.Client.Retries
import AvailRust.Subscription.Wrappers
import AvailRust.Subscription.Cursor
import AvailRust.Subscription.Traversal
import AvailRust.Subscription.Atomicity

namespace AvailRust

open Scale Dialogue

variable {w w' : RpcWorld}

/-- The node told a head. -/
def Told (best : Bool) (info : BlockInfo) (moves : List (Request × Event)) : Prop :=
  ∃ e, (.latestBlockInfo best, e) ∈ moves ∧ e.response (.latestBlockInfo best) = .ok info

theorem Told.mono {best : Bool} {info : BlockInfo} {moves moves' : List (Request × Event)}
    (h : Told best info moves) (hsub : moves ⊆ moves') : Told best info moves' := by
  obtain ⟨e, he, hinfo⟩ := h
  exact ⟨e, hsub he, hinfo⟩

/-- The first answer of the node was this head, and `since` was played after it. -/
def FirstTold (best : Bool) (info : BlockInfo) (since moves : List (Request × Event)) : Prop :=
  ∃ e failed, moves = since ++ (.latestBlockInfo best, e) :: failed ∧
    e.response (.latestBlockInfo best) = .ok info ∧ Again (.latestBlockInfo best) isError failed

theorem FirstTold.then {best : Bool} {info : BlockInfo} {start : List (Request × Event)}
    (h : FirstTold best info [] start) (since : List (Request × Event)) :
    FirstTold best info since (since ++ start) := by
  obtain ⟨e, failed, rfl, hinfo, hfailed⟩ := h
  exact ⟨e, failed, rfl, hinfo, hfailed⟩

theorem Asked.firstTold {best : Bool} {info : BlockInfo}
    (h : Asked (.latestBlockInfo best) isError w (.ok info) w') :
    ∃ new, w.After new w' ∧ FirstTold best info [] new := by
  obtain ⟨e, failed, hnew, hinfo, hfailed⟩ := h.moves
  exact ⟨_, hnew, e, failed, rfl, hinfo, hfailed⟩

theorem Asked.told {best : Bool} {info : BlockInfo}
    (h : Asked (.latestBlockInfo best) isError w (.ok info) w') :
    ∃ new, w.After new w' ∧ Told best info new := by
  obtain ⟨e, failed, hnew, hinfo, -⟩ := h.moves
  exact ⟨_, hnew, e, List.mem_cons_self, hinfo⟩

/-! ## What both cursors read -/

theorem blockAt_kept {c : Chain} {n : Nat} {x : Except RpcError BlockInfo}
    (h : blockAt c n w = some (x, w')) : Kept c.shouldRetryOnError w w' (isError x) := by
  refine Kept.finish (fun _ _ => Chain.blockHash_kept) (fun y => ?_) h
  match y with
  | .error e => exact ⟨_, rfl, id⟩
  | .ok none => exact ⟨_, rfl, fun _ => rfl⟩
  | .ok (some hash) => exact ⟨_, rfl, id⟩

theorem blockAt_under {c : Chain} {n : Nat} {x : Except RpcError BlockInfo}
    (h : blockAt c n w = some (x, w')) (retry : Bool) :
    KeptUnless retry (fun new => c.shouldRetryOnError ≠ retry ∧
      ∃ before, FailedAfter (.getBlockHash (some n)) before new) w w' (isError x) := by
  obtain ⟨y, hasked, -⟩ := blockAt_cases h
  refine ((blockAt_kept h).under hasked retry).imp id fun new _ hover => ?_
  obtain ⟨hne, before, hfailed, -⟩ := hover
  exact ⟨hne, before, hfailed⟩

theorem Chain.blockInfo_under {c : Chain} {best : Bool} {x : Except RpcError BlockInfo}
    (h : c.blockInfo best w = some (x, w')) (retry : Bool) :
    KeptUnless retry (fun new => c.shouldRetryOnError ≠ retry ∧ ∃ before,
      FailedAfter (.latestBlockInfo best) before new ∧ Again (.latestBlockInfo best) isError before)
      w w' (isError x) :=
  (withRetryOnError_kept h).under (withRetryOnError_asked h) retry

theorem heightOnce_kept {σ : Type} {f : Finalized} {known : Option Nat} {s s' : σ}
    {remember : Nat → σ} {r : Except RpcError Nat}
    (h : heightOnce f known s remember w = some ((r, s'), w')) :
    Kept f.chain.shouldRetryOnError w w' (isError r) := by
  unfold heightOnce at h
  cases known with
  | some n =>
    obtain ⟨heq, rfl⟩ := pure_eq_some.mp h
    exact .refl _ _ _
  | none =>
    obtain ⟨y, w1, hfetch, h⟩ := bind_eq_some.mp h
    obtain ⟨x, w2, hinfo, hmap⟩ := bind_eq_some.mp hfetch
    obtain ⟨rfl, rfl⟩ := pure_eq_some.mp hmap
    have hkept := withRetryOnError_kept hinfo
    cases x with
    | error e =>
      obtain ⟨rfl, rfl, rfl⟩ := pure_pair_eq_some.mp h
      exact hkept
    | ok info =>
      obtain ⟨rfl, rfl, rfl⟩ := pure_pair_eq_some.mp h
      exact hkept

/-- The finalized height a cursor goes by is one it remembered or was told. -/
theorem heightOnce_told {σ : Type} {f : Finalized} {known : Option Nat} {s s' : σ}
    {remember : Nat → σ} {n : Nat}
    (h : heightOnce f known s remember w = some ((.ok n, s'), w')) :
    known = some n ∨ ∃ hash new, w.After new w' ∧ Told false ⟨hash, n⟩ new := by
  obtain ⟨m, hknown, hm, -, -⟩ | ⟨-, x, hasked, ⟨e, -, he, -⟩ | ⟨info, rfl, hn, -⟩⟩ :=
    heightOnce_cases h
  · cases hm
    exact .inl hknown
  · cases he
  · cases hn
    exact .inr ⟨info.hash, hasked.told⟩

/-! ## The finalized cursor -/

namespace FinalizedBlockSub

variable {s s' : FinalizedBlockSub} {r : Except RpcError BlockInfo}

/-- The setting of the cursor, which falls back to that of the client. -/
def retries (s : FinalizedBlockSub) : Bool := shouldRetry s.client s.retryOnError

/-- A poll of the head failed under the setting of the client. -/
def HeadOverruled (s : FinalizedBlockSub) (moves : List (Request × Event)) : Prop :=
  s.client.globalRetriesEnabled ≠ s.retries ∧
    ∃ before, FailedAfter (.latestBlockInfo false) before moves

theorem HeadOverruled.later {moves : List (Request × Event)} (h : s.HeadOverruled moves)
    (new : List (Request × Event)) : s.HeadOverruled (new ++ moves) := by
  obtain ⟨hne, before, hfailed⟩ := h
  exact ⟨hne, before, hfailed.later new⟩

theorem HeadOverruled.earlier {moves : List (Request × Event)} (h : s.HeadOverruled moves)
    (old : List (Request × Event)) : s.HeadOverruled (moves ++ old) := by
  obtain ⟨hne, before, hfailed⟩ := h
  exact ⟨hne, before ++ old, hfailed.earlier old⟩

/-- One pass of the polling loop keeps the setting unless its poll failed. -/
theorem runHeadStep_kept {r : Unit ⊕ Except RpcError BlockInfo}
    (h : s.runHeadStep () w = some (r, w')) :
    KeptUnless s.retries s.HeadOverruled w w' (r.elim (fun _ => false) isError) := by
  obtain ⟨x, w1, hhead, h⟩ := bind_eq_some.mp h
  have hunder : KeptUnless s.retries s.HeadOverruled w w1 (isError x) := by
    refine (Chain.blockInfo_under hhead s.retries).imp id fun new _ hover => ?_
    obtain ⟨hne, before, hfailed, -⟩ := hover
    exact ⟨hne, before, hfailed⟩
  cases x with
  | error e =>
    obtain ⟨rfl, rfl⟩ := pure_eq_some.mp h
    exact hunder
  | ok head =>
    simp only at h
    split at h
    case isTrue =>
      obtain ⟨_, w2, hsleep, h⟩ := bind_eq_some.mp h
      obtain ⟨-, rfl⟩ := pure_eq_some.mp hsleep
      obtain ⟨rfl, rfl⟩ := pure_eq_some.mp h
      exact hunder
    case isFalse =>
      split at h
      case isTrue =>
        obtain ⟨rfl, rfl⟩ := pure_eq_some.mp h
        exact hunder
      case isFalse =>
        obtain ⟨y, w2, hblock, h⟩ := bind_eq_some.mp h
        obtain ⟨rfl, rfl⟩ := pure_eq_some.mp h
        have hread : KeptUnless s.retries s.HeadOverruled w1 w2 (isError y) :=
          .inl (blockAt_kept hblock)
        exact hunder.trans hread (fun _ new h => h.later new) fun new _ _ h => h.earlier new

theorem runHead_kept (h : s.runHead w = some (r, w')) :
    KeptUnless s.retries s.HeadOverruled w w' (isError r) := by
  refine loop_rule (fun _ w1 => KeptUnless s.retries s.HeadOverruled w w1 false)
    (fun r w1 => KeptUnless s.retries s.HeadOverruled w w1 (isError r)) ?_ ?_ (.inl (.refl _ _ _)) h
  · intro _ w1 _ w2 hkept hpass
    exact hkept.trans (runHeadStep_kept hpass) (fun _ new h => h.later new)
      fun new _ _ h => h.earlier new
  · intro _ w1 r w2 hkept hpass
    exact hkept.trans (runHeadStep_kept hpass) (fun _ new h => h.later new)
      fun new _ _ h => h.earlier new

/-- The cursor is at the head, as far as it knows or was told. -/
def AtHead (n : Nat) (latest : Option Nat) (moves : List (Request × Event)) : Prop :=
  ∃ f ≤ n, latest = some f ∨ ∃ hash, Told false ⟨hash, f⟩ moves

theorem AtHead.mono {n : Nat} {latest : Option Nat} {moves moves' : List (Request × Event)}
    (hsub : moves ⊆ moves') (h : AtHead n latest moves) : AtHead n latest moves' := by
  obtain ⟨f, hf, hknown⟩ := h
  refine ⟨f, hf, hknown.imp_right ?_⟩
  exact fun ⟨hash, htold⟩ => ⟨hash, htold.mono hsub⟩

theorem next_kept (h : s.next w = some ((r, s'), w')) :
    KeptUnless s.retries (fun new => s.client.globalRetriesEnabled ≠ s.retries ∧ ∃ before,
      FailedAfter (.latestBlockInfo false) before new ∧
        AtHead s.nextBlockHeight s.latestFinalizedHeight before) w w' (isError r) := by
  obtain ⟨⟨x, s1⟩, w1, hfetch, h⟩ := bind_eq_some.mp h
  have hkept : Kept s.retries w w1 (isError x) := heightOnce_kept hfetch
  cases x with
  | error e =>
    obtain ⟨rfl, rfl, rfl⟩ := pure_pair_eq_some.mp h
    exact .inl hkept
  | ok f =>
    have htold := heightOnce_told hfetch
    obtain ⟨latest, rfl⟩ := fetch_withLatest hfetch
    obtain ⟨result, w2, hresult, h⟩ := bind_eq_some.mp h
    obtain ⟨hw, hr⟩ : w2 = w' ∧ isError result = isError r := by
      cases result with
      | error e =>
        obtain ⟨rfl, rfl, rfl⟩ := pure_pair_eq_some.mp h
        exact ⟨rfl, rfl⟩
      | ok info =>
        obtain ⟨rfl, rfl, rfl⟩ := pure_pair_eq_some.mp h
        exact ⟨rfl, rfl⟩
    subst hw
    rw [← hr]
    split at hresult
    case isTrue => exact .inl (hkept.trans (blockAt_kept hresult))
    case isFalse hle =>
      rcases runHead_kept hresult with hhead | ⟨new', hnew', hne, before, hfailed⟩
      · exact .inl (hkept.trans hhead)
      -- the height was known when the head was polled: remembered, or told by the fetch
      obtain ⟨new, hnew, -⟩ := hkept
      refine .inr ⟨_, hnew.trans hnew', hne, before ++ new, hfailed.earlier new, f,
        Nat.not_lt.mp hle, htold.imp_right ?_⟩
      intro htold
      obtain ⟨hash, told, hafter, htold⟩ := htold
      rw [hafter.unique hnew] at htold
      exact ⟨hash, htold.mono (List.subset_append_right _ _)⟩

end FinalizedBlockSub

/-! ## The best-block cursor -/

namespace BestBlockSub

variable {s s' : BestBlockSub} {r : Except RpcError BlockInfo}

def retries (s : BestBlockSub) : Bool := shouldRetry s.client s.retryOnError

/-- The cursor has a record, and is told of a head beyond the next height. -/
def Jumps (s : BestBlockSub) (moves : List (Request × Event)) : Prop :=
  s.blockProcessed ≠ [] ∧ ∃ head, Told true head moves ∧ head.hash ∉ s.blockProcessed ∧
    s.currentBlockHeight < head.height ∧ u32Add s.currentBlockHeight 1 ≠ head.height

theorem Jumps.mono {moves moves' : List (Request × Event)} (hsub : moves ⊆ moves')
    (h : s.Jumps moves) : s.Jumps moves' := by
  obtain ⟨hrecord, head, htold, hhead⟩ := h
  exact ⟨hrecord, head, htold.mono hsub, hhead⟩

/-- The read of the block jumped to failed, and the cursor is not to retry. -/
def JumpOverruled (s : BestBlockSub) (moves : List (Request × Event)) : Prop :=
  true ≠ s.retries ∧ ∃ before,
    FailedAfter (.getBlockHash (some (u32Add s.currentBlockHeight 1))) before moves ∧ s.Jumps before

theorem JumpOverruled.later {moves : List (Request × Event)} (h : s.JumpOverruled moves)
    (new : List (Request × Event)) : s.JumpOverruled (new ++ moves) := by
  obtain ⟨hne, before, hfailed, hjump⟩ := h
  exact ⟨hne, before, hfailed.later new, hjump⟩

theorem JumpOverruled.earlier {moves : List (Request × Event)} (h : s.JumpOverruled moves)
    (old : List (Request × Event)) : s.JumpOverruled (moves ++ old) := by
  obtain ⟨hne, before, hfailed, hjump⟩ := h
  exact ⟨hne, before ++ old, hfailed.earlier old, hjump.mono (List.subset_append_left _ _)⟩

/-- One pass of the polling loop keeps the setting unless it jumps. -/
theorem runHeadStep_kept {r : Unit ⊕ Except RpcError BlockInfo}
    (h : s.runHeadStep () w = some (r, w')) :
    KeptUnless s.retries s.JumpOverruled w w' (r.elim (fun _ => false) isError) := by
  obtain ⟨x, w1, hx, h⟩ := bind_eq_some.mp h
  have hkept : Kept s.retries w w1 (isError x) := withRetryOnError_kept hx
  cases x with
  | error e =>
    obtain ⟨rfl, rfl⟩ := pure_eq_some.mp h
    exact .inl hkept
  | ok head =>
    simp only at h
    split at h
    case isTrue =>
      obtain ⟨_, w2, hsleep, h⟩ := bind_eq_some.mp h
      obtain ⟨-, rfl⟩ := pure_eq_some.mp hsleep
      obtain ⟨rfl, rfl⟩ := pure_eq_some.mp h
      exact .inl hkept
    case isFalse hpast =>
      split at h
      case isTrue =>
        obtain ⟨y, w2, hblock, h⟩ := bind_eq_some.mp h
        obtain ⟨rfl, rfl⟩ := pure_eq_some.mp h
        exact .inl (hkept.trans (blockAt_kept hblock))
      case isFalse hrecord =>
        split at h
        case isTrue =>
          obtain ⟨rfl, rfl⟩ := pure_eq_some.mp h
          exact .inl hkept
        case isFalse hnear =>
          obtain ⟨y, w2, hblock, h⟩ := bind_eq_some.mp h
          obtain ⟨rfl, rfl⟩ := pure_eq_some.mp h
          -- the read of the block the cursor jumps to: it is retried whatever the setting
          rcases blockAt_under hblock s.retries with hread | ⟨new', hnew', hne, before, hfailed⟩
          · exact .inl (hkept.trans hread)
          obtain ⟨new, hnew, htold⟩ := (withRetryOnError_asked hx).told
          have hle : s.currentBlockHeight ≤ head.height :=
            Nat.not_lt.mp fun hlt => hpast (.inl hlt)
          have hlt : s.currentBlockHeight < head.height :=
            lt_of_le_of_ne hle fun heq => hnear (.inl heq)
          have hjump : s.Jumps new :=
            ⟨by simpa using hrecord, head, htold, fun hm => hpast (.inr hm), hlt,
              fun heq => hnear (.inr heq)⟩
          exact .inr ⟨_, hnew.trans hnew', hne, before ++ new, hfailed.earlier new,
            hjump.mono (List.subset_append_right _ _)⟩

theorem runHead_kept (h : s.runHead w = some (r, w')) :
    KeptUnless s.retries s.JumpOverruled w w' (isError r) := by
  refine loop_rule (fun _ w1 => KeptUnless s.retries s.JumpOverruled w w1 false)
    (fun r w1 => KeptUnless s.retries s.JumpOverruled w w1 (isError r)) ?_ ?_ (.inl (.refl _ _ _)) h
  · intro _ w1 _ w2 hkept hpass
    exact hkept.trans (runHeadStep_kept hpass) (fun _ new h => h.later new)
      fun new _ _ h => h.earlier new
  · intro _ w1 r w2 hkept hpass
    exact hkept.trans (runHeadStep_kept hpass) (fun _ new h => h.later new)
      fun new _ _ h => h.earlier new

theorem next_kept (h : s.next w = some ((r, s'), w')) :
    KeptUnless s.retries s.JumpOverruled w w' (isError r) := by
  obtain ⟨⟨x, s1⟩, w1, hfetch, h⟩ := bind_eq_some.mp h
  have hkept : Kept s.retries w w1 (isError x) := heightOnce_kept hfetch
  obtain ⟨latest, rfl⟩ := fetch_withLatest hfetch
  cases x with
  | error e =>
    obtain ⟨rfl, rfl, rfl⟩ := pure_pair_eq_some.mp h
    exact .inl hkept
  | ok f =>
    simp only at h
    split at h
    case isTrue =>
      obtain ⟨result, w2, hresult, h⟩ := bind_eq_some.mp h
      have hread : Kept s.retries w1 w2 (isError result) := blockAt_kept hresult
      cases result with
      | error e =>
        obtain ⟨rfl, rfl, rfl⟩ := pure_pair_eq_some.mp h
        exact .inl (hkept.trans hread)
      | ok info =>
        obtain ⟨rfl, rfl, rfl⟩ := pure_pair_eq_some.mp h
        exact .inl (hkept.trans hread)
    case isFalse =>
      obtain ⟨result, w2, hresult, h⟩ := bind_eq_some.mp h
      have hhead : KeptUnless s.retries s.JumpOverruled w1 w2 (isError result) :=
        runHead_kept hresult
      have hfetch : KeptUnless s.retries s.JumpOverruled w w1 false := .inl hkept
      have hall := hfetch.trans hhead (fun _ new h => h.later new) fun new _ _ h => h.earlier new
      cases result with
      | error e =>
        obtain ⟨rfl, rfl, rfl⟩ := pure_pair_eq_some.mp h
        exact hall
      | ok info =>
        simp only at h
        split at h
        case isTrue =>
          obtain ⟨rfl, rfl, rfl⟩ := pure_pair_eq_some.mp h
          exact hall
        case isFalse =>
          obtain ⟨rfl, rfl, rfl⟩ := pure_pair_eq_some.mp h
          exact hall

end BestBlockSub

/-! ## The subscription -/

namespace Sub

variable {s t : Sub} {op : Op}

/-- The height a finalized cursor is at once it has one, and the moves it made since. -/
inductive Aims (op : Op) (moves : List (Request × Event)) :
    Sub → Nat → List (Request × Event) → Prop
  | cursor (f : FinalizedBlockSub) : Aims op moves (.finalizedBlock f)
      (op.target f.processedPreviousBlock f.nextBlockHeight) moves
  | set (u : UnInitSub) (n : Nat) (hmode : u.useBestBlock = false)
      (hheight : u.blockHeight = some n) : Aims op moves (.unInit u) (op.target false n) moves
  | told (u : UnInitSub) (info : BlockInfo) (since : List (Request × Event))
      (hmode : u.useBestBlock = false) (hheight : u.blockHeight = none)
      (htold : FirstTold false info since moves) :
      Aims op moves (.unInit u) (op.target false info.height) since

/-- The requests of a call that do not run under the setting of the subscription, with the
    setting they run under. `before` are the moves of the call before the request is made. -/
inductive RunsUnder (s : Sub) (op : Op) (before : List (Request × Event)) : Request → Bool → Prop
  | start (u : UnInitSub) (hs : s = .unInit u) (hheight : u.blockHeight = none)
      (hopen : Again (.latestBlockInfo u.useBestBlock) isError before) :
      RunsUnder s op before (.latestBlockInfo u.useBestBlock) s.client.globalRetriesEnabled
  | head (n : Nat) (since : List (Request × Event)) (haim : Aims op before s n since)
      (hhead : FinalizedBlockSub.AtHead n s.latest since) :
      RunsUnder s op before (.latestBlockInfo false) s.client.globalRetriesEnabled
  | events (hash : H256) (opts : EventOpts) :
      RunsUnder s op before (.fetchEvents hash opts) s.client.globalRetriesEnabled
  | jump (b : BestBlockSub) (hs : s = .bestBlock b) (hop : op = .next) (hjump : b.Jumps before) :
      RunsUnder s op before (.getBlockHash (some (u32Add b.currentBlockHeight 1))) true

/-- An attempt at a request failed under a setting that is not the one of the subscription. -/
def Overruled (s : Sub) (op : Op) (moves : List (Request × Event)) : Prop :=
  ∃ r before setting, FailedAfter r before moves ∧ s.RunsUnder op before r setting ∧
    setting ≠ s.shouldRetryOnError

theorem Overruled.later {moves : List (Request × Event)} (h : s.Overruled op moves)
    (new : List (Request × Event)) : s.Overruled op (new ++ moves) := by
  obtain ⟨r, before, setting, hfailed, hruns, hne⟩ := h
  exact ⟨r, before, setting, hfailed.later new, hruns, hne⟩

/-- A call on a concrete cursor keeps the setting unless it is overruled. -/
theorem runConcrete_kept {r : Except RpcError BlockInfo}
    (h : s.runConcrete op w = some ((r, t), w')) :
    KeptUnless s.shouldRetryOnError (s.Overruled op) w w' (isError r) := by
  cases s with
  | unInit u => cases h
  | bestBlock b =>
    cases op with
    | next =>
      obtain ⟨⟨x, b'⟩, w1, hnext, h⟩ := bind_eq_some.mp h
      obtain ⟨rfl, rfl, rfl⟩ := pure_pair_eq_some.mp h
      refine (BestBlockSub.next_kept hnext).imp id fun new _ hover => ?_
      obtain ⟨hne, before, hfailed, hjump⟩ := hover
      exact ⟨_, before, _, hfailed, .jump b rfl rfl hjump, hne⟩
    | prev =>
      obtain ⟨⟨x, b'⟩, w1, hnext, h⟩ := bind_eq_some.mp h
      obtain ⟨rfl, rfl, rfl⟩ := pure_pair_eq_some.mp h
      -- the record is empty after stepping back, so nothing is jumped over
      refine (BestBlockSub.next_kept hnext).imp id fun new _ hover => ?_
      obtain ⟨-, before, -, hjump⟩ := hover
      exact absurd rfl hjump.1
  | finalizedBlock f =>
    cases op with
    | next =>
      obtain ⟨⟨x, f'⟩, w1, hnext, h⟩ := bind_eq_some.mp h
      obtain ⟨rfl, rfl, rfl⟩ := pure_pair_eq_some.mp h
      refine (FinalizedBlockSub.next_kept hnext).imp id fun new _ hover => ?_
      obtain ⟨hne, before, hfailed, hhead⟩ := hover
      exact ⟨_, before, _, hfailed, .head _ before (.cursor f) hhead, hne⟩
    | prev =>
      obtain ⟨⟨x, f'⟩, w1, hnext, h⟩ := bind_eq_some.mp h
      obtain ⟨rfl, rfl, rfl⟩ := pure_pair_eq_some.mp h
      refine (FinalizedBlockSub.next_kept hnext).imp id fun new _ hover => ?_
      obtain ⟨hne, before, hfailed, hhead⟩ := hover
      exact ⟨_, before, _, hfailed, .head _ before (.cursor f) hhead, hne⟩

/-- A subscription that was set to no height asks for the head under the setting of the client. -/
theorem startHeight_asks {u : UnInitSub} (hheight : u.blockHeight = none) {x : Except RpcError Nat}
    (h : u.startHeight w = some (x, w')) : ∃ (c : Chain) (y : Except RpcError BlockInfo),
      c.shouldRetryOnError = u.client.globalRetriesEnabled ∧
        c.blockInfo u.useBestBlock w = some (y, w') ∧ x = BlockInfo.height <$> y := by
  simp only [UnInitSub.startHeight, hheight] at h
  split at h
  case isTrue hmode =>
    obtain ⟨y, w1, hy, h⟩ := bind_eq_some.mp h
    obtain ⟨rfl, rfl⟩ := pure_eq_some.mp h
    refine ⟨u.client.best.chain, y, rfl, ?_, rfl⟩
    rw [hmode]
    exact hy
  case isFalse hmode =>
    obtain ⟨y, w1, hy, h⟩ := bind_eq_some.mp h
    obtain ⟨rfl, rfl⟩ := pure_eq_some.mp h
    refine ⟨u.client.finalized.chain, y, rfl, ?_, rfl⟩
    rw [Bool.eq_false_of_not_eq_true hmode]
    exact hy

theorem startHeight_under {u : UnInitSub} {x : Except RpcError Nat}
    (h : u.startHeight w = some (x, w')) (retry : Bool) :
    KeptUnless retry (fun new => u.blockHeight = none ∧ u.client.globalRetriesEnabled ≠ retry ∧
      ∃ before, FailedAfter (.latestBlockInfo u.useBestBlock) before new ∧
        Again (.latestBlockInfo u.useBestBlock) isError before) w w' (isError x) := by
  cases hheight : u.blockHeight with
  | some n =>
    simp only [UnInitSub.startHeight, hheight] at h
    obtain ⟨rfl, rfl⟩ := pure_eq_some.mp h
    exact .inl (.refl _ _ _)
  | none =>
    obtain ⟨c, y, hsetting, hy, rfl⟩ := startHeight_asks hheight h
    have hx : isError (BlockInfo.height <$> y) = isError y := by cases y <;> rfl
    rw [hx, ← hsetting]
    exact (Chain.blockInfo_under hy retry).imp id fun new _ hover => ⟨rfl, hover⟩

/-- The start height is the first answer of the node. -/
theorem startHeight_told {u : UnInitSub} (hheight : u.blockHeight = none) {height : Nat}
    (h : u.startHeight w = some (.ok height, w')) : ∃ info new,
      w.After new w' ∧ FirstTold u.useBestBlock info [] new ∧ info.height = height := by
  obtain ⟨c, y, -, hy, hx⟩ := startHeight_asks hheight h
  cases y with
  | error e => cases hx
  | ok info =>
    cases hx
    obtain ⟨new, hnew, htold⟩ := (withRetryOnError_asked hy).firstTold
    exact ⟨info, new, hnew, htold, rfl⟩

/-- The start of a subscription keeps its setting unless the height it asks for overrules it. -/
theorem startHeight_kept {u : UnInitSub} {x : Except RpcError Nat}
    (h : u.startHeight w = some (x, w')) :
    KeptUnless (Sub.unInit u).shouldRetryOnError ((Sub.unInit u).Overruled op) w w'
      (isError x) := by
  refine (startHeight_under h _).imp id fun new _ hover => ?_
  obtain ⟨hheight, hne, before, hfailed, hopen⟩ := hover
  exact ⟨_, before, _, hfailed, .start u rfl hheight hopen, hne⟩

@[simp] theorem cursor_client (u : UnInitSub) (height : Nat) :
    (u.cursor height).client = u.client := by
  unfold UnInitSub.cursor
  split <;> rfl

@[simp] theorem cursor_retryOnError (u : UnInitSub) (height : Nat) :
    (u.cursor height).retryOnError = u.retryOnError := by
  unfold UnInitSub.cursor
  split <;> rfl

/-- What overrules the cursor a subscription becomes, overrules the subscription. -/
theorem Overruled.of_cursor {u : UnInitSub} {height : Nat} {start moves : List (Request × Event)}
    (hset : ∀ n ∈ u.blockHeight, height = n)
    (htold : u.blockHeight = none →
      ∃ info, FirstTold u.useBestBlock info [] start ∧ info.height = height)
    (h : (u.cursor height).Overruled op moves) : (Sub.unInit u).Overruled op (moves ++ start) := by
  obtain ⟨r, before, setting, hfailed, hruns, hne⟩ := h
  have hsetting : (u.cursor height).shouldRetryOnError = (Sub.unInit u).shouldRetryOnError := by
    simp only [shouldRetryOnError, cursor_client, cursor_retryOnError]
    rfl
  rw [hsetting] at hne
  refine ⟨r, before ++ start, setting, hfailed.earlier start, ?_, hne⟩
  by_cases hmode : u.useBestBlock = true
  · rw [u.cursor_best hmode] at hruns
    cases hruns with
    | start u' hs => cases hs
    | head n since haim => cases haim
    | events hash opts => exact .events hash opts
    | jump b hs hop hjump =>
      cases hs
      exact absurd rfl hjump.1
  · have hmode' := Bool.eq_false_of_not_eq_true hmode
    rw [u.cursor_finalized hmode'] at hruns
    cases hruns with
    | start u' hs => cases hs
    | events hash opts => exact .events hash opts
    | jump b hs => cases hs
    | head n since haim hhead =>
      cases haim with
      | cursor f =>
        cases hheight : u.blockHeight with
        | none =>
          obtain ⟨info, hfirst, rfl⟩ := htold hheight
          rw [hmode'] at hfirst
          exact .head _ before (.told u info before hmode' hheight (hfirst.then before)) hhead
        | some m =>
          obtain rfl := hset m hheight
          exact .head _ _ (.set u height hmode' hheight)
            (hhead.mono (List.subset_append_left _ _))

/-- A call of the cursor keeps the setting of the subscription unless it is overruled. -/
theorem run_kept {r : Except RpcError BlockInfo} (h : s.run op w = some ((r, t), w')) :
    KeptUnless s.shouldRetryOnError (s.Overruled op) w w' (isError r) := by
  cases s with
  | bestBlock b => exact runConcrete_kept h
  | finalizedBlock f => exact runConcrete_kept h
  | unInit u =>
    obtain ⟨⟨x, s1⟩, w1, hmat, h⟩ := bind_eq_some.mp h
    obtain ⟨start, hstart, ⟨e, rfl, rfl, rfl⟩ | ⟨height, rfl, rfl, rfl⟩⟩ := materialize_start hmat
    · obtain ⟨rfl, rfl, rfl⟩ := pure_pair_eq_some.mp h
      exact startHeight_kept hstart
    have hset : ∀ n ∈ u.blockHeight, height = n := fun n hn => startHeight_set hn hstart
    have hkept : KeptUnless (Sub.unInit u).shouldRetryOnError ((Sub.unInit u).Overruled op)
        w w1 false := startHeight_kept hstart
    have hconcrete := runConcrete_kept h
    have hsetting : (u.cursor height).shouldRetryOnError = (Sub.unInit u).shouldRetryOnError := by
      simp only [shouldRetryOnError, cursor_client, cursor_retryOnError]
      rfl
    rw [hsetting] at hconcrete
    refine hkept.trans hconcrete (fun _ new hover => hover.later new) ?_
    intro new new' hnew hover
    refine hover.of_cursor hset fun hheight => ?_
    obtain ⟨info, told, hafter, htold, hinfo⟩ := startHeight_told hheight hstart
    rw [hafter.unique hnew] at htold
    exact ⟨info, htold, hinfo⟩

end Sub

end AvailRust
