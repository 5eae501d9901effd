/-
  What the cursor operations can do, whatever the node answers.

  A failing `next` changes nothing but the remembered finalized height. A successful one
  returns the block at the height it was at, or for the best-block cursor at that height or
  the one above it, and moves past it (`next_cases`).
-/
import AvailRust.Subscription.Sub
import AvailRust.Client.Heads

namespace AvailRust

open Dialogue

/-- A move that gives a block's height and hash: an answer for a head, or for a height. -/
def Names (q : Request × Event) (info : BlockInfo) : Prop :=
  (∃ best, q.1 = .latestBlockInfo best ∧ q.2.response (.latestBlockInfo best) = .ok info) ∨
  (q.1 = .getBlockHash (some info.height) ∧
    q.2.response (.getBlockHash (some info.height)) = .ok (some info.hash))

/-- The latest move gives the block. -/
def LastNames (w : RpcWorld) (info : BlockInfo) : Prop :=
  ∃ q rest, w.trace = q :: rest ∧ Names q info

/-- A block read at a height has that height. -/
theorem blockAt_cases {c : Chain} {n : Nat} {w w' : RpcWorld} {r : Except RpcError BlockInfo}
    (h : blockAt c n w = some (r, w')) :
    ∃ x, Asked (.getBlockHash (some n))
        (isErrorOrNone c.shouldRetryOnError (c.retryOnNone.getD false)) w x w' ∧
      ((∃ e, r = .error e ∧ ∀ hash, x ≠ .ok (some hash)) ∨
       (∃ hash, r = .ok ⟨hash, n⟩ ∧ x = .ok (some hash))) := by
  obtain ⟨x, w1, hx, h⟩ := bind_eq_some.mp h
  have hasked := Chain.blockHash_asked hx
  match x with
  | .error e =>
    obtain ⟨rfl, rfl⟩ := pure_eq_some.mp h
    exact ⟨_, hasked, .inl ⟨e, rfl, nofun⟩⟩
  | .ok none =>
    obtain ⟨rfl, rfl⟩ := pure_eq_some.mp h
    exact ⟨_, hasked, .inl ⟨_, rfl, nofun⟩⟩
  | .ok (some hash) =>
    obtain ⟨rfl, rfl⟩ := pure_eq_some.mp h
    exact ⟨_, hasked, .inr ⟨hash, rfl, rfl⟩⟩

theorem blockAt_names {c : Chain} {n : Nat} {w w' : RpcWorld} {info : BlockInfo}
    (h : blockAt c n w = some (.ok info, w')) : info.height = n ∧ LastNames w' info := by
  obtain ⟨x, hasked, ⟨e, he, -⟩ | ⟨hash, hr, rfl⟩⟩ := blockAt_cases h
  · cases he
  · cases hr
    obtain ⟨e, rest, htrace, hresp⟩ := hasked.last_move
    exact ⟨rfl, _, rest, htrace, .inr ⟨rfl, hresp⟩⟩

/-- A head read from the node is named by its last answer. -/
theorem Asked.names_head {best : Bool} {p : Except RpcError BlockInfo → Bool} {w w' : RpcWorld}
    {info : BlockInfo} (h : Asked (.latestBlockInfo best) p w (.ok info) w') :
    LastNames w' info := by
  obtain ⟨e, rest, htrace, hresp⟩ := h.last_move
  exact ⟨_, rest, htrace, .inl ⟨best, rfl, hresp⟩⟩

/-- Both cursors read the finalized height once: one they remember is used again. -/
def heightOnce {σ : Type} (f : Finalized) (known : Option Nat) (s : σ) (remember : Nat → σ) :
    Rpc (Except RpcError Nat × σ) :=
  match known with
  | some height => pure (.ok height, s)
  | none => do
    match ← f.blockHeight with
    | .error e => pure (.error e, s)
    | .ok height => pure (.ok height, remember height)

section HeightOnce

variable {σ : Type} {f : Finalized} {known : Option Nat} {s : σ} {remember : Nat → σ}

theorem heightOnce_cases {s' : σ} {w w' : RpcWorld} {r : Except RpcError Nat}
    (h : heightOnce f known s remember w = some ((r, s'), w')) :
    (∃ n, known = some n ∧ r = .ok n ∧ s' = s ∧ w' = w) ∨
    (known = none ∧ ∃ x, Asked (.latestBlockInfo false) isError w x w' ∧
      ((∃ e, x = .error e ∧ r = .error e ∧ s' = s) ∨
       (∃ info, x = .ok info ∧ r = .ok info.height ∧ s' = remember info.height))) := by
  unfold heightOnce at h
  cases known with
  | some n =>
    obtain ⟨rfl, rfl, rfl⟩ := pure_pair_eq_some.mp h
    exact .inl ⟨n, rfl, rfl, rfl, rfl⟩
  | none =>
    obtain ⟨y, w1, hfetch, h⟩ := bind_eq_some.mp h
    obtain ⟨x, w2, hinfo, hmap⟩ := bind_eq_some.mp hfetch
    obtain ⟨rfl, rfl⟩ := pure_eq_some.mp hmap
    have hasked := withRetryOnError_asked hinfo
    refine .inr ⟨rfl, x, ?_⟩
    cases x with
    | error e =>
      obtain ⟨rfl, rfl, rfl⟩ := pure_pair_eq_some.mp h
      exact ⟨hasked, .inl ⟨e, rfl, rfl, rfl⟩⟩
    | ok info =>
      obtain ⟨rfl, rfl, rfl⟩ := pure_pair_eq_some.mp h
      exact ⟨hasked, .inr ⟨info, rfl, rfl, rfl⟩⟩

/-- A node that is up gives its finalized height, unless the cursor remembers one. -/
theorem heightOnce_steady {v : View} {hashAt : Nat → H256} {g : Nat}
    (hv : ShowsFinalized v hashAt g) (hknown : ∀ n, known = some n → s = remember n) :
    Steady (.answer v) (heightOnce f known s remember)
      (.ok (known.getD g), remember (known.getD g)) := by
  cases known with
  | some n =>
    rw [heightOnce, hknown n rfl]
    exact .pure _ _
  | none =>
    refine (f.blockHeight_steady (.answer v)).bind ?_
    simp only [Event.response, hv.finalizedHead]
    exact .pure _ _

/-- A node that is down gives none, unless the cursor remembers one. -/
theorem heightOnce_steady_down (err : RpcError) :
    Steady (.fail none err) (heightOnce f known s remember) (known.elim (.error err) .ok, s) := by
  cases known with
  | some n => exact .pure _ _
  | none => exact (f.blockHeight_steady (.fail none err)).bind (.pure _ _)

end HeightOnce

namespace FinalizedBlockSub

/-- The cursor with another remembered finalized height. -/
def withLatest (s : FinalizedBlockSub) (latest : Option Nat) : FinalizedBlockSub :=
  { s with latestFinalizedHeight := latest }

@[simp] theorem withLatest_processed (s : FinalizedBlockSub) (latest : Option Nat) :
    (s.withLatest latest).processedPreviousBlock = s.processedPreviousBlock := rfl

/-- The cursor after it returned the block at its height. -/
def advanced (s : FinalizedBlockSub) : FinalizedBlockSub :=
  { s with nextBlockHeight := u32Add s.nextBlockHeight 1, processedPreviousBlock := true }

theorem fetch_cases {s s' : FinalizedBlockSub} {w w' : RpcWorld} {r : Except RpcError Nat}
    (h : s.fetchLatestFinalizedHeight w = some ((r, s'), w')) :
    (∃ f, s.latestFinalizedHeight = some f ∧ r = .ok f ∧ s' = s ∧ w' = w) ∨
    (s.latestFinalizedHeight = none ∧ ∃ x, Asked (.latestBlockInfo false) isError w x w' ∧
      ((∃ e, x = .error e ∧ r = .error e ∧ s' = s) ∨
       (∃ info, x = .ok info ∧ r = .ok info.height ∧ s' = s.withLatest (some info.height)))) :=
  heightOnce_cases h

/-- Fetching the height changes the remembered one only. -/
theorem fetch_withLatest {s s' : FinalizedBlockSub} {w w' : RpcWorld} {r : Except RpcError Nat}
    (h : s.fetchLatestFinalizedHeight w = some ((r, s'), w')) :
    ∃ latest, s' = s.withLatest latest := by
  obtain ⟨f, hf, -, rfl, -⟩ | ⟨-, x, -, ⟨e, -, -, rfl⟩ | ⟨info, -, -, rfl⟩⟩ := fetch_cases h
  · exact ⟨_, rfl⟩
  · exact ⟨_, rfl⟩
  · exact ⟨_, rfl⟩

/-- One pass of the polling loop: it reads the finalized head, and when that has reached the
    cursor, returns the block the cursor is at. -/
theorem runHeadStep_cases {s : FinalizedBlockSub} {w w' : RpcWorld}
    {r : Unit ⊕ Except RpcError BlockInfo} (h : s.runHeadStep () w = some (r, w')) :
    ∃ x w1, s.client.finalized.blockInfo w = some (x, w1) ∧
      ((∃ e, x = .error e ∧ r = .inr (.error e) ∧ w' = w1) ∨
       (∃ head, x = .ok head ∧
        (r = .inl () ∧ w' = w1 ∨
         s.nextBlockHeight = head.height ∧ r = .inr (.ok head) ∧ w' = w1 ∨
         s.nextBlockHeight < head.height ∧
          ∃ c y, blockAt c s.nextBlockHeight w1 = some (y, w') ∧ r = .inr y))) := by
  obtain ⟨x, w1, hx, h⟩ := bind_eq_some.mp h
  refine ⟨x, w1, hx, ?_⟩
  cases x with
  | error e =>
    obtain ⟨rfl, rfl⟩ := pure_eq_some.mp h
    exact .inl ⟨e, rfl, rfl, rfl⟩
  | ok head =>
    refine .inr ⟨head, rfl, ?_⟩
    simp only at h
    split at h
    case isTrue =>
      obtain ⟨_, w2, hsleep, h⟩ := bind_eq_some.mp h
      obtain ⟨-, rfl⟩ := pure_eq_some.mp hsleep
      obtain ⟨rfl, rfl⟩ := pure_eq_some.mp h
      exact .inl ⟨rfl, rfl⟩
    case isFalse hpast =>
      split at h
      case isTrue heq =>
        obtain ⟨rfl, rfl⟩ := pure_eq_some.mp h
        exact .inr (.inl ⟨heq, rfl, rfl⟩)
      case isFalse hne =>
        obtain ⟨y, w2, hblock, h⟩ := bind_eq_some.mp h
        obtain ⟨rfl, rfl⟩ := pure_eq_some.mp h
        exact .inr (.inr ⟨by omega, _, y, hblock, rfl⟩)

theorem runHead_names {s : FinalizedBlockSub} {w w' : RpcWorld} {info : BlockInfo}
    (h : s.runHead w = some (.ok info, w')) :
    info.height = s.nextBlockHeight ∧ LastNames w' info := by
  refine loop_rule (fun _ _ => True)
    (fun r w' => ∀ info, r = .ok info → info.height = s.nextBlockHeight ∧ LastNames w' info)
    (fun _ _ _ _ _ _ => trivial) ?_ trivial h info rfl
  intro _ w r w' _ hpass info hr
  subst hr
  obtain ⟨x, w1, hhead,
      ⟨e, -, hr, -⟩ | ⟨head, rfl, ⟨hr, -⟩ | ⟨heq, hr, rfl⟩ | ⟨-, c, y, hy, hr⟩⟩⟩ :=
    runHeadStep_cases hpass
  · cases hr
  · cases hr
  · cases hr
    have hasked := withRetryOnError_asked hhead
    exact ⟨heq.symm, hasked.names_head⟩
  · cases hr
    exact blockAt_names hy

theorem next_cases {s s' : FinalizedBlockSub} {w w' : RpcWorld} {r : Except RpcError BlockInfo}
    (h : s.next w = some ((r, s'), w')) :
    (∃ e latest, r = .error e ∧ s' = s.withLatest latest) ∨
    (∃ hash latest, r = .ok ⟨hash, s.nextBlockHeight⟩ ∧ s' = (s.withLatest latest).advanced ∧
      LastNames w' ⟨hash, s.nextBlockHeight⟩) := by
  obtain ⟨⟨x, s1⟩, w1, hfetch, h⟩ := bind_eq_some.mp h
  obtain ⟨latest, rfl⟩ := fetch_withLatest hfetch
  cases x with
  | error e =>
    obtain ⟨rfl, rfl, -⟩ := pure_pair_eq_some.mp h
    exact .inl ⟨e, latest, rfl, rfl⟩
  | ok f =>
    obtain ⟨result, w2, hresult, h⟩ := bind_eq_some.mp h
    cases result with
    | error e =>
      obtain ⟨rfl, rfl, -⟩ := pure_pair_eq_some.mp h
      exact .inl ⟨e, latest, rfl, rfl⟩
    | ok info =>
      have hnames : info.height = s.nextBlockHeight ∧ LastNames w2 info := by
        split at hresult
        · exact blockAt_names hresult
        · exact runHead_names hresult
      obtain ⟨hash, height⟩ := info
      obtain ⟨rfl, hlast⟩ := hnames
      obtain ⟨rfl, rfl, rfl⟩ := pure_pair_eq_some.mp h
      exact .inr ⟨hash, latest, rfl, rfl, hlast⟩

end FinalizedBlockSub

/-! ## A node that does not change -/

theorem blockAt_steady {e : Event} (c : Chain) {n : Nat} {hash : H256}
    (h : e.response (.getBlockHash (some n)) = .ok (some hash)) :
    Steady e (blockAt c n) (.ok ⟨hash, n⟩) := by
  refine (Chain.blockHash_steady c e (some n)).bind ?_
  rw [h]
  exact .pure e _

theorem blockAt_steady_error {e : Event} (c : Chain) (n : Nat) {err : RpcError}
    (h : e.response (.getBlockHash (some n)) = .error err) :
    Steady e (blockAt c n) (.error err) := by
  refine (Chain.blockHash_steady c e (some n)).bind ?_
  rw [h]
  exact .pure e _

namespace FinalizedBlockSub

variable {v : View} {hashAt : Nat → H256} {g : Nat} {s : FinalizedBlockSub}

/-- A node that is up gives its finalized height, unless the cursor remembers one. -/
theorem fetch_steady (hv : ShowsFinalized v hashAt g) :
    Steady (.answer v) s.fetchLatestFinalizedHeight
      (.ok (s.latestFinalizedHeight.getD g),
        s.withLatest (some (s.latestFinalizedHeight.getD g))) :=
  heightOnce_steady hv fun f hf => show s = s.withLatest (some f) by rw [withLatest, ← hf]

theorem runHead_steady (hv : ShowsFinalized v hashAt g) (hn : s.nextBlockHeight ≤ g) :
    Steady (.answer v) s.runHead (.ok ⟨hashAt s.nextBlockHeight, s.nextBlockHeight⟩) := by
  refine Steady.loop_exit ((Chain.blockInfo_steady _ (.answer v) false).bind ?_)
  simp only [Event.response, hv.finalizedHead]
  rw [if_neg (Nat.not_lt.mpr hn)]
  split
  case isTrue heq => rw [heq]; exact .pure _ _
  case isFalse => exact (blockAt_steady (e := .answer v) _ (hv.blockHash _ hn)).bind (.pure _ _)

/-- A node that is up serves the block the cursor is at. -/
theorem next_steady (hv : ShowsFinalized v hashAt g)
    (hlatest : ∀ f ∈ s.latestFinalizedHeight, f ≤ g) (hn : s.nextBlockHeight ≤ g) :
    ∃ f ≤ g, Steady (.answer v) s.next
      (.ok ⟨hashAt s.nextBlockHeight, s.nextBlockHeight⟩, (s.withLatest (some f)).advanced) := by
  obtain ⟨f, hf, hfetch⟩ : ∃ f ≤ g,
      Steady (.answer v) s.fetchLatestFinalizedHeight (.ok f, s.withLatest (some f)) := by
    refine ⟨_, ?_, fetch_steady hv⟩
    cases hc : s.latestFinalizedHeight with
    | none => exact le_rfl
    | some l => exact hlatest l hc
  refine ⟨f, hf, hfetch.bind ?_⟩
  have hresult : Steady (.answer v)
      (if f > s.nextBlockHeight then (s.withLatest (some f)).runHistorical
        else (s.withLatest (some f)).runHead)
      (.ok ⟨hashAt s.nextBlockHeight, s.nextBlockHeight⟩) := by
    split
    · exact blockAt_steady _ (hv.blockHash _ hn)
    · exact runHead_steady hv hn
  exact hresult.bind (.pure _ _)

end FinalizedBlockSub

namespace BestBlockSub

/-- The cursor with another remembered finalized height. -/
def withLatest (s : BestBlockSub) (latest : Option Nat) : BestBlockSub :=
  { s with latestFinalizedHeight := latest }

@[simp] theorem withLatest_current (s : BestBlockSub) (latest : Option Nat) :
    (s.withLatest latest).currentBlockHeight = s.currentBlockHeight := rfl

@[simp] theorem withLatest_processed (s : BestBlockSub) (latest : Option Nat) :
    (s.withLatest latest).blockProcessed = s.blockProcessed := rfl

/-- The cursor after it returned a block: a block at its own height joins the record, a block
    at another height starts a new one. -/
def recorded (s : BestBlockSub) (info : BlockInfo) : BestBlockSub :=
  if info.height = s.currentBlockHeight then
    { s with blockProcessed := s.blockProcessed ++ [info.hash] }
  else { s with blockProcessed := [info.hash], currentBlockHeight := info.height }

/-- The blocks the cursor may return: the one at its height while it has no record, and then
    another block at that height or one at the height above. -/
def Serves (s : BestBlockSub) (info : BlockInfo) : Prop :=
  if s.blockProcessed = [] then info.height = s.currentBlockHeight
  else info.height = s.currentBlockHeight ∧ info.hash ∉ s.blockProcessed ∨
    info.height = u32Add s.currentBlockHeight 1

theorem fetch_cases {s s' : BestBlockSub} {w w' : RpcWorld} {r : Except RpcError Nat}
    (h : s.fetchLatestFinalizedHeight w = some ((r, s'), w')) :
    (∃ f, s.latestFinalizedHeight = some f ∧ r = .ok f ∧ s' = s ∧ w' = w) ∨
    (s.latestFinalizedHeight = none ∧ ∃ x, Asked (.latestBlockInfo false) isError w x w' ∧
      ((∃ e, x = .error e ∧ r = .error e ∧ s' = s) ∨
       (∃ info, x = .ok info ∧ r = .ok info.height ∧ s' = s.withLatest (some info.height)))) :=
  heightOnce_cases h

/-- Fetching the height changes the remembered one only. -/
theorem fetch_withLatest {s s' : BestBlockSub} {w w' : RpcWorld} {r : Except RpcError Nat}
    (h : s.fetchLatestFinalizedHeight w = some ((r, s'), w')) :
    ∃ latest, s' = s.withLatest latest := by
  obtain ⟨f, hf, -, rfl, -⟩ | ⟨-, x, -, ⟨e, -, -, rfl⟩ | ⟨info, -, -, rfl⟩⟩ := fetch_cases h
  · exact ⟨_, rfl⟩
  · exact ⟨_, rfl⟩
  · exact ⟨_, rfl⟩

section

variable {v : View} {hashAt : Nat → H256} {g : Nat} {s : BestBlockSub}

/-- A node that is up gives its finalized height, unless the cursor remembers one. -/
theorem fetch_steady (hv : ShowsFinalized v hashAt g) :
    Steady (.answer v) s.fetchLatestFinalizedHeight
      (.ok (s.latestFinalizedHeight.getD g),
        s.withLatest (some (s.latestFinalizedHeight.getD g))) :=
  heightOnce_steady hv fun f hf => show s = s.withLatest (some f) by rw [withLatest, ← hf]

end

theorem u32Add_one_ne (n : Nat) : u32Add n 1 ≠ n := by
  unfold u32Add
  omega

/-- A historical read is of the height after the record, so it starts a new record. -/
theorem runHistorical_serves {s : BestBlockSub} {w w' : RpcWorld} {info : BlockInfo}
    (h : s.runHistorical w = some (.ok info, w')) : (s.Serves info ∧ LastNames w' info) ∧
      s.recorded info
        = { s with blockProcessed := [info.hash], currentBlockHeight := info.height } := by
  obtain ⟨hheight, hlast⟩ := blockAt_names h
  refine And.imp_left (fun hserves => ⟨hserves, hlast⟩) ?_
  unfold Serves recorded
  by_cases hp : s.blockProcessed = []
  · simp only [hp, List.isEmpty_nil, if_true] at hheight
    simp [hp, hheight]
  · have hne : s.blockProcessed.isEmpty = false := by simpa using hp
    simp only [hne] at hheight
    have hheight' : info.height = u32Add s.currentBlockHeight 1 := hheight
    rw [if_neg hp, if_neg (by rw [hheight']; exact u32Add_one_ne _)]
    exact ⟨.inr hheight', rfl⟩

/-- One pass of the polling loop: it reads the best head, and unless that is below the cursor or
    in its record, it returns a block. -/
theorem runHeadStep_cases {s : BestBlockSub} {w w' : RpcWorld}
    {r : Unit ⊕ Except RpcError BlockInfo} (h : s.runHeadStep () w = some (r, w')) :
    ∃ x w1, Asked (.latestBlockInfo true) isError w x w1 ∧
      ((∃ e, x = .error e ∧ r = .inr (.error e)) ∨
       (∃ head, x = .ok head ∧
        (r = .inl () ∨
         s.currentBlockHeight ≤ head.height ∧ head.hash ∉ s.blockProcessed ∧
          ((s.blockProcessed = [] ∧
              ∃ c y, blockAt c s.currentBlockHeight w1 = some (y, w') ∧ r = .inr y) ∨
           (s.blockProcessed ≠ [] ∧ r = .inr (.ok head) ∧ w' = w1 ∧
              (s.currentBlockHeight = head.height ∨ u32Add s.currentBlockHeight 1 = head.height)) ∨
           (s.blockProcessed ≠ [] ∧ s.currentBlockHeight ≠ head.height ∧
              ∃ c y, blockAt c (u32Add s.currentBlockHeight 1) w1 = some (y, w') ∧
                r = .inr y))))) := by
  obtain ⟨x, w1, hx, h⟩ := bind_eq_some.mp h
  refine ⟨x, w1, withRetryOnError_asked hx, ?_⟩
  cases x with
  | error e =>
    obtain ⟨rfl, -⟩ := pure_eq_some.mp h
    exact .inl ⟨e, rfl, rfl⟩
  | ok head =>
    refine .inr ⟨head, rfl, ?_⟩
    simp only at h
    split at h
    case isTrue =>
      obtain ⟨_, w2, -, h⟩ := bind_eq_some.mp h
      obtain ⟨rfl, -⟩ := pure_eq_some.mp h
      exact .inl rfl
    case isFalse hpast =>
      have hle : s.currentBlockHeight ≤ head.height := Nat.not_lt.mp fun hlt => hpast (.inl hlt)
      refine .inr ⟨hle, fun hm => hpast (.inr hm), ?_⟩
      split at h
      case isTrue hempty =>
        obtain ⟨y, w2, hblock, h⟩ := bind_eq_some.mp h
        obtain ⟨rfl, rfl⟩ := pure_eq_some.mp h
        exact .inl ⟨by simpa using hempty, _, y, hblock, rfl⟩
      case isFalse hempty =>
        have hp : s.blockProcessed ≠ [] := by simpa using hempty
        split at h
        case isTrue hhead =>
          obtain ⟨rfl, rfl⟩ := pure_eq_some.mp h
          exact .inr (.inl ⟨hp, rfl, rfl, hhead⟩)
        case isFalse hhead =>
          obtain ⟨y, w2, hblock, h⟩ := bind_eq_some.mp h
          obtain ⟨rfl, rfl⟩ := pure_eq_some.mp h
          exact .inr (.inr ⟨hp, fun heq => hhead (.inl heq), _, y, hblock, rfl⟩)

theorem runHead_serves {s : BestBlockSub} {w w' : RpcWorld} {info : BlockInfo}
    (h : s.runHead w = some (.ok info, w')) : s.Serves info ∧ LastNames w' info := by
  refine loop_rule (fun _ _ => True)
    (fun r w' => ∀ info, r = .ok info → s.Serves info ∧ LastNames w' info)
    (fun _ _ _ _ _ _ => trivial) ?_ trivial h info rfl
  clear h
  rintro _ w r w' - h info rfl
  unfold Serves
  obtain ⟨x, w1, hasked, ⟨e, -, hr⟩ | ⟨head, rfl, hr | ⟨-, hnew, hcases⟩⟩⟩ := runHeadStep_cases h
  · cases hr
  · cases hr
  rcases hcases with ⟨hp, c, y, hblock, hr⟩ | ⟨hp, hr, rfl, hhead⟩ | ⟨hp, -, c, y, hblock, hr⟩
  · cases hr
    rw [if_pos hp]
    exact blockAt_names hblock
  · cases hr
    rw [if_neg hp]
    refine ⟨?_, hasked.names_head⟩
    rcases hhead with hcur | hnext
    · exact .inl ⟨hcur.symm, hnew⟩
    · exact .inr hnext.symm
  · cases hr
    rw [if_neg hp]
    obtain ⟨hheight, hlast⟩ := blockAt_names hblock
    exact ⟨.inr hheight, hlast⟩

/-- A call fails, or reads a block and records it: the block above the record when the finalized
    height is above the cursor, and otherwise one found by polling. -/
theorem next_reads {s s' : BestBlockSub} {w w' : RpcWorld} {r : Except RpcError BlockInfo}
    (h : s.next w = some ((r, s'), w')) :
    ∃ x latest w1, s.fetchLatestFinalizedHeight w = some ((x, s.withLatest latest), w1) ∧
      ((∃ e, r = .error e ∧ s' = s.withLatest latest) ∨
       (∃ f info, x = .ok f ∧ r = .ok info ∧ s' = (s.withLatest latest).recorded info ∧
        (s.currentBlockHeight < f ∧ (s.withLatest latest).runHistorical w1 = some (.ok info, w') ∨
         (s.withLatest latest).runHead w1 = some (.ok info, w')))) := by
  obtain ⟨⟨x, s1⟩, w1, hfetch, h⟩ := bind_eq_some.mp h
  obtain ⟨latest, rfl⟩ := fetch_withLatest hfetch
  refine ⟨x, latest, w1, hfetch, ?_⟩
  cases x with
  | error e =>
    obtain ⟨rfl, rfl, -⟩ := pure_pair_eq_some.mp h
    exact .inl ⟨e, rfl, rfl⟩
  | ok f =>
    simp only at h
    split at h
    case isTrue hgt =>
      obtain ⟨result, w2, hresult, h⟩ := bind_eq_some.mp h
      cases result with
      | error e =>
        obtain ⟨rfl, rfl, -⟩ := pure_pair_eq_some.mp h
        exact .inl ⟨e, rfl, rfl⟩
      | ok info =>
        obtain ⟨rfl, rfl, rfl⟩ := pure_pair_eq_some.mp h
        have hrecord := (runHistorical_serves hresult).2
        exact .inr ⟨f, info, rfl, rfl, hrecord.symm, .inl ⟨hgt, hresult⟩⟩
    case isFalse =>
      obtain ⟨result, w2, hresult, h⟩ := bind_eq_some.mp h
      cases result with
      | error e =>
        obtain ⟨rfl, rfl, -⟩ := pure_pair_eq_some.mp h
        exact .inl ⟨e, rfl, rfl⟩
      | ok info =>
        simp only at h
        split at h
        case isTrue hh =>
          obtain ⟨rfl, rfl, rfl⟩ := pure_pair_eq_some.mp h
          exact .inr ⟨f, info, rfl, rfl, (if_pos hh).symm, .inr hresult⟩
        case isFalse hh =>
          obtain ⟨rfl, rfl, rfl⟩ := pure_pair_eq_some.mp h
          exact .inr ⟨f, info, rfl, rfl, (if_neg hh).symm, .inr hresult⟩

theorem next_cases {s s' : BestBlockSub} {w w' : RpcWorld} {r : Except RpcError BlockInfo}
    (h : s.next w = some ((r, s'), w')) :
    (∃ e latest, r = .error e ∧ s' = s.withLatest latest) ∨
    (∃ info latest, r = .ok info ∧ s.Serves info ∧ s' = (s.withLatest latest).recorded info ∧
      LastNames w' info) := by
  obtain ⟨x, latest, w1, -, ⟨e, rfl, rfl⟩ | ⟨f, info, rfl, rfl, rfl, hread⟩⟩ := next_reads h
  · exact .inl ⟨e, latest, rfl, rfl⟩
  · have hserves : s.Serves info ∧ LastNames w' info := by
      rcases hread with ⟨-, hhistorical⟩ | hhead
      · exact (runHistorical_serves hhistorical).1
      · exact runHead_serves hhead
    exact .inr ⟨info, latest, rfl, hserves.1, rfl, hserves.2⟩

end BestBlockSub

/-! ## Every operation asks, so the loops are those of the source -/

theorem blockAt_consumes (c : Chain) (n : Nat) : Consumes (blockAt c n) := by
  refine (c.blockHash_consumes (some n)).bind fun x => ?_
  split <;> exact .pure _

namespace FinalizedBlockSub

theorem runHeadStep_consumes (s : FinalizedBlockSub) (u : Unit) : Consumes (s.runHeadStep u) := by
  refine (Chain.blockInfo_consumes _ false).bind fun x => ?_
  cases x with
  | error e => exact .pure _
  | ok head =>
    simp only
    split
    · exact .bind (.pure ()) fun _ => .pure _
    · split
      · exact .pure _
      · exact (blockAt_consumes _ _).logged.bind fun _ => .pure _

theorem runHead_consumes (s : FinalizedBlockSub) : Consumes s.runHead :=
  loop_consumes s.runHeadStep_consumes ()

theorem next_consumes (s : FinalizedBlockSub) : Consumes s.next := by
  have hrest : ∀ (l : Nat) (t : FinalizedBlockSub), Consumes
      (if l > t.nextBlockHeight then t.runHistorical else t.runHead) := by
    intro l t
    split
    · exact blockAt_consumes _ _
    · exact t.runHead_consumes
  unfold next fetchLatestFinalizedHeight
  cases s.latestFinalizedHeight with
  | some l =>
    simp only [pure_bind]
    refine (hrest l s).bind fun x => ?_
    split <;> exact .pure _
  | none =>
    have hheight : Consumes
        (s.client.finalized.retryOn (some (shouldRetry s.client s.retryOnError))).blockHeight :=
      (Chain.blockInfo_consumes _ false).bind fun _ => .pure _
    refine Consumes.bind (hheight.bind fun x => by split <;> exact .pure _) fun p => ?_
    split
    · exact .pure _
    · refine (hrest _ _).logged.bind fun x => ?_
      split <;> exact .pure _

end FinalizedBlockSub

namespace BestBlockSub

theorem runHeadStep_consumes (s : BestBlockSub) (u : Unit) : Consumes (s.runHeadStep u) := by
  refine (Chain.blockInfo_consumes _ true).bind fun x => ?_
  cases x with
  | error e => exact .pure _
  | ok head =>
    simp only
    split
    · exact .bind (.pure ()) fun _ => .pure _
    · split
      · exact (blockAt_consumes _ _).logged.bind fun _ => .pure _
      · split
        · exact .pure _
        · exact (blockAt_consumes _ _).logged.bind fun _ => .pure _

theorem runHead_consumes (s : BestBlockSub) : Consumes s.runHead :=
  loop_consumes s.runHeadStep_consumes ()

/-- What `next` does once it knows the finalized height. -/
def nextKnowing (s : BestBlockSub) (latest : Nat) :
    Rpc (Except RpcError BlockInfo × BestBlockSub) :=
  if latest > s.currentBlockHeight then do
    match ← s.runHistorical with
    | .error e => pure (.error e, s)
    | .ok info =>
      pure (.ok info, { s with blockProcessed := [info.hash], currentBlockHeight := info.height })
  else do
    match ← s.runHead with
    | .error e => pure (.error e, s)
    | .ok info =>
      if info.height = s.currentBlockHeight then
        pure (.ok info, { s with blockProcessed := s.blockProcessed ++ [info.hash] })
      else
        pure (.ok info,
          { s with blockProcessed := [info.hash], currentBlockHeight := info.height })

theorem nextKnowing_consumes (s : BestBlockSub) (latest : Nat) :
    Consumes (s.nextKnowing latest) := by
  unfold nextKnowing
  split
  · exact (blockAt_consumes _ _).bind fun x => by split <;> exact .pure _
  · refine s.runHead_consumes.bind fun x => ?_
    split
    · exact .pure _
    · split <;> exact .pure _

theorem next_consumes (s : BestBlockSub) : Consumes s.next := by
  unfold next fetchLatestFinalizedHeight
  cases s.latestFinalizedHeight with
  | some l =>
    simp only [pure_bind]
    exact s.nextKnowing_consumes l
  | none =>
    have hheight : Consumes (s.client.finalized.retryOn s.retryOnError).blockHeight :=
      (Chain.blockInfo_consumes _ false).bind fun _ => .pure _
    refine Consumes.bind (hheight.bind fun x => by split <;> exact .pure _) fun p => ?_
    split
    · exact .pure _
    · exact (nextKnowing_consumes _ _).logged

end BestBlockSub

namespace Sub

theorem runConcrete_consumes (op : Op) (s : Sub) : Consumes (s.runConcrete op) := by
  cases s with
  | unInit u => exact fun _ _ _ h => by cases h
  | bestBlock s =>
    cases op with
    | next => exact s.next_consumes.bind fun _ => .pure _
    | prev => exact s.stepBack.next_consumes.bind fun _ => .pure _
  | finalizedBlock s =>
    cases op with
    | next => exact s.next_consumes.bind fun _ => .pure _
    | prev => exact s.stepBack.next_consumes.bind fun _ => .pure _

theorem run_consumes (op : Op) (s : Sub) : Consumes (s.run op) := by
  cases s with
  | bestBlock s => exact (Sub.bestBlock s).runConcrete_consumes op
  | finalizedBlock s => exact (Sub.finalizedBlock s).runConcrete_consumes op
  | unInit u =>
    cases hh : u.blockHeight with
    | some n =>
      obtain ⟨t, ht⟩ : ∃ t, (Sub.unInit u).materialize = pure (.ok (), t) := by
        simp only [materialize, UnInitSub.build, UnInitSub.startHeight, hh, pure_bind]
        split <;> exact ⟨_, rfl⟩
      rw [run, ht, pure_bind]
      exact t.runConcrete_consumes op
    | none =>
      have hheight : Consumes u.startHeight := by
        unfold UnInitSub.startHeight
        rw [hh]
        simp only
        split
        · exact (Chain.blockInfo_consumes _ true).bind fun _ => .pure _
        · exact (Chain.blockInfo_consumes _ false).bind fun _ => .pure _
      refine Consumes.bind (Consumes.bind ?_ fun x => by split <;> exact .pure _) fun p => ?_
      rotate_left
      · split
        · exact .pure _
        · exact (runConcrete_consumes op _).logged
      refine hheight.bind fun x => ?_
      split
      · exact .pure _
      · split <;> exact .pure _

theorem materialize_logged (s : Sub) : Logged s.materialize := by
  cases s with
  | bestBlock s => exact .pure _
  | finalizedBlock s => exact .pure _
  | unInit u =>
    have hstart : Logged u.startHeight := by
      unfold UnInitSub.startHeight
      split
      · exact .pure _
      · split
        · exact ((Chain.blockInfo_consumes _ true).bind fun _ => .pure _).logged
        · exact ((Chain.blockInfo_consumes _ false).bind fun _ => .pure _).logged
    have hbuild : Logged u.build := by
      refine hstart.bind fun x => ?_
      split
      · exact .pure _
      · split
        · exact .pure _
        · exact .pure _
    refine hbuild.bind fun x => ?_
    split
    · exact .pure _
    · exact .pure _

end Sub

/-! ## The start of a cursor -/

namespace UnInitSub

variable {u : UnInitSub}

def bestCursor (u : UnInitSub) (height : Nat) : BestBlockSub where
  client := u.client
  pollRate := u.pollRate
  currentBlockHeight := height
  blockProcessed := []
  retryOnError := u.retryOnError
  latestFinalizedHeight := none

def finalizedCursor (u : UnInitSub) (height : Nat) : FinalizedBlockSub where
  client := u.client
  pollRate := u.pollRate
  nextBlockHeight := height
  retryOnError := u.retryOnError
  latestFinalizedHeight := none
  processedPreviousBlock := false

/-- The cursor a subscription becomes at a height. -/
def cursor (u : UnInitSub) (height : Nat) : Sub :=
  if u.useBestBlock then .bestBlock (u.bestCursor height)
  else .finalizedBlock (u.finalizedCursor height)

theorem cursor_best (u : UnInitSub) (h : u.useBestBlock = true) {height : Nat} :
    u.cursor height = .bestBlock (u.bestCursor height) :=
  if_pos h

theorem cursor_finalized (u : UnInitSub) (h : u.useBestBlock = false) {height : Nat} :
    u.cursor height = .finalizedBlock (u.finalizedCursor height) := by
  unfold cursor
  rw [h]
  rfl

end UnInitSub

namespace Sub

theorem startHeight_set {u : UnInitSub} {n height : Nat} {w w' : RpcWorld}
    (hset : u.blockHeight = some n) (h : u.startHeight w = some (.ok height, w')) : height = n := by
  simp only [UnInitSub.startHeight, hset] at h
  obtain ⟨heq, -⟩ := pure_eq_some.mp h
  exact (Except.ok.inj heq).symm

/-- A subscription becomes the cursor at its start height, or stays as it is if there is none. -/
theorem materialize_start {u : UnInitSub} {x : Except RpcError Unit} {t : Sub} {w w' : RpcWorld}
    (h : (Sub.unInit u).materialize w = some ((x, t), w')) :
    ∃ start, u.startHeight w = some (start, w') ∧
      ((∃ e, start = .error e ∧ x = .error e ∧ t = .unInit u) ∨
       ∃ height, start = .ok height ∧ x = .ok () ∧ t = u.cursor height) := by
  obtain ⟨built, w1, hbuild, h⟩ := bind_eq_some.mp h
  obtain ⟨start, w2, hstart, hbuild⟩ := bind_eq_some.mp hbuild
  cases start with
  | error e =>
    obtain ⟨rfl, rfl⟩ := pure_eq_some.mp hbuild
    obtain ⟨rfl, rfl, rfl⟩ := pure_pair_eq_some.mp h
    exact ⟨_, hstart, .inl ⟨e, rfl, rfl, rfl⟩⟩
  | ok height =>
    have hbuilt : built = .ok (u.cursor height) ∧ w2 = w1 := by
      unfold UnInitSub.cursor
      simp only at hbuild
      split at hbuild
      case isTrue hmode =>
        rw [if_pos hmode]
        obtain ⟨rfl, rfl⟩ := pure_eq_some.mp hbuild
        exact ⟨rfl, rfl⟩
      case isFalse hmode =>
        rw [if_neg hmode]
        obtain ⟨rfl, rfl⟩ := pure_eq_some.mp hbuild
        exact ⟨rfl, rfl⟩
    obtain ⟨rfl, rfl⟩ := hbuilt
    obtain ⟨rfl, rfl, rfl⟩ := pure_pair_eq_some.mp h
    exact ⟨_, hstart, .inr ⟨height, rfl, rfl, rfl⟩⟩

/-- A subscription stays as it is, or becomes the cursor at the height it was set to. -/
theorem materialize_cases {u : UnInitSub} {x : Except RpcError Unit} {t : Sub} {w w' : RpcWorld}
    (h : (Sub.unInit u).materialize w = some ((x, t), w')) :
    (∃ e, x = .error e) ∧ t = .unInit u ∨
      x = .ok () ∧ ∃ height, t = u.cursor height ∧ ∀ n ∈ u.blockHeight, height = n := by
  obtain ⟨start, hstart, ⟨e, -, rfl, rfl⟩ | ⟨height, rfl, rfl, rfl⟩⟩ := materialize_start h
  · exact .inl ⟨⟨e, rfl⟩, rfl⟩
  · exact .inr ⟨rfl, height, rfl, fun n hn => startHeight_set hn hstart⟩

end Sub

end AvailRust
