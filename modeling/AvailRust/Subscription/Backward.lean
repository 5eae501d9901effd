/-
  Reading backward: which blocks a failing `prev` loses.

  Every `prev` aims one block below the one before it, whether that one failed or not: the
  cursor steps back before it asks anything, and after a failed read it is put at the block
  without the mark that the block was returned. So the block a failed call aimed at is not
  aimed at again, except at height 0, where there is nothing to step back over.

  `Descends` is the promise and `CutOnlyAtOrigin` the condition under which it is kept
  (`prev_descends_iff`).
-/
import AvailRust.Subscription.Forward

namespace AvailRust

open Scale Dialogue FinalizedChain

variable {ε α σ : Type}

/-- A call, with whether its last request was met with an error. -/
def withLastFailed {ρ : Type} (call : σ → Rpc (ρ × σ)) (s : σ) : Rpc ((ρ × Bool) × σ) := fun w =>
  (call s w).map fun p => (((p.1.1, lastFailed p.2), p.1.2), p.2)

/-- The successful results are for the blocks below height `h`, one after the other; below
    block 0 is block 0 again. -/
def Descends (items : Nat → α) (h : Nat) (rs : List (Except ε α)) : Prop :=
  ∀ k x, (successes rs)[k]? = some x → x = items (h - (k + 1))

/-- Where a call is cut off, by its last request failing, and a later one is not, the first
    already aimed at height 0. The call at index `i` aims at height `h - (i + 1)`. -/
def CutOnlyAtOrigin (h : Nat) (cut : List Bool) : Prop :=
  ∀ i j, i < j → cut[i]? = some true → cut[j]? = some false → h ≤ i + 1

/-- Calls of `prev` from height `h` descend when they are cut off only at the origin, and on a
    chain whose blocks below `h` all differ only then. -/
def DescendsIff (c : FinalizedChain) (prev : σ → Rpc (Except ε α × σ)) (items : Nat → α) (s : σ)
    (h : Nat) : Prop :=
  ∀ script top n out s' w', c.Feed 0 script top → top < u32Max →
    calls (withLastFailed prev) n s (start Request script) = some ((out, s'), w') →
    (CutOnlyAtOrigin h (out.map Prod.snd) → Descends items h (out.map Prod.fst)) ∧
    ((∀ i j, i < h → j < h → items i = items j → i = j) →
      Descends items h (out.map Prod.fst) → CutOnlyAtOrigin h (out.map Prod.snd))

/-! ## Successes and where they stand -/

theorem successes_cons_ok (x : α) (rs : List (Except ε α)) :
    successes (.ok x :: rs) = x :: successes rs := rfl

theorem successes_cons_error (e : ε) (rs : List (Except ε α)) :
    successes (.error e :: rs) = successes rs := rfl

/-- The success at index `k` is the call at index `k`, or a later one with a failed call at
    index `k` or before. -/
theorem successes_index {rs : List (Except ε α)} {k : Nat} {x : α}
    (h : (successes rs)[k]? = some x) :
    rs[k]? = some (.ok x) ∨
      ∃ (i j : Nat) (e : ε), i ≤ k ∧ i < j ∧ rs[i]? = some (.error e) ∧ rs[j]? = some (.ok x) := by
  induction rs generalizing k with
  | nil => simp [successes] at h
  | cons r rs ih =>
    cases r with
    | ok a =>
      rw [successes_cons_ok] at h
      cases k with
      | zero => exact .inl (congrArg (Option.map Except.ok) h)
      | succ k =>
        rcases ih h with hk | ⟨i, j, e, hik, hij, hi, hj⟩
        · exact .inl hk
        · exact .inr ⟨i + 1, j + 1, e, by omega, by omega, hi, hj⟩
    | error e =>
      rw [successes_cons_error] at h
      right
      rcases ih h with hk | ⟨-, j, -, -, -, -, hj⟩
      · exact ⟨0, k + 1, e, by omega, by omega, rfl, hk⟩
      · exact ⟨0, j + 1, e, by omega, by omega, rfl, hj⟩

theorem successes_head {rs : List (Except ε α)} {j : Nat} {x : α} (h : rs[j]? = some (.ok x)) :
    ∃ (j' : Nat) (y : α), rs[j']? = some (.ok y) ∧ (successes rs)[0]? = some y := by
  induction rs generalizing j with
  | nil => simp at h
  | cons r rs ih =>
    cases r with
    | ok a => exact ⟨0, a, rfl, rfl⟩
    | error e =>
      cases j with
      | zero => cases h
      | succ j =>
        obtain ⟨j', y, hj', hy⟩ := ih h
        exact ⟨j' + 1, y, hj', hy⟩

/-- After the first failed call the successes lag behind the calls. -/
theorem successes_lag {rs : List (Except ε α)} {i j : Nat} {e : ε} {x : α} (hij : i < j)
    (hi : rs[i]? = some (.error e)) (hj : rs[j]? = some (.ok x)) :
    ∃ (i' j' : Nat) (y : α), i' ≤ i ∧ i' < j' ∧ rs[j']? = some (.ok y) ∧
      (successes rs)[i']? = some y := by
  induction rs generalizing i j with
  | nil => simp at hi
  | cons r rs ih =>
    cases r with
    | error e' =>
      obtain ⟨j, rfl⟩ : ∃ k, j = k + 1 := ⟨j - 1, by omega⟩
      obtain ⟨j', y, hj', hy⟩ := successes_head (show rs[j]? = some (.ok x) from hj)
      exact ⟨0, j' + 1, y, by omega, by omega, hj', hy⟩
    | ok a =>
      cases i with
      | zero => cases hi
      | succ i =>
        obtain ⟨j, rfl⟩ : ∃ k, j = k + 1 := ⟨j - 1, by omega⟩
        obtain ⟨i', j', y, hle, hlt, hj', hy⟩ := ih (by omega) hi hj
        exact ⟨i' + 1, j' + 1, y, by omega, by omega, hj', hy⟩

/-! ## A run of `prev` -/

/-- What the calls so far have shown: the call at index `i` returned the block below the one
    before it, or was cut off. -/
def Lowered (items : Nat → α) (h : Nat) (out : List (Except ε α × Bool)) : Prop :=
  ∀ i r cut, out[i]? = some (r, cut) → cut = isError r ∧ ∀ x, r = .ok x → x = items (h - (i + 1))

theorem Lowered.nil {items : Nat → α} {h : Nat} :
    Lowered items h ([] : List (Except ε α × Bool)) := by
  intro i r cut hi
  rw [List.getElem?_nil] at hi
  cases hi

theorem Lowered.snoc {items : Nat → α} {h : Nat} {out : List (Except ε α × Bool)}
    (hout : Lowered items h out) {r : Except ε α} {cut : Bool} (hcut : cut = isError r)
    (hr : ∀ x, r = .ok x → x = items (h - (out.length + 1))) :
    Lowered items h (out ++ [(r, cut)]) := by
  intro i r' cut' hi
  rw [List.getElem?_append] at hi
  split at hi
  · exact hout i r' cut' hi
  · rename_i hge
    obtain ⟨hlen, hpair⟩ : i - out.length = 0 ∧ (r, cut) = (r', cut') := by
      cases hd : i - out.length with
      | zero => rw [hd] at hi; exact ⟨rfl, Option.some.inj hi⟩
      | succ d => rw [hd] at hi; simp at hi
    cases hpair
    have hi' : i = out.length := by omega
    subst hi'
    exact ⟨hcut, hr⟩

theorem getElem?_of_map_fst {ρ : Type} {out : List (ρ × Bool)} {i : Nat} {r : ρ}
    (h : (out.map Prod.fst)[i]? = some r) : ∃ cut, out[i]? = some (r, cut) := by
  rw [List.getElem?_map] at h
  obtain ⟨⟨r', cut⟩, hpair, rfl⟩ := Option.map_eq_some_iff.mp h
  exact ⟨cut, hpair⟩

theorem getElem?_of_map_snd {ρ : Type} {out : List (ρ × Bool)} {i : Nat} {cut : Bool}
    (h : (out.map Prod.snd)[i]? = some cut) : ∃ r, out[i]? = some (r, cut) := by
  rw [List.getElem?_map] at h
  obtain ⟨⟨r, cut'⟩, hpair, rfl⟩ := Option.map_eq_some_iff.mp h
  exact ⟨r, hpair⟩

theorem Lowered.descends {items : Nat → α} {h : Nat} {out : List (Except ε α × Bool)}
    (hout : Lowered items h out) (hcut : CutOnlyAtOrigin h (out.map Prod.snd)) :
    Descends items h (out.map Prod.fst) := by
  intro k x hx
  rcases successes_index hx with hk | ⟨i, j, e, hik, hij, hi, hj⟩
  · obtain ⟨b, hpair⟩ := getElem?_of_map_fst hk
    exact (hout k _ b hpair).2 x rfl
  · obtain ⟨bi, hpi⟩ := getElem?_of_map_fst hi
    obtain ⟨bj, hpj⟩ := getElem?_of_map_fst hj
    obtain ⟨rfl, -⟩ := hout i _ bi hpi
    obtain ⟨rfl, hx'⟩ := hout j _ bj hpj
    have horigin : h ≤ i + 1 := hcut i j hij (by simp [hpi, isError]) (by simp [hpj, isError])
    -- both aim at height 0
    rw [hx' x rfl, Nat.sub_eq_zero_of_le (by omega), Nat.sub_eq_zero_of_le (by omega)]

theorem Lowered.cutOnlyAtOrigin {items : Nat → α} {h : Nat} {out : List (Except ε α × Bool)}
    (hout : Lowered items h out) (hinj : ∀ i j, i < h → j < h → items i = items j → i = j)
    (hdesc : Descends items h (out.map Prod.fst)) : CutOnlyAtOrigin h (out.map Prod.snd) := by
  intro i j hij hi hj
  by_contra hlt
  obtain ⟨ri, hpi⟩ := getElem?_of_map_snd hi
  obtain ⟨rj, hpj⟩ := getElem?_of_map_snd hj
  obtain ⟨e, rfl⟩ : ∃ e, ri = .error e := by
    cases ri with
    | error e => exact ⟨e, rfl⟩
    | ok x => exact Bool.noConfusion (hout i _ _ hpi).1
  obtain ⟨x, rfl⟩ : ∃ x, rj = .ok x := by
    cases rj with
    | ok x => exact ⟨x, rfl⟩
    | error e => exact Bool.noConfusion (hout j _ _ hpj).1
  have hfailed : (out.map Prod.fst)[i]? = some (.error e) := by simp [hpi]
  have hlater : (out.map Prod.fst)[j]? = some (.ok x) := by simp [hpj]
  obtain ⟨i', j', y, hle, hlt', hj', hy⟩ := successes_lag hij hfailed hlater
  obtain ⟨b, hpj'⟩ := getElem?_of_map_fst hj'
  have hfrom : y = items (h - (j' + 1)) := (hout j' _ b hpj').2 y rfl
  have hheights := hinj (h - (i' + 1)) (h - (j' + 1)) (by omega) (by omega)
    ((hdesc i' y hy).symm.trans hfrom)
  omega

namespace Sub

variable {c : FinalizedChain} {items : Nat → α} {ofRpcError : RpcError → ε}
  {read : Sub → BlockInfo → Rpc (Except ε α)}

theorem calls_lowered (hread : ReadsAs c read items) {s s' : Sub} {h n top : Nat}
    {w w' : RpcWorld} {out : List (Except ε α × Bool)} (hs : s.At 0 h)
    (hfresh : s.processed = false) (hw : c.Feed 0 w.script top) (htop : top < u32Max)
    (hrun : calls (withLastFailed (Sub.step .prev ofRpcError read)) n s w
      = some ((out, s'), w')) : Lowered items h out := by
  -- wherever a call leaves the cursor, the next one aims one block lower
  refine (calls_rule (fun out s w => (∃ g k, c.Feed g w.script top ∧ s.At g k ∧
    Op.prev.target s.processed k = h - (out.length + 1)) ∧ Lowered items h out) ?_ []
    ⟨⟨0, h, hw, hs, by simp [Op.target, hfresh]⟩, .nil⟩ hrun).2
  rintro out s w ⟨r, cut⟩ s1 w1 ⟨⟨g, k, hw, hs, haim⟩, hout⟩ hcall
  obtain ⟨⟨⟨r0, s0⟩, w0⟩, hstep, heq⟩ := Option.map_eq_some_iff.mp hcall
  cases heq
  obtain ⟨g1, hg1, hw1, hlast, hcases⟩ := step_fed hread hs hw htop hstep
  rw [haim] at hcases
  rw [List.length_append]
  obtain ⟨⟨e, rfl⟩, hat, hproc⟩ | ⟨rfl, hat, hproc⟩ := hcases
  · refine ⟨⟨g1, _, hw1, hat, ?_⟩, hout.snoc hlast fun x hx => by cases hx⟩
    simp only [Op.target, hproc rfl, Bool.false_eq_true, if_false, List.length_singleton]
    omega
  · refine ⟨⟨g1, _, hw1, hat, ?_⟩, hout.snoc hlast ?_⟩
    · simp only [Op.target, hproc, if_true, List.length_singleton]
      omega
    · rintro x hx
      cases hx
      rfl

theorem descendsIff_of (hread : ReadsAs c read items) (whole : Sub → σ)
    {prev : σ → Rpc (Except ε α × σ)}
    (hprev : ∀ s, prev (whole s) = (fun p => (p.1, whole p.2)) <$> s.step .prev ofRpcError read)
    {s : Sub} {h : Nat} (hs : s.At 0 h) (hfresh : s.processed = false) :
    DescendsIff c prev items (whole s) h := by
  intro script top n out s' w' hfeed htop hrun
  have hpart : ∀ s, withLastFailed prev (whole s)
      = (fun p => (p.1, whole p.2)) <$> withLastFailed (Sub.step .prev ofRpcError read) s := by
    intro s
    funext w
    change (prev (whole s) w).map _ = Option.bind (Option.map _ _) _
    rw [hprev, map_eq_pure_bind]
    change Option.map _ (Option.bind _ _) = _
    cases s.step .prev ofRpcError read w <;> rfl
  obtain ⟨t, -, hcalls⟩ := calls_part whole hpart hrun
  have hout := calls_lowered hread hs hfresh hfeed htop hcalls
  exact ⟨hout.descends, hout.cutOnlyAtOrigin⟩

end Sub

/-! ## The three subscriptions that go backward -/

/-- Set to follow finalized blocks from a height, each of the three descends exactly when its
    calls are cut off only at the origin. -/
theorem prev_descends_iff (c : FinalizedChain) (u : UnInitSub) (h : Nat) :
    DescendsIff c LegacyBlockSub.prev (fun n => c.block (c.hashAt n)) ⟨u.finalizedFrom h⟩ h ∧
    DescendsIff c BlockHeaderSub.prev (fun n => c.header (c.hashAt n)) ⟨u.finalizedFrom h⟩ h ∧
    ∀ value : Nat → Option Grandpa.GrandpaJustification,
      (∀ n, c.decodedJustification n = .ok (value n)) →
      DescendsIff c GrandpaJustificationSub.prev (fun n => ⟨value n, n, c.hashAt n⟩)
        ⟨u.finalizedFrom h⟩ h := by
  have hs : (u.finalizedFrom h).At 0 h := ⟨rfl, rfl⟩
  refine ⟨?_, ?_, fun value hvalue => ?_⟩
  · exact Sub.descendsIff_of (LegacyBlockSub.readsAs c) LegacyBlockSub.mk (fun _ => rfl) hs rfl
  · exact Sub.descendsIff_of (BlockHeaderSub.readsAs c) BlockHeaderSub.mk (fun _ => rfl) hs rfl
  · exact Sub.descendsIff_of (GrandpaJustificationSub.readsAs hvalue) GrandpaJustificationSub.mk
      (fun _ => rfl) hs rfl

/-- Ten blocks are finalized, none with a justification. -/
def unjustified : FinalizedChain := .bare fun n => FixedBytes.fill 32 (UInt8.ofNat n)

def backwardSub : GrandpaJustificationSub :=
  ⟨({ UnInitSub.new Client.devnet with retryOnError := some false } : UnInitSub).finalizedFrom 9⟩

theorem prev_descends_iff_unjustified :
    DescendsIff unjustified GrandpaJustificationSub.prev
      (fun n => ⟨none, n, unjustified.hashAt n⟩) backwardSub 9 :=
  (prev_descends_iff unjustified _ 9).2.2 (fun _ => none) fun _ => rfl

/-- The connection is lost while the justification of block 8 is read. -/
def lostAtBlock8 : List Event :=
  let up := Event.answer (unjustified.viewAt 9)
  [up, up, .fail none (.rpc "connection lost"), up, up]

/-- The retry returns block 7. -/
theorem prev_skips_block8 : ¬ ∀ script top n out s' w', unjustified.Feed 0 script top →
    top < u32Max →
    calls (withLastFailed GrandpaJustificationSub.prev) n backwardSub (start Request script)
      = some ((out, s'), w') →
    Descends (fun n => ⟨none, n, unjustified.hashAt n⟩) 9 (out.map Prod.fst) := by
  intro hdescends
  have hv := unjustified.viewAt_served 9
  have hfeed : unjustified.Feed 0 lostAtBlock8 9 :=
    .answer (Nat.zero_le 9) hv (.answer le_rfl hv (.fail none _ (.answer le_rfl hv
      (.answer le_rfl hv (.done 9)))))
  have hheights : (calls (withLastFailed GrandpaJustificationSub.prev) 2 backwardSub
      (start Request lostAtBlock8)).map
      (fun p => (successes (p.1.1.map Prod.fst)).map (·.blockHeight)) = some [7] := by
    decide +kernel
  obtain ⟨⟨⟨out, s'⟩, w'⟩, hrun, hseven⟩ := Option.map_eq_some_iff.mp hheights
  obtain ⟨x, hx, hheight⟩ : ∃ x, successes (out.map Prod.fst) = [x] ∧ x.blockHeight = 7 := by
    cases hsucc : successes (out.map Prod.fst) with
    | nil => rw [hsucc] at hseven; cases hseven
    | cons x xs =>
      rw [hsucc] at hseven
      simp only [List.map_cons, List.cons.injEq, List.map_eq_nil_iff] at hseven
      exact ⟨x, by rw [hseven.2], hseven.1⟩
  have height8 := hdescends lostAtBlock8 9 2 out s' w' hfeed (by decide) hrun 0 x (by rw [hx]; rfl)
  rw [height8] at hheight
  cases hheight

end AvailRust
