/-
  The search for the block that may hold a transaction, on a finalized chain.

  A block decides the search when the account's nonce after it is above the transaction's, or
  is 0 while the block holds the transaction. The search returns the first block from the
  birth of the mortality on that decides, and nothing when it has gone past the last one:
  against every feed of the chain (`search_yields`), and it does return against a node that
  is up (`search_steady`).
-/
import AvailRust.Submission.Receipt
import AvailRust.Subscription.Traversal

namespace AvailRust

open Scale Dialogue FinalizedChain

namespace FinalizedChain

/-- Whether a block holds an extrinsic with the hash. -/
def Holds (c : FinalizedChain) (txHash : H256) (n : Nat) : Prop :=
  c.extrinsics (c.hashAt n) (.byHash txHash) ≠ []

/-- Whether the search stops at a block. -/
def Decides (c : FinalizedChain) (nonce : U32) (txHash : H256) (account : AccountId) (n : Nat) :
    Prop :=
  nonce < c.nonceAt account n ∨ c.nonceAt account n = 0 ∧ c.Holds txHash n

end FinalizedChain

/-- `r` is the first height from `b` to `e` where `p` holds, if there is one. -/
def IsFirst (p : Nat → Prop) (b e : Nat) : Option Nat → Prop
  | none => ∀ n, b ≤ n → n ≤ e → ¬ p n
  | some n => (b ≤ n ∧ n ≤ e) ∧ p n ∧ ∀ j, b ≤ j → j < n → ¬ p j

theorem exists_isFirst (p : Nat → Prop) (b e : Nat) : ∃ r, IsFirst p b e r := by
  classical
  by_cases h : ∃ n, b ≤ n ∧ n ≤ e ∧ p n
  · obtain ⟨hb, he, hp⟩ := Nat.find_spec h
    refine ⟨some (Nat.find h), ⟨hb, he⟩, hp, fun j hj hlt hpj => ?_⟩
    exact Nat.find_min h hlt ⟨hj, by omega, hpj⟩
  · exact ⟨none, fun n hb he hp => h ⟨n, hb, he, hp⟩⟩

theorem IsFirst.unique {p : Nat → Prop} {b e : Nat} {r r' : Option Nat} (h : IsFirst p b e r)
    (h' : IsFirst p b e r') : r = r' := by
  cases r with
  | none =>
    cases r' with
    | none => rfl
    | some n => exact absurd h'.2.1 (h n h'.1.1 h'.1.2)
  | some m =>
    cases r' with
    | none => exact absurd h.2.1 (h' m h.1.1 h.1.2)
    | some n =>
      rcases Nat.lt_trichotomy m n with hlt | rfl | hlt
      · exact absurd h.2.1 (h'.2.2 m h.1.1 hlt)
      · rfl
      · exact absurd h'.2.1 (h.2.2 n h'.1.1 hlt)

theorem IsFirst.here {p : Nat → Prop} {b e : Nat} {r : Option Nat} (h : IsFirst p b e r)
    (hp : p b) (hb : b ≤ e) : r = some b := by
  cases r with
  | none => exact absurd hp (h b le_rfl hb)
  | some n =>
    obtain ⟨⟨hbn, -⟩, -, hnone⟩ := h
    rcases Nat.eq_or_lt_of_le hbn with rfl | hlt
    · rfl
    · exact absurd hp (hnone b le_rfl hlt)

theorem IsFirst.later {p : Nat → Prop} {b e : Nat} {r : Option Nat} (h : IsFirst p b e r)
    (hp : ¬ p b) : IsFirst p (b + 1) e r := by
  cases r with
  | none => exact fun n hn hne => h n (by omega) hne
  | some n =>
    obtain ⟨⟨hbn, hne⟩, hpn, hnone⟩ := h
    rcases Nat.eq_or_lt_of_le hbn with rfl | hlt
    · exact absurd hpn hp
    · exact ⟨⟨hlt, hne⟩, hpn, fun j hj hjn => hnone j (by omega) hjn⟩

theorem IsFirst.over {p : Nat → Prop} {b e : Nat} {r : Option Nat} (h : IsFirst p b e r)
    (hb : e < b) : r = none := by
  cases r with
  | none => rfl
  | some n =>
    obtain ⟨⟨hbn, hne⟩, -⟩ := h
    omega

namespace Utils

variable {c : FinalizedChain} {client : Client} {nonce : U32} {txHash : H256}
  {account : AccountId} {ends f top : Nat}

theorem extrinsicInfos_logged (block : Block) (opts : ExtrinsicOpts) :
    Logged (block.extrinsicInfos opts) :=
  Chain.systemFetchExtrinsics_logged _ _ _

/-- Every pass that goes on asks for the next block. -/
theorem searchStep_consumes (s : Sub × Nat) (h : s.2 ≤ ends) :
    Consumes (searchStep client nonce txHash account ends s) := by
  unfold searchStep
  rw [if_pos h]
  refine (s.1.run_consumes .next).bind ?_
  rintro ⟨x, sub⟩
  cases x with
  | error e => exact .pure _
  | ok info =>
    refine (Chain.blockNonce_logged _ _ _).bind fun y => ?_
    cases y with
    | error e => exact .pure _
    | ok stateNonce =>
      simp only
      split
      · exact .pure _
      · split
        · refine (extrinsicInfos_logged _ _).bind fun z => ?_
          cases z with
          | error e => exact .pure _
          | ok ext =>
            simp only
            split <;> exact .pure _
        · exact .pure _

theorem searchStep_productive : Productive (searchStep client nonce txHash account ends) := by
  intro s w s' w' h
  by_cases hle : s.2 ≤ ends
  · exact (searchStep_consumes s hle).shortens h
  · unfold searchStep at h
    rw [if_neg hle] at h
    obtain ⟨h1, -⟩ := pure_eq_some.mp h
    cases h1

/-- What one pass can do: the search is over, or a request fails, or the next block decides, or
    the next block does not. -/
theorem searchStep_cases {s : Sub} {current : Nat} {w w' : RpcWorld}
    {r : (Sub × Nat) ⊕ Except Error (Option BlockInfo)}
    (h : searchStep client nonce txHash account ends (s, current) w = some (r, w')) :
    (ends < current ∧ r = .inr (.ok none) ∧ w' = w) ∨
    (∃ e, r = .inr (.error e)) ∨
    ∃ info sub w1 stateNonce w2, current ≤ ends ∧ s.run .next w = some ((.ok info, sub), w1) ∧
      client.chain.blockNonce account (.hash info.hash) w1 = some (.ok stateNonce, w2) ∧
      ((nonce < stateNonce ∧ r = .inr (.ok (some info)) ∧ w' = w2) ∨
       (¬ nonce < stateNonce ∧ stateNonce ≠ 0 ∧ r = .inl (sub, info.height) ∧ w' = w2) ∨
       (¬ nonce < stateNonce ∧ stateNonce = 0 ∧ ∃ ext,
          (Block.new client (.hash info.hash)).extrinsicInfos (.byHash txHash) w2
            = some (.ok ext, w') ∧
          r = if ext.isEmpty then .inl (sub, info.height) else .inr (.ok (some info)))) := by
  by_cases hle : current ≤ ends
  · refine .inr ?_
    unfold searchStep at h
    rw [if_pos hle] at h
    obtain ⟨⟨x, sub⟩, w1, hnext, h⟩ := bind_eq_some.mp h
    cases x with
    | error e => exact .inl ⟨_, (pure_eq_some.mp h).1.symm⟩
    | ok info =>
      obtain ⟨y, w2, hnonce, h⟩ := bind_eq_some.mp h
      cases y with
      | error e => exact .inl ⟨_, (pure_eq_some.mp h).1.symm⟩
      | ok stateNonce =>
        simp only at h
        split at h
        case isTrue hgt =>
          obtain ⟨rfl, rfl⟩ := pure_eq_some.mp h
          exact .inr ⟨info, sub, w1, stateNonce, w2, hle, hnext, hnonce, .inl ⟨hgt, rfl, rfl⟩⟩
        case isFalse hgt =>
          split at h
          case isFalse hzero =>
            obtain ⟨rfl, rfl⟩ := pure_eq_some.mp h
            exact .inr ⟨info, sub, w1, stateNonce, w2, hle, hnext, hnonce,
              .inr (.inl ⟨hgt, hzero, rfl, rfl⟩)⟩
          case isTrue hzero =>
            obtain ⟨z, w3, hext, h⟩ := bind_eq_some.mp h
            cases z with
            | error e => exact .inl ⟨_, (pure_eq_some.mp h).1.symm⟩
            | ok ext =>
              refine .inr ⟨info, sub, w1, stateNonce, w2, hle, hnext, hnonce,
                .inr (.inr ⟨hgt, hzero, ext, ?_⟩)⟩
              simp only at h
              split at h
              case isTrue hempty =>
                obtain ⟨rfl, rfl⟩ := pure_eq_some.mp h
                exact ⟨hext, (if_pos hempty).symm⟩
              case isFalse hempty =>
                obtain ⟨rfl, rfl⟩ := pure_eq_some.mp h
                exact ⟨hext, (if_neg hempty).symm⟩
  · unfold searchStep at h
    rw [if_neg hle] at h
    obtain ⟨rfl, rfl⟩ := pure_eq_some.mp h
    exact .inl ⟨Nat.not_le.mp hle, rfl, rfl⟩

/-! ## Every behaviour of the node -/

/-- One pass on a growing chain, when it does not fail and the search is not over. -/
theorem searchStep_fed {s : Sub} {current n : Nat} {w w' : RpcWorld}
    {r : (Sub × Nat) ⊕ Except Error (Option BlockInfo)} (hle : current ≤ ends) (hs : s.At f n)
    (hw : c.Feed f w.script top) (htop : top < u32Max) (hr : ¬ ∃ e, r = .inr (.error e))
    (h : searchStep client nonce txHash account ends (s, current) w = some (r, w')) :
    ∃ g, f ≤ g ∧ c.Feed g w'.script top ∧ n ≤ g ∧
      ((c.Decides nonce txHash account n ∧ r = .inr (.ok (some (c.infoAt n)))) ∨
       (¬ c.Decides nonce txHash account n ∧ ∃ s', r = .inl (s', n) ∧ s'.At g (n + 1))) := by
  obtain ⟨hlt, -⟩ | ⟨e, he⟩ | ⟨info, sub, w1, stateNonce, w2, -, hnext, hnonce, hcases⟩ :=
    searchStep_cases h
  · exact absurd hle (Nat.not_le.mpr hlt)
  · exact absurd ⟨e, he⟩ hr
  obtain ⟨g1, hg1, hw1, -, ⟨⟨e, he⟩, -⟩ | ⟨hinfo, hn, hat, -⟩⟩ :=
    Sub.run_fed c.showsChain hs hw htop hnext
  · cases he
  cases hinfo
  replace hn : n ≤ g1 := hn
  obtain ⟨g2, hg2, hw2, -, hgood⟩ := blockNonce_yields _ hn account w1 _ w2 hw1 hnonce
  obtain rfl := hgood stateNonce rfl
  obtain ⟨hgt, rfl, rfl⟩ | ⟨hgt, hzero, rfl, rfl⟩ | ⟨hgt, hzero, ext, hext, rfl⟩ := hcases
  · exact ⟨g2, hg1.trans hg2, hw2, hn.trans hg2, .inl ⟨.inl hgt, rfl⟩⟩
  · refine ⟨g2, hg1.trans hg2, hw2, hn.trans hg2, .inr ⟨?_, sub, rfl, hat.mono hg2⟩⟩
    rintro (h1 | ⟨h1, -⟩)
    · exact hgt h1
    · exact hzero h1
  · obtain ⟨g3, hg3, hw3, -, hgood3⟩ :=
      systemFetchExtrinsics_yields _ (hn.trans hg2) _ w2 _ w' hw2 hext
    obtain rfl := hgood3 ext rfl
    refine ⟨g3, hg1.trans (hg2.trans hg3), hw3, hn.trans (hg2.trans hg3), ?_⟩
    split
    case isTrue hempty =>
      refine .inr ⟨?_, sub, rfl, hat.mono (hg2.trans hg3)⟩
      rintro (h1 | ⟨-, h1⟩)
      · exact hgt h1
      · exact h1 (List.isEmpty_iff.mp hempty)
    case isFalse hempty =>
      exact .inl ⟨.inr ⟨hzero, fun h1 => hempty (List.isEmpty_iff.mpr h1)⟩, rfl⟩

/-- From a feed the search returns the first block that decides, and goes no further than the
    chain has grown. -/
theorem search_yields {s : Sub} {b : Nat} {w w' : RpcWorld} {r : Option BlockInfo}
    (hs : s.At f b) (hb : b ≤ ends) (hw : c.Feed f w.script top) (htop : top < u32Max)
    (h : loop (searchStep client nonce txHash account ends) (s, b) w = some (.ok r, w')) :
    ∃ g m, f ≤ g ∧ c.Feed g w'.script top ∧ r = m.map c.infoAt ∧ m.getD (ends + 1) ≤ g ∧
      IsFirst (c.Decides nonce txHash account) b (ends + 1) m := by
  -- the cursor is at most one block past the height the search has come to
  refine loop_rule
    (fun s w => ∃ g n, f ≤ g ∧ c.Feed g w.script top ∧ s.1.At g n ∧ b ≤ n ∧ n ≤ s.2 + 1 ∧
      (ends < s.2 → n = s.2 + 1 ∧ s.2 ≤ g) ∧
      ∀ j, b ≤ j → j < n → ¬ c.Decides nonce txHash account j)
    (fun r w' => ∀ x, r = .ok x → ∃ g m, f ≤ g ∧ c.Feed g w'.script top ∧ x = m.map c.infoAt ∧
      m.getD (ends + 1) ≤ g ∧ IsFirst (c.Decides nonce txHash account) b (ends + 1) m)
    ?_ ?_ ⟨f, b, le_rfl, hw, hs, le_rfl, Nat.le_succ b, by omega, by omega⟩ h r rfl
  · rintro ⟨s, current⟩ w ⟨s', current'⟩ w' ⟨g, n, hg, hw, hs, hbn, hn, hpast, hnone⟩ h
    have hle : current ≤ ends := by
      obtain ⟨-, h1, -⟩ | ⟨e, h1⟩ | ⟨_, _, _, _, _, hle, -⟩ := searchStep_cases h
      · cases h1
      · cases h1
      · exact hle
    obtain ⟨g', hg', hw', hng, ⟨-, he⟩ | ⟨hnot, t, he, ht⟩⟩ :=
      searchStep_fed hle hs hw htop (fun ⟨_, he⟩ => by cases he) h
    · cases he
    · cases he
      refine ⟨g', current' + 1, hg.trans hg', hw', ht, by omega, le_rfl, fun _ => ⟨rfl, hng⟩, ?_⟩
      intro j hj hjn
      rcases Nat.lt_succ_iff_lt_or_eq.mp hjn with hlt | heq
      · exact hnone j hj hlt
      · rw [heq]
        exact hnot
  · rintro ⟨s, current⟩ w r' w' ⟨g, n, hg, hw, hs, hbn, hn, hpast, hnone⟩ h x rfl
    simp only at hn hpast
    by_cases hle : current ≤ ends
    · obtain ⟨g', hg', hw', hng, ⟨hdec, he⟩ | ⟨-, t, he, -⟩⟩ :=
        searchStep_fed hle hs hw htop (fun ⟨_, he⟩ => by cases he) h
      · cases he
        exact ⟨g', some n, hg.trans hg', hw', rfl, hng, ⟨hbn, by omega⟩, hdec, hnone⟩
      · cases he
    · unfold searchStep at h
      rw [if_neg hle] at h
      obtain ⟨h1, rfl⟩ := pure_eq_some.mp h
      cases h1
      obtain ⟨rfl, hcur⟩ := hpast (Nat.not_le.mp hle)
      refine ⟨g, none, hg, hw, rfl, ?_, fun j hj hje => hnone j hj (by omega)⟩
      show ends + 1 ≤ g
      omega

/-! ## A node that is up -/

/-- One pass against a node that does not change, for any cursor that walks up the chain:
    `ready n` says that it returns block `n` next. -/
theorem searchStep_steady (client : Client) {g n current : Nat} {v : View} {s s' : Sub}
    (hv : c.ServedBy g v)
    (hn : n ≤ g) (hs : Steady (.answer v) (s.run .next) (.ok (c.infoAt n), s'))
    (hle : current ≤ ends) :
    (c.Decides nonce txHash account n → Steady (.answer v)
      (searchStep client nonce txHash account ends (s, current)) (.inr (.ok (some (c.infoAt n))))) ∧
    (¬ c.Decides nonce txHash account n → Steady (.answer v)
      (searchStep client nonce txHash account ends (s, current)) (.inl (s', n))) := by
  unfold searchStep
  rw [if_pos hle]
  have hnonce := blockNonce_steady hv client.chain hn account
  have hext := systemFetchExtrinsics_steady hv (client.chain.retryOn none none) hn (.byHash txHash)
  refine ⟨fun hdec => hs.bind (hnonce.bind ?_), fun hdec => hs.bind (hnonce.bind ?_)⟩
  · by_cases hgt : nonce < c.nonceAt account n
    · simp only [if_pos hgt]
      exact .pure _ _
    · obtain ⟨hzero, hholds⟩ := hdec.resolve_left hgt
      simp only [if_neg hgt, if_pos hzero]
      refine hext.bind ?_
      have hempty : (c.extrinsics (c.hashAt n) (.byHash txHash)).isEmpty = false := by
        simpa [FinalizedChain.Holds] using hholds
      simp only [hempty, Bool.false_eq_true, if_false]
      exact .pure _ _
  · have hgt : ¬ nonce < c.nonceAt account n := fun h => hdec (.inl h)
    simp only [if_neg hgt]
    by_cases hzero : c.nonceAt account n = 0
    · simp only [if_pos hzero]
      refine hext.bind ?_
      have hempty : (c.extrinsics (c.hashAt n) (.byHash txHash)).isEmpty = true := by
        by_contra hne
        exact hdec (.inr ⟨hzero, fun h => hne (List.isEmpty_iff.mpr h)⟩)
      simp only [hempty, if_true]
      exact .pure _ _
    · simp only [if_neg hzero]
      exact .pure _ _

/-- The search against a node that does not change and has all the blocks it goes through. -/
theorem search_steady {g : Nat} {v : View} (ready : Nat → Sub → Prop) (hv : c.ServedBy g v)
    (hready : ∀ n s, n ≤ g → ready n s → ∃ s',
      Steady (.answer v) (s.run .next) (.ok (c.infoAt n), s') ∧ ready (n + 1) s')
    {m : Option Nat} {n current : Nat} {s : Sub} (hs : ready n s) (hle : current ≤ ends)
    (hn : n ≤ ends + 1) (hm : IsFirst (c.Decides nonce txHash account) n (ends + 1) m)
    (hreach : m.getD (ends + 1) ≤ g) :
    Steady (.answer v) (loop (searchStep client nonce txHash account ends) (s, current))
      (.ok (m.map c.infoAt)) := by
  -- by induction on the number of blocks that are left
  obtain ⟨d, hd⟩ : ∃ d, d = ends + 1 - n := ⟨_, rfl⟩
  induction d generalizing n current s with
  | zero =>
    obtain rfl : n = ends + 1 := by omega
    have hng : ends + 1 ≤ g := by
      cases m with
      | none => exact hreach
      | some k => exact hm.1.1.trans hreach
    obtain ⟨s', hrun, hs'⟩ := hready _ s hng hs
    obtain ⟨hstop, hgo⟩ := searchStep_steady client hv hng hrun hle
    by_cases hdec : c.Decides nonce txHash account (ends + 1)
    · obtain rfl := hm.here hdec le_rfl
      exact Steady.loop_exit (hstop hdec)
    · obtain rfl := (hm.later hdec).over (Nat.lt_succ_self _)
      refine Steady.loop_step searchStep_productive (hgo hdec) (Steady.loop_exit ?_)
      unfold searchStep
      rw [if_neg (Nat.not_le.mpr (Nat.lt_succ_self ends))]
      exact .pure _ _
  | succ d ih =>
    have hng : n ≤ g := by
      cases m with
      | none => exact hn.trans hreach
      | some k => exact hm.1.1.trans hreach
    obtain ⟨s', hrun, hs'⟩ := hready n s hng hs
    obtain ⟨hstop, hgo⟩ := searchStep_steady client hv hng hrun hle
    by_cases hdec : c.Decides nonce txHash account n
    · obtain rfl := hm.here hdec hn
      exact Steady.loop_exit (hstop hdec)
    · exact Steady.loop_step searchStep_productive (hgo hdec)
        (ih hs' (by omega) (by omega) (hm.later hdec) (by omega))

end Utils

end AvailRust
