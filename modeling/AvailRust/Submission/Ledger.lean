/-
  The ledger a chain keeps: what its blocks execute and the account nonces that come of it.

  A signed extrinsic is valid when it carries the nonce its signer has, and executing it counts
  that nonce up. Executing an extrinsic can also remove accounts; an account that is removed, or
  is there again after it was, has nonce 0. As long as an account is not removed, its nonce
  counts the extrinsics it has signed (`before_mono`).
-/
import AvailRust.Core.Types

namespace AvailRust

open Scale

/-- An extrinsic in a block: who signed it with which nonce, and which accounts it removed. -/
structure Executed where
  extHash : H256
  signed : Option (AccountId × U32)
  reaped : List AccountId

namespace Executed

def SignedBy (x : Executed) (account : AccountId) : Bool := x.signed.any fun p => p.1 = account

/-- The account nonces after an extrinsic. -/
def execute (x : Executed) (nonces : AccountId → U32) : AccountId → U32 := fun account =>
  if account ∈ x.reaped then 0
  else if x.SignedBy account then nonces account + 1
  else nonces account

/-- The nonce of a signed extrinsic is that of its signer. -/
def Valid (x : Executed) (nonces : AccountId → U32) : Prop := ∀ p ∈ x.signed, nonces p.1 = p.2

end Executed

def executeBlock (xs : List Executed) (nonces : AccountId → U32) : AccountId → U32 :=
  xs.foldl (fun nonces x => x.execute nonces) nonces

/-- Every extrinsic of a block is valid where it is executed. -/
def ValidBlock (xs : List Executed) (nonces : AccountId → U32) : Prop :=
  ∀ (i : Nat) (x : Executed), xs[i]? = some x → x.Valid (executeBlock (xs.take i) nonces)

structure Ledger where
  blocks : Nat → List Executed

namespace Ledger

/-- The account nonces a block starts from. -/
def before (l : Ledger) : Nat → AccountId → U32
  | 0 => fun _ => 0
  | n + 1 => executeBlock (l.blocks n) (l.before n)

def nonceAfter (l : Ledger) (n : Nat) (account : AccountId) : U32 := l.before (n + 1) account

def Valid (l : Ledger) : Prop := ∀ n, ValidBlock (l.blocks n) (l.before n)

/-- The extrinsic at an index of a block has the hash. -/
def HoldsAt (l : Ledger) (n i : Nat) (hash : H256) : Prop :=
  (l.blocks n)[i]?.map Executed.extHash = some hash

instance (l : Ledger) (n i : Nat) (hash : H256) : Decidable (l.HoldsAt n i hash) :=
  inferInstanceAs (Decidable (_ = _))

/-- Where a block holds extrinsics with a hash. -/
def positions (l : Ledger) (n : Nat) (hash : H256) : List Nat :=
  (List.range (l.blocks n).length).filter fun i => l.HoldsAt n i hash

theorem mem_positions {l : Ledger} {n i : Nat} {hash : H256} :
    i ∈ l.positions n hash ↔ l.HoldsAt n i hash := by
  rw [positions, List.mem_filter, List.mem_range, decide_eq_true_iff, and_iff_right_iff_imp]
  intro h
  by_contra hlen
  rw [HoldsAt, List.getElem?_eq_none (Nat.not_lt.mp hlen)] at h
  cases h

/-- A block holds an extrinsic with the hash. -/
def Includes (l : Ledger) (n : Nat) (hash : H256) : Prop := ∃ i, l.HoldsAt n i hash

theorem includes_iff {l : Ledger} {n : Nat} {hash : H256} :
    l.Includes n hash ↔ l.positions n hash ≠ [] := by
  constructor
  · rintro ⟨i, hi⟩
    exact List.ne_nil_of_mem (mem_positions.mpr hi)
  · intro h
    obtain ⟨i, hi⟩ := List.exists_mem_of_ne_nil _ h
    exact ⟨i, mem_positions.mp hi⟩

/-! ## An account that is not removed -/

variable {l : Ledger} {account : AccountId}

/-- How many extrinsics of a block an account signed. -/
def signedCount (account : AccountId) (xs : List Executed) : Nat :=
  xs.countP fun x => x.SignedBy account

/-- Over a block the nonce counts what the account signs. -/
theorem executeBlock_val {xs : List Executed} {nonces : AccountId → U32}
    (hkept : ∀ x ∈ xs, account ∉ x.reaped)
    (hfits : (nonces account).val + signedCount account xs < 256 ^ 4) :
    (executeBlock xs nonces account).val = (nonces account).val + signedCount account xs := by
  induction xs generalizing nonces with
  | nil => rfl
  | cons x xs ih =>
    have hx : account ∉ x.reaped := hkept x List.mem_cons_self
    have hstep : (x.execute nonces account).val
        = (nonces account).val + if x.SignedBy account then 1 else 0 := by
      unfold Executed.execute
      rw [if_neg hx]
      unfold signedCount at hfits
      rw [List.countP_cons] at hfits
      split at hfits
      case isTrue hs =>
        rw [if_pos hs, if_pos hs, Fin.val_add]
        exact Nat.mod_eq_of_lt (by simpa using by omega)
      case isFalse hs => rw [if_neg hs, if_neg hs, Nat.add_zero]
    unfold signedCount at hfits ih ⊢
    rw [List.countP_cons] at hfits ⊢
    show (executeBlock xs (x.execute nonces) account).val = _
    rw [ih (fun y hy => hkept y (List.mem_cons_of_mem x hy)) (by omega)]
    omega

/-- Block `n` does not remove the account, and does not use up its nonces. -/
def Keeps (l : Ledger) (account : AccountId) (n : Nat) : Prop :=
  (∀ x ∈ l.blocks n, account ∉ x.reaped) ∧
    (l.before n account).val + signedCount account (l.blocks n) < 256 ^ 4

theorem Keeps.nonceAfter {n : Nat} (h : l.Keeps account n) :
    (l.nonceAfter n account).val = (l.before n account).val + signedCount account (l.blocks n) :=
  executeBlock_val h.1 h.2

theorem before_mono {b j n : Nat} (hkept : ∀ i, b ≤ i → i < n → l.Keeps account i) (hb : b ≤ j)
    (hj : j ≤ n) : (l.before j account).val ≤ (l.before n account).val := by
  induction n with
  | zero => rw [Nat.le_zero.mp hj]
  | succ n ih =>
    rcases Nat.lt_or_eq_of_le hj with hlt | rfl
    · have hstep := (hkept n (by omega) (Nat.lt_succ_self n)).nonceAfter
      have hprev := ih (fun i hi hin => hkept i hi (by omega)) (by omega)
      unfold nonceAfter at hstep
      omega
    · exact le_rfl

/-- An extrinsic the account has signed in a block carries a nonce between the account's before
    and after the block. -/
theorem nonce_of_signed {n i : Nat} {x : Executed} {nonce : U32} (hvalid : l.Valid)
    (hkept : l.Keeps account n) (hx : (l.blocks n)[i]? = some x)
    (hsigned : x.signed = some (account, nonce)) :
    l.before n account ≤ nonce ∧ nonce < l.nonceAfter n account := by
  obtain ⟨hlt, rfl⟩ := List.getElem?_eq_some_iff.mp hx
  have hnonce : executeBlock ((l.blocks n).take i) (l.before n) account = nonce :=
    hvalid n i _ hx _ hsigned
  have hcount : signedCount account (l.blocks n)
      = signedCount account ((l.blocks n).take i) + signedCount account ((l.blocks n).drop i) := by
    unfold signedCount
    rw [← List.countP_append, List.take_append_drop]
  have hown : 0 < signedCount account ((l.blocks n).drop i) := by
    unfold signedCount
    rw [List.countP_pos_iff]
    refine ⟨(l.blocks n)[i], ?_, ?_⟩
    · rw [List.drop_eq_getElem_cons hlt]
      exact List.mem_cons_self
    · simp [Executed.SignedBy, hsigned]
  have hfits := hkept.2
  have hprefix : (executeBlock ((l.blocks n).take i) (l.before n) account).val
      = (l.before n account).val + signedCount account ((l.blocks n).take i) :=
    executeBlock_val (fun y hy => hkept.1 y (List.mem_of_mem_take hy)) (by omega)
  rw [hnonce] at hprefix
  have hafter := hkept.nonceAfter
  exact ⟨Fin.le_def.mpr (by omega), Fin.lt_def.mpr (by omega)⟩

end Ledger

end AvailRust
