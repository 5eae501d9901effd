/-
  The account of a multisig, and the calls that name its signatories.

  `multiAccountId` sorts the signatories, so what it hashes has each account as often as the input
  and in the order of the accounts (`signatories_eq_some`). It hashes a marker, the sorted list
  with its length, and the threshold. The marker has a fixed width and the list and the threshold
  are read back, so the hashed bytes tell all of them (`entropyInput_injective`). The hash fills an
  account exactly: the zeros behind it are not read.

  The SS58 format is read by another crate; its reader is the parameter `fromSs58`. `none` is a
  panic: a text that is no account, or a list too long for its length to be written.
-/
import AvailRust.Lib.PrefixCode
import AvailRust.Pallets.Multisig
import AvailRust.Storage.Keys
import Mathlib.Data.List.Sort
import Mathlib.Data.Multiset.Defs

namespace AvailRust

open Scale PrefixCode

/-! ## What sorting forgets -/

/-- Sorting forgets the order. -/
theorem mergeSort_eq_of_perm {α : Type} {r : α → α → Prop} [DecidableRel r] [IsTrans α r]
    [Std.Total r] [Std.Antisymm r] {xs ys : List α} (h : xs.Perm ys) :
    xs.mergeSort (fun a b => decide (r a b)) = ys.mergeSort (fun a b => decide (r a b)) := by
  have hx := xs.mergeSort_perm (fun a b => decide (r a b))
  have hy := ys.mergeSort_perm (fun a b => decide (r a b))
  have hsorted := (hx.trans h).trans hy.symm
  exact hsorted.eq_of_pairwise' (xs.pairwise_mergeSort' (r := r)) (ys.pairwise_mergeSort' (r := r))

/-- A conversion that may fail meets the same elements in either order. -/
theorem mapM_perm {α β : Type} (f : α → Option β) {xs ys : List α} (h : xs.Perm ys) :
    Option.Rel List.Perm (xs.mapM f) (ys.mapM f) := by
  induction h with
  | nil => exact .some (.refl [])
  | @cons x xs ys _ ih =>
    rw [List.mapM_cons, List.mapM_cons]
    generalize xs.mapM f = accounts, ys.mapM f = accounts' at ih ⊢
    cases f x with
    | none => exact .none
    | some y =>
      cases ih with
      | none => exact .none
      | some hperm => exact .some (hperm.cons y)
  | swap x x' xs =>
    simp only [List.mapM_cons]
    cases f x <;> cases f x' <;> cases xs.mapM f <;>
      first | exact .none | exact .some (.swap _ _ _)
  | @trans xs ys zs _ _ ih ih' =>
    generalize xs.mapM f = accounts, ys.mapM f = accounts', zs.mapM f = accounts'' at ih ih' ⊢
    cases ih with
    | none => exact ih'
    | some hperm =>
      cases ih' with
      | some hperm' => exact .some (hperm.trans hperm')

/-- A conversion of a list finds a result for each of its elements. -/
theorem mapM_eq_some {α β : Type} {f : α → Option β} {xs : List α} {ys : List β} :
    xs.mapM f = some ys ↔ List.Forall₂ (fun x y => f x = some y) xs ys := by
  induction xs generalizing ys with
  | nil => cases ys <;> simp
  | cons x xs ih =>
    rw [List.mapM_cons]
    cases ys with
    | nil => cases f x <;> cases xs.mapM f <;> simp
    | cons y ys =>
      rw [List.forall₂_cons, ← ih]
      cases f x <;> cases xs.mapM f <;> simp

/-! ## Accounts as they are written -/

/-- Arrays are ordered by their first byte, then by the second, and so on. -/
instance {n : Nat} : LE (FixedBytes n) := ⟨fun a b => a.bytes ≤ b.bytes⟩

instance {n : Nat} : DecidableLE (FixedBytes n) :=
  fun a b => inferInstanceAs (Decidable (a.bytes ≤ b.bytes))

instance {n : Nat} : IsTrans (FixedBytes n) (· ≤ ·) := ⟨fun _ _ _ => List.le_trans⟩

instance {n : Nat} : Std.Total (α := FixedBytes n) (· ≤ ·) := ⟨fun _ _ => List.le_total _ _⟩

instance {n : Nat} : Std.Antisymm (α := FixedBytes n) (· ≤ ·) :=
  ⟨fun _ _ h h' => FixedBytes.ext (List.le_antisymm h h')⟩

inductive AccountIdLike where
  | accountId (account : AccountId)
  | boxedString (text : String)
deriving DecidableEq

def accountIdFromSlice (value : Bytes) : Except String AccountId :=
  if h : value.length = 32 then .ok ⟨value, h⟩ else .error "could not convert slice to array"

variable (fromSs58 : String → Except String AccountId)

def accountIdFromStr (value : String) : Except String AccountId :=
  if "0x".toList <+: value.toList then do
    let decoded ← Hex.decode (Hex.trimStartMatches "0x".toList value.toList)
    accountIdFromSlice decoded
  else fromSs58 value

/-- `AccountId::try_from`. -/
def AccountIdLike.tryIntoAccountId : AccountIdLike → Except String AccountId
  | .accountId a => .ok a
  | .boxedString s => accountIdFromStr fromSs58 s

/-- The accounts, or the panic "Malformed string is passed for AccountId". -/
def expectAccounts (who : List AccountIdLike) : Option (List AccountId) :=
  who.mapM fun x => (x.tryIntoAccountId fromSs58).toOption

/-- The elements of the input are read as these accounts, one by one. -/
def ReadAs (who : List AccountIdLike) (accounts : List AccountId) : Prop :=
  List.Forall₂ (fun x account => x.tryIntoAccountId fromSs58 = .ok account) who accounts

theorem expectAccounts_eq_some {who : List AccountIdLike} {accounts : List AccountId} :
    expectAccounts fromSs58 who = some accounts ↔ ReadAs fromSs58 who accounts := by
  have hvalid : ∀ (x : AccountIdLike) (account : AccountId),
      (x.tryIntoAccountId fromSs58).toOption = some account ↔
        x.tryIntoAccountId fromSs58 = .ok account := by
    intro x account
    cases x.tryIntoAccountId fromSs58 <;> simp [Except.toOption]
  unfold expectAccounts ReadAs
  rw [mapM_eq_some]
  simp only [hvalid]

/-- In any order the same accounts, or no accounts at all. -/
theorem expectAccounts_perm {who who' : List AccountIdLike} (h : who.Perm who') :
    Option.Rel List.Perm (expectAccounts fromSs58 who) (expectAccounts fromSs58 who') :=
  mapM_perm _ h

/-- `who.sort()`. -/
def sortAccounts (who : List AccountId) : List AccountId :=
  who.mergeSort (fun a b => decide (a ≤ b))

/-- Two lists are sorted into the same one if they have the same accounts, each as often. -/
theorem sortAccounts_eq_iff {who who' : List AccountId} :
    sortAccounts who = sortAccounts who' ↔ who.Perm who' := by
  unfold sortAccounts
  constructor
  · intro h
    have hwho := who.mergeSort_perm (fun a b => decide (a ≤ b))
    rw [h] at hwho
    exact hwho.symm.trans (who'.mergeSort_perm _)
  · exact mergeSort_eq_of_perm

/-- A list of the same accounts that is in order is the sorted one. -/
theorem sortAccounts_eq {who sorted : List AccountId} (hperm : sorted.Perm who)
    (hsorted : sorted.Pairwise (· ≤ ·)) : sortAccounts who = sorted := by
  have hwho : (sortAccounts who).Perm sorted := (who.mergeSort_perm _).trans hperm.symm
  exact hwho.eq_of_pairwise' (who.pairwise_mergeSort' (r := (· ≤ ·))) hsorted

/-- The accounts in the order in which they are written. -/
def signatories (who : List AccountIdLike) : Option (Vec AccountId) := do
  let who ← expectAccounts fromSs58 who
  Vec.ofList (sortAccounts who)

/-- They are the accounts of the input, each as often, in the order of the accounts. -/
theorem signatories_eq_some {who : List AccountIdLike} {v : Vec AccountId} :
    signatories fromSs58 who = some v ↔ ∃ accounts, ReadAs fromSs58 who accounts ∧
      v.items.Perm accounts ∧ v.items.Pairwise (· ≤ ·) := by
  constructor
  · intro h
    obtain ⟨accounts, hwho, hv⟩ := Option.bind_eq_some_iff.mp h
    rw [Vec.ofList_eq_some.mp hv]
    exact ⟨accounts, (expectAccounts_eq_some fromSs58).mp hwho, accounts.mergeSort_perm _,
      accounts.pairwise_mergeSort' (r := (· ≤ ·))⟩
  · intro h
    obtain ⟨accounts, hwho, hperm, hsorted⟩ := h
    refine Option.bind_eq_some_iff.mpr ⟨accounts, (expectAccounts_eq_some fromSs58).mpr hwho, ?_⟩
    rw [sortAccounts_eq hperm hsorted]
    exact Vec.ofList_eq_some.mpr rfl

theorem signatories_eq_of_perm {who who' : List AccountIdLike}
    (h : Option.Rel List.Perm (expectAccounts fromSs58 who) (expectAccounts fromSs58 who')) :
    signatories fromSs58 who = signatories fromSs58 who' := by
  unfold signatories
  generalize expectAccounts fromSs58 who = accounts, expectAccounts fromSs58 who' = accounts' at h
  cases h with
  | none => rfl
  | some hperm =>
    show Vec.ofList (sortAccounts _) = Vec.ofList (sortAccounts _)
    rw [sortAccounts_eq_iff.mpr hperm]

/-! ## The account of a multisig -/

namespace TrailingZeroInput

variable {n : Nat}

/-- `read` into a buffer of `n` bytes, and the data that is left. -/
def read (n : Nat) (data : Bytes) : FixedBytes n × Bytes :=
  let lenFromInner := min n data.length
  (⟨data.take lenFromInner ++ List.replicate (n - lenFromInner) 0, by
      rw [List.length_append, List.length_take, List.length_replicate]
      omega⟩,
    data.drop lenFromInner)

/-- Data of the buffer's size fills it, with no zero behind it, and all of it is used. -/
theorem read_bytes (x : FixedBytes n) : read n x.bytes = (x, []) := by
  have hmin : min n x.bytes.length = x.bytes.length := by
    rw [x.length_bytes]
    exact Nat.min_self n
  have hzeros : n - x.bytes.length = 0 := by
    rw [x.length_bytes]
    exact Nat.sub_self n
  simp only [read, hmin, hzeros, List.take_length, List.replicate_zero, List.append_nil,
    List.drop_length]

end TrailingZeroInput

/-- The marker in front of the signatories. -/
def utilisuba : FixedBytes 16 := ⟨asBytes "modlpy/utilisuba", by decide +kernel⟩

/-- The bytes that are hashed. -/
def entropyInput (who : Vec AccountId) (threshold : U16) : Bytes :=
  encode (utilisuba, who, threshold)

/-- They tell the signatories and the threshold. -/
theorem entropyInput_injective {who who' : Vec AccountId} {threshold threshold' : U16}
    (h : entropyInput who threshold = entropyInput who' threshold') :
    who = who' ∧ threshold = threshold' := by
  have htuple := encode_injective h
  simp only [Prod.mk.injEq, true_and] at htuple
  exact htuple

def multiAccountId (crypto : SpCryptoHashing) (who : List AccountIdLike) (threshold : U16) :
    Option AccountId := do
  let who ← signatories fromSs58 who
  let entropy := crypto.blake2_256 (entropyInput who threshold)
  pure (TrailingZeroInput.read 32 entropy.bytes).1

theorem multiAccountId_eq (crypto : SpCryptoHashing) (who : List AccountIdLike)
    (threshold : U16) :
    multiAccountId fromSs58 crypto who threshold
      = (signatories fromSs58 who).map fun sorted =>
          crypto.blake2_256 (entropyInput sorted threshold) := by
  unfold multiAccountId
  simp only [TrailingZeroInput.read_bytes]
  cases signatories fromSs58 who <;> rfl

/-- Valid accounts have an account together, unless their number cannot be written. -/
theorem signatories_of_valid {who : List AccountIdLike}
    (hvalid : ∀ x ∈ who, ∃ account, x.tryIntoAccountId fromSs58 = .ok account)
    (hlength : who.length < 256 ^ 4) : ∃ v, signatories fromSs58 who = some v := by
  obtain ⟨accounts, hwho⟩ : ∃ accounts, ReadAs fromSs58 who accounts := by
    clear hlength
    induction who with
    | nil => exact ⟨[], .nil⟩
    | cons x who ih =>
      obtain ⟨account, hx⟩ := hvalid x List.mem_cons_self
      obtain ⟨accounts, hwho⟩ := ih fun y hy => hvalid y (List.mem_cons_of_mem x hy)
      exact ⟨account :: accounts, .cons hx hwho⟩
  have hsorted : (sortAccounts accounts).length < 256 ^ 4 := by
    rw [sortAccounts, List.length_mergeSort, ← hwho.length_eq]
    exact hlength
  exact ⟨⟨sortAccounts accounts, hsorted⟩, (signatories_eq_some fromSs58).mpr
    ⟨accounts, hwho, accounts.mergeSort_perm _, accounts.pairwise_mergeSort' (r := (· ≤ ·))⟩⟩

/-- What is hashed tells how often each account is there, and the threshold, and no more. -/
theorem entropyInput_eq_iff {who who' : List AccountIdLike} {accounts accounts' : List AccountId}
    {v v' : Vec AccountId} {threshold threshold' : U16} (hwho : ReadAs fromSs58 who accounts)
    (hwho' : ReadAs fromSs58 who' accounts') (hv : signatories fromSs58 who = some v)
    (hv' : signatories fromSs58 who' = some v') :
    entropyInput v threshold = entropyInput v' threshold' ↔
      (accounts : Multiset AccountId) = accounts' ∧ threshold = threshold' := by
  have hitems : ∀ {who accounts v}, ReadAs fromSs58 who accounts →
      signatories fromSs58 who = some v → v.items = sortAccounts accounts := by
    intro who accounts v hwho hv
    obtain ⟨named, hnamed, hperm, hsorted⟩ := (signatories_eq_some fromSs58).mp hv
    have hsame := (expectAccounts_eq_some fromSs58).mpr hnamed
    rw [(expectAccounts_eq_some fromSs58).mpr hwho] at hsame
    obtain rfl := Option.some.inj hsame
    exact (sortAccounts_eq hperm hsorted).symm
  rw [Multiset.coe_eq_coe, ← sortAccounts_eq_iff, ← hitems hwho hv, ← hitems hwho' hv',
    ← Vec.ext_iff]
  constructor
  · exact entropyInput_injective
  · intro h
    rw [h.1, h.2]

/-- The account is one for all orders and all ways to write the accounts; it is the hash, for all
    valid accounts whose number can be written; what is hashed holds the accounts in their order,
    and is the same for two inputs if and only if the accounts and the thresholds are. -/
theorem multiAccountId_meets_spec (crypto : SpCryptoHashing) :
    (∀ (who who' : List AccountIdLike) (threshold : U16), who.Perm who' →
      multiAccountId fromSs58 crypto who threshold
        = multiAccountId fromSs58 crypto who' threshold) ∧
    (∀ (who who' : List AccountIdLike) (accounts accounts' : List AccountId) (threshold : U16),
      expectAccounts fromSs58 who = some accounts → expectAccounts fromSs58 who' = some accounts' →
      (accounts : Multiset AccountId) = accounts' →
        multiAccountId fromSs58 crypto who threshold
          = multiAccountId fromSs58 crypto who' threshold) ∧
    (∀ (who : List AccountIdLike) (v : Vec AccountId), signatories fromSs58 who = some v ↔
      ∃ accounts, ReadAs fromSs58 who accounts ∧ v.items.Perm accounts ∧
        v.items.Pairwise (· ≤ ·)) ∧
    (∀ (who : List AccountIdLike) (threshold : U16),
      (∀ x ∈ who, ∃ account, x.tryIntoAccountId fromSs58 = .ok account) →
      who.length < 256 ^ 4 → ∃ v, signatories fromSs58 who = some v ∧
        multiAccountId fromSs58 crypto who threshold
          = some (crypto.blake2_256 (entropyInput v threshold))) ∧
    (∀ (who who' : List AccountIdLike) (accounts accounts' : List AccountId) (v v' : Vec AccountId)
      (threshold threshold' : U16), ReadAs fromSs58 who accounts → ReadAs fromSs58 who' accounts' →
      signatories fromSs58 who = some v → signatories fromSs58 who' = some v' →
      (entropyInput v threshold = entropyInput v' threshold' ↔
        (accounts : Multiset AccountId) = accounts' ∧ threshold = threshold')) ∧
    (∀ (who who' : Vec AccountId) (threshold threshold' : U16),
      who ≠ who' ∨ threshold ≠ threshold' →
        entropyInput who threshold ≠ entropyInput who' threshold') ∧
    ∀ (who : List AccountIdLike) (threshold : U16),
      multiAccountId fromSs58 crypto who threshold
        = (signatories fromSs58 who).map fun sorted =>
            crypto.blake2_256 (entropyInput sorted threshold) := by
  have hsame : ∀ {who who' : List AccountIdLike} (threshold : U16),
      Option.Rel List.Perm (expectAccounts fromSs58 who) (expectAccounts fromSs58 who') →
        multiAccountId fromSs58 crypto who threshold
          = multiAccountId fromSs58 crypto who' threshold := by
    intro who who' threshold h
    unfold multiAccountId
    rw [signatories_eq_of_perm fromSs58 h]
  refine ⟨?order, ?multiset, fun who v => signatories_eq_some fromSs58, ?valid, ?input, ?bytes,
    multiAccountId_eq fromSs58 crypto⟩
  case order =>
    intro who who' threshold h
    exact hsame threshold (expectAccounts_perm fromSs58 h)
  case multiset =>
    intro who who' accounts accounts' threshold hwho hwho' h
    apply hsame
    rw [hwho, hwho']
    exact .some (Multiset.coe_eq_coe.mp h)
  case valid =>
    intro who threshold hvalid hlength
    obtain ⟨v, hv⟩ := signatories_of_valid fromSs58 hvalid hlength
    refine ⟨v, hv, ?_⟩
    rw [multiAccountId_eq, hv]
    rfl
  case input =>
    intro who who' accounts accounts' v v' threshold threshold' hwho hwho' hv hv'
    exact entropyInput_eq_iff fromSs58 hwho hwho' hv hv'
  case bytes =>
    intro who who' threshold threshold' hdiffer h
    obtain ⟨hwho, hthreshold⟩ := entropyInput_injective h
    exact hdiffer.elim (absurd hwho) (absurd hthreshold)

/-- Two signatories, of which the second or the first is named twice. -/
theorem multiAccountId_meets_spec_three :
    let fromSs58 : String → Except String AccountId := fun _ => .error "no SS58"
    let a : AccountIdLike := .accountId (.fill 32 1)
    let b : AccountIdLike := .accountId (.fill 32 2)
    multiAccountId fromSs58 noCrypto [a, b, b] 2 = multiAccountId fromSs58 noCrypto [b, a, b] 2 ∧
    ∃ v v', signatories fromSs58 [a, b, b] = some v ∧ signatories fromSs58 [a, a, b] = some v' ∧
      multiAccountId fromSs58 noCrypto [a, b, b] 2
        = some (noCrypto.blake2_256 (entropyInput v 2)) ∧
      entropyInput v 2 ≠ entropyInput v' 2 := by
  intro fromSs58 a b
  obtain ⟨horder, -, -, hvalid, hinput, -⟩ := multiAccountId_meets_spec fromSs58 noCrypto
  have hall : ∀ x y z : AccountId, ∀ w ∈ [x, y, z].map AccountIdLike.accountId,
      ∃ account, w.tryIntoAccountId fromSs58 = .ok account := by
    intro x y z w hw
    obtain ⟨account, -, rfl⟩ := List.mem_map.mp hw
    exact ⟨account, rfl⟩
  obtain ⟨v, hv, hhash⟩ := hvalid [a, b, b] 2 (hall (.fill 32 1) (.fill 32 2) (.fill 32 2))
    (by decide)
  obtain ⟨v', hv', -⟩ := hvalid [a, a, b] 2 (hall (.fill 32 1) (.fill 32 1) (.fill 32 2))
    (by decide)
  refine ⟨horder _ _ 2 (.swap _ _ _), v, v', hv, hv', hhash, fun hsame => ?_⟩
  have hthree : ∀ x y z : AccountId,
      ReadAs fromSs58 [.accountId x, .accountId y, .accountId z] [x, y, z] :=
    fun x y z => .cons rfl (.cons rfl (.cons rfl .nil))
  have hmultiset := (hinput _ _ _ _ v v' 2 2 (hthree _ _ _) (hthree _ _ _) hv hv').mp hsame
  have hperm := Multiset.coe_eq_coe.mp hmultiset.1
  have hcount := hperm.count_eq (FixedBytes.fill 32 1)
  revert hcount
  decide

/-! ## The calls of a multisig -/

namespace Multisig

def approveAsMulti (threshold : U16) (otherSignatories : List AccountIdLike)
    (maybeTimepoint : Option Timepoint) (callHash : H256) (maxWeight : Weight) :
    Option Tx.ApproveAsMulti := do
  let otherSignatories ← signatories fromSs58 otherSignatories
  pure { threshold, otherSignatories, maybeTimepoint, callHash, maxWeight }

def asMulti (threshold : U16) (otherSignatories : List AccountIdLike)
    (maybeTimepoint : Option Timepoint) (call : ExtrinsicCall) (maxWeight : Weight) :
    Option Tx.AsMulti := do
  let otherSignatories ← signatories fromSs58 otherSignatories
  pure { threshold, otherSignatories, maybeTimepoint, call, maxWeight }

def asMultiThreshold1 (otherSignatories : List AccountIdLike) (call : ExtrinsicCall) :
    Option Tx.AsMultiThreshold1 := do
  let otherSignatories ← signatories fromSs58 otherSignatories
  pure { otherSignatories, call }

def cancelAsMulti (threshold : U16) (otherSignatories : List AccountIdLike)
    (timepoint : Timepoint) (callHash : H256) : Option Tx.CancelAsMulti := do
  let otherSignatories ← signatories fromSs58 otherSignatories
  pure { threshold, otherSignatories, timepoint, callHash }

/-- The calls too are one for all orders. -/
theorem calls_eq_of_perm {others others' : List AccountIdLike} (h : others.Perm others')
    (threshold : U16) (call : ExtrinsicCall) (callHash : H256) (maybeTimepoint : Option Timepoint)
    (timepoint : Timepoint) (maxWeight : Weight) :
    approveAsMulti fromSs58 threshold others maybeTimepoint callHash maxWeight
        = approveAsMulti fromSs58 threshold others' maybeTimepoint callHash maxWeight ∧
      asMulti fromSs58 threshold others maybeTimepoint call maxWeight
        = asMulti fromSs58 threshold others' maybeTimepoint call maxWeight ∧
      asMultiThreshold1 fromSs58 others call = asMultiThreshold1 fromSs58 others' call ∧
      cancelAsMulti fromSs58 threshold others timepoint callHash
        = cancelAsMulti fromSs58 threshold others' timepoint callHash := by
  have hsame := signatories_eq_of_perm fromSs58 (expectAccounts_perm fromSs58 h)
  unfold approveAsMulti asMulti asMultiThreshold1 cancelAsMulti
  rw [hsame]
  exact ⟨rfl, rfl, rfl, rfl⟩

end Multisig

end AvailRust
