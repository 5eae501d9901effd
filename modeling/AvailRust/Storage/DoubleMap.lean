/-
  The keys of a double map, decoded and iterated over.

  `roundTrip_iff`: what `encode_storage_key` wrote `decode_storage_key` reads back, and the
  iterator gives every entry under its own keys, exactly when the second key can be read from
  where the code looks for it. The first hasher, unless it is `identity`, leaves the input at
  its own digest, so the second hasher skips its width from there and not from its own digest.
-/
import AvailRust.Storage.Iterator
import AvailRust.Storage.Keys

namespace AvailRust

open Scale Dialogue Paging

namespace StorageDoubleMap

section

variable {Key1 Key2 Value : Type} [Encode Key1] [Decode Key1] [Encode Key2] [Decode Key2]
  [Decode Value]

def iter (crypto : SpCryptoHashing) (map : StorageDoubleMap Key1 Key2 Value) (key1 : Key1)
    (blockHash : H256) : StorageIterator :=
  .new (map.encodePartialKey crypto key1) blockHash

def nextKeyValue (map : StorageDoubleMap Key1 Key2 Value) (it : StorageIterator) :
    StateRpc (Except RpcError (Option ((Key1 × Key2) × Value)) × StorageIterator) :=
  it.nextKeyValue map.decodeStorageKey

/-- Under the first key the storage holds these entries and nothing else. -/
def Holds (crypto : SpCryptoHashing) (map : StorageDoubleMap Key1 Key2 Value) (storage : Storage)
    (key1 : Key1) (entries : List (Key2 × Value)) : Prop :=
  List.Forall₂ (fun stored entry => encode entry.1 ≠ [] ∧
      stored.1 = map.encodeStorageKey crypto key1 entry.1 ∧
      ∃ rest, decode stored.2 = .ok (entry.2, rest))
    (storage.under (map.encodePartialKey crypto key1)) entries

omit [Encode Key1] [Encode Key2] in
/-- An entry is read as it should be when its key is. -/
theorem readEntry_eq_ok {map : StorageDoubleMap Key1 Key2 Value} {stored : Bytes × Bytes}
    {keys : Key1 × Key2} {value : Value} (hvalue : ∃ rest, decode stored.2 = .ok (value, rest)) :
    StorageIterator.readEntry Value map.decodeStorageKey stored = .ok (keys, value) ↔
      ∃ rest, map.decodeStorageKey stored.1 = .ok (keys, rest) := by
  obtain ⟨rest, hvalue⟩ := hvalue
  unfold StorageIterator.readEntry
  simp only [hvalue]
  rcases map.decodeStorageKey stored.1 with e | ⟨keys', rest'⟩
  · exact ⟨nofun, nofun⟩
  · constructor
    · intro h
      cases h
      exact ⟨rest', rfl⟩
    · rintro ⟨_, h⟩
      cases h
      rfl

/-- Both halves of the promise hold exactly for the keys whose second one is read from the right
    place. -/
theorem roundTrip_iff [RoundTrips Key1] [RoundTrips Key2] (crypto : SpCryptoHashing)
    (map : StorageDoubleMap Key1 Key2 Value) (h1 : map.key1Hasher.Reversible)
    (h2 : map.key2Hasher.Reversible) (key1 : Key1) (hkey1 : encode key1 ≠ []) :
    (∀ key2 : Key2, encode key2 ≠ [] →
      ((∃ rest, map.decodeStorageKey (map.encodeStorageKey crypto key1 key2)
        = .ok ((key1, key2), rest)) ↔ map.ReadsKey2 crypto key1 key2)) ∧
    ∀ (storage : Storage) (hash : H256) (entries : List (Key2 × Value)),
      map.Holds crypto storage key1 entries →
      ((∃ it', Settles (Serves storage hash)
          (calls map.nextKeyValue (entries.length + 1) (map.iter crypto key1 hash))
          (entries.map (fun entry => .ok (some ((key1, entry.1), entry.2))) ++ [.ok none], it')) ↔
        ∀ entry ∈ entries, map.ReadsKey2 crypto key1 entry.1) := by
  refine ⟨fun key2 hkey2 => decodeStorageKey_iff h1 h2 hkey1 hkey2, ?_⟩
  intro storage hash entries hholds
  have hstart : StorageIterator.At storage hash (map.encodePartialKey crypto key1)
      (map.iter crypto key1 hash) (storage.under (map.encodePartialKey crypto key1)) :=
    StorageIterator.new_at
  -- the calls give what is taken of the stored entries, whatever that is
  obtain ⟨it', hcalls⟩ := StorageIterator.calls_settles Value map.decodeStorageKey
    (entries.length + 1) hstart
  have hresults : taken (StorageIterator.readEntry Value map.decodeStorageKey)
        (entries.length + 1) (storage.under (map.encodePartialKey crypto key1))
      = entries.map (fun entry => .ok (some ((key1, entry.1), entry.2))) ++ [.ok none] ↔
      List.Forall₂ (fun stored entry => StorageIterator.readEntry Value map.decodeStorageKey stored
        = .ok ((key1, entry.1), entry.2))
        (storage.under (map.encodePartialKey crypto key1)) entries := by
    rw [← List.forall₂_map_right_iff (R := fun stored result =>
      StorageIterator.readEntry Value map.decodeStorageKey stored = .ok result), ← taken_iff,
      List.length_map, List.map_map]
    rfl
  have hread : List.Forall₂ (fun stored entry =>
        StorageIterator.readEntry Value map.decodeStorageKey stored
          = .ok ((key1, entry.1), entry.2))
        (storage.under (map.encodePartialKey crypto key1)) entries ↔
      ∀ entry ∈ entries, map.ReadsKey2 crypto key1 entry.1 := by
    refine forall₂_iff_of_related hholds ?_
    rintro stored entry ⟨hkey2, hstored, hvalue⟩
    rw [readEntry_eq_ok hvalue, hstored]
    exact decodeStorageKey_iff h1 h2 hkey1 hkey2
  rw [← hread, ← hresults]
  constructor
  · rintro ⟨it'', h⟩
    exact congrArg Prod.fst (hcalls.unique (storage.view_serves hash) h)
  · intro h
    rw [h] at hcalls
    exact ⟨it', hcalls⟩

end

/-! ## Preferences of validators -/

/-- The double map of the era and the validator that the example of the crate iterates over. -/
def stakingErasValidatorPrefs (Value : Type) : StorageDoubleMap U32 AccountId Value where
  palletName := "Staking"
  storageName := "ErasValidatorPrefs"
  key1Hasher := .twox64Concat
  key2Hasher := .twox64Concat

/-- The account read instead of the validator: the era, the validator's digest and the first
    twenty bytes of the validator. -/
def eraAccount (era : U32) (validator : AccountId) : AccountId where
  bytes := leBytes 4 era.1 ++ (noCrypto.twox_64 validator.bytes).bytes ++ validator.bytes.take 20
  length_bytes := by
    rw [List.length_append, List.length_append, length_leBytes, FixedBytes.length_bytes,
      List.length_take, validator.length_bytes]
    rfl

/-- The preferences of validator 9 in era 1 are read as those of another account. -/
theorem roundTrip_not_staking :
    (∃ rest, (stakingErasValidatorPrefs Unit).decodeStorageKey
      ((stakingErasValidatorPrefs Unit).encodeStorageKey noCrypto 1 (FixedBytes.fill 32 9))
        = .ok ((1, eraAccount 1 (FixedBytes.fill 32 9)), rest)) ∧
    ¬ ∃ rest, (stakingErasValidatorPrefs Unit).decodeStorageKey
      ((stakingErasValidatorPrefs Unit).encodeStorageKey noCrypto 1 (FixedBytes.fill 32 9))
        = .ok ((1, FixedBytes.fill 32 9), rest) := by
  have hrun : (stakingErasValidatorPrefs Unit).decodeStorageKey
      ((stakingErasValidatorPrefs Unit).encodeStorageKey noCrypto 1 (FixedBytes.fill 32 9))
      = .ok ((1, eraAccount 1 (FixedBytes.fill 32 9)),
        (stakingErasValidatorPrefs Unit).hashedKeys noCrypto 1 (FixedBytes.fill 32 9)) := by
    decide +kernel
  refine ⟨⟨_, hrun⟩, ?_⟩
  rintro ⟨rest, h⟩
  rw [hrun] at h
  simp only [Except.ok.injEq, Prod.mk.injEq] at h
  exact absurd h.1.2 (by decide +kernel)

/-- A map from eras and validators to whether the validator is blocked, whose first key is not
    hashed. -/
def blockedValidators : StorageDoubleMap U32 AccountId Bool where
  palletName := "Staking"
  storageName := "ErasBlocked"
  key1Hasher := .identity
  key2Hasher := .twox64Concat

/-- In era 1 validator 9 is blocked and validator 10 is not. -/
def twoValidators : Storage where
  entries := [
    (blockedValidators.encodeStorageKey noCrypto 1 (FixedBytes.fill 32 9), [1]),
    (blockedValidators.encodeStorageKey noCrypto 1 (FixedBytes.fill 32 10), [0])]
  sorted := by decide +kernel

theorem roundTrip_iff_blocked :
    ∃ it', Settles (Serves twoValidators (FixedBytes.fill 32 0))
      (calls blockedValidators.nextKeyValue 3
        (blockedValidators.iter noCrypto 1 (FixedBytes.fill 32 0)))
      ([.ok (some ((1, FixedBytes.fill 32 9), true)),
        .ok (some ((1, FixedBytes.fill 32 10), false)), .ok none], it') := by
  have hholds : blockedValidators.Holds noCrypto twoValidators 1
      [(FixedBytes.fill 32 9, true), (FixedBytes.fill 32 10, false)] := by
    have hunder : twoValidators.under (blockedValidators.encodePartialKey noCrypto 1)
        = twoValidators.entries := by decide +kernel
    unfold Holds
    rw [hunder]
    exact .cons ⟨by decide, rfl, [], rfl⟩ (.cons ⟨by decide, rfl, [], rfl⟩ .nil)
  exact ((roundTrip_iff noCrypto blockedValidators (by decide) (by decide) 1 (by decide)).2
    twoValidators (FixedBytes.fill 32 0) _ hholds).mpr fun _ _ => .inl rfl

end StorageDoubleMap

end AvailRust
