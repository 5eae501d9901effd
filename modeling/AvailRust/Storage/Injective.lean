/-
  Storage keys tell their keys apart.

  A reversible hasher writes the key behind a digest of fixed width, so the digests may collide in
  any way: what stands behind them decides. Of the two keys of a double map only the first has to
  be prefix-free, since the second one ends with the storage key.
-/
import AvailRust.Lib.PrefixCode
import AvailRust.Storage.DoubleMap

namespace AvailRust

open Scale PrefixCode

namespace StorageHasher

variable {hasher : StorageHasher} {Key : Type} [Encode Key]

/-- A reversible hasher puts a digest of its width in front of the encoded key. -/
theorem headed (h : hasher.Reversible) (crypto : SpCryptoHashing) :
    Headed hasher.width (encode : Key → Bytes) (fun key => hasher.hash crypto (encode key)) :=
  fun key => hash_eq h crypto (encode key)

end StorageHasher

section

variable {Key Key1 Key2 Value : Type} [Encode Key] [Encode Key1] [Encode Key2]

theorem StorageMap.encodeStorageKey_inj {crypto : SpCryptoHashing} {map : StorageMap Key Value}
    (hmap : map.keyHasher.Reversible) (hkey : Function.Injective (encode : Key → Bytes))
    {key key' : Key} (h : map.encodeStorageKey crypto key = map.encodeStorageKey crypto key') :
    key = key' := by
  have hhash := List.append_cancel_left h
  exact (StorageHasher.headed hmap crypto).injective hkey hhash

theorem StorageDoubleMap.encodeStorageKey_inj {crypto : SpCryptoHashing}
    {map : StorageDoubleMap Key1 Key2 Value} (h1 : map.key1Hasher.Reversible)
    (h2 : map.key2Hasher.Reversible) (hkey1 : Function.Injective (encode : Key1 → Bytes))
    (hfree1 : PrefixFree (encode : Key1 → Bytes))
    (hkey2 : Function.Injective (encode : Key2 → Bytes)) {key1 key1' : Key1} {key2 key2' : Key2}
    (h : map.encodeStorageKey crypto key1 key2 = map.encodeStorageKey crypto key1' key2') :
    key1 = key1' ∧ key2 = key2' := by
  unfold encodeStorageKey encodePartialKey at h
  rw [List.append_assoc, List.append_assoc] at h
  have hhash := List.append_cancel_left h
  have hhead1 : Headed map.key1Hasher.width (encode : Key1 → Bytes) _ :=
    StorageHasher.headed h1 crypto
  have hhead2 : Headed map.key2Hasher.width (encode : Key2 → Bytes) _ :=
    StorageHasher.headed h2 crypto
  exact (hhead1.prefixFree hkey1 hfree1).pair_inj (hhead1.injective hkey1)
    (hhead2.injective hkey2) hhash

variable (Key Key1 Key2 Value)

/-- Two keys of a map with one storage key are equal, and so are two pairs of keys of a double
    map, for every digest there is. -/
theorem storage_keys_injective (crypto : SpCryptoHashing) :
    (∀ map : StorageMap Key Value, map.keyHasher.Reversible →
      Function.Injective (encode : Key → Bytes) → ∀ key key' : Key,
        map.encodeStorageKey crypto key = map.encodeStorageKey crypto key' → key = key') ∧
    ∀ map : StorageDoubleMap Key1 Key2 Value, map.key1Hasher.Reversible →
      map.key2Hasher.Reversible → Function.Injective (encode : Key1 → Bytes) →
      PrefixFree (encode : Key1 → Bytes) → Function.Injective (encode : Key2 → Bytes) →
      ∀ (key1 key1' : Key1) (key2 key2' : Key2),
        map.encodeStorageKey crypto key1 key2 = map.encodeStorageKey crypto key1' key2' →
          key1 = key1' ∧ key2 = key2' := by
  constructor
  · intro map hmap hkey key key' h
    exact StorageMap.encodeStorageKey_inj hmap hkey h
  · intro map h1 h2 hkey1 hfree1 hkey2 key1 key1' key2 key2' h
    exact StorageDoubleMap.encodeStorageKey_inj h1 h2 hkey1 hfree1 hkey2 h

end

/-- The application keys, by name. -/
def dataAvailabilityAppKeys (Value : Type) : StorageMap (Vec UInt8) Value where
  palletName := "DataAvailability"
  storageName := "AppKeys"
  keyHasher := .blake2_128Concat

/-- Names of any length, and eras with validators, are told apart when all digests are equal. -/
theorem storage_keys_injective_noCrypto :
    (∀ name name' : Vec UInt8,
      (dataAvailabilityAppKeys Unit).encodeStorageKey noCrypto name
        = (dataAvailabilityAppKeys Unit).encodeStorageKey noCrypto name' → name = name') ∧
    ∀ (era era' : U32) (validator validator' : AccountId),
      (StorageDoubleMap.stakingErasValidatorPrefs Unit).encodeStorageKey noCrypto era validator
        = (StorageDoubleMap.stakingErasValidatorPrefs Unit).encodeStorageKey noCrypto era'
            validator' → era = era' ∧ validator = validator' := by
  have h := storage_keys_injective (Vec UInt8) U32 AccountId Unit noCrypto
  constructor
  · exact h.1 (dataAvailabilityAppKeys Unit) (by decide) encode_injective
  · exact h.2 (StorageDoubleMap.stakingErasValidatorPrefs Unit) (by decide) (by decide)
      encode_injective encode_prefixFree encode_injective

end AvailRust
