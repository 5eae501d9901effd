/-
  Storage keys, decoded with the slices of the source.

  The source cuts the digests off a key of any length and panics when a cut lies outside. Here a
  cut is a partial function (`sliceFrom`) and `none` is a panic, also that of the hashers that do
  not keep their key. For the hashers that do, every cut is guarded by a check of the length, so
  these decoders are the total ones of the model (`fromHashSliced_eq`).
-/
import AvailRust.Core.Account
import AvailRust.Storage.DoubleMap

namespace AvailRust

open Scale

/-- `&data[n..]`, or the panic of an index out of bounds. -/
def sliceFrom (n : Nat) (data : Bytes) : Option Bytes :=
  if n ≤ data.length then some (data.drop n) else none

theorem sliceFrom_eq {n : Nat} {data : Bytes} (h : n ≤ data.length) :
    sliceFrom n data = some (data.drop n) := if_pos h

namespace StorageHasher

variable {Key : Type} [Decode Key]

/-- `from_hash`, with its slices. -/
def fromHashSliced (hasher : StorageHasher) (data : Bytes) : Option (Except String (Key × Bytes)) :=
  match hasher with
  | .blake2_128Concat =>
    if data.length < 17 then some (.error "Not enough data to compute Blake2_128Concat") else do
      let key ← sliceFrom 16 data
      some ((fun p => (p.1, data)) <$> decode key)
  | .twox64Concat =>
    if data.length < 9 then some (.error "Not enough data to compute Twox64Concat") else do
      let key ← sliceFrom 8 data
      some ((fun p => (p.1, data)) <$> decode key)
  | .identity => some (decode data)
  | _ => none

variable {hasher : StorageHasher}

theorem fromHashSliced_eq (h : hasher.Reversible) (data : Bytes) :
    hasher.fromHashSliced data = some ((hasher.fromHash : Decoder Key) data) := by
  rcases h with rfl | rfl | rfl
  · unfold fromHashSliced fromHash
    dsimp only
    split
    · rfl
    · rw [sliceFrom_eq (by omega)]
      rfl
  · unfold fromHashSliced fromHash
    dsimp only
    split
    · rfl
    · rw [sliceFrom_eq (by omega)]
      rfl
  · rfl

/-- Read past the digests of the two names and then the key. -/
def decodeKeySliced (hasher : StorageHasher) (value : Bytes) :
    Option (Except String (Key × Bytes)) :=
  if value.length < 32 then some (.error "Storage Key is malformed. Has less than 32 bytes") else do
    let value ← sliceFrom 32 value
    hasher.fromHashSliced value

theorem decodeKeySliced_eq (h : hasher.Reversible) (value : Bytes) :
    hasher.decodeKeySliced value
      = some ((do skipNames; hasher.fromHash : Decoder Key) value) := by
  unfold decodeKeySliced
  split
  case isTrue hlen =>
    have hnames : skipNames value = .error "Storage Key is malformed. Has less than 32 bytes" :=
      if_pos hlen
    show _ = some ((skipNames value).bind fun p => (hasher.fromHash : Decoder Key) p.2)
    rw [hnames]
    rfl
  case isFalse hlen =>
    have hnames : skipNames value = .ok ((), value.drop 32) := if_neg hlen
    rw [sliceFrom_eq (by omega), bind_of_ok hnames]
    exact fromHashSliced_eq h _

/-- A key that is read from its own encoding is read from behind the digests. -/
theorem decodeKey_append [Encode Key] (h : hasher.Reversible) (crypto : SpCryptoHashing)
    (palletName storageName : String) {key : Key} (hkey : encode key ≠ []) {tail : Bytes}
    (hread : ∃ rest, decode (encode key ++ tail) = .ok (key, rest)) :
    ∃ rest, (do skipNames; hasher.fromHash : Decoder Key)
      (namesDigest crypto palletName storageName ++ (hasher.hash crypto (encode key) ++ tail))
        = .ok (key, rest) := by
  obtain ⟨rest, hread⟩ := hread
  have hlen := width_lt_hash h crypto hkey tail
  rw [bind_of_ok (skipNames_append crypto _ _ _)]
  refine ⟨_, (fromHash_eq_ok h hlen).mpr ⟨rest, ?_, rfl⟩⟩
  rw [drop_width_hash h]
  exact hread

/-- Too few bytes for the names and the digest are refused. -/
theorem decodeKeySliced_short (h : hasher.Reversible) {value : Bytes}
    (hlen : value.length < 32 + hasher.width) :
    ∃ message, (hasher.decodeKeySliced value : Option (Except String (Key × Bytes)))
      = some (.error message) := by
  unfold decodeKeySliced
  split
  case isTrue => exact ⟨_, rfl⟩
  case isFalse h32 =>
    rw [sliceFrom_eq (by omega)]
    show ∃ message, hasher.fromHashSliced (value.drop 32) = some (.error message)
    have hdrop : (value.drop 32).length = value.length - 32 := List.length_drop
    rcases h with rfl | rfl | rfl
    · simp only [width] at hlen
      exact ⟨_, if_pos (by omega)⟩
    · simp only [width] at hlen
      exact ⟨_, if_pos (by omega)⟩
    · simp only [width] at hlen
      omega

/-- The decoder returns for every input, and refuses what is too short for the names and a digest
    of this width. -/
def Guarded {α : Type} (width : Nat) (decoder : Bytes → Option (Except String α)) : Prop :=
  ∀ value, ∃ result, decoder value = some result ∧
    (value.length < 32 + width → ∃ message, result = .error message)

theorem decodeKeySliced_guarded (h : hasher.Reversible) :
    Guarded hasher.width
      (hasher.decodeKeySliced : Bytes → Option (Except String (Key × Bytes))) := by
  intro value
  refine ⟨_, decodeKeySliced_eq h value, ?_⟩
  intro hlen
  obtain ⟨message, herror⟩ : ∃ message, (hasher.decodeKeySliced value :
      Option (Except String (Key × Bytes))) = some (.error message) := decodeKeySliced_short h hlen
  rw [decodeKeySliced_eq h value] at herror
  exact ⟨message, Option.some_inj.mp herror⟩

end StorageHasher

section

variable {Key Key1 Key2 Value : Type} [Decode Key] [Decode Key1] [Decode Key2]

/-- `StorageMap::decode_storage_key`, with its slices. -/
def StorageMap.decodeStorageKeySliced (map : StorageMap Key Value) (value : Bytes) :
    Option (Except String (Key × Bytes)) :=
  map.keyHasher.decodeKeySliced value

/-- `StorageDoubleMap::decode_partial_key`, with its slices. -/
def StorageDoubleMap.decodePartialKeySliced (map : StorageDoubleMap Key1 Key2 Value)
    (value : Bytes) : Option (Except String (Key1 × Bytes)) :=
  map.key1Hasher.decodeKeySliced value

/-- `StorageDoubleMap::decode_storage_key`, with its slices. -/
def StorageDoubleMap.decodeStorageKeySliced (map : StorageDoubleMap Key1 Key2 Value)
    (value : Bytes) : Option (Except String ((Key1 × Key2) × Bytes)) := do
  match ← (map.key1Hasher.decodeKeySliced value : Option (Except String (Key1 × Bytes))) with
  | .error message => some (.error message)
  | .ok (key1, value) =>
    match ← (map.key2Hasher.fromHashSliced value : Option (Except String (Key2 × Bytes))) with
    | .error message => some (.error message)
    | .ok (key2, value) => some (.ok ((key1, key2), value))

/-- The keys of a double map one after the other, as the model reads them. -/
theorem StorageDoubleMap.decodeStorageKeySliced_eq {map : StorageDoubleMap Key1 Key2 Value}
    (h1 : map.key1Hasher.Reversible) (h2 : map.key2Hasher.Reversible) (value : Bytes) :
    map.decodeStorageKeySliced value = some (map.decodeStorageKey value) := by
  unfold decodeStorageKeySliced decodeStorageKey
  rw [StorageHasher.decodeKeySliced_eq h1]
  have hassoc : (do
      skipNames
      let key1 ← map.key1Hasher.fromHash
      let key2 ← map.key2Hasher.fromHash
      pure (key1, key2) : Decoder (Key1 × Key2)) = (do
        let key1 ← (do skipNames; map.key1Hasher.fromHash : Decoder Key1)
        let key2 ← map.key2Hasher.fromHash
        pure (key1, key2)) := by
    rw [bind_assoc]
  rw [hassoc]
  rcases hfirst : (do skipNames; map.key1Hasher.fromHash : Decoder Key1) value with e | ⟨key1, b⟩
  · show some (Except.error e) = some ((do skipNames; map.key1Hasher.fromHash : Decoder Key1) value
      >>= _)
    rw [hfirst]
    rfl
  · rw [bind_of_ok hfirst]
    show (map.key2Hasher.fromHashSliced b).bind _ = _
    rw [StorageHasher.fromHashSliced_eq h2]
    rcases hsecond : (map.key2Hasher.fromHash : Decoder Key2) b with e | ⟨key2, b2⟩
    · show some (Except.error e) = some ((map.key2Hasher.fromHash : Decoder Key2) b >>= _)
      rw [hsecond]
      rfl
    · rw [bind_of_ok hsecond]
      rfl

variable (Key Key1 Key2 Value)

/-- Keys of maps, and first keys of double maps with anything behind them, are read back from what
    was written; and no input makes any of the decoders cut outside of it. -/
theorem single_keys_readBack [Encode Key] [Encode Key1] (crypto : SpCryptoHashing) :
    (∀ map : StorageMap Key Value, map.keyHasher.Reversible →
      (∀ key : Key, encode key ≠ [] → (∃ rest, decode (encode key) = .ok (key, rest)) →
        ∃ rest, map.decodeStorageKeySliced (map.encodeStorageKey crypto key)
          = some (.ok (key, rest))) ∧
      StorageHasher.Guarded map.keyHasher.width map.decodeStorageKeySliced) ∧
    (∀ map : StorageDoubleMap Key1 Key2 Value, map.key1Hasher.Reversible →
      (∀ (key1 : Key1) (tail : Bytes), encode key1 ≠ [] →
        (∃ rest, decode (encode key1 ++ tail) = .ok (key1, rest)) →
        ∃ rest, map.decodePartialKeySliced (map.encodePartialKey crypto key1 ++ tail)
          = some (.ok (key1, rest))) ∧
      StorageHasher.Guarded map.key1Hasher.width map.decodePartialKeySliced) ∧
    ∀ map : StorageDoubleMap Key1 Key2 Value, map.key1Hasher.Reversible →
      map.key2Hasher.Reversible →
        StorageHasher.Guarded map.key1Hasher.width map.decodeStorageKeySliced := by
  refine ⟨?single, ?partly, ?double⟩
  case single =>
    intro map hmap
    refine ⟨?_, StorageHasher.decodeKeySliced_guarded hmap⟩
    intro key hkey hread
    have htail : ∃ rest, decode (encode key ++ []) = .ok (key, rest) := by
      rwa [List.append_nil]
    obtain ⟨rest, h⟩ :=
      StorageHasher.decodeKey_append hmap crypto map.palletName map.storageName hkey htail
    rw [List.append_nil] at h
    exact ⟨rest, (StorageHasher.decodeKeySliced_eq hmap _).trans (congrArg some h)⟩
  case partly =>
    intro map hmap
    refine ⟨?_, StorageHasher.decodeKeySliced_guarded hmap⟩
    intro key1 tail hkey hread
    obtain ⟨rest, h⟩ :=
      StorageHasher.decodeKey_append hmap crypto map.palletName map.storageName hkey hread
    unfold StorageDoubleMap.encodePartialKey
    rw [List.append_assoc]
    exact ⟨rest, (StorageHasher.decodeKeySliced_eq hmap _).trans (congrArg some h)⟩
  case double =>
    intro map h1 h2 value
    refine ⟨_, StorageDoubleMap.decodeStorageKeySliced_eq h1 h2 value, ?_⟩
    intro hlen
    obtain ⟨message, herror⟩ : ∃ message,
        (map.key1Hasher.decodeKeySliced value : Option (Except String (Key1 × Bytes)))
          = some (.error message) := StorageHasher.decodeKeySliced_short h1 hlen
    have hrun : map.decodeStorageKeySliced value = some (.error message) := by
      unfold StorageDoubleMap.decodeStorageKeySliced
      rw [herror]
      rfl
    rw [StorageDoubleMap.decodeStorageKeySliced_eq h1 h2] at hrun
    exact ⟨message, Option.some_inj.mp hrun⟩

end

/-- What the system pallet stores for each account. -/
def systemAccount : StorageMap AccountId AccountInfo where
  palletName := "System"
  storageName := "Account"
  keyHasher := .blake2_128Concat

/-- An account and, with a byte behind it, an era. -/
theorem single_keys_readBack_account :
    (∃ rest, systemAccount.decodeStorageKeySliced
      (systemAccount.encodeStorageKey noCrypto (FixedBytes.fill 32 9))
        = some (.ok (FixedBytes.fill 32 9, rest))) ∧
    ∃ rest, (StorageDoubleMap.stakingErasValidatorPrefs AccountInfo).decodePartialKeySliced
      ((StorageDoubleMap.stakingErasValidatorPrefs AccountInfo).encodePartialKey noCrypto 1 ++ [7])
        = some (.ok (1, rest)) := by
  have h := single_keys_readBack AccountId U32 AccountId AccountInfo noCrypto
  constructor
  · exact (h.1 systemAccount (by decide)).1 _ (by decide) ⟨[], rfl⟩
  · exact (h.2.1 (StorageDoubleMap.stakingErasValidatorPrefs AccountInfo) (by decide)).1 1 [7]
      (by decide) ⟨[7], decode_encode 1 [7]⟩

end AvailRust
