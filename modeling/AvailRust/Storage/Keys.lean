/-
  Keys of the runtime's storage.

  A key is the digest of the pallet's name, the digest of the item's name and, for maps, the
  hashed keys. Three of the hashers keep the key they hash, behind a digest of fixed width
  (`hash_eq`), so `fromHash` can read it again. A hasher with a digest reads the key from a
  copy of its input and leaves the input where it was; `identity` leaves what follows the key
  (`fromHash_hash`). The key of a double map is read by two hashers one after the other, and
  `decodeStorageKey_iff` says when that gives the keys back.
-/
import AvailRust.Core.Extrinsic

namespace AvailRust

open Scale

/-- `str::as_bytes`. -/
def asBytes (text : String) : Bytes := text.toUTF8.toList

inductive StorageHasher where
  | blake2_128
  | blake2_256
  | blake2_128Concat
  | twox128
  | twox256
  | twox64Concat
  | identity
deriving DecidableEq

namespace StorageHasher

def hash (crypto : SpCryptoHashing) (data : Bytes) : StorageHasher → Bytes
  | .blake2_128 => (crypto.blake2_128 data).bytes
  | .blake2_256 => (crypto.blake2_256 data).bytes
  | .blake2_128Concat => (crypto.blake2_128 data).bytes ++ data
  | .twox128 => (crypto.twox_128 data).bytes
  | .twox256 => (crypto.twox_256 data).bytes
  | .twox64Concat => (crypto.twox_64 data).bytes ++ data
  | .identity => data

/-- Read a key from a copy of the input. -/
def decodeAhead {Key : Type} [Decode Key] (width : Nat) : Decoder Key := fun data =>
  (fun p => (p.1, data)) <$> (decode : Decoder Key) (data.drop width)

def fromHash {Key : Type} [Decode Key] : StorageHasher → Decoder Key
  | .blake2_128Concat => fun data =>
    if data.length < 17 then .error "Not enough data to compute Blake2_128Concat"
    else decodeAhead 16 data
  | .twox64Concat => fun data =>
    if data.length < 9 then .error "Not enough data to compute Twox64Concat"
    else decodeAhead 8 data
  | .identity => decode
  -- the source panics here
  | _ => fail "not implemented"

/-- The hashers that keep the key. -/
def Reversible (hasher : StorageHasher) : Prop :=
  hasher = .blake2_128Concat ∨ hasher = .twox64Concat ∨ hasher = .identity

instance (hasher : StorageHasher) : Decidable hasher.Reversible :=
  inferInstanceAs (Decidable (_ ∨ _ ∨ _))

/-- How many bytes of digest stand before a key that is kept. -/
def width : StorageHasher → Nat
  | .blake2_128Concat => 16
  | .twox64Concat => 8
  | _ => 0

variable {hasher : StorageHasher} {Key : Type} [Encode Key] [Decode Key]

/-- A reversible hasher writes a digest and the key. -/
theorem hash_eq (h : hasher.Reversible) (crypto : SpCryptoHashing) (data : Bytes) :
    ∃ digest : Bytes, digest.length = hasher.width ∧ hasher.hash crypto data = digest ++ data := by
  rcases h with rfl | rfl | rfl
  · exact ⟨_, (crypto.blake2_128 data).length_bytes, rfl⟩
  · exact ⟨_, (crypto.twox_64 data).length_bytes, rfl⟩
  · exact ⟨[], rfl, rfl⟩

theorem drop_width_hash (h : hasher.Reversible) (crypto : SpCryptoHashing) (data tail : Bytes) :
    (hasher.hash crypto data ++ tail).drop hasher.width = data ++ tail := by
  obtain ⟨digest, hlen, heq⟩ := hash_eq h crypto data
  rw [heq, ← hlen, List.append_assoc, List.drop_left]

omit [Encode Key] in
theorem decodeAhead_eq_ok {width : Nat} {data rest : Bytes} {key : Key} :
    decodeAhead width data = .ok (key, rest) ↔
      rest = data ∧ ∃ rest', decode (data.drop width) = .ok (key, rest') := by
  unfold decodeAhead
  rcases hdecode : (decode : Decoder Key) (data.drop width) with e | ⟨key', rest'⟩
  · constructor
    · intro h; cases h
    · rintro ⟨-, rest', h⟩; cases h
  · constructor
    · intro h
      cases h
      exact ⟨rfl, rest', rfl⟩
    · rintro ⟨rfl, _, h⟩
      cases h
      rfl

omit [Encode Key] in
/-- What a reversible hasher reads from an input longer than its digest, and what it leaves. -/
theorem fromHash_eq_ok (h : hasher.Reversible) {data rest : Bytes} {key : Key}
    (hlen : hasher.width < data.length) :
    hasher.fromHash data = .ok (key, rest) ↔ ∃ rest',
      decode (data.drop hasher.width) = .ok (key, rest') ∧
        rest = if hasher = .identity then rest' else data := by
  rcases h with rfl | rfl | rfl
  · have hif : ¬ data.length < 17 := by simp only [width] at hlen; omega
    simp only [fromHash, if_neg hif, decodeAhead_eq_ok, width]
    simp [and_comm]
  · have hif : ¬ data.length < 9 := by simp only [width] at hlen; omega
    simp only [fromHash, if_neg hif, decodeAhead_eq_ok, width]
    simp [and_comm]
  · simp only [fromHash, width, List.drop_zero]
    simp [eq_comm]

omit [Decode Key] in
/-- A key that takes space makes what is hashed longer than the digest. -/
theorem width_lt_hash (h : hasher.Reversible) (crypto : SpCryptoHashing) {key : Key}
    (hkey : encode key ≠ []) (tail : Bytes) :
    hasher.width < (hasher.hash crypto (encode key) ++ tail).length := by
  have hpos : 0 < (encode key).length := List.length_pos_iff.mpr hkey
  obtain ⟨digest, hdigest, heq⟩ := hash_eq h crypto (encode key)
  rw [heq, List.length_append, List.length_append, hdigest]
  omega

/-- A hashed key is read again. A digest makes the hasher leave the key unread. -/
theorem fromHash_hash [RoundTrips Key] (h : hasher.Reversible) (crypto : SpCryptoHashing)
    {key : Key} (hkey : encode key ≠ []) (tail : Bytes) :
    hasher.fromHash (hasher.hash crypto (encode key) ++ tail) = .ok (key,
      if hasher = .identity then tail else hasher.hash crypto (encode key) ++ tail) := by
  rw [fromHash_eq_ok h (width_lt_hash h crypto hkey tail)]
  refine ⟨tail, ?_, rfl⟩
  rw [drop_width_hash h, decode_encode]

end StorageHasher

/-- Read past the digests of the two names. -/
def skipNames : Decoder Unit := fun value =>
  if value.length < 32 then .error "Storage Key is malformed. Has less than 32 bytes"
  else .ok ((), value.drop 32)

/-- The digests of the two names. -/
def namesDigest (crypto : SpCryptoHashing) (palletName storageName : String) : Bytes :=
  (crypto.twox_128 (asBytes palletName)).bytes ++ (crypto.twox_128 (asBytes storageName)).bytes

theorem skipNames_append (crypto : SpCryptoHashing) (palletName storageName : String)
    (tail : Bytes) : skipNames (namesDigest crypto palletName storageName ++ tail)
      = .ok ((), tail) := by
  have hlen : (namesDigest crypto palletName storageName).length = 32 := by
    rw [namesDigest, List.length_append, FixedBytes.length_bytes, FixedBytes.length_bytes]
  have hif : ¬ (namesDigest crypto palletName storageName ++ tail).length < 32 := by
    rw [List.length_append]
    omega
  rw [skipNames, if_neg hif, ← hlen, List.drop_left]

/-! ## Maps -/

/-- The constants of a `StorageMap` implementation; `Key` and `Value` are its types. -/
structure StorageMap (Key Value : Type) where
  palletName : String
  storageName : String
  keyHasher : StorageHasher

namespace StorageMap

variable {Key Value : Type} [Encode Key] [Decode Key]

def encodePartialKey (crypto : SpCryptoHashing) (map : StorageMap Key Value) : Bytes :=
  namesDigest crypto map.palletName map.storageName

def encodeStorageKey (crypto : SpCryptoHashing) (map : StorageMap Key Value) (key : Key) : Bytes :=
  map.encodePartialKey crypto ++ map.keyHasher.hash crypto (encode key)

def decodeStorageKey (map : StorageMap Key Value) : Decoder Key := do
  skipNames
  map.keyHasher.fromHash

/-- The key of a map comes back. -/
theorem decodeStorageKey_encode [RoundTrips Key] (crypto : SpCryptoHashing)
    (map : StorageMap Key Value) (hmap : map.keyHasher.Reversible) {key : Key}
    (hkey : encode key ≠ []) :
    ∃ rest, map.decodeStorageKey (map.encodeStorageKey crypto key) = .ok (key, rest) := by
  have h := map.keyHasher.fromHash_hash hmap crypto hkey []
  rw [List.append_nil] at h
  exact ⟨_, (bind_of_ok (skipNames_append crypto _ _ _)).trans h⟩

end StorageMap

/-! ## Double maps -/

/-- The constants of a `StorageDoubleMap` implementation. -/
structure StorageDoubleMap (Key1 Key2 Value : Type) where
  palletName : String
  storageName : String
  key1Hasher : StorageHasher
  key2Hasher : StorageHasher

namespace StorageDoubleMap

variable {Key1 Key2 Value : Type} [Encode Key1] [Decode Key1] [Encode Key2] [Decode Key2]

def encodePartialKey (crypto : SpCryptoHashing) (map : StorageDoubleMap Key1 Key2 Value)
    (key1 : Key1) : Bytes :=
  namesDigest crypto map.palletName map.storageName ++ map.key1Hasher.hash crypto (encode key1)

def encodeStorageKey (crypto : SpCryptoHashing) (map : StorageDoubleMap Key1 Key2 Value)
    (key1 : Key1) (key2 : Key2) : Bytes :=
  map.encodePartialKey crypto key1 ++ map.key2Hasher.hash crypto (encode key2)

def decodeStorageKey (map : StorageDoubleMap Key1 Key2 Value) : Decoder (Key1 × Key2) := do
  skipNames
  let key1 ← map.key1Hasher.fromHash
  let key2 ← map.key2Hasher.fromHash
  pure (key1, key2)

/-- What of a storage key stands behind the names. -/
def hashedKeys (crypto : SpCryptoHashing) (map : StorageDoubleMap Key1 Key2 Value) (key1 : Key1)
    (key2 : Key2) : Bytes :=
  map.key1Hasher.hash crypto (encode key1) ++ map.key2Hasher.hash crypto (encode key2)

/-- The first hasher leaves what follows its key, or the second key can be read from where the
    first digest begins, behind as many bytes as the second digest has. -/
def ReadsKey2 (crypto : SpCryptoHashing) (map : StorageDoubleMap Key1 Key2 Value) (key1 : Key1)
    (key2 : Key2) : Prop :=
  map.key1Hasher = .identity ∨ ∃ rest,
    decode ((map.hashedKeys crypto key1 key2).drop map.key2Hasher.width) = .ok (key2, rest)

variable {map : StorageDoubleMap Key1 Key2 Value} {crypto : SpCryptoHashing} {key1 : Key1}
  {key2 : Key2}

/-- Both keys come back exactly when the second one is read from the right place. -/
theorem decodeStorageKey_iff [RoundTrips Key1] [RoundTrips Key2]
    (h1 : map.key1Hasher.Reversible) (h2 : map.key2Hasher.Reversible)
    (hkey1 : encode key1 ≠ []) (hkey2 : encode key2 ≠ []) :
    (∃ rest, map.decodeStorageKey (map.encodeStorageKey crypto key1 key2)
      = .ok ((key1, key2), rest)) ↔ map.ReadsKey2 crypto key1 key2 := by
  have hnames : map.decodeStorageKey (map.encodeStorageKey crypto key1 key2)
      = (do
          let key1 ← map.key1Hasher.fromHash
          let key2 ← map.key2Hasher.fromHash
          pure (key1, key2) : Decoder (Key1 × Key2)) (map.hashedKeys crypto key1 key2) := by
    rw [decodeStorageKey, encodeStorageKey, encodePartialKey, List.append_assoc]
    exact bind_of_ok (skipNames_append crypto _ _ _)
  have hfirst := map.key1Hasher.fromHash_hash h1 crypto hkey1
    (map.key2Hasher.hash crypto (encode key2))
  rw [hnames, hashedKeys, bind_of_ok hfirst]
  by_cases hid : map.key1Hasher = .identity
  · rw [if_pos hid]
    have hsecond := map.key2Hasher.fromHash_hash h2 crypto hkey2 []
    rw [List.append_nil] at hsecond
    rw [bind_of_ok hsecond]
    exact ⟨fun _ => .inl hid, fun _ => ⟨_, rfl⟩⟩
  · rw [if_neg hid]
    have hpos : 0 < (encode key2).length := List.length_pos_iff.mpr hkey2
    have hlen : map.key2Hasher.width < (map.hashedKeys crypto key1 key2).length := by
      obtain ⟨digest, hdigest, heq⟩ := map.key2Hasher.hash_eq h2 crypto (encode key2)
      rw [hashedKeys, heq, List.length_append, List.length_append, hdigest]
      omega
    have hread : ∀ rest, (do
          let key2 ← map.key2Hasher.fromHash
          pure (key1, key2) : Decoder (Key1 × Key2)) (map.hashedKeys crypto key1 key2)
        = .ok ((key1, key2), rest) ↔ map.key2Hasher.fromHash (map.hashedKeys crypto key1 key2)
          = .ok (key2, rest) := by
      intro rest
      rw [bind_eq_ok]
      constructor
      · rintro ⟨key, b, hkey, h⟩
        obtain ⟨h, rfl⟩ := pure_eq_ok.mp h
        cases h
        exact hkey
      · intro h
        exact ⟨key2, rest, h, rfl⟩
    constructor
    · rintro ⟨rest, h⟩
      obtain ⟨rest', h, -⟩ := (StorageHasher.fromHash_eq_ok h2 hlen).mp ((hread rest).mp h)
      exact .inr ⟨rest', h⟩
    · rintro (h | ⟨rest', h⟩)
      · exact absurd h hid
      · exact ⟨_, (hread _).mpr ((StorageHasher.fromHash_eq_ok h2 hlen).mpr ⟨rest', h, rfl⟩)⟩

omit [Decode Key1] in
/-- With a codec that accepts only what it writes, the condition is about the bytes alone. -/
theorem readsKey2_canonical [RoundTrips Key2] [Canonical Key2] :
    map.ReadsKey2 crypto key1 key2 ↔ map.key1Hasher = .identity ∨
      encode key2 <+: (map.hashedKeys crypto key1 key2).drop map.key2Hasher.width := by
  refine or_congr_right ⟨?_, ?_⟩
  · rintro ⟨rest, h⟩
    exact ⟨rest, (encode_decode _ _ _ h).symm⟩
  · rintro ⟨rest, h⟩
    exact ⟨rest, by rw [← h, decode_encode]⟩

end StorageDoubleMap

/-- With the same hasher and the same type for both keys, the first key is read twice. -/
theorem StorageDoubleMap.readsKey2_same {Key Value : Type} [Encode Key] [Decode Key]
    [RoundTrips Key] {map : StorageDoubleMap Key Key Value} {crypto : SpCryptoHashing}
    {key1 key2 : Key} (hmap : map.key1Hasher.Reversible)
    (hsame : map.key2Hasher = map.key1Hasher) (hdigest : map.key1Hasher ≠ .identity) :
    map.ReadsKey2 crypto key1 key2 ↔ key1 = key2 := by
  have hread : (map.hashedKeys crypto key1 key2).drop map.key2Hasher.width
      = encode key1 ++ map.key1Hasher.hash crypto (encode key2) := by
    rw [hashedKeys, hsame, StorageHasher.drop_width_hash hmap]
  unfold ReadsKey2
  rw [hread, decode_encode]
  constructor
  · rintro (h | ⟨rest, h⟩)
    · exact absurd h hdigest
    · cases h
      rfl
  · rintro rfl
    exact .inr ⟨_, rfl⟩

end AvailRust
