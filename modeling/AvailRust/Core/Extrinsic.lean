/-
  Calls, payloads and extrinsics, as bytes.

  An extrinsic is a compact length, a version byte whose high bit says whether a signature
  follows, the signature, and the call up to the end of the input. `EncodedExtrinsic` keeps
  the call as bytes; `GenericExtrinsic` splits off the pallet and variant ids.

  The digests and the signing key are parameters: nothing here depends on what they compute.
-/
import AvailRust.Core.Types
import AvailRust.Lib.Hex

namespace AvailRust

open Scale

/-- The digests of `sp_crypto_hashing`. -/
structure SpCryptoHashing where
  blake2_128 : Bytes → FixedBytes 16
  blake2_256 : Bytes → FixedBytes 32
  twox_64 : Bytes → FixedBytes 8
  twox_128 : Bytes → FixedBytes 16
  twox_256 : Bytes → FixedBytes 32

/-- Digests that are easy to evaluate. -/
def noCrypto : SpCryptoHashing where
  blake2_128 _ := FixedBytes.fill 16 0
  blake2_256 _ := FixedBytes.fill 32 0
  twox_64 _ := FixedBytes.fill 8 0
  twox_128 _ := FixedBytes.fill 16 0
  twox_256 _ := FixedBytes.fill 32 0

/-- An `sr25519` key pair. -/
structure Keypair where
  publicKey : AccountId
  sign : Bytes → FixedBytes 64

def extrinsicFormatVersion : UInt8 := 4

/-! ## Calls -/

/-- A call type's pallet id and variant id. -/
class HasHeader (T : Type) where
  headerIndex : UInt8 × UInt8

export HasHeader (headerIndex)

structure ExtrinsicCall where
  palletId : UInt8
  variantId : UInt8
  data : Bytes
deriving DecidableEq

namespace ExtrinsicCall

instance : Encode ExtrinsicCall := ⟨fun x => encode x.palletId ++ encode x.variantId ++ x.data⟩

instance : Decode ExtrinsicCall := ⟨do
  let palletId ← decode
  let variantId ← decode
  let data ← readAll
  pure { palletId, variantId, data }⟩

/-- What decodes as a call is its two ids and everything behind them. -/
theorem decode_eq_ok {b rest : Bytes} {x : ExtrinsicCall} :
    decode b = .ok (x, rest) ↔ b = encode x ∧ rest = [] := by
  change (readByte >>= _) b = _ ↔ _
  rw [readByte_bind_eq_ok]
  constructor
  · rintro ⟨p, b1, rfl, h⟩
    replace h := readByte_bind_eq_ok.mp h
    obtain ⟨v, b2, rfl, h⟩ := h
    obtain ⟨d, b3, hd, h⟩ := bind_eq_ok.mp h
    obtain ⟨rfl, rfl⟩ := readAll_eq_ok.mp hd
    obtain ⟨rfl, rfl⟩ := pure_eq_ok.mp h
    exact ⟨rfl, rfl⟩
  · rintro ⟨rfl, rfl⟩
    exact ⟨x.palletId, x.variantId :: x.data, rfl, rfl⟩

instance : Canonical ExtrinsicCall where
  encode_decode b rest x h := by
    obtain ⟨rfl, rfl⟩ := decode_eq_ok.mp h
    exact (List.append_nil _).symm

/-- The call of a typed value: its header and its encoding. -/
def ofTyped {T : Type} [HasHeader T] [Encode T] (x : T) : ExtrinsicCall where
  palletId := (headerIndex T).1
  variantId := (headerIndex T).2
  data := encode x

end ExtrinsicCall

/-- `TryFrom<&[u8]>`. -/
def ExtrinsicCall.tryFromBytes : Bytes → Except String ExtrinsicCall
  | palletId :: variantId :: data => .ok { palletId, variantId, data }
  | _ => .error "Failed to convert array to Extrinsic Call. Not Enough data"

/-- `TransactionEncodable::to_call`. -/
def toCall {T : Type} [HasHeader T] [Encode T] (x : T) : Bytes :=
  (headerIndex T).1 :: (headerIndex T).2 :: encode x

/-- `check_header`: the data starts with the two ids. -/
def checkHeader (data : Bytes) (headerIndex : UInt8 × UInt8) : Except String Unit :=
  match data with
  | palletId :: variantId :: _ =>
    if headerIndex.1 ≠ palletId ∨ headerIndex.2 ≠ variantId then
      .error ("Failed to decode. Mismatch in pallet and/or variant id. Actual: PI: "
        ++ toString palletId ++ ", VI: " ++ toString variantId ++ " Expected: PI: "
        ++ toString headerIndex.1 ++ ", VI: " ++ toString headerIndex.2)
    else .ok ()
  | _ => .error "Failed to decode. Not have enough bytes to decode the header"

/-- `ExtrinsicDecodable::from_call`: what follows the value is dropped. -/
def fromCall (T : Type) [HasHeader T] [Decode T] (call : Bytes) : Except String T := do
  checkHeader call (headerIndex T)
  Prod.fst <$> (decode : Decoder T) (call.drop 2)

theorem checkHeader_toCall {T : Type} [HasHeader T] [Encode T] (x : T) :
    checkHeader (toCall x) (headerIndex T) = .ok () := by
  simp [checkHeader, toCall]

/-- Behind the header of its own type, `from_call` decodes the data. -/
theorem fromCall_toCall {T : Type} [HasHeader T] [Encode T] [Decode T] (x : T) :
    fromCall T (toCall x) = Prod.fst <$> (decode : Decoder T) (encode x) := by
  unfold fromCall
  rw [checkHeader_toCall]
  rfl

/-! ## Payloads -/

structure ExtrinsicAdditional where
  specVersion : U32
  txVersion : U32
  genesisHash : H256
  forkHash : H256
deriving DecidableEq

instance : Encode ExtrinsicAdditional := ⟨fun x =>
  encode x.specVersion ++ encode x.txVersion ++ encode x.genesisHash ++ encode x.forkHash⟩

instance : Decode ExtrinsicAdditional := ⟨do
  let specVersion ← decode
  let txVersion ← decode
  let genesisHash ← decode
  let forkHash ← decode
  pure { specVersion, txVersion, genesisHash, forkHash }⟩

instance : Fields ExtrinsicAdditional (U32 × U32 × H256 × H256) where
  toFields x := (x.specVersion, x.txVersion, x.genesisHash, x.forkHash)
  ofFields p := ⟨p.1, p.2.1, p.2.2.1, p.2.2.2⟩

structure ExtrinsicPayload where
  call : ExtrinsicCall
  extra : ExtrinsicExtra
  additional : ExtrinsicAdditional
deriving DecidableEq

namespace ExtrinsicPayload

def signingData (x : ExtrinsicPayload) : Bytes :=
  encode x.call ++ encode x.extra ++ encode x.additional

/-- What is signed: the data, or its digest when it has more than 256 bytes. -/
def message (crypto : SpCryptoHashing) (x : ExtrinsicPayload) : Bytes :=
  let data := x.signingData
  if data.length > 256 then (crypto.blake2_256 data).bytes else data

def sign (crypto : SpCryptoHashing) (signer : Keypair) (x : ExtrinsicPayload) : FixedBytes 64 :=
  signer.sign (x.message crypto)

end ExtrinsicPayload

/-! ## Extrinsics -/

/-- The version byte and signature of an extrinsic, in front of its call. -/
def encodePreamble : Option ExtrinsicSignature → Bytes
  | some signed => 0x84 :: (encode signed.address ++ encode signed.signature ++ encode signed.extra)
  | none => [0x04]

/-- The bytes of an extrinsic behind their length, cut to 32 bits. -/
def lengthPrefixed (inner : Bytes) : Bytes :=
  encode (Compact.mk (⟨inner.length % 256 ^ 4, Nat.mod_lt _ (by norm_num)⟩ : U32)) ++ inner

/-- The version byte and what follows it, read by `call` up to the length prefix. -/
def decodeExtrinsic {C : Type} (call : Decoder C) : Decoder (Option ExtrinsicSignature × C) := do
  let expectedLength : Compact 4 ← decode
  let beforeLength : Nat ← fun b => .ok (b.length, b)
  let version ← readByte
  if version &&& 0x7F ≠ extrinsicFormatVersion then fail "Invalid transaction version" else
    let signature ← if version &&& 0x80 ≠ 0 then some <$> decode else pure none
    let call ← call
    let afterLength : Nat ← fun b => .ok (b.length, b)
    if beforeLength - afterLength ≠ expectedLength.val.1 then fail "Invalid length prefix"
    else pure (signature, call)

structure EncodedExtrinsic where
  signature : Option ExtrinsicSignature
  call : Bytes
deriving DecidableEq

namespace EncodedExtrinsic

instance : Encode EncodedExtrinsic :=
  ⟨fun x => lengthPrefixed (encodePreamble x.signature ++ x.call)⟩

instance : Decode EncodedExtrinsic := ⟨(fun p => ⟨p.1, p.2⟩) <$> decodeExtrinsic readAll⟩

/-- `TryFrom<&[u8]>`: what is left of the input is dropped. -/
def tryFromBytes (value : Bytes) : Except String EncodedExtrinsic :=
  Prod.fst <$> (decode : Decoder EncodedExtrinsic) value

/-- `TryFrom<&str>`. -/
def tryFromStr (value : String) : Except String EncodedExtrinsic :=
  match Hex.decode (Hex.trimStartMatches "0x".toList value.toList) with
  | .error _ => .error "Failed to hex decode transaction"
  | .ok hexDecoded => tryFromBytes hexDecoded

end EncodedExtrinsic

structure GenericExtrinsic where
  signature : Option ExtrinsicSignature
  call : ExtrinsicCall
deriving DecidableEq

namespace GenericExtrinsic

def new (account : AccountId) (signature : FixedBytes 64) (payload : ExtrinsicPayload) :
    GenericExtrinsic where
  signature := some
    { address := .id account, signature := .sr25519 signature, extra := payload.extra }
  call := payload.call

instance : Encode GenericExtrinsic := ⟨fun x =>
  lengthPrefixed (encodePreamble x.signature ++ encode x.call)⟩

instance : Decode GenericExtrinsic := ⟨(fun p => ⟨p.1, p.2⟩) <$> decodeExtrinsic decode⟩

end GenericExtrinsic

end AvailRust
