/-
  The chain's basic types and their codecs: hashes and accounts, block references, addresses
  and signatures, the era of a transaction and the extra data it signs.

  Codecs are written field by field in the order of the source. A record's laws follow from
  its `Fields` instance; an enumeration writes its discriminant and dispatches on it.

  Block heights in answers of the node are natural numbers below `2 ^ 32`; the functions that
  compute with them wrap or saturate as the source does.
-/
import AvailRust.Lib.Scale
import Mathlib.Tactic.SplitIfs

namespace AvailRust

open Scale

abbrev H256 := FixedBytes 32
abbrev AccountId := FixedBytes 32

instance : LawfulBEq H256 := inferInstance

/-- The largest `u32`. -/
def u32Max : Nat := 2 ^ 32 - 1

/-- `a + b` on `u32` in a release build. -/
def u32Add (a b : Nat) : Nat := (a + b) % 2 ^ 32

/-- `u32::saturating_add`. -/
def u32SaturatingAdd (a b : Nat) : Nat := min (a + b) u32Max

theorem u32Add_of_lt {a b : Nat} (h : a + b < 2 ^ 32) : u32Add a b = a + b := Nat.mod_eq_of_lt h

/-! ## Blocks -/

structure BlockInfo where
  hash : H256
  height : Nat
deriving DecidableEq

structure ChainInfo where
  bestHash : H256
  bestHeight : Nat
  finalizedHash : H256
  finalizedHeight : Nat
  genesisHash : H256
deriving DecidableEq

inductive HashNumber where
  | hash (hash : H256)
  | number (height : Nat)
deriving DecidableEq

/-! ## Addresses and signatures -/

inductive MultiSignature where
  | ed25519 (bytes : FixedBytes 64)
  | sr25519 (bytes : FixedBytes 64)
  | ecdsa (bytes : FixedBytes 65)
deriving DecidableEq

instance : Encode MultiSignature := ⟨fun
  | .ed25519 x => 0 :: encode x
  | .sr25519 x => 1 :: encode x
  | .ecdsa x => 2 :: encode x⟩

instance : Decode MultiSignature := ⟨do
  let variant ← readByte
  if variant = 0 then .ed25519 <$> decode
  else if variant = 1 then .sr25519 <$> decode
  else if variant = 2 then .ecdsa <$> decode
  else fail "Could not decode `MultiSignature`, variant doesn't exist"⟩

instance : RoundTrips MultiSignature where
  decode_encode x rest := by cases x <;> exact map_of_ok (decode_encode _ rest)

instance : Canonical MultiSignature where
  encode_decode b rest x h := by
    replace h := readByte_bind_eq_ok.mp h
    obtain ⟨variant, b1, rfl, h⟩ := h
    split_ifs at h with h0 h1 h2 <;> try subst variant
    · exact case_of_decode (fun _ => rfl) h
    · exact case_of_decode (fun _ => rfl) h
    · exact case_of_decode (fun _ => rfl) h
    · simp at h

inductive MultiAddress where
  | id (account : AccountId)
  | index (index : U32)
  | raw (bytes : Vec UInt8)
  | address32 (bytes : FixedBytes 32)
  | address20 (bytes : FixedBytes 20)
deriving DecidableEq

instance : Encode MultiAddress := ⟨fun
  | .id x => 0 :: encode x
  | .index x => 1 :: encode (Compact.mk x)
  | .raw x => 2 :: encode x
  | .address32 x => 3 :: encode x
  | .address20 x => 4 :: encode x⟩

instance : Decode MultiAddress := ⟨do
  let variant ← readByte
  if variant = 0 then .id <$> decode
  else if variant = 1 then (fun x : Compact 4 => .index x.val) <$> decode
  else if variant = 2 then .raw <$> decode
  else if variant = 3 then .address32 <$> decode
  else if variant = 4 then .address20 <$> decode
  else fail "Could not decode `MultiAddress`, variant doesn't exist"⟩

instance : RoundTrips MultiAddress where
  decode_encode x rest := by
    cases x with
    | index x =>
      exact map_of_ok (f := fun y : Compact 4 => MultiAddress.index y.val)
        (decode_encode (Compact.mk x) rest)
    | _ => exact map_of_ok (decode_encode _ rest)

instance : Canonical MultiAddress where
  encode_decode b rest x h := by
    replace h := readByte_bind_eq_ok.mp h
    obtain ⟨variant, b1, rfl, h⟩ := h
    split_ifs at h with h0 h1 h2 h3 h4 <;> try subst variant
    · exact case_of_decode (fun _ => rfl) h
    · exact case_of_decode (fun _ => rfl) h
    · exact case_of_decode (fun _ => rfl) h
    · exact case_of_decode (fun _ => rfl) h
    · exact case_of_decode (fun _ => rfl) h
    · simp at h

/-! ## Eras -/

/-- When a transaction may be included: always, or in the blocks of one period. -/
inductive Era where
  | Immortal
  | Mortal (period phase : Nat)
deriving DecidableEq

namespace Era

/-- `u64::checked_next_power_of_two`. -/
def checkedNextPowerOfTwo (n : Nat) : Option Nat :=
  if n ≤ 2 ^ 63 then some (if n = 0 then 1 else 2 ^ Nat.clog 2 n) else none

/-- The period a mortal era gets: a power of two between 4 and 65536. -/
def effectivePeriod (period : Nat) : Nat :=
  max 4 (min ((checkedNextPowerOfTwo period).getD (2 ^ 16)) (2 ^ 16))

/-- Phases of long periods are kept to multiples of this. -/
def quantizeFactor (period : Nat) : Nat := max (period / 2 ^ 12) 1

/-- The era of `period` blocks a transaction signed at height `current` gets. -/
def mortal (period current : Nat) : Era :=
  let period := effectivePeriod period
  let phase := current % period
  let factor := quantizeFactor period
  .Mortal period (phase / factor * factor)

/-- The runtime's birth of an era: the first height of the period a height falls into. -/
def birth (era : Era) (n : Nat) : Nat :=
  match era with
  | .Immortal => 0
  | .Mortal period phase => (max n phase - phase) / period * period + phase

/-- For how many blocks from its birth an era holds. -/
def validity : Era → Nat
  | .Immortal => 0
  | .Mortal period _ => period

/-- `u64::trailing_zeros`. -/
def trailingZeros (n : Nat) : Nat := ((List.range 64).find? n.testBit).getD 64

end Era

instance : Encode Era := ⟨fun
  | .Immortal => [0]
  | .Mortal period phase =>
    -- the subtraction wraps in 32 bits, for odd periods
    let low := max 1 (min ((Era.trailingZeros period + (2 ^ 32 - 1)) % 2 ^ 32) 15)
    leBytes 2 (low ||| (phase / Era.quantizeFactor period) * 16)⟩

instance : Decode Era := ⟨do
  let first ← readByte
  if first = 0 then pure .Immortal else
    let second ← readByte
    let encoded := first.toNat + second.toNat * 256
    let period := 2 * 2 ^ (encoded % 16)
    let phase := encoded / 16 * Era.quantizeFactor period
    if 4 ≤ period ∧ phase < period then pure (.Mortal period phase)
    else fail "Invalid period and phase"⟩

namespace Era

/-- An era the codec can write: its period is a power of two between 4 and 65536, and its phase
    lies in the period, on a multiple of the factor for long periods. -/
def WellFormed : Era → Prop
  | .Immortal => True
  | .Mortal period phase =>
    (∃ k, 1 ≤ k ∧ k < 16 ∧ period = 2 * 2 ^ k) ∧ phase < period ∧ quantizeFactor period ∣ phase

theorem trailingZeros_two_pow : ∀ k < 16, trailingZeros (2 * 2 ^ k) = k + 1 := by decide

theorem quantizeFactor_pos (period : Nat) : 0 < quantizeFactor period :=
  Nat.lt_of_lt_of_le Nat.one_pos (Nat.le_max_right _ _)

/-- There are fewer than `2 ^ 12` quantized phases. -/
theorem quantized_lt {k phase : Nat} (hk : k < 16) (h : phase < 2 * 2 ^ k) :
    phase / quantizeFactor (2 * 2 ^ k) < 2 ^ 12 := by
  rw [Nat.div_lt_iff_lt_mul (quantizeFactor_pos _)]
  have hfactor : ∀ k < 16, 2 * 2 ^ k ≤ 2 ^ 12 * quantizeFactor (2 * 2 ^ k) := by decide
  exact lt_of_lt_of_le h (hfactor k hk)

/-- The two bytes of a mortal era: the exponent of the period in the low four bits and the
    quantized phase in the others. -/
theorem encode_mortal {k quantized : Nat} (hk1 : 1 ≤ k) (hk : k < 16) :
    encode (Mortal (2 * 2 ^ k) (quantized * quantizeFactor (2 * 2 ^ k)))
      = leBytes 2 (quantized * 16 + k) := by
  have hlow : max 1 (min ((trailingZeros (2 * 2 ^ k) + (2 ^ 32 - 1)) % 2 ^ 32) 15) = k := by
    rw [trailingZeros_two_pow k hk]
    omega
  have hor : k ||| quantized * 16 = quantized * 16 + k := by
    have h := Nat.two_pow_add_eq_or_of_lt (i := 4) (b := k) (by omega) quantized
    rw [Nat.or_comm, Nat.mul_comm quantized 16]
    exact h.symm
  show leBytes 2 (max 1 (min ((trailingZeros (2 * 2 ^ k) + (2 ^ 32 - 1)) % 2 ^ 32) 15) |||
    quantized * quantizeFactor (2 * 2 ^ k) / quantizeFactor (2 * 2 ^ k) * 16) = _
  rw [hlow, Nat.mul_div_cancel _ (quantizeFactor_pos _), hor]

theorem readsBack {era : Era} (h : era.WellFormed) : ReadsBack era := by
  intro rest
  rcases era with _ | ⟨period, phase⟩
  · rfl
  obtain ⟨⟨k, hk1, hk, rfl⟩, hphase, quantized, rfl⟩ := h
  rw [Nat.mul_comm (quantizeFactor _)] at hphase ⊢
  have hlt := quantized_lt hk hphase
  rw [Nat.mul_div_cancel _ (quantizeFactor_pos _)] at hlt
  rw [encode_mortal hk1 hk]
  -- the first byte is not zero, and both bytes together are the number that was written
  have hfirst : UInt8.ofNat (quantized * 16 + k) ≠ 0 := by
    intro h0
    have h1 := congrArg UInt8.toNat h0
    rw [toNat_ofNat_mod] at h1
    have h2 : (0 : UInt8).toNat = 0 := rfl
    omega
  have hencoded : (UInt8.ofNat (quantized * 16 + k)).toNat
      + (UInt8.ofNat ((quantized * 16 + k) / 256)).toNat * 256 = quantized * 16 + k := by
    rw [toNat_ofNat_mod, toNat_ofNat_mod]
    omega
  have hmod : (quantized * 16 + k) % 16 = k := by omega
  have hdiv : (quantized * 16 + k) / 16 = quantized := by omega
  have hfour : 4 ≤ 2 * 2 ^ k := by
    have := Nat.pow_le_pow_right (n := 2) (by omega) hk1
    omega
  change (readByte >>= _) (UInt8.ofNat _ :: UInt8.ofNat _ :: rest) = _
  rw [bind_of_ok (readByte_cons _ _), if_neg hfirst, bind_of_ok (readByte_cons _ _), hencoded]
  simp only [hmod, hdiv]
  rw [if_pos ⟨hfour, hphase⟩]
  rfl

/-- What decodes as an era is the encoding of a well-formed one. -/
theorem decode_eq_ok {b rest : Bytes} {era : Era} (h : decode b = .ok (era, rest)) :
    b = encode era ++ rest ∧ era.WellFormed := by
  replace h := readByte_bind_eq_ok.mp h
  obtain ⟨first, b1, rfl, h⟩ := h
  split at h
  case isTrue e =>
    obtain ⟨rfl, rfl⟩ := pure_eq_ok.mp h
    rw [e]
    exact ⟨rfl, trivial⟩
  case isFalse =>
    obtain ⟨second, b2, rfl, h2⟩ := readByte_bind_eq_ok.mp h
    have hfirst := first.toNat_lt
    have hsecond := second.toNat_lt
    split at h2
    case isFalse => simp at h2
    case isTrue hvalid =>
      obtain ⟨rfl, rfl⟩ := pure_eq_ok.mp h2
      have hlow : 1 ≤ (first.toNat + second.toNat * 256) % 16 := by
        by_contra h0
        have hzero : (first.toNat + second.toNat * 256) % 16 = 0 := by omega
        rw [hzero] at hvalid
        omega
      have hbytes : leBytes 2 ((first.toNat + second.toNat * 256) / 16 * 16
          + (first.toNat + second.toNat * 256) % 16) = [first, second] := by
        have hsplit : (first.toNat + second.toNat * 256) / 16 * 16
            + (first.toNat + second.toNat * 256) % 16 = leValue [first, second] := by
          simp only [leValue]
          omega
        rw [hsplit]
        exact leBytes_leValue [first, second]
      refine ⟨?_, ⟨_, hlow, Nat.mod_lt _ (by omega), rfl⟩, hvalid.2, Nat.dvd_mul_left _ _⟩
      rw [encode_mortal hlow (Nat.mod_lt _ (by omega)), hbytes]
      rfl

instance : Canonical Era := ⟨fun _ _ _ h => (decode_eq_ok h).1⟩

end Era

/-! ## The signed part of an extrinsic -/

structure ExtrinsicExtra where
  era : Era
  nonce : U32
  tip : U128
  appId : U32
deriving DecidableEq

instance : Encode ExtrinsicExtra := ⟨fun x =>
  encode x.era ++ encode (Compact.mk x.nonce) ++ encode (Compact.mk x.tip)
    ++ encode (Compact.mk x.appId)⟩

instance : Decode ExtrinsicExtra := ⟨do
  let era ← decode
  let nonce : Compact 4 ← decode
  let tip : Compact 16 ← decode
  let appId : Compact 4 ← decode
  pure { era, nonce := nonce.val, tip := tip.val, appId := appId.val }⟩

instance : Fields ExtrinsicExtra (Era × Compact 4 × Compact 16 × Compact 4) where
  toFields x := (x.era, ⟨x.nonce⟩, ⟨x.tip⟩, ⟨x.appId⟩)
  ofFields p := ⟨p.1, p.2.1.val, p.2.2.1.val, p.2.2.2.val⟩

structure ExtrinsicSignature where
  address : MultiAddress
  signature : MultiSignature
  extra : ExtrinsicExtra
deriving DecidableEq

instance : Encode ExtrinsicSignature := ⟨fun x =>
  encode x.address ++ encode x.signature ++ encode x.extra⟩

instance : Decode ExtrinsicSignature := ⟨do
  let address ← decode
  let signature ← decode
  let extra ← decode
  pure { address, signature, extra }⟩

instance : Fields ExtrinsicSignature (MultiAddress × MultiSignature × ExtrinsicExtra) where
  toFields x := (x.address, x.signature, x.extra)
  ofFields p := ⟨p.1, p.2.1, p.2.2⟩

end AvailRust
