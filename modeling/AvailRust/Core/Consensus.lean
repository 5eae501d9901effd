/-
  The pre-runtime digests of BABE, in which the author of a block claims its slot.

  A VRF signature is kept as the bytes that it is coded as, together with the fact that the
  signature library takes them.
-/
import AvailRust.Core.Header

namespace AvailRust

open Scale

/-! ## VRF signatures -/

/-- What the signature library says of the bytes of a pre-output and of a proof. -/
structure Schnorrkel where
  vrfPreOut : FixedBytes 32 → Except String Unit
  vrfProof : FixedBytes 64 → Except String Unit

/-- Bytes that a check lets pass. -/
structure Checked {n : Nat} (check : FixedBytes n → Except String Unit) where
  bytes : FixedBytes n
  passes : check bytes = .ok ()

namespace Checked

variable {n : Nat} {check : FixedBytes n → Except String Unit}

def ofBytes (bytes : FixedBytes n) : Except String (Checked check) :=
  match h : check bytes with
  | .ok () => .ok ⟨bytes, h⟩
  | .error e => .error e

theorem ofBytes_bytes (x : Checked check) : ofBytes x.bytes = .ok x := by
  obtain ⟨bytes, hpasses⟩ := x
  unfold ofBytes
  split
  · rfl
  · next e he =>
    rw [hpasses] at he
    cases he

instance : Encode (Checked check) := ⟨fun x => encode x.bytes⟩

instance : Decode (Checked check) := ⟨do
  let decoded ← decode
  match ofBytes decoded with
  | .ok x => pure x
  | .error e => fail e⟩

instance : RoundTrips (Checked check) where
  decode_encode x rest := by
    refine (bind_encode _ x.bytes rest).trans ?_
    rw [ofBytes_bytes]
    rfl

end Checked

structure VrfSignature (schnorrkel : Schnorrkel) where
  preOutput : Checked schnorrkel.vrfPreOut
  proof : Checked schnorrkel.vrfProof

namespace Babe

variable {schnorrkel : Schnorrkel}

instance : Record (VrfSignature schnorrkel)
    (Checked schnorrkel.vrfPreOut × Checked schnorrkel.vrfProof) where
  toFields x := (x.preOutput, x.proof)
  ofFields p := ⟨p.1, p.2⟩

/-! ## Pre-digests -/

/-- `BABE_ENGINE_ID`. -/
def engineId : ConsensusEngineId := ⟨[66, 65, 66, 69], rfl⟩

structure PrimaryPreDigest (schnorrkel : Schnorrkel) where
  authorityIndex : U32
  slot : U64
  vrfSignature : VrfSignature schnorrkel

instance : Record (PrimaryPreDigest schnorrkel) (U32 × U64 × VrfSignature schnorrkel) where
  toFields x := (x.authorityIndex, x.slot, x.vrfSignature)
  ofFields p := ⟨p.1, p.2.1, p.2.2⟩

structure SecondaryPlainPreDigest where
  authorityIndex : U32
  slot : U64

instance : Record SecondaryPlainPreDigest (U32 × U64) where
  toFields x := (x.authorityIndex, x.slot)
  ofFields p := ⟨p.1, p.2⟩

structure SecondaryVRFPreDigest (schnorrkel : Schnorrkel) where
  authorityIndex : U32
  slot : U64
  vrfSignature : VrfSignature schnorrkel

instance : Record (SecondaryVRFPreDigest schnorrkel) (U32 × U64 × VrfSignature schnorrkel) where
  toFields x := (x.authorityIndex, x.slot, x.vrfSignature)
  ofFields p := ⟨p.1, p.2.1, p.2.2⟩

inductive PreDigest (schnorrkel : Schnorrkel) where
  | primary (digest : PrimaryPreDigest schnorrkel)
  | secondaryPlain (digest : SecondaryPlainPreDigest)
  | secondaryVRF (digest : SecondaryVRFPreDigest schnorrkel)

instance : Encode (PreDigest schnorrkel) := ⟨fun
  | .primary x => 1 :: encode x
  | .secondaryPlain x => 2 :: encode x
  | .secondaryVRF x => 3 :: encode x⟩

instance : Decode (PreDigest schnorrkel) := ⟨do
  let variant ← readByte
  if variant = 1 then .primary <$> decode
  else if variant = 2 then .secondaryPlain <$> decode
  else if variant = 3 then .secondaryVRF <$> decode
  else fail "Could not decode `PreDigest`, variant doesn't exist"⟩

instance : RoundTrips (PreDigest schnorrkel) where
  decode_encode x rest := by
    match x with
    | .primary x => exact map_of_ok (decode_encode x rest)
    | .secondaryPlain x => exact map_of_ok (decode_encode x rest)
    | .secondaryVRF x => exact map_of_ok (decode_encode x rest)

def PreDigest.authorityIndex : PreDigest schnorrkel → U32
  | .primary digest => digest.authorityIndex
  | .secondaryPlain digest => digest.authorityIndex
  | .secondaryVRF digest => digest.authorityIndex

end Babe

end AvailRust
