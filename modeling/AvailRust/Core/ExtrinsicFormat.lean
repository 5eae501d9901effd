/-
  The wire format of extrinsics.

  `decodeExtrinsic_eq_ok` says what the decoder accepts: a compact length, a preamble, and what
  the decoder of the call takes, as many bytes together as the length says. `EncodedExtrinsic`
  takes all bytes that are left as its call, so it accepts the encodings of well-formed
  extrinsics and nothing else (`tryFromBytes_iff`), and `GenericExtrinsic` splits the same
  bytes after the two ids of the call (`GenericExtrinsic.decode_eq_ok`).
-/
import AvailRust.Core.Extrinsic

namespace AvailRust

open Scale

/-! ## What the decoder accepts -/

/-- The version bytes of bare and of signed extrinsics. -/
theorem version_eq {version : UInt8} (h : version &&& 0x7F = extrinsicFormatVersion) :
    version = if version &&& 0x80 ≠ 0 then 0x84 else 0x04 := by
  have hall : ∀ n : Fin 256, UInt8.ofNat n &&& 0x7F = extrinsicFormatVersion →
      UInt8.ofNat n = if UInt8.ofNat n &&& 0x80 ≠ 0 then 0x84 else 0x04 := by decide +kernel
  have hn := hall ⟨version.toNat, version.toNat_lt⟩
  rw [UInt8.ofNat_toNat] at hn
  exact hn h

namespace ExtrinsicSignature

/-- A signature whose era the codec can write. -/
def WellFormed (x : ExtrinsicSignature) : Prop := x.extra.era.WellFormed

theorem readsBack {x : ExtrinsicSignature} (h : x.WellFormed) : ReadsBack x := by
  have hextra : ReadsBack x.extra :=
    Fields.readsBack ((Era.readsBack h).pair (Scale.readsBack _))
  exact Fields.readsBack ((Scale.readsBack _).pair ((Scale.readsBack _).pair hextra))

theorem wellFormed_of_decode {b rest : Bytes} {x : ExtrinsicSignature}
    (h : decode b = .ok (x, rest)) : x.WellFormed := by
  obtain ⟨address, b1, -, h⟩ := bind_eq_ok.mp h
  obtain ⟨signature, b2, -, h⟩ := bind_eq_ok.mp h
  obtain ⟨extra, b3, hextra, h⟩ := bind_eq_ok.mp h
  obtain ⟨rfl, -⟩ := pure_eq_ok.mp h
  obtain ⟨era, b4, hera, h⟩ := bind_eq_ok.mp hextra
  obtain ⟨nonce, b5, -, h⟩ := bind_eq_ok.mp h
  obtain ⟨tip, b6, -, h⟩ := bind_eq_ok.mp h
  obtain ⟨appId, b7, -, h⟩ := bind_eq_ok.mp h
  obtain ⟨rfl, -⟩ := pure_eq_ok.mp h
  exact (Era.decode_eq_ok hera).2

end ExtrinsicSignature

section

variable {C : Type} {call : Decoder C} {b rest : Bytes} {signature : Option ExtrinsicSignature}
  {c : C}

/-- What `decodeExtrinsic` does behind the signature: read the call and check the length. -/
def decodeRest (call : Decoder C) (expectedLength beforeLength : Nat)
    (signature : Option ExtrinsicSignature) : Decoder (Option ExtrinsicSignature × C) := do
  let call ← call
  let afterLength : Nat ← fun b => .ok (b.length, b)
  if beforeLength - afterLength ≠ expectedLength then fail "Invalid length prefix"
  else pure (signature, call)

theorem decodeRest_eq_ok {expectedLength beforeLength : Nat}
    {signature' : Option ExtrinsicSignature} :
    decodeRest call expectedLength beforeLength signature' b = .ok ((signature, c), rest) ↔
      signature' = signature ∧ call b = .ok (c, rest) ∧
        beforeLength - rest.length = expectedLength := by
  unfold decodeRest
  rw [bind_eq_ok]
  constructor
  · rintro ⟨c', b1, hcall, h⟩
    have hlength : (fun b => .ok (b.length, b) : Decoder Nat) b1 = .ok (b1.length, b1) := rfl
    rw [bind_of_ok hlength] at h
    split at h
    case isTrue => simp at h
    case isFalse hlen =>
      obtain ⟨hpair, rfl⟩ := pure_eq_ok.mp h
      cases hpair
      exact ⟨rfl, hcall, not_not.mp hlen⟩
  · rintro ⟨rfl, hcall, hlen⟩
    refine ⟨c, rest, hcall, ?_⟩
    have hlength : (fun b => .ok (b.length, b) : Decoder Nat) rest = .ok (rest.length, rest) := rfl
    rw [bind_of_ok hlength, if_neg (not_not.mpr hlen)]
    rfl

/-- A compact length, the preamble, and what the call is read from: together as many bytes as
    the length says. -/
theorem decodeExtrinsic_eq_ok : decodeExtrinsic call b = .ok ((signature, c), rest) ↔
    ∃ (length : Compact 4) (tail : Bytes), b = encode length ++ (encodePreamble signature ++ tail) ∧
      (∀ s ∈ signature, s.WellFormed) ∧ call tail = .ok (c, rest) ∧
      (encodePreamble signature ++ tail).length - rest.length = length.val.1 := by
  constructor
  · intro h
    obtain ⟨length, b1, hlength, h⟩ := bind_eq_ok.mp h
    obtain ⟨before, b2, hbefore, h⟩ := bind_eq_ok.mp h
    cases hbefore
    obtain ⟨version, tail, rfl, h⟩ := readByte_bind_eq_ok.mp h
    rw [encode_decode _ _ _ hlength]
    split at h
    case isTrue => simp at h
    case isFalse hversion =>
      have heq := version_eq (not_not.mp hversion)
      change (if version &&& 0x80 ≠ 0 then some <$> decode >>= decodeRest call _ _
        else pure none >>= decodeRest call _ _) tail = _ at h
      split at h
      case isTrue hsigned =>
        rw [if_pos hsigned] at heq
        obtain ⟨signature', b3, hsignature, h⟩ := bind_eq_ok.mp h
        obtain ⟨s, hs, rfl⟩ := map_eq_ok.mp hsignature
        obtain ⟨rfl, hcall, hlen⟩ := decodeRest_eq_ok.mp h
        have hinner : version :: tail = encodePreamble (some s) ++ b3 := by
          rw [heq, encode_decode _ _ _ hs]
          rfl
        refine ⟨length, b3, by rw [hinner], ?_, hcall, by rw [← hinner]; exact hlen⟩
        rintro _ ⟨⟩
        exact ExtrinsicSignature.wellFormed_of_decode hs
      case isFalse hbare =>
        rw [if_neg hbare] at heq
        obtain ⟨rfl, hcall, hlen⟩ := decodeRest_eq_ok.mp h
        have hinner : version :: tail = encodePreamble none ++ tail := by
          rw [heq]
          rfl
        exact ⟨length, tail, by rw [hinner], nofun, hcall, by rw [← hinner]; exact hlen⟩
  · rintro ⟨length, tail, rfl, hwf, hcall, hlen⟩
    rw [decodeExtrinsic, bind_encode]
    cases signature with
    | none =>
      change decodeRest call _ _ none tail = _
      exact decodeRest_eq_ok.mpr ⟨rfl, hcall, hlen⟩
    | some s =>
      have hs := ExtrinsicSignature.readsBack (hwf s rfl) tail
      change (some <$> decode >>= decodeRest call _ _) ((encode s) ++ tail) = _
      rw [bind_of_ok (map_of_ok hs)]
      exact decodeRest_eq_ok.mpr ⟨rfl, hcall, hlen⟩

end

/-- Two byte strings that carry their own length agree when one starts with the other. -/
theorem lengthPrefixed_append_inj {inner inner' tail : Bytes} (h : inner.length < 2 ^ 32)
    (h' : inner'.length < 2 ^ 32) (heq : lengthPrefixed inner ++ tail = lengthPrefixed inner') :
    inner = inner' ∧ tail = [] := by
  unfold lengthPrefixed at heq
  rw [List.append_assoc] at heq
  obtain ⟨hlength, hinner⟩ := encode_append_inj heq
  have hlen := congrArg (fun c : Compact 4 => c.val.1) hlength
  have hpow : (256 : Nat) ^ 4 = 2 ^ 32 := by norm_num
  simp only [hpow, Nat.mod_eq_of_lt h, Nat.mod_eq_of_lt h'] at hlen
  have htail := congrArg List.length hinner
  rw [List.length_append, hlen] at htail
  have hnil : tail = [] := List.eq_nil_of_length_eq_zero (by omega)
  rw [hnil, List.append_nil] at hinner
  exact ⟨hinner, hnil⟩

/-! ## Extrinsics with an encoded call -/

namespace EncodedExtrinsic

variable {b rest : Bytes} {x y : EncodedExtrinsic}

/-- What stands behind the length prefix. -/
def inner (x : EncodedExtrinsic) : Bytes := encodePreamble x.signature ++ x.call

/-- An extrinsic the format can write: its era is one of the codec's, and its length fits. -/
structure WellFormed (x : EncodedExtrinsic) : Prop where
  era : ∀ s ∈ x.signature, s.WellFormed
  length : x.inner.length < 2 ^ 32

theorem decode_eq_ok : decode b = .ok (x, rest) ↔ b = encode x ∧ x.WellFormed ∧ rest = [] := by
  change ((fun p => (⟨p.1, p.2⟩ : EncodedExtrinsic)) <$> decodeExtrinsic readAll) b = _ ↔ _
  rw [map_eq_ok]
  constructor
  · rintro ⟨⟨signature, call⟩, h, rfl⟩
    obtain ⟨length, tail, rfl, hwf, hcall, hlen⟩ := decodeExtrinsic_eq_ok.mp h
    obtain ⟨rfl, rfl⟩ := readAll_eq_ok.mp hcall
    have hlt := length.val.2
    rw [← hlen] at hlt
    refine ⟨?_, ⟨hwf, hlt⟩, rfl⟩
    have hlength : Compact.mk
        (⟨(encodePreamble signature ++ tail).length % 256 ^ 4, Nat.mod_lt _ (by norm_num)⟩ : U32)
          = length := by
      obtain ⟨length⟩ := length
      exact congrArg Compact.mk (Fin.ext ((Nat.mod_eq_of_lt hlt).trans hlen))
    change _ = encode _ ++ _
    rw [hlength]
  · rintro ⟨rfl, hwf, rfl⟩
    refine ⟨(x.signature, x.call),
      decodeExtrinsic_eq_ok.mpr ⟨_, x.call, rfl, hwf.era, rfl, ?_⟩, rfl⟩
    exact (Nat.mod_eq_of_lt hwf.length).symm

theorem tryFromBytes_iff : tryFromBytes b = .ok x ↔ b = encode x ∧ x.WellFormed := by
  unfold tryFromBytes
  constructor
  · intro h
    rcases hdecode : (decode : Decoder EncodedExtrinsic) b with e | ⟨y, rest⟩
    · rw [hdecode] at h
      cases h
    · rw [hdecode] at h
      cases h
      exact ⟨(decode_eq_ok.mp hdecode).1, (decode_eq_ok.mp hdecode).2.1⟩
  · rintro ⟨hb, hwf⟩
    rw [decode_eq_ok.mpr ⟨hb, hwf, rfl⟩]
    rfl

/-- Of two well-formed extrinsics, neither's bytes are a proper beginning of the other's. -/
theorem encode_append_eq (hx : x.WellFormed) (hy : y.WellFormed) {tail : Bytes}
    (h : encode x ++ tail = encode y) : tail = [] :=
  (lengthPrefixed_append_inj hx.length hy.length h).2

/-- The bytes of a well-formed extrinsic behind its length, and the byte strings they can be. -/
theorem encode_eq_append (hx : x.WellFormed) {length : Compact 4} {tail : Bytes}
    (h : encode length ++ tail = encode x) : x.inner = tail ∧ x.inner.length = length.val.1 := by
  obtain ⟨hlength, htail⟩ := encode_append_inj h
  rw [hlength]
  exact ⟨htail.symm, (Nat.mod_eq_of_lt hx.length).symm⟩

/-- Bytes that come close to an extrinsic and break one rule of the format. -/
inductive Malformed : Bytes → Prop
  | truncated {x : EncodedExtrinsic} {b tail : Bytes} (wf : x.WellFormed)
      (cut : b ++ tail = encode x) (short : tail ≠ []) : Malformed b
  | extended {x : EncodedExtrinsic} {tail : Bytes} (wf : x.WellFormed) (long : tail ≠ []) :
      Malformed (encode x ++ tail)
  | lengthPrefix {length : Compact 4} {inner : Bytes} (wrong : length.val.1 ≠ inner.length) :
      Malformed (encode length ++ inner)
  | version {length : Compact 4} {version : UInt8} {tail : Bytes}
      (unsigned : version ≠ 0x04) (signed : version ≠ 0x84) :
      Malformed (encode length ++ version :: tail)
  | addressTag {length : Compact 4} {tag : UInt8} {tail : Bytes} (unknown : 5 ≤ tag.toNat) :
      Malformed (encode length ++ 0x84 :: tag :: tail)
  | signatureTag {length : Compact 4} {address : MultiAddress} {tag : UInt8} {tail : Bytes}
      (unknown : 3 ≤ tag.toNat) :
      Malformed (encode length ++ 0x84 :: (encode address ++ tag :: tail))

/-- The first byte of an address is one of the five tags. -/
theorem addressTag_lt {address : MultiAddress} {tag : UInt8} {tail tail' : Bytes}
    (h : encode address ++ tail = tag :: tail') : tag.toNat < 5 := by
  cases address <;> cases h <;> decide

/-- The first byte of a signature is one of the three tags. -/
theorem signatureTag_lt {signature : MultiSignature} {tag : UInt8} {tail tail' : Bytes}
    (h : encode signature ++ tail = tag :: tail') : tag.toNat < 3 := by
  cases signature <;> cases h <;> decide

/-- A preamble with the version byte of signed extrinsics has a signature. -/
theorem inner_eq_signed {tail : Bytes} (h : x.inner = 0x84 :: tail) :
    ∃ s : ExtrinsicSignature,
      encode s.address ++ (encode s.signature ++ (encode s.extra ++ x.call)) = tail := by
  obtain ⟨_ | s, call⟩ := x
  · cases h
  · have hcons : (0x84 : UInt8) :: ((encode s.address ++ encode s.signature ++ encode s.extra)
        ++ call) = 0x84 :: tail := h
    refine ⟨s, ?_⟩
    rw [← (List.cons_eq_cons.mp hcons).2]
    simp only [List.append_assoc]

theorem not_malformed_encode (hwf : x.WellFormed) : ¬ Malformed (encode x) := by
  intro h
  generalize hb : encode x = b at h
  cases h with
  | @truncated y b tail hy cut short =>
    rw [← hb] at cut
    exact short (encode_append_eq hwf hy cut)
  | @extended y tail hy long => exact long (encode_append_eq hy hwf hb.symm)
  | lengthPrefix wrong =>
    obtain ⟨rfl, hlen⟩ := encode_eq_append hwf hb.symm
    exact wrong hlen.symm
  | version unsigned signed =>
    obtain ⟨hinner, -⟩ := encode_eq_append hwf hb.symm
    obtain ⟨_ | s, call⟩ := x
    · exact unsigned (List.cons_eq_cons.mp hinner).1.symm
    · exact signed (List.cons_eq_cons.mp hinner).1.symm
  | addressTag unknown =>
    obtain ⟨hinner, -⟩ := encode_eq_append hwf hb.symm
    obtain ⟨s, hs⟩ := inner_eq_signed hinner
    exact absurd (addressTag_lt hs) (by omega)
  | signatureTag unknown =>
    obtain ⟨hinner, -⟩ := encode_eq_append hwf hb.symm
    obtain ⟨s, hs⟩ := inner_eq_signed hinner
    exact absurd (signatureTag_lt (encode_append_inj hs).2) (by omega)

/-- The format is a bijection between well-formed extrinsics and the bytes it accepts: it reads
    what it writes, it writes what it reads, and it refuses everything malformed. -/
theorem tryFromBytes_bijective :
    (∀ x : EncodedExtrinsic, x.WellFormed → tryFromBytes (encode x) = .ok x) ∧
      (∀ b (x : EncodedExtrinsic), tryFromBytes b = .ok x → encode x = b) ∧
      ∀ b, Malformed b → ∃ message, tryFromBytes b = .error message := by
  refine ⟨fun x hwf => tryFromBytes_iff.mpr ⟨rfl, hwf⟩,
    fun b x h => (tryFromBytes_iff.mp h).1.symm, ?_⟩
  intro b hmalformed
  rcases h : tryFromBytes b with message | x
  · exact ⟨message, rfl⟩
  · obtain ⟨rfl, hwf⟩ := tryFromBytes_iff.mp h
    exact absurd hmalformed (not_malformed_encode hwf)

end EncodedExtrinsic

/-! ## Extrinsics with a split call -/

namespace ExtrinsicCall

/-- Two bytes or more are a call, in one way. -/
theorem exists_encode_eq {b : Bytes} (h : 2 ≤ b.length) : ∃ c : ExtrinsicCall, encode c = b := by
  obtain _ | ⟨palletId, _ | ⟨variantId, data⟩⟩ := b
  · simp at h
  · simp at h
  · exact ⟨⟨palletId, variantId, data⟩, rfl⟩

theorem two_le_length_encode (c : ExtrinsicCall) : 2 ≤ (encode c).length := by
  change 2 ≤ (c.palletId :: c.variantId :: c.data).length
  rw [List.length_cons, List.length_cons]
  omega

theorem tryFromBytes_eq_ok {b : Bytes} {c : ExtrinsicCall} :
    tryFromBytes b = .ok c ↔ b = encode c := by
  constructor
  · intro h
    unfold tryFromBytes at h
    split at h
    · cases h
      rfl
    · cases h
  · rintro rfl
    rfl

end ExtrinsicCall

namespace GenericExtrinsic

/-- The extrinsic with its call as bytes. -/
def toEncoded (g : GenericExtrinsic) : EncodedExtrinsic where
  signature := g.signature
  call := encode g.call

/-- Both codecs write the same bytes. -/
theorem encode_toEncoded (g : GenericExtrinsic) : encode g.toEncoded = encode g := rfl

/-- Both codecs read the same bytes, split at the same place. -/
theorem decode_eq_ok {b rest : Bytes} {g : GenericExtrinsic} :
    decode b = .ok (g, rest) ↔ decode b = .ok (g.toEncoded, rest) := by
  have hcall : ∀ (tail : Bytes) (c : ExtrinsicCall),
      decode tail = .ok (c, rest) ↔ readAll tail = .ok (encode c, rest) := by
    intro tail c
    rw [ExtrinsicCall.decode_eq_ok, readAll_eq_ok]
  have hdecode : ∀ signature (c : ExtrinsicCall),
      decodeExtrinsic decode b = .ok ((signature, c), rest) ↔
        decodeExtrinsic readAll b = .ok ((signature, encode c), rest) := by
    intro signature c
    rw [decodeExtrinsic_eq_ok, decodeExtrinsic_eq_ok]
    simp only [hcall]
  change ((fun p => (⟨p.1, p.2⟩ : GenericExtrinsic)) <$> decodeExtrinsic decode) b = _ ↔
    ((fun p => (⟨p.1, p.2⟩ : EncodedExtrinsic)) <$> decodeExtrinsic readAll) b = _
  rw [map_eq_ok, map_eq_ok]
  constructor
  · rintro ⟨⟨signature, c⟩, h, rfl⟩
    exact ⟨_, (hdecode signature c).mp h, rfl⟩
  · rintro ⟨⟨signature, call⟩, h, heq⟩
    cases heq
    exact ⟨(g.signature, g.call), (hdecode g.signature g.call).mpr h, rfl⟩

/-- The two extrinsic codecs agree on every input, as do the two ways to read a call. -/
theorem agrees_encodedExtrinsic :
    (∀ b, (∃ (g : GenericExtrinsic) (rest : Bytes), decode b = .ok (g, rest)) ↔
        ∃ (x : EncodedExtrinsic) (rest : Bytes), decode b = .ok (x, rest) ∧ 2 ≤ x.call.length) ∧
      (∀ b rest rest' (g : GenericExtrinsic) (x : EncodedExtrinsic),
        decode b = .ok (g, rest) → decode b = .ok (x, rest') →
          g.signature = x.signature ∧ encode g.call = x.call ∧ encode g = encode x ∧ rest = rest') ∧
      ∀ b rest (c : ExtrinsicCall),
        decode b = .ok (c, rest) ↔ ExtrinsicCall.tryFromBytes b = .ok c ∧ rest = [] := by
  refine ⟨?_, ?_, ?_⟩
  · intro b
    constructor
    · rintro ⟨g, rest, h⟩
      exact ⟨g.toEncoded, rest, decode_eq_ok.mp h, g.call.two_le_length_encode⟩
    · rintro ⟨⟨signature, call⟩, rest, h, hlen⟩
      obtain ⟨c, rfl⟩ := ExtrinsicCall.exists_encode_eq hlen
      exact ⟨⟨signature, c⟩, rest, decode_eq_ok.mpr h⟩
  · intro b rest rest' g x hg hx
    have h := decode_eq_ok.mp hg
    rw [hx] at h
    cases h
    exact ⟨rfl, rfl, (encode_toEncoded g).symm, rfl⟩
  · intro b rest c
    rw [ExtrinsicCall.decode_eq_ok, ExtrinsicCall.tryFromBytes_eq_ok]

end GenericExtrinsic

end AvailRust
