/-
  What a signature commits to.

  The signing data is the call, the extra and the additional part one after the other, without
  their lengths. `PrefixFree calls` makes the end of the call visible; the era is one byte or
  two, told apart by the first, and the rest is compact integers and 72 fixed bytes. So the data
  determines all of them, up to eras that are written the same. The data has 72 bytes at the
  least and a digest has 32, so no data is taken for a digest.
-/
import AvailRust.Pallets.Batch
import AvailRust.Submission.Mortality

namespace AvailRust

open Scale

/-! ## Where the parts end -/

/-- The bytes of a call in the family tell where they end. -/
def PrefixFree (calls : Set ExtrinsicCall) : Prop :=
  ∀ x ∈ calls, ∀ y ∈ calls, ∀ r s : Bytes, encode x ++ r = encode y ++ s → x = y ∧ r = s

/-- The calls of the runtime call types that stop at their own end. -/
def delimitedCalls : Set ExtrinsicCall :=
  {x | ∃ call : RuntimeCall, call.isGreedy = false ∧ call.readable = true ∧
    x = call.toExtrinsicCall}

theorem delimitedCalls_prefixFree : PrefixFree delimitedCalls := by
  rintro x ⟨call, hgreedy, hreadable, rfl⟩ y ⟨call', hgreedy', hreadable', rfl⟩ r s h
  rw [RuntimeCall.encode_toExtrinsicCall, RuntimeCall.encode_toExtrinsicCall] at h
  have hcall := RuntimeCall.decode_toCall_append hgreedy hreadable r
  rw [h, RuntimeCall.decode_toCall_append hgreedy' hreadable' s] at hcall
  cases hcall
  exact ⟨rfl, rfl⟩

namespace Era

/-- The first byte of a mortal era is not that of the immortal one. -/
theorem encode_mortal_eq_cons (period phase : Nat) :
    ∃ first second : UInt8, encode (Mortal period phase) = [first, second] ∧ first ≠ 0 := by
  let low := max 1 (min ((trailingZeros period + (2 ^ 32 - 1)) % 2 ^ 32) 15)
  have hlow : 1 ≤ low ∧ low < 2 ^ 4 := by
    show 1 ≤ max 1 _ ∧ max 1 _ < 2 ^ 4
    omega
  let n := low ||| (phase / quantizeFactor period) * 16
  have hn : n % 16 = low := by
    show (low ||| (phase / quantizeFactor period) * 16) % 16 = low
    have h := Nat.two_pow_add_eq_or_of_lt (i := 4) (b := low) hlow.2 (phase / quantizeFactor period)
    rw [Nat.or_comm, Nat.mul_comm _ 16]
    have h16 : (2 : Nat) ^ 4 = 16 := rfl
    rw [h16] at h
    rw [← h]
    omega
  refine ⟨UInt8.ofNat n, UInt8.ofNat (n / 256), rfl, fun h0 => ?_⟩
  have h1 := congrArg UInt8.toNat h0
  rw [toNat_ofNat_mod] at h1
  have h2 : (0 : UInt8).toNat = 0 := rfl
  omega

/-- The bytes of an era tell where they end. -/
theorem encode_append_inj {x y : Era} {r s : Bytes} (h : encode x ++ r = encode y ++ s) :
    encode x = encode y ∧ r = s := by
  cases x with
  | Immortal =>
    cases y with
    | Immortal => exact ⟨rfl, List.append_cancel_left h⟩
    | Mortal period phase =>
      obtain ⟨first, second, heq, hfirst⟩ := encode_mortal_eq_cons period phase
      rw [heq] at h
      exact absurd (List.cons.inj h).1.symm hfirst
  | Mortal period phase =>
    obtain ⟨first, second, heq, hfirst⟩ := encode_mortal_eq_cons period phase
    cases y with
    | Immortal =>
      rw [heq] at h
      exact absurd (List.cons.inj h).1 hfirst
    | Mortal period' phase' =>
      obtain ⟨first', second', heq', -⟩ := encode_mortal_eq_cons period' phase'
      rw [heq, heq'] at h ⊢
      exact List.append_inj h rfl

/-- The effective period is a power of two that the codec can write. -/
theorem effectivePeriod_eq (period : Nat) :
    ∃ k, 1 ≤ k ∧ k < 16 ∧ effectivePeriod period = 2 * 2 ^ k := by
  have hpow : ∃ c, (checkedNextPowerOfTwo period).getD (2 ^ 16) = 2 ^ c := by
    unfold checkedNextPowerOfTwo
    split
    · by_cases hzero : period = 0
      · exact ⟨0, by rw [if_pos hzero]; rfl⟩
      · exact ⟨Nat.clog 2 period, by rw [if_neg hzero]; rfl⟩
    · exact ⟨16, rfl⟩
  obtain ⟨c, hc⟩ := hpow
  refine ⟨max 2 (min c 16) - 1, by omega, by omega, ?_⟩
  have hmono : Monotone fun n : Nat => 2 ^ n :=
    fun _ _ h => Nat.pow_le_pow_right (by omega) h
  have hsucc : max 2 (min c 16) - 1 + 1 = max 2 (min c 16) := by omega
  rw [← pow_succ', hsucc]
  show max (2 ^ 2) (min _ (2 ^ 16)) = _
  rw [hc, ← hmono.map_min, ← hmono.map_max]

/-- The era of a height is one that the codec can write. -/
theorem mortal_wellFormed (period current : Nat) : (mortal period current).WellFormed := by
  have hpos := four_le_effectivePeriod period
  refine ⟨effectivePeriod_eq period, ?_, Nat.dvd_mul_left _ _⟩
  have hle : phaseAt period current ≤ current % effectivePeriod period := phaseAt_le period current
  have hlt : current % effectivePeriod period < effectivePeriod period := Nat.mod_lt _ (by omega)
  exact lt_of_le_of_lt hle hlt

/-- Eras that the codec can write are told apart by their bytes. -/
theorem encode_inj {x y : Era} (hx : x.WellFormed) (hy : y.WellFormed)
    (h : encode x = encode y) : x = y := by
  have hread := (readsBack hx).readsAlone
  unfold ReadsAlone at hread
  rw [h, (readsBack hy).readsAlone] at hread
  cases hread
  rfl

end Era

namespace ExtrinsicExtra

/-- The extras are written the same: they are equal but for eras written the same. -/
structure Alike (x y : ExtrinsicExtra) : Prop where
  era : encode x.era = encode y.era
  nonce : x.nonce = y.nonce
  tip : x.tip = y.tip
  appId : x.appId = y.appId

theorem encode_append_inj {x y : ExtrinsicExtra} {r s : Bytes}
    (h : encode x ++ r = encode y ++ s) : x.Alike y ∧ r = s := by
  have hparts : ∀ (z : ExtrinsicExtra) (t : Bytes), encode z ++ t = encode z.era
      ++ (encode (Compact.mk z.nonce) ++ (encode (Compact.mk z.tip)
        ++ (encode (Compact.mk z.appId) ++ t))) := by
    intro z t
    show (encode z.era ++ encode (Compact.mk z.nonce) ++ encode (Compact.mk z.tip)
      ++ encode (Compact.mk z.appId)) ++ t = _
    simp only [List.append_assoc]
  rw [hparts x r, hparts y s] at h
  obtain ⟨hera, h⟩ := Era.encode_append_inj h
  obtain ⟨hnonce, h⟩ := Scale.encode_append_inj h
  obtain ⟨htip, h⟩ := Scale.encode_append_inj h
  obtain ⟨happId, h⟩ := Scale.encode_append_inj h
  exact ⟨⟨hera, congrArg Compact.val hnonce, congrArg Compact.val htip,
    congrArg Compact.val happId⟩, h⟩

/-- With eras that the codec can write, extras that are written the same are equal. -/
theorem Alike.eq {x y : ExtrinsicExtra} (h : x.Alike y) (hx : x.era.WellFormed)
    (hy : y.era.WellFormed) : x = y := by
  have hera := Era.encode_inj hx hy h.era
  rcases x with ⟨era, nonce, tip, appId⟩
  rcases y with ⟨era', nonce', tip', appId'⟩
  obtain ⟨-, rfl, rfl, rfl⟩ := h
  cases hera
  rfl

end ExtrinsicExtra

/-! ## The message -/

namespace ExtrinsicPayload

variable {crypto : SpCryptoHashing} {calls : Set ExtrinsicCall} {x y : ExtrinsicPayload}

theorem eq_of_parts (hcall : x.call = y.call) (hextra : x.extra = y.extra)
    (hadditional : x.additional = y.additional) : x = y := by
  rcases x with ⟨call, extra, additional⟩
  rcases y with ⟨call', extra', additional'⟩
  cases hcall
  cases hextra
  cases hadditional
  rfl

/-- The data determines its parts. -/
theorem signingData_inj (hfree : PrefixFree calls) (hx : x.call ∈ calls) (hy : y.call ∈ calls)
    (h : x.signingData = y.signingData) :
    x.call = y.call ∧ x.extra.Alike y.extra ∧ x.additional = y.additional := by
  unfold signingData at h
  rw [List.append_assoc, List.append_assoc] at h
  obtain ⟨hcall, h⟩ := hfree _ hx _ hy _ _ h
  obtain ⟨hextra, h⟩ := ExtrinsicExtra.encode_append_inj h
  have hadditional : encode x.additional ++ [] = encode y.additional ++ [] := by rw [h]
  exact ⟨hcall, hextra, (Scale.encode_append_inj hadditional).1⟩

theorem length_encode_additional (x : ExtrinsicAdditional) : (encode x).length = 72 := by
  show (encode x.specVersion ++ encode x.txVersion ++ encode x.genesisHash
    ++ encode x.forkHash).length = 72
  have hspec : (encode x.specVersion).length = 4 := length_leBytes 4 _
  have htx : (encode x.txVersion).length = 4 := length_leBytes 4 _
  have hgenesis : (encode x.genesisHash).length = 32 := x.genesisHash.length_bytes
  have hfork : (encode x.forkHash).length = 32 := x.forkHash.length_bytes
  simp only [List.length_append, hspec, htx, hgenesis, hfork]

theorem length_signingData (x : ExtrinsicPayload) : 72 ≤ x.signingData.length := by
  unfold signingData
  rw [List.length_append, length_encode_additional]
  omega

theorem message_of_le (h : x.signingData.length ≤ 256) : x.message crypto = x.signingData :=
  if_neg (by omega)

theorem message_of_lt (h : 256 < x.signingData.length) :
    x.message crypto = (crypto.blake2_256 x.signingData).bytes :=
  if_pos h

/-- Data that is signed raw is longer than a digest. -/
theorem message_raw_ne_hashed (hx : x.signingData.length ≤ 256) (hy : 256 < y.signingData.length) :
    x.message crypto ≠ y.message crypto := by
  intro h
  rw [message_of_le hx, message_of_lt hy] at h
  have hlong := length_signingData x
  rw [h, (crypto.blake2_256 y.signingData).length_bytes] at hlong
  omega

/-- Equal messages are of equal data, without a collision of the digest. -/
theorem signingData_of_message (hcrypto : crypto.blake2_256 x.signingData
      = crypto.blake2_256 y.signingData → x.signingData = y.signingData)
    (h : x.message crypto = y.message crypto) : x.signingData = y.signingData := by
  by_cases hx : x.signingData.length ≤ 256
  · by_cases hy : y.signingData.length ≤ 256
    · rwa [message_of_le hx, message_of_le hy] at h
    · exact absurd h (message_raw_ne_hashed hx (by omega))
  · by_cases hy : y.signingData.length ≤ 256
    · exact absurd h.symm (message_raw_ne_hashed hy (by omega))
    · rw [message_of_lt (by omega), message_of_lt (by omega)] at h
      exact hcrypto (FixedBytes.ext h)

/-- Payloads with extras of refined options are told apart by what is signed. -/
theorem eq_of_message_of_refined (hfree : PrefixFree calls) (hx : x.call ∈ calls)
    (hy : y.call ∈ calls) {options options' : RefinedOptions}
    (hextra : x.extra = ExtrinsicExtra.ofRefined options)
    (hextra' : y.extra = ExtrinsicExtra.ofRefined options')
    (hcrypto : crypto.blake2_256 x.signingData = crypto.blake2_256 y.signingData →
      x.signingData = y.signingData) (h : x.message crypto = y.message crypto) : x = y := by
  obtain ⟨hcall, halike, hadditional⟩ :=
    signingData_inj hfree hx hy (signingData_of_message hcrypto h)
  have hwf : x.extra.era.WellFormed := by rw [hextra]; exact Era.mortal_wellFormed _ _
  have hwf' : y.extra.era.WellFormed := by rw [hextra']; exact Era.mortal_wellFormed _ _
  exact eq_of_parts hcall (halike.eq hwf hwf') hadditional

/-- What is signed determines the call, the nonce, the tip, the application id, the bytes of the
    era and the additional part; for eras that the codec can write, the era too. Up to 256 bytes
    are signed raw and more are hashed, and the two are never the same. -/
theorem message_determines (hfree : PrefixFree calls) (hx : x.call ∈ calls) (hy : y.call ∈ calls)
    (hcrypto : crypto.blake2_256 x.signingData = crypto.blake2_256 y.signingData →
      x.signingData = y.signingData) :
    (x.message crypto = y.message crypto →
      x.call = y.call ∧ x.extra.Alike y.extra ∧ x.additional = y.additional ∧
        (x.extra.era.WellFormed → y.extra.era.WellFormed → x = y)) ∧
      (x.signingData.length ≤ 256 → x.message crypto = x.signingData) ∧
      (256 < x.signingData.length → x.message crypto = (crypto.blake2_256 x.signingData).bytes) ∧
      (x.signingData.length ≤ 256 → 256 < y.signingData.length →
        x.message crypto ≠ y.message crypto) := by
  refine ⟨fun h => ?_, message_of_le, message_of_lt, message_raw_ne_hashed⟩
  obtain ⟨hcall, hextra, hadditional⟩ :=
    signingData_inj hfree hx hy (signingData_of_message hcrypto h)
  exact ⟨hcall, hextra, hadditional,
    fun hwf hwf' => eq_of_parts hcall (hextra.eq hwf hwf') hadditional⟩

/-- A `set(5)` in the era. -/
def ofEra (era : Era) (nonce : U32) : ExtrinsicPayload where
  call := (RuntimeCall.timestampSet ⟨5⟩).toExtrinsicCall
  extra := ⟨era, nonce, 0, 0⟩
  additional := ⟨1, 1, default, default⟩

/-- A digest that tells the nonces of these payloads apart. -/
def nonceCrypto : SpCryptoHashing :=
  { noCrypto with blake2_256 := fun data => FixedBytes.fill 32 (data.getD 5 0) }

/-- The same call with the nonces 7 and 8 is signed differently. -/
theorem message_ofEra_nonce : (ofEra (Era.mortal 32 100) 7).message nonceCrypto
    ≠ (ofEra (Era.mortal 32 100) 8).message nonceCrypto := by
  intro h
  have hcall : ∀ nonce, (ofEra (Era.mortal 32 100) nonce).call ∈ delimitedCalls :=
    fun _ => ⟨.timestampSet ⟨5⟩, rfl, rfl, rfl⟩
  have hcrypto : nonceCrypto.blake2_256 (ofEra (Era.mortal 32 100) 7).signingData
      = nonceCrypto.blake2_256 (ofEra (Era.mortal 32 100) 8).signingData →
        (ofEra (Era.mortal 32 100) 7).signingData = (ofEra (Era.mortal 32 100) 8).signingData := by
    decide
  have hall := message_determines delimitedCalls_prefixFree (hcall 7) (hcall 8) hcrypto
  exact absurd (hall.1 h).2.1.nonce (by decide)

/-- Periods of 4 and of 6 blocks are written the same. -/
theorem message_ofEra_six :
    (ofEra (.Mortal 4 0) 7).message noCrypto = (ofEra (.Mortal 6 0) 7).message noCrypto ∧
      (ofEra (.Mortal 4 0) 7).extra ≠ (ofEra (.Mortal 6 0) 7).extra := by
  decide

end ExtrinsicPayload

end AvailRust
