/-
  Peer ids, and where a store with one stands.

  A peer id is text in base 58. It is read digit by digit: the bytes so far are multiplied by 58,
  the digit is the first carry, and what is left of the carry goes in front. Each leading `1` is a
  zero byte. `base58Decode` has exactly one text for each byte string, the one `base58Encode` writes
  (`base58Decode_eq_ok`). The position of a store is cut from the digest of these bytes.
-/
import AvailRust.Core.Extrinsic
import AvailRust.Lib.Positional
import AvailRust.Lib.Results
import AvailRust.Storage.Keys

namespace AvailRust.BuildPayloadRecoveryMapNative

open Scale Results Hex

def defaultP2pCols : Nat := 32
def p2pRows : Nat := 32

def base58Alphabet : Bytes := asBytes "123456789ABCDEFGHJKLMNPQRSTUVWXYZabcdefghijkmnopqrstuvwxyz"

/-- One byte of `out`, from the right: the bytes so far, and the carry. -/
def mulItem (item : UInt8) (s : Bytes × Nat) : Bytes × Nat :=
  let acc := item.toNat * 58 + s.2
  (UInt8.ofNat acc :: s.1, acc / 256)

def insertCarry (carry : Nat) (out : Bytes) : Bytes :=
  if _ : carry = 0 then out else insertCarry (carry / 256) (UInt8.ofNat carry :: out)
termination_by carry
decreasing_by exact Nat.div_lt_self (Nat.pos_of_ne_zero ‹_›) (by decide)

/-- The loop's body: one character. -/
def pushDigit (out : Bytes) (byte : UInt8) : Except String Bytes :=
  match base58Alphabet.findIdx? (· == byte) with
  | none => .error ("invalid base58 peer id character: " ++ debugByteChar byte)
  | some digit =>
    let s := out.foldr mulItem ([], digit)
    .ok (insertCarry s.2 s.1)

def base58Decode (value : String) : Except String Bytes := do
  let out ← (asBytes value).foldlM pushDigit [0]
  let leadingZeroes := ((asBytes value).takeWhile (· == 49)).length
  let firstNonZero := (out.findIdx? (· ≠ 0)).getD out.length
  pure (List.replicate leadingZeroes 0 ++ out.drop firstNonZero)

/-- The row and the column. -/
def gridPositionFromPeerId (crypto : SpCryptoHashing) (peerId : String) (custodyCols : Nat) :
    Except String (Nat × Nat) := do
  let raw ← base58Decode peerId
  let digest := (crypto.blake2_256 raw).bytes
  let row := leValue (digest.take 2) % p2pRows
  let col := leValue ((digest.drop 2).take 2) % custodyCols
  pure (row, col)

/-! ## The bytes as numbers -/

def toNats (bytes : Bytes) : List Nat := bytes.map UInt8.toNat

theorem toNats_inj {xs ys : Bytes} (h : toNats xs = toNats ys) : xs = ys :=
  List.map_injective_iff.mpr (fun _ _ => UInt8.toNat_inj.mp) h

theorem toNats_lt (bytes : Bytes) : ∀ d ∈ toNats bytes, d < 256 := by
  intro d hd
  obtain ⟨x, -, rfl⟩ := List.mem_map.mp hd
  exact x.toNat_lt

theorem foldr_mulItem (carry : Nat) (out : Bytes) :
    toNats (out.foldr mulItem ([], carry)).1
        = (Positional.mulSteps 256 58 carry (toNats out)).1 ∧
      (out.foldr mulItem ([], carry)).2 = (Positional.mulSteps 256 58 carry (toNats out)).2 := by
  induction out with
  | nil => exact ⟨rfl, rfl⟩
  | cons item out ih =>
    have hstep : Positional.mulSteps 256 58 carry (toNats (item :: out))
        = Positional.mulStep 256 58 item.toNat (Positional.mulSteps 256 58 carry (toNats out)) :=
      rfl
    rw [hstep, Positional.mulStep, ← ih.1, ← ih.2, List.foldr_cons, mulItem]
    refine ⟨?_, rfl⟩
    simp only [toNats, List.map_cons, UInt8.toNat_ofNat']

theorem toNats_insertCarry (carry : Nat) (out : Bytes) :
    toNats (insertCarry carry out)
      = Positional.pushCarry 256 (by decide) carry (toNats out) := by
  fun_induction insertCarry carry out with
  | case1 out => rw [Positional.pushCarry, dif_pos rfl]
  | case2 carry out h ih =>
    rw [ih, Positional.pushCarry.eq_def 256 _ carry, dif_neg h]
    simp only [toNats, List.map_cons, UInt8.toNat_ofNat']

/-- The digit a character stands for. -/
def digitOf (byte : UInt8) : Option Nat := base58Alphabet.findIdx? (· == byte)

/-- One character shifts the number and adds its digit. -/
theorem pushDigit_eq_ok {out out' : Bytes} {byte : UInt8} (h : pushDigit out byte = .ok out') :
    ∃ digit, digitOf byte = some digit ∧
      Positional.value 256 (toNats out') = Positional.value 256 (toNats out) * 58 + digit := by
  unfold pushDigit at h
  split at h
  case h_1 => cases h
  case h_2 digit hdigit =>
    obtain rfl := Except.ok.inj h
    obtain ⟨hitems, hcarry⟩ := foldr_mulItem digit out
    have hlength := Positional.length_mulSteps 256 58 digit (toNats out)
    refine ⟨digit, hdigit, ?_⟩
    rw [toNats_insertCarry, Positional.value_pushCarry, hitems, hcarry, hlength,
      Positional.value_mulSteps]

theorem pushDigit_of_digitOf {byte : UInt8} {digit : Nat} (h : digitOf byte = some digit)
    (out : Bytes) : ∃ out', pushDigit out byte = .ok out' := by
  unfold digitOf at h
  unfold pushDigit
  rw [h]
  exact ⟨_, rfl⟩

/-- A run of the loop reads a numeral. -/
theorem foldlM_pushDigit_eq_ok {text : Bytes} {out out' : Bytes} {ds : List Nat}
    (hout : Positional.value 256 (toNats out) = Positional.value 58 ds)
    (h : text.foldlM pushDigit out = .ok out') :
    ∃ ds', text.mapM digitOf = some ds' ∧
      Positional.value 256 (toNats out') = Positional.value 58 (ds ++ ds') := by
  induction text generalizing out ds with
  | nil =>
    obtain rfl := Except.ok.inj h
    exact ⟨[], rfl, by rw [List.append_nil, hout]⟩
  | cons byte text ih =>
    rw [List.foldlM_cons, bind_ok_iff] at h
    obtain ⟨out1, hpush, hrest⟩ := h
    obtain ⟨digit, hdigit, hvalue⟩ := pushDigit_eq_ok hpush
    have hnext : Positional.value 256 (toNats out1) = Positional.value 58 (ds ++ [digit]) := by
      rw [hvalue, hout, Positional.value_snoc]
    obtain ⟨ds', hds', hread⟩ := ih hnext hrest
    refine ⟨digit :: ds', ?_, ?_⟩
    · rw [List.mapM_cons, hdigit, hds']
      rfl
    · rw [hread, List.append_assoc, List.singleton_append]

theorem exists_foldlM_pushDigit {text : Bytes} {ds : List Nat} (h : text.mapM digitOf = some ds)
    (out : Bytes) : ∃ out', text.foldlM pushDigit out = .ok out' := by
  induction text generalizing out ds with
  | nil => exact ⟨out, rfl⟩
  | cons byte text ih =>
    rw [List.mapM_cons, Option.bind_eq_bind, Option.bind_eq_some_iff] at h
    obtain ⟨digit, hdigit, hrest⟩ := h
    rw [Option.bind_eq_bind, Option.bind_eq_some_iff] at hrest
    obtain ⟨ds', hds', -⟩ := hrest
    obtain ⟨out1, hpush⟩ := pushDigit_of_digitOf hdigit out
    obtain ⟨out', hrun⟩ := ih hds' out1
    exact ⟨out', by rw [List.foldlM_cons, hpush]; exact hrun⟩

/-! ## The alphabet -/

/-- The character of a digit. -/
def charOf (digit : Nat) : UInt8 := base58Alphabet.getD digit 0

theorem digitOf_charOf : ∀ digit < 58, digitOf (charOf digit) = some digit := by decide +kernel

theorem length_base58Alphabet : base58Alphabet.length = 58 := by decide +kernel

theorem charOf_of_digitOf {byte : UInt8} {digit : Nat} (h : digitOf byte = some digit) :
    digit < 58 ∧ charOf digit = byte := by
  obtain ⟨hlt, hat, -⟩ := List.findIdx?_eq_some_iff_getElem.mp h
  refine ⟨by rwa [length_base58Alphabet] at hlt, ?_⟩
  rw [charOf, List.getD_eq_getElem?_getD, List.getElem?_eq_getElem hlt]
  simpa using hat

/-- The text of digits, and the digits of a text. -/
theorem mapM_digitOf_eq_some {text : Bytes} {ds : List Nat} :
    text.mapM digitOf = some ds ↔ (∀ d ∈ ds, d < 58) ∧ text = ds.map charOf := by
  induction text generalizing ds with
  | nil =>
    have hnil : ([] : Bytes).mapM digitOf = some ds ↔ [] = ds := by
      rw [List.mapM_nil]
      exact Option.some_inj
    rw [hnil]
    constructor
    · rintro rfl
      exact ⟨by simp, rfl⟩
    · intro h
      exact (List.map_eq_nil_iff.mp h.2.symm).symm
  | cons byte text ih =>
    rw [List.mapM_cons, Option.bind_eq_bind, Option.bind_eq_some_iff]
    constructor
    · rintro ⟨digit, hdigit, hrest⟩
      rw [Option.bind_eq_bind, Option.bind_eq_some_iff] at hrest
      obtain ⟨ds', hds', hcons⟩ := hrest
      obtain rfl := Option.some.inj hcons
      obtain ⟨hlt, hchar⟩ := charOf_of_digitOf hdigit
      obtain ⟨hall, htext⟩ := ih.mp hds'
      refine ⟨?_, by rw [List.map_cons, hchar, ← htext]⟩
      intro d hd
      rcases List.mem_cons.mp hd with rfl | hd
      · exact hlt
      · exact hall d hd
    · rintro ⟨hall, htext⟩
      cases ds with
      | nil => cases htext
      | cons digit ds =>
        rw [List.map_cons, List.cons.injEq] at htext
        refine ⟨digit, ?_, ?_⟩
        · rw [htext.1]
          exact digitOf_charOf digit (hall digit List.mem_cons_self)
        · have hrest := ih.mpr ⟨fun d hd => hall d (List.mem_cons_of_mem _ hd), htext.2⟩
          rw [hrest]
          rfl

theorem charOf_eq_one : ∀ digit < 58, (charOf digit == 49) = (digit == 0) := by decide +kernel

/-- Each leading `1` is a leading zero digit. -/
theorem length_takeWhile_one {ds : List Nat} (hds : ∀ d ∈ ds, d < 58) :
    ((ds.map charOf).takeWhile (· == 49)).length = Positional.zeros ds := by
  induction ds with
  | nil => rfl
  | cons d ds ih =>
    have hone := charOf_eq_one d (hds d List.mem_cons_self)
    have hrest := ih fun e he => hds e (List.mem_cons_of_mem _ he)
    rw [Positional.zeros] at hrest ⊢
    rw [List.map_cons, List.takeWhile_cons, List.takeWhile_cons, hone]
    cases hzero : d == 0 with
    | true => simp [hrest]
    | false => rfl

theorem drop_firstNonZero (out : Bytes) :
    out.drop ((out.findIdx? (· ≠ 0)).getD out.length) = out.dropWhile (· == 0) := by
  rw [← List.findIdx_eq_getD_findIdx?, List.dropWhile_eq_drop_findIdx_not]
  congr 2
  funext x
  by_cases hx : x = 0 <;> simp [hx]

theorem toNats_dropWhile (out : Bytes) :
    toNats (out.dropWhile (· == 0)) = Positional.strip (toNats out) := by
  rw [Positional.strip, toNats, toNats, List.dropWhile_map]
  congr 2
  funext x
  simp [← UInt8.toNat_inj]

/-! ## One text for each byte string -/

/-- The text of a byte string in base 58. -/
def base58Encode (raw : Bytes) : Bytes := (Positional.convert 256 58 (toNats raw)).map charOf

/-- What a text of digits is decoded to. -/
theorem base58Decode_of_digits {value : String} {ds : List Nat}
    (hds : (asBytes value).mapM digitOf = some ds) :
    ∃ raw, base58Decode value = .ok raw ∧ toNats raw = Positional.convert 58 256 ds := by
  obtain ⟨hlt, htext⟩ := mapM_digitOf_eq_some.mp hds
  obtain ⟨out, hrun⟩ := exists_foldlM_pushDigit hds [0]
  have hstart : Positional.value 256 (toNats [0]) = Positional.value 58 [] := rfl
  obtain ⟨ds', hds', hvalue⟩ := foldlM_pushDigit_eq_ok hstart hrun
  obtain rfl := Option.some.inj (hds.symm.trans hds')
  have hbytes : toNats (out.dropWhile (· == 0))
      = Positional.digits 256 (Positional.value 58 ds) := by
    rw [toNats_dropWhile, ← Positional.digits_value (by decide) (toNats_lt out), hvalue,
      List.nil_append]
  refine ⟨List.replicate (Positional.zeros ds) 0 ++ out.dropWhile (· == 0), ?_, ?_⟩
  · unfold base58Decode
    rw [hrun, htext, length_takeWhile_one hlt]
    show Except.ok (_ ++ out.drop ((out.findIdx? (· ≠ 0)).getD out.length)) = _
    rw [drop_firstNonZero]
  · rw [Positional.convert, ← hbytes, toNats, toNats, List.map_append, List.map_replicate]
    rfl

theorem digits_of_base58Decode {value : String} {raw : Bytes} (h : base58Decode value = .ok raw) :
    ∃ ds, (asBytes value).mapM digitOf = some ds := by
  obtain ⟨out, hrun, -⟩ := bind_ok_iff.mp h
  have hstart : Positional.value 256 (toNats [0]) = Positional.value 58 [] := rfl
  obtain ⟨ds, hds, -⟩ := foldlM_pushDigit_eq_ok hstart hrun
  exact ⟨ds, hds⟩

theorem base58Decode_eq_ok {value : String} {raw : Bytes} :
    base58Decode value = .ok raw ↔ asBytes value = base58Encode raw := by
  constructor
  · intro h
    obtain ⟨ds, hds⟩ := digits_of_base58Decode h
    obtain ⟨raw', hraw', hconvert⟩ := base58Decode_of_digits hds
    obtain rfl := Except.ok.inj (h.symm.trans hraw')
    obtain ⟨hlt, htext⟩ := mapM_digitOf_eq_some.mp hds
    rw [base58Encode, hconvert, Positional.convert_convert (by decide) hlt, htext]
  · intro h
    have hlt := @Positional.convert_lt 256 58 (toNats raw) (by decide)
    obtain ⟨raw', hraw', hconvert⟩ := base58Decode_of_digits (mapM_digitOf_eq_some.mpr ⟨hlt, h⟩)
    rw [Positional.convert_convert (by decide) (toNats_lt raw)] at hconvert
    rw [hraw', toNats_inj hconvert]

/-- What is said of the first byte outside the alphabet. -/
def invalidDigit (byte : UInt8) : String :=
  "invalid base58 peer id character: " ++ debugByteChar byte

theorem pushDigit_of_none {byte : UInt8} (h : digitOf byte = none) (out : Bytes) :
    pushDigit out byte = .error (invalidDigit byte) := by
  unfold digitOf at h
  unfold pushDigit
  rw [h]
  rfl

theorem foldlM_pushDigit_eq_error {text : Bytes} {error : String} (out : Bytes) :
    text.foldlM pushDigit out = .error error ↔
      ∃ byte, text.find? (fun byte => (digitOf byte).isNone) = some byte ∧
        error = invalidDigit byte := by
  induction text generalizing out with
  | nil =>
    constructor
    · intro h
      cases h
    · rintro ⟨byte, hbyte, -⟩
      cases hbyte
  | cons byte text ih =>
    rw [List.foldlM_cons]
    cases hdigit : digitOf byte with
    | none =>
      rw [pushDigit_of_none hdigit, List.find?_cons_of_pos (by rw [hdigit]; rfl)]
      constructor
      · intro h
        exact ⟨byte, rfl, (Except.error.inj h).symm⟩
      · rintro ⟨byte', hbyte, rfl⟩
        rw [← Option.some.inj hbyte]
        rfl
    | some digit =>
      obtain ⟨out', hpush⟩ := pushDigit_of_digitOf hdigit out
      rw [hpush, List.find?_cons_of_neg (by rw [hdigit]; simp)]
      exact ih out'

/-- Decoding is a bijection: each byte string has one text. All other texts are refused, and the
    first byte outside the alphabet is named, as the character of that number. -/
theorem base58Decode_bijective :
    (∀ (value : String) (raw : Bytes),
      base58Decode value = .ok raw ↔ asBytes value = base58Encode raw) ∧
    ∀ (value error : String), base58Decode value = .error error ↔
      ∃ byte, (asBytes value).find? (fun byte => !base58Alphabet.contains byte) = some byte ∧
        error = "invalid base58 peer id character: " ++ debugByteChar byte := by
  refine ⟨fun value raw => base58Decode_eq_ok, ?_⟩
  intro value error
  have halphabet : (fun byte => !base58Alphabet.contains byte)
      = fun byte => (digitOf byte).isNone := by
    funext byte
    rw [Bool.eq_iff_iff, Option.isNone_iff_eq_none, digitOf, List.findIdx?_eq_none_iff]
    simp only [List.contains_eq_mem, Bool.not_eq_true', decide_eq_false_iff_not,
      beq_eq_false_iff_ne]
    constructor
    · intro hmem candidate hcandidate heq
      exact hmem (heq ▸ hcandidate)
    · intro hne hmem
      exact hne byte hmem rfl
  rw [halphabet]
  have herror : base58Decode value = .error error ↔
      (asBytes value).foldlM pushDigit [0] = .error error := by
    unfold base58Decode
    cases (asBytes value).foldlM pushDigit [0] with
    | error e => rfl
    | ok out =>
      constructor
      · intro h
        cases h
      · intro h
        cases h
  rw [herror]
  exact foldlM_pushDigit_eq_error [0]

end AvailRust.BuildPayloadRecoveryMapNative
