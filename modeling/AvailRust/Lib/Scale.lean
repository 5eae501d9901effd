/-
  The SCALE codec.

  `Encode` writes a value as bytes, `Decode` reads one from the front of its input and leaves
  the rest. Three laws relate them: `RoundTrips` (what was encoded decodes, with any bytes
  behind it), `Canonical` (what decodes is the encoding of the value it gave) and
  `NonGrowing` (decoding never gives a value longer than the bytes it took). `Canonical`
  implies `NonGrowing`; a codec that reads a form it does not write keeps only the latter.

  `Fields T P` says that the record `T` is coded as the product `P` of its fields; the laws
  of `P` then carry over to `T`, so a record needs no codec proof of its own.
-/
import Mathlib.Data.Nat.Log
import Mathlib.Tactic.Ring
import Mathlib.Tactic.NormNum

namespace Scale

variable {α β γ : Type}

abbrev Bytes := List UInt8

/-- Reads from the front of the input and leaves the rest, or fails with a message: the
    innermost one, without the names of the fields that a derived decoder puts around it. -/
abbrev Decoder := StateT Bytes (Except String)

/-! ## Running a decoder -/

theorem bind_eq_ok {x : Decoder α} {f : α → Decoder β} {b rest : Bytes} {y : β} :
    (x >>= f) b = .ok (y, rest) ↔ ∃ a b1, x b = .ok (a, b1) ∧ f a b1 = .ok (y, rest) := by
  change (x b >>= fun p => f p.1 p.2) = .ok (y, rest) ↔ _
  cases hx : x b with
  | error e =>
    constructor
    · intro h; cases h
    · rintro ⟨a, b1, h, _⟩; cases h
  | ok p =>
    obtain ⟨a, b1⟩ := p
    constructor
    · intro h; exact ⟨a, b1, rfl, h⟩
    · rintro ⟨a', b1', h1, h2⟩
      cases h1
      exact h2

theorem pure_eq_ok {b rest : Bytes} {x y : α} :
    (pure x : Decoder α) b = .ok (y, rest) ↔ x = y ∧ b = rest := by
  change (Except.ok (x, b) : Except String _) = .ok (y, rest) ↔ _
  simp

theorem map_eq_ok {x : Decoder α} {f : α → β} {b rest : Bytes} {y : β} :
    (f <$> x) b = .ok (y, rest) ↔ ∃ a, x b = .ok (a, rest) ∧ f a = y := by
  change ((x b) >>= fun p => pure (f p.1, p.2)) = .ok (y, rest) ↔ _
  cases hx : x b with
  | error e =>
    constructor
    · intro h; cases h
    · rintro ⟨a, h, _⟩; cases h
  | ok p =>
    obtain ⟨a, b1⟩ := p
    constructor
    · intro h
      cases h
      exact ⟨a, rfl, rfl⟩
    · rintro ⟨a', h1, h2⟩
      cases h1
      cases h2
      rfl

/-- Running a bind whose first part succeeds. -/
theorem bind_of_ok {x : Decoder α} {f : α → Decoder β} {b b1 : Bytes} {a : α}
    (h : x b = .ok (a, b1)) : (x >>= f) b = f a b1 := by
  change (x b >>= fun p => f p.1 p.2) = f a b1
  rw [h]
  rfl

theorem map_of_ok {x : Decoder α} {f : α → β} {b b1 : Bytes} {a : α}
    (h : x b = .ok (a, b1)) : (f <$> x) b = .ok (f a, b1) := by
  rw [map_eq_ok]
  exact ⟨a, h, rfl⟩

/-- Stop with a message. -/
def fail (message : String) : Decoder α := fun _ => .error message

@[simp] theorem fail_eq_ok {message : String} {b rest : Bytes} {y : α} :
    (fail message : Decoder α) b = .ok (y, rest) ↔ False := by
  simp [fail]

/-- The next byte of the input. -/
def readByte : Decoder UInt8
  | [] => .error "Not enough data to fill buffer"
  | x :: b => .ok (x, b)

/-- The next `n` bytes of the input. -/
def read (n : Nat) : Decoder Bytes := fun b =>
  if n ≤ b.length then .ok (b.take n, b.drop n) else .error "Not enough data to fill buffer"

/-- Everything that is left of the input. -/
def readAll : Decoder Bytes := fun b => .ok (b, [])

@[simp] theorem readByte_cons (x : UInt8) (b : Bytes) : readByte (x :: b) = .ok (x, b) := rfl

theorem readByte_eq_ok {b rest : Bytes} {x : UInt8} :
    readByte b = .ok (x, rest) ↔ b = x :: rest := by
  cases b <;> simp [readByte]

/-- A choice on the first byte. -/
theorem readByte_bind_eq_ok {f : UInt8 → Decoder α} {b rest : Bytes} {y : α} :
    (readByte >>= f) b = .ok (y, rest) ↔ ∃ x b1, b = x :: b1 ∧ f x b1 = .ok (y, rest) := by
  rw [bind_eq_ok]
  constructor
  · rintro ⟨x, b1, h1, h2⟩
    exact ⟨x, b1, readByte_eq_ok.mp h1, h2⟩
  · rintro ⟨x, b1, h1, h2⟩
    exact ⟨x, b1, readByte_eq_ok.mpr h1, h2⟩

theorem read_eq_ok {n : Nat} {b rest xs : Bytes} :
    read n b = .ok (xs, rest) ↔ xs.length = n ∧ b = xs ++ rest := by
  unfold read
  constructor
  · intro h
    split at h
    · cases h
      simp [*]
    · cases h
  · rintro ⟨rfl, rfl⟩
    simp

theorem readAll_eq_ok {b rest xs : Bytes} : readAll b = .ok (xs, rest) ↔ b = xs ∧ rest = [] := by
  simp [readAll, eq_comm]

/-! ## The codec classes and their laws -/

class Encode (α : Type) where
  encode : α → Bytes

class Decode (α : Type) where
  decode : Decoder α

export Encode (encode)
export Decode (decode)

variable [Encode α] [Decode α] [Encode β] [Decode β]

/-- What was encoded decodes, whatever bytes stand behind it. -/
class RoundTrips (α : Type) [Encode α] [Decode α] : Prop where
  decode_encode : ∀ (x : α) (rest : Bytes), decode (encode x ++ rest) = .ok (x, rest)

/-- What decodes is the encoding of the value it gave. -/
class Canonical (α : Type) [Encode α] [Decode α] : Prop where
  encode_decode : ∀ (b rest : Bytes) (x : α), decode b = .ok (x, rest) → b = encode x ++ rest

/-- Decoding gives no value longer than the bytes it took. -/
class NonGrowing (α : Type) [Encode α] [Decode α] : Prop where
  length_le : ∀ (b rest : Bytes) (x : α), decode b = .ok (x, rest) →
    (encode x).length + rest.length ≤ b.length

export RoundTrips (decode_encode)
export Canonical (encode_decode)
export NonGrowing (length_le)

instance (priority := low) Canonical.nonGrowing [Canonical α] : NonGrowing α :=
  ⟨fun b rest x h => by simp [encode_decode b rest x h]⟩

omit [Encode β] [Decode β] in
/-- Decode the front of an encoding and go on with the value. -/
theorem bind_encode [RoundTrips α] (f : α → Decoder β) (x : α) (rest : Bytes) :
    (decode >>= f) (encode x ++ rest) = f x rest :=
  bind_of_ok (decode_encode x rest)

omit [Encode β] [Decode β] in
/-- What is done after decoding a value sees no more input than there was. -/
theorem decode_bind_congr [NonGrowing α] {f g : α → Decoder β} {b : Bytes}
    (h : ∀ x b1, b1.length ≤ b.length → f x b1 = g x b1) :
    (decode >>= f) b = (decode >>= g) b := by
  rcases hx : (decode : Decoder α) b with e | ⟨x, b1⟩
  · change (decode b >>= fun p => f p.1 p.2) = (decode b >>= fun p => g p.1 p.2)
    rw [hx]
    rfl
  · have hle := length_le _ _ _ hx
    rw [bind_of_ok hx, bind_of_ok hx]
    exact h x b1 (by omega)

/-- The value decodes from its own encoding, whatever bytes stand behind it. -/
def ReadsBack (x : α) : Prop := ∀ rest, decode (encode x ++ rest) = .ok (x, rest)

theorem readsBack [RoundTrips α] (x : α) : ReadsBack x := decode_encode x

omit [Encode β] [Decode β] in
theorem ReadsBack.bind {x : α} (h : ReadsBack x) (f : α → Decoder β) (rest : Bytes) :
    (decode >>= f) (encode x ++ rest) = f x rest :=
  bind_of_ok (h rest)

/-- The value decodes from its own encoding when nothing stands behind it. -/
def ReadsAlone (x : α) : Prop := decode (encode x) = .ok (x, [])

theorem ReadsBack.readsAlone {x : α} (h : ReadsBack x) : ReadsAlone x := by
  have hx := h []
  rwa [List.append_nil] at hx

/-- A value is read back from its encoding and leaves what stands behind it, and what is read
    is the encoding of what it is read as. -/
structure Lossless (α : Type) [Encode α] [Decode α] : Prop where
  reads : ∀ (x : α) (rest : Bytes), decode (encode x ++ rest) = .ok (x, rest)
  writes : ∀ (b rest : Bytes) (x : α), decode b = .ok (x, rest) → b = encode x ++ rest

theorem lossless [RoundTrips α] [Canonical α] : Lossless α := ⟨decode_encode, encode_decode⟩

omit [Decode β] in
/-- A case without data is encoded as its tag. -/
theorem const_of_decode {tag : UInt8} {x y : β} {b rest : Bytes} (htag : encode y = [tag])
    (h : (pure y : Decoder β) b = .ok (x, rest)) : tag :: b = encode x ++ rest := by
  obtain ⟨rfl, rfl⟩ := pure_eq_ok.mp h
  rw [htag]
  rfl

omit [Decode β] in
/-- A case that wraps a value is encoded as its tag and the value. -/
theorem case_of_decode [Canonical α] {tag : UInt8} {f : α → β} {x : β} {b rest : Bytes}
    (htag : ∀ y, encode (f y) = tag :: encode y)
    (h : (f <$> decode) b = .ok (x, rest)) : tag :: b = encode x ++ rest := by
  obtain ⟨y, hy, rfl⟩ := map_eq_ok.mp h
  rw [htag, encode_decode _ _ _ hy]
  rfl

/-- A codec that round-trips with a remainder has a prefix-free, injective encoding. -/
theorem encode_append_inj [RoundTrips α] {x y : α} {r s : Bytes}
    (h : encode x ++ r = encode y ++ s) : x = y ∧ r = s := by
  have hx := decode_encode x r
  rw [h, decode_encode y s] at hx
  cases hx
  exact ⟨rfl, rfl⟩

/-! ## Bytes, products and the empty record -/

instance : Encode UInt8 := ⟨fun x => [x]⟩
instance : Decode UInt8 := ⟨readByte⟩
instance : RoundTrips UInt8 := ⟨fun _ _ => rfl⟩
instance : Canonical UInt8 := ⟨fun _ _ _ h => readByte_eq_ok.mp h⟩

instance : Encode Unit := ⟨fun _ => []⟩
instance : Decode Unit := ⟨pure ()⟩
instance : RoundTrips Unit := ⟨fun _ _ => rfl⟩
instance : Canonical Unit := ⟨fun _ _ _ h => (pure_eq_ok.mp h).2⟩

instance : Encode (α × β) := ⟨fun p => encode p.1 ++ encode p.2⟩

omit [Decode α] [Decode β] in
theorem encode_pair (p : α × β) : encode p = encode p.1 ++ encode p.2 := rfl

instance : Decode (α × β) := ⟨do
  let a ← decode
  let b ← decode
  pure (a, b)⟩

omit [Encode α] [Encode β] in
theorem decode_pair : (decode : Decoder (α × β)) = (do
    let a ← decode
    let b ← decode
    pure (a, b)) := rfl

theorem ReadsBack.pair {x : α} {y : β} (hx : ReadsBack x) (hy : ReadsBack y) :
    ReadsBack (x, y) := by
  intro rest
  change decode ((encode x ++ encode y) ++ rest) = _
  rw [List.append_assoc, decode_pair, hx.bind, hy.bind]
  rfl

theorem ReadsBack.pair_readsAlone {x : α} {y : β} (hx : ReadsBack x) (hy : ReadsAlone y) :
    ReadsAlone (x, y) := by
  change decode (encode x ++ encode y) = _
  rw [decode_pair, hx.bind, bind_of_ok hy]
  rfl

/-- A pair that comes back: its first part does, and its second from what that leaves. -/
theorem decode_pair_eq_ok {x : α} {y : β} {b rest : Bytes}
    (h : decode (encode (x, y) ++ b) = .ok ((x, y), rest)) :
    ∃ b1, decode (encode x ++ (encode y ++ b)) = .ok (x, b1) ∧ decode b1 = .ok (y, rest) := by
  change decode ((encode x ++ encode y) ++ b) = _ at h
  rw [List.append_assoc, decode_pair] at h
  obtain ⟨x', b1, hx, h⟩ := bind_eq_ok.mp h
  obtain ⟨y', b2, hy, h⟩ := bind_eq_ok.mp h
  obtain ⟨heq, rfl⟩ := pure_eq_ok.mp h
  cases heq
  exact ⟨b1, hx, hy⟩

instance [RoundTrips α] [RoundTrips β] : RoundTrips (α × β) where
  decode_encode p := (readsBack p.1).pair (readsBack p.2)

instance [Canonical α] [Canonical β] : Canonical (α × β) where
  encode_decode b rest p h := by
    rw [decode_pair, bind_eq_ok] at h
    obtain ⟨x, b1, h1, h⟩ := h
    rw [bind_eq_ok] at h
    obtain ⟨y, b2, h2, h⟩ := h
    rw [pure_eq_ok] at h
    obtain ⟨rfl, rfl⟩ := h
    rw [encode_decode _ _ _ h1, encode_decode _ _ _ h2, ← List.append_assoc]
    rfl

instance [NonGrowing α] [NonGrowing β] : NonGrowing (α × β) where
  length_le b rest p h := by
    rw [decode_pair, bind_eq_ok] at h
    obtain ⟨x, b1, h1, h⟩ := h
    rw [bind_eq_ok] at h
    obtain ⟨y, b2, h2, h⟩ := h
    rw [pure_eq_ok] at h
    obtain ⟨rfl, rfl⟩ := h
    have e1 := length_le _ _ _ h1
    have e2 := length_le _ _ _ h2
    change (encode x ++ encode y).length + _ ≤ _
    rw [List.length_append]
    omega

/-! ## Records -/

/-- The record `T` is coded as the product `P` of its fields. -/
class Fields (T : Type) (P : outParam Type) [Encode T] [Decode T] [Encode P] [Decode P] where
  toFields : T → P
  ofFields : P → T
  ofFields_toFields : ∀ x, ofFields (toFields x) = x := by intro x; rfl
  toFields_ofFields : ∀ p, toFields (ofFields p) = p := by intro p; rfl
  encode_eq : ∀ x : T, encode x = encode (toFields x) := by
    intro x
    first | rfl | (simp only [encode_pair, ← List.append_assoc]; rfl)
  decode_eq : (decode : Decoder T) = ofFields <$> (decode : Decoder P) := by
    simp only [decode_pair, bind_assoc, pure_bind, map_bind, map_pure]; rfl

section

variable {T P : Type} [Encode T] [Decode T] [Encode P] [Decode P] [Fields T P]

theorem Fields.readsBack {x : T} (h : ReadsBack (Fields.toFields x)) : ReadsBack x := by
  intro rest
  rw [Fields.encode_eq, Fields.decode_eq, map_of_ok (h rest), Fields.ofFields_toFields]

/-- A record that comes back: its fields do. -/
theorem Fields.decode_encode_eq_ok {x : T} {b rest : Bytes}
    (h : decode (encode x ++ b) = .ok (x, rest)) :
    decode (encode (Fields.toFields x) ++ b) = .ok (Fields.toFields x, rest) := by
  rw [Fields.encode_eq, Fields.decode_eq] at h
  obtain ⟨p, hp, rfl⟩ := map_eq_ok.mp h
  rwa [Fields.toFields_ofFields] at hp ⊢

theorem Fields.readsAlone {x : T} (h : ReadsAlone (Fields.toFields x)) : ReadsAlone x := by
  change decode (encode x) = _
  rw [Fields.encode_eq, Fields.decode_eq, map_of_ok h, Fields.ofFields_toFields]

instance Fields.roundTrips [RoundTrips P] : RoundTrips T where
  decode_encode x := Fields.readsBack (Scale.readsBack (Fields.toFields x))

instance (priority := low) Fields.canonical [Canonical P] : Canonical T where
  encode_decode b rest x h := by
    rw [Fields.decode_eq, map_eq_ok] at h
    obtain ⟨p, hp, rfl⟩ := h
    rw [Fields.encode_eq, Fields.toFields_ofFields]
    exact encode_decode b rest p hp

instance (priority := low) Fields.nonGrowing [NonGrowing P] : NonGrowing T where
  length_le b rest x h := by
    rw [Fields.decode_eq, map_eq_ok] at h
    obtain ⟨p, hp, rfl⟩ := h
    rw [Fields.encode_eq, Fields.toFields_ofFields]
    exact length_le b rest p hp

end

/-- A record whose codec is that of the product of its fields. -/
class Record (T : Type) (P : outParam Type) where
  toFields : T → P
  ofFields : P → T
  ofFields_toFields : ∀ x, ofFields (toFields x) = x := by intro x; rfl
  toFields_ofFields : ∀ p, toFields (ofFields p) = p := by intro p; rfl

section

variable {T P : Type} [Record T P]

instance (priority := low) Record.encode [Encode P] : Encode T :=
  ⟨fun x => Encode.encode (Record.toFields x)⟩

instance (priority := low) Record.decode [Decode P] : Decode T :=
  ⟨Record.ofFields <$> (Decode.decode : Decoder P)⟩

instance (priority := low) Record.fields [Encode P] [Decode P] : Fields T P where
  toFields := Record.toFields
  ofFields := Record.ofFields
  ofFields_toFields := Record.ofFields_toFields
  toFields_ofFields := Record.toFields_ofFields
  encode_eq _ := rfl
  decode_eq := rfl

end

/-! ## Enumerations without data -/

/-- An enumeration coded as one byte, with the message for the bytes that stand for nothing. -/
class ByteEnum (α : Type) where
  toByte : α → UInt8
  ofByte : UInt8 → Option α
  unknown : String
  ofByte_toByte : ∀ x, ofByte (toByte x) = some x := by intro x; cases x <;> rfl
  toByte_ofByte : ∀ n x, ofByte n = some x → toByte x = n

section

variable {T : Type} [ByteEnum T]

instance (priority := low) ByteEnum.encode : Encode T := ⟨fun x => [toByte x]⟩

instance (priority := low) ByteEnum.decode : Decode T := ⟨do
  let variant ← readByte
  match ofByte variant with
  | some x => pure x
  | none => fail (unknown T)⟩

instance (priority := low) ByteEnum.roundTrips : RoundTrips T where
  decode_encode x rest := by
    change (readByte >>= _) (toByte x :: rest) = _
    rw [bind_of_ok (readByte_cons _ _)]
    simp only [ofByte_toByte]
    rfl

instance (priority := low) ByteEnum.canonical : Canonical T where
  encode_decode b rest x h := by
    replace h := readByte_bind_eq_ok.mp h
    obtain ⟨variant, b1, rfl, h⟩ := h
    rcases hbyte : ofByte (α := T) variant with _ | y
    · simp only [hbyte, fail_eq_ok] at h
    · simp only [hbyte] at h
      obtain ⟨rfl, rfl⟩ := pure_eq_ok.mp h
      rw [← toByte_ofByte _ _ hbyte]
      rfl

end

/-! ## Byte arrays of fixed length -/

/-- `n` bytes. -/
@[ext] structure FixedBytes (n : Nat) where
  bytes : Bytes
  length_bytes : bytes.length = n
deriving DecidableEq

namespace FixedBytes

variable {n : Nat}

/-- `n` copies of one byte. -/
def fill (n : Nat) (x : UInt8) : FixedBytes n := ⟨List.replicate n x, List.length_replicate⟩

instance : Inhabited (FixedBytes n) := ⟨fill n 0⟩

instance : Encode (FixedBytes n) := ⟨fun x => x.bytes⟩

instance : Decode (FixedBytes n) := ⟨fun b =>
  if h : n ≤ b.length then .ok (⟨b.take n, by simp [h]⟩, b.drop n)
  else .error "Not enough data to fill buffer"⟩

theorem decode_eq_ok {b rest : Bytes} {x : FixedBytes n} :
    decode b = .ok (x, rest) ↔ b = x.bytes ++ rest := by
  obtain ⟨x, rfl⟩ := x
  change (if h : _ then _ else _) = _ ↔ _
  constructor
  · intro h
    split at h
    · simp only [Except.ok.injEq, Prod.mk.injEq, FixedBytes.mk.injEq] at h
      rw [← h.1, ← h.2, List.take_append_drop]
    · cases h
  · rintro rfl
    simp

instance : RoundTrips (FixedBytes n) := ⟨fun _ _ => decode_eq_ok.mpr rfl⟩
instance : Canonical (FixedBytes n) := ⟨fun _ _ _ h => decode_eq_ok.mp h⟩

end FixedBytes

/-! ## Unsigned integers, little endian -/

/-- The low `k` bytes of `n`, least significant first. -/
def leBytes : Nat → Nat → Bytes
  | 0, _ => []
  | k + 1, n => UInt8.ofNat n :: leBytes k (n / 256)

/-- The number little-endian bytes stand for. -/
def leValue : Bytes → Nat
  | [] => 0
  | x :: b => x.toNat + 256 * leValue b

@[simp] theorem length_leBytes (k n : Nat) : (leBytes k n).length = k := by
  induction k generalizing n with
  | zero => rfl
  | succ k ih => simp [leBytes, ih]

theorem leValue_lt (b : Bytes) : leValue b < 256 ^ b.length := by
  induction b with
  | nil => simp [leValue]
  | cons x b ih =>
    have hx := x.toNat_lt
    simp only [leValue, List.length_cons, pow_succ]
    omega

theorem leValue_leBytes (k n : Nat) : leValue (leBytes k n) = n % 256 ^ k := by
  induction k generalizing n with
  | zero => simp [leBytes, leValue, Nat.mod_one]
  | succ k ih =>
    have hbyte : n % 2 ^ 8 = n % 256 := rfl
    rw [leBytes, leValue, ih, UInt8.toNat_ofNat', hbyte, pow_succ', Nat.mod_mul]

theorem leBytes_leValue (b : Bytes) : leBytes b.length (leValue b) = b := by
  induction b with
  | nil => rfl
  | cons x b ih =>
    have hx := x.toNat_lt
    have hdiv : (x.toNat + 256 * leValue b) / 256 = leValue b := by omega
    simp only [List.length_cons, leBytes, leValue, hdiv, ih, List.cons.injEq, and_true]
    apply UInt8.toNat_inj.mp
    rw [UInt8.toNat_ofNat']
    omega

/-- An unsigned integer of `k` bytes. -/
abbrev Uint (k : Nat) := Fin (256 ^ k)

abbrev U16 := Uint 2
abbrev U32 := Uint 4
abbrev U64 := Uint 8
abbrev U128 := Uint 16

instance neZero_u16 : NeZero (256 ^ 2) := ⟨by decide⟩
instance neZero_u32 : NeZero (256 ^ 4) := ⟨by decide⟩
instance neZero_u64 : NeZero (256 ^ 8) := ⟨by decide⟩
instance neZero_u128 : NeZero (256 ^ 16) := ⟨by decide⟩

instance {k : Nat} : Encode (Uint k) := ⟨fun x => leBytes k x.1⟩

instance {k : Nat} : Decode (Uint k) := ⟨do
  let bytes : FixedBytes k ← decode
  pure ⟨leValue bytes.bytes, by have := leValue_lt bytes.bytes; rwa [bytes.length_bytes] at this⟩⟩

instance {k : Nat} : RoundTrips (Uint k) where
  decode_encode x rest := by
    have hread : decode (leBytes k x.1 ++ rest)
        = .ok ((⟨leBytes k x.1, length_leBytes k _⟩ : FixedBytes k), rest) :=
      FixedBytes.decode_eq_ok.mpr rfl
    change (decode >>= _) (leBytes k x.1 ++ rest) = _
    rw [bind_of_ok hread]
    refine pure_eq_ok.mpr ⟨Fin.ext ?_, rfl⟩
    exact (leValue_leBytes k x.1).trans (Nat.mod_eq_of_lt x.2)

instance {k : Nat} : Canonical (Uint k) where
  encode_decode b rest x h := by
    change (decode >>= _) b = _ at h
    rw [bind_eq_ok] at h
    obtain ⟨bytes, b1, h1, h⟩ := h
    rw [pure_eq_ok] at h
    obtain ⟨rfl, rfl⟩ := h
    rw [FixedBytes.decode_eq_ok] at h1
    subst h1
    have hb := leBytes_leValue bytes.bytes
    rw [bytes.length_bytes] at hb
    change _ = leBytes k (leValue bytes.bytes) ++ _
    rw [hb]

/-! ## Compact integers -/

/-- How many bytes hold `n`. -/
def byteLength (n : Nat) : Nat := Nat.log2 n / 8 + 1

theorem lt_pow_byteLength (n : Nat) : n < 256 ^ byteLength n := by
  have h : n < 2 ^ (Nat.log2 n + 1) := Nat.lt_log2_self
  have hle : Nat.log2 n + 1 ≤ 8 * byteLength n := by unfold byteLength; omega
  calc n < 2 ^ (Nat.log2 n + 1) := h
    _ ≤ 2 ^ (8 * byteLength n) := Nat.pow_le_pow_right (by norm_num) hle
    _ = 256 ^ byteLength n := by rw [pow_mul]; norm_num

theorem byteLength_eq {n m : Nat} (hlow : 256 ^ m ≤ n) (hhigh : n < 256 ^ (m + 1)) :
    byteLength n = m + 1 := by
  have hn : n ≠ 0 := by
    have : 0 < 256 ^ m := Nat.pow_pos (by norm_num)
    omega
  have e : ∀ j, 256 ^ j = 2 ^ (8 * j) := by intro j; rw [pow_mul]; norm_num
  rw [e] at hlow hhigh
  have h1 := (Nat.le_log2 hn).mpr hlow
  have h2 := (Nat.log2_lt hn).mpr hhigh
  unfold byteLength
  omega

theorem pow_byteLength_le {n : Nat} (h : n ≠ 0) : 256 ^ (byteLength n - 1) ≤ n := by
  have e : 256 ^ (byteLength n - 1) = 2 ^ (8 * (byteLength n - 1)) := by rw [pow_mul]; norm_num
  rw [e]
  refine (Nat.le_log2 h).mp ?_
  unfold byteLength
  omega

theorem four_le_byteLength {n : Nat} (h : 2 ^ 30 ≤ n) : 4 ≤ byteLength n := by
  have hn : n ≠ 0 := by omega
  have := (Nat.le_log2 hn).mpr h
  unfold byteLength
  omega

theorem byteLength_le {n k : Nat} (hk : 0 < k) (h : n < 256 ^ k) : byteLength n ≤ k := by
  by_cases hn : n = 0
  · subst hn; exact hk
  · have e : 256 ^ k = 2 ^ (8 * k) := by rw [pow_mul]; norm_num
    rw [e] at h
    have := (Nat.log2_lt hn).mpr h
    unfold byteLength
    omega

/-- A `k`-byte integer in the form that is shorter for small values. -/
structure Compact (k : Nat) where
  val : Uint k
deriving DecidableEq

/-- The two low bits of the first byte tell the form: one byte, two, four, or a count of
    bytes followed by that many. -/
def compactBytes (n : Nat) : Bytes :=
  if n < 2 ^ 6 then [UInt8.ofNat (n * 4)]
  else if n < 2 ^ 14 then leBytes 2 (n * 4 + 1)
  else if n < 2 ^ 30 then leBytes 4 (n * 4 + 2)
  else UInt8.ofNat ((byteLength n - 4) * 4 + 3) :: leBytes (byteLength n) n

/-- `Compact<u32>` and its like, by the bytes of the number. -/
def compactName (k : Nat) : String := "Compact<u" ++ toString (8 * k) ++ ">"

def outOfRange (k : Nat) : Decoder Nat := fail ("out of range decoding " ++ compactName k)

/-- The number in `tag` and the `w` bytes behind it, at least `low`. -/
def compactWide (k w low : Nat) (tag : UInt8) : Decoder Nat := do
  let bytes ← read w
  let n := (tag.toNat + 256 * leValue bytes) / 4
  if low ≤ n then pure n else outOfRange k

/-- The number in the next `m` bytes, which has to need them all. -/
def compactLong (k m : Nat) : Decoder Nat := do
  let bytes ← read m
  let n := leValue bytes
  if 2 ^ 30 ≤ n ∧ 256 ^ (m - 1) ≤ n then pure n else outOfRange k

/-- More bytes follow than the number has. For 32 bits the source calls this out of range. -/
def unexpectedPrefix (k : Nat) : Decoder Nat :=
  if k = 4 then outOfRange k else fail ("unexpected prefix decoding " ++ compactName k)

/-- A compact number of at most `k` bytes; one in a longer form than it needs is refused. -/
def compactNat (k : Nat) : Decoder Nat := do
  let tag ← readByte
  if tag.toNat % 4 = 0 then pure (tag.toNat / 4)
  else if tag.toNat % 4 = 1 then compactWide k 1 (2 ^ 6) tag
  else if tag.toNat % 4 = 2 then compactWide k 3 (2 ^ 14) tag
  else if k < tag.toNat / 4 + 4 then unexpectedPrefix k
  else compactLong k (tag.toNat / 4 + 4)

instance {k : Nat} : Encode (Compact k) := ⟨fun x => compactBytes x.val.1⟩

instance {k : Nat} : Decode (Compact k) := ⟨do
  let n ← compactNat k
  if h : n < 256 ^ k then pure ⟨⟨n, h⟩⟩ else fail ("out of range decoding " ++ compactName k)⟩

theorem leBytes_succ (k n : Nat) : leBytes (k + 1) n = UInt8.ofNat n :: leBytes k (n / 256) := rfl

theorem toNat_ofNat_mod (n : Nat) : (UInt8.ofNat n).toNat = n % 256 := UInt8.toNat_ofNat'

/-- The bytes behind a tag, read back as the number they were cut from. -/
theorem tag_append (k n : Nat) (h : n < 256 ^ (k + 1)) :
    (UInt8.ofNat n).toNat + 256 * leValue (leBytes k (n / 256)) = n := by
  have := leValue_leBytes (k + 1) n
  rw [leBytes_succ, leValue, Nat.mod_eq_of_lt h] at this
  exact this

theorem read_leBytes (k n : Nat) (rest : Bytes) :
    read k (leBytes k n ++ rest) = .ok (leBytes k n, rest) :=
  read_eq_ok.mpr ⟨length_leBytes k n, rfl⟩

theorem compactWide_leBytes (k w low tag n : Nat) (ht : tag < 4) (hlow : low ≤ n)
    (h : n * 4 + tag < 256 ^ (w + 1)) (rest : Bytes) :
    compactWide k w low (UInt8.ofNat (n * 4 + tag)) (leBytes w ((n * 4 + tag) / 256) ++ rest)
      = .ok (n, rest) := by
  have e : (n * 4 + tag) / 4 = n := by omega
  rw [compactWide, bind_of_ok (read_leBytes _ _ _), tag_append w _ h]
  simp only [e, hlow, if_true]
  rfl

theorem compactLong_leBytes (k n : Nat) (h : 2 ^ 30 ≤ n) (rest : Bytes) :
    compactLong k (byteLength n) (leBytes (byteLength n) n ++ rest) = .ok (n, rest) := by
  rw [compactLong, bind_of_ok (read_leBytes _ _ _), leValue_leBytes,
    Nat.mod_eq_of_lt (lt_pow_byteLength n), if_pos ⟨h, pow_byteLength_le (by omega)⟩]
  rfl

theorem compactNat_compactBytes {k n : Nat} (hk : 0 < k) (hk' : k ≤ 67) (h : n < 256 ^ k)
    (rest : Bytes) : compactNat k (compactBytes n ++ rest) = .ok (n, rest) := by
  unfold compactBytes compactNat
  split
  case isTrue h6 =>
    rw [List.singleton_append, bind_of_ok (readByte_cons _ _), toNat_ofNat_mod,
      if_pos (by omega)]
    exact pure_eq_ok.mpr ⟨by omega, rfl⟩
  case isFalse h6 =>
    split
    case isTrue h14 =>
      rw [leBytes_succ, List.cons_append, bind_of_ok (readByte_cons _ _), toNat_ofNat_mod,
        if_neg (by omega), if_pos (by omega)]
      exact compactWide_leBytes k 1 _ 1 n (by omega) (by omega) (by omega) rest
    case isFalse h14 =>
      split
      case isTrue h30 =>
        rw [leBytes_succ, List.cons_append, bind_of_ok (readByte_cons _ _), toNat_ofNat_mod,
          if_neg (by omega), if_neg (by omega), if_pos (by omega)]
        exact compactWide_leBytes k 3 _ 2 n (by omega) (by omega) (by omega) rest
      case isFalse h30 =>
        have hm4 : 4 ≤ byteLength n := four_le_byteLength (by omega)
        have hmk : byteLength n ≤ k := byteLength_le hk h
        have em : ((byteLength n - 4) * 4 + 3) % 256 / 4 + 4 = byteLength n := by omega
        rw [List.cons_append, bind_of_ok (readByte_cons _ _), toNat_ofNat_mod, em,
          if_neg (by omega), if_neg (by omega), if_neg (by omega), if_neg (by omega)]
        exact compactLong_leBytes k n (by omega) rest

theorem ofNat_toNat_add (tag : UInt8) (n : Nat) : UInt8.ofNat (tag.toNat + 256 * n) = tag := by
  have htag := tag.toNat_lt
  apply UInt8.toNat_inj.mp
  rw [toNat_ofNat_mod]
  omega

@[simp] theorem outOfRange_eq_ok {k n : Nat} {b rest : Bytes} :
    outOfRange k b = .ok (n, rest) ↔ False := fail_eq_ok

@[simp] theorem unexpectedPrefix_eq_ok {k n : Nat} {b rest : Bytes} :
    unexpectedPrefix k b = .ok (n, rest) ↔ False := by
  unfold unexpectedPrefix
  split <;> simp

/-- What the wide forms accept is what they write. -/
theorem compactWide_eq_ok {k w low n : Nat} {tag : UInt8} {b rest : Bytes}
    (h : compactWide k w low tag b = .ok (n, rest)) :
    low ≤ n ∧ n * 4 + tag.toNat % 4 < 256 ^ (w + 1) ∧
      tag :: b = leBytes (w + 1) (n * 4 + tag.toNat % 4) ++ rest := by
  rw [compactWide, bind_eq_ok] at h
  obtain ⟨bytes, b1, hread, h⟩ := h
  obtain ⟨rfl, rfl⟩ := read_eq_ok.mp hread
  have htag := tag.toNat_lt
  have hlt := leValue_lt bytes
  split at h
  case isFalse => simp at h
  case isTrue hlow =>
    rw [pure_eq_ok] at h
    obtain ⟨rfl, rfl⟩ := h
    have e : (tag.toNat + 256 * leValue bytes) / 4 * 4 + tag.toNat % 4
        = tag.toNat + 256 * leValue bytes := by omega
    have ediv : (tag.toNat + 256 * leValue bytes) / 256 = leValue bytes := by omega
    refine ⟨hlow, by rw [e, pow_succ]; omega, ?_⟩
    rw [e, leBytes_succ, ofNat_toNat_add, ediv, leBytes_leValue]
    rfl

theorem compactLong_eq_ok {k m n : Nat} {b rest : Bytes} (hm : 0 < m)
    (h : compactLong k m b = .ok (n, rest)) :
    2 ^ 30 ≤ n ∧ byteLength n = m ∧ b = leBytes m n ++ rest := by
  rw [compactLong, bind_eq_ok] at h
  obtain ⟨bytes, b1, hread, h⟩ := h
  obtain ⟨rfl, rfl⟩ := read_eq_ok.mp hread
  have hlt := leValue_lt bytes
  split at h
  case isFalse => simp at h
  case isTrue hlow =>
    rw [pure_eq_ok] at h
    obtain ⟨rfl, rfl⟩ := h
    refine ⟨hlow.1, ?_, by rw [leBytes_leValue]⟩
    have hlen : bytes.length - 1 + 1 = bytes.length := by omega
    rw [byteLength_eq hlow.2 (by rw [hlen]; exact hlt), hlen]

theorem compactBytes_of_compactNat {k n : Nat} {b rest : Bytes}
    (h : compactNat k b = .ok (n, rest)) : b = compactBytes n ++ rest := by
  rw [compactNat, bind_eq_ok] at h
  obtain ⟨tag, b1, hb, h⟩ := h
  rw [readByte_eq_ok] at hb
  subst hb
  have htag := tag.toNat_lt
  split at h
  case isTrue h0 =>
    rw [pure_eq_ok] at h
    obtain ⟨rfl, rfl⟩ := h
    have e : tag.toNat / 4 * 4 = tag.toNat + 256 * 0 := by omega
    rw [compactBytes, if_pos (by omega), e, ofNat_toNat_add]
    rfl
  case isFalse h0 =>
    split at h
    case isTrue h1 =>
      obtain ⟨hlow, hhigh, hb⟩ := compactWide_eq_ok h
      rw [hb, compactBytes, if_neg (by omega), if_pos (by omega), h1]
    case isFalse h1 =>
      split at h
      case isTrue h2 =>
        obtain ⟨hlow, hhigh, hb⟩ := compactWide_eq_ok h
        rw [hb, compactBytes, if_neg (by omega), if_neg (by omega), if_pos (by omega), h2]
      case isFalse h2 =>
        split at h
        case isTrue => simp at h
        case isFalse hk =>
          obtain ⟨hlow, hlen, hb⟩ := compactLong_eq_ok (by omega) h
          have e : (byteLength n - 4) * 4 + 3 = tag.toNat + 256 * 0 := by omega
          rw [compactBytes, if_neg (by omega), if_neg (by omega), if_neg (by omega), e,
            ofNat_toNat_add, hb, hlen]
          rfl

theorem compact_roundTrips {k : Nat} (hk : 0 < k) (hk' : k ≤ 67) : RoundTrips (Compact k) where
  decode_encode x rest := by
    change (compactNat k >>= _) (compactBytes x.val.1 ++ rest) = _
    rw [bind_of_ok (compactNat_compactBytes hk hk' x.val.2 rest), dif_pos x.val.2]
    rfl

instance : RoundTrips (Compact 2) := compact_roundTrips (by norm_num) (by norm_num)
instance : RoundTrips (Compact 4) := compact_roundTrips (by norm_num) (by norm_num)
instance : RoundTrips (Compact 8) := compact_roundTrips (by norm_num) (by norm_num)
instance : RoundTrips (Compact 16) := compact_roundTrips (by norm_num) (by norm_num)

instance {k : Nat} : Canonical (Compact k) where
  encode_decode b rest x h := by
    change (compactNat k >>= _) b = _ at h
    rw [bind_eq_ok] at h
    obtain ⟨n, b1, hn, h⟩ := h
    split at h
    case isTrue hlt =>
      rw [pure_eq_ok] at h
      obtain ⟨rfl, rfl⟩ := h
      exact compactBytes_of_compactNat hn
    case isFalse => simp at h

/-! ## Booleans and options -/

instance : Encode Bool := ⟨fun x => if x then [1] else [0]⟩

instance : Decode Bool := ⟨do
  let tag ← readByte
  if tag = 0 then pure false
  else if tag = 1 then pure true
  else fail "Invalid boolean representation"⟩

instance : RoundTrips Bool := ⟨fun x _ => by cases x <;> rfl⟩

instance : Canonical Bool where
  encode_decode b rest x h := by
    replace h := readByte_bind_eq_ok.mp h
    obtain ⟨tag, b1, rfl, h⟩ := h
    split at h
    case isTrue e =>
      obtain ⟨rfl, rfl⟩ := pure_eq_ok.mp h
      rw [e]; rfl
    case isFalse =>
      split at h
      case isTrue e =>
        obtain ⟨rfl, rfl⟩ := pure_eq_ok.mp h
        rw [e]; rfl
      case isFalse => simp at h

instance : Encode (Option α) := ⟨fun
  | none => [0]
  | some x => 1 :: encode x⟩

instance : Decode (Option α) := ⟨do
  let tag ← readByte
  if tag = 0 then pure none
  else if tag = 1 then some <$> decode
  else fail "unexpected first byte decoding Option"⟩

instance [RoundTrips α] : RoundTrips (Option α) where
  decode_encode x rest := by
    cases x with
    | none => rfl
    | some x => exact map_of_ok (decode_encode x rest)

omit [Encode α] in
/-- What decodes as an option is its tag byte and, for a value, what decodes as that. -/
theorem decode_option_eq_ok {b rest : Bytes} {x : Option α} (h : decode b = .ok (x, rest)) :
    (x = none ∧ b = 0 :: rest) ∨ ∃ y b1, x = some y ∧ b = 1 :: b1 ∧ decode b1 = .ok (y, rest) := by
  replace h := readByte_bind_eq_ok.mp h
  obtain ⟨tag, b1, rfl, h⟩ := h
  split at h
  case isTrue e =>
    obtain ⟨rfl, rfl⟩ := pure_eq_ok.mp h
    exact .inl ⟨rfl, by rw [e]⟩
  case isFalse =>
    split at h
    case isTrue e =>
      obtain ⟨y, hy, rfl⟩ := map_eq_ok.mp h
      exact .inr ⟨y, b1, rfl, by rw [e], hy⟩
    case isFalse => simp at h

instance [Canonical α] : Canonical (Option α) where
  encode_decode b rest x h := by
    obtain ⟨rfl, rfl⟩ | ⟨y, b1, rfl, rfl, hy⟩ := decode_option_eq_ok h
    · rfl
    · rw [encode_decode _ _ _ hy]; rfl

instance [NonGrowing α] : NonGrowing (Option α) where
  length_le b rest x h := by
    obtain ⟨rfl, rfl⟩ | ⟨y, b1, rfl, rfl, hy⟩ := decode_option_eq_ok h
    · simp [encode, Nat.add_comm]
    · have := length_le _ _ _ hy
      simp only [encode, List.length_cons]
      omega

/-! ## Results -/

instance : Encode (Except β α) := ⟨fun
  | .ok x => 0 :: encode x
  | .error e => 1 :: encode e⟩

instance : Decode (Except β α) := ⟨do
  let tag ← readByte
  if tag = 0 then .ok <$> decode
  else if tag = 1 then .error <$> decode
  else fail "unexpected first byte decoding Result"⟩

instance [RoundTrips α] [RoundTrips β] : RoundTrips (Except β α) where
  decode_encode x rest := by
    cases x with
    | ok x => exact map_of_ok (decode_encode x rest)
    | error e => exact map_of_ok (decode_encode e rest)

instance [Canonical α] [Canonical β] : Canonical (Except β α) where
  encode_decode b rest x h := by
    replace h := readByte_bind_eq_ok.mp h
    obtain ⟨tag, b1, rfl, h⟩ := h
    split at h
    case isTrue e =>
      rw [e]
      exact case_of_decode (fun _ => rfl) h
    case isFalse =>
      split at h
      case isTrue e =>
        rw [e]
        exact case_of_decode (fun _ => rfl) h
      case isFalse => simp at h

/-! ## Sequences -/

/-- A sequence short enough for its length to be written as a compact 32-bit number. -/
@[ext] structure Vec (α : Type) where
  items : List α
  length_items : items.length < 256 ^ 4

instance : DecidableEq (Vec UInt8) :=
  fun x y => decidable_of_iff (x.items = y.items) Vec.ext_iff.symm

namespace Vec

def length (v : Vec α) : Uint 4 := ⟨v.items.length, v.length_items⟩

def nil : Vec α := ⟨[], by simp⟩

/-- Nothing, if the length cannot be written. -/
def ofList (items : List α) : Option (Vec α) :=
  if h : items.length < 256 ^ 4 then some ⟨items, h⟩ else none

omit [Encode α] [Decode α] in
theorem ofList_eq_some {items : List α} {v : Vec α} : ofList items = some v ↔ v.items = items := by
  unfold ofList
  split
  case isTrue h => rw [Option.some_inj, Vec.ext_iff, eq_comm]
  case isFalse h =>
    constructor
    · intro hnone
      cases hnone
    · intro heq
      rw [← heq] at h
      exact absurd v.length_items h

def map (f : α → β) (v : Vec α) : Vec β :=
  ⟨v.items.map f, by rw [List.length_map]; exact v.length_items⟩

omit [Encode α] [Decode α] [Encode β] [Decode β] in
theorem map_map_of_leftInverse {f : α → β} {g : β → α} (h : Function.LeftInverse g f) (v : Vec α) :
    (v.map f).map g = v := by
  ext1
  show (v.items.map f).map g = v.items
  rw [List.map_map, h.comp_eq_id, List.map_id]

instance : Inhabited (Vec α) := ⟨nil⟩

end Vec

/-- `n` values one after the other. -/
def decodeList : Nat → Decoder (List α)
  | 0 => pure []
  | n + 1 => do
    let x ← decode
    let xs ← decodeList n
    pure (x :: xs)

theorem decodeList_encode [RoundTrips α] (xs : List α) (rest : Bytes) :
    decodeList xs.length (xs.flatMap encode ++ rest) = .ok (xs, rest) := by
  induction xs with
  | nil => rfl
  | cons x xs ih =>
    rw [List.flatMap_cons, List.append_assoc, List.length_cons, decodeList, bind_encode,
      bind_of_ok ih]
    rfl

omit [Encode α] in
theorem length_decodeList {n : Nat} {b rest : Bytes} {xs : List α}
    (h : decodeList n b = .ok (xs, rest)) : xs.length = n := by
  induction n generalizing b xs with
  | zero => obtain ⟨rfl, -⟩ := pure_eq_ok.mp h; rfl
  | succ n ih =>
    obtain ⟨x, b1, -, h⟩ := bind_eq_ok.mp h
    obtain ⟨ys, b2, h2, h⟩ := bind_eq_ok.mp h
    obtain ⟨rfl, rfl⟩ := pure_eq_ok.mp h
    rw [List.length_cons, ih h2]

theorem encode_decodeList [Canonical α] {n : Nat} {b rest : Bytes} {xs : List α}
    (h : decodeList n b = .ok (xs, rest)) : b = xs.flatMap encode ++ rest := by
  induction n generalizing b xs with
  | zero => obtain ⟨rfl, rfl⟩ := pure_eq_ok.mp h; rfl
  | succ n ih =>
    obtain ⟨x, b1, h1, h⟩ := bind_eq_ok.mp h
    obtain ⟨ys, b2, h2, h⟩ := bind_eq_ok.mp h
    obtain ⟨rfl, rfl⟩ := pure_eq_ok.mp h
    rw [encode_decode _ _ _ h1, ih h2, List.flatMap_cons, List.append_assoc]

omit [Encode α] in
/-- If each value takes at least its size from the input, so does a sequence of them. -/
theorem size_decodeList {size : α → Nat}
    (hsize : ∀ (b rest : Bytes) (x : α), decode b = .ok (x, rest) → size x + rest.length ≤ b.length)
    {n : Nat} {b rest : Bytes} {xs : List α} (h : decodeList n b = .ok (xs, rest)) :
    (xs.map size).sum + rest.length ≤ b.length := by
  induction n generalizing b xs with
  | zero => obtain ⟨rfl, rfl⟩ := pure_eq_ok.mp h; simp
  | succ n ih =>
    obtain ⟨x, b1, h1, h⟩ := bind_eq_ok.mp h
    obtain ⟨ys, b2, h2, h⟩ := bind_eq_ok.mp h
    obtain ⟨rfl, rfl⟩ := pure_eq_ok.mp h
    have e1 := hsize _ _ _ h1
    have e2 := ih h2
    rw [List.map_cons, List.sum_cons]
    omega

theorem length_le_decodeList [NonGrowing α] {n : Nat} {b rest : Bytes} {xs : List α}
    (h : decodeList n b = .ok (xs, rest)) :
    (xs.flatMap encode).length + rest.length ≤ b.length := by
  rw [List.length_flatMap]
  exact size_decodeList length_le h

instance : Encode (Vec α) := ⟨fun v => encode (Compact.mk v.length) ++ v.items.flatMap encode⟩

instance : Decode (Vec α) := ⟨do
  let n : Compact 4 ← decode
  fun b =>
    match h : decodeList n.val.1 b with
    | .ok (xs, rest) => .ok (⟨xs, by rw [length_decodeList h]; exact n.val.2⟩, rest)
    | .error e => .error e⟩

omit [Encode α] in
theorem decode_vec_eq_ok {b rest : Bytes} {v : Vec α} :
    decode b = .ok (v, rest) ↔ ∃ b1, decode b = .ok (Compact.mk v.length, b1) ∧
      decodeList v.items.length b1 = .ok (v.items, rest) := by
  change ((decode : Decoder (Compact 4)) >>= _) b = _ ↔ _
  rw [bind_eq_ok]
  constructor
  · rintro ⟨n, b1, hn, h⟩
    split at h
    case h_1 xs r hxs =>
      cases h
      have hlen := length_decodeList hxs
      have e : n = Compact.mk (Vec.length ⟨xs, by rw [hlen]; exact n.val.2⟩) := by
        cases n
        exact congrArg Compact.mk (Fin.ext hlen.symm)
      refine ⟨b1, e ▸ hn, ?_⟩
      rw [hlen]
      exact hxs
    case h_2 => cases h
  · rintro ⟨b1, hn, h⟩
    refine ⟨_, b1, hn, ?_⟩
    split
    case h_1 xs r hxs =>
      have hxs' : decodeList v.items.length b1 = .ok (xs, r) := hxs
      rw [h] at hxs'
      cases hxs'
      rfl
    case h_2 e he =>
      have he' : decodeList v.items.length b1 = .error e := he
      rw [h] at he'
      cases he'

instance [RoundTrips α] : RoundTrips (Vec α) where
  decode_encode v rest := by
    rw [decode_vec_eq_ok]
    refine ⟨v.items.flatMap encode ++ rest, ?_, decodeList_encode _ _⟩
    change decode ((encode (Compact.mk v.length) ++ v.items.flatMap encode) ++ rest) = _
    rw [List.append_assoc, decode_encode]

instance [Canonical α] : Canonical (Vec α) where
  encode_decode b rest v h := by
    obtain ⟨b1, h1, h2⟩ := decode_vec_eq_ok.mp h
    rw [encode_decode _ _ _ h1, encode_decodeList h2, ← List.append_assoc]
    rfl

instance [NonGrowing α] : NonGrowing (Vec α) where
  length_le b rest v h := by
    obtain ⟨b1, h1, h2⟩ := decode_vec_eq_ok.mp h
    have e1 := length_le _ _ _ h1
    have e2 := length_le_decodeList h2
    change (encode (Compact.mk v.length) ++ v.items.flatMap encode).length + _ ≤ _
    rw [List.length_append]
    omega

end Scale
