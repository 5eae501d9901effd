/-
  Decoders that know where to stop.

  `Delimits d`: what `d` reads either reaches the end of the input, or ends at a place that
  does not depend on the bytes behind it. Every codec that is canonical and round-trips
  delimits, and so does one that takes all input; sequencing keeps it (`DelimitsAt.bind`),
  since what reaches the end leaves nothing for the next decoder.

  `TakesAll` is the other extreme: all input is read, whatever it is followed by.

  `Segments` is what a list of values is cut from: one segment a value, each of which decodes
  alone to its value. `decodeList_segments`: a counted list that uses up its input is such a cut.
-/
import AvailRust.Lib.Scale

namespace Scale

variable {α β γ : Type}

/-- What `d` reads from `b` reaches the end of `b`, or stops where it would stop with anything
    else behind it. -/
def DelimitsAt (d : Decoder α) (b : Bytes) : Prop :=
  ∀ x rest, d b = .ok (x, rest) →
    rest = [] ∨ ∃ seg, b = seg ++ rest ∧ ∀ r, d (seg ++ r) = .ok (x, r)

def Delimits (d : Decoder α) : Prop := ∀ b, DelimitsAt d b

theorem DelimitsAt.length_le {d : Decoder α} {b rest : Bytes} {x : α} (hd : DelimitsAt d b)
    (h : d b = .ok (x, rest)) : rest.length ≤ b.length := by
  rcases hd x rest h with rfl | ⟨seg, rfl, -⟩
  · exact Nat.zero_le _
  · rw [List.length_append]
    omega

/-- The bytes that were read, which decode alone to the same value. -/
theorem DelimitsAt.segment {d : Decoder α} {b rest : Bytes} {x : α} (hd : DelimitsAt d b)
    (h : d b = .ok (x, rest)) : ∃ seg, b = seg ++ rest ∧ d seg = .ok (x, []) := by
  rcases hd x rest h with rfl | ⟨seg, rfl, hseg⟩
  · exact ⟨b, (List.append_nil b).symm, h⟩
  · have halone := hseg []
    rw [List.append_nil] at halone
    exact ⟨seg, rfl, halone⟩

/-! ## The combinators -/

theorem Delimits.pure (x : α) : Delimits (Pure.pure x : Decoder α) := by
  intro b y rest h
  obtain ⟨rfl, rfl⟩ := pure_eq_ok.mp h
  exact .inr ⟨[], rfl, fun r => rfl⟩

theorem Delimits.fail (message : String) : Delimits (Scale.fail message : Decoder α) := by
  intro b y rest h
  rw [fail_eq_ok] at h
  exact h.elim

/-- The second decoder starts behind the first, so it has no more input than that had. -/
theorem DelimitsAt.bind {d : Decoder α} {f : α → Decoder β} {b : Bytes} (hd : DelimitsAt d b)
    (hf : ∀ x b1, d b = .ok (x, b1) → b1.length ≤ b.length → DelimitsAt (f x) b1) :
    DelimitsAt (d >>= f) b := by
  intro y rest h
  obtain ⟨x, b1, hx, hy⟩ := bind_eq_ok.mp h
  rcases hf x b1 hx (hd.length_le hx) y rest hy with rfl | ⟨seg2, rfl, hseg2⟩
  · exact .inl rfl
  · rcases hd x _ hx with hnil | ⟨seg1, rfl, hseg1⟩
    · exact .inl (List.append_eq_nil_iff.mp hnil).2
    · refine .inr ⟨seg1 ++ seg2, (List.append_assoc seg1 seg2 rest).symm, fun r => ?_⟩
      rw [List.append_assoc, bind_of_ok (hseg1 _)]
      exact hseg2 r

theorem DelimitsAt.map {d : Decoder α} {b : Bytes} (f : α → β) (hd : DelimitsAt d b) :
    DelimitsAt (f <$> d) b := by
  intro y rest h
  obtain ⟨x, hx, rfl⟩ := map_eq_ok.mp h
  rcases hd x rest hx with rfl | ⟨seg, rfl, hseg⟩
  · exact .inl rfl
  · exact .inr ⟨seg, rfl, fun r => map_of_ok (hseg r)⟩

theorem readByte_delimits : Delimits readByte := by
  intro b x rest h
  obtain rfl := readByte_eq_ok.mp h
  exact .inr ⟨[x], rfl, fun r => rfl⟩

theorem readAll_delimits : Delimits readAll := by
  intro b x rest h
  exact .inl (readAll_eq_ok.mp h).2

/-! ## Types whose decoder delimits -/

/-- The type's decoder delimits. -/
class Delimited (α : Type) [Decode α] : Prop where
  delimits : Delimits (decode : Decoder α)

export Delimited (delimits)

section

variable [Encode α] [Decode α] [Encode β] [Decode β]

instance (priority := low) Delimited.ofRoundTrips [RoundTrips α] [Canonical α] : Delimited α where
  delimits b x rest h := .inr ⟨encode x, encode_decode b rest x h, decode_encode x⟩

omit [Encode α] [Encode β] in
/-- The parts of a pair one after the other. -/
theorem decode_pair_delimits [Delimited α] [Delimited β] :
    Delimits (decode : Decoder (α × β)) := by
  rw [decode_pair]
  intro b
  refine (delimits b).bind fun x b1 _ _ => ?_
  refine (delimits b1).bind fun y b2 _ _ => ?_
  exact Delimits.pure (x, y) b2

instance (priority := low) [Delimited α] [Delimited β] : Delimited (α × β) :=
  ⟨decode_pair_delimits⟩

/-- A record delimits if the product of its fields does. -/
theorem Fields.delimits {T P : Type} [Encode T] [Decode T] [Encode P] [Decode P] [Fields T P]
    [Delimited P] : Delimits (decode : Decoder T) := by
  rw [Fields.decode_eq]
  intro b
  exact (Delimited.delimits b).map _

end

/-! ## Types that take all input -/

/-- The type's values end with bytes that are read up to the end of the input. -/
class TakesAll (α : Type) [Encode α] [Decode α] : Prop where
  decode_iff : ∀ (b rest : Bytes) (x : α), decode b = .ok (x, rest) ↔ b = encode x ∧ rest = []

export TakesAll (decode_iff)

section

variable [Encode α] [Decode α] [Encode β] [Decode β]

/-- The last part of a pair decides. -/
instance [RoundTrips α] [Canonical α] [TakesAll β] : TakesAll (α × β) where
  decode_iff b rest p := by
    rw [decode_pair, bind_eq_ok]
    constructor
    · rintro ⟨x, b1, hx, h⟩
      obtain ⟨y, b2, hy, h⟩ := bind_eq_ok.mp h
      obtain ⟨rfl, rfl⟩ := pure_eq_ok.mp h
      obtain ⟨rfl, rfl⟩ := (decode_iff _ _ _).mp hy
      exact ⟨encode_decode _ _ _ hx, rfl⟩
    · rintro ⟨rfl, rfl⟩
      refine ⟨p.1, encode p.2, decode_encode p.1 (encode p.2), ?_⟩
      rw [bind_of_ok ((decode_iff _ _ _).mpr ⟨rfl, rfl⟩)]
      rfl

instance (priority := low) Fields.takesAll {T P : Type} [Encode T] [Decode T] [Encode P] [Decode P]
    [Fields T P] [TakesAll P] : TakesAll T where
  decode_iff b rest x := by
    rw [Fields.decode_eq, Fields.encode_eq, map_eq_ok]
    constructor
    · rintro ⟨p, hp, rfl⟩
      rw [Fields.toFields_ofFields]
      exact (decode_iff _ _ _).mp hp
    · intro h
      exact ⟨Fields.toFields x, (decode_iff _ _ _).mpr h, Fields.ofFields_toFields x⟩

end

/-! ## Lists -/

/-- `segs` cut `b` into pieces that decode, each alone, to the values `xs`. -/
structure Segments [Decode α] (segs : List Bytes) (b : Bytes) (xs : List α) : Prop where
  flatten : segs.flatten = b
  decodes : List.Forall₂ (fun seg x => decode seg = .ok (x, [])) segs xs

theorem decodeList_segments [Decode α] [Delimited α] {n : Nat} {b : Bytes} {xs : List α}
    (h : decodeList n b = .ok (xs, [])) : ∃ segs, segs.length = n ∧ Segments segs b xs := by
  induction n generalizing b xs with
  | zero =>
    obtain ⟨rfl, rfl⟩ := pure_eq_ok.mp h
    exact ⟨[], rfl, rfl, .nil⟩
  | succ n ih =>
    obtain ⟨x, b1, hx, h⟩ := bind_eq_ok.mp h
    obtain ⟨ys, b2, hys, h⟩ := bind_eq_ok.mp h
    obtain ⟨rfl, rfl⟩ := pure_eq_ok.mp h
    obtain ⟨seg, rfl, hseg⟩ := (delimits b).segment hx
    obtain ⟨segs, hlen, hflatten, hdecodes⟩ := ih hys
    refine ⟨seg :: segs, ?_, ?_, .cons hseg hdecodes⟩
    · rw [List.length_cons, hlen]
    · rw [List.flatten_cons, hflatten]

end Scale
