/-
  Extrinsics one after the other.

  The decoders read a call up to the end of the input, whatever the length prefix says, and then
  compare the two. So an extrinsic is read from the end of a stream only: with bytes behind it,
  it takes them for its call and the lengths differ (`stream_iff`).
-/
import AvailRust.Core.ExtrinsicFormat

namespace AvailRust

open Scale

/-- Values that take all input, in a stream: only the last one has the input to itself. -/
theorem decodeList_iff_of_takesAll {α : Type} [Encode α] [Decode α] {P : α → Prop}
    (hdecode : ∀ (b rest : Bytes) (x : α),
      decode b = .ok (x, rest) ↔ b = encode x ∧ P x ∧ rest = [])
    (hne : ∀ x : α, encode x ≠ []) (xs : List α) :
    decodeList xs.length (xs.flatMap encode) = .ok (xs, []) ↔ xs.length ≤ 1 ∧ ∀ x ∈ xs, P x := by
  cases xs with
  | nil =>
    have hnil : (decodeList 0 : Decoder (List α)) [] = .ok ([], []) := rfl
    exact ⟨fun _ => ⟨Nat.zero_le 1, by simp⟩, fun _ => hnil⟩
  | cons x xs =>
    rw [List.flatMap_cons, List.length_cons]
    constructor
    · intro h
      obtain ⟨y, b1, hy, h⟩ := bind_eq_ok.mp h
      obtain ⟨ys, b2, hys, h⟩ := bind_eq_ok.mp h
      obtain ⟨heq, rfl⟩ := pure_eq_ok.mp h
      obtain ⟨rfl, rfl⟩ := List.cons_eq_cons.mp heq
      obtain ⟨-, hP, rfl⟩ := (hdecode _ _ _).mp hy
      -- nothing is left for a second value
      have hlast : ys = [] := by
        cases ys with
        | nil => rfl
        | cons z zs =>
          obtain ⟨z', b3, hz, -⟩ := bind_eq_ok.mp hys
          exact absurd ((hdecode _ _ _).mp hz).1.symm (hne z')
      rw [hlast]
      refine ⟨Nat.le_refl 1, ?_⟩
      intro z hz
      rw [List.mem_singleton.mp hz]
      exact hP
    · rintro ⟨hlen, hP⟩
      obtain rfl : xs = [] := List.eq_nil_of_length_eq_zero (by omega)
      have hx : decode (encode x) = .ok (x, []) :=
        (hdecode _ _ _).mpr ⟨rfl, hP x (List.mem_singleton_self x), rfl⟩
      rw [List.flatMap_nil, List.append_nil, decodeList, bind_of_ok hx]
      rfl

theorem lengthPrefixed_ne_nil (inner : Bytes) : lengthPrefixed inner ≠ [] := by
  intro h
  have hcompact := (List.append_eq_nil_iff.mp h).1
  have hdecode := decode_encode
    (Compact.mk (⟨inner.length % 256 ^ 4, Nat.mod_lt _ (by norm_num)⟩ : U32)) []
  rw [hcompact] at hdecode
  cases hdecode

/-- A stream of extrinsics is read back if and only if there is at most one, and it is one that
    the format can write. -/
theorem stream_iff (xs : List EncodedExtrinsic) (gs : List GenericExtrinsic) :
    (decodeList xs.length (xs.flatMap encode) = .ok (xs, []) ↔
      xs.length ≤ 1 ∧ ∀ x ∈ xs, x.WellFormed) ∧
    (decodeList gs.length (gs.flatMap encode) = .ok (gs, []) ↔
      gs.length ≤ 1 ∧ ∀ g ∈ gs, g.toEncoded.WellFormed) := by
  constructor
  · apply decodeList_iff_of_takesAll
    · intro b rest x
      exact EncodedExtrinsic.decode_eq_ok
    · intro x
      exact lengthPrefixed_ne_nil _
  · apply decodeList_iff_of_takesAll
    · intro b rest g
      rw [GenericExtrinsic.decode_eq_ok]
      exact EncodedExtrinsic.decode_eq_ok
    · intro g
      exact lengthPrefixed_ne_nil _

/-- Two remarks without text and without a signature. -/
def twoRemarks : List EncodedExtrinsic := [⟨none, [0, 0, 0]⟩, ⟨none, [0, 0, 0]⟩]

/-- The first of them takes the second for its call. -/
theorem stream_not_twoRemarks :
    (decodeList twoRemarks.length : Decoder (List EncodedExtrinsic)) (twoRemarks.flatMap encode)
      = .error "Invalid length prefix" := by
  rfl

end AvailRust
