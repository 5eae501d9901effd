/-
  Codes that can be cut off the front of a longer text.

  In a prefix-free code no word begins another one, so a text that starts with a word starts with
  one word only, and two codes one behind the other are told apart if the first of them is
  prefix-free (`PrefixFree.pair_inj`). `Headed w` puts `w` letters in front of every word; they may
  depend on the value in any way, since the words behind them already tell the values apart.
-/
import AvailRust.Lib.Scale

namespace PrefixCode

variable {α β σ : Type}

/-- No word of the code is a proper beginning of another one. -/
def PrefixFree (code : α → List σ) : Prop := ∀ x y, code x <+: code y → code x = code y

theorem PrefixFree.append_inj {code : α → List σ} (hfree : PrefixFree code)
    (hinj : Function.Injective code) {x y : α} {r s : List σ} (h : code x ++ r = code y ++ s) :
    x = y ∧ r = s := by
  have hx : code x <+: code x ++ r := List.prefix_append _ _
  have hy : code y <+: code x ++ r := by
    rw [h]
    exact List.prefix_append _ _
  have hwords : code x = code y := by
    rcases List.prefix_or_prefix_of_prefix hx hy with hxy | hyx
    · exact hfree x y hxy
    · exact (hfree y x hyx).symm
  rw [hwords] at h
  exact ⟨hinj hwords, List.append_cancel_left h⟩

/-- Two codes one behind the other. -/
theorem PrefixFree.pair_inj {f : α → List σ} {g : β → List σ} (hfree : PrefixFree f)
    (hf : Function.Injective f) (hg : Function.Injective g) {x x' : α} {y y' : β}
    (h : f x ++ g y = f x' ++ g y') : x = x' ∧ y = y' := by
  obtain ⟨hx, hy⟩ := hfree.append_inj hf h
  exact ⟨hx, hg hy⟩

/-! ## Words behind a header -/

/-- `headed` writes `w` letters and then what `code` writes. -/
def Headed (w : Nat) (code headed : α → List σ) : Prop :=
  ∀ x, ∃ header, header.length = w ∧ headed x = header ++ code x

namespace Headed

variable {w : Nat} {code headed : α → List σ}

theorem drop_append (h : Headed w code headed) (x : α) (r : List σ) :
    (headed x ++ r).drop w = code x ++ r := by
  obtain ⟨header, rfl, heq⟩ := h x
  rw [heq, List.append_assoc, List.drop_left]

theorem injective (h : Headed w code headed) (hinj : Function.Injective code) :
    Function.Injective headed := by
  intro x y hxy
  have hx := h.drop_append x []
  have hy := h.drop_append y []
  rw [List.append_nil, List.append_nil] at hx hy
  apply hinj
  rw [← hx, ← hy, hxy]

theorem prefixFree (h : Headed w code headed) (hinj : Function.Injective code)
    (hfree : PrefixFree code) : PrefixFree headed := by
  rintro x y ⟨r, hr⟩
  have hx := h.drop_append x r
  have hy := h.drop_append y []
  rw [List.append_nil, List.append_nil] at hy
  rw [hr, hy] at hx
  have hbegins : code x <+: code y := ⟨r, hx.symm⟩
  rw [hinj (hfree x y hbegins)]

end Headed

/-! ## Codes that are read back -/

section

open Scale

variable [Encode α] [Decode α] [RoundTrips α]

theorem encode_injective : Function.Injective (encode : α → Bytes) := by
  intro x y h
  have happend : encode x ++ [] = encode y ++ [] := by rw [h]
  exact (encode_append_inj happend).1

theorem encode_prefixFree : PrefixFree (encode : α → Bytes) := by
  rintro x y ⟨r, hr⟩
  have happend : encode x ++ r = encode y ++ [] := by rw [hr, List.append_nil]
  rw [(encode_append_inj happend).1]

end

end PrefixCode
