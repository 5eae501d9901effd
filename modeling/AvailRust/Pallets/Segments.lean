/-
  What the calls of a batch are cut from.

  A batch keeps a count and bytes that need not fit each other. Every decoder of a call
  delimits (`decode_delimits`), the two that are not canonical included, so calls that use up the
  bytes of a batch are cut from them one after the other. `decode_calls` looks at no byte when
  the count is 0; with bytes behind a count of 0 it returns no calls and leaves them unread.
-/
import AvailRust.Lib.Delimit
import AvailRust.Pallets.Batch

namespace AvailRust

open Scale

/-! ## The codecs of calls delimit -/

instance : Delimited ExtrinsicCall where
  delimits _ _ _ h := .inl (ExtrinsicCall.decode_eq_ok.mp h).2

instance : Delimited Utility.Calls where
  delimits b := by
    change DelimitsAt (decode >>= _) b
    refine (delimits b).bind fun length b1 _ _ => ?_
    refine (readAll_delimits b1).bind fun calls b2 _ _ => ?_
    exact Delimits.pure _ b2

instance : Delimited NominationPools.ConfigOpAccount where
  delimits b := by
    change DelimitsAt (readByte >>= _) b
    refine (readByte_delimits b).bind fun variant b1 _ _ => ?_
    split_ifs
    · exact Delimits.pure _ b1
    · exact (delimits b1).map _
    · exact Delimits.pure _ b1
    · exact Delimits.fail _ b1

instance (priority := low) {T P : Type} [Encode P] [Decode P] [Record T P] [Delimited P] :
    Delimited T := ⟨Fields.delimits⟩

namespace RuntimeCall

/-- What the arm decodes is delimited if what its decoder of `AsMulti` decodes is. -/
def Arm.Delimits (arm : Arm) : Prop :=
  ∀ (d : Decoder Multisig.Tx.AsMulti) (b : Bytes), DelimitsAt d b → DelimitsAt (arm.decode d) b

theorem arm_delimits {T : Type} [HasHeader T] [Encode T] [Decode T] [NonGrowing T]
    [IsRuntimeCall T] [Delimited T] : (arm T).Delimits :=
  fun _ b _ => (delimits b).map toRuntimeCall

theorem asMultiArm_delimits : asMultiArm.Delimits := fun _ _ hd => hd.map toRuntimeCall

theorem arms_delimit : ∀ arm ∈ arms, arm.Delimits := by
  simp only [arms, List.forall_mem_cons]
  and_intros
  all_goals first | exact arm_delimits | exact asMultiArm_delimits | simp

theorem branch_delimits (header : UInt8 × UInt8) {d : Decoder Multisig.Tx.AsMulti} {b : Bytes}
    (hd : DelimitsAt d b) : DelimitsAt (branch header d) b := by
  unfold branch
  rcases harm : arms.find? (fun arm => arm.header = header) with _ | arm
  · simp only [harm]
    exact Delimits.fail _ b
  · simp only [harm]
    exact arms_delimit arm (List.mem_of_find?_eq_some harm) d b hd

/-- The ids are read first, so the decoder of `AsMulti` gets less than the input. -/
theorem dispatch_delimits {d : Decoder Multisig.Tx.AsMulti} {b : Bytes}
    (hd : ∀ b1, b1.length < b.length → DelimitsAt d b1) : DelimitsAt (dispatch d) b := by
  refine (readByte_delimits b).bind fun palletId b1 hpallet _ => ?_
  refine (readByte_delimits b1).bind fun variantId b2 _ hle => ?_
  have hlt : b1.length < b.length := by
    rw [readByte_eq_ok.mp hpallet, List.length_cons]
    omega
  exact branch_delimits _ (hd b2 (by omega))

theorem decodeWith_delimits {r : Decoder RuntimeCall} {b : Bytes}
    (hr : ∀ b1, b1.length ≤ b.length → DelimitsAt r b1) :
    DelimitsAt (Multisig.Tx.AsMulti.decodeWith r) b := by
  unfold Multisig.Tx.AsMulti.decodeWith
  refine (delimits b).bind fun threshold b1 _ h1 => ?_
  refine (delimits b1).bind fun otherSignatories b2 _ h2 => ?_
  refine (delimits b2).bind fun maybeTimepoint b3 _ h3 => ?_
  refine (hr b3 (h3.trans (h2.trans h1))).bind fun call b4 _ _ => ?_
  refine (delimits b4).bind fun maxWeight b5 _ _ => ?_
  rcases (decode : Decoder ExtrinsicCall) (encode call) with e | ⟨again, left⟩
  · exact Delimits.fail e b5
  · exact Delimits.pure _ b5

/-- By induction on the input, since the decoders of runtime calls and of `AsMulti` call each
    other. -/
theorem decode_delimits (b : Bytes) : DelimitsAt (decode : Decoder RuntimeCall) b := by
  induction hn : b.length using Nat.strong_induction_on generalizing b with
  | _ n ih =>
    subst hn
    have heq : (decode : Decoder RuntimeCall) = dispatch decode := funext decode_eq
    rw [heq]
    refine dispatch_delimits fun b1 h1 => ?_
    refine decodeWith_delimits fun b2 h2 => ?_
    exact ih b2.length (h2.trans_lt h1) b2 rfl

instance : Delimited RuntimeCall := ⟨decode_delimits⟩

end RuntimeCall

/-! ## The calls of a batch -/

namespace Utility

/-- The calls are what the bytes are cut into, as many as the count says. -/
def Calls.Exact (x : Calls) (calls : List RuntimeCall) : Prop :=
  ∃ segs, segs.length = x.length.1 ∧ Segments segs x.calls calls

theorem Calls.exact_of_decodeList {x : Calls} {calls : List RuntimeCall}
    (h : decodeList x.length.1 x.calls = .ok (calls, [])) : x.Exact calls :=
  decodeList_segments h

/-- `decode_calls` returns the calls that the bytes are cut into, or fails, exactly when no bytes
    stand behind a count of 0. -/
theorem Calls.decodeCalls_exact_iff (x : Calls) :
    (∀ calls, x.decodeCalls = .ok calls → x.Exact calls) ↔ (x.length = 0 → x.calls = []) := by
  constructor
  · intro h hzero
    have hempty : x.decodeCalls = .ok [] := if_pos hzero
    obtain ⟨segs, hlen, hflatten, -⟩ := h [] hempty
    rw [hzero] at hlen
    rw [← hflatten, List.eq_nil_of_length_eq_zero hlen]
    rfl
  · intro hbytes calls h
    unfold decodeCalls at h
    split at h
    case isTrue hzero =>
      cases h
      refine ⟨[], ?_, (hbytes hzero).symm, .nil⟩
      rw [hzero]
      rfl
    case isFalse hpos =>
      rcases hdecode : (decodeList x.length.1 : Decoder (List RuntimeCall)) x.calls
        with e | ⟨decoded, left⟩
      · simp only [hdecode, reduceCtorEq] at h
      · simp only [hdecode] at h
        split at h
        case isTrue => cases h
        case isFalse hleft =>
          cases h
          rw [not_ne_iff.mp hleft] at hdecode
          exact exact_of_decodeList hdecode

namespace Tx

/-- The same for all three batch calls, whatever count and bytes were decoded. -/
theorem decodeCalls_exact (x : Batch) (y : BatchAll) (z : ForceBatch) :
    ((∀ calls, x.decodeCalls = .ok calls → x.Exact calls) ↔ (x.length = 0 → x.calls = [])) ∧
      ((∀ calls, y.decodeCalls = .ok calls → y.Exact calls) ↔ (y.length = 0 → y.calls = [])) ∧
      ((∀ calls, z.decodeCalls = .ok calls → z.Exact calls) ↔ (z.length = 0 → z.calls = [])) :=
  ⟨Calls.decodeCalls_exact_iff x.toCalls, Calls.decodeCalls_exact_iff y.toCalls,
    Calls.decodeCalls_exact_iff z.toCalls⟩

/-- One byte behind a count of 0 is decoded, and lost. -/
theorem decodeCalls_leftover :
    ∃ x : Batch, decode ([0, 255] : Bytes) = .ok (x, []) ∧ x.decodeCalls = .ok [] ∧
      ¬ x.Exact [] := by
  refine ⟨⟨0, [255]⟩, rfl, rfl, ?_⟩
  rintro ⟨segs, hlen, hflatten, -⟩
  rw [List.eq_nil_of_length_eq_zero hlen] at hflatten
  cases hflatten

end Tx

end Utility

end AvailRust
