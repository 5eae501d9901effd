/-
  The contents of batches.

  A batch holds its calls one after the other without their lengths, so a call has to be read up
  to its own end and no further. `decodeList_flatMap` says which lists of calls come back: no
  call but the last is greedy, and every call is one that its own codec reads back. The count is
  a 32-bit number that wraps, so the list has to be shorter than `2 ^ 32` besides.
-/
import AvailRust.Pallets.AsMulti

namespace AvailRust

open Scale

/-! ## Adding and decoding calls -/

namespace Utility.Calls

/-- An empty batch. -/
def new : Calls := ⟨0, []⟩

/-- A call as its bytes; in a release build the count wraps. -/
def add (x : Calls) (value : Bytes) : Calls where
  length := x.length + 1
  calls := x.calls ++ value

def addCall (x : Calls) (value : ExtrinsicCall) : Calls where
  length := x.length + 1
  calls := x.calls ++ encode value

def addCalls (x : Calls) (value : List ExtrinsicCall) : Calls := value.foldl addCall x

/-- Text that is no hexadecimal leaves the batch as it is. -/
def addHex (x : Calls) (value : List Char) : Except String Unit × Calls :=
  match Hex.decode (Hex.trimStartMatches ['0', 'x'] value) with
  | .error e => (.error e, x)
  | .ok decoded => (.ok (), x.add decoded)

/-- The source first takes room for `length` calls (`Vec::with_capacity`); here it always gets
    it. -/
def decodeCalls (x : Calls) : Except String (List RuntimeCall) :=
  if x.length = 0 then .ok [] else
    match (decodeList x.length.1 : Decoder (List RuntimeCall)) x.calls with
    | .error e => .error e
    | .ok (runtimeCalls, calls) =>
      if calls ≠ [] then
        .error "Bytes left in array. Failed to decode Batch call into RuntimeCalls"
      else .ok runtimeCalls

end Utility.Calls

namespace Utility.Tx

namespace Batch

def new : Batch := ⟨Calls.new⟩
def add (x : Batch) (value : Bytes) : Batch := ⟨x.toCalls.add value⟩
def addCall (x : Batch) (value : ExtrinsicCall) : Batch := ⟨x.toCalls.addCall value⟩
def addCalls (x : Batch) (value : List ExtrinsicCall) : Batch := ⟨x.toCalls.addCalls value⟩
def addHex (x : Batch) (value : List Char) : Except String Unit × Batch :=
  ((x.toCalls.addHex value).1, ⟨(x.toCalls.addHex value).2⟩)
def len (x : Batch) : U32 := x.length
def decodeCalls (x : Batch) : Except String (List RuntimeCall) := x.toCalls.decodeCalls

end Batch

namespace BatchAll

def new : BatchAll := ⟨Calls.new⟩
def add (x : BatchAll) (value : Bytes) : BatchAll := ⟨x.toCalls.add value⟩
def addCall (x : BatchAll) (value : ExtrinsicCall) : BatchAll := ⟨x.toCalls.addCall value⟩
def addCalls (x : BatchAll) (value : List ExtrinsicCall) : BatchAll := ⟨x.toCalls.addCalls value⟩
def addHex (x : BatchAll) (value : List Char) : Except String Unit × BatchAll :=
  ((x.toCalls.addHex value).1, ⟨(x.toCalls.addHex value).2⟩)
def len (x : BatchAll) : U32 := x.length
def decodeCalls (x : BatchAll) : Except String (List RuntimeCall) := x.toCalls.decodeCalls

end BatchAll

namespace ForceBatch

def new : ForceBatch := ⟨Calls.new⟩
def add (x : ForceBatch) (value : Bytes) : ForceBatch := ⟨x.toCalls.add value⟩
def addCall (x : ForceBatch) (value : ExtrinsicCall) : ForceBatch := ⟨x.toCalls.addCall value⟩
def addCalls (x : ForceBatch) (value : List ExtrinsicCall) : ForceBatch :=
  ⟨x.toCalls.addCalls value⟩
def addHex (x : ForceBatch) (value : List Char) : Except String Unit × ForceBatch :=
  ((x.toCalls.addHex value).1, ⟨(x.toCalls.addHex value).2⟩)
def len (x : ForceBatch) : U32 := x.length
def decodeCalls (x : ForceBatch) : Except String (List RuntimeCall) := x.toCalls.decodeCalls

end ForceBatch

end Utility.Tx

namespace RuntimeCall

/-- The ids and data of a call. -/
def toExtrinsicCall (call : RuntimeCall) : ExtrinsicCall where
  palletId := call.header.1
  variantId := call.header.2
  data := encode call

theorem encode_toExtrinsicCall (call : RuntimeCall) : encode call.toExtrinsicCall = call.toCall :=
  (toCall_eq_cons call).symm

/-! ## Which calls come back -/

/-- What `UpdateRoles` decodes to itself leaves no role as it is. -/
theorem readable_of_updateRoles {x : NominationPools.Tx.UpdateRoles} {b rest : Bytes}
    (h : decode (encode x ++ b) = .ok (x, rest)) :
    (nominationPoolsUpdateRoles x).readable = true := by
  obtain ⟨b1, hpool, hroles⟩ := decode_pair_eq_ok (Fields.decode_encode_eq_ok h)
  rw [decode_encode] at hpool
  cases hpool
  obtain ⟨b2, h1, hothers⟩ := decode_pair_eq_ok hroles
  obtain ⟨hroot, rfl⟩ := NominationPools.ConfigOpAccount.decode_encode_eq_ok.mp h1
  obtain ⟨b3, h2, h3⟩ := decode_pair_eq_ok hothers
  obtain ⟨hnominator, rfl⟩ := NominationPools.ConfigOpAccount.decode_encode_eq_ok.mp h2
  obtain ⟨hbouncer, -⟩ := NominationPools.ConfigOpAccount.decode_encode_eq_ok.mp h3
  exact decide_eq_true ⟨hroot, hnominator, hbouncer⟩

/-- The call behind a header that decodes to a call of its type. -/
theorem decode_of_asMulti {x : Multisig.Tx.AsMulti} {b rest : Bytes}
    (h : decode ((multisigAsMulti x).toCall ++ b) = .ok (multisigAsMulti x, rest)) :
    decode (encode x ++ b) = .ok (x, rest) := by
  rw [decode_eq] at h
  change (toRuntimeCall <$> (decode : Decoder Multisig.Tx.AsMulti)) (encode x ++ b) = _ at h
  obtain ⟨y, hy, heq⟩ := map_eq_ok.mp h
  cases heq
  exact hy

/-- A call that decodes to itself and leaves what stood behind it is readable. -/
theorem readable_of_decode {call : RuntimeCall} {b rest : Bytes}
    (h : decode (call.toCall ++ b) = .ok (call, rest)) (hlen : b.length < rest.length + 2) :
    call.readable = true := by
  cases call with
  | multisigAsMulti x =>
    have hle := Multisig.Tx.AsMulti.length_rest (decode_of_asMulti h)
    omega
  | nominationPoolsUpdateRoles x =>
    rw [toCall, decode_arm rfl, map_eq_ok] at h
    obtain ⟨y, hy, heq⟩ := h
    cases heq
    exact readable_of_updateRoles hy
  | _ x => rfl

theorem length_toCall (call : RuntimeCall) : call.toCall.length = (encode call).length + 2 := by
  rw [toCall_eq_cons, List.length_cons, List.length_cons]

/-- A list of calls takes at least the bytes that its calls have. -/
theorem length_flatMap_toCall {n : Nat} {b rest : Bytes} {calls : List RuntimeCall}
    (h : decodeList n b = .ok (calls, rest)) :
    (calls.flatMap toCall).length + rest.length ≤ b.length := by
  rw [List.length_flatMap]
  refine size_decodeList (fun b rest call hcall => ?_) h
  rw [length_toCall]
  exact length_decode hcall

/-- The lists of calls that come back from their bytes: every call is readable, and only the
    last may take everything behind it. -/
structure Separable (calls : List RuntimeCall) : Prop where
  readable : ∀ call ∈ calls, call.readable = true
  ends : ∀ call ∈ calls.dropLast, call.isGreedy = false

theorem decodeList_flatMap {calls : List RuntimeCall} (h : Separable calls) :
    decodeList calls.length (calls.flatMap toCall) = .ok (calls, []) := by
  induction calls with
  | nil => rfl
  | cons call calls ih =>
    rw [List.flatMap_cons, List.length_cons, decodeList]
    have hreadable := h.readable call (List.mem_cons_self ..)
    have hfirst : decode (call.toCall ++ calls.flatMap toCall)
        = .ok (call, calls.flatMap toCall) := by
      cases calls with
      | nil =>
        rw [List.flatMap_nil, List.append_nil]
        exact decode_toCall hreadable
      | cons next calls => exact decode_toCall_append (h.ends call (by simp)) hreadable _
    rw [bind_of_ok hfirst, bind_of_ok (ih ?_)]
    · rfl
    · refine ⟨fun other hother => h.readable other (List.mem_cons_of_mem _ hother), ?_⟩
      intro other hother
      cases calls with
      | nil => simp at hother
      | cons next calls => exact h.ends other (by simp [hother])

/-- Only separable lists come back: behind a greedy call nothing is left for the others, and an
    `AsMulti` leaves too little for them. -/
theorem separable_of_decodeList {calls : List RuntimeCall} {rest : Bytes}
    (h : decodeList calls.length (calls.flatMap toCall) = .ok (calls, rest)) : Separable calls := by
  induction calls with
  | nil => exact ⟨by simp, by simp⟩
  | cons call calls ih =>
    rw [List.flatMap_cons, List.length_cons, decodeList] at h
    obtain ⟨first, b1, hfirst, h⟩ := bind_eq_ok.mp h
    obtain ⟨others, b2, hothers, h⟩ := bind_eq_ok.mp h
    obtain ⟨heq, rfl⟩ := pure_eq_ok.mp h
    cases heq
    have hlen := length_flatMap_toCall hothers
    have hreadable : call.readable = true := readable_of_decode hfirst (by omega)
    cases hgreedy : call.isGreedy with
    | true =>
      -- nothing is left to read the other calls from, so there are none
      have hb1 := rest_of_greedy hgreedy hfirst
      subst hb1
      cases calls with
      | nil => exact ⟨by simpa using hreadable, by simp⟩
      | cons next calls =>
        rw [List.flatMap_cons, List.length_append, List.length_nil] at hlen
        have := two_le_length_toCall next
        omega
    | false =>
      rw [decode_toCall_append hgreedy hreadable] at hfirst
      cases hfirst
      have hcalls := ih hothers
      constructor
      · intro other hother
        rcases List.mem_cons.mp hother with rfl | hother
        · exact hreadable
        · exact hcalls.readable other hother
      · intro other hother
        cases calls with
        | nil => simp at hother
        | cons next calls =>
          rw [List.dropLast_cons_cons] at hother
          rcases List.mem_cons.mp hother with rfl | hother
          · exact hgreedy
          · exact hcalls.ends other hother

end RuntimeCall

/-! ## The three batch calls -/

namespace Utility

open RuntimeCall

theorem Calls.calls_addCalls (x : Calls) (calls : List RuntimeCall) :
    (x.addCalls (calls.map toExtrinsicCall)).calls
      = x.calls ++ calls.flatMap RuntimeCall.toCall := by
  induction calls generalizing x with
  | nil => exact (List.append_nil _).symm
  | cons call calls ih =>
    change ((x.addCall call.toExtrinsicCall).addCalls (calls.map toExtrinsicCall)).calls = _
    rw [ih, addCall, encode_toExtrinsicCall, List.flatMap_cons, List.append_assoc]

/-- The count of a batch, cut to 32 bits. -/
theorem Calls.length_addCalls (x : Calls) (value : List ExtrinsicCall) :
    (x.addCalls value).length.1 = (x.length.1 + value.length) % 2 ^ 32 := by
  induction value generalizing x with
  | nil => exact (Nat.mod_eq_of_lt x.length.2).symm
  | cons call value ih =>
    change ((x.addCall call).addCalls value).length.1 = _
    rw [ih, List.length_cons]
    have hone : (x.addCall call).length.1 = (x.length.1 + 1) % 2 ^ 32 := rfl
    omega

/-- The calls that a batch gives back are the calls that were added, exactly for short lists of
    calls that can be told apart. -/
theorem Calls.decodeCalls_addCalls (calls : List RuntimeCall) :
    (new.addCalls (calls.map toExtrinsicCall)).decodeCalls = .ok calls ↔
      calls.length < 2 ^ 32 ∧ Separable calls := by
  have hlength := length_addCalls new (calls.map toExtrinsicCall)
  have hcalls := calls_addCalls new calls
  have hnew : new.length.1 = 0 := rfl
  rw [hnew, List.length_map, Nat.zero_add] at hlength
  rw [show new.calls = [] from rfl, List.nil_append] at hcalls
  unfold decodeCalls
  split
  case isTrue hzero =>
    rw [hzero] at hlength
    constructor
    · intro h
      cases h
      exact ⟨by simp, by simp, by simp⟩
    · rintro ⟨hlt, -⟩
      rw [Nat.mod_eq_of_lt hlt] at hlength
      rw [List.eq_nil_of_length_eq_zero hlength.symm]
  case isFalse hpos =>
    rw [hlength, hcalls]
    constructor
    · intro h
      rcases hdecode : (decodeList (calls.length % 2 ^ 32) : Decoder (List RuntimeCall))
        (calls.flatMap RuntimeCall.toCall) with e | ⟨decoded, left⟩
      · simp only [hdecode, reduceCtorEq] at h
      · simp only [hdecode] at h
        split at h
        case isTrue => cases h
        case isFalse =>
          cases h
          -- as many calls come back as the count says, so it did not wrap
          have hcount := length_decodeList hdecode
          have hlt : calls.length < 2 ^ 32 := by omega
          rw [← hcount] at hdecode
          exact ⟨hlt, separable_of_decodeList hdecode⟩
    · rintro ⟨hlt, hseparable⟩
      rw [Nat.mod_eq_of_lt hlt, decodeList_flatMap hseparable]
      rfl

namespace Tx

/-- Passing a batch through its bytes changes nothing, for all three batch calls; so the calls
    come back exactly for short lists of calls that can be told apart. -/
theorem decodeCalls_iff (calls : List RuntimeCall) :
    (((fromCall Batch (toCall (Batch.new.addCalls (calls.map toExtrinsicCall)))
        >>= Batch.decodeCalls) = .ok calls) ↔ calls.length < 2 ^ 32 ∧ Separable calls) ∧
      (((fromCall BatchAll (toCall (BatchAll.new.addCalls (calls.map toExtrinsicCall)))
        >>= BatchAll.decodeCalls) = .ok calls) ↔ calls.length < 2 ^ 32 ∧ Separable calls) ∧
      (((fromCall ForceBatch (toCall (ForceBatch.new.addCalls (calls.map toExtrinsicCall)))
        >>= ForceBatch.decodeCalls) = .ok calls) ↔ calls.length < 2 ^ 32 ∧ Separable calls) := by
  have hbatch : ∀ x : Batch, ReadsAlone x := fun x => Fields.readsAlone (calls_readsAlone _)
  have hbatchAll : ∀ x : BatchAll, ReadsAlone x := fun x => Fields.readsAlone (calls_readsAlone _)
  have hforce : ∀ x : ForceBatch, ReadsAlone x := fun x => Fields.readsAlone (calls_readsAlone _)
  have hcalls := Calls.decodeCalls_addCalls calls
  refine ⟨?_, ?_, ?_⟩
  · rw [fromCall_toCall, hbatch]
    exact hcalls
  · rw [fromCall_toCall, hbatchAll]
    exact hcalls
  · rw [fromCall_toCall, hforce]
    exact hcalls

/-- A nested batch takes the call behind it for its own. -/
theorem decodeCalls_nested :
    (fromCall Batch (toCall (Batch.new.addCalls
        ([utilityBatch Batch.new, stakingChill {}].map toExtrinsicCall))) >>= Batch.decodeCalls)
      = .error "Not enough data to fill buffer" := by
  rfl

end Tx

end Utility

end AvailRust
