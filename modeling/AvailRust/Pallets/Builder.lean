/-
  Building a batch.

  A batch is built by adding calls in four ways, one of which can fail. `Holds x items` is the
  invariant: the count is the number of the items added and the bytes are the items one after
  the other. Every way of adding keeps it (`Holds.apply`), so after any of them the batch is
  encoded as the vector of its items is.
-/
import AvailRust.Pallets.Batch

namespace AvailRust.Utility

open Scale

/-- One use of a batch by its owner. -/
inductive Op where
  | addCall (value : ExtrinsicCall)
  | addCalls (value : List ExtrinsicCall)
  | add (value : Bytes)
  | addHex (value : List Char)

/-- The calls, as their bytes, that an operation adds. -/
def Op.added : Op → List Bytes
  | .addCall value => [encode value]
  | .addCalls value => value.map encode
  | .add value => [value]
  | .addHex value =>
    match Hex.decode (Hex.trimStartMatches ['0', 'x'] value) with
    | .error _ => []
    | .ok decoded => [decoded]

/-- The calls that a list of operations adds. -/
def added (ops : List Op) : List Bytes := ops.flatMap Op.added

namespace Calls

variable {x : Calls} {items : List Bytes}

def apply (x : Calls) : Op → Calls
  | .addCall value => x.addCall value
  | .addCalls value => x.addCalls value
  | .add value => x.add value
  | .addHex value => (x.addHex value).2

/-- The batch counts and holds the items. -/
structure Holds (x : Calls) (items : List Bytes) : Prop where
  length : x.length.1 = items.length % 2 ^ 32
  calls : x.calls = items.flatten

theorem new_holds : new.Holds [] := ⟨rfl, rfl⟩

theorem Holds.add (h : x.Holds items) (value : Bytes) : (x.add value).Holds (items ++ [value]) := by
  constructor
  · have hone : (x.add value).length.1 = (x.length.1 + 1) % 2 ^ 32 := rfl
    rw [hone, h.length, List.length_append, List.length_singleton]
    omega
  · show x.calls ++ value = _
    rw [h.calls, List.flatten_append, List.flatten_singleton]

theorem Holds.addCalls (h : x.Holds items) (value : List ExtrinsicCall) :
    (x.addCalls value).Holds (items ++ value.map encode) := by
  induction value generalizing x items with
  | nil =>
    rw [List.map_nil, List.append_nil]
    exact h
  | cons call value ih =>
    have hcall : (x.addCall call).Holds (items ++ [encode call]) := h.add (encode call)
    have hrest := ih hcall
    rw [List.append_assoc, List.singleton_append] at hrest
    exact hrest

theorem Holds.apply (h : x.Holds items) (op : Op) : (x.apply op).Holds (items ++ op.added) := by
  cases op with
  | addCall value => exact h.add (encode value)
  | addCalls value => exact h.addCalls value
  | add value => exact h.add value
  | addHex value =>
    show (x.addHex value).2.Holds _
    rcases hdecode : Hex.decode (Hex.trimStartMatches ['0', 'x'] value) with e | decoded
    · simp only [Calls.addHex, Op.added, hdecode, List.append_nil]
      exact h
    · simp only [Calls.addHex, Op.added, hdecode]
      exact h.add decoded

theorem Holds.run (h : x.Holds items) (ops : List Op) :
    (ops.foldl Calls.apply x).Holds (items ++ added ops) := by
  induction ops generalizing x items with
  | nil =>
    show x.Holds (items ++ [])
    rw [List.append_nil]
    exact h
  | cons op ops ih =>
    have hrest := ih (h.apply op)
    rw [List.append_assoc] at hrest
    exact hrest

/-- With a count that did not wrap, the encoding is that of the vector of the items. -/
theorem Holds.encode_eq (h : x.Holds items) {C : Type} [Encode C] {v : Vec C}
    (hv : v.items.map encode = items) : encode x = encode v := by
  have hlen : v.items.length = items.length := by rw [← hv, List.length_map]
  have hlt : items.length < 2 ^ 32 := by rw [← hlen]; exact v.length_items
  have hcount : x.length = v.length := by
    apply Fin.ext
    show x.length.1 = v.items.length
    rw [h.length, hlen, Nat.mod_eq_of_lt hlt]
  show encode (Compact.mk x.length) ++ x.calls = encode (Compact.mk v.length) ++ _
  rw [hcount, h.calls, ← hv, ← List.flatMap_def]

/-- What fails changes nothing. -/
theorem addHex_of_error {value : List Char} {e : String} (h : (x.addHex value).1 = .error e) :
    (x.addHex value).2 = x := by
  unfold addHex at h ⊢
  rcases hdecode : Hex.decode (Hex.trimStartMatches ['0', 'x'] value) with e' | decoded
  · rfl
  · simp only [hdecode, reduceCtorEq] at h

end Calls

/-! ## The three batch types -/

/-- What is to hold of a batch that was built from `items`, given its `len` and `add_hex`. -/
structure Built {T : Type} [Encode T] [Decode T] (len : T → U32)
    (addHex : T → List Char → Except String Unit × T) (x : T) (items : List Bytes) : Prop where
  encode_eq : encode x = compactBytes items.length ++ items.flatten
  encode_vec : ∀ {C : Type} [Encode C] (v : Vec C), v.items.map encode = items →
    encode x = encode v
  len_eq : (len x).1 = items.length
  addHex_of_error : ∀ value e, (addHex x value).1 = .error e → (addHex x value).2 = x
  decode_encode : decode (encode x) = .ok (x, [])

theorem Calls.Holds.isBuilt {T : Type} [Record T Calls] {len : T → U32}
    {addHex : T → List Char → Except String Unit × T} {x : T} {items : List Bytes}
    (h : (Record.toFields x).Holds items) (hlt : items.length < 2 ^ 32)
    (hlen : len x = (Record.toFields x).length)
    (haddHex : ∀ value, addHex x value = (((Record.toFields x).addHex value).1,
      Record.ofFields ((Record.toFields x).addHex value).2)) :
    Built len addHex x items where
  encode_eq := by
    have hlength := h.length
    rw [Nat.mod_eq_of_lt hlt] at hlength
    show compactBytes (Record.toFields x).length.1 ++ (Record.toFields x).calls = _
    rw [hlength, h.calls]
  encode_vec v hv := h.encode_eq hv
  len_eq := by rw [hlen, h.length, Nat.mod_eq_of_lt hlt]
  addHex_of_error value e he := by
    rw [haddHex] at he ⊢
    show Record.ofFields ((Record.toFields x).addHex value).2 = x
    rw [Calls.addHex_of_error he, Record.ofFields_toFields]
  decode_encode := Fields.readsAlone (RuntimeCall.calls_readsAlone (Record.toFields x))

namespace Tx

def Batch.apply (x : Batch) : Op → Batch
  | .addCall value => x.addCall value
  | .addCalls value => x.addCalls value
  | .add value => x.add value
  | .addHex value => (x.addHex value).2

def BatchAll.apply (x : BatchAll) : Op → BatchAll
  | .addCall value => x.addCall value
  | .addCalls value => x.addCalls value
  | .add value => x.add value
  | .addHex value => (x.addHex value).2

def ForceBatch.apply (x : ForceBatch) : Op → ForceBatch
  | .addCall value => x.addCall value
  | .addCalls value => x.addCalls value
  | .add value => x.add value
  | .addHex value => (x.addHex value).2

theorem Batch.toCalls_run (x : Batch) (ops : List Op) :
    (ops.foldl apply x).toCalls = ops.foldl Calls.apply x.toCalls :=
  (List.foldl_hom toCalls fun _ op => by cases op <;> rfl).symm

theorem BatchAll.toCalls_run (x : BatchAll) (ops : List Op) :
    (ops.foldl apply x).toCalls = ops.foldl Calls.apply x.toCalls :=
  (List.foldl_hom toCalls fun _ op => by cases op <;> rfl).symm

theorem ForceBatch.toCalls_run (x : ForceBatch) (ops : List Op) :
    (ops.foldl apply x).toCalls = ops.foldl Calls.apply x.toCalls :=
  (List.foldl_hom toCalls fun _ op => by cases op <;> rfl).symm

/-- Every sequence of fewer than `2 ^ 32` additions builds what it should, for all three batch
    calls. -/
theorem built (ops : List Op) (hlt : (added ops).length < 2 ^ 32) :
    Built Batch.len Batch.addHex (ops.foldl Batch.apply Batch.new) (added ops) ∧
      Built BatchAll.len BatchAll.addHex (ops.foldl BatchAll.apply BatchAll.new) (added ops) ∧
      Built ForceBatch.len ForceBatch.addHex (ops.foldl ForceBatch.apply ForceBatch.new)
        (added ops) := by
  have hrun : (ops.foldl Calls.apply Calls.new).Holds (added ops) := Calls.new_holds.run ops
  refine ⟨?_, ?_, ?_⟩
  · refine Calls.Holds.isBuilt ?_ hlt rfl fun value => rfl
    show (ops.foldl Batch.apply Batch.new).toCalls.Holds _
    rw [Batch.toCalls_run]
    exact hrun
  · refine Calls.Holds.isBuilt ?_ hlt rfl fun value => rfl
    show (ops.foldl BatchAll.apply BatchAll.new).toCalls.Holds _
    rw [BatchAll.toCalls_run]
    exact hrun
  · refine Calls.Holds.isBuilt ?_ hlt rfl fun value => rfl
    show (ops.foldl ForceBatch.apply ForceBatch.new).toCalls.Holds _
    rw [ForceBatch.toCalls_run]
    exact hrun

/-- Operations of each kind; `0xzz` is no hexadecimal. -/
def someOps : List Op :=
  [.addCall ⟨10, 6, []⟩, .addHex ['0', 'x', 'z', 'z'], .addHex ['0', 'x', '0', 'a', '0', '6'],
    .addCalls [⟨3, 0, [20]⟩], .add [10, 6]]

theorem added_someOps : added someOps = [[10, 6], [10, 6], [3, 0, 20], [10, 6]] := by
  have hno : Hex.trimStartMatches ['0', 'x'] ['0', 'x', 'z', 'z'] = ['z', 'z'] :=
    Hex.trimStartMatches_append (by decide) (by decide)
  have hyes : Hex.trimStartMatches ['0', 'x'] ['0', 'x', '0', 'a', '0', '6']
      = ['0', 'a', '0', '6'] :=
    Hex.trimStartMatches_append (by decide) (by decide)
  simp only [added, someOps, List.flatMap_cons, Op.added, hno, hyes]
  rfl

/-- Four of these add a call. -/
theorem built_someOps :
    Built Batch.len Batch.addHex (someOps.foldl Batch.apply Batch.new)
      [[10, 6], [10, 6], [3, 0, 20], [10, 6]] := by
  have hlt : (added someOps).length < 2 ^ 32 := by
    rw [added_someOps]
    decide
  have hbuilt := (built someOps hlt).1
  rwa [added_someOps] at hbuilt

end Tx

end AvailRust.Utility
