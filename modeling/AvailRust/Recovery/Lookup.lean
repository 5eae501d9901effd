/-
  The ranges of a block's data lookup.

  The lookup lists the apps by the scalar at which each starts. `expandLookup` turns it into ranges;
  it carries the app id and the start of the range that is still open (`Expansion`). What is read of
  the index so far is tiled up to there (`Expands`), and the block's size closes the last range.
  Two programs have this function, each its own copy.
-/
import AvailRust.Core.Header
import AvailRust.Lib.Tiling

namespace AvailRust

open Scale Tiling

/-- A range of scalars, from its start up to its end and without the end. -/
structure ExpandedAppRange where
  appId : U32
  startScalar : Nat
  endScalar : Nat
  scalarCount : Nat
  counted : scalarCount = endScalar - startScalar := by rfl
deriving DecidableEq

/-- What the loop over the index carries: the ranges, and the range that is still open. -/
structure Expansion where
  ranges : List ExpandedAppRange
  prevAppId : U32
  offset : Nat

namespace BuildPayloadRecoveryMapNative

def expandItem (e : Expansion) (item : DataLookupItem) : Expansion where
  ranges := e.ranges ++ [{
    appId := e.prevAppId
    startScalar := e.offset
    endScalar := item.start.1
    scalarCount := item.start.1 - e.offset }]
  prevAppId := item.appId
  offset := item.start.1

def expandLookup (size : Nat) (index : List DataLookupItem) : List ExpandedAppRange :=
  let e := index.foldl expandItem ⟨[], 0, 0⟩
  if e.offset < size then
    e.ranges ++ [{
      appId := e.prevAppId
      startScalar := e.offset
      endScalar := size
      scalarCount := size - e.offset }]
  else e.ranges

end BuildPayloadRecoveryMapNative

namespace MapPayloadRecoveryReceipt

def expandItem (e : Expansion) (item : DataLookupItem) : Expansion where
  ranges := e.ranges ++ [{
    appId := e.prevAppId
    startScalar := e.offset
    endScalar := item.start.1
    scalarCount := item.start.1 - e.offset }]
  prevAppId := item.appId
  offset := item.start.1

def expandLookup (size : Nat) (index : List DataLookupItem) : List ExpandedAppRange :=
  let e := index.foldl expandItem ⟨[], 0, 0⟩
  if e.offset < size then
    e.ranges ++ [{
      appId := e.prevAppId
      startScalar := e.offset
      endScalar := size
      scalarCount := size - e.offset }]
  else e.ranges

end MapPayloadRecoveryReceipt

open BuildPayloadRecoveryMapNative

namespace ExpandedAppRange

/-- The app of a range, and where it starts. -/
def opening (range : ExpandedAppRange) : U32 × Nat := (range.appId, range.startScalar)

end ExpandedAppRange

/-- The app of an entry, and where it starts. -/
def DataLookupItem.opening (item : DataLookupItem) : U32 × Nat := (item.appId, item.start.1)

/-- What holds between two entries, `index` being the ones that were read. -/
structure Expands (index : List DataLookupItem) (e : Expansion) : Prop where
  tiles : Tiles (·.startScalar) (·.endScalar) 0 e.offset e.ranges
  openings : e.ranges.map (·.opening) ++ [(e.prevAppId, e.offset)]
    = (0, 0) :: index.map (·.opening)
  ends : e.ranges.map (·.endScalar) = index.map (·.start.1)

namespace Expands

variable {index : List DataLookupItem} {e : Expansion}

theorem nil : Expands [] ⟨[], 0, 0⟩ := ⟨.nil 0, rfl, rfl⟩

/-- One entry that does not start before the open range. -/
theorem push (h : Expands index e) {item : DataLookupItem} (hle : e.offset ≤ item.start.1) :
    Expands (index ++ [item]) (expandItem e item) where
  tiles := h.tiles.push ⟨e.prevAppId, e.offset, item.start.1, item.start.1 - e.offset, rfl⟩ rfl hle
  openings := by
    have hopenings := h.openings
    simp only [expandItem, List.map_append, List.map_cons, List.map_nil]
    show _ ++ [(e.prevAppId, e.offset)] ++ [item.opening] = _
    rw [hopenings, List.cons_append]
  ends := by
    simp only [expandItem, List.map_append, List.map_cons, List.map_nil, h.ends]

/-- A sorted rest of the index. -/
theorem foldl (h : Expands index e) {rest : List DataLookupItem}
    (hsorted : rest.Pairwise fun a b => a.start.1 ≤ b.start.1)
    (hoffset : ∀ item ∈ rest, e.offset ≤ item.start.1) :
    Expands (index ++ rest) (rest.foldl expandItem e) := by
  induction rest generalizing index e with
  | nil => rwa [List.append_nil]
  | cons item rest ih =>
    rw [List.pairwise_cons] at hsorted
    have hstep := h.push (hoffset item List.mem_cons_self)
    have hrun := ih hstep hsorted.2 hsorted.1
    rwa [List.append_assoc] at hrun

/-- The open range starts where the block does, or where an entry says. -/
theorem offset_eq (h : Expands index e) :
    e.offset = 0 ∨ ∃ item ∈ index, item.start.1 = e.offset := by
  have hmem : (e.prevAppId, e.offset) ∈ (0, 0) :: index.map (·.opening) := by
    rw [← h.openings]
    exact List.mem_append_right _ List.mem_cons_self
  rcases List.mem_cons.mp hmem with hfirst | hentry
  · exact .inl (congrArg Prod.snd hfirst)
  · obtain ⟨item, hitem, heq⟩ := List.mem_map.mp hentry
    exact .inr ⟨item, hitem, congrArg Prod.snd heq⟩

end Expands

/-- What the loop leaves open is closed, unless the block is empty. -/
theorem expandLookup_cases {size : Nat} {index : List DataLookupItem}
    (hsorted : index.Pairwise fun a b => a.start.1 ≤ b.start.1)
    (hbelow : ∀ item ∈ index, item.start.1 < size) :
    ∃ e, Expands index e ∧
      (e.offset < size ∧ expandLookup size index
          = e.ranges ++ [⟨e.prevAppId, e.offset, size, size - e.offset, rfl⟩] ∨
        size = 0 ∧ e.offset = size ∧ expandLookup size index = e.ranges) := by
  have hread := Expands.nil.foldl hsorted (fun _ _ => Nat.zero_le _)
  refine ⟨index.foldl expandItem ⟨[], 0, 0⟩, hread, ?_⟩
  rcases Nat.lt_or_ge (index.foldl expandItem ⟨[], 0, 0⟩).offset size with hlt | hge
  · exact .inl ⟨hlt, if_pos hlt⟩
  · have hzero : (index.foldl expandItem ⟨[], 0, 0⟩).offset = 0 := by
      rcases hread.offset_eq with hfirst | ⟨item, hitem, hstart⟩
      · exact hfirst
      · have hlt := hbelow item hitem
        omega
    exact .inr ⟨by omega, by omega, if_neg (Nat.not_lt.mpr hge)⟩

/-- The block is tiled from its first scalar to its last. -/
theorem tiles_expandLookup {size : Nat} {index : List DataLookupItem}
    (hsorted : index.Pairwise fun a b => a.start.1 ≤ b.start.1)
    (hbelow : ∀ item ∈ index, item.start.1 < size) :
    Tiles (·.startScalar) (·.endScalar) 0 size (expandLookup size index) := by
  obtain ⟨e, hread, ⟨hlt, heq⟩ | ⟨-, hoffset, heq⟩⟩ := expandLookup_cases hsorted hbelow
  · rw [heq]
    exact hread.tiles.push ⟨e.prevAppId, e.offset, size, size - e.offset, rfl⟩ rfl hlt.le
  · rw [heq, ← hoffset]
    exact hread.tiles

/-- The ranges are those of app 0 and of the entries, in order, and each ends where the next one
    starts. -/
theorem expandLookup_entries {size : Nat} {index : List DataLookupItem}
    (hsorted : index.Pairwise fun a b => a.start.1 ≤ b.start.1)
    (hbelow : ∀ item ∈ index, item.start.1 < size) (hsize : 0 < size) :
    (expandLookup size index).map (·.opening) = (0, 0) :: index.map (·.opening) ∧
      (expandLookup size index).map (·.endScalar) = index.map (·.start.1) ++ [size] := by
  obtain ⟨e, hread, ⟨-, heq⟩ | ⟨hempty, -⟩⟩ := expandLookup_cases hsorted hbelow
  · rw [heq]
    simp only [List.map_append, List.map_cons, List.map_nil]
    exact ⟨hread.openings, by rw [hread.ends]⟩
  · omega

/-- Up to the first entry the block belongs to app 0, and each entry's range goes up to the next
    entry; in both programs. -/
theorem expandLookup_meets_spec :
    (∀ (size : Nat) (index : List DataLookupItem),
      MapPayloadRecoveryReceipt.expandLookup size index = expandLookup size index) ∧
    ∀ (size : Nat) (index : List DataLookupItem),
      index.Pairwise (fun a b => a.start.1 ≤ b.start.1) → (∀ item ∈ index, item.start.1 < size) →
      Tiles (·.startScalar) (·.endScalar) 0 size (expandLookup size index) ∧
      (expandLookup size index).Pairwise (fun a b => a.endScalar ≤ b.startScalar) ∧
      (∀ scalar, (∃ range ∈ expandLookup size index,
        range.startScalar ≤ scalar ∧ scalar < range.endScalar) ↔ scalar < size) ∧
      (0 < size →
        (expandLookup size index).map (·.opening) = (0, 0) :: index.map (·.opening) ∧
        (expandLookup size index).map (·.endScalar) = index.map (·.start.1) ++ [size]) := by
  refine ⟨?copies, ?tiles⟩
  case copies =>
    intro size index
    rfl
  case tiles =>
    intro size index hsorted hbelow
    have htiles := tiles_expandLookup hsorted hbelow
    refine ⟨htiles, htiles.pairwise, ?cover, expandLookup_entries hsorted hbelow⟩
    case cover =>
      intro scalar
      have hmem := htiles.mem_iff scalar
      simpa using hmem

/-- Two apps, the first of them with nothing in it, in a block of nine scalars. -/
theorem expandLookup_meets_spec_two :
    Tiles (·.startScalar) (·.endScalar) 0 9 (expandLookup 9 [⟨1, 4⟩, ⟨2, 4⟩]) ∧
      MapPayloadRecoveryReceipt.expandLookup 9 [⟨1, 4⟩, ⟨2, 4⟩]
        = [⟨0, 0, 4, 4, rfl⟩, ⟨1, 4, 4, 0, rfl⟩, ⟨2, 4, 9, 5, rfl⟩] := by
  obtain ⟨hcopies, hspec⟩ := expandLookup_meets_spec
  have htiles := hspec 9 [⟨1, 4⟩, ⟨2, 4⟩] (by decide) (by decide)
  refine ⟨htiles.1, ?_⟩
  rw [hcopies]
  rfl

end AvailRust
