/-
  The payload recovery map: where the scalars of an app stand, and what is expected there.

  The app's stream is padded to 31 bytes a scalar and cut into chunks. Scalar `n` stands in the
  runtime's grid in row `n / cols` and column `n % cols`. The stores have fewer columns, so their
  grid is the runtime's, folded (`custodyVirtualRow`). Each cell lists its store owners and the
  chunk as a scalar, reversed.

  Numbers are `u32` where the source has them, and wrap as in a release build. With a range that
  passes the checks only the doubled column can be too large; that is what `NoOverflow` excludes.
  It does no harm either where the stores' columns divide `2 ^ 31`, as those the program allows do
  (`folds_of_dvd`). The saturating sums are harmless: where they saturate there is one row, or one
  band (`band_lt_bands`).
-/
import AvailRust.Lib.Grid
import AvailRust.Lib.Hex
import AvailRust.Lib.Results
import AvailRust.Recovery.Lookup

namespace AvailRust

open Scale Grid Results

/-- `a * b` on `u32` in a release build. -/
def u32Mul (a b : Nat) : Nat := a * b % 2 ^ 32

/-- `u32::checked_mul`. -/
def u32CheckedMul (a b : Nat) : Option Nat := if a * b < 2 ^ 32 then some (a * b) else none

theorem u32Mul_of_lt {a b : Nat} (h : a * b < 2 ^ 32) : u32Mul a b = a * b := Nat.mod_eq_of_lt h

theorem u32CheckedMul_eq_some {a b c : Nat} :
    u32CheckedMul a b = some c ↔ a * b < 2 ^ 32 ∧ a * b = c := by
  unfold u32CheckedMul
  split
  case isTrue hlt => rw [Option.some_inj, and_iff_right hlt]
  case isFalse hge => simp only [reduceCtorEq, hge, false_and]

structure AppIdRange where
  appId : U32
  startScalar : Nat
  endScalar : Nat
  scalarCount : Nat
  startStreamByte : Nat
  endStreamByte : Nat
  counted : scalarCount = endScalar - startScalar

structure RequiredOriginalCell where
  scalarIndex : Nat
  row : Nat
  col : Nat
  runtimeOriginalRow : Nat
  runtimeOriginalCol : Nat
  custodyVirtualRow : Nat
  custodyCol : Nat
deriving DecidableEq

/-- `Owner` is what the inventory says of a store. -/
structure RequiredCdaCell (Owner : Type) where
  scalarIndex : Nat
  originalRow : Nat
  originalCol : Nat
  runtimeOriginalRow : Nat
  runtimeOriginalCol : Nat
  custodyVirtualRow : Nat
  extRow : Nat
  extCol : Nat
  custodyCol : Nat
  custodyRouteMethod : String
  runtimeOwner : Owner
  runtimeOwnerCandidates : List Owner
  expectedChunkHex : String
  expectedCellLeHex : String

/-- What a cell for the stores says of the cell in the runtime's grid. -/
def RequiredCdaCell.original {Owner : Type} (cell : RequiredCdaCell Owner) :
    RequiredOriginalCell where
  scalarIndex := cell.scalarIndex
  row := cell.originalRow
  col := cell.originalCol
  runtimeOriginalRow := cell.runtimeOriginalRow
  runtimeOriginalCol := cell.runtimeOriginalCol
  custodyVirtualRow := cell.custodyVirtualRow
  custodyCol := cell.custodyCol

/-- The two lists the loop fills. -/
structure RequiredCells (Owner : Type) where
  original : List RequiredOriginalCell
  cda : List (RequiredCdaCell Owner)

namespace BuildPayloadRecoveryMapNative

def dataChunkSize : Nat := 31
def scalarSize : Nat := 32
def rowExtensionV4 : Nat := 2
def colExtensionV4 : Nat := 2

/-- The range of the app that was selected. -/
def appIdRange (appId : U32) (selected : ExpandedAppRange) : AppIdRange where
  appId := appId
  startScalar := selected.startScalar
  endScalar := selected.endScalar
  scalarCount := selected.scalarCount
  startStreamByte := selected.startScalar * dataChunkSize
  endStreamByte := selected.endScalar * dataChunkSize
  counted := selected.counted

/-- `u32::next_power_of_two` wraps to zero. -/
def nextPowerOfTwo (value : Nat) : Nat :=
  if value ≤ 1 then 1 else value.nextPowerOfTwo % 2 ^ 32

def computedGridRows (totalScalars runtimeCols : Nat) : Except String Nat :=
  if runtimeCols = 0 then .error "runtime grid cols must be non-zero"
  else
    let currentHeight := u32SaturatingAdd totalScalars (runtimeCols - 1) / runtimeCols
    .ok (nextPowerOfTwo (max currentHeight 1))

theorem cols_pos_of_rows {totalScalars runtimeCols rows : Nat}
    (h : computedGridRows totalScalars runtimeCols = .ok rows) : 0 < runtimeCols := by
  by_contra hzero
  rw [computedGridRows, if_pos (by omega)] at h
  cases h

def custodyColFromExtended (extCol custodyCols : Nat) : Nat := extCol / colExtensionV4 % custodyCols

def custodyVirtualRow (originalRow originalCol runtimeCols custodyCols : Nat) : Nat :=
  let bands := u32SaturatingAdd runtimeCols (custodyCols - 1) / custodyCols
  u32Add (u32Mul originalRow (max bands 1)) (originalCol / custodyCols)

def scalarToRuntimeCellHex (chunk : Bytes) : Except String String :=
  if chunk.length > dataChunkSize then
    .error ("app stream chunk exceeds " ++ toString dataChunkSize ++ " bytes")
  else
    let raw := chunk ++ List.replicate (scalarSize - chunk.length) 0
    .ok (String.ofList (Hex.encode raw.reverse))

def padAppStream (appStream : Bytes) (scalarCount : Nat) : Except String Bytes :=
  let paddedSize := scalarCount * dataChunkSize
  if appStream.length > paddedSize then
    .error ("expected app stream len " ++ toString appStream.length
      ++ " exceeds DataLookup padded len " ++ toString paddedSize)
  else .ok (appStream ++ List.replicate (paddedSize - appStream.length) 0)

section

variable {Owner : Type} (runtimeCols custodyCols : Nat) (startScalar : Nat)
  (appStreamPadded : Bytes) (activeOwnersByCol : Nat → Option (List Owner))

/-- The loop's body: the two cells of a scalar. -/
def mapScalar (scalarIndex : Nat) : Except String (RequiredOriginalCell × RequiredCdaCell Owner) :=
  let localIndex := scalarIndex - startScalar
  let row := scalarIndex / runtimeCols
  let col := scalarIndex % runtimeCols
  -- the slice is within the stream: `length_window`
  let chunk := window dataChunkSize appStreamPadded localIndex
  let extRow := u32Mul row rowExtensionV4
  let extCol := u32Mul col colExtensionV4
  let custodyCol := custodyColFromExtended extCol custodyCols
  let virtualRow := custodyVirtualRow row col runtimeCols custodyCols
  let ownerCandidates := (activeOwnersByCol custodyCol).getD []
  match ownerCandidates with
  | [] => .error ("missing_owner_coverage: custody_col=" ++ toString custodyCol
      ++ " scalar_index=" ++ toString scalarIndex ++ " ext_row=" ++ toString extRow
      ++ " ext_col=" ++ toString extCol)
  | runtimeOwner :: _ => do
    let expectedCellLeHex ← scalarToRuntimeCellHex chunk
    pure (
      { scalarIndex
        row
        col
        runtimeOriginalRow := row
        runtimeOriginalCol := col
        custodyVirtualRow := virtualRow
        custodyCol },
      { scalarIndex
        originalRow := row
        originalCol := col
        runtimeOriginalRow := row
        runtimeOriginalCol := col
        custodyVirtualRow := virtualRow
        extRow
        extCol
        custodyCol
        custodyRouteMethod := "fixed_" ++ toString custodyCols ++ "_column_row_major_wrap"
        runtimeOwner
        runtimeOwnerCandidates := ownerCandidates
        expectedChunkHex := String.ofList (Hex.encode chunk)
        expectedCellLeHex })

end

/-- Both lists get the new cell. -/
def pushCells {Owner : Type} (cells : RequiredCells Owner)
    (new : RequiredOriginalCell × RequiredCdaCell Owner) : RequiredCells Owner :=
  ⟨cells.original ++ [new.1], cells.cda ++ [new.2]⟩

/-- The checks of the range, and the loop over its scalars. -/
def requiredCells {Owner : Type} (lookupSize runtimeRows runtimeCols custodyCols : Nat)
    (range : AppIdRange) (appStream : Bytes) (activeOwnersByCol : Nat → Option (List Owner)) :
    Except String (RequiredCells Owner) := do
  let rows ← computedGridRows lookupSize runtimeCols
  if rows > runtimeRows then
    .error ("computed original rows " ++ toString rows ++ " exceed runtime grid rows "
      ++ toString runtimeRows)
  else
    match u32CheckedMul rows runtimeCols with
    | none => .error "grid capacity overflow"
    | some capacity =>
      if range.endScalar > capacity then
        .error ("app_id range exceeds grid capacity: end_scalar=" ++ toString range.endScalar
          ++ " capacity=" ++ toString capacity)
      else do
        let appStreamPadded ← padAppStream appStream range.scalarCount
        (List.range' range.startScalar (range.endScalar - range.startScalar)).foldlM
          (fun cells scalarIndex => pushCells cells <$>
            mapScalar runtimeCols custodyCols range.startScalar appStreamPadded activeOwnersByCol
              scalarIndex)
          ⟨[], []⟩

/-! ## Where a scalar stands -/

/-- How many rows of the stores' grid one row of the runtime's takes. -/
def bands (runtimeCols custodyCols : Nat) : Nat :=
  max (u32SaturatingAdd runtimeCols (custodyCols - 1) / custodyCols) 1

theorem custodyColFromExtended_eq {col : Nat} (h : col * colExtensionV4 < 2 ^ 32)
    (custodyCols : Nat) :
    custodyColFromExtended (u32Mul col colExtensionV4) custodyCols = col % custodyCols := by
  rw [custodyColFromExtended, u32Mul_of_lt h, Nat.mul_div_cancel col (by decide)]

/-- Halved again, a doubled column has lost a multiple of `2 ^ 31`. -/
theorem custodyColFromExtended_of_dvd {custodyCols : Nat} (h : custodyCols ∣ 2 ^ 31) (col : Nat) :
    custodyColFromExtended (u32Mul col colExtensionV4) custodyCols = col % custodyCols := by
  have hdoubled : u32Mul col colExtensionV4 = col % 2 ^ 31 * colExtensionV4 :=
    Nat.mul_mod_mul_right colExtensionV4 col (2 ^ 31)
  rw [custodyColFromExtended, hdoubled, Nat.mul_div_cancel _ (by decide), Nat.mod_mod_of_dvd col h]

section

variable {rows runtimeCols custodyCols row col row' col' : Nat}

theorem bands_le_cols (hcols : 0 < runtimeCols) (hcustody : 0 < custodyCols) :
    bands runtimeCols custodyCols ≤ runtimeCols := by
  have hsum : u32SaturatingAdd runtimeCols (custodyCols - 1) / custodyCols
      ≤ (runtimeCols + (custodyCols - 1)) / custodyCols :=
    Nat.div_le_div_right (Nat.min_le_left _ _)
  have hceil := bands_le runtimeCols hcustody
  unfold bands
  omega

/-- With two rows at least, the bands hold all columns, also where the sum saturates. -/
theorem band_lt_bands (hcapacity : rows * runtimeCols < 2 ^ 32) (hrows : 2 ≤ rows)
    (hcustody : 0 < custodyCols) (hcol : col < runtimeCols) :
    col / custodyCols < bands runtimeCols custodyCols := by
  have hband := Grid.band_lt hcustody hcol
  have hhalf : 2 * runtimeCols ≤ rows * runtimeCols := Nat.mul_le_mul_right runtimeCols hrows
  unfold bands u32SaturatingAdd u32Max
  rcases Nat.lt_or_ge (runtimeCols + (custodyCols - 1)) (2 ^ 32) with hsum | hsum
  · rw [Nat.min_eq_left (by omega)]
    omega
  · -- there are fewer than half of all columns, so one band holds them
    rw [Nat.div_eq_of_lt (by omega : col < custodyCols)]
    omega

theorem custodyVirtualRow_eq (hcapacity : rows * runtimeCols < 2 ^ 32) (hrow : row < rows)
    (hcustody : 0 < custodyCols) (hcol : col < runtimeCols) :
    custodyVirtualRow row col runtimeCols custodyCols
      = row * bands runtimeCols custodyCols + col / custodyCols := by
  have hbands : rows * bands runtimeCols custodyCols ≤ rows * runtimeCols :=
    Nat.mul_le_mul_left rows (bands_le_cols (by omega) hcustody)
  have hfits : row * bands runtimeCols custodyCols + col / custodyCols < 2 ^ 32 := by
    rcases Nat.lt_or_ge rows 2 with hone | htwo
    · obtain rfl : row = 0 := by omega
      obtain rfl : rows = 1 := by omega
      have hle := Nat.div_le_self col custodyCols
      omega
    · have hband := band_lt_bands hcapacity htwo hcustody hcol
      have hnext : (row + 1) * bands runtimeCols custodyCols
          ≤ rows * bands runtimeCols custodyCols := Nat.mul_le_mul_right _ hrow
      rw [Nat.succ_mul] at hnext
      omega
  have hproduct : row * bands runtimeCols custodyCols < 2 ^ 32 :=
    Nat.lt_of_le_of_lt (Nat.le_add_right _ _) hfits
  show u32Add (u32Mul row (bands runtimeCols custodyCols)) (col / custodyCols) = _
  rw [u32Mul_of_lt hproduct, u32Add_of_lt hfits]

/-- Folding keeps the cells apart. -/
theorem custody_inj (hcapacity : rows * runtimeCols < 2 ^ 32) (hcustody : 0 < custodyCols)
    (hrow : row < rows) (hrow' : row' < rows) (hcol : col < runtimeCols)
    (hcol' : col' < runtimeCols)
    (hvirtual : custodyVirtualRow row col runtimeCols custodyCols
      = custodyVirtualRow row' col' runtimeCols custodyCols)
    (hcustodyCol : col % custodyCols = col' % custodyCols) : row = row' ∧ col = col' := by
  rw [custodyVirtualRow_eq hcapacity hrow hcustody hcol,
    custodyVirtualRow_eq hcapacity hrow' hcustody hcol'] at hvirtual
  rcases Nat.lt_or_ge rows 2 with hone | htwo
  · obtain rfl : row = 0 := by omega
    obtain rfl : row' = 0 := by omega
    simp only [Nat.zero_mul, Nat.zero_add] at hvirtual
    exact ⟨rfl, index_inj hvirtual hcustodyCol⟩
  · have hband := band_lt_bands hcapacity htwo hcustody hcol
    have hband' := band_lt_bands hcapacity htwo hcustody hcol'
    obtain ⟨hrows, hbands⟩ := folded_inj hband hband' hvirtual
    exact ⟨hrows, index_inj hbands hcustodyCol⟩

end

/-! ## What is expected in a cell -/

/-- The chunk that an expected cell stands for. -/
def readCell (cell : String) : Except String Bytes :=
  (fun raw => raw.reverse.take dataChunkSize) <$> Hex.decode cell.toList

theorem scalarToRuntimeCellHex_eq {chunk : Bytes} (h : chunk.length ≤ dataChunkSize) :
    scalarToRuntimeCellHex chunk = .ok (String.ofList (Hex.encode
      (chunk ++ List.replicate (scalarSize - chunk.length) 0).reverse)) :=
  if_neg (Nat.not_lt.mpr h)

theorem readCell_scalarToRuntimeCellHex {chunk : Bytes} {cell : String}
    (hlength : chunk.length = dataChunkSize) (h : scalarToRuntimeCellHex chunk = .ok cell) :
    readCell cell = .ok chunk := by
  rw [scalarToRuntimeCellHex_eq hlength.le] at h
  obtain rfl := Except.ok.inj h
  unfold readCell
  rw [String.toList_ofList, Hex.decode_encode]
  show Except.ok (List.take _ (List.reverse (List.reverse _))) = _
  rw [List.reverse_reverse, ← hlength, List.take_left]

/-! ## The loop -/

section

variable {Owner : Type} {runtimeCols custodyCols startScalar : Nat} {appStreamPadded : Bytes}
  {activeOwnersByCol : Nat → Option (List Owner)}

/-- The cell of a scalar in the runtime's grid. -/
def originalCell (runtimeCols custodyCols scalarIndex : Nat) : RequiredOriginalCell where
  scalarIndex := scalarIndex
  row := scalarIndex / runtimeCols
  col := scalarIndex % runtimeCols
  runtimeOriginalRow := scalarIndex / runtimeCols
  runtimeOriginalCol := scalarIndex % runtimeCols
  custodyVirtualRow := custodyVirtualRow (scalarIndex / runtimeCols) (scalarIndex % runtimeCols)
    runtimeCols custodyCols
  custodyCol := custodyColFromExtended (u32Mul (scalarIndex % runtimeCols) colExtensionV4)
    custodyCols

/-- A column of the stores that has an owner. -/
def Covered (activeOwnersByCol : Nat → Option (List Owner)) (custodyCol : Nat) : Prop :=
  (activeOwnersByCol custodyCol).getD [] ≠ []

/-- The body gives the cell in the runtime's grid, and with it the chunk of the scalar. -/
theorem mapScalar_eq_ok {scalarIndex : Nat}
    {cells : RequiredOriginalCell × RequiredCdaCell Owner}
    (h : mapScalar runtimeCols custodyCols startScalar appStreamPadded activeOwnersByCol scalarIndex
      = .ok cells) :
    cells.1 = originalCell runtimeCols custodyCols scalarIndex ∧ cells.2.original = cells.1 ∧
      scalarToRuntimeCellHex (window dataChunkSize appStreamPadded (scalarIndex - startScalar))
        = .ok cells.2.expectedCellLeHex := by
  unfold mapScalar at h
  dsimp only at h
  split at h
  case h_1 => cases h
  case h_2 =>
    obtain ⟨cell, hcell, h⟩ := map_ok_iff.mp h
    subst h
    exact ⟨rfl, rfl, hcell⟩

/-- The body ends with its cells if the column has an owner. -/
theorem exists_mapScalar_iff {scalarIndex : Nat} :
    (∃ cells, mapScalar runtimeCols custodyCols startScalar appStreamPadded activeOwnersByCol
      scalarIndex = .ok cells) ↔
      Covered activeOwnersByCol (originalCell runtimeCols custodyCols scalarIndex).custodyCol := by
  have hchunk : (window dataChunkSize appStreamPadded (scalarIndex - startScalar)).length
      ≤ dataChunkSize := List.length_take_le _ _
  unfold mapScalar Covered originalCell
  dsimp only
  rw [scalarToRuntimeCellHex_eq hchunk]
  split
  case h_1 hnone =>
    rw [hnone]
    simp
  case h_2 hsome =>
    rw [hsome]
    exact ⟨fun _ => List.cons_ne_nil _ _, fun _ => ⟨_, rfl⟩⟩

theorem foldl_pushCells (new : List (RequiredOriginalCell × RequiredCdaCell Owner))
    (cells : RequiredCells Owner) :
    new.foldl pushCells cells
      = ⟨cells.original ++ new.map (·.1), cells.cda ++ new.map (·.2)⟩ := by
  induction new generalizing cells with
  | nil => simp
  | cons x new ih =>
    rw [List.foldl_cons, ih]
    simp [pushCells]

/-- The cells that a run lists. -/
theorem run_original {scalars : List Nat}
    {new : List (RequiredOriginalCell × RequiredCdaCell Owner)}
    (h : List.Forall₂ (fun scalarIndex cells => mapScalar runtimeCols custodyCols startScalar
      appStreamPadded activeOwnersByCol scalarIndex = .ok cells) scalars new) :
    new.map (·.1) = scalars.map (originalCell runtimeCols custodyCols) := by
  apply map_eq_of_forall₂ h
  intro scalarIndex cells hcells
  exact (mapScalar_eq_ok hcells).1

theorem run_cda {scalars : List Nat} {new : List (RequiredOriginalCell × RequiredCdaCell Owner)}
    (h : List.Forall₂ (fun scalarIndex cells => mapScalar runtimeCols custodyCols startScalar
      appStreamPadded activeOwnersByCol scalarIndex = .ok cells) scalars new) :
    (new.map (·.2)).map (·.original) = new.map (·.1) := by
  rw [run_original h, List.map_map]
  apply map_eq_of_forall₂ h
  intro scalarIndex cells hcells
  obtain ⟨horiginal, hcda, -⟩ := mapScalar_eq_ok hcells
  exact hcda.trans horiginal

/-- The chunks behind the cells that a run lists, one behind the other. -/
theorem run_stream {count : Nat} (hlength : appStreamPadded.length = count * dataChunkSize)
    {new : List (RequiredOriginalCell × RequiredCdaCell Owner)}
    (h : List.Forall₂ (fun scalarIndex cells => mapScalar runtimeCols custodyCols startScalar
      appStreamPadded activeOwnersByCol scalarIndex = .ok cells)
      (List.range' startScalar count) new) :
    List.flatten <$> (new.map (·.2)).mapM (fun cell => readCell cell.expectedCellLeHex)
      = .ok appStreamPadded := by
  have hread : (new.map (·.2)).mapM (fun cell => readCell cell.expectedCellLeHex)
      = .ok ((List.range' startScalar count).map fun scalarIndex =>
        window dataChunkSize appStreamPadded (scalarIndex - startScalar)) := by
    rw [List.mapM_map]
    apply mapM_of_forall₂ h
    intro scalarIndex hmem cells hcells
    rw [List.mem_range'_1] at hmem
    obtain ⟨-, -, hcell⟩ := mapScalar_eq_ok hcells
    exact readCell_scalarToRuntimeCellHex (length_window hlength (by omega)) hcell
  rw [hread, map_window_range']
  show Except.ok (List.flatten _) = _
  rw [flatten_windows, ← hlength, List.take_length]

end

/-! ## The map -/

/-- The scalars of the range, one cell each and no two in one place, and the whole stream. -/
structure Recovers {Owner : Type} (rows runtimeCols : Nat) (range : AppIdRange) (appStream : Bytes)
    (cells : RequiredCells Owner) : Prop where
  scalars : cells.original.map (·.scalarIndex)
    = List.range' range.startScalar (range.endScalar - range.startScalar)
  inGrid : ∀ cell ∈ cells.original, cell.row < rows ∧ cell.col < runtimeCols
  runtime : cells.original.Pairwise fun a b => (a.row, a.col) ≠ (b.row, b.col)
  stores : cells.original.Pairwise fun a b =>
    (a.custodyVirtualRow, a.custodyCol) ≠ (b.custodyVirtualRow, b.custodyCol)
  cda : cells.cda.map (·.original) = cells.original
  stream : List.flatten <$> cells.cda.mapM (fun cell => readCell cell.expectedCellLeHex)
    = .ok (appStream
        ++ List.replicate (range.scalarCount * dataChunkSize - appStream.length) 0)

/-- No column of the range is too large to be doubled. -/
def NoOverflow (runtimeCols : Nat) (range : AppIdRange) : Prop :=
  ∀ scalarIndex, range.startScalar ≤ scalarIndex → scalarIndex < range.endScalar →
    scalarIndex % runtimeCols * colExtensionV4 < 2 ^ 32

/-- The columns of the range are folded to those of the stores. -/
def Folds (runtimeCols custodyCols : Nat) (range : AppIdRange) : Prop :=
  ∀ scalarIndex, range.startScalar ≤ scalarIndex → scalarIndex < range.endScalar →
    custodyColFromExtended (u32Mul (scalarIndex % runtimeCols) colExtensionV4) custodyCols
      = scalarIndex % runtimeCols % custodyCols

theorem NoOverflow.folds {runtimeCols : Nat} {range : AppIdRange} (h : NoOverflow runtimeCols range)
    (custodyCols : Nat) : Folds runtimeCols custodyCols range :=
  fun scalarIndex hfrom hto => custodyColFromExtended_eq (h scalarIndex hfrom hto) custodyCols

theorem folds_of_dvd {custodyCols : Nat} (h : custodyCols ∣ 2 ^ 31) (runtimeCols : Nat)
    (range : AppIdRange) : Folds runtimeCols custodyCols range :=
  fun scalarIndex _ _ => custodyColFromExtended_of_dvd h (scalarIndex % runtimeCols)

section

variable {Owner : Type} {lookupSize runtimeRows runtimeCols custodyCols rows : Nat}
  {range : AppIdRange} {appStream : Bytes} {activeOwnersByCol : Nat → Option (List Owner)}

/-- What is left of the function when the checks are passed. -/
theorem requiredCells_eq (hrows : computedGridRows lookupSize runtimeCols = .ok rows)
    (hfits : rows ≤ runtimeRows) (hcapacity : rows * runtimeCols < 2 ^ 32)
    (hend : range.endScalar ≤ rows * runtimeCols)
    (hstream : appStream.length ≤ range.scalarCount * dataChunkSize) :
    requiredCells lookupSize runtimeRows runtimeCols custodyCols range appStream activeOwnersByCol
      = (List.range' range.startScalar (range.endScalar - range.startScalar)).foldlM
          (fun cells scalarIndex => pushCells cells <$>
            mapScalar runtimeCols custodyCols range.startScalar
              (appStream
                ++ List.replicate (range.scalarCount * dataChunkSize - appStream.length) 0)
              activeOwnersByCol scalarIndex)
          ⟨[], []⟩ := by
  have hchecked : u32CheckedMul rows runtimeCols = some (rows * runtimeCols) :=
    u32CheckedMul_eq_some.mpr ⟨hcapacity, rfl⟩
  have hpad : padAppStream appStream range.scalarCount = .ok (appStream
      ++ List.replicate (range.scalarCount * dataChunkSize - appStream.length) 0) :=
    if_neg (Nat.not_lt.mpr hstream)
  unfold requiredCells
  rw [hrows, hpad]
  show (if rows > runtimeRows then _ else _) = _
  rw [if_neg (Nat.not_lt.mpr hfits), hchecked]
  exact if_neg (Nat.not_lt.mpr hend)

/-- The loop goes over the scalars of the range. -/
theorem lt_of_mem_scalars {scalarIndex : Nat}
    (hmem : scalarIndex
      ∈ List.range' range.startScalar (range.endScalar - range.startScalar)) :
    range.startScalar ≤ scalarIndex ∧ scalarIndex < range.endScalar := by
  rw [List.mem_range'_1] at hmem
  omega

/-- Two scalars of the range have two cells, in the runtime's grid and in the stores'. -/
theorem originalCell_inj {m n : Nat} (hcols : 0 < runtimeCols) (hcustody : 0 < custodyCols)
    (hcapacity : rows * runtimeCols < 2 ^ 32) (hend : range.endScalar ≤ rows * runtimeCols)
    (hfolds : Folds runtimeCols custodyCols range)
    (hm : range.startScalar ≤ m ∧ m < range.endScalar)
    (hn : range.startScalar ≤ n ∧ n < range.endScalar)
    (hvirtual : (originalCell runtimeCols custodyCols m).custodyVirtualRow
      = (originalCell runtimeCols custodyCols n).custodyVirtualRow)
    (hcol : (originalCell runtimeCols custodyCols m).custodyCol
      = (originalCell runtimeCols custodyCols n).custodyCol) : m = n := by
  simp only [originalCell, hfolds m hm.1 hm.2, hfolds n hn.1 hn.2] at hvirtual hcol
  have hrow := row_lt (Nat.lt_of_lt_of_le hm.2 hend)
  have hrow' := row_lt (Nat.lt_of_lt_of_le hn.2 hend)
  obtain ⟨hrows, hcols⟩ := custody_inj hcapacity hcustody hrow hrow' (Nat.mod_lt m hcols)
    (Nat.mod_lt n hcols) hvirtual hcol
  exact index_inj hrows hcols

/-- A run over the range lists what it should. -/
theorem recovers_of_run (hcols : 0 < runtimeCols) (hcustody : 0 < custodyCols)
    (hcapacity : rows * runtimeCols < 2 ^ 32) (hend : range.endScalar ≤ rows * runtimeCols)
    (hfolds : Folds runtimeCols custodyCols range)
    (hstream : appStream.length ≤ range.scalarCount * dataChunkSize)
    {new : List (RequiredOriginalCell × RequiredCdaCell Owner)}
    (hrun : List.Forall₂ (fun scalarIndex cells => mapScalar runtimeCols custodyCols
        range.startScalar (appStream
          ++ List.replicate (range.scalarCount * dataChunkSize - appStream.length) 0)
        activeOwnersByCol scalarIndex = .ok cells)
      (List.range' range.startScalar (range.endScalar - range.startScalar)) new) :
    Recovers rows runtimeCols range appStream ⟨new.map (·.1), new.map (·.2)⟩ where
  scalars := by
    rw [run_original hrun, List.map_map]
    exact List.map_id _
  inGrid := by
    intro cell hcell
    simp only [run_original hrun, List.mem_map] at hcell
    obtain ⟨scalarIndex, hmem, rfl⟩ := hcell
    have hlt := (lt_of_mem_scalars hmem).2
    exact ⟨row_lt (Nat.lt_of_lt_of_le hlt hend), Nat.mod_lt _ hcols⟩
  runtime := by
    simp only [run_original hrun, List.pairwise_map]
    apply (List.pairwise_lt_range' 1).imp
    intro m n hlt hsame
    have hequal := index_inj (congrArg Prod.fst hsame) (congrArg Prod.snd hsame)
    omega
  stores := by
    simp only [run_original hrun, List.pairwise_map]
    apply (List.pairwise_lt_range' 1).imp_of_mem
    intro m n hm hn hlt hsame
    have hequal := originalCell_inj hcols hcustody hcapacity hend hfolds (lt_of_mem_scalars hm)
      (lt_of_mem_scalars hn) (congrArg Prod.fst hsame) (congrArg Prod.snd hsame)
    omega
  cda := run_cda hrun
  stream := by
    rw [← range.counted] at hrun
    apply run_stream _ hrun
    rw [List.length_append, List.length_replicate]
    omega

/-- A map that is built has passed the checks, and is lossless. -/
theorem requiredCells_recovers (hcustody : 0 < custodyCols)
    (hrows : computedGridRows lookupSize runtimeCols = .ok rows) (hfits : rows ≤ runtimeRows)
    (hproduct : rows * runtimeCols < 2 ^ 32) (hend : range.endScalar ≤ rows * runtimeCols)
    (hstream : appStream.length ≤ range.scalarCount * dataChunkSize)
    (hfolds : Folds runtimeCols custodyCols range) {cells : RequiredCells Owner}
    (h : requiredCells lookupSize runtimeRows runtimeCols custodyCols range appStream
      activeOwnersByCol = .ok cells) : Recovers rows runtimeCols range appStream cells := by
  rw [requiredCells_eq hrows hfits hproduct hend hstream] at h
  obtain ⟨new, hrun, rfl⟩ := pushes_eq_ok.mp h
  rw [foldl_pushCells]
  exact recovers_of_run (cols_pos_of_rows hrows) hcustody hproduct hend hfolds hstream hrun

/-- Where the checks pass and nothing overflows, a map that is built is lossless, and it is built
    if each of its columns has an owner. -/
theorem requiredCells_lossless (activeOwnersByCol : Nat → Option (List Owner)) {capacity : Nat}
    (hcustody : 0 < custodyCols)
    (hrows : computedGridRows lookupSize runtimeCols = .ok rows) (hfits : rows ≤ runtimeRows)
    (hcapacity : u32CheckedMul rows runtimeCols = some capacity)
    (hend : range.endScalar ≤ capacity)
    (hstream : appStream.length ≤ range.scalarCount * dataChunkSize)
    (hoverflow : NoOverflow runtimeCols range) :
    (∀ cells, requiredCells lookupSize runtimeRows runtimeCols custodyCols range appStream
        activeOwnersByCol = .ok cells → Recovers rows runtimeCols range appStream cells) ∧
    ((∃ cells, requiredCells lookupSize runtimeRows runtimeCols custodyCols range appStream
        activeOwnersByCol = .ok cells) ↔
      ∀ scalarIndex, range.startScalar ≤ scalarIndex → scalarIndex < range.endScalar →
        Covered activeOwnersByCol (scalarIndex % runtimeCols % custodyCols)) := by
  obtain ⟨hproduct, rfl⟩ := u32CheckedMul_eq_some.mp hcapacity
  have hfolds := hoverflow.folds custodyCols
  refine ⟨?recovers, ?built⟩
  case recovers =>
    intro cells hcells
    exact requiredCells_recovers hcustody hrows hfits hproduct hend hstream hfolds hcells
  case built =>
    rw [requiredCells_eq hrows hfits hproduct hend hstream]
    simp only [exists_pushes_iff]
    constructor
    · intro h scalarIndex hfrom hto
      have hcovered := exists_mapScalar_iff.mp (h scalarIndex (by rw [List.mem_range'_1]; omega))
      rwa [originalCell, hfolds scalarIndex hfrom hto] at hcovered
    · intro h scalarIndex hmem
      obtain ⟨hfrom, hto⟩ := lt_of_mem_scalars hmem
      apply exists_mapScalar_iff.mpr
      rw [originalCell, hfolds scalarIndex hfrom hto]
      exact h scalarIndex hfrom hto

end

/-- The last four of six scalars. -/
def lastFour : AppIdRange := appIdRange 1 ⟨1, 2, 6, 4, rfl⟩

/-- Three columns, folded to two, with a store for each. -/
theorem requiredCells_lossless_lastFour :
    ∃ cells, requiredCells 6 4 3 2 lastFour [4, 1, 2] (fun _ => some ["store"]) = .ok cells ∧
      Recovers 2 3 lastFour [4, 1, 2] cells := by
  have hrows : computedGridRows 6 3 = .ok 2 := by decide +kernel
  have hoverflow : NoOverflow 3 lastFour := by
    intro scalarIndex _ _
    have hcol := Nat.mod_lt scalarIndex (by decide : 0 < 3)
    show scalarIndex % 3 * 2 < _
    omega
  have hspec := requiredCells_lossless (fun _ => some ["store"]) (by decide : 0 < 2) hrows
    (by decide : 2 ≤ 4) (by decide : u32CheckedMul 2 3 = some 6)
    (by decide : lastFour.endScalar ≤ 6)
    (by decide : ([4, 1, 2] : Bytes).length ≤ lastFour.scalarCount * dataChunkSize) hoverflow
  obtain ⟨cells, hcells⟩ := hspec.2.mpr fun _ _ _ => List.cons_ne_nil _ _
  exact ⟨cells, hcells, hspec.1 cells hcells⟩

end BuildPayloadRecoveryMapNative

end AvailRust
