/-
  The stores that hold the cells, from their inventory.

  The inventory is a table with a header. Each line names a store by its peer id, and says in which
  column it stands; the column is computed again from the peer id, and has to be the same. The
  stores are kept twice, by column and in one list, each sorted. The two agree: the list is the
  columns one behind the other (`readRuntimeStoreOwners_columns`). Of all stores the active ones are
  chosen, and grouped again.
-/
import AvailRust.Lib.StableSort
import AvailRust.Lib.Text
import AvailRust.Recovery.PeerId
import Mathlib.Data.List.Destutter
import Mathlib.Data.String.Basic

namespace AvailRust

open Scale Results StableSort

structure RuntimeOwner where
  storeName : String
  storeHost : String
  storeCdaMultiaddr : String
  storePeerId : String
  networkRow : Option Nat
  matrixRow : Option Nat
  custodyCol : Option Nat
  destinationCellReplica : Option Nat
  runtimeP2pRow : Nat
  runtimeP2pCol : Nat
  source : String
deriving DecidableEq

namespace BuildPayloadRecoveryMapNative

open Text

/-! ## One line -/

def parseCsvLine (line : List Char) : List String :=
  ((trimEndMatches (· == '\r') line).splitOn ',').map fun value => String.ofList (trim value)

/-- Where a column of the table is. Of two columns with one name the later one counts. -/
def headerIndex (headers : List String) : String → Option Nat :=
  headers.zipIdx.foldl (fun index entry => Function.update index entry.1 (some entry.2))
    fun _ => none

section

variable (crypto : SpCryptoHashing) (index : String → Option Nat) (custodyCols : Nat)

def field (row : List String) (name : String) : Except String String :=
  match index name with
  | none => .error ("store inventory missing required column " ++ name)
  | some idx =>
    match row[idx]?.filter (· ≠ "") with
    | none => .error ("store inventory row missing value for " ++ name)
    | some value => .ok value

def optionalU32 (row : List String) (name : String) : Option Nat :=
  (index name).bind fun idx => row[idx]?.bind fun value => (parseU32 value).toOption

/-- The loop's body: the store of one line. -/
def ownerOfLine (line : List Char) : Except String RuntimeOwner := do
  let row := parseCsvLine line
  let peerId ← field index row "runtime_cda_peer_id"
  let (runtimeRow, runtimeCol) ← gridPositionFromPeerId crypto peerId custodyCols
  let inventoryCol ← field index row "runtime_p2p_col"
  let inventoryCol ← parseU32 inventoryCol
  if runtimeCol ≠ inventoryCol then do
    let storeName ← field index row "store_name"
    .error ("runtime store inventory column mismatch: store=" ++ storeName ++ " peer=" ++ peerId
      ++ " inventory_col=" ++ toString inventoryCol ++ " computed_col=" ++ toString runtimeCol)
  else do
    let storeName ← field index row "store_name"
    let storeHost ← field index row "store_host"
    let storeCdaMultiaddr ← field index row "store_cda_multiaddr"
    pure {
      storeName
      storeHost
      storeCdaMultiaddr
      storePeerId := peerId
      networkRow := optionalU32 index row "network_row"
      matrixRow := optionalU32 index row "matrix_row"
      custodyCol := optionalU32 index row "custody_col"
      destinationCellReplica := optionalU32 index row "destination_cell_replica"
      runtimeP2pRow := runtimeRow
      runtimeP2pCol := runtimeCol
      source := "canary-store-nodes.csv + position_from_peer_id_bytes" }

end

/-! ## The table -/

/-- The stores by column and in one list. -/
structure StoreOwners where
  byCol : Nat → Option (List RuntimeOwner)
  all : List RuntimeOwner

/-- Both get the new store. -/
def StoreOwners.push (owners : StoreOwners) (owner : RuntimeOwner) : StoreOwners where
  byCol := Function.update owners.byCol owner.runtimeP2pCol
    (some ((owners.byCol owner.runtimeP2pCol).getD [] ++ [owner]))
  all := owners.all ++ [owner]

/-- What a column is sorted by. -/
def columnKey (owner : RuntimeOwner) : String ×ₗ String :=
  toLex (owner.storeName, owner.storePeerId)

/-- What the list is sorted by. -/
def ownerKey (owner : RuntimeOwner) : Nat ×ₗ String ×ₗ String :=
  toLex (owner.runtimeP2pCol, columnKey owner)

/-- The lines of the table that are not blank. -/
def inventoryLines (rest : List (List Char)) : List (List Char) :=
  rest.filter fun line => trim line ≠ []

def readRuntimeStoreOwners (crypto : SpCryptoHashing) (content : String) (custodyCols : Nat) :
    Except String StoreOwners :=
  match lines content with
  | [] => .error "store runtime inventory is empty"
  | header :: rest => do
    let index := headerIndex (parseCsvLine header)
    let owners ← (inventoryLines rest).foldlM
      (fun owners line => StoreOwners.push owners <$> ownerOfLine crypto index custodyCols line)
      ⟨fun _ => none, []⟩
    pure ⟨fun col => (owners.byCol col).map (sortBy columnKey), sortBy ownerKey owners.all⟩

/-! ## What the table is read to -/

theorem foldl_push (owners : List RuntimeOwner) :
    owners.foldl StoreOwners.push ⟨fun _ => none, []⟩
      = ⟨group (·.runtimeP2pCol) owners, owners⟩ := by
  induction owners using List.reverseRecOn with
  | nil => rfl
  | append_singleton owners owner ih =>
    rw [List.foldl_append, ih, group_snoc]
    rfl

theorem map_sortBy_group (owners : List RuntimeOwner) (col : Nat) :
    ((group (·.runtimeP2pCol) owners col).map (sortBy columnKey)).getD []
      = sortBy columnKey (owners.filter fun owner => decide (owner.runtimeP2pCol = col)) := by
  rw [group_eq]
  split
  case isTrue hnone =>
    rw [hnone]
    simp [sortBy]
  case isFalse => rfl

/-- A column of the list, and the column sorted alone. -/
theorem filter_sortBy_ownerKey (owners : List RuntimeOwner) (col : Nat) :
    (sortBy ownerKey owners).filter (fun owner => decide (owner.runtimeP2pCol = col))
      = sortBy columnKey (owners.filter fun owner => decide (owner.runtimeP2pCol = col)) := by
  have hkeys : ∀ a b : RuntimeOwner,
      decide (a.runtimeP2pCol = col) → decide (b.runtimeP2pCol = col) →
      (ownerKey a ≤ ownerKey b ↔ columnKey a ≤ columnKey b) := by
    intro a b ha hb
    have hcol : a.runtimeP2pCol = b.runtimeP2pCol := by
      rw [of_decide_eq_true ha, of_decide_eq_true hb]
    rw [ownerKey, ownerKey, Prod.Lex.toLex_le_toLex]
    simp [hcol]
  exact filter_sortBy ownerKey hkeys owners

/-- The position of the store of a line is that of its peer id. -/
theorem ownerOfLine_position {crypto : SpCryptoHashing} {index : String → Option Nat}
    {custodyCols : Nat} {line : List Char} {owner : RuntimeOwner}
    (h : ownerOfLine crypto index custodyCols line = .ok owner) :
    gridPositionFromPeerId crypto owner.storePeerId custodyCols
      = .ok (owner.runtimeP2pRow, owner.runtimeP2pCol) := by
  unfold ownerOfLine at h
  obtain ⟨peerId, -, h⟩ := bind_ok_iff.mp h
  obtain ⟨⟨row, col⟩, hposition, h⟩ := bind_ok_iff.mp h
  obtain ⟨inventoryText, -, h⟩ := bind_ok_iff.mp h
  obtain ⟨inventoryCol, -, h⟩ := bind_ok_iff.mp h
  split at h
  case isTrue =>
    obtain ⟨storeName, -, h⟩ := bind_ok_iff.mp h
    cases h
  case isFalse =>
    obtain ⟨storeName, -, h⟩ := bind_ok_iff.mp h
    obtain ⟨storeHost, -, h⟩ := bind_ok_iff.mp h
    obtain ⟨multiaddr, -, h⟩ := bind_ok_iff.mp h
    obtain rfl := Except.ok.inj h
    exact hposition

theorem gridPosition_lt {crypto : SpCryptoHashing} {peerId : String} {custodyCols row col : Nat}
    (hcols : 0 < custodyCols)
    (h : gridPositionFromPeerId crypto peerId custodyCols = .ok (row, col)) :
    row < p2pRows ∧ col < custodyCols := by
  obtain ⟨raw, -, h⟩ := bind_ok_iff.mp h
  have hpair := Except.ok.inj h
  rw [Prod.mk.injEq] at hpair
  rw [← hpair.1, ← hpair.2]
  exact ⟨Nat.mod_lt _ (by decide), Nat.mod_lt _ hcols⟩

/-- `CDA_CUSTODY_COLS`. -/
def custodyColsFromEnv (env : String → Option String) : Except String Nat := do
  let value := (env "CDA_CUSTODY_COLS").getD (toString defaultP2pCols)
  match parseU32 value with
  | .error err => .error ("invalid CDA_CUSTODY_COLS=" ++ value ++ ": " ++ err)
  | .ok custodyCols =>
    if custodyCols = 8 ∨ custodyCols = 16 ∨ custodyCols = 32 then .ok custodyCols
    else
      .error ("unsupported CDA_CUSTODY_COLS=" ++ toString custodyCols
        ++ "; expected 8, 16, or 32")

theorem custodyColsFromEnv_eq_ok {env : String → Option String} {custodyCols : Nat}
    (h : custodyColsFromEnv env = .ok custodyCols) :
    custodyCols = 8 ∨ custodyCols = 16 ∨ custodyCols = 32 := by
  unfold custodyColsFromEnv at h
  dsimp only at h
  split at h
  case h_1 => cases h
  case h_2 cols _ =>
    split at h
    case isTrue hcols =>
      obtain rfl := Except.ok.inj h
      exact hcols
    case isFalse => cases h

theorem custodyCols_pos {env : String → Option String} {custodyCols : Nat}
    (h : custodyColsFromEnv env = .ok custodyCols) : 0 < custodyCols := by
  have hcols := custodyColsFromEnv_eq_ok h
  omega

/-- The columns of the stores cut `u32` evenly. -/
theorem custodyCols_dvd {env : String → Option String} {custodyCols : Nat}
    (h : custodyColsFromEnv env = .ok custodyCols) : custodyCols ∣ 2 ^ 31 := by
  obtain rfl | rfl | rfl := custodyColsFromEnv_eq_ok h
  · decide
  · decide
  · decide

/-- What `readRuntimeStoreOwners` gives: a store for each line, at the position of its peer id,
    the same stores by column as in the list, both sorted, and of equal stores the earlier line
    first. -/
structure Inventory (crypto : SpCryptoHashing) (content : String) (custodyCols : Nat)
    (owners : StoreOwners) : Prop where
  lines : ∃ header rest read, lines content = header :: rest ∧
    List.Forall₂ (fun line owner =>
      ownerOfLine crypto (headerIndex (parseCsvLine header)) custodyCols line = .ok owner)
      (inventoryLines rest) read ∧ SortOf ownerKey owners.all read ∧
    ∀ col, SortOf columnKey ((owners.byCol col).getD [])
      (read.filter fun owner => decide (owner.runtimeP2pCol = col))
  sorted : owners.all.Pairwise fun a b => ownerKey a ≤ ownerKey b
  columns : ∀ col, (owners.byCol col).getD []
    = owners.all.filter fun owner => decide (owner.runtimeP2pCol = col)
  positions : ∀ owner ∈ owners.all,
    gridPositionFromPeerId crypto owner.storePeerId custodyCols
        = .ok (owner.runtimeP2pRow, owner.runtimeP2pCol) ∧
      owner.runtimeP2pRow < p2pRows ∧ owner.runtimeP2pCol < custodyCols
  concatenated : owners.all = (List.range custodyCols).flatMap fun col => (owners.byCol col).getD []

theorem inventory_of_read {crypto : SpCryptoHashing} {content : String} {custodyCols : Nat}
    {owners : StoreOwners} (hcols : 0 < custodyCols)
    (h : readRuntimeStoreOwners crypto content custodyCols = .ok owners) :
    Inventory crypto content custodyCols owners := by
  unfold readRuntimeStoreOwners at h
  split at h
  case h_1 => cases h
  case h_2 header rest hlines =>
    obtain ⟨pushed, hrun, h⟩ := bind_ok_iff.mp h
    obtain ⟨read, hread, rfl⟩ := pushes_eq_ok.mp hrun
    obtain rfl := Except.ok.inj h
    rw [foldl_push]
    have hpositions : ∀ owner ∈ sortBy ownerKey read,
        gridPositionFromPeerId crypto owner.storePeerId custodyCols
            = .ok (owner.runtimeP2pRow, owner.runtimeP2pCol) ∧
          owner.runtimeP2pRow < p2pRows ∧ owner.runtimeP2pCol < custodyCols := by
      intro owner howner
      obtain ⟨i, hi, rfl⟩ := List.getElem_of_mem ((mem_sortBy ownerKey).mp howner)
      have hline := (List.forall₂_iff_get.mp hread).2 i
        (by rw [(List.Forall₂.length_eq hread)]; exact hi) hi
      have hposition := ownerOfLine_position hline
      exact ⟨hposition, gridPosition_lt hcols hposition⟩
    have hcolumns : ∀ col, ((group (·.runtimeP2pCol) read col).map (sortBy columnKey)).getD []
        = (sortBy ownerKey read).filter fun owner => decide (owner.runtimeP2pCol = col) := by
      intro col
      rw [map_sortBy_group, filter_sortBy_ownerKey]
    have hcolumnSorts : ∀ col, SortOf columnKey
        (((group (·.runtimeP2pCol) read col).map (sortBy columnKey)).getD [])
        (read.filter fun owner => decide (owner.runtimeP2pCol = col)) := by
      intro col
      rw [map_sortBy_group]
      exact sortBy_sortOf columnKey _
    refine ⟨⟨header, rest, read, hlines, hread, sortBy_sortOf ownerKey read, hcolumnSorts⟩,
      sortBy_sorted ownerKey read, hcolumns, hpositions, ?_⟩
    have hbyCol : (sortBy ownerKey read).Pairwise fun a b => a.runtimeP2pCol ≤ b.runtimeP2pCol := by
      refine (sortBy_sorted ownerKey read).imp ?_
      intro a b hle
      rw [ownerKey, ownerKey, Prod.Lex.toLex_le_toLex] at hle
      rcases hle with hlt | ⟨heq, -⟩
      · exact hlt.le
      · exact heq.le
    have hall := flatMap_columns (n := custodyCols) hbyCol fun owner howner =>
      (hpositions owner howner).2.2
    dsimp only
    conv_lhs => rw [hall]
    apply List.flatMap_congr
    intro col _
    exact (hcolumns col).symm

/-- The inventory as it is read: each store in the column of its peer id, the list the columns one
    behind the other, and equal stores in the order of the file. -/
theorem readRuntimeStoreOwners_columns {crypto : SpCryptoHashing} {env : String → Option String}
    {content : String} {custodyCols : Nat} {owners : StoreOwners}
    (hcols : custodyColsFromEnv env = .ok custodyCols)
    (h : readRuntimeStoreOwners crypto content custodyCols = .ok owners) :
    Inventory crypto content custodyCols owners :=
  inventory_of_read (custodyCols_pos hcols) h

/-- Two stores of one column, one of them on two lines, and a blank line. -/
def twoStores : String :=
  "store_name,store_host,store_cda_multiaddr,runtime_cda_peer_id,runtime_p2p_col\n" ++
    "b,host,m1,12D3,0\r\n\na, host ,m2,12D4,0\nb,host,m3,12D3,0\n"

theorem readRuntimeStoreOwners_columns_two :
    ∃ owners, readRuntimeStoreOwners noCrypto twoStores 8 = .ok owners ∧
      Inventory noCrypto twoStores 8 owners := by
  have hcols : custodyColsFromEnv (fun _ => some "8") = .ok 8 := by decide +kernel
  have hread : (readRuntimeStoreOwners noCrypto twoStores 8).isOk = true := by decide +kernel
  cases howners : readRuntimeStoreOwners noCrypto twoStores 8 with
  | error e =>
    rw [howners] at hread
    cases hread
  | ok owners => exact ⟨owners, rfl, readRuntimeStoreOwners_columns hcols howners⟩

/-! ## The active stores -/

structure ActiveOwnerScope where
  profile : String
  mode : String
  networkRows : List Nat
  replicasPerDestinationCell : Nat
  fatReplicasPerColumn : Option Nat
  ownerCount : Nat
  generatedOwnerCount : Nat
  inactiveOwnerFilteredCount : Nat
deriving DecidableEq

def parseU32List (value : String) : List Nat :=
  (value.toList.splitOn ',').filterMap fun item => (parseU32 (String.ofList (trim item))).toOption

section

variable (env : String → Option String)

def envU32 (name : String) : Option Nat := (env name).bind fun value => (parseU32 value).toOption

def activeScopeFromEnv (generatedOwners : List RuntimeOwner) : ActiveOwnerScope :=
  let profile := ((env "CDA_ACTIVE_TOPOLOGY_PROFILE").or
    (env "CDA_TOPOLOGY_PROFILE")).getD "stage-c"
  let mode := (env "ENGRAM_REQUIRED_CELL_OWNER_SCOPE").getD
    (if profile = "stage-c" then "all" else "active")
  let defaultRows :=
    if profile = "stage-b" ∨ profile = "stage-b-plus" then [0]
    else
      let rows := (generatedOwners.filterMap (·.networkRow)).mergeSort.destutter (· ≠ ·)
      if rows = [] then [0] else rows
  let networkRows := (((env "CDA_ACTIVE_STORE_Q_NETWORK_ROWS").map parseU32List).filter
    (· ≠ [])).getD defaultRows
  let replicasPerDestinationCell :=
    (envU32 env "CDA_ACTIVE_STORE_Q_REPLICAS_PER_DESTINATION_CELL").getD
      (if profile = "stage-b" then 1 else if profile = "stage-b-plus" then 2 else u32Max)
  { profile
    mode
    networkRows
    replicasPerDestinationCell
    fatReplicasPerColumn := envU32 env "CDA_ACTIVE_FAT_REPLICAS_PER_COLUMN"
    ownerCount := 0
    generatedOwnerCount := generatedOwners.length
    inactiveOwnerFilteredCount := 0 }

end

/-- A store in the scope. -/
def ActiveOwnerScope.includes (scope : ActiveOwnerScope) (owner : RuntimeOwner) : Bool :=
  scope.networkRows.contains (owner.networkRow.getD u32Max)
    && decide (owner.destinationCellReplica.getD u32Max < scope.replicasPerDestinationCell)

def filterActiveOwners (generatedOwners : List RuntimeOwner) (scope : ActiveOwnerScope) :
    Except String (List RuntimeOwner) :=
  if scope.mode = "all" ∨ scope.profile = "stage-c" then .ok generatedOwners
  else
    let metadataMissing := generatedOwners.any fun owner =>
      owner.networkRow.isNone || owner.destinationCellReplica.isNone
    if metadataMissing then
      .error ("active Store-Q owner filtering requires network_row and "
        ++ "destination_cell_replica metadata")
    else
      let active := generatedOwners.filter scope.includes
      if active = [] then
        .error "active Store-Q owner filtering produced an empty publisher owner set"
      else .ok active

/-- The order of an `Option`: nothing comes first. -/
def optionRank : Option Nat → Nat
  | none => 0
  | some n => n + 1

/-- What an active column is sorted by. -/
def activeKey (owner : RuntimeOwner) : Nat ×ₗ Nat ×ₗ String :=
  toLex (optionRank owner.networkRow,
    toLex (optionRank owner.destinationCellReplica, owner.storeName))

/-- The active stores by column. -/
def activeOwnersByCol (active : List RuntimeOwner) (col : Nat) : Option (List RuntimeOwner) :=
  (group (·.runtimeP2pCol) active col).map (sortBy activeKey)

theorem activeOwnersByCol_getD (active : List RuntimeOwner) (col : Nat) :
    (activeOwnersByCol active col).getD []
      = sortBy activeKey (active.filter fun owner => decide (owner.runtimeP2pCol = col)) := by
  rw [activeOwnersByCol, group_eq]
  split
  case isTrue hnone =>
    rw [hnone]
    simp [sortBy]
  case isFalse => rfl

/-- Choosing active stores never changes their order, and all of them are from the inventory. -/
theorem filterActiveOwners_sublist {generatedOwners active : List RuntimeOwner}
    {scope : ActiveOwnerScope} (h : filterActiveOwners generatedOwners scope = .ok active) :
    active.Sublist generatedOwners := by
  unfold filterActiveOwners at h
  split at h
  case isTrue =>
    obtain rfl := Except.ok.inj h
    exact List.Sublist.refl _
  case isFalse =>
    dsimp only at h
    split at h
    case isTrue => cases h
    case isFalse =>
      split at h
      case isTrue => cases h
      case isFalse =>
        obtain rfl := Except.ok.inj h
        exact List.filter_sublist

end BuildPayloadRecoveryMapNative

end AvailRust
