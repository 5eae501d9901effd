/-
  Iterating over storage.

  An iterator asks for the keys under its prefix in pages of a hundred, each page after the
  last key it returned, and for the value of one key a call. Against a node that holds some
  storage at the pinned block, it takes the entries under its prefix one by one
  (`nextKeyValue_settles`); an entry whose value or key does not decode stops it.
-/
import AvailRust.Storage.State

namespace AvailRust

open Scale Dialogue Paging

/-- The fields of `StorageMapIterator` and of `StorageDoubleMapIterator`. -/
structure StorageIterator where
  blockHash : H256
  fetchedKeys : List String
  lastKey : Option String
  isDone : Bool
  keyPrefix : String

namespace StorageIterator

def new (partialKey : Bytes) (blockHash : H256) : StorageIterator where
  blockHash
  fetchedKeys := []
  lastKey := none
  isDone := false
  keyPrefix := String.ofList (Hex.encode partialKey)

def fetchNewKeys (it : StorageIterator) : StateRpc (Except RpcError Unit × StorageIterator) := do
  match ← getKeysPaged (some it.keyPrefix) 100 it.lastKey (some it.blockHash) with
  | .error e => pure (.error e, it)
  | .ok keys =>
    pure (.ok (), { it with
      fetchedKeys := keys.reverse
      isDone := if keys.reverse.isEmpty then true else it.isDone })

variable {Key Value : Type} [Decode Value]

def fetchStorageValue (Value : Type) [Decode Value] (it : StorageIterator) (key : String) :
    StateRpc (Except RpcError (Option Value)) := do
  match ← getStorage key (some it.blockHash) with
  | .error e => pure (.error e)
  | .ok none => pure (.ok none)
  | .ok (some value) =>
    match (decode : Decoder Value) value with
    | .error e => pure (.error (.decodingFailed e))
    | .ok (value, _) => pure (.ok (some value))

/-- The key a text of the node stands for. -/
def decodeKeyText (decodeStorageKey : Decoder Key) (storageKey : String) : Except RpcError Key :=
  match unhex storageKey with
  | .error e => .error (.decodingFailed e)
  | .ok key =>
    match decodeStorageKey key with
    | .error e => .error (.decodingFailed e)
    | .ok (key, _) => .ok key

/-- `next_key_value` of both iterators; they differ in how they decode a key. -/
def nextKeyValue (decodeStorageKey : Decoder Key) (it : StorageIterator) :
    StateRpc (Except RpcError (Option (Key × Value)) × StorageIterator) := do
  if it.isDone then pure (.ok none, it)
  else
    match ← (if it.fetchedKeys.isEmpty then it.fetchNewKeys else pure (.ok (), it)) with
    | (.error e, it) => pure (.error e, it)
    | (.ok (), it) =>
      match it.fetchedKeys.getLast? with
      | none => pure (.ok none, it)
      | some storageKey =>
        match ← it.fetchStorageValue Value storageKey with
        | .error e => pure (.error e, it)
        | .ok none => pure (.ok none, it)
        | .ok (some storageValue) =>
          match decodeKeyText decodeStorageKey storageKey with
          | .error e => pure (.error e, it)
          | .ok key =>
            pure (.ok (some (key, storageValue)), { it with
              lastKey := some storageKey
              fetchedKeys := it.fetchedKeys.dropLast })

/-! ## What a call gives -/

/-- What is read of an entry. -/
def readEntry (Value : Type) [Decode Value] (decodeStorageKey : Decoder Key)
    (entry : Bytes × Bytes) : Except RpcError (Key × Value) :=
  match (decode : Decoder Value) entry.2 with
  | .error e => .error (.decodingFailed e)
  | .ok (value, _) =>
    match decodeStorageKey entry.1 with
    | .error e => .error (.decodingFailed e)
    | .ok (key, _) => .ok (key, value)

/-- The iterator has still to take `rest` of the entries under its prefix. -/
structure At (storage : Storage) (hash : H256) (partialKey : Bytes) (it : StorageIterator)
    (rest : List (Bytes × Bytes)) : Prop where
  blockHash : it.blockHash = hash
  keyPrefix : it.keyPrefix = String.ofList (Hex.encode partialKey)
  isDone : it.isDone = true → rest = []
  place : ∃ taken fetched later, storage.under partialKey = taken ++ rest ∧
    rest = fetched ++ later ∧
    it.lastKey = (taken.getLast?.map Prod.fst).map hexText ∧
    it.fetchedKeys = (fetched.map fun entry => hexText entry.1).reverse

variable {storage : Storage} {hash : H256} {partialKey : Bytes} {it : StorageIterator}
  {rest : List (Bytes × Bytes)}

theorem new_at : At storage hash partialKey (new partialKey hash) (storage.under partialKey) where
  blockHash := rfl
  keyPrefix := rfl
  isDone := nofun
  place := ⟨[], [], storage.under partialKey, rfl, rfl, rfl, rfl⟩

/-- The next entry is one of those under the prefix. -/
theorem At.next_mem {entry : Bytes × Bytes} (h : At storage hash partialKey it (entry :: rest)) :
    entry ∈ storage.under partialKey := by
  obtain ⟨taken, -, -, hunder, -⟩ := h.place
  rw [hunder]
  exact List.mem_append_right _ List.mem_cons_self

/-- The last fetched key is that of the next entry. -/
theorem At.head_of_fetched (h : At storage hash partialKey it rest)
    (hfetched : ¬ it.fetchedKeys.isEmpty) :
    it.fetchedKeys.getLast? = rest.head?.map fun entry => hexText entry.1 := by
  obtain ⟨taken, fetched, later, -, hrest, -, hkeys⟩ := h.place
  rw [hkeys, List.getLast?_reverse, List.head?_map, hrest]
  cases fetched with
  | nil =>
    rw [hkeys] at hfetched
    exact absurd rfl hfetched
  | cons entry fetched => rfl

/-- After fetching keys when there are none, the last one is that of the next entry. -/
theorem fetch_settles (h : At storage hash partialKey it rest) : ∃ it',
    Settles (Serves storage hash)
      (if it.fetchedKeys.isEmpty then it.fetchNewKeys else pure (.ok (), it)) (.ok (), it') ∧
    At storage hash partialKey it' rest ∧
    it'.fetchedKeys.getLast? = rest.head?.map fun entry => hexText entry.1 := by
  obtain ⟨taken, fetched, later, hunder, hrest, hlast, hfetched⟩ := h.place
  by_cases hempty : it.fetchedKeys.isEmpty
  · rw [if_pos hempty]
    have hpage : Settles (Serves storage hash)
        (getKeysPaged (some it.keyPrefix) 100 it.lastKey (some it.blockHash))
        (.ok ((rest.take 100).map fun entry => hexText entry.1)) := by
      rw [h.keyPrefix, h.blockHash, hlast]
      exact getKeysPaged_settles hunder 100
    refine ⟨_, hpage.bind (.pure _), ⟨h.blockHash, h.keyPrefix, ?_, taken, rest.take 100,
      rest.drop 100, hunder, (List.take_append_drop 100 rest).symm, hlast, rfl⟩, ?_⟩
    · -- an empty page means that nothing is left
      intro hdone
      by_cases hnone : rest = []
      · exact hnone
      · rw [if_neg (by simpa using hnone)] at hdone
        exact h.isDone hdone
    · rcases rest with _ | ⟨entry, rest⟩
      · rfl
      · exact List.getLast?_reverse
  · rw [if_neg hempty]
    exact ⟨it, .pure _, h, h.head_of_fetched hempty⟩

/-- The state once the last fetched key is returned. -/
theorem At.popped {entry : Bytes × Bytes} (h : At storage hash partialKey it (entry :: rest))
    (hkey : it.fetchedKeys.getLast? = some (hexText entry.1)) :
    At storage hash partialKey { it with
      lastKey := some (hexText entry.1)
      fetchedKeys := it.fetchedKeys.dropLast } rest := by
  obtain ⟨taken, fetched, later, hunder, hrest, hlast, hfetched⟩ := h.place
  rcases fetched with _ | ⟨first, fetched⟩
  · rw [hfetched] at hkey
    cases hkey
  · obtain ⟨rfl, rfl⟩ := List.cons_eq_cons.mp hrest
    refine ⟨h.blockHash, h.keyPrefix, fun hdone => ?_, taken ++ [entry], fetched, later, ?_, rfl,
      ?_, ?_⟩
    · cases h.isDone hdone
    · rw [hunder, List.append_assoc]
      rfl
    · rw [List.getLast?_concat]
      rfl
    · rw [hfetched, List.map_cons, List.reverse_cons, List.dropLast_concat]

/-- The value of a stored entry is what its bytes decode to. -/
theorem fetchStorageValue_settles {entry : Bytes × Bytes} (hblock : it.blockHash = hash)
    (hmem : entry ∈ storage.entries) :
    Settles (Serves storage hash) (it.fetchStorageValue Value (hexText entry.1))
      ((((decode : Decoder Value) entry.2).map fun p => some p.1).mapError .decodingFailed) := by
  have hget : Settles (Serves storage hash) (getStorage (hexText entry.1) (some it.blockHash))
      (.ok (some entry.2)) := by
    rw [hblock]
    exact getStorage_settles (unhex_hexText _) (storage.get_of_mem hmem)
  refine hget.bind ?_
  rcases hdecode : (decode : Decoder Value) entry.2 with e | ⟨value, left⟩
  · simp only [hdecode]
    exact .pure _
  · simp only [hdecode]
    exact .pure _

/-- A call takes the next entry. -/
theorem nextKeyValue_settles (Value : Type) [Decode Value] (decodeStorageKey : Decoder Key)
    (h : At storage hash partialKey it rest) : ∃ it',
    Settles (Serves storage hash) (it.nextKeyValue decodeStorageKey)
      ((takeItem (readEntry Value decodeStorageKey) rest).1, it') ∧
    At storage hash partialKey it'
      (takeItem (readEntry Value decodeStorageKey) rest).2 := by
  unfold nextKeyValue
  by_cases hdone : it.isDone
  · rw [if_pos hdone, h.isDone hdone]
    have hat := h.isDone hdone ▸ h
    exact ⟨it, .pure _, hat⟩
  rw [if_neg hdone]
  obtain ⟨it1, hfetch, hat, hkey⟩ := fetch_settles h
  rcases rest with _ | ⟨entry, rest⟩
  · refine ⟨it1, hfetch.bind ?_, hat⟩
    simp only [hkey]
    exact .pure _
  have hmem : entry ∈ storage.entries := List.mem_of_mem_filter hat.next_mem
  have hfound : Settles (Serves storage hash) (it1.fetchStorageValue Value (hexText entry.1))
      ((((decode : Decoder Value) entry.2).map fun p => some p.1).mapError .decodingFailed) :=
    fetchStorageValue_settles hat.blockHash hmem
  rcases hdecode : (decode : Decoder Value) entry.2 with e | ⟨value, left⟩
  · -- the value does not decode
    have hread : readEntry Value decodeStorageKey entry = .error (.decodingFailed e) := by
      simp only [readEntry, hdecode]
    rw [takeItem_error hread]
    refine ⟨it1, hfetch.bind ?_, hat⟩
    simp only [hkey]
    rw [hdecode] at hfound
    exact hfound.bind (.pure _)
  rw [hdecode] at hfound
  rcases hdecodeKey : decodeStorageKey entry.1 with e | ⟨key, left⟩
  · -- the key does not decode
    have hread : readEntry Value decodeStorageKey entry = .error (.decodingFailed e) := by
      simp only [readEntry, hdecode, hdecodeKey]
    have htext : decodeKeyText decodeStorageKey (hexText entry.1) = .error (.decodingFailed e) := by
      simp only [decodeKeyText, unhex_hexText, hdecodeKey]
    rw [takeItem_error hread]
    refine ⟨it1, hfetch.bind ?_, hat⟩
    simp only [hkey]
    refine hfound.bind ?_
    simp only [htext]
    exact .pure _
  · have hread : readEntry Value decodeStorageKey entry = .ok (key, value) := by
      simp only [readEntry, hdecode, hdecodeKey]
    have htext : decodeKeyText decodeStorageKey (hexText entry.1) = .ok key := by
      simp only [decodeKeyText, unhex_hexText, hdecodeKey]
    rw [takeItem_ok hread]
    refine ⟨_, ?_, hat.popped hkey⟩
    refine hfetch.bind ?_
    simp only [hkey]
    refine hfound.bind ?_
    simp only [htext]
    exact .pure _

/-- The calls take the entries one by one. -/
theorem calls_settles (Value : Type) [Decode Value] (decodeStorageKey : Decoder Key) (n : Nat)
    (h : At storage hash partialKey it rest) : ∃ it',
    Settles (Serves storage hash) (calls (nextKeyValue decodeStorageKey) n it)
      (taken (readEntry Value decodeStorageKey) n rest, it') := by
  induction n generalizing it rest with
  | zero => exact ⟨it, .pure _⟩
  | succ n ih =>
    obtain ⟨it1, hnext, hat⟩ := nextKeyValue_settles Value decodeStorageKey h
    obtain ⟨it', hcalls⟩ := ih hat
    exact ⟨it', hnext.bind (hcalls.bind (.pure _))⟩

end StorageIterator

end AvailRust
