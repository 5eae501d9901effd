/-
  The node's storage, and the RPCs that read it.

  A `Storage` is what a block's state holds, sorted by keys. A node that holds some storage at
  a block (`Serves`) answers for that block from it and may answer whatever it likes about any
  other block. `unhex` reads the texts the node and the client write keys and values as.
-/
import AvailRust.Client.Node
import AvailRust.Lib.Paging

namespace AvailRust

open Scale Dialogue Paging

/-! ## The storage RPCs -/

inductive StateRequest where
  | getStorage (key : String) (hash : Option H256)
  | getKeysPaged (keyPrefix : Option String) (count : Nat) (startKey : Option String)
    (hash : Option H256)
deriving DecidableEq

abbrev StateRequest.Response : StateRequest → Type
  | .getStorage _ _ => Option String
  | .getKeysPaged _ _ _ _ => List String

/-- What the next request is met with. -/
abbrev StateView := (r : StateRequest) → Except RpcError r.Response

abbrev StateRpc (α : Type) := Prog StateRequest StateView α

def stateRequest (r : StateRequest) : StateRpc (Except RpcError r.Response) := do
  let view ← ask r
  pure (view r)

/-- The bytes of a hexadecimal text, with or without `0x`. -/
def unhex (text : String) : Except String Bytes :=
  Hex.decode (Hex.trimStartMatches "0x".toList text.toList)

theorem unhex_hexText (bytes : Bytes) : unhex (hexText bytes) = .ok bytes := by
  have htext : (hexText bytes).toList = "0x".toList ++ Hex.encode bytes := String.toList_ofList
  have hno : ¬ "0x".toList <+: Hex.encode bytes := Hex.not_zeroX_encode bytes
  rw [unhex, htext, Hex.trimStartMatches_append (by decide) hno, Hex.decode_encode]

theorem unhex_encode (bytes : Bytes) : unhex (String.ofList (Hex.encode bytes)) = .ok bytes := by
  have htext : (String.ofList (Hex.encode bytes)).toList = Hex.encode bytes :=
    String.toList_ofList
  have hno : ¬ "0x".toList <+: Hex.encode bytes := Hex.not_zeroX_encode bytes
  rw [unhex, htext, Hex.trimStartMatches_of_not hno, Hex.decode_encode]

def getStorage (key : String) (hash : Option H256) :
    StateRpc (Except RpcError (Option Bytes)) := do
  match ← stateRequest (.getStorage key hash) with
  | .error e => pure (.error e)
  | .ok none => pure (.ok none)
  | .ok (some value) =>
    match unhex value with
    | .error e => pure (.error (.malformedResponse e))
    | .ok value => pure (.ok (some value))

def getKeysPaged (keyPrefix : Option String) (count : Nat) (startKey : Option String)
    (hash : Option H256) : StateRpc (Except RpcError (List String)) :=
  stateRequest (.getKeysPaged keyPrefix count startKey hash)

/-! ## A node that holds some storage -/

/-- Keys and values, by keys. -/
structure Storage where
  entries : List (Bytes × Bytes)
  sorted : (entries.map Prod.fst).Pairwise (· < ·)

namespace Storage

def get (storage : Storage) (key : Bytes) : Option Bytes :=
  (storage.entries.find? (fun entry => entry.1 = key)).map Prod.snd

/-- The entries whose keys start with `partialKey`. -/
def under (storage : Storage) (partialKey : Bytes) : List (Bytes × Bytes) :=
  storage.entries.filter (fun entry => partialKey.isPrefixOf entry.1)

/-- The first keys that start with `partialKey` and come after `startKey`. -/
def keysPaged (storage : Storage) (partialKey : Bytes) (count : Nat) (startKey : Option Bytes) :
    List Bytes :=
  (after startKey ((storage.under partialKey).map Prod.fst)).take count

theorem get_of_mem (storage : Storage) {entry : Bytes × Bytes} (h : entry ∈ storage.entries) :
    storage.get entry.1 = some entry.2 := by
  obtain ⟨entries, sorted⟩ := storage
  simp only [get] at h ⊢
  induction entries with
  | nil => cases h
  | cons first entries ih =>
    rw [List.map_cons, List.pairwise_cons] at sorted
    rcases List.mem_cons.mp h with rfl | h
    · rw [List.find?_cons_of_pos (by simp)]
      rfl
    · have hlt := sorted.1 entry.1 (List.mem_map_of_mem h)
      have hne : first.1 ≠ entry.1 := fun he => List.lt_irrefl _ (he ▸ hlt)
      rw [List.find?_cons_of_neg (by simpa using hne)]
      exact ih sorted.2 h

theorem sorted_under (storage : Storage) (partialKey : Bytes) :
    ((storage.under partialKey).map Prod.fst).Pairwise (· < ·) :=
  storage.sorted.sublist (List.filter_sublist.map _)

/-- After the last key that was read come those that were not. -/
theorem after_under (storage : Storage) {partialKey : Bytes} {read unread : List (Bytes × Bytes)}
    (hunder : storage.under partialKey = read ++ unread) :
    after (read.getLast?.map Prod.fst) ((storage.under partialKey).map Prod.fst)
      = unread.map Prod.fst := by
  have hsorted := storage.sorted_under partialKey
  rw [hunder, List.map_append] at hsorted ⊢
  rw [← List.getLast?_map]
  exact after_read hsorted

end Storage

/-- How a node answers that holds `storage` at block `hash`. -/
structure Serves (storage : Storage) (hash : H256) (view : StateView) : Prop where
  getStorage : ∀ text key, unhex text = .ok key →
    view (.getStorage text (some hash)) = .ok ((storage.get key).map hexText)
  getKeysPaged : ∀ prefixText partialKey count startText startKey,
    unhex prefixText = .ok partialKey → startText.mapM unhex = .ok startKey →
    view (.getKeysPaged (some prefixText) count startText (some hash))
      = .ok ((storage.keysPaged partialKey count startKey).map hexText)

/-- Such a node. -/
def Storage.view (storage : Storage) : StateView
  | .getStorage text _ =>
    match unhex text with
    | .error e => .error (.rpc e)
    | .ok key => .ok ((storage.get key).map hexText)
  | .getKeysPaged prefixText count startText _ =>
    match unhex (prefixText.getD ""), startText.mapM unhex with
    | .ok partialKey, .ok startKey =>
      .ok ((storage.keysPaged partialKey count startKey).map hexText)
    | _, _ => .error (.rpc "invalid key")

theorem Storage.view_serves (storage : Storage) (hash : H256) :
    Serves storage hash storage.view where
  getStorage text key h := by simp only [Storage.view, h]
  getKeysPaged prefixText partialKey count startText startKey hprefix hstart := by
    simp only [Storage.view, Option.getD_some, hprefix, hstart]

section

variable {storage : Storage} {hash : H256}

theorem getStorage_settles {text : String} {key value : Bytes} (hkey : unhex text = .ok key)
    (hvalue : storage.get key = some value) :
    Settles (Serves storage hash) (getStorage text (some hash)) (.ok (some value)) := by
  have hasked : Settles (Serves storage hash) (stateRequest (.getStorage text (some hash)))
      (.ok (some (hexText value))) := by
    refine .ask fun view hview => ?_
    rw [hview.getStorage text key hkey, hvalue]
    rfl
  refine hasked.bind ?_
  simp only [unhex_hexText]
  exact .pure _

theorem mapM_unhex (key : Option Bytes) : (key.map hexText).mapM unhex = .ok key := by
  rcases key with _ | key
  · rfl
  · show (some <$> unhex (hexText key)) = _
    rw [unhex_hexText]
    rfl

/-- The page that follows the keys already read. -/
theorem getKeysPaged_settles {partialKey : Bytes} {read unread : List (Bytes × Bytes)}
    (hunder : storage.under partialKey = read ++ unread) (count : Nat) :
    Settles (Serves storage hash)
      (getKeysPaged (some (String.ofList (Hex.encode partialKey))) count
        ((read.getLast?.map Prod.fst).map hexText) (some hash))
      (.ok ((unread.take count).map fun entry => hexText entry.1)) := by
  refine .ask fun view hview => ?_
  rw [hview.getKeysPaged _ _ count _ _ (unhex_encode partialKey) (mapM_unhex _),
    Storage.keysPaged, storage.after_under hunder, ← List.map_take, List.map_map]
  rfl

end

end AvailRust
