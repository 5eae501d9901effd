/-
  Iterating over a storage map against a node that may fail.

  `Answers` is one move of a node that holds some storage: each request fails or is answered
  from the storage, a page with any first part of the keys after the start key. A call of
  `next` or `next_key_value` takes the next entry or, if the node failed, nothing
  (`nextWith_cases`); so whatever the order of calls and of failures, the calls that succeed
  give the entries one after the other (`iterates`).
-/
import AvailRust.Client.Utils
import AvailRust.Storage.Iterator
import AvailRust.Storage.Keys

namespace AvailRust

open Scale Dialogue Paging

/-! ## The iterator of a map -/

namespace StorageIterator

/-- `next` and `next_key_value` up to what they make of the key and the value. -/
def nextWith {Value α : Type} [Decode Value] (finish : String → Value → Except RpcError α)
    (it : StorageIterator) : StateRpc (Except RpcError (Option α) × StorageIterator) := do
  if it.isDone then pure (.ok none, it)
  else
    match ← (if it.fetchedKeys.isEmpty then it.fetchNewKeys else pure (.ok (), it)) with
    | (.error e, it) => pure (.error e, it)
    | (.ok (), it) =>
      match it.fetchedKeys.getLast? with
      | none => pure (.ok none, it)
      | some storageKey =>
        match ← it.fetchStorageValue Value storageKey with
        | .error e => pure (.error e, it)
        | .ok none => pure (.ok none, it)
        | .ok (some storageValue) =>
          match finish storageKey storageValue with
          | .error e => pure (.error e, it)
          | .ok x =>
            pure (.ok (some x), { it with
              lastKey := some storageKey
              fetchedKeys := it.fetchedKeys.dropLast })

/-- `next`, which does not look into the key. -/
def next (Value : Type) [Decode Value] (it : StorageIterator) :
    StateRpc (Except RpcError (Option Value) × StorageIterator) :=
  it.nextWith fun _ storageValue => .ok storageValue

/-- The other one decodes the key as well. -/
theorem nextKeyValue_eq {Key Value : Type} [Decode Value] (decodeStorageKey : Decoder Key)
    (it : StorageIterator) :
    it.nextKeyValue decodeStorageKey = it.nextWith fun storageKey (storageValue : Value) =>
      (fun key => (key, storageValue)) <$> decodeKeyText decodeStorageKey storageKey := by
  unfold nextKeyValue nextWith
  congr 1
  congr 1
  funext p
  obtain ⟨r, it1⟩ := p
  cases r with
  | error e => rfl
  | ok u =>
    cases hkey : it1.fetchedKeys.getLast? with
    | none => simp only [hkey]
    | some storageKey =>
      simp only [hkey]
      congr 1
      funext r
      rcases r with e | _ | storageValue
      · rfl
      · rfl
      · rcases decodeKeyText decodeStorageKey storageKey with e | key
        · rfl
        · rfl

end StorageIterator

/-! ## A node that may fail -/

/-- One move of a node that holds `storage` at block `hash`: a request fails, or is answered from
    the storage. A page is any first part of the keys after the start key, as long as it has a
    key when there is one. -/
structure Answers (storage : Storage) (hash : H256) (view : StateView) : Prop where
  getStorage : ∀ text key, unhex text = .ok key →
    (∃ e, view (.getStorage text (some hash)) = .error e) ∨
      view (.getStorage text (some hash)) = .ok ((storage.get key).map hexText)
  getKeysPaged : ∀ prefixText partialKey count startText startKey, 0 < count →
    unhex prefixText = .ok partialKey → startText.mapM unhex = .ok startKey →
    (∃ e, view (.getKeysPaged (some prefixText) count startText (some hash)) = .error e) ∨
      ∃ page, view (.getKeysPaged (some prefixText) count startText (some hash))
          = .ok (page.map hexText) ∧ page.length ≤ count ∧
        page <+: after startKey ((storage.under partialKey).map Prod.fst) ∧
        (page = [] → after startKey ((storage.under partialKey).map Prod.fst) = [])

/-- A node that answers everything, with full pages. -/
theorem Serves.answers {storage : Storage} {hash : H256} {view : StateView}
    (h : Serves storage hash view) : Answers storage hash view where
  getStorage text key hkey := .inr (h.getStorage text key hkey)
  getKeysPaged prefixText partialKey count startText startKey hcount hprefix hstart := by
    refine .inr ⟨_, h.getKeysPaged _ _ _ _ _ hprefix hstart, ?_, List.take_prefix _ _, ?_⟩
    · exact List.length_take_le _ _
    · intro hnil
      rcases List.take_eq_nil_iff.mp hnil with hzero | hnone
      · omega
      · exact hnone

abbrev StateWorld := World StateRequest StateView

/-- How many requests failed. -/
def failures (w : StateWorld) : Nat := w.trace.countP fun q => isError (q.2 q.1)

/-- The node still plays such moves. -/
def Remaining (storage : Storage) (hash : H256) (w : StateWorld) : Prop :=
  ∀ view ∈ w.script, Answers storage hash view

variable {storage : Storage} {hash : H256} {w w' : StateWorld}

/-- One request: it failed, or its answer is that of such a move. -/
theorem stateRequest_cases {r : StateRequest} {x : Except RpcError r.Response}
    (hw : Remaining storage hash w) (h : stateRequest r w = some (x, w')) :
    ∃ view, Answers storage hash view ∧ x = view r ∧ Remaining storage hash w' ∧
      failures w' = failures w + if isError x then 1 else 0 := by
  obtain ⟨view, w1, hask, hpure⟩ := bind_eq_some.mp h
  obtain ⟨rfl, rfl⟩ := pure_eq_some.mp hpure
  obtain ⟨hscript, htrace⟩ := ask_eq_some.mp hask
  refine ⟨view, hw view (by rw [hscript]; exact List.mem_cons_self), rfl, ?_, ?_⟩
  · intro later hlater
    exact hw later (by rw [hscript]; exact List.mem_cons_of_mem _ hlater)
  · unfold failures
    rw [htrace, List.countP_cons]

theorem getStorage_cases {text : String} {key value : Bytes} {x : Except RpcError (Option Bytes)}
    (hkey : unhex text = .ok key) (hvalue : storage.get key = some value)
    (hw : Remaining storage hash w) (h : getStorage text (some hash) w = some (x, w')) :
    Remaining storage hash w' ∧
      ((∃ e, x = .error e) ∧ failures w' = failures w + 1 ∨
        x = .ok (some value) ∧ failures w' = failures w) := by
  obtain ⟨response, w1, hask, h⟩ := bind_eq_some.mp h
  obtain ⟨view, hview, hx, hw1, hfailures⟩ := stateRequest_cases hw hask
  rcases hview.getStorage text key hkey with ⟨e, he⟩ | hok
  · rw [hx, he] at h hfailures
    obtain ⟨rfl, rfl⟩ := pure_eq_some.mp h
    exact ⟨hw1, .inl ⟨⟨e, rfl⟩, hfailures⟩⟩
  · rw [hx, hok, hvalue] at h
    rw [hx, hok] at hfailures
    simp only [Option.map_some, unhex_hexText] at h
    obtain ⟨rfl, rfl⟩ := pure_eq_some.mp h
    exact ⟨hw1, .inr ⟨rfl, hfailures⟩⟩

/-- A page behind the keys already read: the texts of the next keys, some if there are any. -/
theorem getKeysPaged_cases {partialKey : Bytes} {read unread : List (Bytes × Bytes)}
    (hunder : storage.under partialKey = read ++ unread) {count : Nat} (hcount : 0 < count)
    {x : Except RpcError (List String)} (hw : Remaining storage hash w)
    (h : getKeysPaged (some (String.ofList (Hex.encode partialKey))) count
      ((read.getLast?.map Prod.fst).map hexText) (some hash) w = some (x, w')) :
    Remaining storage hash w' ∧
      ((∃ e, x = .error e) ∧ failures w' = failures w + 1 ∨
        (∃ page later, unread = page ++ later ∧ (page = [] → unread = []) ∧
          x = .ok (page.map fun entry => hexText entry.1)) ∧ failures w' = failures w) := by
  obtain ⟨view, hview, hx, hw1, hfailures⟩ := stateRequest_cases hw h
  refine ⟨hw1, ?_⟩
  rcases hview.getKeysPaged _ _ count _ _ hcount (unhex_encode partialKey) (mapM_unhex _) with
    ⟨e, he⟩ | ⟨page, hok, -, hfirst, hsome⟩
  · rw [hx, he] at hfailures
    rw [hx, he]
    exact .inl ⟨⟨e, rfl⟩, hfailures⟩
  · rw [hx, hok] at hfailures
    rw [storage.after_under hunder] at hfirst hsome
    refine .inr ⟨⟨unread.take page.length, unread.drop page.length,
      (List.take_append_drop _ _).symm, ?_, ?_⟩, hfailures⟩
    · intro hnil
      rcases List.take_eq_nil_iff.mp hnil with hzero | hnone
      · exact List.map_eq_nil_iff.mp (hsome (List.eq_nil_of_length_eq_zero hzero))
      · exact hnone
    · have hpage : page = (unread.take page.length).map Prod.fst := by
        rw [List.map_take]
        exact List.prefix_iff_eq_take.mp hfirst
      rw [hx, hok, hpage, List.map_map, ← hpage]
      rfl

/-! ## What a call does -/

namespace StorageIterator

variable {partialKey : Bytes} {it it' : StorageIterator} {rest : List (Bytes × Bytes)}

/-- Fetching keys when there are none: the node failed, or the last key is that of the next
    entry. -/
theorem fetch_cases (hat : At storage hash partialKey it rest) (hw : Remaining storage hash w)
    {x : Except RpcError Unit}
    (h : (if it.fetchedKeys.isEmpty then it.fetchNewKeys else pure (.ok (), it)) w
      = some ((x, it'), w')) :
    Remaining storage hash w' ∧ At storage hash partialKey it' rest ∧
      ((∃ e, x = .error e) ∧ failures w' = failures w + 1 ∨
        (x = .ok () ∧ it'.fetchedKeys.getLast? = rest.head?.map fun entry => hexText entry.1) ∧
          failures w' = failures w) := by
  obtain ⟨taken, fetched, later, hunder, hrest, hlast, hfetched⟩ := hat.place
  by_cases hempty : it.fetchedKeys.isEmpty
  · rw [if_pos hempty] at h
    unfold fetchNewKeys at h
    rw [hat.keyPrefix, hat.blockHash, hlast] at h
    obtain ⟨keys, w1, hpage, h⟩ := bind_eq_some.mp h
    obtain ⟨hw1, hcases⟩ := getKeysPaged_cases hunder (by omega) hw hpage
    rcases hcases with ⟨⟨e, rfl⟩, hfailures⟩ | ⟨⟨page, next, hsplit, hsome, rfl⟩, hfailures⟩
    · obtain ⟨rfl, rfl, rfl⟩ := pure_pair_eq_some.mp h
      exact ⟨hw1, hat, .inl ⟨⟨e, rfl⟩, hfailures⟩⟩
    · obtain ⟨rfl, rfl, rfl⟩ := pure_pair_eq_some.mp h
      refine ⟨hw1, ⟨rfl, rfl, ?_, taken, page, next, hunder, hsplit, rfl, rfl⟩,
        .inr ⟨⟨rfl, ?_⟩, hfailures⟩⟩
      · -- an empty page means that nothing is left
        intro hdone
        by_cases hnil : page = []
        · exact hsome hnil
        · rw [if_neg (by simpa using hnil)] at hdone
          exact hat.isDone hdone
      · rcases page with _ | ⟨entry, page⟩
        · rw [hsome rfl]
          rfl
        · rw [hsplit]
          exact List.getLast?_reverse
  · rw [if_neg hempty] at h
    obtain ⟨rfl, rfl, rfl⟩ := pure_pair_eq_some.mp h
    exact ⟨hw, hat, .inr ⟨⟨rfl, hat.head_of_fetched hempty⟩, rfl⟩⟩

section

variable {Value α : Type} [Decode Value]

theorem fetchStorageValue_cases {entry : Bytes × Bytes} (hblock : it.blockHash = hash)
    (hmem : entry ∈ storage.entries) {value : Value} {left : Bytes}
    (hvalue : decode entry.2 = .ok (value, left)) (hw : Remaining storage hash w)
    {x : Except RpcError (Option Value)}
    (h : it.fetchStorageValue Value (hexText entry.1) w = some (x, w')) :
    Remaining storage hash w' ∧
      ((∃ e, x = .error e) ∧ failures w' = failures w + 1 ∨
        x = .ok (some value) ∧ failures w' = failures w) := by
  unfold fetchStorageValue at h
  rw [hblock] at h
  obtain ⟨stored, w1, hget, h⟩ := bind_eq_some.mp h
  obtain ⟨hw1, hcases⟩ := getStorage_cases (unhex_hexText _) (storage.get_of_mem hmem) hw hget
  rcases hcases with ⟨⟨e, rfl⟩, hfailures⟩ | ⟨rfl, hfailures⟩
  · obtain ⟨rfl, rfl⟩ := pure_eq_some.mp h
    exact ⟨hw1, .inl ⟨⟨e, rfl⟩, hfailures⟩⟩
  · simp only [hvalue] at h
    obtain ⟨rfl, rfl⟩ := pure_eq_some.mp h
    exact ⟨hw1, .inr ⟨rfl, hfailures⟩⟩

/-- What a call makes of an entry. -/
def readWith (finish : String → Value → Except RpcError α) (entry : Bytes × Bytes) :
    Except RpcError α :=
  match (decode : Decoder Value) entry.2 with
  | .error e => .error (.decodingFailed e)
  | .ok (value, _) => finish (hexText entry.1) value

theorem readWith_ok {finish : String → Value → Except RpcError α} {entry : Bytes × Bytes} {a : α}
    (h : readWith finish entry = .ok a) : ∃ value left,
      (decode : Decoder Value) entry.2 = .ok (value, left) ∧
      finish (hexText entry.1) value = .ok a := by
  unfold readWith at h
  rcases hvalue : (decode : Decoder Value) entry.2 with e | ⟨value, left⟩
  · simp only [hvalue, reduceCtorEq] at h
  · simp only [hvalue] at h
    exact ⟨value, left, rfl, h⟩

/-- A call takes the next entry; or the node failed once, and the call took nothing. -/
theorem nextWith_cases {finish : String → Value → Except RpcError α}
    (hgood : ∀ entry ∈ storage.under partialKey, ∃ a, readWith finish entry = .ok a)
    (hat : At storage hash partialKey it rest) (hw : Remaining storage hash w)
    {x : Except RpcError (Option α)} (h : it.nextWith finish w = some ((x, it'), w')) :
    Remaining storage hash w' ∧
      (((∃ e, x = .error e) ∧ At storage hash partialKey it' rest) ∧
          failures w' = failures w + 1 ∨
        (x = rest.head?.mapM (readWith finish) ∧ At storage hash partialKey it' rest.tail) ∧
          failures w' = failures w) := by
  unfold nextWith at h
  by_cases hdone : it.isDone
  · rw [if_pos hdone] at h
    obtain ⟨rfl, rfl, rfl⟩ := pure_pair_eq_some.mp h
    have hrest := hat.isDone hdone
    subst hrest
    exact ⟨hw, .inr ⟨⟨rfl, hat⟩, rfl⟩⟩
  rw [if_neg hdone] at h
  obtain ⟨⟨fetched, it1⟩, w1, hfetch, h⟩ := bind_eq_some.mp h
  obtain ⟨hw1, hat1, hcases⟩ := fetch_cases hat hw hfetch
  rcases hcases with ⟨⟨e, rfl⟩, hfailures⟩ | ⟨⟨rfl, hkey⟩, hfailures⟩
  · obtain ⟨rfl, rfl, rfl⟩ := pure_pair_eq_some.mp h
    exact ⟨hw1, .inl ⟨⟨⟨e, rfl⟩, hat1⟩, hfailures⟩⟩
  rcases rest with _ | ⟨entry, rest⟩
  · simp only [hkey, List.head?_nil, Option.map_none] at h
    obtain ⟨rfl, rfl, rfl⟩ := pure_pair_eq_some.mp h
    exact ⟨hw1, .inr ⟨⟨rfl, hat1⟩, hfailures⟩⟩
  have hin := hat1.next_mem
  obtain ⟨a, ha⟩ := hgood entry hin
  have hread : (entry :: rest).head?.mapM (readWith finish) = .ok (some a) := by
    change some <$> readWith finish entry = _
    rw [ha]
    rfl
  rw [hread]
  obtain ⟨value, left, hvalue, hfinish⟩ := readWith_ok ha
  simp only [hkey, List.head?_cons, Option.map_some] at h
  obtain ⟨found, w2, hfound, h⟩ := bind_eq_some.mp h
  obtain ⟨hw2, hcases⟩ := fetchStorageValue_cases hat1.blockHash (List.mem_of_mem_filter hin) hvalue
    hw1 hfound
  rcases hcases with ⟨⟨e, rfl⟩, hfailures2⟩ | ⟨rfl, hfailures2⟩
  · obtain ⟨rfl, rfl, rfl⟩ := pure_pair_eq_some.mp h
    exact ⟨hw2, .inl ⟨⟨⟨e, rfl⟩, hat1⟩, by omega⟩⟩
  · simp only [hfinish] at h
    obtain ⟨rfl, rfl, rfl⟩ := pure_pair_eq_some.mp h
    exact ⟨hw2, .inr ⟨⟨rfl, hat1.popped hkey⟩, by omega⟩⟩

theorem stateRequest_within (r : StateRequest) : Within 1 (stateRequest r) :=
  (Within.ask r).bind fun _ => .pure _

theorem fetchStorageValue_within (it : StorageIterator) (key : String) :
    Within 1 (it.fetchStorageValue Value key) := by
  have hget : Within 1 (getStorage key (some it.blockHash)) := by
    refine (stateRequest_within _).finish fun response => ?_
    split
    · exact .pure _
    · exact .pure _
    · split
      · exact .pure _
      · exact .pure _
  refine hget.finish fun stored => ?_
  split
  · exact .pure _
  · exact .pure _
  · split
    · exact .pure _
    · exact .pure _

/-- A call asks at most for a page and for a value. -/
theorem nextWith_within (finish : String → Value → Except RpcError α) (it : StorageIterator) :
    Within 2 (it.nextWith finish) := by
  have hfetch : Within 1
      (if it.fetchedKeys.isEmpty then it.fetchNewKeys else pure (.ok (), it)) := by
    split
    · refine (stateRequest_within _).finish fun keys => ?_
      split
      · exact .pure _
      · exact .pure _
    · exact (Within.pure _).mono (Nat.zero_le 1)
  unfold nextWith
  split
  · exact (Within.pure _).mono (Nat.zero_le 2)
  change Within (1 + 1) _
  refine hfetch.bind fun p => ?_
  split
  · exact (Within.pure _).mono (Nat.zero_le 1)
  split
  · exact (Within.pure _).mono (Nat.zero_le 1)
  refine (fetchStorageValue_within _ _).finish fun found => ?_
  split
  · exact .pure _
  · exact .pure _
  · split
    · exact .pure _
    · exact .pure _

end

end StorageIterator

/-! ## Calls in any order -/

/-- The two ways to take an entry. -/
inductive MapCall where
  | next
  | nextKeyValue
deriving DecidableEq

namespace StorageMap

variable {Key Value : Type} [Decode Key] [Decode Value]

def iter (crypto : SpCryptoHashing) (map : StorageMap Key Value) (blockHash : H256) :
    StorageIterator :=
  .new (map.encodePartialKey crypto) blockHash

/-- A call and its result. -/
def take (map : StorageMap Key Value) (c : MapCall) (it : StorageIterator) :
    StateRpc (Except RpcError (Option (Value ⊕ (Key × Value))) × StorageIterator) :=
  match c with
  | .next => (fun p => (Option.map .inl <$> p.1, p.2)) <$> it.next Value
  | .nextKeyValue =>
    (fun p => (Option.map .inr <$> p.1, p.2)) <$> it.nextKeyValue map.decodeStorageKey

/-- What a call returns of an entry. -/
def given : MapCall → Key × Value → Value ⊕ (Key × Value)
  | .next, entry => .inl entry.2
  | .nextKeyValue, entry => .inr entry

variable {map : StorageMap Key Value} {partialKey : Bytes} {it it' : StorageIterator}

/-- The stored entry is read as this key and value. -/
def Reads (map : StorageMap Key Value) (stored : Bytes × Bytes) (entry : Key × Value) : Prop :=
  StorageIterator.readEntry Value map.decodeStorageKey stored = .ok entry

omit [Decode Key] in
theorem readWith_value {decodeStorageKey : Decoder Key} {stored : Bytes × Bytes}
    {entry : Key × Value}
    (h : StorageIterator.readEntry Value decodeStorageKey stored = .ok entry) :
    StorageIterator.readWith (fun _ (value : Value) => .ok value) stored = .ok entry.2 := by
  unfold StorageIterator.readEntry at h
  unfold StorageIterator.readWith
  rcases hvalue : (decode : Decoder Value) stored.2 with e | ⟨value, left⟩
  · simp only [hvalue, reduceCtorEq] at h
  · simp only [hvalue] at h
    rcases hkey : decodeStorageKey stored.1 with e | ⟨key, left'⟩
    · simp only [hkey, reduceCtorEq] at h
    · simp only [hkey] at h
      cases h
      rfl

omit [Decode Key] in
theorem readWith_key (decodeStorageKey : Decoder Key) (stored : Bytes × Bytes) :
    StorageIterator.readWith (fun storageKey (value : Value) => (fun key => (key, value)) <$>
        StorageIterator.decodeKeyText decodeStorageKey storageKey) stored
      = StorageIterator.readEntry Value decodeStorageKey stored := by
  unfold StorageIterator.readWith StorageIterator.readEntry
  rcases (decode : Decoder Value) stored.2 with e | ⟨value, left⟩
  · rfl
  · unfold StorageIterator.decodeKeyText
    simp only [unhex_hexText]
    rcases decodeStorageKey stored.1 with e | ⟨key, left'⟩
    · rfl
    · rfl

/-- The iterator has still to give these entries. -/
def Left (map : StorageMap Key Value) (storage : Storage) (hash : H256) (partialKey : Bytes)
    (it : StorageIterator) (entries : List (Key × Value)) : Prop :=
  ∃ rest, StorageIterator.At storage hash partialKey it rest ∧
    List.Forall₂ map.Reads rest entries

/-- A call that makes something of each entry gives it of the next one, or the node failed once
    and nothing is given. -/
theorem nextWith_given {all entries : List (Key × Value)} {α : Type}
    {finish : String → Value → Except RpcError α} {f : Key × Value → α}
    (hreads : ∀ stored entry, map.Reads stored entry →
      StorageIterator.readWith finish stored = .ok (f entry))
    (hall : List.Forall₂ map.Reads (storage.under partialKey) all)
    (hleft : map.Left storage hash partialKey it entries) (hw : Remaining storage hash w)
    {x : Except RpcError (Option α)} (h : it.nextWith finish w = some ((x, it'), w')) :
    Remaining storage hash w' ∧
      (((∃ e, x = .error e) ∧ map.Left storage hash partialKey it' entries) ∧
          failures w' = failures w + 1 ∨
        (x = .ok (entries.head?.map f) ∧ map.Left storage hash partialKey it' entries.tail) ∧
          failures w' = failures w) := by
  obtain ⟨rest, hat, hrest⟩ := hleft
  have hgood : ∀ stored ∈ storage.under partialKey,
      ∃ a, StorageIterator.readWith finish stored = .ok a := by
    intro stored hstored
    obtain ⟨entry, hentry⟩ := exists_result hall stored hstored
    exact ⟨f entry, hreads stored entry hentry⟩
  obtain ⟨hw1, hcases⟩ := StorageIterator.nextWith_cases hgood hat hw h
  refine ⟨hw1, ?_⟩
  rcases hcases with ⟨⟨⟨e, rfl⟩, hat1⟩, hfailures⟩ | ⟨⟨rfl, hat1⟩, hfailures⟩
  · exact .inl ⟨⟨⟨e, rfl⟩, rest, hat1, hrest⟩, hfailures⟩
  · cases hrest with
    | nil => exact .inr ⟨⟨rfl, _, hat1, .nil⟩, hfailures⟩
    | cons hfirst hrest =>
      refine .inr ⟨⟨?_, _, hat1, hrest⟩, hfailures⟩
      change some <$> StorageIterator.readWith finish _ = _
      rw [hreads _ _ hfirst]
      rfl

/-- The same, when the call changes what it returns. -/
theorem nextWith_mapped {all entries : List (Key × Value)} {α β : Type}
    {finish : String → Value → Except RpcError α} {f : Key × Value → α} {g : α → β}
    (hreads : ∀ stored entry, map.Reads stored entry →
      StorageIterator.readWith finish stored = .ok (f entry))
    (hall : List.Forall₂ map.Reads (storage.under partialKey) all)
    (hleft : map.Left storage hash partialKey it entries) (hw : Remaining storage hash w)
    {x : Except RpcError (Option β)}
    (h : ((fun p => (Option.map g <$> p.1, p.2)) <$> it.nextWith finish) w
      = some ((x, it'), w')) :
    Remaining storage hash w' ∧
      (((∃ e, x = .error e) ∧ map.Left storage hash partialKey it' entries) ∧
          failures w' = failures w + 1 ∨
        (x = .ok (entries.head?.map (g ∘ f)) ∧
          map.Left storage hash partialKey it' entries.tail) ∧ failures w' = failures w) := by
  rw [map_eq_pure_bind] at h
  obtain ⟨⟨y, it1⟩, w1, hnext, hpure⟩ := bind_eq_some.mp h
  obtain ⟨rfl, rfl, rfl⟩ := pure_pair_eq_some.mp hpure
  obtain ⟨hw1, hcases⟩ := nextWith_given hreads hall hleft hw hnext
  refine ⟨hw1, ?_⟩
  rcases hcases with ⟨⟨⟨e, rfl⟩, hleft1⟩, hfailures⟩ | ⟨⟨rfl, hleft1⟩, hfailures⟩
  · exact .inl ⟨⟨⟨e, rfl⟩, hleft1⟩, hfailures⟩
  · exact .inr ⟨⟨congrArg Except.ok (Option.map_map _ _ _), hleft1⟩, hfailures⟩

/-- A call gives the next entry, or the node failed once and nothing is given. -/
theorem take_cases {all entries : List (Key × Value)}
    (hall : List.Forall₂ map.Reads (storage.under partialKey) all)
    (hleft : map.Left storage hash partialKey it entries) (hw : Remaining storage hash w)
    {c : MapCall} {x : Except RpcError (Option (Value ⊕ (Key × Value)))}
    (h : map.take c it w = some ((x, it'), w')) :
    Remaining storage hash w' ∧
      (((∃ e, x = .error e) ∧ map.Left storage hash partialKey it' entries) ∧
          failures w' = failures w + 1 ∨
        (x = .ok (entries.head?.map (given c)) ∧
          map.Left storage hash partialKey it' entries.tail) ∧ failures w' = failures w) := by
  cases c with
  | next =>
    rw [take] at h
    exact nextWith_mapped (fun _ _ => readWith_value) hall hleft hw h
  | nextKeyValue =>
    rw [take, StorageIterator.nextKeyValue_eq] at h
    have hreads : ∀ stored entry, map.Reads stored entry →
        StorageIterator.readWith _ stored = .ok (id entry) :=
      fun stored entry hentry => (readWith_key _ _).trans hentry
    exact nextWith_mapped hreads hall hleft hw h

/-- A call asks at most for a page and for a value. -/
theorem take_within (map : StorageMap Key Value) (c : MapCall) (it : StorageIterator) :
    Within 2 (map.take c it) := by
  cases c with
  | next =>
    rw [take, map_eq_pure_bind]
    exact (StorageIterator.nextWith_within _ it).finish fun _ => .pure _
  | nextKeyValue =>
    rw [take, StorageIterator.nextKeyValue_eq, map_eq_pure_bind]
    exact (StorageIterator.nextWith_within _ it).finish fun _ => .pure _

/-- Whatever the order of calls and whatever requests fail, the calls that succeed give the
    entries in the order of their keys, each once, and nothing from then on; a call fails once
    for every request that does, and the calls return. -/
theorem iterates (crypto : SpCryptoHashing) (map : StorageMap Key Value) (storage : Storage)
    (hash : H256) (entries : List (Key × Value))
    (hentries : List.Forall₂ map.Reads (storage.under (map.encodePartialKey crypto)) entries)
    (calls : List MapCall) (script : List StateView)
    (hscript : ∀ view ∈ script, Answers storage hash view) :
    (2 * calls.length ≤ script.length →
      ∃ r, perform map.take calls (map.iter crypto hash) (start StateRequest script) = some r) ∧
    ∀ out it w', perform map.take calls (map.iter crypto hash) (start StateRequest script)
        = some ((out, it), w') →
      out.map Prod.fst = calls ∧
        (∀ (i : Nat) c x, (succeeded out)[i]? = some (c, x) → x = entries[i]?.map (given c)) ∧
        failed out = failures w' := by
  refine ⟨fun hlen => ?_, fun out it w' hrun => ⟨perform_calls hrun, ?_⟩⟩
  · obtain ⟨r, w', hrun, -⟩ := Within.perform map.take_within calls (map.iter crypto hash)
      (start StateRequest script) hlen
    exact ⟨_, hrun⟩
  -- the iterator has still to give what the successful calls have not given
  have hinvariant := perform_rule (fun out it w => Remaining storage hash w ∧
      map.Left storage hash (map.encodePartialKey crypto) it
        (entries.drop (succeeded out).length) ∧
      (∀ (i : Nat) c x, (succeeded out)[i]? = some (c, x) → x = entries[i]?.map (given c)) ∧
      failed out = failures w) ?_ [] ?_ hrun
  · exact hinvariant.2.2
  · rintro rs it w c r it1 w1 ⟨hw, hleft, hgiven, hfailed⟩ htake
    obtain ⟨hw1, hcases⟩ := take_cases hentries hleft hw htake
    rcases hcases with ⟨⟨⟨e, rfl⟩, hleft1⟩, hfailures⟩ | ⟨⟨rfl, hleft1⟩, hfailures⟩
    · rw [succeeded_concat_error, failed_concat_error]
      exact ⟨hw1, hleft1, hgiven, by omega⟩
    · rw [succeeded_concat_ok, failed_concat_ok, List.length_append]
      rw [List.tail_drop] at hleft1
      refine ⟨hw1, hleft1, fun i c' x hx => ?_, by omega⟩
      rcases Nat.lt_trichotomy i (succeeded rs).length with hlt | heq | hgt
      · rw [List.getElem?_append_left hlt] at hx
        exact hgiven i c' x hx
      · subst heq
        rw [List.getElem?_concat_length] at hx
        cases hx
        rw [List.head?_drop]
      · rw [List.getElem?_eq_none (by rw [List.length_append]; exact hgt)] at hx
        cases hx
  · refine ⟨hscript, ⟨_, StorageIterator.new_at, hentries⟩, ?_, rfl⟩
    intro i c x hx
    cases hx

end StorageMap

/-! ## Sessions of authority sets -/

/-- The map from authority sets to sessions of the grandpa pallet. -/
def grandpaSetIdSession : StorageMap U64 U32 where
  palletName := "Grandpa"
  storageName := "SetIdSession"
  keyHasher := .twox64Concat

/-- Two authority sets. -/
def twoSessions : Storage where
  entries := [
    (grandpaSetIdSession.encodeStorageKey noCrypto 0, encode (0 : U32)),
    (grandpaSetIdSession.encodeStorageKey noCrypto 1, encode (5 : U32))]
  sorted := by decide +kernel

/-- A move that fails every request. -/
def lostConnection : StateView := fun _ => .error (.rpc "connection lost")

theorem lostConnection_answers (storage : Storage) (hash : H256) :
    Answers storage hash lostConnection where
  getStorage _ _ _ := .inl ⟨_, rfl⟩
  getKeysPaged _ _ _ _ _ _ _ _ := .inl ⟨_, rfl⟩

namespace StorageMap

/-- After one failure the three other calls give the two sets and then nothing. -/
theorem iterates_twoSessions :
    ∃ out it w', perform grandpaSetIdSession.take [.next, .nextKeyValue, .next, .next]
        (grandpaSetIdSession.iter noCrypto (FixedBytes.fill 32 0))
        (start StateRequest (lostConnection :: List.replicate 7 twoSessions.view))
          = some ((out, it), w') ∧
      (∀ (i : Nat) c x, (succeeded out)[i]? = some (c, x) →
        x = ([(0, 0), (1, 5)] : List (U64 × U32))[i]?.map (given c)) ∧
      failed out = failures w' := by
  have hentries : List.Forall₂ grandpaSetIdSession.Reads
      (twoSessions.under (grandpaSetIdSession.encodePartialKey noCrypto)) [(0, 0), (1, 5)] := by
    have hunder : twoSessions.under (grandpaSetIdSession.encodePartialKey noCrypto)
        = twoSessions.entries := by decide +kernel
    rw [hunder]
    exact .cons rfl (.cons rfl .nil)
  have hscript : ∀ view ∈ lostConnection :: List.replicate 7 twoSessions.view,
      Answers twoSessions (FixedBytes.fill 32 0) view := by
    intro view hview
    rcases List.mem_cons.mp hview with rfl | hview
    · exact lostConnection_answers _ _
    · rw [List.eq_of_mem_replicate hview]
      exact (twoSessions.view_serves _).answers
  have h := iterates noCrypto grandpaSetIdSession twoSessions (FixedBytes.fill 32 0) _ hentries
    [.next, .nextKeyValue, .next, .next] _ hscript
  obtain ⟨⟨⟨out, it⟩, w'⟩, hrun⟩ := h.1 (by decide)
  exact ⟨out, it, w', hrun, (h.2 out it w' hrun).2⟩

end StorageMap

end AvailRust
