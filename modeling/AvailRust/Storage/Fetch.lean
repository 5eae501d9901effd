/-
  Fetching single values of the runtime's storage.

  The three `fetch` differ in their storage keys only (`fetchAt`). Against a node that holds
  some storage and may fail, a fetch gives what is stored there, decoded (`fetchAt_cases`).
  Where a storage holds a map (`Holds`), that is what the map says about the key: no other key
  has the same storage key (`read_map`). `reads_agree` puts fetches between the calls of an
  iterator, in any order: both read the same map.
-/
import AvailRust.Storage.Injective
import AvailRust.Storage.MapIterator

namespace AvailRust

open Scale Dialogue Paging PrefixCode

/-! ## The values of the storage -/

/-- The constants of a `StorageValue` implementation; `Value` is its type. -/
structure StorageValue (Value : Type) where
  palletName : String
  storageName : String

/-- What the three `fetch` do with their storage key. -/
def fetchAt (Value : Type) [Decode Value] (storageKey : Bytes) (hash : Option H256) :
    StateRpc (Except RpcError (Option Value)) := do
  match ← getStorage (String.ofList (Hex.encode storageKey)) hash with
  | .error e => pure (.error e)
  | .ok none => pure (.ok none)
  | .ok (some storageValue) =>
    match (decode : Decoder Value) storageValue with
    | .error e => pure (.error (.decodingFailed e))
    | .ok (value, _) => pure (.ok (some value))

def StorageValue.encodeStorageKey {Value : Type} (crypto : SpCryptoHashing)
    (item : StorageValue Value) : Bytes :=
  namesDigest crypto item.palletName item.storageName

def StorageValue.fetch {Value : Type} [Decode Value] (crypto : SpCryptoHashing)
    (item : StorageValue Value) (hash : Option H256) :
    StateRpc (Except RpcError (Option Value)) :=
  fetchAt Value (item.encodeStorageKey crypto) hash

def StorageMap.fetch {Key Value : Type} [Encode Key] [Decode Value] (crypto : SpCryptoHashing)
    (map : StorageMap Key Value) (key : Key) (hash : Option H256) :
    StateRpc (Except RpcError (Option Value)) :=
  fetchAt Value (map.encodeStorageKey crypto key) hash

def StorageDoubleMap.fetch {Key1 Key2 Value : Type} [Encode Key1] [Encode Key2] [Decode Value]
    (crypto : SpCryptoHashing) (map : StorageDoubleMap Key1 Key2 Value) (key1 : Key1)
    (key2 : Key2) (hash : Option H256) : StateRpc (Except RpcError (Option Value)) :=
  fetchAt Value (map.encodeStorageKey crypto key1 key2) hash

/-! ## What a fetch gives -/

/-- The value stored under a key, decoded. -/
def Storage.read (Value : Type) [Decode Value] (storage : Storage) (storageKey : Bytes) :
    Except RpcError (Option Value) :=
  match storage.get storageKey with
  | none => .ok none
  | some storageValue =>
    match (decode : Decoder Value) storageValue with
    | .error e => .error (.decodingFailed e)
    | .ok (value, _) => .ok (some value)

section

variable {storage : Storage} {hash : H256} {w w' : StateWorld} {Value : Type} [Decode Value]

theorem getStorage_answered {text : String} {key : Bytes} {x : Except RpcError (Option Bytes)}
    (hkey : unhex text = .ok key) (hw : Remaining storage hash w)
    (h : getStorage text (some hash) w = some (x, w')) :
    Remaining storage hash w' ∧
      ((∃ e, x = .error e) ∧ failures w' = failures w + 1 ∨
        x = .ok (storage.get key) ∧ failures w' = failures w) := by
  obtain ⟨response, w1, hask, h⟩ := bind_eq_some.mp h
  obtain ⟨view, hview, hx, hw1, hfailures⟩ := stateRequest_cases hw hask
  rcases hview.getStorage text key hkey with ⟨e, he⟩ | hok
  · rw [hx, he] at h hfailures
    obtain ⟨rfl, rfl⟩ := pure_eq_some.mp h
    exact ⟨hw1, .inl ⟨⟨e, rfl⟩, hfailures⟩⟩
  · rw [hx, hok] at h hfailures
    cases hget : storage.get key with
    | none =>
      simp only [hget, Option.map_none] at h
      obtain ⟨rfl, rfl⟩ := pure_eq_some.mp h
      exact ⟨hw1, .inr ⟨rfl, hfailures⟩⟩
    | some value =>
      simp only [hget, Option.map_some, unhex_hexText] at h
      obtain ⟨rfl, rfl⟩ := pure_eq_some.mp h
      exact ⟨hw1, .inr ⟨rfl, hfailures⟩⟩

/-- A fetch gives what is stored under its key, or the node failed. -/
theorem fetchAt_cases {storageKey : Bytes} {x : Except RpcError (Option Value)}
    (hw : Remaining storage hash w)
    (h : fetchAt Value storageKey (some hash) w = some (x, w')) :
    Remaining storage hash w' ∧
      ((∃ e, x = .error e) ∧ failures w' = failures w + 1 ∨
        x = storage.read Value storageKey ∧ failures w' = failures w) := by
  obtain ⟨stored, w1, hget, h⟩ := bind_eq_some.mp h
  obtain ⟨hw1, hcases⟩ := getStorage_answered (unhex_encode storageKey) hw hget
  rcases hcases with ⟨⟨e, rfl⟩, hfailures⟩ | ⟨rfl, hfailures⟩
  · obtain ⟨rfl, rfl⟩ := pure_eq_some.mp h
    exact ⟨hw1, .inl ⟨⟨e, rfl⟩, hfailures⟩⟩
  · unfold Storage.read
    rcases hstored : storage.get storageKey with _ | storageValue
    · simp only [hstored] at h
      obtain ⟨rfl, rfl⟩ := pure_eq_some.mp h
      exact ⟨hw1, .inr ⟨rfl, hfailures⟩⟩
    · simp only [hstored] at h ⊢
      rcases hvalue : (decode : Decoder Value) storageValue with e | p
      · simp only [hvalue] at h
        obtain ⟨rfl, rfl⟩ := pure_eq_some.mp h
        exact ⟨hw1, .inr ⟨rfl, hfailures⟩⟩
      · simp only [hvalue] at h
        obtain ⟨rfl, rfl⟩ := pure_eq_some.mp h
        exact ⟨hw1, .inr ⟨rfl, hfailures⟩⟩

theorem fetchAt_within (storageKey : Bytes) (hash : Option H256) :
    Within 1 (fetchAt Value storageKey hash) := by
  have hget : Within 1 (getStorage (String.ofList (Hex.encode storageKey)) hash) := by
    refine (StorageIterator.stateRequest_within _).finish fun response => ?_
    split
    · exact .pure _
    · exact .pure _
    · split
      · exact .pure _
      · exact .pure _
  refine hget.finish fun stored => ?_
  split
  · exact .pure _
  · exact .pure _
  · split
    · exact .pure _
    · exact .pure _

end

/-! ## A storage that holds a map -/

/-- Under `partialKey` the storage holds these entries and nothing else, each under the storage
    key of its key. -/
def Storage.Holds {Key Value : Type} [Decode Value] (storage : Storage) (partialKey : Bytes)
    (storageKey : Key → Bytes) (entries : List (Key × Value)) : Prop :=
  List.Forall₂ (fun stored entry => stored.1 = storageKey entry.1 ∧
      ∃ rest, decode stored.2 = .ok (entry.2, rest))
    (storage.under partialKey) entries

namespace Storage

/-- A value is looked for among those whose keys start like its key. -/
theorem get_under (storage : Storage) {partialKey storageKey : Bytes}
    (h : partialKey <+: storageKey) : storage.get storageKey
      = ((storage.under partialKey).find? fun entry => entry.1 = storageKey).map Prod.snd := by
  unfold get under
  rw [List.find?_filter]
  congr 2
  funext entry
  by_cases heq : entry.1 = storageKey
  · have hstarts : partialKey.isPrefixOf entry.1 = true := by
      rw [heq]
      exact List.isPrefixOf_iff_prefix.mpr h
    simp only [hstarts, true_and, Bool.decide_eq_true]
  · simp [heq]

variable {Key Value : Type} [BEq Key] [LawfulBEq Key] [Decode Value]

/-- What is stored under a key is what the list of entries says about it. -/
theorem read_holds {storage : Storage} {partialKey : Bytes} {storageKey : Key → Bytes}
    {entries : List (Key × Value)} (hinj : Function.Injective storageKey)
    (h : storage.Holds partialKey storageKey entries) (key : Key)
    (hstarts : partialKey <+: storageKey key) :
    storage.read Value (storageKey key) = .ok (entries.lookup key) := by
  unfold read
  rw [storage.get_under hstarts]
  unfold Holds at h
  generalize storage.under partialKey = stored at h
  -- along the two lists: both stop at the entry of the key
  induction h with
  | nil => rfl
  | @cons stored entry _ later hfirst _ ih =>
    obtain ⟨hstored, rest, hvalue⟩ := hfirst
    by_cases heq : entry.1 = key
    · have hfound : stored.1 = storageKey key := by rw [hstored, heq]
      have hlookup : List.lookup key (entry :: later) = some entry.2 := by
        rw [← heq]
        exact List.lookup_cons_self
      rw [List.find?_cons_of_pos (by simpa using hfound), hlookup]
      simp only [Option.map_some, hvalue]
    · have hother : stored.1 ≠ storageKey key := by
        rw [hstored]
        exact fun h => heq (hinj h)
      have hne : (key == entry.1) = false := by
        rw [beq_eq_false_iff_ne]
        exact fun h => heq h.symm
      have hlookup : List.lookup key (entry :: later) = List.lookup key later := by
        rw [List.lookup_cons, hne]
      rw [List.find?_cons_of_neg (by simpa using hother), ih, hlookup]

omit [BEq Key] [LawfulBEq Key] in
/-- No key is there twice. -/
theorem Holds.nodup {storage : Storage} {partialKey : Bytes} {storageKey : Key → Bytes}
    {entries : List (Key × Value)} (h : storage.Holds partialKey storageKey entries) :
    (entries.map Prod.fst).Nodup := by
  have hkeys : (storage.under partialKey).map Prod.fst
      = (entries.map Prod.fst).map storageKey := by
    have hfst := h.imp fun stored entry hentry => hentry.1
    rw [List.map_map, ← List.forall₂_eq_eq_eq, List.forall₂_map_left_iff,
      List.forall₂_map_right_iff]
    exact hfst
  have hsorted := storage.sorted_under partialKey
  rw [hkeys] at hsorted
  have hne : ((entries.map Prod.fst).map storageKey).Nodup := by
    refine hsorted.imp fun hlt heq => ?_
    rw [heq] at hlt
    exact List.lt_irrefl _ hlt
  exact List.Pairwise.of_map storageKey (fun _ _ hne heq => hne (congrArg storageKey heq)) hne

theorem Holds.lookup_of_mem {storage : Storage} {partialKey : Bytes} {storageKey : Key → Bytes}
    {entries : List (Key × Value)} (h : storage.Holds partialKey storageKey entries) {key : Key}
    {value : Value} (hmem : (key, value) ∈ entries) : entries.lookup key = some value := by
  have hnodup := h.nodup
  clear h
  induction entries with
  | nil => cases hmem
  | cons entry entries ih =>
    obtain ⟨hnew, hnodup⟩ := List.nodup_cons.mp hnodup
    rcases List.mem_cons.mp hmem with rfl | hmem
    · exact List.lookup_cons_self
    · have hne : (key == entry.1) = false := by
        rw [beq_eq_false_iff_ne]
        intro heq
        have hagain := List.mem_map_of_mem (f := Prod.fst) hmem
        rw [heq] at hagain
        exact hnew hagain
      rw [List.lookup_cons, hne]
      exact ih hmem hnodup

end Storage

/-- The pairs of a double map are told apart, so a fetch gives what the entries say about its
    pair, or the node failed. That the iterator misreads second keys does not concern it. -/
theorem StorageDoubleMap.fetch_cases {Key1 Key2 Value : Type} [Encode Key1] [Decode Key1]
    [RoundTrips Key1] [Encode Key2] [Decode Key2] [RoundTrips Key2] [Decode Value]
    [DecidableEq Key1] [DecidableEq Key2] {crypto : SpCryptoHashing}
    {map : StorageDoubleMap Key1 Key2 Value} (h1 : map.key1Hasher.Reversible)
    (h2 : map.key2Hasher.Reversible) (hfree1 : PrefixFree (encode : Key1 → Bytes))
    {storage : Storage} {hash : H256} {entries : List ((Key1 × Key2) × Value)}
    (h : storage.Holds (namesDigest crypto map.palletName map.storageName)
      (fun keys => map.encodeStorageKey crypto keys.1 keys.2) entries)
    {key1 : Key1} {key2 : Key2} {x : Except RpcError (Option Value)} {w w' : StateWorld}
    (hw : Remaining storage hash w)
    (hrun : map.fetch crypto key1 key2 (some hash) w = some (x, w')) :
    Remaining storage hash w' ∧
      ((∃ e, x = .error e) ∧ failures w' = failures w + 1 ∨
        x = .ok (entries.lookup (key1, key2)) ∧ failures w' = failures w) := by
  have hinj : Function.Injective fun keys : Key1 × Key2 =>
      map.encodeStorageKey crypto keys.1 keys.2 := by
    intro keys keys' heq
    obtain ⟨hfirst, hsecond⟩ :=
      encodeStorageKey_inj h1 h2 encode_injective hfree1 encode_injective heq
    exact Prod.ext hfirst hsecond
  have hstarts : namesDigest crypto map.palletName map.storageName
      <+: map.encodeStorageKey crypto key1 key2 :=
    (List.prefix_append _ _).trans (List.prefix_append _ _)
  have hread : storage.read Value (map.encodeStorageKey crypto key1 key2)
      = .ok (entries.lookup (key1, key2)) :=
    Storage.read_holds hinj h (key1, key2) hstarts
  rw [← hread]
  exact fetchAt_cases hw hrun

/-! ## Fetches between the calls of an iterator -/

/-- The ways to read a map: a call of its iterator, or a fetch. -/
inductive MapRead (Key : Type) where
  | take (c : MapCall)
  | fetch (key : Key)
deriving DecidableEq

/-- What the calls of the iterator gave, among all reads. -/
def iterated {Key α : Type} (out : List (MapRead Key × α)) : List (MapCall × α) :=
  out.filterMap fun q =>
    match q.1 with
    | .take c => some (c, q.2)
    | .fetch _ => none

theorem iterated_concat_take {Key α : Type} {out : List (MapRead Key × α)} {c : MapCall} {x : α} :
    iterated (out ++ [(.take c, x)]) = iterated out ++ [(c, x)] := by
  unfold iterated
  rw [List.filterMap_append]
  rfl

theorem iterated_concat_fetch {Key α : Type} {out : List (MapRead Key × α)} {key : Key} {x : α} :
    iterated (out ++ [(.fetch key, x)]) = iterated out := by
  unfold iterated
  rw [List.filterMap_append]
  exact List.append_nil _

namespace StorageMap

variable {Key Value : Type} [Encode Key] [Decode Key] [Decode Value]

/-- One read and its result. -/
def readBy (crypto : SpCryptoHashing) (map : StorageMap Key Value) (hash : H256)
    (c : MapRead Key) (it : StorageIterator) :
    StateRpc (Except RpcError (Option (Value ⊕ (Key × Value))) × StorageIterator) :=
  match c with
  | .take c => map.take c it
  | .fetch key => (fun r => (Option.map .inl <$> r, it)) <$> map.fetch crypto key (some hash)

theorem readBy_within (crypto : SpCryptoHashing) (map : StorageMap Key Value) (hash : H256)
    (c : MapRead Key) (it : StorageIterator) : Within 2 (map.readBy crypto hash c it) := by
  cases c with
  | take c => exact map.take_within c it
  | fetch key =>
    rw [readBy, map_eq_pure_bind]
    exact ((fetchAt_within _ _).finish fun _ => .pure _).mono (by omega)

variable {crypto : SpCryptoHashing} {map : StorageMap Key Value} {storage : Storage} {hash : H256}
  {entries : List (Key × Value)} {w w' : StateWorld} {it it' : StorageIterator}

/-- A storage that holds a map is read entry by entry. -/
theorem reads_of_holds [RoundTrips Key] (hmap : map.keyHasher.Reversible)
    (h : storage.Holds (map.encodePartialKey crypto) (map.encodeStorageKey crypto) entries)
    (hkeys : ∀ entry ∈ entries, encode entry.1 ≠ []) :
    List.Forall₂ map.Reads (storage.under (map.encodePartialKey crypto)) entries := by
  refine List.forall₂_iff_get.mpr ⟨h.length_eq, fun i hi hi' => ?_⟩
  obtain ⟨hstored, rest, hvalue⟩ := List.forall₂_iff_get.mp h |>.2 i hi hi'
  obtain ⟨left, hkey⟩ := map.decodeStorageKey_encode crypto hmap
    (hkeys _ (List.get_mem entries ⟨i, hi'⟩))
  unfold Reads StorageIterator.readEntry
  rw [hvalue, hstored]
  simp only [hkey]

/-- A fetch gives what the entries say about its key, or the node failed. -/
theorem fetch_cases [DecidableEq Key] [RoundTrips Key] (hmap : map.keyHasher.Reversible)
    (h : storage.Holds (map.encodePartialKey crypto) (map.encodeStorageKey crypto) entries)
    {key : Key} {x : Except RpcError (Option Value)} (hw : Remaining storage hash w)
    (hrun : map.fetch crypto key (some hash) w = some (x, w')) :
    Remaining storage hash w' ∧
      ((∃ e, x = .error e) ∧ failures w' = failures w + 1 ∨
        x = .ok (entries.lookup key) ∧ failures w' = failures w) := by
  have hinj : Function.Injective (map.encodeStorageKey crypto) :=
    fun _ _ heq => encodeStorageKey_inj hmap encode_injective heq
  have hread : storage.read Value (map.encodeStorageKey crypto key) = .ok (entries.lookup key) :=
    Storage.read_holds hinj h key (List.prefix_append _ _)
  rw [← hread]
  exact fetchAt_cases hw hrun

theorem readBy_fetch {key : Key} {r : Except RpcError (Option (Value ⊕ (Key × Value)))}
    (h : map.readBy crypto hash (.fetch key) it w = some ((r, it'), w')) :
    ∃ x, map.fetch crypto key (some hash) w = some (x, w') ∧ r = Option.map .inl <$> x ∧
      it' = it := by
  rw [readBy, map_eq_pure_bind] at h
  obtain ⟨x, w1, hfetch, hpure⟩ := bind_eq_some.mp h
  obtain ⟨rfl, rfl, rfl⟩ := pure_pair_eq_some.mp hpure
  exact ⟨x, hfetch, rfl, rfl⟩

/-- Fetches stand in any order between the calls of an iterator, and requests may fail. A fetch
    that succeeds gives what the map says about its key, the calls of the iterator give the map's
    entries one after the other, and what the iterator gives under a key a fetch of that key
    gives too. -/
theorem reads_agree [DecidableEq Key] [RoundTrips Key] (crypto : SpCryptoHashing)
    (map : StorageMap Key Value) (hmap : map.keyHasher.Reversible) (storage : Storage)
    (hash : H256) (entries : List (Key × Value))
    (hentries : storage.Holds (map.encodePartialKey crypto) (map.encodeStorageKey crypto) entries)
    (hkeys : ∀ entry ∈ entries, encode entry.1 ≠ []) (reads : List (MapRead Key))
    (script : List StateView) (hscript : ∀ view ∈ script, Answers storage hash view) :
    (2 * reads.length ≤ script.length → ∃ r, perform (map.readBy crypto hash) reads
      (map.iter crypto hash) (start StateRequest script) = some r) ∧
    ∀ out it w', perform (map.readBy crypto hash) reads (map.iter crypto hash)
        (start StateRequest script) = some ((out, it), w') →
      out.map Prod.fst = reads ∧
      (∀ key x, (.fetch key, x) ∈ succeeded out → x = (entries.lookup key).map .inl) ∧
      (∀ (i : Nat) c x, (iterated (succeeded out))[i]? = some (c, x) →
        x = entries[i]?.map (given c)) ∧
      (∀ key value x, (.take .nextKeyValue, some (.inr (key, value))) ∈ succeeded out →
        (.fetch key, x) ∈ succeeded out → x = some (.inl value)) ∧
      failed out = failures w' := by
  refine ⟨fun hlen => ?_, fun out it w' hrun => ?_⟩
  · obtain ⟨r, w', hrun, -⟩ := Within.perform (map.readBy_within crypto hash) reads
      (map.iter crypto hash) (start StateRequest script) hlen
    exact ⟨_, hrun⟩
  have hreads := reads_of_holds hmap hentries hkeys
  -- the iterator has still to give what its successful calls have not given
  have hinvariant := perform_rule (fun out it w => Remaining storage hash w ∧
      map.Left storage hash (map.encodePartialKey crypto) it
        (entries.drop (iterated (succeeded out)).length) ∧
      (∀ key x, (.fetch key, x) ∈ succeeded out → x = (entries.lookup key).map .inl) ∧
      (∀ (i : Nat) c x, (iterated (succeeded out))[i]? = some (c, x) →
        x = entries[i]?.map (given c)) ∧ failed out = failures w) ?_ [] ?_ hrun
  · obtain ⟨-, -, hfetched, hgiven, hfailed⟩ := hinvariant
    refine ⟨perform_calls hrun, hfetched, hgiven, ?_, hfailed⟩
    intro key value x htaken hfetch
    have hmem : (.nextKeyValue, some (.inr (key, value))) ∈ iterated (succeeded out) :=
      List.mem_filterMap.mpr ⟨_, htaken, rfl⟩
    obtain ⟨i, hi⟩ := List.mem_iff_getElem?.mp hmem
    have hentry := hgiven i _ _ hi
    cases hget : entries[i]? with
    | none =>
      rw [hget] at hentry
      cases hentry
    | some entry =>
      rw [hget] at hentry
      have heq : entry = (key, value) := (Sum.inr.inj (Option.some.inj hentry)).symm
      rw [heq] at hget
      rw [hfetched key x hfetch, hentries.lookup_of_mem (List.mem_of_getElem? hget)]
      rfl
  · intro rs it w c r it1 w1 ⟨hw, hleft, hfetched, hgiven, hfailed⟩ hread
    cases c with
    | fetch key =>
      obtain ⟨x, hfetch, rfl, rfl⟩ := readBy_fetch hread
      obtain ⟨hw1, hcases⟩ := fetch_cases hmap hentries hw hfetch
      rcases hcases with ⟨⟨e, rfl⟩, hfailures⟩ | ⟨rfl, hfailures⟩
      · have hr : (Option.map (Sum.inl : Value → Value ⊕ (Key × Value)) <$>
            (.error e : Except RpcError (Option Value))) = .error e := rfl
        rw [hr, succeeded_concat_error, failed_concat_error]
        exact ⟨hw1, hleft, hfetched, hgiven, by omega⟩
      · have hr : (Option.map (Sum.inl : Value → Value ⊕ (Key × Value)) <$>
            (.ok (entries.lookup key) : Except RpcError (Option Value)))
              = .ok ((entries.lookup key).map .inl) := rfl
        rw [hr, succeeded_concat_ok, failed_concat_ok, iterated_concat_fetch]
        refine ⟨hw1, hleft, fun key' x hx => ?_, hgiven, by omega⟩
        rcases List.mem_append.mp hx with hx | hx
        · exact hfetched key' x hx
        · cases List.mem_singleton.mp hx
          rfl
    | take c =>
      obtain ⟨hw1, hcases⟩ := take_cases hreads hleft hw hread
      rcases hcases with ⟨⟨⟨e, rfl⟩, hleft1⟩, hfailures⟩ | ⟨⟨rfl, hleft1⟩, hfailures⟩
      · rw [succeeded_concat_error, failed_concat_error]
        exact ⟨hw1, hleft1, hfetched, hgiven, by omega⟩
      · rw [succeeded_concat_ok, failed_concat_ok, iterated_concat_take, List.length_append]
        rw [List.tail_drop] at hleft1
        refine ⟨hw1, hleft1, fun key x hx => ?_, fun i c' x hx => ?_, by omega⟩
        · rcases List.mem_append.mp hx with hx | hx
          · exact hfetched key x hx
          · cases List.mem_singleton.mp hx
        · rcases getElem?_concat hx with hx | ⟨hi, hx⟩
          · exact hgiven i c' x hx
          · cases hx
            rw [hi, List.head?_drop]
  · refine ⟨hscript, ⟨_, StorageIterator.new_at, hreads⟩, ?_, ?_, rfl⟩
    · intro key x hx
      cases hx
    · intro i c x hx
      cases hx

/-- Sessions fetched before, between and after the calls of an iterator; the first request
    fails. -/
theorem reads_agree_twoSessions :
    ∃ out it w', perform (grandpaSetIdSession.readBy noCrypto (FixedBytes.fill 32 0))
        [.fetch 1, .take .next, .fetch 7, .take .nextKeyValue, .fetch 1, .take .next]
        (grandpaSetIdSession.iter noCrypto (FixedBytes.fill 32 0))
        (start StateRequest (lostConnection :: List.replicate 11 twoSessions.view))
          = some ((out, it), w') ∧
      (∀ key x, (.fetch key, x) ∈ succeeded out →
        x = (([(0, 0), (1, 5)] : List (U64 × U32)).lookup key).map .inl) ∧
      failed out = failures w' := by
  have hentries : twoSessions.Holds (grandpaSetIdSession.encodePartialKey noCrypto)
      (grandpaSetIdSession.encodeStorageKey noCrypto) ([(0, 0), (1, 5)] : List (U64 × U32)) := by
    have hunder : twoSessions.under (grandpaSetIdSession.encodePartialKey noCrypto)
        = twoSessions.entries := by decide +kernel
    unfold Storage.Holds
    rw [hunder]
    exact .cons ⟨rfl, [], rfl⟩ (.cons ⟨rfl, [], rfl⟩ .nil)
  have hkeys : ∀ entry ∈ ([(0, 0), (1, 5)] : List (U64 × U32)), encode entry.1 ≠ [] :=
    List.forall_mem_cons.mpr ⟨nofun, List.forall_mem_singleton.mpr nofun⟩
  have hscript : ∀ view ∈ lostConnection :: List.replicate 11 twoSessions.view,
      Answers twoSessions (FixedBytes.fill 32 0) view := by
    intro view hview
    rcases List.mem_cons.mp hview with rfl | hview
    · exact lostConnection_answers _ _
    · rw [List.eq_of_mem_replicate hview]
      exact (twoSessions.view_serves _).answers
  have h := reads_agree noCrypto grandpaSetIdSession (by decide) twoSessions
    (FixedBytes.fill 32 0) _ hentries hkeys
    [.fetch 1, .take .next, .fetch 7, .take .nextKeyValue, .fetch 1, .take .next] _ hscript
  obtain ⟨⟨⟨out, it⟩, w'⟩, hrun⟩ := h.1 (by decide)
  obtain ⟨-, hfetched, -, -, hfailed⟩ := h.2 out it w' hrun
  exact ⟨out, it, w', hrun, hfetched, hfailed⟩

end StorageMap

end AvailRust
