/-
  The views that the queries give of the extrinsics of one block.

  Against one state of the node each query is a function of what the node lists
  (`all_answers`, `one_answers`, `count_answers`). The first and the last extrinsic are those of
  the whole list. The count is not that of the list when the caller has set a filter: counting
  replaces it by the header of the call (`views_agree_iff`).
-/
import AvailRust.Client.Block
import AvailRust.Client.Utils
import AvailRust.Lib.Results
import AvailRust.Pallets.Basic

namespace AvailRust

open Scale Dialogue Results

/-! ## What the node lists -/

/-- The answer of a node to a query for extrinsics. -/
def View.listed (v : View) (id : HashNumber) (opts : ExtrinsicOptions)
    (encodeAs : EncodeSelector) : Except Error (List ExtrinsicInfo) :=
  (v (.fetchExtrinsics id (opts.toRpcOpts encodeAs))).mapError Error.rpcError

/-- How many extrinsics of a block the node selects by the options, if it answers. -/
def View.selected (v : View) (id : HashNumber) (opts : ExtrinsicOptions) : Option Nat :=
  ((v.listed id opts .none).map List.length).toOption

def ExtrinsicInfo.withoutData (info : ExtrinsicInfo) : ExtrinsicInfo := { info with data := none }

/-- The node selects the same extrinsics, whatever it is asked to encode of them. -/
def FiltersAlike (v : View) : Prop :=
  ∀ id opts encodeAs, (v.listed id opts encodeAs).map (·.map ExtrinsicInfo.withoutData)
    = (v.listed id opts .none).map (·.map ExtrinsicInfo.withoutData)

theorem FiltersAlike.selected {v : View} (hv : FiltersAlike v) {id : HashNumber}
    {opts : ExtrinsicOptions} {encodeAs : EncodeSelector} {infos : List ExtrinsicInfo}
    (h : v.listed id opts encodeAs = .ok infos) : v.selected id opts = some infos.length := by
  have hsame := hv id opts encodeAs
  rw [h] at hsame
  unfold View.selected
  cases hnone : v.listed id opts .none with
  | error e =>
    rw [hnone] at hsame
    cases hsame
  | ok infos' =>
    rw [hnone] at hsame
    have hlength := congrArg (fun r => r.toOption.map List.length) hsame
    simp only [Except.map, Except.toOption, Option.map_some, List.length_map] at hlength
    exact hlength.symm

theorem systemFetchExtrinsics_answers (chain : Chain) (v : View) {blockId : HashStringNumber}
    {id : HashNumber} (hid : Chain.toHashNumber blockId = .ok id) (opts : ExtrinsicOptions)
    (encodeAs : EncodeSelector) :
    Steady (.answer v) (chain.systemFetchExtrinsics blockId (opts.toRpcOpts encodeAs))
      (v.listed id opts encodeAs) := by
  unfold Chain.systemFetchExtrinsics View.listed
  rw [hid]
  refine (withRetryOnError_steady (call_steady (.answer v)
    (.fetchExtrinsics id (opts.toRpcOpts encodeAs))) _).bind ?_
  simp only [Event.response]
  cases v (.fetchExtrinsics id (opts.toRpcOpts encodeAs)) <;> exact .pure _ _

theorem toHashNumber_resolved (id : HashNumber) :
    Chain.toHashNumber id.toHashStringNumber = .ok id := by
  cases id <;> rfl

/-! ## The raw queries -/

namespace BlockEncodedExtrinsicsQuery

variable {query : BlockEncodedExtrinsicsQuery} {id : HashNumber}

theorem all_answers (v : View) (hid : query.ctx.hashNumber = .ok id) (opts : ExtrinsicOptions) :
    Steady (.answer v) (query.all opts) (v.listed id opts .extrinsic >>= (decodeAll · id)) := by
  unfold BlockEncodedExtrinsicsQuery.all
  rw [hid]
  refine (systemFetchExtrinsics_answers _ v (toHashNumber_resolved id) opts .extrinsic).bind ?_
  cases v.listed id opts .extrinsic <;> exact .pure _ _

theorem one_answers (pick : List ExtrinsicInfo → Option ExtrinsicInfo) (v : View)
    (hid : query.ctx.hashNumber = .ok id) (opts : ExtrinsicOptions) :
    Steady (.answer v) (query.one pick opts) (v.listed id opts .extrinsic >>= fun infos =>
      (pick infos).mapM (BlockEncodedExtrinsic.fromExtrinsicInfo · id)) := by
  unfold BlockEncodedExtrinsicsQuery.one
  rw [hid]
  refine (systemFetchExtrinsics_answers _ v (toHashNumber_resolved id) opts .extrinsic).bind ?_
  cases v.listed id opts .extrinsic with
  | error e => exact .pure _ _
  | ok infos =>
    show Steady _ _ ((pick infos).mapM _)
    cases hpick : pick infos with
    | none =>
      simp only [hpick]
      exact .pure _ _
    | some info =>
      simp only [hpick]
      exact .pure _ _

theorem count_answers (v : View) (hid : query.ctx.hashNumber = .ok id) (opts : ExtrinsicOptions) :
    Steady (.answer v) (query.count opts) ((v.listed id opts .none).map List.length) := by
  refine (systemFetchExtrinsics_answers _ v hid opts .none).bind ?_
  cases v.listed id opts .none <;> exact .pure _ _

theorem exists_answers (v : View) (hid : query.ctx.hashNumber = .ok id) (opts : ExtrinsicOptions) :
    Steady (.answer v) (query.exists opts)
      ((v.listed id opts .none).map fun infos => decide (infos.length > 0)) := by
  refine (count_answers v hid opts).bind ?_
  cases v.listed id opts .none <;> exact .pure _ _

end BlockEncodedExtrinsicsQuery

/-! ## The decoded queries -/

namespace BlockExtrinsicsQuery

variable {T : Type} [HasHeader T] [Decode T] {query : BlockExtrinsicsQuery} {id : HashNumber}
  {v : View} {opts : ExtrinsicOptions} {xs : List (BlockExtrinsic T)}

theorem all_answers (v : View) (hid : query.xt.ctx.hashNumber = .ok id) (opts : ExtrinsicOptions) :
    Steady (.answer v) (query.all opts : Rpc (Except Error (List (BlockExtrinsic T))))
      ((v.listed id (withHeader T opts) .extrinsic
        >>= (BlockEncodedExtrinsicsQuery.decodeAll · id))
        >>= (·.mapM BlockEncodedExtrinsic.asExtrinsic)) := by
  refine (BlockEncodedExtrinsicsQuery.all_answers v hid _).bind ?_
  cases v.listed id (withHeader T opts) .extrinsic
    >>= (BlockEncodedExtrinsicsQuery.decodeAll · id) <;> exact .pure _ _

theorem decodeOne_answers {e : Event} {encoded : Rpc (Except Error (Option BlockEncodedExtrinsic))}
    {r : Except Error (Option BlockEncodedExtrinsic)} (h : Steady e encoded r) :
    Steady e (decodeOne encoded : Rpc (Except Error (Option (BlockExtrinsic T))))
      (r >>= (·.mapM BlockEncodedExtrinsic.asExtrinsic)) := by
  refine h.bind ?_
  match r with
  | .error e => exact .pure _ _
  | .ok none => exact .pure _ _
  | .ok (some encoded) => exact .pure _ _

/-- A query for all extrinsics that succeeds has decoded everything the node lists. -/
theorem decoded_of_all (hall : Steady (.answer v) (query.all opts) (.ok xs)) :
    ∃ id infos encoded, query.xt.ctx.hashNumber = .ok id ∧
      v.listed id (withHeader T opts) .extrinsic = .ok infos ∧
      List.Forall₂ (fun info x => BlockEncodedExtrinsic.fromExtrinsicInfo info id = .ok x)
        infos encoded ∧
      List.Forall₂ (fun x y => x.asExtrinsic = .ok y) encoded xs := by
  cases hid : query.xt.ctx.hashNumber with
  | error e =>
    have herror : Steady (.answer v) (query.all opts : Rpc (Except Error (List (BlockExtrinsic T))))
        (.error e) := by
      unfold BlockExtrinsicsQuery.all BlockEncodedExtrinsicsQuery.all
      rw [hid]
      exact (Steady.pure _ _).bind (.pure _ _)
    cases hall.unique herror
  | ok id =>
    have heq := (all_answers v hid opts).unique hall
    obtain ⟨encoded, hencoded, hxs⟩ := bind_ok_iff.mp heq
    obtain ⟨infos, hinfos, hencoded⟩ := bind_ok_iff.mp hencoded
    exact ⟨id, infos, encoded, rfl, hinfos, forall₂_of_mapM hencoded, forall₂_of_mapM hxs⟩

/-- What is picked from what the node lists, decoded. -/
theorem one_agrees {pick : List ExtrinsicInfo → Option ExtrinsicInfo} {infos : List ExtrinsicInfo}
    {encoded : Option BlockEncodedExtrinsic} {x : Option (BlockExtrinsic T)}
    (hid : query.xt.ctx.hashNumber = .ok id)
    (hinfos : v.listed id (withHeader T opts) .extrinsic = .ok infos)
    (hencoded : (pick infos).mapM (BlockEncodedExtrinsic.fromExtrinsicInfo · id) = .ok encoded)
    (hx : encoded.mapM BlockEncodedExtrinsic.asExtrinsic = .ok x) :
    Steady (.answer v) (decodeOne (query.xt.one pick (withHeader T opts))) (.ok x) := by
  have hone := BlockEncodedExtrinsicsQuery.one_answers pick v hid (withHeader T opts)
  rw [hinfos] at hone
  replace hone : Steady _ _ ((pick infos).mapM _) := hone
  rw [hencoded] at hone
  rw [← hx]
  exact decodeOne_answers hone

theorem first_agrees (hall : Steady (.answer v) (query.all opts) (.ok xs)) :
    Steady (.answer v) (query.first opts) (.ok xs.head?) := by
  obtain ⟨id, infos, encoded, hid, hinfos, hencoded, hxs⟩ := decoded_of_all hall
  exact one_agrees hid hinfos (mapM_head? hencoded) (mapM_head? hxs)

theorem last_agrees (hall : Steady (.answer v) (query.all opts) (.ok xs)) :
    Steady (.answer v) (query.last opts) (.ok xs.getLast?) := by
  obtain ⟨id, infos, encoded, hid, hinfos, hencoded, hxs⟩ := decoded_of_all hall
  exact one_agrees hid hinfos (mapM_getLast? hencoded) (mapM_getLast? hxs)

/-- The views agree on a block: each of the other queries gives what the whole list says. -/
structure ViewsAgree (query : BlockExtrinsicsQuery) (v : View) (opts : ExtrinsicOptions)
    (xs : List (BlockExtrinsic T)) : Prop where
  count : Steady (.answer v) (query.count T opts) (.ok xs.length)
  exist : Steady (.answer v) (query.exists T opts) (.ok !xs.isEmpty)
  first : Steady (.answer v) (query.first opts) (.ok xs.head?)
  last : Steady (.answer v) (query.last opts) (.ok xs.getLast?)

/-- The views of a block agree exactly when the filter that is set, or the call's header when none
    is, selects as many extrinsics as the header does. -/
theorem views_agree_iff (hv : FiltersAlike v)
    (hall : Steady (.answer v) (query.all opts) (.ok xs)) :
    ViewsAgree query v opts xs ↔
      ∃ id, query.xt.ctx.hashNumber = .ok id ∧
        v.selected id (withHeader T opts) = v.selected id (onlyHeader T opts) := by
  obtain ⟨id, infos, encoded, hid, hinfos, hencoded, hxs⟩ := decoded_of_all hall
  have hlength : v.selected id (withHeader T opts) = some xs.length := by
    rw [hv.selected hinfos, hencoded.length_eq, hxs.length_eq]
  have hcount := BlockEncodedExtrinsicsQuery.count_answers v hid (onlyHeader T opts)
  constructor
  · intro hagree
    refine ⟨id, hid, ?_⟩
    have heq := hcount.unique hagree.count
    unfold View.selected at hlength ⊢
    rw [hlength, heq]
    rfl
  · rintro ⟨id', hid', heq⟩
    cases hid.symm.trans hid'
    rw [hlength] at heq
    cases hlisted : v.listed id (onlyHeader T opts) .none with
    | error e =>
      unfold View.selected at heq
      rw [hlisted] at heq
      cases heq
    | ok only =>
      have hsame : xs.length = only.length := by
        unfold View.selected at heq
        rw [hlisted] at heq
        exact Option.some.inj heq
      have hexists := BlockEncodedExtrinsicsQuery.exists_answers v hid (onlyHeader T opts)
      rw [hlisted] at hcount hexists
      refine ⟨?_, ?_, first_agrees hall, last_agrees hall⟩
      · rw [hsame]
        exact hcount
      · have hempty : (!xs.isEmpty) = decide (only.length > 0) := by
          rw [← hsame]
          cases xs <;> simp
        rw [hempty]
        exact hexists

end BlockExtrinsicsQuery

/-! ## Looking up one extrinsic -/

section

variable (parseHash : String → Except String H256)

/-- The filter for one extrinsic. -/
def ExtrinsicFilter.ofId : HashStringNumber → Except Error ExtrinsicFilter
  | .hash h => .ok (.txHash [h])
  | .string text =>
    match parseHash text with
    | .error e => .error (.user (.decoding e))
    | .ok h => .ok (.txHash [h])
  | .number n => .ok (.txIndex [n])

/-- The options that have a filter only. -/
def ExtrinsicOptions.ofFilter (filter : ExtrinsicFilter) : ExtrinsicOptions :=
  { (default : ExtrinsicOptions) with filter := some filter }

def BlockEncodedExtrinsicsQuery.get (query : BlockEncodedExtrinsicsQuery)
    (extrinsicId : HashStringNumber) : Rpc (Except Error (Option BlockEncodedExtrinsic)) :=
  match ExtrinsicFilter.ofId parseHash extrinsicId with
  | .error e => pure (.error e)
  | .ok filter => query.first (.ofFilter filter)

def BlockExtrinsicsQuery.get {T : Type} [HasHeader T] [Decode T] (query : BlockExtrinsicsQuery)
    (extrinsicId : HashStringNumber) : Rpc (Except Error (Option (BlockExtrinsic T))) :=
  match ExtrinsicFilter.ofId parseHash extrinsicId with
  | .error e => pure (.error e)
  | .ok filter => query.first (.ofFilter filter)

end

def ExtrinsicFilter.selects : ExtrinsicFilter → ExtrinsicInfo → Bool
  | .all, _ => true
  | .txHash hashes, info => info.extHash ∈ hashes
  | .txIndex indices, info => info.extIndex ∈ indices
  | .pallet ids, info => info.palletId ∈ ids
  | .palletCall ids, info => (info.palletId, info.variantId) ∈ ids

/-- The node lists the extrinsics of a block that a filter selects. -/
def Lists (infos : List ExtrinsicInfo) (hash : H256) (view : View) : Prop :=
  ∀ filter, view.listed (.hash hash) (.ofFilter filter) .extrinsic
    = .ok (infos.filter filter.selects)

/-- No other extrinsic of the block has the hash or the index of this one. -/
def Alone (infos : List ExtrinsicInfo) (info : ExtrinsicInfo) : Prop :=
  ∀ other ∈ infos, other.extHash = info.extHash ∨ other.extIndex = info.extIndex → other = info

/-- The names of an extrinsic in its block. -/
inductive NamedBy (info : ExtrinsicInfo) : ExtrinsicFilter → Prop where
  | hash : NamedBy info (.txHash [info.extHash])
  | index : NamedBy info (.txIndex [info.extIndex])

section

variable {parseHash : String → Except String H256} {infos : List ExtrinsicInfo}
  {info : ExtrinsicInfo} {hash : H256} {view : View} {client : Client}

/-- By any of its names the one extrinsic is found. -/
theorem head?_selected (hinfo : info ∈ infos) (halone : Alone infos info)
    {filter : ExtrinsicFilter} (hname : NamedBy info filter) :
    (infos.filter filter.selects).head? = some info := by
  have hselected : info ∈ infos.filter filter.selects := by
    refine List.mem_filter.mpr ⟨hinfo, ?_⟩
    cases hname <;> simp [ExtrinsicFilter.selects]
  have hone : ∀ other ∈ infos.filter filter.selects, other = info := by
    intro other hother
    obtain ⟨hmem, hname'⟩ := List.mem_filter.mp hother
    apply halone other hmem
    cases hname with
    | hash => exact .inl (by simpa [ExtrinsicFilter.selects] using hname')
    | index => exact .inr (by simpa [ExtrinsicFilter.selects] using hname')
  obtain ⟨first, rest, hcons⟩ := List.exists_cons_of_ne_nil (List.ne_nil_of_mem hselected)
  rw [hcons]
  rw [hcons] at hone
  exact congrArg some (hone first List.mem_cons_self)

theorem first_encoded_steady (hlists : Lists infos hash view) (hinfo : info ∈ infos)
    (halone : Alone infos info) {filter : ExtrinsicFilter} (hname : NamedBy info filter) :
    Steady (.answer view)
      ((BlockEncodedExtrinsicsQuery.new client (.hash hash)).first (.ofFilter filter))
      (some <$> BlockEncodedExtrinsic.fromExtrinsicInfo info (.hash hash)) := by
  have hone := @BlockEncodedExtrinsicsQuery.one_answers (.new client (.hash hash)) (.hash hash)
    List.head? view rfl (.ofFilter filter)
  rw [hlists filter] at hone
  replace hone : Steady _ _ ((infos.filter filter.selects).head?.mapM _) := hone
  rw [head?_selected hinfo halone hname] at hone
  exact hone

/-- The raw extrinsic, by its hash or its index. -/
theorem get_encoded_steady (hlists : Lists infos hash view) (hinfo : info ∈ infos)
    (halone : Alone infos info) {extrinsicId : HashStringNumber} {filter : ExtrinsicFilter}
    (hid : ExtrinsicFilter.ofId parseHash extrinsicId = .ok filter) (hname : NamedBy info filter) :
    Steady (.answer view)
      ((BlockEncodedExtrinsicsQuery.new client (.hash hash)).get parseHash extrinsicId)
      (some <$> BlockEncodedExtrinsic.fromExtrinsicInfo info (.hash hash)) := by
  unfold BlockEncodedExtrinsicsQuery.get
  rw [hid]
  exact first_encoded_steady hlists hinfo halone hname

/-- The decoded extrinsic, by its hash or its index. -/
theorem get_extrinsic_steady {T : Type} [HasHeader T] [Decode T] (hlists : Lists infos hash view)
    (hinfo : info ∈ infos) (halone : Alone infos info) {extrinsicId : HashStringNumber}
    {filter : ExtrinsicFilter} (hid : ExtrinsicFilter.ofId parseHash extrinsicId = .ok filter)
    (hname : NamedBy info filter) :
    Steady (.answer view)
      ((BlockExtrinsicsQuery.new client (.hash hash)).get parseHash extrinsicId :
        Rpc (Except Error (Option (BlockExtrinsic T))))
      (some <$> (BlockEncodedExtrinsic.fromExtrinsicInfo info (.hash hash)
        >>= BlockEncodedExtrinsic.asExtrinsic)) := by
  have hraw := @first_encoded_steady _ _ _ _ client hlists hinfo halone _ hname
  have hdecoded := @BlockExtrinsicsQuery.decodeOne_answers T _ _ _ _ _ hraw
  have hheader : BlockExtrinsicsQuery.withHeader T (.ofFilter filter) = .ofFilter filter := rfl
  have hresult : ((some <$> BlockEncodedExtrinsic.fromExtrinsicInfo info (.hash hash))
        >>= (·.mapM BlockEncodedExtrinsic.asExtrinsic) :
          Except Error (Option (BlockExtrinsic T)))
      = some <$> (BlockEncodedExtrinsic.fromExtrinsicInfo info (.hash hash)
        >>= BlockEncodedExtrinsic.asExtrinsic) := by
    cases BlockEncodedExtrinsic.fromExtrinsicInfo info (.hash hash) with
    | error e => rfl
    | ok x => rfl
  unfold BlockExtrinsicsQuery.get
  rw [hid]
  show Steady _ (BlockExtrinsicsQuery.decodeOne
    (BlockEncodedExtrinsicsQuery.first _ (BlockExtrinsicsQuery.withHeader T (.ofFilter filter)))) _
  rw [hheader, ← hresult]
  exact hdecoded

end

/-! ## A block that sets the time twice -/

/-- A node that knows the extrinsics of one block. -/
def View.ofBlock (infos : List ExtrinsicInfo) : View
  | .fetchExtrinsics _ opts => .ok
      ((infos.filter fun info => opts.transactionFilter.selects info &&
        opts.ss58Address.all (fun x => info.signerPayload.any (·.ss58Address = some x)) &&
        opts.appId.all (fun x => info.signerPayload.any (·.appId = x)) &&
        opts.nonce.all (fun x => info.signerPayload.any (·.nonce = x))).map
        fun info => if opts.encodeAs = .none then info.withoutData else info)
  | _ => .error (.rpc "not available")

theorem View.ofBlock_filtersAlike (infos : List ExtrinsicInfo) : FiltersAlike (ofBlock infos) := by
  intro id opts encodeAs
  refine congrArg Except.ok ?_
  simp only [List.map_map]
  refine List.map_congr_left fun info _ => ?_
  cases encodeAs <;> rfl

theorem View.ofBlock_lists (infos : List ExtrinsicInfo) (hash : H256) :
    Lists infos hash (ofBlock infos) := by
  intro filter
  show Except.ok _ = Except.ok _
  have hdefault : (default : ExtrinsicOptions) = ⟨none, none, none, none⟩ := rfl
  simp [ExtrinsicOptions.toRpcOpts, ExtrinsicOptions.ofFilter, hdefault]

/-- The text of its bytes reads as the extrinsic. -/
theorem fromExtrinsicInfo_of_hexText {info : ExtrinsicInfo} {bytes : Bytes} {x : EncodedExtrinsic}
    (hdata : info.data = some (hexText bytes)) (hread : EncodedExtrinsic.tryFromBytes bytes = .ok x)
    (id : HashNumber) : BlockEncodedExtrinsic.fromExtrinsicInfo info id
      = .ok ⟨x.signature, x.call, .fromExtrinsicInfo info id⟩ := by
  have htext : (hexText bytes).toList = "0x".toList ++ Hex.encode bytes := String.toList_ofList
  have htrim : Hex.trimStartMatches "0x".toList (hexText bytes).toList = Hex.encode bytes := by
    rw [htext]
    exact Hex.trimStartMatches_append (by decide) (Hex.not_zeroX_encode bytes)
  have hstr : EncodedExtrinsic.tryFromStr (hexText bytes) = .ok x := by
    rw [EncodedExtrinsic.tryFromStr, htrim, Hex.decode_encode, ← hread]
  simp only [BlockEncodedExtrinsic.fromExtrinsicInfo, hdata, hstr]

namespace BlockExtrinsicsQuery

open Timestamp.Tx (Set)

def timestamp : ExtrinsicInfo :=
  ⟨some (hexText [0x10, 4, 3, 0, 0]), FixedBytes.fill 32 5, 0, 3, 0, none⟩

def submission : ExtrinsicInfo :=
  ⟨some (hexText [0x14, 4, 29, 1, 4, 0xAA]), FixedBytes.fill 32 6, 1, 29, 1, none⟩

def laterTimestamp : ExtrinsicInfo :=
  ⟨some (hexText [0x10, 4, 3, 0, 4]), FixedBytes.fill 32 7, 2, 3, 0, none⟩

def infos : List ExtrinsicInfo := [timestamp, submission, laterTimestamp]

def genesisQuery : BlockExtrinsicsQuery := new Client.devnet (.number 0)

/-- The options for an extrinsic that the block does not have. -/
def eighth : ExtrinsicOptions := { (default : ExtrinsicOptions) with filter := some (.txIndex [7]) }

/-- No extrinsic has the index, but one has the header of the call and is counted. -/
theorem views_disagree : FiltersAlike (.ofBlock [timestamp]) ∧
    Steady (.answer (.ofBlock [timestamp]))
      (genesisQuery.all eighth : Rpc (Except Error (List (BlockExtrinsic Set)))) (.ok []) ∧
    Steady (.answer (.ofBlock [timestamp])) (genesisQuery.count Set eighth) (.ok 1) ∧
    ¬ ViewsAgree genesisQuery (.ofBlock [timestamp]) eighth ([] : List (BlockExtrinsic Set)) := by
  have hcount : Steady (.answer (.ofBlock [timestamp])) (genesisQuery.count Set eighth) (.ok 1) :=
    BlockEncodedExtrinsicsQuery.count_answers _ rfl _
  refine ⟨View.ofBlock_filtersAlike _, all_answers _ rfl _, hcount, ?_⟩
  intro hagree
  cases hcount.unique hagree.count

/-- The options for the first and the last of the three. -/
def ends : ExtrinsicOptions :=
  { (default : ExtrinsicOptions) with filter := some (.txIndex [0, 2]) }

/-- By their indices both timestamps are found, which are as many as have the header of the call. -/
theorem views_agree_ends : ViewsAgree genesisQuery (.ofBlock infos) ends
    [(⟨none, ⟨0⟩, .fromExtrinsicInfo timestamp (.number 0)⟩ : BlockExtrinsic Set),
      ⟨none, ⟨1⟩, .fromExtrinsicInfo laterTimestamp (.number 0)⟩] := by
  have hfirst := @fromExtrinsicInfo_of_hexText timestamp _ ⟨none, [3, 0, 0]⟩ rfl rfl (.number 0)
  have hlast := @fromExtrinsicInfo_of_hexText laterTimestamp _ ⟨none, [3, 0, 4]⟩ rfl rfl (.number 0)
  have hdecoded : ((View.listed (.ofBlock infos) (.number 0) (withHeader Set ends) .extrinsic
      >>= (BlockEncodedExtrinsicsQuery.decodeAll · (.number 0)))
      >>= (·.mapM BlockEncodedExtrinsic.asExtrinsic))
      = .ok [(⟨none, ⟨0⟩, .fromExtrinsicInfo timestamp (.number 0)⟩ : BlockExtrinsic Set),
        ⟨none, ⟨1⟩, .fromExtrinsicInfo laterTimestamp (.number 0)⟩] := by
    show ([timestamp, laterTimestamp].mapM (BlockEncodedExtrinsic.fromExtrinsicInfo · (.number 0))
      >>= _) = _
    rw [List.mapM_cons, hfirst, List.mapM_cons, hlast]
    rfl
  refine (views_agree_iff (View.ofBlock_filtersAlike _) ?_).mpr ⟨.number 0, rfl, rfl⟩
  rw [← hdecoded]
  exact all_answers _ rfl _

end BlockExtrinsicsQuery

end AvailRust
