/-
  The events of a block, and of one extrinsic of it.

  The node groups events by the phase they were emitted in, and it filters them. `all` asks for
  what a filter selects and takes the groups one behind the other; `extrinsic`, `system` and
  `extrinsicWeight` are built on it. On a node that filters as it is asked, the events of the
  extrinsics and those of the system are the block's events, each in one part
  (`views_partition`). `BlockEvents` looks for events of one type in such a list.
-/
import AvailRust.Client.Block
import AvailRust.Lib.Results
import AvailRust.Lib.StableSort
import AvailRust.Pallets.Events
import AvailRust.Storage.State
import Mathlib.Algebra.Group.Fin.Basic

namespace AvailRust

open Scale Dialogue Results

/-! ## The events of the system -/

namespace System

inductive DispatchClass where
  | normal
  | operational
  | mandatory
deriving DecidableEq

instance : Decode DispatchClass := ⟨do
  match ← readByte with
  | 0 => pure .normal
  | 1 => pure .operational
  | 2 => pure .mandatory
  | _ => fail "Failed to decode DispatchClass. Unknown variant"⟩

inductive Pays where
  | yes
  | no
deriving DecidableEq

instance : Decode Pays := ⟨do
  match ← readByte with
  | 0 => pure .yes
  | 1 => pure .no
  | _ => fail "Failed to decode Pays. Unknown variant"⟩

structure DispatchFeeModifier where
  weightMaximumFee : Option U128
  weightFeeDivider : Option U32
  weightFeeMultiplier : Option U32

instance : Decode DispatchFeeModifier := ⟨do
  let weightMaximumFee ← decode
  let weightFeeDivider ← decode
  let weightFeeMultiplier ← decode
  pure { weightMaximumFee, weightFeeDivider, weightFeeMultiplier }⟩

structure DispatchInfo where
  weight : Weight
  cls : DispatchClass
  paysFee : Pays
  feeModifier : DispatchFeeModifier

instance : Decode DispatchInfo := ⟨do
  let weight ← decode
  let cls ← decode
  let paysFee ← decode
  let feeModifier ← decode
  pure { weight, cls, paysFee, feeModifier }⟩

namespace Events

structure ExtrinsicSuccess where
  dispatchInfo : DispatchInfo

instance : HasHeader ExtrinsicSuccess := ⟨palletId, 0⟩

instance : Decode ExtrinsicSuccess := ⟨do
  let dispatchInfo ← decode
  pure { dispatchInfo }⟩

structure ExtrinsicFailed where
  dispatchError : DispatchError
  dispatchInfo : DispatchInfo

instance : HasHeader ExtrinsicFailed := ⟨palletId, 1⟩

instance : Decode ExtrinsicFailed := ⟨do
  let dispatchError ← decode
  let dispatchInfo ← decode
  pure { dispatchError, dispatchInfo }⟩

end Events

end System

/-- `from_event` of a hexadecimal text. -/
def fromEventText (T : Type) [HasHeader T] [Decode T] (event : String) : Except String T :=
  unhex event >>= fromEvent T

/-! ## One event -/

def RuntimePhase.extrinsicIndex : RuntimePhase → Option Nat
  | .applyExtrinsic index => some index
  | _ => none

structure BlockEvent where
  phase : RuntimePhase
  index : Nat
  palletId : UInt8
  variantId : UInt8
  data : String
deriving DecidableEq

namespace BlockEvent

def fromPhaseEvent (event : PhaseEvent) (phase : RuntimePhase) : Except Error BlockEvent :=
  match event.encodedData with
  | none => .error (.rpcError
      (.expectedData "The node did not return encoded data for this event."))
  | some data =>
    .ok ⟨phase, event.index, event.palletId, event.variantId, data⟩

/-- Whether the event has the header of a type. -/
def hasHeader (T : Type) [HasHeader T] (event : BlockEvent) : Bool :=
  event.palletId = (headerIndex T).1 ∧ event.variantId = (headerIndex T).2

end BlockEvent

/-! ## A list of events -/

structure BlockEvents where
  events : List BlockEvent
deriving DecidableEq

namespace BlockEvents

section

variable (T : Type) [HasHeader T]

def countParts (x : BlockEvents) (palletId variantId : UInt8) : Nat :=
  x.events.foldl (fun count event =>
    if event.palletId = palletId ∧ event.variantId = variantId then u32Add count 1 else count) 0

def isPresentParts (x : BlockEvents) (palletId variantId : UInt8) : Bool :=
  x.countParts palletId variantId > 0

def count (x : BlockEvents) : Nat := x.countParts (headerIndex T).1 (headerIndex T).2

def isPresent (x : BlockEvents) : Bool := x.count T > 0

variable [Decode T]

def first (x : BlockEvents) : Option T :=
  (x.events.find? (·.hasHeader T)).bind fun event => (fromEventText T event.data).toOption

def last (x : BlockEvents) : Option T :=
  (x.events.reverse.find? (·.hasHeader T)).bind fun event =>
    (fromEventText T event.data).toOption

def all (x : BlockEvents) : Except Error (List T) :=
  (x.events.filter (·.hasHeader T)).mapM fun event =>
    (fromEventText T event.data).mapError fun e => .user (.decoding e)

end

def isExtrinsicSuccessPresent (x : BlockEvents) : Bool := x.isPresent System.Events.ExtrinsicSuccess

def isExtrinsicFailedPresent (x : BlockEvents) : Bool := x.isPresent System.Events.ExtrinsicFailed

/-- Whether a call by proxy went well, if there was one. -/
def proxyExecutedSuccessfully (x : BlockEvents) : Option Bool :=
  (x.first Proxy.Events.ProxyExecuted).map fun executed => executed.result.isOk

/-- Whether a call by many went well, if there was one. -/
def multisigExecutedSuccessfully (x : BlockEvents) : Option Bool :=
  (x.first Multisig.Events.MultisigExecuted).map fun executed => executed.result.isOk

end BlockEvents

/-! ## Asking for events -/

/-- The events of all groups, one behind the other. -/
def eventsOf (groups : List BlockPhaseEvent) : Except Error (List BlockEvent) :=
  groups.foldlM (fun result group =>
    group.events.foldlM (fun result event =>
      (result ++ [·]) <$> BlockEvent.fromPhaseEvent event group.phase) result) []

/-- `ref_time` and `proof_size`, each added on 64 bits. -/
def Weight.add (a b : Weight) : Weight := ⟨a.refTime + b.refTime, a.proofSize + b.proofSize⟩

/-- The loop's body of `extrinsic_weight`. -/
def addWeight (weight : Weight) (event : BlockEvent) : Except Error Weight :=
  if event.phase.extrinsicIndex.isNone then .ok weight
  else if event.hasHeader System.Events.ExtrinsicSuccess then
    match fromEventText System.Events.ExtrinsicSuccess event.data with
    | .error e => .error (.other e)
    | .ok e => .ok (weight.add e.dispatchInfo.weight)
  else if event.hasHeader System.Events.ExtrinsicFailed then
    match fromEventText System.Events.ExtrinsicFailed event.data with
    | .error e => .error (.other e)
    | .ok e => .ok (weight.add e.dispatchInfo.weight)
  else .ok weight

namespace BlockEventsQuery

def all (query : BlockEventsQuery) (filter : EventFilter) :
    Rpc (Except Error (List BlockEvent)) := do
  let opts : EventOpts := ⟨some filter, some true, some false⟩
  match ← query.ctx.chain.systemFetchEvents query.ctx.blockId opts with
  | .error e => pure (.error e)
  | .ok groups => pure (eventsOf groups)

def extrinsic (query : BlockEventsQuery) (txIndex : Nat) : Rpc (Except Error BlockEvents) := do
  match ← query.all (.only [txIndex]) with
  | .error e => pure (.error e)
  | .ok events => pure (.ok ⟨events⟩)

def system (query : BlockEventsQuery) : Rpc (Except Error BlockEvents) := do
  match ← query.all .onlyNonExtrinsics with
  | .error e => pure (.error e)
  | .ok events => pure (.ok ⟨events.filter fun event => event.phase.extrinsicIndex.isNone⟩)

def extrinsicWeight (query : BlockEventsQuery) : Rpc (Except Error Weight) := do
  match ← query.all .onlyExtrinsics with
  | .error e => pure (.error e)
  | .ok events => pure (events.foldlM addWeight ⟨0, 0⟩)

end BlockEventsQuery

def Block.events (block : Block) : BlockEventsQuery := .new block.ctx.client block.ctx.blockId

/-! ## Groups and their events -/

/-- The events of one group. -/
def groupEvents (group : BlockPhaseEvent) : Except Error (List BlockEvent) :=
  group.events.mapM fun event => BlockEvent.fromPhaseEvent event group.phase

theorem eventsOf_eq (groups : List BlockPhaseEvent) :
    eventsOf groups
      = groups.foldlM (fun result group => (result ++ ·) <$> groupEvents group) [] := by
  unfold eventsOf groupEvents
  congr 1
  funext result group
  exact foldlM_snoc group.events result

/-- The events of groups are those of each, in order. -/
theorem eventsOf_eq_ok {groups : List BlockPhaseEvent} {events : List BlockEvent} :
    eventsOf groups = .ok events ↔
      ∃ parts, List.Forall₂ (fun group part => groupEvents group = .ok part) groups parts ∧
        events = parts.flatten := by
  have hflatten : ∀ parts : List (List BlockEvent),
      parts.foldl (fun result part => result ++ part) [] = parts.flatten := by
    intro parts
    have happend := @List.foldl_append_eq_append _ _ parts id []
    rwa [List.map_id, List.nil_append] at happend
  rw [eventsOf_eq, pushes_eq_ok]
  constructor
  · rintro ⟨parts, hparts, rfl⟩
    exact ⟨parts, hparts, hflatten parts⟩
  · rintro ⟨parts, hparts, rfl⟩
    exact ⟨parts, hparts, (hflatten parts).symm⟩

theorem phase_of_groupEvents {group : BlockPhaseEvent} {part : List BlockEvent}
    (h : groupEvents group = .ok part) : ∀ event ∈ part, event.phase = group.phase := by
  have hall := forall₂_of_mapM h
  intro event hevent
  obtain ⟨i, hi, rfl⟩ := List.getElem_of_mem hevent
  have hone := (List.forall₂_iff_get.mp hall).2 i (by rw [hall.length_eq]; exact hi) hi
  unfold BlockEvent.fromPhaseEvent at hone
  split at hone
  · cases hone
  · have heq : _ = part[i] := Except.ok.inj hone
    rw [← heq]

/-- Each event is of the phase of a group. -/
theorem phase_of_eventsOf {groups : List BlockPhaseEvent} {events : List BlockEvent}
    (h : eventsOf groups = .ok events) :
    ∀ event ∈ events, ∃ group ∈ groups, event.phase = group.phase := by
  obtain ⟨parts, hparts, rfl⟩ := eventsOf_eq_ok.mp h
  intro event hevent
  obtain ⟨part, hpart, hmem⟩ := List.mem_flatten.mp hevent
  obtain ⟨i, hi, rfl⟩ := List.getElem_of_mem hpart
  have hlt : i < groups.length := by
    rw [hparts.length_eq]
    exact hi
  have hgroup := (List.forall₂_iff_get.mp hparts).2 i hlt hi
  exact ⟨groups[i], List.getElem_mem hlt, phase_of_groupEvents hgroup event hmem⟩

/-- What is selected of the groups are the events of the selected phases. -/
theorem eventsOf_filter {groups : List BlockPhaseEvent} {events : List BlockEvent}
    (h : eventsOf groups = .ok events) (p : RuntimePhase → Bool) :
    eventsOf (groups.filter fun group => p group.phase)
      = .ok (events.filter fun event => p event.phase) := by
  obtain ⟨parts, hparts, rfl⟩ := eventsOf_eq_ok.mp h
  clear h
  induction hparts with
  | nil => rfl
  | @cons group part groups parts hpart _ ih =>
    obtain ⟨rest, hrest, heq⟩ := eventsOf_eq_ok.mp ih
    have hphase := phase_of_groupEvents hpart
    rw [List.flatten_cons, List.filter_append, heq]
    cases hp : p group.phase with
    | true =>
      have hall : part.filter (fun event => p event.phase) = part := by
        apply List.filter_eq_self.mpr
        intro event hevent
        rw [hphase event hevent, hp]
      rw [List.filter_cons_of_pos (by simpa using hp), hall]
      exact eventsOf_eq_ok.mpr ⟨part :: rest, .cons hpart hrest, rfl⟩
    | false =>
      have hnone : part.filter (fun event => p event.phase) = [] := by
        apply List.filter_eq_nil_iff.mpr
        intro event hevent
        rw [hphase event hevent, hp]
        simp
      rw [List.filter_cons_of_neg (by simpa using hp), hnone, List.nil_append]
      exact eventsOf_eq_ok.mpr ⟨rest, hrest, rfl⟩

/-! ## Weights -/

/-- What an event adds to the weight. -/
def eventWeight (event : BlockEvent) : Except Error Weight := addWeight ⟨0, 0⟩ event

def totalWeight (weights : List Weight) : Weight := weights.foldr Weight.add ⟨0, 0⟩

/-- The weight that a list of events reports. -/
def weightOf (events : List BlockEvent) : Except Error Weight := events.foldlM addWeight ⟨0, 0⟩

theorem add_zero_weight (weight : Weight) : weight.add ⟨0, 0⟩ = weight := by
  simp [Weight.add]

theorem zero_add_weight (weight : Weight) : Weight.add ⟨0, 0⟩ weight = weight := by
  simp [Weight.add]

theorem addWeight_eq (weight : Weight) (event : BlockEvent) :
    addWeight weight event = weight.add <$> eventWeight event := by
  unfold eventWeight addWeight
  split
  · exact congrArg Except.ok (add_zero_weight weight).symm
  · split
    · split
      · rfl
      · exact congrArg Except.ok (congrArg weight.add (zero_add_weight _)).symm
    · split
      · split
        · rfl
        · exact congrArg Except.ok (congrArg weight.add (zero_add_weight _)).symm
      · exact congrArg Except.ok (add_zero_weight weight).symm

theorem weight_add_assoc (a b c : Weight) : (a.add b).add c = a.add (b.add c) := by
  simp only [Weight.add, Weight.mk.injEq]
  exact ⟨add_assoc .., add_assoc ..⟩

theorem weight_add_left_comm (a b c : Weight) : a.add (b.add c) = b.add (a.add c) := by
  simp only [Weight.add, Weight.mk.injEq]
  exact ⟨add_left_comm .., add_left_comm ..⟩

theorem foldl_add (weights : List Weight) (weight : Weight) :
    weights.foldl Weight.add weight = weight.add (totalWeight weights) := by
  induction weights generalizing weight with
  | nil => exact (add_zero_weight weight).symm
  | cons x weights ih =>
    rw [List.foldl_cons, ih, weight_add_assoc]
    rfl

/-- The reported weight is the sum of what the events add. -/
theorem weightOf_eq_ok {events : List BlockEvent} {weight : Weight} :
    weightOf events = .ok weight ↔
      ∃ weights, List.Forall₂ (fun event added => eventWeight event = .ok added) events weights ∧
        weight = totalWeight weights := by
  have hbody : addWeight = fun weight event => weight.add <$> eventWeight event := by
    funext weight event
    exact addWeight_eq weight event
  rw [weightOf, hbody, pushes_eq_ok]
  simp only [foldl_add, zero_add_weight]

theorem totalWeight_append (xs ys : List Weight) :
    totalWeight (xs ++ ys) = (totalWeight xs).add (totalWeight ys) := by
  induction xs with
  | nil => exact (zero_add_weight _).symm
  | cons x xs ih =>
    show x.add (totalWeight (xs ++ ys)) = (x.add (totalWeight xs)).add (totalWeight ys)
    rw [ih, weight_add_assoc]

theorem totalWeight_perm {xs ys : List Weight} (h : xs.Perm ys) :
    totalWeight xs = totalWeight ys :=
  @List.Perm.foldr_eq _ _ _ _ _ ⟨weight_add_left_comm⟩ h _

theorem weightOf_append {xs ys : List BlockEvent} {a b : Weight} (hxs : weightOf xs = .ok a)
    (hys : weightOf ys = .ok b) : weightOf (xs ++ ys) = .ok (a.add b) := by
  obtain ⟨ws, hws, rfl⟩ := weightOf_eq_ok.mp hxs
  obtain ⟨vs, hvs, rfl⟩ := weightOf_eq_ok.mp hys
  exact weightOf_eq_ok.mpr ⟨ws ++ vs, List.rel_append hws hvs, (totalWeight_append ws vs).symm⟩

theorem weightOf_flatMap {ι : Type} {parts : ι → List BlockEvent} {weights : ι → Weight}
    {is : List ι} (h : ∀ i ∈ is, weightOf (parts i) = .ok (weights i)) :
    weightOf (is.flatMap parts) = .ok (totalWeight (is.map weights)) := by
  induction is with
  | nil => rfl
  | cons i is ih =>
    have hrest := ih fun j hj => h j (List.mem_cons_of_mem _ hj)
    rw [List.flatMap_cons, List.map_cons]
    exact weightOf_append (h i List.mem_cons_self) hrest

/-- The order of events makes no difference to their weight. -/
theorem weightOf_perm {xs ys : List BlockEvent} (h : xs.Perm ys) {weight : Weight}
    (hxs : weightOf xs = .ok weight) : weightOf ys = .ok weight := by
  obtain ⟨weights, hall, rfl⟩ := weightOf_eq_ok.mp hxs
  obtain ⟨weights', hall', hperm⟩ := List.perm_comp_forall₂ h.symm hall
  exact weightOf_eq_ok.mpr ⟨weights', hall', (totalWeight_perm hperm).symm⟩

/-! ## The views of a block -/

/-- Whether a filter selects the events of a phase. -/
def EventFilter.selects : EventFilter → RuntimePhase → Bool
  | .all, _ => true
  | .onlyExtrinsics, phase => phase.extrinsicIndex.isSome
  | .onlyNonExtrinsics, phase => phase.extrinsicIndex.isNone
  | .only indices, phase => phase.extrinsicIndex.any indices.contains

/-- The events that are not of an extrinsic. -/
def systemEvents (events : List BlockEvent) : List BlockEvent :=
  events.filter fun event => event.phase.extrinsicIndex.isNone

/-- The events of one extrinsic. -/
def extrinsicEvents (events : List BlockEvent) (i : Nat) : List BlockEvent :=
  events.filter fun event => decide (event.phase.extrinsicIndex = some i)

/-- The node has the events `block` for a block, and filters them as it is asked. -/
def ServesEvents (block : List BlockPhaseEvent) (hash : H256) (view : View) : Prop :=
  ∀ filter decoding, view (.fetchEvents hash ⟨some filter, some true, decoding⟩)
    = .ok (block.filter fun group => filter.selects group.phase)

section

variable {query : BlockEventsQuery} {block : List BlockPhaseEvent} {events : List BlockEvent}
  {hash : H256} {view : View}

theorem all_steady
    (hhash : Steady (.answer view) (query.ctx.chain.toHash query.ctx.blockId) (.ok hash))
    (hserves : ServesEvents block hash view) (hevents : eventsOf block = .ok events)
    (filter : EventFilter) :
    Steady (.answer view) (query.all filter)
      (.ok (events.filter fun event => filter.selects event.phase)) := by
  have hanswer : Steady (.answer view)
      (query.ctx.chain.systemFetchEvents query.ctx.blockId ⟨some filter, some true, some false⟩)
      (.ok (block.filter fun group => filter.selects group.phase)) := by
    have hresponse : Event.response (.fetchEvents hash ⟨some filter, some true, some false⟩)
        (.answer view) = .ok (block.filter fun group => filter.selects group.phase) :=
      hserves filter (some false)
    refine hhash.bind ?_
    refine (withRetryOnError_steady (call_steady _ _) _).bind ?_
    rw [hresponse]
    exact .pure _ _
  refine hanswer.bind ?_
  show Steady _ (pure (eventsOf _)) _
  rw [eventsOf_filter hevents]
  exact .pure _ _

theorem extrinsic_steady
    (hhash : Steady (.answer view) (query.ctx.chain.toHash query.ctx.blockId) (.ok hash))
    (hserves : ServesEvents block hash view) (hevents : eventsOf block = .ok events) (i : Nat) :
    Steady (.answer view) (query.extrinsic i)
      (.ok ⟨extrinsicEvents events i⟩) := by
  have hselects : (fun event : BlockEvent => (EventFilter.only [i]).selects event.phase)
      = fun event => decide (event.phase.extrinsicIndex = some i) := by
    funext event
    cases hindex : event.phase.extrinsicIndex with
    | none => simp [EventFilter.selects, hindex]
    | some j => simp [EventFilter.selects, hindex]
  rw [extrinsicEvents, ← hselects]
  exact (all_steady hhash hserves hevents (.only [i])).bind (.pure _ _)

theorem system_steady
    (hhash : Steady (.answer view) (query.ctx.chain.toHash query.ctx.blockId) (.ok hash))
    (hserves : ServesEvents block hash view) (hevents : eventsOf block = .ok events) :
    Steady (.answer view) query.system
      (.ok ⟨systemEvents events⟩) := by
  have hall := all_steady hhash hserves hevents .onlyNonExtrinsics
  have htwice : (events.filter fun event =>
      EventFilter.onlyNonExtrinsics.selects event.phase).filter
        (fun event => event.phase.extrinsicIndex.isNone) = systemEvents events := by
    rw [List.filter_filter]
    simp [EventFilter.selects, systemEvents]
  rw [← htwice]
  exact hall.bind (.pure _ _)

/-- The events of the system and those of each extrinsic are the events of the block, each once and
    in order, and the block's weight is the sum of the extrinsics' weights. -/
theorem views_partition
    (hhash : Steady (.answer view) (query.ctx.chain.toHash query.ctx.blockId) (.ok hash))
    (hserves : ServesEvents block hash view) (hevents : eventsOf block = .ok events) {n : Nat}
    (hcount : ∀ group ∈ block, ∀ i, group.phase.extrinsicIndex = some i → i < n) :
    Steady (.answer view) (query.all .all) (.ok events) ∧
    Steady (.answer view) query.system (.ok ⟨systemEvents events⟩) ∧
    (∀ i, Steady (.answer view) (query.extrinsic i) (.ok ⟨extrinsicEvents events i⟩)) ∧
    (systemEvents events).Sublist events ∧ (∀ i, (extrinsicEvents events i).Sublist events) ∧
    events.Perm (systemEvents events ++ (List.range n).flatMap (extrinsicEvents events)) ∧
    ∀ weights : Nat → Weight, (∀ i < n, weightOf (extrinsicEvents events i) = .ok (weights i)) →
      Steady (.answer view) query.extrinsicWeight
        (.ok (totalWeight ((List.range n).map weights))) := by
  have hbounded : ∀ event ∈ events.filter (fun event => !event.phase.extrinsicIndex.isNone),
      ∃ i < n, event.phase.extrinsicIndex = some i := by
    intro event hevent
    obtain ⟨hmem, hsome⟩ := List.mem_filter.mp hevent
    obtain ⟨group, hgroup, hphase⟩ := phase_of_eventsOf hevents event hmem
    cases hindex : event.phase.extrinsicIndex with
    | none => simp [hindex] at hsome
    | some i => exact ⟨i, hcount group hgroup i (hphase ▸ hindex), rfl⟩
  have hcolumns := StableSort.perm_columns hbounded
  have hparts : (fun i => (events.filter fun event => !event.phase.extrinsicIndex.isNone).filter
        fun event => decide (event.phase.extrinsicIndex = some i))
      = extrinsicEvents events := by
    funext i
    rw [extrinsicEvents]
    rw [List.filter_filter]
    apply List.filter_congr
    intro event _
    cases event.phase.extrinsicIndex <;> simp
  rw [hparts] at hcolumns
  refine ⟨?all, system_steady hhash hserves hevents, extrinsic_steady hhash hserves hevents,
    List.filter_sublist, fun _ => List.filter_sublist, ?parts, ?weights⟩
  case all =>
    have hall := all_steady hhash hserves hevents .all
    have hevery : (events.filter fun event => EventFilter.all.selects event.phase) = events :=
      List.filter_eq_self.mpr fun _ _ => rfl
    rwa [hevery] at hall
  case parts =>
    have hsplit := List.filter_append_perm
      (fun event : BlockEvent => event.phase.extrinsicIndex.isNone) events
    exact hsplit.symm.trans (hcolumns.append_left _)
  case weights =>
    intro weights hweights
    have hsome : (fun event : BlockEvent => EventFilter.onlyExtrinsics.selects event.phase)
        = fun event => !event.phase.extrinsicIndex.isNone := by
      funext event
      exact (Option.not_isNone _).symm
    have hall := all_steady hhash hserves hevents .onlyExtrinsics
    have hsum := weightOf_flatMap fun i hi => hweights i (List.mem_range.mp hi)
    have htotal := weightOf_perm hcolumns.symm hsum
    rw [hsome] at hall
    refine hall.bind ?_
    show Steady _ (pure (weightOf _)) _
    rw [htotal]
    exact .pure _ _

end

namespace TwoExtrinsics

def hash : H256 := FixedBytes.fill 32 7

/-- Two extrinsics, the second with an event of its own, and an event of the system. -/
def block : List BlockPhaseEvent :=
  [⟨.applyExtrinsic 0, [⟨0, 0, 0, some "0x00000c100100000000", none⟩]⟩,
    ⟨.applyExtrinsic 1,
      [⟨1, 29, 1, some "0x1d01", none⟩, ⟨2, 0, 0, some "0x000014180000000000", none⟩]⟩,
    ⟨.finalization, [⟨3, 6, 7, some "0x0607", none⟩]⟩]

def events : List BlockEvent :=
  [⟨.applyExtrinsic 0, 0, 0, 0, "0x00000c100100000000"⟩,
    ⟨.applyExtrinsic 1, 1, 29, 1, "0x1d01"⟩,
    ⟨.applyExtrinsic 1, 2, 0, 0, "0x000014180000000000"⟩,
    ⟨.finalization, 3, 6, 7, "0x0607"⟩]

def weights (i : Nat) : Weight := if i = 0 then ⟨3, 4⟩ else ⟨5, 6⟩

def view : View
  | .fetchEvents _ opts =>
    .ok (block.filter fun group => (opts.filter.getD .all).selects group.phase)
  | _ => .error (.rpc "Method not found")

def query : BlockEventsQuery := .new Client.devnet (.hash hash)

end TwoExtrinsics

open TwoExtrinsics in
theorem views_partition_two :
    Steady (.answer view) query.system (.ok ⟨systemEvents events⟩) ∧
      Steady (.answer view) query.extrinsicWeight (.ok ⟨8, 10⟩) := by
  have hhash : Steady (.answer view) (query.ctx.chain.toHash query.ctx.blockId) (.ok hash) :=
    Steady.pure _ _
  have hserves : ServesEvents block hash view := fun _ _ => rfl
  have hevents : eventsOf block = .ok events := rfl
  have hcount : ∀ group ∈ block, ∀ i, group.phase.extrinsicIndex = some i → i < 2 := by
    intro group hgroup i hi
    obtain rfl | rfl | rfl : group = ⟨.applyExtrinsic 0, _⟩ ∨ group = ⟨.applyExtrinsic 1, _⟩ ∨
        group = ⟨.finalization, _⟩ := by
      simpa [block] using hgroup
    · simp [RuntimePhase.extrinsicIndex] at hi
      omega
    · simp [RuntimePhase.extrinsicIndex] at hi
      omega
    · simp [RuntimePhase.extrinsicIndex] at hi
  obtain ⟨_, hsystem, _, _, _, _, hweight⟩ := views_partition hhash hserves hevents hcount
  have hweights : ∀ i < 2, weightOf (extrinsicEvents events i) = .ok (weights i) := by
    intro i hi
    obtain rfl | rfl : i = 0 ∨ i = 1 := by omega
    · with_unfolding_all rfl
    · with_unfolding_all rfl
  have htotal : totalWeight ((List.range 2).map weights) = ⟨8, 10⟩ := rfl
  rw [← htotal]
  exact ⟨hsystem, hweight weights hweights⟩

/-! ## Events of one type -/

section

variable {T : Type} [HasHeader T] [Decode T] {x : BlockEvents} {ts : List T}

/-- The events with the header of a type. -/
def BlockEvents.typed (T : Type) [HasHeader T] (x : BlockEvents) : List BlockEvent :=
  x.events.filter (·.hasHeader T)

/-- An event reads as a value of its type. -/
def BlockEvent.Reads (event : BlockEvent) (t : T) : Prop := fromEventText T event.data = .ok t

theorem all_eq_ok :
    x.all T = .ok ts ↔ List.Forall₂ BlockEvent.Reads (x.typed T) ts := by
  have hread : ∀ (event : BlockEvent) (t : T),
      (fromEventText T event.data).mapError (fun e => Error.user (.decoding e)) = .ok t ↔
        event.Reads t := by
    intro event t
    unfold BlockEvent.Reads
    cases fromEventText T event.data with
    | error e => exact ⟨nofun, nofun⟩
    | ok t' => exact ⟨fun h => congrArg Except.ok (Except.ok.inj h),
        fun h => congrArg Except.ok (Except.ok.inj h)⟩
  constructor
  · intro h
    exact (forall₂_of_mapM h).imp fun event t => (hread event t).mp
  · intro h
    have hmap := mapM_of_forall₂ (k := id) h.flip fun t _ event hone => (hread event t).mpr hone
    rwa [List.map_id] at hmap

theorem head?_of_reads {events : List BlockEvent} (h : List.Forall₂ BlockEvent.Reads events ts) :
    events.head?.bind (fun event => (fromEventText T event.data).toOption) = ts.head? := by
  cases h with
  | nil => rfl
  | cons hone _ =>
    have hfirst : fromEventText T _ = .ok _ := hone
    simp [hfirst, Except.toOption]

theorem countParts_eq (x : BlockEvents) (palletId variantId : UInt8) :
    x.countParts palletId variantId
      = (x.events.filter fun event =>
          decide (event.palletId = palletId ∧ event.variantId = variantId)).length % 2 ^ 32 := by
  have hfold : ∀ (events : List BlockEvent) (n : Nat),
      events.foldl (fun count event =>
        if event.palletId = palletId ∧ event.variantId = variantId then u32Add count 1 else count)
          (n % 2 ^ 32)
        = (n + (events.filter fun event =>
            decide (event.palletId = palletId ∧ event.variantId = variantId)).length) % 2 ^ 32 := by
    intro events
    induction events with
    | nil => simp
    | cons event events ih =>
      intro n
      rw [List.foldl_cons, List.filter_cons]
      by_cases hevent : event.palletId = palletId ∧ event.variantId = variantId
      · have hstep : u32Add (n % 2 ^ 32) 1 = (n + 1) % 2 ^ 32 := by
          rw [u32Add, Nat.mod_add_mod]
        rw [if_pos hevent, if_pos (decide_eq_true hevent), hstep, ih, List.length_cons]
        congr 1
        omega
      · rw [if_neg hevent, if_neg (by simpa using hevent), ih]
  have hzero := hfold x.events 0
  rwa [Nat.zero_add] at hzero

/-- Values that were written with their header read back. -/
theorem all_of_written [Encode T] [RoundTrips T]
    (h : (x.typed T).map (·.data) = ts.map fun t => hexText (toEvent t)) : x.all T = .ok ts := by
  have hdata : List.Forall₂ (fun (event : BlockEvent) (t : T) =>
      event.data = hexText (toEvent t)) (x.typed T) ts := by
    have heq := List.forall₂_eq_eq_eq.symm ▸ h
    rwa [List.forall₂_map_left_iff, List.forall₂_map_right_iff] at heq
  refine all_eq_ok.mpr (hdata.imp fun event t hevent => ?_)
  rw [BlockEvent.Reads, fromEventText, hevent, unhex_hexText]
  exact eventReadsBack t

/-- What is asked about the events of one type agrees: if all of them decode, the first and the
    last are those of the decoded list, and as many are counted. -/
theorem typed_views (x : BlockEvents) (ts : List T) :
    (x.all T = .ok ts → x.first T = ts.head? ∧ x.last T = ts.getLast? ∧
      x.count T = ts.length % 2 ^ 32 ∧ (x.isPresent T ↔ ts.length % 2 ^ 32 ≠ 0)) ∧
    ∀ [Encode T] [RoundTrips T],
      (x.typed T).map (·.data) = ts.map (fun t => hexText (toEvent t)) → x.all T = .ok ts := by
  refine ⟨fun hall => ?_, fun hwritten => all_of_written hwritten⟩
  have hreads := all_eq_ok.mp hall
  have hcount : x.count T = ts.length % 2 ^ 32 := by
    rw [BlockEvents.count, countParts_eq, ← hreads.length_eq]
    rfl
  have hfirst := head?_of_reads hreads
  have hlast := head?_of_reads (List.rel_reverse hreads)
  rw [BlockEvents.typed, List.head?_filter] at hfirst
  rw [BlockEvents.typed, ← List.filter_reverse, List.head?_filter, List.head?_reverse] at hlast
  refine ⟨hfirst, hlast, hcount, ?_⟩
  simp [BlockEvents.isPresent, hcount, Nat.pos_iff_ne_zero]

end

open TwoExtrinsics in
/-- Two events of one type, with the system's event between them. -/
theorem typed_views_two :
    let first : Treasury.Events.UpdatedInactive := ⟨5, 6⟩
    let second : Treasury.Events.UpdatedInactive := ⟨7, 8⟩
    let x : BlockEvents := ⟨[⟨.initialization, 0, 18, 8, hexText (toEvent first)⟩]
      ++ systemEvents events ++ [⟨.finalization, 4, 18, 8, hexText (toEvent second)⟩]⟩
    x.all Treasury.Events.UpdatedInactive = .ok [first, second] ∧
      x.last Treasury.Events.UpdatedInactive = some second ∧
      x.count Treasury.Events.UpdatedInactive = 2 := by
  intro first second x
  have hspec := typed_views x [first, second]
  have hall := hspec.2 rfl
  obtain ⟨-, hlast, hcount, -⟩ := hspec.1 hall
  exact ⟨hall, hlast, hcount⟩

end AvailRust
