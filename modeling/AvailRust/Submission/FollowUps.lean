/-
  What can be asked of a receipt: the extrinsic it names, raw or decoded, and its events.

  A receipt keeps a block and an index. An extrinsic that was looked up keeps them too, and asks for
  its events on its own. On a node that lists a block once and for all, each way of asking leads to
  the one extrinsic (`followUps_agree`).
-/
import AvailRust.Client.BlockEvents
import AvailRust.Client.Queries
import AvailRust.Submission.Receipt

namespace AvailRust

open Scale Dialogue Results

/-! ## Follow-ups -/

/-- What was found, or an error that says what was expected. -/
def expectSome {α : Type} (text : String) (found : Rpc (Except Error (Option α))) :
    Rpc (Except Error α) := do
  match ← found with
  | .error e => pure (.error e)
  | .ok none => pure (.error (.rpcError (.expectedData text)))
  | .ok (some x) => pure (.ok x)

/-- The events of an extrinsic, which has some. -/
def expectEvents (text : String) (events : Rpc (Except Error BlockEvents)) :
    Rpc (Except Error BlockEvents) := do
  match ← events with
  | .error e => pure (.error e)
  | .ok events =>
    if events.events.isEmpty then pure (.error (.rpcError (.expectedData text)))
    else pure (.ok events)

def BlockEncodedExtrinsic.events (x : BlockEncodedExtrinsic) (client : Client) :
    Rpc (Except Error BlockEvents) :=
  expectEvents "No events found for the requested extrinsic."
    ((BlockEventsQuery.new client x.metadata.blockId.toHashStringNumber).extrinsic
      x.metadata.extIndex)

def BlockExtrinsic.events {T : Type} (x : BlockExtrinsic T) (client : Client) :
    Rpc (Except Error BlockEvents) :=
  expectEvents "No events found for extrinsic"
    ((BlockEventsQuery.new client x.metadata.blockId.toHashStringNumber).extrinsic
      x.metadata.extIndex)

namespace TransactionReceipt

/-- The block of a receipt. -/
def block (r : TransactionReceipt) : Block := .new r.client (.hash r.blockHash)

def extrinsic {T : Type} [HasHeader T] [Decode T] (parseHash : String → Except String H256)
    (r : TransactionReceipt) : Rpc (Except Error (BlockExtrinsic T)) :=
  expectSome "No extrinsic found at the requested index."
    (r.block.extrinsics.get parseHash (.number r.extIndex))

def encoded (parseHash : String → Except String H256) (r : TransactionReceipt) :
    Rpc (Except Error BlockEncodedExtrinsic) :=
  expectSome "No extrinsic found at the requested index."
    (r.block.encoded.get parseHash (.number r.extIndex))

def events (r : TransactionReceipt) : Rpc (Except Error BlockEvents) :=
  expectEvents "No events found for the requested extrinsic." (r.block.events.extrinsic r.extIndex)

end TransactionReceipt

/-! ## A node that lists a block -/

/-- The answer to a request for the events of an extrinsic. -/
def eventsAnswer (text : String) (events : List BlockEvent) : Except Error BlockEvents :=
  if events = [] then .error (.rpcError (.expectedData text)) else .ok ⟨events⟩

section

variable {parseHash : String → Except String H256} {infos : List ExtrinsicInfo}
  {info : ExtrinsicInfo} {hash : H256} {view : View} {client : Client} {event : Event}

theorem expectSome_steady {α : Type} {text : String} {found : Rpc (Except Error (Option α))}
    {x : Except Error α} (h : Steady event found (some <$> x)) :
    Steady event (expectSome text found) x := by
  refine h.bind ?_
  cases x with
  | error e => exact .pure _ _
  | ok x => exact .pure _ _

theorem expectEvents_steady {text : String} {asked : Rpc (Except Error BlockEvents)}
    {events : List BlockEvent} (h : Steady event asked (.ok ⟨events⟩)) :
    Steady event (expectEvents text asked) (eventsAnswer text events) := by
  refine h.bind ?_
  unfold eventsAnswer
  cases events with
  | nil => exact .pure _ _
  | cons first rest => exact .pure _ _

/-- Whatever is asked of a receipt is about the extrinsic that has its hash and its index. -/
theorem followUps_agree {T : Type} [HasHeader T] [Decode T] {block : List BlockPhaseEvent}
    {events : List BlockEvent} (hlists : Lists infos hash view) (hinfo : info ∈ infos)
    (halone : Alone infos info) (hserves : ServesEvents block hash view)
    (hevents : eventsOf block = .ok events) (height : Nat) :
    let receipt : TransactionReceipt := ⟨client, hash, height, info.extHash, info.extIndex⟩
    let found := BlockEncodedExtrinsic.fromExtrinsicInfo info (.hash hash)
    let emitted := extrinsicEvents events info.extIndex
    Steady (.answer view) (receipt.encoded parseHash) found ∧
    Steady (.answer view) (receipt.block.encoded.get parseHash (.hash info.extHash))
      (some <$> found) ∧
    Steady (.answer view) (receipt.extrinsic parseHash : Rpc (Except Error (BlockExtrinsic T)))
      (found >>= BlockEncodedExtrinsic.asExtrinsic) ∧
    Steady (.answer view) receipt.events
      (eventsAnswer "No events found for the requested extrinsic." emitted) ∧
    ∀ x, found = .ok x →
      Steady (.answer view) (x.events client)
        (eventsAnswer "No events found for the requested extrinsic." emitted) ∧
      ∀ y : BlockExtrinsic T, x.asExtrinsic = .ok y →
        Steady (.answer view) (y.events client)
          (eventsAnswer "No events found for extrinsic" emitted) := by
  intro receipt found emitted
  have hasked : Steady (.answer view)
      ((BlockEventsQuery.new client (.hash hash)).extrinsic info.extIndex) (.ok ⟨emitted⟩) :=
    extrinsic_steady (.pure _ _) hserves hevents info.extIndex
  refine ⟨expectSome_steady (get_encoded_steady hlists hinfo halone rfl .index),
    get_encoded_steady hlists hinfo halone rfl .hash,
    expectSome_steady (get_extrinsic_steady hlists hinfo halone rfl .index),
    expectEvents_steady hasked, fun x hx => ?_⟩
  have hmetadata : x.metadata = .fromExtrinsicInfo info (.hash hash) := by
    simp only [found, BlockEncodedExtrinsic.fromExtrinsicInfo] at hx
    split at hx
    · cases hx
    · split at hx
      · cases hx
      · rw [← Except.ok.inj hx]
  refine ⟨?raw, fun y hy => ?decoded⟩
  case raw =>
    unfold BlockEncodedExtrinsic.events
    rw [hmetadata]
    exact expectEvents_steady hasked
  case decoded =>
    have hsame : y.metadata = x.metadata := by
      unfold BlockEncodedExtrinsic.asExtrinsic at hy
      split at hy
      · cases hy
      · rw [← Except.ok.inj hy]
    unfold BlockExtrinsic.events
    rw [hsame, hmetadata]
    exact expectEvents_steady hasked

end

namespace TwoExtrinsics

/-- A node with the extrinsics of the block and the events they emitted. -/
def node : View
  | .fetchEvents h opts => view (.fetchEvents h opts)
  | r => View.ofBlock BlockExtrinsicsQuery.infos r

end TwoExtrinsics

open TwoExtrinsics BlockExtrinsicsQuery in
/-- The second of three extrinsics, and its two events. -/
theorem followUps_agree_submission :
    let receipt : TransactionReceipt := ⟨Client.devnet, hash, 7, FixedBytes.fill 32 6, 1⟩
    let metadata : BlockExtrinsicMetadata := .fromExtrinsicInfo submission (.hash hash)
    Steady (.answer node) (receipt.encoded h256FromStr)
      (.ok ⟨none, [29, 1, 4, 0xAA], metadata⟩) ∧
    Steady (.answer node) (receipt.extrinsic h256FromStr)
      (.ok (⟨none, ⟨⟨[0xAA], by decide⟩⟩, metadata⟩ :
        BlockExtrinsic DataAvailability.Tx.SubmitData)) ∧
    Steady (.answer node) receipt.events (.ok ⟨extrinsicEvents events 1⟩) := by
  intro receipt metadata
  have halone : Alone infos submission := by
    intro other hother hname
    obtain rfl | rfl | rfl : other = timestamp ∨ other = submission ∨ other = laterTimestamp := by
      simpa [infos] using hother
    · exact absurd hname (by decide)
    · rfl
    · exact absurd hname (by decide)
  have hraw := @fromExtrinsicInfo_of_hexText submission _ ⟨none, [29, 1, 4, 0xAA]⟩ rfl rfl
    (.hash hash)
  have hlists : Lists infos hash node := View.ofBlock_lists infos hash
  obtain ⟨hencoded, -, hdecoded, hevents, -⟩ := @followUps_agree h256FromStr infos submission hash
    node Client.devnet DataAvailability.Tx.SubmitData _ _ block events hlists
    (by simp [infos]) halone (fun _ _ => rfl) rfl 7
  rw [hraw] at hencoded hdecoded
  exact ⟨hencoded, hdecoded, hevents⟩

end AvailRust
