/-
  The retry override of a subscription, over a whole history of calls and settings.

  A method makes one pass over a block, or passes until a block has something to return
  (`Method.serve_eq`). Every pass moves the cursor and reads from the block, and only the events of
  a block are read under another setting than the subscription's. So each call of a history
  (`Run`) keeps the setting that is in force when it is made, unless one of its passes is overruled
  (`Run.honours`).
-/
import AvailRust.Subscription.Overruled
import AvailRust.Subscription.Forward

namespace AvailRust

open Scale Dialogue

variable {w w' : RpcWorld} {s t : Sub}

/-! ## One pass -/

namespace Sub

variable {ε α : Type} {op : Op}

theorem runConcrete_prev (s : Sub) : s.runConcrete .prev = s.stepBack.runConcrete .next := by
  cases s with
  | unInit u => rfl
  | bestBlock b => rfl
  | finalizedBlock f => rfl

theorem stepBack_settings (s : Sub) :
    s.stepBack.client = s.client ∧ s.stepBack.retryOnError = s.retryOnError := by
  cases s with
  | unInit u => exact ⟨rfl, rfl⟩
  | bestBlock b => exact ⟨rfl, rfl⟩
  | finalizedBlock f => exact ⟨rfl, rfl⟩

theorem next_settings {r : Except RpcError BlockInfo}
    (h : s.runConcrete .next w = some ((r, t), w')) :
    t.client = s.client ∧ t.retryOnError = s.retryOnError := by
  cases s with
  | unInit u => cases h
  | bestBlock b =>
    obtain ⟨⟨x, b'⟩, w1, hnext, h⟩ := bind_eq_some.mp h
    obtain ⟨rfl, rfl, rfl⟩ := pure_pair_eq_some.mp h
    obtain ⟨e, latest, -, rfl⟩ | ⟨info, latest, -, -, rfl, -⟩ := BestBlockSub.next_cases hnext
    · exact ⟨rfl, rfl⟩
    · unfold BestBlockSub.recorded
      split
      · exact ⟨rfl, rfl⟩
      · exact ⟨rfl, rfl⟩
  | finalizedBlock f =>
    obtain ⟨⟨x, f'⟩, w1, hnext, h⟩ := bind_eq_some.mp h
    obtain ⟨rfl, rfl, rfl⟩ := pure_pair_eq_some.mp h
    obtain ⟨e, latest, -, rfl⟩ | ⟨hash, latest, -, rfl, -⟩ := FinalizedBlockSub.next_cases hnext
    · exact ⟨rfl, rfl⟩
    · exact ⟨rfl, rfl⟩

theorem runConcrete_settings {r : Except RpcError BlockInfo}
    (h : s.runConcrete op w = some ((r, t), w')) :
    t.client = s.client ∧ t.retryOnError = s.retryOnError := by
  cases op with
  | next => exact next_settings h
  | prev =>
    rw [runConcrete_prev] at h
    obtain ⟨hclient, hretry⟩ := s.stepBack_settings
    rw [← hclient, ← hretry]
    exact next_settings h

/-- No operation changes the settings of a subscription. -/
theorem run_settings {r : Except RpcError BlockInfo} (h : s.run op w = some ((r, t), w')) :
    t.client = s.client ∧ t.retryOnError = s.retryOnError := by
  cases s with
  | bestBlock b => exact runConcrete_settings h
  | finalizedBlock f => exact runConcrete_settings h
  | unInit u =>
    obtain ⟨⟨x, s1⟩, w1, hstart, h⟩ := bind_eq_some.mp h
    obtain ⟨⟨e, rfl⟩, rfl⟩ | ⟨rfl, height, rfl, -⟩ := materialize_cases hstart
    · obtain ⟨rfl, rfl, rfl⟩ := pure_pair_eq_some.mp h
      exact ⟨rfl, rfl⟩
    · have hsame := runConcrete_settings h
      rw [cursor_client, cursor_retryOnError] at hsame
      exact hsame

/-- A read of events failed under the setting of the client. -/
def EventsOverruled (s : Sub) (moves : List (Request × Event)) : Prop :=
  s.client.globalRetriesEnabled ≠ s.shouldRetryOnError ∧
    ∃ hash opts before, FailedAfter (.fetchEvents hash opts) before moves

/-- What is read of a block is read under the setting of the subscription, but for events. -/
def ReadKeeps (read : Sub → BlockInfo → Rpc (Except ε α)) : Prop :=
  ∀ s info w x w', read s info w = some (x, w') →
    KeptUnless s.shouldRetryOnError s.EventsOverruled w w' (isError x)

theorem ReadKeeps.withBlock {β : Type} {read : Sub → BlockInfo → Rpc (Except ε α)}
    (h : ReadKeeps read) (value : α → Nat → H256 → β) : ReadKeeps (withBlock value read) := by
  intro s info w x w' hrun
  obtain ⟨y, w1, hread, hrun⟩ := bind_eq_some.mp hrun
  have hkept := h s info w y w1 hread
  cases y with
  | error e =>
    obtain ⟨rfl, rfl⟩ := pure_eq_some.mp hrun
    exact hkept
  | ok a =>
    obtain ⟨rfl, rfl⟩ := pure_eq_some.mp hrun
    exact hkept

theorem setBlockHeight_settings (s : Sub) (height : Nat) :
    (s.setBlockHeight height).client = s.client ∧
      (s.setBlockHeight height).retryOnError = s.retryOnError := by
  cases s with
  | unInit u => exact ⟨rfl, rfl⟩
  | bestBlock b => exact ⟨rfl, rfl⟩
  | finalizedBlock f => exact ⟨rfl, rfl⟩

/-- A pass of a wrapper keeps the setting unless it is overruled, and leaves the settings as they
    are. -/
theorem step_kept {ofRpcError : RpcError → ε} {read : Sub → BlockInfo → Rpc (Except ε α)}
    (hread : ReadKeeps read) {x : Except ε α}
    (h : s.step op ofRpcError read w = some ((x, t), w')) :
    KeptUnless s.shouldRetryOnError (s.Overruled op) w w' (isError x) ∧
      t.client = s.client ∧ t.retryOnError = s.retryOnError := by
  obtain ⟨⟨r, s1⟩, w1, hrun, h⟩ := bind_eq_some.mp h
  have hkept := run_kept hrun
  obtain ⟨hclient, hretry⟩ := run_settings hrun
  cases r with
  | error e =>
    obtain ⟨rfl, rfl, rfl⟩ := pure_pair_eq_some.mp h
    exact ⟨hkept, hclient, hretry⟩
  | ok info =>
    obtain ⟨y, w2, hy, h⟩ := bind_eq_some.mp h
    have hsetting : s1.shouldRetryOnError = s.shouldRetryOnError := by
      unfold shouldRetryOnError
      rw [hclient, hretry]
    have hevents := hread s1 info w1 y w2 hy
    unfold EventsOverruled at hevents
    rw [hsetting, hclient] at hevents
    have hall : KeptUnless s.shouldRetryOnError (s.Overruled op) w w2 (isError y) := by
      refine hkept.trans hevents (fun _ new h => h.later new) fun new _ _ hover => ?_
      obtain ⟨hne, hash, opts, before, hfailed⟩ := hover
      exact ⟨_, _, _, hfailed.earlier new, .events hash opts, hne⟩
    cases y with
    | error e =>
      obtain ⟨rfl, rfl, rfl⟩ := pure_pair_eq_some.mp h
      obtain ⟨hclient', hretry'⟩ := s1.setBlockHeight_settings info.height
      exact ⟨hall, hclient'.trans hclient, hretry'.trans hretry⟩
    | ok a =>
      obtain ⟨rfl, rfl, rfl⟩ := pure_pair_eq_some.mp h
      exact ⟨hall, hclient, hretry⟩

/-- A loop that takes any block makes one pass. -/
theorem nextNonEmpty_never (step : Sub → Rpc (Except ε α × Sub)) (s : Sub) :
    nextNonEmpty (fun _ => false) step s = step s := by
  funext w
  have hpass : ∀ p w', step s w = some (p, w') →
      skipEmpty (fun _ => false) step s w = some (.inr p, w') := by
    intro p w' hstep
    obtain ⟨x, t⟩ := p
    rw [skipEmpty, bind_of_eq hstep]
    cases x with
    | error e => rfl
    | ok a => rfl
  cases hstep : step s w with
  | some p => exact loop_exit (hpass _ _ hstep)
  | none =>
    change ((step s w).bind _).bind _ = none
    rw [hstep]
    rfl

end Sub

/-! ## What the wrappers read -/

theorem BlockSub.readKeeps : Sub.ReadKeeps BlockSub.read := by
  intro s info w x w' h
  obtain ⟨rfl, rfl⟩ := pure_eq_some.mp h
  exact .inl (.refl _ _ _)

theorem LegacyBlockSub.readKeeps : Sub.ReadKeeps LegacyBlockSub.read :=
  fun _ _ _ _ _ h => .inl (Chain.legacyBlock_kept h)

theorem BlockHeaderSub.readKeeps : Sub.ReadKeeps BlockHeaderSub.read :=
  fun _ _ _ _ _ h => .inl (Chain.blockHeader_kept h)

theorem GrandpaJustificationSub.readKeeps : Sub.ReadKeeps GrandpaJustificationSub.read := by
  refine Sub.ReadKeeps.withBlock ?_ _
  exact fun _ _ _ _ _ h => .inl (Chain.grandpaBlockJustification_kept h)

theorem ExtrinsicSub.readKeeps (T : Type) [HasHeader T] [Decode T] (opts : ExtrinsicOptions) :
    Sub.ReadKeeps (ExtrinsicSub.read T opts) := by
  refine Sub.ReadKeeps.withBlock ?_ _
  exact fun _ _ _ _ _ h => .inl (BlockExtrinsicsQuery.all_kept h)

theorem EncodedExtrinsicSub.readKeeps (opts : ExtrinsicOptions) :
    Sub.ReadKeeps (EncodedExtrinsicSub.read opts) := by
  refine Sub.ReadKeeps.withBlock ?_ _
  exact fun _ _ _ _ _ h => .inl (BlockEncodedExtrinsicsQuery.all_kept h)

/-- Events are fetched under the setting of the client. -/
theorem BlockEventsSub.readKeeps (opts : EventOpts) : Sub.ReadKeeps (BlockEventsSub.read opts) := by
  refine Sub.ReadKeeps.withBlock ?_ _
  intro s info w x w' h
  refine (Chain.systemFetchEvents_under h s.shouldRetryOnError).imp id fun new _ hover => ?_
  obtain ⟨hne, before, hfailed⟩ := hover
  exact ⟨hne, info.hash, opts, before, hfailed⟩

/-! ## A history of calls -/

/-- The methods of the subscriptions that move the cursor. -/
inductive Method : Type 1
  | cursor (op : Sub.Op)
  | block (op : Sub.Op)
  | legacyBlock (op : Sub.Op)
  | blockHeader (op : Sub.Op)
  | justification (op : Sub.Op)
  | events (opts : EventOpts)
  | eventsStep (opts : EventOpts)
  | extrinsics (T : Type) [HasHeader T] [Decode T] (opts : ExtrinsicOptions)
  | encoded (opts : ExtrinsicOptions)
  | encodedStep (opts : ExtrinsicOptions)

namespace Method

/-- The error of a method. -/
def Err : Method → Type
  | cursor _ => RpcError
  | block _ => RpcError
  | legacyBlock _ => RpcError
  | blockHeader _ => Error
  | justification _ => RpcError
  | events _ => Error
  | eventsStep _ => Error
  | extrinsics _ _ => Error
  | encoded _ => Error
  | encodedStep _ => Error

/-- What a method returns. -/
def Value : Method → Type
  | cursor _ => BlockInfo
  | block _ => BlockSubValue
  | legacyBlock _ => Option LegacyBlock
  | blockHeader _ => Option AvailHeader
  | justification _ => GrandpaJustificationSubValue
  | events _ => BlockEventsSubValue
  | eventsStep _ => BlockEventsSubValue
  | extrinsics T _ => ExtrinsicSubValue T
  | encoded _ => EncodedExtrinsicSubValue
  | encodedStep _ => EncodedExtrinsicSubValue

/-- A call of the method, on the cursor its subscription holds. -/
def serve : (m : Method) → Sub → Rpc (Except m.Err m.Value × Sub)
  | cursor .next, s => s.next
  | cursor .prev, s => s.prev
  | block .next, s => (fun p => (p.1, p.2.sub)) <$> BlockSub.next ⟨s⟩
  | block .prev, s => (fun p => (p.1, p.2.sub)) <$> BlockSub.prev ⟨s⟩
  | legacyBlock .next, s => (fun p => (p.1, p.2.sub)) <$> LegacyBlockSub.next ⟨s⟩
  | legacyBlock .prev, s => (fun p => (p.1, p.2.sub)) <$> LegacyBlockSub.prev ⟨s⟩
  | blockHeader .next, s => (fun p => (p.1, p.2.sub)) <$> BlockHeaderSub.next ⟨s⟩
  | blockHeader .prev, s => (fun p => (p.1, p.2.sub)) <$> BlockHeaderSub.prev ⟨s⟩
  | justification .next, s => (fun p => (p.1, p.2.sub)) <$> GrandpaJustificationSub.next ⟨s⟩
  | justification .prev, s => (fun p => (p.1, p.2.sub)) <$> GrandpaJustificationSub.prev ⟨s⟩
  | events opts, s => (fun p => (p.1, p.2.sub)) <$> BlockEventsSub.next ⟨s, opts⟩
  | eventsStep opts, s => (fun p => (p.1, p.2.sub)) <$> BlockEventsSub.nextStep ⟨s, opts⟩
  | extrinsics T opts, s =>
    (fun p => (p.1, p.2.sub)) <$> ExtrinsicSub.next (⟨s, opts⟩ : ExtrinsicSub T)
  | encoded opts, s => (fun p => (p.1, p.2.sub)) <$> EncodedExtrinsicSub.next ⟨s, opts⟩
  | encodedStep opts, s => (fun p => (p.1, p.2.sub)) <$> EncodedExtrinsicSub.nextStep ⟨s, opts⟩

/-- The direction the method moves the cursor in. -/
def op : Method → Sub.Op
  | cursor op => op
  | block op => op
  | legacyBlock op => op
  | blockHeader op => op
  | justification op => op
  | events _ => .next
  | eventsStep _ => .next
  | extrinsics _ _ => .next
  | encoded _ => .next
  | encodedStep _ => .next

/-- A pass over one block. -/
def pass : (m : Method) → Sub → Rpc (Except m.Err m.Value × Sub)
  | cursor op => Sub.run op
  | block op => Sub.step op id BlockSub.read
  | legacyBlock op => Sub.step op id LegacyBlockSub.read
  | blockHeader op => Sub.step op .rpcError BlockHeaderSub.read
  | justification op => Sub.step op id GrandpaJustificationSub.read
  | events opts => Sub.step .next .rpcError (BlockEventsSub.read opts)
  | eventsStep opts => Sub.step .next .rpcError (BlockEventsSub.read opts)
  | extrinsics T opts => Sub.step .next .rpcError (ExtrinsicSub.read T opts)
  | encoded opts => Sub.step .next .rpcError (EncodedExtrinsicSub.read opts)
  | encodedStep opts => Sub.step .next .rpcError (EncodedExtrinsicSub.read opts)

/-- The blocks a call goes past. -/
def isEmpty : (m : Method) → m.Value → Bool
  | cursor _, _ => false
  | block _, _ => false
  | legacyBlock _, _ => false
  | blockHeader _, _ => false
  | justification _, _ => false
  | events _, (x : BlockEventsSubValue) => x.list.isEmpty
  | eventsStep _, _ => false
  | extrinsics _ _, x => (ExtrinsicSubValue.list x).isEmpty
  | encoded _, (x : EncodedExtrinsicSubValue) => x.list.isEmpty
  | encodedStep _, _ => false

/-- A call makes passes until one returns something. -/
theorem serve_eq (m : Method) (s : Sub) : m.serve s = Sub.nextNonEmpty m.isEmpty m.pass s := by
  cases m with
  | cursor op => cases op <;> exact (Sub.nextNonEmpty_never _ s).symm
  | block op | legacyBlock op | blockHeader op | justification op =>
    refine Eq.trans ?_ (Sub.nextNonEmpty_never _ s).symm
    cases op <;> exact (comp_map _ _ _).symm.trans (id_map _)
  | eventsStep opts | encodedStep opts =>
    refine Eq.trans ?_ (Sub.nextNonEmpty_never _ s).symm
    exact (comp_map _ _ _).symm.trans (id_map _)
  | events opts | extrinsics T opts | encoded opts =>
    exact (comp_map _ _ _).symm.trans (id_map _)

theorem pass_kept (m : Method) {x : Except m.Err m.Value} (h : m.pass s w = some ((x, t), w')) :
    KeptUnless s.shouldRetryOnError (s.Overruled m.op) w w' (isError x) ∧
      t.client = s.client ∧ t.retryOnError = s.retryOnError := by
  cases m with
  | cursor op => exact ⟨Sub.run_kept h, Sub.run_settings h⟩
  | block op => exact Sub.step_kept BlockSub.readKeeps h
  | legacyBlock op => exact Sub.step_kept LegacyBlockSub.readKeeps h
  | blockHeader op => exact Sub.step_kept BlockHeaderSub.readKeeps h
  | justification op => exact Sub.step_kept GrandpaJustificationSub.readKeeps h
  | events opts | eventsStep opts => exact Sub.step_kept (BlockEventsSub.readKeeps opts) h
  | extrinsics T opts => exact Sub.step_kept (ExtrinsicSub.readKeeps T opts) h
  | encoded opts | encodedStep opts => exact Sub.step_kept (EncodedExtrinsicSub.readKeeps opts) h

/-- One of the passes of a call is overruled. -/
inductive Overruled (m : Method) : Sub → RpcWorld → Prop
  | here {s w p w' new} (hpass : m.pass s w = some (p, w')) (hnew : w.After new w')
      (hover : s.Overruled m.op new) : Overruled m s w
  | later {s w a t w'} (hpass : m.pass s w = some ((.ok a, t), w')) (hempty : m.isEmpty a = true)
      (hover : Overruled m t w') : Overruled m s w

/-- A call keeps the setting in force when none of its passes is overruled. -/
theorem serve_kept (m : Method) {x : Except m.Err m.Value} (h : m.serve s w = some ((x, t), w'))
    (hclear : ¬ m.Overruled s w) : Kept s.shouldRetryOnError w w' (isError x) := by
  rw [serve_eq] at h
  have hpass : ∀ s1 w1 y s2 w2, (s1.client = s.client ∧ s1.retryOnError = s.retryOnError) →
      ¬ m.Overruled s1 w1 → m.pass s1 w1 = some ((y, s2), w2) →
      Kept s.shouldRetryOnError w1 w2 (isError y) ∧
        s2.client = s.client ∧ s2.retryOnError = s.retryOnError := by
    intro s1 w1 y s2 w2 hsame hclear hrun
    obtain ⟨hkept, hclient, hretry⟩ := m.pass_kept hrun
    have hsetting : s1.shouldRetryOnError = s.shouldRetryOnError := by
      unfold Sub.shouldRetryOnError
      rw [hsame.1, hsame.2]
    rw [hsetting] at hkept
    refine ⟨?_, hclient.trans hsame.1, hretry.trans hsame.2⟩
    rcases hkept with hkept | ⟨new, hnew, hover⟩
    · exact hkept
    · exact absurd (.here hrun hnew hover) hclear
  refine Sub.nextNonEmpty_rule
    (fun s1 w1 => Kept s.shouldRetryOnError w w1 false ∧
      (s1.client = s.client ∧ s1.retryOnError = s.retryOnError) ∧ ¬ m.Overruled s1 w1)
    (fun p w1 => Kept s.shouldRetryOnError w w1 (isError p.1)) ?_ ?_
    ⟨.refl _ _ _, ⟨rfl, rfl⟩, hclear⟩ h
  · intro s1 w1 a s2 w2 hinv hrun hempty
    obtain ⟨hkept, hsame, hclear⟩ := hinv
    obtain ⟨hone, hsame'⟩ := hpass s1 w1 _ s2 w2 hsame hclear hrun
    exact ⟨hkept.trans hone, hsame', fun hover => hclear (.later hrun hempty hover)⟩
  · intro s1 w1 y s2 w2 hinv hrun _
    obtain ⟨hkept, hsame, hclear⟩ := hinv
    exact hkept.trans (hpass s1 w1 y s2 w2 hsame hclear hrun).1

end Method

/-- `Client::set_global_retries_enabled`. -/
def Client.setGlobalRetriesEnabled (value : Bool) (client : Client) : Client :=
  { client with globalRetriesEnabled := value }

/-- The client of a subscription is shared, so the subscription sees a change of its setting. -/
def Sub.setGlobalRetriesEnabled (value : Bool) : Sub → Sub
  | .unInit u => .unInit { u with client := u.client.setGlobalRetriesEnabled value }
  | .bestBlock b => .bestBlock { b with client := b.client.setGlobalRetriesEnabled value }
  | .finalizedBlock f => .finalizedBlock { f with client := f.client.setGlobalRetriesEnabled value }

/-- What can be set between two calls. -/
inductive Setting
  | retryOnError (value : Option Bool)
  | blockHeight (height : Nat)
  | useBestBlock (value : Bool)
  | globalRetriesEnabled (value : Bool)

def Setting.apply : Setting → Sub → Sub
  | retryOnError value => Sub.setRetryOnError value
  | blockHeight height => Sub.setBlockHeight height
  | useBestBlock value => Sub.useBestBlock value
  | globalRetriesEnabled value => Sub.setGlobalRetriesEnabled value

/-- A call of a history: the cursor and the world it was made in, and what it did. -/
structure Served where
  method : Method
  sub : Sub
  before : RpcWorld
  failed : Bool
  after : RpcWorld

namespace Served

def Overruled (c : Served) : Prop := c.method.Overruled c.sub c.before

/-- The requests of the call were retried as the subscription said when it was made. -/
def Honoured (c : Served) : Prop := Kept c.sub.shouldRetryOnError c.before c.after c.failed

end Served

/-- A history of calls and settings of one cursor. -/
inductive Run : Sub → RpcWorld → List Served → Sub → RpcWorld → Prop
  | nil (s : Sub) (w : RpcWorld) : Run s w [] s w
  | set (c : Setting) {s t : Sub} {w w' : RpcWorld} {calls : List Served}
      (rest : Run (c.apply s) w calls t w') : Run s w calls t w'
  | serve (m : Method) {s s1 t : Sub} {w w1 w' : RpcWorld} {calls : List Served}
      {x : Except m.Err m.Value} (hcall : m.serve s w = some ((x, s1), w1))
      (rest : Run s1 w1 calls t w') : Run s w (⟨m, s, w, isError x, w1⟩ :: calls) t w'

/-- In every history, every call that is not overruled honours the override. -/
theorem Run.honours {calls : List Served} (h : Run s w calls t w') :
    ∀ c ∈ calls, ¬ c.Overruled → c.Honoured := by
  induction h with
  | nil s w => exact fun c hc => absurd hc List.not_mem_nil
  | set c rest ih => exact ih
  | serve m hcall rest ih =>
    intro c hc hclear
    rcases List.mem_cons.mp hc with rfl | hc
    · exact m.serve_kept hcall hclear
    · exact ih c hc hclear

/-- A call of one pass that is not overruled. -/
theorem Method.not_overruled {m : Method} {p : Except m.Err m.Value × Sub}
    (hpass : m.pass s w = some (p, w')) (hreturn : ∀ a u, p = (.ok a, u) → m.isEmpty a = false)
    {new : List (Request × Event)} (hnew : w.After new w') (hclear : ¬ s.Overruled m.op new) :
    ¬ m.Overruled s w := by
  intro h
  cases h with
  | here hpass' hnew' hover =>
    rw [hpass] at hpass'
    cases hpass'
    rw [hnew.unique hnew'] at hclear
    exact hclear hover
  | later hpass' hempty hover =>
    rw [hpass] at hpass'
    cases hpass'
    rw [hreturn _ _ rfl] at hempty
    cases hempty

/-- A subscription that is to retry, of a client that is not. -/
def eagerSub : UnInitSub :=
  { UnInitSub.new (Client.devnet.setGlobalRetriesEnabled false) with retryOnError := some true }

/-- Block 5 is finalized, and the first request and the first read of its justification are lost. -/
def fetchLost : List Event :=
  let up := Event.answer (evenEvents.viewAt 5)
  let down := Event.fail none (.rpc "connection lost")
  [down, up, up, down, up]

def fetchLostMoves : List (Request × Event) :=
  let up := Event.answer (evenEvents.viewAt 5)
  let down := Event.fail none (.rpc "connection lost")
  let proof := Request.blockJustification 5
  [(proof, up), (proof, down), (.latestBlockInfo false, up), (.latestBlockInfo false, up),
   (.latestBlockInfo false, down)]

/-- The request that is lost is the first one, so it is no poll of the head. -/
theorem fetchLost_not_overruled :
    ¬ Sub.Overruled (.finalizedBlock (eagerSub.finalizedCursor 5)) .next fetchLostMoves := by
  intro h
  obtain ⟨r, before, setting, ⟨later, e, hmoves, herror⟩, hruns, -⟩ := h
  cases hruns with
  | start u hs => cases hs
  | jump b hs => cases hs
  | events hash opts => simp [fetchLostMoves, List.cons_eq_append_iff] at hmoves
  | head n since haim hhead =>
    have hbefore : before = [] := by
      simp [fetchLostMoves, List.cons_eq_append_iff] at hmoves
      obtain ⟨_, -, ⟨-, rfl, -⟩ | ⟨_, -, ⟨-, rfl, -⟩ | ⟨-, -, hbefore⟩⟩⟩ := hmoves
      · cases herror
      · cases herror
      · exact hbefore
    subst hbefore
    obtain ⟨height, -, hknown | ⟨hash, e, he, -⟩⟩ := hhead
    · cases hknown
    · cases haim
      cases he

/-- Both lost requests are made again, although the client does not retry. -/
theorem honours_fetchLost : ∃ c t,
    Run (.finalizedBlock (quietSub.finalizedCursor 5)) (start Request fetchLost) [c] t c.after ∧
      c.method = .justification .next ∧ c.sub.shouldRetryOnError = true ∧ c.failed = false ∧
      c.Honoured := by
  let m : Method := .justification .next
  let s : Sub := .finalizedBlock (eagerSub.finalizedCursor 5)
  obtain ⟨x, t, w', hcall, hpass, hok, hnew⟩ : ∃ x t w',
      m.serve s (start Request fetchLost) = some ((x, t), w') ∧
      m.pass s (start Request fetchLost) = some ((x, t), w') ∧
      isError x = false ∧ (start Request fetchLost).After fetchLostMoves w' :=
    ⟨_, _, _, rfl, rfl, rfl, rfl, rfl⟩
  have hclear : ¬ m.Overruled s (start Request fetchLost) :=
    Method.not_overruled hpass (fun _ _ _ => rfl) hnew fetchLost_not_overruled
  have hrun : Run (.finalizedBlock (quietSub.finalizedCursor 5)) (start Request fetchLost)
      [⟨m, s, start Request fetchLost, isError x, w'⟩] t w' :=
    .set (.globalRetriesEnabled false) (.set (.retryOnError (some true))
      (.serve m hcall (.nil t w')))
  exact ⟨_, t, hrun, rfl, rfl, hok, Run.honours hrun _ List.mem_cons_self hclear⟩

/-- The head is asked for again after an error, although the subscription is not to retry. -/
theorem override_ignored : ¬ ∀ s t w w' calls, Run s w calls t w' → ∀ c ∈ calls, c.Honoured := by
  intro h
  let up : Event := .answer (evenEvents.viewAt 5)
  let down : Event := .fail none (.rpc "connection lost")
  have hrun : Run (.finalizedBlock (quietSub.finalizedCursor 5)) (start Request [up, down, up])
      _ _ _ := .serve (.cursor .next) rfl (.nil _ _)
  obtain ⟨new, hnew, hkeeps⟩ := h _ _ _ _ _ hrun _ List.mem_cons_self
  have hmoves : new = [(.latestBlockInfo false, up), (.latestBlockInfo false, down),
      (.latestBlockInfo false, up)] := hnew.unique ⟨rfl, rfl⟩
  have hmem : (Request.latestBlockInfo false, down) ∈ new.reverse := by
    rw [hmoves]
    exact List.mem_cons_of_mem _ List.mem_cons_self
  have herror := hkeeps.no_error hmem
  cases herror

end AvailRust
