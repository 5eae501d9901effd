/-
  The subscriptions that read something of every block the cursor returns.

  All of them step alike (`Sub.step`): move the cursor, read what belongs to the block, and
  put the cursor back at the block when that read fails. The last three go on to the next
  block while what they read is empty (`Sub.nextNonEmpty`).
-/
import AvailRust.Client.Block
import AvailRust.Subscription.Sub

namespace AvailRust

open Scale Dialogue

namespace Sub

variable {ε α : Type}

/-- Move the cursor and read from the block it returns. -/
def step (op : Op) (ofRpcError : RpcError → ε) (read : Sub → BlockInfo → Rpc (Except ε α))
    (s : Sub) : Rpc (Except ε α × Sub) := do
  match ← s.run op with
  | (.error e, s) => pure (.error (ofRpcError e), s)
  | (.ok info, s) => do
    match ← read s info with
    | .error e => pure (.error e, s.setBlockHeight info.height)
    | .ok x => pure (.ok x, s)

/-- What is read of a block, with the block's height and hash. -/
def withBlock {β : Type} (value : α → Nat → H256 → β) (read : Sub → BlockInfo → Rpc (Except ε α))
    (s : Sub) (info : BlockInfo) : Rpc (Except ε β) := do
  match ← read s info with
  | .error e => pure (.error e)
  | .ok x => pure (.ok (value x info.height info.hash))

/-- One pass of the loop over blocks with nothing to return. -/
def skipEmpty (isEmpty : α → Bool) (step : Sub → Rpc (Except ε α × Sub)) (s : Sub) :
    Rpc (Sub ⊕ (Except ε α × Sub)) := do
  match ← step s with
  | (.error e, s) => pure (.inr (.error e, s))
  | (.ok x, s) => if isEmpty x then pure (.inl s) else pure (.inr (.ok x, s))

def nextNonEmpty (isEmpty : α → Bool) (step : Sub → Rpc (Except ε α × Sub)) :
    Sub → Rpc (Except ε α × Sub) :=
  loop (skipEmpty isEmpty step)

/-- A call steps over blocks with nothing to return, and returns what its last step did. -/
theorem nextNonEmpty_rule {isEmpty : α → Bool} {step : Sub → Rpc (Except ε α × Sub)}
    {p : Except ε α × Sub} {s : Sub} {w w' : RpcWorld} (I : Sub → RpcWorld → Prop)
    (Q : Except ε α × Sub → RpcWorld → Prop)
    (hpass : ∀ s w a t w1, I s w → step s w = some ((.ok a, t), w1) → isEmpty a = true → I t w1)
    (hreturn : ∀ s w x t w1, I s w → step s w = some ((x, t), w1) →
      (∀ a, x = .ok a → isEmpty a = false) → Q (x, t) w1)
    (hs : I s w) (h : nextNonEmpty isEmpty step s w = some (p, w')) : Q p w' := by
  refine loop_rule I Q ?_ ?_ hs h
  · intro s w t w1 hs hskip
    obtain ⟨⟨x, t1⟩, w2, hstep, hskip⟩ := bind_eq_some.mp hskip
    cases x with
    | error e =>
      obtain ⟨heq, -⟩ := pure_eq_some.mp hskip
      cases heq
    | ok a =>
      simp only at hskip
      split at hskip
      case isFalse =>
        obtain ⟨heq, -⟩ := pure_eq_some.mp hskip
        cases heq
      case isTrue hempty =>
        obtain ⟨heq, rfl⟩ := pure_eq_some.mp hskip
        cases heq
        exact hpass s w a t w2 hs hstep hempty
  · intro s w q w1 hs hskip
    obtain ⟨⟨x, t1⟩, w2, hstep, hskip⟩ := bind_eq_some.mp hskip
    cases x with
    | error e =>
      obtain ⟨heq, rfl⟩ := pure_eq_some.mp hskip
      cases heq
      exact hreturn s w (.error e) t1 w2 hs hstep (fun a ha => by cases ha)
    | ok a =>
      simp only at hskip
      split at hskip
      case isTrue =>
        obtain ⟨heq, -⟩ := pure_eq_some.mp hskip
        cases heq
      case isFalse hempty =>
        obtain ⟨heq, rfl⟩ := pure_eq_some.mp hskip
        cases heq
        refine hreturn s w (.ok a) t1 w2 hs hstep ?_
        intro b hb
        cases hb
        exact Bool.eq_false_of_not_eq_true hempty

end Sub

/-! ## Blocks, headers and justifications -/

structure LegacyBlockSub where
  sub : Sub

namespace LegacyBlockSub

def read (s : Sub) (info : BlockInfo) : Rpc (Except RpcError (Option LegacyBlock)) :=
  (s.client.chain.retryOn (some s.shouldRetryOnError) (some true)).legacyBlock (some info.hash)

def next (s : LegacyBlockSub) : Rpc (Except RpcError (Option LegacyBlock) × LegacyBlockSub) :=
  (fun p => (p.1, ⟨p.2⟩)) <$> s.sub.step .next id read

def prev (s : LegacyBlockSub) : Rpc (Except RpcError (Option LegacyBlock) × LegacyBlockSub) :=
  (fun p => (p.1, ⟨p.2⟩)) <$> s.sub.step .prev id read

end LegacyBlockSub

structure BlockSubValue where
  value : Block
  blockHeight : Nat
  blockHash : H256

structure BlockSub where
  sub : Sub

namespace BlockSub

/-- The handle of a block is made without a request. -/
def read (s : Sub) (info : BlockInfo) : Rpc (Except RpcError BlockSubValue) :=
  pure (.ok ⟨Block.new s.client (.hash info.hash), info.height, info.hash⟩)

def next (s : BlockSub) : Rpc (Except RpcError BlockSubValue × BlockSub) :=
  (fun p => (p.1, ⟨p.2⟩)) <$> s.sub.step .next id read

def prev (s : BlockSub) : Rpc (Except RpcError BlockSubValue × BlockSub) :=
  (fun p => (p.1, ⟨p.2⟩)) <$> s.sub.step .prev id read

end BlockSub

structure BlockHeaderSub where
  sub : Sub

namespace BlockHeaderSub

def read (s : Sub) (info : BlockInfo) : Rpc (Except Error (Option AvailHeader)) :=
  (s.client.chain.retryOn (some s.shouldRetryOnError) (some true)).blockHeader
    (some (.hash info.hash))

def next (s : BlockHeaderSub) : Rpc (Except Error (Option AvailHeader) × BlockHeaderSub) :=
  (fun p => (p.1, ⟨p.2⟩)) <$> s.sub.step .next .rpcError read

def prev (s : BlockHeaderSub) : Rpc (Except Error (Option AvailHeader) × BlockHeaderSub) :=
  (fun p => (p.1, ⟨p.2⟩)) <$> s.sub.step .prev .rpcError read

end BlockHeaderSub

structure GrandpaJustificationSubValue where
  value : Option Grandpa.GrandpaJustification
  blockHeight : Nat
  blockHash : H256

structure GrandpaJustificationSub where
  sub : Sub

namespace GrandpaJustificationSub

def fetchJustification (s : Sub) (height : Nat) :
    Rpc (Except RpcError (Option Grandpa.GrandpaJustification)) :=
  (s.client.chain.retryOn (some s.shouldRetryOnError) none).grandpaBlockJustification height

def read : Sub → BlockInfo → Rpc (Except RpcError GrandpaJustificationSubValue) :=
  Sub.withBlock .mk fun s info => fetchJustification s info.height

def next (s : GrandpaJustificationSub) :
    Rpc (Except RpcError GrandpaJustificationSubValue × GrandpaJustificationSub) :=
  (fun p => (p.1, ⟨p.2⟩)) <$> s.sub.step .next id read

def prev (s : GrandpaJustificationSub) :
    Rpc (Except RpcError GrandpaJustificationSubValue × GrandpaJustificationSub) :=
  (fun p => (p.1, ⟨p.2⟩)) <$> s.sub.step .prev id read

end GrandpaJustificationSub

/-! ## Events and extrinsics -/

structure BlockEventsSubValue where
  list : List BlockPhaseEvent
  blockHeight : Nat
  blockHash : H256
deriving DecidableEq

structure BlockEventsSub where
  sub : Sub
  opts : EventOpts

namespace BlockEventsSub

/-- The query does not get the retry override of the subscription. -/
def read (opts : EventOpts) : Sub → BlockInfo → Rpc (Except Error BlockEventsSubValue) :=
  Sub.withBlock .mk fun s info => (BlockEventsQuery.new s.client (.hash info.hash)).raw opts

def nextStep (s : BlockEventsSub) : Rpc (Except Error BlockEventsSubValue × BlockEventsSub) :=
  (fun p => (p.1, ⟨p.2, s.opts⟩)) <$> s.sub.step .next .rpcError (read s.opts)

def next (s : BlockEventsSub) : Rpc (Except Error BlockEventsSubValue × BlockEventsSub) :=
  (fun p => (p.1, ⟨p.2, s.opts⟩)) <$> s.sub.nextNonEmpty (fun x => x.list.isEmpty)
    (Sub.step .next .rpcError (read s.opts))

end BlockEventsSub

structure ExtrinsicSubValue (T : Type) where
  list : List (BlockExtrinsic T)
  blockHeight : Nat
  blockHash : H256

structure ExtrinsicSub (T : Type) where
  sub : Sub
  opts : ExtrinsicOptions

namespace ExtrinsicSub

variable {T : Type} [HasHeader T] [Decode T]

def read (T : Type) [HasHeader T] [Decode T] (opts : ExtrinsicOptions) :
    Sub → BlockInfo → Rpc (Except Error (ExtrinsicSubValue T)) :=
  Sub.withBlock .mk fun s info =>
    let block := (Block.new s.client (.hash info.hash)).extrinsics.setRetryOnError
      (some s.shouldRetryOnError)
    block.all opts

def next (s : ExtrinsicSub T) : Rpc (Except Error (ExtrinsicSubValue T) × ExtrinsicSub T) :=
  (fun p => (p.1, ⟨p.2, s.opts⟩)) <$> s.sub.nextNonEmpty (fun x => x.list.isEmpty)
    (Sub.step .next .rpcError (read T s.opts))

end ExtrinsicSub

structure EncodedExtrinsicSubValue where
  list : List BlockEncodedExtrinsic
  blockHeight : Nat
  blockHash : H256
deriving DecidableEq

structure EncodedExtrinsicSub where
  sub : Sub
  opts : ExtrinsicOptions

namespace EncodedExtrinsicSub

def read (opts : ExtrinsicOptions) :
    Sub → BlockInfo → Rpc (Except Error EncodedExtrinsicSubValue) :=
  Sub.withBlock .mk fun s info =>
    let block := (Block.new s.client (.hash info.hash)).encoded.setRetryOnError
      (some s.shouldRetryOnError)
    block.all opts

def nextStep (s : EncodedExtrinsicSub) :
    Rpc (Except Error EncodedExtrinsicSubValue × EncodedExtrinsicSub) :=
  (fun p => (p.1, ⟨p.2, s.opts⟩)) <$> s.sub.step .next .rpcError (read s.opts)

def next (s : EncodedExtrinsicSub) :
    Rpc (Except Error EncodedExtrinsicSubValue × EncodedExtrinsicSub) :=
  (fun p => (p.1, ⟨p.2, s.opts⟩)) <$> s.sub.nextNonEmpty (fun x => x.list.isEmpty)
    (Sub.step .next .rpcError (read s.opts))

end EncodedExtrinsicSub

end AvailRust
