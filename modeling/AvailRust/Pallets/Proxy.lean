/-
  The calls of the proxy pallet.
-/
import AvailRust.Core.Extrinsic

namespace AvailRust.Proxy

open Scale

def palletId : UInt8 := 40

inductive ProxyType where
  | any
  | nonTransfer
  | governance
  | staking
  | identityJudgement
  | nominationPools
deriving DecidableEq

instance : ByteEnum ProxyType where
  toByte
    | .any => 0
    | .nonTransfer => 1
    | .governance => 2
    | .staking => 3
    | .identityJudgement => 4
    | .nominationPools => 5
  ofByte
    | 0 => some .any
    | 1 => some .nonTransfer
    | 2 => some .governance
    | 3 => some .staking
    | 4 => some .identityJudgement
    | 5 => some .nominationPools
    | _ => none
  unknown := "Failed to decode ProxyType. Unknown variant"
  toByte_ofByte n x h := by split at h <;> cases h <;> rfl

namespace Tx

set_option linter.dupNamespace false in
structure Proxy where
  id : MultiAddress
  forceProxyType : Option ProxyType
  call : ExtrinsicCall

instance : HasHeader Proxy := ⟨palletId, 0⟩

instance : Record Proxy (MultiAddress × Option ProxyType × ExtrinsicCall) where
  toFields x := (x.id, x.forceProxyType, x.call)
  ofFields p := ⟨p.1, p.2.1, p.2.2⟩

structure AddProxy where
  id : MultiAddress
  proxyType : ProxyType
  delay : U32

instance : HasHeader AddProxy := ⟨palletId, 1⟩

instance : Record AddProxy (MultiAddress × ProxyType × U32) where
  toFields x := (x.id, x.proxyType, x.delay)
  ofFields p := ⟨p.1, p.2.1, p.2.2⟩

structure RemoveProxy where
  delegate : MultiAddress
  proxyType : ProxyType
  delay : U32

instance : HasHeader RemoveProxy := ⟨palletId, 2⟩

instance : Record RemoveProxy (MultiAddress × ProxyType × U32) where
  toFields x := (x.delegate, x.proxyType, x.delay)
  ofFields p := ⟨p.1, p.2.1, p.2.2⟩

structure RemoveProxies where

instance : HasHeader RemoveProxies := ⟨palletId, 3⟩

instance : Record RemoveProxies Unit where
  toFields _ := ()
  ofFields _ := {}

structure CreatePure where
  proxyType : ProxyType
  delay : U32
  index : U16

instance : HasHeader CreatePure := ⟨palletId, 4⟩

instance : Record CreatePure (ProxyType × U32 × U16) where
  toFields x := (x.proxyType, x.delay, x.index)
  ofFields p := ⟨p.1, p.2.1, p.2.2⟩

structure KillPure where
  spawner : MultiAddress
  proxyType : ProxyType
  index : U16
  height : U32
  extIndex : U32

instance : HasHeader KillPure := ⟨palletId, 5⟩

instance : Record KillPure (MultiAddress × ProxyType × U16 × Compact 4 × Compact 4) where
  toFields x := (x.spawner, x.proxyType, x.index, ⟨x.height⟩, ⟨x.extIndex⟩)
  ofFields p := ⟨p.1, p.2.1, p.2.2.1, p.2.2.2.1.val, p.2.2.2.2.val⟩

end Tx

end AvailRust.Proxy
