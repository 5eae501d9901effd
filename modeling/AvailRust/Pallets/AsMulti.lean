/-
  `AsMulti` and its inner call.

  The decoder reads the inner call as a runtime call, encodes that without its two ids, and
  reads the result as ids and data. So what it returns as the inner call is two bytes shorter
  than what it read (`length_rest`), and no `AsMulti` comes back from its own bytes.
-/
import AvailRust.Pallets.Dispatch

namespace AvailRust.Multisig.Tx.AsMulti

open Scale

variable {x y : AsMulti} {b rest : Bytes}

theorem encode_eq_append (x : AsMulti) (b : Bytes) :
    encode x ++ b = encode x.threshold ++ (encode x.otherSignatories ++
      (encode x.maybeTimepoint ++ (encode x.call ++ (encode x.maxWeight ++ b)))) := by
  change (encode x.threshold ++ encode x.otherSignatories ++ encode x.maybeTimepoint
    ++ encode x.call ++ encode x.maxWeight) ++ b = _
  simp only [List.append_assoc]

/-- What is decoded from the bytes of an `AsMulti`: the first fields are its own; the inner call
    is a runtime call without its ids. -/
theorem decode_encode_append (h : decode (encode x ++ b) = .ok (y, rest)) :
    ∃ (call : RuntimeCall) (b1 : Bytes),
      decode (encode x.call ++ (encode x.maxWeight ++ b)) = .ok (call, b1) ∧
        encode call = encode y.call ∧ decode b1 = .ok (y.maxWeight, rest) := by
  rw [encode_eq_append] at h
  change decodeWith decode _ = _ at h
  rw [decodeWith, bind_encode, bind_encode, bind_encode] at h
  obtain ⟨call, b1, hcall, h⟩ := bind_eq_ok.mp h
  obtain ⟨maxWeight, b2, hweight, h⟩ := bind_eq_ok.mp h
  rcases hagain : (decode : Decoder ExtrinsicCall) (encode call) with e | ⟨again, left⟩
  · simp only [hagain, fail_eq_ok] at h
  · simp only [hagain] at h
    obtain ⟨rfl, rfl⟩ := pure_eq_ok.mp h
    exact ⟨call, b1, hcall, (ExtrinsicCall.decode_eq_ok.mp hagain).1, hweight⟩

/-- To come back, an `AsMulti` would have to take two bytes from behind its end. -/
theorem length_rest (h : decode (encode x ++ b) = .ok (x, rest)) : rest.length + 2 ≤ b.length := by
  obtain ⟨call, b1, hcall, heq, hweight⟩ := decode_encode_append h
  have hle := RuntimeCall.length_decode hcall
  have hweightLe := length_le _ _ _ hweight
  rw [heq, List.length_append, List.length_append] at hle
  omega

/-- No `AsMulti` comes back from its own call bytes. -/
theorem fromCall_toCall_never (x : AsMulti) : fromCall AsMulti (toCall x) ≠ .ok x := by
  intro h
  rw [fromCall_toCall] at h
  rcases hdecode : (decode : Decoder AsMulti) (encode x) with e | ⟨y, rest⟩
  · rw [hdecode] at h
    cases h
  · rw [hdecode] at h
    cases h
    have hle := length_rest (b := []) (by rw [List.append_nil]; exact hdecode)
    rw [List.length_nil] at hle
    omega

/-- A transfer to the account of 32 sevens, to be called by two signatories. -/
def ofTransfer : AsMulti where
  threshold := 2
  otherSignatories := .nil
  maybeTimepoint := none
  call := .ofTyped (Balances.Tx.TransferKeepAlive.mk (.id (FixedBytes.fill 32 7)) 1)
  maxWeight := ⟨0, 0⟩

/-- The transfer comes back as a `remark_with_event`. -/
theorem fromCall_toCall_ofTransfer :
    ∃ y, fromCall AsMulti (toCall ofTransfer) = .ok y ∧ y ≠ ofTransfer ∧
      (ofTransfer.call.palletId, ofTransfer.call.variantId)
        = headerIndex Balances.Tx.TransferKeepAlive ∧
      (y.call.palletId, y.call.variantId) = headerIndex System.Tx.RemarkWithEvent := by
  refine ⟨_, rfl, ?_, rfl, rfl⟩
  intro h
  exact absurd (congrArg (fun y => y.call.variantId) h) (by decide)

end AvailRust.Multisig.Tx.AsMulti
