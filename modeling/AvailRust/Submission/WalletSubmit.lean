/-
  Submitting what a wallet has signed.

  `prepare` leaves a file, the wallet signs, and `submit` reads the file again. It sends either a
  whole transaction that it was given, or the call and the extra of the file under the wallet's
  signature, which it wraps as of one type and, for that of `sr25519`, verifies first. Then it waits
  for the receipt and looks for the event of success.

  In no run is anything else sent (`submit_sends`). What is sent of a file that `prepare` has
  written is the prepared transaction (`prepared_sends`).
-/
import AvailRust.Lib.Fallible
import AvailRust.Lib.Text
import AvailRust.Submission.ReadOnly
import AvailRust.Submission.Signing
import AvailRust.Submission.Wallet

namespace AvailRust

open Scale Dialogue Fallible Results Text

namespace Wallet

open Json

/-! ## Types of signatures -/

inductive SignatureType where
  | ed25519
  | ecdsa
  | sr25519
  | unknown
deriving DecidableEq

def SignatureType.text : SignatureType → String
  | .ed25519 => "ed25519"
  | .ecdsa => "ecdsa"
  | .sr25519 => "sr25519"
  | .unknown => "unknown"

def normalizeSignatureType (value : String) : SignatureType :=
  match String.ofList ((trim value.toList).map lower) with
  | "ed25519" => .ed25519
  | "ecdsa" | "ethereum" => .ecdsa
  | "unknown" | "" => .unknown
  | _ => .sr25519

def candidateSignatureTypes (preferred : String) (signatureBytes : Bytes) :
    Except Error (List SignatureType) :=
  let preferred := normalizeSignatureType preferred
  let size := signatureBytes.length
  if preferred ≠ .unknown then .ok [preferred]
  else if signatureBytes.head? = some 0 ∧ size = 65 then .ok [.ed25519]
  else if signatureBytes.head? = some 1 ∧ size = 65 then .ok [.sr25519]
  else if signatureBytes.head? = some 2 ∧ size = 66 then .ok [.ecdsa]
  else if size = 65 then .ok [.ecdsa]
  else if size = 64 then .error (.other ("64-byte wallet signature is ambiguous; " ++
    "wallet account type must be sr25519 or ed25519"))
  else .error (.other ("unsupported wallet signature encoding: " ++ toString size ++ " bytes"))

/-- The signature without the byte for its type, if it has `size` bytes with that byte. -/
def stripTag (tag : UInt8) (size : Nat) (signatureBytes : Bytes) : Bytes :=
  if signatureBytes.length = size ∧ signatureBytes.head? = some tag then signatureBytes.tail
  else signatureBytes

def exactly (size : Nat) (name : String) (bytes : Bytes) : Except Error (FixedBytes size) :=
  if h : bytes.length = size then .ok ⟨bytes, h⟩
  else .error (.other (name ++ " signature must be " ++ toString size ++ " bytes, got "
    ++ toString bytes.length))

def sr25519SignaturePayloadBytes (signatureBytes : Bytes) : Except Error (FixedBytes 64) :=
  exactly 64 "sr25519" (stripTag 1 65 signatureBytes)

def multisigFor (signatureType : SignatureType) (signatureBytes : Bytes) :
    Except Error MultiSignature :=
  match signatureType with
  | .ed25519 => .ed25519 <$> exactly 64 "ed25519" (stripTag 0 65 signatureBytes)
  | .ecdsa => .ecdsa <$> exactly 65 "ecdsa" (stripTag 2 66 signatureBytes)
  | .sr25519 | .unknown => .sr25519 <$> exactly 64 "sr25519" (stripTag 1 65 signatureBytes)

def isBadProofLike (error : RpcError) : Bool :=
  containsLower "badproof" error.toText || containsLower "bad proof" error.toText
    || containsLower "temporarily banned" error.toText || containsLower "1012" error.toText

/-! ## The surroundings of the program -/

/-- What the program gets from outside: its environment, its files as they are parsed, and what
    other crates do for it. -/
structure Setting where
  env : String → Option String
  readFile : String → Except Error Value
  connect : String → Except Error Client
  toAccountId : String → Except Error AccountId
  /-- `sr25519::verify`. -/
  verify : FixedBytes 64 → Bytes → AccountId → Bool
  /-- Whether the receipt is found before the time is up. -/
  inTime : Bool

namespace Setting

def envRequired (s : Setting) (key : String) : Except Error String :=
  okOr (.other ("missing " ++ key)) (s.env key)

def envU64 (s : Setting) (key : String) (default : Nat) : Nat :=
  ((s.env key).bind fun value => (parseU64 value).toOption).getD default

end Setting

/-- A prepared transaction, read from its file. -/
structure Loaded where
  endpoint : String
  client : Client
  accountAddress : String
  accountId : AccountId
  call : ExtrinsicCall
  extra : ExtrinsicExtra
  additional : ExtrinsicAdditional
  signatureType : String

/-- `T::decode`: what follows the value is dropped. -/
def decodeBytes (T : Type) [Decode T] (bytes : Bytes) : Except Error T :=
  match (decode : Decoder T) bytes with
  | .error e => .error (.other e)
  | .ok (x, _) => .ok x

section

variable (s : Setting) (prepared : Value)

def load : Except Error Loaded := do
  let endpoint ← jsonString prepared "endpoint"
  let accountAddress ← jsonString prepared "account_address"
  let callHex ← jsonString prepared "call_hex"
  let extraHex ← jsonString prepared "extra_hex"
  let additionalHex ← jsonString prepared "additional_hex"
  let signatureType := (jsonString prepared "signature_type").toOption.getD "unknown"
  let client ← s.connect endpoint
  let accountId ← s.toAccountId accountAddress
  let callBytes ← hexDecode callHex
  let call ← (ExtrinsicCall.tryFromBytes callBytes).mapError Error.other
  let extraBytes ← hexDecode extraHex
  let extra ← decodeBytes ExtrinsicExtra extraBytes
  let additionalBytes ← hexDecode additionalHex
  let additional ← decodeBytes ExtrinsicAdditional additionalBytes
  pure { endpoint, client, accountAddress, accountId, call, extra, additional, signatureType }

def sr25519SignatureVerifies (accountId : AccountId) (signatureBytes signingPayload : Bytes) :
    Except Error Bool := do
  let signature ← sr25519SignaturePayloadBytes signatureBytes
  pure (s.verify signature signingPayload accountId)

/-- The check of a signature before it is submitted, which only one type has. -/
def verifyLocally (accountId : AccountId) (signatureBytes : Bytes) (candidate : SignatureType) :
    Except Error (Except String Unit) :=
  if candidate = .sr25519 then do
    let signingPayload ← jsonHexBytes prepared "signing_payload_hex"
    pure (match sr25519SignatureVerifies s accountId signatureBytes signingPayload with
      | .ok true => .ok ()
      | .ok false => .error "local signature verification failed for prepared signing payload"
      | .error error => .error ("local signature verification failed: " ++ error.toText))
  else .ok (.ok ())

/-- The signature as of one type, or why it is not submitted as of it. -/
def signatureFor (accountId : AccountId) (signatureBytes : Bytes) (candidate : SignatureType) :
    Except Error (Except String MultiSignature) := do
  match ← verifyLocally s prepared accountId signatureBytes candidate with
  | .error reason => pure (.error reason)
  | .ok _ => pure ((multisigFor candidate signatureBytes).mapError Error.toText)

end

/-! ## Submitting -/

/-- The transaction that is sent for a signature. -/
def Loaded.extrinsic (l : Loaded) (signature : MultiSignature) : GenericExtrinsic where
  signature := some { address := .id l.accountId, signature, extra := l.extra }
  call := l.call

abbrev Tool := Fallible Request Event Error

section

variable (s : Setting) (prepared : Value) (l : Loaded)

/-- The loop over the candidates, with the errors so far. -/
def tryCandidates (signatureBytes : Bytes) :
    List SignatureType → List String → Tool (Option (SignatureType × H256) × List String)
  | [], errors => pure (none, errors)
  | candidate :: rest, errors => do
    match ← check id (signatureFor s prepared l.accountId signatureBytes candidate) with
    | .error reason =>
      tryCandidates signatureBytes rest (errors ++ [candidate.text ++ ": " ++ reason])
    | .ok signature => do
      match ← (ExceptT.lift (l.client.chain.submit (l.extrinsic signature)) : Tool _) with
      | .ok extHash => pure (some (candidate, extHash), errors)
      | .error error =>
        if isBadProofLike error then
          tryCandidates signatureBytes rest (errors ++ [candidate.text ++ ": " ++ error.toText])
        else check id (.error (.rpcError error))

/-- The search for the receipt. Of one that is given up, the requests are not kept. -/
def findReceipt (extHash : H256) (finalizedHeight : Nat) : Tool (Option TransactionReceipt) :=
  if s.inTime then
    attempt id (TransactionReceipt.fromRange l.client (.string (debugH256 extHash))
      finalizedHeight (u32SaturatingAdd finalizedHeight 512) true)
  else check id (.error (.other "Timed out waiting for transaction receipt"))

/-- The receipt of what was submitted, if it was a success. -/
def awaitSuccess (extHash : H256) (finalizedHeight : Nat) : Tool TransactionReceipt := do
  let found ← findReceipt s l extHash finalizedHeight
  let receipt ← check id (okOr (.other "Transaction got dropped (no receipt)") found)
  let events ← attempt id receipt.events
  check id (refuseIf (¬ events.isExtrinsicSuccessPresent) (.other "Extrinsic did not succeed"))
  pure receipt

/-- What is printed in the end. -/
structure Report where
  endpoint : String
  appId : UInt64
  receiptTimeoutSecs : Nat
  nonce : U32
  blockHeight : Nat
  blockHash : H256
  extHash : H256
  accountAddress : String
  accountId : AccountId
  signatureType : String
  specVersion : U32
  transactionVersion : U32

def reportOf (signatureType : String) (receipt : TransactionReceipt) : Report where
  endpoint := l.endpoint
  appId := ((prepared.get "app_id").bind Value.asU64).getD 0
  receiptTimeoutSecs := s.envU64 "RECEIPT_TIMEOUT_SECS" 240
  nonce := l.extra.nonce
  blockHeight := receipt.blockHeight
  blockHash := receipt.blockHash
  extHash := receipt.extHash
  accountAddress := l.accountAddress
  accountId := l.accountId
  signatureType := signatureType
  specVersion := l.additional.specVersion
  transactionVersion := l.additional.txVersion

/-- Sending the transaction: the type of its signature, and its hash. -/
def send : Tool (String × H256) := do
  let signatureHex := (s.env "SIGNATURE_HEX").getD ""
  let signedTxHex := (s.env "SIGNED_TX_HEX").getD ""
  if trim signedTxHex.toList ≠ [] then do
    let signedTxBytes ← check id (hexDecode signedTxHex)
    let extHash ← attempt .rpcError (l.client.chain.submitRaw signedTxBytes)
    pure ("signed_transaction", extHash)
  else if trim signatureHex.toList = [] then
    check id (.error (.other "missing SIGNATURE_HEX or SIGNED_TX_HEX"))
  else do
    let signatureBytes ← check id (hexDecode signatureHex)
    let candidates ← check id (candidateSignatureTypes l.signatureType signatureBytes)
    let (found, errors) ← tryCandidates s prepared l signatureBytes candidates []
    let (candidate, extHash) ← check id (okOr
      (.other ("wallet signature was rejected without signature-type fallback: "
        ++ String.intercalate " | " errors)) found)
    pure (candidate.text, extHash)

/-- The program, once its file is read. -/
def submitLoaded : Tool Report := do
  let finalizedHeight ← attempt .rpcError l.client.finalized.blockHeight
  let (signatureType, extHash) ← send s prepared l
  let receipt ← awaitSuccess s l extHash finalizedHeight
  pure (reportOf s prepared l signatureType receipt)

end

def submit (s : Setting) : Tool Report := do
  let preparedFile ← check id (s.envRequired "PREPARED_FILE")
  let prepared ← check id (s.readFile preparedFile)
  let l ← check id (load s prepared)
  submitLoaded s prepared l

/-! ## What is sent -/

/-- The moves that met the submissions of one transaction gave it this hash. -/
def Answered (hash : H256) (bytes : Bytes) (moves : List Event) : Prop :=
  ∃ view, Event.answer view ∈ moves ∧ view (.submitExtrinsic bytes) = .ok hash

/-- All that is sent is one transaction of the kind `P`, again and again. If the program ends well,
    then `Q` holds of it, of the moves that met it, and of the world in the end. -/
def Sends {α : Type} (P : Bytes → Prop) (Q : α → Bytes → List Event → RpcWorld → Prop)
    (m : Tool α) : Prop :=
  ∀ w r w', m.run w = some (r, w') → ∃ bytes moves,
    submitted w' = moves.map (bytes, ·) ++ submitted w ∧ (moves ≠ [] → P bytes) ∧
      ∀ a, r = .ok a → Q a bytes moves w'

section

variable {α β : Type} {P : Bytes → Prop} {Q : α → Bytes → List Event → RpcWorld → Prop}

theorem Sends.mono {P' : Bytes → Prop} {Q' : α → Bytes → List Event → RpcWorld → Prop} {m : Tool α}
    (h : Sends P Q m) (hP : ∀ bytes, P bytes → P' bytes)
    (hQ : ∀ a bytes moves w', Q a bytes moves w' → Q' a bytes moves w') : Sends P' Q' m := by
  intro w r w' hrun
  obtain ⟨bytes, moves, hsub, hbytes, hpost⟩ := h w r w' hrun
  exact ⟨bytes, moves, hsub, fun hne => hP bytes (hbytes hne), fun a ha => hQ _ _ _ _ (hpost a ha)⟩

theorem Sends.stop (error : Error) : Sends P Q (check id (.error error) : Tool α) := by
  intro w r w' h
  obtain ⟨rfl, rfl⟩ := pure_eq_some.mp h
  exact ⟨[], [], rfl, fun hne => absurd rfl hne, nofun⟩

theorem Sends.after {x : Tool β} {f : β → Tool α} (hx : Keeps submitted x.run)
    (hf : ∀ b, Sends P Q (f b)) : Sends P Q (x >>= f) := by
  intro w r w' h
  obtain ⟨e, hrun, rfl⟩ | ⟨b, w1, hrun, h⟩ := bind_cases h
  · exact ⟨[], [], hx w _ w' hrun, fun hne => absurd rfl hne, nofun⟩
  · obtain ⟨bytes, moves, hsub, hspec⟩ := hf b w1 r w' h
    rw [hx w _ w1 hrun] at hsub
    exact ⟨bytes, moves, hsub, hspec⟩

theorem Sends.checked {ε : Type} {wrap : ε → Error} {x : Except ε β} {f : β → Tool α}
    (hf : ∀ b, x = .ok b → Sends P Q (f b)) : Sends P Q (check wrap x >>= f) := by
  cases x with
  | error e =>
    intro w r w' h
    exact Sends.stop (wrap e) w r w' h
  | ok b =>
    intro w r w' h
    exact hf b rfl w r w' h

/-- What follows a program that sends, and sends nothing itself. -/
theorem Sends.before {x : Tool β} {f : β → Tool α} {Q' : β → Bytes → List Event → RpcWorld → Prop}
    (hx : Sends P Q' x) (hkeeps : ∀ b, Keeps submitted (f b).run)
    (hf : ∀ b w a w' bytes moves, (f b).run w = some (.ok a, w') → Q' b bytes moves w →
      Q a bytes moves w') : Sends P Q (x >>= f) := by
  intro w r w' h
  obtain ⟨e, hrun, rfl⟩ | ⟨b, w1, hrun, h⟩ := bind_cases h
  · obtain ⟨bytes, moves, hsub, hspec, -⟩ := hx w _ w' hrun
    exact ⟨bytes, moves, hsub, hspec, nofun⟩
  · obtain ⟨bytes, moves, hsub, hspec, hpost⟩ := hx w _ w1 hrun
    refine ⟨bytes, moves, ?_, hspec, ?_⟩
    · rw [hkeeps b w1 _ w' h, hsub]
    · rintro a rfl
      exact hf b w1 a w' bytes moves h (hpost b rfl)

/-- A transaction that is sent until it is answered. -/
theorem Sends.submitted {bytes : Bytes} (hbytes : P bytes) (c : Chain) :
    Sends P (fun result bytes moves _ => ∀ hash, result = .ok hash → Answered hash bytes moves)
      (ExceptT.lift (c.submitRaw bytes) : Tool (Except RpcError H256)) := by
  intro w r w' h
  have hlift : (ExceptT.lift (c.submitRaw bytes) : Tool _).run
      = c.submitRaw bytes >>= fun result => pure (.ok result) := map_eq_pure_bind _ _
  rw [hlift] at h
  obtain ⟨result, w1, hrun, hpure⟩ := Dialogue.bind_eq_some.mp h
  obtain ⟨rfl, rfl⟩ := pure_eq_some.mp hpure
  obtain ⟨last, earlier, hsub, hresponse⟩ := asked_submitted (withRetryOnError_asked hrun)
  refine ⟨bytes, last :: earlier, hsub, fun _ => hbytes, ?_⟩
  intro result' hresult hash hok
  rw [← Except.ok.inj hresult] at hok
  rw [hok] at hresponse
  cases last with
  | answer view => exact ⟨view, List.mem_cons_self, hresponse⟩
  | fail reached error => cases hresponse

end

/-! ## One candidate -/

/-- Of whatever type the signature is taken to be, there is one candidate. -/
theorem candidates_eq {preferred : String} {signatureBytes : Bytes}
    {candidates : List SignatureType}
    (h : candidateSignatureTypes preferred signatureBytes = .ok candidates) :
    ∃ candidate, candidates = [candidate] ∧ candidate ≠ .unknown := by
  unfold candidateSignatureTypes at h
  simp only at h
  split at h
  case isTrue hknown => exact ⟨_, (Except.ok.inj h).symm, hknown⟩
  case isFalse =>
    repeat' split at h
    all_goals cases h
    all_goals exact ⟨_, rfl, by decide⟩

section

variable {s : Setting} {prepared : Value} {l : Loaded} {signatureBytes : Bytes}
  {candidate : SignatureType}

/-- The `sr25519` signatures are those of that type. -/
theorem multisigFor_eq_sr25519 {signature : FixedBytes 64} (hknown : candidate ≠ .unknown)
    (h : multisigFor candidate signatureBytes = .ok (.sr25519 signature)) :
    candidate = .sr25519 ∧ sr25519SignaturePayloadBytes signatureBytes = .ok signature := by
  cases candidate with
  | sr25519 =>
    obtain ⟨bytes, hbytes, heq⟩ := map_ok_iff.mp h
    cases heq
    exact ⟨rfl, hbytes⟩
  | unknown => exact absurd rfl hknown
  | ed25519 =>
    obtain ⟨bytes, -, heq⟩ := map_ok_iff.mp h
    cases heq
  | ecdsa =>
    obtain ⟨bytes, -, heq⟩ := map_ok_iff.mp h
    cases heq

/-- A signature is submitted as of a type that it fits, and one of `sr25519` if it verifies. -/
theorem signatureFor_eq_ok {signature : MultiSignature} (hknown : candidate ≠ .unknown)
    (h : signatureFor s prepared l.accountId signatureBytes candidate = .ok (.ok signature)) :
    multisigFor candidate signatureBytes = .ok signature ∧
      ∀ bytes, signature = .sr25519 bytes →
        ∃ payload, jsonHexBytes prepared "signing_payload_hex" = .ok payload ∧
          s.verify bytes payload l.accountId = true := by
  unfold signatureFor at h
  obtain ⟨verified, hverified, h⟩ := bind_ok_iff.mp h
  cases verified with
  | error reason => cases Except.ok.inj h
  | ok _ =>
    have hmultisig : multisigFor candidate signatureBytes = .ok signature :=
      mapError_eq_ok.mp (Except.ok.inj h)
    refine ⟨hmultisig, ?_⟩
    intro bytes hsr
    rw [hsr] at hmultisig
    obtain ⟨rfl, hbytes⟩ := multisigFor_eq_sr25519 hknown hmultisig
    rw [verifyLocally, if_pos rfl] at hverified
    obtain ⟨payload, hpayload, hverified⟩ := bind_ok_iff.mp hverified
    refine ⟨payload, hpayload, ?_⟩
    have hverifies : sr25519SignatureVerifies s l.accountId signatureBytes payload
        = .ok (s.verify bytes payload l.accountId) := by
      unfold sr25519SignatureVerifies
      rw [hbytes]
      rfl
    have hchecked := Except.ok.inj hverified
    rw [hverifies] at hchecked
    cases hv : s.verify bytes payload l.accountId with
    | true => rfl
    | false =>
      rw [hv] at hchecked
      cases hchecked

end

/-- The transactions that may be sent: the one that is given, or the file's under the signature that
    is given, if there is none. -/
inductive Sendable (s : Setting) (prepared : Value) (l : Loaded) : Bytes → Prop where
  | signedTx {bytes : Bytes} (given : trim ((s.env "SIGNED_TX_HEX").getD "").toList ≠ [])
      (hex : hexDecode ((s.env "SIGNED_TX_HEX").getD "") = .ok bytes) :
      Sendable s prepared l bytes
  | signature {signatureBytes : Bytes} {candidate : SignatureType} {signature : MultiSignature}
      (none : trim ((s.env "SIGNED_TX_HEX").getD "").toList = [])
      (hex : hexDecode ((s.env "SIGNATURE_HEX").getD "") = .ok signatureBytes)
      (only : candidateSignatureTypes l.signatureType signatureBytes = .ok [candidate])
      (multisig : multisigFor candidate signatureBytes = .ok signature)
      (verified : ∀ bytes, signature = .sr25519 bytes →
        ∃ payload, jsonHexBytes prepared "signing_payload_hex" = .ok payload ∧
          s.verify bytes payload l.accountId = true) :
      Sendable s prepared l (encode (l.extrinsic signature))

section

variable {s : Setting} {prepared : Value} {l : Loaded}

theorem tryCandidates_sends {P : Bytes → Prop} {signatureBytes : Bytes} {candidate : SignatureType}
    (hP : ∀ signature, signatureFor s prepared l.accountId signatureBytes candidate
      = .ok (.ok signature) → P (encode (l.extrinsic signature))) (errors : List String) :
    Sends P (fun result bytes moves _ =>
        ∀ candidate hash, result.1 = some (candidate, hash) → Answered hash bytes moves)
      (tryCandidates s prepared l signatureBytes [candidate] errors) := by
  have hnone : ∀ errors : List String, Keeps submitted
      (tryCandidates s prepared l signatureBytes [] errors).run := fun _ => .pure _
  refine .checked fun outcome houtcome => ?_
  cases outcome with
  | error reason =>
    intro w r w' h
    obtain ⟨rfl, rfl⟩ := pure_eq_some.mp h
    refine ⟨[], [], rfl, fun hne => absurd rfl hne, ?_⟩
    intro result hresult candidate hash hsome
    rw [← Except.ok.inj hresult] at hsome
    cases hsome
  | ok signature =>
    refine (Sends.submitted (hP signature houtcome) l.client.chain).before ?keeps ?found
    case keeps =>
      intro result
      cases result with
      | ok hash => exact .pure _
      | error e =>
        simp only
        split
        · exact hnone _
        · exact Fallible.Keeps.check _ _
    case found =>
      intro result w a w' bytes moves h hanswered candidate hash hsome
      cases result with
      | ok extHash =>
        obtain ⟨rfl, -⟩ := Fallible.pure_eq_ok.mp h
        cases hsome
        exact hanswered hash rfl
      | error e =>
        simp only at h
        split at h
        · obtain ⟨rfl, -⟩ := Fallible.pure_eq_ok.mp h
          cases hsome
        · cases (check_eq_ok.mp h).1

theorem send_sends :
    Sends (Sendable s prepared l) (fun result bytes moves _ => Answered result.2 bytes moves)
      (send s prepared l) := by
  unfold send
  simp only
  split
  case isTrue hgiven =>
    refine .checked fun bytes hbytes => ?_
    rw [attempt_eq_lift, bind_assoc]
    refine (Sends.submitted (Sendable.signedTx hgiven hbytes) l.client.chain).before ?keeps ?found
    case keeps => exact fun _ => Fallible.Keeps.andThen (Fallible.Keeps.check _ _) fun _ => .pure _
    case found =>
      intro result w a w' bytes moves h hanswered
      obtain ⟨hash, w1, hcheck, h⟩ := Fallible.bind_eq_ok.mp h
      obtain ⟨rfl, -⟩ := Fallible.pure_eq_ok.mp h
      exact hanswered hash (check_eq_ok.mp hcheck).1
  case isFalse hnone =>
    split
    · exact .stop _
    · refine .checked fun signatureBytes hsignature => ?_
      refine .checked fun candidates hcandidates => ?_
      obtain ⟨candidate, rfl, hknown⟩ := candidates_eq hcandidates
      refine Sends.before (tryCandidates_sends ?_ []) ?_ ?_
      · intro signature hfor
        obtain ⟨hmultisig, hverified⟩ := signatureFor_eq_ok hknown hfor
        exact .signature (not_not.mp hnone) hsignature hcandidates hmultisig hverified
      · intro result
        exact Fallible.Keeps.andThen (Fallible.Keeps.check _ _) fun _ => .pure _
      · intro result w a w' bytes moves h hanswered
        obtain ⟨⟨candidate, hash⟩, w1, hfound, h⟩ := Fallible.bind_eq_ok.mp h
        obtain ⟨rfl, -⟩ := Fallible.pure_eq_ok.mp h
        exact hanswered candidate hash (okOr_eq_ok.mp (check_eq_ok.mp hfound).1)

theorem awaitSuccess_keeps (extHash : H256) (finalizedHeight : Nat) :
    Keeps submitted (awaitSuccess s l extHash finalizedHeight).run := by
  have hfind : Keeps submitted (findReceipt s l extHash finalizedHeight).run := by
    unfold findReceipt
    split
    · exact Fallible.Keeps.attempt (TransactionReceipt.fromRange_keeps _ _ _ _ _) _
    · exact Fallible.Keeps.check _ _
  refine Fallible.Keeps.andThen hfind fun found => ?_
  refine Fallible.Keeps.andThen (Fallible.Keeps.check _ _) fun receipt => ?_
  refine Fallible.Keeps.andThen (Fallible.Keeps.attempt receipt.events_keeps _) fun events => ?_
  exact Fallible.Keeps.andThen (Fallible.Keeps.check _ _) fun _ => .pure _

/-- In the end the receipt of a hash is found, and the events of its extrinsic tell of a success. -/
structure Confirmed (client : Client) (hash : H256) (report : Report) (w' : RpcWorld) : Prop where
  found : ∃ height receipt w1 w2 events,
    TransactionReceipt.fromRange client (.string (debugH256 hash)) height
      (u32SaturatingAdd height 512) true w1 = some (.ok (some receipt), w2) ∧
    receipt.events w2 = some (.ok events, w') ∧ events.isExtrinsicSuccessPresent = true ∧
    report.blockHash = receipt.blockHash ∧ report.blockHeight = receipt.blockHeight ∧
    report.extHash = receipt.extHash

/-- What is known of a run that ends well. -/
def Succeeds (l : Loaded) (report : Report) (bytes : Bytes) (moves : List Event) (w' : RpcWorld) :
    Prop :=
  report.accountId = l.accountId ∧ report.nonce = l.extra.nonce ∧
    ∃ hash, Answered hash bytes moves ∧ Confirmed l.client hash report w'

theorem submitLoaded_sends :
    Sends (Sendable s prepared l) (Succeeds l) (submitLoaded s prepared l) := by
  refine .after (Fallible.Keeps.attempt (Finalized.blockHeight_keeps _) _) fun height => ?_
  refine send_sends.before ?keeps ?found
  case keeps =>
    intro result
    exact Fallible.Keeps.andThen (awaitSuccess_keeps _ _) fun _ => .pure _
  case found =>
    intro result w report w' bytes moves h hanswered
    obtain ⟨receipt, w1, hawait, h⟩ := Fallible.bind_eq_ok.mp h
    obtain ⟨rfl, rfl⟩ := Fallible.pure_eq_ok.mp h
    obtain ⟨found, w2, hfind, h⟩ := Fallible.bind_eq_ok.mp hawait
    obtain ⟨receipt', w3, hcheck, h⟩ := Fallible.bind_eq_ok.mp h
    obtain ⟨hsome, rfl⟩ := check_eq_ok.mp hcheck
    rw [okOr_eq_ok.mp hsome] at hfind
    obtain ⟨events, w4, hevents, h⟩ := Fallible.bind_eq_ok.mp h
    obtain ⟨_, w5, hsuccess, h⟩ := Fallible.bind_eq_ok.mp h
    obtain ⟨hpresent, rfl⟩ := check_eq_ok.mp hsuccess
    obtain ⟨rfl, rfl⟩ := Fallible.pure_eq_ok.mp h
    unfold findReceipt at hfind
    split at hfind
    · exact ⟨rfl, rfl, result.2, hanswered, ⟨height, receipt', w, w2, events,
        attempt_eq_ok.mp hfind, attempt_eq_ok.mp hevents, not_not.mp (refuseIf_eq_ok.mp hpresent),
        rfl, rfl, rfl⟩⟩
    · cases (check_eq_ok.mp hfind).1

end

/-- What the program reads of its file. -/
def Reads (s : Setting) (prepared : Value) (l : Loaded) : Prop :=
  ∃ path, s.env "PREPARED_FILE" = some path ∧ s.readFile path = .ok prepared ∧
    load s prepared = .ok l

/-- If whatever is read of the file is submitted so, the program does so. -/
theorem Sends.of_reads {s : Setting} {P : Bytes → Prop}
    {Q : Report → Bytes → List Event → RpcWorld → Prop}
    (h : ∀ prepared l, Reads s prepared l → Sends P Q (submitLoaded s prepared l)) :
    Sends P Q (submit s) := by
  refine .checked fun path hpath => ?_
  refine .checked fun prepared hprepared => ?_
  refine .checked fun l hl => ?_
  exact h prepared l ⟨path, okOr_eq_ok.mp hpath, hprepared, hl⟩

/-- Whatever the file says and the node answers, in every run one transaction is sent at most, and
    it is the given one, or that of the file under the given signature. A run that ends well has
    found its receipt and its success. -/
theorem submit_sends (s : Setting) :
    Sends (fun bytes => ∃ prepared l, Reads s prepared l ∧ Sendable s prepared l bytes)
      (fun report bytes moves w' => ∃ prepared l, Reads s prepared l ∧
        Succeeds l report bytes moves w')
      (submit s) := by
  refine .of_reads fun prepared l hreads => ?_
  have hloaded := @submitLoaded_sends s prepared l
  exact hloaded.mono (fun bytes hbytes => ⟨prepared, l, hreads, hbytes⟩)
    fun report bytes moves w' hsuccess => ⟨prepared, l, hreads, hsuccess⟩

/-! ## From `prepare` to `submit` -/

/-- What `prepare` writes besides the payload. -/
structure PreparedWith where
  endpoint : String
  accountAddress : String
  accountId : String
  payloadFile : String
  data : Bytes
  signatureType : SignatureType
  blockHeight : Nat

def number (n : Nat) : Value := .number (.posInt (UInt64.ofNat n))

def preparedJson (crypto : SpCryptoHashing) (sha256 : Bytes → Bytes) (file : PreparedWith)
    (p : Prepared) : Value :=
  let payload := p.payload
  let signingData := payload.signingData
  let signingPayload := payload.message crypto
  .object [
    ("version", number 1),
    ("mode", .string "wallet_signed_submit_data"),
    ("endpoint", .string file.endpoint),
    ("app_id", number payload.extra.appId.val),
    ("account_address", .string file.accountAddress),
    ("account_id", .string file.accountId),
    ("nonce", number payload.extra.nonce.val),
    ("tip", .string (toString payload.extra.tip.val)),
    ("payload_file", .string file.payloadFile),
    ("payload_sha256", .string (String.ofList (Hex.encode (sha256 file.data)))),
    ("payload_size", number file.data.length),
    ("call_hex", .string (hexEncode (encode payload.call))),
    ("extra_hex", .string (hexEncode (encode payload.extra))),
    ("additional_hex", .string (hexEncode (encode payload.additional))),
    ("signing_data_hex", .string (hexEncode signingData)),
    ("signing_data_bytes", number signingData.length),
    ("signing_hash_hex", .string (hexEncode (crypto.blake2_256 signingData).bytes)),
    ("signing_payload_hex", .string (hexEncode signingPayload)),
    ("signing_payload_bytes", number signingPayload.length),
    ("signing_payload_mode",
      .string (if signingData.length > 256 then "blake2_256" else "raw")),
    ("signature_type", .string file.signatureType.text),
    ("signer_payload_json", p.signerPayload),
    ("spec_version", number payload.additional.specVersion.val),
    ("transaction_version", number payload.additional.txVersion.val),
    ("genesis_hash", .string (debugH256 payload.additional.genesisHash)),
    ("mortality_block_hash", .string (debugH256 payload.additional.forkHash)),
    ("mortality_block_number", number file.blockHeight)]

section

variable {s : Setting} {crypto : SpCryptoHashing} {sha256 : Bytes → Bytes} {file : PreparedWith}
  {p : Prepared} {client : Client} {accountId : AccountId}

theorem decodeBytes_encode {T : Type} [Encode T] [Decode T] {x : T} (h : ReadsBack x) :
    decodeBytes T (encode x) = .ok x := by
  have hdecode := h []
  rw [List.append_nil] at hdecode
  rw [decodeBytes, hdecode]

theorem extra_readsBack {x : ExtrinsicExtra} (h : x.era.WellFormed) : ReadsBack x :=
  Fields.readsBack ((Era.readsBack h).pair (Scale.readsBack _))

/-- What `submit` reads of a file that `prepare` has written. -/
theorem load_preparedJson (hclient : s.connect file.endpoint = .ok client)
    (haccount : s.toAccountId file.accountAddress = .ok accountId)
    (hera : p.payload.extra.era.WellFormed) :
    load s (preparedJson crypto sha256 file p) = .ok {
      endpoint := file.endpoint
      client
      accountAddress := file.accountAddress
      accountId
      call := p.payload.call
      extra := p.payload.extra
      additional := p.payload.additional
      signatureType := file.signatureType.text } := by
  have hcall : ExtrinsicCall.tryFromBytes (encode p.payload.call) = .ok p.payload.call := rfl
  have hextra := decodeBytes_encode (extra_readsBack hera)
  have hadditional : decodeBytes ExtrinsicAdditional (encode p.payload.additional)
      = .ok p.payload.additional :=
    decodeBytes_encode (Fields.readsBack (Scale.readsBack _))
  have hbind : ∀ {α β : Type} (a : α) (f : α → Except Error β), Except.ok a >>= f = f a :=
    fun _ _ => rfl
  have hendpoint : jsonString (preparedJson crypto sha256 file p) "endpoint"
      = .ok file.endpoint := jsonString_of_get rfl
  have haddress : jsonString (preparedJson crypto sha256 file p) "account_address"
      = .ok file.accountAddress := jsonString_of_get rfl
  have hcallHex : jsonString (preparedJson crypto sha256 file p) "call_hex"
      = .ok (hexEncode (encode p.payload.call)) := jsonString_of_get rfl
  have hextraHex : jsonString (preparedJson crypto sha256 file p) "extra_hex"
      = .ok (hexEncode (encode p.payload.extra)) := jsonString_of_get rfl
  have hadditionalHex : jsonString (preparedJson crypto sha256 file p) "additional_hex"
      = .ok (hexEncode (encode p.payload.additional)) := jsonString_of_get rfl
  have htype : jsonString (preparedJson crypto sha256 file p) "signature_type"
      = .ok file.signatureType.text := jsonString_of_get rfl
  simp only [load, hendpoint, haddress, hcallHex, hextraHex, hadditionalHex, htype, hclient,
    haccount, hexDecode_hexEncode, hcall, hextra, hadditional, hbind, Except.mapError]
  rfl

/-- A prepared payload calls `submit_data`, for the given application, and its era can be read. -/
theorem payload_of_prepare {accountAddress : String} {appId : U32} {nonce : Option U32}
    {data : Vec UInt8} {w w' : RpcWorld}
    (h : prepare client accountAddress accountId appId nonce data w = some (.ok p, w')) :
    p.payload.call = ExtrinsicCall.ofTyped (DataAvailability.Tx.SubmitData.mk data) ∧
      p.payload.extra.appId = appId ∧ p.payload.extra.era.WellFormed := by
  rw [prepare_eq, map_eq_pure_bind] at h
  obtain ⟨built, w1, hbuild, h⟩ := Dialogue.bind_eq_some.mp h
  obtain ⟨hbuilt, rfl⟩ := pure_eq_some.mp h
  cases built with
  | error e => cases hbuilt
  | ok refined =>
    obtain rfl := Except.ok.inj hbuilt
    refine ⟨rfl, ?_, Era.mortal_wellFormed _ _⟩
    obtain ⟨nonce', w2, -, hbuild⟩ := Dialogue.bind_eq_some.mp hbuild
    cases nonce' with
    | error e => cases (pure_eq_some.mp hbuild).1
    | ok nonce' =>
      obtain ⟨mortality, w3, -, hbuild⟩ := Dialogue.bind_eq_some.mp hbuild
      cases mortality with
      | error e => cases (pure_eq_some.mp hbuild).1
      | ok mortality =>
        have hrefined := Except.ok.inj (pure_eq_some.mp hbuild).1
        rw [← hrefined]
        rfl

/-- The transaction of a prepared payload under the wallet's signature. -/
def preparedExtrinsic (accountId : AccountId) (p : Prepared) (signature : MultiSignature) :
    GenericExtrinsic where
  signature := some { address := .id accountId, signature, extra := p.payload.extra }
  call := p.payload.call

/-- Of a file that `prepare` has written nothing is sent but the prepared transaction, under a
    signature that verifies on what was to be signed, where it is of `sr25519`. -/
theorem prepared_sends {preparing : Client} {appId : U32} {nonce : Option U32} {data : Vec UInt8}
    {w w' : RpcWorld}
    (hprepare : prepare preparing file.accountAddress accountId appId nonce data w
      = some (.ok p, w'))
    (hfile : ∀ path, s.env "PREPARED_FILE" = some path →
      s.readFile path = .ok (preparedJson crypto sha256 file p))
    (hclient : s.connect file.endpoint = .ok client)
    (haccount : s.toAccountId file.accountAddress = .ok accountId)
    (hnone : trim ((s.env "SIGNED_TX_HEX").getD "").toList = []) :
    p.payload.call = ExtrinsicCall.ofTyped (DataAvailability.Tx.SubmitData.mk data) ∧
    p.payload.extra.appId = appId ∧
    Sends (fun bytes => ∃ signature, bytes = encode (preparedExtrinsic accountId p signature) ∧
        ∀ sr25519, signature = .sr25519 sr25519 →
          s.verify sr25519 (p.payload.message crypto) accountId = true)
      (fun report bytes moves w' => report.nonce = p.payload.extra.nonce ∧
        ∃ hash, Answered hash bytes moves ∧ Confirmed client hash report w')
      (submit s) := by
  obtain ⟨hcall, happ, hera⟩ := payload_of_prepare hprepare
  refine ⟨hcall, happ, .of_reads ?_⟩
  rintro prepared l ⟨path, hpath, hprepared, hl⟩
  obtain rfl := Except.ok.inj (hprepared.symm.trans (hfile path hpath))
  obtain rfl := Except.ok.inj (hl.symm.trans (load_preparedJson hclient haccount hera))
  have hsigned : jsonHexBytes (preparedJson crypto sha256 file p) "signing_payload_hex"
      = .ok (p.payload.message crypto) := jsonHexBytes_of_get rfl
  refine submitLoaded_sends.mono ?_ fun report bytes moves w' hsuccess => hsuccess.2
  intro bytes hbytes
  cases hbytes with
  | signedTx given _ => exact absurd hnone given
  | signature _ _ _ _ hverified =>
    refine ⟨_, rfl, fun sr25519 hsr => ?_⟩
    obtain ⟨payload, hpayload, hverifies⟩ := hverified sr25519 hsr
    obtain rfl := Except.ok.inj (hpayload.symm.trans hsigned)
    exact hverifies

end

namespace SignedByWallet

def account : AccountId := FixedBytes.fill 32 1

def hash : H256 := FixedBytes.fill 32 8

def header : AvailHeader where
  parentHash := FixedBytes.fill 32 9
  number := 10
  stateRoot := FixedBytes.fill 32 0
  extrinsicsRoot := FixedBytes.fill 32 0
  digest := ⟨Vec.nil⟩
  extension := .V3 ⟨⟨0, Vec.nil⟩, ⟨0, 0, Vec.nil, FixedBytes.fill 32 0⟩⟩

/-- A node at height 10 that includes what it is sent. -/
def view : View
  | .latestBlockInfo _ => .ok ⟨FixedBytes.fill 32 10, 10⟩
  | .getHeader _ => .ok (some header)
  | .getBlockHash _ => .ok (some (FixedBytes.fill 32 2))
  | .submitExtrinsic _ => .ok hash
  | .fetchExtrinsics _ _ => .ok [⟨none, hash, 1, 29, 1, none⟩]
  | .fetchEvents _ _ =>
    .ok [⟨.applyExtrinsic 1, [⟨0, 0, 0, some "0x00000c100100000000", none⟩]⟩]
  | _ => .error (.rpc "Method not found")

def world (moves : Nat) : RpcWorld := start Request (List.replicate moves (.answer view))

def file : PreparedWith where
  endpoint := "http://127.0.0.1:9951"
  accountAddress := "alice"
  accountId := "alice"
  payloadFile := "payload.bin"
  data := [1, 2, 3]
  signatureType := .unknown
  blockHeight := 10

def prepared : Option (Except Error Prepared × RpcWorld) :=
  prepare Client.devnet file.accountAddress account 7 (some 3) ⟨file.data, by decide⟩ (world 3)

def json : Value :=
  match prepared with
  | some (.ok p, _) => preparedJson noCrypto id file p
  | _ => .null

/-- A wallet that says what type its signature has. -/
def setting : Setting where
  env
    | "PREPARED_FILE" => some "prepared.json"
    | "SIGNATURE_HEX" => some (hexEncode (1 :: List.replicate 64 5))
    | _ => none
  readFile _ := .ok json
  connect _ := .ok Client.devnet
  toAccountId _ := .ok account
  verify _ _ _ := true
  inTime := true

/-- Whether the file is prepared, and then submitted. -/
def bothDone : Bool :=
  match prepared, (submit setting).run (world 7) with
  | some (.ok _, _), some (.ok _, _) => true
  | _, _ => false

end SignedByWallet

open SignedByWallet in
theorem prepared_sends_signed : ∃ p report w',
    (submit setting).run (world 7) = some (.ok report, w') ∧
    Sends (fun bytes => ∃ signature, bytes = encode (preparedExtrinsic account p signature) ∧
        ∀ sr25519, signature = .sr25519 sr25519 →
          setting.verify sr25519 (p.payload.message noCrypto) account = true)
      (fun report bytes moves w' => report.nonce = p.payload.extra.nonce ∧
        ∃ hash, Answered hash bytes moves ∧ Confirmed Client.devnet hash report w')
      (submit setting) := by
  have hdone : bothDone = true := by decide +kernel
  unfold bothDone at hdone
  split at hdone
  case h_1 p w1 report w' hprepare hrun =>
    have hfile : ∀ path, setting.env "PREPARED_FILE" = some path →
        setting.readFile path = .ok (preparedJson noCrypto id file p) := by
      intro path _
      show Except.ok json = _
      unfold json
      rw [hprepare]
    have hsends := prepared_sends hprepare hfile rfl rfl rfl
    exact ⟨p, report, w', hrun, hsends.2.2⟩
  case h_2 => cases hdone

end Wallet

end AvailRust
