/-
  A submission that a wallet signs.

  `prepare` writes what is to be signed as a `SignerPayloadJSON`, for a wallet that signs what it
  reads there, and checks that this is the SDK's signing data. A wallet goes through the signed
  extensions by name, twice: first for what each adds to the transaction, then for what each only
  signs. `SignedExtension` are the extensions both loops know; from any list of their names the
  wallet gets the bytes they add, in the order of the list (`walletSigningDataFromJson_names`). In
  the order `prepare` lists them these are the SDK's extra and additional bytes.
-/
import AvailRust.Lib.Json
import AvailRust.Lib.Radix
import AvailRust.Lib.Results
import AvailRust.Pallets.Basic
import AvailRust.Storage.State
import AvailRust.Submission.Submit

namespace AvailRust

open Scale

namespace Wallet

open Json Results

/-! ## Texts -/

def hexDecode (value : String) : Except Error Bytes := (unhex value).mapError .other

def hexEncode (value : Bytes) : String := hexText value

/-- `{:?}` of a hash. -/
def debugH256 (hash : H256) : String := hexText hash.bytes

/-- `0x` and the digits of a number, at least `width` of them. -/
def numericHex (width value : Nat) : String :=
  String.ofList ("0x".toList ++ Radix.padded 16 width value)

def numericHexU32 (value : Nat) : String := numericHex 8 value

def numericHexU128 (value : Nat) : String := numericHex 32 value

/-! ## Reading the JSON -/

def jsonString (value : Value) (key : String) : Except Error String :=
  match (value.get key).bind Value.asStr with
  | some text => .ok text
  | none => .error (.other ("prepared transaction missing " ++ key))

def jsonHexBytes (value : Value) (key : String) : Except Error Bytes :=
  jsonString value key >>= hexDecode

/-- A number below `bound`, written with `0x` and `width` digits. -/
def jsonNumericHex (bound : Nat) [NeZero bound] (width : Nat) (shape : String) (value : Value)
    (key : String) : Except Error (Fin bound) := do
  let raw ← jsonString value key
  match raw.toList with
  | '0' :: 'x' :: digits =>
    if (String.ofList digits).utf8ByteSize ≠ width then
      .error (.other ("SignerPayloadJSON " ++ key ++ " must be " ++ shape
        ++ " numeric hex value, got " ++ raw))
    else
      (Radix.fromStrRadix bound 16 digits).mapError fun e =>
        .other ("invalid SignerPayloadJSON " ++ key ++ " " ++ raw ++ ": " ++ e)
  | _ => .error (.other ("SignerPayloadJSON " ++ key ++ " must start with 0x"))

def jsonNumericHexU32 (value : Value) (key : String) : Except Error U32 :=
  jsonNumericHex (256 ^ 4) 8 "an 8-digit" value key

def jsonNumericHexU128 (value : Value) (key : String) : Except Error U128 :=
  jsonNumericHex (256 ^ 16) 32 "a 32-digit" value key

def jsonAppId (value : Value) : Except Error U32 :=
  match (value.get "appId").bind Value.asU64 with
  | some n =>
    if h : n.toNat < 256 ^ 4 then .ok ⟨n.toNat, h⟩
    else .error (.other "SignerPayloadJSON appId must be a u32 number")
  | none => .error (.other "SignerPayloadJSON appId must be a u32 number")

def unknownExtension (extension : String) : Error :=
  .other ("SignerPayloadJSON self-check does not know signed extension " ++ extension)

/-- What the first loop appends for an extension. -/
def extraBytes (value : Value) (extension : String) : Except Error Bytes :=
  match extension with
  | "CheckMortality" | "CheckEra" => jsonHexBytes value "era"
  | "CheckNonce" => (fun nonce => encode (Compact.mk nonce)) <$> jsonNumericHexU32 value "nonce"
  | "ChargeTransactionPayment" =>
    (fun tip => encode (Compact.mk tip)) <$> jsonNumericHexU128 value "tip"
  | "CheckAppId" => (fun appId => encode (Compact.mk appId)) <$> jsonAppId value
  | "CheckNonZeroSender" | "CheckSpecVersion" | "CheckTxVersion" | "CheckGenesis"
  | "CheckWeight" => .ok []
  | unknown => .error (unknownExtension unknown)

/-- What the second loop appends for an extension. -/
def additionalBytes (value : Value) (extension : String) : Except Error Bytes :=
  match extension with
  | "CheckSpecVersion" => encode <$> jsonNumericHexU32 value "specVersion"
  | "CheckTxVersion" => encode <$> jsonNumericHexU32 value "transactionVersion"
  | "CheckGenesis" => jsonHexBytes value "genesisHash"
  | "CheckMortality" | "CheckEra" => jsonHexBytes value "blockHash"
  | "CheckNonZeroSender" | "CheckNonce" | "CheckWeight" | "ChargeTransactionPayment"
  | "CheckAppId" => .ok []
  | unknown => .error (unknownExtension unknown)

/-- The names of the signed extensions. -/
def extensionNames (value : Value) : Except Error (List String) :=
  match (value.get "signedExtensions").bind Value.asArray with
  | none => .error (.other "SignerPayloadJSON signedExtensions must be an array")
  | some extensions =>
    extensions.mapM fun extension =>
      match extension.asStr with
      | some name => .ok name
      | none => .error (.other "SignerPayloadJSON signedExtensions must contain strings")

/-- Append what `bytes` gives for each name. -/
def extend (bytes : String → Except Error Bytes) (names : List String) (encoded : Bytes) :
    Except Error Bytes :=
  names.foldlM (fun encoded name => (encoded ++ ·) <$> bytes name) encoded

def walletSigningDataFromJson (value : Value) : Except Error Bytes := do
  let names ← extensionNames value
  let encoded ← jsonHexBytes value "method"
  let encoded ← extend (extraBytes value) names encoded
  extend (additionalBytes value) names encoded

/-! ## Writing the JSON -/

/-- The extensions `prepare` lists. -/
def signedExtensions : List String :=
  ["CheckNonZeroSender", "CheckSpecVersion", "CheckTxVersion", "CheckGenesis", "CheckMortality",
    "CheckNonce", "CheckWeight", "ChargeTransactionPayment", "CheckAppId"]

def signerPayloadJson (signedExtensions : List String) (accountAddress : String)
    (blockHeight : Nat) (payload : ExtrinsicPayload) : Value :=
  .object [
    ("address", .string accountAddress),
    ("blockHash", .string (debugH256 payload.additional.forkHash)),
    ("blockNumber", .string (numericHexU32 blockHeight)),
    ("era", .string (hexEncode (encode payload.extra.era))),
    ("genesisHash", .string (debugH256 payload.additional.genesisHash)),
    ("method", .string (hexEncode (encode payload.call))),
    ("nonce", .string (numericHexU32 payload.extra.nonce.val)),
    ("specVersion", .string (numericHexU32 payload.additional.specVersion.val)),
    ("tip", .string (numericHexU128 payload.extra.tip.val)),
    ("transactionVersion", .string (numericHexU32 payload.additional.txVersion.val)),
    ("signedExtensions", .array (signedExtensions.map .string)),
    ("version", .number (.posInt 4)),
    ("appId", .number (.posInt (UInt64.ofNat payload.extra.appId.val))),
    ("withSignedTransaction", .bool true)]

/-- What `prepare` hands to the wallet: what a wallet signs of it is the SDK's signing data. -/
structure Prepared where
  payload : ExtrinsicPayload
  signerPayload : Value
  agrees : walletSigningDataFromJson signerPayload = .ok payload.signingData

/-- The self-check of `prepare`. -/
def selfCheck (signerPayload : Value) (payload : ExtrinsicPayload) : Except Error Prepared :=
  match h : walletSigningDataFromJson signerPayload with
  | .error e => .error e
  | .ok walletSigningData =>
    if hne : walletSigningData ≠ payload.signingData then
      .error (.other ("SignerPayloadJSON self-check failed: wallet encoded "
        ++ toString walletSigningData.length ++ " bytes but Rust prepared "
        ++ toString payload.signingData.length ++ " bytes"))
    else .ok { payload, signerPayload, agrees := h.trans (congrArg _ (not_not.mp hne)) }

/-- `prepare`, from the connected client and what it reads of its environment. -/
def prepare (client : Client) (accountAddress : String) (accountId : AccountId) (appId : U32)
    (nonce : Option U32) (data : Vec UInt8) : Rpc (Except Error Prepared) := do
  let options : Options := { appId := some appId, mortality := none, nonce, tip := none }
  let call := ExtrinsicCall.ofTyped (DataAvailability.Tx.SubmitData.mk data)
  match ← options.build client accountId none with
  | .error e => pure (.error e)
  | .ok refinedOptions =>
    let payload := client.chain.payloadOf call refinedOptions
    let signerPayload := signerPayloadJson signedExtensions accountAddress
      refinedOptions.mortality.blockHeight payload
    pure (selfCheck signerPayload payload)

/-! ## What was written is read -/

theorem hexDecode_hexEncode (bytes : Bytes) : hexDecode (hexEncode bytes) = .ok bytes := by
  rw [hexDecode, hexEncode, unhex_hexText]
  rfl

section

variable {value : Value} {key : String}

theorem jsonString_of_get {text : String} (h : value.get key = some (.string text)) :
    jsonString value key = .ok text := by
  rw [jsonString, h, Option.bind_some, Value.asStr_string]

theorem jsonHexBytes_of_get {bytes : Bytes}
    (h : value.get key = some (.string (hexEncode bytes))) :
    jsonHexBytes value key = .ok bytes := by
  rw [jsonHexBytes, jsonString_of_get h]
  exact hexDecode_hexEncode bytes

/-- The digits are as many as are asked for, and they are those of the number. -/
theorem jsonNumericHex_of_get {bound width : Nat} [NeZero bound] {shape : String} {n : Fin bound}
    (hwidth : 0 < width) (hbound : bound ≤ 16 ^ width)
    (h : value.get key = some (.string (numericHex width n.val))) :
    jsonNumericHex bound width shape value key = .ok n := by
  let digits := Radix.padded 16 width n.val
  have hraw : (numericHex width n.val).toList = '0' :: 'x' :: digits := String.toList_ofList
  have hlength : digits.length = width :=
    Radix.length_padded (by decide) hwidth (lt_of_lt_of_le n.isLt hbound)
  have hnumeral : Radix.numeral 16 0 digits = some n.val :=
    Radix.numeral_padded (by decide) (by decide) width n.val
  have hsize : (String.ofList digits).utf8ByteSize = width := by
    rw [Radix.utf8ByteSize_of_numeral hnumeral, hlength]
  have hread : Radix.fromStrRadix bound 16 digits = .ok n :=
    Radix.fromStrRadix_padded (by decide) (by decide) width n
  unfold jsonNumericHex
  rw [jsonString_of_get h]
  change (match (numericHex width n.val).toList with
    | '0' :: 'x' :: digits => _
    | _ => _) = _
  simp only [hraw, hsize, hread, ne_eq, not_true_eq_false, if_false]
  rfl

theorem jsonNumericHexU32_of_get {n : U32}
    (h : value.get key = some (.string (numericHexU32 n.val))) :
    jsonNumericHexU32 value key = .ok n :=
  jsonNumericHex_of_get (by decide) (by decide) h

example : [1, 50, 267, 57386].map numericHexU32
    = ["0x00000001", "0x00000032", "0x0000010b", "0x0000e02a"] := by decide

theorem jsonNumericHexU128_of_get {n : U128}
    (h : value.get key = some (.string (numericHexU128 n.val))) :
    jsonNumericHexU128 value key = .ok n :=
  jsonNumericHex_of_get (by decide) (by decide) h

theorem jsonAppId_of_get {n : U32}
    (h : value.get "appId" = some (.number (.posInt (UInt64.ofNat n.val)))) :
    jsonAppId value = .ok n := by
  have hn : (UInt64.ofNat n.val).toNat = n.val := by
    have hlt : n.val < 2 ^ 64 := lt_trans n.isLt (by decide)
    rw [UInt64.toNat_ofNat', Nat.mod_eq_of_lt hlt]
  have hlt : (UInt64.ofNat n.val).toNat < 256 ^ 4 := hn.symm ▸ n.isLt
  rw [jsonAppId, h, Option.bind_some, Value.asU64_posInt]
  simp only [dif_pos hlt]
  exact congrArg _ (Fin.ext hn)

end

/-! ## The signed extensions -/

/-- The extensions both loops know. -/
inductive SignedExtension where
  | checkNonZeroSender
  | checkSpecVersion
  | checkTxVersion
  | checkGenesis
  | checkMortality
  | checkEra
  | checkNonce
  | checkWeight
  | chargeTransactionPayment
  | checkAppId
deriving DecidableEq

namespace SignedExtension

def name : SignedExtension → String
  | checkNonZeroSender => "CheckNonZeroSender"
  | checkSpecVersion => "CheckSpecVersion"
  | checkTxVersion => "CheckTxVersion"
  | checkGenesis => "CheckGenesis"
  | checkMortality => "CheckMortality"
  | checkEra => "CheckEra"
  | checkNonce => "CheckNonce"
  | checkWeight => "CheckWeight"
  | chargeTransactionPayment => "ChargeTransactionPayment"
  | checkAppId => "CheckAppId"

/-- What an extension adds to the transaction. -/
def extra (x : ExtrinsicExtra) : SignedExtension → Bytes
  | checkMortality | checkEra => encode x.era
  | checkNonce => encode (Compact.mk x.nonce)
  | chargeTransactionPayment => encode (Compact.mk x.tip)
  | checkAppId => encode (Compact.mk x.appId)
  | checkNonZeroSender | checkSpecVersion | checkTxVersion | checkGenesis | checkWeight => []

/-- What an extension signs and leaves out of the transaction. -/
def additional (x : ExtrinsicAdditional) : SignedExtension → Bytes
  | checkSpecVersion => encode x.specVersion
  | checkTxVersion => encode x.txVersion
  | checkGenesis => encode x.genesisHash
  | checkMortality | checkEra => encode x.forkHash
  | checkNonZeroSender | checkNonce | checkWeight | chargeTransactionPayment | checkAppId => []

/-- The extensions `prepare` lists, in its order. -/
def listed : List SignedExtension :=
  [checkNonZeroSender, checkSpecVersion, checkTxVersion, checkGenesis, checkMortality, checkNonce,
    checkWeight, chargeTransactionPayment, checkAppId]

theorem map_name_listed : listed.map name = signedExtensions := rfl

/-- In the listed order the extensions add the SDK's extra bytes. -/
theorem flatMap_extra_listed (x : ExtrinsicExtra) : listed.flatMap (extra x) = encode x := by
  show encode x.era ++ (encode (Compact.mk x.nonce) ++ (encode (Compact.mk x.tip)
    ++ (encode (Compact.mk x.appId) ++ []))) = encode x.era ++ encode (Compact.mk x.nonce)
    ++ encode (Compact.mk x.tip) ++ encode (Compact.mk x.appId)
  simp only [List.append_nil, List.append_assoc]

/-- In the listed order the extensions sign the SDK's additional bytes. -/
theorem flatMap_additional_listed (x : ExtrinsicAdditional) :
    listed.flatMap (additional x) = encode x := by
  show encode x.specVersion ++ (encode x.txVersion ++ (encode x.genesisHash
    ++ (encode x.forkHash ++ []))) = encode x.specVersion ++ encode x.txVersion
    ++ encode x.genesisHash ++ encode x.forkHash
  simp only [List.append_nil, List.append_assoc]

end SignedExtension

/-- A name the first loop knows is that of a signed extension. -/
theorem exists_of_extraBytes {value : Value} {extension : String} {bytes : Bytes}
    (h : extraBytes value extension = .ok bytes) :
    ∃ x : SignedExtension, x.name = extension := by
  unfold extraBytes at h
  split at h
  · exact ⟨.checkMortality, rfl⟩
  · exact ⟨.checkEra, rfl⟩
  · exact ⟨.checkNonce, rfl⟩
  · exact ⟨.chargeTransactionPayment, rfl⟩
  · exact ⟨.checkAppId, rfl⟩
  · exact ⟨.checkNonZeroSender, rfl⟩
  · exact ⟨.checkSpecVersion, rfl⟩
  · exact ⟨.checkTxVersion, rfl⟩
  · exact ⟨.checkGenesis, rfl⟩
  · exact ⟨.checkWeight, rfl⟩
  · cases h

/-! ## What a wallet encodes -/

section

variable (names : List String) (accountAddress : String) (blockHeight : Nat)
  (payload : ExtrinsicPayload)

theorem extensionNames_signerPayloadJson :
    extensionNames (signerPayloadJson names accountAddress blockHeight payload) = .ok names := by
  have hget : (signerPayloadJson names accountAddress blockHeight payload).get "signedExtensions"
      = some (.array (names.map .string)) := rfl
  have hnames : names.mapM (fun name => (.ok name : Except Error String)) = .ok (names.map id) :=
    List.mapM_pure
  rw [List.map_id] at hnames
  rw [extensionNames, hget, Option.bind_some, Value.asArray_array]
  show (names.map Value.string).mapM _ = _
  rw [List.mapM_map]
  exact hnames

theorem extraBytes_name (x : SignedExtension) :
    extraBytes (signerPayloadJson names accountAddress blockHeight payload) x.name
      = .ok (x.extra payload.extra) := by
  cases x with
  | checkMortality => exact jsonHexBytes_of_get rfl
  | checkEra => exact jsonHexBytes_of_get rfl
  | checkNonce => exact map_ok_iff.mpr ⟨payload.extra.nonce, jsonNumericHexU32_of_get rfl, rfl⟩
  | chargeTransactionPayment =>
    exact map_ok_iff.mpr ⟨payload.extra.tip, jsonNumericHexU128_of_get rfl, rfl⟩
  | checkAppId => exact map_ok_iff.mpr ⟨payload.extra.appId, jsonAppId_of_get rfl, rfl⟩
  | _ => rfl

theorem additionalBytes_name (x : SignedExtension) :
    additionalBytes (signerPayloadJson names accountAddress blockHeight payload) x.name
      = .ok (x.additional payload.additional) := by
  cases x with
  | checkSpecVersion =>
    exact map_ok_iff.mpr ⟨payload.additional.specVersion, jsonNumericHexU32_of_get rfl, rfl⟩
  | checkTxVersion =>
    exact map_ok_iff.mpr ⟨payload.additional.txVersion, jsonNumericHexU32_of_get rfl, rfl⟩
  | checkGenesis => exact jsonHexBytes_of_get rfl
  | checkMortality => exact jsonHexBytes_of_get rfl
  | checkEra => exact jsonHexBytes_of_get rfl
  | _ => rfl

/-- A loop over the names of extensions appends what each of them is known to add. -/
theorem extend_names {bytes : String → Except Error Bytes} {k : SignedExtension → Bytes}
    (h : ∀ x : SignedExtension, bytes x.name = .ok (k x)) (extensions : List SignedExtension)
    (encoded : Bytes) :
    extend bytes (extensions.map SignedExtension.name) encoded
      = .ok (encoded ++ extensions.flatMap k) := by
  rw [extend, List.foldlM_map]
  exact appends_of_forall (fun x _ => h x) encoded

/-- From any list of extensions the wallet gets the call and what they add and sign, in the order
    of the list. -/
theorem walletSigningDataFromJson_names (extensions : List SignedExtension) :
    walletSigningDataFromJson (signerPayloadJson (extensions.map SignedExtension.name)
        accountAddress blockHeight payload)
      = .ok (encode payload.call ++ extensions.flatMap (SignedExtension.extra payload.extra)
        ++ extensions.flatMap (SignedExtension.additional payload.additional)) := by
  have hmethod : jsonHexBytes (signerPayloadJson (extensions.map SignedExtension.name)
      accountAddress blockHeight payload) "method" = .ok (encode payload.call) :=
    jsonHexBytes_of_get rfl
  have hextra := extend_names
    (extraBytes_name (extensions.map SignedExtension.name) accountAddress blockHeight payload)
    extensions (encode payload.call)
  have hadditional := extend_names
    (additionalBytes_name (extensions.map SignedExtension.name) accountAddress blockHeight payload)
    extensions (encode payload.call ++ extensions.flatMap (SignedExtension.extra payload.extra))
  unfold walletSigningDataFromJson
  rw [extensionNames_signerPayloadJson, hmethod]
  show (extend _ _ _ >>= _) = _
  rw [hextra]
  exact hadditional

theorem walletSigningDataFromJson_signerPayload :
    walletSigningDataFromJson
        (signerPayloadJson signedExtensions accountAddress blockHeight payload)
      = .ok payload.signingData := by
  rw [← SignedExtension.map_name_listed, walletSigningDataFromJson_names,
    SignedExtension.flatMap_extra_listed, SignedExtension.flatMap_additional_listed]
  rfl

end

/-- What a wallet can encode lists no extension that the loops do not know. -/
theorem exists_of_walletSigningData {value : Value} {names : List String} {encoded : Bytes}
    (hnames : extensionNames value = .ok names)
    (h : walletSigningDataFromJson value = .ok encoded) :
    ∀ name ∈ names, ∃ x : SignedExtension, x.name = name := by
  unfold walletSigningDataFromJson at h
  rw [hnames] at h
  replace h : (jsonHexBytes value "method" >>= _) = .ok encoded := h
  obtain ⟨method, -, h⟩ := bind_ok_iff.mp h
  obtain ⟨extra, hextra, -⟩ := bind_ok_iff.mp h
  have hall := exists_pushes_iff.mp ⟨extra, hextra⟩
  intro name hname
  obtain ⟨bytes, hbytes⟩ := hall name hname
  exact exists_of_extraBytes hbytes

theorem selfCheck_of_agrees {signerPayload : Value} {payload : ExtrinsicPayload}
    (h : walletSigningDataFromJson signerPayload = .ok payload.signingData) :
    selfCheck signerPayload payload = .ok ⟨payload, signerPayload, h⟩ := by
  unfold selfCheck
  split
  case h_1 e he =>
    rw [h] at he
    cases he
  case h_2 walletSigningData hok =>
    rw [h] at hok
    obtain rfl := Except.ok.inj hok
    rw [dif_neg (not_not.mpr rfl)]

/-- From what `prepare` writes the wallet gets the SDK's signing data, and the self-check
    passes. -/
theorem walletSigningData_agrees (accountAddress : String) (blockHeight : Nat)
    (payload : ExtrinsicPayload) :
    walletSigningDataFromJson
        (signerPayloadJson signedExtensions accountAddress blockHeight payload)
      = .ok payload.signingData ∧
    ∃ prepared : Prepared,
      selfCheck (signerPayloadJson signedExtensions accountAddress blockHeight payload) payload
        = .ok prepared ∧ prepared.payload = payload := by
  have h := walletSigningDataFromJson_signerPayload accountAddress blockHeight payload
  exact ⟨h, _, selfCheck_of_agrees h, rfl⟩

/-- What is handed to the wallet for refined options. -/
def Prepared.ofRefined (client : Client) (accountAddress : String) (call : ExtrinsicCall)
    (refined : RefinedOptions) : Prepared where
  payload := client.chain.payloadOf call refined
  signerPayload := signerPayloadJson signedExtensions accountAddress
    refined.mortality.blockHeight (client.chain.payloadOf call refined)
  agrees := walletSigningDataFromJson_signerPayload _ _ _

/-- `prepare` fails only where the options are not refined. -/
theorem prepare_eq (client : Client) (accountAddress : String) (accountId : AccountId)
    (appId : U32) (nonce : Option U32) (data : Vec UInt8) :
    prepare client accountAddress accountId appId nonce data =
      Except.map (Prepared.ofRefined client accountAddress
          (ExtrinsicCall.ofTyped (DataAvailability.Tx.SubmitData.mk data))) <$>
        Options.build { appId := some appId, mortality := none, nonce, tip := none }
          client accountId none := by
  unfold prepare
  rw [map_eq_pure_bind]
  refine bind_congr fun answer => ?_
  cases answer with
  | error e => rfl
  | ok refined =>
    have hcheck := selfCheck_of_agrees (walletSigningDataFromJson_signerPayload accountAddress
      refined.mortality.blockHeight (client.chain.payloadOf
        (ExtrinsicCall.ofTyped (DataAvailability.Tx.SubmitData.mk data)) refined))
    exact congrArg pure hcheck

end Wallet

end AvailRust
