/-
  Signing and submitting a call.

  Submission is retried in two layers. `submit` sends the same bytes again after any error.
  `signAndSubmitCall` signs once more, with nonce and mortality read afresh, when the error it
  is left with looks like a bad proof.
-/
import AvailRust.Submission.Options

namespace AvailRust

open Scale

structure SubmittedTransaction where
  client : Client
  extHash : H256
  accountId : AccountId
  options : RefinedOptions
  additional : ExtrinsicAdditional

/-- `str::contains` on the lower-cased text of an error. -/
def containsLower (pattern text : String) : Bool :=
  (text.toList.map Char.toLower).tails.any (fun suffix => pattern.toList.isPrefixOf suffix)

namespace Chain

def optionsWithFreshMortality (options : Options) : Options :=
  match options.mortality with
  | some (.full m) => { options with mortality := some (.period m.period) }
  | _ => options

def isBadProofLikeError : Error → Bool
  | .rpcError e =>
    containsLower "\"code\":1010" e.toText || containsLower "bad signature" e.toText
      || containsLower "badproof" e.toText || containsLower "invalidtransaction::badproof" e.toText
  | _ => false

def submit (c : Chain) (ext : GenericExtrinsic) : Rpc (Except RpcError H256) :=
  withRetryOnError (call (.submitExtrinsic (encode ext))) c.shouldRetryOnError

def submitRaw (c : Chain) (ext : Bytes) : Rpc (Except RpcError H256) :=
  withRetryOnError (call (.submitExtrinsic ext)) c.shouldRetryOnError

/-- The extrinsic of a payload under the signer's key. -/
def signPayload (crypto : SpCryptoHashing) (signer : Keypair) (payload : ExtrinsicPayload) :
    GenericExtrinsic :=
  GenericExtrinsic.new signer.publicKey (payload.sign crypto signer) payload

def signAndSubmitPayload (c : Chain) (crypto : SpCryptoHashing) (signer : Keypair)
    (payload : ExtrinsicPayload) : Rpc (Except RpcError H256) :=
  c.submit (signPayload crypto signer payload)

/-- What refined options sign besides the call. -/
def additionalOf (c : Chain) (options : RefinedOptions) : ExtrinsicAdditional where
  specVersion := c.client.specVersion
  txVersion := c.client.transactionVersion
  genesisHash := c.client.genesisHash
  forkHash := options.mortality.blockHash

/-- The payload of a call under refined options. -/
def payloadOf (c : Chain) (call : ExtrinsicCall) (refined : RefinedOptions) : ExtrinsicPayload where
  call := call
  extra := ExtrinsicExtra.ofRefined refined
  additional := c.additionalOf refined

def buildPayload (c : Chain) (account : AccountId) (call : ExtrinsicCall) (options : Options) :
    Rpc (Except Error ExtrinsicPayload) := do
  match ← (optionsWithFreshMortality options).build c.client account c.retryOnError with
  | .error e => pure (.error e)
  | .ok refinedOptions => pure (.ok (c.payloadOf call refinedOptions))

def buildExtrinsicFromCall (c : Chain) (crypto : SpCryptoHashing) (signer : Keypair)
    (call : ExtrinsicCall) (options : Options) : Rpc (Except Error GenericExtrinsic) := do
  match ← c.buildPayload signer.publicKey call (optionsWithFreshMortality options) with
  | .error e => pure (.error e)
  | .ok payload => pure (.ok (signPayload crypto signer payload))

def signAndSubmitCallOnce (c : Chain) (crypto : SpCryptoHashing) (signer : Keypair)
    (account : AccountId) (txCall : ExtrinsicCall) (options : Options) :
    Rpc (Except Error SubmittedTransaction) := do
  match ← options.build c.client account c.retryOnError with
  | .error e => pure (.error e)
  | .ok refinedOptions => do
    let extra := ExtrinsicExtra.ofRefined refinedOptions
    let additional := c.additionalOf refinedOptions
    match ← c.signAndSubmitPayload crypto signer { call := txCall, extra, additional } with
    | .error e => pure (.error (.rpcError e))
    | .ok txHash =>
      pure (.ok {
        client := c.client
        extHash := txHash
        accountId := account
        options := refinedOptions
        additional })

def signAndSubmitCall (c : Chain) (crypto : SpCryptoHashing) (signer : Keypair)
    (txCall : ExtrinsicCall) (options : Options) : Rpc (Except Error SubmittedTransaction) := do
  let options := optionsWithFreshMortality options
  let account := signer.publicKey
  match ← c.signAndSubmitCallOnce crypto signer account txCall options with
  | .ok value => pure (.ok value)
  | .error err =>
    if isBadProofLikeError err then
      c.signAndSubmitCallOnce crypto signer account txCall (optionsWithFreshMortality options)
    else pure (.error err)

end Chain

/-- A call with the client that is to submit it. -/
structure SubmittableTransaction where
  client : Client
  call : ExtrinsicCall
  retryOnError : Option Bool

namespace SubmittableTransaction

def new (client : Client) (call : ExtrinsicCall) : SubmittableTransaction := ⟨client, call, none⟩

def setRetryOnError (tx : SubmittableTransaction) (value : Option Bool) : SubmittableTransaction :=
  { tx with retryOnError := value }

def signAndSubmit (tx : SubmittableTransaction) (crypto : SpCryptoHashing) (signer : Keypair)
    (options : Options) : Rpc (Except Error SubmittedTransaction) :=
  (tx.client.chain.retryOn tx.retryOnError none).signAndSubmitCall crypto signer tx.call options

def sign (tx : SubmittableTransaction) (crypto : SpCryptoHashing) (signer : Keypair)
    (options : Options) : Rpc (Except Error GenericExtrinsic) :=
  (tx.client.chain.retryOn tx.retryOnError none).buildExtrinsicFromCall crypto signer tx.call
    options

end SubmittableTransaction

end AvailRust
