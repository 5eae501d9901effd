/-
  How often a submitted call can be accepted by the node.

  The submissions of a run are read off its trace: which bytes were sent, whether the view
  that processed them accepted them, and what the client was told. `signAndSubmitCall` is at
  most once as long as it signs again only when nothing was accepted (`ResignsOnlyUnaccepted`),
  which is always so without retries. With retries it is not: an accepted submission whose
  response is lost is sent again, is stale by then, and the answer to that looks like a bad
  proof (`stale_resend_is_signed_again`).
-/
import AvailRust.Submission.Submit

namespace AvailRust

open Scale Dialogue

/-! ## What a trace says about submissions -/

/-- The view that processed the request of a move, if it reached the node. -/
def Event.reached : Event → Option View
  | .answer view => some view
  | .fail reached _ => reached

/-- The node takes the extrinsic, whether or not its answer arrives. -/
def Event.accepts (bytes : Bytes) (e : Event) : Bool :=
  match e.reached with
  | none => false
  | some view =>
    match view (.submitExtrinsic bytes) with
    | .ok _ => true
    | .error _ => false

/-- The submissions of a trace with the moves that met them, latest first. -/
def submissions (trace : List (Request × Event)) : List (Bytes × Event) :=
  trace.filterMap fun p =>
    match p.1 with
    | .submitExtrinsic bytes => some (bytes, p.2)
    | _ => none

def accepted (trace : List (Request × Event)) : List Bytes :=
  ((submissions trace).filter fun p => p.2.accepts p.1).map Prod.fst

/-- What the client was told last about the bytes it submitted. -/
def lastResponse (bytes : Bytes) (trace : List (Request × Event)) : Option (Except RpcError H256) :=
  ((submissions trace).find? fun p => p.1 = bytes).map fun p =>
    p.2.response (.submitExtrinsic bytes)

/-- The nonce of a signed extrinsic, read from its bytes. -/
def nonceOf (bytes : Bytes) : Option U32 :=
  match (decode : Decoder GenericExtrinsic) bytes with
  | .ok (ext, _) => ext.signature.map fun signed => signed.extra.nonce
  | .error _ => none

/-- No two accepted extrinsics differ in their nonce, so at most one is executed. -/
def AtMostOnce (trace : List (Request × Event)) : Prop :=
  ∀ a ∈ accepted trace, ∀ b ∈ accepted trace, nonceOf a = nonceOf b

/-- The bytes that were signed first. -/
def firstSigned (trace : List (Request × Event)) : Option Bytes :=
  (submissions trace).getLast?.map Prod.fst

/-- If the node accepted what was signed first, this is not in the end answered with what looks
    like a bad proof. -/
def ResignsOnlyUnaccepted (trace : List (Request × Event)) : Prop :=
  ∀ bytes ∈ firstSigned trace, bytes ∈ accepted trace → ∀ e,
    lastResponse bytes trace = some (.error e) → Chain.isBadProofLikeError (.rpcError e) = false

/-- A failure of the transport does not look like a bad proof. -/
def TransportErrorsDiffer (trace : List (Request × Event)) : Prop :=
  ∀ p ∈ trace, ∀ reached e, p.2 = .fail reached e →
    Chain.isBadProofLikeError (.rpcError e) = false

/-- What a returned handle says is what was accepted. -/
def Describes (crypto : SpCryptoHashing) (signer : Keypair) (txCall : ExtrinsicCall)
    (trace : List (Request × Event)) (s : SubmittedTransaction) : Prop :=
  let payload : ExtrinsicPayload :=
    { call := txCall, extra := ExtrinsicExtra.ofRefined s.options, additional := s.additional }
  let bytes := encode (Chain.signPayload crypto signer payload)
  (∃ view, (bytes, Event.answer view) ∈ submissions trace ∧
    view (.submitExtrinsic bytes) = .ok s.extHash) ∧
  ∀ other ∈ accepted trace, other = bytes

/-! ## Requests that submit nothing -/

/-- What is submitted in a world so far. -/
def submitted (w : RpcWorld) : List (Bytes × Event) := submissions w.trace

theorem call_keeps_submitted {r : Request} (h : ∀ bytes, r ≠ .submitExtrinsic bytes) :
    Keeps submitted (call r) := by
  intro w x w' hcall
  obtain ⟨e, -, ht, -⟩ := call_eq_some.mp hcall
  unfold submitted submissions
  rw [ht, List.filterMap_cons_none]
  cases r with
  | submitExtrinsic bytes => exact absurd rfl (h bytes)
  | _ => rfl

theorem accountNonce_keeps (c : Chain) (account : AccountId) :
    Keeps submitted (c.accountNonce account) := by
  refine (withRetryOnError_keeps
    (call_keeps_submitted (r := .accountNextIndex account) nofun) _).bind fun x => ?_
  cases x with
  | error e => exact .pure _
  | ok nonce => exact .pure _

theorem blockHash_keeps (c : Chain) (n : Option Nat) : Keeps submitted (c.blockHash n) :=
  withRetryOnErrorAndNone_keeps (call_keeps_submitted (r := .getBlockHash n) nofun) _ _

theorem toHash_keeps (c : Chain) (blockId : HashStringNumber) :
    Keeps submitted (c.toHash blockId) := by
  cases blockId with
  | hash hash => exact .pure _
  | string text =>
    simp only [Chain.toHash]
    split
    · exact .pure _
    · exact .pure _
  | number height =>
    refine (blockHash_keeps c (some height)).bind fun x => ?_
    match x with
    | .error e => exact .pure _
    | .ok none => exact .pure _
    | .ok (some hash) => exact .pure _

theorem blockHeader_keeps (c : Chain) (blockId : Option HashStringNumber) :
    Keeps submitted (c.blockHeader blockId) := by
  have hresolve : Keeps submitted (c.toHashOption blockId) := by
    cases blockId with
    | none => exact .pure _
    | some blockId =>
      refine (toHash_keeps c blockId).bind fun x => ?_
      cases x with
      | error e => exact .pure _
      | ok hash => exact .pure _
  refine hresolve.bind fun x => ?_
  cases x with
  | error e => exact .pure _
  | ok hash =>
    refine (withRetryOnErrorAndNone_keeps
      (call_keeps_submitted (r := .getHeader hash) nofun) _ _).bind fun y => ?_
    cases y with
    | error e => exact .pure _
    | ok header => exact .pure _

theorem finalizedHeader_keeps (f : Finalized) : Keeps submitted f.blockHeader := by
  have hinfo : Keeps submitted f.blockInfo :=
    withRetryOnError_keeps (call_keeps_submitted (r := .latestBlockInfo false) nofun) _
  refine (hinfo.bind fun x => .pure _).bind fun x => ?_
  cases x with
  | error e => exact .pure _
  | ok hash =>
    refine (blockHeader_keeps _ _).bind fun y => ?_
    match y with
    | .error e => exact .pure _
    | .ok none => exact .pure _
    | .ok (some header) => exact .pure _

theorem fromPeriod_keeps (client : Client) (period : Nat) :
    Keeps submitted (RefinedMortality.fromPeriod client period) := by
  refine (finalizedHeader_keeps _).bind fun x => ?_
  cases x with
  | error e => exact .pure _
  | ok header =>
    refine (blockHash_keeps _ _).bind fun y => ?_
    match y with
    | .error e => exact .pure _
    | .ok none => exact .pure _
    | .ok (some hash) => exact .pure _

theorem build_keeps (options : Options) (client : Client) (account : AccountId)
    (retry : Option Bool) : Keeps submitted (options.build client account retry) := by
  have hnonce : Keeps submitted (options.buildNonce client account retry) := by
    unfold Options.buildNonce
    split
    · exact .pure _
    · exact accountNonce_keeps _ _
  have hmortality : ∀ m, Keeps submitted (Options.buildMortality client m) := by
    intro m
    cases m with
    | period p => exact fromPeriod_keeps client p
    | full m => exact .pure _
  refine hnonce.bind fun x => ?_
  cases x with
  | error e => exact .pure _
  | ok nonce =>
    refine (hmortality _).bind fun y => ?_
    cases y with
    | error e => exact .pure _
    | ok mortality => exact .pure _

/-! ## One round of signing and submitting -/

/-- The bytes of a call signed under refined options. -/
def signedBytes (c : Chain) (crypto : SpCryptoHashing) (signer : Keypair) (txCall : ExtrinsicCall)
    (refined : RefinedOptions) : Bytes :=
  encode (Chain.signPayload crypto signer
    { call := txCall
      extra := ExtrinsicExtra.ofRefined refined
      additional := c.additionalOf refined })

/-- The handle a round returns for refined options. -/
def handleOf (c : Chain) (signer : Keypair) (refined : RefinedOptions) (hash : H256) :
    SubmittedTransaction where
  client := c.client
  extHash := hash
  accountId := signer.publicKey
  options := refined
  additional := c.additionalOf refined

/-- The submissions of the same bytes, latest first. -/
def attemptsOf (bytes : Bytes) (last : Event) (earlier : List Event) : List (Bytes × Event) :=
  (bytes, last) :: earlier.map (bytes, ·)

theorem asked_submitted {bytes : Bytes} {w w' : RpcWorld}
    {x : Except RpcError (Request.submitExtrinsic bytes).Response}
    (h : Asked (.submitExtrinsic bytes) isError w x w') :
    ∃ last earlier, submitted w' = attemptsOf bytes last earlier ++ submitted w ∧
      Event.response (.submitExtrinsic bytes) last = x := by
  induction h with
  | last hs ht =>
    rename_i e
    exact ⟨e, [], by unfold submitted; rw [ht]; rfl, rfl⟩
  | again hs ht he rest ih =>
    rename_i e x
    obtain ⟨last, earlier, hsub, hx⟩ := ih
    refine ⟨last, earlier ++ [e], ?_, hx⟩
    rw [hsub]
    unfold submitted attemptsOf
    rw [ht]
    simp [submissions]

theorem submit_submitted {c : Chain} {ext : GenericExtrinsic} {w w' : RpcWorld}
    {x : Except RpcError H256} (h : c.submit ext w = some (x, w')) :
    ∃ last earlier, submitted w' = attemptsOf (encode ext) last earlier ++ submitted w ∧
      Event.response (.submitExtrinsic (encode ext)) last = x ∧
      (c.shouldRetryOnError = false → earlier = []) := by
  by_cases hretry : c.shouldRetryOnError = false
  · rw [Chain.submit, hretry] at h
    obtain ⟨e, -, ht, rfl⟩ := call_eq_some.mp h
    exact ⟨e, [], by unfold submitted; rw [ht]; rfl, rfl, fun _ => rfl⟩
  · obtain ⟨last, earlier, hsub, hx⟩ := asked_submitted (withRetryOnError_asked h)
    exact ⟨last, earlier, hsub, hx, fun h => absurd h hretry⟩

/-- What one round adds to the submissions, and what it returns. -/
theorem once_cases {c : Chain} {crypto : SpCryptoHashing} {signer : Keypair}
    {txCall : ExtrinsicCall} {options : Options} {w w' : RpcWorld}
    {r : Except Error SubmittedTransaction}
    (h : c.signAndSubmitCallOnce crypto signer signer.publicKey txCall options w = some (r, w')) :
    (submitted w' = submitted w ∧ ∃ e, r = .error e) ∨
    ∃ refined last earlier,
      submitted w' = attemptsOf (signedBytes c crypto signer txCall refined) last earlier
        ++ submitted w ∧
      (c.shouldRetryOnError = false → earlier = []) ∧
      ((∃ e,
          last.response (.submitExtrinsic (signedBytes c crypto signer txCall refined)) = .error e
          ∧ r = .error (.rpcError e)) ∨
       (∃ hash, last.response (.submitExtrinsic (signedBytes c crypto signer txCall refined))
          = .ok hash ∧ r = .ok (handleOf c signer refined hash))) := by
  obtain ⟨built, w1, hbuild, h⟩ := bind_eq_some.mp h
  have hkeeps := build_keeps _ _ _ _ _ _ _ hbuild
  cases built with
  | error e =>
    obtain ⟨rfl, rfl⟩ := pure_eq_some.mp h
    exact .inl ⟨hkeeps, e, rfl⟩
  | ok refined =>
    obtain ⟨x, w2, hsubmit, h⟩ := bind_eq_some.mp h
    obtain ⟨last, earlier, hsub, hresp, hone⟩ := submit_submitted hsubmit
    rw [hkeeps] at hsub
    cases x with
    | error e =>
      obtain ⟨rfl, rfl⟩ := pure_eq_some.mp h
      exact .inr ⟨refined, last, earlier, hsub, hone, .inl ⟨e, hresp, rfl⟩⟩
    | ok hash =>
      obtain ⟨rfl, rfl⟩ := pure_eq_some.mp h
      exact .inr ⟨refined, last, earlier, hsub, hone, .inr ⟨hash, hresp, rfl⟩⟩

/-! ## The whole submission -/

theorem mem_accepted {trace : List (Request × Event)} {a : Bytes} :
    a ∈ accepted trace ↔ ∃ e, (a, e) ∈ submissions trace ∧ e.accepts a = true := by
  simp only [accepted, List.mem_map, List.mem_filter, Prod.exists]
  constructor
  · rintro ⟨b, e, h, rfl⟩
    exact ⟨e, h⟩
  · rintro ⟨e, h⟩
    exact ⟨a, e, h, rfl⟩

theorem mem_attemptsOf {bytes a : Bytes} {last e : Event} {earlier : List Event}
    (h : (a, e) ∈ attemptsOf bytes last earlier) : a = bytes ∧ e ∈ last :: earlier := by
  simp only [attemptsOf, List.mem_cons, Prod.mk.injEq, List.mem_map] at h
  obtain ⟨rfl, rfl⟩ | ⟨e', he, rfl, rfl⟩ := h
  · exact ⟨rfl, by simp⟩
  · exact ⟨rfl, by simp [he]⟩

/-- An accepted submission that is answered with an error met a failing transport. -/
theorem transport_of_accepts {e : Event} {bytes : Bytes} {err : RpcError}
    (hacc : e.accepts bytes = true) (hresp : e.response (.submitExtrinsic bytes) = .error err) :
    ∃ reached, e = .fail reached err := by
  cases e with
  | answer view =>
    have hview : view (.submitExtrinsic bytes) = .error err := hresp
    simp [Event.accepts, Event.reached, hview] at hacc
  | fail reached error =>
    cases hresp
    exact ⟨reached, rfl⟩

theorem lastResponse_attemptsOf {trace : List (Request × Event)} {bytes other : Bytes}
    {last last' : Event} {earlier earlier' : List Event} (hne : bytes ≠ other)
    (h : submissions trace = attemptsOf other last' earlier' ++ attemptsOf bytes last earlier) :
    lastResponse bytes trace = some (last.response (.submitExtrinsic bytes)) := by
  have hskip : (attemptsOf other last' earlier').find? (fun p => p.1 = bytes) = none := by
    rw [List.find?_eq_none]
    rintro ⟨a, e⟩ hmem
    obtain ⟨rfl, -⟩ := mem_attemptsOf hmem
    simpa using hne.symm
  have hfirst :
      (attemptsOf bytes last earlier).find? (fun p => p.1 = bytes) = some (bytes, last) := by
    simp [attemptsOf]
  rw [lastResponse, h, List.find?_append, hskip, Option.none_or, hfirst]
  rfl

theorem firstSigned_of_attempts {trace : List (Request × Event)} {bytes : Bytes} {last : Event}
    {earlier : List Event} {later : List (Bytes × Event)}
    (h : submissions trace = later ++ attemptsOf bytes last earlier) :
    firstSigned trace = some bytes := by
  have hne : attemptsOf bytes last earlier ≠ [] := List.cons_ne_nil _ _
  have hmem := List.getLast_mem hne
  have hfirst := (mem_attemptsOf hmem).1
  rw [firstSigned, h, List.getLast?_append, List.getLast?_eq_some_getLast hne, Option.some_or,
    Option.map_some, hfirst]

/-- What has to hold of a run for it to be at most once: without retries, that a lost connection
    does not look like a bad proof, and otherwise that the answer to what was signed first does
    not, if that was accepted. -/
def SafeToResign (c : Chain) (trace : List (Request × Event)) : Prop :=
  (c.shouldRetryOnError = false ∧ TransportErrorsDiffer trace) ∨ ResignsOnlyUnaccepted trace

/-- If the first round ended in what looks like a bad proof and a second one submitted, then
    what was accepted are the bytes of the second. -/
theorem accepted_second {c : Chain} {trace : List (Request × Event)} {first second : Bytes}
    {last last' : Event} {earlier earlier' : List Event} {err : RpcError}
    (hsafe : SafeToResign c trace)
    (hsub : submissions trace = attemptsOf second last' earlier' ++ attemptsOf first last earlier)
    (hone : c.shouldRetryOnError = false → earlier = [])
    (hlast : Event.response (.submitExtrinsic first) last = .error err)
    (hbad : Chain.isBadProofLikeError (.rpcError err) = true) :
    ∀ a ∈ accepted trace, a = second := by
  intro a ha
  obtain ⟨e, hmem, hacc⟩ := mem_accepted.mp ha
  rw [hsub, List.mem_append] at hmem
  obtain hmem | hmem := hmem
  · exact (mem_attemptsOf hmem).1
  · obtain ⟨rfl, he⟩ := mem_attemptsOf hmem
    by_contra hne
    obtain ⟨hoff, htransport⟩ | hresign := hsafe
    · -- the only attempt of the first round met a failing transport
      rw [hone hoff, List.mem_singleton] at he
      subst he
      obtain ⟨reached, rfl⟩ := transport_of_accepts hacc hlast
      have hin : (a, Event.fail reached err) ∈ submissions trace := by
        rw [hsub]; simp [attemptsOf]
      obtain ⟨p, hp, hpe⟩ := List.mem_filterMap.mp hin
      have hfail : p.2 = .fail reached err := by
        split at hpe
        · exact (Prod.mk.inj (Option.some.inj hpe)).2
        · cases hpe
      rw [htransport p hp reached err hfail] at hbad
      cases hbad
    · have hresp := lastResponse_attemptsOf hne hsub
      rw [hlast] at hresp
      rw [hresign a (firstSigned_of_attempts hsub) ha err hresp] at hbad
      cases hbad

theorem atMostOnce_of_all {trace : List (Request × Event)} {bytes : Bytes}
    (h : ∀ a ∈ accepted trace, a = bytes) : AtMostOnce trace := by
  intro a ha b hb
  rw [h a ha, h b hb]

theorem all_of_attempts {trace : List (Request × Event)} {bytes : Bytes} {last : Event}
    {earlier : List Event} (h : submissions trace = attemptsOf bytes last earlier) :
    ∀ a ∈ accepted trace, a = bytes := by
  intro a ha
  obtain ⟨e, hmem, -⟩ := mem_accepted.mp ha
  rw [h] at hmem
  exact (mem_attemptsOf hmem).1

theorem mem_of_attempts {trace : List (Request × Event)} {bytes : Bytes} {last : Event}
    {earlier : List Event} (h : submissions trace = attemptsOf bytes last earlier) :
    (bytes, last) ∈ submissions trace := by
  rw [h]
  exact List.mem_cons_self

theorem atMostOnce_of_none {trace : List (Request × Event)} (h : submissions trace = []) :
    AtMostOnce trace := by
  intro a ha
  obtain ⟨e, hmem, -⟩ := mem_accepted.mp ha
  rw [h] at hmem
  cases hmem

/-- A round whose bytes are all that was accepted. -/
theorem round_done {c : Chain} {crypto : SpCryptoHashing} {signer : Keypair}
    {txCall : ExtrinsicCall} {trace : List (Request × Event)} {refined : RefinedOptions}
    {last : Event} {r : Except Error SubmittedTransaction}
    (hin : (signedBytes c crypto signer txCall refined, last) ∈ submissions trace)
    (hall : ∀ a ∈ accepted trace, a = signedBytes c crypto signer txCall refined)
    (hr : (∃ e, Event.response (.submitExtrinsic (signedBytes c crypto signer txCall refined)) last
          = .error e ∧ r = .error (.rpcError e)) ∨
      (∃ hash, Event.response (.submitExtrinsic (signedBytes c crypto signer txCall refined)) last
          = .ok hash ∧ r = .ok (handleOf c signer refined hash))) :
    AtMostOnce trace ∧ ∀ s, r = .ok s → Describes crypto signer txCall trace s := by
  refine ⟨atMostOnce_of_all hall, fun s hs => ?_⟩
  obtain ⟨e, -, rfl⟩ | ⟨hash, hresp, rfl⟩ := hr
  · cases hs
  · cases hs
    refine ⟨?_, hall⟩
    cases last with
    | answer view => exact ⟨view, hin, hresp⟩
    | fail reached e => cases hresp

/-- Whatever the node does, a run that never signs again after an acceptance has at most one
    extrinsic accepted, and a handle it returns describes that extrinsic. -/
theorem signAndSubmitCall_atMostOnce (c : Chain) (crypto : SpCryptoHashing) (signer : Keypair)
    (txCall : ExtrinsicCall) (options : Options) (script : List Event)
    (r : Except Error SubmittedTransaction) (w' : RpcWorld)
    (h : c.signAndSubmitCall crypto signer txCall options (start Request script) = some (r, w'))
    (hsafe : SafeToResign c w'.trace) :
    AtMostOnce w'.trace ∧ ∀ s, r = .ok s → Describes crypto signer txCall w'.trace s := by
  obtain ⟨r1, w1, hfirst, h⟩ := bind_eq_some.mp h
  have hround1 := once_cases hfirst
  simp only [show submitted (start Request script) = [] from rfl, List.append_nil] at hround1
  cases r1 with
  | ok value =>
    obtain ⟨rfl, rfl⟩ := pure_eq_some.mp h
    obtain ⟨-, e, hr⟩ | ⟨refined, last, earlier, hsub, -, hr⟩ := hround1
    · cases hr
    · exact round_done (mem_of_attempts hsub) (all_of_attempts hsub) hr
  | error err =>
    simp only at h
    split at h
    case isFalse =>
      obtain ⟨rfl, rfl⟩ := pure_eq_some.mp h
      refine ⟨?_, nofun⟩
      obtain ⟨hsub, -⟩ | ⟨refined, last, earlier, hsub, -⟩ := hround1
      · exact atMostOnce_of_none hsub
      · exact atMostOnce_of_all (all_of_attempts hsub)
    case isTrue hbad =>
      have hround2 := once_cases h
      obtain ⟨hsub1, -⟩ | ⟨first, last, earlier, hsub1, hone, hfin⟩ := hround1
      · -- nothing was submitted in the first round
        simp only [hsub1, List.append_nil] at hround2
        obtain ⟨hsub, e, rfl⟩ | ⟨refined, last, earlier, hsub, -, hr⟩ := hround2
        · exact ⟨atMostOnce_of_none hsub, nofun⟩
        · exact round_done (mem_of_attempts hsub) (all_of_attempts hsub) hr
      · obtain ⟨e, hlast, he⟩ | ⟨hash, -, he⟩ := hfin
        case inr => cases he
        cases he
        simp only [hsub1] at hround2
        obtain ⟨hsub, e', rfl⟩ | ⟨second, last', earlier', hsub, -, hr⟩ := hround2
        · exact ⟨atMostOnce_of_all (all_of_attempts hsub), nofun⟩
        · have hin : (signedBytes c crypto signer txCall second, last') ∈ submissions w'.trace := by
            change submissions w'.trace = _ at hsub
            rw [hsub]
            exact List.mem_append_left _ List.mem_cons_self
          exact round_done hin (accepted_second hsafe hsub hone hlast hbad) hr

/-! ## A node that keeps the rules, and a run that is not at most once -/

/-- What a node checks an extrinsic against. -/
structure NodeRules where
  verify : AccountId → Bytes → FixedBytes 64 → Bool
  specVersion : U32
  txVersion : U32
  genesisHash : H256

/-- The extrinsic is signed over the node's own data and its nonce is not below the account's. -/
def NodeRules.executable (rules : NodeRules) (crypto : SpCryptoHashing) (v : View) (bytes : Bytes) :
    Bool :=
  match (decode : Decoder GenericExtrinsic) bytes, v (.latestBlockInfo true) with
  | .ok (⟨some ⟨.id account, .sr25519 signature, extra⟩, txCall⟩, []), .ok best =>
    match v (.getBlockHash (some (extra.era.birth best.height))),
      v (.systemAccount account best.hash) with
    | .ok (some forkHash), .ok info =>
      let additional : ExtrinsicAdditional :=
        { specVersion := rules.specVersion
          txVersion := rules.txVersion
          genesisHash := rules.genesisHash
          forkHash }
      rules.verify account (ExtrinsicPayload.message crypto ⟨txCall, extra, additional⟩) signature
        && decide ((Option.getD info default).nonce ≤ extra.nonce)
    | _, _ => false
  | _, _ => false

/-- A view accepts executable extrinsics only, and answers others with code 1010. -/
def NodeRules.keptBy (rules : NodeRules) (crypto : SpCryptoHashing) (bytes : Bytes)
    (v : View) : Bool :=
  match v (.submitExtrinsic bytes) with
  | .ok _ => rules.executable crypto v bytes
  | .error e =>
    rules.executable crypto v bytes || containsLower "\"code\":1010" e.toText

/-- `TransportErrorsDiffer`, as a check. -/
def transportErrorsDiffer (trace : List (Request × Event)) : Bool :=
  trace.all fun p =>
    match p.2 with
    | .answer _ => true
    | .fail _ e => !Chain.isBadProofLikeError (.rpcError e)

theorem transportErrorsDiffer_iff {trace : List (Request × Event)} :
    transportErrorsDiffer trace = true ↔ TransportErrorsDiffer trace := by
  simp only [transportErrorsDiffer, List.all_eq_true, TransportErrorsDiffer]
  constructor
  · intro h p hp reached e he
    have := h p hp
    rw [he] at this
    simpa using this
  · intro h p hp
    split
    · rfl
    · rename_i reached e he
      simp [h p hp reached e he]

/-- Every view that processed a submission keeps the rules, and no failure of the transport
    looks like a bad proof. -/
def NodeRules.lawful (rules : NodeRules) (crypto : SpCryptoHashing)
    (trace : List (Request × Event)) : Bool :=
  (submissions trace).all (fun p => p.2.reached.all (rules.keptBy crypto p.1)) &&
    transportErrorsDiffer trace

namespace StaleResend

/-- Digests and signatures that are easy to evaluate. -/
def crypto : SpCryptoHashing := noCrypto

def signer : Keypair where
  publicKey := FixedBytes.fill 32 1
  sign message := ⟨(message ++ List.replicate 64 0).take 64, by simp⟩

def rules : NodeRules where
  verify _ message signature := signature = signer.sign message
  specVersion := Client.devnet.specVersion
  txVersion := Client.devnet.transactionVersion
  genesisHash := Client.devnet.genesisHash

def header : AvailHeader where
  parentHash := FixedBytes.fill 32 9
  number := 10
  stateRoot := FixedBytes.fill 32 0
  extrinsicsRoot := FixedBytes.fill 32 0
  digest := ⟨Vec.nil⟩
  extension := .V3 ⟨⟨0, Vec.nil⟩, ⟨0, 0, Vec.nil, FixedBytes.fill 32 0⟩⟩

/-- A chain finalized at height 10 where the account has a nonce. -/
def chainView (nonce : U32) (height : Nat) : View
  | .latestBlockInfo true => .ok ⟨FixedBytes.fill 32 (UInt8.ofNat height), height⟩
  | .latestBlockInfo false => .ok ⟨FixedBytes.fill 32 10, 10⟩
  | .getBlockHash (some n) => .ok (some (FixedBytes.fill 32 (UInt8.ofNat n)))
  | .getHeader _ => .ok (some header)
  | .systemAccount _ _ => .ok (some ⟨nonce, 0, 1, 0, ⟨0, 0, 0, 0⟩⟩)
  | .accountNextIndex _ => .ok nonce
  | _ => .error (.rpc "Method not found")

/-- The node over that chain: it takes what is executable. -/
def nodeView (nonce : U32) (height : Nat) : View
  | .submitExtrinsic bytes =>
    if rules.executable crypto (chainView nonce height) bytes then .ok (FixedBytes.fill 32 7)
    else .error (.rpc "ErrorObject \"code\":1010, Transaction is outdated")
  | r => chainView nonce height r

/-- The response to the first submission is lost; by the time it is sent again it is in block
    11 and stale, and every resend is answered so. -/
def script : List Event :=
  List.replicate 4 (.answer (nodeView 0 10)) ++
    [.fail (some (nodeView 0 10)) (.rpc "connection closed")] ++
    List.replicate 10 (.answer (nodeView 1 11))

def run (c : Chain) : Option (Except Error SubmittedTransaction × RpcWorld) :=
  c.signAndSubmitCall crypto signer ⟨29, 1, [4, 0xAA]⟩ default (start Request script)

end StaleResend

open StaleResend in
theorem signAndSubmitCall_atMostOnce_without_retries :
    ∃ r w', run ((Chain.new Client.devnet).retryOn (some false) none) = some (r, w') ∧
      AtMostOnce w'.trace ∧
      ∀ s, r = .ok s → Describes crypto signer ⟨29, 1, [4, 0xAA]⟩ w'.trace s := by
  have hcheck : ((run ((Chain.new Client.devnet).retryOn (some false) none)).map
      fun p => transportErrorsDiffer p.2.trace) = some true := by decide +kernel
  obtain ⟨⟨r, w'⟩, hrun, hdiffer⟩ := Option.map_eq_some_iff.mp hcheck
  exact ⟨r, w', hrun, signAndSubmitCall_atMostOnce _ _ _ _ _ _ r w' hrun
    (.inl ⟨rfl, transportErrorsDiffer_iff.mp hdiffer⟩)⟩

open StaleResend in
/-- With retries, a node that keeps the rules is made to accept the call under two nonces. -/
theorem stale_resend_is_signed_again :
    ¬ ∀ (rules : NodeRules) (c : Chain) (crypto : SpCryptoHashing) (signer : Keypair)
      (txCall : ExtrinsicCall) (options : Options) (script : List Event)
      (r : Except Error SubmittedTransaction) (w' : RpcWorld), options.nonce = none →
      c.signAndSubmitCall crypto signer txCall options (start Request script) = some (r, w') →
      rules.lawful crypto w'.trace = true →
      AtMostOnce w'.trace ∧ ∀ s, r = .ok s → Describes crypto signer txCall w'.trace s := by
  intro h
  have hcheck : ((run (Chain.new Client.devnet)).map fun p =>
      (rules.lawful crypto p.2.trace, (accepted p.2.trace).map nonceOf))
        = some (true, [some 1, some 0]) := by decide +kernel
  obtain ⟨⟨r, w'⟩, hrun, hdata⟩ := Option.map_eq_some_iff.mp hcheck
  obtain ⟨hlawful, hnonces⟩ := Prod.mk.inj hdata
  obtain ⟨a, b, hab⟩ : ∃ a b, accepted w'.trace = [a, b] := by
    match hacc : accepted w'.trace with
    | [] => simp [hacc] at hnonces
    | [a] => simp [hacc] at hnonces
    | [a, b] => exact ⟨a, b, rfl⟩
    | a :: b :: c :: rest => simp [hacc] at hnonces
  have honce := (h rules _ crypto signer _ default script r w' rfl hrun hlawful).1 a
    (by simp [hab]) b (by simp [hab])
  rw [hab] at hnonces
  simp only [List.map_cons, List.map_nil, List.cons.injEq, and_true] at hnonces
  rw [hnonces.1, hnonces.2] at honce
  exact absurd honce (by decide)

end AvailRust
