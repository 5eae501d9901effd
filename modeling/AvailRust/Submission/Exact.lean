/-
  Whether the options a caller gives are the ones that are signed.

  `Exact` says it of a payload and a state of the node: what is given appears in the payload, and
  what is missing is filled from that state. `View.refined` are the options that refinement gives
  in a state. Every entry point refines, but only after a full mortality is replaced by its
  period: the payload is exact if the mortality that the node gives for the period now has the era
  and the hash of the one that was given (`exact_iff`).
-/
import AvailRust.Submission.AtMostOnce
import AvailRust.Submission.Mortality

namespace AvailRust

open Scale Dialogue FinalizedChain
open Chain (openView openKey)

/-! ## What a state of the node gives -/

namespace View

def finalizedHeader (v : View) : Option AvailHeader := do
  let info ← (v (.latestBlockInfo false)).toOption
  (v (.getHeader (some info.hash))).toOption.join

/-- The mortality of `period` blocks a transaction gets in the state. -/
def mortality (v : View) (period : Nat) : Option RefinedMortality := do
  let header ← v.finalizedHeader
  let birth := RefinedMortality.birthOf (Era.mortal period header.number.val) header.number.val
  let blockHash ← (v (.getBlockHash (some birth))).toOption.join
  some { period, blockHash, blockHeight := birth }

def refinedMortality (v : View) : MortalityOption → Option RefinedMortality
  | .period period => v.mortality period
  | .full mortality => some mortality

def nonce (v : View) (account : AccountId) : Option U32 :=
  (v (.accountNextIndex account)).toOption

/-- The options as they are refined in the state. -/
def refined (v : View) (account : AccountId) (options : Options) : Option RefinedOptions := do
  let nonce ← options.nonce.or (v.nonce account)
  let mortality ← v.refinedMortality (options.mortality.getD (.period 32))
  some { appId := options.appId.getD 0, mortality, nonce, tip := options.tip.getD 0 }

end View

/-- The payload signs the options as they were given; the nonce and the mortality are those of the
    state where none was given, and then the tip and the application id are 0. -/
structure Exact (v : View) (account : AccountId) (options : Options) (p : ExtrinsicPayload) :
    Prop where
  nonce : options.nonce.or (v.nonce account) = some p.extra.nonce
  tip : p.extra.tip = options.tip.getD 0
  appId : p.extra.appId = options.appId.getD 0
  mortality : ∃ m, v.refinedMortality (options.mortality.getD (.period 32)) = some m ∧
    p.extra.era = Era.mortal m.period m.blockHeight ∧ p.additional.forkHash = m.blockHash

/-- A full mortality has the era and the hash of the one the state gives for its period. -/
def Fresh (v : View) (options : Options) : Prop :=
  ∀ m, options.mortality = some (.full m) → ∃ m', v.mortality m.period = some m' ∧
    Era.mortal m'.period m'.blockHeight = Era.mortal m.period m.blockHeight ∧
    m'.blockHash = m.blockHash

/-! ## Programs against one state -/

/-- The node is in one state: it answers from that, or a request fails. -/
def InState (v : View) (script : List Event) : Prop := Feed (fun _ u => u = v) 0 script 0

theorem inState_replicate (v : View) (k : Nat) : InState v (List.replicate k (.answer v)) :=
  Feed.settled fun _ he => ⟨v, List.eq_of_mem_replicate he, rfl⟩

variable {ε ε' α β : Type} {v : View} {account : AccountId}

/-- In the state, what `m` returns is `good` if it does not fail. -/
def Reads (v : View) (m : Rpc (Except ε α)) (good : α → Prop) : Prop :=
  ∀ w r w', InState v w.script → m w = some (r, w') →
    InState v w'.script ∧ ∀ x, r = .ok x → good x

theorem Asked.inState {r : Request} {retried : Except RpcError r.Response → Bool}
    {w w' : RpcWorld} {x : Except RpcError r.Response} (h : Asked r retried w x w')
    (hw : InState v w.script) : InState v w'.script := by
  obtain ⟨g, -, hw', -⟩ := h.fed hw
  obtain rfl : g = 0 := Nat.le_zero.mp hw'.le
  exact hw'

namespace Reads

theorem pure {r : Except ε α} {good : α → Prop} (h : ∀ x, r = .ok x → good x) :
    Reads v (Pure.pure r) good := by
  intro w r' w' hw hrun
  obtain ⟨rfl, rfl⟩ := pure_eq_some.mp hrun
  exact ⟨hw, h⟩

theorem fail (e : ε) {good : α → Prop} : Reads v (Pure.pure (.error e)) good :=
  pure fun _ h => by cases h

theorem of_asked {r : Request} {m : Rpc (Except RpcError r.Response)}
    {retried : Except RpcError r.Response → Bool}
    (hm : ∀ w x w', m w = some (x, w') → Asked r retried w x w') :
    Reads v m (fun x => v r = .ok x) := by
  intro w x w' hw hrun
  refine ⟨(hm w x w' hrun).inState hw, ?_⟩
  obtain ⟨g, -, -, -, hx⟩ := (hm w x w' hrun).fed hw
  rintro y rfl
  rcases hx with ⟨err, herr⟩ | ⟨u, rfl, hu⟩
  · cases herr
  · exact hu.symm

theorem bind {m : Rpc (Except ε α)} {k : Except ε α → Rpc (Except ε' β)} {P : α → Prop}
    {Q : β → Prop} (hm : Reads v m P) (herror : ∀ e, ∃ e', k (.error e) = Pure.pure (.error e'))
    (hok : ∀ x, P x → Reads v (k (.ok x)) Q) : Reads v (m >>= k) Q := by
  intro w r w' hw hrun
  obtain ⟨x, w1, hx, hrun⟩ := bind_eq_some.mp hrun
  obtain ⟨hw1, hgood⟩ := hm w x w1 hw hx
  cases x with
  | error e =>
    obtain ⟨e', he⟩ := herror e
    rw [he] at hrun
    obtain ⟨rfl, rfl⟩ := pure_eq_some.mp hrun
    exact ⟨hw1, nofun⟩
  | ok x => exact hok x (hgood x rfl) w1 r w' hw1 hrun

end Reads

theorem finalizedHeader_reads (client : Client) :
    Reads v client.finalized.blockHeader (fun header => v.finalizedHeader = some header) := by
  have hhash : Reads v client.finalized.blockHash
      (fun hash => ∃ info, v (.latestBlockInfo false) = .ok info ∧ info.hash = hash) := by
    refine Reads.bind (Reads.of_asked (r := .latestBlockInfo false) fun _ _ _ =>
      withRetryOnError_asked) (fun e => ⟨e, rfl⟩) fun info hinfo => ?_
    refine Reads.pure ?_
    rintro _ ⟨⟩
    exact ⟨info, hinfo, rfl⟩
  have hheader : ∀ hash, Reads v (client.finalized.chain.blockHeader (some (.hash hash)))
      (fun header => v (.getHeader (some hash)) = .ok header) := by
    intro hash
    simp only [Chain.blockHeader, Chain.toHashOption, Chain.toHash, pure_bind]
    refine Reads.bind (Reads.of_asked (r := .getHeader (some hash)) fun _ _ _ h =>
      attempts_asked sleepDuration.reverse (withRetryOnErrorAndNone_attempts h))
      (fun e => ⟨_, rfl⟩) fun header hheader => ?_
    refine Reads.pure ?_
    rintro _ ⟨⟩
    exact hheader
  refine Reads.bind hhash (fun e => ⟨_, rfl⟩) ?_
  rintro _ ⟨info, hinfo, rfl⟩
  refine Reads.bind (hheader info.hash) (fun e => ⟨_, rfl⟩) fun header hheader => ?_
  unfold View.finalizedHeader
  rw [hinfo]
  cases header with
  | none => exact Reads.fail _
  | some header =>
    refine Reads.pure ?_
    rintro _ ⟨⟩
    simp [Except.toOption, hheader]

theorem fromPeriod_reads (client : Client) (period : Nat) :
    Reads v (RefinedMortality.fromPeriod client period) (fun m => v.mortality period = some m) := by
  refine Reads.bind (finalizedHeader_reads client) (fun e => ⟨e, rfl⟩) fun header hheader => ?_
  let birth := RefinedMortality.birthOf (Era.mortal period header.number.val) header.number.val
  refine Reads.bind (Reads.of_asked (r := .getBlockHash (some birth)) fun _ _ _ =>
    Chain.blockHash_asked) (fun e => ⟨_, rfl⟩) fun hash hhash => ?_
  unfold View.mortality
  rw [hheader]
  cases hash with
  | none => exact Reads.fail _
  | some hash =>
    refine Reads.pure ?_
    rintro _ ⟨⟩
    simp only [Option.bind_eq_bind, Option.bind_some]
    rw [hhash]
    rfl

theorem build_reads (options : Options) (client : Client) (retry : Option Bool) :
    Reads v (options.build client account retry)
      (fun refined => v.refined account options = some refined) := by
  have hnonce : Reads v (options.buildNonce client account retry)
      (fun nonce => options.nonce.or (v.nonce account) = some nonce) := by
    unfold Options.buildNonce
    cases options.nonce with
    | some nonce =>
      refine Reads.pure ?_
      rintro _ ⟨⟩
      rfl
    | none =>
      refine Reads.bind (Reads.of_asked (r := .accountNextIndex account) fun _ _ _ =>
        withRetryOnError_asked) (fun e => ⟨_, rfl⟩) fun nonce hnonce => ?_
      refine Reads.pure ?_
      rintro _ ⟨⟩
      unfold View.nonce
      rw [hnonce]
      rfl
  have hmortality : ∀ m, Reads v (Options.buildMortality client m)
      (fun refined => v.refinedMortality m = some refined) := by
    intro m
    cases m with
    | period period => exact fromPeriod_reads client period
    | full m =>
      refine Reads.pure ?_
      rintro _ ⟨⟩
      rfl
  refine Reads.bind hnonce (fun e => ⟨e, rfl⟩) fun nonce hnonce => ?_
  refine Reads.bind (hmortality _) (fun e => ⟨e, rfl⟩) fun m hm => ?_
  refine Reads.pure ?_
  rintro _ ⟨⟩
  unfold View.refined
  rw [hnonce, Option.bind_eq_bind, Option.bind_some, hm]
  rfl

/-! ## What the entry points sign -/

theorem optionsWithFreshMortality_idem (options : Options) :
    Chain.optionsWithFreshMortality (Chain.optionsWithFreshMortality options)
      = Chain.optionsWithFreshMortality options := by
  rcases options with ⟨appId, (_ | _ | m), nonce, tip⟩ <;> rfl

theorem optionsWithFreshMortality_of_not_full {options : Options}
    (h : ¬ ∃ m, options.mortality = some (.full m)) :
    Chain.optionsWithFreshMortality options = options := by
  rcases options with ⟨appId, (_ | _ | m), nonce, tip⟩
  · rfl
  · rfl
  · exact absurd ⟨m, rfl⟩ h

variable {c : Chain} {crypto : SpCryptoHashing} {signer : Keypair} {call : ExtrinsicCall}
  {options : Options} {p : ExtrinsicPayload}

/-- A payload that `buildPayload` gives in the state. -/
def Built (v : View) (c : Chain) (account : AccountId) (call : ExtrinsicCall) (options : Options)
    (p : ExtrinsicPayload) : Prop :=
  ∃ w w', InState v w.script ∧ c.buildPayload account call options w = some (.ok p, w')

theorem built_of_build {refined : RefinedOptions} {w w' : RpcWorld} (hw : InState v w.script)
    (h : (Chain.optionsWithFreshMortality options).build c.client account c.retryOnError w
      = some (.ok refined, w')) :
    Built v c account call options (c.payloadOf call refined) :=
  ⟨w, w', hw, bind_eq_some.mpr ⟨_, _, h, rfl⟩⟩

theorem refined_of_built (h : Built v c account call options p) :
    ∃ refined, v.refined account (Chain.optionsWithFreshMortality options) = some refined ∧
      p = c.payloadOf call refined := by
  obtain ⟨w, w', hw, hrun⟩ := h
  obtain ⟨x, w1, hbuild, hrun⟩ := bind_eq_some.mp hrun
  obtain ⟨-, hgood⟩ := build_reads _ _ _ w x w1 hw hbuild
  cases x with
  | error e =>
    obtain ⟨h1, -⟩ := pure_eq_some.mp hrun
    cases h1
  | ok refined =>
    obtain ⟨h1, -⟩ := pure_eq_some.mp hrun
    cases h1
    exact ⟨refined, hgood refined rfl, rfl⟩

theorem refined_eq_some {refined : RefinedOptions} (h : v.refined account options = some refined) :
    options.nonce.or (v.nonce account) = some refined.nonce ∧
      v.refinedMortality (options.mortality.getD (.period 32)) = some refined.mortality ∧
      refined.tip = options.tip.getD 0 ∧ refined.appId = options.appId.getD 0 := by
  obtain ⟨nonce, hnonce, h⟩ := Option.bind_eq_some_iff.mp h
  obtain ⟨m, hm, h⟩ := Option.bind_eq_some_iff.mp h
  obtain rfl := Option.some.inj h
  exact ⟨hnonce, hm, rfl, rfl⟩

/-- The payload is exact up to the mortality, and in that if the mortality is fresh. -/
theorem Built.exact_iff_fresh (h : Built v c account call options p) :
    Exact v account options p ↔ Fresh v options := by
  obtain ⟨refined, hrefined, rfl⟩ := refined_of_built h
  obtain ⟨hnonce, hm, htip, happId⟩ := refined_eq_some hrefined
  have hrest : ∀ m, v.refinedMortality (options.mortality.getD (.period 32)) = some m →
      Era.mortal refined.mortality.period refined.mortality.blockHeight
        = Era.mortal m.period m.blockHeight →
      refined.mortality.blockHash = m.blockHash →
      Exact v account options (c.payloadOf call refined) := by
    intro m hgiven hera hhash
    unfold Chain.optionsWithFreshMortality at hnonce htip happId
    refine ⟨?_, ?_, ?_, m, hgiven, hera, hhash⟩
    · split at hnonce <;> exact hnonce
    · split at htip <;> exact htip
    · split at happId <;> exact happId
  by_cases hfull : ∃ m, options.mortality = some (.full m)
  · obtain ⟨m, hmortality⟩ := hfull
    have hperiod : v.mortality m.period = some refined.mortality := by
      unfold Chain.optionsWithFreshMortality at hm
      rw [hmortality] at hm
      exact hm
    have hgiven : v.refinedMortality (options.mortality.getD (.period 32)) = some m := by
      rw [hmortality]
      rfl
    constructor
    · intro hexact m' hm'
      rw [hmortality] at hm'
      cases hm'
      obtain ⟨m', hm', hera, hhash⟩ := hexact.mortality
      rw [hgiven] at hm'
      cases hm'
      exact ⟨refined.mortality, hperiod, hera, hhash⟩
    · intro hfresh
      obtain ⟨m', hm', hera, hhash⟩ := hfresh m hmortality
      rw [hperiod] at hm'
      cases hm'
      exact hrest m hgiven hera hhash
  · rw [optionsWithFreshMortality_of_not_full hfull] at hm
    exact ⟨fun _ m hm' => absurd ⟨m, hm'⟩ hfull, fun _ => hrest _ hm rfl rfl⟩

/-! ## Every entry point -/

/-- Every extrinsic that `m` returns in the state signs a payload that `buildPayload` gives there,
    and that is exact if the mortality is fresh. -/
def SignsWhenFresh (v : View) (c : Chain) (crypto : SpCryptoHashing) (signer : Keypair)
    (call : ExtrinsicCall) (options : Options) (m : Rpc (Except Error GenericExtrinsic)) : Prop :=
  ∀ script ext w', InState v script → m (start Request script) = some (.ok ext, w') →
    ∃ p, Built v c signer.publicKey call options p ∧ ext = Chain.signPayload crypto signer p ∧
      (Exact v signer.publicKey options p ↔ Fresh v options)

/-- The same for every extrinsic that `m` submits. -/
def SubmitsWhenFresh (v : View) (c : Chain) (crypto : SpCryptoHashing) (signer : Keypair)
    (call : ExtrinsicCall) (options : Options) (m : Rpc (Except Error SubmittedTransaction)) :
    Prop :=
  ∀ script r w', InState v script → m (start Request script) = some (r, w') →
    ∀ q ∈ submitted w', ∃ p, Built v c signer.publicKey call options p ∧
      q.1 = encode (Chain.signPayload crypto signer p) ∧
      (Exact v signer.publicKey options p ↔ Fresh v options)

theorem buildExtrinsicFromCall_signs (v : View) (c : Chain) (crypto : SpCryptoHashing)
    (signer : Keypair) (call : ExtrinsicCall) (options : Options) :
    SignsWhenFresh v c crypto signer call options
      (c.buildExtrinsicFromCall crypto signer call options) := by
  intro script ext w' hscript hrun
  obtain ⟨x, w1, hbuild, hrun⟩ := bind_eq_some.mp hrun
  cases x with
  | error e =>
    obtain ⟨h1, -⟩ := pure_eq_some.mp hrun
    cases h1
  | ok p =>
    obtain ⟨h1, -⟩ := pure_eq_some.mp hrun
    cases h1
    have hbuilt : Built v c signer.publicKey call options p := by
      refine ⟨start Request script, w1, hscript, ?_⟩
      unfold Chain.buildPayload at hbuild ⊢
      rw [optionsWithFreshMortality_idem] at hbuild
      exact hbuild
    exact ⟨p, hbuilt, rfl, hbuilt.exact_iff_fresh⟩

/-- A round submits what it signs under the options it refines. -/
theorem once_signs {w w' : RpcWorld} {r : Except Error SubmittedTransaction}
    (hw : InState v w.script)
    (h : c.signAndSubmitCallOnce crypto signer signer.publicKey call options w = some (r, w')) :
    InState v w'.script ∧ ∀ q ∈ submitted w', q ∈ submitted w ∨
      ∃ refined w1, options.build c.client signer.publicKey c.retryOnError w
          = some (.ok refined, w1) ∧
        q.1 = encode (Chain.signPayload crypto signer (c.payloadOf call refined)) := by
  obtain ⟨built, w1, hbuild, h⟩ := bind_eq_some.mp h
  have hkeeps := build_keeps _ _ _ _ _ _ _ hbuild
  obtain ⟨hw1, -⟩ := build_reads _ _ _ w built w1 hw hbuild
  cases built with
  | error e =>
    obtain ⟨-, rfl⟩ := pure_eq_some.mp h
    exact ⟨hw1, fun q hq => .inl (hkeeps ▸ hq)⟩
  | ok refined =>
    obtain ⟨x, w2, hsubmit, h⟩ := bind_eq_some.mp h
    obtain ⟨last, earlier, hsub, -, -⟩ := submit_submitted hsubmit
    have hw2 : InState v w2.script := (withRetryOnError_asked hsubmit).inState hw1
    have hmem : ∀ q ∈ submitted w2, q ∈ submitted w ∨
        q.1 = encode (Chain.signPayload crypto signer (c.payloadOf call refined)) := by
      intro q hq
      rw [hsub, List.mem_append, hkeeps] at hq
      rcases hq with hq | hq
      · exact .inr (mem_attemptsOf hq).1
      · exact .inl hq
    have hend : w' = w2 := by
      cases x with
      | error e => exact (pure_eq_some.mp h).2.symm
      | ok hash => exact (pure_eq_some.mp h).2.symm
    rw [hend]
    refine ⟨hw2, fun q hq => (hmem q hq).imp_right fun heq => ⟨refined, w1, hbuild, heq⟩⟩

theorem signAndSubmitCall_submits (v : View) (c : Chain) (crypto : SpCryptoHashing)
    (signer : Keypair) (call : ExtrinsicCall) (options : Options) :
    SubmitsWhenFresh v c crypto signer call options
      (c.signAndSubmitCall crypto signer call options) := by
  intro script r w' hscript hrun
  have hgoal : ∀ w refined w1 bytes, InState v w.script →
      (Chain.optionsWithFreshMortality options).build c.client signer.publicKey c.retryOnError w
        = some (.ok refined, w1) →
      bytes = encode (Chain.signPayload crypto signer (c.payloadOf call refined)) →
      ∃ p, Built v c signer.publicKey call options p ∧
        bytes = encode (Chain.signPayload crypto signer p) ∧
        (Exact v signer.publicKey options p ↔ Fresh v options) := by
    intro w refined w1 bytes hw hbuild hbytes
    have hbuilt : Built v c signer.publicKey call options _ := built_of_build hw hbuild
    exact ⟨_, hbuilt, hbytes, hbuilt.exact_iff_fresh⟩
  obtain ⟨r1, w1, hfirst, hrun⟩ := bind_eq_some.mp hrun
  obtain ⟨hw1, hsigned⟩ := once_signs hscript hfirst
  have hround : ∀ q ∈ submitted w1, ∃ p, Built v c signer.publicKey call options p ∧
      q.1 = encode (Chain.signPayload crypto signer p) ∧
      (Exact v signer.publicKey options p ↔ Fresh v options) := by
    intro q hq
    rcases hsigned q hq with hq | ⟨refined, w2, hbuild, hbytes⟩
    · cases hq
    · exact hgoal _ refined w2 q.1 hscript hbuild hbytes
  cases r1 with
  | ok value =>
    obtain ⟨-, rfl⟩ := pure_eq_some.mp hrun
    exact hround
  | error err =>
    simp only at hrun
    split at hrun
    case isTrue =>
      rw [optionsWithFreshMortality_idem] at hrun
      intro q hq
      rcases (once_signs hw1 hrun).2 q hq with hq | ⟨refined, w2, hbuild, hbytes⟩
      · exact hround q hq
      · exact hgoal w1 refined w2 q.1 hw1 hbuild hbytes
    case isFalse =>
      obtain ⟨-, rfl⟩ := pure_eq_some.mp hrun
      exact hround

/-- Whatever the entry point, what is signed in a state of the node are the options as they were
    given exactly when a full mortality has the era and the hash that the state gives for its
    period. -/
theorem options_exact_iff (v : View) (crypto : SpCryptoHashing) (signer : Keypair)
    (options : Options) :
    (∀ (c : Chain) account call p, Built v c account call options p →
      (Exact v account options p ↔ Fresh v options)) ∧
    (∀ (c : Chain) call, SignsWhenFresh v c crypto signer call options
      (c.buildExtrinsicFromCall crypto signer call options)) ∧
    (∀ (c : Chain) call, SubmitsWhenFresh v c crypto signer call options
      (c.signAndSubmitCall crypto signer call options)) ∧
    ∀ tx : SubmittableTransaction,
      SignsWhenFresh v (tx.client.chain.retryOn tx.retryOnError none) crypto signer tx.call options
        (tx.sign crypto signer options) ∧
      SubmitsWhenFresh v (tx.client.chain.retryOn tx.retryOnError none) crypto signer tx.call
        options (tx.signAndSubmit crypto signer options) :=
  ⟨fun _ _ _ _ hbuilt => hbuilt.exact_iff_fresh,
    fun c call => buildExtrinsicFromCall_signs v c crypto signer call options,
    fun c call => signAndSubmitCall_submits v c crypto signer call options,
    fun tx => ⟨buildExtrinsicFromCall_signs v _ crypto signer tx.call options,
      signAndSubmitCall_submits v _ crypto signer tx.call options⟩⟩

/-! ## A full mortality -/

/-- The first transaction of an account, with a full mortality of 32 blocks. -/
def fullOptions (height : Nat) : Options :=
  { (default : Options) with
    nonce := some 0
    mortality := some (.full ⟨32, heightHash height, height⟩) }

/-- What is built when block 70003 is finalized. -/
theorem buildPayload_open (height : Nat) : ∃ p w',
    (Chain.new Client.devnet).buildPayload openKey.publicKey ⟨29, 1, []⟩ (fullOptions height)
      (start Request (List.replicate 3 (.answer openView))) = some (.ok p, w') ∧
    p.extra.era = .Mortal 32 19 ∧ p.additional.forkHash = heightHash 70003 := by
  have hsome : ((Chain.new Client.devnet).buildPayload openKey.publicKey ⟨29, 1, []⟩
      (fullOptions height) (start Request (List.replicate 3 (.answer openView)))).map
        (fun q => q.1.toOption.map fun p => (p.extra.era, p.additional.forkHash))
      = some (some (.Mortal 32 19, heightHash 70003)) := by
    have hsame : Chain.optionsWithFreshMortality (fullOptions height)
        = Chain.optionsWithFreshMortality (fullOptions 0) := rfl
    unfold Chain.buildPayload
    rw [hsame]
    decide +kernel
  obtain ⟨⟨r, w'⟩, hrun, hr⟩ := Option.map_eq_some_iff.mp hsome
  cases r with
  | error e => cases hr
  | ok p =>
    have heq : (p.extra.era, p.additional.forkHash) = (.Mortal 32 19, heightHash 70003) :=
      Option.some.inj hr
    exact ⟨p, w', hrun, congrArg Prod.fst heq, congrArg Prod.snd heq⟩

/-- A mortality from block 5 is replaced by one from block 70003. -/
theorem full_mortality_replaced : ∃ p w',
    (Chain.new Client.devnet).buildPayload openKey.publicKey ⟨29, 1, []⟩ (fullOptions 5)
      (start Request (List.replicate 3 (.answer openView))) = some (.ok p, w') ∧
    (p.extra.era = .Mortal 32 19 ∧ p.additional.forkHash = heightHash 70003) ∧
    ¬ Exact openView openKey.publicKey (fullOptions 5) p := by
  obtain ⟨p, w', hrun, hera, hhash⟩ := buildPayload_open 5
  refine ⟨p, w', hrun, ⟨hera, hhash⟩, fun hexact => ?_⟩
  obtain ⟨m, hm, hgiven, -⟩ := hexact.mortality
  cases hm
  rw [hera] at hgiven
  exact absurd hgiven (by decide)

/-- A mortality from the finalized block is signed as it is. -/
theorem options_exact_fresh : ∃ p w',
    (Chain.new Client.devnet).buildPayload openKey.publicKey ⟨29, 1, []⟩ (fullOptions 70003)
      (start Request (List.replicate 3 (.answer openView))) = some (.ok p, w') ∧
    Exact openView openKey.publicKey (fullOptions 70003) p := by
  obtain ⟨p, w', hrun, -⟩ := buildPayload_open 70003
  have hbuilt : Built openView (Chain.new Client.devnet) openKey.publicKey ⟨29, 1, []⟩
      (fullOptions 70003) p :=
    ⟨_, w', inState_replicate openView 3, hrun⟩
  have hfresh : Fresh openView (fullOptions 70003) := by
    intro m hm
    cases hm
    exact ⟨⟨32, heightHash 70003, 70003⟩, by decide +kernel, rfl, rfl⟩
  exact ⟨p, w', hrun, ((options_exact_iff openView noCrypto openKey (fullOptions 70003)).1
    _ _ _ _ hbuilt).mpr hfresh⟩

end AvailRust
