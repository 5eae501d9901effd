/-
  The hash a transaction signs and the block its era starts at.

  The era is derived twice: from the finalized height, to find the block it starts at, and from
  that block, for the extrinsic. The runtime derives the block from the era and the height of
  inclusion. All three agree: the first height of an era has the phase of the era, also where
  the phase is rounded (`mortal_birthOf`), and the heights the era is valid for fall into one
  period (`birth_eq`). So the signed hash is the one the runtime looks up, in every run of
  `signAndSubmitCallOnce` with a mortality by period (`signed_agrees`).
-/
import AvailRust.Client.FinalizedChain
import AvailRust.Submission.Submit

namespace AvailRust

open Scale Dialogue FinalizedChain

namespace Era

theorem four_le_effectivePeriod (period : Nat) : 4 ≤ effectivePeriod period :=
  Nat.le_max_left _ _

/-- The phase of the era at a height. -/
def phaseAt (period current : Nat) : Nat :=
  current % effectivePeriod period / quantizeFactor (effectivePeriod period)
    * quantizeFactor (effectivePeriod period)

theorem mortal_eq (period current : Nat) :
    mortal period current = .Mortal (effectivePeriod period) (phaseAt period current) := rfl

theorem phaseAt_le (period current : Nat) :
    phaseAt period current ≤ current % effectivePeriod period :=
  Nat.div_mul_le_self _ _

/-- The era of a height starts at the phase, in the period of the height. -/
theorem birthOf_eq {period current : Nat} (hcurrent : current < 2 ^ 32) :
    RefinedMortality.birthOf (mortal period current) current
      = effectivePeriod period * (current / effectivePeriod period) + phaseAt period current := by
  have hpos := four_le_effectivePeriod period
  have hle := phaseAt_le period current
  have hlt : current % effectivePeriod period < effectivePeriod period := Nat.mod_lt _ (by omega)
  have hsplit := Nat.div_add_mod current (effectivePeriod period)
  rw [mortal_eq]
  show (current - (current - phaseAt period current) % effectivePeriod period) % 2 ^ 32 = _
  have hrest : current - phaseAt period current = effectivePeriod period
      * (current / effectivePeriod period)
      + (current % effectivePeriod period - phaseAt period current) := by omega
  rw [hrest, Nat.mul_add_mod, Nat.mod_eq_of_lt (a := _ - _) (by omega), Nat.mod_eq_of_lt (by omega)]
  omega

/-- The first height of an era has that era. -/
theorem mortal_birthOf {period current : Nat} (hcurrent : current < 2 ^ 32) :
    mortal period (RefinedMortality.birthOf (mortal period current) current)
      = mortal period current := by
  have hpos := four_le_effectivePeriod period
  have hle := phaseAt_le period current
  have hlt : current % effectivePeriod period < effectivePeriod period := Nat.mod_lt _ (by omega)
  have hfactor : 0 < quantizeFactor (effectivePeriod period) := Nat.lt_of_lt_of_le Nat.one_pos
    (Nat.le_max_right _ _)
  rw [birthOf_eq hcurrent, mortal_eq, mortal_eq]
  congr 1
  unfold phaseAt
  rw [Nat.mul_add_mod, Nat.mod_eq_of_lt (a := _ * _) (lt_of_le_of_lt hle hlt),
    Nat.mul_div_cancel _ hfactor]

/-- The heights an era is valid for are those whose birth is its first one. -/
theorem birth_eq {period current n : Nat} (hcurrent : current < 2 ^ 32)
    (hlow : RefinedMortality.birthOf (mortal period current) current ≤ n)
    (hhigh : n < RefinedMortality.birthOf (mortal period current) current
      + (mortal period current).validity) :
    (mortal period current).birth n
      = RefinedMortality.birthOf (mortal period current) current := by
  have hpos := four_le_effectivePeriod period
  rw [birthOf_eq hcurrent] at hlow hhigh ⊢
  rw [mortal_eq] at hhigh ⊢
  replace hhigh : n < effectivePeriod period * (current / effectivePeriod period)
    + phaseAt period current + effectivePeriod period := hhigh
  show (max n (phaseAt period current) - phaseAt period current) / effectivePeriod period
    * effectivePeriod period + phaseAt period current = _
  have hsplit : max n (phaseAt period current) - phaseAt period current
      = effectivePeriod period * (current / effectivePeriod period)
        + (n - (effectivePeriod period * (current / effectivePeriod period)
          + phaseAt period current)) := by
    rw [Nat.max_eq_left (by omega)]
    omega
  rw [hsplit, Nat.mul_add_div (by omega), Nat.div_eq_of_lt (a := _ - _) (by omega), Nat.add_zero,
    Nat.mul_comm]

end Era

/-- Every header of the chain carries its height. -/
def FinalizedChain.Numbered (c : FinalizedChain) : Prop :=
  ∀ n < 2 ^ 32, ∀ header, c.header (c.hashAt n) = some header → header.number.val = n

namespace RefinedMortality

variable {c : FinalizedChain} {client : Client} {f top : Nat}

/-- The mortality of `period` blocks that a transaction gets when height `n` is finalized. -/
structure BornAt (c : FinalizedChain) (period n : Nat) (m : RefinedMortality) : Prop where
  asked : m.period = period
  birth : m.blockHeight = birthOf (Era.mortal period n) n
  hash : m.blockHash = c.hashAt m.blockHeight

theorem birthOf_le (era : Era) (n : Nat) : birthOf era n ≤ n := by
  cases era with
  | Immortal => exact le_rfl
  | Mortal period phase => exact (Nat.mod_le _ _).trans (Nat.sub_le _ _)

/-- The finalized header is that of a finalized block. -/
theorem finalizedHeader_fed {w w' : RpcWorld} {header : AvailHeader}
    (hw : c.Feed f w.script top)
    (h : client.finalized.blockHeader w = some (.ok header, w')) :
    ∃ n g, f ≤ n ∧ n ≤ g ∧ c.Feed g w'.script top ∧ c.header (c.hashAt n) = some header := by
  obtain ⟨x, w1, hhash, h⟩ := bind_eq_some.mp h
  obtain ⟨info, w2, hinfo, hmap⟩ := bind_eq_some.mp hhash
  obtain ⟨rfl, rfl⟩ := pure_eq_some.mp hmap
  obtain ⟨n, hn, hw2, -, hgood⟩ := blockInfo_yields c.showsChain _ w info w2 hw hinfo
  cases info with
  | error e =>
    obtain ⟨h1, -⟩ := pure_eq_some.mp h
    cases h1
  | ok info =>
    obtain rfl := hgood info rfl
    obtain ⟨y, w3, hheader, h⟩ := bind_eq_some.mp h
    obtain ⟨g, hg, hw3, -, hgood'⟩ := blockHeader_yields _ le_rfl w2 y w3 hw2 hheader
    rcases y with e | _ | header'
    · obtain ⟨h1, -⟩ := pure_eq_some.mp h
      cases h1
    · obtain ⟨h1, -⟩ := pure_eq_some.mp h
      cases h1
    · obtain ⟨h1, rfl⟩ := pure_eq_some.mp h
      cases h1
      exact ⟨n, g, hn, hg, hw3, (hgood' _ rfl).symm⟩

/-- From a feed the mortality is born at a finalized height. -/
theorem fromPeriod_fed (hc : c.Numbered) {period : Nat} {w w' : RpcWorld} {m : RefinedMortality}
    (hw : c.Feed f w.script top) (htop : top < 2 ^ 32)
    (h : fromPeriod client period w = some (.ok m, w')) :
    ∃ n, f ≤ n ∧ n ≤ top ∧ m.BornAt c period n := by
  obtain ⟨x, w1, hheader, h⟩ := bind_eq_some.mp h
  cases x with
  | error e =>
    obtain ⟨h1, -⟩ := pure_eq_some.mp h
    cases h1
  | ok header =>
    obtain ⟨n, g, hfn, hng, hw1, hat⟩ := finalizedHeader_fed hw hheader
    have hle := hng.trans hw1.le
    have hnumber : header.number.val = n := hc n (lt_of_le_of_lt hle htop) header hat
    obtain ⟨y, w2, hhash, h⟩ := bind_eq_some.mp h
    simp only [hnumber] at hhash h
    obtain ⟨g2, -, hw2, -, hgood⟩ := blockHash_yields c.showsChain _
      ((birthOf_le (Era.mortal period n) n).trans hng) w1 y w2 hw1 hhash
    rcases y with e | _ | hash
    · obtain ⟨h1, -⟩ := pure_eq_some.mp h
      cases h1
    · obtain ⟨h1, -⟩ := pure_eq_some.mp h
      cases h1
    · obtain ⟨h1, rfl⟩ := pure_eq_some.mp h
      cases h1
      exact ⟨n, hfn, hle, rfl, rfl, Option.some.inj (hgood _ rfl)⟩

/-- A node that is up gives a mortality born at the height it has finalized. -/
theorem fromPeriod_steady {g : Nat} {v : View} {header : AvailHeader} (hc : c.Numbered)
    (hv : c.ServedBy g v) (hg : g < 2 ^ 32) (hheader : c.header (c.hashAt g) = some header)
    (client : Client) (period : Nat) :
    ∃ m, m.BornAt c period g ∧ Steady (.answer v) (fromPeriod client period) (.ok m) := by
  have hnumber : header.number.val = g := hc g hg header hheader
  let birth := birthOf (Era.mortal period g) g
  refine ⟨⟨period, c.hashAt birth, birth⟩, ⟨rfl, rfl, rfl⟩, ?_⟩
  have hhash : Steady (.answer v) client.finalized.blockHash (.ok (c.hashAt g)) := by
    refine (Chain.blockInfo_steady client.finalized.chain (.answer v) false).bind ?_
    simp only [Event.response, hv.heads.finalizedHead]
    exact .pure _ _
  have hfinal : Steady (.answer v) client.finalized.blockHeader (.ok header) := by
    refine hhash.bind ((blockHeader_steady hv client.finalized.chain le_rfl).bind ?_)
    simp only [hheader]
    exact .pure _ _
  refine hfinal.bind ?_
  simp only [hnumber]
  refine (Chain.blockHash_steady client.chain (.answer v) (some birth)).bind ?_
  simp only [Event.response, hv.heads.blockHash birth (birthOf_le _ _)]
  exact .pure _ _

end RefinedMortality

/-! ## What is signed -/

/-- The mortality, the era derived from it and the hash that goes with it are those of one block,
    the one the runtime computes at every height the era is valid for. -/
structure AgreesWithRuntime (c : FinalizedChain) (period n : Nat) (mortality : RefinedMortality)
    (era : Era) (forkHash : H256) : Prop where
  rederived : era = Era.mortal period n
  born : mortality.blockHeight = RefinedMortality.birthOf era n
  stored : mortality.blockHash = c.hashAt mortality.blockHeight
  signed : forkHash = c.hashAt mortality.blockHeight
  runtime : ∀ k, mortality.blockHeight ≤ k → k < mortality.blockHeight + era.validity →
    era.birth k = mortality.blockHeight

theorem RefinedMortality.BornAt.agrees {c : FinalizedChain} {period n : Nat} {m : RefinedMortality}
    (h : m.BornAt c period n) (hn : n < 2 ^ 32) :
    AgreesWithRuntime c period n m (Era.mortal m.period m.blockHeight) m.blockHash := by
  have hera : Era.mortal m.period m.blockHeight = Era.mortal period n := by
    rw [h.asked, h.birth]
    exact Era.mortal_birthOf hn
  rw [hera]
  refine ⟨rfl, h.birth, h.hash, h.hash, fun k hlow hhigh => ?_⟩
  rw [h.birth] at hlow hhigh ⊢
  exact Era.birth_eq hn hlow hhigh

namespace Chain

variable {c : FinalizedChain} {client : Client} {f top : Nat}

theorem buildNonce_logged (options : Options) (client : Client) (account : AccountId)
    (retryOnError : Option Bool) : Logged (options.buildNonce client account retryOnError) := by
  unfold Options.buildNonce
  split
  · exact .pure _
  · refine (withRetryOnError_consumes (call_consumes (.accountNextIndex account)) _).logged.bind
      fun x => ?_
    split <;> exact .pure _

/-- Options with a mortality by period are refined to a mortality born at a finalized height. -/
theorem build_fed (hc : c.Numbered) {options : Options} {period : Nat} {account : AccountId}
    {retryOnError : Option Bool} {w w' : RpcWorld} {refined : RefinedOptions}
    (hmortality : options.mortality.getD (.period 32) = .period period)
    (hw : c.Feed f w.script top) (htop : top < 2 ^ 32)
    (h : options.build client account retryOnError w = some (.ok refined, w')) :
    ∃ n, f ≤ n ∧ n ≤ top ∧ refined.mortality.BornAt c period n := by
  obtain ⟨x, w1, hnonce, h⟩ := bind_eq_some.mp h
  obtain ⟨new, hnew⟩ := buildNonce_logged _ _ _ _ w x w1 hnonce
  obtain ⟨⟨g, hg, hw1⟩, -⟩ := hw.after hnew
  cases x with
  | error e =>
    obtain ⟨h1, -⟩ := pure_eq_some.mp h
    cases h1
  | ok nonce =>
    obtain ⟨y, w2, hbuild, h⟩ := bind_eq_some.mp h
    rw [hmortality] at hbuild
    cases y with
    | error e =>
      obtain ⟨h1, -⟩ := pure_eq_some.mp h
      cases h1
    | ok mortality =>
      obtain ⟨h1, -⟩ := pure_eq_some.mp h
      cases h1
      obtain ⟨n, hn, hle, hborn⟩ := RefinedMortality.fromPeriod_fed hc hw1 htop hbuild
      exact ⟨n, hg.trans hn, hle, hborn⟩

/-- What is submitted is signed over the refined options that the result carries. -/
theorem signAndSubmitCallOnce_signs {chain : Chain} {crypto : SpCryptoHashing} {signer : Keypair}
    {account : AccountId} {txCall : ExtrinsicCall} {options : Options} {w w' : RpcWorld}
    {tx : SubmittedTransaction}
    (h : chain.signAndSubmitCallOnce crypto signer account txCall options w = some (.ok tx, w')) :
    ∃ w1, options.build chain.client account chain.retryOnError w = some (.ok tx.options, w1) ∧
      tx.additional = chain.additionalOf tx.options ∧
      ∃ e, (Request.submitExtrinsic (encode (signPayload crypto signer
        ⟨txCall, ExtrinsicExtra.ofRefined tx.options, tx.additional⟩)), e) ∈ w'.trace := by
  obtain ⟨x, w1, hbuild, h⟩ := bind_eq_some.mp h
  cases x with
  | error e =>
    obtain ⟨h1, -⟩ := pure_eq_some.mp h
    cases h1
  | ok refined =>
    obtain ⟨y, w2, hsubmit, h⟩ := bind_eq_some.mp h
    obtain ⟨e, rest, htrace, -⟩ := (withRetryOnError_asked hsubmit).last_move
    cases y with
    | error e =>
      obtain ⟨h1, -⟩ := pure_eq_some.mp h
      cases h1
    | ok txHash =>
      obtain ⟨h1, rfl⟩ := pure_eq_some.mp h
      cases h1
      exact ⟨w1, hbuild, rfl, e, by rw [htrace]; exact List.mem_cons_self⟩

/-- Whatever finalized height a transaction with a mortality by period meets, the block of its
    mortality, the era it signs and the hash it signs agree with the runtime; and every finalized
    height can be met. -/
theorem signed_agrees {c : FinalizedChain} (hc : c.Numbered) (chain : Chain)
    (crypto : SpCryptoHashing) (signer : Keypair) (account : AccountId) (txCall : ExtrinsicCall)
    (options : Options) (period : Nat)
    (hmortality : options.mortality.getD (.period 32) = .period period) :
    (∀ script top tx w', c.Feed 0 script top → top < 2 ^ 32 →
      chain.signAndSubmitCallOnce crypto signer account txCall options (start Request script)
        = some (.ok tx, w') →
      ∃ n ≤ top, AgreesWithRuntime c period n tx.options.mortality
          (ExtrinsicExtra.ofRefined tx.options).era tx.additional.forkHash ∧
        ∃ e, (Request.submitExtrinsic (encode (signPayload crypto signer
          ⟨txCall, ExtrinsicExtra.ofRefined tx.options, tx.additional⟩)), e) ∈ w'.trace) ∧
    ∀ n v header, n < 2 ^ 32 → c.ServedBy n v → c.header (c.hashAt n) = some header →
      ∃ m, Steady (.answer v) (RefinedMortality.fromPeriod chain.client period) (.ok m) ∧
        AgreesWithRuntime c period n m (Era.mortal m.period m.blockHeight) m.blockHash := by
  constructor
  · intro script top tx w' hfeed htop h
    obtain ⟨w1, hbuild, hadditional, hsubmitted⟩ := signAndSubmitCallOnce_signs h
    obtain ⟨n, -, hle, hborn⟩ := build_fed hc hmortality hfeed htop hbuild
    rw [hadditional] at hsubmitted ⊢
    exact ⟨n, hle, hborn.agrees (lt_of_le_of_lt hle htop), hsubmitted⟩
  · intro n v header hn hv hheader
    obtain ⟨m, hborn, hsteady⟩ :=
      RefinedMortality.fromPeriod_steady hc hv hn hheader chain.client period
    exact ⟨m, hsteady, hborn.agrees hn⟩

/-- An empty block's header, with the height its hash says. -/
def emptyHeader (hash : H256) : Option AvailHeader :=
  if h : leValue hash.bytes < 256 ^ 4 then
    some {
      parentHash := hash
      number := ⟨leValue hash.bytes, h⟩
      stateRoot := hash
      extrinsicsRoot := hash
      digest := ⟨Vec.nil⟩
      extension := .V3 ⟨⟨0, Vec.nil⟩, ⟨0, 0, Vec.nil, hash⟩⟩ }
  else none

theorem emptyHeader_number {hash : H256} {header : AvailHeader}
    (h : emptyHeader hash = some header) : header.number.val = leValue hash.bytes := by
  unfold emptyHeader at h
  split at h
  · obtain rfl := Option.some.inj h
    rfl
  · cases h

/-- A chain of empty blocks. -/
def emptyChain : FinalizedChain := { FinalizedChain.bare heightHash with header := emptyHeader }

theorem emptyChain_numbered : emptyChain.Numbered := by
  intro n hn header hheader
  simp only [emptyChain, FinalizedChain.bare] at hheader
  exact (emptyHeader_number hheader).trans (leValue_heightHash hn)

/-- The node has finalized block 70003 and takes every submission. -/
def openView : View
  | .submitExtrinsic _ => .ok (FixedBytes.fill 32 9)
  | r => emptyChain.viewAt 70003 r

theorem openView_served : emptyChain.ServedBy 70003 openView :=
  have hv := emptyChain.viewAt_served 70003
  ⟨⟨hv.heads.finalizedHead, hv.heads.blockHash⟩, hv.block, hv.header, hv.justification,
    hv.extrinsics, hv.events, hv.account⟩

def openKey : Keypair := ⟨FixedBytes.fill 32 1, fun _ => FixedBytes.fill 64 2⟩

/-- A period of 5000 blocks is rounded to 8192, and the phase of height 70003 to an even number. -/
theorem signed_agrees_5000 : ∃ tx w',
    (Chain.new Client.devnet).signAndSubmitCallOnce noCrypto openKey openKey.publicKey ⟨29, 1, []⟩
      { (default : Options) with mortality := some (.period 5000), nonce := some 0 }
      (start Request (List.replicate 4 (.answer openView))) = some (.ok tx, w') ∧
    ∃ n ≤ 70003, AgreesWithRuntime emptyChain 5000 n tx.options.mortality
      (ExtrinsicExtra.ofRefined tx.options).era tx.additional.forkHash := by
  have hsome : ((Chain.new Client.devnet).signAndSubmitCallOnce noCrypto openKey openKey.publicKey
      ⟨29, 1, []⟩ { (default : Options) with mortality := some (.period 5000), nonce := some 0 }
      (start Request (List.replicate 4 (.answer openView)))).map (fun p => p.1.toOption.isSome)
      = some true := by
    decide +kernel
  obtain ⟨⟨r, w'⟩, hrun, hr⟩ := Option.map_eq_some_iff.mp hsome
  cases r with
  | error e => cases hr
  | ok tx =>
    have hfeed : emptyChain.Feed 0 (List.replicate 4 (.answer openView)) 70003 :=
      .answer (Nat.zero_le _) openView_served (.settled fun e he =>
        ⟨_, List.eq_of_mem_replicate (n := 3) he, openView_served⟩)
    obtain ⟨n, hn, hagrees, -⟩ := (signed_agrees emptyChain_numbered (Chain.new Client.devnet)
      noCrypto openKey openKey.publicKey ⟨29, 1, []⟩
      { (default : Options) with mortality := some (.period 5000), nonce := some 0 } 5000 rfl).1
      _ 70003 tx w' hfeed (by decide) hrun
    exact ⟨tx, w', hrun, n, hn, hagrees⟩

end Chain

end AvailRust
