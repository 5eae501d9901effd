/-
  Which requests of a run are retried.

  `RpcLog` is one RPC: a request and the events that met its attempts. It honours a retry setting
  when an error is followed by another attempt as long as the setting is on and a pause is left,
  and by none when it is off; an empty answer may be asked again under either. A run keeps the
  setting (`Kept`) when its moves are RPCs that honour it, of which only the last can fail, and
  then the run returns an error.
-/
import AvailRust.Client.Block

namespace AvailRust

open Scale Dialogue

/-- The answer is that there is no such thing. -/
def emptyAnswer : (r : Request) → Except RpcError r.Response → Bool
  | .getBlockHash _, .ok none => true
  | .getBlockNumber _, .ok none => true
  | .getHeader _, .ok none => true
  | .getBlock _, .ok none => true
  | _, _ => false

theorem isError_of_emptyAnswer {r : Request} {x : Except RpcError r.Response}
    (h : emptyAnswer r x = true) : isError x = false := by
  cases x with
  | ok x => rfl
  | error e => cases r <;> cases h

/-- An RPC with all its attempts. -/
structure RpcLog where
  request : Request
  earlier : List Event
  last : Event

namespace RpcLog

/-- The moves of the RPC, in the order they were played. -/
def moves (p : RpcLog) : List (Request × Event) := (p.earlier ++ [p.last]).map (p.request, ·)

/-- The RPC returns an error. -/
def failed (p : RpcLog) : Bool := isError (p.last.response p.request)

/-- An error is retried if and only if `retry` is set and the schedule has a pause left. -/
structure Honours (retry : Bool) (p : RpcLog) : Prop where
  within : p.earlier.length ≤ sleepDuration.length
  again : ∀ e ∈ p.earlier, (isError (e.response p.request) = true ∧ retry = true) ∨
    emptyAnswer p.request (e.response p.request) = true
  exhausted : p.failed = true → retry = true → p.earlier.length = sleepDuration.length

/-- Without retries an RPC that fails was attempted once, unless it was told that there is no such
    thing before. -/
theorem Honours.once {p : RpcLog} (h : p.Honours false)
    (hempty : ∀ e ∈ p.earlier, emptyAnswer p.request (e.response p.request) = false) :
    p.earlier = [] := by
  rw [List.eq_nil_iff_forall_not_mem]
  intro e he
  rcases h.again e he with ⟨-, hretry⟩ | hnone
  · cases hretry
  · rw [hempty e he] at hnone
    cases hnone

end RpcLog

/-- The moves are RPCs that honour the setting, and none but the last fails; that one fails only
    if the run does. -/
def KeepsRetry (retry : Bool) (moves : List (Request × Event)) (failed : Bool) : Prop :=
  ∃ rpcs : List RpcLog, moves = rpcs.flatMap RpcLog.moves ∧ (∀ p ∈ rpcs, p.Honours retry) ∧
    (∀ p ∈ rpcs.dropLast, p.failed = false) ∧ (failed = false → ∀ p ∈ rpcs, p.failed = false)

theorem KeepsRetry.append {retry failed : Bool} {moves moves' : List (Request × Event)}
    (h : KeepsRetry retry moves false) (h' : KeepsRetry retry moves' failed) :
    KeepsRetry retry (moves ++ moves') failed := by
  obtain ⟨rpcs, rfl, hall, -, hok⟩ := h
  obtain ⟨rpcs', rfl, hall', hlast, hok'⟩ := h'
  replace hok := hok rfl
  refine ⟨rpcs ++ rpcs', List.flatMap_append.symm, ?_, ?_, ?_⟩
  · intro p hp
    rcases List.mem_append.mp hp with hp | hp
    · exact hall p hp
    · exact hall' p hp
  · intro p hp
    by_cases hnil : rpcs' = []
    · rw [hnil, List.append_nil] at hp
      exact hok p (List.dropLast_subset _ hp)
    · rw [List.dropLast_append_of_ne_nil hnil] at hp
      rcases List.mem_append.mp hp with hp | hp
      · exact hok p hp
      · exact hlast p hp
  · intro hfailed p hp
    rcases List.mem_append.mp hp with hp | hp
    · exact hok p hp
    · exact hok' hfailed p hp

/-- A run from `w` to `w'` keeps the setting. -/
def Kept (retry : Bool) (w w' : RpcWorld) (failed : Bool) : Prop :=
  ∃ new, w.After new w' ∧ KeepsRetry retry new.reverse failed

namespace Kept

variable {retry failed : Bool} {w w1 w' : RpcWorld}

theorem refl (retry : Bool) (w : RpcWorld) (failed : Bool) : Kept retry w w failed := by
  refine ⟨[], .refl w, [], rfl, ?_, ?_, ?_⟩
  · exact fun p hp => absurd hp List.not_mem_nil
  · exact fun p hp => absurd hp List.not_mem_nil
  · exact fun _ p hp => absurd hp List.not_mem_nil

theorem trans (h : Kept retry w w1 false) (h' : Kept retry w1 w' failed) :
    Kept retry w w' failed := by
  obtain ⟨new, hnew, hkeeps⟩ := h
  obtain ⟨new', hnew', hkeeps'⟩ := h'
  refine ⟨new' ++ new, hnew.trans hnew', ?_⟩
  rw [List.reverse_append]
  exact hkeeps.append hkeeps'

/-- A run that goes on without a request can still fail. -/
theorem imp {failed' : Bool} (h : Kept retry w w' failed) (hf : failed = true → failed' = true) :
    Kept retry w w' failed' := by
  obtain ⟨new, hnew, rpcs, hmoves, hall, hlast, hok⟩ := h
  refine ⟨new, hnew, rpcs, hmoves, hall, hlast, fun hfailed' => hok ?_⟩
  cases failed with
  | false => rfl
  | true => exact absurd (hf rfl) (by simp [hfailed'])

end Kept

/-- Without retries a run that succeeds met no error. -/
theorem KeepsRetry.no_error {moves : List (Request × Event)} (h : KeepsRetry false moves false)
    {q : Request × Event} (hq : q ∈ moves) : isError (q.2.response q.1) = false := by
  obtain ⟨rpcs, rfl, hall, -, hok⟩ := h
  obtain ⟨p, hp, hq⟩ := List.mem_flatMap.mp hq
  obtain ⟨e, he, rfl⟩ := List.mem_map.mp hq
  rcases List.mem_append.mp he with he | he
  · rcases (hall p hp).again e he with ⟨-, hretry⟩ | hempty
    · cases hretry
    · exact isError_of_emptyAnswer hempty
  · rw [List.mem_singleton.mp he]
    exact hok rfl p hp

/-- An RPC that met no error honours either setting. -/
theorem RpcLog.Honours.of_clean {retry : Bool} {p : RpcLog} (h : p.Honours retry)
    (hclean : ∀ q ∈ p.moves, isError (q.2.response q.1) = false) (retry' : Bool) :
    p.Honours retry' := by
  have hanswer : ∀ e ∈ p.earlier ++ [p.last], isError (e.response p.request) = false :=
    fun e he => hclean (p.request, e) (List.mem_map_of_mem he)
  refine ⟨h.within, fun e he => .inr ?_, fun hfailed => ?_⟩
  · rcases h.again e he with ⟨herror, -⟩ | hempty
    · rw [hanswer e (List.mem_append_left _ he)] at herror
      cases herror
    · exact hempty
  · have hlast : p.failed = false := hanswer p.last (List.mem_append_right _ List.mem_cons_self)
    rw [hlast] at hfailed
    cases hfailed

/-- A run without errors keeps either setting. -/
theorem Kept.of_clean {retry failed : Bool} {w w' : RpcWorld} (h : Kept retry w w' failed)
    (hclean : ∀ new, w.After new w' → ∀ q ∈ new, isError (q.2.response q.1) = false)
    (retry' : Bool) : Kept retry' w w' failed := by
  obtain ⟨new, hnew, rpcs, hmoves, hall, hlast, hok⟩ := h
  refine ⟨new, hnew, rpcs, hmoves, fun p hp => ?_, hlast, hok⟩
  refine (hall p hp).of_clean (fun q hq => ?_) retry'
  have hmem : q ∈ new := by
    rw [← List.mem_reverse, hmoves]
    exact List.mem_flatMap_of_mem hp hq
  exact hclean new hnew q hmem

/-! ## Requests under another setting -/

/-- An attempt at the request failed when `before` had been played, the latest move first. -/
def FailedAfter (r : Request) (before moves : List (Request × Event)) : Prop :=
  ∃ later e, moves = later ++ (r, e) :: before ∧ isError (e.response r) = true

namespace FailedAfter

variable {r : Request} {before moves : List (Request × Event)}

theorem later (h : FailedAfter r before moves) (new : List (Request × Event)) :
    FailedAfter r before (new ++ moves) := by
  obtain ⟨later, e, rfl, herror⟩ := h
  exact ⟨new ++ later, e, (List.append_assoc _ _ _).symm, herror⟩

theorem earlier (h : FailedAfter r before moves) (old : List (Request × Event)) :
    FailedAfter r (before ++ old) (moves ++ old) := by
  obtain ⟨later, e, rfl, herror⟩ := h
  exact ⟨later, e, by simp, herror⟩

end FailedAfter

/-- The moves are attempts at the request, each with an answer after which it is made again. -/
def Again (r : Request) (retried : Except RpcError r.Response → Bool)
    (moves : List (Request × Event)) : Prop :=
  ∀ q ∈ moves, ∃ e, q = (r, e) ∧ retried (e.response r) = true

/-- The run keeps the setting, or its moves show the exception. -/
def KeptUnless (retry : Bool) (exception : List (Request × Event) → Prop) (w w' : RpcWorld)
    (failed : Bool) : Prop :=
  Kept retry w w' failed ∨ ∃ new, w.After new w' ∧ exception new

namespace KeptUnless

variable {retry failed : Bool} {first second exception : List (Request × Event) → Prop}
  {w w1 w' : RpcWorld}

theorem after (h : KeptUnless retry exception w w' failed) : ∃ new, w.After new w' := by
  rcases h with ⟨new, hnew, -⟩ | ⟨new, hnew, -⟩
  · exact ⟨new, hnew⟩
  · exact ⟨new, hnew⟩

/-- The exception of either part is one of the whole, where it stands in it. -/
theorem trans (h : KeptUnless retry first w w1 false)
    (h' : KeptUnless retry second w1 w' failed)
    (hfirst : ∀ new new', first new → exception (new' ++ new))
    (hsecond : ∀ new new', w.After new w1 → second new' → exception (new' ++ new)) :
    KeptUnless retry exception w w' failed := by
  rcases h with hkept | ⟨new, hnew, hexc⟩
  · rcases h' with hkept' | ⟨new', hnew', hexc'⟩
    · exact .inl (hkept.trans hkept')
    · obtain ⟨new, hnew, -⟩ := hkept
      exact .inr ⟨_, hnew.trans hnew', hsecond new new' hnew hexc'⟩
  · obtain ⟨new', hnew'⟩ := h'.after
    exact .inr ⟨_, hnew.trans hnew', hfirst new new' hexc⟩

theorem imp {failed' : Bool} (h : KeptUnless retry first w w' failed)
    (hf : failed = true → failed' = true)
    (hexc : ∀ new, w.After new w' → first new → exception new) :
    KeptUnless retry exception w w' failed' := by
  rcases h with hkept | ⟨new, hnew, h⟩
  · exact .inl (hkept.imp hf)
  · exact .inr ⟨new, hnew, hexc new hnew h⟩

end KeptUnless

/-- The moves of a request are attempts at it, and the last of them is its answer. -/
theorem Asked.moves {r : Request} {p : Except RpcError r.Response → Bool} {w w' : RpcWorld}
    {x : Except RpcError r.Response} (h : Asked r p w x w') :
    ∃ e before, w.After ((r, e) :: before) w' ∧ e.response r = x ∧ Again r p before := by
  induction h with
  | @last w w' e hs ht => exact ⟨e, [], ⟨ht, hs⟩, rfl, fun q hq => absurd hq List.not_mem_nil⟩
  | @again w w1 w' e x hs ht he _ ih =>
    obtain ⟨e', before, hnew, hx, hagain⟩ := ih
    have hfirst : w.After [(r, e)] w1 := ⟨ht, hs⟩
    refine ⟨e', before ++ [(r, e)], hfirst.trans hnew, hx, fun q hq => ?_⟩
    rcases List.mem_append.mp hq with hq | hq
    · exact hagain q hq
    · exact ⟨e, List.mem_singleton.mp hq, he⟩

/-- A request that runs under another setting keeps this one unless an attempt fails. -/
theorem Kept.under {r : Request} {p : Except RpcError r.Response → Bool} {setting failed : Bool}
    {w w' : RpcWorld} {x : Except RpcError r.Response} (h : Kept setting w w' failed)
    (hasked : Asked r p w x w') (retry : Bool) :
    KeptUnless retry
      (fun new => setting ≠ retry ∧ ∃ before, FailedAfter r before new ∧ Again r p before)
      w w' failed := by
  by_cases heq : setting = retry
  · rw [heq] at h
    exact .inl h
  obtain ⟨e, before, hnew, -, hagain⟩ := hasked.moves
  by_cases herror : ∃ q ∈ (r, e) :: before, isError (q.2.response q.1) = true
  · obtain ⟨q, hq, herror⟩ := herror
    refine .inr ⟨_, hnew, heq, ?_⟩
    rcases List.mem_cons.mp hq with rfl | hq
    · exact ⟨before, ⟨[], e, rfl, herror⟩, hagain⟩
    -- the error is not the last attempt: what is before it is before the last one too
    · obtain ⟨e', rfl, -⟩ := hagain q hq
      obtain ⟨later, earlier, hbefore⟩ := List.append_of_mem hq
      refine ⟨earlier, ⟨(r, e) :: later, e', by rw [hbefore]; rfl, herror⟩, fun q' hq' => ?_⟩
      have hmem : q' ∈ before := by
        rw [hbefore]
        exact List.mem_append_right _ (List.mem_cons_of_mem _ hq')
      exact hagain q' hmem
  · refine .inl (h.of_clean (fun new' hnew' q hq => ?_) retry)
    rw [hnew'.unique hnew] at hq
    exact Bool.eq_false_of_not_eq_true fun hq' => herror ⟨q, hq, hq'⟩

/-! ## The retry helpers -/

/-- What attempts at one request do, and when the pauses were all taken. -/
theorem attempts_moves {r : Request} {retried : Except RpcError r.Response → Bool}
    (durations : List Nat) {w w' : RpcWorld} {x : Except RpcError r.Response}
    (h : attempts retried (call r) durations w = some (x, w')) :
    ∃ earlier last, w.After ((earlier ++ [last]).map (r, ·)).reverse w' ∧ last.response r = x ∧
      earlier.length ≤ durations.length ∧ (∀ e ∈ earlier, retried (e.response r) = true) ∧
      (retried x = true → earlier.length = durations.length) := by
  induction durations generalizing w with
  | nil =>
    obtain ⟨e, hs, ht, hx⟩ := call_eq_some.mp h
    exact ⟨[], e, ⟨ht, hs⟩, hx, le_rfl, fun _ he => absurd he List.not_mem_nil, fun _ => rfl⟩
  | cons d ds ih =>
    obtain ⟨y, w1, hcall, h⟩ := bind_eq_some.mp h
    obtain ⟨e, hs, ht, rfl⟩ := call_eq_some.mp hcall
    have hfirst : w.After [(r, e)] w1 := ⟨ht, hs⟩
    split at h
    case isTrue he =>
      obtain ⟨earlier, last, hnew, hx, hlen, hall, hexhausted⟩ := ih h
      refine ⟨e :: earlier, last, ?_, hx, Nat.succ_le_succ hlen, ?_, ?_⟩
      · simpa using hfirst.trans hnew
      · intro e' he'
        rcases List.mem_cons.mp he' with rfl | he'
        · exact he
        · exact hall e' he'
      · intro hretried
        simp [hexhausted hretried]
    case isFalse he =>
      obtain ⟨rfl, rfl⟩ := pure_eq_some.mp h
      exact ⟨[], e, hfirst, rfl, Nat.zero_le _, fun _ hm => absurd hm List.not_mem_nil,
        fun hx => absurd hx he⟩

/-- One RPC as a run. -/
theorem Kept.of_log {retry : Bool} {w w' : RpcWorld} {p : RpcLog}
    (hnew : w.After p.moves.reverse w') (h : p.Honours retry) : Kept retry w w' p.failed := by
  refine ⟨p.moves.reverse, hnew, [p], ?_, ?_, ?_, ?_⟩
  · rw [List.reverse_reverse, List.flatMap_singleton]
  · intro q hq
    rw [List.mem_singleton.mp hq]
    exact h
  · intro q hq
    cases hq
  · intro hok q hq
    rw [List.mem_singleton.mp hq]
    exact hok

theorem withRetryOnError_kept {r : Request} {retry : Bool} {w w' : RpcWorld}
    {x : Except RpcError r.Response} (h : withRetryOnError (call r) retry w = some (x, w')) :
    Kept retry w w' (isError x) := by
  rw [withRetryOnError, withRetryOnErrorLoop_eq] at h
  obtain ⟨earlier, last, hnew, rfl, hlen, hall, hexhausted⟩ := attempts_moves _ h
  cases retry with
  | false =>
    obtain rfl := List.eq_nil_of_length_eq_zero (Nat.le_zero.mp hlen)
    refine Kept.of_log (p := ⟨r, [], last⟩) hnew
      ⟨Nat.zero_le _, fun _ he => absurd he List.not_mem_nil, ?_⟩
    intro _ hretry
    cases hretry
  | true =>
    exact Kept.of_log (p := ⟨r, earlier, last⟩) hnew
      ⟨hlen, fun e he => .inl ⟨hall e he, rfl⟩, fun hfailed _ => hexhausted hfailed⟩

theorem isErrorOrNone_eq_true {ε α : Type} {onError onNone : Bool} {y : Except ε (Option α)}
    (h : isErrorOrNone onError onNone y = true) :
    (isError y = true ∧ onError = true) ∨ y = .ok none := by
  match y with
  | .ok (some x) => cases h
  | .ok none => exact .inr rfl
  | .error e => exact .inl ⟨rfl, h⟩

theorem isErrorOrNone_of_isError {ε α : Type} {onNone : Bool} {y : Except ε (Option α)}
    (h : isError y = true) : isErrorOrNone true onNone y = true := by
  cases y with
  | ok x => cases h
  | error e => rfl

/-- The same for attempts that may follow an empty answer. -/
theorem attempts_kept {r : Request} {retried : Except RpcError r.Response → Bool} {retry : Bool}
    {w w' : RpcWorld} {x : Except RpcError r.Response}
    (hretried : ∀ y, retried y = true →
      (isError y = true ∧ retry = true) ∨ emptyAnswer r y = true)
    (herror : ∀ y, isError y = true → retry = true → retried y = true)
    (h : attempts retried (call r) sleepDuration.reverse w = some (x, w')) :
    Kept retry w w' (isError x) := by
  obtain ⟨earlier, last, hnew, rfl, hlen, hall, hexhausted⟩ := attempts_moves _ h
  rw [List.length_reverse] at hlen hexhausted
  exact Kept.of_log (p := ⟨r, earlier, last⟩) hnew ⟨hlen, fun e he => hretried _ (hall e he),
    fun hfailed hretry => hexhausted (herror _ hfailed hretry)⟩

/-- A program that computes its result from that of a first part, and fails if that does. -/
theorem Kept.finish {ε ε' α β : Type} {retry : Bool} {m : Rpc (Except ε α)}
    {k : Except ε α → Rpc (Except ε' β)} {w w' : RpcWorld} {y : Except ε' β}
    (hm : ∀ x w', m w = some (x, w') → Kept retry w w' (isError x))
    (hk : ∀ x, ∃ y, k x = pure y ∧ (isError x = true → isError y = true))
    (h : (m >>= k) w = some (y, w')) : Kept retry w w' (isError y) := by
  obtain ⟨x, w1, hx, h⟩ := bind_eq_some.mp h
  obtain ⟨y', hy, herror⟩ := hk x
  rw [hy] at h
  obtain ⟨rfl, rfl⟩ := pure_eq_some.mp h
  exact (hm x w1 hx).imp herror

/-! ## The chain helpers -/

variable {c : Chain} {w w' : RpcWorld}

theorem Chain.blockHash_kept {n : Option Nat} {x : Except RpcError (Option H256)}
    (h : c.blockHash n w = some (x, w')) : Kept c.shouldRetryOnError w w' (isError x) := by
  refine attempts_kept (r := .getBlockHash n) (fun y hy => ?_) (fun y hy hretry => ?_)
    (withRetryOnErrorAndNone_attempts h)
  · refine (isErrorOrNone_eq_true hy).imp_right fun hnone => ?_
    rw [hnone]
    rfl
  · rw [hretry]
    exact isErrorOrNone_of_isError hy

theorem Chain.legacyBlock_kept {hash : Option H256} {x : Except RpcError (Option LegacyBlock)}
    (h : c.legacyBlock hash w = some (x, w')) : Kept c.shouldRetryOnError w w' (isError x) := by
  refine attempts_kept (r := .getBlock hash) (fun y hy => ?_) (fun y hy hretry => ?_)
    (withRetryOnErrorAndNone_attempts h)
  · refine (isErrorOrNone_eq_true hy).imp_right fun hnone => ?_
    rw [hnone]
    rfl
  · rw [hretry]
    exact isErrorOrNone_of_isError hy

theorem Chain.getHeader_kept {hash : Option H256} {retry onNone : Bool}
    {x : Except RpcError (Option AvailHeader)}
    (h : withRetryOnErrorAndNone (call (.getHeader hash)) retry onNone w = some (x, w')) :
    Kept retry w w' (isError x) := by
  refine attempts_kept (r := .getHeader hash) (fun y hy => ?_) (fun y hy hretry => ?_)
    (withRetryOnErrorAndNone_attempts h)
  · refine (isErrorOrNone_eq_true hy).imp_right fun hnone => ?_
    rw [hnone]
    rfl
  · rw [hretry]
    exact isErrorOrNone_of_isError hy

theorem Chain.blockHeader_kept {hash : H256} {x : Except Error (Option AvailHeader)}
    (h : c.blockHeader (some (.hash hash)) w = some (x, w')) :
    Kept c.shouldRetryOnError w w' (isError x) := by
  simp only [Chain.blockHeader, Chain.toHashOption, Chain.toHash, pure_bind] at h
  refine Kept.finish (fun _ _ => Chain.getHeader_kept) (fun y => ?_) h
  cases y with
  | error e => exact ⟨_, rfl, id⟩
  | ok header => exact ⟨_, rfl, id⟩

theorem Chain.grandpaBlockJustification_kept {n : Nat}
    {x : Except RpcError (Option Grandpa.GrandpaJustification)}
    (h : c.grandpaBlockJustification n w = some (x, w')) :
    Kept c.shouldRetryOnError w w' (isError x) := by
  refine Kept.finish (fun _ _ => withRetryOnError_kept) (fun y => ?_) h
  match y with
  | .error e => exact ⟨_, rfl, id⟩
  | .ok none => exact ⟨_, rfl, id⟩
  | .ok (some text) => exact ⟨_, rfl, fun hfalse => by cases hfalse⟩

theorem Chain.systemFetchExtrinsics_kept {id : HashStringNumber} {opts : ExtrinsicOpts}
    {x : Except Error (List ExtrinsicInfo)} (h : c.systemFetchExtrinsics id opts w = some (x, w')) :
    Kept c.shouldRetryOnError w w' (isError x) := by
  unfold Chain.systemFetchExtrinsics at h
  cases hid : Chain.toHashNumber id with
  | error e =>
    rw [hid] at h
    obtain ⟨-, rfl⟩ := pure_eq_some.mp h
    exact .refl _ _ _
  | ok blockId =>
    rw [hid] at h
    refine Kept.finish (fun _ _ => withRetryOnError_kept) (fun y => ?_) h
    cases y with
    | error e => exact ⟨_, rfl, fun h => h⟩
    | ok infos => exact ⟨_, rfl, fun h => h⟩

theorem Chain.systemFetchEvents_under {hash : H256} {opts : EventOpts}
    {x : Except Error (List BlockPhaseEvent)}
    (h : c.systemFetchEvents (.hash hash) opts w = some (x, w')) (retry : Bool) :
    KeptUnless retry (fun new => c.shouldRetryOnError ≠ retry ∧
      ∃ before, FailedAfter (.fetchEvents hash opts) before new) w w' (isError x) := by
  simp only [Chain.systemFetchEvents, Chain.toHash, pure_bind] at h
  obtain ⟨y, w1, hfetch, h⟩ := bind_eq_some.mp h
  have hunder : KeptUnless retry (fun new => c.shouldRetryOnError ≠ retry ∧
      ∃ before, FailedAfter (.fetchEvents hash opts) before new) w w1 (isError y) := by
    refine ((withRetryOnError_kept hfetch).under (withRetryOnError_asked hfetch) retry).imp id ?_
    intro new _ hover
    obtain ⟨hne, before, hfailed, -⟩ := hover
    exact ⟨hne, before, hfailed⟩
  cases y with
  | error e =>
    obtain ⟨rfl, rfl⟩ := pure_eq_some.mp h
    exact hunder
  | ok events =>
    obtain ⟨rfl, rfl⟩ := pure_eq_some.mp h
    exact hunder

theorem BlockEncodedExtrinsicsQuery.all_kept {query : BlockEncodedExtrinsicsQuery}
    {opts : ExtrinsicOptions} {x : Except Error (List BlockEncodedExtrinsic)}
    (h : query.all opts w = some (x, w')) :
    Kept query.ctx.chain.shouldRetryOnError w w' (isError x) := by
  unfold BlockEncodedExtrinsicsQuery.all at h
  cases hid : query.ctx.hashNumber with
  | error e =>
    rw [hid] at h
    obtain ⟨-, rfl⟩ := pure_eq_some.mp h
    exact .refl _ _ _
  | ok blockId =>
    rw [hid] at h
    refine Kept.finish (fun _ _ => Chain.systemFetchExtrinsics_kept) (fun y => ?_) h
    cases y with
    | error e => exact ⟨_, rfl, id⟩
    | ok infos => exact ⟨_, rfl, fun hfalse => by cases hfalse⟩

theorem BlockExtrinsicsQuery.all_kept {T : Type} [HasHeader T] [Decode T]
    {query : BlockExtrinsicsQuery} {opts : ExtrinsicOptions}
    {x : Except Error (List (BlockExtrinsic T))} (h : query.all opts w = some (x, w')) :
    Kept query.xt.ctx.chain.shouldRetryOnError w w' (isError x) := by
  refine Kept.finish (fun _ _ => BlockEncodedExtrinsicsQuery.all_kept) (fun y => ?_) h
  cases y with
  | error e => exact ⟨_, rfl, id⟩
  | ok encoded => exact ⟨_, rfl, fun hfalse => by cases hfalse⟩

end AvailRust
