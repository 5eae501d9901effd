/-
  The mock client.

  A test queues responses for methods, and a request is met with the earliest response queued
  for its method, or forwarded to the client that the mock wraps. The responses of all methods
  are kept in one list, but each method has a queue of its own (`isQueues`): in every run of
  queueing and requests, the responses of a method are given out once and in order
  (`delivers`). A call of the client uses up the errors at the head of its queue, as far as its
  retries go, and returns (`justifications_come_back`).
-/
import AvailRust.Client.Chain
import AvailRust.Lib.Json
import AvailRust.Lib.Queues

namespace AvailRust

open Scale Dialogue Queues

/-- A queued response: an error, or the JSON text of a result, parsed. -/
abbrev Reply := Except RpcError Json.Value

structure CommandManager where
  list : List (String × Reply)

namespace CommandManager

def default : CommandManager := ⟨[]⟩

/-- `Vec::remove` gives the response at a position that `position` found. -/
def find (m : CommandManager) (method : String) : Option Reply × CommandManager :=
  match m.list.findIdx? (fun x => x.1 = method) with
  | none => (none, m)
  | some pos => (m.list[pos]?.map Prod.snd, ⟨m.list.eraseIdx pos⟩)

def addOk (m : CommandManager) (method : String) (value : Json.Value) : CommandManager :=
  ⟨m.list ++ [(method, .ok value)]⟩

def addErr (m : CommandManager) (method : String) (error : RpcError) : CommandManager :=
  ⟨m.list ++ [(method, .error error)]⟩

/-- Both, by the response. -/
def add (method : String) (reply : Reply) (m : CommandManager) : CommandManager :=
  match reply with
  | .ok value => m.addOk method value
  | .error error => m.addErr method error

/-! ## What the helper queues -/

/-- The error that is queued when none is given. -/
def disconnectedWillReconnect : RpcError := .rpc "Error"

/-- The JSON of an optional justification. -/
def justificationJson : Option Grandpa.GrandpaJustification → Json.Value
  | some justification => .string (String.ofList (Hex.encode (encode justification)))
  | none => .null

def justificationOk (m : CommandManager) (value : Option Grandpa.GrandpaJustification) :
    CommandManager :=
  m.addOk "grandpa_blockJustification" (justificationJson value)

/-- What the five helpers that queue an error do. -/
def err (method : String) (m : CommandManager) (value : Option RpcError) : CommandManager :=
  m.addErr method (value.getD disconnectedWillReconnect)

def justificationErr := err "grandpa_blockJustification"
def justificationJsonErr := err "grandpa_blockJustificationJson"
def extrinsicsErr := err "system_fetchExtrinsicsV1"
def legacyBlockErr := err "chain_getBlock"
def blockHeaderErr := err "chain_getHeader"

/-! ## A queue for each method -/

/-- The responses queued for a method. -/
def queued (method : String) (m : CommandManager) : List Reply := queue method m.list

theorem queued_add (method : String) (reply : Reply) (m : CommandManager) (other : String) :
    (m.add method reply).queued other
      = m.queued other ++ if other = method then [reply] else [] := by
  have hlist : (m.add method reply).list = m.list ++ [(method, reply)] := by
    cases reply <;> rfl
  unfold queued
  rw [hlist, queue_append]
  by_cases heq : other = method
  · subst heq
    rw [if_pos rfl, queue_cons_self]
    rfl
  · rw [if_neg heq, queue_cons_of_ne (Ne.symm heq)]
    rfl

/-- The list of the mock is a queue for each method. -/
theorem isQueues : IsQueues add (fun method m => m.find method) queued where
  put := queued_add
  given method m := by
    unfold find queued
    cases hpos : m.list.findIdx? (fun x => x.1 = method) with
    | none => rw [queue_of_findIdx?_none hpos]; rfl
    | some pos => exact (head?_queue_of_findIdx? hpos).symm
  left method m other := by
    unfold find queued
    cases hpos : m.list.findIdx? (fun x => x.1 = method) with
    | none =>
      have hempty := queue_of_findIdx?_none hpos
      by_cases heq : other = method
      · subst heq
        rw [if_pos rfl, hempty]
        rfl
      · rw [if_neg heq]
    | some pos => exact queue_eraseIdx hpos other

/-- A run of a test: responses queued and requests made, in any order. -/
abbrev session (ops : List (String × Move Reply)) : List (String × Option Reply) × CommandManager :=
  run add (fun method m => m.find method) ops default

/-- The responses that requests for a method were met with. -/
def delivered (method : String) (ops : List (String × Move Reply)) : List Reply :=
  (queue method (session ops).1).filterMap id

/-- In every run the responses queued for a method meet the requests for it, each once and in
    order; a request is forwarded exactly when all of them have been used; and what is queued and
    asked for other methods makes no difference. -/
theorem delivers (ops : List (String × Move Reply)) (method : String) :
    delivered method ops ++ (session ops).2.queued method = added (queue method ops) ∧
    (((session ops).2.find method).1 = none ↔
      delivered method ops = added (queue method ops)) ∧
    queue method (session ops).1
      = queue method (session (ops.filter fun op => op.1 = method)).1 := by
  have hall : delivered method ops ++ (session ops).2.queued method = added (queue method ops) :=
    run_conserves isQueues method ops default
  refine ⟨hall, ?_, run_alone isQueues method ops default⟩
  rw [isQueues.given, ← hall]
  cases (session ops).2.queued method with
  | nil => simp
  | cons reply left => simp

end CommandManager

/-! ## A call of the client -/

/-- The method of a request. -/
def Request.method : Request → String
  | .latestBlockInfo _ => "system_latestBlockInfo"
  | .latestChainInfo => "system_latestChainInfo"
  | .getBlockHash _ => "chain_getBlockHash"
  | .getBlockNumber _ => "system_getBlockNumber"
  | .getHeader _ => "chain_getHeader"
  | .getBlock _ => "chain_getBlock"
  | .blockJustification _ => "grandpa_blockJustification"
  | .fetchExtrinsics _ _ => "system_fetchExtrinsicsV1"
  | .fetchEvents _ _ => "system_fetchEventsV1"
  | .systemAccount _ _ => "state_getStorage"
  | .accountNextIndex _ => "system_accountNextIndex"
  | .submitExtrinsic _ => "author_submitExtrinsic"

/-- How a result is read from its JSON. -/
abbrev FromJson := (r : Request) → Json.Value → Except RpcError r.Response

/-- `serde_json` reads an optional text. -/
structure ReadsJustifications (fromJson : FromJson) : Prop where
  null : ∀ height, fromJson (.blockJustification height) .null = .ok none
  string : ∀ height text, fromJson (.blockJustification height) (.string text) = .ok (some text)

/-- The moves were those of a mock with these responses, which has then these left: a request met
    a queued response, or the client that the mock wraps did what it likes. -/
inductive Mocked (fromJson : FromJson) :
    CommandManager → List (Request × Event) → CommandManager → Prop where
  | nil (m : CommandManager) : Mocked fromJson m [] m
  | queued {m m' : CommandManager} {r : Request} {e : Event} {rest : List (Request × Event)}
      {reply : Reply} (hfind : (m.find r.method).1 = some reply)
      (hresponse : e.response r = reply >>= fromJson r)
      (hrest : Mocked fromJson (m.find r.method).2 rest m') :
      Mocked fromJson m ((r, e) :: rest) m'
  | forwarded {m m' : CommandManager} {r : Request} {e : Event} {rest : List (Request × Event)}
      (hfind : (m.find r.method).1 = none)
      (hrest : Mocked fromJson m rest m') : Mocked fromJson m ((r, e) :: rest) m'

namespace Mocked

variable {fromJson : FromJson} {m m' : CommandManager} {r : Request} {e : Event}
  {rest : List (Request × Event)}

/-- A request for whose method something is queued meets the first of it. -/
theorem cons {reply : Reply} {replies : List Reply}
    (h : Mocked fromJson m ((r, e) :: rest) m') (hqueue : m.queued r.method = reply :: replies) :
    ∃ m1, e.response r = reply >>= fromJson r ∧ Mocked fromJson m1 rest m' ∧
      m1.queued r.method = replies ∧
      ∀ other, other ≠ r.method → m1.queued other = m.queued other := by
  have hgiven : (m.find r.method).1 = some reply := by
    have hhead := CommandManager.isQueues.given r.method m
    rw [hqueue] at hhead
    exact hhead
  cases h with
  | forwarded hfind _ =>
    rw [hgiven] at hfind
    cases hfind
  | queued hfind hresponse hrest =>
    rw [hgiven] at hfind
    cases hfind
    refine ⟨_, hresponse, hrest, ?_, fun other hother => ?_⟩
    · rw [CommandManager.isQueues.left, if_pos rfl, hqueue]
      rfl
    · rw [CommandManager.isQueues.left, if_neg hother]

/-- Requests for one method meet what is queued for it, one after the other. -/
theorem responses {events : List Event} {replies left : List Reply}
    (h : Mocked fromJson m (events.map (r, ·)) m') (hqueue : m.queued r.method = replies ++ left)
    (hlength : events.length = replies.length) :
    events.map (·.response r) = replies.map (· >>= fromJson r) ∧ m'.queued r.method = left ∧
      ∀ other, other ≠ r.method → m'.queued other = m.queued other := by
  induction events generalizing m replies with
  | nil =>
    obtain rfl := List.eq_nil_of_length_eq_zero hlength.symm
    cases h
    exact ⟨rfl, hqueue, fun _ _ => rfl⟩
  | cons e events ih =>
    cases replies with
    | nil => cases hlength
    | cons reply replies =>
      obtain ⟨m1, hresponse, hrest, hqueue1, hothers⟩ := h.cons hqueue
      obtain ⟨hresponses, hleft, hothers1⟩ := ih hrest hqueue1 (Nat.succ.inj hlength)
      refine ⟨?_, hleft, fun other hother => (hothers1 other hother).trans (hothers other hother)⟩
      rw [List.map_cons, List.map_cons, hresponse, hresponses]

end Mocked

/-- What is made of the answer to a request for a justification. -/
def justificationOf : Option String → Except RpcError (Option Grandpa.GrandpaJustification)
  | none => .ok none
  | some text => some <$> Chain.decodeJustification text

/-- The JSON of an optional justification is read as this one. -/
theorem justificationOf_json {fromJson : FromJson} (h : ReadsJustifications fromJson)
    (height : Nat) (value : Option Grandpa.GrandpaJustification) :
    ∃ text, fromJson (.blockJustification height) (CommandManager.justificationJson value)
        = .ok text ∧ justificationOf text = .ok value := by
  cases value with
  | none => exact ⟨none, h.null height, rfl⟩
  | some justification =>
    refine ⟨_, h.string height _, ?_⟩
    show some <$> Chain.decodeJustification _ = _
    rw [Chain.decodeJustification_encode]
    rfl

/-- How often a client asks again. -/
def Chain.retries (c : Chain) : Nat := if c.shouldRetryOnError then sleepDuration.length else 0

theorem Chain.length_pauses (c : Chain) :
    (if c.shouldRetryOnError then sleepDuration.reverse else []).length = c.retries := by
  unfold Chain.retries
  split <;> rfl

/-- A call that meets errors it may retry, and then an answer or the error after the last retry. -/
theorem Chain.grandpaBlockJustification_returns {c : Chain} {height : Nat} {w : RpcWorld}
    {earlier rest : List Event} {last : Event} (hscript : w.script = earlier ++ last :: rest)
    (hlength : earlier.length ≤ c.retries)
    (hearlier : ∀ e ∈ earlier, isError (e.response (.blockJustification height)) = true)
    (hlast : isError (last.response (.blockJustification height)) = true →
      earlier.length = c.retries) :
    ∃ w', c.grandpaBlockJustification height w
        = some (last.response (.blockJustification height) >>= justificationOf, w') ∧
      w.After ((earlier ++ [last]).map (Request.blockJustification height, ·)).reverse w' := by
  rw [← c.length_pauses] at hlength hlast
  obtain ⟨w', hrun, hnew⟩ := attempts_returns hscript hlength hearlier hlast
  have hasked : withRetryOnError (call (.blockJustification height)) c.shouldRetryOnError w
      = some (last.response (.blockJustification height), w') := by
    rw [withRetryOnError, withRetryOnErrorLoop_eq]
    exact hrun
  refine ⟨w', ?_, hnew⟩
  unfold Chain.grandpaBlockJustification
  rw [bind_of_eq hasked]
  rcases last.response (.blockJustification height) with e | _ | text <;> rfl

/-- The requests of a call that meets these errors first: one for each that it may retry, and one
    for what is behind them. -/
def Chain.asks (c : Chain) (errors : List RpcError) : Nat := min errors.length c.retries + 1

/-- A call for which these errors are queued ends at the value, or at the error after its last
    retry. -/
theorem Chain.cut_queue (c : Chain) (errors : List RpcError) (value : Json.Value)
    (replies : List Reply) : ∃ (front : List RpcError) (reply : Reply) (left : List Reply),
      errors.map .error ++ .ok value :: replies = (front.map .error ++ [reply]) ++ left ∧
      front.length + 1 = c.asks errors ∧
      ((errors.length ≤ c.retries ∧ reply = .ok value ∧ left = replies) ∨
       ∃ error, errors[c.retries]? = some error ∧ reply = .error error ∧
         left = (errors.drop (c.retries + 1)).map .error ++ .ok value :: replies) := by
  unfold Chain.asks
  rcases Nat.lt_or_ge c.retries errors.length with hmany | hfew
  · refine ⟨errors.take c.retries, .error errors[c.retries], _, ?_, ?_,
      .inr ⟨_, List.getElem?_eq_getElem hmany, rfl, rfl⟩⟩
    · have hsplit : errors = errors.take c.retries
          ++ errors[c.retries] :: errors.drop (c.retries + 1) := by
        rw [← List.drop_eq_getElem_cons hmany, List.take_append_drop]
      conv_lhs => rw [hsplit]
      simp only [List.map_append, List.map_cons, List.append_assoc, List.cons_append,
        List.nil_append]
    · rw [List.length_take, Nat.min_comm]
  · refine ⟨errors, .ok value, replies, ?_, ?_, .inl ⟨hfew, rfl, rfl⟩⟩
    · simp
    · rw [Nat.min_eq_left hfew]

/-- A call for a justification uses up the errors queued before it, and returns: it gives the
    justification that was queued if they are no more than the client's retries, and otherwise
    fails with the one after the last retry; what is queued behind and for other methods stays. -/
theorem justifications_come_back (fromJson : FromJson) (hjson : ReadsJustifications fromJson)
    (c : Chain) (height : Nat) (m m' : CommandManager) (errors : List RpcError)
    (value : Option Grandpa.GrandpaJustification) (replies : List Reply)
    (hqueue : m.queued "grandpa_blockJustification"
      = errors.map .error ++ .ok (CommandManager.justificationJson value) :: replies)
    (w : RpcWorld) (hplayed : c.asks errors ≤ w.script.length)
    (hserved : Mocked fromJson m
      ((w.script.take (c.asks errors)).map (Request.blockJustification height, ·)) m') :
    ∃ x w', c.grandpaBlockJustification height w = some (x, w') ∧
      w.After ((w.script.take (c.asks errors)).map (Request.blockJustification height, ·)).reverse
        w' ∧
      (errors.length ≤ c.retries → x = .ok value ∧
        m'.queued "grandpa_blockJustification" = replies) ∧
      (∀ error, errors[c.retries]? = some error → x = .error error ∧
        m'.queued "grandpa_blockJustification" = (errors.drop (c.retries + 1)).map .error
          ++ .ok (CommandManager.justificationJson value) :: replies) ∧
      ∀ other, other ≠ "grandpa_blockJustification" → m'.queued other = m.queued other := by
  obtain ⟨text, htext, hvalue⟩ := justificationOf_json hjson height value
  obtain ⟨front, reply, left, hcut, hfront, hends⟩ :=
    c.cut_queue errors (CommandManager.justificationJson value) replies
  -- the moves that are played, and the last of them
  have hlength : (w.script.take (c.asks errors)).length = front.length + 1 := by
    rw [List.length_take, Nat.min_eq_left hplayed, hfront]
  obtain ⟨earlier, last, hmoves⟩ : ∃ earlier last,
      w.script.take (c.asks errors) = earlier ++ [last] :=
    ⟨_, _, (List.dropLast_concat_getLast (List.ne_nil_of_length_eq_add_one hlength)).symm⟩
  have hscript : w.script = earlier ++ last :: w.script.drop (c.asks errors) := by
    conv_lhs => rw [← List.take_append_drop (c.asks errors) w.script, hmoves]
    simp
  rw [hmoves] at hserved hlength ⊢
  have hearlierLength : earlier.length = front.length := by
    rw [List.length_append] at hlength
    exact Nat.succ.inj hlength
  obtain ⟨hresponses, hleft, hothers⟩ := hserved.responses (hqueue.trans hcut) (by
    rw [hlength, List.length_append, List.length_map, List.length_singleton])
  rw [List.map_append, List.map_append] at hresponses
  obtain ⟨hfronts, hlasts⟩ := List.append_inj hresponses (by
    simp only [List.length_map, hearlierLength])
  have hlastResponse : last.response (.blockJustification height)
      = reply >>= fromJson (.blockJustification height) := List.cons.inj hlasts |>.1
  have hearlier : ∀ e ∈ earlier, isError (e.response (.blockJustification height)) = true := by
    intro e he
    have hmem := List.mem_map_of_mem (f := (·.response (.blockJustification height))) he
    rw [hfronts, List.map_map] at hmem
    obtain ⟨error, -, herror⟩ := List.mem_map.mp hmem
    rw [← herror]
    rfl
  have hwithin : earlier.length ≤ c.retries := by
    unfold Chain.asks at hfront
    omega
  rcases hends with ⟨hfew, rfl, rfl⟩ | ⟨error, hget, rfl, rfl⟩
  · have hanswer : last.response (.blockJustification height) = .ok text :=
      hlastResponse.trans htext
    obtain ⟨w', hrun, hnew⟩ := Chain.grandpaBlockJustification_returns hscript hwithin hearlier
      fun herror => by
        rw [hanswer] at herror
        cases herror
    rw [hanswer] at hrun
    refine ⟨_, w', hrun, hnew, fun _ => ⟨hvalue, hleft⟩, fun error hget => ?_, hothers⟩
    rw [List.getElem?_eq_none hfew] at hget
    cases hget
  · have hanswer : last.response (.blockJustification height) = .error error := hlastResponse
    obtain ⟨hmany, -⟩ := List.getElem?_eq_some_iff.mp hget
    obtain ⟨w', hrun, hnew⟩ := Chain.grandpaBlockJustification_returns hscript hwithin hearlier
      fun _ => by
        unfold Chain.asks at hfront
        omega
    rw [hanswer] at hrun
    refine ⟨_, w', hrun, hnew, fun hfew => ?_, fun error' hget' => ?_, hothers⟩
    · omega
    · rw [hget] at hget'
      cases hget'
      exact ⟨rfl, hleft⟩

/-- What `serde_json` makes of null and of texts, where justifications are asked for. -/
def optionalText : FromJson
  | .blockJustification _, .null => .ok none
  | .blockJustification _, .string text => .ok (some text)
  | _, _ => .error (.rpc "invalid type")

/-- A justification of block 4, with one vote. -/
def oneVote : Grandpa.GrandpaJustification where
  round := 7
  commit :=
    { targetHash := .fill 32 4
      targetNumber := 4
      precommits := ⟨[⟨⟨.fill 32 4, 4⟩, ⟨.fill 64 1⟩, ⟨.fill 32 9⟩⟩], by decide⟩ }
  votesAncestries := Vec.nil

/-- Two errors and then a justification, queued for a client that asks again. -/
theorem justifications_come_back_twoErrors :
    let m := ((CommandManager.default.justificationErr none).justificationErr none).justificationOk
      (some oneVote)
    let lost : Event := .fail none CommandManager.disconnectedWillReconnect
    let moves : List Event := [lost, lost,
      .answer fun r => optionalText r (CommandManager.justificationJson (some oneVote))]
    Mocked optionalText m (moves.map (Request.blockJustification 4, ·)) .default ∧
      ∃ w', (Chain.new Client.devnet).grandpaBlockJustification 4 (start Request moves)
        = some (.ok (some oneVote), w') := by
  intro m lost moves
  have hserved : Mocked optionalText m (moves.map (Request.blockJustification 4, ·)) .default :=
    .queued rfl rfl (.queued rfl rfl (.queued rfl rfl (.nil _)))
  obtain ⟨x, w', hrun, -, hvalue, -⟩ := justifications_come_back optionalText
    ⟨fun _ => rfl, fun _ _ => rfl⟩ (Chain.new Client.devnet) 4 m .default
    [CommandManager.disconnectedWillReconnect, CommandManager.disconnectedWillReconnect]
    (some oneVote) [] rfl (start Request moves) (by decide) hserved
  obtain ⟨rfl, -⟩ := hvalue (by decide)
  exact ⟨hserved, w', hrun⟩

end AvailRust
