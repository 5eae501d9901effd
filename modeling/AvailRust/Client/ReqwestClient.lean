/-
  The HTTP client.

  Any number of calls share one channel to a worker, which posts the requests one at a time and
  hands each response to the call it belongs to. A state of the client is what each call is at,
  the channel, the worker and the server; a step is one of a call, of the worker or of the runtime
  that drops one of them. The client simulates an object that does each call in one step
  (`simulates`), so its calls are linearizable (`linearizable`), and no call is ever stuck
  (`settles`).
-/
import AvailRust.Lib.Json
import AvailRust.Lib.Systems

namespace AvailRust.ReqwestClient

open Systems

/-! ## Requests and responses -/

/-- The method and the parameters of a call. -/
structure Ask where
  method : String
  params : Option Json.Value

structure RequestSer where
  jsonrpc : String
  id : UInt64
  method : String
  params : Option Json.Value

def RequestSer.owned (id : UInt64) (method : String) (params : Option Json.Value) : RequestSer :=
  ⟨"2.0", id, method, params⟩

/-- The request was not sent, was refused, or was answered with what is not JSON. -/
inductive ReqwestError where
  | send (text : String)
  | status (code : Nat)
  | decode (text : String)

/-- A response, with its body parsed as JSON. -/
structure HttpResponse where
  status : Nat
  body : Except String Json.Value

def HttpResponse.errorForStatus (response : HttpResponse) : Except ReqwestError HttpResponse :=
  if 400 ≤ response.status ∧ response.status < 600 then .error (.status response.status)
  else .ok response

def HttpResponse.json (response : HttpResponse) : Except ReqwestError Json.Value :=
  response.body.mapError .decode

abbrev ResponseMessage := Except ReqwestError Json.Value

/-- What the worker sends back to a call, by what came of posting its request. -/
def respond (sent : Except ReqwestError HttpResponse) : ResponseMessage := do
  let response ← sent
  let response ← response.errorForStatus
  response.json

inductive ClientError where
  | reqwest (error : ReqwestError)
  | response (text : String)

abbrev Outcome := Except ClientError Json.Value

/-- What a call makes of the response to its request: `toText` is the JSON text of a value. -/
def readResponse (toText : Json.Value → String) (requestId : UInt64) :
    ResponseMessage → Outcome
  | .error error => .error (.reqwest error)
  | .ok response =>
    match (response.get "id").map Json.Value.asU64 with
    | some (some responseId) =>
      if requestId ≠ responseId then .error (.response "Not Pending Request")
      else result response
    | _ => result response
where
  result (response : Json.Value) : Outcome :=
    match response.get "error" with
    | some err => .error (.response (toText err))
    | none =>
      match response.get "result" with
      | none => .error (.response "Failed to find result.")
      | some result => .ok result

/-! ## The client -/

/-- What a call of `request_raw` is at. One that is dropped never returns. -/
inductive CallState where
  | called (ask : Ask)
  | numbered (ask : Ask) (id : UInt64)
  | waiting (id : UInt64) (response : Option ResponseMessage)
  | finished
  | dropped

/-- A request and the call that it belongs to. -/
abbrev ChannelMessage := Nat × RequestSer

inductive Worker where
  | idle
  | busy (message : ChannelMessage)
  | stopped

structure State (S : Type) where
  id : UInt64
  calls : List CallState
  channel : List ChannelMessage
  worker : Worker
  server : S

/-- What happens in a step: a call is made, goes on or returns, or the worker goes on; or a call or
    the worker is dropped. -/
inductive Event where
  | invoke (i : Nat) (ask : Ask)
  | work
  | ret (i : Nat) (outcome : Outcome)
  | drop
  | stop

/-- What is seen: the calls that are made and their returns, and the worker's end. -/
def Event.seen : Event → Option (Call Ask Outcome)
  | .invoke i ask => some (.invoke i ask)
  | .ret i outcome => some (.ret i outcome)
  | .stop => some .stop
  | .work | .drop => none

/-- The response is sent to the call, unless the call has been dropped. -/
def deliver (i : Nat) (response : ResponseMessage) (calls : List CallState) : List CallState :=
  match calls[i]? with
  | some (.waiting id none) => calls.set i (.waiting id (some response))
  | _ => calls

def capacity : Nat := 1024

variable {S : Type}

def new (server : S) : State S := ⟨0, [], [], .idle, server⟩

variable (http : S → RequestSer → Except ReqwestError HttpResponse → S → Prop)
  (toText : Json.Value → String)

/-- `http` is what may come of posting a request to the server. The task that the worker runs, and
    what is left in the channel, is dropped with its runtime; the request that was being posted may
    have reached the server. -/
inductive Step : State S → Event → State S → Prop where
  | invoke (s : State S) (ask : Ask) :
      Step s (.invoke s.calls.length ask) { s with calls := s.calls ++ [.called ask] }
  | number (s : State S) {i : Nat} {ask : Ask} (hcall : s.calls[i]? = some (.called ask)) :
      Step s .work { s with id := s.id + 1, calls := s.calls.set i (.numbered ask s.id) }
  | send (s : State S) {i : Nat} {ask : Ask} {id : UInt64}
      (hcall : s.calls[i]? = some (.numbered ask id)) (hruns : s.worker ≠ .stopped)
      (hroom : s.channel.length < capacity) :
      Step s .work { s with
        calls := s.calls.set i (.waiting id none)
        channel := s.channel ++ [(i, .owned id ask.method ask.params)] }
  | sendFailed (s : State S) {i : Nat} {ask : Ask} {id : UInt64}
      (hcall : s.calls[i]? = some (.numbered ask id)) (hstopped : s.worker = .stopped) :
      Step s (.ret i (.error (.response "Failed to send request")))
        { s with calls := s.calls.set i .finished }
  | recv (s : State S) {message : ChannelMessage} {rest : List ChannelMessage}
      (hidle : s.worker = .idle) (hchannel : s.channel = message :: rest) :
      Step s .work { s with worker := .busy message, channel := rest }
  | respond (s : State S) {i : Nat} {body : RequestSer}
      {sent : Except ReqwestError HttpResponse} {server : S}
      (hbusy : s.worker = .busy (i, body)) (hhttp : http s.server body sent server) :
      Step s .work { s with
        calls := deliver i (ReqwestClient.respond sent) s.calls, worker := .idle, server := server }
  | receive (s : State S) {i : Nat} {id : UInt64} {response : ResponseMessage}
      (hcall : s.calls[i]? = some (.waiting id (some response))) :
      Step s (.ret i (readResponse toText id response)) { s with calls := s.calls.set i .finished }
  | receiveFailed (s : State S) {i : Nat} {id : UInt64}
      (hcall : s.calls[i]? = some (.waiting id none)) (hstopped : s.worker = .stopped) :
      Step s (.ret i (.error (.response "Failed to receive message")))
        { s with calls := s.calls.set i .finished }
  | drop (s : State S) {i : Nat} {call : CallState} (hcall : s.calls[i]? = some call)
      (hopen : call ≠ .finished ∧ call ≠ .dropped) :
      Step s .drop { s with calls := s.calls.set i .dropped }
  | stop (s : State S) (hruns : s.worker ≠ .stopped) :
      Step s .stop { s with worker := .stopped, channel := [] }
  | abort (s : State S) {message : ChannelMessage} {sent : Except ReqwestError HttpResponse}
      {server : S} (hbusy : s.worker = .busy message)
      (hhttp : http s.server message.2 sent server) :
      Step s .stop { s with worker := .stopped, channel := [], server := server }

/-- The client in front of a server that starts as `server`. -/
def client (server : S) : System (State S) Event where
  start s := s = new server
  step := Step http toText

/-! ## One call at a time -/

/-- A request is posted with some id, and its response is read. A call whose request or response
    cannot pass is told so. -/
def service : Service S Ask Outcome where
  serve server ask outcome server' := ∃ id sent,
    http server (.owned id ask.method ask.params) sent server' ∧
      outcome = readResponse toText id (respond sent)
  lost outcome := outcome = .error (.response "Failed to send request") ∨
    outcome = .error (.response "Failed to receive message")

/-! ## The simulation -/

/-- The messages that have not been answered, in the order in which they were sent. -/
def State.messages (s : State S) : List ChannelMessage :=
  match s.worker with
  | .busy message => message :: s.channel
  | _ => s.channel

theorem State.messages_push (s : State S) (calls : List CallState) (message : ChannelMessage) :
    State.messages { s with calls := calls, channel := s.channel ++ [message] }
      = s.messages ++ [message] := by
  unfold State.messages
  cases s.worker <;> rfl

/-- A response ends the wait of the call that it is for. -/
theorem waiting_of_deliver {i j : Nat} {response : ResponseMessage} {calls : List CallState}
    {id : UInt64} (h : (deliver i response calls)[j]? = some (.waiting id none)) :
    j ≠ i ∧ calls[j]? = some (.waiting id none) := by
  unfold deliver at h
  split at h
  · rcases getElem?_of_set h with ⟨-, heq⟩ | hold
    · simp at heq
    · exact hold
  · next hother =>
    refine ⟨?_, h⟩
    rintro rfl
    exact hother id h

/-- What a call is at, and what it is at in the object that does it in one step. -/
def Matches : CallState → Phase Ask Outcome → Prop
  | .called ask, phase | .numbered ask _, phase => phase = .pending ask
  | .waiting _ none, phase => phase ≠ .finished
  | .waiting id (some response), phase =>
    ∃ ask, phase = .performed ask (readResponse toText id response)
  | .finished, phase => phase = .finished
  | .dropped, _ => True

/-- A message asks for what its call asked for, with the id of the call. The call was not done, and
    it waits or was dropped. -/
def Stands (calls : List CallState) (phases : List (Phase Ask Outcome))
    (message : ChannelMessage) : Prop :=
  ∃ ask id, message.2 = .owned id ask.method ask.params ∧
    phases[message.1]? = some (.pending ask) ∧
    (calls[message.1]? = some (.waiting id none) ∨ calls[message.1]? = some .dropped)

structure Refines (s : State S) (t : AtomicState S Ask Outcome) : Prop where
  server : t.server = s.server
  calls : List.Forall₂ (Matches toText) s.calls t.calls
  messages : ∀ message ∈ s.messages, Stands s.calls t.calls message
  distinct : (s.messages.map Prod.fst).Nodup
  left : s.worker = .stopped → s.messages = []
  stopped : t.stopped = true ↔ s.worker = .stopped

variable {http toText}

/-- A message of another call stands when a call goes on. -/
theorem Stands.set {calls : List CallState} {phases : List (Phase Ask Outcome)}
    {message : ChannelMessage} (h : Stands calls phases message) {i : Nat} (hne : message.1 ≠ i)
    (call : CallState) (phase : Phase Ask Outcome) :
    Stands (calls.set i call) (phases.set i phase) message := by
  unfold Stands
  rw [List.getElem?_set_ne hne.symm, List.getElem?_set_ne hne.symm]
  exact h

/-- A call that neither waits nor was dropped has no message. -/
theorem Stands.ne {calls : List CallState} {phases : List (Phase Ask Outcome)}
    {message : ChannelMessage} (h : Stands calls phases message) {i : Nat} {call : CallState}
    (hcall : calls[i]? = some call) (hnone : ∀ id, call ≠ .waiting id none)
    (hopen : call ≠ .dropped) : message.1 ≠ i := by
  intro heq
  obtain ⟨ask, id, -, -, hwait | hdrop⟩ := h
  · rw [heq, hcall] at hwait
    exact hnone id (Option.some.inj hwait)
  · rw [heq, hcall] at hdrop
    exact hopen (Option.some.inj hdrop)

variable {s : State S} {t : AtomicState S Ask Outcome}

/-- A call without a message goes on. -/
theorem Refines.advance (h : Refines toText s t) {i : Nat}
    (hfree : ∀ message ∈ s.messages, message.1 ≠ i) (id : UInt64) {call : CallState}
    {phase : Phase Ask Outcome} (hmatch : Matches toText call phase) :
    Refines toText { s with id := id, calls := s.calls.set i call }
      { t with calls := t.calls.set i phase } where
  server := h.server
  calls := forall₂_set h.calls hmatch i
  messages message hmem := (h.messages message hmem).set (hfree message hmem) call phase
  distinct := h.distinct
  left := h.left
  stopped := h.stopped

theorem Refines.runs (h : Refines toText s t) (hruns : s.worker ≠ .stopped) : t.stopped = false :=
  Bool.eq_false_iff.mpr fun hstopped => hruns (h.stopped.mp hstopped)

/-- A call is sent: the object has not done it yet. -/
theorem Refines.send (h : Refines toText s t) {i : Nat} {ask : Ask} {id : UInt64}
    (hcall : s.calls[i]? = some (.numbered ask id)) (hruns : s.worker ≠ .stopped) :
    Refines toText { s with
      calls := s.calls.set i (.waiting id none)
      channel := s.channel ++ [(i, .owned id ask.method ask.params)] } t := by
  obtain ⟨phase, hphase, hmatch⟩ := forall₂_getElem? h.calls hcall
  obtain rfl : phase = .pending ask := hmatch
  have hlt : i < s.calls.length := (List.getElem?_eq_some_iff.mp hcall).1
  have hfree : ∀ message ∈ s.messages, message.1 ≠ i := fun message hmem =>
    (h.messages message hmem).ne hcall (by simp) (by simp)
  have hset := set_of_getElem? hphase
  refine ⟨h.server, ?_, ?_, ?_, fun hstopped => absurd hstopped hruns, h.stopped⟩
  · have hcalls := forall₂_set h.calls (x := .waiting id none) (y := .pending ask)
      (by simp [Matches]) i
    rwa [hset] at hcalls
  · rw [State.messages_push]
    intro message hmem
    rcases List.mem_append.mp hmem with hold | hlast
    · have hstands := (h.messages message hold).set (hfree message hold) (.waiting id none)
        (.pending ask)
      rwa [hset] at hstands
    · rw [List.mem_singleton.mp hlast]
      exact ⟨ask, id, rfl, hphase, .inl (List.getElem?_set_self hlt)⟩
  · rw [State.messages_push, List.map_append]
    refine List.Nodup.append h.distinct (List.nodup_singleton _) ?_
    intro j hj hi
    obtain ⟨message, hmem, rfl⟩ := List.mem_map.mp hj
    exact hfree message hmem (List.mem_singleton.mp hi)

/-- A call is dropped, and what was sent for it stands. -/
theorem Refines.drop (h : Refines toText s t) {i : Nat} (hlt : i < s.calls.length) :
    Refines toText { s with calls := s.calls.set i .dropped } t := by
  obtain ⟨phase, hphase, -⟩ := forall₂_getElem? h.calls (List.getElem?_eq_getElem hlt)
  have hset := set_of_getElem? hphase
  refine ⟨h.server, ?_, ?_, h.distinct, h.left, h.stopped⟩
  · have hcalls := forall₂_set h.calls (x := .dropped) (y := phase) trivial i
    rwa [hset] at hcalls
  · intro message hmem
    by_cases heq : message.1 = i
    · obtain ⟨ask, id, hbody, hpending, -⟩ := h.messages message hmem
      subst heq
      exact ⟨ask, id, hbody, hpending, .inr (List.getElem?_set_self hlt)⟩
    · have hstands := (h.messages message hmem).set heq .dropped phase
      rwa [hset] at hstands

/-- The call of the message that the worker is busy with is done. It matches what the call is at
    whether or not the worker tells it. -/
theorem Refines.perform (h : Refines toText s t) {i : Nat} {body : RequestSer}
    {sent : Except ReqwestError HttpResponse} {server : S} (hbusy : s.worker = .busy (i, body))
    (hhttp : http s.server body sent server) :
    ∃ ask outcome call,
      AtomicStep (service http toText) t none { t with
        calls := t.calls.set i (.performed ask outcome)
        server := server
        history := t.history ++ [(i, ask, outcome)] } ∧
      List.Forall₂ (Matches toText) s.calls (t.calls.set i (.performed ask outcome)) ∧
      deliver i (ReqwestClient.respond sent) s.calls = s.calls.set i call ∧
      Matches toText call (.performed ask outcome) := by
  have hmem : (i, body) ∈ s.messages := by
    unfold State.messages
    rw [hbusy]
    exact List.mem_cons_self
  obtain ⟨ask, id, rfl, hpending, hcall⟩ := h.messages _ hmem
  have hserve : (service http toText).serve t.server ask
      (readResponse toText id (ReqwestClient.respond sent)) server := by
    rw [h.server]
    exact ⟨id, sent, hhttp, rfl⟩
  have hruns : t.stopped = false := h.runs (by simp [hbusy])
  rcases hcall with hwait | hdrop
  · refine ⟨ask, _, .waiting id (some (ReqwestClient.respond sent)),
      .perform t hpending hserve hruns, ?_, ?_, ask, rfl⟩
    · have hcalls := forall₂_set h.calls (x := .waiting id none)
        (y := .performed ask (readResponse toText id (ReqwestClient.respond sent)))
        (by simp [Matches]) i
      rwa [set_of_getElem? hwait] at hcalls
    · unfold deliver
      rw [hwait]
  · refine ⟨ask, _, .dropped, .perform t hpending hserve hruns, ?_, ?_, trivial⟩
    · have hcalls := forall₂_set h.calls (x := .dropped)
        (y := .performed ask (readResponse toText id (ReqwestClient.respond sent))) trivial i
      rwa [set_of_getElem? hdrop] at hcalls
    · unfold deliver
      rw [hdrop, set_of_getElem? hdrop]

/-- The worker tells a call what came of its request. -/
theorem Refines.respond (h : Refines toText s t) {i : Nat} {body : RequestSer}
    {sent : Except ReqwestError HttpResponse} {server : S} (hbusy : s.worker = .busy (i, body))
    (hhttp : http s.server body sent server) :
    ∃ t', AtomicStep (service http toText) t none t' ∧ Refines toText { s with
      calls := deliver i (ReqwestClient.respond sent) s.calls, worker := .idle, server := server }
      t' := by
  obtain ⟨ask, outcome, call, hstep, -, hdeliver, hmatch⟩ := h.perform hbusy hhttp
  have hmessages : s.messages = (i, body) :: s.channel := by
    unfold State.messages
    rw [hbusy]
  have hdistinct := h.distinct
  rw [hmessages, List.map_cons, List.nodup_cons] at hdistinct
  refine ⟨_, hstep, rfl, ?_, ?_, hdistinct.2, by simp, ?_⟩
  · rw [hdeliver]
    exact forall₂_set h.calls hmatch i
  · intro message hmem
    rw [hdeliver]
    have hold : message ∈ s.messages := by
      rw [hmessages]
      exact List.mem_cons_of_mem _ hmem
    refine (h.messages message hold).set ?_ call _
    rintro rfl
    exact hdistinct.1 (List.mem_map.mpr ⟨message, hmem, rfl⟩)
  · have hruns : t.stopped = false := h.runs (by simp [hbusy])
    simp [hruns]

/-- What is left of the channel goes with the worker. -/
theorem Refines.stop (h : Refines toText s t) :
    Refines toText { s with worker := .stopped, channel := [] } { t with stopped := true } :=
  ⟨h.server, h.calls, by simp [State.messages], by simp [State.messages], by simp [State.messages],
    by simp⟩

/-- The request that was being posted is done, and then the worker ends. -/
theorem Refines.abort (h : Refines toText s t) {message : ChannelMessage}
    {sent : Except ReqwestError HttpResponse} {server : S} (hbusy : s.worker = .busy message)
    (hhttp : http s.server message.2 sent server) :
    ∃ t', AtomicStep (service http toText) t none t' ∧
      Refines toText { s with worker := .stopped, channel := [], server := server }
        { t' with stopped := true } := by
  obtain ⟨ask, outcome, call, hstep, hcalls, -, -⟩ := h.perform hbusy hhttp
  exact ⟨_, hstep, rfl, hcalls, by simp [State.messages], by simp [State.messages],
    by simp [State.messages], by simp⟩

/-- The client does its calls as an object that does each of them in one step. -/
theorem simulates (http : S → RequestSer → Except ReqwestError HttpResponse → S → Prop)
    (toText : Json.Value → String) (server : S) :
    Simulation (client http toText server) (atomic (service http toText) server) Event.seen id
      (Refines toText) where
  start s hs := by
    obtain rfl : s = new server := hs
    exact ⟨⟨[], server, [], false⟩, rfl, rfl, .nil, by simp [new, State.messages],
      by simp [new, State.messages], by simp [new], by simp [new]⟩
  step s t event s' h hstep := by
    cases hstep with
    | invoke ask =>
      refine ⟨[some (.invoke s.calls.length ask)], { t with calls := t.calls ++ [.pending ask] },
        .one ?_, rfl, ?_⟩
      · exact h.calls.length_eq ▸ .invoke t ask
      · refine ⟨h.server, List.rel_append h.calls (.cons rfl .nil), ?_, h.distinct, h.left,
          h.stopped⟩
        intro message hmem
        obtain ⟨ask', id, hbody, hpending, hcall⟩ := h.messages message hmem
        refine ⟨ask', id, hbody, getElem?_append_some hpending _, ?_⟩
        exact hcall.imp (getElem?_append_some · _) (getElem?_append_some · _)
    | @number i ask hcall =>
      refine ⟨[], t, .nil t, rfl, ?_⟩
      obtain ⟨phase, hphase, hmatch⟩ := forall₂_getElem? h.calls hcall
      obtain rfl : phase = .pending ask := hmatch
      have hfree : ∀ message ∈ s.messages, message.1 ≠ i := fun message hmem =>
        (h.messages message hmem).ne hcall (by simp) (by simp)
      have hmatch : Matches toText (.numbered ask s.id) (.pending ask) := rfl
      have hnext := h.advance hfree (s.id + 1) hmatch
      rwa [set_of_getElem? hphase] at hnext
    | send hcall hruns hroom => exact ⟨[], t, .nil t, rfl, h.send hcall hruns⟩
    | sendFailed hcall hstopped =>
      obtain ⟨phase, hphase, hmatch⟩ := forall₂_getElem? h.calls hcall
      obtain rfl : phase = .pending _ := hmatch
      exact ⟨_, _, .one (.lose t hphase (by simp) (.inl rfl) (h.stopped.mpr hstopped)), rfl,
        h.advance (by simp [h.left hstopped]) s.id rfl⟩
    | @recv message rest hidle hchannel =>
      have hmessages : State.messages { s with worker := .busy message, channel := rest }
          = s.messages := by
        simp only [State.messages, hidle, hchannel]
      have hruns : t.stopped = false := h.runs (by simp [hidle])
      refine ⟨[], t, .nil t, rfl, h.server, h.calls, ?_, ?_, by simp, by simp [hruns]⟩
      · rw [hmessages]
        exact h.messages
      · rw [hmessages]
        exact h.distinct
    | respond hbusy hhttp =>
      obtain ⟨t', ht', hnext⟩ := h.respond hbusy hhttp
      exact ⟨_, t', .one ht', rfl, hnext⟩
    | receive hcall =>
      obtain ⟨phase, hphase, ask, rfl⟩ := forall₂_getElem? h.calls hcall
      exact ⟨_, _, .one (.ret t hphase), rfl, h.advance
        (fun message hmem => (h.messages message hmem).ne hcall (by simp) (by simp)) s.id rfl⟩
    | receiveFailed hcall hstopped =>
      obtain ⟨phase, hphase, hmatch⟩ := forall₂_getElem? h.calls hcall
      exact ⟨_, _, .one (.lose t hphase hmatch (.inr rfl) (h.stopped.mpr hstopped)), rfl,
        h.advance (by simp [h.left hstopped]) s.id rfl⟩
    | drop hcall hopen =>
      exact ⟨[], t, .nil t, rfl, h.drop (List.getElem?_eq_some_iff.mp hcall).1⟩
    | stop hruns => exact ⟨_, _, .one (.stop t), rfl, h.stop⟩
    | abort hbusy hhttp =>
      obtain ⟨t', ht', hnext⟩ := h.abort hbusy hhttp
      exact ⟨_, _, (System.Path.one ht').step (.stop t'), rfl, hnext⟩

/-- Calls are linearizable: in every run, whatever the server does and however the steps of the
    calls, the worker and the runtime interleave, there is one order of the calls that reached the
    server, each at most once, that explains all answers and all that was done to the server, and
    that keeps the order of calls that did not overlap. Only after the worker's end a call returns
    without an answer to its own request, and a call made after it does not reach the server. -/
theorem linearizable (http : S → RequestSer → Except ReqwestError HttpResponse → S → Prop)
    (toText : Json.Value → String) (server : S) (events : List Event) (s : State S)
    (h : (client http toText server).Exec events s) :
    ∃ history, Linear (service http toText) server s.server (events.filterMap Event.seen)
      history := by
  obtain ⟨steps, t, ht, hseen, hR⟩ := (simulates http toText server).traces h
  refine ⟨t.history, ?_⟩
  have hlinear := atomic_linear ht
  rwa [hseen, hR.server] at hlinear

/-- A server that answers with how many requests it had before. -/
def counts (n : Nat) (request : RequestSer) (sent : Except ReqwestError HttpResponse) (n' : Nat) :
    Prop :=
  n' = n + 1 ∧ sent = .ok ⟨200, .ok (.object [("jsonrpc", .string "2.0"),
    ("id", .number (.posInt request.id)), ("result", .number (.posInt (.ofNat n)))])⟩

/-- Of two calls the later one is sent first, and returns. -/
theorem counts_later (toText : Json.Value → String) (ask : Ask) :
    (client counts toText 0).Exec [.invoke 0 ask, .invoke 1 ask, .work, .work, .work, .work,
        .ret 1 (.ok (.number (.posInt 0)))]
      ⟨1, [.called ask, .finished], [], .idle, 1⟩ := by
  have hstart : (client counts toText 0).Exec [] (new 0) := .start rfl
  have hcalled := (hstart.step (.invoke _ ask)).step (.invoke _ ask)
  have hsent := (hcalled.step (.number _ (i := 1) rfl)).step
    (.send _ (i := 1) rfl (by simp [new]) (by simp [new, capacity]))
  have hworked := (hsent.step (.recv _ rfl rfl)).step (.respond _ rfl ⟨rfl, rfl⟩)
  have hreturned := hworked.step (.receive _ (i := 1) rfl)
  exact hreturned

/-- Then the worker ends, and the other call is told that it was lost. -/
theorem linearizable_overlapping : ∃ history,
    Linear (service counts fun _ => "") 0 1
      [.invoke 0 ⟨"system_health", none⟩, .invoke 1 ⟨"system_health", none⟩,
        .ret 1 (.ok (.number (.posInt 0))), .stop,
        .ret 0 (.error (.response "Failed to send request"))] history := by
  have hstopped := (counts_later (fun _ => "") ⟨"system_health", none⟩).step (.stop _ (by simp))
  have hlost := (hstopped.step (.number _ (i := 0) rfl)).step (.sendFailed _ (i := 0) rfl rfl)
  exact linearizable counts (fun _ => "") 0 _ _ hlost

/-! ## Progress -/

/-- No call that the worker is to answer is forgotten. -/
def Remembers (s : State S) : Prop :=
  ∀ i id, s.calls[i]? = some (.waiting id none) → s.worker ≠ .stopped →
    i ∈ s.messages.map Prod.fst

/-- A call goes on, and does not come to wait. -/
theorem Remembers.set (h : Remembers s) (id : UInt64) (i : Nat) {call : CallState}
    (hcall : ∀ id, call ≠ .waiting id none) :
    Remembers { s with id := id, calls := s.calls.set i call } := by
  intro j id' hj hruns
  rcases getElem?_of_set hj with ⟨-, heq⟩ | ⟨-, hold⟩
  · exact absurd heq.symm (hcall id')
  · exact h j id' hold hruns

theorem remembers_step {s' : State S} {event : Event} (h : Remembers s)
    (hstep : Step http toText s event s') : Remembers s' := by
  cases hstep with
  | invoke ask =>
    intro i id hi hruns
    have hold : s.calls[i]? = some (.waiting id none) := by
      rw [List.getElem?_append] at hi
      split at hi
      · exact hi
      · cases hd : i - s.calls.length <;> simp_all
    exact h i id hold hruns
  | number hcall => exact h.set _ _ (by simp)
  | @send i ask id hcall hruns hroom =>
    intro j id' hj _
    rw [State.messages_push, List.map_append, List.mem_append]
    rcases getElem?_of_set hj with ⟨rfl, -⟩ | ⟨-, hold⟩
    · exact .inr (List.mem_singleton.mpr rfl)
    · exact .inl (h j id' hold hruns)
  | sendFailed hcall hstopped => exact h.set s.id _ (by simp)
  | recv hidle hchannel =>
    intro i id hi _
    have hold := h i id hi (by simp [hidle])
    simpa only [State.messages, hidle, hchannel] using hold
  | @respond i body sent server hbusy hhttp =>
    intro j id hj _
    obtain ⟨hne, hold⟩ := waiting_of_deliver hj
    have hmem := h j id hold (by simp [hbusy])
    simp only [State.messages, hbusy, List.map_cons, List.mem_cons] at hmem
    exact hmem.resolve_left hne
  | receive hcall => exact h.set s.id _ (by simp)
  | receiveFailed hcall hstopped => exact h.set s.id _ (by simp)
  | drop hcall hopen => exact h.set s.id _ (by simp)
  | stop hruns => exact fun _ _ _ hstopped => absurd rfl hstopped
  | abort hbusy hhttp => exact fun _ _ _ hstopped => absurd rfl hstopped

/-- The steps that a call or the worker takes by itself. -/
def Event.goesOn : Event → Prop
  | .work | .ret _ _ => True
  | _ => False

/-- A worker that has messages can go on, when the server always answers or fails. -/
theorem worker_goesOn (htotal : ∀ server body, ∃ sent server', http server body sent server')
    (hruns : s.worker ≠ .stopped) (hmessages : s.messages ≠ []) :
    ∃ s', Step http toText s .work s' := by
  cases hworker : s.worker with
  | idle =>
    cases hchannel : s.channel with
    | nil => simp [State.messages, hworker, hchannel] at hmessages
    | cons message rest => exact ⟨_, .recv s hworker hchannel⟩
  | busy message =>
    obtain ⟨sent, server, hhttp⟩ := htotal s.server message.2
    exact ⟨_, .respond s hworker hhttp⟩
  | stopped => exact absurd hworker hruns

/-- A call in progress never stops the client: it can go on, or the worker can. -/
theorem Remembers.goesOn (h : Remembers s)
    (htotal : ∀ server body, ∃ sent server', http server body sent server') {i : Nat}
    {call : CallState} (hcall : s.calls[i]? = some call) (hfinished : call ≠ .finished)
    (hdropped : call ≠ .dropped) : ∃ event s', event.goesOn ∧ Step http toText s event s' := by
  cases call with
  | called ask => exact ⟨.work, _, trivial, .number s hcall⟩
  | numbered ask id =>
    by_cases hstopped : s.worker = .stopped
    · exact ⟨.ret _ _, _, trivial, .sendFailed s hcall hstopped⟩
    · by_cases hroom : s.channel.length < capacity
      · exact ⟨.work, _, trivial, .send s hcall hstopped hroom⟩
      · -- the channel is full, so the worker has something to do
        have hmessages : s.messages ≠ [] := by
          intro hnil
          have hchannel : s.channel = [] := by
            unfold State.messages at hnil
            cases hworker : s.worker <;> simp_all
          exact hroom (by simp [hchannel, capacity])
        obtain ⟨s', hstep⟩ := worker_goesOn htotal hstopped hmessages
        exact ⟨.work, s', trivial, hstep⟩
  | waiting id response =>
    cases response with
    | some response => exact ⟨.ret _ _, _, trivial, .receive s hcall⟩
    | none =>
      by_cases hstopped : s.worker = .stopped
      · exact ⟨.ret _ _, _, trivial, .receiveFailed s hcall hstopped⟩
      · have hmessages : s.messages ≠ [] := by
          intro hnil
          have hmem := h i id hcall hstopped
          simp [hnil] at hmem
        obtain ⟨s', hstep⟩ := worker_goesOn htotal hstopped hmessages
        exact ⟨.work, s', trivial, hstep⟩
  | finished => exact absurd rfl hfinished
  | dropped => exact absurd rfl hdropped

/-- The steps that a call may still take, and cause. -/
def CallState.steps : CallState → Nat
  | .called _ => 5
  | .numbered _ _ => 4
  | .waiting _ _ => 1
  | .finished | .dropped => 0

def Worker.steps : Worker → Nat
  | .busy _ => 2
  | .idle => 1
  | .stopped => 0

def State.steps (s : State S) : Nat :=
  (s.calls.map CallState.steps).sum + 2 * s.channel.length + s.worker.steps

/-- What the event adds to the steps that are possible. -/
def Event.credit : Event → Nat
  | .invoke _ _ => 6
  | _ => 0

theorem steps_deliver (i : Nat) (response : ResponseMessage) (calls : List CallState) :
    ((deliver i response calls).map CallState.steps).sum = (calls.map CallState.steps).sum := by
  unfold deliver
  split
  · next id hcall =>
    have hset := sum_set CallState.steps hcall (.waiting id (some response))
    simpa [CallState.steps] using hset
  · rfl

/-- Every step but a new call uses up one that was possible. -/
theorem steps_lt {s' : State S} {event : Event} (hstep : Step http toText s event s') :
    s'.steps < s.steps + event.credit := by
  cases hstep with
  | invoke ask =>
    simp only [State.steps, List.map_append, List.sum_append, List.map_singleton,
      List.sum_singleton, CallState.steps, Event.credit]
    omega
  | @number i ask hcall =>
    have := sum_set CallState.steps hcall (.numbered ask s.id)
    simp only [State.steps, CallState.steps, Event.credit] at this ⊢
    omega
  | @send i ask id hcall hruns hroom =>
    have := sum_set CallState.steps hcall (.waiting id none)
    simp only [State.steps, CallState.steps, Event.credit, List.length_append,
      List.length_singleton] at this ⊢
    omega
  | sendFailed hcall hstopped =>
    have := sum_set CallState.steps hcall .finished
    simp only [State.steps, CallState.steps, Event.credit] at this ⊢
    omega
  | recv hidle hchannel =>
    simp only [State.steps, hidle, hchannel, Worker.steps, Event.credit, List.length_cons]
    omega
  | respond hbusy hhttp =>
    simp only [State.steps, steps_deliver, hbusy, Worker.steps, Event.credit]
    omega
  | receive hcall =>
    have := sum_set CallState.steps hcall .finished
    simp only [State.steps, CallState.steps, Event.credit] at this ⊢
    omega
  | receiveFailed hcall hstopped =>
    have := sum_set CallState.steps hcall .finished
    simp only [State.steps, CallState.steps, Event.credit] at this ⊢
    omega
  | @drop i call hcall hopen =>
    have := sum_set CallState.steps hcall .dropped
    have hpos : 0 < call.steps := by
      cases call <;> simp_all [CallState.steps]
    have hdropped : CallState.dropped.steps = 0 := rfl
    simp only [State.steps, Event.credit]
    omega
  | stop hruns =>
    have hpos : 0 < s.worker.steps := by
      cases hworker : s.worker <;> simp_all [Worker.steps]
    have hstopped : Worker.stopped.steps = 0 := rfl
    simp only [State.steps, Event.credit, List.length_nil]
    omega
  | abort hbusy hhttp =>
    simp only [State.steps, hbusy, Worker.steps, Event.credit, List.length_nil]
    omega

/-- The client ends what it is asked to do. A run in which `n` calls are made has at most `6 n + 1`
    steps, in whatever order they are taken; and when nothing can go on by itself, every call has
    returned or was dropped: none waits for ever for the channel, the worker or a response. -/
theorem settles (http : S → RequestSer → Except ReqwestError HttpResponse → S → Prop)
    (toText : Json.Value → String) (server : S) (events : List Event) (s : State S)
    (htotal : ∀ server body, ∃ sent server', http server body sent server')
    (h : (client http toText server).Exec events s) :
    events.length ≤ 6 * (events.filter fun event => event matches .invoke _ _).length + 1 ∧
      ((∀ event s', event.goesOn → ¬ Step http toText s event s') →
        ∀ call ∈ s.calls, call = .finished ∨ call = .dropped) := by
  constructor
  · have hbound := h.bounded State.steps Event.credit 1
      (by rintro s rfl; simp [new, State.steps, Worker.steps]) (fun _ _ _ => steps_lt)
    have hcredit : (events.map Event.credit).sum
        = 6 * (events.filter fun event => event matches .invoke _ _).length := by
      clear hbound h
      induction events with
      | nil => rfl
      | cons event events ih =>
        cases event <;> simp [Event.credit, ih, Nat.mul_add, Nat.add_comm]
    omega
  · intro hstuck call hmem
    have hremembers : Remembers s := h.rule (fun _ s => Remembers s)
      (by rintro s rfl i id hi; simp [new] at hi) (fun _ _ _ _ ih hstep => remembers_step ih hstep)
    obtain ⟨i, hlt, rfl⟩ := List.mem_iff_getElem.mp hmem
    by_contra hopen
    rw [not_or] at hopen
    obtain ⟨event, s', hgoes, hstep⟩ :=
      hremembers.goesOn htotal (List.getElem?_eq_getElem hlt) hopen.1 hopen.2
    exact hstuck event s' hgoes hstep

theorem settles_overlapping :
    8 ≤ 6 * 2 + 1 ∧
      ((∀ event s', event.goesOn →
          ¬ Step counts (fun _ => "") ⟨1, [.dropped, .finished], [], .idle, 1⟩ event s') →
        ∀ call ∈ [CallState.dropped, .finished], call = .finished ∨ call = .dropped) :=
  settles counts (fun _ => "") 0 _ _ (fun n _ => ⟨_, n + 1, rfl, rfl⟩)
    ((counts_later _ ⟨"system_health", none⟩).step (.drop _ (i := 0) rfl (by simp)))

/-! ## Ids -/

/-- The id of a call in progress. -/
def CallState.id : CallState → Option UInt64
  | .numbered _ id | .waiting id _ => some id
  | _ => none

def idOf (calls : List CallState) (i : Nat) : Option UInt64 := calls[i]?.bind CallState.id

def CallState.unnumbered : CallState → Nat
  | .called _ => 1
  | _ => 0

/-- `n` calls were given a number; up to `2 ^ 64` calls no number was given twice. -/
structure Numbered (s : State S) (n : Nat) : Prop where
  next : s.id.toNat = n % 2 ^ 64
  made : n + (s.calls.map CallState.unnumbered).sum ≤ s.calls.length
  given : n ≤ 2 ^ 64 → ∀ i id, idOf s.calls i = some id → id.toNat < n
  distinct : n ≤ 2 ^ 64 → ∀ i j id, idOf s.calls i = some id → idOf s.calls j = some id → i = j

/-- No number is given, and none comes back. -/
theorem Numbered.keep {n : Nat} (h : Numbered s n) {s' : State S} (hid : s'.id = s.id)
    (hmade : (s'.calls.map CallState.unnumbered).sum + s.calls.length
      ≤ (s.calls.map CallState.unnumbered).sum + s'.calls.length)
    (hcalls : ∀ i id, idOf s'.calls i = some id → idOf s.calls i = some id) : Numbered s' n where
  next := by rw [hid, h.next]
  made := by
    have := h.made
    omega
  given hn i id hi := h.given hn i id (hcalls i id hi)
  distinct hn i j id hi hj := h.distinct hn i j id (hcalls i id hi) (hcalls j id hj)

/-- A call goes on with the number that it has, or ends. -/
theorem Numbered.set {n : Nat} (h : Numbered s n) {i : Nat} {call : CallState}
    (hcall : s.calls[i]? = some call) (call' : CallState) (hnumbered : call'.unnumbered = 0)
    (hid : ∀ id, call'.id = some id → call.id = some id) {s' : State S} (hs : s'.id = s.id)
    (hset : s'.calls = s.calls.set i call') : Numbered s' n := by
  have hsum := sum_set CallState.unnumbered hcall call'
  refine h.keep hs ?_ ?_
  · rw [hset, List.length_set]
    omega
  · intro j id hj
    unfold idOf at hj ⊢
    obtain ⟨other, hother, hother'⟩ := Option.bind_eq_some_iff.mp hj
    rw [hset] at hother
    rcases getElem?_of_set hother with ⟨rfl, rfl⟩ | ⟨-, hold⟩
    · rw [hcall]
      exact hid id hother'
    · rw [hold]
      exact hother'

/-- The next number is new. -/
theorem Numbered.number {n : Nat} (h : Numbered s n) {i : Nat} {ask : Ask}
    (hcall : s.calls[i]? = some (.called ask)) :
    Numbered { s with id := s.id + 1, calls := s.calls.set i (.numbered ask s.id) } (n + 1) := by
  have hsum : ((s.calls.set i (.numbered ask s.id)).map CallState.unnumbered).sum + 1
      = (s.calls.map CallState.unnumbered).sum := sum_set CallState.unnumbered hcall _
  -- a call has the number just given, or one that it had
  have hcases : ∀ j id, idOf (s.calls.set i (.numbered ask s.id)) j = some id →
      (j = i ∧ id = s.id) ∨ idOf s.calls j = some id := by
    intro j id hj
    obtain ⟨other, hother, hid⟩ := Option.bind_eq_some_iff.mp hj
    rcases getElem?_of_set hother with ⟨rfl, rfl⟩ | ⟨-, hold⟩
    · exact .inl ⟨rfl, (Option.some.inj hid).symm⟩
    · exact .inr (Option.bind_eq_some_iff.mpr ⟨other, hold, hid⟩)
  have hnext := h.next
  refine ⟨?_, ?_, ?_, ?_⟩
  · rw [UInt64.toNat_add, hnext]
    simp
  · have := h.made
    simp only [List.length_set]
    omega
  · intro hn j id hj
    rcases hcases j id hj with ⟨-, rfl⟩ | hold
    · omega
    · have := h.given (by omega) j id hold
      omega
  · intro hn j k id hj hk
    rcases hcases j id hj with ⟨rfl, rfl⟩ | hold
    · rcases hcases k _ hk with ⟨rfl, -⟩ | hold'
      · rfl
      · have := h.given (by omega) k _ hold'
        omega
    · rcases hcases k id hk with ⟨rfl, rfl⟩ | hold'
      · have := h.given (by omega) j _ hold
        omega
      · exact h.distinct (by omega) j k id hold hold'

theorem idOf_deliver (i : Nat) (response : ResponseMessage) (calls : List CallState) (j : Nat) :
    idOf (deliver i response calls) j = idOf calls j := by
  unfold deliver
  split
  · next id hcall =>
    unfold idOf
    by_cases hij : i = j
    · subst hij
      rw [List.getElem?_set_self (List.getElem?_eq_some_iff.mp hcall).1, hcall]
      rfl
    · rw [List.getElem?_set_ne hij]
  · rfl

theorem unnumbered_deliver (i : Nat) (response : ResponseMessage) (calls : List CallState) :
    ((deliver i response calls).map CallState.unnumbered).sum
      = (calls.map CallState.unnumbered).sum := by
  unfold deliver
  split
  · next id hcall =>
    have hset := sum_set CallState.unnumbered hcall (.waiting id (some response))
    simpa [CallState.unnumbered] using hset
  · rfl

theorem length_deliver (i : Nat) (response : ResponseMessage) (calls : List CallState) :
    (deliver i response calls).length = calls.length := by
  unfold deliver
  split
  · exact List.length_set
  · rfl

theorem numbered_step {n : Nat} {s' : State S} {event : Event} (h : Numbered s n)
    (hstep : Step http toText s event s') : ∃ n', Numbered s' n' := by
  cases hstep with
  | invoke ask =>
    refine ⟨n, h.keep rfl ?_ ?_⟩
    · simp only [List.map_append, List.sum_append, List.map_singleton, List.sum_singleton,
        CallState.unnumbered, List.length_append, List.length_singleton]
      omega
    · intro i id hi
      unfold idOf at hi ⊢
      rw [List.getElem?_append] at hi
      split at hi
      · exact hi
      · cases hd : i - s.calls.length <;> simp_all [CallState.id]
  | number hcall => exact ⟨n + 1, h.number hcall⟩
  | @send i ask id hcall hruns hroom =>
    exact ⟨n, h.set hcall (.waiting id none) rfl (fun _ hid => hid) rfl rfl⟩
  | sendFailed hcall hstopped =>
    exact ⟨n, h.set hcall .finished rfl (by simp [CallState.id]) rfl rfl⟩
  | recv hidle hchannel => exact ⟨n, h.keep rfl (Nat.le_refl _) fun _ _ hi => hi⟩
  | respond hbusy hhttp =>
    refine ⟨n, h.keep rfl ?_ ?_⟩
    · exact Nat.le_of_eq (by rw [unnumbered_deliver, length_deliver])
    · intro i id hi
      rwa [idOf_deliver] at hi
  | receive hcall =>
    exact ⟨n, h.set hcall .finished rfl (by simp [CallState.id]) rfl rfl⟩
  | receiveFailed hcall hstopped =>
    exact ⟨n, h.set hcall .finished rfl (by simp [CallState.id]) rfl rfl⟩
  | drop hcall hopen =>
    exact ⟨n, h.set hcall .dropped rfl (by simp [CallState.id]) rfl rfl⟩
  | stop hruns => exact ⟨n, h.keep rfl (Nat.le_refl _) fun _ _ hi => hi⟩
  | abort hbusy hhttp => exact ⟨n, h.keep rfl (Nat.le_refl _) fun _ _ hi => hi⟩

/-- A response that names another id is not read. -/
theorem readResponse_of_ne (toText : Json.Value → String) {id id' : UInt64} {response : Json.Value}
    (hnames : (response.get "id").map Json.Value.asU64 = some (some id')) (hne : id ≠ id') :
    readResponse toText id (.ok response) = .error (.response "Not Pending Request") := by
  simp only [readResponse, hnames]
  exact if_pos hne

/-- Up to `2 ^ 64` calls, no two calls in progress have the same id, in any run; so a call never
    takes a response that names another one for its own. -/
theorem refuses_others (http : S → RequestSer → Except ReqwestError HttpResponse → S → Prop)
    (toText : Json.Value → String) (server : S) (events : List Event) (s : State S)
    (h : (client http toText server).Exec events s) (hmade : s.calls.length ≤ 2 ^ 64)
    (i j : Nat) (id id' : UInt64) (hi : idOf s.calls i = some id) (hj : idOf s.calls j = some id')
    (hne : i ≠ j) (response : Json.Value)
    (hnames : (response.get "id").map Json.Value.asU64 = some (some id')) :
    readResponse toText id (.ok response) = .error (.response "Not Pending Request") := by
  obtain ⟨n, hnumbered⟩ := h.rule (fun _ s => ∃ n, Numbered s n)
    (by
      rintro s rfl
      exact ⟨0, rfl, by simp [new], by simp [new, idOf], by simp [new, idOf]⟩)
    (fun _ _ _ _ ⟨_, ih⟩ hstep => numbered_step ih hstep)
  refine readResponse_of_ne toText hnames ?_
  rintro rfl
  have hn : n ≤ 2 ^ 64 := by
    have := hnumbered.made
    omega
  exact hne (hnumbered.distinct hn i j id hi hj)

/-- Two calls are made and numbered. -/
theorem refuses_others_second :
    readResponse (fun _ => "") 0 (.ok (.object [("id", .number (.posInt 1))]))
      = .error (.response "Not Pending Request") := by
  have hcalled := ((System.Exec.start (M := client counts (fun _ => "") 0) rfl).step
    (.invoke _ ⟨"system_health", none⟩)).step (.invoke _ ⟨"system_health", none⟩)
  have hnumbered := (hcalled.step (.number _ (i := 0) rfl)).step (.number _ (i := 1) rfl)
  exact refuses_others counts (fun _ => "") 0 _ _ hnumbered (by simp [new]) 0 1 0 1 rfl rfl
    (by decide) _ rfl

end AvailRust.ReqwestClient
