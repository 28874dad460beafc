import Mathlib.Data.List.Infix
import PushDeliveredQueue.CatchUp
import PushDeliveredQueue.Overlap
import PushDeliveredQueue.Payloads

/-!
# The API application

The application of `PushDeliveredQueue.API`: the queue behind its endpoints, with
`SubscribedMessageHandler` as the handler of every subscriber. In the system the handlers are part
of the environment and may answer anything; here they run their code. What is left to the
environment is who calls which endpoint and when, and whether the delay a handler awaits is
cancelled before it has passed.

`PushDeliveredQueue.serviceStep` is the transition function. Its runs are runs of the system
(`PushDeliveredQueue.systemRun_of_run`), in which the handler gives the answers its code gives
(`PushDeliveredQueue.Noted.answers`).
-/

namespace PushDeliveredQueue

open Transitions

/-! ### The handler -/

/-- `NullReferenceException`, as one of the exceptions of a handler. -/
def nullReference : Exception := .handler 0

/-- `TaskCanceledException`, as one of the exceptions of a handler. -/
def taskCanceled : Exception := .handler 1

/-- A call of `OnMessageReceiveAsync`: the envelope it was handed, the payload that had then, and
whether the token was cancelled. -/
structure HandlerCall where
  message : MessageEnvelope
  payload : Payload
  cancelled : Bool
  deriving DecidableEq

namespace SubscribedMessageHandler

/-- `Payload.Contains("fail")`. -/
def containsFail (text : String) : Bool := ['f', 'a', 'i', 'l'] <:+: text.toList

/-- `OnMessageReceiveAsync`: it looks at the payload at once, and then awaits a delay that throws
when the token is cancelled before it has passed. -/
def onMessageReceive (call : HandlerCall) (delayCancelled : Bool) : ReceiveResult :=
  match call.payload with
  | none => .error nullReference
  | some text =>
    if containsFail text then .ok .nack
    else if call.cancelled || delayCancelled then .error taskCanceled
    else .ok .ack

/-- `OnMessageFailedHandlerAsync`. -/
def onMessageFailedHandler : FailedResult := .ok .retryOnceThenDLQ

end SubscribedMessageHandler

open SubscribedMessageHandler

/-! ### The calls a handler has not answered -/

/-- The call of `OnMessageReceiveAsync` a loop awaits. -/
def DispatchPhase.awaits : DispatchPhase → Option (Caller × MessageEnvelope)
  | .receiving m _ => some (.dispatch, m)
  | .retrying m _ => some (.manualRetry, m)
  | _ => none

/-- A caller awaits the answer of a subscriber's handler to a message. -/
def System.Awaits (σ : System) (s : Guid) (m : MessageEnvelope) : Caller → Prop
  | .dispatch => (σ.loops s).awaits = some (.dispatch, m)
  | .manualRetry => (σ.loops s).awaits = some (.manualRetry, m)
  | .replay call => ∃ kind, (σ.replays s)[call]? = some (.receiving kind m)

section Awaits

variable {σ σ' : System} {a : Action} {evs : List Event} {s : Guid} {m : MessageEnvelope}
  {caller : Caller} {r : ReceiveResult}

theorem System.awaits_iff (hc : caller.ofLoop) :
    σ.Awaits s m caller ↔ (σ.loops s).awaits = some (caller, m) := by
  cases caller with
  | replay _ => exact Bool.noConfusion hc
  | _ => exact Iff.rfl

@[simp] theorem awaits_afterAttempt (n : ℕ) (m : MessageEnvelope) (k : ℕ) (r : ReceiveResult) :
    (afterAttempt n m k r).awaits = none := by
  unfold afterAttempt
  split_ifs <;> rfl

@[simp] theorem awaits_afterManualRetry (m : MessageEnvelope) (b : Bool) (r : ReceiveResult) :
    (afterManualRetry m b r).awaits = none := by
  cases r <;> cases b <;> rfl

@[simp] theorem awaits_afterFailedHandler (m : MessageEnvelope) (r : FailedResult) :
    (afterFailedHandler m r).awaits = none := by
  rcases r with e | b
  · rfl
  · cases b <;> rfl

/-- **Only a call that is awaited comes back.** -/
theorem Effect.of_receiveReturned (h : Effect σ a σ' evs)
    (hmem : .receiveReturned s caller m r ∈ evs) :
    σ.Awaits s m caller ∧
      ((caller.ofLoop ∧ a = .received s r) ∨
        ∃ call, caller = .replay call ∧ a = .replayReceived s call r) := by
  have hcalls : ∀ q s' call p, .receiveReturned s caller m r ∉ replayCalls q s' call p := by
    intro q s' call p
    cases p <;> simp [replayCalls]
  cases h with
  | @dispatch s' q p p' _ _ hl => cases hl <;> simp at hmem
  | @received s' m' k hl r' =>
    obtain ⟨rfl, rfl, rfl, rfl⟩ := by simpa using hmem
    exact ⟨by simp [System.Awaits, hl, DispatchPhase.awaits], Or.inl ⟨rfl, rfl⟩⟩
  | @retried s' m' b hl r' =>
    obtain ⟨rfl, rfl, rfl, rfl⟩ := by simpa using hmem
    exact ⟨by simp [System.Awaits, hl, DispatchPhase.awaits], Or.inl ⟨rfl, rfl⟩⟩
  | @replayAcked s' call kind m' dlq hl _ =>
    rcases List.mem_cons.mp hmem with heq | hmem
    · obtain ⟨rfl, rfl, rfl, rfl⟩ := by simpa using heq
      exact ⟨⟨kind, hl⟩, Or.inr ⟨call, rfl, rfl⟩⟩
    · exact absurd hmem (hcalls _ _ _ _)
  | @replayNotAcked s' call kind m' r' hl _ =>
    obtain ⟨rfl, rfl, rfl, rfl⟩ := by simpa using hmem
    exact ⟨⟨kind, hl⟩, Or.inr ⟨call, rfl, rfl⟩⟩
  | replayFromDlq _ _ | replayAllDlqMessages _ | runScheduled _ =>
    exact absurd hmem (hcalls _ _ _ _)
  | replayFailed _ _ => exact absurd (List.mem_of_ne_of_mem (by simp) hmem) (hcalls _ _ _ _)
  | _ => simp at hmem

/-- A decision of the failure handler is the return of its call. -/
theorem Effect.of_failedReturned {r : FailedResult} (h : Effect σ a σ' evs)
    (hmem : .failedReturned s caller m r ∈ evs) :
    a = .failedHandled s r ∨ ∃ call, a = .replayFailedHandled s call r := by
  have hcalls : ∀ q s' call p, .failedReturned s caller m r ∉ replayCalls q s' call p := by
    intro q s' call p
    cases p <;> simp [replayCalls]
  cases h with
  | @dispatch s' q p p' _ _ hl => cases hl <;> simp at hmem
  | failedHandled _ _ =>
    obtain ⟨rfl, -, -, rfl⟩ := by simpa using hmem
    exact Or.inl rfl
  | @replayThrew s' call _ _ _ _ =>
    obtain ⟨rfl, -, -, rfl⟩ := by simpa using hmem
    exact Or.inr ⟨call, rfl⟩
  | @replayFailed s' call _ _ _ _ =>
    rcases List.mem_cons.mp hmem with heq | hmem
    · obtain ⟨rfl, -, -, rfl⟩ := by simpa using heq
      exact Or.inr ⟨call, rfl⟩
    · exact absurd hmem (hcalls _ _ _ _)
  | replayFromDlq _ _ | replayAllDlqMessages _ | runScheduled _ =>
    exact absurd hmem (hcalls _ _ _ _)
  | replayAcked _ _ => exact absurd (List.mem_of_ne_of_mem (by simp) hmem) (hcalls _ _ _ _)
  | _ => simp at hmem

/-- What a transition does to an awaited call: it was awaited before and is not made again, or it
has just been made. -/
def Made (σ : System) (evs : List Event) (s : Guid) (m : MessageEnvelope) (caller : Caller) :
    Prop :=
  (σ.Awaits s m caller ∧ ∀ m' p, .receiveCalled s caller m' p ∉ evs) ∨
    (∃ p, .receiveCalled s caller m p ∈ evs) ∧ ∀ m' p, .receiveCalled s caller m' p ∈ evs → m' = m

/-- A call that is the only event is the one made. -/
theorem Made.singleton (σ : System) (s : Guid) (m : MessageEnvelope) (caller : Caller)
    (payload : Payload) : Made σ [.receiveCalled s caller m payload] s m caller := by
  refine Or.inr ⟨⟨payload, List.mem_singleton.mpr rfl⟩, fun m' p hmem => ?_⟩
  have heq := List.mem_singleton.mp hmem
  exact (by simpa using heq : m' = m ∧ p = payload).1

theorem LoopStep.made (h : LoopStep s σ a σ' evs) (hc : caller.ofLoop)
    (hm : σ'.Awaits s m caller) : Made σ evs s m caller := by
  rw [System.awaits_iff hc] at hm
  cases h with
  | stays _ hl hquiet =>
    rw [hl] at hm
    refine Or.inl ⟨(System.awaits_iff hc).mpr hm, fun m' p hmem => ?_⟩
    exact hquiet _ hmem ⟨rfl, Caller.ofLoop_iff.mp hc⟩
  | starts _ hl =>
    rcases hl with hl | ⟨hl, -⟩ <;> simp [hl, DispatchPhase.awaits] at hm
  | dispatch hl =>
    generalize σ.loops s = p, σ'.loops s = p', σ'.queue = q' at hl hm
    cases hl with
    | attempt _ | manualRetry _ =>
      obtain ⟨rfl, rfl⟩ := by simpa [DispatchPhase.awaits] using hm
      exact Made.singleton σ s _ _ _
    | attemptThrows _ => simp at hm
    | _ => simp [DispatchPhase.awaits] at hm
  | received _ hl | retried _ hl | failedHandled _ hl => simp [hl] at hm

theorem DlqStep.made {call : ℕ} (h : DlqStep s (σ.dlqView s) evs (σ'.dlqView s))
    (hm : σ'.Awaits s m (.replay call)) : Made σ evs s m (.replay call) := by
  obtain ⟨kind, hm⟩ := hm
  change (σ'.dlqView s).calls[call]? = some (.receiving kind m) at hm
  -- the call is where it was, and is not made again
  have hstays : (σ.dlqView s).calls[call]? = some (.receiving kind m) →
      (∀ m' p, .receiveCalled s (.replay call) m' p ∉ evs) → Made σ evs s m (.replay call) :=
    fun hp hno => Or.inl ⟨⟨kind, hp⟩, hno⟩
  -- a call that enters a phase is made for the entry it is at
  have henters : ∀ {call' p evs'}, CallsFor s call' p evs' →
      (∀ m' p, .receiveCalled s (.replay call) m' p ∈ evs →
        .receiveCalled s (.replay call) m' p ∈ evs') → evs' ⊆ evs →
      ((σ.dlqView s).calls[call]? = some (.receiving kind m) ∧ call ≠ call' ∨
        call = call' ∧ p = .receiving kind m) → Made σ evs s m (.replay call) := by
    rintro call' p evs' hc hin hsub (⟨hp, hne⟩ | ⟨rfl, rfl⟩)
    · refine hstays hp fun m' payload hmem => ?_
      obtain ⟨_, _, _, -, heq⟩ := hc.of_mem (hin m' payload hmem)
      obtain ⟨rfl, -⟩ := by simpa using heq
      exact hne rfl
    · obtain ⟨payload, rfl⟩ := hc
      refine Or.inr ⟨⟨payload, hsub (List.mem_singleton.mpr rfl)⟩, fun m' p hm' => ?_⟩
      have heq := List.mem_singleton.mp (hin m' p hm')
      exact (by simpa using heq : m' = m ∧ p = payload).1
  have hset : ∀ {call' p}, ((σ.dlqView s).calls.set call' p)[call]? = some (.receiving kind m) →
      (σ.dlqView s).calls[call]? = some (.receiving kind m) ∧ call ≠ call' ∨
        call = call' ∧ p = .receiving kind m := by
    intro call' p hp
    rw [List.getElem?_set] at hp
    split_ifs at hp with heq hlt
    · exact Or.inr ⟨heq.symm, by simpa using hp⟩
    · exact Or.inl ⟨hp, fun h => heq h.symm⟩
  have happend : ∀ {p}, ((σ.dlqView s).calls ++ [p])[call]? = some (.receiving kind m) →
      (σ.dlqView s).calls[call]? = some (.receiving kind m) ∧ call ≠ (σ.dlqView s).calls.length ∨
        call = (σ.dlqView s).calls.length ∧ p = .receiving kind m := by
    intro p hp
    rw [List.getElem?_append] at hp
    split_ifs at hp with hlt
    · exact Or.inl ⟨hp, Nat.ne_of_lt hlt⟩
    · rw [List.getElem?_singleton] at hp
      split_ifs at hp with hidx
      exact Or.inr ⟨by omega, by simpa using hp⟩
  generalize σ'.dlqView s = w at h hm
  cases h with
  | start _ hc => exact henters hc (fun _ _ hmem => hmem) (List.Subset.refl _) (happend hm)
  | runScheduled _ _ hc => exact henters hc (fun _ _ hmem => hmem) (List.Subset.refl _) (hset hm)
  | acked _ _ hc | failed _ hc =>
    refine henters hc (fun m' p hmem => ?_) (List.subset_cons_self _ _) (hset hm)
    exact List.mem_of_ne_of_mem (by simp) hmem
  | schedule =>
    rcases happend hm with ⟨hp, -⟩ | ⟨-, hp⟩
    · exact hstays hp (by simp)
    · simp at hp
  | notAcked _ _ | threw _ =>
    rcases hset hm with ⟨hp, -⟩ | ⟨-, hp⟩
    · exact hstays hp (by simp)
    · simp at hp
  | add _ | subscribe _ | unsubscribe _ => exact hstays hm (by simp)
  | quiet hquiet =>
    exact hstays hm fun m' p hmem => hquiet _ hmem ⟨rfl, call, rfl⟩

/-- **An awaited call was awaited before, or has just been made.** -/
theorem Effect.made (h : Effect σ a σ' evs) (hw : σ.WellFormed) (hm : σ'.Awaits s m caller) :
    Made σ evs s m caller := by
  cases caller with
  | replay call => exact (h.dlqStep hw s).made hm
  | _ => exact (h.loopStep s).made rfl hm

end Awaits

/-! ### The service -/

/-- A request of `EnqueueXMessages`: how many messages the buffer had, how many are to be enqueued,
and the `Guid`s of those that have been. -/
structure EnqueueRequest where
  currentMessageCount : ℕ
  count : ℕ
  messageIds : List Guid := []
  deriving DecidableEq

/-- The addition of two `int`s, which wraps around. -/
def addInt (a b : ℕ) : ℤ := ((a + b : ℤ) + 2147483648) % 4294967296 - 2147483648

/-- An `int` in an interpolated string. -/
def intText (k : ℤ) : String :=
  String.ofList ((if k < 0 then ['-'] else []) ++ Nat.toDigits 10 k.natAbs)

/-- The payload of the next message of a request. -/
def EnqueueRequest.payload (r : EnqueueRequest) : String :=
  intText (addInt r.currentMessageCount r.messageIds.length)

/-- The state of the application. -/
structure Service where
  system : System
  /-- The last call each caller of a subscriber's handler has made. -/
  calls : Guid → Caller → Option HandlerCall := fun _ _ => none
  /-- The requests of `EnqueueXMessages`, in the order they came in. -/
  requests : List EnqueueRequest := []

/-- The application at its start. -/
def Service.init (ttl : TimeSpan) (retryCount : ℕ) : Service where
  system := .init ttl retryCount

/-- What can happen next: an endpoint is called, a task of the queue takes a step, or a call of the
handler comes back. -/
inductive ServiceAction where
  | enqueueSingle (messageId : Guid) (utcNow : DateTime) (payload : String)
  /-- `EnqueueXMessages` begins: it asks for the state. -/
  | enqueueMultiple (count : ℤ)
  /-- `EnqueueXMessages` enqueues its next message. -/
  | enqueueNext (request : ℕ) (messageId : Guid) (utcNow : DateTime)
  | changePayload (messageId : Guid) (payload : String)
  | subscribe (subscriberId : Guid)
  | unsubscribe (subscriberId : Guid)
  | replayFrom (subscriberId messageId : Guid)
  | replayFromDlq (subscriberId messageId : Guid)
  | replayAllDlq (subscriberId : Guid)
  | replayAllDlqSubscribers
  | beginPrune (utcNow : DateTime)
  | prune (pass : ℕ)
  /-- The host disposes of its services. -/
  | dispose
  | dispatch (subscriberId : Guid)
  /-- The `OnMessageReceiveAsync` call a dispatch loop awaits ends, its delay cancelled or not. -/
  | received (subscriberId : Guid) (delayCancelled : Bool)
  | failedHandled (subscriberId : Guid)
  | runScheduled (subscriberId : Guid) (call : ℕ)
  /-- The `OnMessageReceiveAsync` call a replay awaits ends. -/
  | replayReceived (subscriberId : Guid) (call : ℕ) (delayCancelled : Bool)
  | replayFailedHandled (subscriberId : Guid) (call : ℕ)
  deriving DecidableEq

/-- Whether the token the queue passes to a call is cancelled: the cursor's for an attempt, its own
for the extra attempt. A replay passes the token of the request, which the environment cancels. -/
def System.tokenCancelled (σ : System) (s : Guid) : Caller → Bool
  | .dispatch => (σ.queue.cancellation s).isCancellationRequested
  | .manualRetry => σ.queue.cts.isCancellationRequested
  | .replay _ => false

namespace Service

/-- The answer to a call, unless its delay is said to be cancelled and the token is not. -/
def answer (ω : Service) (s : Guid) (caller : Caller) (delayCancelled : Bool) :
    Option ReceiveResult :=
  match ω.calls s caller with
  | none => none
  | some call =>
    if delayCancelled && caller.ofLoop && !ω.system.tokenCancelled s caller then none
    else some (onMessageReceive call delayCancelled)

/-- **What an action does to the queue**, if anything. -/
def act (ω : Service) : ServiceAction → Option Action
  | .enqueueSingle messageId utcNow payload => some (.enqueue messageId utcNow (some payload))
  | .enqueueMultiple _ => none
  | .enqueueNext request messageId utcNow =>
    match ω.requests[request]? with
    | some r =>
      if r.messageIds.length < r.count then some (.enqueue messageId utcNow (some r.payload))
      else none
    | none => none
  | .changePayload messageId payload => some (.changeMessagePayload messageId (some payload))
  | .subscribe s => some (.subscribe s)
  | .unsubscribe s => some (.unsubscribe s)
  | .replayFrom s messageId => some (.replayFrom s messageId)
  | .replayFromDlq s messageId => some (.replayFromDlq s messageId)
  | .replayAllDlq s => some (.replayAllDlqMessages s)
  | .replayAllDlqSubscribers => some .replayAllDlqSubscribers
  | .beginPrune utcNow => some (.beginPrune utcNow)
  | .prune pass => some (.prune pass)
  | .dispose => some .dispose
  | .dispatch s => some (.dispatch s)
  | .received s delayCancelled =>
    match (ω.system.loops s).awaits with
    | some (caller, _) => (ω.answer s caller delayCancelled).map (.received s)
    | none => none
  | .failedHandled s => some (.failedHandled s onMessageFailedHandler)
  | .runScheduled s call => some (.runScheduled s call)
  | .replayReceived s call delayCancelled =>
    (ω.answer s (.replay call) delayCancelled).map (.replayReceived s call)
  | .replayFailedHandled s call => some (.replayFailedHandled s call onMessageFailedHandler)

/-- A call of the handler is noted. -/
def note (σ : System) (calls : Guid → Caller → Option HandlerCall) :
    Event → Guid → Caller → Option HandlerCall
  | .receiveCalled s caller m payload => fun s' caller' =>
    if s' = s ∧ caller' = caller then some ⟨m, payload, σ.tokenCancelled s caller⟩
    else calls s' caller'
  | _ => calls

/-- What an action does to the requests, apart from the queue: one more message is enqueued. -/
def requestsAfter (ω : Service) : ServiceAction → List EnqueueRequest
  | .enqueueNext request messageId _ =>
    ω.requests.modify request fun r => { r with messageIds := r.messageIds ++ [messageId] }
  | _ => ω.requests

end Service

/-- **The transition function of the application.** -/
def serviceStep (ω : Service) (a : ServiceAction) : Option (Service × List Event) :=
  match a with
  | .enqueueMultiple count =>
    -- a negative count makes `new List<Guid>(count)` throw
    if count < 0 then some (ω, [])
    else some ({ ω with
      requests := ω.requests ++ [⟨ω.system.queue.buffer.length, count.toNat, []⟩] }, [])
  | a =>
    match ω.act a with
    | none => none
    | some b =>
      match step ω.system b with
      | none => none
      | some (σ', evs) =>
        some (⟨σ', evs.foldl (Service.note ω.system) ω.calls, ω.requestsAfter a⟩, evs)

/-- The transitions of the application. -/
abbrev ServiceTrace := List (Transition Service ServiceAction Event)

/-- The runs of the application. -/
abbrev ServiceRun (ttl : TimeSpan) (retryCount : ℕ) (tr : ServiceTrace) (ω : Service) : Prop :=
  Run serviceStep (Service.init ttl retryCount) tr ω

/-- Actions that can all be taken make a run. -/
theorem serviceRun_exec (ttl : TimeSpan) (retryCount : ℕ) (as : List ServiceAction)
    (h : (exec serviceStep (Service.init ttl retryCount) as).isSome) :
    ServiceRun ttl retryCount (traceOf serviceStep (Service.init ttl retryCount) as)
      (stateOf serviceStep (Service.init ttl retryCount) as) :=
  run_exec as h

/-! ### What a transition can do -/

section Steps

variable {ω ω' : Service} {a : ServiceAction} {evs : List Event}

/-- **What a transition of the application can do**: what its action means to the queue, or nothing
but take a request of `EnqueueXMessages`. -/
theorem serviceStep_cases (h : serviceStep ω a = some (ω', evs)) :
    (∃ b, ω.act a = some b ∧ step ω.system b = some (ω'.system, evs) ∧
      ω'.calls = evs.foldl (Service.note ω.system) ω.calls ∧ ω'.requests = ω.requestsAfter a) ∨
    ∃ count, a = .enqueueMultiple count ∧ evs = [] ∧ ω'.system = ω.system ∧ ω'.calls = ω.calls ∧
      (count < 0 ∧ ω'.requests = ω.requests ∨ 0 ≤ count ∧ ω'.requests =
        ω.requests ++ [⟨ω.system.queue.buffer.length, count.toNat, []⟩]) := by
  by_cases hmulti : ∃ count, a = .enqueueMultiple count
  · obtain ⟨count, rfl⟩ := hmulti
    refine Or.inr ⟨count, rfl, ?_⟩
    simp only [serviceStep] at h
    split_ifs at h with hneg
    · obtain ⟨rfl, rfl⟩ := by simpa using h
      exact ⟨rfl, rfl, rfl, Or.inl ⟨hneg, rfl⟩⟩
    · obtain ⟨rfl, rfl⟩ := by simpa using h
      exact ⟨rfl, rfl, rfl, Or.inr ⟨not_lt.mp hneg, rfl⟩⟩
  · refine Or.inl ?_
    rw [serviceStep] at h
    · split at h
      · simp at h
      · rename_i b hb
        split at h
        · simp at h
        · rename_i σ' evs' hs
          obtain ⟨rfl, rfl⟩ := by simpa using h
          exact ⟨b, hb, hs, rfl, rfl⟩
    · exact fun count hcount => hmulti ⟨count, hcount⟩

/-- The trace of the system in a trace of the application. -/
abbrev systemTrace (tr : ServiceTrace) : Trace := simulated Service.system Service.act tr

/-- **The application runs the system.** -/
theorem systemRun_of_run {ω₀ : Service} {tr : ServiceTrace} (h : Run serviceStep ω₀ tr ω) :
    Run step ω₀.system (systemTrace tr) ω.system ∧ events (systemTrace tr) = events tr := by
  refine h.simulate Service.system Service.act ?_ ?_
  · intro ω a b ω' out hs hb
    rcases serviceStep_cases hs with ⟨b', hb', hstep, -⟩ | ⟨count, rfl, -⟩
    · obtain rfl := Option.some.inj (hb.symm.trans hb')
      exact hstep
    · simp [Service.act] at hb
  · intro ω a ω' out hs hb
    rcases serviceStep_cases hs with ⟨b', hb', -⟩ | ⟨count, rfl, rfl, hsys, -⟩
    · simp [hb] at hb'
    · exact ⟨hsys, rfl⟩

/-- A run of the application from its start is one of a freshly constructed queue. -/
theorem runOf_of_serviceRun {ttl : TimeSpan} {n : ℕ} {tr : ServiceTrace}
    (h : ServiceRun ttl n tr ω) : RunOf ttl n (systemTrace tr) ω.system :=
  (systemRun_of_run h).1

end Steps

/-! ### What the handler is shown -/

section Noted

variable {σ : System} {calls : Guid → Caller → Option HandlerCall} {evs : List Event} {s : Guid}
  {caller : Caller} {call : HandlerCall} {m : MessageEnvelope}

/-- A call that is noted after a transition was noted before it, or has been made in it. -/
theorem Service.of_foldl_note (h : evs.foldl (Service.note σ) calls s caller = some call) :
    calls s caller = some call ∨
      .receiveCalled s caller call.message call.payload ∈ evs ∧
        call.cancelled = σ.tokenCancelled s caller := by
  induction evs generalizing calls with
  | nil => exact Or.inl h
  | cons e evs ih =>
    rcases ih h with hcalls | ⟨hmem, hc⟩
    · cases e with
      | receiveCalled s' caller' m payload =>
        simp only [Service.note] at hcalls
        split_ifs at hcalls with heq
        · obtain ⟨rfl, rfl⟩ := heq
          obtain rfl := Option.some.inj hcalls
          exact Or.inr ⟨List.mem_cons_self, rfl⟩
        · exact Or.inl hcalls
      | _ => exact Or.inl hcalls
    · exact Or.inr ⟨List.mem_cons_of_mem _ hmem, hc⟩

/-- What is not called stays noted. -/
theorem Service.foldl_note_of_notMem (h : ∀ m p, .receiveCalled s caller m p ∉ evs) :
    evs.foldl (Service.note σ) calls s caller = calls s caller := by
  induction evs generalizing calls with
  | nil => rfl
  | cons e evs ih =>
    rw [List.foldl_cons, ih fun m p hmem => h m p (List.mem_cons_of_mem _ hmem)]
    cases e with
    | receiveCalled s' caller' m payload =>
      refine if_neg ?_
      rintro ⟨rfl, rfl⟩
      exact h m payload List.mem_cons_self
    | _ => rfl

/-- What is called is noted. -/
theorem Service.exists_foldl_note {p : Payload} (h : .receiveCalled s caller m p ∈ evs) :
    ∃ call, evs.foldl (Service.note σ) calls s caller = some call ∧
      .receiveCalled s caller call.message call.payload ∈ evs := by
  induction evs generalizing calls m p with
  | nil => simp at h
  | cons e evs ih =>
    rw [List.foldl_cons]
    by_cases hlater : ∃ m p, .receiveCalled s caller m p ∈ evs
    · obtain ⟨m', p', hmem⟩ := hlater
      obtain ⟨call, hcall, hmem⟩ := ih hmem
      exact ⟨call, hcall, List.mem_cons_of_mem _ hmem⟩
    · push Not at hlater
      rw [foldl_note_of_notMem hlater]
      rcases List.mem_cons.mp h with rfl | hmem
      · exact ⟨_, if_pos ⟨rfl, rfl⟩, List.mem_cons_self⟩
      · exact absurd hmem (hlater m p)

end Noted

/-! ### What is noted -/

section System

variable {σ σ' : System} {a : Action} {evs : List Event} {s : Guid} {caller : Caller}
  {m : MessageEnvelope} {payload : Payload} {ttl : TimeSpan} {n : ℕ} {tr : Trace}

/-- Only `Enqueue` takes a new `Id`. -/
theorem Effect.messageIds_eq (h : Effect σ a σ' evs) (ha : ∀ id t p, a ≠ .enqueue id t p) :
    σ'.messageIds = σ.messageIds := by
  cases h with
  | enqueue _ => exact absurd rfl (ha _ _ _)
  | _ => rfl

/-- A loop hands over the message it is delivering. -/
theorem LoopStep.message_of_called (h : LoopStep s σ a σ' evs) (hc : caller.ofLoop)
    (hmem : .receiveCalled s caller m payload ∈ evs) : (σ.loops s).message = some m := by
  cases h with
  | stays _ _ hquiet => exact absurd ⟨rfl, Caller.ofLoop_iff.mp hc⟩ (hquiet _ hmem)
  | dispatch hl =>
    generalize σ.loops s = p, σ'.loops s = p', σ'.queue = q' at hl
    cases hl with
    | attempt _ | manualRetry _ =>
      obtain ⟨-, rfl, -⟩ := by simpa using hmem
      rfl
    | _ => simp at hmem
  | _ => simp at hmem

/-- **Only messages that have been enqueued are handed over.** -/
theorem enqueued_of_called (h : RunOf ttl n tr σ) (heff : Effect σ a σ' evs)
    (hmem : .receiveCalled s caller m payload ∈ evs) : m ∈ enqueuedOf (events tr) := by
  cases caller with
  | replay call =>
    have hd := heff.dlqStep (wellFormed_of_run h) s
    rcases hd.mem_entries (hd.mem_of_receiveCalled hmem) with hm | hadd
    · exact (addedToDlq_of_run h ((accounted_of_run h s).entries m hm)).1
    · obtain ⟨-, rfl, -⟩ := hd.addedToDlq hadd
      simp at hmem
  | _ => exact delivering_enqueued_of_run h ((heff.loopStep s).message_of_called rfl hmem)

theorem mem_messageIds_of_called (h : RunOf ttl n tr σ) (heff : Effect σ a σ' evs)
    (hmem : .receiveCalled s caller m payload ∈ evs) : m.id ∈ σ.messageIds :=
  idsUsed_of_run h m (enqueued_of_called h heff hmem)

/-- A cancelled token stays cancelled. -/
theorem Effect.tokenCancelled (h : Effect σ a σ' evs) (hs : s ∈ σ.subscriberIds)
    (hc : σ.tokenCancelled s caller = true) :
    σ'.tokenCancelled s caller = true := by
  cases caller with
  | dispatch => exact (h.cancelled hs hc).2
  | manualRetry =>
    by_cases hdis : a = .dispose
    · subst hdis
      cases h with
      | dispose =>
        exact CancellationTokenSource.isCancellationRequested_cancelAndDispose fun _ => hc
    · rw [System.tokenCancelled, h.cts_of_ne_dispose hdis]
      exact hc
  | replay _ => exact hc

end System

/-- What is known of the calls noted: no payload is null, what a handler was shown is related to the
payload the message has now, and an awaited call has been noted. -/
structure Noted (R : Payload → Payload → Prop) (σ : System)
    (calls : Guid → Caller → Option HandlerCall) : Prop where
  texts : ∀ id ∈ σ.messageIds, σ.queue.payloads id ≠ none
  shown : ∀ s caller call, calls s caller = some call →
    call.message.id ∈ σ.messageIds ∧ R (σ.queue.payloads call.message.id) call.payload
  cancelled : ∀ s caller call, calls s caller = some call → call.cancelled = true →
    s ∈ σ.subscriberIds ∧ σ.tokenCancelled s caller = true
  awaited : ∀ s m caller, σ.Awaits s m caller → ∃ call, calls s caller = some call ∧
    call.message = m

section Noted

variable {R : Payload → Payload → Prop} {ω ω' : Service} {a : ServiceAction} {b : Action}
  {evs : List Event} {ttl : TimeSpan} {n : ℕ} {tr : Trace}

/-- What the application enqueues or changes a payload to is a text. -/
theorem Service.act_text (h : ω.act a = some b) :
    (∀ id t p, b = .enqueue id t p → p ≠ none) ∧
      ∀ id p, b = .changeMessagePayload id p →
        ∃ text, p = some text ∧ a = .changePayload id text := by
  cases a with
  | enqueueSingle _ _ _ | changePayload _ _ =>
    obtain rfl := Option.some.inj h
    simp
  | enqueueNext _ _ _ =>
    simp only [act] at h
    split at h
    · split_ifs at h
      obtain rfl := Option.some.inj h
      simp
    · simp at h
  | received _ _ =>
    simp only [act] at h
    split at h
    · obtain ⟨r, -, rfl⟩ := Option.map_eq_some_iff.mp h
      simp
    · simp at h
  | replayReceived _ _ _ =>
    obtain ⟨r, -, rfl⟩ := Option.map_eq_some_iff.mp h
    simp
  | enqueueMultiple _ => simp [act] at h
  | _ =>
    obtain rfl := Option.some.inj h
    simp

/-- The answers the application gives are those of its handler. -/
theorem Service.act_answers (h : ω.act a = some b) :
    (∀ s r, b = .received s r → ∃ caller m d, (ω.system.loops s).awaits = some (caller, m) ∧
      ω.answer s caller d = some r) ∧
    (∀ s call r, b = .replayReceived s call r → ∃ d, ω.answer s (.replay call) d = some r) ∧
    (∀ s r, b = .failedHandled s r → r = onMessageFailedHandler) ∧
    ∀ s call r, b = .replayFailedHandled s call r → r = onMessageFailedHandler := by
  cases a with
  | enqueueNext _ _ _ =>
    simp only [act] at h
    split at h
    · split_ifs at h
      obtain rfl := Option.some.inj h
      simp
    · simp at h
  | received s d =>
    simp only [act] at h
    split at h
    · rename_i caller m hawaits
      obtain ⟨r, hr, rfl⟩ := Option.map_eq_some_iff.mp h
      refine ⟨?_, by simp, by simp, by simp⟩
      rintro s' r' heq
      obtain ⟨rfl, rfl⟩ := by simpa using heq
      exact ⟨caller, m, d, hawaits, hr⟩
    · simp at h
  | replayReceived s call d =>
    obtain ⟨r, hr, rfl⟩ := Option.map_eq_some_iff.mp h
    refine ⟨by simp, ?_, by simp, by simp⟩
    rintro s' call' r' heq
    obtain ⟨rfl, rfl, rfl⟩ := by simpa using heq
    exact ⟨d, hr⟩
  | enqueueMultiple _ => simp [act] at h
  | _ =>
    obtain rfl := Option.some.inj h
    simp

/-- The payload of a known message stays, or is changed to a text while the message is in the
buffer. -/
theorem Service.payloads (hb : ω.act a = some b) {σ' : System} (heff : Effect ω.system b σ' evs)
    {id : Guid} (hid : id ∈ ω.system.messageIds) :
    id ∈ σ'.messageIds ∧ (σ'.queue.payloads id = ω.system.queue.payloads id ∨
      ∃ text, a = .changePayload id text ∧ (∃ m ∈ ω.system.queue.buffer, m.id = id) ∧
        σ'.queue.payloads id = some text) := by
  by_cases hchange : ∃ p, b = .changeMessagePayload id p
  · obtain ⟨p, rfl⟩ := hchange
    obtain ⟨text, rfl, rfl⟩ := (act_text hb).2 id p rfl
    cases heff with
    | changeMessagePayload =>
      refine ⟨hid, ?_⟩
      simp only [SubscribableQueue.changeMessagePayload_eq]
      split_ifs with hbuffered
      · exact Or.inr ⟨text, rfl, hbuffered, Function.update_self ..⟩
      · exact Or.inl rfl
  · obtain ⟨hid', hsame⟩ := heff.payloads hid fun p hp => hchange ⟨p, hp⟩
    exact ⟨hid', Or.inl hsame⟩

/-- **One transition keeps what is known of the calls**, if a change of a payload does that finds
its message. -/
theorem Noted.step (h : Noted R ω.system ω.calls) (hR : ∀ p, p ≠ none → R p p)
    (hrun : RunOf ttl n tr ω.system) (hs : serviceStep ω a = some (ω', evs))
    (hkeep : ∀ id text, a = .changePayload id text → (∃ m ∈ ω.system.queue.buffer, m.id = id) →
      ∀ p, R (ω.system.queue.payloads id) p → R (some text) p) :
    Noted R ω'.system ω'.calls := by
  rcases serviceStep_cases hs with ⟨b, hb, hstep, hcalls, -⟩ | ⟨-, -, -, hsys, hcalls, -⟩
  · have heff := effect_of_step hstep
    rw [hcalls]
    refine ⟨?_, ?_, ?_, ?_⟩
    · intro id hid
      by_cases hknown : id ∈ ω.system.messageIds
      · rcases (Service.payloads hb heff hknown).2 with hp | ⟨text, -, -, hp⟩
        · exact hp ▸ h.texts id hknown
        · simp [hp]
      · -- it has just been enqueued
        by_cases henq : ∃ id t p, b = .enqueue id t p
        · obtain ⟨id', t, p, rfl⟩ := henq
          have hp := (Service.act_text hb).1 id' t p rfl
          generalize ω'.system = σ' at heff hid
          cases heff with
          | enqueue _ =>
            obtain rfl := (List.mem_cons.mp hid).resolve_right hknown
            simpa [SubscribableQueue.enqueue] using hp
        · push Not at henq
          rw [heff.messageIds_eq henq] at hid
          exact absurd hid hknown
    · intro s caller call hcall
      rcases Service.of_foldl_note hcall with hold | ⟨hmem, -⟩
      · obtain ⟨hid, hrel⟩ := h.shown s caller call hold
        obtain ⟨hid', hp | ⟨text, ha, hin, hp⟩⟩ := Service.payloads hb heff hid
        · exact ⟨hid', hp ▸ hrel⟩
        · exact ⟨hid', hp ▸ hkeep _ _ ha hin _ hrel⟩
      · have hid := mem_messageIds_of_called hrun heff hmem
        have hpayload := heff.handed hmem
        obtain ⟨hid', hp | ⟨text, ha, hin, hp⟩⟩ := Service.payloads hb heff hid
        · refine ⟨hid', ?_⟩
          rw [hp, hpayload]
          exact hR _ (h.texts _ hid)
        · refine ⟨hid', ?_⟩
          rw [hp, hpayload]
          exact hkeep _ _ ha hin _ (hR _ (h.texts _ hid))
    · intro s caller call hcall hc
      rcases Service.of_foldl_note hcall with hold | ⟨hmem, hnow⟩
      · obtain ⟨hid, hc'⟩ := h.cancelled s caller call hold hc
        exact ⟨heff.subscriberId hid, heff.tokenCancelled hid hc'⟩
      · rw [hc] at hnow
        have hid : s ∈ ω.system.subscriberIds := by
          cases caller with
          | replay _ => exact absurd hnow (by simp [System.tokenCancelled])
          | _ =>
            have hm := (heff.loopStep s).message_of_called rfl hmem
            by_contra hno
            simp [(wellFormed_of_run hrun).unknown_idle s hno, DispatchPhase.message] at hm
        exact ⟨heff.subscriberId hid, heff.tokenCancelled hid hnow.symm⟩
    · intro s m caller hm
      rcases heff.made (wellFormed_of_run hrun) hm with ⟨hold, hno⟩ | ⟨⟨p, hmem⟩, honly⟩
      · obtain ⟨call, hcall, hmsg⟩ := h.awaited s m caller hold
        exact ⟨call, (Service.foldl_note_of_notMem hno).trans hcall, hmsg⟩
      · obtain ⟨call, hcall, hmem⟩ := Service.exists_foldl_note hmem
        exact ⟨call, hcall, honly _ _ hmem⟩
  · rw [hsys, hcalls]
    exact h

/-- What is known of the calls in every state of a run whose changes of payloads keep what was
shown related to them. -/
theorem noted_of_run {tr : ServiceTrace} (h : ServiceRun ttl n tr ω) (hR : ∀ p, p ≠ none → R p p)
    (hkeep : ∀ t ∈ tr, ∀ id text, t.act = .changePayload id text →
      (∃ m ∈ t.pre.system.queue.buffer, m.id = id) →
        ∀ p, R (t.pre.system.queue.payloads id) p → R (some text) p) :
    Noted R ω.system ω.calls := by
  refine h.invariantOn (I := fun _ ω => Noted R ω.system ω.calls) ?_ ?_ hkeep
  · refine ⟨by simp [Service.init, System.init], by simp [Service.init], by simp [Service.init], ?_⟩
    intro s m caller hm
    cases caller <;>
      simp [Service.init, System.init, System.Awaits, DispatchPhase.awaits] at hm
  · intro tr ω a evs ω' hrun hn hs hkeep
    exact hn.step hR (runOf_of_serviceRun hrun) hs hkeep

/-- What an answer of the handler says, in the state it is given in: it is that of its code, on a
payload related to the one the message has, and its delay is cancelled only with the token. -/
def AnswersFor (R : Payload → Payload → Prop) (σ : System) (s : Guid) (caller : Caller)
    (m : MessageEnvelope) (r : ReceiveResult) : Prop :=
  ∃ call delayCancelled, m.id ∈ σ.messageIds ∧ R (σ.queue.payloads m.id) call.payload ∧
    r = onMessageReceive call delayCancelled ∧
    (caller.ofLoop → (call.cancelled || delayCancelled) = true → σ.tokenCancelled s caller = true)

/-- **The handler answers what its code answers**, to every call of every caller. -/
theorem Noted.answers (h : Noted R ω.system ω.calls) (hs : serviceStep ω a = some (ω', evs)) :
    (∀ s caller m r, .receiveReturned s caller m r ∈ evs → AnswersFor R ω.system s caller m r) ∧
      ∀ s caller m r, .failedReturned s caller m r ∈ evs → r = onMessageFailedHandler := by
  rcases serviceStep_cases hs with ⟨b, hb, hstep, -⟩ | ⟨-, -, rfl, -⟩
  · have heff := effect_of_step hstep
    refine ⟨?_, ?_⟩
    · intro s caller m r hmem
      obtain ⟨hawaits, hact⟩ := heff.of_receiveReturned hmem
      obtain ⟨call, hcall, rfl⟩ := h.awaited s m caller hawaits
      obtain ⟨hid, hrel⟩ := h.shown s caller call hcall
      have hanswer : ∃ d, ω.answer s caller d = some r := by
        rcases hact with ⟨hc, rfl⟩ | ⟨n, rfl, rfl⟩
        · obtain ⟨caller', m', d, hawaits', hd⟩ := (Service.act_answers hb).1 s r rfl
          rw [(System.awaits_iff hc).mp hawaits] at hawaits'
          obtain ⟨rfl, -⟩ := by simpa using hawaits'
          exact ⟨d, hd⟩
        · exact (Service.act_answers hb).2.1 s n r rfl
      obtain ⟨d, hd⟩ := hanswer
      simp only [Service.answer, hcall] at hd
      split_ifs at hd with hguard
      obtain rfl := Option.some.inj hd
      refine ⟨call, d, hid, hrel, rfl, fun hc htoken => ?_⟩
      rcases Bool.or_eq_true_iff.mp htoken with hcancelled | rfl
      · exact (h.cancelled s caller call hcall hcancelled).2
      · simpa [hc] using hguard
    · intro s caller m r hmem
      rcases heff.of_failedReturned hmem with rfl | ⟨n, rfl⟩
      · exact (Service.act_answers hb).2.2.1 s r rfl
      · exact (Service.act_answers hb).2.2.2 s n r rfl
  · simp

end Noted

end PushDeliveredQueue
