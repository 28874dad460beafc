import PushDeliveredQueue.Models

/-!
# What the outside world sees

The events a run of the queue emits: the calls of a subscriber's handler and what they
return, and the effects the queue reports through its logger. A message carries its
identity; the payload a handler is shown is recorded with the call.
-/

namespace PushDeliveredQueue

/-- Who calls a handler. -/
inductive Caller where
  /-- The dispatch loop, through the retry policy. -/
  | dispatch
  /-- `OnFailedAsync`, for the one extra attempt of the two `RetryOnce` behaviours. -/
  | manualRetry
  /-- The replay call of this number on the subscriber's dead letter queue. -/
  | replay (call : ℕ)
  deriving DecidableEq

/-- An event. -/
inductive Event where
  /-- `Enqueue` added this message to the buffer. -/
  | enqueued (message : MessageEnvelope)
  /-- A pass of `PruneExpiredMessages` removed these messages, in buffer order. -/
  | pruned (messages : List MessageEnvelope)
  /-- `ReplayFrom` was accepted and set the cursor to this index. -/
  | replayedFrom (subscriberId messageId : Guid) (index : ℕ)
  /-- The dispatch loop's locked read returned this. -/
  | dispatchRead (subscriberId : Guid) (next : Option MessageEnvelope)
  /-- `OnMessageReceiveAsync` was called. -/
  | receiveCalled (subscriberId : Guid) (caller : Caller) (message : MessageEnvelope)
      (payload : Payload)
  /-- A call of `OnMessageReceiveAsync` ended. -/
  | receiveReturned (subscriberId : Guid) (caller : Caller) (message : MessageEnvelope)
      (result : ReceiveResult)
  /-- `OnMessageFailedHandlerAsync` was called, with the exception of the attempt or null. -/
  | failedCalled (subscriberId : Guid) (caller : Caller) (message : MessageEnvelope)
      (exception : Option Exception)
  /-- A call of `OnMessageFailedHandlerAsync` ended. -/
  | failedReturned (subscriberId : Guid) (caller : Caller) (message : MessageEnvelope)
      (result : FailedResult)
  /-- `AddToDeadLetterQueue` found its subscriber and added this message. -/
  | addedToDlq (subscriberId : Guid) (message : MessageEnvelope)
  /-- `Commit` found its subscriber, at the end of the delivery of this message. -/
  | committed (subscriberId : Guid) (message : MessageEnvelope)
  /-- `Commit` found no subscriber, at the end of the delivery of this message. -/
  | commitMissed (subscriberId : Guid) (message : MessageEnvelope)
  deriving DecidableEq

/-- The exception a failure handler is told of: none for a `Nack`. -/
def exceptionOf : ReceiveResult → Option Exception
  | .ok _ => none
  | .error e => some e

/-! ### Reading a history -/

/-- The messages enqueued, in lock order. -/
def enqueuedOf (evs : List Event) : List MessageEnvelope :=
  evs.filterMap fun
    | .enqueued m => some m
    | _ => none

/-- The messages pruned, in the order they left. -/
def prunedOf (evs : List Event) : List MessageEnvelope :=
  evs.flatMap fun
    | .pruned ms => ms
    | _ => []

/-- The messages a subscriber's dispatch loop read for delivery, in order. -/
def readsOf (s : Guid) (evs : List Event) : List MessageEnvelope :=
  evs.filterMap fun
    | .dispatchRead s' next => if s' = s then next else none
    | _ => none

/-- The messages a subscriber committed, in order. -/
def committedOf (s : Guid) (evs : List Event) : List MessageEnvelope :=
  evs.filterMap fun
    | .committed s' m => if s' = s then some m else none
    | _ => none

/-- What a subscriber's handler was handed to process, by whomever, with the payload it
was shown. -/
def handedOf (s : Guid) (evs : List Event) : List (MessageEnvelope × Payload) :=
  evs.filterMap fun
    | .receiveCalled s' _ m p => if s' = s then some (m, p) else none
    | _ => none

@[simp] theorem enqueuedOf_append (evs evs' : List Event) :
    enqueuedOf (evs ++ evs') = enqueuedOf evs ++ enqueuedOf evs' :=
  List.filterMap_append

@[simp] theorem prunedOf_append (evs evs' : List Event) :
    prunedOf (evs ++ evs') = prunedOf evs ++ prunedOf evs' :=
  List.flatMap_append

@[simp] theorem readsOf_append (s : Guid) (evs evs' : List Event) :
    readsOf s (evs ++ evs') = readsOf s evs ++ readsOf s evs' :=
  List.filterMap_append

@[simp] theorem committedOf_append (s : Guid) (evs evs' : List Event) :
    committedOf s (evs ++ evs') = committedOf s evs ++ committedOf s evs' :=
  List.filterMap_append

@[simp] theorem handedOf_append (s : Guid) (evs evs' : List Event) :
    handedOf s (evs ++ evs') = handedOf s evs ++ handedOf s evs' :=
  List.filterMap_append

@[simp] theorem readsOf_dispatchRead (s : Guid) (next : Option MessageEnvelope) :
    readsOf s [.dispatchRead s next] = next.toList := by
  cases next <;> simp [readsOf]

theorem mem_readsOf {s : Guid} {m : MessageEnvelope} {evs : List Event} :
    m ∈ readsOf s evs ↔ Event.dispatchRead s (some m) ∈ evs := by
  simp only [readsOf, List.mem_filterMap]
  constructor
  · rintro ⟨e, he, h⟩
    cases e <;> simp_all
  · exact fun h => ⟨_, h, by simp⟩

theorem mem_committedOf {s : Guid} {m : MessageEnvelope} {evs : List Event} :
    m ∈ committedOf s evs ↔ Event.committed s m ∈ evs := by
  simp only [committedOf, List.mem_filterMap]
  constructor
  · rintro ⟨e, he, h⟩
    cases e <;> simp_all
  · exact fun h => ⟨_, h, by simp⟩

end PushDeliveredQueue
