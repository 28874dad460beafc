import PushDeliveredQueue.Queue
import PushDeliveredQueue.Events

/-!
# The dispatch loop

`DispatchLoopAsync` of one subscriber, with the retry policy its `ExecuteAsync` runs and
the `OnFailedAsync` callback of that policy, as a state machine:
`PushDeliveredQueue.DispatchPhase` is where the loop is, `PushDeliveredQueue.dispatchStep`
the next thing it does on its own, and `PushDeliveredQueue.received` and
`PushDeliveredQueue.failedHandled` what it does when a handler call it awaits comes back.

The policy is Polly's wrap of an outer fallback around an inner wait-and-retry. The inner
one calls `OnMessageReceiveAsync` again while it returns `Nack` or throws and retries are
left; the outer one answers a failure that remains by awaiting `OnFailedAsync`, and then
returns the fallback value `Nack`, which the loop does not commit. An exception of
`OnFailedAsync` itself leaves the policy, and with it the loop.
-/

namespace PushDeliveredQueue

/-- Where a dispatch loop is. -/
inductive DispatchPhase where
  /-- `Task.Run` has not been called for this subscriber. -/
  | notStarted
  /-- At the `while` condition. -/
  | checking
  /-- Past it, about to take the lock and read. -/
  | reading
  /-- Nothing to deliver: in `Task.Delay(100, …)`. -/
  | backoff
  /-- The policy is about to make a call, after this many failed ones. -/
  | attempting (message : MessageEnvelope) (retries : ℕ)
  /-- The policy awaits that call of `OnMessageReceiveAsync`. -/
  | receiving (message : MessageEnvelope) (retries : ℕ)
  /-- At the start of `OnFailedAsync`, with the exception of the last attempt. -/
  | failed (message : MessageEnvelope) (exception : Option Exception)
  /-- `OnFailedAsync` awaits `OnMessageFailedHandlerAsync`. -/
  | deciding (message : MessageEnvelope)
  /-- `OnFailedAsync` is about to make the one extra attempt. -/
  | manualRetry (message : MessageEnvelope) (thenDLQ : Bool)
  /-- `OnFailedAsync` awaits that attempt. -/
  | retrying (message : MessageEnvelope) (thenDLQ : Bool)
  /-- About to run `AddToDeadLetterQueue`. -/
  | deadLettering (message : MessageEnvelope)
  /-- About to run `Commit`. -/
  | committing (message : MessageEnvelope)
  /-- The loop saw its cancellation and returned. -/
  | ended
  /-- An exception escaped the loop and ended it. -/
  | faulted
  deriving DecidableEq

namespace DispatchPhase

/-- The message a loop is delivering: the one it has read, until its `Commit` has run or
the delivery has ended without one. -/
def message : DispatchPhase → Option MessageEnvelope
  | .attempting m _ | .receiving m _ | .failed m _ | .deciding m | .manualRetry m _
  | .retrying m _ | .deadLettering m | .committing m => some m
  | .notStarted | .checking | .reading | .backoff | .ended | .faulted => none

/-- A loop that has been started and has not returned or been ended. -/
def Running (p : DispatchPhase) : Prop := p ≠ .notStarted ∧ p ≠ .ended ∧ p ≠ .faulted

instance (p : DispatchPhase) : Decidable p.Running := inferInstanceAs (Decidable (_ ∧ _ ∧ _))

end DispatchPhase

/-- What the retry policy does with the outcome of a call, `retries` retries having been
used of `retryCount`: on `Ack` it returns it and the loop commits; otherwise it retries,
or leaves the failure to the fallback. -/
def afterAttempt (retryCount : ℕ) (m : MessageEnvelope) (retries : ℕ) (r : ReceiveResult) :
    DispatchPhase :=
  if r = .ok .ack then .committing m
  else if retries < retryCount then .attempting m (retries + 1)
  else .failed m (exceptionOf r)

/-- The `switch` of `OnFailedAsync`. -/
def afterFailedHandler (m : MessageEnvelope) : FailedResult → DispatchPhase
  | .error _ => .faulted
  | .ok .addToDLQ => .deadLettering m
  | .ok .commit => .committing m
  | .ok .retryOnceThenCommit => .manualRetry m false
  | .ok .retryOnceThenDLQ => .manualRetry m true
  | .ok .block => .checking

/-- What `OnFailedAsync` does after its extra attempt, whose result it does not look at. -/
def afterManualRetry (m : MessageEnvelope) (thenDLQ : Bool) : ReceiveResult → DispatchPhase
  | .error _ => .faulted
  | .ok _ => if thenDLQ then .deadLettering m else .committing m

section Steps

variable (q : SubscribableQueue) (s : Guid)

/-- The cancellation source of a subscriber's cursor. -/
abbrev SubscribableQueue.cancellation : CancellationTokenSource := (q.cursors s).cancellation

/-- **The next step a loop takes on its own**: the queue and the phase after it, and the
events. A loop that awaits a handler, or is not running, takes none. -/
def dispatchStep : DispatchPhase → Option (SubscribableQueue × DispatchPhase × List Event)
  | .checking =>
    match (q.cancellation s).token with
    | .error _ => some (q, .faulted, [])
    | .ok true => some (q, .ended, [])
    | .ok false => some (q, .reading, [])
  | .reading =>
    match q.next (q.cursors s) with
    | .error _ => some (q, .faulted, [])
    | .ok none => some (q, .backoff, [.dispatchRead s none])
    | .ok (some m) => some (q, .attempting m 0, [.dispatchRead s (some m)])
  | .backoff =>
    -- a cancelled delay throws `TaskCanceledException`
    match (q.cancellation s).token with
    | .error _ | .ok true => some (q, .faulted, [])
    | .ok false => some (q, .checking, [])
  | .attempting m k =>
    -- reading the token is part of the call the policy makes, so its exception is retried
    match (q.cancellation s).token with
    | .error e => some (q, afterAttempt q.retryCount m k (.error e), [])
    | .ok _ => some (q, .receiving m k, [.receiveCalled s .dispatch m (q.payloads m.id)])
  | .failed m exception =>
    match q.cts.token with
    | .error _ => some (q, .faulted, [])
    | .ok _ => some (q, .deciding m, [.failedCalled s .dispatch m exception])
  | .manualRetry m thenDLQ =>
    match q.cts.token with
    | .error _ => some (q, .faulted, [])
    | .ok _ =>
      some (q, .retrying m thenDLQ, [.receiveCalled s .manualRetry m (q.payloads m.id)])
  | .deadLettering m =>
    some (q.addToDeadLetterQueue s m, .committing m,
      if s ∈ q.subscribers then [.addedToDlq s m] else [])
  | .committing m =>
    -- after the failure path the policy returns `Nack`: either way the loop goes round
    some (q.commit s, .checking,
      [if s ∈ q.subscribers then .committed s m else .commitMissed s m])
  | .notStarted | .receiving _ _ | .deciding _ | .retrying _ _ | .ended | .faulted => none

/-- A call of `OnMessageReceiveAsync` the loop awaits comes back. -/
def received (retryCount : ℕ) : DispatchPhase → ReceiveResult → Option (DispatchPhase × List Event)
  | .receiving m k, r =>
    some (afterAttempt retryCount m k r, [.receiveReturned s .dispatch m r])
  | .retrying m thenDLQ, r =>
    some (afterManualRetry m thenDLQ r, [.receiveReturned s .manualRetry m r])
  | _, _ => none

/-- The call of `OnMessageFailedHandlerAsync` the loop awaits comes back. -/
def failedHandled : DispatchPhase → FailedResult → Option (DispatchPhase × List Event)
  | .deciding m, r => some (afterFailedHandler m r, [.failedReturned s .dispatch m r])
  | _, _ => none

end Steps

/-! ### The message of a phase -/

theorem message_afterAttempt (n : ℕ) (m : MessageEnvelope) (k : ℕ) (r : ReceiveResult) :
    (afterAttempt n m k r).message = some m := by
  unfold afterAttempt
  split
  · rfl
  · split <;> rfl

theorem message_afterFailedHandler (m : MessageEnvelope) (r : FailedResult) :
    (afterFailedHandler m r).message = some m ∨ (afterFailedHandler m r).message = none := by
  rcases r with e | b
  · exact Or.inr rfl
  · cases b
    case block => exact Or.inr rfl
    all_goals exact Or.inl rfl

theorem message_afterManualRetry (m : MessageEnvelope) (thenDLQ : Bool) (r : ReceiveResult) :
    (afterManualRetry m thenDLQ r).message = some m ∨
      (afterManualRetry m thenDLQ r).message = none := by
  rcases r with e | b
  · exact Or.inr rfl
  · cases thenDLQ <;> exact Or.inl rfl

/-! ### Phases an answer does not lead to -/

section Outcomes

variable {p : DispatchPhase} (hp : p.message = none)

include hp

theorem afterAttempt_ne (n : ℕ) (m : MessageEnvelope) (k : ℕ) (r : ReceiveResult) :
    afterAttempt n m k r ≠ p := by
  intro h
  have hm := message_afterAttempt n m k r
  rw [h, hp] at hm
  simp at hm

theorem afterManualRetry_ne (hf : p ≠ .faulted) (m : MessageEnvelope) (thenDLQ : Bool)
    (r : ReceiveResult) : afterManualRetry m thenDLQ r ≠ p := by
  rcases r with e | r
  · exact hf.symm
  · rintro rfl
    cases thenDLQ <;> simp [afterManualRetry, DispatchPhase.message] at hp

theorem afterFailedHandler_ne (hf : p ≠ .faulted) (hc : p ≠ .checking) (m : MessageEnvelope)
    (r : FailedResult) : afterFailedHandler m r ≠ p := by
  rcases r with e | b
  · exact hf.symm
  · cases b
    case block => exact hc.symm
    all_goals
      rintro rfl
      simp [afterFailedHandler, DispatchPhase.message] at hp

end Outcomes

end PushDeliveredQueue
