import PushDeliveredQueue.Queue
import PushDeliveredQueue.Events

/-!
# Replaying the dead letter queue

`ReplayFromDlqAsync`, `ReplayAllDlqMessagesAsync` and the `ProcessMessageFromDlqAsync` they
share, cut at their awaits. `PushDeliveredQueue.ReplayPhase` is where a call is; the
functions below are what it does when it starts and when a handler call it awaits comes
back. A call keeps the cursor object it looked up when it started, whether or not the
subscriber leaves meanwhile, and `ReplayAllDlqMessagesAsync` keeps nothing but a position
in its dead letter queue.
-/

namespace PushDeliveredQueue

/-- Which of the two methods a call is in, with the loop variable of the second. -/
inductive ReplayKind where
  /-- `ReplayFromDlqAsync`. -/
  | fromDlq
  /-- `ReplayAllDlqMessagesAsync`, at `DeadLetterQueue[i]`. -/
  | all (i : ℤ)
  deriving DecidableEq

/-- Where a replay call is. -/
inductive ReplayPhase where
  /-- Handed to `Task.Run` by `ReplayAllDlqSubscribers`, and not begun. -/
  | scheduled
  /-- `ProcessMessageFromDlqAsync` awaits `OnMessageReceiveAsync`. -/
  | receiving (kind : ReplayKind) (message : MessageEnvelope)
  /-- `ProcessMessageFromDlqAsync` awaits `OnMessageFailedHandlerAsync`. -/
  | failing (kind : ReplayKind) (message : MessageEnvelope)
  /-- The call has returned. -/
  | returned
  /-- The call ended with an exception. -/
  | threw
  deriving DecidableEq

/-- The dead letter a call is processing. -/
def ReplayPhase.message : ReplayPhase → Option MessageEnvelope
  | .receiving _ m | .failing _ m => some m
  | .scheduled | .returned | .threw => none

/-- The head of the `for` loop of `ReplayAllDlqMessagesAsync`: the test `i < Count`, and
the read of `DeadLetterQueue[i]`, which a negative `i` would make throw. -/
def replayAllFrom (dlq : List MessageEnvelope) (i : ℤ) : ReplayPhase :=
  if i < dlq.length then
    if 0 ≤ i then
      match dlq[i.toNat]? with
      | some m => .receiving (.all i) m
      | none => .threw
    else .threw
  else .returned

/-- `ReplayFromDlqAsync`, up to its first await. -/
def replayFromDlq (q : SubscribableQueue) (subscriberId messageId : Guid) : ReplayPhase :=
  match q.tryGetValue subscriberId with
  | some cursor =>
    match cursor.deadLetterQueue.find? (·.id = messageId) with
    | some m => .receiving .fromDlq m
    | none => .returned
  | none => .returned

/-- `ReplayAllDlqMessagesAsync`, up to its first await. -/
def replayAllDlqMessages (q : SubscribableQueue) (subscriberId : Guid) : ReplayPhase :=
  match q.tryGetValue subscriberId with
  | some cursor =>
    if cursor.deadLetterQueue.length > 0 then replayAllFrom cursor.deadLetterQueue 0
    else .returned
  | none => .returned

/-- `DeadLetterQueue.RemoveAll(m => m.Id == messageFromDlq.Id)`. -/
def removeAll (dlq : List MessageEnvelope) (id : Guid) : List MessageEnvelope :=
  dlq.filter (·.id ≠ id)

/-- What a call does once it has removed its processed message: return, or step the loop
variable back and go round. -/
def afterSuccess (dlq : List MessageEnvelope) : ReplayKind → ReplayPhase
  | .fromDlq => .returned
  -- the `i--` of the body, then the `i++` of the loop
  | .all i => replayAllFrom dlq (i - 1 + 1)

/-- What a call does once its failed message has been reported: return, or go round. -/
def afterFailure (dlq : List MessageEnvelope) : ReplayKind → ReplayPhase
  | .fromDlq => .returned
  | .all i => replayAllFrom dlq (i + 1)

section Rounds

variable {dlq : List MessageEnvelope} {i : ℕ} {m : MessageEnvelope}

/-- The loop reads the entry at its position. -/
theorem replayAllFrom_of_getElem? (h : dlq[i]? = some m) :
    replayAllFrom dlq i = .receiving (.all i) m := by
  obtain ⟨hlt, rfl⟩ := List.getElem?_eq_some_iff.mp h
  simp [replayAllFrom, hlt]

/-- The loop ends behind the last entry. -/
theorem replayAllFrom_of_length_le (h : dlq.length ≤ i) : replayAllFrom dlq i = .returned := by
  simp [replayAllFrom, Nat.not_lt.mpr h]

/-- At a position that is not negative the loop does not throw. -/
theorem replayAllFrom_ne_threw (dlq : List MessageEnvelope) (i : ℕ) :
    replayAllFrom dlq i ≠ .threw := by
  rcases lt_or_ge i dlq.length with hlt | hge
  · rw [replayAllFrom_of_getElem? (List.getElem?_eq_getElem hlt)]
    exact ReplayPhase.noConfusion
  · rw [replayAllFrom_of_length_le hge]
    exact ReplayPhase.noConfusion

/-- After a success the loop looks at the same position again. -/
theorem afterSuccess_all (dlq : List MessageEnvelope) (i : ℕ) :
    afterSuccess dlq (.all i) = replayAllFrom dlq i := by
  simp [afterSuccess]

/-- After a failure the loop looks at the next position. -/
theorem afterFailure_all (dlq : List MessageEnvelope) (i : ℕ) :
    afterFailure dlq (.all i) = replayAllFrom dlq (i + 1 : ℕ) := rfl

end Rounds

section Calls

variable (q : SubscribableQueue) (s : Guid) (call : ℕ)

/-- Writing to the dead letter queue of a cursor object. -/
def SubscribableQueue.setDeadLetterQueue (dlq : List MessageEnvelope) : SubscribableQueue :=
  q.setCursor s { q.cursors s with deadLetterQueue := dlq }

/-- The call of `OnMessageReceiveAsync` a replay makes as it enters a phase. -/
def replayCalls : ReplayPhase → List Event
  | .receiving _ m => [.receiveCalled s (.replay call) m (q.payloads m.id)]
  | .scheduled | .failing _ _ | .returned | .threw => []

/-- The call of `OnMessageReceiveAsync` a replay awaits comes back. On `Ack` the message is
removed; otherwise the failure handler is called, and the message stays. -/
def replayReceived :
    ReplayPhase → ReceiveResult → Option (SubscribableQueue × ReplayPhase × List Event)
  | .receiving kind m, r =>
    if r = .ok .ack then
      -- the list is read after the await: other calls may have changed it
      let dlq := removeAll (q.cursors s).deadLetterQueue m.id
      some (q.setDeadLetterQueue s dlq, afterSuccess dlq kind,
        .receiveReturned s (.replay call) m r :: replayCalls q s call (afterSuccess dlq kind))
    else
      some (q, .failing kind m,
        [.receiveReturned s (.replay call) m r, .failedCalled s (.replay call) m (exceptionOf r)])
  | _, _ => none

/-- The call of `OnMessageFailedHandlerAsync` a replay awaits comes back. Its answer is not
looked at; an exception leaves the method. -/
def replayFailedHandled : ReplayPhase → FailedResult → Option (ReplayPhase × List Event)
  | .failing _ m, .error e => some (.threw, [.failedReturned s (.replay call) m (.error e)])
  | .failing kind m, .ok b =>
    let p := afterFailure (q.cursors s).deadLetterQueue kind
    some (p, .failedReturned s (.replay call) m (.ok b) :: replayCalls q s call p)
  | _, _ => none

end Calls

end PushDeliveredQueue
