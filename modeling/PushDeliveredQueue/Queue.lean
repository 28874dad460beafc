import PushDeliveredQueue.Models
import Mathlib.Order.Lattice
import Mathlib.Order.Defs.LinearOrder
import Mathlib.Data.List.TakeWhile

/-!
# The queue and its operations

`PushDeliveredQueue.SubscribableQueue` is the state of the class of the same name, and
the functions of this file are its methods up to their first `await`, each written as the
source has it: `Enqueue`, `Unsubscribe` and the registration half of `Subscribe`
(`SubscribableQueue.Core.cs`), one locked pass of `PruneExpiredMessages`
(`SubscribableQueue.Ttl.cs`), `AddToDeadLetterQueue`, `Commit` and the locked read of the
dispatch loop (`SubscribableQueue.Internal.cs`), `ChangeMessagePayload` and `ReplayFrom`
(`SubscribableQueue.Replay.cs`) and `Dispose` (`SubscribableQueue.Dispose.cs`). The
loops and calls that wait for a handler are in `PushDeliveredQueue.Dispatch` and
`PushDeliveredQueue.DlqReplay`.
-/

namespace PushDeliveredQueue

/-- The fields of a `SubscribableQueue`, with the two tables that stand for the heap: the
payload of each envelope and the cursor object of each subscriber. -/
structure SubscribableQueue where
  /-- `_buffer`. -/
  buffer : List MessageEnvelope := []
  /-- The keys of `_subscribers`. -/
  subscribers : List Guid := []
  /-- The payload of each message. -/
  payloads : Guid → Payload := fun _ => none
  /-- The cursor object created for each subscriber, registered or not. -/
  cursors : Guid → CursorState := fun _ => {}
  /-- `_cts`. -/
  cts : CancellationTokenSource := {}
  /-- `_ttl`. -/
  ttl : TimeSpan
  /-- `options.Value.RetryCount`, held by the retry policy. -/
  retryCount : ℕ

namespace SubscribableQueue

/-- `_subscribers.TryGetValue`. -/
def tryGetValue (q : SubscribableQueue) (subscriberId : Guid) : Option CursorState :=
  if subscriberId ∈ q.subscribers then some (q.cursors subscriberId) else none

/-- Writing to a cursor object. -/
def setCursor (q : SubscribableQueue) (subscriberId : Guid) (cursor : CursorState) :
    SubscribableQueue :=
  { q with cursors := Function.update q.cursors subscriberId cursor }

/-! ### Messages in and out of the buffer -/

/-- `Enqueue`, with the `Guid` and the clock reading it takes under the lock. -/
def enqueue (q : SubscribableQueue) (messageId : Guid) (utcNow : DateTime) (payload : Payload) :
    SubscribableQueue :=
  { q with
    buffer := q.buffer ++ [⟨messageId, utcNow⟩]
    payloads := Function.update q.payloads messageId payload }

/-- The largest tick count of a `DateTime`. -/
def maxTicks : ℤ := 3155378975999999999

/-- `DateTime.UtcNow - _ttl`, which throws outside the range of `DateTime`. -/
def cutoff (q : SubscribableQueue) (utcNow : DateTime) : Except Exception DateTime :=
  if 0 ≤ utcNow - q.ttl ∧ utcNow - q.ttl ≤ maxTicks then .ok (utcNow - q.ttl)
  else .error .argumentOutOfRange

/-- The `while` loop of `PruneExpiredMessages`: remove the head as long as it is older
than the cutoff, counting. -/
def removeExpired (cutoff : DateTime) : List MessageEnvelope → ℕ → List MessageEnvelope × ℕ
  | [], removedCount => ([], removedCount)
  | m :: buffer, removedCount =>
    if m.createdAt < cutoff then removeExpired cutoff buffer (removedCount + 1)
    else (m :: buffer, removedCount)

/-- The locked part of one pass of `PruneExpiredMessages`. -/
def pruneExpiredMessages (q : SubscribableQueue) (cutoff : DateTime) : SubscribableQueue :=
  let (buffer, removedCount) := removeExpired cutoff q.buffer 0
  if removedCount > 0 then
    { q with
      buffer := buffer
      cursors := fun s =>
        if s ∈ q.subscribers then
          { q.cursors s with index := max 0 ((q.cursors s).index - removedCount) }
        else q.cursors s }
  else { q with buffer := buffer }

/-- `ChangeMessagePayload`: the lookup is in the buffer only. -/
def changeMessagePayload (q : SubscribableQueue) (messageId : Guid) (payload : Payload) :
    SubscribableQueue :=
  match q.buffer.find? (·.id = messageId) with
  | some message => { q with payloads := Function.update q.payloads message.id payload }
  | none => q

/-! ### Subscribers -/

/-- The first half of `Subscribe`, up to the `TryAdd` of a new cursor. -/
def addSubscriber (q : SubscribableQueue) (subscriberId : Guid) : SubscribableQueue :=
  { q with
    subscribers := subscriberId :: q.subscribers
    cursors := Function.update q.cursors subscriberId {} }

/-- The second half of `Subscribe`: whether `Task.Run` starts the dispatch loop. It does
not when reading the token of a disposed `_cts` throws, nor when one of the two tokens it
links is cancelled already. -/
def startsLoop (q : SubscribableQueue) (subscriberId : Guid) : Except Exception Bool := do
  let queueToken ← q.cts.token
  let cursorToken ← (q.cursors subscriberId).cancellation.token
  return !(queueToken || cursorToken)

/-- `Unsubscribe`: the cursor leaves the dictionary before it is cancelled, so it has left
even when `Cancel` throws. -/
def unsubscribe (q : SubscribableQueue) (subscriberId : Guid) : SubscribableQueue :=
  match q.tryGetValue subscriberId with
  | none => q
  | some cursor =>
    let q' := { q with subscribers := q.subscribers.filter (· ≠ subscriberId) }
    match cursor.cancellation.cancel with
    | .error _ => q'
    | .ok cancellation => q'.setCursor subscriberId { cursor with cancellation := cancellation }

/-- `Dispose`: the queue's own source, then that of every registered subscriber. -/
def dispose (q : SubscribableQueue) : SubscribableQueue :=
  { q with
    cts := q.cts.cancelAndDispose
    cursors := fun s =>
      if s ∈ q.subscribers then
        { q.cursors s with cancellation := (q.cursors s).cancellation.cancelAndDispose }
      else q.cursors s }

/-! ### What the dispatch loop does to the queue -/

/-- The locked read of the dispatch loop:
`cursor.Index < _buffer.Count ? _buffer[cursor.Index] : null`. A negative index would
throw. -/
def next (q : SubscribableQueue) (cursor : CursorState) :
    Except Exception (Option MessageEnvelope) :=
  if cursor.index < q.buffer.length then
    if 0 ≤ cursor.index then .ok q.buffer[cursor.index.toNat]? else .error .argumentOutOfRange
  else .ok none

/-- `AddToDeadLetterQueue`: nothing but a warning for a subscriber that has left. -/
def addToDeadLetterQueue (q : SubscribableQueue) (subscriberId : Guid)
    (message : MessageEnvelope) : SubscribableQueue :=
  match q.tryGetValue subscriberId with
  | some cursor =>
    q.setCursor subscriberId
      { cursor with deadLetterQueue := cursor.deadLetterQueue ++ [message] }
  | none => q

/-- `Commit`: nothing but a warning for a subscriber that has left. -/
def commit (q : SubscribableQueue) (subscriberId : Guid) : SubscribableQueue :=
  match q.tryGetValue subscriberId with
  | some cursor =>
    q.setCursor subscriberId { cursor with isCommitted := true, index := cursor.index + 1 }
  | none => q

/-! ### Replaying from the buffer -/

/-- How a `ReplayFrom` call ends: the log line it writes. -/
inductive ReplayFromOutcome where
  | nonExistentSubscriber
  | notStartedConsuming
  | hasUncommittedMessages
  | atMiddleOfBuffer
  | messageNotFound
  /-- The cursor was set to this index. -/
  | replayedFrom (index : ℕ)
  deriving DecidableEq

/-- `ReplayFrom`, its guards in the order of the source. -/
def replayFrom (q : SubscribableQueue) (subscriberId messageId : Guid) :
    SubscribableQueue × ReplayFromOutcome :=
  match q.tryGetValue subscriberId with
  | none => (q, .nonExistentSubscriber)
  | some cursor =>
    if cursor.index < 0 then (q, .notStartedConsuming)
    else if cursor.isCommitted = false then (q, .hasUncommittedMessages)
    else if cursor.index + 1 < q.buffer.length then (q, .atMiddleOfBuffer)
    else
      match q.buffer.findIdx? (·.id = messageId) with
      | some index =>
        (q.setCursor subscriberId { cursor with index := index, isCommitted := false },
          .replayedFrom index)
      | none => (q, .messageNotFound)

/-! ### What each operation leaves alone

The frame lemmas: the buffer changes under `Enqueue` and pruning only, the set of
subscribers under subscribing and unsubscribing only, and a cursor under the operations
that name it. -/

section Frames

variable (q : SubscribableQueue) (s : Guid)

@[simp] theorem buffer_setCursor (c : CursorState) : (q.setCursor s c).buffer = q.buffer := rfl

@[simp] theorem subscribers_setCursor (c : CursorState) :
    (q.setCursor s c).subscribers = q.subscribers := rfl

@[simp] theorem payloads_setCursor (c : CursorState) :
    (q.setCursor s c).payloads = q.payloads := rfl

@[simp] theorem cts_setCursor (c : CursorState) : (q.setCursor s c).cts = q.cts := rfl

@[simp] theorem ttl_setCursor (c : CursorState) : (q.setCursor s c).ttl = q.ttl := rfl

@[simp] theorem retryCount_setCursor (c : CursorState) :
    (q.setCursor s c).retryCount = q.retryCount := rfl

@[simp] theorem cursors_setCursor_self (c : CursorState) : (q.setCursor s c).cursors s = c := by
  simp [setCursor]

theorem cursors_setCursor_of_ne {s s' : Guid} (h : s' ≠ s) (c : CursorState) :
    (q.setCursor s c).cursors s' = q.cursors s' := by
  simp [setCursor, h]

@[simp] theorem buffer_changeMessagePayload (messageId : Guid) (payload : Payload) :
    (q.changeMessagePayload messageId payload).buffer = q.buffer := by
  unfold changeMessagePayload
  split <;> rfl

@[simp] theorem subscribers_changeMessagePayload (messageId : Guid) (payload : Payload) :
    (q.changeMessagePayload messageId payload).subscribers = q.subscribers := by
  unfold changeMessagePayload
  split <;> rfl

@[simp] theorem cursors_changeMessagePayload (messageId : Guid) (payload : Payload) :
    (q.changeMessagePayload messageId payload).cursors = q.cursors := by
  unfold changeMessagePayload
  split <;> rfl

@[simp] theorem cts_changeMessagePayload (messageId : Guid) (payload : Payload) :
    (q.changeMessagePayload messageId payload).cts = q.cts := by
  unfold changeMessagePayload
  split <;> rfl

/-! #### `Commit` and `AddToDeadLetterQueue` -/

theorem commit_of_mem {q : SubscribableQueue} {s : Guid} (h : s ∈ q.subscribers) :
    q.commit s =
      q.setCursor s { q.cursors s with isCommitted := true, index := (q.cursors s).index + 1 } := by
  simp [commit, tryGetValue, h]

theorem commit_of_notMem {q : SubscribableQueue} {s : Guid} (h : s ∉ q.subscribers) :
    q.commit s = q := by
  simp [commit, tryGetValue, h]

theorem addToDeadLetterQueue_of_mem {q : SubscribableQueue} {s : Guid} (h : s ∈ q.subscribers)
    (m : MessageEnvelope) :
    q.addToDeadLetterQueue s m =
      q.setCursor s
        { q.cursors s with deadLetterQueue := (q.cursors s).deadLetterQueue ++ [m] } := by
  simp [addToDeadLetterQueue, tryGetValue, h]

theorem addToDeadLetterQueue_of_notMem {q : SubscribableQueue} {s : Guid}
    (h : s ∉ q.subscribers) (m : MessageEnvelope) : q.addToDeadLetterQueue s m = q := by
  simp [addToDeadLetterQueue, tryGetValue, h]

/-! #### `Unsubscribe` -/

theorem unsubscribe_of_notMem {q : SubscribableQueue} {s : Guid} (h : s ∉ q.subscribers) :
    q.unsubscribe s = q := by
  simp [unsubscribe, tryGetValue, h]

/-- **`Unsubscribe` of a registered subscriber** takes it out of the dictionary and, unless
its source has been disposed, cancels it. -/
theorem unsubscribe_of_mem {q : SubscribableQueue} {s : Guid} (h : s ∈ q.subscribers) :
    q.unsubscribe s =
      { q with
        subscribers := q.subscribers.filter (· ≠ s)
        cursors :=
          if (q.cursors s).cancellation.disposed then q.cursors
          else Function.update q.cursors s
            { q.cursors s with
              cancellation :=
                { (q.cursors s).cancellation with isCancellationRequested := true } } } := by
  cases hd : (q.cursors s).cancellation.disposed <;>
    simp [unsubscribe, tryGetValue, h, CancellationTokenSource.cancel, hd, setCursor]

@[simp] theorem buffer_unsubscribe : (q.unsubscribe s).buffer = q.buffer := by
  by_cases h : s ∈ q.subscribers
  · rw [unsubscribe_of_mem h]
  · rw [unsubscribe_of_notMem h]

@[simp] theorem cts_unsubscribe : (q.unsubscribe s).cts = q.cts := by
  by_cases h : s ∈ q.subscribers
  · rw [unsubscribe_of_mem h]
  · rw [unsubscribe_of_notMem h]

theorem mem_subscribers_unsubscribe {q : SubscribableQueue} {s s' : Guid} :
    s' ∈ (q.unsubscribe s).subscribers ↔ s' ∈ q.subscribers ∧ s' ≠ s := by
  by_cases h : s ∈ q.subscribers
  · rw [unsubscribe_of_mem h]
    simp
  · rw [unsubscribe_of_notMem h]
    exact ⟨fun hm => ⟨hm, fun he => h (he ▸ hm)⟩, And.left⟩

theorem cursors_unsubscribe_of_ne {q : SubscribableQueue} {s s' : Guid} (hne : s' ≠ s) :
    (q.unsubscribe s).cursors s' = q.cursors s' := by
  by_cases h : s ∈ q.subscribers
  · rw [unsubscribe_of_mem h]
    by_cases hd : (q.cursors s).cancellation.disposed = true <;> simp [hd, hne]
  · rw [unsubscribe_of_notMem h]

/-- Unsubscribing changes a cursor in its cancellation only. -/
theorem cursors_unsubscribe (s' : Guid) :
    ∃ c, (q.unsubscribe s).cursors s' = { q.cursors s' with cancellation := c } := by
  rcases eq_or_ne s' s with rfl | hne
  · by_cases h : s' ∈ q.subscribers
    · rw [unsubscribe_of_mem h]
      by_cases hd : (q.cursors s').cancellation.disposed = true
      · exact ⟨(q.cursors s').cancellation, by simp [hd]⟩
      · exact ⟨{ (q.cursors s').cancellation with isCancellationRequested := true },
          by simp [hd]⟩
    · exact ⟨(q.cursors s').cancellation, by rw [unsubscribe_of_notMem h]⟩
  · exact ⟨(q.cursors s').cancellation, by rw [cursors_unsubscribe_of_ne hne]⟩

/-! #### `Dispose` -/

/-- Disposing changes a cursor in its cancellation only. -/
theorem cursors_dispose (s' : Guid) :
    ∃ c, q.dispose.cursors s' = { q.cursors s' with cancellation := c } := by
  by_cases h : s' ∈ q.subscribers
  · exact ⟨(q.cursors s').cancellation.cancelAndDispose, by simp [dispose, h]⟩
  · exact ⟨(q.cursors s').cancellation, by simp [dispose, h]⟩

end Frames

/-! ### What one prune pass does -/

/-- The `while` loop removes the longest expired prefix, and counts it. -/
theorem removeExpired_eq (cutoff : DateTime) (buffer : List MessageEnvelope) (n : ℕ) :
    removeExpired cutoff buffer n =
      (buffer.dropWhile (·.createdAt < cutoff),
        n + (buffer.takeWhile (·.createdAt < cutoff)).length) := by
  induction buffer generalizing n with
  | nil => simp [removeExpired]
  | cons m buffer ih =>
    by_cases hm : m.createdAt < cutoff
    · simp only [removeExpired, hm, ih, List.dropWhile_cons, List.takeWhile_cons, decide_true,
        if_true, List.length_cons, Prod.mk.injEq, true_and]
      omega
    · simp [removeExpired, hm]

/-- The messages a pass removes. -/
def expired (q : SubscribableQueue) (cutoff : DateTime) : List MessageEnvelope :=
  q.buffer.takeWhile (·.createdAt < cutoff)

theorem buffer_pruneExpiredMessages (q : SubscribableQueue) (cutoff : DateTime) :
    (q.pruneExpiredMessages cutoff).buffer = q.buffer.dropWhile (·.createdAt < cutoff) := by
  simp only [pruneExpiredMessages, removeExpired_eq]
  split <;> rfl

/-- **A pass splits the buffer** into the messages it removes and those it keeps. -/
theorem expired_append_buffer (q : SubscribableQueue) (cutoff : DateTime) :
    q.expired cutoff ++ (q.pruneExpiredMessages cutoff).buffer = q.buffer := by
  rw [buffer_pruneExpiredMessages, expired, List.takeWhile_append_dropWhile]

/-- **What a pass does to a cursor**: a registered one is moved back by the number of
messages removed, down to `0` at most; a pass that removes nothing touches none. -/
theorem cursors_pruneExpiredMessages (q : SubscribableQueue) (cutoff : DateTime) (s : Guid) :
    (q.pruneExpiredMessages cutoff).cursors s =
      if s ∈ q.subscribers ∧ q.expired cutoff ≠ [] then
        { q.cursors s with index := max 0 ((q.cursors s).index - (q.expired cutoff).length) }
      else q.cursors s := by
  have hlen : (q.expired cutoff).length > 0 ↔ q.expired cutoff ≠ [] := List.length_pos_iff
  simp only [pruneExpiredMessages, removeExpired_eq, Nat.zero_add]
  change (if (q.expired cutoff).length > 0 then _ else _ : SubscribableQueue).cursors s = _
  by_cases hne : q.expired cutoff ≠ []
  · rw [if_pos (hlen.mpr hne), if_congr (and_iff_left hne) rfl rfl]
    rfl
  · rw [if_neg (mt hlen.mp hne), if_neg fun h => hne h.2]

@[simp] theorem subscribers_pruneExpiredMessages (q : SubscribableQueue) (cutoff : DateTime) :
    (q.pruneExpiredMessages cutoff).subscribers = q.subscribers := by
  simp only [pruneExpiredMessages]
  split <;> rfl

end SubscribableQueue

end PushDeliveredQueue
