import Mathlib.Data.Int.Notation
import Mathlib.Data.List.Basic
import Mathlib.Data.Nat.Notation
import Mathlib.Logic.Function.Basic

/-!
# The models of the queue

The data types of `PushDeliveredQueue.Core/Models`, and the handful of .NET types they
rest on.

Two remarks on how objects become values. A message envelope is an object with two
properties fixed at construction, `Id` and `CreatedAt`, and one that can be changed, its
`Payload`. The buffer and the dead letter queues hold *references* to envelopes, so a
payload change is seen through every one of them; here
`PushDeliveredQueue.MessageEnvelope` carries the two fixed properties, and the payloads
live in one table of the queue, indexed by message. A cursor object, likewise, is shared
between the dictionary of subscribers, its dispatch loop and the replay calls under way,
and outlives its removal from the dictionary; the cursors live in a table of the queue
indexed by subscriber.
-/

namespace PushDeliveredQueue

/-- A `Guid`. Only equality is ever used of one, and there are always more of them. -/
abbrev Guid := ℕ

/-- A `DateTime`, in ticks. -/
abbrev DateTime := ℤ

/-- A `TimeSpan`, in ticks. -/
abbrev TimeSpan := ℤ

/-- A payload: a string, or `none` for the null reference the queue accepts in its
place. -/
abbrev Payload := Option String

/-- The exceptions of the model: those the queue's own calls into .NET can raise, and
whatever a user's handler throws. -/
inductive Exception where
  /-- `ArgumentOutOfRangeException`. -/
  | argumentOutOfRange
  /-- `ObjectDisposedException`. -/
  | objectDisposed
  /-- An exception of a handler, told apart from the others by a number. -/
  | handler (code : ℕ)
  deriving DecidableEq

/-- What `OnMessageReceiveAsync` returns. -/
inductive DeliveryResult where
  | ack
  | nack
  deriving DecidableEq

/-- What `OnMessageFailedHandlerAsync` returns: what is to become of the message. -/
inductive PostMessageFailedBehavior where
  /-- Retry once immediately, then commit the message. -/
  | retryOnceThenCommit
  /-- Retry once immediately, then commit the message and add it to the DLQ. -/
  | retryOnceThenDLQ
  /-- Add to the DLQ directly. -/
  | addToDLQ
  /-- Commit and move on. -/
  | commit
  /-- Leave the message where it is. -/
  | block
  deriving DecidableEq

/-- How a call of `OnMessageReceiveAsync` ends. -/
abbrev ReceiveResult := Except Exception DeliveryResult

/-- How a call of `OnMessageFailedHandlerAsync` ends. -/
abbrev FailedResult := Except Exception PostMessageFailedBehavior

/-- A message envelope: its two immutable properties. -/
structure MessageEnvelope where
  id : Guid
  createdAt : DateTime
  deriving DecidableEq

/-- A `CancellationTokenSource`. -/
structure CancellationTokenSource where
  isCancellationRequested : Bool := false
  disposed : Bool := false
  deriving DecidableEq

namespace CancellationTokenSource

/-- The `Token` property, read for its `IsCancellationRequested`: it throws once the
source is disposed. -/
def token (c : CancellationTokenSource) : Except Exception Bool :=
  if c.disposed then .error .objectDisposed else .ok c.isCancellationRequested

/-- `Cancel`, which throws once the source is disposed. The callbacks that have been registered on
the token are called when the source has just been cancelled; those of this model return. Where one
throws, `Cancel` does as well, the source being cancelled by then
(`PushDeliveredQueue.CancellationTokenSource.cancelResult`). -/
def cancel (c : CancellationTokenSource) : Except Exception CancellationTokenSource :=
  if c.disposed then .error .objectDisposed else .ok { c with isCancellationRequested := true }

/-- Whether `Cancel` would call the callbacks registered on the token. -/
def callsBack (c : CancellationTokenSource) : Bool :=
  !c.disposed && !c.isCancellationRequested

/-- `try { Cancel(); Dispose(); } catch { }`, as `SubscribableQueue.Dispose` does it: a
source that is disposed already is left alone. -/
def cancelAndDispose (c : CancellationTokenSource) : CancellationTokenSource :=
  match c.cancel with
  | .error _ => c
  | .ok c' => { c' with disposed := true }

@[simp] theorem disposed_cancelAndDispose (c : CancellationTokenSource) :
    c.cancelAndDispose.disposed = true := by
  cases hd : c.disposed <;> simp [cancelAndDispose, cancel, hd]

/-- A source is cancelled after that, unless it had been disposed of uncancelled. -/
theorem isCancellationRequested_cancelAndDispose {c : CancellationTokenSource}
    (h : c.disposed = true → c.isCancellationRequested = true) :
    c.cancelAndDispose.isCancellationRequested = true := by
  cases hd : c.disposed
  · simp [cancelAndDispose, cancel, hd]
  · simpa [cancelAndDispose, cancel, hd] using h hd

/-- One source is another later on: what has been cancelled or disposed of stays so. -/
structure Later (c c' : CancellationTokenSource) : Prop where
  cancelled : c.isCancellationRequested = true → c'.isCancellationRequested = true
  disposed : c.disposed = true → c'.disposed = true

theorem Later.of_eq {c c' : CancellationTokenSource} (h : c' = c) : c.Later c' := by
  subst h
  exact ⟨id, id⟩

theorem token_eq_ok {c : CancellationTokenSource} {b : Bool} :
    c.token = .ok b ↔ c.disposed = false ∧ c.isCancellationRequested = b := by
  cases hd : c.disposed <;> simp [token, hd]

theorem token_eq_error {c : CancellationTokenSource} {e : Exception} :
    c.token = .error e ↔ c.disposed = true ∧ e = .objectDisposed := by
  cases hd : c.disposed <;> simp [token, hd, eq_comm]

theorem cancel_eq_ok {c c' : CancellationTokenSource} :
    c.cancel = .ok c' ↔ c.disposed = false ∧ c' = { c with isCancellationRequested := true } := by
  cases hd : c.disposed <;> simp [cancel, hd, eq_comm]

theorem cancel_eq_error {c : CancellationTokenSource} {e : Exception} :
    c.cancel = .error e ↔ c.disposed = true ∧ e = .objectDisposed := by
  cases hd : c.disposed <;> simp [cancel, hd, eq_comm]

theorem cancelAndDispose_of_disposed {c : CancellationTokenSource} (h : c.disposed = true) :
    c.cancelAndDispose = c := by
  simp [cancelAndDispose, cancel, h]

end CancellationTokenSource

/-- The state of one subscriber. The handler is not part of it: what it does is in the
actions of the environment. -/
structure CursorState where
  /-- The position in the buffer of the next message to deliver. -/
  index : ℤ := 0
  isCommitted : Bool := false
  cancellation : CancellationTokenSource := {}
  deadLetterQueue : List MessageEnvelope := []
  deriving DecidableEq

end PushDeliveredQueue
