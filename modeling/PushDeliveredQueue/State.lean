import PushDeliveredQueue.Queue

/-!
# What the queue reports of itself

`GetState` (`SubscribableQueue.Core.cs`) copies the buffer and describes every subscriber; the
diagnostics endpoint turns the result into what goes over the wire (`ToExternalDto`, with the
two helpers it formats an expiry with), and the monitoring page puts a badge on each
subscriber.

`GetState` is given in its two parts as well, the copy of the buffer made under the lock and
the description of one subscriber made after it (`PushDeliveredQueue.SubscribableQueue.copyBuffer`
and `PushDeliveredQueue.SubscribableQueue.subscriberState`), for the runs in which something
happens in between.
-/

namespace PushDeliveredQueue

/-! ### `GetState` -/

/-- A copy of an envelope, as `GetState` makes it. It has a payload of its own, which later
changes to the envelope do not reach. -/
structure EnvelopeCopy where
  id : Guid
  createdAt : DateTime
  payload : Payload
  deriving DecidableEq

/-- What `GetState` reports of a subscriber. -/
structure SubscriberState where
  cursorIndex : ℤ
  isCommitted : Bool
  pendingCount : ℤ
  deadLetterQueue : List EnvelopeCopy
  deriving DecidableEq

/-- What `GetState` returns. -/
structure SubscribableQueueState where
  ttl : TimeSpan
  buffer : List EnvelopeCopy
  /-- The dictionary, as its entries. -/
  subscribers : List (Guid × SubscriberState)
  deriving DecidableEq

namespace SubscribableQueue

variable (q : SubscribableQueue)

/-- `new MessageEnvelope(m.Id, m.CreatedAt, m.Payload)`. -/
def copyEnvelope (m : MessageEnvelope) : EnvelopeCopy := ⟨m.id, m.createdAt, q.payloads m.id⟩

/-- The locked part of `GetState`. -/
def copyBuffer : List EnvelopeCopy := q.buffer.map q.copyEnvelope

/-- What the loop of `GetState` reports of a subscriber, a buffer of this length having been
copied. -/
def subscriberState (count : ℕ) (subscriberId : Guid) : SubscriberState where
  cursorIndex := (q.cursors subscriberId).index
  isCommitted := (q.cursors subscriberId).isCommitted
  pendingCount := max (count - ((q.cursors subscriberId).index + 1)) 0
  deadLetterQueue := (q.cursors subscriberId).deadLetterQueue.map q.copyEnvelope

/-- `GetState`, with nothing happening in between. -/
def getState : SubscribableQueueState where
  ttl := q.ttl
  buffer := q.copyBuffer
  subscribers := q.subscribers.map fun s => (s, q.subscriberState q.copyBuffer.length s)

@[simp] theorem length_copyBuffer : q.copyBuffer.length = q.buffer.length := by
  simp [copyBuffer]

theorem mem_getState_subscribers {s : Guid} {e : SubscriberState} :
    (s, e) ∈ q.getState.subscribers ↔
      s ∈ q.subscribers ∧ e = q.subscriberState q.buffer.length s := by
  simp only [getState, length_copyBuffer, List.mem_map, Prod.mk.injEq]
  constructor
  · rintro ⟨s', hs', rfl, rfl⟩
    exact ⟨hs', rfl⟩
  · rintro ⟨hs, rfl⟩
    exact ⟨s, hs, rfl, rfl⟩

end SubscribableQueue

/-! ### `ToExternalDto` -/

/-- A `MessageEnvelopeDto`. -/
structure MessageEnvelopeDto where
  id : Guid
  payload : Payload
  expiresIn : String
  deriving DecidableEq

/-- A `DeadLetterMessagesDto`. -/
structure DeadLetterMessagesDto where
  id : Guid
  payload : Payload
  deriving DecidableEq

/-- A `SubscriberStateDto`. -/
structure SubscriberStateDto where
  isBlocked : Bool
  pendingMessageCount : ℤ
  deadLetterQueue : List DeadLetterMessagesDto
  deriving DecidableEq

/-- A `SubscribableQueueStateDto`. -/
structure SubscribableQueueStateDto where
  buffer : List MessageEnvelopeDto
  subscribers : List (Guid × SubscriberStateDto)
  deriving DecidableEq

/-- Whether a tick count is one of a `DateTime`. -/
def InDateTimeRange (ticks : ℤ) : Prop := 0 ≤ ticks ∧ ticks ≤ SubscribableQueue.maxTicks

instance (ticks : ℤ) : Decidable (InDateTimeRange ticks) := inferInstanceAs (Decidable (_ ∧ _))

/-- `DateTime + TimeSpan`, which throws outside the range of `DateTime`. -/
def addTimeSpan (d : DateTime) (t : TimeSpan) : Except Exception DateTime :=
  if InDateTimeRange (d + t) then .ok (d + t) else .error .argumentOutOfRange

/-- `GetTimeUntilExpiry`, with the clock reading it takes. -/
def getTimeUntilExpiry (createdAtUtc : DateTime) (ttl : TimeSpan) (utcNow : DateTime) :
    Except Exception TimeSpan := do
  let expiryTime ← addTimeSpan createdAtUtc ttl
  return if expiryTime > utcNow then expiryTime - utcNow else 0

/-! #### Spans of time, written out

The properties of a `TimeSpan` that `FormatRelative` reads are numbers of type `double`. They are
not exact: a tick count beyond `2 ^ 53` is rounded before it is divided, and the quotient is rounded
again. -/

open Float.Model in
/-- The `double` a tick count is converted to. -/
def double (ticks : ℤ) : UnpackedFloat := .ofInt .binary64 ticks

open Float.Model in
/-- A `TimeSpan` in a unit of so many ticks: two conversions and a division. -/
def TimeSpan.total (unit : ℤ) (timeSpan : TimeSpan) : UnpackedFloat :=
  (double timeSpan).div .binary64 (double unit)

open Float.Model in
/-- `Math.Round`, halves going to the even neighbour. -/
def mathRound : UnpackedFloat → ℤ
  | .finite sign mantissa exponent _ =>
    let (mantissa, exponent) := UnpackedFloat.decreaseExponent mantissa exponent 0
    sign.apply (UnpackedFloat.shiftToExponent mantissa exponent .exact 0).1.roundedMantissa
  | .zero _ | .infinity _ | .notANumber => 0

/-- The ticks of a second. -/
def ticksPerSecond : ℤ := 10000000

/-- The ticks of a minute. -/
def ticksPerMinute : ℤ := 60 * ticksPerSecond

/-- The ticks of an hour. -/
def ticksPerHour : ℤ := 60 * ticksPerMinute

/-- The ticks of a day. -/
def ticksPerDay : ℤ := 24 * ticksPerHour

namespace TimeSpan

open Float.Model

/-- `TotalSeconds`. -/
def totalSeconds : TimeSpan → UnpackedFloat := total ticksPerSecond

/-- `TotalMinutes`. -/
def totalMinutes : TimeSpan → UnpackedFloat := total ticksPerMinute

/-- `TotalHours`. -/
def totalHours : TimeSpan → UnpackedFloat := total ticksPerHour

/-- `TotalDays`. -/
def totalDays : TimeSpan → UnpackedFloat := total ticksPerDay

end TimeSpan

/-- `FormatRelative`. -/
def formatRelative (timeSpan : TimeSpan) : String :=
  if timeSpan ≤ 0 then "expired"
  else if (TimeSpan.totalSeconds timeSpan).lt (double 60) then
    "in " ++ toString (mathRound (TimeSpan.totalSeconds timeSpan)) ++ " sec"
  else if (TimeSpan.totalMinutes timeSpan).lt (double 60) then
    "in " ++ toString (mathRound (TimeSpan.totalMinutes timeSpan)) ++ " mins"
  else if (TimeSpan.totalHours timeSpan).lt (double 24) then
    "in " ++ toString (mathRound (TimeSpan.totalHours timeSpan)) ++ " hour" ++
      (if mathRound (TimeSpan.totalHours timeSpan) = 1 then "" else "s")
  else
    "in " ++ toString (mathRound (TimeSpan.totalDays timeSpan)) ++ " day" ++
      (if mathRound (TimeSpan.totalDays timeSpan) = 1 then "" else "s")

-- a tick short of 10425.5 days, which is lost in the conversion
example : formatRelative 9007631999999999 = "in 10426 days" := by decide

/-- The element of the buffer list of `ToExternalDto`. -/
def toMessageEnvelopeDto (ttl : TimeSpan) (utcNow : DateTime) (m : EnvelopeCopy) :
    Except Exception MessageEnvelopeDto := do
  let timeUntilExpiry ← getTimeUntilExpiry m.createdAt ttl utcNow
  return ⟨m.id, m.payload, formatRelative timeUntilExpiry⟩

/-- The element of the subscriber dictionary of `ToExternalDto`. -/
def toSubscriberStateDto (state : SubscriberState) : SubscriberStateDto where
  isBlocked := !state.isCommitted
  pendingMessageCount := state.pendingCount
  deadLetterQueue := state.deadLetterQueue.map fun m => ⟨m.id, m.payload⟩

/-- `ToExternalDto`. The clock is read once for every message of the buffer. -/
def toExternalDto (utcNow : Guid → DateTime) (state : SubscribableQueueState) :
    Except Exception SubscribableQueueStateDto := do
  let buffer ← state.buffer.mapM fun m => toMessageEnvelopeDto state.ttl (utcNow m.id) m
  return ⟨buffer, state.subscribers.map fun kvp => (kvp.1, toSubscriberStateDto kvp.2)⟩

/-- The badge `QueueMonitor` puts on a subscriber. -/
def statusBadge (subscriber : SubscriberStateDto) : String :=
  if subscriber.isBlocked then
    if subscriber.pendingMessageCount > 0 then "Blocked" else "Inactive"
  else
    if subscriber.pendingMessageCount > 0 then "Active" else "Inactive"

/-! #### When it throws -/

/-- A computation over a list succeeds when it does so on every element. -/
theorem exists_mapM_eq_ok {α β ε : Type} {f : α → Except ε β} {l : List α} :
    (∃ ys, l.mapM f = .ok ys) ↔ ∀ x ∈ l, ∃ y, f x = .ok y := by
  induction l with
  | nil => simp [pure, Except.pure]
  | cons x l ih =>
    rw [List.forall_mem_cons, ← ih]
    rcases hx : f x with e | y
    · simp [List.mapM_cons, hx, bind, Except.bind]
    · rcases hl : l.mapM f with e | ys <;>
        simp [List.mapM_cons, hx, hl, bind, Except.bind, pure, Except.pure]

theorem exists_toMessageEnvelopeDto {ttl : TimeSpan} {utcNow : DateTime} {m : EnvelopeCopy} :
    (∃ dto, toMessageEnvelopeDto ttl utcNow m = .ok dto) ↔ InDateTimeRange (m.createdAt + ttl) := by
  by_cases h : InDateTimeRange (m.createdAt + ttl) <;>
    simp [toMessageEnvelopeDto, getTimeUntilExpiry, addTimeSpan, h, bind, Except.bind, pure,
      Except.pure]

/-- **`ToExternalDto` throws** exactly when the expiry of some message of the buffer is out of
range. When it does not, it reports every subscriber. -/
theorem exists_toExternalDto {utcNow : Guid → DateTime} {state : SubscribableQueueState}
    {P : List (Guid × SubscriberStateDto) → Prop} :
    (∃ dto, toExternalDto utcNow state = .ok dto ∧ P dto.subscribers) ↔
      (∀ m ∈ state.buffer, InDateTimeRange (m.createdAt + state.ttl)) ∧
        P (state.subscribers.map fun kvp => (kvp.1, toSubscriberStateDto kvp.2)) := by
  have hmap : (∃ ys, state.buffer.mapM
      (fun m => toMessageEnvelopeDto state.ttl (utcNow m.id) m) = .ok ys) ↔
      ∀ m ∈ state.buffer, InDateTimeRange (m.createdAt + state.ttl) := by
    rw [exists_mapM_eq_ok]
    exact forall₂_congr fun m _ => exists_toMessageEnvelopeDto
  rw [← hmap]
  rcases hb : state.buffer.mapM (fun m => toMessageEnvelopeDto state.ttl (utcNow m.id) m) with
    e | ys <;>
    simp [toExternalDto, hb, bind, Except.bind, pure, Except.pure]

end PushDeliveredQueue
