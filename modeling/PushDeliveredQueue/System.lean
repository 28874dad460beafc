import PushDeliveredQueue.Dispatch
import PushDeliveredQueue.DlqReplay
import PushDeliveredQueue.Runs

/-!
# The whole system

The queue together with everything that runs on it: the passes of the pruning task, the
dispatch loop of every subscriber and the replay calls under way on every dead letter
queue. `PushDeliveredQueue.step` is its transition function. What the environment decides
– who calls what and when, the `Guid`s and clock readings handed out, what each handler
returns – is in the `PushDeliveredQueue.Action`, and the runs of this machine are the
interleavings of the actions.

An action is a locked section, a `Commit` or an addition to a dead letter queue, which take
no lock, a handler call or the return of one. Four calls are one action each although the
code takes several steps in them. `Subscribe`, `Unsubscribe` and `Dispose` are taken apart in
`PushDeliveredQueue.closingStep`, with `PushDeliveredQueue.disposeStep`, and `ReplayFrom` in
`PushDeliveredQueue.racingStep`: what is said of runs of `PushDeliveredQueue.step` is said of
those in which nothing happens between their steps.

Two lists record which `Guid`s `Guid.NewGuid` has handed out, so that it never repeats
one. A pass of `PruneExpiredMessages` is two actions, the computation of its cutoff and
its locked part, and any number of passes may be between the two.
-/

namespace PushDeliveredQueue

open Transitions

/-- The state of the system. -/
structure System where
  queue : SubscribableQueue
  /-- The `Guid`s given to messages. -/
  messageIds : List Guid := []
  /-- The `Guid`s given to subscribers. -/
  subscriberIds : List Guid := []
  /-- The cutoffs of the prune passes that have not taken the lock yet. -/
  passes : List DateTime := []
  /-- The dispatch loop of each subscriber. -/
  loops : Guid → DispatchPhase := fun _ => .notStarted
  /-- The replay calls on the dead letter queue of each subscriber, in starting order. -/
  replays : Guid → List ReplayPhase := fun _ => []

/-- The constructor of the queue: nothing in it, nobody subscribed. -/
def System.init (ttl : TimeSpan) (retryCount : ℕ) : System where
  queue := { ttl := ttl, retryCount := retryCount }

/-- What can happen next. -/
inductive Action where
  | enqueue (messageId : Guid) (utcNow : DateTime) (payload : Payload)
  | changeMessagePayload (messageId : Guid) (payload : Payload)
  /-- A prune pass reads the clock and computes its cutoff. -/
  | beginPrune (utcNow : DateTime)
  /-- The waiting prune pass of this number takes the lock. -/
  | prune (pass : ℕ)
  | subscribe (subscriberId : Guid)
  | unsubscribe (subscriberId : Guid)
  | dispose
  /-- A dispatch loop takes its next step. -/
  | dispatch (subscriberId : Guid)
  /-- The `OnMessageReceiveAsync` call a dispatch loop awaits ends. -/
  | received (subscriberId : Guid) (result : ReceiveResult)
  /-- The `OnMessageFailedHandlerAsync` call a dispatch loop awaits ends. -/
  | failedHandled (subscriberId : Guid) (result : FailedResult)
  | replayFrom (subscriberId messageId : Guid)
  | replayFromDlq (subscriberId messageId : Guid)
  | replayAllDlqMessages (subscriberId : Guid)
  | replayAllDlqSubscribers
  /-- A call scheduled by `ReplayAllDlqSubscribers` begins. -/
  | runScheduled (subscriberId : Guid) (call : ℕ)
  /-- The `OnMessageReceiveAsync` call a replay awaits ends. -/
  | replayReceived (subscriberId : Guid) (call : ℕ) (result : ReceiveResult)
  /-- The `OnMessageFailedHandlerAsync` call a replay awaits ends. -/
  | replayFailedHandled (subscriberId : Guid) (call : ℕ) (result : FailedResult)
  deriving DecidableEq

namespace System

/-- A dispatch loop moves on, leaving the queue so. -/
def moveLoop (σ : System) (s : Guid) (q : SubscribableQueue) (p : DispatchPhase) : System :=
  { σ with queue := q, loops := Function.update σ.loops s p }

/-- A new replay call on a subscriber's dead letter queue. -/
def startReplay (σ : System) (s : Guid) (p : ReplayPhase) : System × List Event :=
  ({ σ with replays := Function.update σ.replays s (σ.replays s ++ [p]) },
    replayCalls σ.queue s (σ.replays s).length p)

/-- A replay call moves on, leaving the queue so. -/
def moveReplay (σ : System) (s : Guid) (call : ℕ) (q : SubscribableQueue) (p : ReplayPhase) :
    System :=
  { σ with queue := q, replays := Function.update σ.replays s ((σ.replays s).set call p) }

end System

/-- The event of a `ReplayFrom` call. -/
def replayFromEvents (s messageId : Guid) : SubscribableQueue.ReplayFromOutcome → List Event
  | .replayedFrom index => [.replayedFrom s messageId index]
  | .nonExistentSubscriber | .notStartedConsuming | .hasUncommittedMessages
  | .atMiddleOfBuffer | .messageNotFound => []

/-- **The transition function of the system.** -/
def step (σ : System) : Action → Option (System × List Event)
  | .enqueue messageId utcNow payload =>
    if messageId ∈ σ.messageIds then none
    else
      some ({ σ with
        queue := σ.queue.enqueue messageId utcNow payload
        messageIds := messageId :: σ.messageIds }, [.enqueued ⟨messageId, utcNow⟩])
  | .changeMessagePayload messageId payload =>
    some ({ σ with queue := σ.queue.changeMessagePayload messageId payload }, [])
  | .beginPrune utcNow =>
    match σ.queue.cutoff utcNow with
    | .ok cutoff => some ({ σ with passes := σ.passes ++ [cutoff] }, [])
    -- the exception is logged, and the next pass begins
    | .error _ => some (σ, [])
  | .prune pass =>
    match σ.passes[pass]? with
    | some cutoff =>
      some ({ σ with
        queue := σ.queue.pruneExpiredMessages cutoff
        passes := σ.passes.eraseIdx pass }, [.pruned (σ.queue.expired cutoff)])
    | none => none
  | .subscribe s =>
    if s ∈ σ.subscriberIds then none
    else
      -- the cursor is registered even when the loop is not started
      let q := σ.queue.addSubscriber s
      some ({ σ with
        queue := q
        subscriberIds := s :: σ.subscriberIds
        loops := Function.update σ.loops s
          (if q.startsLoop s = .ok true then .checking else .notStarted) }, [])
  | .unsubscribe s => some ({ σ with queue := σ.queue.unsubscribe s }, [])
  | .dispose => some ({ σ with queue := σ.queue.dispose }, [])
  | .dispatch s =>
    match dispatchStep σ.queue s (σ.loops s) with
    | some (q, p, evs) => some (σ.moveLoop s q p, evs)
    | none => none
  | .received s r =>
    match received s σ.queue.retryCount (σ.loops s) r with
    | some (p, evs) => some (σ.moveLoop s σ.queue p, evs)
    | none => none
  | .failedHandled s r =>
    match failedHandled s (σ.loops s) r with
    | some (p, evs) => some (σ.moveLoop s σ.queue p, evs)
    | none => none
  | .replayFrom s messageId =>
    let (q, outcome) := σ.queue.replayFrom s messageId
    some ({ σ with queue := q }, replayFromEvents s messageId outcome)
  | .replayFromDlq s messageId => some (σ.startReplay s (replayFromDlq σ.queue s messageId))
  | .replayAllDlqMessages s => some (σ.startReplay s (replayAllDlqMessages σ.queue s))
  | .replayAllDlqSubscribers =>
    -- one `Task.Run` for every key of the dictionary
    some ({ σ with
      replays := fun s =>
        if s ∈ σ.queue.subscribers then σ.replays s ++ [.scheduled] else σ.replays s }, [])
  | .runScheduled s call =>
    match (σ.replays s)[call]? with
    | some .scheduled =>
      let p := replayAllDlqMessages σ.queue s
      some (σ.moveReplay s call σ.queue p, replayCalls σ.queue s call p)
    | _ => none
  | .replayReceived s call r =>
    match (σ.replays s)[call]? with
    | some phase =>
      match replayReceived σ.queue s call phase r with
      | some (q, p, evs) => some (σ.moveReplay s call q p, evs)
      | none => none
    | none => none
  | .replayFailedHandled s call r =>
    match (σ.replays s)[call]? with
    | some phase =>
      match replayFailedHandled σ.queue s call phase r with
      | some (p, evs) => some (σ.moveReplay s call σ.queue p, evs)
      | none => none
    | none => none

/-- The transitions of the system, as its runs record them. -/
abbrev Trace := List (Transition System Action Event)

/-- The runs of a freshly constructed queue. -/
abbrev RunOf (ttl : TimeSpan) (retryCount : ℕ) (tr : Trace) (σ : System) : Prop :=
  Run step (System.init ttl retryCount) tr σ

/-- Actions that can all be taken make a run. -/
theorem runOf_exec (ttl : TimeSpan) (retryCount : ℕ) (as : List Action)
    (h : (exec step (System.init ttl retryCount) as).isSome) :
    RunOf ttl retryCount (traceOf step (System.init ttl retryCount) as)
      (stateOf step (System.init ttl retryCount) as) :=
  run_exec as h

end PushDeliveredQueue
