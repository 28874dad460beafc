import PushDeliveredQueue.Loop

/-!
# Disposing of the queue while others come and go

`Dispose` cancels and disposes of the source of the queue, looks up who is registered, and
cancels and disposes of their sources one after the other; `Subscribe` registers its cursor,
reads two tokens and starts a loop under a link of both; `Unsubscribe` takes a cursor out of the
dictionary and then cancels it. `PushDeliveredQueue.closingStep` is the system with these three
calls taking their steps between those of everybody else. A callback that a handler has registered
on its token may throw out of a `Cancel`; the source is cancelled by then all the same.

A loop watches the token of its own cursor only, never that of the queue. What keeps one from
outliving `Dispose` is the order of the steps: a loop started before the queue is cancelled has
its cursor in the dictionary by then, or has been handed to an `Unsubscribe`
(`PushDeliveredQueue.AccountedFor`), and none is started afterwards
(`PushDeliveredQueue.disposed_loops_closed`).
-/

namespace PushDeliveredQueue

open Transitions

/-! ### The calls and their steps -/

/-- Where the `Subscribe` call that creates a subscriber is. -/
inductive SubscribePhase where
  | notCalled
  /-- The cursor is in the dictionary. -/
  | added
  /-- The token of the queue has been read. -/
  | hasQueueToken
  /-- The token of the cursor has been read, and the two are linked. -/
  | linked
  /-- The loop task has begun, or has been cancelled before it could. -/
  | returned
  /-- Reading a token of a disposed source has thrown. -/
  | threw
  deriving DecidableEq

/-- Where the `Dispose` call is. -/
inductive DisposePhase where
  | notCalled
  /-- The source of the queue is cancelled. -/
  | cancelledQueue
  /-- The source of the queue is disposed of, unless its `Cancel` threw. -/
  | disposedQueue
  /-- These cursors of the snapshot are still to be cancelled and disposed of. -/
  | closing (remaining : List Guid)
  /-- A cursor is cancelled and about to be disposed of, and these are to follow. -/
  | closingCursor (subscriberId : Guid) (remaining : List Guid)
  | returned
  deriving DecidableEq

/-- The cursors of the snapshot that are still to be cancelled, once the snapshot is taken. -/
def DisposePhase.remaining : DisposePhase → Option (List Guid)
  | .closing remaining | .closingCursor _ remaining => some remaining
  | .returned => some []
  | .notCalled | .cancelledQueue | .disposedQueue => none

/-- The system, with the calls under way that begin and end subscriptions. -/
structure ClosingSystem where
  system : System
  subscribing : Guid → SubscribePhase := fun _ => .notCalled
  /-- The subscribers an `Unsubscribe` call has removed and not cancelled yet. -/
  unsubscribing : List Guid := []
  disposing : DisposePhase := .notCalled

/-- A new queue. -/
def ClosingSystem.init (ttl : TimeSpan) (retryCount : ℕ) : ClosingSystem where
  system := System.init ttl retryCount

/-- What can happen next. -/
inductive ClosingAction where
  /-- Anything but the three calls that are taken apart here. -/
  | system (action : Action)
  /-- A `Subscribe` call puts a new cursor into the dictionary. -/
  | subscribe (subscriberId : Guid)
  | readQueueToken (subscriberId : Guid)
  /-- A `Subscribe` call reads the token of the cursor and links the two. -/
  | linkTokens (subscriberId : Guid)
  /-- The loop task begins, unless the linked token is cancelled. -/
  | startLoop (subscriberId : Guid)
  /-- An `Unsubscribe` call takes the cursor out of the dictionary. -/
  | removeSubscriber (subscriberId : Guid)
  /-- An `Unsubscribe` call cancels the cursor it has taken out. -/
  | cancelSubscriber (subscriberId : Guid)
  /-- The `Dispose` call takes its next step. -/
  | dispose
  /-- The `Dispose` call cancels the next source, and a callback registered on its token throws. -/
  | callbackThrows
  deriving DecidableEq

/-- Whether an action is one of the three calls. -/
def Action.opensOrCloses : Action → Bool
  | .subscribe _ | .unsubscribe _ | .dispose => true
  | _ => false

/-- Writing to the source of a cursor. -/
def SubscribableQueue.setCancellation (q : SubscribableQueue) (subscriberId : Guid)
    (c : CancellationTokenSource) : SubscribableQueue :=
  q.setCursor subscriberId { q.cursors subscriberId with cancellation := c }

/-- The next step of `Dispose`. Each of its two `try` blocks ends where `Cancel` throws. -/
def disposeStep (q : SubscribableQueue) : DisposePhase → Option (SubscribableQueue × DisposePhase)
  | .notCalled =>
    match q.cts.cancel with
    | .error _ => some (q, .disposedQueue)
    | .ok c => some ({ q with cts := c }, .cancelledQueue)
  | .cancelledQueue => some ({ q with cts := { q.cts with disposed := true } }, .disposedQueue)
  | .disposedQueue => some (q, .closing q.subscribers)
  | .closing [] => some (q, .returned)
  | .closing (s :: remaining) =>
    match (q.cancellation s).cancel with
    | .error _ => some (q, .closing remaining)
    | .ok c => some (q.setCancellation s c, .closingCursor s remaining)
  | .closingCursor s remaining =>
    some (q.setCancellation s { q.cancellation s with disposed := true }, .closing remaining)
  | .returned => none

/-- The next step of `Dispose` where it is a `Cancel` out of which what a registered callback has
thrown comes: the source is cancelled by then, and the `try` block ends before its `Dispose`. The
callbacks are called once, when a source is cancelled for the first time. -/
def disposeThrows (q : SubscribableQueue) :
    DisposePhase → Option (SubscribableQueue × DisposePhase)
  | .notCalled =>
    if q.cts.callsBack then
      some ({ q with cts := { q.cts with isCancellationRequested := true } }, .disposedQueue)
    else none
  | .closing (s :: remaining) =>
    if (q.cancellation s).callsBack then
      some (q.setCancellation s { q.cancellation s with isCancellationRequested := true },
        .closing remaining)
    else none
  | .closing [] | .cancelledQueue | .disposedQueue | .closingCursor _ _ | .returned => none

/-- **The transition function of the closing system.** -/
def closingStep (ω : ClosingSystem) : ClosingAction → Option (ClosingSystem × List Event)
  | .system a =>
    if a.opensOrCloses then none
    else
      match step ω.system a with
      | some (σ, evs) => some ({ ω with system := σ }, evs)
      | none => none
  | .subscribe s =>
    if s ∈ ω.system.subscriberIds then none
    else
      some ({ ω with
        system :=
          { ω.system with
            queue := ω.system.queue.addSubscriber s
            subscriberIds := s :: ω.system.subscriberIds }
        subscribing := Function.update ω.subscribing s .added }, [])
  | .readQueueToken s =>
    if ω.subscribing s = .added then
      match ω.system.queue.cts.token with
      | .error _ => some ({ ω with subscribing := Function.update ω.subscribing s .threw }, [])
      | .ok _ => some ({ ω with subscribing := Function.update ω.subscribing s .hasQueueToken }, [])
    else none
  | .linkTokens s =>
    if ω.subscribing s = .hasQueueToken then
      match (ω.system.queue.cancellation s).token with
      | .error _ => some ({ ω with subscribing := Function.update ω.subscribing s .threw }, [])
      | .ok _ => some ({ ω with subscribing := Function.update ω.subscribing s .linked }, [])
    else none
  | .startLoop s =>
    if ω.subscribing s = .linked then
      -- the linked token is cancelled as soon as one of the two sources is
      if ω.system.queue.cts.isCancellationRequested ∨
          (ω.system.queue.cancellation s).isCancellationRequested then
        some ({ ω with subscribing := Function.update ω.subscribing s .returned }, [])
      else
        some ({ ω with
          system := ω.system.moveLoop s ω.system.queue .checking
          subscribing := Function.update ω.subscribing s .returned }, [])
    else none
  | .removeSubscriber s =>
    if s ∈ ω.system.queue.subscribers then
      some ({ ω with
        system :=
          { ω.system with
            queue :=
              { ω.system.queue with
                subscribers := ω.system.queue.subscribers.filter (· ≠ s) } }
        unsubscribing := s :: ω.unsubscribing }, [])
    else some (ω, [])
  | .cancelSubscriber s =>
    if s ∈ ω.unsubscribing then
      match (ω.system.queue.cancellation s).cancel with
      -- the exception leaves `Unsubscribe`
      | .error _ => some ({ ω with unsubscribing := ω.unsubscribing.erase s }, [])
      -- and so does that of a callback, after this
      | .ok c =>
        some ({ ω with
          system := { ω.system with queue := ω.system.queue.setCancellation s c }
          unsubscribing := ω.unsubscribing.erase s }, [])
    else none
  | .dispose =>
    match disposeStep ω.system.queue ω.disposing with
    | some (q, p) => some ({ ω with system := { ω.system with queue := q }, disposing := p }, [])
    | none => none
  | .callbackThrows =>
    match disposeThrows ω.system.queue ω.disposing with
    | some (q, p) => some ({ ω with system := { ω.system with queue := q }, disposing := p }, [])
    | none => none

/-- The transitions of the closing system. -/
abbrev ClosingTrace := List (Transition ClosingSystem ClosingAction Event)

/-! ### What a transition can do -/

section Effects

variable {ω ω' : ClosingSystem} {a : ClosingAction} {evs : List Event}

/-- What a step of `Dispose` can do to the queue. -/
inductive DisposeEffect (q : SubscribableQueue) :
    ClosingAction → DisposePhase → SubscribableQueue → DisposePhase → Prop
  | queueThrows (h : q.cts.disposed = true) :
      DisposeEffect q .dispose .notCalled q .disposedQueue
  | cancelQueue :
      DisposeEffect q .dispose .notCalled
        { q with cts := { q.cts with isCancellationRequested := true } } .cancelledQueue
  | queueCallbackThrows :
      DisposeEffect q .callbackThrows .notCalled
        { q with cts := { q.cts with isCancellationRequested := true } } .disposedQueue
  | disposeQueue :
      DisposeEffect q .dispose .cancelledQueue { q with cts := { q.cts with disposed := true } }
        .disposedQueue
  | snapshot : DisposeEffect q .dispose .disposedQueue q (.closing q.subscribers)
  | returns : DisposeEffect q .dispose (.closing []) q .returned
  | cursorThrows {s : Guid} {remaining : List Guid} (h : (q.cancellation s).disposed = true) :
      DisposeEffect q .dispose (.closing (s :: remaining)) q (.closing remaining)
  | cancelCursor {s : Guid} {remaining : List Guid} :
      DisposeEffect q .dispose (.closing (s :: remaining))
        (q.setCancellation s { q.cancellation s with isCancellationRequested := true })
        (.closingCursor s remaining)
  | cursorCallbackThrows {s : Guid} {remaining : List Guid} :
      DisposeEffect q .callbackThrows (.closing (s :: remaining))
        (q.setCancellation s { q.cancellation s with isCancellationRequested := true })
        (.closing remaining)
  | disposeCursor {s : Guid} {remaining : List Guid} :
      DisposeEffect q .dispose (.closingCursor s remaining)
        (q.setCancellation s { q.cancellation s with disposed := true }) (.closing remaining)

theorem disposeEffect_of_throws {q q' : SubscribableQueue} {p p' : DisposePhase}
    (h : disposeThrows q p = some (q', p')) : DisposeEffect q .callbackThrows p q' p' := by
  cases p with
  | notCalled =>
    obtain ⟨-, rfl, rfl⟩ := by simpa [disposeThrows] using h
    exact .queueCallbackThrows
  | closing remaining =>
    cases remaining with
    | nil => simp [disposeThrows] at h
    | cons s remaining =>
      obtain ⟨-, rfl, rfl⟩ := by simpa [disposeThrows] using h
      exact .cursorCallbackThrows
  | _ => simp [disposeThrows] at h

theorem disposeEffect_of_step {q q' : SubscribableQueue} {p p' : DisposePhase}
    (h : disposeStep q p = some (q', p')) : DisposeEffect q .dispose p q' p' := by
  cases p with
  | notCalled =>
    simp only [disposeStep] at h
    split at h <;> rename_i hc <;> obtain ⟨rfl, rfl⟩ := by simpa using h
    · exact .queueThrows (CancellationTokenSource.cancel_eq_error.mp hc).1
    · obtain ⟨-, rfl⟩ := CancellationTokenSource.cancel_eq_ok.mp hc
      exact .cancelQueue
  | cancelledQueue =>
    obtain ⟨rfl, rfl⟩ := by simpa [disposeStep] using h
    exact .disposeQueue
  | disposedQueue =>
    obtain ⟨rfl, rfl⟩ := by simpa [disposeStep] using h
    exact .snapshot
  | closing remaining =>
    cases remaining with
    | nil =>
      obtain ⟨rfl, rfl⟩ := by simpa [disposeStep] using h
      exact .returns
    | cons s remaining =>
      simp only [disposeStep] at h
      split at h <;> rename_i hc <;> obtain ⟨rfl, rfl⟩ := by simpa using h
      · exact .cursorThrows (CancellationTokenSource.cancel_eq_error.mp hc).1
      · obtain ⟨-, rfl⟩ := CancellationTokenSource.cancel_eq_ok.mp hc
        exact .cancelCursor
  | closingCursor s remaining =>
    obtain ⟨rfl, rfl⟩ := by simpa [disposeStep] using h
    exact .disposeCursor
  | returned => simp [disposeStep] at h

/-- **What a transition of the closing system can do.** -/
inductive ClosingEffect (ω : ClosingSystem) : ClosingAction → ClosingSystem → List Event → Prop
  | system {a : Action} {σ : System} {evs : List Event} (ha : a.opensOrCloses = false)
      (h : step ω.system a = some (σ, evs)) :
      ClosingEffect ω (.system a) { ω with system := σ } evs
  | subscribe {s : Guid} (hs : s ∉ ω.system.subscriberIds) :
      ClosingEffect ω (.subscribe s)
        { ω with
          system :=
            { ω.system with
              queue := ω.system.queue.addSubscriber s
              subscriberIds := s :: ω.system.subscriberIds }
          subscribing := Function.update ω.subscribing s .added } []
  /-- A `Subscribe` call gets on without starting its loop, or gives up. -/
  | subscribing {a : ClosingAction} {s : Guid} {p : SubscribePhase} (ha : ∀ b, a ≠ .system b)
      (hs : ω.subscribing s ≠ .notCalled) (hp : p ≠ .notCalled) :
      ClosingEffect ω a { ω with subscribing := Function.update ω.subscribing s p } []
  | startLoop {s : Guid} (hs : ω.subscribing s = .linked)
      (hcts : ω.system.queue.cts.isCancellationRequested = false)
      (hc : (ω.system.queue.cancellation s).isCancellationRequested = false) :
      ClosingEffect ω (.startLoop s)
        { ω with
          system := ω.system.moveLoop s ω.system.queue .checking
          subscribing := Function.update ω.subscribing s .returned } []
  | removeSubscriber {s : Guid} (hs : s ∈ ω.system.queue.subscribers) :
      ClosingEffect ω (.removeSubscriber s)
        { ω with
          system :=
            { ω.system with
              queue :=
                { ω.system.queue with
                  subscribers := ω.system.queue.subscribers.filter (· ≠ s) } }
          unsubscribing := s :: ω.unsubscribing } []
  | removeMisses {s : Guid} : ClosingEffect ω (.removeSubscriber s) ω []
  | cancelThrows {s : Guid} (hs : s ∈ ω.unsubscribing)
      (h : (ω.system.queue.cancellation s).disposed = true) :
      ClosingEffect ω (.cancelSubscriber s)
        { ω with unsubscribing := ω.unsubscribing.erase s } []
  | cancelSubscriber {s : Guid} (hs : s ∈ ω.unsubscribing) :
      ClosingEffect ω (.cancelSubscriber s)
        { ω with
          system :=
            { ω.system with
              queue := ω.system.queue.setCancellation s
                { ω.system.queue.cancellation s with isCancellationRequested := true } }
          unsubscribing := ω.unsubscribing.erase s } []
  | dispose {a : ClosingAction} {q : SubscribableQueue} {p : DisposePhase}
      (h : DisposeEffect ω.system.queue a ω.disposing q p) :
      ClosingEffect ω a { ω with system := { ω.system with queue := q }, disposing := p } []

theorem closingEffect_of_step (h : closingStep ω a = some (ω', evs)) :
    ClosingEffect ω a ω' evs := by
  cases a with
  | system a =>
    simp only [closingStep] at h
    split at h
    · simp at h
    · rename_i ha
      split at h
      · rename_i hstep
        obtain ⟨rfl, rfl⟩ := by simpa using h
        exact .system (by simpa using ha) hstep
      · simp at h
  | subscribe s =>
    simp only [closingStep] at h
    split at h
    · simp at h
    · rename_i hs
      obtain ⟨rfl, rfl⟩ := by simpa using h
      exact .subscribe hs
  | readQueueToken s | linkTokens s =>
    simp only [closingStep] at h
    split at h
    · rename_i hp
      split at h <;> obtain ⟨rfl, rfl⟩ := by simpa using h
      · exact .subscribing (by simp) (by simp [hp]) (by simp)
      · exact .subscribing (by simp) (by simp [hp]) (by simp)
    · simp at h
  | startLoop s =>
    simp only [closingStep] at h
    split at h
    · rename_i hp
      split at h <;> rename_i hc <;> obtain ⟨rfl, rfl⟩ := by simpa using h
      · exact .subscribing (by simp) (by simp [hp]) (by simp)
      · obtain ⟨hcts, hc⟩ := not_or.mp hc
        exact .startLoop hp (by simpa using hcts) (by simpa using hc)
    · simp at h
  | removeSubscriber s =>
    simp only [closingStep] at h
    split at h <;> rename_i hs <;> simp only [Option.some.injEq, Prod.mk.injEq] at h <;>
      obtain ⟨rfl, rfl⟩ := h
    · exact .removeSubscriber hs
    · exact .removeMisses
  | cancelSubscriber s =>
    simp only [closingStep] at h
    split at h
    · rename_i hs
      split at h <;> rename_i hc <;> obtain ⟨rfl, rfl⟩ := by simpa using h
      · exact .cancelThrows hs (CancellationTokenSource.cancel_eq_error.mp hc).1
      · obtain ⟨-, rfl⟩ := CancellationTokenSource.cancel_eq_ok.mp hc
        exact .cancelSubscriber hs
    · simp at h
  | dispose =>
    simp only [closingStep] at h
    split at h
    · rename_i hstep
      obtain ⟨rfl, rfl⟩ := by simpa using h
      exact .dispose (disposeEffect_of_step hstep)
    · simp at h
  | callbackThrows =>
    simp only [closingStep] at h
    split at h
    · rename_i hstep
      obtain ⟨rfl, rfl⟩ := by simpa using h
      exact .dispose (disposeEffect_of_throws hstep)
    · simp at h

end Effects

/-! ### Who is accounted for -/

namespace SubscribableQueue

variable {q : SubscribableQueue} {s s' : Guid}

@[simp] theorem cancellation_setCancellation_self (c : CancellationTokenSource) :
    (q.setCancellation s c).cancellation s = c := by
  simp [cancellation, setCancellation]

theorem cancellation_setCancellation_of_ne (hne : s' ≠ s) (c : CancellationTokenSource) :
    (q.setCancellation s c).cancellation s' = q.cancellation s' := by
  rw [cancellation, setCancellation, cursors_setCursor_of_ne _ hne]

/-- Writing a later source leaves every subscriber with a later one. -/
theorem later_setCancellation {c : CancellationTokenSource} (h : (q.cancellation s').Later c) :
    (q.cancellation s).Later ((q.setCancellation s' c).cancellation s) := by
  rcases eq_or_ne s s' with rfl | hne
  · rwa [cancellation_setCancellation_self]
  · exact .of_eq (cancellation_setCancellation_of_ne hne c)

theorem cancellation_addSubscriber_self : (q.addSubscriber s).cancellation s = {} := by
  simp [cancellation, addSubscriber]

theorem cancellation_addSubscriber_of_ne (hne : s' ≠ s) :
    (q.addSubscriber s).cancellation s' = q.cancellation s' := by
  simp [cancellation, addSubscriber, hne]

end SubscribableQueue

/-- Whether the source of a subscriber has been cancelled. -/
def ClosingSystem.Cancelled (ω : ClosingSystem) (s : Guid) : Prop :=
  (ω.system.queue.cancellation s).isCancellationRequested = true

/-- **A subscriber is accounted for**: it is in the dictionary, or an `Unsubscribe` call has it
in hand, or it is cancelled; and once the snapshot is taken, a subscriber whose loop has been
started is still to come in the snapshot, unless one of the latter two holds. -/
structure AccountedFor (s : Guid) (ω : ClosingSystem) : Prop where
  started_known : ω.system.loops s ≠ .notStarted → s ∈ ω.system.subscriberIds
  called_known : ω.subscribing s ≠ .notCalled → s ∈ ω.system.subscriberIds
  registered_known : s ∈ ω.system.queue.subscribers → s ∈ ω.system.subscriberIds
  unsubscribing_known : s ∈ ω.unsubscribing → s ∈ ω.system.subscriberIds
  accounted : s ∈ ω.system.subscriberIds →
    s ∈ ω.system.queue.subscribers ∨ s ∈ ω.unsubscribing ∨ ω.Cancelled s
  disposed_cancelled : (ω.system.queue.cancellation s).disposed = true → ω.Cancelled s
  closing : ∀ remaining, ω.disposing = .closingCursor s remaining →
    s ∈ ω.system.subscriberIds ∧ ω.Cancelled s
  remaining_known : ∀ remaining, ω.disposing.remaining = some remaining → s ∈ remaining →
    s ∈ ω.system.subscriberIds
  remaining : ∀ remaining, ω.disposing.remaining = some remaining →
    ω.system.loops s ≠ .notStarted → s ∈ remaining ∨ s ∈ ω.unsubscribing ∨ ω.Cancelled s

/-- **`Dispose` cancels the queue first.** -/
structure QueueCancelled (ω : ClosingSystem) : Prop where
  disposing : ω.disposing ≠ .notCalled → ω.system.queue.cts.isCancellationRequested = true
  disposed : ω.system.queue.cts.disposed = true →
    ω.system.queue.cts.isCancellationRequested = true

/-- A transition that changes nothing of what accounts for a subscriber. -/
structure SameFor (s : Guid) (ω ω' : ClosingSystem) : Prop where
  loop : ω'.system.loops s = .notStarted ↔ ω.system.loops s = .notStarted
  known : s ∈ ω'.system.subscriberIds ↔ s ∈ ω.system.subscriberIds
  called : ω'.subscribing s = .notCalled ↔ ω.subscribing s = .notCalled
  registered : s ∈ ω'.system.queue.subscribers ↔ s ∈ ω.system.queue.subscribers
  unsubscribing : s ∈ ω'.unsubscribing ↔ s ∈ ω.unsubscribing
  cancellation : ω'.system.queue.cancellation s = ω.system.queue.cancellation s

section Invariants

variable {ω ω' : ClosingSystem} {a : ClosingAction} {evs : List Event} {s : Guid}

theorem SameFor.cancelled (h : SameFor s ω ω') : ω'.Cancelled s ↔ ω.Cancelled s := by
  rw [ClosingSystem.Cancelled, h.cancellation, ClosingSystem.Cancelled]

/-- `Dispose` may go on meanwhile, if it does nothing to the subscriber. -/
theorem AccountedFor.of_disposing (h : AccountedFor s ω) (hs : SameFor s ω ω')
    (hclosing : ∀ remaining, ω'.disposing = .closingCursor s remaining →
      s ∈ ω.system.subscriberIds ∧ ω.Cancelled s)
    (hknown : ∀ remaining, ω'.disposing.remaining = some remaining → s ∈ remaining →
      s ∈ ω.system.subscriberIds)
    (hremaining : ∀ remaining, ω'.disposing.remaining = some remaining →
      ω.system.loops s ≠ .notStarted → s ∈ remaining ∨ s ∈ ω.unsubscribing ∨ ω.Cancelled s) :
    AccountedFor s ω' := by
  obtain ⟨h1, h2, h3, h4, h5, h6, -, -, -⟩ := h
  refine ⟨?_, ?_, ?_, ?_, ?_, ?_, ?_, ?_, ?_⟩
  · rwa [ne_eq, hs.loop, hs.known]
  · rwa [ne_eq, hs.called, hs.known]
  · rwa [hs.registered, hs.known]
  · rwa [hs.unsubscribing, hs.known]
  · rwa [hs.known, hs.registered, hs.unsubscribing, hs.cancelled]
  · rwa [hs.cancellation, hs.cancelled]
  · rwa [hs.known, hs.cancelled]
  · rwa [hs.known]
  · rwa [ne_eq, hs.loop, hs.unsubscribing, hs.cancelled]

theorem AccountedFor.of_same (h : AccountedFor s ω) (hs : SameFor s ω ω')
    (hd : ω'.disposing = ω.disposing) : AccountedFor s ω' :=
  h.of_disposing hs (hd ▸ h.closing) (hd ▸ h.remaining_known) (hd ▸ h.remaining)

/-- A cancelled subscriber is accounted for, wherever it is. -/
theorem AccountedFor.of_cancelled (hs : s ∈ ω.system.subscriberIds) (hc : ω.Cancelled s) :
    AccountedFor s ω where
  started_known _ := hs
  called_known _ := hs
  registered_known _ := hs
  unsubscribing_known _ := hs
  accounted _ := Or.inr (Or.inr hc)
  disposed_cancelled _ := hc
  closing _ _ := ⟨hs, hc⟩
  remaining_known _ _ _ := hs
  remaining _ _ _ := Or.inr (Or.inr hc)

/-- What happens to one subscriber is not seen by the others. -/
theorem SameFor.of_update {σ : System} {s' : Guid} {p : SubscribePhase} {u : List Guid}
    (hne : s ≠ s') (hl : σ.loops s = ω.system.loops s)
    (hk : s ∈ σ.subscriberIds ↔ s ∈ ω.system.subscriberIds)
    (hr : s ∈ σ.queue.subscribers ↔ s ∈ ω.system.queue.subscribers)
    (hu : s ∈ u ↔ s ∈ ω.unsubscribing)
    (hc : σ.queue.cancellation s = ω.system.queue.cancellation s) :
    SameFor s ω { ω with
      system := σ, subscribing := Function.update ω.subscribing s' p, unsubscribing := u } :=
  ⟨by rw [hl], hk, by simp [hne], hr, hu, hc⟩

/-- Anything but the three calls leaves all the subscribers alone. -/
theorem sameFor_of_step {a : Action} {σ : System} (ha : a.opensOrCloses = false)
    (h : step ω.system a = some (σ, evs)) : SameFor s ω { ω with system := σ } := by
  cases (effect_of_step h).lifecycleStep with
  | subscribe _ _ | unsubscribe _ | dispose => simp [Action.opensOrCloses] at ha
  | same hsame =>
    exact ⟨hsame.notStarted s, by rw [hsame.subscriberIds], Iff.rfl, by rw [hsame.subscribers],
      Iff.rfl, hsame.cancellation s⟩

/-- **One step of `Dispose`.** -/
theorem AccountedFor.dispose (h : AccountedFor s ω) {q : SubscribableQueue} {p : DisposePhase}
    (heff : DisposeEffect ω.system.queue a ω.disposing q p) :
    AccountedFor s { ω with system := { ω.system with queue := q }, disposing := p } := by
  obtain ⟨σ, calls, pending, phase⟩ := ω
  cases heff with
  | queueThrows _ | cancelQueue | queueCallbackThrows | disposeQueue =>
    -- no snapshot yet
    refine h.of_disposing ⟨Iff.rfl, Iff.rfl, Iff.rfl, Iff.rfl, Iff.rfl, rfl⟩ ?_ ?_ ?_ <;>
      simp [DisposePhase.remaining]
  | snapshot =>
    refine h.of_disposing ⟨Iff.rfl, Iff.rfl, Iff.rfl, Iff.rfl, Iff.rfl, rfl⟩ (by simp) ?_ ?_
    · rintro _ ⟨⟩ hs
      exact h.registered_known hs
    · rintro _ ⟨⟩ hl
      exact h.accounted (h.started_known hl)
  | returns =>
    refine h.of_disposing ⟨Iff.rfl, Iff.rfl, Iff.rfl, Iff.rfl, Iff.rfl, rfl⟩ (by simp) ?_ ?_
    · exact h.remaining_known
    · exact h.remaining
  | @cursorThrows s' rest hdis =>
    refine h.of_disposing ⟨Iff.rfl, Iff.rfl, Iff.rfl, Iff.rfl, Iff.rfl, rfl⟩ (by simp) ?_ ?_
    · rintro _ ⟨⟩ hs
      exact h.remaining_known _ rfl (List.mem_cons_of_mem _ hs)
    · rintro _ ⟨⟩ hl
      rcases h.remaining _ rfl hl with hmem | hor
      · rcases List.mem_cons.mp hmem with rfl | hmem
        · exact Or.inr (Or.inr (h.disposed_cancelled hdis))
        · exact Or.inl hmem
      · exact Or.inr hor
  | @cancelCursor s' rest | @cursorCallbackThrows s' rest =>
    rcases eq_or_ne s s' with rfl | hne
    · exact .of_cancelled (h.remaining_known _ rfl List.mem_cons_self)
        (by simp [ClosingSystem.Cancelled])
    · have hc := SubscribableQueue.cancellation_setCancellation_of_ne (q := σ.queue) hne
        { σ.queue.cancellation s' with isCancellationRequested := true }
      refine h.of_disposing ⟨Iff.rfl, Iff.rfl, Iff.rfl, Iff.rfl, Iff.rfl, hc⟩ ?_ ?_ ?_
      · rintro _ ⟨⟩ <;> exact absurd rfl hne
      · rintro _ ⟨⟩ hs
        exact h.remaining_known _ rfl (List.mem_cons_of_mem _ hs)
      · rintro _ ⟨⟩ hl
        exact (h.remaining _ rfl hl).imp (List.mem_of_ne_of_mem hne) id
  | @disposeCursor s' rest =>
    rcases eq_or_ne s s' with rfl | hne
    · obtain ⟨hknown, hcan⟩ := h.closing _ rfl
      exact .of_cancelled hknown (by simpa [ClosingSystem.Cancelled] using hcan)
    · have hc := SubscribableQueue.cancellation_setCancellation_of_ne (q := σ.queue) hne
        { σ.queue.cancellation s' with disposed := true }
      refine h.of_disposing ⟨Iff.rfl, Iff.rfl, Iff.rfl, Iff.rfl, Iff.rfl, hc⟩ (by simp) ?_ ?_
      · exact h.remaining_known
      · exact h.remaining

/-- **One step keeps a subscriber accounted for.** -/
theorem AccountedFor.step (h : AccountedFor s ω) (hq : QueueCancelled ω)
    (heff : ClosingEffect ω a ω' evs) : AccountedFor s ω' := by
  cases heff with
  | system ha hstep => exact h.of_same (sameFor_of_step ha hstep) rfl
  | @subscribe s' hnew =>
    rcases eq_or_ne s s' with rfl | hne
    · -- a fresh `Guid`, which neither a snapshot nor an `Unsubscribe` can hold
      have hknown : s ∈ s :: ω.system.subscriberIds := List.mem_cons_self
      refine ⟨fun _ => hknown, fun _ => hknown, fun _ => hknown, fun _ => hknown,
        fun _ => Or.inl List.mem_cons_self, ?_, fun _ hc => ?_, fun _ _ _ => hknown,
        fun _ _ hl => ?_⟩
      · simp [SubscribableQueue.cancellation_addSubscriber_self]
      · exact absurd (h.closing _ hc).1 hnew
      · exact absurd (h.started_known hl) hnew
    · refine h.of_same (.of_update hne rfl ?_ ?_ Iff.rfl ?_) rfl
      · simp [hne]
      · simp [SubscribableQueue.addSubscriber, hne]
      · exact SubscribableQueue.cancellation_addSubscriber_of_ne hne
  | @subscribing _ s' p _ hs hp =>
    refine h.of_same ⟨Iff.rfl, Iff.rfl, ?_, Iff.rfl, Iff.rfl, rfl⟩ rfl
    rcases eq_or_ne s s' with rfl | hne
    · simp [hs, hp]
    · simp [hne]
  | @startLoop s' hs hcts hc =>
    rcases eq_or_ne s s' with rfl | hne
    · have hknown : s ∈ ω.system.subscriberIds := h.called_known (by simp [hs])
      refine ⟨fun _ => hknown, fun _ => hknown, fun _ => hknown, fun _ => hknown, h.accounted,
        h.disposed_cancelled, h.closing, h.remaining_known, fun rest hrest _ => ?_⟩
      -- no loop is started once `Dispose` has begun
      have hcan := hq.disposing fun hnot => by
        change ω.disposing.remaining = some rest at hrest
        simp [hnot, DisposePhase.remaining] at hrest
      exact absurd (hcts.symm.trans hcan) (by simp)
    · exact h.of_same (.of_update hne (by simp [System.moveLoop, hne]) Iff.rfl Iff.rfl Iff.rfl rfl)
        rfl
  | @removeSubscriber s' hs =>
    rcases eq_or_ne s s' with rfl | hne
    · have hknown := h.registered_known hs
      exact ⟨fun _ => hknown, fun _ => hknown, fun _ => hknown, fun _ => hknown,
        fun _ => Or.inr (Or.inl List.mem_cons_self), h.disposed_cancelled, h.closing,
        h.remaining_known, fun _ _ _ => Or.inr (Or.inl List.mem_cons_self)⟩
    · refine h.of_same ⟨Iff.rfl, Iff.rfl, Iff.rfl, ?_, ?_, rfl⟩ rfl <;> simp [hne]
  | removeMisses => exact h
  | @cancelThrows s' hs hdis =>
    rcases eq_or_ne s s' with rfl | hne
    · exact .of_cancelled (h.unsubscribing_known hs) (h.disposed_cancelled hdis)
    · refine h.of_same ⟨Iff.rfl, Iff.rfl, Iff.rfl, Iff.rfl, ?_, rfl⟩ rfl
      exact List.mem_erase_of_ne hne
  | @cancelSubscriber s' hs =>
    rcases eq_or_ne s s' with rfl | hne
    · exact .of_cancelled (h.unsubscribing_known hs) (by simp [ClosingSystem.Cancelled])
    · refine h.of_same ⟨Iff.rfl, Iff.rfl, Iff.rfl, Iff.rfl, List.mem_erase_of_ne hne, ?_⟩ rfl
      exact SubscribableQueue.cancellation_setCancellation_of_ne hne _
  | dispose hd => exact h.dispose hd

/-- Only `Dispose` writes to the source of the queue. -/
theorem QueueCancelled.step (h : QueueCancelled ω) (heff : ClosingEffect ω a ω' evs) :
    QueueCancelled ω' := by
  obtain ⟨hd, hdis⟩ := h
  cases heff with
  | @system a σ evs ha hstep =>
    have hcts : σ.queue.cts = ω.system.queue.cts := by
      cases (effect_of_step hstep).lifecycleStep with
      | subscribe _ _ | unsubscribe _ | dispose => simp [Action.opensOrCloses] at ha
      | same hsame => exact hsame.cts
    exact ⟨hcts ▸ hd, hcts ▸ hdis⟩
  | dispose hstep =>
    obtain ⟨σ, calls, pending, phase⟩ := ω
    cases hstep with
    | queueThrows h => exact ⟨fun _ => hdis h, hdis⟩
    | cancelQueue | queueCallbackThrows => exact ⟨fun _ => rfl, fun _ => rfl⟩
    | disposeQueue => exact ⟨fun _ => hd (by simp), fun _ => hd (by simp)⟩
    | _ => exact ⟨fun _ => hd (by simp), hdis⟩
  | _ => exact ⟨hd, hdis⟩

theorem accountedFor_of_run {ttl : TimeSpan} {n : ℕ} {tr : ClosingTrace}
    (h : Run closingStep (.init ttl n) tr ω) : QueueCancelled ω ∧ ∀ s, AccountedFor s ω := by
  refine h.stateInvariant (I := fun ω => QueueCancelled ω ∧ ∀ s, AccountedFor s ω) ?_ ?_
  · refine ⟨⟨by simp [ClosingSystem.init], by simp [ClosingSystem.init, System.init]⟩,
      fun s => ?_⟩
    constructor <;> simp [ClosingSystem.init, System.init, DisposePhase.remaining]
  · rintro ω a evs ω' ⟨hq, hc⟩ hs
    have heff := closingEffect_of_step hs
    exact ⟨hq.step heff, fun s => (hc s).step hq heff⟩

end Invariants

/-! ### No loop outlives it -/

/-- The queue is cancelled, and so is every subscriber whose loop has been started. -/
structure Closed (ω : ClosingSystem) : Prop where
  queue : ω.system.queue.cts.isCancellationRequested = true
  loops : ∀ s, ω.system.loops s = .notStarted ∨ ω.Cancelled s

section Closed

variable {ω ω' : ClosingSystem} {a : ClosingAction} {evs : List Event} {s : Guid}

/-- **What a step does to a loop**: the loop takes a step of its own or none, or it is started,
while neither the queue nor its cursor is cancelled. -/
theorem ClosingEffect.loop (h : ClosingEffect ω a ω' evs) (s : Guid) :
    ω'.system.loops s = ω.system.loops s ∨
      (∃ a, a.opensOrCloses = false ∧ step ω.system a = some (ω'.system, evs)) ∨
      ω.system.queue.cts.isCancellationRequested = false ∧ ω'.system.loops s = .checking := by
  cases h with
  | system ha hstep => exact Or.inr (Or.inl ⟨_, ha, hstep⟩)
  | @startLoop s' _ hcts _ =>
    rcases eq_or_ne s s' with rfl | hne
    · exact Or.inr (Or.inr ⟨hcts, System.loops_moveLoop_self _ _⟩)
    · exact Or.inl (System.loops_moveLoop_of_ne hne _ _)
  | _ => exact Or.inl rfl

/-- A started loop stays started. -/
theorem ClosingEffect.started (h : ClosingEffect ω a ω' evs)
    (hs : ω.system.loops s ≠ .notStarted) : ω'.system.loops s ≠ .notStarted := by
  rcases h.loop s with hl | ⟨a, ha, hstep⟩ | ⟨-, hl⟩
  · rwa [hl]
  · exact mt (sameFor_of_step (ω := ω) (s := s) ha hstep).loop.mp hs
  · simp [hl]

/-- The source of the queue, before and after a transition. -/
theorem ClosingEffect.later_cts (h : ClosingEffect ω a ω' evs) :
    ω.system.queue.cts.Later ω'.system.queue.cts := by
  cases h with
  | @system a σ evs ha hstep =>
    cases (effect_of_step hstep).lifecycleStep with
    | subscribe _ _ | unsubscribe _ | dispose => simp [Action.opensOrCloses] at ha
    | same hsame => exact .of_eq hsame.cts
  | dispose hstep =>
    obtain ⟨σ, calls, pending, phase⟩ := ω
    cases hstep with
    | cancelQueue | queueCallbackThrows => exact ⟨fun _ => rfl, id⟩
    | disposeQueue => exact ⟨id, fun _ => rfl⟩
    | _ => exact .of_eq rfl
  | _ => exact .of_eq rfl

/-- The source of a subscriber, before and after a transition. -/
theorem ClosingEffect.later (h : ClosingEffect ω a ω' evs) (hs : s ∈ ω.system.subscriberIds) :
    (ω.system.queue.cancellation s).Later (ω'.system.queue.cancellation s) := by
  cases h with
  | system ha hstep => exact .of_eq (sameFor_of_step ha hstep).cancellation
  | @subscribe s' hnew =>
    have hne : s ≠ s' := fun he => hnew (he ▸ hs)
    exact .of_eq (SubscribableQueue.cancellation_addSubscriber_of_ne hne)
  | cancelSubscriber _ => exact SubscribableQueue.later_setCancellation ⟨fun _ => rfl, id⟩
  | dispose hstep =>
    obtain ⟨σ, calls, pending, phase⟩ := ω
    cases hstep with
    | cancelCursor | cursorCallbackThrows =>
      exact SubscribableQueue.later_setCancellation ⟨fun _ => rfl, id⟩
    | disposeCursor => exact SubscribableQueue.later_setCancellation ⟨id, fun _ => rfl⟩
    | _ => exact .of_eq rfl
  | _ => exact .of_eq rfl

/-- A closed queue starts no loop. -/
theorem Closed.notStarted (h : Closed ω) (heff : ClosingEffect ω a ω' evs)
    (hs : ω.system.loops s = .notStarted) : ω'.system.loops s = .notStarted := by
  rcases heff.loop s with hl | ⟨a, ha, hstep⟩ | ⟨hcts, -⟩
  · rw [hl, hs]
  · exact (sameFor_of_step (ω := ω) (s := s) ha hstep).loop.mpr hs
  · exact absurd (h.queue.symm.trans hcts) (by simp)

/-- **A closed queue stays closed.** -/
theorem Closed.step (h : Closed ω) (hacc : ∀ s, AccountedFor s ω)
    (heff : ClosingEffect ω a ω' evs) : Closed ω' := by
  refine ⟨heff.later_cts.cancelled h.queue, fun s => ?_⟩
  by_cases hs : ω.system.loops s = .notStarted
  · exact Or.inl (h.notStarted heff hs)
  · have hknown := (hacc s).started_known hs
    exact Or.inr ((heff.later hknown).cancelled ((h.loops s).resolve_left hs))

/-- **No loop of a closed queue passes its check.** -/
theorem Closed.not_passes (h : Closed ω) (heff : ClosingEffect ω a ω' evs)
    (hcheck : ω.system.loops s = .checking) : ω'.system.loops s ≠ .reading := by
  have hc : ω.Cancelled s := (h.loops s).resolve_left (by simp [hcheck])
  rcases heff.loop s with hl | ⟨a, -, hstep⟩ | ⟨-, hl⟩
  · simp [hl, hcheck]
  · exact ((effect_of_step hstep).loopStep s).not_passes hc hcheck
  · simp [hl]

end Closed

section Main

variable {ttl : TimeSpan} {n : ℕ} {tr : ClosingTrace} {ω : ClosingSystem}

/-- When `Dispose` has returned and no `Unsubscribe` has a cursor in hand, the queue is
closed. -/
theorem closed_of_returned (h : Run closingStep (.init ttl n) tr ω)
    (hret : ω.disposing = .returned) (hun : ω.unsubscribing = []) : Closed ω := by
  obtain ⟨hq, hacc⟩ := accountedFor_of_run h
  refine ⟨hq.disposing (by simp [hret]), fun s => or_iff_not_imp_left.mpr fun hs => ?_⟩
  have hrem : ω.disposing.remaining = some [] := by rw [hret]; rfl
  rcases (hacc s).remaining [] hrem hs with hmem | hmem | hc
  · simp at hmem
  · simp [hun] at hmem
  · exact hc

theorem Closed.of_run (h : Run closingStep (.init ttl n) tr ω) (hclosed : Closed ω)
    {cont : ClosingTrace} {ω' : ClosingSystem} (hcont : Run closingStep ω cont ω') :
    Closed ω' ∧ ∀ s, ω.system.loops s = .notStarted → ω'.system.loops s = .notStarted := by
  have hmain : (QueueCancelled ω' ∧ ∀ s, AccountedFor s ω') ∧ Closed ω' ∧
      ∀ s, ω.system.loops s = .notStarted → ω'.system.loops s = .notStarted := by
    refine hcont.stateInvariant (I := fun ω' => (QueueCancelled ω' ∧ ∀ s, AccountedFor s ω') ∧
      Closed ω' ∧ ∀ s, ω.system.loops s = .notStarted → ω'.system.loops s = .notStarted)
      ⟨accountedFor_of_run h, hclosed, fun _ => id⟩ ?_
    rintro ω₁ a evs ω₂ ⟨⟨hq, hacc⟩, hclosed, hns⟩ hs
    have heff := closingEffect_of_step hs
    exact ⟨⟨hq.step heff, fun s => (hacc s).step hq heff⟩, hclosed.step hacc heff,
      fun s hs => hclosed.notStarted heff (hns s hs)⟩
  exact hmain.2

/-- A loop that has not been started by the end of a run has not been started at all. -/
theorem notStarted_of_mem {ω₀ : ClosingSystem} (h : Run closingStep ω₀ tr ω) {s : Guid}
    (hs : ω.system.loops s = .notStarted) {t : Transition ClosingSystem ClosingAction Event}
    (ht : t ∈ tr) : t.post.system.loops s = .notStarted := by
  obtain ⟨pre, post, -, -, -, hpost⟩ := h.of_mem ht
  by_contra hcon
  exact hpost.stateInvariant (I := fun ω => ω.system.loops s ≠ .notStarted) hcon
    (fun _ _ _ _ hi hs => (closingEffect_of_step hs).started hi) hs

/-- **No dispatch loop outlives `Dispose`.** In every run of the closing system, whenever
`Dispose` has returned and no `Unsubscribe` call is between its `TryRemove` and its `Cancel`,
every subscriber ever created is cancelled, or its loop never has been and never will be started;
and from then on no loop passes its `IsCancellationRequested` check. -/
theorem disposed_loops_closed (h : Run closingStep (.init ttl n) tr ω)
    (hret : ω.disposing = .returned) (hun : ω.unsubscribing = []) :
    (∀ s ∈ ω.system.subscriberIds, ω.Cancelled s ∨
      ∀ cont ω', Run closingStep ω cont ω' → ∀ t ∈ tr ++ cont,
        t.post.system.loops s = .notStarted) ∧
    ∀ cont ω', Run closingStep ω cont ω' → ∀ t ∈ cont, ∀ s,
      t.pre.system.loops s = .checking → t.post.system.loops s ≠ .reading := by
  have hclosed := closed_of_returned h hret hun
  refine ⟨fun s _ => ?_, fun cont ω' hcont t ht s hcheck => ?_⟩
  · refine (hclosed.loops s).symm.imp id fun hs cont ω' hcont t ht => ?_
    have hs' := (hclosed.of_run h hcont).2 s hs
    exact notStarted_of_mem (h.append hcont) hs' ht
  · obtain ⟨pre, post, -, hpre, hstep, -⟩ := hcont.of_mem ht
    exact (hclosed.of_run h hpre).1.not_passes (closingEffect_of_step hstep) hcheck

/-- The theorem at a `Subscribe` call that `Dispose` overtakes between its two token reads, and at
an `Unsubscribe` call that begins before the snapshot and cancels its cursor after `Dispose` has
returned. -/
theorem disposed_loops_closed_late : ∃ tr ω, Run closingStep (.init 100 0) tr ω ∧
    ω.disposing = .returned ∧ ω.system.subscriberIds = [9, 8, 7] ∧
    (∀ s ∈ ω.system.subscriberIds, ω.Cancelled s ∨
      ∀ cont ω', Run closingStep ω cont ω' → ∀ t ∈ tr ++ cont,
        t.post.system.loops s = .notStarted) := by
  have h : Run closingStep (.init 100 0) _ _ := run_exec
    [.subscribe 7, .readQueueToken 7, .linkTokens 7, .startLoop 7, .subscribe 8,
      .readQueueToken 8, .linkTokens 8, .startLoop 8, .subscribe 9, .readQueueToken 9,
      .removeSubscriber 7, .dispose, .dispose, .dispose, .dispose, .dispose, .dispose, .dispose,
      .dispose, .linkTokens 9, .cancelSubscriber 7] (by decide)
  exact ⟨_, _, h, rfl, rfl, (disposed_loops_closed h rfl rfl).1⟩

end Main

/-! ### The calls in one piece -/

/-- One state leads to another by steps of the three calls. -/
def Closes (ω ω' : ClosingSystem) : Prop :=
  ∃ cont, Run closingStep ω cont ω' ∧ events cont = []

section Atomic

variable {ω ω' ω'' : ClosingSystem} {a : ClosingAction} {s : Guid}

theorem Closes.refl (ω : ClosingSystem) : Closes ω ω := ⟨[], Run.nil, rfl⟩

theorem Closes.trans (h : Closes ω ω') (h' : Closes ω' ω'') : Closes ω ω'' := by
  obtain ⟨cont, hrun, hnil⟩ := h
  obtain ⟨cont', hrun', hnil'⟩ := h'
  exact ⟨cont ++ cont', hrun.append hrun', by simp [hnil, hnil']⟩

theorem Closes.single (h : closingStep ω a = some (ω', [])) : Closes ω ω' :=
  ⟨_, Run.single h, rfl⟩

/-- The steps of `Subscribe` after the new cursor is in the dictionary. -/
theorem closes_added (hp : ω.subscribing s = .added)
    (hfresh : (ω.system.queue.cursors s).cancellation = {}) :
    ∃ p, Closes ω { ω with
      system :=
        if ω.system.queue.cts.disposed ∨ ω.system.queue.cts.isCancellationRequested then ω.system
        else ω.system.moveLoop s ω.system.queue .checking
      subscribing := Function.update ω.subscribing s p } := by
  cases hdis : ω.system.queue.cts.disposed with
  | true =>
    -- reading the token of the queue throws
    refine ⟨.threw, ?_⟩
    exact Closes.single (a := .readQueueToken s)
      (by simp [closingStep, hp, CancellationTokenSource.token, hdis])
  | false =>
    have hread : Closes ω { ω with
        subscribing := Function.update ω.subscribing s .hasQueueToken } :=
      Closes.single (a := .readQueueToken s)
        (by simp [closingStep, hp, CancellationTokenSource.token, hdis])
    have hlink : Closes { ω with subscribing := Function.update ω.subscribing s .hasQueueToken }
        { ω with subscribing := Function.update ω.subscribing s .linked } :=
      Closes.single (a := .linkTokens s)
        (by simp [closingStep, CancellationTokenSource.token, hfresh])
    refine ⟨.returned, (hread.trans hlink).trans (Closes.single (a := .startLoop s) ?_)⟩
    cases hcan : ω.system.queue.cts.isCancellationRequested <;>
      simp [closingStep, hcan, hfresh]

/-- **`Subscribe` in one piece**: its steps one after the other do what the system does. -/
theorem closes_subscribe (hs : s ∉ ω.system.subscriberIds)
    (hl : ω.system.loops s = .notStarted) :
    ∃ ω', Closes ω ω' ∧ ω'.disposing = ω.disposing ∧
      step ω.system (.subscribe s) = some (ω'.system, []) := by
  obtain ⟨ω₁, hω₁⟩ : ∃ ω₁ : ClosingSystem, ω₁ = { ω with
      system :=
        { ω.system with
          queue := ω.system.queue.addSubscriber s
          subscriberIds := s :: ω.system.subscriberIds }
      subscribing := Function.update ω.subscribing s .added } := ⟨_, rfl⟩
  have hadd : Closes ω ω₁ := Closes.single (a := .subscribe s) (by rw [closingStep, if_neg hs, hω₁])
  have hfresh : (ω₁.system.queue.cursors s).cancellation = {} := by
    rw [hω₁]
    exact SubscribableQueue.cancellation_addSubscriber_self
  obtain ⟨p, hcloses⟩ := closes_added (ω := ω₁) (by simp [hω₁]) hfresh
  refine ⟨_, hadd.trans hcloses, by rw [hω₁], ?_⟩
  have hstay : Function.update ω.system.loops s .notStarted = ω.system.loops := by
    rw [← hl, Function.update_eq_self]
  have hcts : (ω.system.queue.addSubscriber s).cts = ω.system.queue.cts := rfl
  have hcan := SubscribableQueue.cancellation_addSubscriber_self (q := ω.system.queue) (s := s)
  cases hd : ω.system.queue.cts.disposed <;>
    cases hc : ω.system.queue.cts.isCancellationRequested <;>
    simp [step, hs, hω₁, SubscribableQueue.startsLoop, hcts, CancellationTokenSource.token, hd, hc,
      hcan, hstay, System.moveLoop, bind, Except.bind, pure, Except.pure]

/-- **`Unsubscribe` in one piece.** -/
theorem closes_unsubscribe (ω : ClosingSystem) (s : Guid) :
    Closes ω { ω with
      system := { ω.system with queue := ω.system.queue.unsubscribe s } } := by
  by_cases hs : s ∈ ω.system.queue.subscribers
  · have hremove : Closes ω { ω with
        system :=
          { ω.system with
            queue :=
              { ω.system.queue with
                subscribers := ω.system.queue.subscribers.filter (· ≠ s) } }
        unsubscribing := s :: ω.unsubscribing } :=
      Closes.single (a := .removeSubscriber s) (by rw [closingStep, if_pos hs])
    refine hremove.trans (Closes.single (a := .cancelSubscriber s) ?_)
    rw [SubscribableQueue.unsubscribe_of_mem hs]
    cases hdis : (ω.system.queue.cursors s).cancellation.disposed <;>
      simp [closingStep, CancellationTokenSource.cancel, hdis, SubscribableQueue.cancellation,
        SubscribableQueue.setCancellation, SubscribableQueue.setCursor]
  · rw [SubscribableQueue.unsubscribe_of_notMem hs]
    exact Closes.refl ω

/-- What `Dispose` does to the cursors of its snapshot. -/
def SubscribableQueue.disposeCursors (q : SubscribableQueue) (l : List Guid) : SubscribableQueue :=
  { q with
    cursors := fun s =>
      if s ∈ l then { q.cursors s with cancellation := (q.cancellation s).cancelAndDispose }
      else q.cursors s }

/-- Disposing of the cursors one after the other. -/
theorem SubscribableQueue.disposeCursors_cons (q : SubscribableQueue) (s : Guid) (l : List Guid) :
    q.disposeCursors (s :: l) =
      (q.setCancellation s (q.cancellation s).cancelAndDispose).disposeCursors l := by
  simp only [disposeCursors, setCancellation, setCursor, SubscribableQueue.mk.injEq, true_and,
    and_true]
  funext s'
  rcases eq_or_ne s' s with rfl | hne
  · -- a cursor that comes twice is left alone the second time
    have htwice := CancellationTokenSource.cancelAndDispose_of_disposed
      (CancellationTokenSource.disposed_cancelAndDispose (q.cursors s').cancellation)
    by_cases hmem : s' ∈ l <;> simp [cancellation, hmem, htwice]
  · simp [cancellation, hne]

/-- The `foreach` of `Dispose`. -/
theorem closes_closing (ω : ClosingSystem) (l : List Guid) (hd : ω.disposing = .closing l) :
    Closes ω { ω with
      system := { ω.system with queue := ω.system.queue.disposeCursors l }
      disposing := .returned } := by
  induction l generalizing ω with
  | nil =>
    refine Closes.single (a := .dispose) ?_
    simp [closingStep, disposeStep, hd, SubscribableQueue.disposeCursors]
  | cons s l ih =>
    have hnext : Closes ω { ω with
        system :=
          { ω.system with
            queue := ω.system.queue.setCancellation s
              (ω.system.queue.cancellation s).cancelAndDispose }
        disposing := .closing l } := by
      cases hdis : (ω.system.queue.cursors s).cancellation.disposed with
      | true =>
        refine Closes.single (a := .dispose) ?_
        simp [closingStep, disposeStep, hd, CancellationTokenSource.cancel,
          CancellationTokenSource.cancelAndDispose, hdis, SubscribableQueue.setCancellation,
          SubscribableQueue.setCursor]
      | false =>
        have hcancel : Closes ω { ω with
            system :=
              { ω.system with
                queue := ω.system.queue.setCancellation s
                  { ω.system.queue.cancellation s with isCancellationRequested := true } }
            disposing := .closingCursor s l } :=
          Closes.single (a := .dispose)
            (by simp [closingStep, disposeStep, hd, CancellationTokenSource.cancel, hdis])
        refine hcancel.trans (Closes.single (a := .dispose) ?_)
        simp [closingStep, disposeStep, CancellationTokenSource.cancel,
          CancellationTokenSource.cancelAndDispose, hdis, SubscribableQueue.cancellation,
          SubscribableQueue.setCancellation, SubscribableQueue.setCursor]
    rw [SubscribableQueue.disposeCursors_cons]
    exact hnext.trans (ih _ rfl)

/-- **`Dispose` in one piece.** -/
theorem closes_dispose (ω : ClosingSystem) (hd : ω.disposing = .notCalled) :
    Closes ω { ω with
      system := { ω.system with queue := ω.system.queue.dispose }
      disposing := .returned } := by
  have hqueue : Closes ω { ω with
      system :=
        { ω.system with
          queue := { ω.system.queue with cts := ω.system.queue.cts.cancelAndDispose } }
      disposing := .disposedQueue } := by
    cases hdis : ω.system.queue.cts.disposed with
    | true =>
      refine Closes.single (a := .dispose) ?_
      simp [closingStep, disposeStep, hd, CancellationTokenSource.cancel,
        CancellationTokenSource.cancelAndDispose, hdis]
    | false =>
      have hcancel : Closes ω { ω with
          system :=
            { ω.system with
              queue :=
                { ω.system.queue with
                  cts := { ω.system.queue.cts with isCancellationRequested := true } } }
          disposing := .cancelledQueue } :=
        Closes.single (a := .dispose)
          (by simp [closingStep, disposeStep, hd, CancellationTokenSource.cancel, hdis])
      refine hcancel.trans (Closes.single (a := .dispose) ?_)
      simp [closingStep, disposeStep, CancellationTokenSource.cancel,
        CancellationTokenSource.cancelAndDispose, hdis]
  refine (hqueue.trans (Closes.single (a := .dispose) rfl)).trans ?_
  exact closes_closing _ _ rfl

/-- What the system does in one transition the closing system does in one or more. -/
theorem exists_closing_run {σ' : System} {a : Action} {evs : List Event}
    (hw : ω.system.WellFormed) (hd : a = .dispose → ω.disposing = .notCalled)
    (hs : step ω.system a = some (σ', evs)) :
    ∃ cont ω', Run closingStep ω cont ω' ∧ ω'.system = σ' ∧ events cont = evs ∧
      (a ≠ .dispose → ω'.disposing = ω.disposing) := by
  cases ha : a.opensOrCloses with
  | false =>
    have hstep : closingStep ω (.system a) = some ({ ω with system := σ' }, evs) := by
      simp [closingStep, ha, hs]
    exact ⟨_, _, Run.single hstep, rfl, by simp, fun _ => rfl⟩
  | true =>
    cases a with
    | subscribe s =>
      have hnew : s ∉ ω.system.subscriberIds := by
        intro hmem
        simp [step, hmem] at hs
      obtain ⟨ω', ⟨cont, hcont, hnil⟩, hdis', hstep⟩ :=
        closes_subscribe hnew (hw.unknown_idle s hnew)
      obtain ⟨rfl, rfl⟩ : σ' = ω'.system ∧ evs = [] := by
        rw [hs] at hstep
        simpa using hstep
      exact ⟨cont, ω', hcont, rfl, hnil, fun _ => hdis'⟩
    | unsubscribe s =>
      obtain ⟨cont, hcont, hnil⟩ := closes_unsubscribe ω s
      obtain ⟨rfl, rfl⟩ := by simpa [step] using hs
      exact ⟨cont, _, hcont, rfl, hnil, fun _ => rfl⟩
    | dispose =>
      obtain ⟨cont, hcont, hnil⟩ := closes_dispose ω (hd rfl)
      obtain ⟨rfl, rfl⟩ := by simpa [step] using hs
      exact ⟨cont, _, hcont, rfl, hnil, fun hne => absurd rfl hne⟩
    | _ => simp [Action.opensOrCloses] at ha

/-- **The closing system does whatever the system does**, in runs with at most one `Dispose`. -/
theorem closing_simulates {ttl : TimeSpan} {n : ℕ} {tr : Trace} {σ : System}
    (h : RunOf ttl n tr σ) (honce : (tr.map (·.act)).count .dispose ≤ 1) :
    ∃ tr' ω, Run closingStep (.init ttl n) tr' ω ∧ ω.system = σ ∧ events tr' = events tr := by
  suffices hmain : ∃ tr' ω, Run closingStep (.init ttl n) tr' ω ∧ ω.system = σ ∧
      events tr' = events tr ∧
      ((tr.map (·.act)).count .dispose = 0 → ω.disposing = .notCalled) by
    obtain ⟨tr', ω, hrun, hsys, hevs, -⟩ := hmain
    exact ⟨tr', ω, hrun, hsys, hevs⟩
  refine h.invariant (I := fun tr σ => (tr.map (·.act)).count .dispose ≤ 1 →
    ∃ tr' ω, Run closingStep (.init ttl n) tr' ω ∧ ω.system = σ ∧ events tr' = events tr ∧
      ((tr.map (·.act)).count .dispose = 0 → ω.disposing = .notCalled)) ?_ ?_ honce
  · exact fun _ => ⟨[], _, Run.nil, rfl, rfl, fun _ => rfl⟩
  · intro tr σ a evs σ' hrun hi hs honce
    rw [List.map_append, List.count_append] at honce
    obtain ⟨tr', ω, hrun', rfl, hevs, hdis⟩ := hi (le_trans (Nat.le_add_right _ _) honce)
    -- a `Dispose` is the first one
    have hd : a = .dispose → ω.disposing = .notCalled := by
      rintro rfl
      refine hdis ?_
      simp at honce
      omega
    obtain ⟨cont, ω', hcont, hsys, hevs', hdis'⟩ :=
      exists_closing_run (wellFormed_of_run hrun) hd hs
    refine ⟨tr' ++ cont, ω', hrun'.append hcont, hsys, by simp [hevs, hevs'], fun h0 => ?_⟩
    rw [List.map_append, List.count_append] at h0
    have hne : a ≠ .dispose := by
      rintro rfl
      simp at h0
    rw [hdis' hne, hdis (by omega)]

end Atomic

end PushDeliveredQueue
