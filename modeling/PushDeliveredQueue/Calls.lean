import PushDeliveredQueue.Lifecycle
import PushDeliveredQueue.State

/-!
# Calls that throw

The synchronous calls of the public interface, each with how it ends
(`PushDeliveredQueue.Call.run`); the transition function of the system has their effects only
(`PushDeliveredQueue.step_of_call`).

Two of them can throw. `Subscribe` refuses a null handler before it does anything. But it
registers its cursor before it reads the token of the queue, and `Unsubscribe` takes the cursor
out of the dictionary before it cancels it; once the sources have been disposed of, either fails
half-way, and so does `Unsubscribe` where a callback that a handler has registered on its token
throws (`PushDeliveredQueue.failed_call_unchanged_iff`). The `Guid` of the cursor that such a
`Subscribe` leaves behind is never returned.
-/

namespace PushDeliveredQueue

open Transitions

/-! ### The calls and how they end -/

/-- What a call can throw. -/
inductive CallException where
  /-- `ArgumentNullException`. -/
  | argumentNull
  /-- `AggregateException`: what callbacks registered on a token have thrown. -/
  | aggregate
  /-- What .NET raises in the course of the call. -/
  | raised (e : Exception)
  deriving DecidableEq

/-- The argument of `Subscribe`: null, or a handler. -/
inductive HandlerReference where
  | null
  | notNull
  deriving DecidableEq

/-- How `Cancel` ends, if a callback registered on the token throws or not. The callbacks are called
once, when the source is cancelled for the first time. -/
def CancellationTokenSource.cancelResult (c : CancellationTokenSource) (callbackThrows : Bool) :
    Except CallException Unit :=
  match c.cancel with
  | .error e => .error (.raised e)
  | .ok _ =>
    if callbackThrows = true ∧ c.isCancellationRequested = false then .error .aggregate
    else .ok ()

namespace SubscribableQueue

/-- `Subscribe`, with the `Guid` it takes. -/
def subscribe (q : SubscribableQueue) (handler : HandlerReference) (subscriberId : Guid) :
    SubscribableQueue × Except CallException Guid :=
  match handler with
  | .null => (q, .error .argumentNull)
  | .notNull =>
    let q' := q.addSubscriber subscriberId
    match q'.startsLoop subscriberId with
    | .error e => (q', .error (.raised e))
    | .ok _ => (q', .ok subscriberId)

/-- How `Unsubscribe` ends, if a callback registered on the token of the cursor throws or not. -/
def unsubscribeResult (q : SubscribableQueue) (subscriberId : Guid) (callbackThrows : Bool) :
    Except CallException Unit :=
  match q.tryGetValue subscriberId with
  | none => .ok ()
  | some cursor => cursor.cancellation.cancelResult callbackThrows

end SubscribableQueue

/-- The synchronous calls, with the `Guid`s and the clock readings they take, and whether callbacks
that they call throw. -/
inductive Call where
  | enqueue (messageId : Guid) (utcNow : DateTime) (payload : Payload)
  | subscribe (handler : HandlerReference) (subscriberId : Guid)
  | unsubscribe (subscriberId : Guid) (callbackThrows : Bool)
  | changeMessagePayload (messageId : Guid) (payload : Payload)
  | replayFrom (subscriberId messageId : Guid)
  deriving DecidableEq

namespace Call

/-- What a call does to the queue and how it ends: with an exception, or with the `Guid` that
`Enqueue` and `Subscribe` return. -/
def run (q : SubscribableQueue) : Call → SubscribableQueue × Except CallException (Option Guid)
  | .enqueue messageId utcNow payload => (q.enqueue messageId utcNow payload, .ok (some messageId))
  | .subscribe handler s => ((q.subscribe handler s).1, (q.subscribe handler s).2.map some)
  | .unsubscribe s callbackThrows =>
    (q.unsubscribe s, (q.unsubscribeResult s callbackThrows).map fun _ => none)
  | .changeMessagePayload messageId payload =>
    (q.changeMessagePayload messageId payload, .ok none)
  | .replayFrom s messageId => ((q.replayFrom s messageId).1, .ok none)

/-- The `Guid` a call takes has not been given out before. -/
def Fresh (σ : System) : Call → Prop
  | .enqueue messageId _ _ => messageId ∉ σ.messageIds
  | .subscribe _ s => s ∉ σ.subscriberIds
  | .unsubscribe _ _ | .changeMessagePayload _ _ | .replayFrom _ _ => True

/-- The `Guid` that `Subscribe` takes is no key of the dictionary. -/
def NewTo (q : SubscribableQueue) : Call → Prop
  | .subscribe _ s => s ∉ q.subscribers
  | .enqueue _ _ _ | .unsubscribe _ _ | .changeMessagePayload _ _ | .replayFrom _ _ => True

/-- The action of the system a call is. One that is refused its handler is none. -/
def action : Call → Option Action
  | .enqueue messageId utcNow payload => some (.enqueue messageId utcNow payload)
  | .subscribe .null _ => none
  | .subscribe .notNull s => some (.subscribe s)
  | .unsubscribe s _ => some (.unsubscribe s)
  | .changeMessagePayload messageId payload => some (.changeMessagePayload messageId payload)
  | .replayFrom s messageId => some (.replayFrom s messageId)

/-- **The call throws after it has changed something**: the token of the queue cannot be read any
more, or the source of the cursor cannot be cancelled, or can, and a callback throws. -/
def ThrowsLate (q : SubscribableQueue) : Call → Prop
  | .subscribe .notNull _ => q.cts.disposed = true
  | .unsubscribe s callbackThrows =>
    s ∈ q.subscribers ∧ ((q.cancellation s).disposed = true ∨
      callbackThrows = true ∧ (q.cancellation s).isCancellationRequested = false)
  | .enqueue _ _ _ | .subscribe .null _ | .changeMessagePayload _ _ | .replayFrom _ _ => False

end Call

/-- The buffer, the set of subscribers, and of every subscriber the index, the commit flag and
the dead letter queue are as they were. -/
structure Unchanged (q q' : SubscribableQueue) : Prop where
  buffer : q'.copyBuffer = q.copyBuffer
  subscribers : ∀ s, s ∈ q'.subscribers ↔ s ∈ q.subscribers
  index : ∀ s ∈ q.subscribers, (q'.cursors s).index = (q.cursors s).index
  isCommitted : ∀ s ∈ q.subscribers, (q'.cursors s).isCommitted = (q.cursors s).isCommitted
  deadLetterQueue : ∀ s ∈ q.subscribers,
    (q'.cursors s).deadLetterQueue.map q'.copyEnvelope =
      (q.cursors s).deadLetterQueue.map q.copyEnvelope

theorem Unchanged.refl (q : SubscribableQueue) : Unchanged q q :=
  ⟨rfl, fun _ => Iff.rfl, fun _ _ => rfl, fun _ _ => rfl, fun _ _ => rfl⟩

/-! ### Calls and actions -/

section Calls

variable {ttl : TimeSpan} {n : ℕ} {tr : Trace} {σ σ' : System} {q : SubscribableQueue} {s : Guid}
  {c : Call} {e : CallException}

/-- **A call is an action of the system**, or it does nothing. -/
theorem step_of_call (hc : c.Fresh σ) :
    c.action = none ∧ (c.run σ.queue).1 = σ.queue ∨
      ∃ a σ' evs, c.action = some a ∧ step σ a = some (σ', evs) ∧
        σ'.queue = (c.run σ.queue).1 := by
  cases c with
  | enqueue messageId utcNow payload => exact Or.inr ⟨_, _, _, rfl, if_neg hc, rfl⟩
  | subscribe handler s =>
    cases handler with
    | null => exact Or.inl ⟨rfl, rfl⟩
    | notNull =>
      refine Or.inr ⟨_, _, _, rfl, if_neg hc, ?_⟩
      simp only [Call.run, SubscribableQueue.subscribe]
      split <;> rfl
  | unsubscribe s _ => exact Or.inr ⟨_, _, _, rfl, rfl, rfl⟩
  | changeMessagePayload messageId payload => exact Or.inr ⟨_, _, _, rfl, rfl, rfl⟩
  | replayFrom s messageId => exact Or.inr ⟨_, _, _, rfl, rfl, rfl⟩

/-- The state a call leaves behind is reachable, also when the call throws. -/
theorem exists_runOf_call (h : RunOf ttl n tr σ) (hc : c.Fresh σ) :
    ∃ tr' σ', RunOf ttl n tr' σ' ∧ σ'.queue = (c.run σ.queue).1 := by
  rcases step_of_call hc with ⟨-, hq⟩ | ⟨a, σ', evs, -, hstep, hq⟩
  · exact ⟨tr, σ, h, hq.symm⟩
  · exact ⟨_, σ', h.snoc hstep, hq⟩

/-! ### Which calls throw -/

theorem SubscribableQueue.startsLoop_addSubscriber_eq_error {e : Exception} :
    (q.addSubscriber s).startsLoop s = .error e ↔
      q.cts.disposed = true ∧ e = .objectDisposed := by
  cases hd : q.cts.disposed <;>
    simp [startsLoop, addSubscriber, CancellationTokenSource.token, hd, bind, Except.bind, pure,
      Except.pure, eq_comm]

/-- `Subscribe` throws when it has no handler, and when the queue has been disposed of. -/
theorem SubscribableQueue.subscribe_eq_error {handler : HandlerReference} :
    (q.subscribe handler s).2 = .error e ↔
      handler = .null ∧ e = .argumentNull ∨
        handler = .notNull ∧ q.cts.disposed = true ∧ e = .raised .objectDisposed := by
  cases handler with
  | null =>
    show Except.error CallException.argumentNull = .error e ↔ _
    simp [@eq_comm _ e]
  | notNull =>
    rcases hstart : (q.addSubscriber s).startsLoop s with e' | b
    · obtain ⟨hd, rfl⟩ := startsLoop_addSubscriber_eq_error.mp hstart
      simp [subscribe, hstart, hd, @eq_comm _ e]
    · have hd : ¬ q.cts.disposed = true := by
        intro hd
        have hthrows := startsLoop_addSubscriber_eq_error (s := s).mpr ⟨hd, rfl⟩
        simp [hstart] at hthrows
      simp [subscribe, hstart, hd]

/-- `Cancel` throws when the source has been disposed of, and when a callback does. -/
theorem CancellationTokenSource.exists_cancelResult_eq_error {c : CancellationTokenSource}
    {callbackThrows : Bool} : (∃ e, c.cancelResult callbackThrows = .error e) ↔
      c.disposed = true ∨ callbackThrows = true ∧ c.isCancellationRequested = false := by
  cases hd : c.disposed with
  | true => simp [cancelResult, cancel, hd]
  | false =>
    by_cases hthrows : callbackThrows = true ∧ c.isCancellationRequested = false <;>
      simp [cancelResult, cancel, hd, hthrows]

/-- `Unsubscribe` throws when it finds a cursor that cannot be cancelled without an exception. -/
theorem SubscribableQueue.exists_unsubscribeResult_eq_error {callbackThrows : Bool} :
    (∃ e, q.unsubscribeResult s callbackThrows = .error e) ↔
      s ∈ q.subscribers ∧ ((q.cancellation s).disposed = true ∨
        callbackThrows = true ∧ (q.cancellation s).isCancellationRequested = false) := by
  by_cases hs : s ∈ q.subscribers
  · simp only [unsubscribeResult, tryGetValue, hs, true_and]
    exact CancellationTokenSource.exists_cancelResult_eq_error
  · simp [unsubscribeResult, tryGetValue, hs]

/-- **Which calls throw**: those that are refused, and those that fail half-way. -/
theorem Call.exists_error_iff :
    (∃ e, (c.run q).2 = .error e) ↔ (∃ s, c = .subscribe .null s) ∨ c.ThrowsLate q := by
  have hmap : ∀ {α β : Type} (f : α → β) (r : Except CallException α),
      (∃ e, r.map f = .error e) ↔ ∃ e, r = .error e := by
    rintro α β f (e | a) <;> simp [Except.map]
  cases c with
  | enqueue _ _ _ | changeMessagePayload _ _ | replayFrom _ _ => simp [run, ThrowsLate]
  | subscribe handler s =>
    simp only [run, hmap, SubscribableQueue.subscribe_eq_error]
    cases handler <;> simp [ThrowsLate]
  | unsubscribe s _ =>
    simp only [run, hmap, SubscribableQueue.exists_unsubscribeResult_eq_error]
    simp [ThrowsLate]

/-! #### What has been disposed of -/

/-- A transition disposes of a source only if it is `Dispose` and finds the subscriber
registered. -/
theorem Effect.disposed_iff {a : Action} {evs : List Event} (h : Effect σ a σ' evs)
    (hknown : (σ.queue.cancellation s).disposed = true → s ∈ σ.subscriberIds) :
    (σ'.queue.cancellation s).disposed = true ↔
      (σ.queue.cancellation s).disposed = true ∨ a = .dispose ∧ s ∈ σ.queue.subscribers := by
  cases h.lifecycleStep with
  | @subscribe s' hs' _ _ =>
    rcases eq_or_ne s s' with rfl | hne
    · have hnot : ¬ (σ.queue.cancellation s).disposed = true := fun hd => hs' (hknown hd)
      simp [SubscribableQueue.cancellation, SubscribableQueue.addSubscriber] at hnot ⊢
      exact hnot
    · simp [SubscribableQueue.cancellation, SubscribableQueue.addSubscriber, hne]
  | unsubscribe s' =>
    rcases σ.queue.cancellation_unsubscribe s' s with h | ⟨-, h⟩ <;> simp [h]
  | dispose =>
    rw [SubscribableQueue.cancellation_dispose]
    by_cases hs : s ∈ σ.queue.subscribers <;> simp [hs]
  | same hsame =>
    rw [hsame.cancellation]
    refine ⟨Or.inl, fun hd => hd.elim id ?_⟩
    rintro ⟨rfl, hs⟩
    cases h with
    | dispose =>
      have hc := hsame.cancellation s
      simp only [SubscribableQueue.cancellation_dispose, if_pos hs] at hc
      rw [← hc]
      exact CancellationTokenSource.disposed_cancelAndDispose _

/-- A source that has been disposed of belongs to a `Guid` that has been given out. -/
theorem Effect.disposed_known {a : Action} {evs : List Event} (h : Effect σ a σ' evs)
    (hw : σ.WellFormed) (hknown : (σ.queue.cancellation s).disposed = true → s ∈ σ.subscriberIds)
    (hd : (σ'.queue.cancellation s).disposed = true) : s ∈ σ'.subscriberIds := by
  rcases (h.disposed_iff hknown).mp hd with hd | ⟨rfl, hs⟩
  · exact (h.cancelled (hknown hd) (hw.disposed_cancelled s hd)).1
  · cases h with
    | dispose => exact hw.registered_known s hs

/-- **What has been disposed of**: the queue once there has been a `Dispose`, and whoever was
registered at one. -/
theorem disposed_iff_of_run (h : RunOf ttl n tr σ) :
    (σ.queue.cts.disposed = true ↔ ∃ t ∈ tr, t.act = .dispose) ∧
      ∀ s, (σ.queue.cancellation s).disposed = true ↔
        ∃ t ∈ tr, t.act = .dispose ∧ s ∈ t.pre.queue.subscribers := by
  suffices hmain : (∀ s, (σ.queue.cancellation s).disposed = true → s ∈ σ.subscriberIds) ∧
      (σ.queue.cts.disposed = true ↔ ∃ t ∈ tr, t.act = .dispose) ∧
      ∀ s, (σ.queue.cancellation s).disposed = true ↔
        ∃ t ∈ tr, t.act = .dispose ∧ s ∈ t.pre.queue.subscribers from hmain.2
  refine h.invariant (I := fun tr σ =>
    (∀ s, (σ.queue.cancellation s).disposed = true → s ∈ σ.subscriberIds) ∧
      (σ.queue.cts.disposed = true ↔ ∃ t ∈ tr, t.act = .dispose) ∧
      ∀ s, (σ.queue.cancellation s).disposed = true ↔
        ∃ t ∈ tr, t.act = .dispose ∧ s ∈ t.pre.queue.subscribers) ?_ ?_
  · simp [System.init, SubscribableQueue.cancellation]
  · rintro tr σ a evs σ' hrun ⟨hknown, hcts, hcursor⟩ hs
    have heff := effect_of_step hs
    refine ⟨fun s => heff.disposed_known (wellFormed_of_run hrun) (hknown s), ?_, fun s => ?_⟩
    · have hstep : σ'.queue.cts.disposed = true ↔ σ.queue.cts.disposed = true ∨ a = .dispose := by
        by_cases ha : a = .dispose
        · subst ha
          cases heff with
          | dispose => simp [SubscribableQueue.dispose]
        · simp [heff.cts_of_ne_dispose ha, ha]
      rw [hstep, hcts]
      simp only [List.mem_append, List.mem_singleton, or_and_right, exists_or, exists_eq_left]
    · rw [heff.disposed_iff (hknown s), hcursor]
      simp only [List.mem_append, List.mem_singleton, or_and_right, exists_or, exists_eq_left]

/-- **When a call fails half-way**, by what has happened before: after a `Dispose`, a
`Subscribe`; the `Unsubscribe` of somebody who was registered at one, and still is; and one that
calls a callback that throws. -/
theorem Call.throwsLate_iff (h : RunOf ttl n tr σ) :
    c.ThrowsLate σ.queue ↔ (∃ t ∈ tr, t.act = .dispose ∧
      ((∃ s, c = .subscribe .notNull s) ∨
        ∃ s ∈ t.pre.queue.subscribers, s ∈ σ.queue.subscribers ∧ ∃ b, c = .unsubscribe s b)) ∨
      ∃ s ∈ σ.queue.subscribers, c = .unsubscribe s true ∧
        (σ.queue.cancellation s).isCancellationRequested = false := by
  obtain ⟨hcts, hcursor⟩ := disposed_iff_of_run h
  cases c with
  | enqueue _ _ _ | changeMessagePayload _ _ | replayFrom _ _ => simp [ThrowsLate]
  | subscribe handler s => cases handler <;> simp [ThrowsLate, hcts]
  | unsubscribe s b =>
    simp only [ThrowsLate, hcursor]
    constructor
    · rintro ⟨hreg, ⟨t, ht, hdis, hthen⟩ | ⟨rfl, hc⟩⟩
      · exact Or.inl ⟨t, ht, hdis, Or.inr ⟨s, hthen, hreg, b, rfl⟩⟩
      · exact Or.inr ⟨s, hreg, rfl, hc⟩
    · rintro (⟨t, ht, hdis, ⟨s', hc⟩ | ⟨s', hthen, hreg, b', hc⟩⟩ | ⟨s', hreg, hc, hlive⟩)
      · cases hc
      · cases hc
        exact ⟨hreg, Or.inl ⟨t, ht, hdis, hthen⟩⟩
      · cases hc
        exact ⟨hreg, Or.inr ⟨rfl, hlive⟩⟩

/-- A `Guid` that has not been given out before is no key of the dictionary. -/
theorem Call.Fresh.newTo (h : RunOf ttl n tr σ) (hc : c.Fresh σ) : c.NewTo σ.queue := by
  cases c with
  | subscribe _ s => exact mt ((wellFormed_of_run h).registered_known s) hc
  | enqueue _ _ _ | unsubscribe _ _ | changeMessagePayload _ _ | replayFrom _ _ => trivial

/-- A call that fails half-way has changed the set of subscribers. -/
theorem Call.ThrowsLate.not_unchanged (h : c.ThrowsLate q) (hc : c.NewTo q) :
    ¬ Unchanged q (c.run q).1 := by
  intro hsame
  cases c with
  | subscribe handler s =>
    cases handler with
    | null => exact h
    | notNull =>
      -- the new cursor is registered, and was not before
      refine hc ((hsame.subscribers s).mp ?_)
      simp only [run, SubscribableQueue.subscribe]
      split <;> exact List.mem_cons_self
  | unsubscribe s _ =>
    have hleft := (hsame.subscribers s).mpr h.1
    exact (SubscribableQueue.mem_subscribers_unsubscribe.mp hleft).2 rfl
  | enqueue _ _ _ | changeMessagePayload _ _ | replayFrom _ _ => exact h

/-- **A call that throws leaves everything as it was, unless it fails half-way**: unless it
subscribes a handler to a queue that has been disposed of, or unsubscribes somebody whose source
has been disposed of, or on whose token a callback throws. This holds in every state of the queue,
so also in those that callbacks have left behind that threw out of a `Dispose`. -/
theorem failed_call_unchanged_iff (hc : c.NewTo q) :
    (∀ e, (c.run q).2 = .error e → Unchanged q (c.run q).1) ↔ ¬ c.ThrowsLate q := by
  constructor
  · intro hsame hlate
    obtain ⟨e, he⟩ := Call.exists_error_iff.mpr (Or.inr hlate)
    exact hlate.not_unchanged hc (hsame e he)
  · intro hlate e he
    obtain ⟨s, rfl⟩ := (Call.exists_error_iff.mp ⟨e, he⟩).resolve_right hlate
    exact Unchanged.refl _

/-- The theorem after a `Dispose`, at a call that throws and leaves everything as it was. -/
theorem failed_call_unchanged_refused : ∃ tr σ, RunOf 5 0 tr σ ∧ σ.queue.cts.disposed = true ∧
    ((Call.subscribe .null 8).run σ.queue).2 = .error .argumentNull ∧
    Unchanged σ.queue ((Call.subscribe .null 8).run σ.queue).1 := by
  have hrun := runOf_exec 5 0 [.subscribe 7, .enqueue 1 10 none, .dispose] (by decide)
  refine ⟨_, _, hrun, by decide, by decide, ?_⟩
  refine (failed_call_unchanged_iff (Call.Fresh.newTo hrun (c := .subscribe .null 8) ?_)).mpr id _
    rfl
  show 8 ∉ System.subscriberIds _
  decide

/-- After `Dispose`, `Unsubscribe` throws and the subscriber is gone. -/
theorem failed_call_changes : ¬ ∀ (ttl : TimeSpan) (n : ℕ) (tr : Trace) (σ : System) (c : Call),
    RunOf ttl n tr σ → c.Fresh σ → ∀ e, (c.run σ.queue).2 = .error e →
      Unchanged σ.queue (c.run σ.queue).1 := by
  intro hclaim
  have hrun := runOf_exec 5 0 [.subscribe 7, .dispose] (by decide)
  have hsame := hclaim 5 0 _ _ (.unsubscribe 7 false) hrun trivial (.raised .objectDisposed)
    (by decide)
  exact absurd ((hsame.subscribers 7).mpr (by decide)) (by decide)

end Calls

end PushDeliveredQueue
