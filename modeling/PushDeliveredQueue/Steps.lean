import PushDeliveredQueue.System

/-!
# What a transition can do

The two inversion lemmas the rest of the development rests on. A property of the system
is never proved by unfolding `PushDeliveredQueue.step`: `PushDeliveredQueue.effect_of_step`
says once and for all what a transition can do, each case with the guards it has passed,
and `PushDeliveredQueue.loopEffect_of_dispatchStep` says it of the dispatch loop, which has
most of the cases. Both are stated as inductive relations, so that a proof over them is
one `cases` with a name for every case.
-/

namespace PushDeliveredQueue

open Transitions

/-! ### The dispatch loop -/

section Loop

variable (q : SubscribableQueue) (s : Guid)

/-- What a dispatch loop can do on its own: the phase it leaves, the queue and the phase
it leads to, and the events. -/
inductive LoopEffect :
    DispatchPhase → SubscribableQueue → DispatchPhase → List Event → Prop
  /-- The cursor's source has been disposed: reading its token throws. -/
  | checkThrows (h : (q.cancellation s).disposed = true) : LoopEffect .checking q .faulted []
  | checkStops (h : (q.cancellation s).isCancellationRequested = true) :
      LoopEffect .checking q .ended []
  | checkPasses (hd : (q.cancellation s).disposed = false)
      (hc : (q.cancellation s).isCancellationRequested = false) :
      LoopEffect .checking q .reading []
  /-- The read of a negative position throws. -/
  | readThrows (h : (q.cursors s).index < 0) : LoopEffect .reading q .faulted []
  | readNothing (h : (q.buffer.length : ℤ) ≤ (q.cursors s).index) :
      LoopEffect .reading q .backoff [.dispatchRead s none]
  | read {m : MessageEnvelope} (h0 : 0 ≤ (q.cursors s).index)
      (h : q.buffer[(q.cursors s).index.toNat]? = some m) :
      LoopEffect .reading q (.attempting m 0) [.dispatchRead s (some m)]
  | delayThrows (h : (q.cancellation s).disposed = true ∨
      (q.cancellation s).isCancellationRequested = true) : LoopEffect .backoff q .faulted []
  | delayEnds : LoopEffect .backoff q .checking []
  /-- The cursor's source has been disposed: the attempt fails before the call. -/
  | attemptThrows {m : MessageEnvelope} {k : ℕ} (h : (q.cancellation s).disposed = true) :
      LoopEffect (.attempting m k) q
        (afterAttempt q.retryCount m k (.error .objectDisposed)) []
  | attempt {m : MessageEnvelope} {k : ℕ} (h : (q.cancellation s).disposed = false) :
      LoopEffect (.attempting m k) q (.receiving m k)
        [.receiveCalled s .dispatch m (q.payloads m.id)]
  /-- The queue's source has been disposed: `OnFailedAsync` throws. -/
  | failedThrows {m : MessageEnvelope} {e : Option Exception} (h : q.cts.disposed = true) :
      LoopEffect (.failed m e) q .faulted []
  | failed {m : MessageEnvelope} {e : Option Exception} (h : q.cts.disposed = false) :
      LoopEffect (.failed m e) q (.deciding m) [.failedCalled s .dispatch m e]
  | manualRetryThrows {m : MessageEnvelope} {b : Bool} (h : q.cts.disposed = true) :
      LoopEffect (.manualRetry m b) q .faulted []
  | manualRetry {m : MessageEnvelope} {b : Bool} (h : q.cts.disposed = false) :
      LoopEffect (.manualRetry m b) q (.retrying m b)
        [.receiveCalled s .manualRetry m (q.payloads m.id)]
  | addToDlq {m : MessageEnvelope} (h : s ∈ q.subscribers) :
      LoopEffect (.deadLettering m) (q.addToDeadLetterQueue s m) (.committing m)
        [.addedToDlq s m]
  | addToDlqMisses {m : MessageEnvelope} (h : s ∉ q.subscribers) :
      LoopEffect (.deadLettering m) q (.committing m) []
  | commit {m : MessageEnvelope} (h : s ∈ q.subscribers) :
      LoopEffect (.committing m) (q.commit s) .checking [.committed s m]
  | commitMisses {m : MessageEnvelope} (h : s ∉ q.subscribers) :
      LoopEffect (.committing m) q .checking [.commitMissed s m]

variable {q s}

theorem SubscribableQueue.next_eq_error {c : CursorState} {e : Exception}
    (h : q.next c = .error e) : c.index < 0 := by
  by_contra hcon
  rw [SubscribableQueue.next, if_pos (not_lt.mp hcon)] at h
  split at h <;> simp at h

theorem SubscribableQueue.next_eq_none {c : CursorState} (h : q.next c = .ok none) :
    (q.buffer.length : ℤ) ≤ c.index := by
  by_contra hcon
  rw [SubscribableQueue.next, if_pos (not_le.mp hcon)] at h
  split at h
  · simp only [Except.ok.injEq, List.getElem?_eq_none_iff] at h
    omega
  · simp at h

theorem SubscribableQueue.next_eq_some {c : CursorState} {m : MessageEnvelope}
    (h : q.next c = .ok (some m)) : 0 ≤ c.index ∧ q.buffer[c.index.toNat]? = some m := by
  rw [SubscribableQueue.next] at h
  split at h
  · split at h
    · rename_i h0
      exact ⟨h0, by simpa using h⟩
    · simp at h
  · simp at h

/-- **Every step of a dispatch loop is one of these.** -/
theorem loopEffect_of_dispatchStep {q' : SubscribableQueue} {p p' : DispatchPhase}
    {evs : List Event} (h : dispatchStep q s p = some (q', p', evs)) :
    LoopEffect q s p q' p' evs := by
  cases p with
  | checking =>
    simp only [dispatchStep] at h
    split at h <;> rename_i htok <;> obtain ⟨rfl, rfl, rfl⟩ := by simpa using h
    · exact .checkThrows (CancellationTokenSource.token_eq_error.mp htok).1
    · exact .checkStops (CancellationTokenSource.token_eq_ok.mp htok).2
    · exact .checkPasses (CancellationTokenSource.token_eq_ok.mp htok).1
        (CancellationTokenSource.token_eq_ok.mp htok).2
  | reading =>
    simp only [dispatchStep] at h
    split at h <;> rename_i hnext <;> obtain ⟨rfl, rfl, rfl⟩ := by simpa using h
    · exact .readThrows (SubscribableQueue.next_eq_error hnext)
    · exact .readNothing (SubscribableQueue.next_eq_none hnext)
    · exact .read (SubscribableQueue.next_eq_some hnext).1 (SubscribableQueue.next_eq_some hnext).2
  | backoff =>
    simp only [dispatchStep] at h
    split at h <;> rename_i htok <;> obtain ⟨rfl, rfl, rfl⟩ := by simpa using h
    · exact .delayThrows (Or.inl (CancellationTokenSource.token_eq_error.mp htok).1)
    · exact .delayThrows (Or.inr (CancellationTokenSource.token_eq_ok.mp htok).2)
    · exact .delayEnds
  | attempting m k =>
    simp only [dispatchStep] at h
    split at h <;> rename_i htok
    · obtain ⟨hd, rfl⟩ := CancellationTokenSource.token_eq_error.mp htok
      obtain ⟨rfl, rfl, rfl⟩ := by simpa using h
      exact .attemptThrows hd
    · obtain ⟨rfl, rfl, rfl⟩ := by simpa using h
      exact .attempt (CancellationTokenSource.token_eq_ok.mp htok).1
  | failed m e =>
    simp only [dispatchStep] at h
    split at h <;> rename_i htok <;> obtain ⟨rfl, rfl, rfl⟩ := by simpa using h
    · exact .failedThrows (CancellationTokenSource.token_eq_error.mp htok).1
    · exact .failed (CancellationTokenSource.token_eq_ok.mp htok).1
  | manualRetry m b =>
    simp only [dispatchStep] at h
    split at h <;> rename_i htok <;> obtain ⟨rfl, rfl, rfl⟩ := by simpa using h
    · exact .manualRetryThrows (CancellationTokenSource.token_eq_error.mp htok).1
    · exact .manualRetry (CancellationTokenSource.token_eq_ok.mp htok).1
  | deadLettering m =>
    by_cases hs : s ∈ q.subscribers
    · obtain ⟨rfl, rfl, rfl⟩ := by simpa [dispatchStep, hs] using h
      exact .addToDlq hs
    · rw [dispatchStep, SubscribableQueue.addToDeadLetterQueue_of_notMem hs] at h
      obtain ⟨rfl, rfl, rfl⟩ := by simpa [hs] using h
      exact .addToDlqMisses hs
  | committing m =>
    by_cases hs : s ∈ q.subscribers
    · obtain ⟨rfl, rfl, rfl⟩ := by simpa [dispatchStep, hs] using h
      exact .commit hs
    · rw [dispatchStep, SubscribableQueue.commit_of_notMem hs] at h
      obtain ⟨rfl, rfl, rfl⟩ := by simpa [hs] using h
      exact .commitMisses hs
  | notStarted | receiving _ _ | deciding _ | retrying _ _ | ended | faulted =>
    simp [dispatchStep] at h

end Loop

/-! ### `ReplayFrom` -/

/-- **An accepted `ReplayFrom`**: the subscriber is registered, has committed what it was
given, has nothing left in the buffer but possibly the message at its cursor, and the
message asked for is the first of its `Id` in the buffer. -/
theorem SubscribableQueue.replayFrom_eq_replayedFrom {q q' : SubscribableQueue}
    {s messageId : Guid} {i : ℕ} (h : q.replayFrom s messageId = (q', .replayedFrom i)) :
    s ∈ q.subscribers ∧ 0 ≤ (q.cursors s).index ∧ (q.cursors s).isCommitted = true ∧
      (q.buffer.length : ℤ) ≤ (q.cursors s).index + 1 ∧
      q.buffer.findIdx? (·.id = messageId) = some i ∧
      q' = q.setCursor s { q.cursors s with index := i, isCommitted := false } := by
  by_cases hs : s ∈ q.subscribers
  · simp only [replayFrom, tryGetValue, if_pos hs] at h
    split at h
    · simp at h
    · split at h
      · simp at h
      · split at h
        · simp at h
        · split at h
          · rename_i hneg hcom hmid _ _ hidx
            obtain ⟨rfl, rfl⟩ := by simpa using h
            exact ⟨hs, not_lt.mp hneg, by simpa using hcom, not_lt.mp hmid, hidx, rfl⟩
          · simp at h
  · simp [replayFrom, tryGetValue, hs] at h

/-- A refused `ReplayFrom` changes nothing. -/
theorem SubscribableQueue.replayFrom_of_refused {q q' : SubscribableQueue} {s messageId : Guid}
    {o : ReplayFromOutcome} (h : q.replayFrom s messageId = (q', o))
    (ho : ∀ i, o ≠ .replayedFrom i) : q' = q := by
  unfold replayFrom at h
  repeat' split at h
  all_goals obtain ⟨rfl, rfl⟩ := by simpa using h
  all_goals first | rfl | exact absurd rfl (ho _)

/-! ### The system -/

/-- **What a transition of the system can do**: the action taken, the state entered and
the events emitted. -/
inductive Effect (σ : System) : Action → System → List Event → Prop
  | enqueue {messageId : Guid} {utcNow : DateTime} {payload : Payload}
      (h : messageId ∉ σ.messageIds) :
      Effect σ (.enqueue messageId utcNow payload)
        { σ with
          queue := σ.queue.enqueue messageId utcNow payload
          messageIds := messageId :: σ.messageIds } [.enqueued ⟨messageId, utcNow⟩]
  | changeMessagePayload (messageId : Guid) (payload : Payload) :
      Effect σ (.changeMessagePayload messageId payload)
        { σ with queue := σ.queue.changeMessagePayload messageId payload } []
  | beginPrune (utcNow : DateTime) (passes : List DateTime) :
      Effect σ (.beginPrune utcNow) { σ with passes := passes } []
  | prune {pass : ℕ} {cutoff : DateTime} (h : σ.passes[pass]? = some cutoff) :
      Effect σ (.prune pass)
        { σ with
          queue := σ.queue.pruneExpiredMessages cutoff
          passes := σ.passes.eraseIdx pass } [.pruned (σ.queue.expired cutoff)]
  | subscribe {s : Guid} (h : s ∉ σ.subscriberIds) {p : DispatchPhase}
      (hp : p = .checking ∧ σ.queue.cts.disposed = false ∨
        p = .notStarted ∧ (σ.queue.cts.disposed = true ∨
          σ.queue.cts.isCancellationRequested = true)) :
      Effect σ (.subscribe s)
        { σ with
          queue := σ.queue.addSubscriber s
          subscriberIds := s :: σ.subscriberIds
          loops := Function.update σ.loops s p } []
  | unsubscribe (s : Guid) :
      Effect σ (.unsubscribe s) { σ with queue := σ.queue.unsubscribe s } []
  | dispose : Effect σ .dispose { σ with queue := σ.queue.dispose } []
  | dispatch {s : Guid} {q : SubscribableQueue} {p p' : DispatchPhase} {evs : List Event}
      (hp : σ.loops s = p) (h : LoopEffect σ.queue s p q p' evs) :
      Effect σ (.dispatch s) (σ.moveLoop s q p') evs
  | received {s : Guid} {m : MessageEnvelope} {k : ℕ} (h : σ.loops s = .receiving m k)
      (r : ReceiveResult) :
      Effect σ (.received s r) (σ.moveLoop s σ.queue (afterAttempt σ.queue.retryCount m k r))
        [.receiveReturned s .dispatch m r]
  | retried {s : Guid} {m : MessageEnvelope} {b : Bool} (h : σ.loops s = .retrying m b)
      (r : ReceiveResult) :
      Effect σ (.received s r) (σ.moveLoop s σ.queue (afterManualRetry m b r))
        [.receiveReturned s .manualRetry m r]
  | failedHandled {s : Guid} {m : MessageEnvelope} (h : σ.loops s = .deciding m)
      (r : FailedResult) :
      Effect σ (.failedHandled s r) (σ.moveLoop s σ.queue (afterFailedHandler m r))
        [.failedReturned s .dispatch m r]
  | replayFrom {s messageId : Guid} {q : SubscribableQueue} {i : ℕ}
      (h : σ.queue.replayFrom s messageId = (q, .replayedFrom i)) :
      Effect σ (.replayFrom s messageId) { σ with queue := q } [.replayedFrom s messageId i]
  | replayFromRefused (s messageId : Guid) : Effect σ (.replayFrom s messageId) σ []
  | replayFromDlq (s messageId : Guid) :
      Effect σ (.replayFromDlq s messageId)
        (σ.startReplay s (replayFromDlq σ.queue s messageId)).1
        (σ.startReplay s (replayFromDlq σ.queue s messageId)).2
  | replayAllDlqMessages (s : Guid) :
      Effect σ (.replayAllDlqMessages s)
        (σ.startReplay s (replayAllDlqMessages σ.queue s)).1
        (σ.startReplay s (replayAllDlqMessages σ.queue s)).2
  | replayAllDlqSubscribers :
      Effect σ .replayAllDlqSubscribers
        { σ with
          replays := fun s =>
            if s ∈ σ.queue.subscribers then σ.replays s ++ [.scheduled] else σ.replays s } []
  | runScheduled {s : Guid} {call : ℕ} (h : (σ.replays s)[call]? = some .scheduled) :
      Effect σ (.runScheduled s call)
        (σ.moveReplay s call σ.queue (replayAllDlqMessages σ.queue s))
        (replayCalls σ.queue s call (replayAllDlqMessages σ.queue s))
  | replayAcked {s : Guid} {call : ℕ} {kind : ReplayKind} {m : MessageEnvelope}
      {dlq : List MessageEnvelope} (h : (σ.replays s)[call]? = some (.receiving kind m))
      (hdlq : dlq = removeAll (σ.queue.cursors s).deadLetterQueue m.id) :
      Effect σ (.replayReceived s call (.ok .ack))
        (σ.moveReplay s call (σ.queue.setDeadLetterQueue s dlq) (afterSuccess dlq kind))
        (.receiveReturned s (.replay call) m (.ok .ack) ::
          replayCalls σ.queue s call (afterSuccess dlq kind))
  | replayNotAcked {s : Guid} {call : ℕ} {kind : ReplayKind} {m : MessageEnvelope}
      {r : ReceiveResult} (h : (σ.replays s)[call]? = some (.receiving kind m))
      (hr : r ≠ .ok .ack) :
      Effect σ (.replayReceived s call r) (σ.moveReplay s call σ.queue (.failing kind m))
        [.receiveReturned s (.replay call) m r,
          .failedCalled s (.replay call) m (exceptionOf r)]
  | replayThrew {s : Guid} {call : ℕ} {kind : ReplayKind} {m : MessageEnvelope}
      (h : (σ.replays s)[call]? = some (.failing kind m)) (e : Exception) :
      Effect σ (.replayFailedHandled s call (.error e)) (σ.moveReplay s call σ.queue .threw)
        [.failedReturned s (.replay call) m (.error e)]
  | replayFailed {s : Guid} {call : ℕ} {kind : ReplayKind} {m : MessageEnvelope}
      (h : (σ.replays s)[call]? = some (.failing kind m)) (b : PostMessageFailedBehavior) :
      Effect σ (.replayFailedHandled s call (.ok b))
        (σ.moveReplay s call σ.queue
          (afterFailure (σ.queue.cursors s).deadLetterQueue kind))
        (.failedReturned s (.replay call) m (.ok b) ::
          replayCalls σ.queue s call (afterFailure (σ.queue.cursors s).deadLetterQueue kind))

theorem SubscribableQueue.startsLoop_addSubscriber (q : SubscribableQueue) (s : Guid) :
    (q.addSubscriber s).startsLoop s = .ok true ↔
      q.cts.disposed = false ∧ q.cts.isCancellationRequested = false := by
  cases hd : q.cts.disposed <;> cases hc : q.cts.isCancellationRequested <;>
    simp [startsLoop, addSubscriber, CancellationTokenSource.token, hd, hc, bind, Except.bind,
      pure, Except.pure]

section Returns

variable {σ : System} {q : SubscribableQueue} {s : Guid} {call : ℕ} {evs : List Event}

/-- A call of `OnMessageReceiveAsync` comes back to a dispatch loop. -/
theorem effect_of_received {p : DispatchPhase} {r : ReceiveResult}
    (h : received s σ.queue.retryCount (σ.loops s) r = some (p, evs)) :
    Effect σ (.received s r) (σ.moveLoop s σ.queue p) evs := by
  unfold received at h
  split at h
  · rename_i hp
    obtain ⟨rfl, rfl⟩ := by simpa using h
    exact .received hp _
  · rename_i hp
    obtain ⟨rfl, rfl⟩ := by simpa using h
    exact .retried hp _
  · simp at h

/-- The call of `OnMessageFailedHandlerAsync` comes back to a dispatch loop. -/
theorem effect_of_failedHandled {p : DispatchPhase} {r : FailedResult}
    (h : failedHandled s (σ.loops s) r = some (p, evs)) :
    Effect σ (.failedHandled s r) (σ.moveLoop s σ.queue p) evs := by
  unfold failedHandled at h
  split at h
  · rename_i hp
    obtain ⟨rfl, rfl⟩ := by simpa using h
    exact .failedHandled hp _
  · simp at h

/-- A call of `OnMessageReceiveAsync` comes back to a replay. -/
theorem effect_of_replayReceived {p p' : ReplayPhase} {r : ReceiveResult}
    (hp : (σ.replays s)[call]? = some p)
    (h : replayReceived σ.queue s call p r = some (q, p', evs)) :
    Effect σ (.replayReceived s call r) (σ.moveReplay s call q p') evs := by
  unfold replayReceived at h
  split at h
  · split at h
    · rename_i hr
      obtain ⟨rfl, rfl, rfl⟩ := by simpa using h
      exact hr ▸ .replayAcked hp rfl
    · rename_i hr
      obtain ⟨rfl, rfl, rfl⟩ := by simpa using h
      exact .replayNotAcked hp hr
  · simp at h

/-- The call of `OnMessageFailedHandlerAsync` comes back to a replay. -/
theorem effect_of_replayFailedHandled {p p' : ReplayPhase} {r : FailedResult}
    (hp : (σ.replays s)[call]? = some p)
    (h : replayFailedHandled σ.queue s call p r = some (p', evs)) :
    Effect σ (.replayFailedHandled s call r) (σ.moveReplay s call σ.queue p') evs := by
  unfold replayFailedHandled at h
  split at h
  · obtain ⟨rfl, rfl⟩ := by simpa using h
    exact .replayThrew hp _
  · obtain ⟨rfl, rfl⟩ := by simpa using h
    exact .replayFailed hp _
  · simp at h

end Returns

/-- **Every transition of the system is one of these.** -/
theorem effect_of_step {σ σ' : System} {a : Action} {evs : List Event}
    (h : step σ a = some (σ', evs)) : Effect σ a σ' evs := by
  cases a with
  | enqueue messageId utcNow payload =>
    simp only [step] at h
    split at h
    · simp at h
    · rename_i hid
      obtain ⟨rfl, rfl⟩ := by simpa using h
      exact .enqueue hid
  | changeMessagePayload messageId payload =>
    obtain ⟨rfl, rfl⟩ := by simpa [step] using h
    exact .changeMessagePayload messageId payload
  | beginPrune utcNow =>
    simp only [step] at h
    split at h <;> obtain ⟨rfl, rfl⟩ := by simpa using h
    · exact .beginPrune utcNow _
    · exact .beginPrune utcNow σ.passes
  | prune pass =>
    simp only [step] at h
    split at h
    · rename_i cutoff hpass
      obtain ⟨rfl, rfl⟩ := by simpa using h
      exact .prune hpass
    · simp at h
  | subscribe s =>
    simp only [step] at h
    split at h
    · simp at h
    · rename_i hs
      obtain ⟨rfl, rfl⟩ := by simpa using h
      refine .subscribe hs ?_
      by_cases hstart : (σ.queue.addSubscriber s).startsLoop s = .ok true
      · rw [if_pos hstart]
        exact Or.inl ⟨rfl, ((σ.queue.startsLoop_addSubscriber s).mp hstart).1⟩
      · rw [if_neg hstart]
        rw [σ.queue.startsLoop_addSubscriber s, not_and_or] at hstart
        exact Or.inr ⟨rfl, by simpa using hstart⟩
  | unsubscribe s =>
    obtain ⟨rfl, rfl⟩ := by simpa [step] using h
    exact .unsubscribe s
  | dispose =>
    obtain ⟨rfl, rfl⟩ := by simpa [step] using h
    exact .dispose
  | dispatch s =>
    simp only [step] at h
    split at h
    · rename_i hstep
      obtain ⟨rfl, rfl⟩ := by simpa using h
      exact .dispatch rfl (loopEffect_of_dispatchStep hstep)
    · simp at h
  | received s r =>
    simp only [step] at h
    split at h
    · rename_i hrec
      obtain ⟨rfl, rfl⟩ := by simpa using h
      exact effect_of_received hrec
    · simp at h
  | failedHandled s r =>
    simp only [step] at h
    split at h
    · rename_i hfailed
      obtain ⟨rfl, rfl⟩ := by simpa using h
      exact effect_of_failedHandled hfailed
    · simp at h
  | replayFrom s messageId =>
    simp only [step] at h
    rcases hr : σ.queue.replayFrom s messageId with ⟨q, o⟩
    rw [hr] at h
    by_cases ho : ∃ i, o = .replayedFrom i
    · obtain ⟨i, rfl⟩ := ho
      obtain ⟨rfl, rfl⟩ := by simpa using h
      exact .replayFrom hr
    · have hq : q = σ.queue :=
        SubscribableQueue.replayFrom_of_refused hr fun i hi => ho ⟨i, hi⟩
      have hevs : replayFromEvents s messageId o = [] := by
        cases o <;> first | rfl | exact absurd ⟨_, rfl⟩ ho
      obtain ⟨rfl, rfl⟩ := by simpa [hq, hevs] using h
      exact .replayFromRefused s messageId
  | replayFromDlq s messageId =>
    obtain ⟨rfl, rfl⟩ := by simpa [step] using h
    exact .replayFromDlq s messageId
  | replayAllDlqMessages s =>
    obtain ⟨rfl, rfl⟩ := by simpa [step] using h
    exact .replayAllDlqMessages s
  | replayAllDlqSubscribers =>
    obtain ⟨rfl, rfl⟩ := by simpa [step] using h
    exact .replayAllDlqSubscribers
  | runScheduled s call =>
    simp only [step] at h
    split at h
    · rename_i hp
      obtain ⟨rfl, rfl⟩ := by simpa using h
      exact .runScheduled hp
    · simp at h
  | replayReceived s call r =>
    simp only [step] at h
    split at h
    · rename_i hp
      split at h
      · rename_i hrec
        obtain ⟨rfl, rfl⟩ := by simpa using h
        exact effect_of_replayReceived hp hrec
      · simp at h
    · simp at h
  | replayFailedHandled s call r =>
    simp only [step] at h
    split at h
    · rename_i hp
      split at h
      · rename_i hfailed
        obtain ⟨rfl, rfl⟩ := by simpa using h
        exact effect_of_replayFailedHandled hp hfailed
      · simp at h
    · simp at h

/-- Only `ReplayFrom` replays a cursor. -/
theorem Effect.of_replayedFrom {σ σ' : System} {a : Action} {evs : List Event}
    {s messageId : Guid} {i : ℕ} (h : Effect σ a σ' evs)
    (hmem : .replayedFrom s messageId i ∈ evs) : a = .replayFrom s messageId := by
  have hcalls : ∀ q s' call p, Event.replayedFrom s messageId i ∉ replayCalls q s' call p := by
    intro q s' call p
    cases p <;> simp [replayCalls]
  cases h with
  | dispatch _ hl => cases hl <;> simp at hmem
  | replayFrom _ =>
    obtain ⟨rfl, rfl, -⟩ := by simpa using hmem
    rfl
  | replayFromDlq _ _ | replayAllDlqMessages _ | runScheduled _ =>
    exact absurd hmem (hcalls _ _ _ _)
  | replayAcked _ _ | replayFailed _ _ =>
    exact absurd (List.mem_of_ne_of_mem (by simp) hmem) (hcalls _ _ _ _)
  | _ => simp at hmem

end PushDeliveredQueue
