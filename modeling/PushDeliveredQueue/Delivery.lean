import PushDeliveredQueue.DeadLetters
import PushDeliveredQueue.ReplayFrom

/-!
# One delivery

What a dispatch loop does between the read of a message and the end of its delivery: whom it
calls (`PushDeliveredQueue.LoopNote`), what it adds to the dead letter queue and whether it
commits. `PushDeliveredQueue.Delivery` says which of these a delivery that has got to a phase
has done, and `PushDeliveredQueue.LoopStep.delivery` that every step of the loop keeps to it.

* **The effect of a delivery** is the one the failure behaviours promise, exactly as long as
  the extra attempt of the two `RetryOnce` behaviours does not throw
  (`PushDeliveredQueue.delivery_exact_iff`).
* **Only failed messages are dead-lettered**, exactly as long as that attempt, whose result
  nobody looks at, does not succeed (`PushDeliveredQueue.dead_letters_failed_iff`).
-/

namespace PushDeliveredQueue

open Transitions

/-! ### What a loop does, as its events tell -/

/-- Whether a call is made by the dispatch loop, itself or through its retry policy. -/
def Caller.ofLoop : Caller → Bool
  | .dispatch | .manualRetry => true
  | .replay _ => false

/-- A dealing of a dispatch loop with the handler of its subscriber. -/
inductive LoopNote where
  | called (caller : Caller) (message : MessageEnvelope)
  | returned (caller : Caller) (message : MessageEnvelope) (result : ReceiveResult)
  | failedCalled (message : MessageEnvelope) (exception : Option Exception)
  | failedReturned (message : MessageEnvelope) (result : FailedResult)
  deriving DecidableEq

/-- What an event tells of the dealings of a subscriber's loop. -/
def Event.loopNote (s : Guid) : Event → Option LoopNote
  | .receiveCalled s' caller m _ => if s' = s ∧ caller.ofLoop then some (.called caller m) else none
  | .receiveReturned s' caller m r =>
    if s' = s ∧ caller.ofLoop then some (.returned caller m r) else none
  | .failedCalled s' caller m e =>
    if s' = s ∧ caller.ofLoop then some (.failedCalled m e) else none
  | .failedReturned s' caller m r =>
    if s' = s ∧ caller.ofLoop then some (.failedReturned m r) else none
  | .enqueued _ | .pruned _ | .replayedFrom .. | .dispatchRead .. | .addedToDlq .. | .committed ..
  | .commitMissed .. => none

/-- The dealings of a subscriber's loop, in order. -/
def loopNotes (s : Guid) (evs : List Event) : List LoopNote := evs.filterMap (Event.loopNote s)

/-- The messages added to the dead letter queue of a subscriber, in order. -/
def addedOf (s : Guid) (evs : List Event) : List MessageEnvelope :=
  evs.filterMap fun
    | .addedToDlq s' m => if s' = s then some m else none
    | _ => none

@[simp] theorem loopNotes_append (s : Guid) (evs evs' : List Event) :
    loopNotes s (evs ++ evs') = loopNotes s evs ++ loopNotes s evs' :=
  List.filterMap_append

@[simp] theorem addedOf_append (s : Guid) (evs evs' : List Event) :
    addedOf s (evs ++ evs') = addedOf s evs ++ addedOf s evs' :=
  List.filterMap_append

@[simp] theorem loopNotes_nil (s : Guid) : loopNotes s [] = [] := rfl

@[simp] theorem addedOf_nil (s : Guid) : addedOf s [] = [] := rfl

theorem mem_addedOf {s : Guid} {m : MessageEnvelope} {evs : List Event} :
    m ∈ addedOf s evs ↔ .addedToDlq s m ∈ evs := by
  simp only [addedOf, List.mem_filterMap]
  constructor
  · rintro ⟨e, he, h⟩
    cases e <;> simp_all
  · exact fun h => ⟨_, h, by simp⟩

theorem loopNotes_singleton (s : Guid) (e : Event) : loopNotes s [e] = (e.loopNote s).toList := by
  cases h : e.loopNote s <;> simp [loopNotes, h]

section Silence

variable {s : Guid} {evs : List Event}

theorem Caller.ofLoop_iff {c : Caller} : c.ofLoop = true ↔ ∀ call, c ≠ .replay call := by
  cases c <;> simp [ofLoop]

theorem Event.loopNote_of_not_ofLoop {e : Event} (h : ¬ e.OfLoop s) : e.loopNote s = none := by
  cases e with
  | receiveCalled _ _ _ _ | receiveReturned _ _ _ _ | failedCalled _ _ _ _
  | failedReturned _ _ _ _ => exact if_neg fun hc => h ⟨hc.1, Caller.ofLoop_iff.mp hc.2⟩
  | _ => rfl

/-- Events none of which is the loop's tell nothing of it. -/
theorem filterMap_of_not_ofLoop {α : Type} {f : Event → Option α}
    (hf : ∀ e, ¬ e.OfLoop s → f e = none) (h : ∀ e ∈ evs, ¬ e.OfLoop s) :
    evs.filterMap f = [] :=
  List.filterMap_eq_nil_iff.mpr fun e he => hf e (h e he)

theorem loopNotes_of_not_ofLoop (h : ∀ e ∈ evs, ¬ e.OfLoop s) : loopNotes s evs = [] :=
  filterMap_of_not_ofLoop (fun _ => Event.loopNote_of_not_ofLoop) h

theorem addedOf_of_not_ofLoop (h : ∀ e ∈ evs, ¬ e.OfLoop s) : addedOf s evs = [] := by
  refine filterMap_of_not_ofLoop (fun e he => ?_) h
  cases e with
  | addedToDlq _ _ => exact if_neg he
  | _ => rfl

theorem committedOf_of_not_ofLoop (h : ∀ e ∈ evs, ¬ e.OfLoop s) : committedOf s evs = [] := by
  refine filterMap_of_not_ofLoop (fun e he => ?_) h
  cases e with
  | committed _ _ => exact if_neg he
  | _ => rfl

theorem mem_loopNotes_returned {caller : Caller} {m : MessageEnvelope} {r : ReceiveResult} :
    .returned caller m r ∈ loopNotes s evs ↔
      caller.ofLoop ∧ .receiveReturned s caller m r ∈ evs := by
  simp only [loopNotes, List.mem_filterMap]
  constructor
  · rintro ⟨e, he, h⟩
    cases e with
    | receiveReturned s' c m' r' =>
      obtain ⟨⟨rfl, hc⟩, rfl, rfl, rfl⟩ := by simpa [Event.loopNote] using h
      exact ⟨hc, he⟩
    | _ => simp [Event.loopNote] at h
  · rintro ⟨hc, h⟩
    exact ⟨_, h, by simp [Event.loopNote, hc]⟩

end Silence

/-! ### What has been done by which phase -/

/-- No attempt of these was acknowledged. -/
def NoAck (rs : List ReceiveResult) : Prop := ∀ r ∈ rs, r ≠ .ok .ack

/-- The retry policy makes attempts with these results, one after the other. -/
def policyCalls (m : MessageEnvelope) (rs : List ReceiveResult) : List LoopNote :=
  rs.flatMap fun r => [.called .dispatch m, .returned .dispatch m r]

@[simp] theorem policyCalls_append (m : MessageEnvelope) (rs rs' : List ReceiveResult) :
    policyCalls m (rs ++ rs') = policyCalls m rs ++ policyCalls m rs' := by
  simp [policyCalls]

/-- The policy has run out of attempts, and the failure handler is called with the exception of
the last one. -/
inductive Exhausted (n : ℕ) (m : MessageEnvelope) : List LoopNote → Prop
  | intro {rs : List ReceiveResult} {r : ReceiveResult} (hno : NoAck (rs ++ [r]))
      (hlen : rs.length = n) :
      Exhausted n m (policyCalls m (rs ++ [r]) ++ [.failedCalled m (exceptionOf r)])

/-- The behaviour that asks for one extra attempt. -/
def retryOnce (thenDLQ : Bool) : PostMessageFailedBehavior :=
  if thenDLQ then .retryOnceThenDLQ else .retryOnceThenCommit

/-- The failure handler decides on a commit, with or without a dead letter, and the extra
attempt it has asked for, if it has, does not throw. -/
inductive Decided (m : MessageEnvelope) : Bool → List LoopNote → Prop
  | commit : Decided m false [.failedReturned m (.ok .commit)]
  | addToDLQ : Decided m true [.failedReturned m (.ok .addToDLQ)]
  | retried (b : Bool) (r : DeliveryResult) :
      Decided m b [.failedReturned m (.ok (retryOnce b)), .called .manualRetry m,
        .returned .manualRetry m (.ok r)]

/-- **How a delivery can end**: its dealings with the handler, its dead letters and its
commits. -/
inductive Ended (n : ℕ) (m : MessageEnvelope) :
    List LoopNote → List MessageEnvelope → List MessageEnvelope → Prop
  | acked {rs : List ReceiveResult} (hno : NoAck rs) (hlen : rs.length ≤ n) :
      Ended n m (policyCalls m (rs ++ [.ok .ack])) [] [m]
  | decided {l l' : List LoopNote} {b : Bool} (h : Exhausted n m l) (h' : Decided m b l') :
      Ended n m (l ++ l') (if b then [m] else []) [m]
  | blocked {l : List LoopNote} (h : Exhausted n m l) :
      Ended n m (l ++ [.failedReturned m (.ok .block)]) [] []
  | handlerThrew {l : List LoopNote} (h : Exhausted n m l) (e : Exception) :
      Ended n m (l ++ [.failedReturned m (.error e)]) [] []
  | retryThrew {l : List LoopNote} (h : Exhausted n m l) (b : Bool) (e : Exception) :
      Ended n m (l ++ [.failedReturned m (.ok (retryOnce b)), .called .manualRetry m,
        .returned .manualRetry m (.error e)]) [] []

/-- **What the delivery of a message has done by the time the loop is at a phase**, the queue
not being disposed of and the subscriber not leaving meanwhile. -/
inductive Delivery (n : ℕ) (m : MessageEnvelope) :
    DispatchPhase → List LoopNote → List MessageEnvelope → List MessageEnvelope → Prop
  | attempting {rs : List ReceiveResult} {k : ℕ} (hno : NoAck rs) (hk : rs.length = k)
      (hlen : k ≤ n) : Delivery n m (.attempting m k) (policyCalls m rs) [] []
  | receiving {rs : List ReceiveResult} {k : ℕ} (hno : NoAck rs) (hk : rs.length = k)
      (hlen : k ≤ n) :
      Delivery n m (.receiving m k) (policyCalls m rs ++ [.called .dispatch m]) [] []
  | acked {rs : List ReceiveResult} (hno : NoAck rs) (hlen : rs.length ≤ n) :
      Delivery n m (.committing m) (policyCalls m (rs ++ [.ok .ack])) [] []
  | failed {rs : List ReceiveResult} {r : ReceiveResult} (hno : NoAck (rs ++ [r]))
      (hlen : rs.length = n) :
      Delivery n m (.failed m (exceptionOf r)) (policyCalls m (rs ++ [r])) [] []
  | deciding {l : List LoopNote} (h : Exhausted n m l) : Delivery n m (.deciding m) l [] []
  | manualRetry {l : List LoopNote} {b : Bool} (h : Exhausted n m l) :
      Delivery n m (.manualRetry m b) (l ++ [.failedReturned m (.ok (retryOnce b))]) [] []
  | retrying {l : List LoopNote} {b : Bool} (h : Exhausted n m l) :
      Delivery n m (.retrying m b)
        (l ++ [.failedReturned m (.ok (retryOnce b)), .called .manualRetry m]) [] []
  | deadLettering {l l' : List LoopNote} (h : Exhausted n m l) (h' : Decided m true l') :
      Delivery n m (.deadLettering m) (l ++ l') [] []
  | committing {l l' : List LoopNote} {b : Bool} (h : Exhausted n m l) (h' : Decided m b l') :
      Delivery n m (.committing m) (l ++ l') (if b then [m] else []) []
  | ended {p : DispatchPhase} {l : List LoopNote} {added commits : List MessageEnvelope}
      (hp : p.message = none) (h : Ended n m l added commits) : Delivery n m p l added commits

section Steps

variable {n : ℕ} {m : MessageEnvelope} {s : Guid} {σ σ' : System} {a : Action}
  {evs : List Event} {l : List LoopNote} {added commits : List MessageEnvelope}

theorem NoAck.snoc {rs : List ReceiveResult} {r : ReceiveResult} (h : NoAck rs)
    (hr : r ≠ .ok .ack) : NoAck (rs ++ [r]) := by
  intro x hx
  rcases List.mem_append.mp hx with hx | hx
  · exact h x hx
  · rwa [List.mem_singleton.mp hx]

/-- What the policy does with the result of an attempt. -/
theorem Delivery.afterAttempt {rs : List ReceiveResult} (hno : NoAck rs) (hlen : rs.length ≤ n)
    (r : ReceiveResult) :
    Delivery n m (afterAttempt n m rs.length r) (policyCalls m (rs ++ [r])) [] [] := by
  unfold PushDeliveredQueue.afterAttempt
  split_ifs with hr hlt
  · subst hr
    exact .acked hno hlen
  · exact .attempting (hno.snoc hr) (by simp) hlt
  · exact .failed (hno.snoc hr) (le_antisymm hlen (not_lt.mp hlt))

/-- A step of the loop in the middle of a delivery, of an undisposed queue. -/
theorem LoopEffect.delivery {q q' : SubscribableQueue} {p p' : DispatchPhase}
    (h : LoopEffect q s p q' p' evs) (hd : Delivery n m p l added commits)
    (hs : s ∈ q.subscribers) (hdis : (q.cancellation s).disposed = false)
    (hcts : q.cts.disposed = false) (hread : readsOf s evs = []) :
    Delivery n m p' (l ++ loopNotes s evs) (added ++ addedOf s evs)
      (commits ++ committedOf s evs) := by
  cases h with
  | checkThrows _ | checkStops _ | checkPasses _ _ | readThrows _ | readNothing _
  | delayThrows _ | delayEnds =>
    cases hd with
    | ended _ h =>
      simpa [loopNotes_singleton, Event.loopNote, addedOf, committedOf] using .ended rfl h
  | read _ _ => simp [readsOf] at hread
  | attemptThrows h => exact absurd (hdis.symm.trans h) (by simp)
  | attempt _ =>
    cases hd with
    | attempting hno hk hlen =>
      simpa [loopNotes_singleton, Event.loopNote, Caller.ofLoop, addedOf, committedOf] using
        .receiving hno hk hlen
    | ended hp _ => simp [DispatchPhase.message] at hp
  | failedThrows h | manualRetryThrows h => exact absurd (hcts.symm.trans h) (by simp)
  | failed _ =>
    cases hd with
    | failed hno hlen =>
      simpa [loopNotes_singleton, Event.loopNote, Caller.ofLoop, addedOf, committedOf] using
        Delivery.deciding (.intro hno hlen)
    | ended hp _ => simp [DispatchPhase.message] at hp
  | manualRetry _ =>
    cases hd with
    | manualRetry h =>
      simpa [loopNotes_singleton, Event.loopNote, Caller.ofLoop, addedOf, committedOf] using
        Delivery.retrying h
    | ended hp _ => simp [DispatchPhase.message] at hp
  | addToDlq _ =>
    cases hd with
    | deadLettering h h' =>
      simpa [loopNotes_singleton, Event.loopNote, addedOf, committedOf] using
        Delivery.committing h h'
    | ended hp _ => simp [DispatchPhase.message] at hp
  | addToDlqMisses h => exact absurd hs h
  | commit _ =>
    cases hd with
    | acked hno hlen =>
      simpa [loopNotes_singleton, Event.loopNote, addedOf, committedOf] using
        Delivery.ended rfl (.acked hno hlen)
    | committing h h' =>
      simpa [loopNotes_singleton, Event.loopNote, addedOf, committedOf] using
        Delivery.ended rfl (.decided h h')
    | ended hp _ => simp [DispatchPhase.message] at hp
  | commitMisses h => exact absurd hs h

/-- **Every transition keeps to what the delivery has to do**, if the subscriber stays
registered and the queue is not disposed of. -/
theorem LoopStep.delivery (h : LoopStep s σ a σ' evs)
    (hd : Delivery n m (σ.loops s) l added commits) (hids : s ∈ σ.subscriberIds)
    (hs : s ∈ σ.queue.subscribers) (hdis : (σ.queue.cancellation s).disposed = false)
    (hcts : σ.queue.cts.disposed = false) (hn : σ.queue.retryCount = n)
    (hread : readsOf s evs = []) :
    Delivery n m (σ'.loops s) (l ++ loopNotes s evs) (added ++ addedOf s evs)
      (commits ++ committedOf s evs) := by
  cases h with
  | stays _ hl hquiet =>
    rw [loopNotes_of_not_ofLoop hquiet, addedOf_of_not_ofLoop hquiet,
      committedOf_of_not_ofLoop hquiet, hl]
    simpa using hd
  | starts hnew _ => exact absurd hids hnew
  | dispatch h => exact h.delivery hd hs hdis hcts hread
  | @received _ m' k r h h' =>
    rw [h] at hd
    rw [h', hn]
    cases hd with
    | receiving hno hk hlen =>
      subst hk
      simpa [loopNotes_singleton, Event.loopNote, Caller.ofLoop, addedOf, committedOf,
        policyCalls] using Delivery.afterAttempt hno hlen r
    | ended hp _ => simp [DispatchPhase.message] at hp
  | @retried _ m' b r h h' =>
    rw [h] at hd
    rw [h']
    cases hd with
    | retrying hex =>
      rcases r with e | r
      · simpa [loopNotes_singleton, Event.loopNote, Caller.ofLoop, addedOf, committedOf] using
          Delivery.ended rfl (.retryThrew hex b e)
      · cases b with
        | true =>
          simpa [loopNotes_singleton, Event.loopNote, Caller.ofLoop, addedOf, committedOf,
            afterManualRetry] using Delivery.deadLettering hex (.retried true r)
        | false =>
          simpa [loopNotes_singleton, Event.loopNote, Caller.ofLoop, addedOf, committedOf,
            afterManualRetry] using Delivery.committing hex (.retried false r)
    | ended hp _ => simp [DispatchPhase.message] at hp
  | @failedHandled _ m' r h h' =>
    rw [h] at hd
    rw [h']
    have hnote : loopNotes s [.failedReturned s .dispatch m' r] = [.failedReturned m' r] := by
      simp [loopNotes_singleton, Event.loopNote, Caller.ofLoop]
    have hadded : addedOf s [.failedReturned s .dispatch m' r] = [] := by simp [addedOf]
    have hcommits : committedOf s [.failedReturned s .dispatch m' r] = [] := by
      simp [committedOf]
    rw [hnote, hadded, hcommits]
    cases hd with
    | deciding h =>
      rcases r with e | b
      · exact .ended rfl (.handlerThrew h e)
      · cases b with
        | retryOnceThenCommit => exact .manualRetry (b := false) h
        | retryOnceThenDLQ => exact .manualRetry (b := true) h
        | addToDLQ => exact .deadLettering h .addToDLQ
        | commit => exact .committing (b := false) h .commit
        | block => exact .ended rfl (.blocked h)
    | ended hp _ => simp [DispatchPhase.message] at hp

/-- A delivery that leaves the loop without a message has ended. -/
theorem Delivery.ended_of_message_none {p : DispatchPhase} (h : Delivery n m p l added commits)
    (hp : p.message = none) : Ended n m l added commits := by
  cases h with
  | ended _ h => exact h
  | _ => simp [DispatchPhase.message] at hp

/-- A read begins a delivery. -/
theorem Delivery.begin (n : ℕ) (m : MessageEnvelope) :
    Delivery n m (.attempting m 0) [] [] [] := by
  have hno : NoAck [] := by simp [NoAck]
  exact .attempting hno rfl (Nat.zero_le n)

end Steps

/-! ### What the state shows of it -/

section Cursor

variable {σ σ' : System} {a : Action} {evs : List Event} {s : Guid}

/-- The options are fixed when the queue is constructed. -/
theorem Effect.options (h : Effect σ a σ' evs) :
    σ'.queue.ttl = σ.queue.ttl ∧ σ'.queue.retryCount = σ.queue.retryCount := by
  cases h with
  | changeMessagePayload messageId payload =>
    simp only [SubscribableQueue.changeMessagePayload]
    split <;> exact ⟨rfl, rfl⟩
  | prune _ =>
    simp only [SubscribableQueue.pruneExpiredMessages]
    split <;> exact ⟨rfl, rfl⟩
  | unsubscribe s =>
    by_cases hs : s ∈ σ.queue.subscribers
    · rw [SubscribableQueue.unsubscribe_of_mem hs]
      exact ⟨rfl, rfl⟩
    · rw [SubscribableQueue.unsubscribe_of_notMem hs]
      exact ⟨rfl, rfl⟩
  | dispatch _ hl =>
    rcases hl.queue with rfl | ⟨c, -, rfl⟩ <;> exact ⟨rfl, rfl⟩
  | replayFrom h =>
    obtain ⟨-, -, -, -, -, rfl⟩ := SubscribableQueue.replayFrom_eq_replayedFrom h
    exact ⟨rfl, rfl⟩
  | _ => exact ⟨rfl, rfl⟩

theorem options_of_run {ttl : TimeSpan} {n : ℕ} {tr : Trace} (h : RunOf ttl n tr σ) :
    σ.queue.ttl = ttl ∧ σ.queue.retryCount = n := by
  refine h.stateInvariant (I := fun σ => σ.queue.ttl = ttl ∧ σ.queue.retryCount = n)
    ⟨rfl, rfl⟩ ?_
  intro σ a evs σ' hi hs
  obtain ⟨httl, hcount⟩ := (effect_of_step hs).options
  exact ⟨httl.trans hi.1, hcount.trans hi.2⟩

/-- How an event changes the commit flag of a subscriber's cursor. -/
def Event.flag (s : Guid) (flag : Bool) : Event → Bool
  | .committed s' _ => if s' = s then true else flag
  | .replayedFrom s' _ _ => if s' = s then false else flag
  | .enqueued _ | .pruned _ | .dispatchRead .. | .receiveCalled .. | .receiveReturned ..
  | .failedCalled .. | .failedReturned .. | .addedToDlq .. | .commitMissed .. => flag

theorem flag_replayCalls (q : SubscribableQueue) (s' : Guid) (call : ℕ) (p : ReplayPhase)
    (flag : Bool) : (replayCalls q s' call p).foldl (Event.flag s) flag = flag := by
  cases p <;> rfl

/-- Writing to another's cursor does not touch the flag. -/
theorem isCommitted_setCursor_of_ne {q : SubscribableQueue} {s' : Guid} (hne : s ≠ s')
    (c : CursorState) : ((q.setCursor s' c).cursors s).isCommitted = (q.cursors s).isCommitted :=
  congrArg _ (SubscribableQueue.cursors_setCursor_of_ne _ hne c)

/-- **Only `Commit` and an accepted `ReplayFrom` write the commit flag**, once the subscriber
has its cursor. -/
theorem Effect.isCommitted (h : Effect σ a σ' evs) (ha : a ≠ .subscribe s) :
    (σ'.queue.cursors s).isCommitted =
      evs.foldl (Event.flag s) (σ.queue.cursors s).isCommitted := by
  cases h with
  | changeMessagePayload _ _ => simp
  | prune _ =>
    simp only [SubscribableQueue.cursors_pruneExpiredMessages]
    split <;> rfl
  | @subscribe s' _ p _ =>
    have hne : s ≠ s' := fun he => ha (he ▸ rfl)
    simp [SubscribableQueue.addSubscriber, hne]
  | unsubscribe s' =>
    obtain ⟨c, hc⟩ := σ.queue.cursors_unsubscribe s' s
    simp only [hc, List.foldl_nil]
  | dispose =>
    obtain ⟨c, hc⟩ := σ.queue.cursors_dispose s
    simp only [hc, List.foldl_nil]
  | @dispatch s' q p p' _ _ hl =>
    cases hl with
    | addToDlq hs =>
      rw [SubscribableQueue.addToDeadLetterQueue_of_mem hs]
      rcases eq_or_ne s s' with rfl | hne
      · simp [System.moveLoop, Event.flag]
      · exact isCommitted_setCursor_of_ne hne _
    | commit hs =>
      rw [SubscribableQueue.commit_of_mem hs]
      rcases eq_or_ne s s' with rfl | hne
      · simp [System.moveLoop, Event.flag]
      · simpa [System.moveLoop, Event.flag, hne.symm] using isCommitted_setCursor_of_ne hne _
    | _ => rfl
  | @replayFrom s' messageId q i h =>
    obtain ⟨-, -, -, -, -, rfl⟩ := SubscribableQueue.replayFrom_eq_replayedFrom h
    rcases eq_or_ne s s' with rfl | hne
    · simp [Event.flag]
    · simpa [Event.flag, hne.symm] using isCommitted_setCursor_of_ne hne _
  | replayFromDlq _ _ | replayAllDlqMessages _ | runScheduled _ =>
    exact (flag_replayCalls _ _ _ _ _).symm
  | @replayAcked s' _ _ _ dlq _ _ =>
    refine Eq.trans ?_ (flag_replayCalls _ _ _ _ _).symm
    rcases eq_or_ne s s' with rfl | hne
    · simp [System.moveReplay, SubscribableQueue.setDeadLetterQueue, Event.flag]
    · exact isCommitted_setCursor_of_ne hne _
  | replayFailed _ _ => exact (flag_replayCalls _ _ _ _ _).symm
  | _ => rfl

/-- Without prune passes and replays the index counts the commits. -/
theorem CursorStep.index_eq {v v' : CursorView} (h : CursorStep s v evs v')
    (hs : v.standing ≠ .absent) (hprune : ∀ gone, .pruned gone ∉ evs)
    (hreplay : ∀ id i, .replayedFrom s id i ∉ evs) :
    v'.index = v.index + (committedOf s evs).length := by
  cases h with
  | enqueue m => simp [committedOf]
  | prune _ => exact absurd (List.mem_singleton.mpr rfl) (hprune _)
  | subscribe habs _ => exact absurd habs hs
  | replayFrom _ _ _ _ => exact absurd (List.mem_singleton.mpr rfl) (hreplay _ _)
  | commit _ _ => simp [committedOf]
  | release _ hq => simp [hq.committedOf_eq]
  | quiet hq => simp [hq.committedOf_eq]
  | _ => simp [committedOf]

theorem addedOf_eq_nil (h : ∀ m, .addedToDlq s m ∉ evs) : addedOf s evs = [] := by
  rw [addedOf, List.filterMap_eq_nil_iff]
  intro e he
  cases e with
  | addedToDlq s' m =>
    have hne : s' ≠ s := by
      rintro rfl
      exact h m he
    simp [hne]
  | _ => rfl

/-- Without acknowledged replays the dead letter queue grows by what is added. -/
theorem DlqStep.entries_eq {v w : DlqView} (h : DlqStep s v evs w) (hs : v.standing ≠ .absent)
    (hack : ∀ call m, .receiveReturned s (.replay call) m (.ok .ack) ∉ evs) :
    w.entries = v.entries ++ addedOf s evs := by
  by_cases hadd : ∃ m, .addedToDlq s m ∈ evs
  · obtain ⟨m, hm⟩ := hadd
    obtain ⟨-, rfl, rfl⟩ := h.addedToDlq hm
    simp [addedOf]
  · rw [addedOf_eq_nil fun m hm => hadd ⟨m, hm⟩, List.append_nil]
    cases h with
    | add _ => exact absurd ⟨_, List.mem_singleton.mpr rfl⟩ hadd
    | subscribe habs => exact absurd habs hs
    | acked _ _ _ => exact absurd (List.mem_cons_self ..) (hack _ _)
    | _ => rfl

end Cursor

/-! ### One iteration of the loop -/

/-- A transition in which nobody prunes or disposes of the queue, and nobody replays the cursor
of a subscriber or unsubscribes it. -/
structure Steady (s : Guid) (t : Transition System Action Event) : Prop where
  prunes : t.act.prunes = false
  replays : t.act.replays s = false
  unsubscribe : t.act ≠ .unsubscribe s
  dispose : t.act ≠ .dispose

section Stretch

variable {ttl : TimeSpan} {n : ℕ} {pre seg : Trace} {σ₀ σ₁ : System} {s : Guid}

/-- What a steady stretch of a run does to the cursor of a registered subscriber. -/
structure CursorChange (s : Guid) (σ₀ : System) (evs : List Event) (σ₁ : System) : Prop where
  registered : s ∈ σ₁.queue.subscribers
  index : (σ₁.queue.cursors s).index = (σ₀.queue.cursors s).index + (committedOf s evs).length
  isCommitted : (σ₁.queue.cursors s).isCommitted =
    if committedOf s evs = [] then (σ₀.queue.cursors s).isCommitted else true
  deadLetterQueue : (∀ call m, .receiveReturned s (.replay call) m (.ok .ack) ∉ evs) →
    (σ₁.queue.cursors s).deadLetterQueue = (σ₀.queue.cursors s).deadLetterQueue ++ addedOf s evs

/-- Without replays the commit flag is set by any commit. -/
theorem foldl_flag {evs : List Event} (hreplay : ∀ id i, .replayedFrom s id i ∉ evs)
    (flag : Bool) :
    evs.foldl (Event.flag s) flag = if committedOf s evs = [] then flag else true := by
  induction evs generalizing flag with
  | nil => rfl
  | cons e evs ih =>
    have hrest : ∀ id i, .replayedFrom s id i ∉ evs := fun id i hm =>
      hreplay id i (List.mem_cons_of_mem _ hm)
    rw [List.foldl_cons, ih hrest]
    cases e with
    | committed s' m =>
      rcases eq_or_ne s' s with rfl | hne
      · simp [committedOf, Event.flag]
      · simp [committedOf, Event.flag, hne]
    | replayedFrom s' id i =>
      have hne : s' ≠ s := by
        rintro rfl
        exact hreplay id i (List.mem_cons_self ..)
      simp [committedOf, Event.flag, hne]
    | _ => simp [committedOf, Event.flag]

theorem cursorChange_of_run (h₀ : RunOf ttl n pre σ₀) (h : Run step σ₀ seg σ₁)
    (hs : s ∈ σ₀.queue.subscribers) (hok : ∀ t ∈ seg, Steady s t) :
    CursorChange s σ₀ (events seg) σ₁ := by
  have hmain : σ₁.WellFormed ∧ CursorChange s σ₀ (events seg) σ₁ := by
    refine h.invariantOn (I := fun seg σ => σ.WellFormed ∧ CursorChange s σ₀ (events seg) σ)
      ⟨wellFormed_of_run h₀, hs, by simp [committedOf], by simp [committedOf], by simp⟩ ?_ hok
    rintro seg σ a evs σ' - ⟨hw, hreg, hindex, hflag, hdlq⟩ hstep ⟨hnp, hnr, hnu, -⟩
    have heff := effect_of_step hstep
    have hprune : ∀ gone, .pruned gone ∉ evs := fun gone hmem =>
      absurd (hnp.symm.trans (heff.of_pruned hmem)) (by simp)
    have hreplay : ∀ id i, .replayedFrom s id i ∉ evs := by
      intro id i hmem
      have hact : a = .replayFrom s id := heff.of_replayedFrom hmem
      simp [hact, Action.replays] at hnr
    have hstanding : σ.standing s ≠ .absent := by
      rw [System.standing_eq_registered.mpr hreg]
      simp
    have hsub : a ≠ .subscribe s := by
      rintro rfl
      generalize σ' = σ₂ at heff
      cases heff with
      | subscribe hnew _ => exact hnew (hw.registered_known s hreg)
    have hindex' := (heff.cursorStep hw s).index_eq hstanding hprune hreplay
    have hflag' := heff.isCommitted hsub
    rw [foldl_flag hreplay] at hflag'
    rw [events_append, events_cons, events_nil, List.append_nil]
    refine ⟨hw.of_effect heff, heff.registered hnu hreg, ?_, ?_, fun hack => ?_⟩
    · rw [committedOf_append, List.length_append, Int.natCast_add, ← Int.add_assoc, ← hindex]
      exact hindex'
    · rw [hflag', hflag, committedOf_append]
      by_cases hc : committedOf s evs = [] <;> simp [hc]
    · have hbefore := hdlq fun call m hm => hack call m (List.mem_append_left _ hm)
      have hadd := (heff.dlqStep hw s).entries_eq hstanding fun call m hm =>
        hack call m (List.mem_append_right _ hm)
      rw [addedOf_append, ← List.append_assoc, ← hbefore]
      exact hadd
  exact hmain.2

/-- A loop that is delivering nothing does nothing, until it reads a message. -/
theorem LoopStep.idle {σ σ' : System} {a : Action} {evs : List Event}
    (h : LoopStep s σ a σ' evs) (hids : s ∈ σ.subscriberIds) (hm : (σ.loops s).message = none) :
    (loopNotes s evs = [] ∧ addedOf s evs = [] ∧ committedOf s evs = []) ∧
      (readsOf s evs = [] ∧ (σ'.loops s).message = none ∨
        ∃ m, readsOf s evs = [m] ∧ σ'.loops s = .attempting m 0) := by
  cases h with
  | stays _ hl hquiet =>
    refine ⟨⟨loopNotes_of_not_ofLoop hquiet, addedOf_of_not_ofLoop hquiet,
      committedOf_of_not_ofLoop hquiet⟩, Or.inl ⟨?_, hl ▸ hm⟩⟩
    refine List.eq_nil_iff_forall_not_mem.mpr fun m hmem => ?_
    exact hquiet _ (mem_readsOf.mp hmem) rfl
  | starts hnew _ => exact absurd hids hnew
  | dispatch hle =>
    generalize σ.loops s = p, σ'.loops s = p', σ'.queue = q' at hm hle
    cases hle with
    | read _ _ =>
      exact ⟨⟨rfl, rfl, rfl⟩, Or.inr ⟨_, by simp [readsOf], rfl⟩⟩
    | checkThrows _ | checkStops _ | checkPasses _ _ | readThrows _ | delayThrows _ | delayEnds =>
      exact ⟨⟨rfl, rfl, rfl⟩, Or.inl ⟨rfl, rfl⟩⟩
    | readNothing _ => exact ⟨⟨rfl, rfl, rfl⟩, Or.inl ⟨by simp [readsOf], rfl⟩⟩
    | _ => simp [DispatchPhase.message] at hm
  | received h _ | retried h _ | failedHandled h _ => simp [h, DispatchPhase.message] at hm

/-- **An iteration of the dispatch loop** of a registered subscriber: a stretch of a run that
begins with the loop at its condition and ends with it delivering nothing again, in which it
reads one message and nothing disturbs it. -/
structure Iteration (n : ℕ) (s : Guid) (m : MessageEnvelope) (σ₀ : System) (seg : Trace)
    (σ₁ : System) : Prop where
  reachable : ∃ ttl pre, RunOf ttl n pre σ₀
  run : Run step σ₀ seg σ₁
  registered : s ∈ σ₀.queue.subscribers
  starts : σ₀.loops s = .checking
  steady : ∀ t ∈ seg, Steady s t
  reads : readsOf s (events seg) = [m]
  ends : (σ₁.loops s).message = none

/-- An iteration does not begin once the queue has been disposed of. -/
theorem Iteration.cts_disposed {m : MessageEnvelope} (h : Iteration n s m σ₀ seg σ₁) :
    σ₀.queue.cts.disposed = false := by
  by_contra hcon
  obtain ⟨ttl, pre, h₀⟩ := h.reachable
  have hw := wellFormed_of_run h₀
  -- the loop is cancelled, and reads nothing more
  have hstop : σ₀.Stopping s :=
    ⟨hw.registered_known s h.registered,
      hw.queue_disposed (by simpa using hcon) s (by simp [h.starts]), by simp [h.starts]⟩
  exact absurd (h.reads.symm.trans (hstop.reads_nil h.run)) (by simp)

/-- What has happened so far in an iteration of the loop. -/
structure SoFar (n : ℕ) (s : Guid) (evs : List Event) (σ : System) : Prop where
  unread : readsOf s evs = [] → (σ.loops s).message = none ∧ loopNotes s evs = [] ∧
    addedOf s evs = [] ∧ committedOf s evs = []
  read : ∀ m, readsOf s evs = [m] →
    Delivery n m (σ.loops s) (loopNotes s evs) (addedOf s evs) (committedOf s evs)

/-- **One transition keeps to the delivery of the iteration.** -/
theorem SoFar.step {evs evs' : List Event} {σ σ' : System} {a : Action}
    (h : SoFar n s evs σ) (hl : LoopStep s σ a σ' evs') (hids : s ∈ σ.subscriberIds)
    (hs : s ∈ σ.queue.subscribers) (hdis : (σ.queue.cancellation s).disposed = false)
    (hcts : σ.queue.cts.disposed = false) (hn : σ.queue.retryCount = n) :
    SoFar n s (evs ++ evs') σ' := by
  refine ⟨fun hnil => ?_, fun m hm => ?_⟩
  · obtain ⟨hnil, hnil'⟩ := List.append_eq_nil_iff.mp (readsOf_append s evs evs' ▸ hnil)
    obtain ⟨hmsg, hnotes, hadded, hcommits⟩ := h.unread hnil
    obtain ⟨⟨hnotes', hadded', hcommits'⟩, hnext⟩ := hl.idle hids hmsg
    refine ⟨(hnext.resolve_right ?_).2, by simp [hnotes, hnotes'], by simp [hadded, hadded'],
      by simp [hcommits, hcommits']⟩
    rintro ⟨m, hm, -⟩
    simp [hnil'] at hm
  · rw [readsOf_append] at hm
    rw [loopNotes_append, addedOf_append, committedOf_append]
    rcases List.append_eq_singleton_iff.mp hm with ⟨hnil, hm⟩ | ⟨hm, hnil⟩
    · -- the message is read now
      obtain ⟨hmsg, hnotes, hadded, hcommits⟩ := h.unread hnil
      obtain ⟨⟨hnotes', hadded', hcommits'⟩, hnext⟩ := hl.idle hids hmsg
      obtain ⟨m', hm', hl'⟩ := hnext.resolve_left fun h => by simp [h.1] at hm
      obtain rfl : m' = m := by simpa [hm'] using hm
      rw [hnotes, hadded, hcommits, hnotes', hadded', hcommits', hl']
      exact .begin n m'
    · exact hl.delivery (h.read m hm) hids hs hdis hcts hn hnil

/-- **An iteration does what a delivery does**, from the read of its message to the end. -/
theorem Iteration.ended {m : MessageEnvelope} (h : Iteration n s m σ₀ seg σ₁) :
    Ended n m (loopNotes s (events seg)) (addedOf s (events seg)) (committedOf s (events seg)) := by
  obtain ⟨ttl, pre, h₀⟩ := h.reachable
  have hmain : (σ₁.WellFormed ∧ s ∈ σ₁.queue.subscribers ∧ σ₁.queue.cts.disposed = false ∧
      σ₁.queue.retryCount = n) ∧ SoFar n s (events seg) σ₁ := by
    refine h.run.invariantOn (I := fun seg σ => (σ.WellFormed ∧ s ∈ σ.queue.subscribers ∧
      σ.queue.cts.disposed = false ∧ σ.queue.retryCount = n) ∧ SoFar n s (events seg) σ)
      ⟨⟨wellFormed_of_run h₀, h.registered, h.cts_disposed, (options_of_run h₀).2⟩, ?_⟩ ?_ h.steady
    · refine ⟨fun _ => ⟨?_, rfl, rfl, rfl⟩, by simp [readsOf]⟩
      simp [h.starts, DispatchPhase.message]
    · rintro seg σ a evs σ' - ⟨⟨hw, hs, hcts, hn⟩, hi⟩ hstep ⟨-, -, hnu, hnd⟩
      have heff := effect_of_step hstep
      have hdis : (σ.queue.cancellation s).disposed = false := by
        by_contra hcon
        exact absurd (hcts.symm.trans (hw.disposed_queue s (by simpa using hcon))) (by simp)
      refine ⟨⟨hw.of_effect heff, heff.registered hnu hs, ?_, heff.options.2.trans hn⟩, ?_⟩
      · rw [heff.cts_of_ne_dispose hnd, hcts]
      · simpa using hi.step (heff.loopStep s) (hw.registered_known s hs) hs hdis hcts hn
  exact (hmain.2.read m h.reads).ended_of_message_none h.ends

end Stretch

/-! ### The effect of an iteration, exactly -/

section Exact

variable {n : ℕ} {s : Guid} {m : MessageEnvelope} {σ₀ σ₁ : System} {seg : Trace}

/-- The cursor of a subscriber moves on by one message, and is committed. -/
def Advances (s : Guid) (σ₀ σ₁ : System) : Prop :=
  (σ₁.queue.cursors s).index = (σ₀.queue.cursors s).index + 1 ∧
    (σ₁.queue.cursors s).isCommitted = true

/-- The cursor of a subscriber stays as it is. -/
def Stays (s : Guid) (σ₀ σ₁ : System) : Prop :=
  (σ₁.queue.cursors s).index = (σ₀.queue.cursors s).index ∧
    (σ₁.queue.cursors s).isCommitted = (σ₀.queue.cursors s).isCommitted

/-- These messages are appended to the dead letter queue of a subscriber, and that is all that
happens to it unless a replay of one of its entries is acknowledged meanwhile. -/
def Appends (s : Guid) (σ₀ : System) (seg : Trace) (σ₁ : System) (ms : List MessageEnvelope) :
    Prop :=
  addedOf s (events seg) = ms ∧
    ((∀ call m, .receiveReturned s (.replay call) m (.ok .ack) ∉ events seg) →
      (σ₁.queue.cursors s).deadLetterQueue = (σ₀.queue.cursors s).deadLetterQueue ++ ms)

/-- What a behaviour promises, the failure handler having returned it: the effect, and what the
loop has yet to do with the handler. -/
def Promises (s : Guid) (m : MessageEnvelope) (σ₀ : System) (seg : Trace) (σ₁ : System)
    (rest : List LoopNote) : PostMessageFailedBehavior → Prop
  | .commit => rest = [] ∧ Advances s σ₀ σ₁ ∧ Appends s σ₀ seg σ₁ []
  | .addToDLQ => rest = [] ∧ Advances s σ₀ σ₁ ∧ Appends s σ₀ seg σ₁ [m]
  | .block => rest = [] ∧ Stays s σ₀ σ₁ ∧ Appends s σ₀ seg σ₁ []
  | .retryOnceThenCommit =>
    ∃ r, rest = [.called .manualRetry m, .returned .manualRetry m r] ∧
      Advances s σ₀ σ₁ ∧ Appends s σ₀ seg σ₁ []
  | .retryOnceThenDLQ =>
    ∃ r, rest = [.called .manualRetry m, .returned .manualRetry m r] ∧
      (r ≠ .ok .ack → Advances s σ₀ σ₁ ∧ Appends s σ₀ seg σ₁ [m])

/-- What comes of the answer of the failure handler: what the behaviour promises or, the handler
having thrown, nothing. -/
def Settles (s : Guid) (m : MessageEnvelope) (σ₀ : System) (seg : Trace) (σ₁ : System)
    (rest : List LoopNote) : FailedResult → Prop
  | .ok b => Promises s m σ₀ seg σ₁ rest b
  | .error _ => rest = [] ∧ Stays s σ₀ σ₁ ∧ Appends s σ₀ seg σ₁ []

/-- **The exact effect of an iteration.** Either one of the at most `n + 1` attempts of the
policy is acknowledged, and is the last thing that happens before the commit; or all `n + 1`
fail, the failure handler is called once, with the exception of the last of them, and the
behaviour it returns has its effect, while an exception of its own has none. -/
def ExactDelivery (n : ℕ) (s : Guid) (m : MessageEnvelope) (σ₀ : System) (seg : Trace)
    (σ₁ : System) : Prop :=
  (∃ rs, NoAck rs ∧ rs.length ≤ n ∧
    loopNotes s (events seg) = policyCalls m (rs ++ [.ok .ack]) ∧
    Advances s σ₀ σ₁ ∧ Appends s σ₀ seg σ₁ []) ∨
  ∃ rs r decision rest, NoAck (rs ++ [r]) ∧ rs.length = n ∧
    loopNotes s (events seg) = policyCalls m (rs ++ [r]) ++
      .failedCalled m (exceptionOf r) :: .failedReturned m decision :: rest ∧
    Settles s m σ₀ seg σ₁ rest decision

/-- The answers of the failure handler among the dealings of a loop. -/
def decisionsOf (l : List LoopNote) : List FailedResult :=
  l.filterMap fun
    | .failedReturned _ r => some r
    | _ => none

/-- The results of extra attempts among them. -/
def extrasOf (l : List LoopNote) : List ReceiveResult :=
  l.filterMap fun
    | .returned .manualRetry _ r => some r
    | _ => none

@[simp] theorem decisionsOf_append (l l' : List LoopNote) :
    decisionsOf (l ++ l') = decisionsOf l ++ decisionsOf l' :=
  List.filterMap_append

@[simp] theorem extrasOf_append (l l' : List LoopNote) :
    extrasOf (l ++ l') = extrasOf l ++ extrasOf l' :=
  List.filterMap_append

@[simp] theorem decisionsOf_policyCalls (rs : List ReceiveResult) :
    decisionsOf (policyCalls m rs) = [] := by
  induction rs with
  | nil => rfl
  | cons r rs ih => simpa [policyCalls, decisionsOf] using ih

@[simp] theorem extrasOf_policyCalls (rs : List ReceiveResult) :
    extrasOf (policyCalls m rs) = [] := by
  induction rs with
  | nil => rfl
  | cons r rs ih => simpa [policyCalls, extrasOf] using ih

theorem Exhausted.decisionsOf_eq {l : List LoopNote} (h : Exhausted n m l) :
    decisionsOf l = [] := by
  obtain ⟨-, -⟩ := h
  rw [decisionsOf_append, decisionsOf_policyCalls]
  rfl

theorem Exhausted.extrasOf_eq {l : List LoopNote} (h : Exhausted n m l) : extrasOf l = [] := by
  obtain ⟨-, -⟩ := h
  rw [extrasOf_append, extrasOf_policyCalls]
  rfl

theorem mem_extrasOf {evs : List Event} {r : ReceiveResult} :
    r ∈ extrasOf (loopNotes s evs) ↔ ∃ m, .receiveReturned s .manualRetry m r ∈ evs := by
  have hmem : ∀ l : List LoopNote, r ∈ extrasOf l ↔ ∃ m, .returned .manualRetry m r ∈ l := by
    intro l
    simp only [extrasOf, List.mem_filterMap]
    constructor
    · rintro ⟨x, hx, h⟩
      split at h
      · obtain rfl := Option.some.inj h
        exact ⟨_, hx⟩
      · simp at h
    · rintro ⟨m, hx⟩
      exact ⟨_, hx, rfl⟩
  simp [hmem, mem_loopNotes_returned, Caller.ofLoop]

/-- A commit, with or without a dead letter, is what has been decided on. -/
theorem Decided.promises {b : Bool} {l : List LoopNote} (h : Decided m b l)
    (hadv : Advances s σ₀ σ₁) (happ : Appends s σ₀ seg σ₁ (if b then [m] else [])) :
    ∃ decision rest, l = .failedReturned m (.ok decision) :: rest ∧
      Promises s m σ₀ seg σ₁ rest decision := by
  cases h with
  | commit => exact ⟨.commit, [], rfl, rfl, hadv, happ⟩
  | addToDLQ => exact ⟨.addToDLQ, [], rfl, rfl, hadv, happ⟩
  | retried _ r =>
    cases b with
    | false => exact ⟨.retryOnceThenCommit, _, rfl, .ok r, rfl, hadv, happ⟩
    | true => exact ⟨.retryOnceThenDLQ, _, rfl, .ok r, rfl, fun _ => ⟨hadv, happ⟩⟩

/-- A decision found in the dealings of an exact delivery is the one whose promises are kept. -/
theorem ExactDelivery.promises (h : ExactDelivery n s m σ₀ seg σ₁) {b : PostMessageFailedBehavior}
    (hb : decisionsOf (loopNotes s (events seg)) = [.ok b]) :
    ∃ rest, extrasOf (loopNotes s (events seg)) = extrasOf rest ∧
      Promises s m σ₀ seg σ₁ rest b := by
  rcases h with ⟨rs, -, -, hnotes, -⟩ | ⟨rs, r, decision, rest, -, -, hnotes, hkept⟩
  · rw [hnotes, decisionsOf_policyCalls] at hb
    simp at hb
  · obtain rfl : decision = .ok b := by
      rw [hnotes, decisionsOf_append, decisionsOf_policyCalls] at hb
      exact (List.cons.inj hb).1
    refine ⟨rest, ?_, hkept⟩
    rw [hnotes, extrasOf_append, extrasOf_policyCalls]
    rfl

/-- An extra attempt that throws breaks the promise of its behaviour: a commit is promised, and
there is none. -/
theorem not_exactDelivery_of_threw {b : Bool} {e : Exception}
    (hindex : (σ₁.queue.cursors s).index = (σ₀.queue.cursors s).index)
    (hdecision : decisionsOf (loopNotes s (events seg)) = [.ok (retryOnce b)])
    (hextra : extrasOf (loopNotes s (events seg)) = [.error e]) :
    ¬ ExactDelivery n s m σ₀ seg σ₁ := by
  intro hexact
  obtain ⟨rest, hrest, hkept⟩ := hexact.promises hdecision
  have hadv : Advances s σ₀ σ₁ := by
    cases b with
    | false =>
      obtain ⟨-, -, hadv, -⟩ := hkept
      exact hadv
    | true =>
      obtain ⟨r, rfl, hadv⟩ := hkept
      obtain rfl : .error e = r := (List.cons.inj (hextra.symm.trans hrest)).1
      exact (hadv (by simp)).1
  have hone := hadv.1
  omega

/-- **An iteration has exactly the effect promised if and only if the extra attempt does not
throw**: in an iteration of the loop of a registered subscriber in which nobody prunes, replays
its cursor, unsubscribes it or disposes of the queue. -/
theorem delivery_exact_iff (h : Iteration n s m σ₀ seg σ₁) :
    ExactDelivery n s m σ₀ seg σ₁ ↔
      ∀ m' e, .receiveReturned s .manualRetry m' (.error e) ∉ events seg := by
  obtain ⟨ttl, pre, h₀⟩ := h.reachable
  obtain ⟨-, hindex, hflag, hdlq⟩ := cursorChange_of_run h₀ h.run h.registered h.steady
  have hthrows : (∀ m' e, .receiveReturned s .manualRetry m' (.error e) ∉ events seg) ↔
      ∀ e, .error e ∉ extrasOf (loopNotes s (events seg)) := by
    simp only [mem_extrasOf, not_exists]
    exact forall_comm
  have hadvances : committedOf s (events seg) = [m] → Advances s σ₀ σ₁ := by
    intro hc
    exact ⟨by simp [hindex, hc], by simp [hflag, hc]⟩
  have hstays : committedOf s (events seg) = [] → Stays s σ₀ σ₁ := by
    intro hc
    exact ⟨by simp [hindex, hc], by simp [hflag, hc]⟩
  have happends : ∀ {ms}, addedOf s (events seg) = ms → Appends s σ₀ seg σ₁ ms := by
    rintro ms rfl
    exact ⟨rfl, hdlq⟩
  rw [hthrows]
  have hended := h.ended
  generalize hadded : addedOf s (events seg) = added, hcommits : committedOf s (events seg) =
    commits, hl : loopNotes s (events seg) = l at hended
  cases hended with
  | acked hno hlen =>
    refine iff_of_true (Or.inl ⟨_, hno, hlen, hl, hadvances hcommits, happends hadded⟩) ?_
    simp only [extrasOf_policyCalls]
    simp
  | @decided l l' b hex hd =>
    refine iff_of_true ?_ fun e hmem => ?_
    · obtain ⟨hno, hlen⟩ := hex
      obtain ⟨decision, rest, rfl, hkept⟩ := hd.promises (hadvances hcommits) (happends hadded)
      exact Or.inr ⟨_, _, .ok decision, rest, hno, hlen, by simpa using hl, hkept⟩
    · rw [extrasOf_append, hex.extrasOf_eq] at hmem
      cases hd <;> simp [extrasOf] at hmem
  | blocked hex =>
    refine iff_of_true ?_ fun e hmem => ?_
    · obtain ⟨hno, hlen⟩ := hex
      exact Or.inr ⟨_, _, .ok .block, [], hno, hlen, by simpa using hl, rfl, hstays hcommits,
        happends hadded⟩
    · rw [extrasOf_append, hex.extrasOf_eq] at hmem
      simp [extrasOf] at hmem
  | handlerThrew hex e =>
    refine iff_of_true ?_ fun e' hmem => ?_
    · obtain ⟨hno, hlen⟩ := hex
      exact Or.inr ⟨_, _, .error e, [], hno, hlen, by simpa using hl, rfl, hstays hcommits,
        happends hadded⟩
    · rw [extrasOf_append, hex.extrasOf_eq] at hmem
      simp [extrasOf] at hmem
  | retryThrew hex b e =>
    have hextra : extrasOf (loopNotes s (events seg)) = [.error e] := by
      rw [hl, extrasOf_append, hex.extrasOf_eq]
      rfl
    have hdecision : decisionsOf (loopNotes s (events seg)) = [.ok (retryOnce b)] := by
      rw [hl, decisionsOf_append, hex.decisionsOf_eq]
      rfl
    have hindex' : (σ₁.queue.cursors s).index = (σ₀.queue.cursors s).index := by
      simp [hindex, hcommits]
    exact iff_of_false (not_exactDelivery_of_threw hindex' hdecision hextra)
      fun hno => hno e (by rw [← hl, hextra]; simp)

/-- Whether a stretch is steady can be computed. -/
theorem steady_of_all (h : seg.all (fun t =>
      !t.act.prunes && !t.act.replays s && t.act ≠ .unsubscribe s && t.act ≠ .dispose) = true) :
    ∀ t ∈ seg, Steady s t := by
  intro t ht
  obtain ⟨⟨⟨hp, hr⟩, hu⟩, hd⟩ := by simpa using List.all_eq_true.mp h t ht
  exact ⟨hp, hr, hu, hd⟩

/-- The theorem at a message whose two attempts fail, one by an exception, and which is
dead-lettered. -/
theorem delivery_exact_dead_lettered : ∃ σ₀ seg σ₁, Iteration 1 7 ⟨1, 10⟩ σ₀ seg σ₁ ∧
    (σ₁.queue.cursors 7).deadLetterQueue = [⟨1, 10⟩] ∧
    ExactDelivery 1 7 ⟨1, 10⟩ σ₀ seg σ₁ := by
  have h₀ := runOf_exec 5 1 [.subscribe 7, .enqueue 1 10 none] (by decide)
  have h : Run step (stateOf step (System.init 5 1) [.subscribe 7, .enqueue 1 10 none]) _ _ :=
    run_exec [.dispatch 7, .dispatch 7, .dispatch 7, .received 7 (.ok .nack), .dispatch 7,
      .received 7 (.error (.handler 0)), .dispatch 7, .failedHandled 7 (.ok .addToDLQ),
      .dispatch 7, .dispatch 7] (by decide)
  have hit : Iteration 1 7 ⟨1, 10⟩ _ _ _ :=
    ⟨⟨_, _, h₀⟩, h, by decide, by decide, steady_of_all (by rfl), by decide,
      by decide⟩
  have hnone : ∀ {seg : Trace}, extrasOf (loopNotes 7 (events seg)) = [] →
      ∀ m e, .receiveReturned 7 .manualRetry m (.error e) ∉ events seg := by
    intro seg hnil m e hmem
    have := mem_extrasOf.mpr ⟨m, hmem⟩
    simp [hnil] at this
  exact ⟨_, _, _, hit, by decide, (delivery_exact_iff hit).mpr (hnone (by decide))⟩

/-- **An extra attempt that throws leaves its message uncommitted**: the failure handler asks
for one more attempt and then a commit, the attempt throws, and neither the index nor the loop
gets any further. -/
theorem delivery_not_exact : ∃ σ₀ seg σ₁, Iteration 0 7 ⟨1, 10⟩ σ₀ seg σ₁ ∧
    σ₁.loops 7 = .faulted ∧ ¬ ExactDelivery 0 7 ⟨1, 10⟩ σ₀ seg σ₁ := by
  have h₀ := runOf_exec 5 0 [.subscribe 7, .enqueue 1 10 none] (by decide)
  have h : Run step (stateOf step (System.init 5 0) [.subscribe 7, .enqueue 1 10 none]) _ _ :=
    run_exec [.dispatch 7, .dispatch 7, .dispatch 7, .received 7 (.ok .nack), .dispatch 7,
      .failedHandled 7 (.ok .retryOnceThenCommit), .dispatch 7,
      .received 7 (.error (.handler 0))] (by decide)
  have hit : Iteration 0 7 ⟨1, 10⟩ _ _ _ :=
    ⟨⟨_, _, h₀⟩, h, by decide, by decide, steady_of_all (by rfl), by decide,
      by decide⟩
  refine ⟨_, _, _, hit, by decide, fun hexact => ?_⟩
  obtain ⟨-, -, -, -, hadv, -⟩ := hexact.promises (b := .retryOnceThenCommit) (by decide)
  exact absurd hadv.1 (by decide)

end Exact

end PushDeliveredQueue
