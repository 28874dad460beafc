import PushDeliveredQueue.Loop

/-!
# One subscriber's dead letters

The dead letter queue of a subscriber and the replay calls under way on it, seen by
themselves: `PushDeliveredQueue.DlqView`, and in `PushDeliveredQueue.DlqStep` what a transition
of the system can do to it. Entries come in one at a time, through `AddToDeadLetterQueue`, and
go out only when a replay call of theirs has returned `Ack`.

* **Nothing is lost** (`PushDeliveredQueue.dead_letters_never_lost`): what has been added is
  there or has been replayed with an `Ack` since, whatever the calls do and however they
  overlap; and what is there has been put there by the decision of a failure handler.
* What a step can do to a call (`PushDeliveredQueue.DlqStep.phase`) and to an entry
  (`PushDeliveredQueue.DlqStep.mem_entries`, `PushDeliveredQueue.DlqStep.entry_kept`), the
  facts everything about overlapping calls is read off.
-/

namespace PushDeliveredQueue

open Transitions

/-! ### The view -/

/-- What matters for the dead letters of one subscriber. -/
structure DlqView where
  entries : List MessageEnvelope
  /-- The replay calls ever started, and where they are. -/
  calls : List ReplayPhase
  standing : Standing

/-- The view of a subscriber's dead letters. -/
def System.dlqView (σ : System) (s : Guid) : DlqView where
  entries := (σ.queue.cursors s).deadLetterQueue
  calls := σ.replays s
  standing := σ.standing s

/-- The events of a subscriber's dead letter queue and of the replay calls on it. -/
def Event.OfDlq (s : Guid) : Event → Prop
  | .addedToDlq s' _ => s' = s
  | .receiveCalled s' caller _ _ | .receiveReturned s' caller _ _ | .failedCalled s' caller _ _
  | .failedReturned s' caller _ _ => s' = s ∧ ∃ call, caller = .replay call
  | .enqueued _ | .pruned _ | .replayedFrom .. | .dispatchRead .. | .committed ..
  | .commitMissed .. => False

/-- A phase a call can enter by looking into the queue: it is over, or it replays one of the
entries. -/
def Opens (entries : List MessageEnvelope) (p : ReplayPhase) : Prop :=
  p = .returned ∨ p = .threw ∨ ∃ kind m, m ∈ entries ∧ p = .receiving kind m

/-- The events of a call that enters a phase: it calls the handler if it replays an entry. -/
def CallsFor (s : Guid) (call : ℕ) (p : ReplayPhase) (evs : List Event) : Prop :=
  match p with
  | .receiving _ m => ∃ payload, evs = [.receiveCalled s (.replay call) m payload]
  | .scheduled | .failing _ _ | .returned | .threw => evs = []

/-- **What a transition can do to the dead letters of a subscriber.** -/
inductive DlqStep (s : Guid) : DlqView → List Event → DlqView → Prop
  | add {v : DlqView} {m : MessageEnvelope} (hs : v.standing = .registered) :
      DlqStep s v [.addedToDlq s m] { v with entries := v.entries ++ [m] }
  | subscribe {v : DlqView} (hs : v.standing = .absent) :
      DlqStep s v [] { v with entries := [], standing := .registered }
  | unsubscribe {v : DlqView} (hs : v.standing = .registered) :
      DlqStep s v [] { v with standing := .removed }
  | start {v : DlqView} {p : ReplayPhase} {evs : List Event} (ho : Opens v.entries p)
      (hc : CallsFor s v.calls.length p evs) :
      DlqStep s v evs { v with calls := v.calls ++ [p] }
  | schedule (v : DlqView) : DlqStep s v [] { v with calls := v.calls ++ [.scheduled] }
  | runScheduled {v : DlqView} {call : ℕ} {p : ReplayPhase} {evs : List Event}
      (h : v.calls[call]? = some .scheduled) (ho : Opens v.entries p)
      (hc : CallsFor s call p evs) : DlqStep s v evs { v with calls := v.calls.set call p }
  | acked {v : DlqView} {call : ℕ} {kind : ReplayKind} {m : MessageEnvelope}
      {entries : List MessageEnvelope} {evs : List Event}
      (h : v.calls[call]? = some (.receiving kind m)) (he : entries = removeAll v.entries m.id)
      (hc : CallsFor s call (afterSuccess entries kind) evs) :
      DlqStep s v (.receiveReturned s (.replay call) m (.ok .ack) :: evs)
        { v with entries := entries, calls := v.calls.set call (afterSuccess entries kind) }
  | notAcked {v : DlqView} {call : ℕ} {kind : ReplayKind} {m : MessageEnvelope}
      {r : ReceiveResult} (h : v.calls[call]? = some (.receiving kind m)) (hr : r ≠ .ok .ack) :
      DlqStep s v [.receiveReturned s (.replay call) m r,
          .failedCalled s (.replay call) m (exceptionOf r)]
        { v with calls := v.calls.set call (.failing kind m) }
  | threw {v : DlqView} {call : ℕ} {kind : ReplayKind} {m : MessageEnvelope} {e : Exception}
      (h : v.calls[call]? = some (.failing kind m)) :
      DlqStep s v [.failedReturned s (.replay call) m (.error e)]
        { v with calls := v.calls.set call .threw }
  | failed {v : DlqView} {call : ℕ} {kind : ReplayKind} {m : MessageEnvelope}
      {b : PostMessageFailedBehavior} {evs : List Event}
      (h : v.calls[call]? = some (.failing kind m))
      (hc : CallsFor s call (afterFailure v.entries kind) evs) :
      DlqStep s v (.failedReturned s (.replay call) m (.ok b) :: evs)
        { v with calls := v.calls.set call (afterFailure v.entries kind) }
  | quiet {v : DlqView} {evs : List Event} (h : ∀ e ∈ evs, ¬ e.OfDlq s) : DlqStep s v evs v

/-! ### Every transition is such a step -/

section Frames

variable {σ σ' : System} {a : Action} {evs : List Event} {s s' : Guid}

theorem callsFor_replayCalls (q : SubscribableQueue) (s : Guid) (call : ℕ) (p : ReplayPhase) :
    CallsFor s call p (replayCalls q s call p) := by
  cases p with
  | receiving kind m => exact ⟨_, rfl⟩
  | scheduled | failing _ _ | returned | threw => rfl

theorem not_ofDlq_replayCalls (hne : s ≠ s') (q : SubscribableQueue) (call : ℕ)
    (p : ReplayPhase) : ∀ e ∈ replayCalls q s' call p, ¬ e.OfDlq s := by
  cases p <;> simp [replayCalls, Event.OfDlq, hne.symm]

/-- The head of the `for` loop looks into the queue. -/
theorem opens_replayAllFrom (entries : List MessageEnvelope) (i : ℤ) :
    Opens entries (replayAllFrom entries i) := by
  unfold replayAllFrom
  split
  · split
    · split
      · rename_i m hm
        exact Or.inr (Or.inr ⟨_, m, List.mem_of_getElem? hm, rfl⟩)
      · exact Or.inr (Or.inl rfl)
    · exact Or.inr (Or.inl rfl)
  · exact Or.inl rfl

theorem opens_afterSuccess (entries : List MessageEnvelope) (kind : ReplayKind) :
    Opens entries (afterSuccess entries kind) := by
  cases kind with
  | fromDlq => exact Or.inl rfl
  | all i => exact opens_replayAllFrom _ _

theorem opens_afterFailure (entries : List MessageEnvelope) (kind : ReplayKind) :
    Opens entries (afterFailure entries kind) := by
  cases kind with
  | fromDlq => exact Or.inl rfl
  | all i => exact opens_replayAllFrom _ _

theorem opens_replayFromDlq (q : SubscribableQueue) (s messageId : Guid) :
    Opens (q.cursors s).deadLetterQueue (replayFromDlq q s messageId) := by
  by_cases hs : s ∈ q.subscribers
  · simp only [replayFromDlq, SubscribableQueue.tryGetValue, if_pos hs]
    split
    · rename_i m hm
      exact Or.inr (Or.inr ⟨_, m, List.mem_of_find?_eq_some hm, rfl⟩)
    · exact Or.inl rfl
  · simp [replayFromDlq, SubscribableQueue.tryGetValue, hs, Opens]

theorem opens_replayAllDlqMessages (q : SubscribableQueue) (s : Guid) :
    Opens (q.cursors s).deadLetterQueue (replayAllDlqMessages q s) := by
  by_cases hs : s ∈ q.subscribers
  · simp only [replayAllDlqMessages, SubscribableQueue.tryGetValue, if_pos hs]
    split
    · exact opens_replayAllFrom _ _
    · exact Or.inl rfl
  · simp [replayAllDlqMessages, SubscribableQueue.tryGetValue, hs, Opens]

/-- A transition that changes neither the entries, nor the calls, nor the standing of a
subscriber, and tells nothing of them. -/
theorem DlqStep.of_congr (h : ∀ e ∈ evs, ¬ e.OfDlq s)
    (he : (σ'.queue.cursors s).deadLetterQueue = (σ.queue.cursors s).deadLetterQueue)
    (hc : σ'.replays s = σ.replays s) (hs : σ'.standing s = σ.standing s) :
    DlqStep s (σ.dlqView s) evs (σ'.dlqView s) := by
  rw [System.dlqView, System.dlqView, he, hc, hs]
  exact .quiet h

/-- Moving another's call on, with at most its dead letter queue changed. -/
theorem DlqStep.of_moveReplay_of_ne (hne : s ≠ s') {q : SubscribableQueue} (call : ℕ)
    (p : ReplayPhase) (hq : q = σ.queue ∨ ∃ c, q = σ.queue.setCursor s' c)
    (h : ∀ e ∈ evs, ¬ e.OfDlq s) :
    DlqStep s (σ.dlqView s) evs ((σ.moveReplay s' call q p).dlqView s) := by
  have hcalls : (σ.moveReplay s' call q p).replays s = σ.replays s := by
    simp [System.moveReplay, hne]
  rcases hq with rfl | ⟨c, rfl⟩
  · exact .of_congr h rfl hcalls rfl
  · exact .of_congr h
      (congrArg _ (SubscribableQueue.cursors_setCursor_of_ne _ hne c)) hcalls rfl

/-- Moving an own call on with the queue as it was. -/
theorem System.dlqView_moveReplay (call : ℕ) (p : ReplayPhase) :
    (σ.moveReplay s call σ.queue p).dlqView s =
      { σ.dlqView s with calls := (σ.dlqView s).calls.set call p } := by
  simp only [dlqView, moveReplay, Function.update_self]
  rfl

/-- Moving an own call on with the dead letter queue rewritten. -/
theorem System.dlqView_moveReplay_setDeadLetterQueue (call : ℕ) (entries : List MessageEnvelope)
    (p : ReplayPhase) :
    (σ.moveReplay s call (σ.queue.setDeadLetterQueue s entries) p).dlqView s =
      { σ.dlqView s with entries := entries, calls := (σ.dlqView s).calls.set call p } := by
  simp only [dlqView, moveReplay, Function.update_self, SubscribableQueue.setDeadLetterQueue,
    SubscribableQueue.cursors_setCursor_self]
  rfl

/-- A call that starts, on whosever dead letter queue. -/
theorem DlqStep.of_startReplay {p : ReplayPhase}
    (ho : Opens (σ.queue.cursors s').deadLetterQueue p) :
    DlqStep s (σ.dlqView s) (σ.startReplay s' p).2 ((σ.startReplay s' p).1.dlqView s) := by
  rcases eq_or_ne s s' with rfl | hne
  · have hview : (σ.startReplay s p).1.dlqView s =
        { σ.dlqView s with calls := (σ.dlqView s).calls ++ [p] } := by
      simp only [System.dlqView, System.startReplay, Function.update_self]
      rfl
    rw [hview]
    exact .start ho (callsFor_replayCalls _ _ _ _)
  · refine .of_congr (not_ofDlq_replayCalls hne _ _ _) rfl ?_ rfl
    simp [System.startReplay, hne]

/-- What a step of a dispatch loop means for dead letters: its own subscriber's queue may
have been added to. -/
theorem LoopEffect.dlqStep {q : SubscribableQueue} {p p' : DispatchPhase}
    (h : LoopEffect σ.queue s' p q p' evs) :
    DlqStep s (σ.dlqView s) evs ((σ.moveLoop s' q p').dlqView s) := by
  cases h with
  | @addToDlq m hs =>
    rw [SubscribableQueue.addToDeadLetterQueue_of_mem hs]
    rcases eq_or_ne s s' with rfl | hne
    · have hview : (σ.moveLoop s (σ.queue.setCursor s { σ.queue.cursors s with
          deadLetterQueue := (σ.queue.cursors s).deadLetterQueue ++ [m] })
          (.committing m)).dlqView s =
          { σ.dlqView s with entries := (σ.dlqView s).entries ++ [m] } := by
        simp only [System.dlqView, System.moveLoop, SubscribableQueue.cursors_setCursor_self]
        rfl
      rw [hview]
      exact .add (System.standing_eq_registered.mpr hs)
    · exact .of_congr (by simp [Event.OfDlq, hne.symm])
        (congrArg _ (SubscribableQueue.cursors_setCursor_of_ne _ hne _)) rfl rfl
  | commit hs =>
    rw [SubscribableQueue.commit_of_mem hs]
    refine .of_congr (by simp [Event.OfDlq]) ?_ rfl rfl
    rcases eq_or_ne s s' with rfl | hne
    · simp [System.moveLoop]
    · exact congrArg _ (SubscribableQueue.cursors_setCursor_of_ne _ hne _)
  -- the other steps change the phase of the loop, and nothing of the queue
  | _ => exact .of_congr (by simp [Event.OfDlq]) rfl rfl rfl

/-- **Every transition of the system is such a step of every subscriber's dead letters.** -/
theorem Effect.dlqStep (hw : σ.WellFormed) (h : Effect σ a σ' evs) (s : Guid) :
    DlqStep s (σ.dlqView s) evs (σ'.dlqView s) := by
  cases h with
  | enqueue _ => exact .of_congr (by simp [Event.OfDlq]) rfl rfl rfl
  | changeMessagePayload messageId payload =>
    exact .of_congr (by simp) (by simp) rfl (System.standing_congr (by simp) rfl)
  | beginPrune _ _ | replayFromRefused _ _ => exact .quiet (by simp)
  | @prune _ cutoff _ =>
    refine .of_congr (by simp [Event.OfDlq]) ?_ rfl (System.standing_congr (by simp) rfl)
    simp only [SubscribableQueue.cursors_pruneExpiredMessages]
    split_ifs <;> rfl
  | @subscribe s' hs p hp =>
    rcases eq_or_ne s s' with rfl | hne
    · have hview : System.dlqView { σ with
          queue := σ.queue.addSubscriber s
          subscriberIds := s :: σ.subscriberIds
          loops := Function.update σ.loops s p } s =
          { σ.dlqView s with entries := [], standing := .registered } := by
        simp [System.dlqView, System.standing, SubscribableQueue.addSubscriber]
      rw [hview]
      exact .subscribe (hw.standing_eq_absent_of_fresh hs)
    · refine .of_congr (by simp) ?_ rfl (System.standing_subscribe_of_ne hne _)
      simp [SubscribableQueue.addSubscriber, hne]
  | unsubscribe s' =>
    obtain ⟨c, hc⟩ := σ.queue.cursors_unsubscribe s' s
    by_cases hself : s = s' ∧ σ.standing s = .registered
    · obtain ⟨rfl, hreg⟩ := hself
      have hview : System.dlqView { σ with queue := σ.queue.unsubscribe s } s =
          { σ.dlqView s with standing := .removed } := by
        simp only [System.dlqView, hc, hw.standing_unsubscribe_self hreg]
      rw [hview]
      exact .unsubscribe hreg
    · refine .of_congr (by simp) ?_ rfl (System.standing_unsubscribe_of_not hself)
      simp only [hc]
  | dispose =>
    obtain ⟨c, hc⟩ := σ.queue.cursors_dispose s
    refine .of_congr (by simp) ?_ rfl rfl
    simp only [hc]
  | dispatch _ hl => exact hl.dlqStep
  | received _ _ | retried _ _ | failedHandled _ _ =>
    exact .of_congr (by simp [Event.OfDlq]) rfl rfl rfl
  | @replayFrom s' messageId q i h =>
    obtain ⟨-, -, -, -, -, rfl⟩ := SubscribableQueue.replayFrom_eq_replayedFrom h
    refine .of_congr (by simp [Event.OfDlq]) ?_ rfl rfl
    rcases eq_or_ne s s' with rfl | hne
    · simp
    · exact congrArg _ (SubscribableQueue.cursors_setCursor_of_ne _ hne _)
  | replayFromDlq s' messageId => exact .of_startReplay (opens_replayFromDlq _ _ _)
  | replayAllDlqMessages s' => exact .of_startReplay (opens_replayAllDlqMessages _ _)
  | replayAllDlqSubscribers =>
    rcases em (s ∈ σ.queue.subscribers) with hs | hs
    · have hview : System.dlqView { σ with
          replays := fun s =>
            if s ∈ σ.queue.subscribers then σ.replays s ++ [.scheduled] else σ.replays s } s =
          { σ.dlqView s with calls := (σ.dlqView s).calls ++ [.scheduled] } := by
        simp only [System.dlqView, if_pos hs]
        rfl
      rw [hview]
      exact .schedule _
    · exact .of_congr (by simp) rfl (if_neg hs) rfl
  | @runScheduled s' call h =>
    rcases eq_or_ne s s' with rfl | hne
    · rw [System.dlqView_moveReplay]
      exact .runScheduled h (opens_replayAllDlqMessages _ _) (callsFor_replayCalls _ _ _ _)
    · exact .of_moveReplay_of_ne hne _ _ (Or.inl rfl) (not_ofDlq_replayCalls hne _ _ _)
  | @replayAcked s' call kind m dlq h hdlq =>
    rcases eq_or_ne s s' with rfl | hne
    · rw [System.dlqView_moveReplay_setDeadLetterQueue]
      exact .acked h hdlq (callsFor_replayCalls _ _ _ _)
    · refine .of_moveReplay_of_ne hne _ _ (Or.inr ⟨_, rfl⟩)
        (List.forall_mem_cons.mpr ⟨?_, not_ofDlq_replayCalls hne _ _ _⟩)
      simp [Event.OfDlq, hne.symm]
  | @replayNotAcked s' call kind m r h hr =>
    rcases eq_or_ne s s' with rfl | hne
    · rw [System.dlqView_moveReplay]
      exact .notAcked h hr
    · exact .of_moveReplay_of_ne hne _ _ (Or.inl rfl) (by simp [Event.OfDlq, hne.symm])
  | @replayThrew s' call kind m h e =>
    rcases eq_or_ne s s' with rfl | hne
    · rw [System.dlqView_moveReplay]
      exact .threw h
    · exact .of_moveReplay_of_ne hne _ _ (Or.inl rfl) (by simp [Event.OfDlq, hne.symm])
  | @replayFailed s' call kind m h b =>
    rcases eq_or_ne s s' with rfl | hne
    · rw [System.dlqView_moveReplay]
      exact .failed h (callsFor_replayCalls _ _ _ _)
    · refine .of_moveReplay_of_ne hne _ _ (Or.inl rfl)
        (List.forall_mem_cons.mpr ⟨?_, not_ofDlq_replayCalls hne _ _ _⟩)
      simp [Event.OfDlq, hne.symm]

/-- The steps of a run, as a subscriber's dead letters see them. -/
theorem dlqStep_of_run {ttl : TimeSpan} {n : ℕ} {tr : Trace} (h : RunOf ttl n tr σ)
    (hs : step σ a = some (σ', evs)) (s : Guid) :
    DlqStep s (σ.dlqView s) evs (σ'.dlqView s) :=
  (effect_of_step hs).dlqStep (wellFormed_of_run h) s

end Frames

/-! ### Where dead letters come from -/

/-- The failure handler of a subscriber has decided to dead-letter a message. -/
def DeadLettered (s : Guid) (evs : List Event) (m : MessageEnvelope) : Prop :=
  ∃ b, (b = .addToDLQ ∨ b = .retryOnceThenDLQ) ∧ .failedReturned s .dispatch m (.ok b) ∈ evs

/-- A loop on its way to `AddToDeadLetterQueue` is there by such a decision. -/
def DecisionMade (s : Guid) (evs : List Event) : DispatchPhase → Prop
  | .deadLettering m | .manualRetry m true | .retrying m true => DeadLettered s evs m
  | _ => True

section Decisions

variable {σ σ' : System} {a : Action} {evs evs' : List Event} {s : Guid} {m : MessageEnvelope}

theorem DeadLettered.append (h : DeadLettered s evs m) : DeadLettered s (evs ++ evs') m := by
  obtain ⟨b, hb, hmem⟩ := h
  exact ⟨b, hb, List.mem_append_left _ hmem⟩

theorem DecisionMade.append {p : DispatchPhase} (h : DecisionMade s evs p) :
    DecisionMade s (evs ++ evs') p := by
  cases p with
  | deadLettering m => exact DeadLettered.append h
  | manualRetry m b | retrying m b =>
    cases b with
    | true => exact DeadLettered.append h
    | false => exact trivial
  | _ => exact trivial

/-- A phase with no decision behind it. -/
theorem decisionMade_afterAttempt (n : ℕ) (m : MessageEnvelope) (k : ℕ) (r : ReceiveResult) :
    DecisionMade s evs (afterAttempt n m k r) := by
  unfold afterAttempt
  split_ifs <;> exact trivial

/-- **One transition keeps track of the decisions.** -/
theorem LoopStep.decisionMade (h : LoopStep s σ a σ' evs') (hd : DecisionMade s evs (σ.loops s)) :
    DecisionMade s (evs ++ evs') (σ'.loops s) := by
  cases h with
  | stays _ hl _ =>
    rw [hl]
    exact hd.append
  | starts _ h =>
    rcases h with h | ⟨h, -⟩ <;> exact h ▸ trivial
  | dispatch h =>
    generalize σ.loops s = p, σ'.loops s = p', σ'.queue = q' at h hd
    cases h with
    | @manualRetry m b _ =>
      cases b with
      | true => exact DeadLettered.append hd
      | false => exact trivial
    | attemptThrows _ => exact decisionMade_afterAttempt _ _ _ _
    | _ => exact trivial
  | received _ h' => exact h' ▸ decisionMade_afterAttempt _ _ _ _
  | @retried _ m b r h h' =>
    rw [h] at hd
    rw [h']
    rcases r with e | r
    · exact trivial
    · cases b with
      | true => exact DeadLettered.append hd
      | false => exact trivial
  | @failedHandled _ m r _ h' =>
    rw [h']
    rcases r with e | b
    · exact trivial
    · cases b with
      | addToDLQ => exact ⟨_, Or.inl rfl, by simp⟩
      | retryOnceThenDLQ => exact ⟨_, Or.inr rfl, by simp⟩
      | _ => exact trivial

/-- An addition is the step of a loop that is about to make it. -/
theorem Effect.of_addedToDlq (h : Effect σ a σ' evs) (hmem : .addedToDlq s m ∈ evs) :
    σ.loops s = .deadLettering m := by
  cases h.loopStep s with
  | stays _ _ hquiet => exact absurd rfl (hquiet _ hmem)
  | dispatch hl =>
    generalize σ.loops s = p, σ'.loops s = p', σ'.queue = q' at hl
    cases hl <;> simp at hmem
    rw [hmem]
  | _ => simp at hmem

variable {ttl : TimeSpan} {n : ℕ} {tr : Trace}

/-- **What is added to a dead letter queue** is a message that has been enqueued and that the
failure handler has decided to dead-letter. -/
theorem addedToDlq_of_run (h : RunOf ttl n tr σ) (hmem : .addedToDlq s m ∈ events tr) :
    m ∈ enqueuedOf (events tr) ∧ DeadLettered s (events tr) m := by
  have hdecided : ∀ {tr : Trace} {σ : System}, RunOf ttl n tr σ →
      DecisionMade s (events tr) (σ.loops s) := by
    intro tr σ h
    refine h.invariant (I := fun tr σ => DecisionMade s (events tr) (σ.loops s)) ?_ ?_
    · exact trivial
    · intro tr σ a evs σ' _ hi hs
      simpa using ((effect_of_step hs).loopStep s).decisionMade hi
  obtain ⟨t, ht, he⟩ := mem_events.mp hmem
  obtain ⟨pre, post, rfl, hrun, hstep, -⟩ := h.of_mem ht
  have hl := (effect_of_step hstep).of_addedToDlq he
  have hmade := hdecided hrun
  rw [hl] at hmade
  have henq := delivering_enqueued_of_run hrun (s := s) (m := m) (by rw [hl]; rfl)
  rw [events_append, enqueuedOf_append]
  exact ⟨List.mem_append_left _ henq, DeadLettered.append hmade⟩

/-- Two dead letters with one `Id` are one message. -/
theorem eq_of_addedToDlq (h : RunOf ttl n tr σ) {m' : MessageEnvelope}
    (hm : .addedToDlq s m ∈ events tr) (hm' : .addedToDlq s m' ∈ events tr) (hid : m'.id = m.id) :
    m' = m :=
  List.inj_on_of_nodup_map (ledger_of_run h).distinct (addedToDlq_of_run h hm').1
    (addedToDlq_of_run h hm).1 hid

end Decisions

/-! ### Nothing is lost -/

section Conservation

variable {s : Guid} {v w : DlqView} {evs evs' : List Event} {m : MessageEnvelope}

theorem Opens.message_mem {entries : List MessageEnvelope} {p : ReplayPhase}
    (h : Opens entries p) (hm : p.message = some m) : m ∈ entries := by
  obtain rfl | rfl | ⟨kind, m', hm', rfl⟩ := h
  · simp [ReplayPhase.message] at hm
  · simp [ReplayPhase.message] at hm
  · obtain rfl : m' = m := by simpa [ReplayPhase.message] using hm
    exact hm'

/-- The events of a call entering a phase are its handing over of the entry it is at. -/
theorem CallsFor.of_mem {call : ℕ} {p : ReplayPhase} {e : Event} (h : CallsFor s call p evs)
    (he : e ∈ evs) :
    ∃ kind m payload, p = .receiving kind m ∧ e = .receiveCalled s (.replay call) m payload := by
  cases p with
  | receiving kind m =>
    obtain ⟨payload, rfl⟩ := h
    exact ⟨kind, m, payload, rfl, List.mem_singleton.mp he⟩
  | scheduled | failing _ _ | returned | threw =>
    obtain rfl : evs = [] := h
    simp at he

theorem CallsFor.addedToDlq_notMem {call : ℕ} {p : ReplayPhase} (h : CallsFor s call p evs) :
    .addedToDlq s m ∉ evs := by
  intro he
  obtain ⟨_, _, _, _, heq⟩ := h.of_mem he
  exact Event.noConfusion heq

/-- Where a call can be after a step: where it was, at one of the entries or over, waiting
to begin, or waiting for the failure handler. -/
theorem DlqStep.phase {call : ℕ} {p : ReplayPhase} (h : DlqStep s v evs w)
    (hp : w.calls[call]? = some p) :
    v.calls[call]? = some p ∨ Opens w.entries p ∨ p = .scheduled ∨
      ∃ kind m, p = .failing kind m ∧ v.calls[call]? = some (.receiving kind m) := by
  -- a new call is the last one, and a moved one has its old number
  have happend : ∀ p', (v.calls ++ [p'])[call]? = some p → v.calls[call]? = some p ∨ p = p' := by
    intro p' hp
    rw [List.getElem?_append] at hp
    split_ifs at hp with hlt
    · exact Or.inl hp
    · exact Or.inr (by simpa using (List.mem_of_getElem? hp))
  have hset : ∀ call' p', (v.calls.set call' p')[call]? = some p →
      v.calls[call]? = some p ∨ call' = call ∧ p = p' := by
    intro call' p' hp
    rw [List.getElem?_set] at hp
    split_ifs at hp with heq hlt
    · exact Or.inr ⟨heq, by simpa [eq_comm] using hp⟩
    · exact Or.inl hp
  cases h with
  | start ho _ =>
    rcases happend _ hp with h | rfl
    · exact Or.inl h
    · exact Or.inr (Or.inl ho)
  | schedule =>
    rcases happend _ hp with h | rfl
    · exact Or.inl h
    · exact Or.inr (Or.inr (Or.inl rfl))
  | runScheduled _ ho _ =>
    rcases hset _ _ hp with h | ⟨-, rfl⟩
    · exact Or.inl h
    · exact Or.inr (Or.inl ho)
  | acked _ _ _ =>
    rcases hset _ _ hp with h | ⟨-, rfl⟩
    · exact Or.inl h
    · exact Or.inr (Or.inl (opens_afterSuccess _ _))
  | notAcked hcall _ =>
    rcases hset _ _ hp with h | ⟨rfl, rfl⟩
    · exact Or.inl h
    · exact Or.inr (Or.inr (Or.inr ⟨_, _, rfl, hcall⟩))
  | threw _ =>
    rcases hset _ _ hp with h | ⟨-, rfl⟩
    · exact Or.inl h
    · exact Or.inr (Or.inl (Or.inr (Or.inl rfl)))
  | failed _ _ =>
    rcases hset _ _ hp with h | ⟨-, rfl⟩
    · exact Or.inl h
    · exact Or.inr (Or.inl (opens_afterFailure _ _))
  | _ => exact Or.inl hp

/-- An entry after a step was one before it, or has just been added. -/
theorem DlqStep.mem_entries (h : DlqStep s v evs w) (hm : m ∈ w.entries) :
    m ∈ v.entries ∨ .addedToDlq s m ∈ evs := by
  cases h with
  | add _ =>
    rcases List.mem_append.mp hm with hm | hm
    · exact Or.inl hm
    · exact Or.inr (by simpa using hm)
  | subscribe _ => simp at hm
  | acked _ he _ => exact Or.inl (List.mem_of_mem_filter (he ▸ hm))
  | _ => exact Or.inl hm

/-- A step that adds no dead letter leaves part of the queue. -/
theorem DlqStep.entries_sublist (h : DlqStep s v evs w)
    (hadd : ∀ m, .addedToDlq s m ∉ evs) : w.entries.Sublist v.entries := by
  cases h with
  | add _ => exact absurd (List.mem_singleton.mpr rfl) (hadd _)
  | subscribe _ => exact List.nil_sublist _
  | acked _ he _ =>
    subst he
    exact List.filter_sublist
  | _ => exact List.Sublist.refl _

/-- A step that adds a dead letter does nothing else. -/
theorem DlqStep.addedToDlq (h : DlqStep s v evs w) (hmem : .addedToDlq s m ∈ evs) :
    v.standing = .registered ∧ evs = [.addedToDlq s m] ∧
      w = { v with entries := v.entries ++ [m] } := by
  cases h with
  | @add m' hs =>
    obtain rfl : m = m' := by simpa using hmem
    exact ⟨hs, rfl, rfl⟩
  | subscribe _ | unsubscribe _ | schedule | notAcked _ _ | threw _ => simp at hmem
  | start _ hc | runScheduled _ _ hc => exact absurd hmem hc.addedToDlq_notMem
  | acked _ _ hc | failed _ hc =>
    simp only [List.mem_cons, reduceCtorEq, false_or] at hmem
    exact absurd hmem hc.addedToDlq_notMem
  | quiet h => exact absurd rfl (h _ hmem)

/-- An entry stays, or is removed by a replay call that has processed a message of its
`Id`. -/
theorem DlqStep.entry_kept (h : DlqStep s v evs w) (hs : v.standing ≠ .absent)
    (hm : m ∈ v.entries) :
    m ∈ w.entries ∨ ∃ call kind m', v.calls[call]? = some (.receiving kind m') ∧
      m'.id = m.id ∧ .receiveReturned s (.replay call) m' (.ok .ack) ∈ evs := by
  cases h with
  | add _ => exact Or.inl (List.mem_append_left _ hm)
  | subscribe habs => exact absurd habs hs
  | @acked call kind m' entries evs h he _ =>
    by_cases hid : m'.id = m.id
    · exact Or.inr ⟨call, kind, m', h, hid, List.mem_cons_self ..⟩
    · refine Or.inl ?_
      rw [he, removeAll]
      simpa using ⟨hm, fun h => hid h.symm⟩
  | _ => exact Or.inl hm

/-- A subscriber unknown after a step was unknown before it, and was given nothing. -/
theorem DlqStep.absent (h : DlqStep s v evs w) (hs : w.standing = .absent) :
    v.standing = .absent ∧ ∀ m, .addedToDlq s m ∉ evs := by
  have habs : v.standing = .absent := by
    cases h <;> simp_all
  refine ⟨habs, fun m hmem => ?_⟩
  have := (h.addedToDlq hmem).1
  simp [habs] at this

/-- What the history says of the entries and of the calls that are processing one. -/
structure Accounted (s : Guid) (evs : List Event) (v : DlqView) : Prop where
  entries : ∀ m ∈ v.entries, .addedToDlq s m ∈ evs
  calls : ∀ (call : ℕ) (p : ReplayPhase) (m : MessageEnvelope), v.calls[call]? = some p →
    p.message = some m → .addedToDlq s m ∈ evs
  absent : v.standing = .absent → ∀ m, .addedToDlq s m ∉ evs

/-- Whatever has been added is there, or has been processed since. -/
def NothingLost (s : Guid) (evs : List Event) (entries : List MessageEnvelope) : Prop :=
  ∀ pre m post, evs = pre ++ .addedToDlq s m :: post →
    (∃ e ∈ entries, e.id = m.id) ∨
      ∃ call, .receiveReturned s (.replay call) m (.ok .ack) ∈ post

theorem DlqStep.accounted (h : DlqStep s v evs' w) (ha : Accounted s evs v) :
    Accounted s (evs ++ evs') w := by
  have hentries : ∀ m ∈ w.entries, .addedToDlq s m ∈ evs ++ evs' := by
    intro m hm
    rcases h.mem_entries hm with hm | hm
    · exact List.mem_append_left _ (ha.entries m hm)
    · exact List.mem_append_right _ hm
  refine ⟨hentries, ?_, ?_⟩
  · intro call p m hp hm
    rcases h.phase hp with hp | ho | rfl | ⟨kind, m', rfl, hcall⟩
    · exact List.mem_append_left _ (ha.calls call p m hp hm)
    · exact hentries m (ho.message_mem hm)
    · simp [ReplayPhase.message] at hm
    · exact List.mem_append_left _ (ha.calls call _ m hcall hm)
  · intro habs m hmem
    obtain ⟨hbefore, hnone⟩ := h.absent habs
    rcases List.mem_append.mp hmem with hmem | hmem
    · exact ha.absent hbefore m hmem
    · exact hnone m hmem

/-- **One step loses nothing**, if two additions of one `Id` are of one message. -/
theorem DlqStep.nothingLost (h : DlqStep s v evs' w) (ha : Accounted s evs v)
    (hid : ∀ m m', .addedToDlq s m ∈ evs → .addedToDlq s m' ∈ evs → m'.id = m.id → m' = m)
    (hn : NothingLost s evs v.entries) : NothingLost s (evs ++ evs') w.entries := by
  intro pre m post heq
  -- where the addition stands: in the step, or in the history before it
  rcases List.append_eq_append_iff.mp heq with ⟨pre', -, hnew⟩ | ⟨post', hold, hpost⟩
  · -- the addition is this very step
    have hmem : .addedToDlq s m ∈ evs' := hnew ▸ List.mem_append_right _ (List.mem_cons_self ..)
    obtain ⟨-, -, rfl⟩ := h.addedToDlq hmem
    exact Or.inl ⟨m, by simp, rfl⟩
  · cases post' with
    | nil =>
      -- the addition is this very step, cut off at its first event
      have hmem : .addedToDlq s m ∈ evs' := by
        rw [← List.nil_append evs', ← hpost]
        exact List.mem_cons_self ..
      obtain ⟨-, -, rfl⟩ := h.addedToDlq hmem
      exact Or.inl ⟨m, by simp, rfl⟩
    | cons e post' =>
      obtain ⟨rfl, rfl⟩ : e = .addedToDlq s m ∧ post = post' ++ evs' := by
        simpa [eq_comm] using hpost
      have hadded : .addedToDlq s m ∈ evs := hold ▸ by simp
      rcases hn pre m post' hold with ⟨e, he, heid⟩ | ⟨call, hack⟩
      · -- the entry stays, or the step acknowledges a message of its `Id`: this very one
        have hknown : v.standing ≠ .absent := fun habs => ha.absent habs m hadded
        rcases h.entry_kept hknown he with hkept | ⟨call, kind, m', hcall, hmid, hack⟩
        · exact Or.inl ⟨e, hkept, heid⟩
        · have hadded' := ha.calls call _ m' hcall rfl
          obtain rfl := hid m m' hadded hadded' (hmid.trans heid)
          exact Or.inr ⟨call, List.mem_append_right _ hack⟩
      · exact Or.inr ⟨call, List.mem_append_left _ hack⟩

variable {ttl : TimeSpan} {n : ℕ} {tr : Trace} {σ : System}

theorem accounted_of_run (h : RunOf ttl n tr σ) (s : Guid) :
    Accounted s (events tr) (σ.dlqView s) := by
  refine h.invariant (I := fun tr σ => Accounted s (events tr) (σ.dlqView s)) ?_ ?_
  · exact ⟨by simp [System.dlqView, System.init], by simp [System.dlqView, System.init],
      by simp⟩
  · intro tr σ a evs σ' hrun hi hs
    simpa using (dlqStep_of_run hrun hs s).accounted hi

/-- **Dead letters are never lost.** Whatever has been put into the dead letter queue of a
subscriber is in it still, under its `Id`, or a replay call of it has returned `Ack` since,
in every run; and whatever is in the queue is a message whose delivery ended in the failure
handler answering `AddToDLQ` or `RetryOnceThenDLQ`. This holds whether or not the subscriber
has left in the meantime. -/
theorem dead_letters_never_lost (h : RunOf ttl n tr σ) (s : Guid) :
    (∀ pre m post, events tr = pre ++ .addedToDlq s m :: post →
      (∃ e ∈ (σ.queue.cursors s).deadLetterQueue, e.id = m.id) ∨
        ∃ call, .receiveReturned s (.replay call) m (.ok .ack) ∈ post) ∧
      ∀ m ∈ (σ.queue.cursors s).deadLetterQueue, DeadLettered s (events tr) m := by
  constructor
  · refine h.invariant
      (I := fun tr σ => NothingLost s (events tr) (σ.dlqView s).entries) ?_ ?_
    · intro pre m post heq
      simp at heq
    · intro tr σ a evs σ' hrun hi hs
      simpa using (dlqStep_of_run hrun hs s).nothingLost (accounted_of_run hrun s)
        (fun m m' hm hm' hid => eq_of_addedToDlq hrun hm hm' hid) hi
  · intro m hm
    exact (addedToDlq_of_run h ((accounted_of_run h s).entries m hm)).2

/-- One delivery, to a subscriber with no retries, that ends in its dead letter queue. -/
def deadLetter (s : Guid) : List Action :=
  [.dispatch s, .dispatch s, .dispatch s, .received s (.ok .nack), .dispatch s,
    .failedHandled s (.ok .addToDLQ), .dispatch s, .dispatch s]

/-- The theorem at a run with two dead letters, the first of which has been replayed. -/
theorem dead_letters_never_lost_replayed : ∃ tr σ, RunOf 100 0 tr σ ∧
    .addedToDlq 7 ⟨1, 10⟩ ∈ events tr ∧ (σ.queue.cursors 7).deadLetterQueue = [⟨2, 11⟩] ∧
    (∀ pre m post, events tr = pre ++ .addedToDlq 7 m :: post →
      (∃ e ∈ (σ.queue.cursors 7).deadLetterQueue, e.id = m.id) ∨
        ∃ call, .receiveReturned 7 (.replay call) m (.ok .ack) ∈ post) ∧
      ∀ m ∈ (σ.queue.cursors 7).deadLetterQueue, DeadLettered 7 (events tr) m := by
  have h := runOf_exec 100 0 ([.subscribe 7, .enqueue 1 10 none, .enqueue 2 11 none] ++
    deadLetter 7 ++ deadLetter 7 ++ [.replayFromDlq 7 1, .replayReceived 7 0 (.ok .ack)])
    (by decide)
  exact ⟨_, _, h, by decide, by decide, dead_letters_never_lost h 7⟩

end Conservation

end PushDeliveredQueue
