import PushDeliveredQueue.Steps

/-!
# Subscribers are independent

What a subscriber sees of the system is the system with nobody else in it:
`PushDeliveredQueue.System.alone` forgets the other subscribers, their loops and their replay
calls. The transition function commutes with that on the actions that are the subscriber's or
everybody's (`PushDeliveredQueue.step_alone`), and nothing another subscriber does shows in it
(`PushDeliveredQueue.Effect.alone_of_other`). So every run projects to one in which the
subscriber is alone, and two runs that differ in the other subscribers only are the same for
it (`PushDeliveredQueue.subscribers_independent`).
-/

namespace PushDeliveredQueue

open Transitions

/-! ### The system of one subscriber -/

/-- The queue without the other subscribers. -/
def SubscribableQueue.alone (q : SubscribableQueue) (b : Guid) : SubscribableQueue :=
  { q with
    subscribers := q.subscribers.filter (· = b)
    cursors := fun s => if s = b then q.cursors b else {} }

/-- The system without the other subscribers. -/
def System.alone (σ : System) (b : Guid) : System where
  queue := σ.queue.alone b
  messageIds := σ.messageIds
  subscriberIds := σ.subscriberIds.filter (· = b)
  passes := σ.passes
  loops := fun s => if s = b then σ.loops b else .notStarted
  replays := fun s => if s = b then σ.replays b else []

/-- The actions a subscriber takes part in: its own ones, and those on the buffer, on the
payloads and on all subscribers at once. -/
def Action.visibleTo (b : Guid) : Action → Bool
  | .enqueue .. | .changeMessagePayload .. | .beginPrune _ | .prune _ | .dispose
  | .replayAllDlqSubscribers => true
  | .subscribe s | .unsubscribe s | .dispatch s | .received s _ | .failedHandled s _
  | .replayFrom s _ | .replayFromDlq s _ | .replayAllDlqMessages s | .runScheduled s _
  | .replayReceived s _ _ | .replayFailedHandled s _ _ => s = b

/-- Writing to the one place of a table that is kept. -/
theorem update_ite {α : Type} {b : Guid} (x y d : α) :
    Function.update (fun s => if s = b then x else d) b y = fun s => if s = b then y else d := by
  funext s
  rcases eq_or_ne s b with rfl | hne
  · simp
  · simp [hne]

section Queue

variable {q : SubscribableQueue} {b : Guid}

namespace SubscribableQueue

@[simp] theorem cursors_alone_self : (q.alone b).cursors b = q.cursors b := if_pos rfl

@[simp] theorem mem_subscribers_alone : b ∈ (q.alone b).subscribers ↔ b ∈ q.subscribers := by
  simp [alone]

@[simp] theorem tryGetValue_alone : (q.alone b).tryGetValue b = q.tryGetValue b := by
  simp [tryGetValue]

@[simp] theorem alone_setCursor (c : CursorState) :
    (q.setCursor b c).alone b = (q.alone b).setCursor b c := by
  simp only [alone, setCursor, Function.update_self, update_ite]

/-- Writing to the cursor of another subscriber does not show. -/
theorem alone_setCursor_of_ne {s : Guid} (hne : s ≠ b) (c : CursorState) :
    (q.setCursor s c).alone b = q.alone b := by
  simp [alone, setCursor, hne.symm]

theorem alone_changeMessagePayload (messageId : Guid) (payload : Payload) :
    (q.changeMessagePayload messageId payload).alone b =
      (q.alone b).changeMessagePayload messageId payload := by
  have hbuffer : (q.alone b).buffer = q.buffer := rfl
  simp only [changeMessagePayload, hbuffer]
  cases q.buffer.find? (·.id = messageId) with
  | none => rfl
  | some m => rfl

theorem alone_pruneExpiredMessages (cutoff : DateTime) :
    (q.pruneExpiredMessages cutoff).alone b = (q.alone b).pruneExpiredMessages cutoff := by
  have hbuffer : (q.alone b).buffer = q.buffer := rfl
  simp only [pruneExpiredMessages, hbuffer]
  split_ifs with hremoved
  · simp only [alone]
    congr 1
    funext s
    rcases eq_or_ne s b with rfl | hne
    · simp
    · simp [hne]
  · rfl

theorem alone_addSubscriber :
    (q.addSubscriber b).alone b = (q.alone b).addSubscriber b := by
  simp [alone, addSubscriber, update_ite]

/-- Removing a subscriber from the dictionary. -/
theorem alone_remove (s : Guid) :
    { q with subscribers := q.subscribers.filter (· ≠ s) }.alone b =
      { q.alone b with subscribers := (q.alone b).subscribers.filter (· ≠ s) } := by
  simp only [alone, List.filter_filter]
  congr 1
  exact List.filter_congr fun _ _ => Bool.and_comm _ _

theorem alone_unsubscribe : (q.unsubscribe b).alone b = (q.alone b).unsubscribe b := by
  simp only [unsubscribe, tryGetValue_alone]
  split
  · rfl
  · split
    · exact alone_remove b
    · rw [alone_setCursor, alone_remove]

theorem alone_dispose : q.dispose.alone b = (q.alone b).dispose := by
  simp only [alone, dispose]
  congr 1
  funext s
  rcases eq_or_ne s b with rfl | hne
  · simp
  · simp [hne]

theorem alone_commit : (q.commit b).alone b = (q.alone b).commit b := by
  simp only [commit, tryGetValue_alone]
  split <;> simp

theorem alone_addToDeadLetterQueue (m : MessageEnvelope) :
    (q.addToDeadLetterQueue b m).alone b = (q.alone b).addToDeadLetterQueue b m := by
  simp only [addToDeadLetterQueue, tryGetValue_alone]
  split <;> simp

theorem replayFrom_alone (messageId : Guid) :
    (q.alone b).replayFrom b messageId =
      ((q.replayFrom b messageId).1.alone b, (q.replayFrom b messageId).2) := by
  have hbuffer : (q.alone b).buffer = q.buffer := rfl
  simp only [replayFrom, tryGetValue_alone, hbuffer]
  split
  · rfl
  · split_ifs
    · rfl
    · rfl
    · rfl
    · split <;> simp

/-! #### What another subscriber does -/

variable {s : Guid}

theorem alone_addSubscriber_of_ne (hne : s ≠ b) : (q.addSubscriber s).alone b = q.alone b := by
  simp [alone, addSubscriber, hne, hne.symm]

theorem alone_unsubscribe_of_ne (hne : s ≠ b) : (q.unsubscribe s).alone b = q.alone b := by
  have hremove : { q with subscribers := q.subscribers.filter (· ≠ s) }.alone b = q.alone b := by
    rw [alone_remove]
    simp only [alone, List.filter_filter]
    congr 1
    refine List.filter_congr fun x _ => ?_
    rcases eq_or_ne x b with rfl | hx
    · simp [hne.symm]
    · simp [hx]
  simp only [unsubscribe]
  split
  · rfl
  · split
    · exact hremove
    · rw [alone_setCursor_of_ne hne, hremove]

end SubscribableQueue

/-! ### Its steps -/

theorem startsLoop_alone : (q.alone b).startsLoop b = q.startsLoop b := by
  simp only [SubscribableQueue.startsLoop, SubscribableQueue.cursors_alone_self]
  rfl

/-- A dispatch loop looks at its own subscriber's part of the queue. -/
theorem dispatchStep_alone (p : DispatchPhase) :
    dispatchStep (q.alone b) b p = (dispatchStep q b p).map fun r => (r.1.alone b, r.2) := by
  have hcancel : (q.alone b).cancellation b = q.cancellation b :=
    congrArg _ SubscribableQueue.cursors_alone_self
  have hcts : (q.alone b).cts = q.cts := rfl
  have hnext : ∀ c, (q.alone b).next c = q.next c := fun _ => rfl
  cases p with
  | checking | backoff | attempting _ _ =>
    simp only [dispatchStep, hcancel]
    split <;> rfl
  | reading =>
    simp only [dispatchStep, hnext, SubscribableQueue.cursors_alone_self]
    split <;> rfl
  | failed _ _ | manualRetry _ _ =>
    simp only [dispatchStep, hcts]
    split <;> rfl
  | deadLettering m =>
    simp [dispatchStep, SubscribableQueue.alone_addToDeadLetterQueue]
  | committing m => simp [dispatchStep, SubscribableQueue.alone_commit]
  | notStarted | receiving _ _ | deciding _ | retrying _ _ | ended | faulted => rfl

theorem replayFromDlq_alone (messageId : Guid) :
    replayFromDlq (q.alone b) b messageId = replayFromDlq q b messageId := by
  simp [replayFromDlq]

theorem replayAllDlqMessages_alone :
    replayAllDlqMessages (q.alone b) b = replayAllDlqMessages q b := by
  simp [replayAllDlqMessages]

theorem replayCalls_alone (call : ℕ) (p : ReplayPhase) :
    replayCalls (q.alone b) b call p = replayCalls q b call p := by
  cases p <;> rfl

theorem replayReceived_alone (call : ℕ) (p : ReplayPhase) (r : ReceiveResult) :
    replayReceived (q.alone b) b call p r =
      (replayReceived q b call p r).map fun x => (x.1.alone b, x.2) := by
  cases p with
  | receiving kind m =>
    simp only [replayReceived, SubscribableQueue.setDeadLetterQueue, replayCalls_alone,
      SubscribableQueue.cursors_alone_self]
    split <;> simp
  | scheduled | failing _ _ | returned | threw => rfl

theorem replayFailedHandled_alone (call : ℕ) (p : ReplayPhase) (r : FailedResult) :
    replayFailedHandled (q.alone b) b call p r = replayFailedHandled q b call p r := by
  cases p with
  | failing kind m => cases r <;> simp [replayFailedHandled, replayCalls_alone]
  | scheduled | receiving _ _ | returned | threw => cases r <;> rfl

end Queue

section Steps

variable {σ σ' : System} {a : Action} {evs : List Event} {b s : Guid}

@[simp] theorem System.queue_alone : (σ.alone b).queue = σ.queue.alone b := rfl

@[simp] theorem System.loops_alone_self : (σ.alone b).loops b = σ.loops b := if_pos rfl

@[simp] theorem System.replays_alone_self : (σ.alone b).replays b = σ.replays b := if_pos rfl

theorem System.alone_moveLoop (q : SubscribableQueue) (p : DispatchPhase) :
    (σ.moveLoop b q p).alone b = (σ.alone b).moveLoop b (q.alone b) p := by
  simp only [alone, moveLoop, Function.update_self, update_ite]

theorem System.alone_moveReplay (call : ℕ) (q : SubscribableQueue) (p : ReplayPhase) :
    (σ.moveReplay b call q p).alone b = (σ.alone b).moveReplay b call (q.alone b) p := by
  simp only [alone, moveReplay, Function.update_self, update_ite, if_pos]

theorem System.startReplay_alone (p : ReplayPhase) :
    (σ.alone b).startReplay b p = ((σ.startReplay b p).1.alone b, (σ.startReplay b p).2) := by
  simp only [alone, startReplay, Function.update_self, update_ite, if_pos, replayCalls_alone]

/-- **The transition function commutes with forgetting the others**, on what a subscriber
takes part in. -/
theorem step_alone (hvis : a.visibleTo b = true) :
    step (σ.alone b) a = (step σ a).map fun r => (r.1.alone b, r.2) := by
  cases a with
  -- what everybody takes part in
  | enqueue messageId utcNow payload =>
    have hids : (σ.alone b).messageIds = σ.messageIds := rfl
    simp only [step, hids]
    split <;> rfl
  | changeMessagePayload messageId payload =>
    simp [step, System.alone, SubscribableQueue.alone_changeMessagePayload]
  | beginPrune utcNow =>
    have hcutoff : (σ.alone b).queue.cutoff utcNow = σ.queue.cutoff utcNow := rfl
    simp only [step, hcutoff]
    split <;> rfl
  | prune pass =>
    have hpasses : (σ.alone b).passes = σ.passes := rfl
    simp only [step, hpasses]
    split
    · simp only [System.alone, Option.map_some, SubscribableQueue.alone_pruneExpiredMessages]
      rfl
    · rfl
  | dispose => simp [step, System.alone, SubscribableQueue.alone_dispose]
  | replayAllDlqSubscribers =>
    simp only [step, Option.map_some]
    congr 3
    funext s
    rcases eq_or_ne s b with rfl | hne
    · simp [System.alone]
    · simp [System.alone, SubscribableQueue.alone, hne]
  -- the subscriber's own actions
  | subscribe s =>
    obtain rfl : s = b := by simpa [Action.visibleTo] using hvis
    have hids : s ∈ (σ.alone s).subscriberIds ↔ s ∈ σ.subscriberIds := by simp [System.alone]
    have hqueue : (σ.alone s).queue.addSubscriber s = (σ.queue.addSubscriber s).alone s :=
      SubscribableQueue.alone_addSubscriber.symm
    simp only [step, hids, hqueue, startsLoop_alone]
    split
    · rfl
    · simp [System.alone, update_ite]
  | unsubscribe s =>
    obtain rfl : s = b := by simpa [Action.visibleTo] using hvis
    simp [step, System.alone, SubscribableQueue.alone_unsubscribe]
  | dispatch s =>
    obtain rfl : s = b := by simpa [Action.visibleTo] using hvis
    have hstep := dispatchStep_alone (q := σ.queue) (b := s) (σ.loops s)
    simp only [step, System.loops_alone_self, System.queue_alone, hstep]
    cases dispatchStep σ.queue s (σ.loops s) with
    | none => rfl
    | some r => simp [System.alone_moveLoop]
  | received s r =>
    obtain rfl : s = b := by simpa [Action.visibleTo] using hvis
    have hretry : (σ.alone s).queue.retryCount = σ.queue.retryCount := rfl
    simp only [step, System.loops_alone_self, hretry]
    split <;> simp [System.alone_moveLoop]
  | failedHandled s r =>
    obtain rfl : s = b := by simpa [Action.visibleTo] using hvis
    simp only [step, System.loops_alone_self]
    split <;> simp [System.alone_moveLoop]
  | replayFrom s messageId =>
    obtain rfl : s = b := by simpa [Action.visibleTo] using hvis
    simp [step, SubscribableQueue.replayFrom_alone, System.alone]
  | replayFromDlq s messageId =>
    obtain rfl : s = b := by simpa [Action.visibleTo] using hvis
    simp [step, replayFromDlq_alone, System.startReplay_alone]
  | replayAllDlqMessages s =>
    obtain rfl : s = b := by simpa [Action.visibleTo] using hvis
    simp [step, replayAllDlqMessages_alone, System.startReplay_alone]
  | runScheduled s call =>
    obtain rfl : s = b := by simpa [Action.visibleTo] using hvis
    simp only [step, System.replays_alone_self, System.queue_alone, replayAllDlqMessages_alone,
      replayCalls_alone]
    split <;> simp [System.alone_moveReplay]
  | replayReceived s call r =>
    obtain rfl : s = b := by simpa [Action.visibleTo] using hvis
    simp only [step, System.replays_alone_self, System.queue_alone, replayReceived_alone]
    split
    · rename_i phase _
      cases replayReceived σ.queue s call phase r with
      | none => rfl
      | some x => simp [System.alone_moveReplay]
    · rfl
  | replayFailedHandled s call r =>
    obtain rfl : s = b := by simpa [Action.visibleTo] using hvis
    simp only [step, System.replays_alone_self, System.queue_alone, replayFailedHandled_alone]
    split
    · split <;> simp [System.alone_moveReplay]
    · rfl

/-- Moving another's loop on, with at most its own cursor changed. -/
theorem System.alone_moveLoop_of_ne (hne : s ≠ b) {q : SubscribableQueue} (p : DispatchPhase)
    (hq : q.alone b = σ.queue.alone b) : (σ.moveLoop s q p).alone b = σ.alone b := by
  simp [alone, moveLoop, hq, hne.symm]

theorem System.alone_moveReplay_of_ne (hne : s ≠ b) {q : SubscribableQueue} (call : ℕ)
    (p : ReplayPhase) (hq : q.alone b = σ.queue.alone b) :
    (σ.moveReplay s call q p).alone b = σ.alone b := by
  simp [alone, moveReplay, hq, hne.symm]

theorem System.alone_startReplay_of_ne (hne : s ≠ b) (p : ReplayPhase) :
    (σ.startReplay s p).1.alone b = σ.alone b := by
  simp [alone, startReplay, hne.symm]

theorem handedOf_replayCalls_of_ne (hne : s ≠ b) (q : SubscribableQueue) (call : ℕ)
    (p : ReplayPhase) : handedOf b (replayCalls q s call p) = [] := by
  cases p <;> simp [replayCalls, handedOf, hne]

/-- A step of another's loop writes to no cursor but its own, and hands nothing to this one. -/
theorem LoopEffect.alone_of_ne {q q' : SubscribableQueue} {p p' : DispatchPhase} (hne : s ≠ b)
    (h : LoopEffect q s p q' p' evs) : q'.alone b = q.alone b ∧ handedOf b evs = [] := by
  cases h with
  | addToDlq hs =>
    rw [SubscribableQueue.addToDeadLetterQueue_of_mem hs]
    exact ⟨SubscribableQueue.alone_setCursor_of_ne hne _, rfl⟩
  | commit hs =>
    rw [SubscribableQueue.commit_of_mem hs]
    exact ⟨SubscribableQueue.alone_setCursor_of_ne hne _, rfl⟩
  | _ => exact ⟨rfl, by simp [handedOf, hne]⟩

/-- **Nothing another subscriber does shows.** -/
theorem Effect.alone_of_other (h : Effect σ a σ' evs) (hvis : a.visibleTo b = false) :
    σ'.alone b = σ.alone b ∧ handedOf b evs = [] := by
  cases h with
  | enqueue _ | changeMessagePayload _ _ | beginPrune _ _ | prune _ | dispose
  | replayAllDlqSubscribers => simp [Action.visibleTo] at hvis
  | @subscribe s _ p _ =>
    have hne : s ≠ b := by simpa [Action.visibleTo] using hvis
    refine ⟨?_, rfl⟩
    simp [System.alone, SubscribableQueue.alone_addSubscriber_of_ne hne, hne, hne.symm]
  | unsubscribe s =>
    have hne : s ≠ b := by simpa [Action.visibleTo] using hvis
    refine ⟨?_, rfl⟩
    simp [System.alone, SubscribableQueue.alone_unsubscribe_of_ne hne]
  | @dispatch s _ _ _ _ _ hl =>
    have hne : s ≠ b := by simpa [Action.visibleTo] using hvis
    obtain ⟨hq, hhanded⟩ := hl.alone_of_ne hne
    exact ⟨System.alone_moveLoop_of_ne hne _ hq, hhanded⟩
  | @received s _ _ _ _ | @retried s _ _ _ _ | @failedHandled s _ _ _ =>
    have hne : s ≠ b := by simpa [Action.visibleTo] using hvis
    exact ⟨System.alone_moveLoop_of_ne hne _ rfl, rfl⟩
  | @replayFrom s _ _ _ h =>
    have hne : s ≠ b := by simpa [Action.visibleTo] using hvis
    obtain ⟨-, -, -, -, -, rfl⟩ := SubscribableQueue.replayFrom_eq_replayedFrom h
    refine ⟨?_, rfl⟩
    simp [System.alone, SubscribableQueue.alone_setCursor_of_ne hne]
  | replayFromRefused _ _ => exact ⟨rfl, rfl⟩
  | replayFromDlq s _ | replayAllDlqMessages s =>
    have hne : s ≠ b := by simpa [Action.visibleTo] using hvis
    exact ⟨System.alone_startReplay_of_ne hne _, handedOf_replayCalls_of_ne hne _ _ _⟩
  | @runScheduled s _ _ =>
    have hne : s ≠ b := by simpa [Action.visibleTo] using hvis
    exact ⟨System.alone_moveReplay_of_ne hne _ _ rfl, handedOf_replayCalls_of_ne hne _ _ _⟩
  | @replayAcked s _ _ _ _ _ _ =>
    have hne : s ≠ b := by simpa [Action.visibleTo] using hvis
    exact ⟨System.alone_moveReplay_of_ne hne _ _ (SubscribableQueue.alone_setCursor_of_ne hne _),
      handedOf_replayCalls_of_ne hne _ _ _⟩
  | @replayNotAcked s _ _ _ _ _ _ | @replayThrew s _ _ _ _ _ =>
    have hne : s ≠ b := by simpa [Action.visibleTo] using hvis
    exact ⟨System.alone_moveReplay_of_ne hne _ _ rfl, rfl⟩
  | @replayFailed s _ _ _ _ _ =>
    have hne : s ≠ b := by simpa [Action.visibleTo] using hvis
    exact ⟨System.alone_moveReplay_of_ne hne _ _ rfl, handedOf_replayCalls_of_ne hne _ _ _⟩

end Steps

/-! ### Runs -/

section Runs

variable {ttl : TimeSpan} {n : ℕ} {tr tr' : Trace} {σ σ' : System}

/-- The part of a run a subscriber takes part in, with the others forgotten. -/
def projectTo (b : Guid) (tr : Trace) : Trace :=
  (tr.filter fun t => t.act.visibleTo b).map (.map fun σ => σ.alone b)

/-- **Every run projects to one in which the subscriber is alone**, and is handed the same. -/
theorem run_projectTo (h : RunOf ttl n tr σ) (b : Guid) :
    RunOf ttl n (projectTo b tr) (σ.alone b) ∧
      handedOf b (events (projectTo b tr)) = handedOf b (events tr) := by
  constructor
  · have hinit : (System.init ttl n).alone b = System.init ttl n := by
      simp [System.alone, System.init, SubscribableQueue.alone]
    have hrun : Run step ((System.init ttl n).alone b) (projectTo b tr) (σ.alone b) := by
      refine h.project (fun a => a.visibleTo b) (fun σ => σ.alone b) ?_ ?_
      · intro σ a σ' out hstep hvis
        rw [step_alone hvis, hstep]
        rfl
      · intro σ a σ' out hstep hvis
        exact ((effect_of_step hstep).alone_of_other hvis).1
    rwa [hinit] at hrun
  · -- what is left out of the projection hands the subscriber nothing
    refine h.invariant (I := fun tr _ =>
      handedOf b (events (projectTo b tr)) = handedOf b (events tr)) rfl ?_
    intro tr σ a evs σ' _ hi hs
    cases hvis : a.visibleTo b with
    | true => simpa [projectTo, hvis, Transition.map] using hi
    | false =>
      have hnone := ((effect_of_step hs).alone_of_other hvis).2
      simpa [projectTo, hvis, hnone] using hi

/-- **Subscribers are independent.** Take two runs with the same actions of a subscriber and
on the buffer, the payloads and all subscribers at once, in the same order, and whatever
actions of the others. In both the subscriber is handed the same messages with the same
payloads, and ends with the same position, commit flag and dead letters, which have the same
payloads. -/
theorem subscribers_independent (h : RunOf ttl n tr σ) (h' : RunOf ttl n tr' σ') (b : Guid)
    (hacts : (tr.map (·.act)).filter (·.visibleTo b) = (tr'.map (·.act)).filter (·.visibleTo b)) :
    handedOf b (events tr) = handedOf b (events tr') ∧
      (σ.queue.cursors b).index = (σ'.queue.cursors b).index ∧
      (σ.queue.cursors b).isCommitted = (σ'.queue.cursors b).isCommitted ∧
      (σ.queue.cursors b).deadLetterQueue = (σ'.queue.cursors b).deadLetterQueue ∧
      ∀ m ∈ (σ.queue.cursors b).deadLetterQueue,
        σ.queue.payloads m.id = σ'.queue.payloads m.id := by
  obtain ⟨hrun, hhanded⟩ := run_projectTo h b
  obtain ⟨hrun', hhanded'⟩ := run_projectTo h' b
  have hsame : (projectTo b tr).map (·.act) = (projectTo b tr').map (·.act) := by
    simpa [projectTo, Transition.map, List.filter_map, Function.comp_def] using hacts
  obtain ⟨htr, hσ⟩ := hrun.deterministic hrun' hsame
  have hcursor : σ.queue.cursors b = σ'.queue.cursors b := by
    have := congrArg (fun σ => σ.queue.cursors b) hσ
    simpa using this
  have hpayloads : σ.queue.payloads = σ'.queue.payloads :=
    congrArg (fun σ => σ.queue.payloads) hσ
  refine ⟨?_, congrArg _ hcursor, congrArg _ hcursor, congrArg _ hcursor, fun m _ => ?_⟩
  · rw [← hhanded, ← hhanded', htr]
  · rw [hpayloads]

/-- The theorem at two runs, in one of which another subscriber takes part and blocks. -/
theorem subscribers_independent_blocked : ∃ tr tr' σ σ', RunOf 100 0 tr σ ∧ RunOf 100 0 tr' σ' ∧
    tr.length ≠ tr'.length ∧ (σ.queue.cursors 7).deadLetterQueue = [⟨1, 10⟩] ∧
    handedOf 7 (events tr) = handedOf 7 (events tr') ∧
    (σ.queue.cursors 7).index = (σ'.queue.cursors 7).index ∧
    (σ.queue.cursors 7).isCommitted = (σ'.queue.cursors 7).isCommitted ∧
    (σ.queue.cursors 7).deadLetterQueue = (σ'.queue.cursors 7).deadLetterQueue ∧
    ∀ m ∈ (σ.queue.cursors 7).deadLetterQueue, σ.queue.payloads m.id = σ'.queue.payloads m.id := by
  have h := runOf_exec 100 0 [.subscribe 7, .enqueue 1 10 none, .dispatch 7, .dispatch 7,
    .dispatch 7, .received 7 (.ok .nack), .dispatch 7, .failedHandled 7 (.ok .addToDLQ),
    .dispatch 7, .dispatch 7] (by decide)
  have h' := runOf_exec 100 0 [.subscribe 8, .subscribe 7, .enqueue 1 10 none, .dispatch 8,
    .dispatch 7, .dispatch 8, .dispatch 7, .dispatch 8, .received 8 (.ok .nack), .dispatch 7,
    .dispatch 8, .received 7 (.ok .nack), .failedHandled 8 (.ok .block), .dispatch 7,
    .failedHandled 7 (.ok .addToDLQ), .dispatch 7, .unsubscribe 8, .dispatch 7] (by decide)
  exact ⟨_, _, _, _, h, h', by decide, by decide, subscribers_independent h h' 7 (by decide)⟩

end Runs

end PushDeliveredQueue
