import PushDeliveredQueue.Buffer
import PushDeliveredQueue.Lifecycle

/-!
# One subscriber's cursor

The part of the system that decides what a subscriber is given next: the buffer, its index
into it, whether it is registered, and the message its dispatch loop is delivering. This is
its `PushDeliveredQueue.CursorView`, and `PushDeliveredQueue.Effect.cursorStep` says what a
transition of the whole system can do to it, whoever took it: eleven cases, most of them
the identity.

A property of one cursor over whole runs is then proved over `PushDeliveredQueue.CursorStep`
alone, through `PushDeliveredQueue.cursorInvariant`, where the other subscribers, the replay
calls, the cancellation sources and the phases of a delivery are out of sight.
-/

namespace PushDeliveredQueue

open Transitions

/-! ### The view -/

/-- Where a subscriber stands with respect to the dictionary of subscribers. A `Guid` is
given out once, so a subscriber that has left does not come back. -/
inductive Standing where
  | absent
  | registered
  | removed
  deriving DecidableEq

/-- What matters for the cursor of one subscriber. -/
structure CursorView where
  buffer : List MessageEnvelope
  index : ℤ
  standing : Standing
  /-- The message being delivered: read, and neither committed nor given up. -/
  delivering : Option MessageEnvelope

namespace System

/-- The standing of a subscriber. -/
def standing (σ : System) (s : Guid) : Standing :=
  if s ∈ σ.queue.subscribers then .registered
  else if s ∈ σ.subscriberIds then .removed
  else .absent

/-- The view of a subscriber's cursor. -/
def cursorView (σ : System) (s : Guid) : CursorView where
  buffer := σ.queue.buffer
  index := (σ.queue.cursors s).index
  standing := σ.standing s
  delivering := (σ.loops s).message

variable {σ σ' : System} {s s' : Guid}

theorem standing_eq_registered : σ.standing s = .registered ↔ s ∈ σ.queue.subscribers := by
  by_cases h : s ∈ σ.queue.subscribers <;> by_cases h' : s ∈ σ.subscriberIds <;>
    simp [standing, h, h']

theorem standing_eq_removed :
    σ.standing s = .removed ↔ s ∉ σ.queue.subscribers ∧ s ∈ σ.subscriberIds := by
  by_cases h : s ∈ σ.queue.subscribers <;> by_cases h' : s ∈ σ.subscriberIds <;>
    simp [standing, h, h']

theorem standing_eq_absent :
    σ.standing s = .absent ↔ s ∉ σ.queue.subscribers ∧ s ∉ σ.subscriberIds := by
  by_cases h : s ∈ σ.queue.subscribers <;> by_cases h' : s ∈ σ.subscriberIds <;>
    simp [standing, h, h']

/-- A subscriber whose loop has been started has been given its `Guid`. -/
theorem WellFormed.standing_ne_absent (hw : σ.WellFormed) (hl : σ.loops s ≠ .notStarted) :
    σ.standing s ≠ .absent := by
  intro h
  exact hl (hw.unknown_idle s (standing_eq_absent.mp h).2)

theorem standing_congr (hs : σ'.queue.subscribers = σ.queue.subscribers)
    (hids : σ'.subscriberIds = σ.subscriberIds) : σ'.standing s = σ.standing s := by
  rw [standing, standing, hs, hids]

/-- A `Guid` that has not been given out is nobody's. -/
theorem WellFormed.standing_eq_absent_of_fresh (hw : σ.WellFormed) (hs : s ∉ σ.subscriberIds) :
    σ.standing s = .absent :=
  standing_eq_absent.mpr ⟨fun hreg => hs (hw.registered_known s hreg), hs⟩

theorem standing_subscribe_of_ne (hne : s ≠ s') (loops : Guid → DispatchPhase) :
    standing { σ with
      queue := σ.queue.addSubscriber s'
      subscriberIds := s' :: σ.subscriberIds
      loops := loops } s = σ.standing s := by
  simp [standing, SubscribableQueue.addSubscriber, hne]

theorem WellFormed.standing_unsubscribe_self (hw : σ.WellFormed)
    (hreg : σ.standing s = .registered) :
    standing { σ with queue := σ.queue.unsubscribe s } s = .removed := by
  rw [standing_eq_removed]
  exact ⟨fun h => (SubscribableQueue.mem_subscribers_unsubscribe.mp h).2 rfl,
    hw.registered_known s (standing_eq_registered.mp hreg)⟩

/-- Only a registered subscriber leaves, and only by its own `Unsubscribe`. -/
theorem standing_unsubscribe_of_not (h : ¬ (s = s' ∧ σ.standing s = .registered)) :
    standing { σ with queue := σ.queue.unsubscribe s' } s = σ.standing s := by
  rw [standing_eq_registered] at h
  have hiff : s ∈ (σ.queue.unsubscribe s').subscribers ↔ s ∈ σ.queue.subscribers := by
    rw [SubscribableQueue.mem_subscribers_unsubscribe]
    exact ⟨And.left, fun hreg => ⟨hreg, fun he => h ⟨he, hreg⟩⟩⟩
  simp only [standing, hiff]

/-- Two states that agree on what the view is made of have the same view. -/
theorem cursorView_congr (hb : σ'.queue.buffer = σ.queue.buffer)
    (hi : (σ'.queue.cursors s).index = (σ.queue.cursors s).index)
    (hs : σ'.standing s = σ.standing s)
    (hl : (σ'.loops s).message = (σ.loops s).message) : σ'.cursorView s = σ.cursorView s := by
  rw [cursorView, cursorView, hb, hi, hs, hl]

/-- Moving the own loop on with the queue as it was changes the message under delivery. -/
theorem cursorView_moveLoop (p : DispatchPhase) :
    (σ.moveLoop s σ.queue p).cursorView s = { σ.cursorView s with delivering := p.message } := by
  simp only [cursorView, moveLoop, Function.update_self]
  rfl

/-- Moving the own loop on with the cursor written to changes its index too. -/
theorem cursorView_moveLoop_setCursor (c : CursorState) (p : DispatchPhase) :
    (σ.moveLoop s (σ.queue.setCursor s c) p).cursorView s =
      { σ.cursorView s with index := c.index, delivering := p.message } := by
  simp only [cursorView, moveLoop, Function.update_self, SubscribableQueue.cursors_setCursor_self]
  rfl

/-- Writing to the own cursor changes the index. -/
theorem cursorView_setCursor (c : CursorState) :
    ({ σ with queue := σ.queue.setCursor s c } : System).cursorView s =
      { σ.cursorView s with index := c.index } := by
  simp only [cursorView, SubscribableQueue.cursors_setCursor_self]
  rfl

/-- A prune pass moves the buffer on, and the index with it if it is registered. -/
theorem cursorView_prune (σ : System) (s : Guid) (cutoff : DateTime) (passes : List DateTime) :
    ({ σ with queue := σ.queue.pruneExpiredMessages cutoff, passes := passes } : System).cursorView
        s =
      { σ.cursorView s with
        buffer := (σ.queue.pruneExpiredMessages cutoff).buffer
        index :=
          if (σ.cursorView s).standing = .registered ∧ σ.queue.expired cutoff ≠ [] then
            max 0 ((σ.cursorView s).index - (σ.queue.expired cutoff).length)
          else (σ.cursorView s).index } := by
  have hreg : (σ.cursorView s).standing = .registered ↔ s ∈ σ.queue.subscribers :=
    standing_eq_registered
  have hindex := σ.queue.cursors_pruneExpiredMessages cutoff s
  have hstanding : standing { σ with
      queue := σ.queue.pruneExpiredMessages cutoff, passes := passes } s = σ.standing s :=
    standing_congr (by simp) rfl
  simp only [hreg]
  simp only [cursorView, hindex, hstanding]
  split_ifs <;> rfl

/-- Subscribing sets the index to `0`. -/
theorem cursorView_subscribe (σ : System) (s : Guid) {p : DispatchPhase}
    (hp : p.message = (σ.loops s).message) :
    ({ σ with
        queue := σ.queue.addSubscriber s
        subscriberIds := s :: σ.subscriberIds
        loops := Function.update σ.loops s p } : System).cursorView s =
      { σ.cursorView s with index := 0, standing := .registered } := by
  simp [cursorView, standing, SubscribableQueue.addSubscriber, hp]

/-- Unsubscribing does not move the cursor. -/
theorem cursorView_unsubscribe (hw : σ.WellFormed) (hreg : σ.standing s = .registered) :
    ({ σ with queue := σ.queue.unsubscribe s } : System).cursorView s =
      { σ.cursorView s with standing := .removed } := by
  obtain ⟨c, hc⟩ := σ.queue.cursors_unsubscribe s s
  simp only [cursorView, hc, hw.standing_unsubscribe_self hreg,
    SubscribableQueue.buffer_unsubscribe]

/-- Moving another's loop on, with at most its cursor changed, is not seen. -/
theorem cursorView_moveLoop_of_ne (hne : s ≠ s') {q : SubscribableQueue} (p : DispatchPhase)
    (hq : q = σ.queue ∨ ∃ c, q = σ.queue.setCursor s' c) :
    (σ.moveLoop s' q p).cursorView s = σ.cursorView s := by
  have hl : (σ.moveLoop s' q p).loops s = σ.loops s := by
    simp [moveLoop, hne]
  rcases hq with rfl | ⟨c, rfl⟩
  · exact cursorView_congr rfl rfl rfl (congrArg _ hl)
  · exact cursorView_congr rfl
      (congrArg _ (SubscribableQueue.cursors_setCursor_of_ne _ hne c)) rfl (congrArg _ hl)

/-- Writing to a dead letter queue is not seen, whosever it is. -/
theorem cursorView_setDeadLetterQueue (dlq : List MessageEnvelope) {ρ : Guid → List ReplayPhase} :
    ({ σ with queue := σ.queue.setDeadLetterQueue s' dlq, replays := ρ } : System).cursorView s =
      σ.cursorView s := by
  refine cursorView_congr rfl ?_ rfl rfl
  rcases eq_or_ne s s' with rfl | hne
  · simp [SubscribableQueue.setDeadLetterQueue]
  · exact congrArg _ (SubscribableQueue.cursors_setCursor_of_ne _ hne _)

end System

/-! ### What can happen to it -/

/-- The events that tell of a change to a subscriber's view. -/
def Event.Concerns (s : Guid) : Event → Prop
  | .enqueued _ | .pruned _ => True
  | .replayedFrom s' _ _ | .dispatchRead s' _ | .committed s' _ | .commitMissed s' _ => s' = s
  | .receiveCalled .. | .receiveReturned .. | .failedCalled .. | .failedReturned ..
  | .addedToDlq .. => False

/-- Events none of which concerns a subscriber's view. -/
def Quiet (s : Guid) (evs : List Event) : Prop := ∀ e ∈ evs, ¬ e.Concerns s

section Quiet

variable {s : Guid} {evs : List Event}

theorem quiet_nil : Quiet s [] := by
  intro e he
  simp at he

theorem quiet_singleton {e : Event} : Quiet s [e] ↔ ¬ e.Concerns s := by
  simp [Quiet]

theorem quiet_cons {e : Event} : Quiet s (e :: evs) ↔ ¬ e.Concerns s ∧ Quiet s evs := by
  simp [Quiet]

theorem quiet_replayCalls (q : SubscribableQueue) (s' : Guid) (call : ℕ) (p : ReplayPhase) :
    Quiet s (replayCalls q s' call p) := by
  cases p <;> simp [Quiet, replayCalls, Event.Concerns]

theorem Quiet.enqueuedOf_eq (h : Quiet s evs) : enqueuedOf evs = [] := by
  rw [enqueuedOf, List.filterMap_eq_nil_iff]
  intro e he
  have hc := h e he
  cases e <;> simp_all [Event.Concerns]

theorem Quiet.prunedOf_eq (h : Quiet s evs) : prunedOf evs = [] := by
  rw [prunedOf, List.flatMap_eq_nil_iff]
  intro e he
  have hc := h e he
  cases e <;> simp_all [Event.Concerns]

theorem Quiet.readsOf_eq (h : Quiet s evs) : readsOf s evs = [] := by
  rw [readsOf, List.filterMap_eq_nil_iff]
  intro e he
  have hc := h e he
  cases e <;> simp_all [Event.Concerns]

theorem Quiet.committedOf_eq (h : Quiet s evs) : committedOf s evs = [] := by
  rw [committedOf, List.filterMap_eq_nil_iff]
  intro e he
  have hc := h e he
  cases e <;> simp_all [Event.Concerns]

end Quiet

/-- **What a transition can do to the view of a subscriber**, with the events it emits. -/
inductive CursorStep (s : Guid) : CursorView → List Event → CursorView → Prop
  | enqueue (v : CursorView) (m : MessageEnvelope) :
      CursorStep s v [.enqueued m] { v with buffer := v.buffer ++ [m] }
  | prune {v : CursorView} {gone kept : List MessageEnvelope} (h : v.buffer = gone ++ kept) :
      CursorStep s v [.pruned gone]
        { v with
          buffer := kept
          index :=
            if v.standing = .registered ∧ gone ≠ [] then max 0 (v.index - gone.length)
            else v.index }
  | subscribe {v : CursorView} (hs : v.standing = .absent) (hd : v.delivering = none) :
      CursorStep s v [] { v with index := 0, standing := .registered }
  | unsubscribe {v : CursorView} (hs : v.standing = .registered) :
      CursorStep s v [] { v with standing := .removed }
  | replayFrom {v : CursorView} {m : MessageEnvelope} {i : ℕ} (hs : v.standing = .registered)
      (h0 : 0 ≤ v.index) (hend : (v.buffer.length : ℤ) ≤ v.index + 1)
      (hm : v.buffer[i]? = some m) :
      CursorStep s v [.replayedFrom s m.id i] { v with index := i }
  | readNothing {v : CursorView} (hs : v.standing ≠ .absent) (hd : v.delivering = none)
      (h : (v.buffer.length : ℤ) ≤ v.index) : CursorStep s v [.dispatchRead s none] v
  | read {v : CursorView} {m : MessageEnvelope} (hs : v.standing ≠ .absent)
      (hd : v.delivering = none) (h0 : 0 ≤ v.index) (hm : v.buffer[v.index.toNat]? = some m) :
      CursorStep s v [.dispatchRead s (some m)] { v with delivering := some m }
  | commit {v : CursorView} {m : MessageEnvelope} (hs : v.standing = .registered)
      (hd : v.delivering = some m) :
      CursorStep s v [.committed s m] { v with index := v.index + 1, delivering := none }
  | commitMissed {v : CursorView} {m : MessageEnvelope} (hs : v.standing = .removed)
      (hd : v.delivering = some m) :
      CursorStep s v [.commitMissed s m] { v with delivering := none }
  /-- The delivery ends without a commit. -/
  | release {v : CursorView} {m : MessageEnvelope} {evs : List Event}
      (hd : v.delivering = some m) (h : Quiet s evs) :
      CursorStep s v evs { v with delivering := none }
  | quiet {v : CursorView} {evs : List Event} (h : Quiet s evs) : CursorStep s v evs v

/-! ### Every transition is such a step -/

section Frames

variable {σ σ' : System} {a : Action} {evs : List Event} {s s' : Guid}

/-- What moving the own loop on means for the view: nothing as long as the message stays
the same. -/
theorem CursorStep.of_moveLoop {p : DispatchPhase} (hp : p.message = (σ.loops s).message)
    (h : Quiet s evs) :
    CursorStep s (σ.cursorView s) evs ((σ.moveLoop s σ.queue p).cursorView s) := by
  rw [System.cursorView_moveLoop, hp]
  exact .quiet h

/-- Moving the own loop on to a phase without a message ends the delivery. -/
theorem CursorStep.of_moveLoop_release {p : DispatchPhase} (hp : p.message = none)
    (h : Quiet s evs) :
    CursorStep s (σ.cursorView s) evs ((σ.moveLoop s σ.queue p).cursorView s) := by
  rcases hm : (σ.loops s).message with _ | m
  · exact .of_moveLoop (hp.trans hm.symm) h
  · rw [System.cursorView_moveLoop, hp]
    exact .release hm h

/-- A loop says nothing about the cursors of others. -/
theorem LoopEffect.quiet {q q' : SubscribableQueue} {p p' : DispatchPhase}
    (h : LoopEffect q s' p q' p' evs) (hne : s ≠ s') : Quiet s evs := by
  cases h <;> simp [Quiet, Event.Concerns, hne.symm]

/-- The step of its own dispatch loop, as a subscriber's view sees it. -/
theorem LoopEffect.cursorStep (hw : σ.WellFormed) {q : SubscribableQueue} {p p' : DispatchPhase}
    (hp : σ.loops s = p) (h : LoopEffect σ.queue s p q p' evs) :
    CursorStep s (σ.cursorView s) evs ((σ.moveLoop s q p').cursorView s) := by
  have hstarted : σ.standing s ≠ .absent :=
    hw.standing_ne_absent (hp ▸ h.started.1)
  have hmsg : (σ.cursorView s).delivering = p.message := congrArg DispatchPhase.message hp
  cases h with
  | checkThrows _ | checkStops _ | checkPasses _ _ | readThrows _ | delayThrows _ | delayEnds =>
    exact .of_moveLoop_release rfl quiet_nil
  | failedThrows _ | manualRetryThrows _ => exact .of_moveLoop_release rfl quiet_nil
  | readNothing h =>
    rw [System.cursorView_moveLoop]
    exact hmsg ▸ .readNothing hstarted hmsg h
  | read h0 h =>
    rw [System.cursorView_moveLoop]
    exact .read hstarted hmsg h0 h
  | attemptThrows _ =>
    exact .of_moveLoop ((message_afterAttempt _ _ _ _).trans (hp ▸ rfl)) quiet_nil
  | attempt _ | failed _ | manualRetry _ =>
    exact .of_moveLoop (hp ▸ rfl) (quiet_singleton.mpr id)
  | addToDlq hs =>
    rw [SubscribableQueue.addToDeadLetterQueue_of_mem hs]
    rw [System.cursorView_moveLoop_setCursor]
    exact hmsg ▸ .quiet (quiet_singleton.mpr id)
  | addToDlqMisses _ => exact .of_moveLoop (hp ▸ rfl) quiet_nil
  | commit hs =>
    rw [SubscribableQueue.commit_of_mem hs, System.cursorView_moveLoop_setCursor]
    exact .commit (System.standing_eq_registered.mpr hs) hmsg
  | commitMisses hs =>
    rw [System.cursorView_moveLoop]
    refine .commitMissed (System.standing_eq_removed.mpr ⟨hs, ?_⟩) hmsg
    by_contra hids
    exact hstarted (System.standing_eq_absent.mpr ⟨hs, hids⟩)

/-- A transition that changes neither the buffer, nor the index and standing of a subscriber,
nor the message it is being delivered, and tells nothing of them. -/
theorem CursorStep.of_congr (h : Quiet s evs) (hb : σ'.queue.buffer = σ.queue.buffer)
    (hi : (σ'.queue.cursors s).index = (σ.queue.cursors s).index)
    (hs : σ'.standing s = σ.standing s) (hl : (σ'.loops s).message = (σ.loops s).message) :
    CursorStep s (σ.cursorView s) evs (σ'.cursorView s) := by
  rw [System.cursorView_congr hb hi hs hl]
  exact .quiet h

/-- A handler call the own loop awaits comes back. -/
theorem CursorStep.of_answer {p : DispatchPhase} {m : MessageEnvelope}
    (hl : (σ.loops s').message = some m) (hp : p.message = some m ∨ p.message = none)
    (h : Quiet s evs) :
    CursorStep s (σ.cursorView s) evs ((σ.moveLoop s' σ.queue p).cursorView s) := by
  rcases eq_or_ne s s' with rfl | hne
  · rcases hp with hp | hp
    · exact .of_moveLoop (hp.trans hl.symm) h
    · exact .of_moveLoop_release hp h
  · rw [System.cursorView_moveLoop_of_ne hne _ (Or.inl rfl)]
    exact .quiet h

/-- **Every transition of the system is such a step of every subscriber's view.** -/
theorem Effect.cursorStep (hw : σ.WellFormed) (h : Effect σ a σ' evs) (s : Guid) :
    CursorStep s (σ.cursorView s) evs (σ'.cursorView s) := by
  cases h with
  | enqueue _ => exact .enqueue _ _
  | changeMessagePayload messageId payload =>
    exact .of_congr quiet_nil (by simp) (by simp) (System.standing_congr (by simp) rfl) rfl
  | beginPrune _ _ | replayAllDlqSubscribers => exact .quiet quiet_nil
  | replayFromRefused _ _ => exact .quiet quiet_nil
  | @prune _ cutoff _ =>
    rw [σ.cursorView_prune s cutoff _]
    exact .prune (σ.queue.expired_append_buffer cutoff).symm
  | @subscribe s' hs p hp =>
    rcases eq_or_ne s s' with rfl | hne
    · have hidle : (σ.loops s).message = none := congrArg _ (hw.unknown_idle s hs)
      have hstart : p.message = none := by
        rcases hp with ⟨rfl, -⟩ | ⟨rfl, -⟩ <;> rfl
      rw [σ.cursorView_subscribe s (hstart.trans hidle.symm)]
      exact .subscribe (hw.standing_eq_absent_of_fresh hs) hidle
    · refine .of_congr quiet_nil rfl ?_ (System.standing_subscribe_of_ne hne _) ?_
      · simp [SubscribableQueue.addSubscriber, hne]
      · simp [hne]
  | unsubscribe s' =>
    by_cases hself : s = s' ∧ σ.standing s = .registered
    · obtain ⟨rfl, hreg⟩ := hself
      rw [System.cursorView_unsubscribe hw hreg]
      exact .unsubscribe hreg
    · obtain ⟨c, hc⟩ := σ.queue.cursors_unsubscribe s' s
      have hindex : ((σ.queue.unsubscribe s').cursors s).index = (σ.queue.cursors s).index := by
        rw [hc]
      exact .of_congr quiet_nil (by simp) hindex (System.standing_unsubscribe_of_not hself) rfl
  | dispose =>
    obtain ⟨c, hc⟩ := σ.queue.cursors_dispose s
    have hindex : (σ.queue.dispose.cursors s).index = (σ.queue.cursors s).index := by
      rw [hc]
    exact .of_congr quiet_nil rfl hindex rfl rfl
  | @dispatch s' q p p' _ hp hl =>
    rcases eq_or_ne s s' with rfl | hne
    · exact hl.cursorStep hw hp
    · have hq : q = σ.queue ∨ ∃ c, q = σ.queue.setCursor s' c :=
        hl.queue.imp id fun h => h.imp fun _ => And.right
      rw [System.cursorView_moveLoop_of_ne hne _ hq]
      exact .quiet (hl.quiet hne)
  | received h r =>
    exact .of_answer (h ▸ rfl) (Or.inl (message_afterAttempt _ _ _ _)) (quiet_singleton.mpr id)
  | retried h r =>
    exact .of_answer (h ▸ rfl) (message_afterManualRetry _ _ _) (quiet_singleton.mpr id)
  | failedHandled h r =>
    exact .of_answer (h ▸ rfl) (message_afterFailedHandler _ _) (quiet_singleton.mpr id)
  | @replayFrom s' messageId q i h =>
    obtain ⟨hreg, h0, -, hend, hidx, rfl⟩ := SubscribableQueue.replayFrom_eq_replayedFrom h
    obtain ⟨hi, hid, -⟩ := List.findIdx?_eq_some_iff_getElem.mp hidx
    rcases eq_or_ne s s' with rfl | hne
    · rw [System.cursorView_setCursor]
      have hid' : σ.queue.buffer[i].id = messageId := by simpa using hid
      exact hid' ▸ .replayFrom (System.standing_eq_registered.mpr hreg) h0 hend
        (List.getElem?_eq_getElem hi)
    · refine .of_congr (quiet_singleton.mpr fun he => hne he.symm) rfl ?_ rfl rfl
      exact congrArg _ (SubscribableQueue.cursors_setCursor_of_ne _ hne _)
  | replayFromDlq _ _ | replayAllDlqMessages _ => exact .quiet (quiet_replayCalls _ _ _ _)
  | runScheduled _ => exact .quiet (quiet_replayCalls _ _ _ _)
  | replayAcked _ _ =>
    rw [System.moveReplay, System.cursorView_setDeadLetterQueue]
    exact .quiet (quiet_cons.mpr ⟨id, quiet_replayCalls _ _ _ _⟩)
  | replayNotAcked _ _ => exact .quiet (quiet_cons.mpr ⟨id, quiet_singleton.mpr id⟩)
  | replayThrew _ _ => exact .quiet (quiet_singleton.mpr id)
  | replayFailed _ _ => exact .quiet (quiet_cons.mpr ⟨id, quiet_replayCalls _ _ _ _⟩)

end Frames

/-- The view of a subscriber before it subscribes, in a new queue. -/
theorem System.cursorView_init (ttl : TimeSpan) (n : ℕ) (s : Guid) :
    (System.init ttl n).cursorView s = ⟨[], 0, .absent, none⟩ := by
  simp [System.cursorView, System.init, System.standing, DispatchPhase.message]

/-- **The invariant rule for one cursor.** A property of the history and the view of one
subscriber that holds at the start and is kept by every step of the view, the ledger being
balanced before and after, holds in every reachable state. -/
theorem cursorInvariant {I : List Event → CursorView → Prop} {s : Guid}
    (h0 : I [] ⟨[], 0, .absent, none⟩)
    (hstep : ∀ evs v evs' v', Ledger evs v.buffer → Ledger (evs ++ evs') v'.buffer →
      CursorStep s v evs' v' → I evs v → I (evs ++ evs') v')
    {ttl : TimeSpan} {n : ℕ} {tr : Trace} {σ : System} (h : RunOf ttl n tr σ) :
    I (events tr) (σ.cursorView s) := by
  refine h.invariant (I := fun tr σ => I (events tr) (σ.cursorView s)) ?_ ?_
  · rw [System.cursorView_init]
    exact h0
  · intro tr σ a evs σ' hrun hi hs
    have hpost := ledger_of_run (hrun.snoc hs)
    simp only [events_append, events_cons, events_nil, List.append_nil] at hpost ⊢
    exact hstep _ _ _ _ (ledger_of_run hrun) hpost
      ((effect_of_step hs).cursorStep (wellFormed_of_run hrun) s) hi

/-- **No index is ever negative**: no read of the buffer by a dispatch loop throws. -/
theorem CursorStep.index_nonneg {s : Guid} {v v' : CursorView} {evs : List Event}
    (h : CursorStep s v evs v') (h0 : 0 ≤ v.index) : 0 ≤ v'.index := by
  cases h with
  | prune _ =>
    dsimp only
    split_ifs
    · exact le_max_left _ _
    · exact h0
  | subscribe _ _ => exact le_refl _
  | replayFrom _ _ _ _ => exact Int.natCast_nonneg _
  | commit _ _ => exact Int.add_nonneg h0 Int.one_nonneg
  | _ => exact h0

theorem index_nonneg_of_run {ttl : TimeSpan} {n : ℕ} {tr : Trace} {σ : System}
    (h : RunOf ttl n tr σ) (s : Guid) : 0 ≤ (σ.queue.cursors s).index :=
  cursorInvariant (I := fun _ v => 0 ≤ v.index) (le_refl _)
    (fun _ _ _ _ _ _ hs => hs.index_nonneg) h (s := s)

/-- What is being delivered has been enqueued. -/
theorem delivering_enqueued_of_run {ttl : TimeSpan} {n : ℕ} {tr : Trace} {σ : System}
    (h : RunOf ttl n tr σ) {s : Guid} {m : MessageEnvelope}
    (hm : (σ.loops s).message = some m) : m ∈ enqueuedOf (events tr) := by
  refine cursorInvariant (s := s)
    (I := fun evs v => ∀ m, v.delivering = some m → m ∈ enqueuedOf evs) (by simp) ?_ h m hm
  intro evs v evs' v' hl _ hs hi m hm
  rw [enqueuedOf_append]
  refine List.mem_append_left _ ?_
  cases hs with
  | read _ _ _ hread =>
    obtain rfl : _ = m := by simpa using hm
    rw [hl.enqueued]
    exact List.mem_append_right _ (List.mem_of_getElem? hread)
  | commit _ _ | commitMissed _ _ | release _ _ => simp at hm
  | _ => exact hi m hm

end PushDeliveredQueue
