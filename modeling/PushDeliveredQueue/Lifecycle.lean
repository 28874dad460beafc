import PushDeliveredQueue.Steps

/-!
# Who is subscribed, and what has been cancelled

The part of the state that says who takes part: the dictionary of subscribers, the
cancellation sources, and whether each dispatch loop has been started. It changes under
`Subscribe`, `Unsubscribe` and `Dispose` only (`PushDeliveredQueue.Effect.lifecycleStep`),
and satisfies `PushDeliveredQueue.System.WellFormed` in every reachable state: a started
loop whose subscriber has left is cancelled, a disposed source is cancelled too, and none
is disposed before the queue's own.
-/

namespace PushDeliveredQueue

open Transitions

/-! ### Transitions that change none of it -/

/-- Two states that agree on who is subscribed, on what has been cancelled and on which
loops have been started. -/
structure SameLifecycle (σ σ' : System) : Prop where
  subscribers : σ'.queue.subscribers = σ.queue.subscribers
  subscriberIds : σ'.subscriberIds = σ.subscriberIds
  cts : σ'.queue.cts = σ.queue.cts
  cancellation : ∀ s, σ'.queue.cancellation s = σ.queue.cancellation s
  notStarted : ∀ s, σ'.loops s = .notStarted ↔ σ.loops s = .notStarted

namespace SubscribableQueue

variable (q : SubscribableQueue) (s : Guid)

/-- Writing to a cursor without touching its source touches nobody's. -/
theorem cancellation_setCursor {q : SubscribableQueue} {s : Guid} {c : CursorState}
    (hc : c.cancellation = q.cancellation s) (s' : Guid) :
    (q.setCursor s c).cancellation s' = q.cancellation s' := by
  rcases eq_or_ne s' s with rfl | hne
  · rw [cancellation, cursors_setCursor_self, hc]
  · rw [cancellation, cursors_setCursor_of_ne q hne]

theorem cancellation_pruneExpiredMessages (cutoff : DateTime) :
    (q.pruneExpiredMessages cutoff).cancellation s = q.cancellation s := by
  rw [cancellation, cursors_pruneExpiredMessages]
  split <;> rfl

@[simp] theorem cts_pruneExpiredMessages (cutoff : DateTime) :
    (q.pruneExpiredMessages cutoff).cts = q.cts := by
  simp only [pruneExpiredMessages]
  split <;> rfl

end SubscribableQueue

section Loop

variable {q q' : SubscribableQueue} {s : Guid} {p p' : DispatchPhase} {evs : List Event}

/-- Only a started loop takes steps, and it stays started. -/
theorem LoopEffect.started (h : LoopEffect q s p q' p' evs) :
    p ≠ .notStarted ∧ p' ≠ .notStarted := by
  cases h
  case attemptThrows => exact ⟨by simp, afterAttempt_ne rfl _ _ _ _⟩
  all_goals exact ⟨by simp, by simp⟩

/-- A loop changes at most its own cursor, and that in its index, its commit flag and its
dead letter queue. -/
theorem LoopEffect.queue (h : LoopEffect q s p q' p' evs) :
    q' = q ∨ ∃ c, c.cancellation = q.cancellation s ∧ q' = q.setCursor s c := by
  cases h
  case addToDlq hs =>
    rw [SubscribableQueue.addToDeadLetterQueue_of_mem hs]
    refine Or.inr ⟨_, ?_, rfl⟩
    rfl
  case commit hs =>
    rw [SubscribableQueue.commit_of_mem hs]
    refine Or.inr ⟨_, ?_, rfl⟩
    rfl
  all_goals exact Or.inl rfl

end Loop

section Frames

variable {σ σ' : System} {a : Action} {evs : List Event}

/-- Moving a started loop on, with the queue changed in one cursor or not at all. -/
theorem SameLifecycle.moveLoop {s : Guid} {q : SubscribableQueue} {p : DispatchPhase}
    (hs : σ.loops s ≠ .notStarted) (hp : p ≠ .notStarted)
    (hq : q = σ.queue ∨ ∃ c, c.cancellation = σ.queue.cancellation s ∧
      q = σ.queue.setCursor s c) : SameLifecycle σ (σ.moveLoop s q p) := by
  have hloops : ∀ s', (σ.moveLoop s q p).loops s' = .notStarted ↔ σ.loops s' = .notStarted := by
    intro s'
    rcases eq_or_ne s' s with rfl | hne
    · simp [System.moveLoop, hs, hp]
    · simp [System.moveLoop, hne]
  rcases hq with rfl | ⟨c, hc, rfl⟩
  · exact ⟨rfl, rfl, rfl, fun _ => rfl, hloops⟩
  · exact ⟨rfl, rfl, rfl, SubscribableQueue.cancellation_setCursor hc, hloops⟩

/-- Moving a replay call on, with the queue changed in one dead letter queue or not at
all. -/
theorem SameLifecycle.moveReplay {s : Guid} {call : ℕ} {q : SubscribableQueue} {p : ReplayPhase}
    (hq : q = σ.queue ∨ ∃ dlq, q = σ.queue.setDeadLetterQueue s dlq) :
    SameLifecycle σ (σ.moveReplay s call q p) := by
  rcases hq with rfl | ⟨dlq, rfl⟩
  · exact ⟨rfl, rfl, rfl, fun _ => rfl, fun _ => Iff.rfl⟩
  · exact ⟨rfl, rfl, rfl, SubscribableQueue.cancellation_setCursor rfl, fun _ => Iff.rfl⟩

/-- What a transition can do to who takes part. -/
inductive LifecycleStep (σ : System) : Action → System → Prop
  | subscribe {s : Guid} (hs : s ∉ σ.subscriberIds) {p : DispatchPhase}
      (hp : p = .checking ∧ σ.queue.cts.disposed = false ∨
        p = .notStarted ∧ (σ.queue.cts.disposed = true ∨
          σ.queue.cts.isCancellationRequested = true)) :
      LifecycleStep σ (.subscribe s)
        { σ with
          queue := σ.queue.addSubscriber s
          subscriberIds := s :: σ.subscriberIds
          loops := Function.update σ.loops s p }
  | unsubscribe (s : Guid) :
      LifecycleStep σ (.unsubscribe s) { σ with queue := σ.queue.unsubscribe s }
  | dispose : LifecycleStep σ .dispose { σ with queue := σ.queue.dispose }
  | same {a : Action} {σ' : System} (h : SameLifecycle σ σ') : LifecycleStep σ a σ'

/-- **Only `Subscribe`, `Unsubscribe` and `Dispose` change who takes part.** -/
theorem Effect.lifecycleStep (h : Effect σ a σ' evs) : LifecycleStep σ a σ' := by
  cases h with
  | subscribe hs hp => exact .subscribe hs hp
  | unsubscribe s => exact .unsubscribe s
  | dispose => exact .dispose
  | enqueue _ | beginPrune _ _ | replayFromRefused _ _ | replayFromDlq _ _
  | replayAllDlqMessages _ | replayAllDlqSubscribers =>
    exact .same ⟨rfl, rfl, rfl, fun _ => rfl, fun _ => Iff.rfl⟩
  | changeMessagePayload messageId payload =>
    exact .same ⟨by simp, rfl, by simp, fun _ => by simp [SubscribableQueue.cancellation],
      fun _ => Iff.rfl⟩
  | prune _ =>
    exact .same ⟨by simp, rfl, by simp,
      fun s => SubscribableQueue.cancellation_pruneExpiredMessages _ _ _, fun _ => Iff.rfl⟩
  | dispatch hp hl => exact .same (.moveLoop (hp ▸ hl.started.1) hl.started.2 hl.queue)
  | received h r =>
    exact .same (.moveLoop (by simp [h]) (afterAttempt_ne rfl _ _ _ _) (Or.inl rfl))
  | retried h r =>
    have hne := afterManualRetry_ne (p := .notStarted) rfl (by simp)
    exact .same (.moveLoop (by simp [h]) (hne _ _ _) (Or.inl rfl))
  | failedHandled h r =>
    have hne := afterFailedHandler_ne (p := .notStarted) rfl (by simp) (by simp)
    exact .same (.moveLoop (by simp [h]) (hne _ _) (Or.inl rfl))
  | replayFrom h =>
    obtain ⟨-, -, -, -, -, rfl⟩ := SubscribableQueue.replayFrom_eq_replayedFrom h
    exact .same ⟨rfl, rfl, rfl, SubscribableQueue.cancellation_setCursor rfl, fun _ => Iff.rfl⟩
  | runScheduled _ | replayNotAcked _ _ | replayThrew _ _ | replayFailed _ _ =>
    exact .same (.moveReplay (Or.inl rfl))
  | replayAcked _ _ => exact .same (.moveReplay (Or.inr ⟨_, rfl⟩))

end Frames

/-! ### Well-formed states -/

/-- What every reachable state satisfies, whatever has been subscribed, unsubscribed and
disposed of. -/
structure System.WellFormed (σ : System) : Prop where
  /-- A registered subscriber has been given its `Guid`. -/
  registered_known : ∀ s ∈ σ.queue.subscribers, s ∈ σ.subscriberIds
  /-- Nothing runs for a `Guid` that has not been given out. -/
  unknown_idle : ∀ s, s ∉ σ.subscriberIds → σ.loops s = .notStarted
  /-- The loop of a subscriber that has left is cancelled. -/
  left_cancelled : ∀ s, s ∉ σ.queue.subscribers → σ.loops s ≠ .notStarted →
    (σ.queue.cancellation s).isCancellationRequested = true
  /-- A disposed source has been cancelled. -/
  disposed_cancelled : ∀ s, (σ.queue.cancellation s).disposed = true →
    (σ.queue.cancellation s).isCancellationRequested = true
  /-- A source is disposed of with the queue. -/
  disposed_queue : ∀ s, (σ.queue.cancellation s).disposed = true → σ.queue.cts.disposed = true
  /-- Disposing of the queue has cancelled every loop started before. -/
  queue_disposed : σ.queue.cts.disposed = true → ∀ s, σ.loops s ≠ .notStarted →
    (σ.queue.cancellation s).isCancellationRequested = true
  /-- The queue's own source is cancelled only to be disposed of. -/
  queue_cancelled : σ.queue.cts.isCancellationRequested = true → σ.queue.cts.disposed = true

theorem System.WellFormed.init (ttl : TimeSpan) (n : ℕ) : (System.init ttl n).WellFormed := by
  constructor <;> simp [System.init]

theorem System.WellFormed.of_same {σ σ' : System} (h : SameLifecycle σ σ') (hw : σ.WellFormed) :
    σ'.WellFormed := by
  obtain ⟨h1, h2, h3, h4, h5⟩ := h
  obtain ⟨w1, w2, w3, w4, w5, w6, w7⟩ := hw
  refine ⟨?_, ?_, ?_, ?_, ?_, ?_, ?_⟩
  · rwa [h1, h2]
  · intro s hs
    exact (h5 s).mpr (w2 s (h2 ▸ hs))
  · intro s hs hl
    rw [h4]
    exact w3 s (h1 ▸ hs) (mt (h5 s).mpr hl)
  · intro s hs
    rw [h4] at hs ⊢
    exact w4 s hs
  · intro s hs
    rw [h4] at hs
    rw [h3]
    exact w5 s hs
  · intro hd s hl
    rw [h4]
    exact w6 (h3 ▸ hd) s (mt (h5 s).mpr hl)
  · rwa [h3]

section Preservation

variable {σ σ' : System} {a : Action} {evs : List Event}

theorem System.WellFormed.subscribe (hw : σ.WellFormed) {s : Guid} (hs : s ∉ σ.subscriberIds)
    {p : DispatchPhase} (hp : p = .notStarted ∨ σ.queue.cts.disposed = false) :
    System.WellFormed { σ with
      queue := σ.queue.addSubscriber s
      subscriberIds := s :: σ.subscriberIds
      loops := Function.update σ.loops s p } := by
  have hself : (σ.queue.addSubscriber s).cancellation s = {} := by
    simp [SubscribableQueue.cancellation, SubscribableQueue.addSubscriber]
  have hother : ∀ s' ≠ s, (σ.queue.addSubscriber s).cancellation s' = σ.queue.cancellation s' := by
    intro s' hne
    simp [SubscribableQueue.cancellation, SubscribableQueue.addSubscriber, hne]
  refine ⟨?_, ?_, ?_, ?_, ?_, ?_, hw.queue_cancelled⟩
  · intro s' hs'
    rcases List.mem_cons.mp hs' with rfl | hmem
    · exact List.mem_cons_self
    · exact List.mem_cons_of_mem _ (hw.registered_known s' hmem)
  · intro s' hs'
    obtain ⟨hne, hmem⟩ := not_or.mp (mt List.mem_cons.mpr hs')
    simpa [hne] using hw.unknown_idle s' hmem
  · intro s' hs' hl
    obtain ⟨hne, hmem⟩ := not_or.mp (mt List.mem_cons.mpr hs')
    rw [hother s' hne]
    exact hw.left_cancelled s' hmem (by simpa [hne] using hl)
  · intro s' hd
    rcases eq_or_ne s' s with rfl | hne
    · simp [hself] at hd
    · rw [hother s' hne] at hd ⊢
      exact hw.disposed_cancelled s' hd
  · intro s' hd
    rcases eq_or_ne s' s with rfl | hne
    · simp [hself] at hd
    · rw [hother s' hne] at hd
      exact hw.disposed_queue s' hd
  · intro hd s' hl
    rcases eq_or_ne s' s with rfl | hne
    · -- after `Dispose` no loop is started
      rcases hp with rfl | hp
      · simp at hl
      · exact absurd (hp.symm.trans hd) (by simp)
    · rw [hother s' hne]
      exact hw.queue_disposed hd s' (by simpa [hne] using hl)

/-- Unsubscribing leaves the sources of the others alone, and one's own cancelled. -/
theorem SubscribableQueue.cancellation_unsubscribe (q : SubscribableQueue) (s s' : Guid) :
    (q.unsubscribe s).cancellation s' = q.cancellation s' ∨
      s' = s ∧ (q.unsubscribe s).cancellation s' =
        { q.cancellation s' with isCancellationRequested := true } := by
  rcases eq_or_ne s' s with rfl | hne
  · by_cases h : s' ∈ q.subscribers
    · rw [SubscribableQueue.cancellation, unsubscribe_of_mem h]
      by_cases hd : (q.cursors s').cancellation.disposed = true
      · exact Or.inl (by simp [hd])
      · exact Or.inr ⟨rfl, by simp [hd]⟩
    · exact Or.inl (by rw [unsubscribe_of_notMem h])
  · exact Or.inl (by rw [SubscribableQueue.cancellation, cursors_unsubscribe_of_ne hne])

theorem SubscribableQueue.isCancellationRequested_unsubscribe {q : SubscribableQueue} {s : Guid}
    (h : s ∈ q.subscribers) (hd : (q.cancellation s).disposed = true →
      (q.cancellation s).isCancellationRequested = true) :
    ((q.unsubscribe s).cancellation s).isCancellationRequested = true := by
  rw [SubscribableQueue.cancellation, unsubscribe_of_mem h]
  by_cases hdis : (q.cursors s).cancellation.disposed = true
  · simpa [hdis] using hd hdis
  · simp [hdis]

theorem System.WellFormed.unsubscribe (hw : σ.WellFormed) (s : Guid) :
    System.WellFormed { σ with queue := σ.queue.unsubscribe s } := by
  -- nobody's source is disposed of, and what was cancelled stays so
  have hdisp : ∀ s', ((σ.queue.unsubscribe s).cancellation s').disposed =
      (σ.queue.cancellation s').disposed := by
    intro s'
    rcases σ.queue.cancellation_unsubscribe s s' with h | ⟨-, h⟩ <;> rw [h]
  have hcan : ∀ s', (σ.queue.cancellation s').isCancellationRequested = true →
      ((σ.queue.unsubscribe s).cancellation s').isCancellationRequested = true := by
    intro s' hc
    rcases σ.queue.cancellation_unsubscribe s s' with h | ⟨-, h⟩ <;> rw [h]
    exact hc
  refine ⟨?_, hw.unknown_idle, ?_, ?_, ?_, ?_, by simpa using hw.queue_cancelled⟩
  · intro s' hs'
    exact hw.registered_known s' (SubscribableQueue.mem_subscribers_unsubscribe.mp hs').1
  · intro s' hs' hl
    by_cases hmem : s' ∈ σ.queue.subscribers
    · obtain rfl : s' = s := by
        by_contra hne
        exact hs' (SubscribableQueue.mem_subscribers_unsubscribe.mpr ⟨hmem, hne⟩)
      exact SubscribableQueue.isCancellationRequested_unsubscribe hmem (hw.disposed_cancelled s')
    · exact hcan s' (hw.left_cancelled s' hmem hl)
  · intro s' hd
    exact hcan s' (hw.disposed_cancelled s' ((hdisp s').symm.trans hd))
  · intro s' hd
    simpa using hw.disposed_queue s' ((hdisp s').symm.trans hd)
  · intro hd s' hl
    exact hcan s' (hw.queue_disposed (by simpa using hd) s' hl)

theorem SubscribableQueue.cancellation_dispose (q : SubscribableQueue) (s : Guid) :
    q.dispose.cancellation s =
      if s ∈ q.subscribers then (q.cancellation s).cancelAndDispose else q.cancellation s := by
  simp only [SubscribableQueue.cancellation, dispose]
  split <;> rfl

theorem System.WellFormed.dispose (hw : σ.WellFormed) :
    System.WellFormed { σ with queue := σ.queue.dispose } := by
  have hreg : ∀ s ∈ σ.queue.subscribers,
      (σ.queue.dispose.cancellation s).isCancellationRequested = true := by
    intro s hs
    rw [SubscribableQueue.cancellation_dispose, if_pos hs]
    exact CancellationTokenSource.isCancellationRequested_cancelAndDispose
      (hw.disposed_cancelled s)
  have hleft : ∀ s, s ∉ σ.queue.subscribers →
      σ.queue.dispose.cancellation s = σ.queue.cancellation s := by
    intro s hs
    rw [SubscribableQueue.cancellation_dispose, if_neg hs]
  have hcts : σ.queue.dispose.cts.disposed = true :=
    CancellationTokenSource.disposed_cancelAndDispose _
  refine ⟨hw.registered_known, hw.unknown_idle, ?_, ?_, fun _ _ => hcts, ?_, fun _ => hcts⟩
  · intro s hs hl
    change s ∉ σ.queue.subscribers at hs
    rw [hleft s hs]
    exact hw.left_cancelled s hs hl
  · intro s hd
    by_cases hs : s ∈ σ.queue.subscribers
    · exact hreg s hs
    · rw [hleft s hs] at hd ⊢
      exact hw.disposed_cancelled s hd
  · intro _ s hl
    by_cases hs : s ∈ σ.queue.subscribers
    · exact hreg s hs
    · rw [hleft s hs]
      exact hw.left_cancelled s hs hl

theorem System.WellFormed.of_effect (h : Effect σ a σ' evs) (hw : σ.WellFormed) :
    σ'.WellFormed := by
  cases h.lifecycleStep with
  | subscribe hs hp => exact hw.subscribe hs (hp.elim (Or.inr ∘ And.right) (Or.inl ∘ And.left))
  | unsubscribe s => exact hw.unsubscribe s
  | dispose => exact hw.dispose
  | same hsame => exact hw.of_same hsame

end Preservation

/-- A run from a well-formed state leads to one. -/
theorem System.WellFormed.of_run {σ σ' : System} {tr : Trace} (hw : σ.WellFormed)
    (h : Run step σ tr σ') : σ'.WellFormed :=
  h.stateInvariant hw fun _ _ _ _ hw hs => hw.of_effect (effect_of_step hs)

/-- **Every reachable state is well formed.** -/
theorem wellFormed_of_run {ttl : TimeSpan} {n : ℕ} {tr : Trace} {σ : System}
    (h : RunOf ttl n tr σ) : σ.WellFormed :=
  (System.WellFormed.init ttl n).of_run h

/-! ### Taking part -/

/-- A subscriber that is registered and has not been cancelled. -/
def System.Active (σ : System) (s : Guid) : Prop :=
  s ∈ σ.queue.subscribers ∧ (σ.queue.cancellation s).isCancellationRequested = false

section Active

variable {σ σ' : System} {a : Action} {evs : List Event} {s : Guid}

/-- The source of a subscriber that takes part has not been disposed of. -/
theorem System.WellFormed.disposed_eq_false (hw : σ.WellFormed) (hact : σ.Active s) :
    (σ.queue.cancellation s).disposed = false := by
  by_contra hcon
  have hc := hw.disposed_cancelled s (by simpa using hcon)
  exact absurd (hact.2.symm.trans hc) (by simp)

/-- Only by subscribing does one come to take part. -/
theorem Effect.active (h : Effect σ a σ' evs) (hdis : a ≠ .dispose) (hact : σ'.Active s) :
    a = .subscribe s ∨ a ≠ .subscribe s ∧ σ.Active s := by
  refine or_iff_not_imp_left.mpr fun hself => ⟨hself, ?_⟩
  obtain ⟨hreg, hcan⟩ := hact
  cases h.lifecycleStep with
  | @subscribe s' _ _ _ =>
    have hne : s ≠ s' := fun he => hself (he ▸ rfl)
    refine ⟨(List.mem_cons.mp hreg).resolve_left hne, ?_⟩
    simpa [SubscribableQueue.cancellation, SubscribableQueue.addSubscriber, hne] using hcan
  | unsubscribe s' =>
    obtain ⟨hreg', hne⟩ := SubscribableQueue.mem_subscribers_unsubscribe.mp hreg
    refine ⟨hreg', ?_⟩
    rwa [SubscribableQueue.cancellation, SubscribableQueue.cursors_unsubscribe_of_ne hne] at hcan
  | dispose => exact absurd rfl hdis
  | same hsame =>
    refine ⟨hsame.subscribers ▸ hreg, ?_⟩
    rwa [hsame.cancellation] at hcan

/-- Only `Dispose` disposes of the queue's source. -/
theorem Effect.cts_of_ne_dispose (h : Effect σ a σ' evs) (hdis : a ≠ .dispose) :
    σ'.queue.cts = σ.queue.cts := by
  cases h.lifecycleStep with
  | subscribe _ _ => rfl
  | unsubscribe _ => simp
  | dispose => exact absurd rfl hdis
  | same hsame => exact hsame.cts

/-- What has been cancelled stays so. -/
theorem Effect.cancelled (h : Effect σ a σ' evs) (hs : s ∈ σ.subscriberIds)
    (hc : (σ.queue.cancellation s).isCancellationRequested = true) :
    s ∈ σ'.subscriberIds ∧ (σ'.queue.cancellation s).isCancellationRequested = true := by
  cases h.lifecycleStep with
  | @subscribe s' hs' _ _ =>
    have hne : s ≠ s' := fun he => hs' (he ▸ hs)
    refine ⟨List.mem_cons_of_mem _ hs, ?_⟩
    simpa [SubscribableQueue.cancellation, SubscribableQueue.addSubscriber, hne] using hc
  | unsubscribe s' =>
    refine ⟨hs, ?_⟩
    rcases σ.queue.cancellation_unsubscribe s' s with h | ⟨-, h⟩
    · rwa [h]
    · rw [h]
  | dispose =>
    refine ⟨hs, ?_⟩
    rw [SubscribableQueue.cancellation_dispose]
    split_ifs
    · exact CancellationTokenSource.isCancellationRequested_cancelAndDispose fun _ => hc
    · exact hc
  | same hsame =>
    rw [hsame.subscriberIds, hsame.cancellation]
    exact ⟨hs, hc⟩

/-- Only `Unsubscribe` takes a subscriber out of the dictionary. -/
theorem Effect.registered (h : Effect σ a σ' evs) (ha : a ≠ .unsubscribe s)
    (hs : s ∈ σ.queue.subscribers) : s ∈ σ'.queue.subscribers := by
  cases h.lifecycleStep with
  | subscribe _ _ => exact List.mem_cons_of_mem _ hs
  | unsubscribe s' =>
    exact SubscribableQueue.mem_subscribers_unsubscribe.mpr ⟨hs, fun he => ha (he ▸ rfl)⟩
  | dispose => exact hs
  | same hsame => rwa [hsame.subscribers]

/-- What has been disposed of stays so. -/
theorem Effect.cts_disposed (h : Effect σ a σ' evs) (hd : σ.queue.cts.disposed = true) :
    σ'.queue.cts.disposed = true := by
  by_cases hdis : a = .dispose
  · subst hdis
    cases h with
    | dispose => exact CancellationTokenSource.disposed_cancelAndDispose _
  · rw [h.cts_of_ne_dispose hdis, hd]

/-- **Nothing is disposed of before `Dispose`.** -/
theorem cts_disposed_of_run {ttl : TimeSpan} {n : ℕ} {tr : Trace}
    (h : RunOf ttl n tr σ) (hdis : ∀ t ∈ tr, t.act ≠ .dispose) :
    σ.queue.cts.disposed = false := by
  refine h.invariantOn (I := fun _ σ => σ.queue.cts.disposed = false) rfl ?_ hdis
  intro tr σ a evs σ' _ hi hs hdis
  rw [(effect_of_step hs).cts_of_ne_dispose hdis, hi]

end Active

end PushDeliveredQueue
