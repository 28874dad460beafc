import PushDeliveredQueue.Cursor

/-!
# One subscriber's dispatch loop

Seen from one subscriber, a transition of the system leaves its dispatch loop where it was,
starts it, or is the loop's own: a step it takes, or the return of a handler call it awaits
(`PushDeliveredQueue.LoopStep`). Two facts about a loop over whole runs are proved from
that.

* **When it stops.** Before the queue is disposed of, the loop of every registered subscriber
  that has not been cancelled is running, exactly as long as no call of a user's handler made
  inside `OnFailedAsync` throws (`PushDeliveredQueue.loops_alive_iff`). The retry policy turns
  what its own calls throw into failures; what `OnFailedAsync` itself awaits, the failure
  handler and the extra attempt, nobody catches.
* **What it has handed over.** A loop that gets to commit a message has called the handler
  with it during the same delivery (`PushDeliveredQueue.handedOver_of_run`).
-/

namespace PushDeliveredQueue

open Transitions

/-! ### What can happen to a loop -/

/-- The events of a subscriber's dispatch loop. -/
def Event.OfLoop (s : Guid) : Event → Prop
  | .dispatchRead s' _ | .addedToDlq s' _ | .committed s' _ | .commitMissed s' _ => s' = s
  | .receiveCalled s' caller _ _ | .receiveReturned s' caller _ _ | .failedCalled s' caller _ _
  | .failedReturned s' caller _ _ => s' = s ∧ ∀ call, caller ≠ .replay call
  | .enqueued _ | .pruned _ | .replayedFrom .. => False

/-- **What a transition means for one dispatch loop.** -/
inductive LoopStep (s : Guid) (σ : System) : Action → System → List Event → Prop
  /-- It is not the loop's turn. -/
  | stays {a : Action} {σ' : System} {evs : List Event} (ha : a ≠ .subscribe s)
      (hl : σ'.loops s = σ.loops s) (h : ∀ e ∈ evs, ¬ e.OfLoop s) : LoopStep s σ a σ' evs
  /-- The subscriber subscribes, and its loop starts unless the queue has been disposed of. -/
  | starts {σ' : System} (hs : s ∉ σ.subscriberIds)
      (h : σ'.loops s = .checking ∨ σ'.loops s = .notStarted ∧
        (σ.queue.cts.disposed = true ∨ σ.queue.cts.isCancellationRequested = true)) :
      LoopStep s σ (.subscribe s) σ' []
  | dispatch {σ' : System} {evs : List Event}
      (h : LoopEffect σ.queue s (σ.loops s) σ'.queue (σ'.loops s) evs) :
      LoopStep s σ (.dispatch s) σ' evs
  | received {σ' : System} {m : MessageEnvelope} {k : ℕ} {r : ReceiveResult}
      (h : σ.loops s = .receiving m k)
      (h' : σ'.loops s = afterAttempt σ.queue.retryCount m k r) :
      LoopStep s σ (.received s r) σ' [.receiveReturned s .dispatch m r]
  | retried {σ' : System} {m : MessageEnvelope} {b : Bool} {r : ReceiveResult}
      (h : σ.loops s = .retrying m b) (h' : σ'.loops s = afterManualRetry m b r) :
      LoopStep s σ (.received s r) σ' [.receiveReturned s .manualRetry m r]
  | failedHandled {σ' : System} {m : MessageEnvelope} {r : FailedResult}
      (h : σ.loops s = .deciding m) (h' : σ'.loops s = afterFailedHandler m r) :
      LoopStep s σ (.failedHandled s r) σ' [.failedReturned s .dispatch m r]

section Steps

variable {σ σ' : System} {a : Action} {evs : List Event} {s s' : Guid}

theorem not_ofLoop_replayCalls (q : SubscribableQueue) (s' : Guid) (call : ℕ) (p : ReplayPhase) :
    ∀ e ∈ replayCalls q s' call p, ¬ e.OfLoop s := by
  cases p <;> simp [replayCalls, Event.OfLoop]

/-- The events of another's loop. -/
theorem LoopEffect.not_ofLoop {q q' : SubscribableQueue} {p p' : DispatchPhase}
    (h : LoopEffect q s' p q' p' evs) (hne : s ≠ s') : ∀ e ∈ evs, ¬ e.OfLoop s := by
  cases h <;> simp [Event.OfLoop, hne.symm]

theorem System.loops_moveLoop_self (q : SubscribableQueue) (p : DispatchPhase) :
    (σ.moveLoop s q p).loops s = p := by
  simp [System.moveLoop]

theorem System.loops_moveLoop_of_ne (hne : s ≠ s') (q : SubscribableQueue) (p : DispatchPhase) :
    (σ.moveLoop s' q p).loops s = σ.loops s := by
  simp [System.moveLoop, hne]

/-- A loop is not moved by the step of another one. -/
theorem LoopStep.of_moveLoop_of_ne (hne : s ≠ s') (ha : a ≠ .subscribe s) (q : SubscribableQueue)
    (p : DispatchPhase) (h : ∀ e ∈ evs, ¬ e.OfLoop s) : LoopStep s σ a (σ.moveLoop s' q p) evs :=
  .stays ha (System.loops_moveLoop_of_ne hne q p) h

/-- **Every transition is one of these for every loop.** -/
theorem Effect.loopStep (h : Effect σ a σ' evs) (s : Guid) : LoopStep s σ a σ' evs := by
  cases h with
  | @subscribe s' hs p hp =>
    rcases eq_or_ne s s' with rfl | hne
    · refine .starts hs ?_
      rcases hp with ⟨rfl, -⟩ | ⟨rfl, hcts⟩
      · exact Or.inl (by simp)
      · exact Or.inr ⟨by simp, hcts⟩
    · exact .stays (by simp [hne.symm]) (by simp [hne]) (by simp)
  | @dispatch s' q p p' _ hp hl =>
    rcases eq_or_ne s s' with rfl | hne
    · refine .dispatch ?_
      rw [System.loops_moveLoop_self, hp]
      exact hl
    · exact .of_moveLoop_of_ne hne (by simp) _ _ (hl.not_ofLoop hne)
  | @received s' m k hl r =>
    rcases eq_or_ne s s' with rfl | hne
    · exact .received hl (System.loops_moveLoop_self _ _)
    · exact .of_moveLoop_of_ne hne (by simp) _ _ (by simp [Event.OfLoop, hne.symm])
  | @retried s' m b hl r =>
    rcases eq_or_ne s s' with rfl | hne
    · exact .retried hl (System.loops_moveLoop_self _ _)
    · exact .of_moveLoop_of_ne hne (by simp) _ _ (by simp [Event.OfLoop, hne.symm])
  | @failedHandled s' m hl r =>
    rcases eq_or_ne s s' with rfl | hne
    · exact .failedHandled hl (System.loops_moveLoop_self _ _)
    · exact .of_moveLoop_of_ne hne (by simp) _ _ (by simp [Event.OfLoop, hne.symm])
  | replayFromDlq _ _ | replayAllDlqMessages _ | runScheduled _ =>
    exact .stays (by simp) rfl (not_ofLoop_replayCalls _ _ _ _)
  | replayAcked _ _ | replayFailed _ _ =>
    refine .stays (by simp) rfl (List.forall_mem_cons.mpr ⟨?_, not_ofLoop_replayCalls _ _ _ _⟩)
    simp [Event.OfLoop]
  | _ => exact .stays (by simp) rfl (by simp [Event.OfLoop])

/-- **A cancelled loop does not pass its check.** -/
theorem LoopStep.not_passes (h : LoopStep s σ a σ' evs)
    (hc : (σ.queue.cancellation s).isCancellationRequested = true)
    (hcheck : σ.loops s = .checking) : σ'.loops s ≠ .reading := by
  cases h with
  | stays _ hl _ => simp [hl, hcheck]
  | starts _ hl => rcases hl with hl | ⟨hl, -⟩ <;> simp [hl]
  | dispatch hle =>
    generalize σ'.loops s = p', σ'.queue = q' at hle
    rw [hcheck] at hle
    cases hle with
    | checkPasses _ hc' => exact absurd (hc.symm.trans hc') (by simp)
    | _ => simp
  | received h' _ | retried h' _ | failedHandled h' _ => simp [hcheck] at h'

end Steps

/-! ### When it stops -/

/-- Every subscriber that takes part has a running loop, if the queue has not been disposed
of. -/
def LoopsAlive (tr : Trace) (σ : System) : Prop :=
  (∀ t ∈ tr, t.act ≠ .dispose) → ∀ s, σ.Active s → (σ.loops s).Running

/-- A transition in which an exception of a user's handler escapes into the loop of a
subscriber that takes part: `OnMessageFailedHandlerAsync` throws, or the extra attempt of
the two `RetryOnce` behaviours does. -/
def Escapes (t : Transition System Action Event) : Prop :=
  ∃ s e, t.pre.Active s ∧
    ((∃ m, t.pre.loops s = .deciding m ∧ t.act = .failedHandled s (.error e)) ∨
      ∃ m b, t.pre.loops s = .retrying m b ∧ t.act = .received s (.error e))

section Survival

variable {q q' : SubscribableQueue} {p p' : DispatchPhase} {σ σ' : System} {a : Action}
  {evs : List Event} {s : Guid}

theorem afterAttempt_running (k : ℕ) (m : MessageEnvelope) (j : ℕ) (r : ReceiveResult) :
    (afterAttempt k m j r).Running := by
  unfold afterAttempt
  split_ifs <;> simp [DispatchPhase.Running]

/-- A loop of an undisposed queue whose own source is neither cancelled nor disposed does
not stop by itself. -/
theorem LoopEffect.running (h : LoopEffect q s p q' p' evs) (hcts : q.cts.disposed = false)
    (hd : (q.cancellation s).disposed = false)
    (hc : (q.cancellation s).isCancellationRequested = false) (h0 : 0 ≤ (q.cursors s).index) :
    p'.Running := by
  cases h with
  | checkThrows h => exact absurd (hd.symm.trans h) (by simp)
  | checkStops h => exact absurd (hc.symm.trans h) (by simp)
  | readThrows h => exact absurd h (not_lt.mpr h0)
  | delayThrows h =>
    rcases h with h | h
    · exact absurd (hd.symm.trans h) (by simp)
    · exact absurd (hc.symm.trans h) (by simp)
  | failedThrows h => exact absurd (hcts.symm.trans h) (by simp)
  | manualRetryThrows h => exact absurd (hcts.symm.trans h) (by simp)
  | attemptThrows _ => exact afterAttempt_running _ _ _ _
  | _ => simp [DispatchPhase.Running]

/-- **One transition keeps a loop running** unless an exception escapes into it. -/
theorem LoopStep.running (h : LoopStep s σ a σ' evs) (hw : σ.WellFormed)
    (hcts : σ.queue.cts.disposed = false) (h0 : 0 ≤ (σ.queue.cursors s).index)
    (hact : a = .subscribe s ∨ a ≠ .subscribe s ∧ σ.Active s ∧ (σ.loops s).Running)
    (hesc : ¬ Escapes ⟨σ, a, evs, σ'⟩) : (σ'.loops s).Running := by
  cases h with
  | stays ha hl _ =>
    obtain ⟨-, -, hr⟩ := hact.resolve_left ha
    rwa [hl]
  | starts _ h =>
    rcases h with h | ⟨-, h⟩
    · rw [h]
      decide
    · -- the queue's source would be disposed of
      have hd : σ.queue.cts.disposed = true := h.elim id hw.queue_cancelled
      exact absurd (hcts.symm.trans hd) (by simp)
  | dispatch h =>
    obtain ⟨-, ha, -⟩ := hact.resolve_left (by simp)
    exact h.running hcts (hw.disposed_eq_false ha) ha.2 h0
  | received h h' =>
    rw [h']
    exact afterAttempt_running _ _ _ _
  | @retried _ m b r h h' =>
    obtain ⟨-, ha, -⟩ := hact.resolve_left (by simp)
    rw [h']
    rcases r with e | r
    · exact absurd ⟨s, e, ha, Or.inr ⟨m, b, h, rfl⟩⟩ hesc
    · cases b <;> simp [afterManualRetry, DispatchPhase.Running]
  | @failedHandled _ m r h h' =>
    obtain ⟨-, ha, -⟩ := hact.resolve_left (by simp)
    rw [h']
    rcases r with e | r
    · exact absurd ⟨s, e, ha, Or.inl ⟨m, h, rfl⟩⟩ hesc
    · cases r <;> simp [afterFailedHandler, DispatchPhase.Running]

/-- The escaping exception ends the loop of a subscriber that still takes part. -/
theorem faulted_of_escapes {t : Transition System Action Event}
    (h : Effect t.pre t.act t.post t.out) (hesc : Escapes t) :
    t.act ≠ .dispose ∧ ∃ s, t.post.Active s ∧ t.post.loops s = .faulted := by
  obtain ⟨σ, a, evs, σ'⟩ := t
  obtain ⟨s, e, hact, ⟨m, hl, ha⟩ | ⟨m, b, hl, ha⟩⟩ := hesc
  · simp only at h hact hl ha
    subst ha
    cases h with
    | failedHandled hl' _ => exact ⟨by simp, s, hact, System.loops_moveLoop_self _ _⟩
  · simp only at h hact hl ha
    subst ha
    cases h with
    | received hl' _ =>
      rw [hl] at hl'
      simp at hl'
    | retried hl' _ => exact ⟨by simp, s, hact, System.loops_moveLoop_self _ _⟩

/-- **The loops of a run stay alive exactly as long as no exception escapes into one.** In a
run, every subscriber that is registered and not cancelled has a running dispatch loop in
every state before `Dispose` if and only if no transition before it is one in which
`OnMessageFailedHandlerAsync`, or the extra attempt of a `RetryOnce` behaviour, throws inside
the loop of such a subscriber. -/
theorem loops_alive_iff {ttl : TimeSpan} {n : ℕ} {tr : Trace} (h : RunOf ttl n tr σ) :
    Run.Always step (System.init ttl n) LoopsAlive tr ↔
      ∀ pre t, pre ++ [t] <+: tr → (∀ u ∈ pre, u.act ≠ .dispose) → ¬ Escapes t := by
  refine Run.always_iff (G := LoopsAlive)
    (C := fun pre t => (∀ u ∈ pre, u.act ≠ .dispose) → ¬ Escapes t) ?_ ?_ ?_ ?_ h
  · intro _ s hact
    simp [System.Active, System.init] at hact
  · exact fun _ _ _ hgood => hgood
  · intro tr t hrun hgood hstep hok hdis s hact
    have hpre : ∀ u ∈ tr, u.act ≠ .dispose := fun u hu => hdis u (List.mem_append_left _ hu)
    have heff := effect_of_step hstep
    have hact' := heff.active (hdis t (by simp)) hact
    refine (heff.loopStep s).running (wellFormed_of_run hrun) (cts_disposed_of_run hrun hpre)
      (index_nonneg_of_run hrun s) ?_ (hok hpre)
    exact hact'.imp id fun h => ⟨h.1, h.2, hgood hpre s h.2⟩
  · intro tr t _ _ hstep halive hdis hesc
    obtain ⟨hne, s, hact, hfault⟩ := faulted_of_escapes (effect_of_step hstep) hesc
    have hdis' : ∀ u ∈ tr ++ [t], u.act ≠ .dispose := by
      intro u hu
      rcases List.mem_append.mp hu with hu | hu
      · exact hdis u hu
      · obtain rfl := List.mem_singleton.mp hu
        exact hne
    have hrunning := halive hdis' s hact
    rw [hfault] at hrunning
    exact hrunning.2.2 rfl

/-- Whether an action is the end of a handler call, awaited by a dispatch loop, with an
exception. -/
def Action.throws : Action → Bool
  | .received _ (.error _) | .failedHandled _ (.error _) => true
  | _ => false

theorem not_escapes_of_not_throws {t : Transition System Action Event}
    (h : t.act.throws = false) : ¬ Escapes t := by
  rintro ⟨s, e, -, ⟨m, -, ha⟩ | ⟨m, b, -, ha⟩⟩ <;> simp [ha, Action.throws] at h

/-- The theorem at a run in which every attempt fails and the failure handler has the
message left where it is. -/
theorem loops_alive_blocking : ∃ tr σ, RunOf 5 0 tr σ ∧ σ.Active 7 ∧ (σ.loops 7).Running := by
  have hrun := runOf_exec 5 0 [.subscribe 7, .enqueue 1 10 none, .dispatch 7, .dispatch 7,
    .dispatch 7, .received 7 (.ok .nack), .dispatch 7, .failedHandled 7 (.ok .block)] (by decide)
  have hquiet : ∀ t ∈ traceOf step (System.init 5 0) [.subscribe 7, .enqueue 1 10 none,
      .dispatch 7, .dispatch 7, .dispatch 7, .received 7 (.ok .nack), .dispatch 7,
      .failedHandled 7 (.ok .block)], t.act.throws = false ∧ t.act ≠ .dispose := by decide
  refine ⟨_, _, hrun, ⟨by decide, by decide⟩, (loops_alive_iff hrun).mpr ?_ _ _
    (List.prefix_refl _) hrun (fun t ht => (hquiet t ht).2) 7 ⟨by decide, by decide⟩⟩
  intro pre t hpre _
  exact not_escapes_of_not_throws (hquiet t (hpre.subset (by simp))).1

/-- **A failure handler that throws kills its subscription**: the loop of a subscriber that
is registered and has not been cancelled has ended, and the queue has not been disposed
of. -/
theorem loop_killed_by_failed_handler : ∃ tr σ, RunOf 5 0 tr σ ∧
    (∀ t ∈ tr, t.act ≠ .dispose) ∧ σ.Active 7 ∧ ¬ (σ.loops 7).Running := by
  have hrun := runOf_exec 5 0 [.subscribe 7, .enqueue 1 10 none, .dispatch 7, .dispatch 7,
    .dispatch 7, .received 7 (.ok .nack), .dispatch 7, .failedHandled 7 (.error (.handler 0))]
    (by decide)
  exact ⟨_, _, hrun, by decide, ⟨by decide, by decide⟩, by decide⟩

end Survival

/-! ### What it has handed over -/

/-- A subscriber's dispatch loop has called the handler with a message, and has read nothing
since: it did so in the delivery under way. -/
def HandedOver (s : Guid) (m : MessageEnvelope) (evs : List Event) : Prop :=
  ∃ pre payload mid, evs = pre ++ .receiveCalled s .dispatch m payload :: mid ∧
    ∀ next, .dispatchRead s next ∉ mid

/-- What a loop that has got so far has done: past the first call of the handler it has
made that call, unless all its attempts failed because the queue had been disposed of. -/
def HandingDone (s : Guid) (evs : List Event) (cts : CancellationTokenSource) :
    DispatchPhase → Prop
  | .receiving m _ | .deciding m | .manualRetry m _ | .retrying m _ | .deadLettering m
  | .committing m => HandedOver s m evs
  | .failed m _ => HandedOver s m evs ∨ cts.disposed = true
  | .notStarted | .checking | .reading | .backoff | .attempting _ _ | .ended | .faulted => True

section Handing

variable {σ σ' : System} {a : Action} {evs evs' : List Event} {s : Guid} {m : MessageEnvelope}

theorem HandedOver.append (h : HandedOver s m evs)
    (hread : ∀ next, .dispatchRead s next ∉ evs') : HandedOver s m (evs ++ evs') := by
  obtain ⟨pre, payload, mid, rfl, hmid⟩ := h
  refine ⟨pre, payload, mid ++ evs', by simp, ?_⟩
  intro next hmem
  rcases List.mem_append.mp hmem with h | h
  · exact hmid next h
  · exact hread next h

theorem handedOver_call (payload : Payload) :
    HandedOver s m (evs ++ [.receiveCalled s .dispatch m payload]) :=
  ⟨evs, payload, [], rfl, by simp⟩

/-- What the policy does with the outcome of an attempt keeps count of the handing over,
if that attempt was a call or failed because of a disposed source. -/
theorem handingDone_afterAttempt {cts : CancellationTokenSource} {n k : ℕ} {r : ReceiveResult}
    (h : HandedOver s m evs ∨ cts.disposed = true ∧ r ≠ .ok .ack) :
    HandingDone s evs cts (afterAttempt n m k r) := by
  unfold afterAttempt
  split_ifs with hr
  · exact h.resolve_right fun hd => hd.2 hr
  · exact trivial
  · exact h.imp id And.left

/-- A step of the loop keeps count of the handing over. -/
theorem LoopEffect.handingDone {q q' : SubscribableQueue} {p p' : DispatchPhase}
    (h : LoopEffect q s p q' p' evs') (hcts : q.cts.disposed = true → q'.cts.disposed = true)
    (hd : (q.cancellation s).disposed = true → q.cts.disposed = true)
    (hh : HandingDone s evs q.cts p) : HandingDone s (evs ++ evs') q'.cts p' := by
  cases h with
  | attemptThrows hdis => exact handingDone_afterAttempt (Or.inr ⟨hd hdis, by simp⟩)
  | attempt _ => exact handedOver_call _
  | failed hdis => exact HandedOver.append (hh.resolve_right (by simp [hdis])) (by simp)
  | manualRetry _ | addToDlq _ | addToDlqMisses _ => exact HandedOver.append hh (by simp)
  | _ => exact trivial

/-- **One transition keeps count of the handing over.** -/
theorem LoopStep.handingDone (h : LoopStep s σ a σ' evs') (hw : σ.WellFormed)
    (hcts : σ.queue.cts.disposed = true → σ'.queue.cts.disposed = true)
    (hh : HandingDone s evs σ.queue.cts (σ.loops s)) :
    HandingDone s (evs ++ evs') σ'.queue.cts (σ'.loops s) := by
  cases h with
  | stays _ hl hquiet =>
    have hread : ∀ next, Event.dispatchRead s next ∉ evs' := fun next hmem =>
      hquiet _ hmem rfl
    rw [hl]
    revert hh
    cases σ.loops s with
    | receiving m k | deciding m | manualRetry m b | retrying m b | deadLettering m
    | committing m => exact fun hh => HandedOver.append hh hread
    | failed m e => exact fun hh => hh.imp (HandedOver.append · hread) hcts
    | notStarted | checking | reading | backoff | attempting m k | ended | faulted =>
      exact fun _ => trivial
  | starts _ h =>
    rcases h with h | ⟨h, -⟩ <;> exact h ▸ trivial
  | dispatch h => exact h.handingDone hcts (hw.disposed_queue s) hh
  | received h h' =>
    rw [h] at hh
    rw [h']
    exact handingDone_afterAttempt (Or.inl (HandedOver.append hh (by simp)))
  | @retried _ m b r h h' =>
    rw [h] at hh
    rw [h']
    have hh' : HandedOver s m (evs ++ [.receiveReturned s .manualRetry m r]) :=
      HandedOver.append hh (by simp)
    rcases r with e | r
    · exact trivial
    · cases b <;> exact hh'
  | @failedHandled _ m r h h' =>
    rw [h] at hh
    rw [h']
    have hh' : HandedOver s m (evs ++ [.failedReturned s .dispatch m r]) :=
      HandedOver.append hh (by simp)
    rcases r with e | r
    · exact trivial
    · cases r <;> first | exact hh' | exact trivial

/-- A loop about to commit a message has handed it over in the same delivery. -/
theorem handedOver_of_run {ttl : TimeSpan} {n : ℕ} {tr : Trace} (h : RunOf ttl n tr σ)
    (hl : σ.loops s = .committing m) : HandedOver s m (events tr) := by
  have hmain : HandingDone s (events tr) σ.queue.cts (σ.loops s) := by
    refine h.invariant (I := fun tr σ => HandingDone s (events tr) σ.queue.cts (σ.loops s))
      ?_ ?_
    · exact trivial
    intro tr σ a evs σ' hrun hi hs
    have heff := effect_of_step hs
    simpa using (heff.loopStep s).handingDone (wellFormed_of_run hrun) heff.cts_disposed hi
  rw [hl] at hmain
  exact hmain

/-- A `Commit` that finds its subscriber is the step of a loop that is about to commit. -/
theorem Effect.of_committed (h : Effect σ a σ' evs) (hmem : .committed s m ∈ evs) :
    a = .dispatch s ∧ σ.loops s = .committing m ∧ s ∈ σ.queue.subscribers := by
  cases h.loopStep s with
  | stays _ _ hquiet => exact absurd rfl (hquiet _ hmem)
  | dispatch hl =>
    generalize σ.loops s = p, σ'.loops s = p', σ'.queue = q' at hl
    cases hl <;> simp at hmem
    subst hmem
    exact ⟨rfl, rfl, ‹_›⟩
  | _ => simp at hmem

/-- Such a step, and what it does to the view. -/
theorem Effect.committed (h : Effect σ (.dispatch s) σ' evs) (hl : σ.loops s = .committing m)
    (hs : s ∈ σ.queue.subscribers) : evs = [.committed s m] ∧
      σ'.cursorView s =
        { σ.cursorView s with index := (σ.cursorView s).index + 1, delivering := none } := by
  cases h with
  | dispatch hp hle =>
    rw [hl] at hp
    subst hp
    cases hle with
    | commit _ =>
      rw [SubscribableQueue.commit_of_mem hs, System.cursorView_moveLoop_setCursor]
      exact ⟨rfl, rfl⟩
    | commitMisses hs' => exact absurd hs hs'

end Handing

end PushDeliveredQueue
