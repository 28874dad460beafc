import PushDeliveredQueue.Delivery
import PushDeliveredQueue.ReplayCall
import PushDeliveredQueue.Service

/-!
# What the application does with its messages

`SubscribedMessageHandler` fails the messages whose payload contains `fail`, and has every failed
message retried once and dead-lettered. What that comes to, over whole runs of the application:

* the dead letters of a subscriber are the messages it has committed that fail, in the order it
  committed them (`PushDeliveredQueue.dead_letters_sorted`): no message that passes is ever
  dead-lettered, none that fails is lost, and no replay takes one out, however deliveries, replays,
  prune passes and departures interleave, as long as no edit turns a message from one kind into the
  other;
* a subscriber that takes part is served to the end (`PushDeliveredQueue.service_catches_up`): no
  exception reaches its loop, no message blocks it, and the steps it takes are bounded by the
  messages put ahead of it.
-/

namespace PushDeliveredQueue

open Transitions SubscribedMessageHandler

/-! ### Verdicts -/

/-- The handler fails messages with this payload. -/
def fails (p : Payload) : Bool := p.any containsFail

/-- The handler fails a message, with the payload it has. -/
def System.failing (σ : System) (m : MessageEnvelope) : Bool := fails (σ.queue.payloads m.id)

/-- What a handler was shown is a text, and of the kind of the payload the message has. -/
def SameVerdict (payload shown : Payload) : Prop := shown ≠ none ∧ fails shown = fails payload

section Verdicts

variable {σ σ' : System} {s : Guid} {m : MessageEnvelope} {caller : Caller} {r : ReceiveResult}

/-- **`Ack` is for messages that pass.** -/
theorem AnswersFor.failing_eq_false (h : AnswersFor SameVerdict σ s caller m r)
    (hr : r = .ok .ack) : σ.failing m = false := by
  obtain ⟨call, d, -, ⟨hsome, hkind⟩, rfl, -⟩ := h
  obtain ⟨text, htext⟩ := Option.ne_none_iff_exists'.mp hsome
  rw [System.failing, ← hkind, htext, fails, Option.any_some]
  by_contra hfail
  simp only [Bool.not_eq_false] at hfail
  simp [onMessageReceive, htext, hfail] at hr

/-- Any other answer to an attempt is for messages that fail, or given to a subscriber that has been
cancelled. -/
theorem AnswersFor.failing_or (h : AnswersFor SameVerdict σ s caller m r) (hc : caller.ofLoop)
    (hr : r ≠ .ok .ack) : σ.failing m = true ∨ σ.tokenCancelled s caller = true := by
  obtain ⟨call, d, -, ⟨hsome, hkind⟩, rfl, htoken⟩ := h
  obtain ⟨text, htext⟩ := Option.ne_none_iff_exists'.mp hsome
  rw [System.failing, ← hkind, htext, fails, Option.any_some]
  by_cases hfail : containsFail text = true
  · exact Or.inl hfail
  · refine Or.inr (htoken hc ?_)
    by_contra hno
    simp [onMessageReceive, htext, hfail, hno] at hr

/-- The extra attempt throws only once the queue is disposed of. -/
theorem AnswersFor.disposed {e : Exception} {R : Payload → Payload → Prop}
    (h : AnswersFor R σ s .manualRetry m (.error e)) (hR : ∀ p p', R p p' → p' ≠ none)
    (hw : σ.WellFormed) : σ.queue.cts.disposed = true := by
  obtain ⟨call, d, -, hrel, hr, htoken⟩ := h
  obtain ⟨text, htext⟩ := Option.ne_none_iff_exists'.mp (hR _ _ hrel)
  refine hw.queue_cancelled (htoken rfl ?_)
  by_contra hno
  simp only [onMessageReceive, htext, if_neg hno] at hr
  split_ifs at hr

end Verdicts

/-! ### Who takes part -/

section Lifecycle

variable {σ σ' : System} {a : Action} {evs : List Event} {s : Guid} {ttl : TimeSpan} {n : ℕ}
  {tr : Trace}

/-- A registered subscriber is cancelled only with the queue. -/
theorem disposed_of_cancelled (h : RunOf ttl n tr σ) (hs : s ∈ σ.queue.subscribers)
    (hc : (σ.queue.cancellation s).isCancellationRequested = true) :
    σ.queue.cts.disposed = true := by
  revert hs hc
  refine h.stateInvariant (I := fun σ => s ∈ σ.queue.subscribers →
    (σ.queue.cancellation s).isCancellationRequested = true → σ.queue.cts.disposed = true)
    (by simp [System.init]) ?_
  intro σ a evs σ' hi hs hreg hc
  cases (effect_of_step hs).lifecycleStep with
  | @subscribe s' _ _ _ =>
    rcases eq_or_ne s s' with rfl | hne
    · simp [SubscribableQueue.cancellation, SubscribableQueue.addSubscriber] at hc
    · refine hi ((List.mem_cons.mp hreg).resolve_left hne) ?_
      simpa [SubscribableQueue.cancellation, SubscribableQueue.addSubscriber, hne] using hc
  | unsubscribe s' =>
    obtain ⟨hreg', hne⟩ := SubscribableQueue.mem_subscribers_unsubscribe.mp hreg
    rw [SubscribableQueue.cancellation, SubscribableQueue.cursors_unsubscribe_of_ne hne] at hc
    simpa using hi hreg' hc
  | dispose => exact CancellationTokenSource.disposed_cancelAndDispose _
  | same hsame =>
    rw [hsame.cts]
    rw [hsame.subscribers] at hreg
    rw [hsame.cancellation] at hc
    exact hi hreg hc

end Lifecycle

/-! ### Every subscriber is served -/

/-- A subscriber that takes part in a queue that has not been disposed of. -/
structure System.Serves (σ : System) (s : Guid) : Prop where
  active : σ.Active s
  cts : σ.queue.cts.disposed = false

section Serving

variable {σ σ' : System} {a : Action} {a' : ServiceAction} {evs : List Event} {s : Guid}
  {ω ω' : Service} {ttl : TimeSpan} {n : ℕ} {pre tr : ServiceTrace}

/-- Who is served has been served since it subscribed. -/
theorem Effect.serves (h : Effect σ a σ' evs) (hs : σ'.Serves s) :
    σ.queue.cts.disposed = false ∧ (a = .subscribe s ∨ a ≠ .subscribe s ∧ σ.Serves s) := by
  have hcts : σ.queue.cts.disposed = false := by
    by_contra hcon
    have hdis := h.cts_disposed (by simpa using hcon)
    exact absurd (hs.cts.symm.trans hdis) (by simp)
  have hdis : a ≠ .dispose := by
    rintro rfl
    cases h with
    | dispose =>
      have hdis := CancellationTokenSource.disposed_cancelAndDispose σ.queue.cts
      exact absurd (hs.cts.symm.trans hdis) (by simp)
  exact ⟨hcts, (h.active hdis hs.active).imp id fun hact => ⟨hact.1, hact.2, hcts⟩⟩

/-- A payload that is not null. -/
def IsText (_ shown : Payload) : Prop := shown ≠ none

theorem noted_texts_of_run (h : ServiceRun ttl n tr ω) : Noted IsText ω.system ω.calls :=
  noted_of_run h (fun _ hp => hp) fun _ _ _ _ _ _ _ hp => hp

/-- No exception of the handler reaches the loop of a subscriber that is served. -/
theorem not_escapes_of_step (h : ServiceRun ttl n tr ω) (hs : serviceStep ω a' = some (ω', evs))
    (hb : ω.act a' = some a) (hcts : ω.system.queue.cts.disposed = false) :
    ¬ Escapes ⟨ω.system, a, evs, ω'.system⟩ := by
  rintro ⟨s, e, -, ⟨m, -, rfl⟩ | ⟨m, b, hl, rfl⟩⟩
  · have hr := (Service.act_answers hb).2.2.1 s _ rfl
    simp [onMessageFailedHandler] at hr
  · rcases serviceStep_cases hs with ⟨b', hb', hstep, -⟩ | ⟨count, rfl, -⟩
    · obtain rfl := Option.some.inj (hb.symm.trans hb')
      have hmem : .receiveReturned s .manualRetry m (.error e) ∈ evs := by
        have heff := effect_of_step hstep
        simp only at hl
        generalize ω'.system = σ' at heff
        cases heff with
        | received h' _ => simp [hl] at h'
        | retried h' _ =>
          obtain ⟨rfl, rfl⟩ := by simpa [hl] using h'
          exact List.mem_singleton.mpr rfl
      have hanswers := ((noted_texts_of_run h).answers hs).1 s .manualRetry m _ hmem
      have hdis := hanswers.disposed (fun _ _ hp => hp) (wellFormed_of_run (runOf_of_serviceRun h))
      exact absurd (hcts.symm.trans hdis) (by simp)
    · simp [Service.act] at hb

/-- **The loop of a subscriber that is served is running.** -/
theorem running_of_serves (h : ServiceRun ttl n tr ω) (hs : ω.system.Serves s) :
    (ω.system.loops s).Running := by
  revert hs
  refine h.invariant (I := fun _ ω => ω.system.Serves s → (ω.system.loops s).Running) ?_ ?_
  · intro hs
    have hact := hs.active
    simp [System.Active, Service.init, System.init] at hact
  · intro tr ω a evs ω' hrun hi hs hserves
    rcases serviceStep_cases hs with ⟨b, hb, hstep, -⟩ | ⟨-, -, -, hsys, -⟩
    · have heff := effect_of_step hstep
      have hsysrun := runOf_of_serviceRun hrun
      obtain ⟨hcts, hbefore⟩ := heff.serves hserves
      refine (heff.loopStep s).running (wellFormed_of_run hsysrun) hcts
        (index_nonneg_of_run hsysrun s) ?_ (not_escapes_of_step hrun hs hb hcts)
      exact hbefore.imp id fun hb => ⟨hb.1, hb.2.active, hi hb.2⟩
    · rw [hsys] at hserves ⊢
      exact hi hserves

/-- Who is served at the end of a run is served all along it. -/
theorem serves_of_run {tr : Trace} (h : Run step σ tr σ') (hs : s ∈ σ.subscriberIds)
    (hserves : σ'.Serves s) : σ.Serves s := by
  refine (h.stateInvariant (I := fun σ' => s ∈ σ'.subscriberIds ∧ (σ'.Serves s → σ.Serves s))
    ⟨hs, id⟩ ?_).2 hserves
  rintro σ₁ a evs σ₂ ⟨hids, hi⟩ hstep
  have heff := effect_of_step hstep
  refine ⟨heff.subscriberId hids, fun hserves₂ => hi ?_⟩
  rcases (heff.serves hserves₂).2 with rfl | ⟨-, hserves₁⟩
  · generalize σ₂ = σ' at heff
    cases heff with
    | subscribe hs' _ => exact absurd hids hs'
  · exact hserves₁

/-- No delivery to a subscriber that is served leaves its message where it was. -/
theorem countP_leavesMessage (h : ServiceRun ttl n tr ω) (hs : serviceStep ω a' = some (ω', evs))
    (hreg : s ∈ ω.system.queue.subscribers) : evs.countP (Event.leavesMessage s) = 0 := by
  rw [List.countP_eq_zero]
  intro e he hleaves
  rcases serviceStep_cases hs with ⟨b, -, hstep, -⟩ | ⟨-, -, rfl, -⟩
  · cases e with
    | failedReturned s' caller m r =>
      have hr := ((noted_texts_of_run h).answers hs).2 s' caller m r he
      subst hr
      cases caller <;> simp [Event.leavesMessage, onMessageFailedHandler] at hleaves
    | commitMissed s' m =>
      obtain rfl : s' = s := by simpa [Event.leavesMessage] using hleaves
      cases (effect_of_step hstep).loopStep s' with
      | stays _ _ hquiet => exact hquiet _ he rfl
      | dispatch hl =>
        generalize ω.system.loops s' = p, ω'.system.loops s' = p', ω'.system.queue = q' at hl
        cases hl with
        | commitMisses hleft => exact hleft hreg
        | _ => simp at he
      | _ => simp at he
    | _ => simp [Event.leavesMessage] at hleaves
  · simp at he

/-- An action of a subscriber's dispatch loop in the application. -/
def ServiceAction.ofLoop (s : Guid) : ServiceAction → Bool
  | .dispatch s' | .received s' _ | .failedHandled s' => s' = s
  | _ => false

theorem serviceStep_isSome (hb : ω.act a' = some a) (h : (step ω.system a).isSome) :
    (serviceStep ω a').isSome := by
  obtain ⟨⟨σ', evs⟩, hstep⟩ := Option.isSome_iff_exists.mp h
  rw [serviceStep]
  · simp only [hb, hstep, Option.isSome_some]
  · rintro count rfl
    simp [Service.act] at hb

/-- The handler answers the call a loop awaits. -/
theorem exists_received (h : ServiceRun ttl n tr ω) {caller : Caller} {m : MessageEnvelope}
    (hawaits : (ω.system.loops s).awaits = some (caller, m)) :
    (serviceStep ω (.received s false)).isSome := by
  have hm : ω.system.Awaits s m caller := by
    cases hl : ω.system.loops s with
    | receiving _ _ | retrying _ _ =>
      obtain ⟨rfl, rfl⟩ := by simpa [hl, DispatchPhase.awaits] using hawaits
      simp [System.Awaits, hl, DispatchPhase.awaits]
    | _ => simp [hl, DispatchPhase.awaits] at hawaits
  obtain ⟨call, hcall, -⟩ := (noted_texts_of_run h).awaited s m caller hm
  refine serviceStep_isSome (a := .received s (onMessageReceive call false)) ?_ ?_
  · simp [Service.act, Service.answer, hawaits, hcall]
  · cases hl : ω.system.loops s with
    | receiving _ _ | retrying _ _ => simp [step, received, hl]
    | _ => simp [hl, DispatchPhase.awaits] at hawaits

/-- **A running loop has a step to take**, or the handler it awaits answers. -/
theorem exists_serviceStep (h : ServiceRun ttl n tr ω) (hr : (ω.system.loops s).Running) :
    ∃ a, a.ofLoop s = true ∧ (serviceStep ω a).isSome := by
  obtain ⟨a, ha, hstep⟩ := hr.exists_step
  obtain ⟨⟨σ', evs⟩, hs⟩ := Option.isSome_iff_exists.mp hstep
  cases effect_of_step hs with
  | @dispatch s' _ _ _ _ _ _ =>
    obtain rfl : s' = s := by simpa [Action.ofLoop] using ha
    exact ⟨.dispatch s', by simp [ServiceAction.ofLoop], serviceStep_isSome rfl hstep⟩
  | @received s' _ _ hl _ | @retried s' _ _ hl _ =>
    obtain rfl : s' = s := by simpa [Action.ofLoop] using ha
    exact ⟨.received s' false, by simp [ServiceAction.ofLoop],
      exists_received h (congrArg DispatchPhase.awaits hl)⟩
  | @failedHandled s' _ hl _ =>
    obtain rfl : s' = s := by simpa [Action.ofLoop] using ha
    refine ⟨.failedHandled s', by simp [ServiceAction.ofLoop], serviceStep_isSome rfl ?_⟩
    simp [step, failedHandled, hl]
  | _ => simp [Action.ofLoop] at ha

/-- **The application catches up.** A subscriber that is served, from any state on in which it has
subscribed, is served to the end: its loop is running and has a step to take, and it has found
nothing left to read on the way, or has taken no more steps than `2 n + 10` for every message from
its cursor on and every message put ahead of it, and what it needs for the message it has in
hand. -/
theorem service_catches_up (hpre : ServiceRun ttl n pre ω) (hs : s ∈ ω.system.subscriberIds)
    (h : Run serviceStep ω tr ω') (hserves : ω'.system.Serves s) :
    (ω'.system.loops s).Running ∧ (∃ a, a.ofLoop s = true ∧ (serviceStep ω' a).isSome) ∧
    ((∃ t ∈ tr, .dispatchRead s none ∈ t.out ∧
        (t.pre.system.queue.buffer.length : ℤ) ≤ (t.pre.system.queue.cursors s).index) ∨
      (systemTrace tr).countP (·.act.ofLoop s) ≤
        stepsPerMessage n * ((ω.system.queue.rest s).toNat +
          ((systemTrace tr).map (Transition.putsAhead s)).sum) + (2 * n + 9)) := by
  have hrun := hpre.append h
  have hrunning := running_of_serves hrun hserves
  refine ⟨hrunning, exists_serviceStep hrun hrunning, ?_⟩
  obtain ⟨hsysrun, -⟩ := systemRun_of_run h
  by_cases hread : ∀ t ∈ systemTrace tr, .dispatchRead s none ∉ t.out
  · refine Or.inr ?_
    have hbound := steps_le_of_run (runOf_of_serviceRun hpre) hs hsysrun hread
    have hnone : (systemTrace tr).map (Transition.addsAhead s) =
        (systemTrace tr).map (Transition.putsAhead s) := by
      refine List.map_congr_left fun u hu => ?_
      -- the subscriber is registered in the state the transition leaves
      obtain ⟨t, ht, b, -, rfl⟩ := mem_simulated.mp hu
      obtain ⟨before, after, rfl, hbefore, hstep, hafter⟩ := h.of_mem ht
      have hids : s ∈ t.pre.system.subscriberIds := by
        refine (systemRun_of_run hbefore).1.stateInvariant
          (I := fun σ => s ∈ σ.subscriberIds) hs ?_
        exact fun _ _ _ _ hi hstep => (effect_of_step hstep).subscriberId hi
      have hrest : Run serviceStep t.pre ([t] ++ after) ω' := (Run.single hstep).append hafter
      have hreg := (serves_of_run (systemRun_of_run hrest).1 hids hserves).active.1
      rw [Transition.addsAhead, countP_leavesMessage (hpre.append hbefore) hstep hreg, Nat.add_zero]
    rwa [hnone] at hbound
  · obtain ⟨u, hu, hmem, hle⟩ := exists_exhausted hsysrun hread
    obtain ⟨t, ht, b, -, rfl⟩ := mem_simulated.mp hu
    exact Or.inl ⟨t, ht, hmem, hle⟩

/-- The theorem at a subscriber with one message to process, whose loop takes twenty steps: one more
than it needs, so it has found nothing left to read. -/
theorem service_catches_up_one : ∃ pre ω tr ω', ServiceRun 5 0 pre ω ∧ Run serviceStep ω tr ω' ∧
    ω'.system.Serves 7 ∧ (systemTrace tr).countP (·.act.ofLoop 7) = 20 ∧
    ∃ t ∈ tr, .dispatchRead 7 none ∈ t.out ∧
      (t.pre.system.queue.buffer.length : ℤ) ≤ (t.pre.system.queue.cursors 7).index := by
  have hpre := serviceRun_exec 5 0 [.subscribe 7, .enqueueSingle 1 10 "work"] (by decide)
  have hrun : Run serviceStep (stateOf serviceStep (.init 5 0)
      [.subscribe 7, .enqueueSingle 1 10 "work"]) _ _ :=
    run_exec ([.dispatch 7, .dispatch 7, .dispatch 7, .received 7 false] ++
      List.replicate 16 (.dispatch 7)) (by decide)
  have hserves : (stateOf serviceStep (stateOf serviceStep (.init 5 0)
      [.subscribe 7, .enqueueSingle 1 10 "work"]) ([.dispatch 7, .dispatch 7, .dispatch 7,
        .received 7 false] ++ List.replicate 16 (.dispatch 7))).system.Serves 7 :=
    ⟨⟨by decide, by decide⟩, by decide⟩
  refine ⟨_, _, _, _, hpre, hrun, hserves, by decide, ?_⟩
  exact (service_catches_up hpre (by decide) hrun hserves).2.2.resolve_right (by decide)

end Serving

/-! ### The dead letters are the messages that fail -/

/-- What a phase says about the kind of its message: an attempt that has not been acknowledged was
made for a message that fails, or with the cursor cancelled, and one that leads to the dead letter
queue for a message that fails, or by a loop whose subscriber has left. -/
def Justified (σ : System) (s : Guid) : DispatchPhase → Prop
  | .attempting m k | .receiving m k =>
    0 < k → σ.failing m = true ∨ (σ.queue.cancellation s).isCancellationRequested = true
  | .failed m _ => σ.failing m = true ∨ (σ.queue.cancellation s).isCancellationRequested = true
  | .deciding m | .deadLettering m => σ.failing m = true ∨ σ.standing s = .removed
  | .manualRetry m thenDLQ | .retrying m thenDLQ =>
    thenDLQ = true ∧ (σ.failing m = true ∨ σ.standing s = .removed)
  | _ => True

/-- The dead letter between its addition and its `Commit`: a loop that is about to commit a message
that fails has added it; if the subscriber leaves at this point, the dead letter stays without a
`Commit`. -/
inductive Uncommitted (σ : System) (s : Guid) (p : DispatchPhase) : List MessageEnvelope → Prop
  | nothing (h : ∀ m, p = .committing m → σ.standing s ≠ .removed → σ.failing m = false) :
      Uncommitted σ s p []
  | one {m : MessageEnvelope} (hfail : σ.failing m = true)
      (h : p = .committing m ∨ σ.standing s = .removed) : Uncommitted σ s p [m]

/-- A subscriber whose loop has been started is registered, or has left. -/
theorem System.WellFormed.standing_of_started {σ : System} {s : Guid} (hw : σ.WellFormed)
    (hl : σ.loops s ≠ .notStarted) : s ∈ σ.queue.subscribers ∨ σ.standing s = .removed := by
  have hknown := hw.standing_ne_absent hl
  cases hs : σ.standing s with
  | absent => exact absurd hs hknown
  | registered => exact Or.inl (System.standing_eq_registered.mp hs)
  | removed => exact Or.inr rfl

section Sorting

variable {σ σ' : System} {a : Action} {evs : List Event} {s : Guid} {m : MessageEnvelope}
  {p p' : DispatchPhase} {l : List MessageEnvelope}

/-- What a phase says stays true as long as messages stay of their kind. -/
theorem Justified.mono (h : Justified σ s p)
    (hkind : ∀ m, p.message = some m → σ'.failing m = σ.failing m)
    (hcancel : p.message ≠ none → (σ.queue.cancellation s).isCancellationRequested = true →
      (σ'.queue.cancellation s).isCancellationRequested = true)
    (hleft : σ.standing s = .removed → σ'.standing s = .removed) : Justified σ' s p := by
  cases p with
  | attempting m k | receiving m k =>
    intro hk
    rw [hkind m rfl]
    exact (h hk).imp id (hcancel (by simp [DispatchPhase.message]))
  | failed m e =>
    rw [Justified, hkind m rfl]
    exact Or.imp id (hcancel (by simp [DispatchPhase.message])) h
  | deciding m | deadLettering m =>
    rw [Justified, hkind m rfl]
    exact Or.imp id hleft h
  | manualRetry m b | retrying m b =>
    rw [Justified, hkind m rfl]
    exact ⟨h.1, h.2.imp id hleft⟩
  | _ => exact trivial

/-- An attempt that was not acknowledged justifies what comes next. -/
theorem justified_afterAttempt (n : ℕ) (m : MessageEnvelope) (k : ℕ) (r : ReceiveResult)
    (h : r ≠ .ok .ack → σ.failing m = true ∨
      (σ.queue.cancellation s).isCancellationRequested = true) :
    Justified σ s (afterAttempt n m k r) := by
  unfold afterAttempt
  split_ifs with hr
  · exact trivial
  · exact fun _ => h hr
  · exact h hr

/-- **One transition of a loop keeps its phases justified**, if the handler answers as its code
does. -/
theorem LoopStep.justified (h : LoopStep s σ a σ' evs) (hj : Justified σ s (σ.loops s))
    (hw : σ.WellFormed) (hdis : s ∈ σ.queue.subscribers →
      (σ.queue.cancellation s).isCancellationRequested = true → σ.queue.cts.disposed = true)
    (hanswer : ∀ m r, .receiveReturned s .dispatch m r ∈ evs → r ≠ .ok .ack →
      σ.failing m = true ∨ (σ.queue.cancellation s).isCancellationRequested = true)
    (hfailed : ∀ m r, .failedReturned s .dispatch m r ∈ evs → r = onMessageFailedHandler) :
    Justified σ s (σ'.loops s) := by
  cases h with
  | stays _ hl _ => rwa [hl]
  | starts _ hl => rcases hl with hl | ⟨hl, -⟩ <;> exact hl ▸ trivial
  | dispatch hl =>
    generalize hp : σ.loops s = p, σ'.loops s = p', σ'.queue = q' at hl hj
    cases hl with
    | read _ _ => exact fun hk => absurd hk (Nat.lt_irrefl 0)
    | attemptThrows hd =>
      exact justified_afterAttempt _ _ _ _ fun _ => Or.inr (hw.disposed_cancelled s hd)
    | attempt _ => exact hj
    | failed hcts =>
      -- the cursor of a registered subscriber is cancelled only with the queue
      refine hj.imp id fun hc => (hw.standing_of_started (hp ▸ by simp)).resolve_left fun hreg => ?_
      exact absurd (hcts.symm.trans (hdis hreg hc)) (by simp)
    | manualRetry _ => exact hj
    | _ => exact trivial
  | @received _ m k r h h' =>
    rw [h']
    exact justified_afterAttempt _ _ _ _ (hanswer m r (List.mem_singleton.mpr rfl))
  | @retried _ m b r h h' =>
    rw [h] at hj
    rw [h']
    obtain ⟨rfl, hj⟩ := hj
    cases r with
    | error _ => exact trivial
    | ok _ => exact hj
  | @failedHandled _ m r h h' =>
    rw [h] at hj
    obtain rfl := hfailed m r (List.mem_singleton.mpr rfl)
    rw [h']
    exact ⟨rfl, hj⟩

/-- A dead letter stays uncommitted as long as its loop is not at a `Commit`. -/
theorem Uncommitted.of_not_committing (h : Uncommitted σ s p l) (hp : ∀ m, p ≠ .committing m)
    (hp' : ∀ m, p' = .committing m → σ.standing s ≠ .removed → σ.failing m = false) :
    Uncommitted σ s p' l := by
  cases h with
  | nothing _ => exact .nothing hp'
  | one hfail h => exact .one hfail (Or.inr (h.resolve_left (hp _)))

theorem Uncommitted.mono (h : Uncommitted σ s p l)
    (hkind : ∀ m ∈ l, σ'.failing m = σ.failing m)
    (hkind' : ∀ m, p.message = some m → σ'.failing m = σ.failing m)
    (hleft : σ.standing s = .removed → σ'.standing s = .removed) : Uncommitted σ' s p l := by
  cases h with
  | nothing h =>
    refine .nothing fun m hp hs => ?_
    rw [hkind' m (hp ▸ rfl)]
    exact h m hp fun hno => hs (hleft hno)
  | @one m hfail h => exact .one ((hkind m List.mem_cons_self).trans hfail) (h.imp id hleft)

/-- A silent step of a loop to a phase that is not at a `Commit`, or for a message that passes. -/
theorem Uncommitted.silent (hu : Uncommitted σ s p l) (hp : ∀ m, p ≠ .committing m)
    (hadd : addedOf s evs = []) (hcommit : committedOf s evs = [])
    (hp' : ∀ m, p' = .committing m → σ.standing s ≠ .removed → σ.failing m = false) :
    ∃ l', l ++ addedOf s evs = (committedOf s evs).filter σ.failing ++ l' ∧
      Uncommitted σ s p' l' := by
  refine ⟨l, ?_, hu.of_not_committing hp hp'⟩
  rw [hadd, hcommit, List.append_nil, List.filter_nil, List.nil_append]

theorem afterAttempt_eq_committing {n k : ℕ} {m' : MessageEnvelope} {r : ReceiveResult}
    (h : afterAttempt n m k r = .committing m') : r = .ok .ack ∧ m' = m := by
  unfold afterAttempt at h
  split_ifs at h with hr
  · exact ⟨hr, by simpa using h.symm⟩

/-- **One transition of a loop keeps the books**: what it adds is what it commits that fails, up to
the dead letter in between. -/
theorem LoopStep.uncommitted (h : LoopStep s σ a σ' evs) (hj : Justified σ s (σ.loops s))
    (hu : Uncommitted σ s (σ.loops s) l) (hw : σ.WellFormed)
    (hanswer : ∀ m r, .receiveReturned s .dispatch m r ∈ evs → r = .ok .ack → σ.failing m = false)
    (hfailed : ∀ m r, .failedReturned s .dispatch m r ∈ evs → r = onMessageFailedHandler) :
    ∃ l', l ++ addedOf s evs = (committedOf s evs).filter σ.failing ++ l' ∧
      Uncommitted σ s (σ'.loops s) l' := by
  cases h with
  | stays _ hl hquiet =>
    rw [addedOf_of_not_ofLoop hquiet, committedOf_of_not_ofLoop hquiet, hl]
    exact ⟨l, by simp, hu⟩
  | starts hs hl =>
    refine hu.silent (by simp [hw.unknown_idle s hs]) rfl rfl fun m hm => ?_
    rcases hl with hl | ⟨hl, -⟩ <;> simp [hl] at hm
  | dispatch hl =>
    generalize hp : σ.loops s = p, σ'.loops s = p', σ'.queue = q' at hl hj hu
    have hreg : s ∈ σ.queue.subscribers → σ.standing s ≠ .removed := fun hs hno =>
      (System.standing_eq_removed.mp hno).1 hs
    have hleft : s ∉ σ.queue.subscribers → σ.standing s = .removed := fun hs =>
      (hw.standing_of_started (hp ▸ hl.started.1)).resolve_left hs
    cases hl with
    | @addToDlq m hs =>
      cases hu with
      | nothing _ => exact ⟨[m], by simp [addedOf, committedOf],
          .one (hj.resolve_right (hreg hs)) (Or.inl rfl)⟩
      | one _ h => exact absurd (h.resolve_left (by simp)) (hreg hs)
    | addToDlqMisses hs =>
      exact hu.silent (by simp) rfl rfl fun _ _ hno => absurd (hleft hs) hno
    | @commit m hs =>
      refine ⟨[], ?_, .nothing (by simp)⟩
      cases hu with
      | nothing h => simp [addedOf, committedOf, h m rfl (hreg hs)]
      | @one m' hfail h =>
        obtain rfl : m = m' := by simpa using h.resolve_right (hreg hs)
        simp [addedOf, committedOf, hfail]
    | commitMisses hs =>
      refine ⟨l, by simp [addedOf, committedOf], ?_⟩
      cases hu with
      | nothing _ => exact .nothing (by simp)
      | one hfail _ => exact .one hfail (Or.inr (hleft hs))
    | attemptThrows _ =>
      refine hu.silent (by simp) rfl rfl fun m' hm' => ?_
      exact absurd (afterAttempt_eq_committing hm').1 (by simp)
    | _ => exact hu.silent (by simp) rfl rfl (by simp)
  | @received _ m k r h h' =>
    refine hu.silent (by simp [h]) rfl rfl fun m' hm' _ => ?_
    obtain ⟨hr, rfl⟩ := afterAttempt_eq_committing (h' ▸ hm')
    exact hanswer m' r (List.mem_singleton.mpr rfl) hr
  | @retried _ m b r h h' =>
    rw [h] at hj
    refine hu.silent (by simp [h]) rfl rfl fun m' hm' => ?_
    rw [h', hj.1] at hm'
    cases r <;> simp [afterManualRetry] at hm'
  | @failedHandled _ m r h h' =>
    obtain rfl := hfailed m r (List.mem_singleton.mpr rfl)
    refine hu.silent (by simp [h]) rfl rfl fun m' hm' => ?_
    rw [h'] at hm'
    simp [onMessageFailedHandler, afterFailedHandler] at hm'

end Sorting

section Runs

variable {σ : System} {ω ω' : Service} {a : ServiceAction} {evs : List Event} {s : Guid}
  {ttl : TimeSpan} {n : ℕ} {tr : ServiceTrace} {m : MessageEnvelope}

/-- A transition that does not turn a message of one kind into one of the other: an edit of a
payload, if it finds its message, leaves the verdict on it as it was. -/
def keepsVerdicts (t : Transition Service ServiceAction Event) : Bool :=
  match t.act with
  | .changePayload id text =>
    t.pre.system.queue.buffer.all (·.id ≠ id) ||
      fails (some text) == fails (t.pre.system.queue.payloads id)
  | _ => true

theorem fails_eq_of_keepsVerdicts {t : Transition Service ServiceAction Event} {id : Guid}
    {text : String} (h : keepsVerdicts t = true) (ha : t.act = .changePayload id text)
    (hin : ∃ m ∈ t.pre.system.queue.buffer, m.id = id) :
    fails (some text) = fails (t.pre.system.queue.payloads id) := by
  obtain ⟨m, hm, rfl⟩ := hin
  simp only [keepsVerdicts, ha, Bool.or_eq_true, List.all_eq_true, beq_iff_eq] at h
  refine h.resolve_left fun hno => ?_
  simpa using hno m hm

theorem noted_verdicts_of_run (h : ServiceRun ttl n tr ω) (hok : ∀ t ∈ tr, keepsVerdicts t = true) :
    Noted SameVerdict ω.system ω.calls := by
  refine noted_of_run h (fun p hp => ⟨hp, rfl⟩) fun t ht id text ha hin p hp => ⟨hp.1, ?_⟩
  rw [fails_eq_of_keepsVerdicts (hok t ht) ha hin]
  exact hp.2

/-- Known messages stay of their kind. -/
theorem failing_eq_of_step (hs : serviceStep ω a = some (ω', evs))
    (hok : keepsVerdicts ⟨ω, a, evs, ω'⟩ = true) (hm : m.id ∈ ω.system.messageIds) :
    ω'.system.failing m = ω.system.failing m := by
  rcases serviceStep_cases hs with ⟨b, hb, hstep, -⟩ | ⟨-, -, -, hsys, -⟩
  · rcases (Service.payloads hb (effect_of_step hstep) hm).2 with hp | ⟨text, rfl, hin, hp⟩
    · rw [System.failing, hp, System.failing]
    · rw [System.failing, hp, System.failing]
      exact fails_eq_of_keepsVerdicts hok rfl hin
  · rw [hsys]

/-- What has been committed has been enqueued. -/
theorem mem_messageIds_of_committed {tr : Trace} (h : RunOf ttl n tr σ)
    (hm : m ∈ committedOf s (events tr)) : m.id ∈ σ.messageIds := by
  obtain ⟨t, ht, hmem⟩ := mem_events.mp (mem_committedOf.mp hm)
  obtain ⟨pre, post, rfl, hpre, hstep, -⟩ := h.of_mem ht
  have hl := ((effect_of_step hstep).of_committed hmem).2.1
  have henq := delivering_enqueued_of_run hpre (s := s) (m := m) (by rw [hl]; rfl)
  refine idsUsed_of_run h m ?_
  rw [events_append, enqueuedOf_append]
  exact List.mem_append_left _ henq

/-- What a loop is delivering it was delivering before, or has just read from the buffer. -/
theorem CursorStep.delivering_or {v v' : CursorView} (h : CursorStep s v evs v')
    (hm : v'.delivering = some m) :
    v.delivering = some m ∨ v.standing ≠ .absent ∧ m ∈ v.buffer := by
  cases h with
  | read hs _ _ hread =>
    obtain rfl := Option.some.inj hm
    exact Or.inr ⟨hs, List.mem_of_getElem? hread⟩
  | commit _ _ | commitMissed _ _ | release _ _ => simp at hm
  | _ => exact Or.inl hm

/-- Without acknowledged replays the dead letters are what has been added. -/
theorem dlq_eq_addedOf {σ' : System} {tr : Trace} {b : Action} (h : RunOf ttl n tr σ)
    (heff : Effect σ b σ' evs) (hdlq : σ.dlq s = addedOf s (events tr))
    (hack : ∀ call m, .receiveReturned s (.replay call) m (.ok .ack) ∉ evs) :
    σ'.dlq s = addedOf s (events tr ++ evs) := by
  have hd := heff.dlqStep (wellFormed_of_run h) s
  rw [addedOf_append, ← hdlq]
  by_cases hs : (σ.dlqView s).standing = .absent
  · -- nothing has been added to the queue of an unknown subscriber, or is added to it
    have hold : ∀ m, .addedToDlq s m ∉ events tr := (accounted_of_run h s).absent hs
    have hnew : ∀ m, .addedToDlq s m ∉ evs := by
      intro m hm
      rw [(hd.addedToDlq hm).1] at hs
      simp at hs
    have hempty : σ.dlq s = [] := by rw [hdlq, addedOf_eq_nil hold]
    rw [addedOf_eq_nil hnew, hempty, List.append_nil]
    refine List.eq_nil_iff_forall_not_mem.mpr fun m hm => ?_
    rcases hd.mem_entries hm with hm | hm
    · change m ∈ σ.dlq s at hm
      simp [hempty] at hm
    · exact hnew m hm
  · exact hd.entries_eq hs hack

/-- The dead letters of a subscriber, sorted out: with the events that led to a state. -/
structure Sorted (s : Guid) (evs : List Event) (σ : System) : Prop where
  justified : Justified σ s (σ.loops s)
  books : ∃ l, addedOf s evs = (committedOf s evs).filter σ.failing ++ l ∧
    Uncommitted σ s (σ.loops s) l
  dlq : σ.dlq s = addedOf s evs

/-- Whatever has been added fails. -/
theorem Sorted.failing {evs : List Event} (h : Sorted s evs σ) (hm : m ∈ addedOf s evs) :
    σ.failing m = true := by
  obtain ⟨l, hl, hu⟩ := h.books
  rw [hl] at hm
  rcases List.mem_append.mp hm with hm | hm
  · exact (List.mem_filter.mp hm).2
  · cases hu with
    | nothing _ => simp at hm
    | one hfail _ => exact List.mem_singleton.mp hm ▸ hfail

/-- **One transition of the application sorts one more message out.** -/
theorem Sorted.step {evs' : List Event} (h : Sorted s (events tr) ω.system)
    (hrun : ServiceRun ttl n tr ω) (hn : Noted SameVerdict ω.system ω.calls)
    (hs : serviceStep ω a = some (ω', evs')) (hok : keepsVerdicts ⟨ω, a, evs', ω'⟩ = true) :
    Sorted s (events tr ++ evs') ω'.system := by
  have hkind : ∀ m, m.id ∈ ω.system.messageIds → ω'.system.failing m = ω.system.failing m :=
    fun m hm => failing_eq_of_step hs hok hm
  obtain ⟨hanswers, hfailed⟩ := hn.answers hs
  rcases serviceStep_cases hs with ⟨b, hb, hstep, -⟩ | ⟨-, -, rfl, hsys, -⟩
  · obtain ⟨hsysrun, hevents⟩ := systemRun_of_run hrun
    have hw := wellFormed_of_run hsysrun
    have heff := effect_of_step hstep
    have hphase : ∀ m, (ω.system.loops s).message = some m →
        ω'.system.failing m = ω.system.failing m := fun m hm =>
      hkind m (idsUsed_of_run hsysrun m (delivering_enqueued_of_run hsysrun hm))
    have hleft : ω.system.standing s = .removed → ω'.system.standing s = .removed :=
      (heff.cursorStep hw s).removed
    -- the message of the phase the loop is in now
    have hphase' : ∀ m, (ω'.system.loops s).message = some m →
        s ∈ ω.system.subscriberIds ∧ ω'.system.failing m = ω.system.failing m := by
      intro m hm
      rcases (heff.cursorStep hw s).delivering_or hm with hold | ⟨hstanding, hbuffer⟩
      · refine ⟨?_, hphase m hold⟩
        by_contra hno
        change (ω.system.loops s).message = some m at hold
        simp [hw.unknown_idle s hno, DispatchPhase.message] at hold
      · refine ⟨?_, hkind m (idsUsed_of_run hsysrun m ?_)⟩
        · by_contra hno
          exact hstanding (hw.standing_eq_absent_of_fresh hno)
        · rw [(ledger_of_run hsysrun).enqueued]
          exact List.mem_append_right _ hbuffer
    have hadded : ∀ m ∈ addedOf s (events tr), m.id ∈ ω.system.messageIds := fun m hm =>
      idsUsed_of_run hsysrun m (addedToDlq_of_run hsysrun (hevents ▸ mem_addedOf.mp hm)).1
    obtain ⟨l, hl, hu⟩ := h.books
    obtain ⟨l', hl', hu'⟩ := (heff.loopStep s).uncommitted h.justified hu hw
      (fun m r hmem => (hanswers s .dispatch m r hmem).failing_eq_false)
      (fun m r hmem => hfailed s .dispatch m r hmem)
    have hj := (heff.loopStep s).justified h.justified hw (disposed_of_cancelled hsysrun)
      (fun m r hmem hr => (hanswers s .dispatch m r hmem).failing_or rfl hr)
      (fun m r hmem => hfailed s .dispatch m r hmem)
    refine ⟨?_, ⟨l', ?_, ?_⟩, ?_⟩
    · refine hj.mono (fun m hm => (hphase' m hm).2) (fun hm hc => ?_) hleft
      obtain ⟨m, hm⟩ := Option.ne_none_iff_exists'.mp hm
      exact (heff.cancelled (hphase' m hm).1 hc).2
    · have hcommits : ∀ m ∈ committedOf s (events tr ++ evs'),
          ω.system.failing m = ω'.system.failing m := by
        intro m hm
        rw [committedOf_append] at hm
        rcases List.mem_append.mp hm with hm | hm
        · exact (hkind m (mem_messageIds_of_committed hsysrun (hevents ▸ hm))).symm
        · have hcommitting := (heff.of_committed (mem_committedOf.mp hm)).2.1
          exact (hphase m (by rw [hcommitting]; rfl)).symm
      rw [← List.filter_congr hcommits, addedOf_append, committedOf_append, List.filter_append, hl,
        List.append_assoc, hl', List.append_assoc]
    · refine hu'.mono (fun m hm => ?_) (fun m hm => (hphase' m hm).2) hleft
      have hm' : m ∈ l ++ addedOf s evs' := hl' ▸ List.mem_append_right _ hm
      rcases List.mem_append.mp hm' with hm' | hm'
      · exact hkind m (hadded m (hl ▸ List.mem_append_right _ hm'))
      · have hdead := heff.of_addedToDlq (mem_addedOf.mp hm')
        exact hphase m (by rw [hdead]; rfl)
    · rw [← hevents]
      refine dlq_eq_addedOf hsysrun heff (hevents ▸ h.dlq) fun call m hmem => ?_
      -- a replay hands over a dead letter, and that fails
      obtain ⟨kind, hcall⟩ := (heff.of_receiveReturned hmem).1
      have hin := (accounted_of_run hsysrun s).calls call _ m hcall rfl
      have hpass := (hanswers s (.replay call) m _ hmem).failing_eq_false rfl
      have hfail := h.failing (mem_addedOf.mpr (hevents ▸ hin))
      exact absurd (hpass.symm.trans hfail) (by simp)
  · rw [hsys, List.append_nil]
    exact h

/-- **The dead letters of a subscriber are the messages it has committed that fail**, in the order
it committed them, in every run of the application in which no edit of a payload changes the verdict
on its message; and at most one more, which its loop is about to commit, or was when the subscriber
left. What is in the dead letter queue is all that has been added to it. -/
theorem dead_letters_sorted (h : ServiceRun ttl n tr ω) (hok : ∀ t ∈ tr, keepsVerdicts t = true)
    (s : Guid) :
    ω.system.dlq s = addedOf s (events tr) ∧
      ∃ l, addedOf s (events tr) = (committedOf s (events tr)).filter ω.system.failing ++ l ∧
        (l = [] ∨ ∃ m, l = [m] ∧ ω.system.failing m = true ∧
          (ω.system.loops s = .committing m ∨ ω.system.standing s = .removed)) := by
  have hsorted : Sorted s (events tr) ω.system := by
    refine h.invariantOn (I := fun tr ω => (∀ t ∈ tr, keepsVerdicts t = true) →
      Sorted s (events tr) ω.system) ?_ ?_ hok hok
    · exact fun _ => ⟨trivial, ⟨[], rfl, .nothing fun _ hm _ => by cases hm⟩, rfl⟩
    · intro tr ω a evs ω' hrun hi hs hok' hall
      have hbefore : ∀ t ∈ tr, keepsVerdicts t = true :=
        fun t ht => hall t (List.mem_append_left _ ht)
      simpa using (hi hbefore).step hrun (noted_verdicts_of_run hrun hbefore) hs hok'
  obtain ⟨l, hl, hu⟩ := hsorted.books
  refine ⟨hsorted.dlq, l, hl, ?_⟩
  cases hu with
  | nothing _ => exact Or.inl rfl
  | @one m hfail hwhen => exact Or.inr ⟨m, rfl, hfail, hwhen⟩

/-- The theorem at a subscriber that is given a message that passes and one that fails, with another
text that fails by the time it is retried. -/
theorem dead_letters_sorted_two : ∃ tr ω, ServiceRun 5 0 tr ω ∧
    committedOf 7 (events tr) = [⟨1, 10⟩, ⟨2, 11⟩] ∧ addedOf 7 (events tr) = [⟨2, 11⟩] ∧
    ω.system.dlq 7 = addedOf 7 (events tr) := by
  have h := serviceRun_exec 5 0
    [.subscribe 7, .enqueueSingle 1 10 "work", .enqueueSingle 2 11 "fails", .dispatch 7,
      .dispatch 7, .dispatch 7, .received 7 false, .dispatch 7, .dispatch 7, .dispatch 7,
      .dispatch 7, .received 7 false, .changePayload 2 "failed", .dispatch 7, .failedHandled 7,
      .dispatch 7, .received 7 false, .dispatch 7, .dispatch 7] (by decide)
  exact ⟨_, _, h, by decide, by decide, (dead_letters_sorted h (by decide) 7).1⟩

end Runs

end PushDeliveredQueue
