import PushDeliveredQueue.Delivery

/-!
# What a loop does after Unsubscribe

`Unsubscribe` takes the subscriber out of the dictionary and cancels its cursor; the dispatch
loop looks at the cancellation at the top of its `while` loop only, and finishes what it is
doing. How much that can be is in the phase it is in: `PushDeliveredQueue.DispatchPhase.callsLeft`
bounds the calls of `OnMessageReceiveAsync` it has yet to make, and every one of them is paid for
by a step that lowers the bound (`PushDeliveredQueue.System.Departed.budget`). The outcome is at
most one message, at most `n + 2` calls with it and at most one of the failure handler, none of
which changes the cursor (`PushDeliveredQueue.unsubscribe_bounded`).
-/

namespace PushDeliveredQueue

open Transitions

/-! ### Having left -/

/-- A subscriber that has left: it is out of the dictionary, and its cursor is cancelled. -/
structure System.Departed (σ : System) (s : Guid) : Prop where
  removed : σ.standing s = .removed
  cancelled : (σ.queue.cancellation s).isCancellationRequested = true

/-- An action of a subscriber's dispatch loop: a step of its own, or the return of a call it
awaits. -/
def Action.ofLoop (s : Guid) : Action → Bool
  | .dispatch s' | .received s' _ | .failedHandled s' _ => s' = s
  | _ => false

section Departed

variable {σ σ' : System} {a : Action} {evs : List Event} {s : Guid}

theorem System.Departed.step (h : σ.Departed s) (hw : σ.WellFormed) (heff : Effect σ a σ' evs) :
    σ'.Departed s := by
  obtain ⟨hs, hc⟩ := h
  refine ⟨(heff.cursorStep hw s).removed hs, ?_⟩
  exact (heff.cancelled (System.standing_eq_removed.mp hs).2 hc).2

/-- **`Unsubscribe` makes a registered subscriber leave.** -/
theorem System.WellFormed.departed (hw : σ.WellFormed) (hs : s ∈ σ.queue.subscribers) :
    System.Departed { σ with queue := σ.queue.unsubscribe s } s := by
  refine ⟨hw.standing_unsubscribe_self (System.standing_eq_registered.mpr hs), ?_⟩
  exact SubscribableQueue.isCancellationRequested_unsubscribe hs (hw.disposed_cancelled s)

/-- **The loop of a subscriber that has left does not touch its cursor**, nor anybody's:
`Commit` and `AddToDeadLetterQueue` find no subscriber. -/
theorem System.Departed.queue_eq (h : σ.Departed s) (heff : Effect σ a σ' evs)
    (ha : a.ofLoop s = true) : σ'.queue = σ.queue := by
  have hs := (System.standing_eq_removed.mp h.removed).1
  cases heff with
  | @dispatch s' q p p' _ _ hle =>
    obtain rfl : s' = s := by simpa [Action.ofLoop] using ha
    cases hle with
    | addToDlq hs' | commit hs' => exact absurd hs' hs
    | _ => rfl
  | received _ _ | retried _ _ | failedHandled _ _ => rfl
  | _ => simp [Action.ofLoop] at ha

end Departed

/-! ### What is left to do -/

/-- Whether an event is a call of `OnMessageReceiveAsync` by a subscriber's loop. -/
def Event.callsReceive (s : Guid) : Event → Bool
  | .receiveCalled s' caller _ _ => s' = s && caller.ofLoop
  | _ => false

/-- Whether an event is a call of `OnMessageFailedHandlerAsync` by a subscriber's loop. -/
def Event.callsFailed (s : Guid) : Event → Bool
  | .failedCalled s' caller _ _ => s' = s && caller.ofLoop
  | _ => false

/-- The calls of `OnMessageReceiveAsync` a loop may make before it is back at its condition: the
attempts the policy has left, and the extra one. -/
def DispatchPhase.callsLeft (n : ℕ) : DispatchPhase → ℕ
  | .reading => n + 2
  | .attempting _ k => n - k + 2
  | .receiving _ k => n - k + 1
  | .failed _ _ | .deciding _ | .manualRetry _ _ => 1
  | .notStarted | .checking | .backoff | .retrying _ _ | .deadLettering _ | .committing _
  | .ended | .faulted => 0

/-- The same for the failure handler. -/
def DispatchPhase.failuresLeft : DispatchPhase → ℕ
  | .reading | .attempting _ _ | .receiving _ _ | .failed _ _ => 1
  | .notStarted | .checking | .backoff | .deciding _ | .manualRetry _ _ | .retrying _ _
  | .deadLettering _ | .committing _ | .ended | .faulted => 0

section Budget

variable {σ σ' : System} {a : Action} {evs : List Event} {s : Guid} {n : ℕ}

theorem DispatchPhase.callsLeft_le (n : ℕ) (p : DispatchPhase) : p.callsLeft n ≤ n + 2 := by
  cases p <;> simp only [callsLeft] <;> omega

theorem DispatchPhase.failuresLeft_le (p : DispatchPhase) : p.failuresLeft ≤ 1 := by
  cases p <;> simp [failuresLeft]

theorem callsLeft_afterAttempt (m : MessageEnvelope) (k : ℕ) (r : ReceiveResult) :
    (afterAttempt n m k r).callsLeft n ≤ n - k + 1 := by
  unfold afterAttempt
  split_ifs <;> simp only [DispatchPhase.callsLeft] <;> omega

theorem failuresLeft_afterAttempt (m : MessageEnvelope) (k : ℕ) (r : ReceiveResult) :
    (afterAttempt n m k r).failuresLeft ≤ 1 :=
  DispatchPhase.failuresLeft_le _

theorem callsLeft_afterFailedHandler (m : MessageEnvelope) (r : FailedResult) :
    (afterFailedHandler m r).callsLeft n ≤ 1 ∧ (afterFailedHandler m r).failuresLeft = 0 := by
  rcases r with e | b
  · simp [afterFailedHandler, DispatchPhase.callsLeft, DispatchPhase.failuresLeft]
  · cases b <;> simp [afterFailedHandler, DispatchPhase.callsLeft, DispatchPhase.failuresLeft]

theorem callsLeft_afterManualRetry (m : MessageEnvelope) (b : Bool) (r : ReceiveResult) :
    (afterManualRetry m b r).callsLeft n = 0 ∧ (afterManualRetry m b r).failuresLeft = 0 := by
  rcases r with e | r
  · exact ⟨rfl, rfl⟩
  · cases b <;> exact ⟨rfl, rfl⟩

theorem Event.OfLoop.of_callsReceive {e : Event} (h : e.callsReceive s = true) : e.OfLoop s := by
  cases e with
  | receiveCalled s' c _ _ =>
    obtain ⟨rfl, hc⟩ := by simpa [callsReceive] using h
    exact ⟨rfl, Caller.ofLoop_iff.mp hc⟩
  | _ => simp [callsReceive] at h

theorem Event.OfLoop.of_callsFailed {e : Event} (h : e.callsFailed s = true) : e.OfLoop s := by
  cases e with
  | failedCalled s' c _ _ =>
    obtain ⟨rfl, hc⟩ := by simpa [callsFailed] using h
    exact ⟨rfl, Caller.ofLoop_iff.mp hc⟩
  | _ => simp [callsFailed] at h

/-- Events that are not the loop's are no calls of it. -/
theorem countP_of_not_ofLoop (h : ∀ e ∈ evs, ¬ e.OfLoop s) :
    evs.countP (Event.callsReceive s) = 0 ∧ evs.countP (Event.callsFailed s) = 0 := by
  rw [List.countP_eq_zero, List.countP_eq_zero]
  exact ⟨fun e he => mt Event.OfLoop.of_callsReceive (h e he),
    fun e he => mt Event.OfLoop.of_callsFailed (h e he)⟩

/-- **Every call of the loop of a subscriber that has left is paid for.** -/
theorem System.Departed.budget (h : σ.Departed s) (hl : LoopStep s σ a σ' evs)
    (hn : σ.queue.retryCount = n) :
    evs.countP (Event.callsReceive s) + (σ'.loops s).callsLeft n ≤ (σ.loops s).callsLeft n ∧
      evs.countP (Event.callsFailed s) + (σ'.loops s).failuresLeft ≤
        (σ.loops s).failuresLeft := by
  cases hl with
  | stays _ hl hquiet =>
    obtain ⟨hcalls, hfailures⟩ := countP_of_not_ofLoop hquiet
    rw [hcalls, hfailures, hl]
    exact ⟨by omega, by omega⟩
  | starts hnew _ => exact absurd (System.standing_eq_removed.mp h.removed).2 hnew
  | dispatch hle =>
    subst hn
    generalize σ.loops s = p, σ'.loops s = p', σ'.queue = q' at hle
    cases hle with
    | checkPasses _ hc => exact absurd (h.cancelled.symm.trans hc) (by simp)
    | @attemptThrows m k _ =>
      have hleft := callsLeft_afterAttempt (n := σ.queue.retryCount) m k
        (.error .objectDisposed)
      have hfail := failuresLeft_afterAttempt (n := σ.queue.retryCount) m k
        (.error .objectDisposed)
      have hbefore : (DispatchPhase.attempting m k).callsLeft σ.queue.retryCount =
          σ.queue.retryCount - k + 2 := rfl
      refine ⟨?_, by simpa [DispatchPhase.failuresLeft] using hfail⟩
      rw [List.countP_nil, hbefore]
      omega
    | _ =>
      simp [DispatchPhase.callsLeft, DispatchPhase.failuresLeft, Event.callsReceive,
        Event.callsFailed, Caller.ofLoop] <;> omega
  | @received _ m k r h h' =>
    rw [h, h', hn]
    have hleft := callsLeft_afterAttempt (n := n) m k r
    have hfail := failuresLeft_afterAttempt (n := n) m k r
    constructor
    · simpa [Event.callsReceive, DispatchPhase.callsLeft] using hleft
    · simpa [Event.callsFailed, DispatchPhase.failuresLeft] using hfail
  | @retried _ m b r h h' =>
    obtain ⟨hleft, hfail⟩ := callsLeft_afterManualRetry (n := n) m b r
    rw [h, h', hleft, hfail]
    simp [Event.callsReceive, Event.callsFailed]
  | @failedHandled _ m r h h' =>
    obtain ⟨hleft, hfail⟩ := callsLeft_afterFailedHandler (n := n) m r
    rw [h, h', hfail]
    constructor
    · simpa [Event.callsReceive, DispatchPhase.callsLeft] using hleft
    · simp [Event.callsFailed]

end Budget

/-! ### One message -/

/-- All the calls a subscriber's loop has made are for one message, and the loop is in the
middle of delivering it, or delivering nothing and reading nothing more. -/
structure OneMessage (s : Guid) (evs : List Event) (σ : System) : Prop where
  same : ∀ c c' m m' p p', .receiveCalled s c m p ∈ evs → .receiveCalled s c' m' p' ∈ evs →
    c.ofLoop → c'.ofLoop → m = m'
  now : ∀ c m p, .receiveCalled s c m p ∈ evs → c.ofLoop →
    (σ.loops s).message = some m ∨ (σ.loops s).message = none ∧ σ.loops s ≠ .reading

section OneMessage

variable {σ σ' : System} {a : Action} {evs evs' : List Event} {s : Guid}

/-- What a step of a loop that has left means for its message: it makes a call with it, or
none, and keeps it or drops it. -/
theorem System.Departed.message (h : σ.Departed s) (hl : LoopStep s σ a σ' evs) :
    (∀ c m p, .receiveCalled s c m p ∈ evs → c.ofLoop → (σ.loops s).message = some m) ∧
      (σ.loops s ≠ .reading → (σ'.loops s).message = (σ.loops s).message ∧ σ'.loops s ≠ .reading ∨
        (σ'.loops s).message = none ∧ σ'.loops s ≠ .reading) := by
  cases hl with
  | stays _ hl hquiet =>
    refine ⟨fun c m p hmem hc => absurd ⟨rfl, ?_⟩ (hquiet _ hmem), fun hr => Or.inl ?_⟩
    · rw [hl]
      exact ⟨rfl, hr⟩
    · rintro call rfl
      simp [Caller.ofLoop] at hc
  | starts hnew _ => exact absurd (System.standing_eq_removed.mp h.removed).2 hnew
  | dispatch hle =>
    generalize σ.loops s = p, σ'.loops s = p', σ'.queue = q' at hle
    cases hle with
    | checkPasses _ hc => exact absurd (h.cancelled.symm.trans hc) (by simp)
    | attemptThrows _ =>
      exact ⟨by simp, fun _ => Or.inl ⟨message_afterAttempt _ _ _ _, afterAttempt_ne rfl _ _ _ _⟩⟩
    | read _ _ | readNothing _ | readThrows _ => exact ⟨by simp, fun hr => absurd rfl hr⟩
    | attempt _ | manualRetry _ =>
      refine ⟨?_, fun _ => Or.inl ⟨rfl, by simp⟩⟩
      rintro c m p hmem -
      obtain ⟨-, rfl, -⟩ := by simpa using hmem
      rfl
    | _ => simp [DispatchPhase.message]
  | @received _ m k r h h' =>
    rw [h, h']
    exact ⟨by simp, fun _ => Or.inl ⟨message_afterAttempt _ _ _ _, afterAttempt_ne rfl _ _ _ _⟩⟩
  | @retried _ m b r h h' =>
    rw [h, h']
    have hne := afterManualRetry_ne (p := .reading) rfl (by simp) m b r
    refine ⟨by simp, fun _ => ?_⟩
    exact (message_afterManualRetry m b r).imp (⟨·, hne⟩) (⟨·, hne⟩)
  | @failedHandled _ m r h h' =>
    rw [h, h']
    have hne := afterFailedHandler_ne (p := .reading) rfl (by simp) (by simp) m r
    refine ⟨by simp, fun _ => ?_⟩
    exact (message_afterFailedHandler m r).imp (⟨·, hne⟩) (⟨·, hne⟩)

theorem OneMessage.step (h : OneMessage s evs σ) (hd : σ.Departed s)
    (hl : LoopStep s σ a σ' evs') : OneMessage s (evs ++ evs') σ' := by
  obtain ⟨hcall, hnext⟩ := hd.message hl
  -- a call made now is with the message under delivery
  have hold : ∀ c c' m m' p p', .receiveCalled s c m p ∈ evs → .receiveCalled s c' m' p' ∈ evs' →
      c.ofLoop → c'.ofLoop → m = m' := by
    intro c c' m m' p p' hmem hmem' hc hc'
    have hm' := hcall _ _ _ hmem' hc'
    rcases h.now _ _ _ hmem hc with hm | ⟨hm, -⟩
    · exact Option.some.inj (hm.symm.trans hm')
    · simp [hm] at hm'
  constructor
  · intro c c' m m' p p' hmem hmem' hc hc'
    rcases List.mem_append.mp hmem with hmem | hmem <;>
      rcases List.mem_append.mp hmem' with hmem' | hmem'
    · exact h.same _ _ _ _ _ _ hmem hmem' hc hc'
    · exact hold _ _ _ _ _ _ hmem hmem' hc hc'
    · exact (hold _ _ _ _ _ _ hmem' hmem hc' hc).symm
    · exact Option.some.inj ((hcall _ _ _ hmem hc).symm.trans (hcall _ _ _ hmem' hc'))
  · intro c m p hmem hc
    have hbefore : (σ.loops s).message = some m ∨
        (σ.loops s).message = none ∧ σ.loops s ≠ .reading := by
      rcases List.mem_append.mp hmem with hmem | hmem
      · exact h.now _ _ _ hmem hc
      · exact Or.inl (hcall _ _ _ hmem hc)
    have hne : σ.loops s ≠ .reading := by
      rcases hbefore with hm | ⟨-, hne⟩
      · intro hr
        simp [hr, DispatchPhase.message] at hm
      · exact hne
    rcases hnext hne with ⟨hm', hne'⟩ | hdone
    · rw [hm']
      exact hbefore.imp id fun h => ⟨h.1, hne'⟩
    · exact Or.inr hdone

end OneMessage

/-! ### The bound -/

/-- What holds of every state once a subscriber has left. -/
structure System.Leaving (n : ℕ) (s : Guid) (σ : System) : Prop where
  wellFormed : σ.WellFormed
  retryCount : σ.queue.retryCount = n
  departed : σ.Departed s

section Leaving

variable {n : ℕ} {s : Guid} {σ₀ σ σ' : System} {a : Action} {evs : List Event} {tr : Trace}

theorem System.Leaving.of_step (h : σ.Leaving n s) (hs : step σ a = some (σ', evs)) :
    σ'.Leaving n s := by
  obtain ⟨hw, hn, hd⟩ := h
  have heff := effect_of_step hs
  exact ⟨hw.of_effect heff, heff.options.2.trans hn, hd.step hw heff⟩

theorem System.Leaving.of_run (h₀ : σ₀.Leaving n s) (h : Run step σ₀ tr σ) : σ.Leaving n s :=
  h.stateInvariant h₀ fun _ _ _ _ => System.Leaving.of_step

/-- All the calls made from then on are for one message. -/
theorem System.Leaving.oneMessage (h₀ : σ₀.Leaving n s) (h : Run step σ₀ tr σ) :
    OneMessage s (events tr) σ := by
  refine h.invariant (I := fun tr σ => OneMessage s (events tr) σ) (by constructor <;> simp) ?_
  intro tr σ a evs σ' hrun hone hs
  simpa using hone.step (h₀.of_run hrun).departed ((effect_of_step hs).loopStep s)

/-- The calls made from then on, of the handler and of the failure handler. -/
theorem System.Leaving.countP_le (h₀ : σ₀.Leaving n s) (h : Run step σ₀ tr σ) :
    (events tr).countP (Event.callsReceive s) ≤ n + 2 ∧
      (events tr).countP (Event.callsFailed s) ≤ 1 := by
  have hstep : ∀ σ a evs σ', σ.Leaving n s → step σ a = some (σ', evs) →
      evs.countP (Event.callsReceive s) + (σ'.loops s).callsLeft n ≤ (σ.loops s).callsLeft n ∧
        evs.countP (Event.callsFailed s) + (σ'.loops s).failuresLeft ≤
          (σ.loops s).failuresLeft := by
    intro σ a evs σ' hi hs
    exact hi.departed.budget ((effect_of_step hs).loopStep s) hi.retryCount
  have hcalls := (h.budget (Event.callsReceive s) (fun σ => (σ.loops s).callsLeft n)
    (fun σ a evs σ' hi hs => ⟨hi.of_step hs, (hstep σ a evs σ' hi hs).1⟩) h₀).2
  have hfailures := (h.budget (Event.callsFailed s) (fun σ => (σ.loops s).failuresLeft)
    (fun σ a evs σ' hi hs => ⟨hi.of_step hs, (hstep σ a evs σ' hi hs).2⟩) h₀).2
  have hle := DispatchPhase.callsLeft_le n (σ₀.loops s)
  have hle' := DispatchPhase.failuresLeft_le (σ₀.loops s)
  constructor <;> omega

end Leaving

section Runs

variable {ttl : TimeSpan} {n : ℕ} {pre post : Trace} {σ : System} {s : Guid}
  {t : Transition System Action Event}

/-- Leaving begins with the `Unsubscribe` of a registered subscriber. -/
theorem leaving_of_unsubscribe (hpre : RunOf ttl n pre t.pre)
    (hstep : step t.pre t.act = some (t.post, t.out)) (ha : t.act = .unsubscribe s)
    (hs : s ∈ t.pre.queue.subscribers) : t.post.Leaving n s := by
  have hrun : RunOf ttl n (pre ++ [⟨t.pre, t.act, t.out, t.post⟩]) t.post := hpre.snoc hstep
  refine ⟨wellFormed_of_run hrun, (options_of_run hrun).2, ?_⟩
  have hw := wellFormed_of_run hpre
  have heff := effect_of_step hstep
  rw [ha] at heff
  generalize t.post = σ₁, t.out = evs at heff
  cases heff with
  | unsubscribe _ => exact hw.departed hs

/-- **`Unsubscribe` is bounded.** In a run, once `Unsubscribe` has taken a registered subscriber
out of the dictionary and cancelled its cursor, wherever its dispatch loop was at that moment,
the loop calls `OnMessageReceiveAsync` for at most one message and at most `n + 2` times, calls
`OnMessageFailedHandlerAsync` at most once, changes nothing of the queue and does not pass its
check again. -/
theorem unsubscribe_bounded (h : RunOf ttl n (pre ++ t :: post) σ) (ha : t.act = .unsubscribe s)
    (hs : s ∈ t.pre.queue.subscribers) :
    (∀ c c' m m' p p', .receiveCalled s c m p ∈ events post →
        .receiveCalled s c' m' p' ∈ events post → c.ofLoop → c'.ofLoop → m = m') ∧
      (events post).countP (Event.callsReceive s) ≤ n + 2 ∧
      (events post).countP (Event.callsFailed s) ≤ 1 ∧
      ∀ u ∈ post, (u.act.ofLoop s = true → u.post.queue = u.pre.queue) ∧
        (u.pre.loops s = .checking → u.post.loops s ≠ .reading) := by
  obtain ⟨hpre, hstep, hpost⟩ := h.cut
  have hleaving := leaving_of_unsubscribe hpre hstep ha hs
  obtain ⟨hcalls, hfailures⟩ := hleaving.countP_le hpost
  refine ⟨(hleaving.oneMessage hpost).same, hcalls, hfailures, fun u hu => ?_⟩
  obtain ⟨before, after, -, hbefore, hstep', -⟩ := hpost.of_mem hu
  have hd := (hleaving.of_run hbefore).departed
  have heff := effect_of_step hstep'
  exact ⟨hd.queue_eq heff, (heff.loopStep s).not_passes hd.cancelled⟩

/-- The theorem at a loop that has passed its check just before: it makes all the calls it may. -/
theorem unsubscribe_bounded_full : ∃ pre t post σ, RunOf 5 1 (pre ++ t :: post) σ ∧
    t.act = .unsubscribe 7 ∧ (events post).countP (Event.callsReceive 7) = 3 ∧
    (events post).countP (Event.callsReceive 7) ≤ 1 + 2 ∧
    (events post).countP (Event.callsFailed 7) ≤ 1 := by
  have h := (runOf_exec 5 1 [.subscribe 7, .enqueue 1 10 none, .dispatch 7] (by decide)).snoc
    (a := .unsubscribe 7) rfl
  have hpost := h.append (run_exec [.dispatch 7, .dispatch 7, .received 7 (.ok .nack),
    .dispatch 7, .received 7 (.ok .nack), .dispatch 7, .failedHandled 7 (.ok .retryOnceThenDLQ),
    .dispatch 7, .received 7 (.ok .nack), .dispatch 7, .dispatch 7, .dispatch 7] (by decide))
  rw [List.append_assoc] at hpost
  obtain ⟨-, hcalls, hfailures, -⟩ := unsubscribe_bounded hpost rfl (by decide)
  exact ⟨_, _, _, _, hpost, rfl, by decide, hcalls, hfailures⟩

end Runs

end PushDeliveredQueue
