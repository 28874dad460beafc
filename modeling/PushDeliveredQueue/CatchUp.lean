import Mathlib.Algebra.BigOperators.Ring.List
import Mathlib.Algebra.Ring.Nat
import PushDeliveredQueue.Departure

/-!
# Catching up

How long a dispatch loop can go on before it has nothing left to deliver. Every step of the loop is
paid for out of a potential (`PushDeliveredQueue.System.work`): what is left to do for the message
being delivered, and a fixed amount for each message behind it. Only three things raise the
potential: a message that is enqueued, a delivery that ends without a `Commit` of a registered
subscriber, so that the message stays, and an accepted `ReplayFrom`. The outcome is a bound on the
number of steps a loop takes before it finds the buffer exhausted
(`PushDeliveredQueue.steps_le_of_run`); and as long as it runs, it has a step to take, or awaits
the handler (`PushDeliveredQueue.DispatchPhase.Running.exists_step`).
-/

namespace PushDeliveredQueue

open Transitions

/-! ### What is left to do -/

/-- The steps one message takes, from the read of it to the next read. -/
def stepsPerMessage (n : ℕ) : ℕ := 2 * n + 10

/-- The messages from the cursor of a subscriber on. -/
def SubscribableQueue.rest (q : SubscribableQueue) (s : Guid) : ℤ :=
  q.buffer.length - (q.cursors s).index

/-- The potential of a loop in a phase, with so many messages from its cursor on: the steps it has
to take before it reads again, and those for the messages behind the one it is delivering. A loop
that is not running has none. -/
def workOf (n : ℕ) (rest : ℤ) : DispatchPhase → ℕ
  | .notStarted | .ended | .faulted => 0
  | .reading => stepsPerMessage n * rest.toNat
  | .checking => stepsPerMessage n * rest.toNat + 1
  | .backoff => stepsPerMessage n * rest.toNat + 2
  | .committing _ => stepsPerMessage n * (rest - 1).toNat + 2
  | .deadLettering _ => stepsPerMessage n * (rest - 1).toNat + 3
  | .retrying _ _ => stepsPerMessage n * (rest - 1).toNat + 4
  | .manualRetry _ _ => stepsPerMessage n * (rest - 1).toNat + 5
  | .deciding _ => stepsPerMessage n * (rest - 1).toNat + 6
  | .failed _ _ => stepsPerMessage n * (rest - 1).toNat + 7
  | .receiving _ k => stepsPerMessage n * (rest - 1).toNat + (2 * (n - k) + 8)
  | .attempting _ k => stepsPerMessage n * (rest - 1).toNat + (2 * (n - k) + 9)

/-- **The potential of a subscriber's loop.** -/
def System.work (σ : System) (s : Guid) : ℕ :=
  workOf σ.queue.retryCount (σ.queue.rest s) (σ.loops s)

/-- Whether a delivery of a subscriber ends with this event, and its message stays: the failure
handler has it left where it is, or the subscriber has left. -/
def Event.leavesMessage (s : Guid) : Event → Bool
  | .failedReturned s' .dispatch _ (.ok .block) | .commitMissed s' _ => s' = s
  | _ => false

/-- The messages an event puts ahead of the cursor of a subscriber, with so many in the buffer: one
that is enqueued, and those from where an accepted `ReplayFrom` moves the cursor back to. -/
def Event.putsAhead (s : Guid) (length : ℕ) : Event → ℕ
  | .enqueued _ => 1
  | .replayedFrom s' _ i => if s' = s then length - i else 0
  | _ => 0

/-- The messages a transition puts ahead of the cursor of a subscriber. -/
def Transition.putsAhead (s : Guid) (t : Transition System Action Event) : ℕ :=
  (t.out.map (Event.putsAhead s t.pre.queue.buffer.length)).sum

/-- The messages a transition makes a subscriber's loop deliver beyond those it had before it: those
put ahead of its cursor, and those whose delivery ends in vain. -/
def Transition.addsAhead (s : Guid) (t : Transition System Action Event) : ℕ :=
  Transition.putsAhead s t + t.out.countP (Event.leavesMessage s)

section Potential

variable {n : ℕ} {rest rest' : ℤ} {p p' : DispatchPhase} {m : MessageEnvelope}
  {q q' : SubscribableQueue} {s : Guid} {evs : List Event}

/-- The potential grows with the messages ahead, by the work of one message for each. -/
theorem workOf_le_add {c : ℕ} (h : rest' ≤ max rest 0 + c) (p : DispatchPhase) :
    workOf n rest' p ≤ workOf n rest p + stepsPerMessage n * c := by
  have hidle := Nat.mul_le_mul_left (stepsPerMessage n)
    (show rest'.toNat ≤ rest.toNat + c by omega)
  have hbusy := Nat.mul_le_mul_left (stepsPerMessage n)
    (show (rest' - 1).toNat ≤ (rest - 1).toNat + c by omega)
  rw [Nat.mul_add] at hidle hbusy
  cases p <;> simp only [workOf] <;> omega

/-- A message that stays is worth no more than one message. -/
theorem mul_toNat_le (c : ℕ) (rest : ℤ) : c * rest.toNat ≤ c * (rest - 1).toNat + c := by
  have hmul := Nat.mul_le_mul_left c (show rest.toNat ≤ (rest - 1).toNat + 1 by omega)
  rwa [Nat.mul_add, Nat.mul_one] at hmul

/-- A message that is read is worth one message. -/
theorem mul_toNat_eq (c : ℕ) (h : 0 < rest) : c * rest.toNat = c * (rest - 1).toNat + c := by
  have heq : rest.toNat = (rest - 1).toNat + 1 := by omega
  rw [heq, Nat.mul_add, Nat.mul_one]

/-- What the policy makes of the result of an attempt has less to do than the attempt. -/
theorem workOf_afterAttempt (n : ℕ) (rest : ℤ) (m : MessageEnvelope) (k : ℕ) (r : ReceiveResult) :
    1 + workOf n rest (afterAttempt n m k r) ≤ workOf n rest (.receiving m k) := by
  unfold afterAttempt
  split_ifs <;> simp only [workOf] <;> omega

/-- **One step of a loop is paid for**, unless it finds nothing to read. -/
theorem LoopEffect.work (h : LoopEffect q s p q' p' evs) (hread : .dispatchRead s none ∉ evs) :
    1 + workOf q.retryCount (q'.rest s) p' ≤ workOf q.retryCount (q.rest s) p +
      stepsPerMessage q.retryCount * evs.countP (Event.leavesMessage s) := by
  cases h with
  | readThrows hneg =>
    have hrest : 0 < q.rest s := by
      rw [SubscribableQueue.rest]
      omega
    have hone := mul_toNat_eq (stepsPerMessage q.retryCount) hrest
    simp only [workOf]
    rw [hone, stepsPerMessage]
    omega
  | readNothing _ => exact absurd List.mem_cons_self hread
  | read h0 hm =>
    have hlt := (List.getElem?_eq_some_iff.mp hm).1
    have hrest : 0 < q.rest s := by
      rw [SubscribableQueue.rest]
      omega
    have hone := mul_toNat_eq (stepsPerMessage q.retryCount) hrest
    simp only [workOf]
    rw [hone, stepsPerMessage]
    omega
  | @attemptThrows m k _ =>
    have hpaid := workOf_afterAttempt q.retryCount (q.rest s) m k (.error .objectDisposed)
    simp only [workOf] at hpaid ⊢
    omega
  | commit hs =>
    have hrest : (q.commit s).rest s = q.rest s - 1 := by
      simp only [SubscribableQueue.rest, SubscribableQueue.commit_of_mem hs,
        SubscribableQueue.cursors_setCursor_self, SubscribableQueue.buffer_setCursor]
      omega
    simp only [workOf, hrest]
    omega
  | commitMisses _ =>
    have hone := mul_toNat_le (stepsPerMessage q.retryCount) (q.rest s)
    simp only [workOf, Event.leavesMessage, List.countP_singleton, decide_true, if_true,
      Nat.mul_one]
    omega
  | @addToDlq m hs =>
    have hrest : (q.addToDeadLetterQueue s m).rest s = q.rest s := by
      simp [SubscribableQueue.rest, SubscribableQueue.addToDeadLetterQueue_of_mem hs]
    simp only [workOf, hrest]
    omega
  | _ =>
    simp only [workOf]
    omega

end Potential

/-! ### What transitions cost -/

section Transitions

variable {σ σ' : System} {a : Action} {evs : List Event} {s : Guid}

/-- The retry policy never changes. -/
theorem Effect.retryCount (h : Effect σ a σ' evs) : σ'.queue.retryCount = σ.queue.retryCount :=
  h.options.2

/-- The potential of a loop after a move of its own that leaves the queue alone. -/
theorem System.work_moveLoop (σ : System) (s : Guid) (p : DispatchPhase) :
    (σ.moveLoop s σ.queue p).work s = workOf σ.queue.retryCount (σ.queue.rest s) p := by
  rw [System.work, System.loops_moveLoop_self]
  rfl

/-- **A move of a loop is paid for**, unless it finds nothing to read. -/
theorem Effect.work_of_ofLoop (h : Effect σ a σ' evs) (ha : a.ofLoop s = true)
    (hread : .dispatchRead s none ∉ evs) :
    1 + σ'.work s ≤
      σ.work s + stepsPerMessage σ.queue.retryCount * evs.countP (Event.leavesMessage s) := by
  have hretry := h.retryCount
  cases h with
  | @dispatch s' q p p' _ hp hle =>
    obtain rfl : s' = s := by simpa [Action.ofLoop] using ha
    have hpaid := hle.work hread
    rw [System.work, System.loops_moveLoop_self, hretry, System.work, hp]
    exact hpaid
  | @received s' m k hl r =>
    obtain rfl : s' = s := by simpa [Action.ofLoop] using ha
    rw [System.work_moveLoop, System.work, hl]
    exact Nat.le_add_right_of_le (workOf_afterAttempt _ _ m k r)
  | @retried s' m b hl r =>
    obtain rfl : s' = s := by simpa [Action.ofLoop] using ha
    rw [System.work_moveLoop, System.work, hl]
    rcases r with e | r
    · simp only [afterManualRetry, workOf]
      omega
    · cases b <;> cases r <;>
        simp only [afterManualRetry, workOf, if_true, Bool.false_eq_true, if_false] <;> omega
  | @failedHandled s' m hl r =>
    obtain rfl : s' = s := by simpa [Action.ofLoop] using ha
    rw [System.work_moveLoop, System.work, hl]
    rcases r with e | b
    · simp only [afterFailedHandler, workOf]
      omega
    · cases b with
      | block =>
        have hone := mul_toNat_le (stepsPerMessage σ.queue.retryCount) (σ.queue.rest s')
        simp only [afterFailedHandler, workOf, Event.leavesMessage, List.countP_singleton,
          decide_true, if_true, Nat.mul_one]
        omega
      | _ =>
        simp only [afterFailedHandler, workOf]
        omega
  | _ => simp [Action.ofLoop] at ha

/-- A `Guid` that has been given out stays so. -/
theorem Effect.subscriberId (h : Effect σ a σ' evs) (hs : s ∈ σ.subscriberIds) :
    s ∈ σ'.subscriberIds := by
  cases h.lifecycleStep with
  | subscribe _ _ => exact List.mem_cons_of_mem _ hs
  | same hsame => rwa [hsame.subscriberIds]
  | _ => exact hs

/-- A read that finds nothing is the loop's own, with its cursor behind the last message. -/
theorem Effect.of_readNothing (h : Effect σ a σ' evs) (hmem : .dispatchRead s none ∈ evs) :
    a = .dispatch s ∧ (σ.queue.buffer.length : ℤ) ≤ (σ.queue.cursors s).index := by
  cases h.loopStep s with
  | stays _ _ hquiet => exact absurd rfl (hquiet _ hmem)
  | dispatch hl =>
    generalize σ.loops s = p, σ'.loops s = p', σ'.queue = q' at hl
    cases hl with
    | readNothing hle => exact ⟨rfl, hle⟩
    | _ => simp at hmem
  | _ => simp at hmem

/-- What others do leaves no more messages ahead than there were, but those they put there: a prune
pass takes no less from the buffer than from the cursor. -/
theorem CursorStep.rest_le {v v' : CursorView} (h : CursorStep s v evs v')
    (hd : v'.delivering = v.delivering) (hs : v.standing ≠ .absent) :
    (v'.buffer.length : ℤ) - v'.index ≤ max ((v.buffer.length : ℤ) - v.index) 0 +
      ((evs.map (Event.putsAhead s v.buffer.length)).sum : ℕ) := by
  cases h with
  | enqueue m =>
    simp only [List.length_append, List.map_cons, List.map_nil, List.sum_cons, List.sum_nil,
      List.length_cons, List.length_nil, Event.putsAhead]
    omega
  | @prune gone kept hb =>
    simp only [hb, List.length_append]
    split_ifs <;> omega
  | subscribe hs' _ => exact absurd hs' hs
  | @replayFrom m i _ _ _ _ =>
    simp only [List.map_cons, List.map_nil, List.sum_cons, List.sum_nil, Event.putsAhead, if_true]
    omega
  | commit _ hd' | commitMissed _ hd' | release hd' _ =>
    rw [hd'] at hd
    exact absurd hd (by simp)
  | read _ hd' _ _ =>
    rw [hd'] at hd
    exact absurd hd (by simp)
  | unsubscribe _ | readNothing _ _ _ | quiet _ =>
    exact (le_max_left _ _).trans (Int.le_add_of_nonneg_right (Int.natCast_nonneg _))

/-- **What others do costs a loop nothing** but the messages they put ahead of its cursor. -/
theorem Effect.work_of_not_ofLoop (h : Effect σ a σ' evs) (hw : σ.WellFormed)
    (hs : s ∈ σ.subscriberIds) (ha : a.ofLoop s = false) :
    σ'.work s ≤ σ.work s + stepsPerMessage σ.queue.retryCount *
      (evs.map (Event.putsAhead s σ.queue.buffer.length)).sum := by
  have hl : σ'.loops s = σ.loops s := by
    cases h.loopStep s with
    | stays _ hl _ => exact hl
    | starts hs' _ => exact absurd hs hs'
    | _ => simp [Action.ofLoop] at ha
  have hstanding : (σ.cursorView s).standing ≠ .absent :=
    fun habs => (System.standing_eq_absent.mp habs).2 hs
  have hrest := (h.cursorStep hw s).rest_le (congrArg DispatchPhase.message hl) hstanding
  rw [System.work, System.work, h.retryCount, hl]
  exact workOf_le_add hrest _

end Transitions

/-! ### Runs -/

/-- A loop that is running is never stuck: it has a step to take, or awaits an answer, whatever
that turns out to be. -/
theorem DispatchPhase.Running.exists_step {σ : System} {s : Guid} (h : (σ.loops s).Running) :
    ∃ a, a.ofLoop s = true ∧ (step σ a).isSome := by
  obtain ⟨hstarted, hended, hfaulted⟩ := h
  have hanswer : ∀ r, (received s σ.queue.retryCount (σ.loops s) r).isSome →
      (step σ (.received s r)).isSome := by
    intro r hr
    obtain ⟨x, hx⟩ := Option.isSome_iff_exists.mp hr
    simp only [step, hx, Option.isSome_some]
  have htakes : (dispatchStep σ.queue s (σ.loops s)).isSome → (step σ (.dispatch s)).isSome := by
    intro hr
    obtain ⟨x, hx⟩ := Option.isSome_iff_exists.mp hr
    simp only [step, hx, Option.isSome_some]
  cases hl : σ.loops s with
  | notStarted => exact absurd hl hstarted
  | ended => exact absurd hl hended
  | faulted => exact absurd hl hfaulted
  | receiving _ _ | retrying _ _ =>
    refine ⟨.received s (.ok .ack), by simp [Action.ofLoop], hanswer _ ?_⟩
    simp only [hl, received, Option.isSome_some]
  | deciding _ =>
    refine ⟨.failedHandled s (.ok .addToDLQ), by simp [Action.ofLoop], ?_⟩
    simp only [step, hl, failedHandled, Option.isSome_some]
  | deadLettering _ | committing _ =>
    refine ⟨.dispatch s, by simp [Action.ofLoop], htakes ?_⟩
    simp only [hl, dispatchStep, Option.isSome_some]
  | checking | reading | backoff | attempting _ _ | failed _ _ | manualRetry _ _ =>
    refine ⟨.dispatch s, by simp [Action.ofLoop], htakes ?_⟩
    simp only [hl, dispatchStep]
    split <;> rfl

section Runs

variable {ttl : TimeSpan} {n : ℕ} {pre tr : Trace} {σ σ' : System} {s : Guid}

/-- The potential is bounded by the messages from the cursor on, and what is left to do for the
one under delivery. -/
theorem System.work_le (σ : System) (s : Guid) :
    σ.work s ≤ stepsPerMessage σ.queue.retryCount * (σ.queue.rest s).toNat +
      (2 * σ.queue.retryCount + 9) := by
  have hmono := Nat.mul_le_mul_left (stepsPerMessage σ.queue.retryCount)
    (show (σ.queue.rest s - 1).toNat ≤ (σ.queue.rest s).toNat by omega)
  unfold System.work
  cases σ.loops s <;> simp only [workOf] <;> omega

/-- **The steps of a loop are bounded** for as long as it finds something to read. -/
theorem steps_le_of_run (hpre : RunOf ttl n pre σ) (hs : s ∈ σ.subscriberIds)
    (h : Run step σ tr σ') (hread : ∀ t ∈ tr, .dispatchRead s none ∉ t.out) :
    tr.countP (·.act.ofLoop s) ≤
      stepsPerMessage n * ((σ.queue.rest s).toNat + (tr.map (Transition.addsAhead s)).sum) +
        (2 * n + 9) := by
  -- every transition is paid for, those of the loop by one step more
  have hpaid : ∀ σ a evs σ', (σ.WellFormed ∧ σ.queue.retryCount = n ∧ s ∈ σ.subscriberIds) →
      step σ a = some (σ', evs) → .dispatchRead s none ∉ evs →
      (σ'.WellFormed ∧ σ'.queue.retryCount = n ∧ s ∈ σ'.subscriberIds) ∧
        (if a.ofLoop s then 1 else 0) + σ'.work s ≤
          σ.work s + stepsPerMessage n * Transition.addsAhead s ⟨σ, a, evs, σ'⟩ := by
    rintro σ a evs σ' ⟨hw, hn, hs⟩ hstep hread
    have heff := effect_of_step hstep
    refine ⟨⟨hw.of_effect heff, heff.retryCount.trans hn, heff.subscriberId hs⟩, ?_⟩
    simp only [Transition.addsAhead, Transition.putsAhead, Nat.mul_add, ← hn]
    by_cases ha : a.ofLoop s = true
    · have hown := heff.work_of_ofLoop ha hread
      rw [if_pos ha]
      omega
    · have hothers := heff.work_of_not_ofLoop hw hs (by simpa using ha)
      rw [if_neg ha]
      omega
  have htotal := (h.amortized (G := fun t => .dispatchRead s none ∉ t.out) (fun σ => σ.work s)
    (fun t => if t.act.ofLoop s then 1 else 0)
    (fun t => stepsPerMessage n * Transition.addsAhead s t) hpaid
    ⟨wellFormed_of_run hpre, (options_of_run hpre).2, hs⟩ hread).2
  have hstart := σ.work_le s
  rw [(options_of_run hpre).2] at hstart
  rw [sum_map_indicator, List.sum_map_mul_left] at htotal
  rw [Nat.mul_add]
  omega

/-- A loop that takes more steps than that has found nothing to read, its cursor being behind the
last message. -/
theorem exists_exhausted (h : Run step σ tr σ')
    (hread : ¬ ∀ t ∈ tr, .dispatchRead s none ∉ t.out) :
    ∃ t ∈ tr, .dispatchRead s none ∈ t.out ∧
      (t.pre.queue.buffer.length : ℤ) ≤ (t.pre.queue.cursors s).index := by
  push Not at hread
  obtain ⟨t, ht, hmem⟩ := hread
  obtain ⟨-, -, -, -, hs, -⟩ := h.of_mem ht
  exact ⟨t, ht, hmem, ((effect_of_step hs).of_readNothing hmem).2⟩

/-- **A loop catches up.** From any state reached on, the number of steps a loop can take without
finding nothing to read is bounded: `2 n + 10` for every message from its cursor on, for every
message put ahead of it on the way and for every delivery that ends with its message where it was,
and what it needs for the message it has in hand. And a loop that is running always has a step to
take. -/
theorem catches_up (hpre : RunOf ttl n pre σ) (hs : s ∈ σ.subscriberIds)
    (h : Run step σ tr σ') :
    (stepsPerMessage n * ((σ.queue.rest s).toNat + (tr.map (Transition.addsAhead s)).sum) +
        (2 * n + 9) < tr.countP (·.act.ofLoop s) →
      ∃ t ∈ tr, .dispatchRead s none ∈ t.out ∧
        (t.pre.queue.buffer.length : ℤ) ≤ (t.pre.queue.cursors s).index) ∧
    ((σ'.loops s).Running → ∃ a, a.ofLoop s = true ∧ (step σ' a).isSome) := by
  refine ⟨fun hlong => exists_exhausted h fun hread => ?_, DispatchPhase.Running.exists_step⟩
  exact absurd (steps_le_of_run hpre hs h hread) (by omega)

/-- The theorem at a loop with one message to deliver: its twenty steps are more than that takes,
and it finds nothing to read. -/
theorem catches_up_one : ∃ pre σ tr σ', RunOf 5 0 pre σ ∧ Run step σ tr σ' ∧ σ.queue.rest 7 = 1 ∧
    tr.countP (·.act.ofLoop 7) = 20 ∧ ∃ t ∈ tr, .dispatchRead 7 none ∈ t.out ∧
      (t.pre.queue.buffer.length : ℤ) ≤ (t.pre.queue.cursors 7).index := by
  have hpre := runOf_exec 5 0 [.subscribe 7, .enqueue 1 10 none] (by decide)
  have hrun : Run step (stateOf step (.init 5 0) [.subscribe 7, .enqueue 1 10 none]) _ _ :=
    run_exec ([.dispatch 7, .dispatch 7, .dispatch 7,
      .received 7 (.ok .ack)] ++ List.replicate 16 (.dispatch 7)) (by decide)
  refine ⟨_, _, _, _, hpre, hrun, by decide, by decide, ?_⟩
  exact (catches_up hpre (by decide) hrun).1 (by decide)

end Runs

end PushDeliveredQueue
