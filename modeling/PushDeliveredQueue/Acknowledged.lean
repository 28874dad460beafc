import PushDeliveredQueue.Delivery

/-!
# What is dead-lettered after an acknowledgement

A message goes to the dead letter queue at the end of a delivery that has failed. What the loop
knows of that delivery is in its phase: as long as it is not about to commit, no attempt of the
retry policy has returned `Ack` since it read the message
(`PushDeliveredQueue.LoopStep.knowsDelivery`). The extra attempt of `RetryOnceThenDLQ` is the
one call whose result is not looked at, so a dead-lettered message has been acknowledged exactly
if that attempt has succeeded (`PushDeliveredQueue.dead_letters_failed_iff`).
-/

namespace PushDeliveredQueue

open Transitions

/-- The last read of a subscriber's loop returned this message, and of its dealings since then
this holds. -/
def SinceRead (s : Guid) (m : MessageEnvelope) (evs : List Event) (P : List LoopNote → Prop) :
    Prop :=
  ∃ before mid, evs = before ++ .dispatchRead s (some m) :: mid ∧
    (∀ next, .dispatchRead s next ∉ mid) ∧ P (loopNotes s mid)

/-- Dealings that are all about one message, with no attempt of the policy acknowledged unless
the loop is about to commit. -/
structure Unacknowledged (m : MessageEnvelope) (p : DispatchPhase) (l : List LoopNote) : Prop where
  message : ∀ caller m' r, .returned caller m' r ∈ l → m' = m
  noAck : p ≠ .committing m → ∀ m', .returned .dispatch m' (.ok .ack) ∉ l

section Steps

variable {s : Guid} {m : MessageEnvelope} {σ σ' : System} {a : Action} {evs evs' : List Event}
  {p p' : DispatchPhase} {l : List LoopNote}

theorem SinceRead.append {P Q : List LoopNote → Prop} (h : SinceRead s m evs P)
    (hread : ∀ next, .dispatchRead s next ∉ evs') (hPQ : ∀ l, P l → Q (l ++ loopNotes s evs')) :
    SinceRead s m (evs ++ evs') Q := by
  obtain ⟨before, mid, rfl, hmid, hP⟩ := h
  refine ⟨before, mid ++ evs', by simp, fun next hmem => ?_, by simpa using hPQ _ hP⟩
  rcases List.mem_append.mp hmem with h | h
  · exact hmid next h
  · exact hread next h

/-- Dealings among which there is no result of an attempt. -/
theorem Unacknowledged.append {l' : List LoopNote} (h : Unacknowledged m p l)
    (hp : p' ≠ .committing m → p ≠ .committing m)
    (hl' : ∀ caller m' r, .returned caller m' r ∈ l' →
      m' = m ∧ (p' ≠ .committing m → caller = .dispatch → r ≠ .ok .ack)) :
    Unacknowledged m p' (l ++ l') := by
  refine ⟨fun caller m' r hmem => ?_, fun hp' m' hmem => ?_⟩
  · rcases List.mem_append.mp hmem with hmem | hmem
    · exact h.message _ _ _ hmem
    · exact (hl' _ _ _ hmem).1
  · rcases List.mem_append.mp hmem with hmem | hmem
    · exact h.noAck (hp hp') m' hmem
    · exact (hl' _ _ _ hmem).2 hp' rfl rfl

/-- **What a loop in the middle of a delivery knows of it.** -/
def KnowsDelivery (s : Guid) (evs : List Event) (p : DispatchPhase) : Prop :=
  ∀ m, p.message = some m → SinceRead s m evs (Unacknowledged m p)

/-- A step of a delivery among whose events there is no result of an attempt. -/
theorem KnowsDelivery.append (h : KnowsDelivery s evs p) (hm : p'.message = p.message)
    (hp : ∀ m, p ≠ .committing m) (hread : ∀ next, .dispatchRead s next ∉ evs')
    (hret : ∀ caller m r, .returned caller m r ∉ loopNotes s evs') :
    KnowsDelivery s (evs ++ evs') p' := by
  intro m hm'
  refine (h m (hm ▸ hm')).append hread fun l hl => ?_
  exact hl.append (fun _ => hp m) fun caller m' r hmem => absurd hmem (hret _ _ _)

theorem knowsDelivery_of_message_none (h : p.message = none) : KnowsDelivery s evs p := by
  intro m hm
  simp [h] at hm

/-- A step of the loop keeps what it knows. -/
theorem LoopEffect.knowsDelivery {q q' : SubscribableQueue} (h : LoopEffect q s p q' p' evs')
    (hk : KnowsDelivery s evs p) : KnowsDelivery s (evs ++ evs') p' := by
  cases h with
  | read _ _ =>
    intro m' hm'
    obtain rfl := Option.some.inj hm'
    exact ⟨evs, [], rfl, by simp, by constructor <;> simp [loopNotes]⟩
  | attemptThrows _ =>
    exact hk.append (message_afterAttempt _ _ _ _) (by simp) (by simp) (by simp)
  | attempt _ | failed _ | manualRetry _ =>
    exact hk.append rfl (by simp) (by simp)
      (by simp [loopNotes_singleton, Event.loopNote, Caller.ofLoop])
  | addToDlq _ =>
    exact hk.append rfl (by simp) (by simp) (by simp [loopNotes_singleton, Event.loopNote])
  | addToDlqMisses _ => exact hk.append rfl (by simp) (by simp) (by simp)
  | _ => exact knowsDelivery_of_message_none rfl

/-- **Every transition keeps what a loop knows of its delivery.** -/
theorem LoopStep.knowsDelivery (h : LoopStep s σ a σ' evs')
    (hk : KnowsDelivery s evs (σ.loops s)) : KnowsDelivery s (evs ++ evs') (σ'.loops s) := by
  cases h with
  | stays _ hl hquiet =>
    intro m hm
    rw [hl] at hm ⊢
    refine (hk m hm).append (fun next hmem => hquiet _ hmem rfl) fun l hl => ?_
    rw [loopNotes_of_not_ofLoop hquiet]
    simpa using hl
  | starts _ h =>
    rcases h with h | ⟨h, -⟩ <;> exact knowsDelivery_of_message_none (by rw [h]; rfl)
  | dispatch h => exact h.knowsDelivery hk
  | @received _ m' k r h h' =>
    intro m hm
    rw [h', message_afterAttempt] at hm
    obtain rfl := Option.some.inj hm
    rw [h] at hk
    refine (hk m' rfl).append (by simp) fun l hl => ?_
    refine hl.append (fun _ => by simp) fun caller m r' hmem => ?_
    obtain ⟨rfl, rfl, rfl⟩ : caller = .dispatch ∧ m = m' ∧ r' = r := by
      simpa [loopNotes_singleton, Event.loopNote, Caller.ofLoop] using hmem
    refine ⟨rfl, fun hp _ => ?_⟩
    -- an acknowledged attempt is committed
    rintro rfl
    exact hp (by simp [h', afterAttempt])
  | @retried _ m' b r h h' =>
    rw [h] at hk
    rw [h']
    rcases message_afterManualRetry m' b r with hm | hm
    · intro m hm'
      obtain rfl := Option.some.inj (hm.symm.trans hm')
      refine (hk m' rfl).append (by simp) fun l hl => ?_
      refine hl.append (fun _ => by simp) fun caller m r' hmem => ?_
      obtain ⟨rfl, rfl, rfl⟩ : caller = .manualRetry ∧ m = m' ∧ r' = r := by
        simpa [loopNotes_singleton, Event.loopNote, Caller.ofLoop] using hmem
      exact ⟨rfl, by simp⟩
    · exact knowsDelivery_of_message_none hm
  | @failedHandled _ m' r h h' =>
    rw [h] at hk
    rw [h']
    rcases message_afterFailedHandler m' r with hm | hm
    · exact hk.append hm (by simp) (by simp)
        (by simp [loopNotes_singleton, Event.loopNote, Caller.ofLoop])
    · exact knowsDelivery_of_message_none hm

end Steps

section Runs

variable {ttl : TimeSpan} {n : ℕ} {tr pre post : Trace} {σ : System} {s : Guid}
  {m : MessageEnvelope} {t : Transition System Action Event}

theorem knowsDelivery_of_run (h : RunOf ttl n tr σ) (s : Guid) :
    KnowsDelivery s (events tr) (σ.loops s) := by
  refine h.invariant (I := fun tr σ => KnowsDelivery s (events tr) (σ.loops s))
    (knowsDelivery_of_message_none rfl) ?_
  intro tr σ a evs σ' _ hi hs
  simpa using ((effect_of_step hs).loopStep s).knowsDelivery hi

/-- **A message is dead-lettered unacknowledged, exactly if the extra attempt has not
succeeded.** In a run, when a message is added to the dead letter queue of a subscriber, the
last read of the subscriber's loop has returned that message; and no call of
`OnMessageReceiveAsync` the loop has made since then, through the policy or after the failure
handler, has returned `Ack` if and only if no extra attempt has. -/
theorem dead_letters_failed_iff (h : RunOf ttl n (pre ++ t :: post) σ)
    (hadd : .addedToDlq s m ∈ t.out) :
    ∃ before mid, events pre = before ++ .dispatchRead s (some m) :: mid ∧
      (∀ next, .dispatchRead s next ∉ mid) ∧
      ((∀ caller m', caller.ofLoop → .receiveReturned s caller m' (.ok .ack) ∉ mid) ↔
        .receiveReturned s .manualRetry m (.ok .ack) ∉ mid) := by
  obtain ⟨hrun, hstep, -⟩ := h.cut
  have hl := (effect_of_step hstep).of_addedToDlq hadd
  have hknows := knowsDelivery_of_run hrun s
  rw [hl] at hknows
  obtain ⟨before, mid, hevs, hmid, hmessage, hnoAck⟩ := hknows m rfl
  refine ⟨before, mid, hevs, hmid, fun hno => hno _ _ rfl, fun hno caller m' hc hmem => ?_⟩
  have hnote := mem_loopNotes_returned.mpr ⟨hc, hmem⟩
  obtain rfl := hmessage _ _ _ hnote
  cases caller with
  | dispatch => exact hnoAck (by simp) _ hnote
  | manualRetry => exact hno hmem
  | replay call => simp [Caller.ofLoop] at hc

/-- A delivery whose one attempt fails and whose failure handler asks for another one before
the message is dead-lettered, which has this result. -/
def extraAttempt (r : ReceiveResult) : List Action :=
  [.subscribe 7, .enqueue 1 10 none, .dispatch 7, .dispatch 7, .dispatch 7,
    .received 7 (.ok .nack), .dispatch 7, .failedHandled 7 (.ok .retryOnceThenDLQ), .dispatch 7,
    .received 7 r]

/-- The theorem at an extra attempt that fails too. -/
theorem dead_letters_failed_twice : ∃ pre t σ, RunOf 5 0 (pre ++ [t]) σ ∧
    .addedToDlq 7 ⟨1, 10⟩ ∈ t.out ∧
    ∃ before mid, events pre = before ++ .dispatchRead 7 (some ⟨1, 10⟩) :: mid ∧
      ∀ caller m', caller.ofLoop → .receiveReturned 7 caller m' (.ok .ack) ∉ mid := by
  have hrun := (runOf_exec 5 0 (extraAttempt (.ok .nack)) (by decide)).snoc (a := .dispatch 7) rfl
  refine ⟨_, _, _, hrun, by decide, ?_⟩
  obtain ⟨before, mid, hevs, -, hiff⟩ := dead_letters_failed_iff hrun (List.mem_singleton.mpr rfl)
  refine ⟨before, mid, hevs, hiff.mpr fun hmem => ?_⟩
  have hnone : .receiveReturned 7 .manualRetry ⟨1, 10⟩ (.ok .ack) ∉
      events (traceOf step (System.init 5 0) (extraAttempt (.ok .nack))) := by decide
  exact hnone (by rw [hevs]; simp [hmem])

/-- **An acknowledged message is dead-lettered**: the extra attempt returns `Ack`, the message
is added to the dead letter queue all the same, and a replay hands it to the handler again. -/
theorem acknowledged_dead_lettered : ∃ pre t post σ, RunOf 5 0 (pre ++ t :: post) σ ∧
    .addedToDlq 7 ⟨1, 10⟩ ∈ t.out ∧
    (∃ before mid, events pre = before ++ .dispatchRead 7 (some ⟨1, 10⟩) :: mid ∧
      (∀ next, .dispatchRead 7 next ∉ mid) ∧
      .receiveReturned 7 .manualRetry ⟨1, 10⟩ (.ok .ack) ∈ mid) ∧
    .receiveCalled 7 (.replay 0) ⟨1, 10⟩ none ∈ events post := by
  have hrun := (runOf_exec 5 0 (extraAttempt (.ok .ack)) (by decide)).snoc (a := .dispatch 7) rfl
  have hreplay := hrun.append (Run.single (a := .replayFromDlq 7 1) rfl)
  rw [List.append_assoc] at hreplay
  refine ⟨_, _, _, _, hreplay, by decide, ⟨[.enqueued ⟨1, 10⟩], _, rfl, ?_, by decide⟩, by decide⟩
  intro next
  simp

end Runs

end PushDeliveredQueue
