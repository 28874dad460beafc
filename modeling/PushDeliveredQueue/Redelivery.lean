import PushDeliveredQueue.Departure
import PushDeliveredQueue.CatchUp

/-!
# Delivered again

`Commit` moves a cursor past the message it was given, so a message comes a second time only for a
reason. The code knows two: an accepted `ReplayFrom` sets the cursor to the message or before it
(`PushDeliveredQueue.bringsBack`), and a failure handler that answers `Block` leaves the cursor
where it is (`PushDeliveredQueue.Event.blocks`). In the runs of `PushDeliveredQueue.step`, where a
`Commit`, a pass, a `ReplayFrom` and an `Unsubscribe` are one step each, neither prune passes nor
changes of payload, other subscribers, calls of `Unsubscribe` or handlers that throw are one.

That `Unsubscribe` is one step is needed. Between its `TryRemove` and its `Cancel`, which are two in
`PushDeliveredQueue.closingStep`, a `Commit` misses while the loop still passes its check, and the
message comes again.

* **Between two reads** of a message there is a reason for the second
  (`PushDeliveredQueue.redelivered_only_if`).
* **Over a whole run** there are no more reads than reasons, and one; no more commits and no more
  dead letters than replays, and one; and no more calls of the handler than the retry policy has
  attempts in each delivery, and the extra one (`PushDeliveredQueue.redelivery_bounded`).

The read a message is still to get without any such reason is `PushDeliveredQueue.System.owed`: it
is one at most, none once the message has been read, and a transition adds to it only if it is a
reason (`PushDeliveredQueue.Effect.owed`).
-/

namespace PushDeliveredQueue

open Transitions

/-! ### The reasons, and what a delivery does -/

/-- The failure handler has a message of a subscriber left where it is. -/
def Event.blocks (s : Guid) (m : MessageEnvelope) : Event → Bool
  | .failedReturned s' .dispatch m' (.ok .block) => s' = s && m' = m
  | _ => false

/-- An accepted `ReplayFrom` sets the cursor of a subscriber to a message or before it. -/
def Event.bringsBack (s : Guid) (m : MessageEnvelope) (buffer : List MessageEnvelope) : Event → Bool
  | .replayedFrom s' _ i => s' = s && m ∈ buffer.drop i
  | _ => false

/-- The same of a transition. -/
def bringsBack (s : Guid) (m : MessageEnvelope) (t : Transition System Action Event) : Bool :=
  t.out.any (Event.bringsBack s m t.pre.queue.buffer)

/-- The loop of a subscriber hands a message over to `OnMessageReceiveAsync`. -/
def Event.hands (s : Guid) (m : MessageEnvelope) : Event → Bool
  | .receiveCalled s' caller m' _ => s' = s && caller.ofLoop && m' = m
  | _ => false

/-- The loop of a subscriber calls `OnMessageFailedHandlerAsync` for a message. -/
def Event.asks (s : Guid) (m : MessageEnvelope) : Event → Bool
  | .failedCalled s' caller m' _ => s' = s && caller.ofLoop && m' = m
  | _ => false

/-- An event that tells of the delivery of a message to a subscriber: what its loop does with the
message once it has read it. -/
def Event.Tells (s : Guid) (m : MessageEnvelope) : Event → Prop
  | .addedToDlq s' m' | .committed s' m' | .commitMissed s' m' => s' = s ∧ m' = m
  | .receiveCalled s' caller m' _ | .receiveReturned s' caller m' _ | .failedCalled s' caller m' _
  | .failedReturned s' caller m' _ => s' = s ∧ caller.ofLoop = true ∧ m' = m
  | .enqueued _ | .pruned _ | .replayedFrom .. | .dispatchRead .. => False

section Tells

variable {σ σ' : System} {a : Action} {evs : List Event} {s : Guid} {m : MessageEnvelope}

theorem Event.Tells.ofLoop {e : Event} (h : e.Tells s m) : e.OfLoop s := by
  cases e with
  | addedToDlq _ _ | committed _ _ | commitMissed _ _ => exact h.1
  | receiveCalled _ _ _ _ | receiveReturned _ _ _ _ | failedCalled _ _ _ _
  | failedReturned _ _ _ _ => exact ⟨h.1, Caller.ofLoop_iff.mp h.2.1⟩
  | _ => exact h.elim

/-- A loop that has not read a message does nothing with it but read it. -/
theorem LoopStep.of_message_ne (h : LoopStep s σ a σ' evs)
    (hne : (σ.loops s).message ≠ some m) :
    (∀ e ∈ evs, ¬ e.Tells s m) ∧ ((σ'.loops s).message = some m →
      σ'.loops s = .attempting m 0 ∧ evs = [.dispatchRead s (some m)]) := by
  cases h with
  | stays _ hl hquiet =>
    refine ⟨fun e he ht => hquiet e he ht.ofLoop, fun hm => absurd ?_ hne⟩
    rwa [hl] at hm
  | starts _ hstart =>
    refine ⟨by simp, fun hm => ?_⟩
    rcases hstart with hstart | ⟨hstart, -⟩ <;> simp [hstart, DispatchPhase.message] at hm
  | dispatch hle =>
    generalize σ.loops s = p, σ'.loops s = p', σ'.queue = q' at hle hne
    cases hle with
    | @read m' _ _ =>
      refine ⟨by simp [Event.Tells], fun hm => ?_⟩
      obtain rfl : m' = m := by simpa [DispatchPhase.message] using hm
      exact ⟨rfl, rfl⟩
    | @attemptThrows m' _ _ =>
      refine ⟨by simp, fun hm => absurd ?_ hne⟩
      rwa [message_afterAttempt] at hm
    | _ => simp_all [Event.Tells, DispatchPhase.message]
  | @received _ m' k r hp hp' =>
    have hm' : m' ≠ m := by simpa [hp, DispatchPhase.message] using hne
    refine ⟨by simp [Event.Tells, hm'], fun hm => ?_⟩
    simp [hp', message_afterAttempt, hm'] at hm
  | @retried _ m' b r hp hp' =>
    have hm' : m' ≠ m := by simpa [hp, DispatchPhase.message] using hne
    refine ⟨by simp [Event.Tells, hm'], fun hm => ?_⟩
    rcases message_afterManualRetry m' b r with h | h <;> simp [hp', h, hm'] at hm
  | @failedHandled _ m' r hp hp' =>
    have hm' : m' ≠ m := by simpa [hp, DispatchPhase.message] using hne
    refine ⟨by simp [Event.Tells, hm'], fun hm => ?_⟩
    rcases message_afterFailedHandler m' r with h | h <;> simp [hp', h, hm'] at hm

end Tells

/-! ### What the deliveries of a message pay for -/

/-- What is left to do for a message, if it is in the hands of the loop. -/
def leftFor (m : MessageEnvelope) (w : DispatchPhase → ℕ) (p : DispatchPhase) : ℕ :=
  if p.message = some m then w p else 0

/-- **A tally of the deliveries of a message.** A read is worth a credit, and what the loop does
until the end of the delivery is paid for out of it: at each phase of it no more is left to do than
the weight of the phase. -/
structure Tally (n : ℕ) (s : Guid) (m : MessageEnvelope) (f : List Event → ℕ)
    (w : DispatchPhase → ℕ) (credit : ℕ) : Prop where
  append : ∀ evs evs', f (evs ++ evs') = f evs + f evs'
  silent : ∀ evs, (∀ e ∈ evs, ¬ e.Tells s m) → f evs = 0
  read : w (.attempting m 0) ≤ credit
  own : ∀ {q p q' p' evs}, LoopEffect q s p q' p' evs → q.retryCount = n → p.message = some m →
    f evs + leftFor m w p' ≤ w p
  received : ∀ k r, f [.receiveReturned s .dispatch m r] + w (afterAttempt n m k r) ≤
    w (.receiving m k)
  retried : ∀ b r, f [.receiveReturned s .manualRetry m r] +
    leftFor m w (afterManualRetry m b r) ≤ w (.retrying m b)
  failedHandled : ∀ r, f [.failedReturned s .dispatch m r] +
    leftFor m w (afterFailedHandler m r) ≤ w (.deciding m)

section Tally

variable {ttl : TimeSpan} {n : ℕ} {s : Guid} {m : MessageEnvelope} {f : List Event → ℕ}
  {w : DispatchPhase → ℕ} {credit : ℕ} {σ σ' : System} {a : Action} {evs : List Event}
  {tr : Trace} {p : DispatchPhase}

theorem leftFor_of_eq (h : p.message = some m) (w : DispatchPhase → ℕ) : leftFor m w p = w p :=
  if_pos h

theorem leftFor_of_ne (h : p.message ≠ some m) (w : DispatchPhase → ℕ) : leftFor m w p = 0 :=
  if_neg h

theorem leftFor_le (m : MessageEnvelope) (w : DispatchPhase → ℕ) (p : DispatchPhase) :
    leftFor m w p ≤ w p := by
  unfold leftFor
  split_ifs
  · exact le_refl _
  · exact Nat.zero_le _

/-- **Every transition is paid for.** -/
theorem Tally.of_loopStep (h : Tally n s m f w credit) (hl : LoopStep s σ a σ' evs)
    (hn : σ.queue.retryCount = n) :
    f evs + leftFor m w (σ'.loops s) ≤
      leftFor m w (σ.loops s) + credit * (readsOf s evs).count m := by
  by_cases hm : (σ.loops s).message = some m
  · refine le_trans ?_ (Nat.le_add_right _ _)
    rw [leftFor_of_eq hm]
    cases hl with
    | stays _ hl hquiet =>
      rw [h.silent evs fun e he ht => hquiet e he ht.ofLoop, hl, leftFor_of_eq hm, Nat.zero_add]
    | starts _ hstart =>
      have hidle : (σ'.loops s).message ≠ some m := by
        rcases hstart with hstart | ⟨hstart, -⟩ <;> simp [hstart, DispatchPhase.message]
      rw [h.silent [] (by simp), leftFor_of_ne hidle]
      exact Nat.zero_le _
    | dispatch hle => exact h.own hle hn hm
    | @received _ m' k r hp hp' =>
      rw [hp] at hm
      obtain rfl : m' = m := by simpa [DispatchPhase.message] using hm
      rw [hp, hp', hn, leftFor_of_eq (message_afterAttempt _ _ _ _)]
      exact h.received k r
    | @retried _ m' b r hp hp' =>
      rw [hp] at hm
      obtain rfl : m' = m := by simpa [DispatchPhase.message] using hm
      rw [hp, hp']
      exact h.retried b r
    | @failedHandled _ m' r hp hp' =>
      rw [hp] at hm
      obtain rfl : m' = m := by simpa [DispatchPhase.message] using hm
      rw [hp, hp']
      exact h.failedHandled r
  · obtain ⟨hsilent, hread⟩ := hl.of_message_ne hm
    rw [h.silent evs hsilent, leftFor_of_ne hm, Nat.zero_add, Nat.zero_add]
    by_cases hm' : (σ'.loops s).message = some m
    · obtain ⟨hp, rfl⟩ := hread hm'
      rw [leftFor_of_eq hm', hp]
      simpa using h.read
    · rw [leftFor_of_ne hm']
      exact Nat.zero_le _

/-- **From any state reached on, the reads pay for what the deliveries do**, but for the delivery
that is under way. -/
theorem Tally.le_of_cont {pre : Trace} (h : Tally n s m f w credit) (hpre : RunOf ttl n pre σ)
    (hrun : Run step σ tr σ') :
    f (events tr) + leftFor m w (σ'.loops s) ≤
      leftFor m w (σ.loops s) + credit * (readsOf s (events tr)).count m := by
  refine hrun.invariant
    (I := fun tr σ' => f (events tr) + leftFor m w (σ'.loops s) ≤
      leftFor m w (σ.loops s) + credit * (readsOf s (events tr)).count m) ?_ ?_
  · rw [events_nil, h.silent [] (by simp), Nat.zero_add]
    exact Nat.le_add_right _ _
  · intro tr τ a evs τ' hrun hi hs
    have hloop := (effect_of_step hs).loopStep s
    have hstep := h.of_loopStep hloop (options_of_run (hpre.append hrun)).2
    simp only [events_append, events_cons, events_nil, List.append_nil, readsOf_append,
      List.count_append, h.append, Nat.mul_add]
    omega

/-- **The reads of a run pay for what its deliveries do.** -/
theorem Tally.le_of_run (h : Tally n s m f w credit) (hrun : RunOf ttl n tr σ) :
    f (events tr) + leftFor m w (σ.loops s) ≤ credit * (readsOf s (events tr)).count m := by
  have hle := h.le_of_cont Run.nil hrun
  rwa [leftFor_of_ne (p := (System.init ttl n).loops s) (by simp [System.init,
    DispatchPhase.message]), Nat.zero_add] at hle

end Tally

section Tallies

variable {n : ℕ} {s : Guid} {m : MessageEnvelope} {p : DispatchPhase} {evs : List Event}

/-- Events that do not tell of a message are none of those counted. -/
theorem countP_of_not_tells {P : Event → Bool} (hP : ∀ e, P e = true → e.Tells s m)
    (h : ∀ e ∈ evs, ¬ e.Tells s m) : evs.countP P = 0 :=
  List.countP_eq_zero.mpr fun e he hcon => h e he (hP e hcon)

theorem Event.Tells.of_hands {e : Event} (h : e.hands s m = true) : e.Tells s m := by
  cases e with
  | receiveCalled _ _ _ _ =>
    obtain ⟨⟨rfl, hc⟩, rfl⟩ := by simpa [Event.hands] using h
    exact ⟨rfl, hc, rfl⟩
  | _ => simp [Event.hands] at h

theorem Event.Tells.of_asks {e : Event} (h : e.asks s m = true) : e.Tells s m := by
  cases e with
  | failedCalled _ _ _ _ =>
    obtain ⟨⟨rfl, hc⟩, rfl⟩ := by simpa [Event.asks] using h
    exact ⟨rfl, hc, rfl⟩
  | _ => simp [Event.asks] at h

theorem Event.Tells.of_blocks {e : Event} (h : e.blocks s m = true) : e.Tells s m := by
  cases e with
  | failedReturned s' c m' r =>
    unfold Event.blocks at h
    split at h
    · rename_i heq
      obtain ⟨rfl, rfl, rfl, rfl⟩ := by simpa using heq
      obtain ⟨rfl, rfl⟩ := by simpa using h
      exact ⟨rfl, rfl, rfl⟩
    · simp at h
  | _ => simp [Event.blocks] at h

theorem count_committedOf_of_not_tells (h : ∀ e ∈ evs, ¬ e.Tells s m) :
    (committedOf s evs).count m = 0 :=
  List.count_eq_zero.mpr fun hmem => h _ (mem_committedOf.mp hmem) ⟨rfl, rfl⟩

theorem count_addedOf_of_not_tells (h : ∀ e ∈ evs, ¬ e.Tells s m) :
    (addedOf s evs).count m = 0 :=
  List.count_eq_zero.mpr fun hmem => h _ (mem_addedOf.mp hmem) ⟨rfl, rfl⟩

/-- **Each delivery hands its message over** as often as the policy attempts it, and once more. -/
theorem tally_hands (n : ℕ) (s : Guid) (m : MessageEnvelope) :
    Tally n s m (List.countP (Event.hands s m)) (DispatchPhase.callsLeft n) (n + 2) where
  append _ _ := List.countP_append
  silent _ := countP_of_not_tells fun _ => Event.Tells.of_hands
  read := le_refl _
  own := by
    intro q p q' p' evs h hn hp
    cases h with
    | @attemptThrows m' k _ =>
      obtain rfl : m' = m := by simpa [DispatchPhase.message] using hp
      have hleft := callsLeft_afterAttempt (n := n) m' k (.error .objectDisposed)
      have hle := (leftFor_le m' (DispatchPhase.callsLeft n) _).trans hleft
      rw [hn, List.countP_nil, Nat.zero_add]
      exact hle.trans (Nat.le_succ _)
    | attempt _ =>
      simp_all [leftFor, DispatchPhase.message, DispatchPhase.callsLeft, Event.hands,
        Caller.ofLoop]
      omega
    | _ =>
      simp_all [leftFor, DispatchPhase.message, DispatchPhase.callsLeft, Event.hands,
        Caller.ofLoop]
  received k r := by
    have hleft := callsLeft_afterAttempt (n := n) m k r
    simpa [Event.hands, DispatchPhase.callsLeft] using hleft
  retried b r := by
    have hleft := (callsLeft_afterManualRetry (n := n) m b r).1
    simp [leftFor, hleft, Event.hands]
  failedHandled r := by
    have hleft := (callsLeft_afterFailedHandler (n := n) m r).1
    have hle := (leftFor_le m (DispatchPhase.callsLeft n) _).trans hleft
    simpa [Event.hands, DispatchPhase.callsLeft] using hle

/-- **Each delivery asks the failure handler once** at most. -/
theorem tally_asks (n : ℕ) (s : Guid) (m : MessageEnvelope) :
    Tally n s m (List.countP (Event.asks s m)) DispatchPhase.failuresLeft 1 where
  append _ _ := List.countP_append
  silent _ := countP_of_not_tells fun _ => Event.Tells.of_asks
  read := le_refl _
  own := by
    intro q p q' p' evs h hn hp
    cases h with
    | @attemptThrows m' k _ =>
      obtain rfl : m' = m := by simpa [DispatchPhase.message] using hp
      have hleft := failuresLeft_afterAttempt (n := q.retryCount) m' k (.error .objectDisposed)
      rw [List.countP_nil, Nat.zero_add]
      exact (leftFor_le m' DispatchPhase.failuresLeft _).trans hleft
    | _ => simp_all [leftFor, DispatchPhase.message, DispatchPhase.failuresLeft, Event.asks,
        Caller.ofLoop]
  received k r := by
    have hleft := failuresLeft_afterAttempt (n := n) m k r
    simpa [Event.asks, DispatchPhase.failuresLeft] using hleft
  retried b r := by
    have hleft := (callsLeft_afterManualRetry (n := n) m b r).2
    simp [leftFor, hleft, Event.asks]
  failedHandled r := by
    have hleft := (callsLeft_afterFailedHandler (n := n) m r).2
    simp [leftFor, hleft, Event.asks]

/-- **Each delivery ends once**: a commit and a `Block` are not of the same one. -/
theorem tally_ends (n : ℕ) (s : Guid) (m : MessageEnvelope) :
    Tally n s m (fun evs => (committedOf s evs).count m + evs.countP (Event.blocks s m))
      (fun _ => 1) 1 where
  append evs evs' := by
    simp only [committedOf_append, List.count_append, List.countP_append]
    omega
  silent evs h := by
    rw [count_committedOf_of_not_tells h, countP_of_not_tells (fun _ => Event.Tells.of_blocks) h]
  read := le_refl _
  own := by
    intro q p q' p' evs h hn hp
    cases h with
    | @attemptThrows m' k _ =>
      obtain rfl : m' = m := by simpa [DispatchPhase.message] using hp
      rw [leftFor_of_eq (message_afterAttempt _ _ _ _)]
      simp [committedOf]
    | _ => simp_all [leftFor, DispatchPhase.message, Event.blocks, committedOf]
  received k r := by simp [committedOf, Event.blocks]
  retried b r := by
    have hle := leftFor_le m (fun _ => 1) (afterManualRetry m b r)
    simpa [committedOf, Event.blocks] using hle
  failedHandled r := by
    rcases r with e | b
    · simp [leftFor, committedOf, Event.blocks, afterFailedHandler, DispatchPhase.message]
    · cases b <;>
        simp [leftFor, committedOf, Event.blocks, afterFailedHandler, DispatchPhase.message]

/-- Whether the message in the hands of a loop has yet to become a dead letter. -/
def DispatchPhase.notBuried : DispatchPhase → ℕ
  | .committing _ => 0
  | _ => 1

theorem DispatchPhase.notBuried_le (p : DispatchPhase) : p.notBuried ≤ 1 := by
  cases p <;> simp [notBuried]

/-- **Each delivery makes one dead letter** at most, and none if it ends with a `Block`. -/
theorem tally_deadLetters (n : ℕ) (s : Guid) (m : MessageEnvelope) :
    Tally n s m (fun evs => (addedOf s evs).count m + evs.countP (Event.blocks s m))
      DispatchPhase.notBuried 1 where
  append evs evs' := by
    simp only [addedOf_append, List.count_append, List.countP_append]
    omega
  silent evs h := by
    rw [count_addedOf_of_not_tells h, countP_of_not_tells (fun _ => Event.Tells.of_blocks) h]
  read := le_refl _
  own := by
    intro q p q' p' evs h hn hp
    cases h with
    | @attemptThrows m' k _ =>
      have hle := (leftFor_le m DispatchPhase.notBuried
        (afterAttempt q.retryCount m' k (.error .objectDisposed))).trans
          (DispatchPhase.notBuried_le _)
      simpa [addedOf, DispatchPhase.notBuried] using hle
    | _ => simp_all [leftFor, DispatchPhase.message, DispatchPhase.notBuried, Event.blocks, addedOf]
  received k r := by
    have hle := DispatchPhase.notBuried_le (afterAttempt n m k r)
    simpa [addedOf, Event.blocks, DispatchPhase.notBuried] using hle
  retried b r := by
    have hle := (leftFor_le m DispatchPhase.notBuried (afterManualRetry m b r)).trans
      (DispatchPhase.notBuried_le _)
    simpa [addedOf, Event.blocks, DispatchPhase.notBuried] using hle
  failedHandled r := by
    rcases r with e | b
    · simp [leftFor, addedOf, Event.blocks, afterFailedHandler, DispatchPhase.message]
    · cases b <;> simp [leftFor, addedOf, Event.blocks, afterFailedHandler, DispatchPhase.message,
        DispatchPhase.notBuried]

end Tallies

/-! ### The read a message is still to get -/

/-- Whether a loop may yet read the buffer: it is past its check, or will come to it and pass. -/
def DispatchPhase.mayRead (cancelled : Bool) : DispatchPhase → Bool
  | .reading => true
  | .ended | .faulted => false
  | _ => !cancelled

/-- The messages a cursor is still to be given, as far as one of them is concerned: the one it has
been given is behind it already. -/
def CursorView.ahead (v : CursorView) (m : MessageEnvelope) : List MessageEnvelope :=
  v.buffer.drop (v.index.toNat + if v.delivering = some m then 1 else 0)

/-- **The read a message is still to get** from a subscriber's loop, if nobody sets the cursor back
and no delivery of the message is blocked: one if the message or the subscriber is yet to come, or
the message stands ahead of the cursor of a loop that will read on. -/
def System.owed (σ : System) (s : Guid) (m : MessageEnvelope) : ℕ :=
  if s ∉ σ.subscriberIds ∨ m.id ∉ σ.messageIds then 1
  else if (σ.loops s).mayRead (σ.queue.cancellation s).isCancellationRequested ∧
      m ∈ (σ.cursorView s).ahead m then 1
  else 0

section Owed

variable {σ σ' : System} {a : Action} {evs : List Event} {s : Guid} {m : MessageEnvelope}
  {v v' : CursorView}

theorem System.owed_le (σ : System) (s : Guid) (m : MessageEnvelope) : σ.owed s m ≤ 1 := by
  unfold owed
  split_ifs <;> omega

theorem DispatchPhase.mayRead_of_ne {p : DispatchPhase} (hr : p ≠ .reading) (he : p ≠ .ended)
    (hf : p ≠ .faulted) (c : Bool) : p.mayRead c = !c := by
  cases p <;> simp_all [mayRead]

/-- A cancelled loop reads no more than another. -/
theorem DispatchPhase.mayRead_mono {p : DispatchPhase} {c c' : Bool}
    (hc : c = true → c' = true) (h : p.mayRead c' = true) : p.mayRead c = true := by
  cases p <;> cases c <;> simp_all [mayRead]

/-- A loop that may read the buffer after a step could have done so before. -/
theorem LoopStep.mayRead (h : LoopStep s σ a σ' evs) (hs : s ∈ σ.subscriberIds) {c c' : Bool}
    (hcancel : (σ.queue.cancellation s).isCancellationRequested = c) (hc : c = true → c' = true)
    (hr : (σ'.loops s).mayRead c' = true) : (σ.loops s).mayRead c = true := by
  have hanswer {p p' : DispatchPhase} (hp : p.mayRead c = !c) (hp' : p'.mayRead c' = !c')
      (hr : p'.mayRead c' = true) : p.mayRead c = true := by
    rw [hp'] at hr
    rw [hp]
    cases c <;> simp_all
  cases h with
  | stays _ hl _ =>
    rw [hl] at hr
    exact DispatchPhase.mayRead_mono hc hr
  | starts hnew _ => exact absurd hs hnew
  | dispatch hle =>
    generalize σ.loops s = p, σ'.loops s = p', σ'.queue = q' at hle hr ⊢
    cases hle with
    | checkPasses _ hc' =>
      rw [← hcancel, hc']
      rfl
    | readNothing _ | read _ _ | readThrows _ => rfl
    | checkThrows _ | checkStops _ | delayThrows _ | failedThrows _ | manualRetryThrows _ =>
      simp [DispatchPhase.mayRead] at hr
    | attemptThrows _ =>
      have hne {p : DispatchPhase} (hp : p.message = none) := afterAttempt_ne hp
      exact hanswer rfl (DispatchPhase.mayRead_of_ne (hne rfl _ _ _ _) (hne rfl _ _ _ _)
        (hne rfl _ _ _ _) _) hr
    | _ => exact hanswer rfl rfl hr
  | received hp hp' =>
    have hne {p : DispatchPhase} (hp : p.message = none) := afterAttempt_ne hp
    rw [hp'] at hr
    rw [hp]
    exact hanswer rfl (DispatchPhase.mayRead_of_ne (hne rfl _ _ _ _) (hne rfl _ _ _ _)
      (hne rfl _ _ _ _) _) hr
  | @retried _ m' b r hp hp' =>
    rw [hp'] at hr
    rw [hp]
    rcases r with e | r
    · simp [afterManualRetry, DispatchPhase.mayRead] at hr
    · cases b <;> exact hanswer rfl rfl hr
  | @failedHandled _ m' r hp hp' =>
    rw [hp'] at hr
    rw [hp]
    rcases r with e | r
    · simp [afterFailedHandler, DispatchPhase.mayRead] at hr
    · cases r <;> exact hanswer rfl rfl hr

/-- **A delivery that ends without a commit** was blocked, or is the last thing the loop did. -/
theorem LoopStep.released (h : LoopStep s σ a σ' evs) (hw : σ.WellFormed)
    (hs : s ∈ σ.subscriberIds) {c c' : Bool}
    (hcancel : (σ.queue.cancellation s).isCancellationRequested = c) (hc : c = true → c' = true)
    (hm : (σ.loops s).message = some m) (hm' : (σ'.loops s).message = none)
    (hr : (σ'.loops s).mayRead c' = true) :
    .committed s m ∈ evs ∨ 0 < evs.countP (Event.blocks s m) := by
  have hkeeps {k : ℕ} {m' : MessageEnvelope} {n : ℕ} {r : ReceiveResult}
      (h : (afterAttempt n m' k r).message = none) : False := by
    simp [message_afterAttempt] at h
  cases h with
  | stays _ hl _ =>
    rw [hl, hm] at hm'
    simp at hm'
  | starts hnew _ => exact absurd hs hnew
  | dispatch hle =>
    have hleft : s ∉ σ.queue.subscribers → c' = true := fun hs' =>
      hc (hcancel ▸ hw.left_cancelled s hs' hle.started.1)
    generalize σ.loops s = p, σ'.loops s = p', σ'.queue = q' at hle hr hm hm'
    cases hle with
    | commit _ => exact Or.inl (by simpa [DispatchPhase.message] using hm.symm)
    | commitMisses hs' =>
      -- the subscriber has left, and the check stops the loop
      rw [hleft hs'] at hr
      simp [DispatchPhase.mayRead] at hr
    | attemptThrows _ => exact (hkeeps hm').elim
    | failedThrows _ | manualRetryThrows _ => simp [DispatchPhase.mayRead] at hr
    | _ => simp [DispatchPhase.message] at hm hm'
  | received hp hp' => exact (hkeeps (hp' ▸ hm')).elim
  | @retried _ m' b r hp hp' =>
    rw [hp'] at hr hm'
    rcases r with e | r
    · simp [afterManualRetry, DispatchPhase.mayRead] at hr
    · cases b <;> simp [afterManualRetry, DispatchPhase.message] at hm'
  | @failedHandled _ m' r hp hp' =>
    rw [hp] at hm
    obtain rfl : m' = m := by simpa [DispatchPhase.message] using hm
    rw [hp'] at hr hm'
    rcases r with e | r
    · simp [afterFailedHandler, DispatchPhase.mayRead] at hr
    · cases r with
      | block => exact Or.inr (by simp [Event.blocks])
      | _ => simp [afterFailedHandler, DispatchPhase.message] at hm'

/-- What stands ahead of a cursor stood there before, or the cursor has been set back, or the
delivery of the message has ended without a commit. -/
theorem CursorStep.mem_ahead (h : CursorStep s v evs v') (hs : v.standing ≠ .absent)
    (h0 : 0 ≤ v.index) (henq : .enqueued m ∉ evs) (hm : m ∈ v'.ahead m) :
    m ∈ v.ahead m ∨ (∃ messageId i, .replayedFrom s messageId i ∈ evs ∧ m ∈ v.buffer.drop i) ∨
      v.delivering = some m ∧ v'.delivering = none ∧ .committed s m ∉ evs := by
  have hdrop {l : List MessageEnvelope} {i j : ℕ} (hij : i ≤ j) (h : m ∈ l.drop j) :
      m ∈ l.drop i := by
    obtain ⟨k, rfl⟩ := Nat.exists_eq_add_of_le hij
    rw [← List.drop_drop] at h
    exact List.mem_of_mem_drop h
  cases h with
  | enqueue m' =>
    have hne : m ≠ m' := by simpa using henq
    refine Or.inl ?_
    rw [CursorView.ahead, List.drop_append, List.mem_append] at hm
    exact hm.resolve_right fun hin => hne (List.mem_singleton.mp (List.mem_of_mem_drop hin))
  | @prune gone kept hb =>
    -- a pass takes no less from the buffer than from the cursor
    refine Or.inl ?_
    rw [CursorView.ahead, hb, List.drop_append, List.mem_append]
    refine Or.inr (hdrop ?_ hm)
    dsimp only
    split_ifs <;> omega
  | subscribe habs _ => exact absurd habs hs
  | unsubscribe _ | readNothing _ _ _ | quiet _ => exact Or.inl hm
  | @replayFrom m' i _ _ _ _ =>
    refine Or.inr (Or.inl ⟨m'.id, i, List.mem_singleton.mpr rfl, ?_⟩)
    exact hdrop (Nat.le_add_right _ _) hm
  | @read m' _ hd _ _ =>
    refine Or.inl ?_
    rw [CursorView.ahead, hd]
    exact hdrop (by simp) hm
  | @commit m' _ hd =>
    refine Or.inl ?_
    rw [CursorView.ahead, hd]
    refine hdrop ?_ hm
    split_ifs <;> simp <;> omega
  | @commitMissed m' _ hd =>
    by_cases hm' : m' = m
    · exact Or.inr (Or.inr ⟨hm' ▸ hd, rfl, by simp⟩)
    · exact Or.inl (by simpa [CursorView.ahead, hd, hm'] using hm)
  | @release m' _ hd hq =>
    by_cases hm' : m' = m
    · exact Or.inr (Or.inr ⟨hm' ▸ hd, rfl, fun hc => hq _ hc rfl⟩)
    · exact Or.inl (by simpa [CursorView.ahead, hd, hm'] using hm)

/-- A read takes a message that stands at the cursor, and leaves it behind. -/
theorem CursorStep.of_read (h : CursorStep s v evs v') (hm : m ∈ readsOf s evs)
    (hnodup : v.buffer.Nodup) :
    evs = [.dispatchRead s (some m)] ∧ v.standing ≠ .absent ∧ m ∈ v.ahead m ∧
      m ∉ v'.ahead m := by
  have hmem := mem_readsOf.mp hm
  cases h with
  | @read m' hs hd _ hread =>
    obtain rfl : m = m' := by simpa using hmem
    have hlt := (List.getElem?_eq_some_iff.mp hread).1
    have hget := (List.getElem?_eq_some_iff.mp hread).2
    have hsplit := List.drop_eq_getElem_cons hlt
    rw [hget] at hsplit
    refine ⟨rfl, hs, ?_, ?_⟩
    · rw [CursorView.ahead, hd, if_neg (by simp), Nat.add_zero, hsplit]
      exact List.mem_cons_self
    · have hdrop := hnodup.sublist (List.drop_sublist v.index.toNat v.buffer)
      rw [hsplit] at hdrop
      simpa [CursorView.ahead] using (List.nodup_cons.mp hdrop).1
  | release _ hq => exact absurd rfl (hq _ hmem)
  | quiet hq => exact absurd rfl (hq _ hmem)
  | _ => simp at hmem

theorem LoopStep.reading_of_read {next : Option MessageEnvelope} (h : LoopStep s σ a σ' evs)
    (hmem : .dispatchRead s next ∈ evs) : σ.loops s = .reading := by
  cases h with
  | stays _ _ hquiet => exact absurd rfl (hquiet _ hmem)
  | dispatch hle =>
    generalize σ.loops s = p, σ'.loops s = p', σ'.queue = q' at hle ⊢
    cases hle with
    | read _ _ | readNothing _ => rfl
    | _ => simp at hmem
  | _ => simp at hmem

/-- Only `Enqueue` puts a message into the buffer, under a new `Id`. -/
theorem Effect.of_enqueued (h : Effect σ a σ' evs) (hmem : .enqueued m ∈ evs) :
    m.id ∉ σ.messageIds ∧ ∃ payload, a = .enqueue m.id m.createdAt payload := by
  by_cases ha : (∀ id t p, a ≠ .enqueue id t p) ∧ ∀ k, a ≠ .prune k
  · have hnone := (h.sameBuffer ha.1 ha.2).enqueued
    rw [enqueuedOf, List.filterMap_eq_nil_iff] at hnone
    exact absurd (hnone _ hmem) (by simp)
  · cases h with
    | @enqueue _ _ payload hid =>
      obtain rfl : m = _ := by simpa using hmem
      exact ⟨hid, payload, rfl⟩
    | prune _ => simp at hmem
    | _ => exact absurd ⟨by simp, by simp⟩ ha

/-- An `Id` once given out stays so. -/
theorem Effect.messageId (h : Effect σ a σ' evs) {id : Guid} (hid : id ∈ σ.messageIds) :
    id ∈ σ'.messageIds := by
  cases h with
  | enqueue _ => exact List.mem_cons_of_mem _ hid
  | _ => exact hid

/-- A message that is yet to come is not read, nor is anything by a subscriber that is. -/
theorem Effect.unread_of_new (h : Effect σ a σ' evs) (hw : σ.WellFormed)
    (hnodup : σ.queue.buffer.Nodup) (hids : ∀ x ∈ σ.queue.buffer, x.id ∈ σ.messageIds)
    (hnew : s ∉ σ.subscriberIds ∨ m.id ∉ σ.messageIds) : m ∉ readsOf s evs := by
  intro hm
  obtain ⟨-, hs, hahead, -⟩ := (h.cursorStep hw s).of_read hm hnodup
  rcases hnew with hnew | hnew
  · exact hs (hw.standing_eq_absent_of_fresh hnew)
  · exact hnew (hids m (List.mem_of_mem_drop hahead))

/-- **What stands ahead of a loop that will read on** stood there before, or there is a reason for
it to come again. -/
theorem Effect.reason_of_ahead (h : Effect σ a σ' evs) (hw : σ.WellFormed)
    (h0 : 0 ≤ (σ.queue.cursors s).index) (hs : s ∈ σ.subscriberIds) (hid : m.id ∈ σ.messageIds)
    (hr : (σ'.loops s).mayRead (σ'.queue.cancellation s).isCancellationRequested = true)
    (hahead' : m ∈ (σ'.cursorView s).ahead m) :
    ((σ.loops s).mayRead (σ.queue.cancellation s).isCancellationRequested = true ∧
        m ∈ (σ.cursorView s).ahead m) ∨
      bringsBack s m ⟨σ, a, evs, σ'⟩ = true ∨ 0 < evs.countP (Event.blocks s m) := by
  have hcancel := fun hc => (h.cancelled hs hc).2
  have habs : (σ.cursorView s).standing ≠ .absent := fun he =>
    (System.standing_eq_absent.mp he).2 hs
  have henq : .enqueued m ∉ evs := fun hmem => (h.of_enqueued hmem).1 hid
  rcases (h.cursorStep hw s).mem_ahead habs h0 henq hahead' with
    hahead | ⟨id, i, hmem, hi⟩ | ⟨hd, hd', hc⟩
  · exact Or.inl ⟨(h.loopStep s).mayRead hs rfl hcancel hr, hahead⟩
  · refine Or.inr (Or.inl (List.any_eq_true.mpr ⟨_, hmem, ?_⟩))
    simpa [Event.bringsBack, System.cursorView] using hi
  · have hreleased := (h.loopStep s).released hw hs rfl hcancel hd hd' hr
    exact Or.inr (Or.inr (hreleased.resolve_left hc))

/-- **A transition adds to what is owed only if it is a reason** for a message to come again, and
a read takes away from it. -/
theorem Effect.owed (h : Effect σ a σ' evs) (hw : σ.WellFormed)
    (h0 : 0 ≤ (σ.queue.cursors s).index) (hnodup : σ.queue.buffer.Nodup)
    (hids : ∀ x ∈ σ.queue.buffer, x.id ∈ σ.messageIds) :
    (readsOf s evs).count m + σ'.owed s m ≤
      σ.owed s m + ((if bringsBack s m ⟨σ, a, evs, σ'⟩ then 1 else 0) +
        evs.countP (Event.blocks s m)) := by
  have hle := σ'.owed_le s m
  by_cases hnew : s ∉ σ.subscriberIds ∨ m.id ∉ σ.messageIds
  · have hno := h.unread_of_new hw hnodup hids hnew
    rw [List.count_eq_zero.mpr hno, System.owed.eq_def σ, if_pos hnew]
    omega
  obtain ⟨hs, hid⟩ : s ∈ σ.subscriberIds ∧ m.id ∈ σ.messageIds := by
    simpa [not_or] using hnew
  have hnew' : ¬ (s ∉ σ'.subscriberIds ∨ m.id ∉ σ'.messageIds) := by
    simpa [not_or] using ⟨h.subscriberId hs, h.messageId hid⟩
  by_cases hm : m ∈ readsOf s evs
  · -- the message is no longer ahead of the cursor
    obtain ⟨hevs, -, hahead, hbehind⟩ := (h.cursorStep hw s).of_read hm hnodup
    have hl := (h.loopStep s).reading_of_read (mem_readsOf.mp hm)
    have howed : σ.owed s m = 1 := by
      rw [System.owed, if_neg hnew, if_pos ⟨by rw [hl]; rfl, hahead⟩]
    have howed' : σ'.owed s m = 0 := by
      rw [System.owed, if_neg hnew', if_neg fun hc => hbehind hc.2]
    have hone : (readsOf s evs).count m = 1 := by
      rw [hevs]
      simp [readsOf]
    rw [hone, howed, howed']
    omega
  rw [List.count_eq_zero.mpr hm, Nat.zero_add]
  by_cases howed : (σ'.loops s).mayRead (σ'.queue.cancellation s).isCancellationRequested ∧
      m ∈ (σ'.cursorView s).ahead m
  · rcases h.reason_of_ahead hw h0 hs hid howed.1 howed.2 with hbefore | hback | hblocks
    · rw [System.owed.eq_def σ, if_neg hnew, if_pos hbefore]
      omega
    · rw [if_pos hback]
      omega
    · omega
  · rw [System.owed.eq_def σ', if_neg hnew', if_neg howed]
    exact Nat.zero_le _

end Owed

/-! ### Over whole runs -/

section Runs

variable {ttl : TimeSpan} {n : ℕ} {pre tr : Trace} {σ σ' : System} {s : Guid}
  {m : MessageEnvelope}

/-- The reasons in a run for a message to come again: the replays that set the cursor back to it,
and the times it was blocked. -/
def reasons (s : Guid) (m : MessageEnvelope) (tr : Trace) : ℕ :=
  tr.countP (bringsBack s m) + (events tr).countP (Event.blocks s m)

/-- **From any state reached on, the reads of a message are owed, or there are reasons for
them.** -/
theorem reads_le_of_run (hpre : RunOf ttl n pre σ) (h : Run step σ tr σ') :
    (readsOf s (events tr)).count m + σ'.owed s m ≤ σ.owed s m + reasons s m tr := by
  refine h.invariant (I := fun tr σ' => (readsOf s (events tr)).count m + σ'.owed s m ≤
    σ.owed s m + reasons s m tr) (by simp [readsOf, reasons]) ?_
  intro tr τ a evs τ' hrun hi hs
  have hall := hpre.append hrun
  have hledger := ledger_of_run hall
  have hids : ∀ x ∈ τ.queue.buffer, x.id ∈ τ.messageIds := by
    intro x hx
    refine idsUsed_of_run hall x ?_
    rw [hledger.enqueued]
    exact List.mem_append_right _ hx
  have hstep := (effect_of_step hs).owed (s := s) (m := m) (wellFormed_of_run hall)
    (index_nonneg_of_run hall s) hledger.nodup_buffer hids
  simp only [reasons, events_append, events_cons, events_nil, List.append_nil, readsOf_append,
    List.count_append, List.countP_append, List.countP_singleton] at hi ⊢
  omega

/-- A read is no reason for another. -/
theorem reasons_of_read {t : Transition System Action Event} (hpre : RunOf ttl n pre t.pre)
    (ht : step t.pre t.act = some (t.post, t.out)) (hm : m ∈ readsOf s t.out) :
    reasons s m [t] = 0 := by
  have hout := (((effect_of_step ht).cursorStep (wellFormed_of_run hpre) s).of_read hm
    (ledger_of_run hpre).nodup_buffer).1
  simp [reasons, bringsBack, hout, Event.bringsBack, Event.blocks]

theorem reasons_append (s : Guid) (m : MessageEnvelope) (tr tr' : Trace) :
    reasons s m (tr ++ tr') = reasons s m tr + reasons s m tr' := by
  simp only [reasons, events_append, List.countP_append]
  omega

/-- **A message is read again only for a reason.** In every run of the system, in which a call of
`Unsubscribe` or `ReplayFrom` is one step as a `Commit` and a pass are, between two reads of the
same message by the dispatch loop of a subscriber, there is an accepted `ReplayFrom` that sets the
cursor of that subscriber to the message or before it, or the failure handler has answered `Block`
for it. -/
theorem redelivered_only_if {mid : Trace} {t t' : Transition System Action Event}
    (h : RunOf ttl n (pre ++ t :: (mid ++ [t'])) σ) (ht : .dispatchRead s (some m) ∈ t.out)
    (ht' : .dispatchRead s (some m) ∈ t'.out) :
    ∃ u ∈ mid, bringsBack s m u ∨ ∃ e ∈ u.out, e.blocks s m := by
  obtain ⟨hpre, hstep, hrest⟩ := h.cut
  obtain ⟨hmid, hstep', -⟩ := hrest.of_snoc
  have hfirst : RunOf ttl n (pre ++ [t]) t.post := hpre.snoc hstep
  have hseg : Run step t.pre ([t] ++ (mid ++ [t'])) t'.post :=
    (Run.single hstep).append (hmid.snoc hstep')
  have hle := reads_le_of_run (s := s) (m := m) hpre hseg
  have howed := t.pre.owed_le s m
  have hone : 1 ≤ (readsOf s t.out).count m := List.count_pos_iff.mpr (mem_readsOf.mpr ht)
  have hone' : 1 ≤ (readsOf s t'.out).count m := List.count_pos_iff.mpr (mem_readsOf.mpr ht')
  rw [reasons_append, reasons_append, reasons_of_read hpre hstep (mem_readsOf.mpr ht),
    reasons_of_read (hfirst.append hmid) hstep' (mem_readsOf.mpr ht')] at hle
  simp only [events_append, events_cons, events_nil, List.append_nil, readsOf_append,
    List.count_append] at hle
  -- two reads, one of which at most was owed
  have hpos : 0 < mid.countP (bringsBack s m) + (events mid).countP (Event.blocks s m) := by
    rw [reasons] at hle
    omega
  rcases Nat.add_pos_iff_pos_or_pos.mp hpos with hpos | hpos
  · obtain ⟨u, hu, hback⟩ := List.countP_pos_iff.mp hpos
    exact ⟨u, hu, Or.inl hback⟩
  · obtain ⟨e, he, hblocks⟩ := List.countP_pos_iff.mp hpos
    obtain ⟨u, hu, he⟩ := mem_events.mp he
    exact ⟨u, hu, Or.inr ⟨e, he, hblocks⟩⟩

/-- The theorem at a run without replays, in which a message is read again: it has been blocked. -/
theorem redelivered_only_if_blocked : ∃ pre t mid t' σ, RunOf 100 0 (pre ++ t :: (mid ++ [t'])) σ ∧
    .dispatchRead 7 (some ⟨1, 10⟩) ∈ t.out ∧ .dispatchRead 7 (some ⟨1, 10⟩) ∈ t'.out ∧
    ∃ u ∈ mid, ∃ e ∈ u.out, e.blocks 7 ⟨1, 10⟩ := by
  have hpre := runOf_exec 100 0 [.subscribe 7, .enqueue 1 10 none, .dispatch 7] (by decide)
  have hread := hpre.snoc (a := .dispatch 7) rfl
  have hmid := hread.append (run_exec [.dispatch 7, .received 7 (.ok .nack), .dispatch 7,
    .failedHandled 7 (.ok .block), .dispatch 7] (by decide))
  have hrun := hmid.snoc (a := .dispatch 7) rfl
  rw [List.append_assoc, List.append_assoc] at hrun
  refine ⟨_, _, _, _, _, hrun, by decide, by decide, ?_⟩
  obtain ⟨u, hu, hback | hblocks⟩ := redelivered_only_if hrun
    (m := ⟨1, 10⟩) (s := 7) (by decide) (by decide)
  · exact absurd hback (by revert u; decide)
  · exact ⟨u, hu, hblocks⟩

/-- **Redelivery is bounded.** In every run of the system, in which a call of `Unsubscribe` or
`ReplayFrom` is one step as a `Commit` and a pass are, for every subscriber and every message: the
loop of the subscriber reads the message once, and once more at most for every accepted `ReplayFrom`
that sets its cursor back to the message and every time the failure handler answers `Block` for it;
it commits the message, and adds it to the dead letter queue, once and once more at most for every
such replay; and for every read it calls `OnMessageReceiveAsync` with the message `n + 2` times at
most and `OnMessageFailedHandlerAsync` once at most. -/
theorem redelivery_bounded (h : RunOf ttl n tr σ) (s : Guid) (m : MessageEnvelope) :
    (readsOf s (events tr)).count m ≤
        1 + tr.countP (bringsBack s m) + (events tr).countP (Event.blocks s m) ∧
      (committedOf s (events tr)).count m ≤ 1 + tr.countP (bringsBack s m) ∧
      (addedOf s (events tr)).count m ≤ 1 + tr.countP (bringsBack s m) ∧
      (events tr).countP (Event.hands s m) ≤ (n + 2) * (readsOf s (events tr)).count m ∧
      (events tr).countP (Event.asks s m) ≤ (readsOf s (events tr)).count m := by
  have howed := (System.init ttl n).owed_le s m
  have hreads := reads_le_of_run (s := s) (m := m) Run.nil h
  have hends := (tally_ends n s m).le_of_run h
  have hdead := (tally_deadLetters n s m).le_of_run h
  have hhands := (tally_hands n s m).le_of_run h
  have hasks := (tally_asks n s m).le_of_run h
  rw [reasons] at hreads
  exact ⟨by omega, by omega, by omega, by omega, by omega⟩

/-- The theorem at a run in which a message is blocked, acknowledged and replayed: it is read three
times, as often as that allows. -/
theorem redelivery_bounded_blocked : ∃ tr σ, RunOf 100 0 tr σ ∧
    (readsOf 7 (events tr)).count ⟨1, 10⟩ = 3 ∧ tr.countP (bringsBack 7 ⟨1, 10⟩) = 1 ∧
    (events tr).countP (Event.blocks 7 ⟨1, 10⟩) = 1 ∧
    (committedOf 7 (events tr)).count ⟨1, 10⟩ ≤ 2 := by
  have hrun := runOf_exec 100 0 [.subscribe 7, .enqueue 1 10 none, .dispatch 7, .dispatch 7,
    .dispatch 7, .received 7 (.ok .nack), .dispatch 7, .failedHandled 7 (.ok .block), .dispatch 7,
    .dispatch 7, .dispatch 7, .received 7 (.ok .ack), .dispatch 7, .replayFrom 7 1, .dispatch 7,
    .dispatch 7] (by decide)
  exact ⟨_, _, hrun, by decide, by decide, by decide, (redelivery_bounded hrun 7 ⟨1, 10⟩).2.1⟩

end Runs

end PushDeliveredQueue
