import PushDeliveredQueue.DeadLetters
import PushDeliveredQueue.State

/-!
# Changing a payload

The buffer and the dead letter queues hold references to the same envelopes, so a payload
that is changed is changed everywhere at once, and whoever is handed the message afterwards is
handed the new one (`PushDeliveredQueue.handed_of_run`). But `ChangeMessagePayload` looks for
the envelope in the buffer only. A dead letter outlives its place there, and once it has been
pruned its payload cannot be changed any more (`PushDeliveredQueue.payload_change_iff`).
-/

namespace PushDeliveredQueue

open Transitions

/-! ### What has been reported -/

/-- `GetState` reports a message of this `Id`, in the buffer or in a dead letter queue. -/
def SubscribableQueueState.Reports (state : SubscribableQueueState) (messageId : Guid) : Prop :=
  (∃ m ∈ state.buffer, m.id = messageId) ∨
    ∃ kvp ∈ state.subscribers, ∃ m ∈ kvp.2.deadLetterQueue, m.id = messageId

/-- A copy, with another payload if it is of this message. -/
def EnvelopeCopy.withPayload (messageId : Guid) (payload : Payload) (m : EnvelopeCopy) :
    EnvelopeCopy :=
  if m.id = messageId then { m with payload := payload } else m

/-- A report that differs in the payload of one message, at all its occurrences, and in
nothing else. -/
def SubscribableQueueState.withPayload (messageId : Guid) (payload : Payload)
    (state : SubscribableQueueState) : SubscribableQueueState :=
  { state with
    buffer := state.buffer.map (.withPayload messageId payload)
    subscribers := state.subscribers.map fun kvp =>
      (kvp.1, { kvp.2 with
        deadLetterQueue := kvp.2.deadLetterQueue.map (.withPayload messageId payload) }) }

section Reports

variable {q q' : SubscribableQueue} {messageId : Guid} {payload : Payload}

theorem EnvelopeCopy.payload_withPayload {m : EnvelopeCopy}
    (h : (m.withPayload messageId payload).id = messageId) :
    (m.withPayload messageId payload).payload = payload := by
  by_cases hid : m.id = messageId
  · simp [withPayload, hid]
  · simp only [withPayload, if_neg hid] at h
    exact absurd h hid

/-- A queue that differs in one entry of the payload table reports so. -/
theorem SubscribableQueue.getState_withPayload (ht : q'.ttl = q.ttl) (hb : q'.buffer = q.buffer)
    (hs : q'.subscribers = q.subscribers) (hc : q'.cursors = q.cursors)
    (hp : ∀ id, q'.payloads id = if id = messageId then payload else q.payloads id) :
    q'.getState = q.getState.withPayload messageId payload := by
  have hcopies : ∀ l : List MessageEnvelope,
      l.map q'.copyEnvelope = (l.map q.copyEnvelope).map (.withPayload messageId payload) := by
    intro l
    rw [List.map_map]
    refine List.map_congr_left fun m _ => ?_
    by_cases hid : m.id = messageId <;>
      simp [copyEnvelope, EnvelopeCopy.withPayload, hp, hid]
  have hentry : ∀ count s, q'.subscriberState count s =
      { q.subscriberState count s with
        deadLetterQueue :=
          (q.subscriberState count s).deadLetterQueue.map (.withPayload messageId payload) } := by
    intro count s
    simp only [subscriberState, hc, hcopies]
  simp only [getState, SubscribableQueueState.withPayload, hentry, length_copyBuffer, ht, hb, hs,
    List.map_map]
  rw [copyBuffer, copyBuffer, hb, hcopies]
  rfl

/-- In such a report every occurrence of the message has the new payload. -/
theorem SubscribableQueueState.Reports.payload_eq {state : SubscribableQueueState}
    (h : q.getState.Reports messageId)
    (hstate : q.getState = state.withPayload messageId payload) :
    q.payloads messageId = payload := by
  -- an occurrence is a copy made by the queue, and a copy with the payload replaced
  have hcopies : ∀ (l : List MessageEnvelope) (l' : List EnvelopeCopy),
      l.map q.copyEnvelope = l'.map (.withPayload messageId payload) →
      (∃ m ∈ l.map q.copyEnvelope, m.id = messageId) → q.payloads messageId = payload := by
    rintro l l' heq ⟨m, hm, hid⟩
    obtain ⟨m₁, -, rfl⟩ := List.mem_map.mp hm
    obtain ⟨m₂, -, hm₂⟩ := List.mem_map.mp (heq ▸ hm)
    have hid₂ : (m₂.withPayload messageId payload).id = messageId := hm₂ ▸ hid
    have hpayload := EnvelopeCopy.payload_withPayload hid₂
    rw [hm₂] at hpayload
    obtain rfl : m₁.id = messageId := hid
    exact hpayload
  rcases h with h | ⟨⟨s, e⟩, hmem, h⟩
  · exact hcopies _ _ (congrArg SubscribableQueueState.buffer hstate) h
  · obtain ⟨-, rfl⟩ := q.mem_getState_subscribers.mp hmem
    rw [hstate] at hmem
    obtain ⟨kvp, -, hkvp⟩ := List.mem_map.mp hmem
    exact hcopies _ _ (congrArg (fun kvp => kvp.2.deadLetterQueue) hkvp).symm h

end Reports

/-! ### What the payload table is read and written by -/

section Table

variable {σ σ' : System} {a : Action} {evs : List Event} {s messageId : Guid} {m : MessageEnvelope}
  {caller : Caller} {payload : Payload}

theorem mem_replayCalls_payload {q : SubscribableQueue} {s' : Guid} {call : ℕ} {p : ReplayPhase}
    (h : .receiveCalled s caller m payload ∈ replayCalls q s' call p) :
    payload = q.payloads m.id := by
  cases p <;> simp [replayCalls] at h
  obtain ⟨-, -, rfl, rfl⟩ := h
  rfl

/-- **A handler is handed the payload of the table**, whoever calls it. -/
theorem Effect.handed (h : Effect σ a σ' evs) (hmem : .receiveCalled s caller m payload ∈ evs) :
    payload = σ.queue.payloads m.id := by
  cases h with
  | dispatch _ hl =>
    cases hl <;> simp at hmem
    all_goals
      obtain ⟨-, -, rfl, rfl⟩ := hmem
      rfl
  | replayFromDlq _ _ | replayAllDlqMessages _ | runScheduled _ =>
    exact mem_replayCalls_payload hmem
  | replayAcked _ _ | replayFailed _ _ =>
    exact mem_replayCalls_payload (List.mem_of_ne_of_mem (by simp) hmem)
  | _ => simp at hmem

/-- Only `Enqueue` and `ChangeMessagePayload` write to the table. -/
theorem Effect.payloads (h : Effect σ a σ' evs) (hknown : messageId ∈ σ.messageIds)
    (hchange : ∀ p, a ≠ .changeMessagePayload messageId p) :
    messageId ∈ σ'.messageIds ∧ σ'.queue.payloads messageId = σ.queue.payloads messageId := by
  cases h with
  | @enqueue id _ _ hid =>
    have hne : messageId ≠ id := fun he => hid (he ▸ hknown)
    exact ⟨List.mem_cons_of_mem _ hknown, by simp [SubscribableQueue.enqueue, hne]⟩
  | changeMessagePayload id p =>
    have hne : messageId ≠ id := by
      rintro rfl
      exact hchange p rfl
    refine ⟨hknown, ?_⟩
    simp only [SubscribableQueue.changeMessagePayload]
    split
    · rename_i m hm
      obtain rfl : m.id = id := by simpa using List.find?_some hm
      simp [hne]
    · rfl
  | @prune _ cutoff _ =>
    refine ⟨hknown, ?_⟩
    simp only [SubscribableQueue.pruneExpiredMessages]
    split <;> rfl
  | unsubscribe s' =>
    refine ⟨hknown, ?_⟩
    by_cases hs : s' ∈ σ.queue.subscribers
    · simp only [SubscribableQueue.unsubscribe_of_mem hs]
    · simp only [SubscribableQueue.unsubscribe_of_notMem hs]
  | dispatch _ hl =>
    refine ⟨hknown, ?_⟩
    rcases hl.queue with rfl | ⟨c, -, rfl⟩ <;> rfl
  | replayFrom hr =>
    obtain ⟨-, -, -, -, -, rfl⟩ := SubscribableQueue.replayFrom_eq_replayedFrom hr
    exact ⟨hknown, rfl⟩
  | _ => exact ⟨hknown, rfl⟩

/-- **What is handed over from now on**: until its payload is changed again, a message is
handed over with the payload it has now. -/
theorem handed_of_run {cont : Trace} (h : Run step σ cont σ') (hknown : messageId ∈ σ.messageIds)
    (hchange : ∀ t ∈ cont, ∀ p, t.act ≠ .changeMessagePayload messageId p)
    (hmem : .receiveCalled s caller m payload ∈ events cont) (hid : m.id = messageId) :
    payload = σ.queue.payloads messageId := by
  obtain ⟨t, ht, he⟩ := mem_events.mp hmem
  obtain ⟨pre, post, rfl, hpre, hstep, -⟩ := h.of_mem ht
  have hkept : messageId ∈ t.pre.messageIds ∧
      t.pre.queue.payloads messageId = σ.queue.payloads messageId := by
    refine hpre.invariantOn (I := fun _ σ₁ => messageId ∈ σ₁.messageIds ∧
      σ₁.queue.payloads messageId = σ.queue.payloads messageId) ⟨hknown, rfl⟩ ?_
      fun u hu => hchange u (List.mem_append_left _ hu)
    rintro tr σ₁ a evs σ₂ - ⟨hknown₁, hsame⟩ hs hne
    obtain ⟨hknown₂, hsame₂⟩ := (effect_of_step hs).payloads hknown₁ hne
    exact ⟨hknown₂, hsame₂.trans hsame⟩
  rw [(effect_of_step hstep).handed he, hid, hkept.2]

end Table

/-! ### When a change is seen -/

/-- **A payload change has reached the message**: every occurrence of it is reported with the
new payload, every later delivery, retry and replay hands it over, until the payload is changed
again, and nothing else has changed. -/
structure PayloadReaches (σ σ' : System) (messageId : Guid) (payload : Payload) : Prop where
  reported : σ'.queue.getState = σ.queue.getState.withPayload messageId payload
  handed : ∀ cont σ'', Run step σ' cont σ'' →
    (∀ t ∈ cont, ∀ p, t.act ≠ .changeMessagePayload messageId p) →
      ∀ s caller m p, .receiveCalled s caller m p ∈ events cont → m.id = messageId → p = payload
  others : ∀ id, id ≠ messageId → σ'.queue.payloads id = σ.queue.payloads id
  cursors : σ'.queue.cursors = σ.queue.cursors

section Change

variable {ttl : TimeSpan} {n : ℕ} {tr : Trace} {σ σ' : System} {evs : List Event}
  {messageId : Guid} {payload : Payload}

/-- Whatever is reported has been enqueued. -/
theorem mem_messageIds_of_reports (h : RunOf ttl n tr σ)
    (hrep : σ.queue.getState.Reports messageId) :
    messageId ∈ σ.messageIds := by
  rcases hrep with ⟨m, hm, rfl⟩ | ⟨⟨s, e⟩, hmem, m, hm, rfl⟩
  · obtain ⟨m₁, hm₁, rfl⟩ := List.mem_map.mp hm
    refine idsUsed_of_run h m₁ ?_
    rw [(ledger_of_run h).enqueued]
    exact List.mem_append_right _ hm₁
  · obtain ⟨-, rfl⟩ := σ.queue.mem_getState_subscribers.mp hmem
    obtain ⟨m₁, hm₁, rfl⟩ := List.mem_map.mp hm
    exact idsUsed_of_run h m₁ (addedToDlq_of_run h ((accounted_of_run h s).entries m₁ hm₁)).1

/-- What `ChangeMessagePayload` does to the table: it writes the entry of a message that is in
the buffer. -/
theorem SubscribableQueue.changeMessagePayload_eq (q : SubscribableQueue) (messageId : Guid)
    (payload : Payload) :
    q.changeMessagePayload messageId payload =
      if ∃ m ∈ q.buffer, m.id = messageId then
        { q with payloads := Function.update q.payloads messageId payload }
      else q := by
  rcases hfind : q.buffer.find? (·.id = messageId) with _ | m
  · have hno : ¬ ∃ m ∈ q.buffer, m.id = messageId := by
      simpa using List.find?_eq_none.mp hfind
    simp only [changeMessagePayload, hfind, if_neg hno]
  · have hid : m.id = messageId := by simpa using List.find?_some hfind
    rw [if_pos ⟨m, List.mem_of_find?_eq_some hfind, hid⟩]
    simp only [changeMessagePayload, hfind, hid]

/-- **When a payload change reaches every copy.** A change of the payload of a message that is
reported somewhere is seen at all its occurrences and by everyone it is handed to later, and
changes nothing else, if and only if the message is still in the buffer, or has that payload
already. -/
theorem payload_change_iff (h : RunOf ttl n tr σ) (hrep : σ.queue.getState.Reports messageId)
    (hstep : step σ (.changeMessagePayload messageId payload) = some (σ', evs)) :
    PayloadReaches σ σ' messageId payload ↔
      (∃ m ∈ σ.queue.buffer, m.id = messageId) ∨ σ.queue.payloads messageId = payload := by
  have hknown := mem_messageIds_of_reports h hrep
  obtain ⟨rfl, rfl⟩ :
      { σ with queue := σ.queue.changeMessagePayload messageId payload } = σ' ∧ [] = evs := by
    simpa [step] using hstep
  constructor
  · rintro ⟨hreported, -, -, -⟩
    refine or_iff_not_imp_left.mpr fun hno => ?_
    -- nothing has been written
    simp only [SubscribableQueue.changeMessagePayload_eq, if_neg hno] at hreported
    exact hrep.payload_eq hreported
  · intro hcond
    have htable : ∀ id, (σ.queue.changeMessagePayload messageId payload).payloads id =
        if id = messageId then payload else σ.queue.payloads id := by
      intro id
      rw [SubscribableQueue.changeMessagePayload_eq]
      split_ifs with hin hid hid
      · simp [hid]
      · simp [hid]
      · rw [hid, hcond.resolve_left hin]
      · rfl
    have httl : (σ.queue.changeMessagePayload messageId payload).ttl = σ.queue.ttl := by
      rw [SubscribableQueue.changeMessagePayload_eq]
      split_ifs <;> rfl
    refine ⟨?_, ?_, ?_, by simp⟩
    · exact SubscribableQueue.getState_withPayload httl (by simp) (by simp) (by simp) htable
    · intro cont σ'' hrun hchange s caller m p hmem hid
      rw [handed_of_run hrun hknown hchange hmem hid, htable, if_pos rfl]
    · intro id hne
      exact (htable id).trans (if_neg hne)

/-- The theorem at a message that is dead-lettered and in the buffer as well. -/
theorem payload_change_buffered : ∃ tr σ σ', RunOf 5 0 tr σ ∧
    (σ.queue.cursors 7).deadLetterQueue = [⟨1, 10⟩] ∧
    step σ (.changeMessagePayload 1 (some "mended")) = some (σ', []) ∧
    PayloadReaches σ σ' 1 (some "mended") := by
  have h := runOf_exec 5 0 ([.subscribe 7, .enqueue 1 10 none] ++ deadLetter 7) (by decide)
  refine ⟨_, _, _, h, by decide, rfl, (payload_change_iff h ?_ rfl).mpr (Or.inl ?_)⟩
  · exact Or.inl ⟨⟨1, 10, none⟩, by decide, rfl⟩
  · exact ⟨⟨1, 10⟩, by decide, rfl⟩

/-- **A dead letter that has been pruned cannot be mended**: `GetState` reports message `1` in
the dead letter queue of subscriber `7`, and `ChangeMessagePayload` leaves it as it is. -/
theorem payload_change_lost : ∃ tr σ σ', RunOf 5 0 tr σ ∧ σ.queue.getState.Reports 1 ∧
    step σ (.changeMessagePayload 1 (some "mended")) = some (σ', []) ∧
    ¬ PayloadReaches σ σ' 1 (some "mended") := by
  have h := runOf_exec 5 0 ([.subscribe 7, .enqueue 1 10 none] ++ deadLetter 7 ++
    [.beginPrune 20, .prune 0]) (by decide)
  have hrep : (stateOf step (System.init 5 0) ([.subscribe 7, .enqueue 1 10 none] ++
      deadLetter 7 ++ [.beginPrune 20, .prune 0])).queue.getState.Reports 1 :=
    Or.inr ⟨(7, ⟨0, true, 0, [⟨1, 10, none⟩]⟩), by decide, ⟨1, 10, none⟩, by decide, rfl⟩
  refine ⟨_, _, _, h, hrep, rfl, fun hreaches => ?_⟩
  have hpayload := hrep.payload_eq hreaches.reported
  revert hpayload
  decide

end Change

end PushDeliveredQueue
