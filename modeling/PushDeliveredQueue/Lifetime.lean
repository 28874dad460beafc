import PushDeliveredQueue.Expiry
import PushDeliveredQueue.Redelivery
import PushDeliveredQueue.Service

/-!
# The life of a message

A message lives in the buffer, from `Enqueue` to the prune pass that removes it, under an `Id` that
no other message ever has.

* **While it is there**, its payload can be changed. Whoever is handed the message, in an attempt of
  the policy, in the extra attempt or in a replay, is handed the payload that was written last, and
  so is reported by `GetState` (`PushDeliveredQueue.latest_payload`).
* **Once it has been pruned**, which is not before its time, it is gone
  (`PushDeliveredQueue.pruned_for_good`). No loop reads it, and of the calls made from then on no
  `ReplayFrom` finds it and no change of its payload has an effect. But nobody takes it from a loop
  that has it in hand, which may go on to hand it over and to dead-letter it; and the dead letters
  there are stay, to be handed over by replays.
-/

namespace PushDeliveredQueue

open Transitions

/-! ### What was written last -/

theorem mem_enqueuedOf {evs : List Event} {m : MessageEnvelope} :
    m ∈ enqueuedOf evs ↔ .enqueued m ∈ evs := by
  simp only [enqueuedOf, List.mem_filterMap]
  constructor
  · rintro ⟨e, he, heq⟩
    cases e with
    | enqueued m' =>
      obtain rfl := Option.some.inj heq
      exact he
    | _ => simp at heq
  · exact fun h => ⟨_, h, rfl⟩

/-- A transition writes this payload to a message: it enqueues the message, or changes the payload
of one that is in the buffer. -/
def Writes (messageId : Guid) (payload : Payload) (t : Transition System Action Event) : Prop :=
  (∃ utcNow, t.act = .enqueue messageId utcNow payload) ∨
    t.act = .changeMessagePayload messageId payload ∧ ∃ m ∈ t.pre.queue.buffer, m.id = messageId

/-- The payload last written to a message. -/
def LastWritten (messageId : Guid) (payload : Payload) (tr : Trace) : Prop :=
  ∃ pre w mid, tr = pre ++ w :: mid ∧ Writes messageId payload w ∧
    ∀ t ∈ mid, ∀ payload', ¬ Writes messageId payload' t

section Writing

variable {ttl : TimeSpan} {n : ℕ} {tr : Trace} {σ : System} {messageId : Guid}
  {payload : Payload} {m : MessageEnvelope} {t : Transition System Action Event}

/-- What is written is in the table. -/
theorem Writes.payloads (h : Writes messageId payload t)
    (hs : step t.pre t.act = some (t.post, t.out)) : t.post.queue.payloads messageId = payload := by
  rcases h with ⟨utcNow, ha⟩ | ⟨ha, hin⟩
  · rw [ha] at hs
    simp only [step] at hs
    split_ifs at hs
    obtain ⟨hpost, -⟩ := Prod.mk.inj (Option.some.inj hs)
    simp [← hpost, SubscribableQueue.enqueue]
  · rw [ha] at hs
    obtain ⟨hpost, -⟩ := Prod.mk.inj (Option.some.inj hs)
    simp [← hpost, SubscribableQueue.changeMessagePayload_eq, hin]

/-- What does not write to a message leaves its payload alone. -/
theorem payloads_eq_of_not_writes (hknown : messageId ∈ t.pre.messageIds)
    (hs : step t.pre t.act = some (t.post, t.out)) (h : ¬ ∃ payload, Writes messageId payload t) :
    t.post.queue.payloads messageId = t.pre.queue.payloads messageId := by
  by_cases hchange : ∃ p, t.act = .changeMessagePayload messageId p
  · obtain ⟨p, ha⟩ := hchange
    have hout : ¬ ∃ m ∈ t.pre.queue.buffer, m.id = messageId := fun hin =>
      h ⟨p, Or.inr ⟨ha, hin⟩⟩
    rw [ha] at hs
    obtain ⟨hpost, -⟩ := Prod.mk.inj (Option.some.inj hs)
    rw [← hpost, SubscribableQueue.changeMessagePayload_eq, if_neg hout]
  · exact ((effect_of_step hs).payloads hknown fun p ha => hchange ⟨p, ha⟩).2

/-- **The table holds what was written last**, of every message there has been. -/
theorem lastWritten_of_run (h : RunOf ttl n tr σ) (hm : m ∈ enqueuedOf (events tr)) :
    LastWritten m.id (σ.queue.payloads m.id) tr := by
  obtain ⟨e, he, hmem⟩ := mem_events.mp (mem_enqueuedOf.mp hm)
  obtain ⟨pre, rest, rfl, -, hstep, hrest⟩ := h.of_mem he
  obtain ⟨-, payload, ha⟩ := (effect_of_step hstep).of_enqueued hmem
  have hwrites : Writes m.id payload e := Or.inl ⟨_, ha⟩
  have hknown : m.id ∈ e.post.messageIds := by
    have heff := effect_of_step hstep
    rw [ha] at heff
    generalize e.post = σ', e.out = evs at heff
    cases heff with
    | enqueue _ => exact List.mem_cons_self
  have hkeep : ∀ tr t, Run step e.post tr t.pre → step t.pre t.act = some (t.post, t.out) →
      ¬ (∃ payload, Writes m.id payload t) →
        t.post.queue.payloads m.id = t.pre.queue.payloads m.id := by
    intro tr t hrun hs hno
    refine payloads_eq_of_not_writes ?_ hs hno
    exact hrun.stateInvariant (I := fun σ => m.id ∈ σ.messageIds) hknown
      fun _ _ _ _ hid hs => (effect_of_step hs).messageId hid
  rcases hrest.last_change (fun σ => σ.queue.payloads m.id) hkeep with
    ⟨hfirst, hnone⟩ | ⟨pre', w, mid, rfl, ⟨payload', hw⟩, hmid, hlast⟩
  · -- the message has been enqueued and never changed
    rw [hfirst, hwrites.payloads hstep]
    exact ⟨pre, e, rest, rfl, hwrites, fun t ht p hp => hnone t ht ⟨p, hp⟩⟩
  · obtain ⟨-, -, -, -, hs, -⟩ := hrest.of_mem (t := w) (by simp)
    rw [hlast, hw.payloads hs]
    exact ⟨pre ++ e :: pre', w, mid, by simp, hw, fun t ht p hp => hmid t ht ⟨p, hp⟩⟩

/-- **Everybody is handed the latest payload.** In every reachable state, any call of
`OnMessageReceiveAsync` that is made next, by a loop or by a replay, is handed the payload last
written to its message, by `Enqueue` or by a `ChangeMessagePayload` made while the message was in
the buffer; and so is reported by `GetState`, in the buffer and in all dead letter queues. -/
theorem latest_payload (h : RunOf ttl n tr σ) :
    (∀ a σ' evs s caller m payload, step σ a = some (σ', evs) →
      .receiveCalled s caller m payload ∈ evs → LastWritten m.id payload tr) ∧
    (∀ c ∈ σ.queue.getState.buffer, LastWritten c.id c.payload tr) ∧
    ∀ kvp ∈ σ.queue.getState.subscribers, ∀ c ∈ kvp.2.deadLetterQueue,
      LastWritten c.id c.payload tr := by
  refine ⟨?_, ?_, ?_⟩
  · intro a σ' evs s caller m payload hs hcall
    rw [(effect_of_step hs).handed hcall]
    exact lastWritten_of_run h (enqueued_of_called h (effect_of_step hs) hcall)
  · intro c hc
    obtain ⟨m, hm, rfl⟩ := List.mem_map.mp hc
    refine lastWritten_of_run h (m := m) ?_
    rw [(ledger_of_run h).enqueued]
    exact List.mem_append_right _ hm
  · rintro ⟨s, entry⟩ hmem c hc
    obtain ⟨-, rfl⟩ := σ.queue.mem_getState_subscribers.mp hmem
    obtain ⟨m, hm, rfl⟩ := List.mem_map.mp hc
    exact lastWritten_of_run h (addedToDlq_of_run h ((accounted_of_run h s).entries m hm)).1

/-- The theorem at a dead letter that is mended while it is in the buffer as well, and replayed. -/
theorem latest_payload_replayed : ∃ tr σ σ', RunOf 5 0 tr σ ∧
    step σ (.replayFromDlq 7 1) =
      some (σ', [.receiveCalled 7 (.replay 0) ⟨1, 10⟩ (some "mended")]) ∧
    LastWritten 1 (some "mended") tr := by
  have h := runOf_exec 5 0 ([.subscribe 7, .enqueue 1 10 none] ++ deadLetter 7 ++
    [.changeMessagePayload 1 (some "mended")]) (by decide)
  obtain ⟨σ', hstep⟩ : ∃ σ', step (stateOf step (System.init 5 0) ([.subscribe 7,
      .enqueue 1 10 none] ++ deadLetter 7 ++ [.changeMessagePayload 1 (some "mended")]))
        (.replayFromDlq 7 1) =
          some (σ', [.receiveCalled 7 (.replay 0) ⟨1, 10⟩ (some "mended")]) := ⟨_, rfl⟩
  exact ⟨_, _, σ', h, hstep, (latest_payload h).1 _ _ _ _ _ _ _ hstep (List.mem_singleton.mpr rfl)⟩

end Writing

/-! ### Gone from the buffer -/

/-- The `Id` of a message that has left the buffer: nothing in the buffer has it, nor ever will. -/
structure System.Gone (σ : System) (messageId : Guid) : Prop where
  known : messageId ∈ σ.messageIds
  absent : ∀ m ∈ σ.queue.buffer, m.id ≠ messageId

section Gone

variable {ttl : TimeSpan} {n : ℕ} {tr : Trace} {σ σ' : System} {a : Action} {evs : List Event}
  {s : Guid} {m : MessageEnvelope} {messageId : Guid}

/-- **What has been pruned is gone**, in every state from then on. -/
theorem gone_of_run (h : RunOf ttl n tr σ) (hm : m ∈ prunedOf (events tr)) : σ.Gone m.id := by
  have hledger := ledger_of_run h
  refine ⟨idsUsed_of_run h m ?_, fun x hx hid => ?_⟩
  · rw [hledger.enqueued]
    exact List.mem_append_left _ hm
  · have hdistinct := hledger.distinct
    rw [hledger.enqueued, List.map_append] at hdistinct
    exact hdistinct.disjoint (List.mem_map_of_mem hm) (hid ▸ List.mem_map_of_mem hx)

theorem System.Gone.unread (h : σ.Gone m.id) (heff : Effect σ a σ' evs) (hw : σ.WellFormed)
    (hnodup : σ.queue.buffer.Nodup) : .dispatchRead s (some m) ∉ evs := by
  intro hmem
  obtain ⟨-, -, hahead, -⟩ := (heff.cursorStep hw s).of_read (mem_readsOf.mpr hmem) hnodup
  exact h.absent m (List.mem_of_mem_drop hahead) rfl

theorem System.Gone.unreplayed (h : σ.Gone messageId) (heff : Effect σ a σ' evs) (i : ℕ) :
    .replayedFrom s messageId i ∉ evs := by
  intro hmem
  obtain rfl := heff.of_replayedFrom hmem
  cases heff with
  | replayFrom hr =>
    obtain ⟨-, -, -, -, hidx, -⟩ := SubscribableQueue.replayFrom_eq_replayedFrom hr
    obtain ⟨hlt, hid, -⟩ := List.findIdx?_eq_some_iff_getElem.mp hidx
    exact h.absent _ (List.getElem_mem hlt) (by simpa using hid)
  | replayFromRefused _ _ => simp at hmem

/-- A change of the payload is made to no purpose. -/
theorem System.Gone.unchanged {payload : Payload} (h : σ.Gone messageId)
    (hs : step σ (.changeMessagePayload messageId payload) = some (σ', evs)) : σ' = σ := by
  have hout : ¬ ∃ m ∈ σ.queue.buffer, m.id = messageId := fun ⟨m, hm, hid⟩ => h.absent m hm hid
  obtain ⟨hpost, -⟩ := Prod.mk.inj (Option.some.inj hs)
  rw [← hpost, SubscribableQueue.changeMessagePayload_eq, if_neg hout]

/-- **A pass that waits for the lock** has computed its cutoff from a reading of the clock. -/
theorem passes_of_run (h : RunOf ttl n tr σ) :
    ∀ cutoff ∈ σ.passes, ∃ t ∈ tr, ∃ utcNow, t.act = .beginPrune utcNow ∧
      cutoff = utcNow - ttl := by
  refine h.invariant (I := fun tr σ => ∀ cutoff ∈ σ.passes, ∃ t ∈ tr, ∃ utcNow,
    t.act = .beginPrune utcNow ∧ cutoff = utcNow - ttl) (by simp [System.init]) ?_
  intro tr σ a evs σ' hrun hi hs cutoff hcutoff
  have hold (h : cutoff ∈ σ.passes) : ∃ t ∈ tr ++ [⟨σ, a, evs, σ'⟩], ∃ utcNow,
      t.act = .beginPrune utcNow ∧ cutoff = utcNow - ttl := by
    obtain ⟨t, ht, hbegun⟩ := hi cutoff h
    exact ⟨t, List.mem_append_left _ ht, hbegun⟩
  by_cases hbegin : ∃ utcNow, a = .beginPrune utcNow
  · obtain ⟨utcNow, rfl⟩ := hbegin
    simp only [step] at hs
    split at hs
    · rename_i c hc
      obtain ⟨rfl, -⟩ := Prod.mk.inj (Option.some.inj hs)
      rcases List.mem_append.mp hcutoff with hcutoff | hcutoff
      · exact hold hcutoff
      · obtain rfl := List.mem_singleton.mp hcutoff
        refine ⟨_, List.mem_append_right _ (List.mem_singleton.mpr rfl), utcNow, rfl, ?_⟩
        rw [← (options_of_run hrun).1, (SubscribableQueue.cutoff_eq_ok.mp hc).2]
    · obtain ⟨rfl, -⟩ := Prod.mk.inj (Option.some.inj hs)
      exact hold hcutoff
  · refine hold ?_
    cases effect_of_step hs with
    | beginPrune utcNow _ => exact absurd ⟨utcNow, rfl⟩ hbegin
    | prune _ => exact List.mem_of_mem_eraseIdx hcutoff
    | _ => exact hcutoff

/-- **Nothing is pruned before its time**: the pass that does it has read the clock when the message
was older than the `Ttl`. -/
theorem expired_of_pruned (h : RunOf ttl n tr σ) (heff : Effect σ a σ' evs)
    (hm : m ∈ prunedOf evs) :
    ∃ pass utcNow, a = .prune pass ∧ σ.passes[pass]? = some (utcNow - ttl) ∧
      (∃ t ∈ tr, t.act = .beginPrune utcNow) ∧ m.createdAt + ttl < utcNow := by
  obtain ⟨gone, hgone, hin⟩ : ∃ gone, .pruned gone ∈ evs ∧ m ∈ gone := by
    obtain ⟨e, he, hin⟩ := List.mem_flatMap.mp hm
    cases e with
    | pruned gone => exact ⟨gone, he, hin⟩
    | _ => simp at hin
  have hprunes := heff.of_pruned hgone
  cases heff with
  | @prune pass _ hpass =>
    obtain rfl : gone = _ := by simpa using hgone
    obtain ⟨t, ht, utcNow, hact, rfl⟩ := passes_of_run h _ (List.mem_of_getElem? hpass)
    have holder : m.createdAt < utcNow - ttl := by simpa using List.mem_takeWhile_imp hin
    exact ⟨pass, utcNow, rfl, hpass, ⟨t, ht, hact⟩, by linarith⟩
  | _ => simp [Action.prunes] at hprunes

/-- A loop that has not read a message and does not read it does nothing with it. -/
theorem not_tells_of_run (h : Run step σ tr σ') (hne : (σ.loops s).message ≠ some m)
    (hunread : ∀ t ∈ tr, .dispatchRead s (some m) ∉ t.out) :
    ∀ e ∈ events tr, ¬ e.Tells s m := by
  refine (h.invariantOn
    (I := fun tr σ => (∀ e ∈ events tr, ¬ e.Tells s m) ∧ (σ.loops s).message ≠ some m)
    ⟨by simp, hne⟩ ?_ hunread).1
  rintro tr σ a evs σ' - ⟨hsilent, hne⟩ hs hunread
  obtain ⟨hsilent', hread⟩ := ((effect_of_step hs).loopStep s).of_message_ne hne
  refine ⟨fun e he => ?_, fun hm => hunread ?_⟩
  · rw [events_append, events_cons, events_nil, List.append_nil] at he
    rcases List.mem_append.mp he with he | he
    · exact hsilent e he
    · exact hsilent' e he
  · rw [(hread hm).2]
    exact List.mem_singleton.mpr rfl

end Gone

section Pruned

variable {ttl : TimeSpan} {n : ℕ} {pre post : Trace} {t : Transition System Action Event}
  {σ : System} {m : MessageEnvelope}

/-- **A message that has been pruned is gone for good.** Let a pass remove a message, in any run.
The pass has read the clock when more than the `Ttl` had passed since the message was enqueued. From
then on no dispatch loop reads the message; and of the calls made from then on no `ReplayFrom` of it
is accepted, a `ChangeMessagePayload` of it changes nothing, and a `GetState` does not list it in
the buffer. A dispatch loop that does not have the message in hand at that moment does nothing with
it any more; one that has ends this delivery, with `n + 2` more calls of `OnMessageReceiveAsync` and
one of `OnMessageFailedHandlerAsync` at most, and one commit and one dead letter at most. Only
replays of a dead letter queue may hand it over beyond that. -/
theorem pruned_for_good (h : RunOf ttl n (pre ++ t :: post) σ) (hm : m ∈ prunedOf t.out) :
    (∃ pass utcNow, t.act = .prune pass ∧ t.pre.passes[pass]? = some (utcNow - ttl) ∧
      (∃ u ∈ pre, u.act = .beginPrune utcNow) ∧ m.createdAt + ttl < utcNow) ∧
    (∀ u ∈ post, (∀ s, .dispatchRead s (some m) ∉ u.out) ∧
      (∀ s i, .replayedFrom s m.id i ∉ u.out) ∧
      ∀ payload, u.act = .changeMessagePayload m.id payload → u.post = u.pre) ∧
    (∀ c ∈ σ.queue.getState.buffer, c.id ≠ m.id) ∧
    ∀ s, ((t.post.loops s).message ≠ some m → ∀ e ∈ events post, ¬ e.Tells s m) ∧
      (events post).countP (Event.hands s m) ≤ n + 2 ∧
      (events post).countP (Event.asks s m) ≤ 1 ∧
      (committedOf s (events post)).count m + (events post).countP (Event.blocks s m) ≤ 1 ∧
      (addedOf s (events post)).count m ≤ 1 := by
  obtain ⟨hpre, hstep, hpost⟩ := h.cut
  have hbefore : RunOf ttl n (pre ++ [t]) t.post := hpre.snoc hstep
  have hgone {mid : Trace} {τ : System} (hmid : RunOf ttl n (pre ++ t :: mid) τ) :
      τ.Gone m.id := by
    refine gone_of_run hmid ?_
    rw [events_append, events_cons, prunedOf_append, prunedOf_append]
    exact List.mem_append_right _ (List.mem_append_left _ hm)
  have hafter : ∀ u ∈ post, ∃ mid, RunOf ttl n (pre ++ t :: mid) u.pre ∧
      step u.pre u.act = some (u.post, u.out) := by
    intro u hu
    obtain ⟨mid, rest, rfl, hmid, hs, -⟩ := hpost.of_mem hu
    exact ⟨mid, by simpa using hbefore.append hmid, hs⟩
  have hunread : ∀ u ∈ post, ∀ s, .dispatchRead s (some m) ∉ u.out := by
    intro u hu s
    obtain ⟨mid, hmid, hs⟩ := hafter u hu
    exact (hgone hmid).unread (effect_of_step hs) (wellFormed_of_run hmid)
      (ledger_of_run hmid).nodup_buffer
  refine ⟨expired_of_pruned hpre (effect_of_step hstep) hm, fun u hu => ⟨hunread u hu, ?_, ?_⟩,
    ?_, fun s => ⟨fun hne => ?_, ?_⟩⟩
  · intro s i
    obtain ⟨mid, hmid, hs⟩ := hafter u hu
    exact (hgone hmid).unreplayed (effect_of_step hs) i
  · intro payload ha
    obtain ⟨mid, hmid, hs⟩ := hafter u hu
    rw [ha] at hs
    exact (hgone hmid).unchanged hs
  · intro c hc
    obtain ⟨x, hx, rfl⟩ := List.mem_map.mp hc
    exact (hgone h).absent x hx
  · exact not_tells_of_run hpost hne fun u hu => hunread u hu s
  · have hnone : (readsOf s (events post)).count m = 0 := by
      refine List.count_eq_zero.mpr fun hread => ?_
      obtain ⟨u, hu, hmem⟩ := mem_events.mp (mem_readsOf.mp hread)
      exact hunread u hu s hmem
    have hin (w : DispatchPhase → ℕ) := leftFor_le m w (t.post.loops s)
    have hhands := (tally_hands n s m).le_of_cont hbefore hpost
    have hasks := (tally_asks n s m).le_of_cont hbefore hpost
    have hends := (tally_ends n s m).le_of_cont hbefore hpost
    have hdead := (tally_deadLetters n s m).le_of_cont hbefore hpost
    rw [hnone, Nat.mul_zero, Nat.add_zero] at hhands hasks hends hdead
    have hcalls := (hin _).trans (DispatchPhase.callsLeft_le n (t.post.loops s))
    have hfailures := (hin _).trans (DispatchPhase.failuresLeft_le (t.post.loops s))
    have hburied := (hin _).trans (DispatchPhase.notBuried_le (t.post.loops s))
    have hone := hin fun _ => 1
    exact ⟨by omega, by omega, by omega, by omega⟩

/-- The theorem at a message that is pruned while it is being delivered: its loop calls the handler
once more, and dead-letters it. -/
theorem pruned_for_good_in_hand : ∃ pre t post σ, RunOf 5 0 (pre ++ t :: post) σ ∧
    ⟨1, 10⟩ ∈ prunedOf t.out ∧ (t.post.loops 7).message = some ⟨1, 10⟩ ∧
    addedOf 7 (events post) = [⟨1, 10⟩] ∧
    (events post).countP (Event.hands 7 ⟨1, 10⟩) ≤ 0 + 2 := by
  have hpre := runOf_exec 5 0 [.subscribe 7, .enqueue 1 10 none, .dispatch 7, .dispatch 7,
    .dispatch 7, .beginPrune 20] (by decide)
  have hrun := (hpre.snoc (a := .prune 0) rfl).append (run_exec [.received 7 (.ok .nack),
    .dispatch 7, .failedHandled 7 (.ok .retryOnceThenDLQ), .dispatch 7, .received 7 (.ok .ack),
    .dispatch 7, .dispatch 7] (by decide))
  rw [List.append_assoc] at hrun
  have hgone := pruned_for_good (m := ⟨1, 10⟩) hrun (by decide)
  exact ⟨_, _, _, _, hrun, by decide, by decide, by decide, (hgone.2.2.2 7).2.1⟩

end Pruned

end PushDeliveredQueue
