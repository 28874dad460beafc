import PushDeliveredQueue.Order
import Mathlib.Data.Finset.Basic
import Mathlib.Data.Fintype.EquivFin

/-!
# Where a replay starts

A `ReplayFrom` that passes its guards sets the cursor to the message asked for. Whether that
is the message the dispatch loop reads next depends on something none of the guards looks at:
whether the loop is in the middle of a delivery (`PushDeliveredQueue.replay_starts_iff`).

* If it is not, nothing moves the cursor until the loop reads, and it reads that message.
* If it is, the commit that ends the delivery increments the index the replay has just set.
  From any point of the delivery the loop can get there
  (`PushDeliveredQueue.leads_committing`), and the message read next is then the one after.
* If it is but the subscriber has been cancelled, the loop stops when the delivery ends, and
  reads nothing at all.
-/

namespace PushDeliveredQueue

open Transitions

/-- Whether an action is a prune pass taking the lock. -/
def Action.prunes : Action → Bool
  | .prune _ => true
  | _ => false

/-- A stretch of a run in which no prune pass and no `ReplayFrom` of a subscriber occurs. -/
def NoPruneNoReplay (s : Guid) (cont : Trace) : Prop :=
  ∀ t ∈ cont, t.act.prunes = false ∧ t.act.replays s = false

theorem NoPruneNoReplay.append {s : Guid} {cont cont' : Trace} (h : NoPruneNoReplay s cont)
    (h' : NoPruneNoReplay s cont') : NoPruneNoReplay s (cont ++ cont') := by
  intro t ht
  rcases List.mem_append.mp ht with ht | ht
  · exact h t ht
  · exact h' t ht

/-- **The replay starts at a message**: in every continuation in which no prune pass and no
further `ReplayFrom` occurs, the next message the subscriber's loop reads, if it reads one, is
this one. -/
def StartsAt (s : Guid) (σ : System) (m : MessageEnvelope) : Prop :=
  ∀ cont σ', Run step σ cont σ' → NoPruneNoReplay s cont →
    ∀ m', (readsOf s (events cont)).head? = some m' → m' = m

/-! ### Between two deliveries -/

section Idle

variable {σ σ' : System} {a : Action} {s : Guid} {m : MessageEnvelope} {i : ℕ}
  {evs evs' : List Event} {v v' : CursorView}

/-- A cursor that waits at a message, its subscriber being delivered nothing. -/
structure WaitsAt (v : CursorView) (m : MessageEnvelope) : Prop where
  standing : v.standing ≠ .absent
  delivering : v.delivering = none
  index_nonneg : 0 ≤ v.index
  message : v.buffer[v.index.toNat]? = some m

/-- **A waiting cursor** stays where it is until the message is read. -/
theorem WaitsAt.step (h : WaitsAt v m) (hs : CursorStep s v evs v')
    (hprune : ∀ gone, .pruned gone ∉ evs) (hreplay : ∀ id i, .replayedFrom s id i ∉ evs) :
    WaitsAt v' m ∧ readsOf s evs = [] ∨ readsOf s evs = [m] := by
  obtain ⟨hst, hd, h0, hm⟩ := h
  cases hs with
  | enqueue x =>
    refine Or.inl ⟨⟨hst, hd, h0, ?_⟩, rfl⟩
    rw [List.getElem?_append_left (List.getElem?_eq_some_iff.mp hm).1, hm]
  | prune _ => exact absurd (List.mem_singleton.mpr rfl) (hprune _)
  | subscribe habs _ => exact absurd habs hst
  | unsubscribe _ => exact Or.inl ⟨⟨by simp, hd, h0, hm⟩, rfl⟩
  | replayFrom _ _ _ _ => exact absurd (List.mem_singleton.mpr rfl) (hreplay _ _)
  | readNothing _ _ _ => exact Or.inl ⟨⟨hst, hd, h0, hm⟩, by simp [readsOf]⟩
  | read _ _ _ hm' =>
    obtain rfl := Option.some.inj (hm.symm.trans hm')
    exact Or.inr (by simp [readsOf])
  | commit _ hd' | commitMissed _ hd' | release hd' _ =>
    exact absurd (hd.symm.trans hd') (by simp)
  | quiet hq => exact Or.inl ⟨⟨hst, hd, h0, hm⟩, hq.readsOf_eq⟩

/-- Only a prune pass removes messages. -/
theorem Effect.of_pruned {gone : List MessageEnvelope} (h : Effect σ a σ' evs)
    (hmem : .pruned gone ∈ evs) : a.prunes = true := by
  have hcalls : ∀ q s' call p, Event.pruned gone ∉ replayCalls q s' call p := by
    intro q s' call p
    cases p <;> simp [replayCalls]
  cases h with
  | prune _ => rfl
  | dispatch _ hl => cases hl <;> simp at hmem
  | replayFromDlq _ _ | replayAllDlqMessages _ | runScheduled _ =>
    exact absurd hmem (hcalls _ _ _ _)
  | replayAcked _ _ | replayFailed _ _ =>
    exact absurd (List.mem_of_ne_of_mem (by simp) hmem) (hcalls _ _ _ _)
  | _ => simp at hmem

/-- A loop whose cursor waits at a message reads that message first. -/
theorem startsAt_of_waitsAt (hw : σ.WellFormed) (h : WaitsAt (σ.cursorView s) m) :
    StartsAt s σ m := by
  intro cont σ' hrun hcont
  have hmain : σ'.WellFormed ∧ (WaitsAt (σ'.cursorView s) m ∧ readsOf s (events cont) = [] ∨
      (readsOf s (events cont)).head? = some m) := by
    refine hrun.invariantOn (I := fun tr σ => σ.WellFormed ∧
      (WaitsAt (σ.cursorView s) m ∧ readsOf s (events tr) = [] ∨
        (readsOf s (events tr)).head? = some m)) ⟨hw, Or.inl ⟨h, rfl⟩⟩ ?_ hcont
    rintro tr σ a evs σ' - ⟨hw, hi⟩ hstep ⟨hnp, hnr⟩
    have heff := effect_of_step hstep
    have hprune : ∀ gone, .pruned gone ∉ evs := fun gone hmem =>
      absurd (hnp.symm.trans (heff.of_pruned hmem)) (by simp)
    have hreplay : ∀ id i, .replayedFrom s id i ∉ evs := by
      intro id i hmem
      have hact : a = .replayFrom s id := heff.of_replayedFrom hmem
      simp [hact, Action.replays] at hnr
    refine ⟨hw.of_effect heff, ?_⟩
    rw [events_append, readsOf_append, events_cons, events_nil, List.append_nil]
    rcases hi with ⟨hwait, hnil⟩ | hhead
    · rw [hnil, List.nil_append]
      rcases hwait.step (heff.cursorStep hw s) hprune hreplay with ⟨hwait', hnil'⟩ | hread
      · exact Or.inl ⟨hwait', hnil'⟩
      · exact Or.inr (by rw [hread, List.head?_cons])
    · refine Or.inr ?_
      rw [List.head?_append, hhead, Option.some_or]
  intro m' hm'
  rcases hmain.2 with ⟨-, hnil⟩ | hhead
  · simp [hnil] at hm'
  · exact Option.some.inj (hm'.symm.trans hhead)

end Idle

/-! ### A cancelled delivery -/

section Cancelled

variable {σ σ' : System} {a : Action} {s : Guid} {m : MessageEnvelope} {evs : List Event}

/-- A cancelled loop that is not just about to read. -/
structure System.Stopping (σ : System) (s : Guid) : Prop where
  known : s ∈ σ.subscriberIds
  cancelled : (σ.queue.cancellation s).isCancellationRequested = true
  loop : σ.loops s ≠ .reading

/-- **A cancelled loop reads nothing more** once it is past its read. -/
theorem System.Stopping.step (h : σ.Stopping s) (heff : Effect σ a σ' evs) :
    σ'.Stopping s ∧ readsOf s evs = [] := by
  obtain ⟨hids, hc, hl⟩ := h
  obtain ⟨hids', hc'⟩ := heff.cancelled hids hc
  suffices hstop : σ'.loops s ≠ .reading ∧ ∀ next, .dispatchRead s next ∉ evs by
    refine ⟨⟨hids', hc', hstop.1⟩, List.eq_nil_iff_forall_not_mem.mpr fun m hm => ?_⟩
    exact hstop.2 _ (mem_readsOf.mp hm)
  cases heff.loopStep s with
  | stays _ hl' hquiet => exact ⟨hl' ▸ hl, fun next hmem => hquiet _ hmem rfl⟩
  | starts hs _ => exact absurd hids hs
  | dispatch hle =>
    generalize σ.loops s = p, σ'.loops s = p', σ'.queue = q' at hl hle
    cases hle with
    | checkPasses _ hc' => exact absurd (hc.symm.trans hc') (by simp)
    | readThrows _ | readNothing _ | read _ _ => exact absurd rfl hl
    | attemptThrows _ => exact ⟨afterAttempt_ne rfl _ _ _ _, by simp⟩
    | _ => exact ⟨by simp, by simp⟩
  | received _ h' => exact ⟨h' ▸ afterAttempt_ne rfl _ _ _ _, by simp⟩
  | retried _ h' => exact ⟨h' ▸ afterManualRetry_ne rfl (by simp) _ _ _, by simp⟩
  | failedHandled _ h' =>
    exact ⟨h' ▸ afterFailedHandler_ne rfl (by simp) (by simp) _ _, by simp⟩

theorem System.Stopping.reads_nil (h : σ.Stopping s) {cont : Trace}
    (hrun : Run PushDeliveredQueue.step σ cont σ') : readsOf s (events cont) = [] := by
  have hmain : σ'.Stopping s ∧ readsOf s (events cont) = [] := by
    refine hrun.invariant (I := fun tr σ => σ.Stopping s ∧ readsOf s (events tr) = []) ?_ ?_
    · exact ⟨h, rfl⟩
    · rintro tr σ a evs σ' - ⟨hst, hnil⟩ hstep
      obtain ⟨hst', hnil'⟩ := hst.step (effect_of_step hstep)
      exact ⟨hst', by simp [hnil, hnil']⟩
  exact hmain.2

theorem startsAt_of_stopping (h : σ.Stopping s) : StartsAt s σ m := by
  intro cont σ' hrun _ m' hm'
  simp [h.reads_nil hrun] at hm'

end Cancelled

/-! ### A delivery that ends in a commit -/

/-- One state leads to another by steps that neither prune nor replay, and without the loop
reading anything. -/
def Leads (s : Guid) (σ σ' : System) : Prop :=
  ∃ cont, Run step σ cont σ' ∧ NoPruneNoReplay s cont ∧ readsOf s (events cont) = []

section Leads

variable {σ σ' σ'' : System} {a : Action} {s : Guid} {d : MessageEnvelope} {evs : List Event}
  {q : SubscribableQueue} {p : DispatchPhase}

theorem Leads.trans (h : Leads s σ σ') (h' : Leads s σ' σ'') : Leads s σ σ'' := by
  obtain ⟨cont, hrun, hquiet, hnil⟩ := h
  obtain ⟨cont', hrun', hquiet', hnil'⟩ := h'
  exact ⟨cont ++ cont', hrun.append hrun', hquiet.append hquiet', by simp [hnil, hnil']⟩

theorem Leads.single (a : Action) (h : step σ a = some (σ', evs)) (hp : a.prunes = false)
    (hr : a.replays s = false) (hnil : readsOf s evs = []) : Leads s σ σ' :=
  ⟨_, Run.single h, by simp [NoPruneNoReplay, hp, hr], by simpa using hnil⟩

theorem Leads.dispatch (evs : List Event)
    (h : dispatchStep σ.queue s (σ.loops s) = some (q, p, evs))
    (hnil : readsOf s evs = []) : Leads s σ (σ.moveLoop s q p) := by
  refine Leads.single (.dispatch s) ?_ rfl rfl hnil
  simp only [step, h]

theorem Leads.received (r : ReceiveResult) (evs : List Event)
    (h : PushDeliveredQueue.received s σ.queue.retryCount (σ.loops s) r = some (p, evs))
    (hnil : readsOf s evs = []) : Leads s σ (σ.moveLoop s σ.queue p) := by
  refine Leads.single (.received s r) ?_ rfl rfl hnil
  simp only [step, h]

theorem Leads.failedHandled (r : FailedResult) (evs : List Event)
    (h : PushDeliveredQueue.failedHandled s (σ.loops s) r = some (p, evs))
    (hnil : readsOf s evs = []) : Leads s σ (σ.moveLoop s σ.queue p) := by
  refine Leads.single (.failedHandled s r) ?_ rfl rfl hnil
  simp only [step, h]

theorem System.moveLoop_moveLoop (q' : SubscribableQueue) (p' : DispatchPhase) :
    (σ.moveLoop s q p).moveLoop s q' p' = σ.moveLoop s q' p' := by
  simp [System.moveLoop]

theorem leads_committing_of_receiving (σ : System) {k : ℕ} (hl : σ.loops s = .receiving d k) :
    Leads s σ (σ.moveLoop s σ.queue (.committing d)) := by
  refine Leads.received (.ok .ack) [.receiveReturned s .dispatch d (.ok .ack)] ?_ rfl
  simp [PushDeliveredQueue.received, hl, afterAttempt]

theorem leads_committing_of_deciding (σ : System) (hl : σ.loops s = .deciding d) :
    Leads s σ (σ.moveLoop s σ.queue (.committing d)) := by
  refine Leads.failedHandled (.ok .commit) [.failedReturned s .dispatch d (.ok .commit)] ?_ rfl
  simp [PushDeliveredQueue.failedHandled, hl, afterFailedHandler]

theorem leads_committing_of_deadLettering (σ : System) (hl : σ.loops s = .deadLettering d) :
    Leads s σ (σ.moveLoop s (σ.queue.addToDeadLetterQueue s d) (.committing d)) := by
  refine Leads.dispatch (if s ∈ σ.queue.subscribers then [.addedToDlq s d] else []) ?_ ?_
  · simp [dispatchStep, hl]
  · split_ifs <;> rfl

theorem leads_committing_of_retrying (σ : System) {b : Bool} (hl : σ.loops s = .retrying d b) :
    Leads s σ (σ.moveLoop s σ.queue (.committing d)) ∨
      Leads s σ (σ.moveLoop s (σ.queue.addToDeadLetterQueue s d) (.committing d)) := by
  have hret : Leads s σ (σ.moveLoop s σ.queue (afterManualRetry d b (.ok .ack))) := by
    refine Leads.received (.ok .ack) [.receiveReturned s .manualRetry d (.ok .ack)] ?_ rfl
    simp [PushDeliveredQueue.received, hl]
  cases b with
  | false => exact Or.inl hret
  | true =>
    have hdl := leads_committing_of_deadLettering
      (σ.moveLoop s σ.queue (.deadLettering d)) (System.loops_moveLoop_self _ _)
    rw [System.moveLoop_moveLoop] at hdl
    exact Or.inr (hret.trans hdl)

/-- **From any point of a delivery its commit can be reached**, if the subscriber still takes
part. -/
theorem leads_committing (hw : σ.WellFormed) (hact : σ.Active s)
    (hd : (σ.loops s).message = some d) :
    Leads s σ (σ.moveLoop s σ.queue (.committing d)) ∨
      Leads s σ (σ.moveLoop s (σ.queue.addToDeadLetterQueue s d) (.committing d)) := by
  have hdis : (σ.queue.cursors s).cancellation.disposed = false := hw.disposed_eq_false hact
  have hcts : σ.queue.cts.disposed = false := by
    by_contra hcon
    have hl : σ.loops s ≠ .notStarted := fun hl => by simp [hl, DispatchPhase.message] at hd
    have := hw.queue_disposed (by simpa using hcon) s hl
    exact absurd (hact.2.symm.trans this) (by simp)
  cases hl : σ.loops s with
  | attempting m k =>
    obtain rfl : m = d := by simpa [hl, DispatchPhase.message] using hd
    have hcall : Leads s σ (σ.moveLoop s σ.queue (.receiving m k)) := by
      refine Leads.dispatch [.receiveCalled s .dispatch m (σ.queue.payloads m.id)] ?_ rfl
      simp [dispatchStep, hl, CancellationTokenSource.token, hdis]
    have hret := leads_committing_of_receiving (σ.moveLoop s σ.queue (.receiving m k))
      (System.loops_moveLoop_self _ _)
    rw [System.moveLoop_moveLoop] at hret
    exact Or.inl (hcall.trans hret)
  | receiving m k =>
    obtain rfl : m = d := by simpa [hl, DispatchPhase.message] using hd
    exact Or.inl (leads_committing_of_receiving σ hl)
  | failed m e =>
    obtain rfl : m = d := by simpa [hl, DispatchPhase.message] using hd
    have hcall : Leads s σ (σ.moveLoop s σ.queue (.deciding m)) := by
      refine Leads.dispatch [.failedCalled s .dispatch m e] ?_ rfl
      simp [dispatchStep, hl, CancellationTokenSource.token, hcts]
    have hret := leads_committing_of_deciding (σ.moveLoop s σ.queue (.deciding m))
      (System.loops_moveLoop_self _ _)
    rw [System.moveLoop_moveLoop] at hret
    exact Or.inl (hcall.trans hret)
  | deciding m =>
    obtain rfl : m = d := by simpa [hl, DispatchPhase.message] using hd
    exact Or.inl (leads_committing_of_deciding σ hl)
  | manualRetry m b =>
    obtain rfl : m = d := by simpa [hl, DispatchPhase.message] using hd
    have hcall : Leads s σ (σ.moveLoop s σ.queue (.retrying m b)) := by
      refine Leads.dispatch [.receiveCalled s .manualRetry m (σ.queue.payloads m.id)] ?_ rfl
      simp [dispatchStep, hl, CancellationTokenSource.token, hcts]
    have hret := leads_committing_of_retrying (σ.moveLoop s σ.queue (.retrying m b))
      (System.loops_moveLoop_self _ _)
    rw [System.moveLoop_moveLoop, System.moveLoop_moveLoop] at hret
    exact hret.imp hcall.trans hcall.trans
  | retrying m b =>
    obtain rfl : m = d := by simpa [hl, DispatchPhase.message] using hd
    exact leads_committing_of_retrying σ hl
  | deadLettering m =>
    obtain rfl : m = d := by simpa [hl, DispatchPhase.message] using hd
    exact Or.inr (leads_committing_of_deadLettering σ hl)
  | committing m =>
    -- it is there already
    obtain rfl : m = d := by simpa [hl, DispatchPhase.message] using hd
    have hsame : σ.moveLoop s σ.queue (.committing m) = σ := by
      rw [System.moveLoop, ← hl, Function.update_eq_self]
    rw [hsame]
    exact Or.inl ⟨[], Run.nil, by simp [NoPruneNoReplay], rfl⟩
  | notStarted | checking | reading | backoff | ended | faulted =>
    simp [hl, DispatchPhase.message] at hd

/-- The same, with what the commit leaves behind: the buffer as it was, the index one
further and the loop back at its condition. -/
theorem leads_committed (hw : σ.WellFormed) (hact : σ.Active s)
    (hd : (σ.loops s).message = some d) :
    ∃ q, Leads s σ (σ.moveLoop s q .checking) ∧ q.buffer = σ.queue.buffer ∧
      (q.cursors s).index = (σ.queue.cursors s).index + 1 ∧
      q.cancellation s = σ.queue.cancellation s := by
  obtain ⟨q, hleads, hb, hs, hi, hc⟩ : ∃ q, Leads s σ (σ.moveLoop s q (.committing d)) ∧
      q.buffer = σ.queue.buffer ∧ s ∈ q.subscribers ∧
      (q.cursors s).index = (σ.queue.cursors s).index ∧
      q.cancellation s = σ.queue.cancellation s := by
    rcases leads_committing hw hact hd with h | h
    · exact ⟨_, h, rfl, hact.1, rfl, rfl⟩
    · refine ⟨_, h, ?_⟩
      rw [SubscribableQueue.addToDeadLetterQueue_of_mem hact.1]
      exact ⟨rfl, hact.1, by simp, by simp [SubscribableQueue.cancellation]⟩
  have hcommit :
      Leads s (σ.moveLoop s q (.committing d)) (σ.moveLoop s (q.commit s) .checking) := by
    have hloop : (σ.moveLoop s q (.committing d)).loops s = .committing d :=
      System.loops_moveLoop_self _ _
    have hqueue : (σ.moveLoop s q (.committing d)).queue = q := rfl
    have hstep : dispatchStep (σ.moveLoop s q (.committing d)).queue s
        ((σ.moveLoop s q (.committing d)).loops s) =
          some (q.commit s, .checking, [.committed s d]) := by
      rw [hloop, hqueue]
      simp [dispatchStep, hs]
    have hleads' := Leads.dispatch _ hstep rfl
    rwa [System.moveLoop_moveLoop] at hleads'
  refine ⟨q.commit s, hleads.trans hcommit, ?_⟩
  rw [SubscribableQueue.commit_of_mem hs]
  exact ⟨hb, by simp [hi], by simpa [SubscribableQueue.cancellation] using hc⟩

/-- A loop at its condition that has not been cancelled reads what its cursor points at. -/
theorem exists_read (hl : σ.loops s = .checking)
    (hdis : (σ.queue.cancellation s).disposed = false)
    (hcan : (σ.queue.cancellation s).isCancellationRequested = false)
    {m : MessageEnvelope} (h0 : 0 ≤ (σ.queue.cursors s).index)
    (hm : σ.queue.buffer[(σ.queue.cursors s).index.toNat]? = some m) :
    ∃ cont σ', Run step σ cont σ' ∧ NoPruneNoReplay s cont ∧ readsOf s (events cont) = [m] := by
  obtain ⟨cont, hrun, hquiet, hnil⟩ : Leads s σ (σ.moveLoop s σ.queue .reading) := by
    refine Leads.dispatch [] ?_ rfl
    have hc : (σ.queue.cursors s).cancellation.isCancellationRequested = false := hcan
    have hd : (σ.queue.cursors s).cancellation.disposed = false := hdis
    simp [dispatchStep, hl, CancellationTokenSource.token, hd, hc]
  have hlt := (List.getElem?_eq_some_iff.mp hm).1
  have hnext : σ.queue.next (σ.queue.cursors s) = .ok (some m) := by
    rw [SubscribableQueue.next, if_pos (by omega), if_pos h0, hm]
  have hread : step (σ.moveLoop s σ.queue .reading) (.dispatch s) =
      some (σ.moveLoop s σ.queue (.attempting m 0), [.dispatchRead s (some m)]) := by
    have hqueue : (σ.moveLoop s σ.queue .reading).queue = σ.queue := rfl
    simp only [step, System.loops_moveLoop_self, hqueue, dispatchStep, hnext,
      System.moveLoop_moveLoop]
  refine ⟨cont ++ _, _, hrun.append (Run.single hread), hquiet.append ?_, ?_⟩
  · simp [NoPruneNoReplay, Action.prunes, Action.replays]
  · simp [hnil]

end Leads

/-! ### The exact condition -/

section Runs

variable {ttl : TimeSpan} {n : ℕ} {tr : Trace} {σ σ₁ : System} {s messageId : Guid}
  {d m : MessageEnvelope} {i : ℕ}

/-- **A replay in the middle of a delivery is overtaken by its commit**: the loop can get to
read the message after the one asked for. -/
theorem not_startsAt_of_delivering (h : RunOf ttl n tr σ) (hact : σ.Active s)
    (hd : (σ.loops s).message = some d) (hi : (σ.queue.cursors s).index = i)
    (hm : σ.queue.buffer[i]? = some m) : ¬ StartsAt s σ m := by
  intro hstarts
  obtain ⟨q, hleads, hb, hindex, hc⟩ := leads_committed (wellFormed_of_run h) hact hd
  -- a fresh message, so that there is something to read after the one asked for
  obtain ⟨x, hx⟩ := Infinite.exists_notMem_finset σ.messageIds.toFinset
  rw [List.mem_toFinset] at hx
  obtain ⟨σ₁, hσ₁⟩ : ∃ σ₁ : System, σ₁ = {
      σ.moveLoop s q .checking with
        queue := q.enqueue x 0 none
        messageIds := x :: σ.messageIds } := ⟨_, rfl⟩
  have henq : step (σ.moveLoop s q .checking) (.enqueue x 0 none) =
      some (σ₁, [.enqueued ⟨x, 0⟩]) := by
    simp [step, System.moveLoop, hx, hσ₁]
  obtain ⟨cont, hrun, hquiet, hnil⟩ := hleads.trans (Leads.single _ henq rfl rfl rfl)
  have hlt := (List.getElem?_eq_some_iff.mp hm).1
  have hbuffer : σ₁.queue.buffer = σ.queue.buffer ++ [⟨x, 0⟩] := by
    rw [hσ₁, SubscribableQueue.enqueue, hb]
  have hindex₁ : (σ₁.queue.cursors s).index = (i + 1 : ℕ) := by
    rw [hσ₁, SubscribableQueue.enqueue, hindex, hi, Int.natCast_succ]
  have hloop₁ : σ₁.loops s = .checking := by
    simp [hσ₁, System.moveLoop]
  have hcan₁ : σ₁.queue.cancellation s = σ.queue.cancellation s := by
    rw [hσ₁]
    exact hc
  have hdis := (wellFormed_of_run h).disposed_eq_false hact
  obtain ⟨m', hm'⟩ : ∃ m', σ₁.queue.buffer[i + 1]? = some m' := by
    refine ⟨_, List.getElem?_eq_getElem ?_⟩
    rw [hbuffer, List.length_append, List.length_singleton]
    omega
  obtain ⟨cont', σ', hrun', hquiet', hread⟩ := exists_read (m := m') hloop₁ (hcan₁ ▸ hdis)
    (hcan₁ ▸ hact.2) (by rw [hindex₁]; exact Int.natCast_nonneg _)
    (by rw [hindex₁, Int.toNat_natCast, hm'])
  have hne : m' ≠ m := by
    -- the two stand at different places of a buffer without repetitions
    rintro rfl
    have hm₁ : σ₁.queue.buffer[i]? = some m' := by
      rw [hbuffer, List.getElem?_append_left hlt, hm]
    have hnodup := (ledger_of_run (h.append hrun)).nodup_buffer
    have hij := (List.getElem?_inj (List.getElem?_eq_some_iff.mp hm₁).1 hnodup).mp
      (hm₁.trans hm'.symm)
    omega
  exact hne (hstarts _ _ (hrun.append hrun') (hquiet.append hquiet') m' (by simp [hnil, hread]))

/-- The position `ReplayFrom` finds is the one of the message asked for. -/
theorem Ledger.getElem?_of_findIdx? {evs : List Event} {buffer : List MessageEnvelope}
    (h : Ledger evs buffer) (hm : m ∈ buffer) (hidx : buffer.findIdx? (·.id = m.id) = some i) :
    buffer[i]? = some m := by
  obtain ⟨hlt, hid, -⟩ := List.findIdx?_eq_some_iff_getElem.mp hidx
  have hsame : buffer[i] = m :=
    List.inj_on_of_nodup_map h.distinct_buffer (List.getElem_mem hlt) hm (by simpa using hid)
  rw [List.getElem?_eq_getElem hlt, hsame]

/-- What an accepted replay has checked, and what it changes. -/
structure ReplayAccepted (s : Guid) (messageId : Guid) (i : ℕ) (σ σ₁ : System) : Prop where
  registered : s ∈ σ₁.queue.subscribers
  found : σ.queue.buffer.findIdx? (·.id = messageId) = some i
  buffer : σ₁.queue.buffer = σ.queue.buffer
  index : (σ₁.queue.cursors s).index = i
  cancellation : σ₁.queue.cancellation s = σ.queue.cancellation s
  loop : σ₁.loops s = σ.loops s

theorem replayAccepted_of_step
    (hstep : step σ (.replayFrom s messageId) = some (σ₁, [.replayedFrom s messageId i])) :
    ReplayAccepted s messageId i σ σ₁ := by
  have heff := effect_of_step hstep
  generalize hevs : [Event.replayedFrom s messageId i] = evs at heff
  cases heff with
  | replayFrom h =>
    obtain rfl : _ = i := by simpa using hevs.symm
    obtain ⟨hreg, -, -, -, hidx, rfl⟩ := SubscribableQueue.replayFrom_eq_replayedFrom h
    exact ⟨hreg, hidx, rfl, by simp, by simp [SubscribableQueue.cancellation], rfl⟩
  | replayFromRefused => simp at hevs

/-- **Where an accepted replay starts, exactly.** If in a reachable state `ReplayFrom` passes
its guards and sets the cursor to a message of the buffer, then the next message read is that
one, in every continuation without prune passes and further replays, if and only if the
subscriber is not in the middle of a delivery or has been cancelled. -/
theorem replay_starts_iff (h : RunOf ttl n tr σ) (hm : m ∈ σ.queue.buffer)
    (hstep : step σ (.replayFrom s m.id) = some (σ₁, [.replayedFrom s m.id i])) :
    StartsAt s σ₁ m ↔ (σ.loops s).message = none ∨
      (σ.queue.cancellation s).isCancellationRequested = true := by
  have hrun₁ := h.snoc hstep
  have hw₁ := wellFormed_of_run hrun₁
  obtain ⟨hreg, hidx, hbuffer, hindex, hcan, hloop⟩ := replayAccepted_of_step hstep
  have hat : σ₁.queue.buffer[i]? = some m := by
    rw [hbuffer]
    exact (ledger_of_run h).getElem?_of_findIdx? hm hidx
  rw [← hcan, ← hloop]
  constructor
  · intro hstarts
    by_contra hcon
    obtain ⟨hdel, hc⟩ := not_or.mp hcon
    obtain ⟨d, hd⟩ := Option.ne_none_iff_exists'.mp hdel
    exact not_startsAt_of_delivering hrun₁ ⟨hreg, by simpa using hc⟩ hd hindex hat hstarts
  · intro hcond
    rcases hd : (σ₁.loops s).message with _ | d
    · have hstanding : (σ₁.cursorView s).standing = .registered :=
        System.standing_eq_registered.mpr hreg
      have hview : (σ₁.cursorView s).index = i := hindex
      refine startsAt_of_waitsAt hw₁ ⟨by simp [hstanding], hd, by omega, ?_⟩
      rw [hview, Int.toNat_natCast]
      exact hat
    · refine startsAt_of_stopping
        ⟨hw₁.registered_known s hreg, hcond.resolve_left (by simp [hd]), ?_⟩
      intro hreading
      simp [hreading, DispatchPhase.message] at hd

/-- The theorem at a replay of an idle subscriber. -/
theorem replay_starts_idle : ∃ tr σ σ₁, RunOf 100 0 tr σ ∧
    step σ (.replayFrom 7 1) = some (σ₁, [.replayedFrom 7 1 0]) ∧ StartsAt 7 σ₁ ⟨1, 10⟩ := by
  have h := runOf_exec 100 0 [.subscribe 7, .enqueue 1 10 none, .dispatch 7, .dispatch 7,
    .dispatch 7, .received 7 (.ok .ack), .dispatch 7] (by decide)
  exact ⟨_, _, _, h, rfl,
    (replay_starts_iff (m := ⟨1, 10⟩) h (by decide) rfl).mpr (Or.inl (by decide))⟩

/-- **A replay during a delivery loses its first message**: `ReplayFrom` for message `1` is
accepted while message `2` is being delivered, and the next message read is `2` again. -/
theorem replay_skips_target : ∃ tr σ σ₁ cont σ₂, RunOf 100 0 tr σ ∧
    ⟨1, 10⟩ ∈ σ.queue.buffer ∧ step σ (.replayFrom 7 1) = some (σ₁, [.replayedFrom 7 1 0]) ∧
    Run step σ₁ cont σ₂ ∧ NoPruneNoReplay 7 cont ∧ readsOf 7 (events cont) = [⟨2, 11⟩] := by
  have h := runOf_exec 100 0 [.subscribe 7, .enqueue 1 10 none, .enqueue 2 11 none, .dispatch 7,
    .dispatch 7, .dispatch 7, .received 7 (.ok .ack), .dispatch 7, .dispatch 7, .dispatch 7,
    .dispatch 7] (by decide)
  refine ⟨_, _, _, _, _, h, by decide, rfl, run_exec [.received 7 (.ok .ack), .dispatch 7,
    .dispatch 7, .dispatch 7] ?_, ?_, ?_⟩
  · rfl
  · unfold NoPruneNoReplay
    decide
  · rfl

end Runs

end PushDeliveredQueue
