import PushDeliveredQueue.Steps
import Mathlib.Data.List.Nodup
import Mathlib.Data.List.Pairwise

/-!
# The buffer

What is in the buffer, in every reachable state: the messages enqueued and not pruned, in
the order of the lock (`PushDeliveredQueue.Ledger`). Only `Enqueue` and the prune passes
have a say in it (`PushDeliveredQueue.Effect.sameBuffer`), the one adding at the end and
the others removing at the front.

The order of the lock is the order of the `Guid`s handed out and, if the clock does not run
backwards, of the timestamps. That is what makes a pass exact: its loop looks at the head
of the buffer only, and in a buffer sorted by `CreatedAt` the head is the last message to
stay behind (`PushDeliveredQueue.dropWhile_eq_filter`).
-/

namespace PushDeliveredQueue

open Transitions

/-! ### Transitions that leave the buffer alone -/

/-- A transition that neither adds messages nor removes any, and says so. -/
structure SameBuffer (σ σ' : System) (evs : List Event) : Prop where
  buffer : σ'.queue.buffer = σ.queue.buffer
  messageIds : σ'.messageIds = σ.messageIds
  enqueued : enqueuedOf evs = []
  pruned : prunedOf evs = []

section Frames

variable {q q' : SubscribableQueue} {s : Guid} {p p' : DispatchPhase} {σ σ' : System}
  {a : Action} {evs : List Event}

@[simp] theorem enqueuedOf_replayCalls (call : ℕ) (p : ReplayPhase) :
    enqueuedOf (replayCalls q s call p) = [] := by
  cases p <;> rfl

@[simp] theorem prunedOf_replayCalls (call : ℕ) (p : ReplayPhase) :
    prunedOf (replayCalls q s call p) = [] := by
  cases p <;> rfl

/-- A dispatch loop never touches the buffer. -/
theorem LoopEffect.buffer (h : LoopEffect q s p q' p' evs) :
    q'.buffer = q.buffer ∧ enqueuedOf evs = [] ∧ prunedOf evs = [] := by
  cases h
  case addToDlq hs =>
    rw [SubscribableQueue.addToDeadLetterQueue_of_mem hs]
    exact ⟨rfl, rfl, rfl⟩
  case commit hs =>
    rw [SubscribableQueue.commit_of_mem hs]
    exact ⟨rfl, rfl, rfl⟩
  all_goals exact ⟨rfl, rfl, rfl⟩

/-- **Only `Enqueue` and the prune passes change the buffer.** -/
theorem Effect.sameBuffer (h : Effect σ a σ' evs) (henq : ∀ id t p, a ≠ .enqueue id t p)
    (hprune : ∀ n, a ≠ .prune n) : SameBuffer σ σ' evs := by
  cases h with
  | enqueue _ => exact absurd rfl (henq _ _ _)
  | prune _ => exact absurd rfl (hprune _)
  | changeMessagePayload messageId payload => exact ⟨by simp, rfl, rfl, rfl⟩
  | unsubscribe s => exact ⟨by simp, rfl, rfl, rfl⟩
  | dispatch _ hl =>
    obtain ⟨hb, he, hp⟩ := hl.buffer
    exact ⟨hb, rfl, he, hp⟩
  | replayFrom h =>
    obtain ⟨-, -, -, -, -, rfl⟩ := SubscribableQueue.replayFrom_eq_replayedFrom h
    exact ⟨rfl, rfl, rfl, rfl⟩
  | replayFromDlq _ _ | replayAllDlqMessages _ | runScheduled _ =>
    exact ⟨rfl, rfl, enqueuedOf_replayCalls _ _, prunedOf_replayCalls _ _⟩
  | replayAcked _ _ | replayFailed _ _ =>
    exact ⟨rfl, rfl, enqueuedOf_replayCalls _ _, prunedOf_replayCalls _ _⟩
  | _ => exact ⟨rfl, rfl, rfl, rfl⟩

end Frames

/-! ### The history accounts for the buffer -/

/-- **The ledger**: the messages enqueued are those pruned followed by those still there,
and no two of them have the same `Id`. -/
structure Ledger (evs : List Event) (buffer : List MessageEnvelope) : Prop where
  enqueued : enqueuedOf evs = prunedOf evs ++ buffer
  distinct : ((enqueuedOf evs).map (·.id)).Nodup

namespace Ledger

variable {evs : List Event} {buffer : List MessageEnvelope}

theorem nodup (h : Ledger evs buffer) : (enqueuedOf evs).Nodup :=
  List.Nodup.of_map _ h.distinct

theorem nodup_buffer (h : Ledger evs buffer) : buffer.Nodup := by
  have hnodup := h.nodup
  rw [h.enqueued] at hnodup
  exact hnodup.of_append_right

theorem distinct_buffer (h : Ledger evs buffer) : (buffer.map (·.id)).Nodup := by
  have hnodup := h.distinct
  rw [h.enqueued, List.map_append] at hnodup
  exact hnodup.of_append_right

end Ledger

/-- The `Id` of every message enqueued has been handed out. -/
def IdsUsed (evs : List Event) (messageIds : List Guid) : Prop :=
  ∀ m ∈ enqueuedOf evs, m.id ∈ messageIds

/-- **One transition keeps the ledger.** -/
theorem Ledger.of_effect {σ σ' : System} {a : Action} {evs evs' : List Event}
    (h : Effect σ a σ' evs') (hids : IdsUsed evs σ.messageIds)
    (hl : Ledger evs σ.queue.buffer) :
    IdsUsed (evs ++ evs') σ'.messageIds ∧ Ledger (evs ++ evs') σ'.queue.buffer := by
  by_cases henq : ∃ id t p, a = .enqueue id t p
  · obtain ⟨id, t, p, rfl⟩ := henq
    cases h with
    | enqueue hid =>
      have hsnoc : enqueuedOf (evs ++ [Event.enqueued ⟨id, t⟩]) = enqueuedOf evs ++ [⟨id, t⟩] :=
        enqueuedOf_append _ _
      have hpruned : prunedOf (evs ++ [Event.enqueued ⟨id, t⟩]) = prunedOf evs := by
        rw [prunedOf_append]
        exact List.append_nil _
      refine ⟨?_, ?_, ?_⟩
      · intro m hm
        rw [hsnoc, List.mem_append] at hm
        rcases hm with hm | hm
        · exact List.mem_cons_of_mem _ (hids m hm)
        · obtain rfl := List.mem_singleton.mp hm
          exact List.mem_cons_self
      · rw [hsnoc, hpruned, hl.enqueued, List.append_assoc]
        rfl
      · -- the new `Id` has not been handed out before
        rw [hsnoc, List.map_append]
        refine hl.distinct.append (List.nodup_singleton _) ?_
        intro x hx hx'
        obtain ⟨m, hm, rfl⟩ := List.mem_map.mp hx
        have hid' : m.id = id := List.mem_singleton.mp hx'
        exact hid (hid' ▸ hids m hm)
  by_cases hprune : ∃ n, a = .prune n
  · obtain ⟨n, rfl⟩ := hprune
    cases h with
    | @prune _ cutoff hpass =>
      have henq : enqueuedOf (evs ++ [Event.pruned (σ.queue.expired cutoff)]) = enqueuedOf evs := by
        rw [enqueuedOf_append]
        exact List.append_nil _
      have hsnoc : prunedOf (evs ++ [Event.pruned (σ.queue.expired cutoff)]) =
          prunedOf evs ++ σ.queue.expired cutoff := by
        rw [prunedOf_append]
        exact congrArg _ (List.append_nil _)
      refine ⟨?_, ?_, ?_⟩
      · intro m hm
        exact hids m (henq ▸ hm)
      · rw [henq, hsnoc, List.append_assoc, SubscribableQueue.expired_append_buffer, hl.enqueued]
      · rw [henq]
        exact hl.distinct
  · obtain ⟨hb, hm, he, hp⟩ := h.sameBuffer
      (fun id t p ha => henq ⟨id, t, p, ha⟩) (fun n ha => hprune ⟨n, ha⟩)
    have henq' : enqueuedOf (evs ++ evs') = enqueuedOf evs := by simp [he]
    refine ⟨?_, ?_, ?_⟩
    · rw [hm, IdsUsed, henq']
      exact hids
    · rw [henq', prunedOf_append, hp, List.append_nil, hb, hl.enqueued]
    · rw [henq']
      exact hl.distinct

/-- The ledger balances in every reachable state, and its `Id`s have been handed out. -/
theorem idsUsed_ledger_of_run {ttl : TimeSpan} {n : ℕ} {tr : Trace} {σ : System}
    (h : RunOf ttl n tr σ) :
    IdsUsed (events tr) σ.messageIds ∧ Ledger (events tr) σ.queue.buffer := by
  refine h.invariant
    (I := fun tr σ => IdsUsed (events tr) σ.messageIds ∧ Ledger (events tr) σ.queue.buffer)
    ⟨?_, rfl, List.nodup_nil⟩ ?_
  · intro m hm
    simp [enqueuedOf] at hm
  · rintro tr σ a evs σ' - ⟨hids, hl⟩ hstep
    simpa using Ledger.of_effect (effect_of_step hstep) hids hl

theorem idsUsed_of_run {ttl : TimeSpan} {n : ℕ} {tr : Trace} {σ : System}
    (h : RunOf ttl n tr σ) : IdsUsed (events tr) σ.messageIds :=
  (idsUsed_ledger_of_run h).1

/-- **The ledger balances in every reachable state.** -/
theorem ledger_of_run {ttl : TimeSpan} {n : ℕ} {tr : Trace} {σ : System}
    (h : RunOf ttl n tr σ) : Ledger (events tr) σ.queue.buffer :=
  (idsUsed_ledger_of_run h).2

/-! ### The clock, and what a pass removes -/

/-- The clock readings of a run, in the order they were taken: one under the lock in every
`Enqueue`, one at the start of every prune pass. -/
def clockReadings (tr : Trace) : List DateTime :=
  tr.filterMap fun t =>
    match t.act with
    | .enqueue _ utcNow _ => some utcNow
    | .beginPrune utcNow => some utcNow
    | _ => none

theorem clockReadings_append (tr tr' : Trace) :
    clockReadings (tr ++ tr') = clockReadings tr ++ clockReadings tr' :=
  List.filterMap_append

/-- A message is stamped with a reading of the clock, and the stamps are in the order of
the readings. -/
theorem createdAt_sublist_of_run {ttl : TimeSpan} {n : ℕ} {tr : Trace} {σ : System}
    (h : RunOf ttl n tr σ) :
    ((enqueuedOf (events tr)).map (·.createdAt)).Sublist (clockReadings tr) := by
  refine h.invariant (I := fun tr _ =>
    ((enqueuedOf (events tr)).map (·.createdAt)).Sublist (clockReadings tr))
    (List.nil_sublist _) ?_
  intro tr σ a evs σ' _ hsub hstep
  rw [events_append, enqueuedOf_append, List.map_append, clockReadings_append]
  refine hsub.append ?_
  by_cases henq : ∃ id t p, a = .enqueue id t p
  · obtain ⟨id, t, p, rfl⟩ := henq
    cases effect_of_step hstep with
    | enqueue _ => exact List.Sublist.refl _
  by_cases hprune : ∃ n, a = .prune n
  · obtain ⟨n, rfl⟩ := hprune
    cases effect_of_step hstep with
    | prune _ => exact List.nil_sublist _
  · have hsame := (effect_of_step hstep).sameBuffer
      (fun id t p ha => henq ⟨id, t, p, ha⟩) (fun n ha => hprune ⟨n, ha⟩)
    simp [hsame.enqueued]

/-- In a list along which a property can only be lost, dropping the longest prefix that has
it drops everything that has it. -/
theorem dropWhile_eq_filter {α : Type*} {P : α → Bool} {l : List α}
    (h : l.Pairwise fun x y => P y = true → P x = true) :
    l.dropWhile P = l.filter fun x => !P x := by
  induction l with
  | nil => rfl
  | cons a l ih =>
    obtain ⟨ha, hl⟩ := List.pairwise_cons.mp h
    cases hp : P a with
    | true =>
      rw [List.dropWhile_cons_of_pos hp, ih hl]
      simp [hp]
    | false =>
      rw [List.dropWhile_cons_of_neg (by simp [hp]), eq_comm, List.filter_eq_self]
      intro x hx
      rcases List.mem_cons.mp hx with rfl | hx
      · simp [hp]
      · have := mt (ha x hx)
        simpa [hp] using this

/-- In such a list the longest prefix that has it is everything that has it. -/
theorem takeWhile_eq_filter {α : Type*} {P : α → Bool} {l : List α}
    (h : l.Pairwise fun x y => P y = true → P x = true) : l.takeWhile P = l.filter P := by
  have hsplit : (l.takeWhile P ++ l.dropWhile P).filter P = l.filter P := by
    rw [List.takeWhile_append_dropWhile]
  have htake : (l.takeWhile P).filter P = l.takeWhile P :=
    List.filter_eq_self.mpr fun x hx => List.mem_takeWhile_imp hx
  have hdrop : (l.dropWhile P).filter P = [] := by
    simp [dropWhile_eq_filter h, List.filter_filter]
  rw [← hsplit, List.filter_append, htake, hdrop, List.append_nil]

section Exactness

variable {ttl : TimeSpan} {n : ℕ} {tr : Trace} {σ : System}

/-- While the clock does not run backwards, the buffer is sorted by `CreatedAt`. -/
theorem sorted_buffer_of_run (h : RunOf ttl n tr σ) (hclock : (clockReadings tr).Pairwise (· ≤ ·)) :
    σ.queue.buffer.Pairwise (fun m m' => m.createdAt ≤ m'.createdAt) := by
  have hall : (enqueuedOf (events tr)).Pairwise (fun m m' => m.createdAt ≤ m'.createdAt) :=
    List.pairwise_map.mp (hclock.sublist (createdAt_sublist_of_run h))
  rw [(ledger_of_run h).enqueued] at hall
  exact (List.pairwise_append.mp hall).2.1

/-- A pass over a buffer sorted by `CreatedAt` leaves exactly what has not expired. -/
theorem SubscribableQueue.buffer_pruneExpiredMessages_of_sorted {q : SubscribableQueue}
    (hsorted : q.buffer.Pairwise (fun m m' => m.createdAt ≤ m'.createdAt)) (cutoff : DateTime) :
    (q.pruneExpiredMessages cutoff).buffer = q.buffer.filter (fun m => ¬ m.createdAt < cutoff) := by
  rw [buffer_pruneExpiredMessages, dropWhile_eq_filter]
  · refine List.filter_congr fun m _ => ?_
    rw [decide_not]
  · refine hsorted.imp ?_
    intro m m' hle hlt
    simp only [decide_eq_true_eq] at hlt ⊢
    exact lt_of_le_of_lt hle hlt

/-- **Contents and expiry.** If the clock does not run backwards, then in every reachable
state the messages enqueued, in lock order, are those pruned followed by those in the
buffer; the `Id`s of the buffer are distinct and its timestamps sorted; and every prune
pass of the run, whenever it computed its cutoff and whatever the `Ttl`, left exactly the
messages it found that are not older than its cutoff. -/
theorem buffer_exact (h : RunOf ttl n tr σ) (hclock : (clockReadings tr).Pairwise (· ≤ ·)) :
    enqueuedOf (events tr) = prunedOf (events tr) ++ σ.queue.buffer ∧
      (σ.queue.buffer.map (·.id)).Nodup ∧
      σ.queue.buffer.Pairwise (fun m m' => m.createdAt ≤ m'.createdAt) ∧
      ∀ t ∈ tr, ∀ pass cutoff, t.act = .prune pass → t.pre.passes[pass]? = some cutoff →
        t.post.queue.buffer = t.pre.queue.buffer.filter (fun m => ¬ m.createdAt < cutoff) := by
  refine ⟨(ledger_of_run h).enqueued, (ledger_of_run h).distinct_buffer,
    sorted_buffer_of_run h hclock, ?_⟩
  intro t ht pass cutoff hact hpass
  obtain ⟨pre, post, rfl, hpre, hstep, -⟩ := h.of_mem ht
  have hsorted : t.pre.queue.buffer.Pairwise (fun m m' => m.createdAt ≤ m'.createdAt) := by
    refine sorted_buffer_of_run hpre (hclock.sublist ?_)
    rw [clockReadings_append]
    exact List.sublist_append_left _ _
  have heff := effect_of_step hstep
  rw [hact] at heff
  generalize t.post = σ', t.out = evs at heff
  cases heff with
  | prune hpass' =>
    obtain rfl := Option.some.inj (hpass.symm.trans hpass')
    exact SubscribableQueue.buffer_pruneExpiredMessages_of_sorted hsorted _

/-- The theorem at a run in which one message of two expires, the second having arrived
after the pass computed its cutoff. -/
theorem buffer_exact_expiring : ∃ tr σ, RunOf 5 0 tr σ ∧ σ.queue.buffer = [⟨2, 20⟩] ∧
    enqueuedOf (events tr) = prunedOf (events tr) ++ σ.queue.buffer ∧
    (σ.queue.buffer.map (·.id)).Nodup := by
  have hrun := runOf_exec 5 0
    [.enqueue 1 10 (some "a"), .beginPrune 20, .enqueue 2 20 none, .prune 0] (by decide)
  have hexact := buffer_exact hrun (by decide)
  exact ⟨_, _, hrun, by decide, hexact.1, hexact.2.1⟩

end Exactness

end PushDeliveredQueue
