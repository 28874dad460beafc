import PushDeliveredQueue.Queue

/-!
# Pruning often and pruning seldom

A pass of `PruneExpiredMessages` removes the longest prefix of the buffer that is older than its
cutoff, and moves every registered cursor back by as many messages. Cutoffs grow with the clock,
and new messages go to the other end, so nothing is lost by leaving a pass out: the next one
removes what both would have removed, and moves the cursors as far
(`PushDeliveredQueue.prune_often`). This needs neither that the buffer is sorted nor where in it
the cursors are; it does need that they are not negative, since only a pass that removes something
clamps them.
-/

namespace PushDeliveredQueue

/-! ### Prefixes -/

section Prefixes

variable {α : Type*} {p q : α → Bool}

/-- A longer prefix begins with a shorter one. -/
theorem takeWhile_append_of_imp (h : ∀ x, p x = true → q x = true) (l l' : List α) :
    (l ++ l').takeWhile q = l.takeWhile p ++ (l.dropWhile p ++ l').takeWhile q := by
  have hall : ∀ x ∈ l.takeWhile p, q x = true := fun x hx => h x (List.mem_takeWhile_imp hx)
  rw [← List.takeWhile_append_of_pos hall, ← List.append_assoc, List.takeWhile_append_dropWhile]

/-- What is left of a list by dropping a shorter prefix first. -/
theorem dropWhile_append_of_imp (h : ∀ x, p x = true → q x = true) (l l' : List α) :
    (l.dropWhile p ++ l').dropWhile q = (l ++ l').dropWhile q := by
  have hall : ∀ x ∈ l.takeWhile p, q x = true := fun x hx => h x (List.mem_takeWhile_imp hx)
  rw [← List.dropWhile_append_of_pos hall, ← List.append_assoc, List.takeWhile_append_dropWhile]

end Prefixes

namespace SubscribableQueue

variable {q : SubscribableQueue} {c c₁ c₂ : DateTime}

/-! ### Enqueuing a batch -/

/-- `Enqueue` for each of these messages in turn. -/
def enqueueAll (q : SubscribableQueue) (ms : List (MessageEnvelope × Payload)) :
    SubscribableQueue :=
  ms.foldl (fun q m => q.enqueue m.1.id m.1.createdAt m.2) q

/-- The payload table after a batch. -/
def payloadsAfter (payloads : Guid → Payload) (ms : List (MessageEnvelope × Payload)) :
    Guid → Payload :=
  ms.foldl (fun payloads m => Function.update payloads m.1.id m.2) payloads

theorem enqueueAll_eq (q : SubscribableQueue) (ms : List (MessageEnvelope × Payload)) :
    q.enqueueAll ms =
      { q with
        buffer := q.buffer ++ ms.map (·.1)
        payloads := payloadsAfter q.payloads ms } := by
  induction ms generalizing q with
  | nil => simp [enqueueAll, payloadsAfter]
  | cons m ms ih =>
    have hcons : q.enqueueAll (m :: ms) = (q.enqueue m.1.id m.1.createdAt m.2).enqueueAll ms := rfl
    rw [hcons, ih]
    simp [enqueue, payloadsAfter]

/-! ### One pass -/

/-- No registered cursor is negative. -/
def Nonnegative (q : SubscribableQueue) : Prop := ∀ s ∈ q.subscribers, 0 ≤ (q.cursors s).index

/-- **A pass in one piece**, for cursors that are not negative: the expired prefix goes, and
every registered cursor goes back by its length. -/
theorem pruneExpiredMessages_eq (h : q.Nonnegative) (cutoff : DateTime) :
    q.pruneExpiredMessages cutoff =
      { q with
        buffer := q.buffer.dropWhile (·.createdAt < cutoff)
        cursors := fun s =>
          if s ∈ q.subscribers then
            { q.cursors s with index := max 0 ((q.cursors s).index - (q.expired cutoff).length) }
          else q.cursors s } := by
  have hcursors : (q.pruneExpiredMessages cutoff).cursors = fun s =>
      if s ∈ q.subscribers then
        { q.cursors s with index := max 0 ((q.cursors s).index - (q.expired cutoff).length) }
      else q.cursors s := by
    funext s
    rw [cursors_pruneExpiredMessages]
    by_cases hs : s ∈ q.subscribers
    · by_cases hne : q.expired cutoff = []
      · -- nothing is removed, and the cursor is left alone
        simp [hs, hne, h s hs]
      · simp [hs, hne]
    · simp [hs]
  rw [← hcursors, ← buffer_pruneExpiredMessages]
  simp only [pruneExpiredMessages]
  split <;> rfl

theorem Nonnegative.prune (h : q.Nonnegative) (cutoff : DateTime) :
    (q.pruneExpiredMessages cutoff).Nonnegative := by
  intro s hs
  rw [subscribers_pruneExpiredMessages] at hs
  simp [pruneExpiredMessages_eq h, hs]

theorem Nonnegative.enqueueAll (h : q.Nonnegative) (ms : List (MessageEnvelope × Payload)) :
    (q.enqueueAll ms).Nonnegative := by
  rw [enqueueAll_eq]
  exact h

/-! ### Two passes -/

/-- The messages removed by two passes are those the second one alone would have removed. -/
theorem expired_append_expired (hle : c₁ ≤ c₂) (ms : List (MessageEnvelope × Payload)) :
    (q.enqueueAll ms).expired c₂ =
      q.expired c₁ ++ ((q.pruneExpiredMessages c₁).enqueueAll ms).expired c₂ := by
  have himp : ∀ m : MessageEnvelope, decide (m.createdAt < c₁) = true →
      decide (m.createdAt < c₂) = true := by
    intro m hm
    simp only [decide_eq_true_eq] at hm ⊢
    exact lt_of_lt_of_le hm hle
  simp only [expired, enqueueAll_eq, buffer_pruneExpiredMessages]
  exact takeWhile_append_of_imp himp _ _

/-- Going back twice, down to `0` at most. -/
theorem max_zero_sub_sub {i : ℤ} {m n : ℕ} :
    max 0 (max 0 (i - m) - n) = max 0 (i - (m + n : ℕ)) := by
  omega

/-- **A pass, some messages, and a later pass** do what the messages and the later pass do. -/
theorem pruneExpiredMessages_enqueueAll_pruneExpiredMessages (h : q.Nonnegative) (hle : c₁ ≤ c₂)
    (ms : List (MessageEnvelope × Payload)) :
    ((q.pruneExpiredMessages c₁).enqueueAll ms).pruneExpiredMessages c₂ =
      (q.enqueueAll ms).pruneExpiredMessages c₂ := by
  have hexpired := expired_append_expired (q := q) hle ms
  rw [pruneExpiredMessages_eq ((h.prune c₁).enqueueAll ms),
    pruneExpiredMessages_eq (h.enqueueAll ms), hexpired]
  generalize ((q.pruneExpiredMessages c₁).enqueueAll ms).expired c₂ = later
  simp only [enqueueAll_eq, pruneExpiredMessages_eq h, mk.injEq, true_and, and_true]
  constructor
  · refine dropWhile_append_of_imp (fun m hm => ?_) _ _
    simp only [decide_eq_true_eq] at hm ⊢
    exact lt_of_lt_of_le hm hle
  · funext s
    by_cases hs : s ∈ q.subscribers
    · simp only [if_pos hs, List.length_append, max_zero_sub_sub]
    · simp only [if_neg hs]

end SubscribableQueue

/-- **Pruning often or seldom makes no difference.** A pass, some messages enqueued, and a pass
with a later cutoff leave the queue as the messages and the second pass alone do, and together
they remove the same messages in the same order. So a pass repeated with the same cutoff does
nothing. -/
theorem prune_often {q : SubscribableQueue} (h : q.Nonnegative) {c₁ c₂ : DateTime} (hle : c₁ ≤ c₂)
    (ms : List (MessageEnvelope × Payload)) :
    ((q.pruneExpiredMessages c₁).enqueueAll ms).pruneExpiredMessages c₂ =
        (q.enqueueAll ms).pruneExpiredMessages c₂ ∧
      (q.enqueueAll ms).expired c₂ =
        q.expired c₁ ++ ((q.pruneExpiredMessages c₁).enqueueAll ms).expired c₂ ∧
      (q.pruneExpiredMessages c₁).pruneExpiredMessages c₁ = q.pruneExpiredMessages c₁ := by
  refine ⟨?_, SubscribableQueue.expired_append_expired hle ms, ?_⟩
  · exact SubscribableQueue.pruneExpiredMessages_enqueueAll_pruneExpiredMessages h hle ms
  · exact SubscribableQueue.pruneExpiredMessages_enqueueAll_pruneExpiredMessages h le_rfl []

/-- The theorem at an unsorted buffer, with cursors before, inside and behind what is removed. -/
theorem prune_often_unsorted : ∃ q : SubscribableQueue,
    q.buffer = [⟨1, 3⟩, ⟨2, 1⟩, ⟨3, 7⟩, ⟨4, 2⟩] ∧
    q.subscribers = [7, 8, 9] ∧ (q.expired 5).length = 2 ∧
    ((q.pruneExpiredMessages 5).enqueueAll [(⟨5, 9⟩, none)]).pruneExpiredMessages 8 =
      (q.enqueueAll [(⟨5, 9⟩, none)]).pruneExpiredMessages 8 := by
  refine ⟨{ ttl := 10, retryCount := 1, subscribers := [7, 8, 9]
            buffer := [⟨1, 3⟩, ⟨2, 1⟩, ⟨3, 7⟩, ⟨4, 2⟩]
            cursors := fun s => { index := 3 * (s - 7) } }, rfl, rfl, rfl, ?_⟩
  refine (prune_often (fun s hs => ?_) (by decide) _).1
  simp only [List.mem_cons, List.not_mem_nil, or_false] at hs
  rcases hs with rfl | rfl | rfl <;> decide

end PushDeliveredQueue
