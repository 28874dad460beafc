import PushDeliveredQueue.Delivery
import PushDeliveredQueue.State

/-!
# What is reported of a blocked subscriber

A subscriber whose failure handler has returned `Block` stays at its message. The diagnostics
tell so from two things: `IsBlocked` is the negation of the commit flag of its cursor, which
only `Commit` sets and only an accepted `ReplayFrom` clears
(`PushDeliveredQueue.isCommitted_eq_true_iff`), and `PendingMessageCount` counts the messages
behind the one at the cursor.

So a subscriber blocked at a message is reported as blocked only if it has not committed
anything yet, or not since it was last replayed, and only if the message is not the last one
of the buffer (`PushDeliveredQueue.blocked_reported_iff`).
-/

namespace PushDeliveredQueue

open Transitions

/-! ### The commit flag as a fact of the history -/

/-- A subscriber has committed a message since its last accepted `ReplayFrom`, or at all if it
has not been replayed. -/
def CommittedSinceReplay (s : Guid) (evs : List Event) : Prop :=
  ∃ before m after, evs = before ++ .committed s m :: after ∧
    ∀ id i, .replayedFrom s id i ∉ after

section History

variable {s : Guid} {evs : List Event}

theorem not_committedSinceReplay_nil : ¬ CommittedSinceReplay s [] := by
  rintro ⟨before, m, after, h, -⟩
  simp at h

/-- The last event decides, if it is a commit or a replay of the subscriber; any other one
leaves the matter as it was. -/
theorem committedSinceReplay_snoc (e : Event) :
    CommittedSinceReplay s (evs ++ [e]) ↔
      (∃ m, e = .committed s m) ∨
        CommittedSinceReplay s evs ∧ ∀ id i, e ≠ .replayedFrom s id i := by
  constructor
  · rintro ⟨before, m, after, h, hafter⟩
    rcases List.eq_nil_or_concat' after with rfl | ⟨after, e', rfl⟩
    · obtain ⟨-, he⟩ := List.append_inj' h rfl
      exact Or.inl ⟨m, by simpa using he⟩
    · rw [← List.cons_append, ← List.append_assoc] at h
      obtain ⟨rfl, he⟩ := List.append_inj' h rfl
      obtain rfl : e = e' := by simpa using he
      refine Or.inr ⟨⟨before, m, after, rfl, fun id i hm => ?_⟩, fun id i he => ?_⟩
      · exact hafter id i (List.mem_append_left _ hm)
      · exact hafter id i (by simp [he])
  · rintro (⟨m, rfl⟩ | ⟨⟨before, m, after, rfl, hafter⟩, hne⟩)
    · exact ⟨evs, m, [], rfl, by simp⟩
    · refine ⟨before, m, after ++ [e], by simp, fun id i hm => ?_⟩
      rcases List.mem_append.mp hm with hm | hm
      · exact hafter id i hm
      · exact hne id i (List.mem_singleton.mp hm).symm

/-- Commits and replays write the flag in turn, and the last of them stands. -/
theorem foldl_flag_eq_true_iff :
    evs.foldl (Event.flag s) false = true ↔ CommittedSinceReplay s evs := by
  induction evs using List.reverseRecOn with
  | nil => simp [not_committedSinceReplay_nil]
  | append_singleton evs e ih =>
    rw [List.foldl_append, List.foldl_cons, List.foldl_nil, committedSinceReplay_snoc, ← ih]
    cases e with
    | committed s' m => by_cases hs : s' = s <;> simp [Event.flag, hs]
    | replayedFrom s' id i => by_cases hs : s' = s <;> simp [Event.flag, hs]
    | _ => simp [Event.flag]

theorem CommittedSinceReplay.committedOf_ne_nil (h : CommittedSinceReplay s evs) :
    committedOf s evs ≠ [] := by
  obtain ⟨before, m, after, rfl, -⟩ := h
  exact List.ne_nil_of_mem (mem_committedOf.mpr (by simp : Event.committed s m ∈ _))

end History

section Runs

variable {ttl : TimeSpan} {n : ℕ} {tr : Trace} {σ : System} {s : Guid}

/-- Nothing has been committed for a `Guid` that has not been given out. -/
theorem committedOf_eq_nil_of_absent (h : RunOf ttl n tr σ) (hs : σ.standing s = .absent) :
    committedOf s (events tr) = [] := by
  refine cursorInvariant (I := fun evs v => v.standing = .absent → committedOf s evs = [])
    (fun _ => rfl) ?_ h hs
  intro evs v evs' v' _ _ hstep hi habs
  rw [committedOf_append]
  cases hstep with
  | subscribe _ _ | unsubscribe _ => simp at habs
  | commit hreg _ => simp [hreg] at habs
  | release _ hq | quiet hq => simp [hi habs, hq.committedOf_eq]
  | _ => simpa [committedOf] using hi habs

/-- **The commit flag is set** exactly when the subscriber has committed a message since it was
last replayed. -/
theorem isCommitted_eq_true_iff (h : RunOf ttl n tr σ) :
    (σ.queue.cursors s).isCommitted = true ↔ CommittedSinceReplay s (events tr) := by
  rw [← foldl_flag_eq_true_iff]
  refine Eq.congr_left ?_
  refine h.invariant (I := fun tr σ =>
    (σ.queue.cursors s).isCommitted = (events tr).foldl (Event.flag s) false) rfl ?_
  intro tr σ a evs σ' hrun hi hs
  have heff := effect_of_step hs
  simp only [events_append, events_cons, events_nil, List.append_nil, List.foldl_append]
  rw [← hi]
  by_cases ha : a = .subscribe s
  · subst ha
    cases heff with
    | subscribe hnew _ =>
      -- the new cursor starts with the flag that nobody has written yet
      have habs := (wellFormed_of_run hrun).standing_eq_absent_of_fresh hnew
      have hunset : (σ.queue.cursors s).isCommitted = false := by
        rw [← Bool.not_eq_true, hi, foldl_flag_eq_true_iff]
        exact fun hc => hc.committedOf_ne_nil (committedOf_eq_nil_of_absent hrun habs)
      simp [SubscribableQueue.addSubscriber, hunset]
  · exact heff.isCommitted ha

end Runs

/-! ### What the diagnostics say -/

/-- The diagnostics show a subscriber as blocked: the state of the queue, read in one piece,
can be put over the wire, and there the subscriber is blocked with messages pending, for which
the monitoring page shows its badge. -/
def ReportedBlocked (s : Guid) (utcNow : Guid → DateTime) (q : SubscribableQueue) : Prop :=
  ∃ dto, toExternalDto utcNow q.getState = .ok dto ∧
    ∃ e, (s, e) ∈ dto.subscribers ∧ e.isBlocked = true ∧ e.pendingMessageCount > 0 ∧
      statusBadge e = "Blocked"

/-- The badge says no more than the two fields. -/
theorem statusBadge_eq_blocked {e : SubscriberStateDto} :
    statusBadge e = "Blocked" ↔ e.isBlocked = true ∧ e.pendingMessageCount > 0 := by
  unfold statusBadge
  split_ifs with hb hp hp
  · simp [hb, hp]
  · simp [hp]
  · simp [hb]
  · simp [hb]

/-- What the entry of a registered subscriber comes from. -/
theorem reportedBlocked_iff {s : Guid} {utcNow : Guid → DateTime} {q : SubscribableQueue}
    (hs : s ∈ q.subscribers) :
    ReportedBlocked s utcNow q ↔
      (∀ m ∈ q.buffer, InDateTimeRange (m.createdAt + q.ttl)) ∧
        (q.cursors s).isCommitted = false ∧ (q.cursors s).index + 1 < q.buffer.length := by
  have hrange : (∀ m ∈ q.getState.buffer, InDateTimeRange (m.createdAt + q.getState.ttl)) ↔
      ∀ m ∈ q.buffer, InDateTimeRange (m.createdAt + q.ttl) := by
    simp [SubscribableQueue.getState, SubscribableQueue.copyBuffer,
      SubscribableQueue.copyEnvelope]
  rw [ReportedBlocked, exists_toExternalDto (P := fun subscribers => ∃ e, (s, e) ∈ subscribers ∧
    e.isBlocked = true ∧ e.pendingMessageCount > 0 ∧ statusBadge e = "Blocked"), hrange]
  refine and_congr_right fun _ => ?_
  constructor
  · rintro ⟨e, he, hb, hp, -⟩
    obtain ⟨⟨s', st⟩, hst, heq⟩ := List.mem_map.mp he
    simp only [Prod.mk.injEq] at heq
    obtain ⟨rfl, rfl⟩ := heq
    obtain ⟨-, rfl⟩ := q.mem_getState_subscribers.mp hst
    simp only [toSubscriberStateDto, SubscribableQueue.subscriberState] at hb hp
    exact ⟨by simpa using hb, by omega⟩
  · rintro ⟨hc, hp⟩
    have hentry : (s, q.subscriberState q.buffer.length s) ∈ q.getState.subscribers :=
      q.mem_getState_subscribers.mpr ⟨hs, rfl⟩
    have hb : (toSubscriberStateDto (q.subscriberState q.buffer.length s)).isBlocked = true := by
      simp [toSubscriberStateDto, SubscribableQueue.subscriberState, hc]
    have hpos : (toSubscriberStateDto
        (q.subscriberState q.buffer.length s)).pendingMessageCount > 0 := by
      simp only [toSubscriberStateDto, SubscribableQueue.subscriberState]
      omega
    exact ⟨_, List.mem_map.mpr ⟨_, hentry, rfl⟩, hb, hpos, statusBadge_eq_blocked.mpr ⟨hb, hpos⟩⟩

/-! ### A blocked subscriber -/

/-- The delivery of a message to a subscriber is over: its loop had a message in hand and has
none any more, and no exception has ended it. -/
def Completes (s : Guid) (t : Transition System Action Event) : Prop :=
  (t.pre.loops s).message ≠ none ∧ (t.post.loops s).message = none ∧ t.post.loops s ≠ .faulted

instance (s : Guid) (t : Transition System Action Event) : Decidable (Completes s t) :=
  inferInstanceAs (Decidable (_ ∧ _ ∧ _))

/-- **A subscriber blocked at a message** at the end of a run: its failure handler has returned
`Block` for it, no delivery of the subscriber has been completed since, the subscriber is
registered and the message stands in the buffer at its cursor. -/
structure BlockedAt (s : Guid) (m : MessageEnvelope) (t : Transition System Action Event)
    (post : Trace) (σ : System) : Prop where
  deciding : t.pre.loops s = .deciding m
  returned : t.act = .failedHandled s (.ok .block)
  latest : ∀ u ∈ post, ¬ Completes s u
  registered : s ∈ σ.queue.subscribers
  atCursor : σ.queue.buffer[(σ.queue.cursors s).index.toNat]? = some m

section Main

variable {ttl : TimeSpan} {n : ℕ} {pre post : Trace} {σ : System} {s : Guid}
  {m : MessageEnvelope} {t : Transition System Action Event}

/-- Of distinct messages, the last one is the one at the last position. -/
theorem getLast?_ne_some_iff {α : Type*} {l : List α} (hl : l.Nodup) {i : ℕ} {x : α}
    (h : l[i]? = some x) : l.getLast? ≠ some x ↔ i + 1 < l.length := by
  obtain ⟨hi, rfl⟩ := List.getElem?_eq_some_iff.mp h
  rw [List.getLast?_eq_getElem?, List.getElem?_eq_getElem (by omega), ne_eq, Option.some.injEq,
    hl.getElem_inj_iff]
  omega

/-- **A blocked subscriber is reported as blocked** exactly when the expiry of every message of
the buffer can be computed, the subscriber has not committed anything since it was last
replayed, and the message it is blocked at is not the last one of the buffer. -/
theorem blocked_reported_iff (h : RunOf ttl n (pre ++ t :: post) σ) (hb : BlockedAt s m t post σ)
    (utcNow : Guid → DateTime) :
    ReportedBlocked s utcNow σ.queue ↔
      (∀ m' ∈ σ.queue.buffer, InDateTimeRange (m'.createdAt + ttl)) ∧
        ¬ CommittedSinceReplay s (events (pre ++ t :: post)) ∧
          σ.queue.buffer.getLast? ≠ some m := by
  have hidx := index_nonneg_of_run h s
  have hlast : σ.queue.buffer.getLast? ≠ some m ↔
      (σ.queue.cursors s).index + 1 < σ.queue.buffer.length := by
    rw [getLast?_ne_some_iff (ledger_of_run h).nodup_buffer hb.atCursor]
    omega
  rw [reportedBlocked_iff hb.registered, (options_of_run h).1, ← isCommitted_eq_true_iff h,
    Bool.not_eq_true, hlast]

/-- The next delivery of a message fails, and the failure handler is asked. -/
def failNext : List Action :=
  [.dispatch 7, .dispatch 7, .dispatch 7, .received 7 (.ok .nack), .dispatch 7]

/-- The theorem at a subscriber blocked at the first of two messages, which its loop is
delivering again. -/
theorem blocked_reported_first : ∃ pre t post σ, RunOf 100 0 (pre ++ t :: post) σ ∧
    BlockedAt 7 ⟨1, 10⟩ t post σ ∧ ReportedBlocked 7 (fun _ => 20) σ.queue := by
  have h := (runOf_exec 100 0 ([.subscribe 7, .enqueue 1 10 none, .enqueue 2 11 none] ++ failNext)
    (by decide)).snoc (a := .failedHandled 7 (.ok .block)) rfl
  have hpost := h.append (run_exec [.dispatch 7, .dispatch 7, .dispatch 7] (by decide))
  rw [List.append_assoc] at hpost
  refine ⟨_, _, _, _, hpost, ?hb,
    (blocked_reported_iff hpost ?hb _).mpr ⟨by decide, ?_, by decide⟩⟩
  · exact ⟨rfl, rfl, by decide, by decide, rfl⟩
  · exact fun hc => hc.committedOf_ne_nil (by decide)

/-- **Blocked, and reported as active**: the subscriber has committed a message before the one
it is blocked at. -/
theorem blocked_not_reported : ∃ pre t σ, RunOf 100 0 (pre ++ [t]) σ ∧
    BlockedAt 7 ⟨2, 11⟩ t [] σ ∧ ¬ ReportedBlocked 7 (fun _ => 20) σ.queue := by
  have h := (runOf_exec 100 0 ([.subscribe 7, .enqueue 1 10 none, .enqueue 2 11 none,
    .enqueue 3 12 none, .dispatch 7, .dispatch 7, .dispatch 7, .received 7 (.ok .ack),
    .dispatch 7] ++ failNext) (by decide)).snoc (a := .failedHandled 7 (.ok .block)) rfl
  refine ⟨_, _, _, h, ⟨rfl, rfl, by simp, by decide, rfl⟩, fun hrep => ?_⟩
  obtain ⟨-, hflag, -⟩ := (reportedBlocked_iff (by decide)).mp hrep
  exact absurd hflag (by decide)

end Main

end PushDeliveredQueue
