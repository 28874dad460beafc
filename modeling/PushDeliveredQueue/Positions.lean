import Mathlib.Algebra.BigOperators.Group.List.Basic
import PushDeliveredQueue.CatchUp
import PushDeliveredQueue.OffsetLog

/-!
# The queue is a log with many readers

The buffer and all the cursors at once, as a log of which every registered subscriber is a reader:
enqueueing appends, a prune pass trims, `Subscribe` joins, `Unsubscribe` leaves, a `Commit` advances
and an accepted `ReplayFrom` seeks. `PushDeliveredQueue.logOf` is the log of a run. Unlike the
refinement to a first-in, first-out queue, which is about one subscriber and needs that its delivery
is not disturbed, this one holds of every run of `PushDeliveredQueue.step`
(`PushDeliveredQueue.offset_log`), because the log has no notion of what a reader is working on.

Each operation is one transition there. Where a pass gets between the two steps of a `ReplayFrom`,
as in `PushDeliveredQueue.racingStep`, the position it has found is no longer that of its message,
and may be ahead of the cursor.

What is gained are the accounts: the place of a subscriber is where it joined, and the number of its
commits, and the messages pruned before it had got to them, less what replays have wound it back.
-/

namespace PushDeliveredQueue

open Transitions OffsetLog

/-! ### The operations of a run -/

/-- What an action by itself means for the log. -/
def Action.logOp : Action → Option (Op MessageEnvelope Guid)
  | .subscribe s => some (.join s)
  | .unsubscribe s => some (.leave s)
  | _ => none

/-- What an event means for the log. -/
def Event.logOp : Event → Option (Op MessageEnvelope Guid)
  | .enqueued m => some (.append m)
  | .pruned gone => some (.trim gone.length)
  | .replayedFrom s _ i => some (.seek s i)
  | .committed s _ => some (.advance s)
  | .commitMissed .. | .dispatchRead .. | .receiveCalled .. | .receiveReturned ..
  | .failedCalled .. | .failedReturned .. | .addedToDlq .. => none

/-- What a transition means for the log. -/
def logOp (a : Action) (evs : List Event) : Option (Op MessageEnvelope Guid) :=
  a.logOp.or (evs.findSome? Event.logOp)

/-- **The log of a run.** -/
def logOf (tr : Trace) : Log MessageEnvelope Guid :=
  Log.empty.after (tr.filterMap fun t => logOp t.act t.out)

/-- Where a registered subscriber is in the buffer. -/
def SubscribableQueue.offset (q : SubscribableQueue) (s : Guid) : Option ℕ :=
  if s ∈ q.subscribers then some (q.cursors s).index.toNat else none

/-- The messages an event takes a subscriber past without a commit of its own: those of a prune pass
that it had not got to. -/
def Event.skips (index : ℤ) : Event → ℕ
  | .pruned gone => gone.length - index.toNat
  | _ => 0

/-- The messages an event winds a subscriber back by. -/
def Event.rewinds (s : Guid) (index : ℤ) : Event → ℕ
  | .replayedFrom s' _ i => if s' = s then index.toNat - i else 0
  | _ => 0

/-- The messages a transition takes a subscriber past without a commit of its own. -/
def Transition.skips (s : Guid) (t : Transition System Action Event) : ℕ :=
  (t.out.map (Event.skips (t.pre.queue.cursors s).index)).sum

/-- The messages a transition winds a subscriber back by. -/
def Transition.rewinds (s : Guid) (t : Transition System Action Event) : ℕ :=
  (t.out.map (Event.rewinds s (t.pre.queue.cursors s).index)).sum

/-! ### What a transition means -/

/-- Events that mean nothing for the log. -/
def LogSilent (evs : List Event) : Prop := ∀ e ∈ evs, e.logOp = none

section Silence

variable {s : Guid} {evs : List Event} {index : ℤ}

theorem LogSilent.replayCalls (q : SubscribableQueue) (s : Guid) (call : ℕ) (p : ReplayPhase) :
    LogSilent (replayCalls q s call p) := by
  cases p <;> simp [LogSilent, PushDeliveredQueue.replayCalls, Event.logOp]

theorem LogSilent.findSome? (h : LogSilent evs) : evs.findSome? Event.logOp = none :=
  List.findSome?_eq_none_iff.mpr h

theorem LogSilent.committedOf_eq (h : LogSilent evs) : committedOf s evs = [] := by
  rw [committedOf, List.filterMap_eq_nil_iff]
  intro e he
  have hs := h e he
  cases e <;> simp_all [Event.logOp]

/-- Events that mean nothing for the log move nobody in it. -/
theorem LogSilent.sum_eq_zero (h : LogSilent evs) :
    (evs.map (Event.skips index)).sum = 0 ∧ (evs.map (Event.rewinds s index)).sum = 0 := by
  constructor
  all_goals
    refine List.sum_eq_zero fun x hx => ?_
    obtain ⟨e, he, rfl⟩ := List.mem_map.mp hx
    have hs := h e he
    cases e with
    | pruned _ | replayedFrom _ _ _ => simp [Event.logOp] at hs
    | _ => rfl

end Silence

/-- **What a transition does to the buffer and the cursors**, as an operation on the log. -/
inductive LogStep (q : SubscribableQueue) :
    List Event → Option (Op MessageEnvelope Guid) → SubscribableQueue → Prop
  | enqueue {m : MessageEnvelope} {q' : SubscribableQueue} (hb : q'.buffer = q.buffer ++ [m])
      (ho : q'.offset = q.offset) : LogStep q [.enqueued m] (some (.append m)) q'
  | prune {gone : List MessageEnvelope} {q' : SubscribableQueue}
      (hb : q.buffer = gone ++ q'.buffer)
      (ho : q'.offset = fun s => (q.offset s).map (· - gone.length)) :
      LogStep q [.pruned gone] (some (.trim gone.length)) q'
  | subscribe {s : Guid} {q' : SubscribableQueue} (hb : q'.buffer = q.buffer)
      (ho : q'.offset = Function.update q.offset s (some 0)) :
      LogStep q [] (some (.join s)) q'
  | unsubscribe {s : Guid} {q' : SubscribableQueue} (hb : q'.buffer = q.buffer)
      (ho : q'.offset = Function.update q.offset s none) : LogStep q [] (some (.leave s)) q'
  | commit {s : Guid} {m : MessageEnvelope} {q' : SubscribableQueue} (hb : q'.buffer = q.buffer)
      (ho : q'.offset = Function.update q.offset s ((q.offset s).map (· + 1))) :
      LogStep q [.committed s m] (some (.advance s)) q'
  /-- Never forward, in one step: the cursor is at the last message or past it. -/
  | replayFrom {s id : Guid} {i : ℕ} {q' : SubscribableQueue} (hb : q'.buffer = q.buffer)
      (ho : q'.offset = Function.update q.offset s ((q.offset s).map fun _ => i))
      (hi : i ≤ (q.cursors s).index.toNat) :
      LogStep q [.replayedFrom s id i] (some (.seek s i)) q'
  | silent {evs : List Event} {q' : SubscribableQueue} (hevs : LogSilent evs)
      (hb : q'.buffer = q.buffer) (ho : q'.offset = q.offset) : LogStep q evs none q'

section Steps

variable {q q' : SubscribableQueue} {σ σ' : System} {a : Action} {evs : List Event} {s : Guid}

/-- Where everybody is depends on the dictionary and the indices. -/
theorem SubscribableQueue.offset_congr (hs : q'.subscribers = q.subscribers)
    (hi : ∀ s, (q'.cursors s).index = (q.cursors s).index) : q'.offset = q.offset := by
  funext s
  rw [offset, offset, hs, hi]

/-- Writing to the index of a registered subscriber. -/
theorem SubscribableQueue.offset_setCursor (hs : s ∈ q.subscribers) (c : CursorState) :
    (q.setCursor s c).offset = Function.update q.offset s (some c.index.toNat) := by
  funext s'
  rcases eq_or_ne s' s with rfl | hne
  · simp [offset, hs]
  · simp [offset, hne, cursors_setCursor_of_ne q hne]

/-- Writing to a cursor without touching its index. -/
theorem SubscribableQueue.offset_setCursor_same {c : CursorState}
    (hc : c.index = (q.cursors s).index) : (q.setCursor s c).offset = q.offset := by
  refine offset_congr rfl fun s' => ?_
  rcases eq_or_ne s' s with rfl | hne
  · rw [cursors_setCursor_self, hc]
  · rw [cursors_setCursor_of_ne q hne]

theorem SubscribableQueue.offset_pruneExpiredMessages (q : SubscribableQueue)
    (cutoff : DateTime) : (q.pruneExpiredMessages cutoff).offset =
      fun s => (q.offset s).map (· - (q.expired cutoff).length) := by
  funext s
  by_cases hs : s ∈ q.subscribers
  · have hindex : (if s ∈ q.subscribers ∧ q.expired cutoff ≠ [] then
          { q.cursors s with index := max 0 ((q.cursors s).index - (q.expired cutoff).length) }
        else q.cursors s).index.toNat =
        (q.cursors s).index.toNat - (q.expired cutoff).length := by
      by_cases hne : q.expired cutoff = []
      · simp [hne]
      · simp only [hs, hne, ne_eq, not_false_eq_true, and_self, if_true]
        omega
    simp only [offset, subscribers_pruneExpiredMessages, cursors_pruneExpiredMessages, hindex]
    rw [if_pos hs, if_pos hs, Option.map_some]
  · simp [offset, hs]

theorem SubscribableQueue.offset_addSubscriber (q : SubscribableQueue) (s : Guid) :
    (q.addSubscriber s).offset = Function.update q.offset s (some 0) := by
  funext s'
  rcases eq_or_ne s' s with rfl | hne
  · simp [offset, addSubscriber]
  · simp [offset, addSubscriber, hne]

theorem SubscribableQueue.offset_unsubscribe (q : SubscribableQueue) (s : Guid) :
    (q.unsubscribe s).offset = Function.update q.offset s none := by
  funext s'
  rcases eq_or_ne s' s with rfl | hne
  · simp [offset, mem_subscribers_unsubscribe]
  · simp [offset, mem_subscribers_unsubscribe, hne, cursors_unsubscribe_of_ne hne]

theorem SubscribableQueue.offset_dispose (q : SubscribableQueue) :
    q.dispose.offset = q.offset := by
  refine offset_congr rfl fun s => ?_
  obtain ⟨c, hc⟩ := q.cursors_dispose s
  rw [hc]

theorem SubscribableQueue.offset_setDeadLetterQueue (q : SubscribableQueue) (s : Guid)
    (dlq : List MessageEnvelope) : (q.setDeadLetterQueue s dlq).offset = q.offset :=
  offset_setCursor_same rfl

/-- A transition that says nothing of the buffer and the cursors, and does nothing to them. -/
theorem LogStep.of_silent (hevs : LogSilent evs) (ha : a.logOp = none)
    (hb : q'.buffer = q.buffer) (ho : q'.offset = q.offset) :
    LogStep q evs (logOp a evs) q' := by
  rw [logOp, ha, hevs.findSome?]
  exact .silent hevs hb ho

/-- The steps of a dispatch loop. -/
theorem LoopEffect.logStep {p p' : DispatchPhase} (h : LoopEffect q s p q' p' evs)
    (h0 : 0 ≤ (q.cursors s).index) : LogStep q evs (evs.findSome? Event.logOp) q' := by
  have hoffset (hs : s ∈ q.subscribers) : q.offset s = some (q.cursors s).index.toNat :=
    if_pos hs
  cases h with
  | addToDlq hs =>
    rw [SubscribableQueue.addToDeadLetterQueue_of_mem hs]
    exact .silent (by simp [LogSilent, Event.logOp]) rfl
      (SubscribableQueue.offset_setCursor_same rfl)
  | commit hs =>
    rw [SubscribableQueue.commit_of_mem hs]
    refine .commit rfl ?_
    rw [SubscribableQueue.offset_setCursor hs, hoffset hs, Option.map_some, Int.toNat_add h0
      Int.one_nonneg]
    rfl
  | _ => exact .silent (by simp [LogSilent, Event.logOp]) rfl rfl

/-- **Every transition is an operation on the log, or means nothing for it.** -/
theorem Effect.logStep (h : Effect σ a σ' evs) (h0 : ∀ s, 0 ≤ (σ.queue.cursors s).index) :
    LogStep σ.queue evs (logOp a evs) σ'.queue := by
  have hnil : LogSilent [] := by simp [LogSilent]
  have hcalls := LogSilent.replayCalls
  cases h with
  | enqueue _ => exact .enqueue rfl rfl
  | changeMessagePayload messageId payload =>
    exact .of_silent hnil rfl (by simp)
      (SubscribableQueue.offset_congr (by simp) fun s => by simp)
  | @prune pass cutoff _ =>
    exact .prune (σ.queue.expired_append_buffer cutoff).symm
      (σ.queue.offset_pruneExpiredMessages cutoff)
  | @subscribe s _ _ _ => exact .subscribe rfl (σ.queue.offset_addSubscriber s)
  | unsubscribe s => exact .unsubscribe (by simp) (σ.queue.offset_unsubscribe s)
  | dispose => exact .of_silent hnil rfl rfl σ.queue.offset_dispose
  | dispatch _ hl => exact hl.logStep (h0 _)
  | @replayFrom s id q i hr =>
    obtain ⟨hs, hneg, -, hend, hfind, rfl⟩ := SubscribableQueue.replayFrom_eq_replayedFrom hr
    have hlt : i < σ.queue.buffer.length :=
      (List.findIdx?_eq_some_iff_findIdx_eq.mp hfind).1
    refine .replayFrom rfl ?_ (by omega)
    rw [SubscribableQueue.offset_setCursor hs, SubscribableQueue.offset, if_pos hs]
    rfl
  | replayFromDlq _ _ | replayAllDlqMessages _ | runScheduled _ =>
    exact .of_silent (hcalls _ _ _ _) rfl rfl rfl
  | replayAcked _ _ =>
    exact .of_silent (List.forall_mem_cons.mpr ⟨rfl, hcalls _ _ _ _⟩) rfl rfl
      (σ.queue.offset_setDeadLetterQueue _ _)
  | replayFailed _ _ =>
    exact .of_silent (List.forall_mem_cons.mpr ⟨rfl, hcalls _ _ _ _⟩) rfl rfl rfl
  | _ => exact .of_silent (by simp [LogSilent, Event.logOp]) rfl rfl rfl

end Steps

/-! ### The log stands for the queue -/

/-- **A log stands for the queue**: what is left of it is the buffer, and its readers are the
registered subscribers, each where its index says. -/
structure StandsFor (l : Log MessageEnvelope Guid) (q : SubscribableQueue) : Prop where
  retained : l.retained = q.buffer
  offset : l.offset = q.offset

section Standing

variable {l : Log MessageEnvelope Guid} {q q' : SubscribableQueue} {evs : List Event}
  {o : Option (Op MessageEnvelope Guid)} {s : Guid} {p : ℕ}

/-- **One transition keeps the log standing for the queue.** -/
theorem LogStep.standsFor (h : LogStep q evs o q') (hl : StandsFor l q) :
    StandsFor (l.after o.toList) q' := by
  obtain ⟨hb, ho⟩ := hl
  cases h with
  | enqueue hb' ho' =>
    exact ⟨by simp [Log.apply, hb, hb'], by simp [Log.apply, ho, ho']⟩
  | @prune gone _ hb' ho' =>
    have hle : gone.length ≤ l.retained.length := by
      rw [hb, hb', List.length_append]
      omega
    refine ⟨by simp [Log.apply, hb, hb'], ?_⟩
    simp only [Option.toList_some, Log.after_singleton, Log.apply, Log.offset_trim _ _ hle, ho, ho']
  | subscribe hb' ho' =>
    exact ⟨by simp [Log.apply, hb, hb'], by simp [Log.apply, Log.offset_join, ho, ho']⟩
  | unsubscribe hb' ho' =>
    exact ⟨by simp [Log.apply, hb, hb'], by simp [Log.apply, Log.offset_leave, ho, ho']⟩
  | commit hb' ho' =>
    exact ⟨by simp [Log.apply, hb, hb'], by simp [Log.apply, Log.offset_advance, ho, ho']⟩
  | replayFrom hb' ho' _ =>
    exact ⟨by simp [Log.apply, hb, hb'], by simp [Log.apply, Log.offset_seek, ho, ho']⟩
  | silent _ hb' ho' => exact ⟨by simp [hb, hb'], by simp [ho, ho']⟩

/-- A registered subscriber has a place, from which its index is counted. -/
theorem StandsFor.position (hl : StandsFor l q) (hs : s ∈ q.subscribers) :
    l.position s = some (l.base + (q.cursors s).index.toNat) := by
  rw [l.position_eq, hl.offset, SubscribableQueue.offset, if_pos hs, Option.map_some]

/-- **One transition accounts for the place of a subscriber** that is registered before and after
it. -/
theorem LogStep.account (h : LogStep q evs o q') (hl : StandsFor l q) (hs : s ∈ q.subscribers)
    (hjoin : o ≠ some (.join s)) (hleave : o ≠ some (.leave s)) (hp : l.position s = some p) :
    ∃ p', (l.after o.toList).position s = some p' ∧
      p' + (evs.map (Event.rewinds s (q.cursors s).index)).sum =
        p + (committedOf s evs).length +
          (evs.map (Event.skips (q.cursors s).index)).sum := by
  have hpos := hl.position hs
  rw [hp, Option.some.injEq] at hpos
  -- what the accounts of the library come to for the operations of the queue
  have key {o' : Op MessageEnvelope Guid} (ho : o = some o') :
      ∃ p', (l.after o.toList).position s = some p' ∧
        p' + l.rewound s o' = p + o'.advanced s + l.skipped s o' + l.forwarded s o' := by
    subst ho
    exact Log.account_apply hp (fun heq => hjoin (heq ▸ rfl)) fun heq => hleave (heq ▸ rfl)
  cases h with
  | enqueue _ _ =>
    obtain ⟨p', hp', hsum⟩ := key rfl
    refine ⟨p', hp', ?_⟩
    rw [Log.skipped_eq_zero rfl] at hsum
    simpa [Event.rewinds, Event.skips, committedOf, Log.rewound, Log.forwarded, Op.advanced]
      using hsum
  | @prune gone _ hb _ =>
    obtain ⟨p', hp', hsum⟩ := key rfl
    refine ⟨p', hp', ?_⟩
    have hlen : gone.length ≤ l.retained.length := by
      rw [hl.retained, hb, List.length_append]
      omega
    rw [Log.length_retained] at hlen
    have hle := l.base_le_length
    simp only [Log.rewound, Op.advanced, Log.forwarded, Log.skipped, Log.apply, Log.trim, hp,
      Option.map_some, Option.getD_some] at hsum
    simp only [List.map_singleton, List.sum_singleton, Event.rewinds, Event.skips, committedOf,
      List.filterMap_cons, List.filterMap_nil, List.length_nil]
    omega
  | subscribe _ _ | unsubscribe _ _ =>
    obtain ⟨p', hp', hsum⟩ := key rfl
    refine ⟨p', hp', ?_⟩
    rw [Log.skipped_eq_zero rfl] at hsum
    simpa [committedOf, Log.rewound, Log.forwarded, Op.advanced] using hsum
  | @commit s' m _ _ _ =>
    obtain ⟨p', hp', hsum⟩ := key rfl
    refine ⟨p', hp', ?_⟩
    rw [Log.skipped_eq_zero rfl] at hsum
    rcases eq_or_ne s' s with rfl | hne
    · simpa [Event.rewinds, Event.skips, committedOf, Log.rewound, Log.forwarded, Op.advanced]
        using hsum
    · simpa [Event.rewinds, Event.skips, committedOf, Log.rewound, Log.forwarded, Op.advanced, hne]
        using hsum
  | @replayFrom s' id i _ _ _ hi =>
    obtain ⟨p', hp', hsum⟩ := key rfl
    refine ⟨p', hp', ?_⟩
    rw [Log.skipped_eq_zero rfl] at hsum
    rcases eq_or_ne s' s with rfl | hne
    · have ho : l.offset s' = some (q.cursors s').index.toNat := by
        rw [hl.offset, SubscribableQueue.offset, if_pos hs]
      simp only [Log.rewound, Op.advanced, Log.forwarded, if_true, ho, Option.map_some,
        Option.getD_some] at hsum
      simp only [List.map_singleton, List.sum_singleton, Event.rewinds, Event.skips, if_true,
        committedOf, List.filterMap_cons, List.filterMap_nil, List.length_nil]
      omega
    · simpa [Event.rewinds, Event.skips, committedOf, Log.rewound, Log.forwarded, Op.advanced, hne]
        using hsum
  | silent hevs _ _ =>
    refine ⟨p, hp, ?_⟩
    rw [hevs.committedOf_eq, (hevs.sum_eq_zero (s := s)).1, hevs.sum_eq_zero.2, List.length_nil]

/-- The log holds what has been enqueued, and counts what has been pruned. -/
theorem LogStep.entries (h : LogStep q evs o q') (hl : StandsFor l q) :
    (l.after o.toList).entries = l.entries ++ enqueuedOf evs ∧
      (l.after o.toList).base = l.base + (prunedOf evs).length := by
  cases h with
  | enqueue _ _ => exact ⟨rfl, rfl⟩
  | @prune gone _ hb _ =>
    have hlen : gone.length ≤ l.retained.length := by
      rw [hl.retained, hb, List.length_append]
      omega
    rw [Log.length_retained] at hlen
    have hle := l.base_le_length
    refine ⟨(List.append_nil _).symm, ?_⟩
    simp only [Option.toList_some, Log.after_singleton, Log.apply, Log.trim, prunedOf,
      List.flatMap_cons, List.flatMap_nil, List.append_nil]
    omega
  | silent hevs _ _ =>
    have henq : enqueuedOf evs = [] := by
      rw [enqueuedOf, List.filterMap_eq_nil_iff]
      intro e he
      have hs := hevs e he
      cases e <;> simp_all [Event.logOp]
    have hpruned : prunedOf evs = [] := by
      rw [prunedOf, List.flatMap_eq_nil_iff]
      intro e he
      have hs := hevs e he
      cases e <;> simp_all [Event.logOp]
    simp [henq, hpruned]
  | _ => exact ⟨(List.append_nil _).symm, rfl⟩

end Standing

/-! ### Over whole runs -/

section Runs

variable {ttl : TimeSpan} {n : ℕ} {tr : Trace} {σ σ' : System} {a : Action} {evs : List Event}
  {s : Guid} {t : Transition System Action Event}

theorem logOf_snoc (tr : Trace) (t : Transition System Action Event) :
    logOf (tr ++ [t]) = (logOf tr).after (logOp t.act t.out).toList := by
  rw [logOf, List.filterMap_append, Log.after_append, ← logOf]
  cases ho : logOp t.act t.out <;> simp [ho]

/-- Nobody joins but by subscribing, or leaves but by unsubscribing. -/
theorem act_of_logOp :
    (logOp a evs = some (.join s) → a = .subscribe s) ∧
      (logOp a evs = some (.leave s) → a = .unsubscribe s) := by
  have hevs : evs.findSome? Event.logOp ≠ some (.join s) ∧
      evs.findSome? Event.logOp ≠ some (.leave s) := by
    constructor
    all_goals
      intro h
      obtain ⟨e, -, he⟩ := List.exists_of_findSome?_eq_some h
      cases e <;> simp [Event.logOp] at he
  cases a <;> simp_all [logOp, Action.logOp]

/-- The log of a run stands for the queue at its end. -/
theorem standsFor_of_run (h : RunOf ttl n tr σ) : StandsFor (logOf tr) σ.queue := by
  refine h.invariant (I := fun tr σ => StandsFor (logOf tr) σ.queue) ⟨rfl, rfl⟩ ?_
  intro tr σ a evs σ' hrun hl hs
  rw [logOf_snoc]
  exact ((effect_of_step hs).logStep (index_nonneg_of_run hrun)).standsFor hl

/-- The log of a run holds everything enqueued, and has been trimmed by everything pruned. -/
theorem entries_of_run (h : RunOf ttl n tr σ) :
    (logOf tr).entries = enqueuedOf (events tr) ∧
      (logOf tr).base = (prunedOf (events tr)).length := by
  refine h.invariant (I := fun tr _ => (logOf tr).entries = enqueuedOf (events tr) ∧
    (logOf tr).base = (prunedOf (events tr)).length) ⟨rfl, rfl⟩ ?_
  rintro tr σ a evs σ' hrun ⟨hentries, hbase⟩ hs
  have hstep := ((effect_of_step hs).logStep (index_nonneg_of_run hrun)).entries
    (standsFor_of_run hrun)
  rw [logOf_snoc]
  simp [hstep, hentries, hbase]

/-- What a loop reads is what stands at the index, if anything does. -/
theorem CursorStep.getElem?_of_dispatchRead {v v' : CursorView} {next : Option MessageEnvelope}
    (h : CursorStep s v evs v') (hmem : .dispatchRead s next ∈ evs) :
    v.buffer[v.index.toNat]? = next := by
  cases next with
  | some m => exact h.of_dispatchRead hmem
  | none =>
    cases h with
    | readNothing _ _ hle => exact List.getElem?_eq_none (by omega)
    | release _ hq | quiet hq => exact absurd rfl (hq _ hmem)
    | _ => simp at hmem

/-- **The accounts of a subscriber**: from where it joined, the commits and the messages pruned
before it had got to them take it forward, and replays take it back. -/
def Accounts (tr : Trace) (s : Guid) : Prop :=
  ∃ pre t post p, tr = pre ++ t :: post ∧ t.act = .subscribe s ∧
    (logOf tr).position s = some p ∧
    p + (post.map (Transition.rewinds s)).sum =
      (logOf pre).base + (committedOf s (events post)).length +
        (post.map (Transition.skips s)).sum

/-- Who is registered has just subscribed, or was registered before and has not left. -/
theorem Effect.wasRegistered (h : Effect σ a σ' evs) (hs : s ∈ σ'.queue.subscribers)
    (hjoin : a ≠ .subscribe s) : s ∈ σ.queue.subscribers ∧ a ≠ .unsubscribe s := by
  have hleave : a ≠ .unsubscribe s := by
    rintro rfl
    cases h with
    | unsubscribe _ => exact (SubscribableQueue.mem_subscribers_unsubscribe.mp hs).2 rfl
  refine ⟨?_, hleave⟩
  cases h.lifecycleStep with
  | @subscribe s' _ _ _ =>
    have hne : s ≠ s' := fun heq => hjoin (heq ▸ rfl)
    exact (List.mem_cons.mp hs).resolve_left hne
  | unsubscribe s' => exact (SubscribableQueue.mem_subscribers_unsubscribe.mp hs).1
  | dispose => exact hs
  | same hsame => exact hsame.subscribers ▸ hs

/-- One transition keeps the accounts. -/
theorem Accounts.snoc (h : Accounts tr s) (hrun : RunOf ttl n tr t.pre)
    (hs : s ∈ t.pre.queue.subscribers) (heff : Effect t.pre t.act t.post t.out)
    (hjoin : t.act ≠ .subscribe s) (hleave : t.act ≠ .unsubscribe s) :
    Accounts (tr ++ [t]) s := by
  obtain ⟨pre, t₀, post, p, rfl, hact, hp, hsum⟩ := h
  obtain ⟨p', hp', hsum'⟩ := (heff.logStep (index_nonneg_of_run hrun)).account
    (standsFor_of_run hrun) hs (mt act_of_logOp.1 hjoin) (mt act_of_logOp.2 hleave) hp
  refine ⟨pre, t₀, post ++ [t], p', by simp, hact, ?_, ?_⟩
  · rw [logOf_snoc, hp']
  · simp only [List.map_append, List.sum_append, List.map_singleton, List.sum_singleton,
      events_append, committedOf_append, List.length_append, events_cons, events_nil,
      List.append_nil]
    simp only [Transition.rewinds, Transition.skips] at hsum ⊢
    omega

/-- **Every registered subscriber is accounted for.** -/
theorem accounts_of_run (h : RunOf ttl n tr σ) : ∀ s ∈ σ.queue.subscribers, Accounts tr s := by
  refine h.invariant (I := fun tr σ => ∀ s ∈ σ.queue.subscribers, Accounts tr s) ?_ ?_
  · intro s hs
    simp [System.init] at hs
  intro tr σ a evs σ' hrun hi hs s hmem
  have heff := effect_of_step hs
  by_cases hjoin : a = .subscribe s
  · subst hjoin
    refine ⟨tr, _, [], (logOf tr).base, rfl, rfl, ?_, rfl⟩
    rw [logOf_snoc]
    simp [logOp, Action.logOp, Log.apply, Log.join, Log.place]
  · obtain ⟨hreg, hleave⟩ := heff.wasRegistered hmem hjoin
    exact (hi s hreg).snoc (t := ⟨σ, a, evs, σ'⟩) hrun hreg heff hjoin hleave

/-- **The queue is a log with many readers.** In every run of the system, each operation of which is
one step, the messages enqueued are the entries of a log, the buffer is what is left of it, and its
readers are the registered subscribers, the index of each being its place in the log less the number
of messages pruned. Whatever the loop of a registered subscriber reads is the entry at its place, or
nothing if there is none. And its place is accounted for: it is where the subscriber joined, plus
its commits and the messages pruned before it had got to them, less what replays have wound it
back. -/
theorem offset_log (h : RunOf ttl n tr σ) :
    (logOf tr).entries = enqueuedOf (events tr) ∧ (logOf tr).retained = σ.queue.buffer ∧
    (∀ s, ((logOf tr).position s).map (fun p : ℕ => (p : ℤ) - (prunedOf (events tr)).length) =
      (σ.queue.tryGetValue s).map (·.index)) ∧
    (∀ pre t post s next, tr = pre ++ t :: post → s ∈ t.pre.queue.subscribers →
      .dispatchRead s next ∈ t.out → (logOf pre).peek s = next) ∧
    ∀ s ∈ σ.queue.subscribers, Accounts tr s := by
  obtain ⟨hentries, hbase⟩ := entries_of_run h
  have hstands := standsFor_of_run h
  refine ⟨hentries, hstands.retained, fun s => ?_, ?_, accounts_of_run h⟩
  · by_cases hs : s ∈ σ.queue.subscribers
    · have h0 := index_nonneg_of_run h s
      rw [hstands.position hs, hbase, SubscribableQueue.tryGetValue, if_pos hs, Option.map_some,
        Option.map_some, Option.some.injEq]
      omega
    · have hnone : (logOf tr).offset s = none := by
        rw [hstands.offset, SubscribableQueue.offset, if_neg hs]
      rw [Log.position_eq, hnone, SubscribableQueue.tryGetValue, if_neg hs]
      rfl
  · rintro pre t post s next rfl hs hread
    obtain ⟨hrun, hstep, -⟩ := h.cut
    have hstands := standsFor_of_run hrun
    have hcursor := (effect_of_step hstep).cursorStep (wellFormed_of_run hrun) s
    rw [Log.peek_eq, hstands.retained, hstands.offset, SubscribableQueue.offset, if_pos hs]
    exact hcursor.getElem?_of_dispatchRead hread

/-- The theorem at a delivery from under which a prune pass takes the message: the subscriber is
taken forward twice, by the pass and by the commit. -/
theorem offset_log_pruned : ∃ tr σ, RunOf 5 0 tr σ ∧ (logOf tr).position 7 = some 2 ∧
    (committedOf 7 (events tr)).length = 1 ∧ (logOf tr).retained = σ.queue.buffer ∧
    Accounts tr 7 := by
  have hrun := runOf_exec 5 0 [.subscribe 7, .enqueue 1 10 none, .dispatch 7, .dispatch 7,
    .dispatch 7, .beginPrune 20, .prune 0, .enqueue 2 20 none, .received 7 (.ok .ack),
    .dispatch 7] (by decide)
  obtain ⟨-, hretained, -, -, haccounts⟩ := offset_log hrun
  exact ⟨_, _, hrun, by decide, by decide, hretained, haccounts 7 (by decide)⟩

end Runs

end PushDeliveredQueue
