import PushDeliveredQueue.ReplayFrom

/-!
# A replay in two steps

`ReplayFrom` looks its message up under the lock, lets go of the lock, and then sets the cursor
to the position it has found. `PushDeliveredQueue.racingStep` is the system with any number of
such calls between their two steps.

A position is worth something only as long as nothing is removed before it. What the cursor of a
replayed subscriber should point at is the message asked for or, once that is gone, the oldest
one left (`PushDeliveredQueue.Aims`); every prune pass keeps it there, once it is there. A pass
between the lookup and the assignment moves the cursor too, and the assignment overwrites what it
has done: the cursor is set beyond the message asked for, by as many messages as were removed,
unless that message was the oldest one (`PushDeliveredQueue.replay_target_iff`).
-/

namespace PushDeliveredQueue

open Transitions

/-! ### The two steps -/

namespace SubscribableQueue

/-- `ReplayFrom` up to the end of its locked part: the guards and the position of the message. -/
def replayFromLookup (q : SubscribableQueue) (subscriberId messageId : Guid) :
    ReplayFromOutcome :=
  match q.tryGetValue subscriberId with
  | none => .nonExistentSubscriber
  | some cursor =>
    if cursor.index < 0 then .notStartedConsuming
    else if cursor.isCommitted = false then .hasUncommittedMessages
    else if cursor.index + 1 < q.buffer.length then .atMiddleOfBuffer
    else
      match q.buffer.findIdx? (·.id = messageId) with
      | some index => .replayedFrom index
      | none => .messageNotFound

/-- The rest of `ReplayFrom`, the message having been found at a position. -/
def replayFromAssign (q : SubscribableQueue) (subscriberId : Guid) (index : ℕ) :
    SubscribableQueue :=
  q.setCursor subscriberId { q.cursors subscriberId with index := index, isCommitted := false }

variable {q : SubscribableQueue} {s messageId : Guid} {i : ℕ}

/-- **The two steps make a `ReplayFrom`**, if nothing comes in between. -/
theorem replayFrom_eq_assign (h : q.replayFromLookup s messageId = .replayedFrom i) :
    q.replayFrom s messageId = (q.replayFromAssign s i, .replayedFrom i) := by
  by_cases hs : s ∈ q.subscribers
  · simp only [replayFromLookup, replayFrom, tryGetValue, if_pos hs] at h ⊢
    split_ifs at h ⊢
    cases hidx : q.buffer.findIdx? (·.id = messageId) with
    | none => simp [hidx] at h
    | some index =>
      obtain rfl : index = i := by simpa [hidx] using h
      rfl
  · simp [replayFromLookup, tryGetValue, hs] at h

/-- A refused `ReplayFrom` is refused at its lookup. -/
theorem replayFrom_eq_refused (h : ∀ i, q.replayFromLookup s messageId ≠ .replayedFrom i) :
    q.replayFrom s messageId = (q, q.replayFromLookup s messageId) := by
  by_cases hs : s ∈ q.subscribers
  · simp only [replayFromLookup, replayFrom, tryGetValue, if_pos hs] at h ⊢
    split_ifs at h ⊢ <;> try rfl
    cases hidx : q.buffer.findIdx? (·.id = messageId) with
    | none => rfl
    | some index => exact absurd (by rw [hidx]) (h index)
  · simp [replayFromLookup, replayFrom, tryGetValue, hs]

end SubscribableQueue

/-! ### Calls between their two steps -/

/-- A `ReplayFrom` call that has found its message. -/
structure ReplayFromCall where
  subscriberId : Guid
  messageId : Guid
  /-- The position at which it found the message. -/
  index : ℕ
  /-- Whether it has set the cursor. -/
  assigned : Bool := false
  deriving DecidableEq

/-- The system, with the `ReplayFrom` calls that have ever found their message, in the order of
their lookups. -/
structure RacingSystem where
  system : System
  calls : List ReplayFromCall := []

/-- A new queue, of which nobody has replayed anything. -/
def RacingSystem.init (ttl : TimeSpan) (retryCount : ℕ) : RacingSystem where
  system := System.init ttl retryCount

/-- What can happen next, to the system or in a `ReplayFrom` call. -/
inductive RacingAction where
  | system (action : Action)
  /-- A call passes or fails the guards and, if it passes, looks its message up. -/
  | lookup (subscriberId messageId : Guid)
  /-- The call of this number sets the cursor. -/
  | assign (call : ℕ)
  deriving DecidableEq

/-- **The transition function of the racing system.** -/
def racingStep (ω : RacingSystem) : RacingAction → Option (RacingSystem × List Event)
  | .system a =>
    match step ω.system a with
    | some (σ, evs) => some ({ ω with system := σ }, evs)
    | none => none
  | .lookup s messageId =>
    match ω.system.queue.replayFromLookup s messageId with
    | .replayedFrom index =>
      some ({ ω with calls := ω.calls ++ [⟨s, messageId, index, false⟩] }, [])
    -- the call logs a warning and returns
    | _ => some (ω, [])
  | .assign call =>
    match ω.calls[call]? with
    | some c =>
      if c.assigned = false then
        some ({
          system :=
            { ω.system with queue := ω.system.queue.replayFromAssign c.subscriberId c.index }
          calls := ω.calls.set call { c with assigned := true } },
          [.replayedFrom c.subscriberId c.messageId c.index])
      else none
    | none => none

/-- The transitions of the racing system. -/
abbrev RacingTrace := List (Transition RacingSystem RacingAction Event)

/-- **What a transition of the racing system can do.** -/
inductive RacingEffect (ω : RacingSystem) : RacingAction → RacingSystem → List Event → Prop
  | system {a : Action} {σ : System} {evs : List Event} (h : step ω.system a = some (σ, evs)) :
      RacingEffect ω (.system a) { ω with system := σ } evs
  | lookup {s messageId : Guid} {i : ℕ}
      (h : ω.system.queue.replayFromLookup s messageId = .replayedFrom i) :
      RacingEffect ω (.lookup s messageId)
        { ω with calls := ω.calls ++ [⟨s, messageId, i, false⟩] } []
  | lookupRefused {s messageId : Guid}
      (h : ∀ i, ω.system.queue.replayFromLookup s messageId ≠ .replayedFrom i) :
      RacingEffect ω (.lookup s messageId) ω []
  | assign {call : ℕ} {c : ReplayFromCall} (h : ω.calls[call]? = some c)
      (hopen : c.assigned = false) :
      RacingEffect ω (.assign call)
        { system :=
            { ω.system with queue := ω.system.queue.replayFromAssign c.subscriberId c.index }
          calls := ω.calls.set call { c with assigned := true } }
        [.replayedFrom c.subscriberId c.messageId c.index]

theorem racingEffect_of_step {ω ω' : RacingSystem} {a : RacingAction} {evs : List Event}
    (h : racingStep ω a = some (ω', evs)) : RacingEffect ω a ω' evs := by
  cases a with
  | system a =>
    simp only [racingStep] at h
    split at h
    · rename_i hstep
      obtain ⟨rfl, rfl⟩ := by simpa using h
      exact .system hstep
    · simp at h
  | lookup s messageId =>
    simp only [racingStep] at h
    split at h
    · rename_i hfound
      obtain ⟨rfl, rfl⟩ := by simpa using h
      exact .lookup hfound
    · rename_i hrefused
      obtain ⟨rfl, rfl⟩ := by simpa using h
      exact .lookupRefused fun i hi => hrefused i hi
  | assign call =>
    simp only [racingStep] at h
    split at h
    · rename_i hc
      split at h
      · rename_i hopen
        obtain ⟨rfl, rfl⟩ := by simpa using h
        exact .assign hc hopen
      · simp at h
    · simp at h

/-! ### What they keep of the system -/

section Invariants

variable {ttl : TimeSpan} {n : ℕ} {tr : RacingTrace} {ω ω' : RacingSystem} {a : RacingAction}
  {evs : List Event} {s : Guid}

/-- The invariants of the system that the late assignments keep as well. -/
structure RacingSystem.Sound (evs : List Event) (ω : RacingSystem) : Prop where
  wellFormed : ω.system.WellFormed
  idsUsed : IdsUsed evs ω.system.messageIds
  ledger : Ledger evs ω.system.queue.buffer
  index_nonneg : ∀ s, 0 ≤ (ω.system.queue.cursors s).index

theorem SameLifecycle.replayFromAssign (σ : System) (s : Guid) (i : ℕ) :
    SameLifecycle σ { σ with queue := σ.queue.replayFromAssign s i } :=
  ⟨rfl, rfl, rfl, SubscribableQueue.cancellation_setCursor rfl, fun _ => Iff.rfl⟩

/-- The events of an assignment say nothing of the buffer. -/
theorem ledger_replayedFrom (evs : List Event) (s messageId : Guid) (i : ℕ) :
    enqueuedOf (evs ++ [.replayedFrom s messageId i]) = enqueuedOf evs ∧
      prunedOf (evs ++ [.replayedFrom s messageId i]) = prunedOf evs := by
  rw [enqueuedOf_append, prunedOf_append]
  exact ⟨List.append_nil _, List.append_nil _⟩

theorem RacingSystem.Sound.step {evs' : List Event} (h : ω.Sound evs)
    (heff : RacingEffect ω a ω' evs') : ω'.Sound (evs ++ evs') := by
  obtain ⟨hw, hids, hl, h0⟩ := h
  cases heff with
  | system hstep =>
    have heff := effect_of_step hstep
    obtain ⟨hids', hl'⟩ := Ledger.of_effect heff hids hl
    exact ⟨hw.of_effect heff, hids', hl', fun s => (heff.cursorStep hw s).index_nonneg (h0 s)⟩
  | lookup _ | lookupRefused _ =>
    rw [List.append_nil]
    exact ⟨hw, hids, hl, h0⟩
  | @assign call c _ _ =>
    obtain ⟨henq, hpr⟩ := ledger_replayedFrom evs c.subscriberId c.messageId c.index
    refine ⟨hw.of_same (.replayFromAssign _ _ _), ?_, ⟨?_, ?_⟩, fun s => ?_⟩
    · rw [IdsUsed, henq]
      exact hids
    · rw [henq, hpr]
      exact hl.enqueued
    · rw [henq]
      exact hl.distinct
    · rcases eq_or_ne s c.subscriberId with rfl | hne
      · simp [SubscribableQueue.replayFromAssign]
      · rw [SubscribableQueue.replayFromAssign, SubscribableQueue.cursors_setCursor_of_ne _ hne]
        exact h0 s

theorem sound_of_racingRun (h : Run racingStep (.init ttl n) tr ω) : ω.Sound (events tr) := by
  refine h.invariant (I := fun tr ω => ω.Sound (events tr)) ?_ ?_
  · refine ⟨.init ttl n, ?_, ⟨rfl, List.nodup_nil⟩, fun _ => le_refl _⟩
    intro m hm
    simp [enqueuedOf] at hm
  · intro tr ω a evs ω' _ hi hs
    simpa using hi.step (racingEffect_of_step hs)

/-- **What a transition does to the view of a subscriber** whose cursor no call sets. -/
theorem RacingEffect.cursorStep (h : RacingEffect ω a ω' evs) (hw : ω.system.WellFormed)
    (hno : ∀ id i, .replayedFrom s id i ∉ evs) :
    CursorStep s (ω.system.cursorView s) evs (ω'.system.cursorView s) := by
  cases h with
  | system hstep => exact (effect_of_step hstep).cursorStep hw s
  | lookup _ | lookupRefused _ => exact .quiet quiet_nil
  | @assign call c _ _ =>
    have hne : s ≠ c.subscriberId := by
      rintro rfl
      exact hno _ _ (List.mem_singleton.mpr rfl)
    refine .of_congr ?_ rfl ?_ rfl rfl
    · rw [quiet_singleton]
      exact hne.symm
    · exact congrArg _ (SubscribableQueue.cursors_setCursor_of_ne _ hne _)

end Invariants

/-! ### What a replay is to read -/

/-- **The message a replay is to read next**: the one asked for if it is in the buffer,
otherwise the oldest message in the buffer that was enqueued after it. -/
def IsTarget (evs : List Event) (buffer : List MessageEnvelope) (m m' : MessageEnvelope) : Prop :=
  m ∈ buffer ∧ m' = m ∨
    m ∉ buffer ∧ m' ∈ buffer ∧ EnqueuedBefore evs m m' ∧
      ∀ x ∈ buffer, EnqueuedBefore evs m x → x = m' ∨ EnqueuedBefore evs m' x

section Targets

variable {evs evs' : List Event} {buffer : List MessageEnvelope} {m m' : MessageEnvelope} {P : ℕ}

/-- Messages enqueued in this order are at places in this order. -/
theorem Ledger.lt_of_enqueuedBefore (h : Ledger evs buffer) {i j : ℕ}
    (hi : (enqueuedOf evs)[i]? = some m) (hj : (enqueuedOf evs)[j]? = some m')
    (hbefore : EnqueuedBefore evs m m') : i < j := by
  have hpair : (enqueuedOf evs).Pairwise fun x y =>
      (enqueuedOf evs).idxOf x < (enqueuedOf evs).idxOf y := by
    rw [List.pairwise_iff_getElem]
    intro a b ha hb hab
    rwa [h.nodup.idxOf_getElem, h.nodup.idxOf_getElem]
  obtain ⟨hi, rfl⟩ := List.getElem?_eq_some_iff.mp hi
  obtain ⟨hj, rfl⟩ := List.getElem?_eq_some_iff.mp hj
  have hlt := List.pairwise_pair.mp (hpair.sublist hbefore)
  rwa [h.nodup.idxOf_getElem, h.nodup.idxOf_getElem] at hlt

/-- What stands in the buffer stands behind what has been pruned. -/
theorem Ledger.getElem?_buffer (h : Ledger evs buffer) (j : ℕ) :
    (enqueuedOf evs)[(prunedOf evs).length + j]? = buffer[j]? := by
  rw [h.enqueued, List.getElem?_append_right (Nat.le_add_right _ _), Nat.add_sub_cancel_left]

/-- **The target by its place.** A message enqueued at some place is, or has its successor in
the buffer, as many places into the buffer as have not been pruned before it. -/
theorem Ledger.isTarget_iff (h : Ledger evs buffer) (hP : (enqueuedOf evs)[P]? = some m) :
    IsTarget evs buffer m m' ↔ buffer[P - (prunedOf evs).length]? = some m' := by
  rcases Nat.lt_or_ge P (prunedOf evs).length with hlt | hge
  · -- the message is gone, and everything left was enqueued after it
    have hgone : m ∉ buffer := by
      intro hm
      obtain ⟨j, hj⟩ := List.getElem?_of_mem hm
      have hsame := (List.getElem?_inj (List.getElem?_eq_some_iff.mp hP).1 h.nodup).mp
        (hP.trans ((h.getElem?_buffer j).trans hj).symm)
      omega
    have hafter : ∀ {j x}, buffer[j]? = some x → EnqueuedBefore evs m x := fun {j x} hx =>
      enqueuedBefore_of_lt hP ((h.getElem?_buffer j).trans hx) (by omega)
    rw [Nat.sub_eq_zero_of_le hlt.le]
    constructor
    · rintro (⟨hm, -⟩ | ⟨-, hm', -, holdest⟩)
      · exact absurd hm hgone
      · obtain ⟨j, hj⟩ := List.getElem?_of_mem hm'
        have h0 : 0 < buffer.length := List.length_pos_of_mem hm'
        rcases holdest buffer[0] (List.getElem_mem h0)
          (hafter (List.getElem?_eq_getElem h0)) with heq | hbefore
        · rw [← heq, List.getElem?_eq_getElem h0]
        · -- nothing in the buffer is older than its head
          have := h.lt_of_enqueuedBefore ((h.getElem?_buffer j).trans hj)
            ((h.getElem?_buffer 0).trans (List.getElem?_eq_getElem h0)) hbefore
          omega
    · intro hhead
      refine Or.inr ⟨hgone, List.mem_of_getElem? hhead, hafter hhead, fun x hx _ => ?_⟩
      obtain ⟨j, hj⟩ := List.getElem?_of_mem hx
      rcases Nat.eq_zero_or_pos j with rfl | hpos
      · exact Or.inl (Option.some.inj (hj.symm.trans hhead))
      · exact Or.inr (enqueuedBefore_of_lt ((h.getElem?_buffer 0).trans hhead)
          ((h.getElem?_buffer j).trans hj) (by omega))
  · have hat : buffer[P - (prunedOf evs).length]? = some m := by
      rw [← h.getElem?_buffer, Nat.add_sub_cancel' hge, hP]
    rw [hat]
    constructor
    · rintro (⟨-, rfl⟩ | ⟨hgone, -⟩)
      · rfl
      · exact absurd (List.mem_of_getElem? hat) hgone
    · intro heq
      exact Or.inl ⟨List.mem_of_getElem? hat, (Option.some.inj heq).symm⟩

/-- A registered subscriber that is delivered nothing. -/
structure AtRest (v : CursorView) : Prop where
  standing : v.standing = .registered
  delivering : v.delivering = none

/-- **A cursor at rest aims at a place** in the list of all the messages enqueued: it points at
the message of that place, or at the head of the buffer once that message is gone. -/
structure Aims (P : ℕ) (evs : List Event) (v : CursorView) : Prop extends AtRest v where
  index : v.index = (P - (prunedOf evs).length : ℕ)

variable {s : Guid} {v v' : CursorView}

theorem AtRest.step (h : AtRest v) (hs : CursorStep s v evs' v')
    (hreg : v'.standing = .registered) (hread : readsOf s evs' = []) : AtRest v' := by
  refine ⟨hreg, ?_⟩
  cases hs with
  | read _ _ _ _ => simp [readsOf] at hread
  | commit _ _ | commitMissed _ _ | release _ _ => rfl
  | _ => exact h.delivering

/-- **Nothing but a replay or a read makes a cursor lose its aim.** -/
theorem Aims.step (h : Aims P evs v) (hs : CursorStep s v evs' v')
    (hreg : v'.standing = .registered) (hread : readsOf s evs' = [])
    (hreplay : ∀ id i, .replayedFrom s id i ∉ evs') : Aims P (evs ++ evs') v' := by
  refine ⟨h.toAtRest.step hs hreg hread, ?_⟩
  have hindex := h.index
  rw [prunedOf_append, List.length_append]
  cases hs with
  | @prune gone kept hb =>
    have hgone : (prunedOf [Event.pruned gone]).length = gone.length := by simp [prunedOf]
    rw [hgone]
    split_ifs with hc
    · change max 0 (v.index - (gone.length : ℤ)) = _
      omega
    · have hnil : gone = [] := by_contra fun hne => hc ⟨h.standing, hne⟩
      simp [hnil, hindex]
  | subscribe habs _ => exact absurd (h.standing.symm.trans habs) (by simp)
  | unsubscribe _ => simp at hreg
  | replayFrom _ _ _ _ => exact absurd (List.mem_singleton.mpr rfl) (hreplay _ _)
  | read _ _ _ _ => simp [readsOf] at hread
  | commit _ hd | commitMissed _ hd | release hd _ =>
    exact absurd (h.delivering.symm.trans hd) (by simp)
  | quiet hq => simpa [hq.prunedOf_eq] using hindex
  | _ => simpa [prunedOf] using hindex

end Targets

/-! ### Whether a loop can read -/

/-- A loop that can still get to read the buffer: it is running, and just about to read or not
cancelled. -/
def System.CanRead (σ : System) (s : Guid) : Prop :=
  (σ.loops s).Running ∧
    (σ.loops s = .reading ∨ (σ.queue.cancellation s).isCancellationRequested = false)

section Mute

variable {ttl : TimeSpan} {n : ℕ} {tr : RacingTrace} {ω ω' : RacingSystem} {σ σ' : System}
  {a : Action} {evs : List Event} {s : Guid}

/-- A loop that is not running takes no step. -/
theorem LoopStep.not_running (h : LoopStep s σ a σ' evs) (hs : s ∈ σ.subscriberIds)
    (hl : ¬ (σ.loops s).Running) : σ'.loops s = σ.loops s ∧ ∀ next, .dispatchRead s next ∉ evs := by
  have hphase : σ.loops s = .notStarted ∨ σ.loops s = .ended ∨ σ.loops s = .faulted := by
    by_contra hcon
    simp only [not_or] at hcon
    exact hl hcon
  cases h with
  | stays _ hl' hquiet => exact ⟨hl', fun next hmem => hquiet _ hmem rfl⟩
  | starts hnew _ => exact absurd hs hnew
  | dispatch h =>
    rcases hphase with hp | hp | hp <;> rw [hp] at h <;> cases h
  | received h _ | retried h _ | failedHandled h _ =>
    rcases hphase with hp | hp | hp <;> simp [hp] at h

/-- **A loop that cannot read never will.** -/
theorem System.CanRead.of_effect (hs : s ∈ σ.subscriberIds) (hcan : ¬ σ.CanRead s)
    (heff : Effect σ a σ' evs) :
    s ∈ σ'.subscriberIds ∧ ¬ σ'.CanRead s ∧ readsOf s evs = [] := by
  by_cases hrun : (σ.loops s).Running
  · have hstop : σ.Stopping s :=
      ⟨hs, by_contra fun hc => hcan ⟨hrun, Or.inr (by simpa using hc)⟩,
        fun hl => hcan ⟨hrun, Or.inl hl⟩⟩
    obtain ⟨⟨hids, hc, hl⟩, hnil⟩ := hstop.step heff
    exact ⟨hids, fun ⟨_, hor⟩ => hor.elim hl fun h => absurd (hc.symm.trans h) (by simp), hnil⟩
  · obtain ⟨hl, hnone⟩ := (heff.loopStep s).not_running hs hrun
    refine ⟨?_, fun h => hrun (hl ▸ h.1), List.eq_nil_iff_forall_not_mem.mpr fun m hm => ?_⟩
    · cases heff.lifecycleStep with
      | subscribe _ _ => exact List.mem_cons_of_mem _ hs
      | unsubscribe _ | dispose => exact hs
      | same hsame => exact hsame.subscriberIds ▸ hs
    · exact hnone _ (mem_readsOf.mp hm)

theorem reads_nil_of_not_canRead (h : Run racingStep ω tr ω') (hs : s ∈ ω.system.subscriberIds)
    (hcan : ¬ ω.system.CanRead s) : readsOf s (events tr) = [] := by
  have hmain : s ∈ ω'.system.subscriberIds ∧ ¬ ω'.system.CanRead s ∧
      readsOf s (events tr) = [] := by
    refine h.invariant (I := fun tr ω => s ∈ ω.system.subscriberIds ∧ ¬ ω.system.CanRead s ∧
      readsOf s (events tr) = []) ⟨hs, hcan, rfl⟩ ?_
    rintro tr ω a evs ω' - ⟨hs, hcan, hnil⟩ hstep
    rw [events_append, readsOf_append, events_cons, events_nil, List.append_nil, hnil,
      List.nil_append]
    cases racingEffect_of_step hstep with
    | system hstep => exact System.CanRead.of_effect hs hcan (effect_of_step hstep)
    | lookup _ | lookupRefused _ => exact ⟨hs, hcan, rfl⟩
    | @assign call c _ _ =>
      refine ⟨hs, ?_, by simp [readsOf]⟩
      have hsame := SameLifecycle.replayFromAssign ω.system c.subscriberId c.index
      rw [System.CanRead, hsame.cancellation]
      exact hcan
  exact hmain.2.2

end Mute

/-! ### Getting it to read -/

/-- A transition in which nobody unsubscribes a subscriber and no replay sets its cursor. -/
structure LeavesCursor (s : Guid) (t : Transition RacingSystem RacingAction Event) : Prop where
  unsubscribe : t.act ≠ .system (.unsubscribe s)
  replays : ∀ id i, .replayedFrom s id i ∉ t.out

/-- Whether an event is an accepted replay of a subscriber. -/
def Event.isReplayOf (s : Guid) : Event → Bool
  | .replayedFrom s' _ _ => s' = s
  | _ => false

instance (s : Guid) (t : Transition RacingSystem RacingAction Event) :
    Decidable (LeavesCursor s t) :=
  decidable_of_iff (t.act ≠ .system (.unsubscribe s) ∧ ∀ e ∈ t.out, e.isReplayOf s = false)
    ⟨fun ⟨ha, he⟩ => ⟨ha, fun id i hmem => by simpa [Event.isReplayOf] using he _ hmem⟩,
      fun ⟨ha, hno⟩ => ⟨ha, fun e he => by
        cases e with
        | replayedFrom s' id i =>
          have hne : s' ≠ s := fun h => hno id i (h ▸ he)
          simp [Event.isReplayOf, hne]
        | _ => rfl⟩⟩

/-- One state leads to another by steps that leave the cursor of a subscriber alone, without
anything being pruned and without its loop reading anything. -/
def Nears (s : Guid) (ω ω' : RacingSystem) : Prop :=
  ∃ cont, Run racingStep ω cont ω' ∧ (∀ t ∈ cont, LeavesCursor s t) ∧
    prunedOf (events cont) = [] ∧ readsOf s (events cont) = []

section Nears

variable {ω ω' ω'' : RacingSystem} {σ : System} {s : Guid} {evs : List Event}

theorem Nears.refl (s : Guid) (ω : RacingSystem) : Nears s ω ω :=
  ⟨[], Run.nil, by simp, rfl, rfl⟩

theorem Nears.trans (h : Nears s ω ω') (h' : Nears s ω' ω'') : Nears s ω ω'' := by
  obtain ⟨cont, hrun, hleaves, hpr, hnil⟩ := h
  obtain ⟨cont', hrun', hleaves', hpr', hnil'⟩ := h'
  refine ⟨cont ++ cont', hrun.append hrun', fun t ht => ?_, by simp [hpr, hpr'],
    by simp [hnil, hnil']⟩
  rcases List.mem_append.mp ht with ht | ht
  · exact hleaves t ht
  · exact hleaves' t ht

theorem Nears.system (a : Action) (h : step ω.system a = some (σ, evs)) (ha : a ≠ .unsubscribe s)
    (hreplay : ∀ id i, .replayedFrom s id i ∉ evs) (hpr : prunedOf evs = [])
    (hnil : readsOf s evs = []) : Nears s ω { ω with system := σ } := by
  have hstep : racingStep ω (.system a) = some ({ ω with system := σ }, evs) := by
    simp only [racingStep, h]
  refine ⟨_, Run.single hstep, fun t ht => ?_, by simpa using hpr, by simpa using hnil⟩
  obtain rfl := List.mem_singleton.mp ht
  exact ⟨fun he => ha (RacingAction.system.inj he), hreplay⟩

/-- Messages can be enqueued, as many as one likes. -/
theorem nears_enqueued (s : Guid) (ω : RacingSystem) (k : ℕ) :
    ∃ σ : System, Nears s ω { ω with system := σ } ∧
      σ.queue.buffer.length = ω.system.queue.buffer.length + k ∧
      σ.queue.cursors = ω.system.queue.cursors ∧ σ.loops = ω.system.loops := by
  induction k with
  | zero => exact ⟨ω.system, Nears.refl s ω, rfl, rfl, rfl⟩
  | succ k ih =>
    obtain ⟨σ, hnears, hlen, hcursors, hloops⟩ := ih
    obtain ⟨x, hx⟩ := Infinite.exists_notMem_finset σ.messageIds.toFinset
    rw [List.mem_toFinset] at hx
    have hstep : step σ (.enqueue x 0 none) = some ({ σ with
        queue := σ.queue.enqueue x 0 none
        messageIds := x :: σ.messageIds }, [.enqueued ⟨x, 0⟩]) := by
      simp [step, hx]
    refine ⟨_, hnears.trans (Nears.system (ω := { ω with system := σ }) _ hstep (by simp)
      (by simp) rfl rfl), ?_, hcursors, hloops⟩
    simp [SubscribableQueue.enqueue, hlen, Nat.add_assoc]

/-- **A loop that can read gets to read.** -/
theorem nears_reading (hw : ω.system.WellFormed) (hcan : ω.system.CanRead s)
    (hidle : (ω.system.loops s).message = none) :
    Nears s ω { ω with system := ω.system.moveLoop s ω.system.queue .reading } := by
  have hmove : ∀ {ω : RacingSystem} {p : DispatchPhase},
      dispatchStep ω.system.queue s (ω.system.loops s) = some (ω.system.queue, p, []) →
      Nears s ω { ω with system := ω.system.moveLoop s ω.system.queue p } := by
    intro ω p h
    have hstep : step ω.system (.dispatch s) =
        some (ω.system.moveLoop s ω.system.queue p, []) := by
      simp only [step, h]
    exact Nears.system _ hstep (by simp) (by simp) rfl rfl
  obtain ⟨⟨hns, hne, hnf⟩, hor⟩ := hcan
  -- unless it is about to read, its source has been neither cancelled nor disposed of
  have hopen : ω.system.loops s ≠ .reading →
      (ω.system.queue.cursors s).cancellation.isCancellationRequested = false ∧
        (ω.system.queue.cursors s).cancellation.disposed = false := by
    intro hne
    have hc := hor.resolve_left hne
    refine ⟨hc, ?_⟩
    by_contra hcon
    exact absurd (hc.symm.trans (hw.disposed_cancelled s (by simpa using hcon))) (by simp)
  cases hl : ω.system.loops s with
  | reading =>
    have hsame : ω.system.moveLoop s ω.system.queue .reading = ω.system := by
      rw [System.moveLoop, ← hl, Function.update_eq_self]
    rw [hsame]
    exact Nears.refl s ω
  | checking =>
    obtain ⟨hc, hd⟩ := hopen (by simp [hl])
    exact hmove (by simp [dispatchStep, hl, CancellationTokenSource.token, hc, hd])
  | backoff =>
    obtain ⟨hc, hd⟩ := hopen (by simp [hl])
    have hchecking : Nears s ω { ω with system := ω.system.moveLoop s ω.system.queue .checking } :=
      hmove (by simp [dispatchStep, hl, CancellationTokenSource.token, hc, hd])
    refine hchecking.trans ?_
    have hreading := hmove
      (ω := { ω with system := ω.system.moveLoop s ω.system.queue .checking }) (p := .reading)
      (by
        rw [System.loops_moveLoop_self]
        simp [dispatchStep, System.moveLoop, CancellationTokenSource.token, hc, hd])
    rwa [System.moveLoop_moveLoop] at hreading
  | notStarted | ended | faulted => simp [hl] at hns hne hnf
  | _ => simp [hl, DispatchPhase.message] at hidle

end Nears

/-! ### Along a run -/

section Runs

variable {ω ω' : RacingSystem} {a : RacingAction} {cont : RacingTrace} {evs : List Event}
  {s : Guid} {m : MessageEnvelope} {P : ℕ}

/-- A read returns what the cursor points at. -/
theorem RacingEffect.of_dispatchRead (h : RacingEffect ω a ω' evs) (hw : ω.system.WellFormed)
    (hmem : .dispatchRead s (some m) ∈ evs) :
    ω.system.queue.buffer[(ω.system.queue.cursors s).index.toNat]? = some m := by
  cases h with
  | system hstep => exact ((effect_of_step hstep).cursorStep hw s).of_dispatchRead hmem
  | lookup _ | lookupRefused _ => simp at hmem
  | assign _ _ => simp at hmem

/-- Only by unsubscribing does a subscriber leave. -/
theorem RacingEffect.standing (h : RacingEffect ω a ω' evs) (ha : a ≠ .system (.unsubscribe s))
    (hs : ω.system.standing s = .registered) : ω'.system.standing s = .registered := by
  cases h with
  | system hstep =>
    rw [System.standing_eq_registered] at hs ⊢
    exact (effect_of_step hstep).registered (fun he => ha (congrArg _ he)) hs
  | lookup _ | lookupRefused _ => exact hs
  | assign _ _ => exact hs

/-- A call keeps its number and what it has found. -/
theorem RacingEffect.call (h : RacingEffect ω a ω' evs) {call : ℕ} {s messageId : Guid} {i : ℕ}
    (hc : ∃ b, ω.calls[call]? = some ⟨s, messageId, i, b⟩) :
    ∃ b, ω'.calls[call]? = some ⟨s, messageId, i, b⟩ := by
  obtain ⟨b, hc⟩ := hc
  have hlt := (List.getElem?_eq_some_iff.mp hc).1
  cases h with
  | system _ | lookupRefused _ => exact ⟨b, hc⟩
  | lookup _ => exact ⟨b, by rw [List.getElem?_append_left hlt, hc]⟩
  | @assign call' c hc' _ =>
    rcases eq_or_ne call' call with rfl | hne
    · obtain rfl := Option.some.inj (hc.symm.trans hc')
      exact ⟨true, by rw [List.getElem?_set_self hlt]⟩
    · exact ⟨b, by rw [List.getElem?_set_ne hne, hc]⟩

/-- **The rule for a cursor at rest**: what every step of its view keeps, as long as it is
neither replayed nor read and its subscriber stays, is kept along a run. -/
theorem restInvariant {I : List Event → CursorView → Prop} (hrest : ∀ {evs v}, I evs v → AtRest v)
    (hstep : ∀ {evs v evs' v'}, I evs v → CursorStep s v evs' v' → v'.standing = .registered →
      readsOf s evs' = [] → (∀ id i, .replayedFrom s id i ∉ evs') → I (evs ++ evs') v')
    (hsound : ω.Sound evs) (h0 : I evs (ω.system.cursorView s)) (h : Run racingStep ω cont ω')
    (hleaves : ∀ t ∈ cont, LeavesCursor s t) (hnil : readsOf s (events cont) = []) :
    ω'.Sound (evs ++ events cont) ∧ I (evs ++ events cont) (ω'.system.cursorView s) := by
  refine h.invariantOn (I := fun tr ω => readsOf s (events tr) = [] →
    ω.Sound (evs ++ events tr) ∧ I (evs ++ events tr) (ω.system.cursorView s)) ?_ ?_ hleaves hnil
  · intro _
    rw [events_nil, List.append_nil]
    exact ⟨hsound, h0⟩
  · intro tr ω a evs' ω' _ hi hs ⟨hun, hre⟩ hnil
    simp only [events_append, events_cons, events_nil, List.append_nil, readsOf_append,
      List.append_eq_nil_iff] at hnil ⊢
    obtain ⟨hsound, hkept⟩ := hi hnil.1
    have heff := racingEffect_of_step hs
    rw [← List.append_assoc]
    exact ⟨hsound.step heff, hstep hkept (heff.cursorStep hsound.wellFormed hre)
      (heff.standing hun (hrest hkept).standing) hnil.2 hre⟩

end Runs

/-! ### The exact condition -/

/-- **The next read is the one a replay asked for**: in every continuation in which nobody
unsubscribes the subscriber or replays it again, whatever is pruned or enqueued, the next message
its loop reads, if it reads one, is the target of the replay at that moment. -/
def ReadsTarget (s : Guid) (hist : RacingTrace) (ω : RacingSystem) (m : MessageEnvelope) : Prop :=
  ∀ cont t ω', Run racingStep ω (cont ++ [t]) ω' → (∀ x ∈ cont, LeavesCursor s x) →
    readsOf s (events cont) = [] → ∀ m', .dispatchRead s (some m') ∈ t.out →
      IsTarget (events (hist ++ cont)) t.pre.system.queue.buffer m m'

section Main

variable {ttl : TimeSpan} {n : ℕ} {hist tr gap : RacingTrace} {ω : RacingSystem}
  {t u : Transition RacingSystem RacingAction Event} {s : Guid} {m : MessageEnvelope} {i P : ℕ}

/-- A message keeps its place. -/
theorem getElem?_enqueuedOf_append {evs evs' : List Event} (h : (enqueuedOf evs)[P]? = some m) :
    (enqueuedOf (evs ++ evs'))[P]? = some m := by
  rw [enqueuedOf_append, List.getElem?_append_left (List.getElem?_eq_some_iff.mp h).1, h]

/-- A cursor that aims at the message asked for reads its target. -/
theorem readsTarget_of_aims (h : Run racingStep (.init ttl n) hist ω)
    (hP : (enqueuedOf (events hist))[P]? = some m)
    (haims : Aims P (events hist) (ω.system.cursorView s)) : ReadsTarget s hist ω m := by
  intro cont t ω' hrun hleaves hnil m' hm'
  obtain ⟨hcont, hstep, rfl⟩ := hrun.of_snoc
  obtain ⟨hsound, haims'⟩ := restInvariant (I := Aims P) Aims.toAtRest Aims.step
    (sound_of_racingRun h) haims hcont hleaves hnil
  have hread := (racingEffect_of_step hstep).of_dispatchRead hsound.wellFormed hm'
  have hindex : (t.pre.system.queue.cursors s).index =
      (P - (prunedOf (events hist ++ events cont)).length : ℕ) := haims'.index
  rw [hindex, Int.toNat_natCast] at hread
  rw [events_append, hsound.ledger.isTarget_iff (getElem?_enqueuedOf_append hP)]
  exact hread

/-- **A cursor that points elsewhere can be made to read what it points at.** -/
theorem index_eq_of_readsTarget (h : Run racingStep (.init ttl n) hist ω)
    (hP : (enqueuedOf (events hist))[P]? = some m)
    (hidle : (ω.system.loops s).message = none) (hcan : ω.system.CanRead s)
    (hindex : (ω.system.queue.cursors s).index = i) (hreads : ReadsTarget s hist ω m) :
    i = P - (prunedOf (events hist)).length := by
  -- something to read at the index, and the loop about to read it
  obtain ⟨σ, hnears, hlen, hcursors, hloops⟩ := nears_enqueued s ω (i + 1)
  have hw : ({ ω with system := σ } : RacingSystem).system.WellFormed := by
    obtain ⟨cont, hrun, -⟩ := hnears
    exact (sound_of_racingRun (h.append hrun)).wellFormed
  have hcan' : ({ ω with system := σ } : RacingSystem).system.CanRead s := by
    rw [System.CanRead, SubscribableQueue.cancellation, hcursors, hloops]
    exact hcan
  have hidle' : (σ.loops s).message = none := by rw [hloops, hidle]
  obtain ⟨cont, hrun, hleaves, hpr, hnil⟩ := hnears.trans (nears_reading hw hcan' hidle')
  have hlt : i < σ.queue.buffer.length := by omega
  have hnext : σ.queue.next (σ.queue.cursors s) = .ok (some σ.queue.buffer[i]) := by
    rw [SubscribableQueue.next, hcursors, hindex, if_pos (by omega), if_pos (by omega),
      Int.toNat_natCast, List.getElem?_eq_getElem hlt]
  have hread : racingStep { ω with system := σ.moveLoop s σ.queue .reading }
      (.system (.dispatch s)) = some ({ ω with
        system := σ.moveLoop s σ.queue (.attempting σ.queue.buffer[i] 0) },
          [.dispatchRead s (some σ.queue.buffer[i])]) := by
    have hqueue : (σ.moveLoop s σ.queue .reading).queue = σ.queue := rfl
    simp only [racingStep, step, System.loops_moveLoop_self, hqueue, dispatchStep, hnext,
      System.moveLoop_moveLoop]
  have hsound := sound_of_racingRun (h.append hrun)
  have htarget := hreads cont _ _ (hrun.snoc hread) hleaves hnil _ (List.mem_singleton.mpr rfl)
  rw [events_append] at hsound htarget
  rw [hsound.ledger.isTarget_iff (getElem?_enqueuedOf_append hP), prunedOf_append, hpr,
    List.append_nil] at htarget
  exact (List.getElem?_inj hlt hsound.ledger.nodup_buffer).mp
    ((List.getElem?_eq_getElem hlt).trans htarget.symm)

/-- What a replay in two steps has come to when it has set the cursor: the subscriber is still
delivered nothing, its index is the position found at the lookup, and the message asked for has
moved on from there by as many places as were pruned in between. -/
structure LateReplay (s : Guid) (m : MessageEnvelope) (i : ℕ) (between hist : List Event)
    (P : ℕ) (ω : RacingSystem) : Prop where
  atRest : AtRest (ω.system.cursorView s)
  index : (ω.system.queue.cursors s).index = i
  place : (enqueuedOf hist)[P]? = some m
  distance : P - (prunedOf hist).length = i - (prunedOf between).length

/-- The lookup records the call and changes nothing else. -/
theorem RacingEffect.of_lookup {ω ω' : RacingSystem} {evs : List Event} {messageId : Guid}
    (h : RacingEffect ω (.lookup s messageId) ω' evs)
    (hpass : ω.system.queue.replayFromLookup s messageId = .replayedFrom i) :
    evs = [] ∧ ω' = { ω with calls := ω.calls ++ [⟨s, messageId, i, false⟩] } := by
  cases h with
  | lookup h =>
    obtain rfl := SubscribableQueue.ReplayFromOutcome.replayedFrom.inj (hpass.symm.trans h)
    exact ⟨rfl, rfl⟩
  | lookupRefused h => exact absurd hpass (h i)

/-- The assignment sets the index to the position found, whatever has happened to it since. -/
theorem RacingEffect.of_assign {ω ω' : RacingSystem} {evs : List Event} {call : ℕ}
    {messageId : Guid} (h : RacingEffect ω (.assign call) ω' evs)
    (hcall : ∃ b, ω.calls[call]? = some ⟨s, messageId, i, b⟩) :
    evs = [.replayedFrom s messageId i] ∧
      ω'.system = { ω.system with queue := ω.system.queue.replayFromAssign s i } := by
  obtain ⟨b, hcall⟩ := hcall
  cases h with
  | assign hc _ =>
    obtain rfl := Option.some.inj (hcall.symm.trans hc)
    exact ⟨rfl, rfl⟩

theorem lateReplay_of_run (h : Run racingStep (.init ttl n) (tr ++ t :: (gap ++ [u])) ω)
    (hlookup : t.act = .lookup s m.id) (hm : m ∈ t.pre.system.queue.buffer)
    (hpass : t.pre.system.queue.replayFromLookup s m.id = .replayedFrom i)
    (hidle : (t.pre.system.loops s).message = none)
    (hleaves : ∀ x ∈ gap, LeavesCursor s x) (hnil : readsOf s (events gap) = [])
    (hassign : u.act = .assign t.pre.calls.length) :
    ∃ P, LateReplay s m i (events gap) (events (tr ++ t :: (gap ++ [u]))) P ω := by
  obtain ⟨hpre, hstep, hrest⟩ := h.cut
  obtain ⟨hgap, hlast, rfl⟩ := hrest.of_snoc
  have hsound := sound_of_racingRun hpre
  obtain ⟨hreg, -, -, -, hidx, -⟩ :=
    SubscribableQueue.replayFrom_eq_replayedFrom (SubscribableQueue.replayFrom_eq_assign hpass)
  obtain ⟨hout, hpost⟩ := (hlookup ▸ racingEffect_of_step hstep).of_lookup hpass
  -- up to the assignment the subscriber is delivered nothing, and the call keeps its number
  have hatRest : AtRest (u.pre.system.cursorView s) := by
    refine (restInvariant (I := fun _ => AtRest) id
      (fun h hs hreg hread _ => h.step hs hreg hread) (sound_of_racingRun (hpre.snoc hstep)) ?_
      hgap hleaves hnil).2
    rw [hpost]
    exact ⟨System.standing_eq_registered.mpr hreg, hidle⟩
  have hcall := hgap.stateInvariant
    (I := fun ω => ∃ b, ω.calls[t.pre.calls.length]? = some ⟨s, m.id, i, b⟩)
    ⟨false, by rw [hpost]; simp⟩ fun _ _ _ _ hi hs => (racingEffect_of_step hs).call hi
  obtain ⟨huout, husys⟩ := (hassign ▸ racingEffect_of_step hlast).of_assign hcall
  have hview : u.post.system.cursorView s =
      { u.pre.system.cursorView s with index := (i : ℤ) } := by
    rw [husys]
    exact System.cursorView_setCursor _
  have hevents : events (tr ++ t :: (gap ++ [u])) =
      events tr ++ (events gap ++ [.replayedFrom s m.id i]) := by
    simp [hout, huout]
  refine ⟨(prunedOf (events tr)).length + i, ⟨?_, ?_⟩, congrArg CursorView.index hview, ?_, ?_⟩
  · exact (congrArg CursorView.standing hview).trans hatRest.standing
  · exact (congrArg CursorView.delivering hview).trans hatRest.delivering
  · rw [hevents]
    exact getElem?_enqueuedOf_append
      ((hsound.ledger.getElem?_buffer i).trans (hsound.ledger.getElem?_of_findIdx? hm hidx))
  · rw [hevents, prunedOf_append, (ledger_replayedFrom _ _ _ _).2, List.length_append]
    omega

/-- **A replay survives a concurrent prune pass, exactly when.** In a run, `ReplayFrom` passes
its guards for an idle subscriber and finds a message of the buffer at a position; later it sets
the cursor, the loop having read nothing in between and nobody else having replayed or
unsubscribed the subscriber. Then the next message the loop reads is the one asked for or, once
that is gone, the oldest one after it, in every continuation, if and only if nothing was pruned
between the two steps, or the position found was the first one, or the loop has stopped
reading. -/
theorem replay_target_iff (h : Run racingStep (.init ttl n) (tr ++ t :: (gap ++ [u])) ω)
    (hlookup : t.act = .lookup s m.id) (hm : m ∈ t.pre.system.queue.buffer)
    (hpass : t.pre.system.queue.replayFromLookup s m.id = .replayedFrom i)
    (hidle : (t.pre.system.loops s).message = none)
    (hleaves : ∀ x ∈ gap, LeavesCursor s x) (hnil : readsOf s (events gap) = [])
    (hassign : u.act = .assign t.pre.calls.length) :
    ReadsTarget s (tr ++ t :: (gap ++ [u])) ω m ↔
      prunedOf (events gap) = [] ∨ i = 0 ∨ ¬ ω.system.CanRead s := by
  obtain ⟨P, hrest, hindex, hP, hdist⟩ :=
    lateReplay_of_run h hlookup hm hpass hidle hleaves hnil hassign
  constructor
  · intro hreads
    by_contra hcon
    obtain ⟨hsome, hpos, hcan⟩ : prunedOf (events gap) ≠ [] ∧ i ≠ 0 ∧ ω.system.CanRead s := by
      simpa [not_or] using hcon
    have hi := index_eq_of_readsTarget h hP hrest.delivering hcan hindex hreads
    have hlen := List.length_pos_iff.mpr hsome
    omega
  · intro hcond
    by_cases hcan : ω.system.CanRead s
    · refine readsTarget_of_aims h hP ⟨hrest, ?_⟩
      change (ω.system.queue.cursors s).index = _
      rw [hindex, hdist]
      rcases hcond with hnone | rfl | hno
      · rw [hnone, List.length_nil, Nat.sub_zero]
      · rw [Nat.zero_sub]
      · exact absurd hcan hno
    · intro cont x ω' hrun _ _ m' hm'
      have hknown := (sound_of_racingRun h).wellFormed.registered_known s
        (System.standing_eq_registered.mp hrest.standing)
      have hmem : m' ∈ readsOf s (events (cont ++ [x])) :=
        mem_readsOf.mpr (mem_events.mpr ⟨x, by simp, hm'⟩)
      rw [reads_nil_of_not_canRead hrun hknown hcan] at hmem
      simp at hmem

/-- Two messages, both delivered and committed. -/
def twoCommitted : List RacingAction :=
  [.subscribe 7, .enqueue 1 10 none, .enqueue 2 20 none, .dispatch 7, .dispatch 7, .dispatch 7,
    .received 7 (.ok .ack), .dispatch 7, .dispatch 7, .dispatch 7, .dispatch 7,
    .received 7 (.ok .ack), .dispatch 7].map .system

/-- The theorem at a replay with an enqueue between its two steps. -/
theorem replay_target_enqueued : ∃ tr t gap u ω,
    Run racingStep (.init 5 0) (tr ++ t :: (gap ++ [u])) ω ∧ t.act = .lookup 7 2 ∧
      ReadsTarget 7 (tr ++ t :: (gap ++ [u])) ω ⟨2, 20⟩ := by
  have h : Run racingStep (.init 5 0) _ _ := ((run_exec twoCommitted (by decide)).snoc
    (a := .lookup 7 2) rfl).append (run_exec [.system (.enqueue 3 21 none)] (by decide))
  have h' := h.snoc (a := .assign 0) rfl
  simp only [List.append_assoc, List.singleton_append] at h'
  refine ⟨_, _, _, _, _, h', rfl, (replay_target_iff (i := 1) h' rfl (by decide) rfl rfl ?_ rfl
    rfl).mpr (Or.inl rfl)⟩
  decide

/-- **A prune pass between the two steps makes a replay miss its message**: message `2` is found
at position `1`, message `1` is pruned, and the cursor is set to position `1` behind message `2`,
which the loop does not read although it is still there. -/
theorem replay_target_missed : ∃ tr t gap u ω cont v ω',
    Run racingStep (.init 5 0) (tr ++ t :: (gap ++ [u])) ω ∧ t.act = .lookup 7 2 ∧
      ⟨2, 20⟩ ∈ t.pre.system.queue.buffer ∧ (t.pre.system.loops 7).message = none ∧
      t.pre.system.queue.replayFromLookup 7 2 = .replayedFrom 1 ∧
      gap.map (·.act) = [.system (.beginPrune 16), .system (.prune 0)] ∧
      u.act = .assign t.pre.calls.length ∧
      Run racingStep ω (cont ++ [v]) ω' ∧
      cont.map (·.act) = [.system (.enqueue 3 21 none), .system (.dispatch 7)] ∧
      readsOf 7 (events cont) = [] ∧ v.out = [.dispatchRead 7 (some ⟨3, 21⟩)] ∧
      ⟨2, 20⟩ ∈ v.pre.system.queue.buffer := by
  have h : Run racingStep (.init 5 0) _ _ := ((run_exec twoCommitted (by decide)).snoc
    (a := .lookup 7 2) rfl).append
      (run_exec [.system (.beginPrune 16), .system (.prune 0)] (by decide))
  have h' := h.snoc (a := .assign 0) rfl
  simp only [List.append_assoc, List.singleton_append] at h'
  have hcont : Run racingStep (stateOf racingStep (.init 5 0) (twoCommitted ++ [.lookup 7 2,
      .system (.beginPrune 16), .system (.prune 0), .assign 0])) _ _ :=
    (run_exec [.system (.enqueue 3 21 none), .system (.dispatch 7)] (by decide)).snoc
      (a := .system (.dispatch 7)) rfl
  exact ⟨_, _, _, _, _, _, _, _, h', rfl, by decide, rfl, rfl, rfl, rfl, hcont, rfl, rfl, rfl,
    by decide⟩

end Main

end PushDeliveredQueue
