import PushDeliveredQueue.DeadLetters
import PushDeliveredQueue.Order

/-!
# Each dead letter once

`AddToDeadLetterQueue` does not look whether a message is in the queue already. That it never is
has to follow from where the cursor stands: dead letters have been committed, so they were
enqueued at places below the position of the cursor (`PushDeliveredQueue.EachOnce`), and what the
loop reads stands at the position. Every step keeps to this except a `ReplayFrom` that sets the
cursor back to a dead letter or before it, and nothing in `ReplayFrom` prevents that.
`PushDeliveredQueue.dead_letters_distinct` is the law for runs without such replays, and
`PushDeliveredQueue.dead_lettered_twice` a run with one.
-/

namespace PushDeliveredQueue

open Transitions

/-! ### How the position moves -/

section Position

variable {s : Guid} {v v' : CursorView} {evs evs' : List Event} {m : MessageEnvelope}

/-- Without replays the position of a cursor never goes back. -/
theorem CursorStep.position_le (h : CursorStep s v evs' v') (hs : v.standing ≠ .absent)
    (hreplay : ∀ id i, .replayedFrom s id i ∉ evs') :
    v.position evs ≤ v'.position (evs ++ evs') := by
  simp only [CursorView.position, prunedOf_append, List.length_append]
  cases h with
  | @prune gone kept _ =>
    have hgone : prunedOf [.pruned gone] = gone := by simp [prunedOf]
    simp only [hgone]
    split_ifs <;> omega
  | subscribe habs _ => exact absurd habs hs
  | replayFrom _ _ _ _ => exact absurd (List.mem_singleton.mpr rfl) (hreplay _ _)
  | readNothing _ _ _ | quiet _ => omega
  | _ =>
    simp only
    omega

/-- A commit moves it one further. -/
theorem CursorStep.position_committed (h : CursorStep s v evs' v')
    (hmem : .committed s m ∈ evs') : v'.position (evs ++ evs') = v.position evs + 1 := by
  cases h with
  | @commit m' _ _ =>
    have hnone : prunedOf [.committed s m'] = [] := rfl
    simp only [CursorView.position, prunedOf_append, hnone, List.append_nil]
    omega
  | release _ hq => exact absurd rfl (hq _ hmem)
  | quiet hq => exact absurd rfl (hq _ hmem)
  | _ => simp at hmem

/-- An accepted replay does nothing but set the index. -/
theorem CursorStep.of_replayedFrom {id : Guid} {i : ℕ} (h : CursorStep s v evs' v')
    (hmem : .replayedFrom s id i ∈ evs') :
    evs' = [.replayedFrom s id i] ∧ v.standing = .registered ∧ v' = { v with index := i } := by
  cases h with
  | replayFrom hs _ _ _ =>
    obtain ⟨rfl, rfl⟩ := by simpa using hmem
    exact ⟨rfl, hs, rfl⟩
  | release _ hq => exact absurd rfl (hq _ hmem)
  | quiet hq => exact absurd rfl (hq _ hmem)
  | _ => simp at hmem

/-- A message that was enqueued and does not stand in the buffer from a place on stands below
it. -/
theorem Ledger.placedBelow_of_notMem_drop {buffer : List MessageEnvelope} {i : ℕ}
    (h : Ledger evs buffer) (hm : m ∈ enqueuedOf evs) (hdrop : m ∉ buffer.drop i) :
    PlacedBelow evs m ((prunedOf evs).length + i) := by
  obtain ⟨j, hj⟩ := List.getElem?_of_mem hm
  refine ⟨j, hj, ?_⟩
  by_contra hcon
  refine hdrop (List.mem_of_getElem? (i := j - (prunedOf evs).length - i) ?_)
  rw [h.enqueued, List.getElem?_append_right (by omega)] at hj
  rw [List.getElem?_drop, ← hj]
  congr 1
  omega

end Position

/-! ### What every step keeps -/

/-- An accepted `ReplayFrom` of a subscriber's cursor goes back to a place from which on no dead
letter of it stands in the buffer, nor, after that place, the message it is being delivered. -/
def ReplaysNoDeadLetter (s : Guid) (t : Transition System Action Event) : Prop :=
  ∀ messageId i, .replayedFrom s messageId i ∈ t.out →
    (∀ m ∈ (t.pre.queue.cursors s).deadLetterQueue, m ∉ t.pre.queue.buffer.drop i) ∧
      ∀ m, (t.pre.loops s).message = some m → m ∉ t.pre.queue.buffer.drop (i + 1)

/-- **Why dead letters are distinct.** The dead letters of a registered subscriber were enqueued
below the position of its cursor, but for the one whose delivery is about to commit; and what is
being delivered is not a dead letter, but for that one. -/
structure EachOnce (s : Guid) (evs : List Event) (σ : System) : Prop where
  nodup : (σ.queue.cursors s).deadLetterQueue.Nodup
  absent : σ.standing s = .absent → (σ.queue.cursors s).deadLetterQueue = []
  below : σ.standing s = .registered → ∀ m ∈ (σ.queue.cursors s).deadLetterQueue,
    PlacedBelow evs m ((σ.cursorView s).position evs) ∨
      σ.loops s = .committing m ∧ PlacedBelow evs m ((σ.cursorView s).position evs + 1)
  delivering : σ.standing s = .registered → ∀ m, (σ.loops s).message = some m →
    PlacedBelow evs m ((σ.cursorView s).position evs + 1) ∧
      (m ∈ (σ.queue.cursors s).deadLetterQueue → σ.loops s = .committing m)

section Steps

variable {σ σ' : System} {a : Action} {evs evs' : List Event} {s : Guid} {m : MessageEnvelope}

theorem enqueuedOf_prefix (evs evs' : List Event) :
    enqueuedOf evs <+: enqueuedOf (evs ++ evs') := by
  rw [enqueuedOf_append]
  exact List.prefix_append _ _

/-- A step that adds no dead letter, reads no message and does not move the position back; a
loop that was about to commit still is, or has moved it on. -/
theorem EachOnce.forward (h : EachOnce s evs σ) (hreg : σ.standing s = .registered)
    (hreg' : σ'.standing s ≠ .absent)
    (hsub : (σ'.queue.cursors s).deadLetterQueue.Sublist (σ.queue.cursors s).deadLetterQueue)
    (hpos : (σ.cursorView s).position evs ≤ (σ'.cursorView s).position (evs ++ evs'))
    (hmsg : ∀ m, (σ'.loops s).message = some m → (σ.loops s).message = some m)
    (hcom : ∀ m, σ.loops s = .committing m → σ'.loops s = .committing m ∨
      (σ'.loops s).message = none ∧
        (σ.cursorView s).position evs + 1 ≤ (σ'.cursorView s).position (evs ++ evs')) :
    EachOnce s (evs ++ evs') σ' := by
  have hE := enqueuedOf_prefix evs evs'
  refine ⟨h.nodup.sublist hsub, fun habs => absurd habs hreg', fun _ m hm => ?_, fun _ m hm => ?_⟩
  · rcases h.below hreg m (hsub.subset hm) with hm | ⟨hl, hm⟩
    · exact Or.inl (hm.mono hE hpos)
    · rcases hcom m hl with hl' | ⟨-, hpos'⟩
      · exact Or.inr ⟨hl', hm.mono hE (by omega)⟩
      · exact Or.inl (hm.mono hE hpos')
  · obtain ⟨hplace, hdead⟩ := h.delivering hreg m (hmsg m hm)
    refine ⟨hplace.mono hE (by omega), fun hmem => ?_⟩
    refine (hcom m (hdead (hsub.subset hmem))).resolve_right ?_
    rintro ⟨hnone, -⟩
    simp [hnone] at hm

/-- The addition of a dead letter leads to its commit. -/
theorem Effect.committing_of_addedToDlq (h : Effect σ a σ' evs) (hmem : .addedToDlq s m ∈ evs) :
    σ'.loops s = .committing m := by
  cases h.loopStep s with
  | stays _ _ hquiet => exact absurd rfl (hquiet _ hmem)
  | dispatch hl =>
    generalize σ.loops s = p, σ'.loops s = p', σ'.queue = q' at hl
    cases hl <;> simp at hmem
    rw [hmem]
  | _ => simp at hmem

theorem Effect.loops_of_replayedFrom {messageId : Guid} {i : ℕ} (h : Effect σ a σ' evs)
    (hmem : .replayedFrom s messageId i ∈ evs) : σ'.loops s = σ.loops s := by
  cases h.loopStep s with
  | stays _ hl _ => exact hl
  | dispatch hl =>
    generalize σ.loops s = p, σ'.loops s = p', σ'.queue = q' at hl
    cases hl <;> simp at hmem
  | _ => simp at hmem

/-- The addition of a dead letter. -/
theorem EachOnce.add (h : EachOnce s evs σ) (hw : σ.WellFormed) (heff : Effect σ a σ' evs')
    (hadd : .addedToDlq s m ∈ evs') : EachOnce s (evs ++ evs') σ' := by
  have hl := heff.of_addedToDlq hadd
  have hl' := heff.committing_of_addedToDlq hadd
  obtain ⟨hreg, hevs, hview⟩ := (heff.dlqStep hw s).addedToDlq hadd
  have hentries : (σ'.queue.cursors s).deadLetterQueue =
      (σ.queue.cursors s).deadLetterQueue ++ [m] := congrArg DlqView.entries hview
  have hreg' : σ'.standing s = .registered := (congrArg DlqView.standing hview).trans hreg
  have hpos : (σ.cursorView s).position evs ≤ (σ'.cursorView s).position (evs ++ evs') := by
    refine (heff.cursorStep hw s).position_le ?_ ?_
    · have : (σ.cursorView s).standing = .registered := hreg
      simp [this]
    · simp [hevs]
  have hE := enqueuedOf_prefix evs evs'
  obtain ⟨hplace, hdead⟩ := h.delivering hreg m (by simp [hl, DispatchPhase.message])
  refine ⟨?_, fun habs => ?_, fun _ m' hm' => ?_, fun _ m' hm' => ?_⟩
  · rw [hentries]
    refine List.nodup_append.mpr ⟨h.nodup, List.nodup_singleton m, ?_⟩
    rintro x hx y hy rfl
    obtain rfl := List.mem_singleton.mp hy
    -- the message under delivery would be about to be committed already
    exact absurd (hl.symm.trans (hdead hx)) (by simp)
  · exact absurd (hreg'.symm.trans habs) (by simp)
  · rw [hentries] at hm'
    rcases List.mem_append.mp hm' with hm' | hm'
    · rcases h.below hreg m' hm' with hm' | ⟨hcom, -⟩
      · exact Or.inl (hm'.mono hE hpos)
      · exact absurd (hl.symm.trans hcom) (by simp)
    · obtain rfl := List.mem_singleton.mp hm'
      exact Or.inr ⟨hl', hplace.mono hE (by omega)⟩
  · obtain rfl : m = m' := by simpa [hl', DispatchPhase.message] using hm'
    exact ⟨hplace.mono hE (by omega), fun _ => hl'⟩

/-- A replay that spares the dead letters. -/
theorem EachOnce.replay (h : EachOnce s evs σ) (hw : σ.WellFormed) (heff : Effect σ a σ' evs')
    (hledger : Ledger evs σ.queue.buffer) {messageId : Guid} {i : ℕ}
    (hmem : .replayedFrom s messageId i ∈ evs')
    (hdead : ∀ m ∈ (σ.queue.cursors s).deadLetterQueue,
      m ∈ enqueuedOf evs ∧ m ∉ σ.queue.buffer.drop i)
    (hdel : ∀ m, (σ.loops s).message = some m →
      m ∈ enqueuedOf evs ∧ m ∉ σ.queue.buffer.drop (i + 1)) :
    EachOnce s (evs ++ evs') σ' := by
  have hl := heff.loops_of_replayedFrom hmem
  obtain ⟨hevs, hreg, hview⟩ := (heff.cursorStep hw s).of_replayedFrom hmem
  have hsub := (heff.dlqStep hw s).entries_sublist (by simp [hevs])
  have hreg' : σ'.standing s = .registered := (congrArg CursorView.standing hview).trans hreg
  have hE := enqueuedOf_prefix evs evs'
  have hpos : (σ'.cursorView s).position (evs ++ evs') = (prunedOf evs).length + i := by
    have hnone : prunedOf evs' = [] := by rw [hevs]; rfl
    rw [hview, CursorView.position, prunedOf_append, hnone, List.append_nil]
  refine ⟨h.nodup.sublist hsub, fun habs => ?_, fun _ m hm => Or.inl ?_, fun _ m hm => ⟨?_, ?_⟩⟩
  · exact absurd (hreg'.symm.trans habs) (by simp)
  · obtain ⟨henq, hdrop⟩ := hdead m (hsub.subset hm)
    exact (hledger.placedBelow_of_notMem_drop henq hdrop).mono hE (by omega)
  · obtain ⟨henq, hdrop⟩ := hdel m (hl ▸ hm)
    exact (hledger.placedBelow_of_notMem_drop henq hdrop).mono hE (by omega)
  · intro hmem'
    rw [hl] at hm ⊢
    exact (h.delivering hreg m hm).2 (hsub.subset hmem')

/-- What a step means for the message of a loop that adds no dead letter: one is read, or it
stays, or is dropped, by a commit if the loop was about to commit. -/
theorem LoopStep.message_cases (h : LoopStep s σ a σ' evs) (hids : s ∈ σ.subscriberIds)
    (hs : s ∈ σ.queue.subscribers) (hadd : ∀ m, .addedToDlq s m ∉ evs) :
    (∃ m, .dispatchRead s (some m) ∈ evs ∧ (σ.loops s).message = none ∧
        σ'.loops s = .attempting m 0) ∨
      (∀ m, (σ'.loops s).message = some m → (σ.loops s).message = some m) ∧
        ∀ m, σ.loops s = .committing m → σ'.loops s = .committing m ∨
          (σ'.loops s).message = none ∧ .committed s m ∈ evs := by
  cases h with
  | stays _ hl _ => exact Or.inr ⟨fun m hm => hl ▸ hm, fun m hm => Or.inl (hl.trans hm)⟩
  | starts hnew _ => exact absurd hids hnew
  | dispatch hle =>
    generalize σ.loops s = p, σ'.loops s = p', σ'.queue = q' at hle
    cases hle with
    | read _ _ => exact Or.inl ⟨_, List.mem_singleton.mpr rfl, rfl, rfl⟩
    | attemptThrows _ =>
      rw [message_afterAttempt]
      exact Or.inr ⟨fun m hm => hm, by simp⟩
    | addToDlq _ => exact absurd (List.mem_singleton.mpr rfl) (hadd _)
    | addToDlqMisses h | commitMisses h => exact absurd hs h
    | commit _ => exact Or.inr ⟨by simp [DispatchPhase.message], by simp [DispatchPhase.message]⟩
    | _ => exact Or.inr ⟨by simp [DispatchPhase.message], by simp⟩
  | received h h' =>
    rw [h, h', message_afterAttempt]
    exact Or.inr ⟨fun m hm => hm, by simp⟩
  | @retried _ m b r h h' =>
    rw [h, h']
    refine Or.inr ⟨fun m' hm => ?_, by simp⟩
    rcases message_afterManualRetry m b r with hm' | hm' <;> simp_all [DispatchPhase.message]
  | @failedHandled _ m r h h' =>
    rw [h, h']
    refine Or.inr ⟨fun m' hm => ?_, by simp⟩
    rcases message_afterFailedHandler m r with hm' | hm' <;> simp_all [DispatchPhase.message]

/-- A read returns what stands at the position, so no dead letter. -/
theorem EachOnce.read (h : EachOnce s evs σ) (hw : σ.WellFormed) (heff : Effect σ a σ' evs')
    (hledger : Ledger evs σ.queue.buffer) (h0 : 0 ≤ (σ.queue.cursors s).index)
    (hreg : σ.standing s = .registered) (hreg' : σ'.standing s ≠ .absent)
    (hsub : (σ'.queue.cursors s).deadLetterQueue.Sublist (σ.queue.cursors s).deadLetterQueue)
    (hpos : (σ.cursorView s).position evs ≤ (σ'.cursorView s).position (evs ++ evs'))
    (hread : .dispatchRead s (some m) ∈ evs') (hnone : (σ.loops s).message = none)
    (hl' : σ'.loops s = .attempting m 0) : EachOnce s (evs ++ evs') σ' := by
  have hE := enqueuedOf_prefix evs evs'
  have hm := (heff.cursorStep hw s).of_dispatchRead hread
  obtain ⟨j, hj, hplace⟩ := Ledger.getElem?_position (v := σ.cursorView s) hledger h0 hm
  -- all the dead letters stand strictly below the position
  have hbelow : ∀ m' ∈ (σ.queue.cursors s).deadLetterQueue,
      PlacedBelow evs m' ((σ.cursorView s).position evs) := by
    intro m' hm'
    refine (h.below hreg m' hm').resolve_right ?_
    rintro ⟨hcom, -⟩
    simp [hcom, DispatchPhase.message] at hnone
  refine ⟨h.nodup.sublist hsub, fun habs => absurd habs hreg', fun _ m' hm' => Or.inl ?_,
    fun _ m' hm' => ?_⟩
  · exact (hbelow m' (hsub.subset hm')).mono hE hpos
  · obtain rfl : m = m' := by simpa [hl', DispatchPhase.message] using hm'
    refine ⟨PlacedBelow.mono ⟨j, hj, by omega⟩ hE (Int.add_le_add_right hpos 1), fun hmem => ?_⟩
    exact absurd (hbelow m (hsub.subset hmem)) (hledger.not_placedBelow hj (by omega))

/-- A loop that has not been started is delivering nothing after a step either. -/
theorem LoopStep.message_of_notStarted (h : LoopStep s σ a σ' evs)
    (hl : σ.loops s = .notStarted) : (σ'.loops s).message = none := by
  cases h with
  | stays _ hl' _ => rw [hl', hl]; rfl
  | starts _ h =>
    rcases h with h | ⟨h, -⟩ <;> rw [h] <;> rfl
  | dispatch hle =>
    generalize σ'.loops s = p', σ'.queue = q' at hle
    rw [hl] at hle
    cases hle
  | received h _ | retried h _ | failedHandled h _ => simp [hl] at h

/-- **One transition keeps the dead letters of a subscriber distinct**, unless it is a replay
that goes back to one of them. -/
theorem EachOnce.step (h : EachOnce s evs σ) (hw : σ.WellFormed) (heff : Effect σ a σ' evs')
    (hledger : Ledger evs σ.queue.buffer) (h0 : 0 ≤ (σ.queue.cursors s).index)
    (hdead : ∀ m ∈ (σ.queue.cursors s).deadLetterQueue, m ∈ enqueuedOf evs)
    (hdel : ∀ m, (σ.loops s).message = some m → m ∈ enqueuedOf evs)
    (hok : ReplaysNoDeadLetter s ⟨σ, a, evs', σ'⟩) : EachOnce s (evs ++ evs') σ' := by
  by_cases hadd : ∃ m, .addedToDlq s m ∈ evs'
  · obtain ⟨m, hm⟩ := hadd
    exact h.add hw heff hm
  by_cases hreplay : ∃ id i, .replayedFrom s id i ∈ evs'
  · obtain ⟨id, i, hmem⟩ := hreplay
    obtain ⟨hsafe, hsafe'⟩ := hok id i hmem
    exact h.replay hw heff hledger hmem (fun m hm => ⟨hdead m hm, hsafe m hm⟩)
      fun m hm => ⟨hdel m hm, hsafe' m hm⟩
  have hadd' : ∀ m, .addedToDlq s m ∉ evs' := fun m hm => hadd ⟨m, hm⟩
  have hsub := (heff.dlqStep hw s).entries_sublist hadd'
  rcases hst : σ.standing s with _ | _ | _
  · -- nobody has subscribed under this `Guid` yet, or does so now
    have hnil : (σ'.queue.cursors s).deadLetterQueue = [] :=
      List.sublist_nil.mp (h.absent hst ▸ hsub)
    have hmsg := (heff.loopStep s).message_of_notStarted
      (hw.unknown_idle s (System.standing_eq_absent.mp hst).2)
    exact ⟨by simp [hnil], fun _ => hnil, by simp [hnil], by simp [hmsg]⟩
  · have hreg := System.standing_eq_registered.mp hst
    have hview : (σ.cursorView s).standing = .registered := hst
    have hpos : (σ.cursorView s).position evs ≤ (σ'.cursorView s).position (evs ++ evs') :=
      (heff.cursorStep hw s).position_le (by simp [hview]) fun id i hmem => hreplay ⟨id, i, hmem⟩
    have hst' : σ'.standing s ≠ .absent := by
      intro habs
      have := ((heff.dlqStep hw s).absent habs).1
      exact absurd (hst.symm.trans this) (by simp)
    rcases (heff.loopStep s).message_cases (hw.registered_known s hreg) hreg hadd' with
      ⟨m, hread, hnone, hl'⟩ | ⟨hmsg, hcom⟩
    · exact h.read hw heff hledger h0 hst hst' hsub hpos hread hnone hl'
    · refine h.forward hst hst' hsub hpos hmsg fun m hm => (hcom m hm).imp id ?_
      rintro ⟨hnone, hmem⟩
      exact ⟨hnone, ((heff.cursorStep hw s).position_committed hmem).ge⟩
  · -- the subscriber has left
    have hst' : σ'.standing s = .removed := (heff.cursorStep hw s).removed hst
    exact ⟨h.nodup.sublist hsub, by simp [hst'], by simp [hst'], by simp [hst']⟩

end Steps

/-! ### Over whole runs -/

section Runs

variable {ttl : TimeSpan} {n : ℕ} {tr : Trace} {σ : System} {s : Guid}

theorem eachOnce_of_run (h : RunOf ttl n tr σ) (hok : ∀ t ∈ tr, ReplaysNoDeadLetter s t) :
    EachOnce s (events tr) σ := by
  refine h.invariantOn (I := fun tr σ => EachOnce s (events tr) σ) ?_ ?_ hok
  · constructor <;> simp [System.init, System.standing]
  · intro tr σ a evs σ' hrun hi hs hok
    simpa using hi.step (wellFormed_of_run hrun) (effect_of_step hs) (ledger_of_run hrun)
      (index_nonneg_of_run hrun s)
      (fun m hm => (addedToDlq_of_run hrun ((accounted_of_run hrun s).entries m hm)).1)
      (fun m hm => delivering_enqueued_of_run hrun hm) hok

/-- **The dead letter queue holds each message once**: in every state of a run in which no
accepted `ReplayFrom` of the subscriber goes back to one of its dead letters or before it, or
before the message it is being delivered. -/
theorem dead_letters_distinct (h : RunOf ttl n tr σ)
    (hok : ∀ t ∈ tr, ReplaysNoDeadLetter s t) :
    ((σ.queue.cursors s).deadLetterQueue.map (·.id)).Nodup := by
  refine List.Nodup.map_on (fun m hm m' hm' hid => ?_) (eachOnce_of_run h hok).nodup
  have hadded : ∀ m ∈ (σ.queue.cursors s).deadLetterQueue, .addedToDlq s m ∈ events tr :=
    (accounted_of_run h s).entries
  exact eq_of_addedToDlq h (hadded m' hm') (hadded m hm) hid

/-- A dead letter, a message committed after it, and a replay from that one, which then fails
too. -/
def replayAfterDeadLetter : List Action :=
  [.subscribe 7, .enqueue 1 10 none, .enqueue 2 11 none] ++ deadLetter 7 ++
    [.dispatch 7, .dispatch 7, .dispatch 7, .received 7 (.ok .ack), .dispatch 7,
      .replayFrom 7 2] ++ deadLetter 7

/-- The theorem at a replay that spares the dead letter. -/
theorem dead_letters_distinct_replayed : ∃ tr σ, RunOf 100 0 tr σ ∧
    .replayedFrom 7 2 1 ∈ events tr ∧
    ((σ.queue.cursors 7).deadLetterQueue.map (·.id)) = [1, 2] ∧
    ((σ.queue.cursors 7).deadLetterQueue.map (·.id)).Nodup := by
  have h := runOf_exec 100 0 replayAfterDeadLetter (by decide)
  have hspared : ∀ t ∈ traceOf step (System.init 100 0) replayAfterDeadLetter,
      t.act.replays 7 = true → t.out = [.replayedFrom 7 2 1] ∧
        (t.pre.queue.cursors 7).deadLetterQueue = [⟨1, 10⟩] ∧
        t.pre.queue.buffer.drop 1 = [⟨2, 11⟩] ∧ (t.pre.loops 7).message = none := by decide
  refine ⟨_, _, h, by decide, by decide, dead_letters_distinct h fun t ht id i hmem => ?_⟩
  obtain ⟨pre, post, -, -, hstep, -⟩ := h.of_mem ht
  have hact := (effect_of_step hstep).of_replayedFrom hmem
  obtain ⟨hout, hdlq, hdrop, hmsg⟩ := hspared t ht (by simp [hact, Action.replays])
  obtain ⟨rfl, rfl⟩ : id = 2 ∧ i = 1 := by simpa [hout] using hmem
  exact ⟨by simp [hdlq, hdrop], by simp [hmsg]⟩

/-- **A dead letter twice**: a message that has been dead-lettered is replayed from, fails again
and is added again. -/
theorem dead_lettered_twice : ∃ tr σ, RunOf 100 0 tr σ ∧
    ¬ ((σ.queue.cursors 7).deadLetterQueue.map (·.id)).Nodup := by
  have h := runOf_exec 100 0 ([.subscribe 7, .enqueue 1 10 none] ++ deadLetter 7 ++
    [.replayFrom 7 1] ++ deadLetter 7) (by decide)
  exact ⟨_, _, h, by decide⟩

end Runs

end PushDeliveredQueue
