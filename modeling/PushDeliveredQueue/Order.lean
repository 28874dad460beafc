import PushDeliveredQueue.Loop

/-!
# In order, and committed at most once

What a subscriber's dispatch loop reads, over a whole run in which nobody replays its cursor:
the messages come in the order they were enqueued, and none comes again once `Commit` has run
at the end of its delivery (`PushDeliveredQueue.delivery_ordered`).

The index itself is no measure of progress, since every prune pass moves it back. What only
ever grows is the **position** of the cursor, `PushDeliveredQueue.CursorView.position`: the
number of messages pruned so far plus the index. It counts places in the list of all the
messages ever enqueued, so that a read returns the message at the position, a commit moves it
one further and a pass leaves it where it is or, when it removes messages the subscriber has
not been given, moves it past them.
-/

namespace PushDeliveredQueue

open Transitions

/-! ### The position of a cursor -/

/-- The place of a cursor in the list of all the messages enqueued. -/
def CursorView.position (v : CursorView) (evs : List Event) : ℤ :=
  (prunedOf evs).length + v.index

/-- A message was enqueued at a place below a bound. -/
def PlacedBelow (evs : List Event) (m : MessageEnvelope) (x : ℤ) : Prop :=
  ∃ j : ℕ, (enqueuedOf evs)[j]? = some m ∧ (j : ℤ) < x

/-- One message was enqueued before another. -/
def EnqueuedBefore (evs : List Event) (m m' : MessageEnvelope) : Prop :=
  [m, m'].Sublist (enqueuedOf evs)

section Places

variable {evs evs' : List Event} {m m' : MessageEnvelope} {x y : ℤ}

theorem PlacedBelow.mono (h : PlacedBelow evs m x) (hE : enqueuedOf evs <+: enqueuedOf evs')
    (hxy : x ≤ y) : PlacedBelow evs' m y := by
  obtain ⟨j, hj, hlt⟩ := h
  refine ⟨j, ?_, lt_of_lt_of_le hlt hxy⟩
  obtain ⟨rest, hrest⟩ := hE
  rw [← hrest, List.getElem?_append_left (List.getElem?_eq_some_iff.mp hj).1, hj]

theorem EnqueuedBefore.mono (h : EnqueuedBefore evs m m')
    (hE : enqueuedOf evs <+: enqueuedOf evs') : EnqueuedBefore evs' m m' :=
  h.trans hE.sublist

/-- Two messages at places in this order were enqueued in this order. -/
theorem enqueuedBefore_of_lt {i j : ℕ} (hi : (enqueuedOf evs)[i]? = some m)
    (hj : (enqueuedOf evs)[j]? = some m') (hij : i < j) : EnqueuedBefore evs m m' := by
  have hsplit : (enqueuedOf evs).take j ++ (enqueuedOf evs).drop j = enqueuedOf evs :=
    List.take_append_drop j _
  have hm : m ∈ (enqueuedOf evs).take j := by
    refine List.mem_of_getElem? (i := i) ?_
    rw [List.getElem?_take_of_lt hij, hi]
  have hm' : m' ∈ (enqueuedOf evs).drop j := by
    refine List.mem_of_getElem? (i := 0) ?_
    rw [List.getElem?_drop, Nat.add_zero, hj]
  rw [EnqueuedBefore, ← hsplit]
  exact (List.singleton_sublist.mpr hm).append (List.singleton_sublist.mpr hm')

/-- The message a read returns stands at the position of the cursor. -/
theorem Ledger.getElem?_position {v : CursorView} (h : Ledger evs v.buffer) (h0 : 0 ≤ v.index)
    (hm : v.buffer[v.index.toNat]? = some m) :
    ∃ j : ℕ, (enqueuedOf evs)[j]? = some m ∧ (j : ℤ) = v.position evs := by
  refine ⟨(prunedOf evs).length + v.index.toNat, ?_, ?_⟩
  · rw [h.enqueued, List.getElem?_append_right (Nat.le_add_right _ _), Nat.add_sub_cancel_left, hm]
  · rw [CursorView.position]
    omega

/-- Each message has one place. -/
theorem Ledger.not_placedBelow {buffer : List MessageEnvelope} {j : ℕ} (h : Ledger evs buffer)
    (hj : (enqueuedOf evs)[j]? = some m) (hx : x ≤ j) : ¬ PlacedBelow evs m x := by
  rintro ⟨i, hi, hlt⟩
  have hij : i = j :=
    (List.getElem?_inj (List.getElem?_eq_some_iff.mp hi).1 h.nodup).mp (hi.trans hj.symm)
  omega

end Places

/-! ### What one step keeps -/

/-- **How far a subscriber has got**: what its loop has read stands at the position of its
cursor or below, what it has committed strictly below, and it has read in order. -/
structure Progress (s : Guid) (evs : List Event) (v : CursorView) : Prop where
  index_nonneg : 0 ≤ v.index
  read : ∀ m ∈ readsOf s evs, PlacedBelow evs m (v.position evs + 1)
  committed : ∀ m ∈ committedOf s evs, PlacedBelow evs m (v.position evs)
  delivering : ∀ m, v.delivering = some m → m ∈ readsOf s evs
  absent : v.standing = .absent → readsOf s evs = [] ∧ committedOf s evs = []
  ordered : (readsOf s evs).Pairwise fun m m' => m = m' ∨ EnqueuedBefore evs m m'

namespace Progress

variable {s : Guid} {evs evs' : List Event} {v v' : CursorView}

/-- A step that moves the position forward, if at all, and reads and commits nothing. -/
theorem forward (h : Progress s evs v) (h0 : 0 ≤ v'.index)
    (hE : enqueuedOf evs <+: enqueuedOf (evs ++ evs'))
    (hpos : v.position evs ≤ v'.position (evs ++ evs')) (hreads : readsOf s evs' = [])
    (hcommitted : committedOf s evs' = [])
    (hdel : ∀ m, v'.delivering = some m → v.delivering = some m)
    (habs : v'.standing = .absent → v.standing = .absent) : Progress s (evs ++ evs') v' := by
  have hr : readsOf s (evs ++ evs') = readsOf s evs := by simp [hreads]
  have hc : committedOf s (evs ++ evs') = committedOf s evs := by simp [hcommitted]
  refine ⟨h0, ?_, ?_, ?_, ?_, ?_⟩
  · intro m hm
    exact (h.read m (hr ▸ hm)).mono hE (by omega)
  · intro m hm
    exact (h.committed m (hc ▸ hm)).mono hE hpos
  · intro m hm
    rw [hr]
    exact h.delivering m (hdel m hm)
  · intro hs
    rw [hr, hc]
    exact h.absent (habs hs)
  · rw [hr]
    exact h.ordered.imp fun hmm => hmm.imp id (·.mono hE)

/-- A step that leaves the position, reads and commits nothing. -/
theorem still (h : Progress s evs v) (hi : v'.index = v.index) (henq : enqueuedOf evs' = [])
    (hpruned : prunedOf evs' = []) (hreads : readsOf s evs' = [])
    (hcommitted : committedOf s evs' = [])
    (hdel : ∀ m, v'.delivering = some m → v.delivering = some m)
    (habs : v'.standing = .absent → v.standing = .absent) : Progress s (evs ++ evs') v' := by
  refine h.forward (hi ▸ h.index_nonneg) ?_ (le_of_eq ?_) hreads hcommitted hdel habs
  · simp [henq]
  · simp [CursorView.position, hpruned, hi]

/-- Subscribing, before which there is nothing to keep. -/
theorem subscribe (h : Progress s evs v) (hs : v.standing = .absent) (hd : v.delivering = none) :
    Progress s (evs ++ []) { v with index := 0, standing := .registered } := by
  obtain ⟨hr, hc⟩ := h.absent hs
  rw [List.append_nil]
  refine ⟨le_refl _, ?_, ?_, ?_, by simp, by simp [hr]⟩
  · simp [hr]
  · simp [hc]
  · intro m hm
    exact absurd (hd.symm.trans hm) (by simp)

/-- **A read returns the message at the position**, which has not been committed and, if it
is not the last one read, was enqueued after all the messages read before. -/
theorem dispatchRead (h : Progress s evs v) (hl : Ledger evs v.buffer) {m : MessageEnvelope}
    (hs : v.standing ≠ .absent) (hm : v.buffer[v.index.toNat]? = some m) :
    Progress s (evs ++ [.dispatchRead s (some m)]) { v with delivering := some m } := by
  obtain ⟨j, hj, hpos⟩ := hl.getElem?_position h.index_nonneg hm
  have hE : enqueuedOf (evs ++ [Event.dispatchRead s (some m)]) = enqueuedOf evs := by
    simp [enqueuedOf]
  have hP : prunedOf (evs ++ [Event.dispatchRead s (some m)]) = prunedOf evs := by
    simp [prunedOf]
  have hr : readsOf s (evs ++ [Event.dispatchRead s (some m)]) = readsOf s evs ++ [m] := by
    simp [readsOf]
  have hc : committedOf s (evs ++ [Event.dispatchRead s (some m)]) = committedOf s evs := by
    simp [committedOf]
  refine ⟨h.index_nonneg, ?_, ?_, ?_, fun hcon => absurd hcon hs, ?_⟩
  · simp only [hr, PlacedBelow, hE, CursorView.position, hP]
    intro x hx
    rcases List.mem_append.mp hx with hx | hx
    · exact h.read x hx
    · obtain rfl := List.mem_singleton.mp hx
      exact ⟨j, hj, by rw [CursorView.position] at hpos; omega⟩
  · simp only [hc, PlacedBelow, hE, CursorView.position, hP]
    exact h.committed
  · rintro x ⟨⟩
    simp [hr]
  · simp only [hr, EnqueuedBefore, hE]
    refine List.pairwise_append.mpr ⟨h.ordered, List.pairwise_singleton _ _, ?_⟩
    intro x hx y hy
    obtain rfl := List.mem_singleton.mp hy
    -- what was read before is placed no higher than what is read now
    obtain ⟨i, hi, hlt⟩ := h.read x hx
    rcases eq_or_lt_of_le (show i ≤ j by omega) with rfl | hij
    · exact Or.inl (Option.some.inj (hi.symm.trans hj))
    · exact Or.inr (enqueuedBefore_of_lt hi hj hij)

/-- A commit moves the position past the message delivered. -/
theorem commit (h : Progress s evs v) {m : MessageEnvelope} (hs : v.standing = .registered)
    (hd : v.delivering = some m) :
    Progress s (evs ++ [.committed s m]) { v with index := v.index + 1, delivering := none } := by
  have hE : enqueuedOf (evs ++ [Event.committed s m]) = enqueuedOf evs := by simp [enqueuedOf]
  have hP : prunedOf (evs ++ [Event.committed s m]) = prunedOf evs := by simp [prunedOf]
  have hr : readsOf s (evs ++ [Event.committed s m]) = readsOf s evs := by simp [readsOf]
  have hc : committedOf s (evs ++ [Event.committed s m]) = committedOf s evs ++ [m] := by
    simp [committedOf]
  have hE' : enqueuedOf evs <+: enqueuedOf (evs ++ [Event.committed s m]) :=
    hE ▸ List.prefix_refl _
  have hpos : CursorView.position { v with index := v.index + 1, delivering := none }
      (evs ++ [Event.committed s m]) = v.position evs + 1 := by
    simp only [CursorView.position, hP]
    omega
  refine ⟨Int.add_nonneg h.index_nonneg Int.one_nonneg, ?_, ?_, by simp, ?_, ?_⟩
  · intro x hx
    exact (h.read x (hr ▸ hx)).mono hE' (by omega)
  · rw [hc, hpos]
    intro x hx
    rcases List.mem_append.mp hx with hx | hx
    · exact (h.committed x hx).mono hE' (by omega)
    · obtain rfl := List.mem_singleton.mp hx
      exact (h.read x (h.delivering x hd)).mono hE' (le_refl _)
  · intro hcon
    exact absurd (hs.symm.trans hcon) (by simp)
  · rw [hr]
    exact h.ordered.imp fun hmm => hmm.imp id (·.mono hE')

/-- **One step keeps the progress made**, unless it is an accepted `ReplayFrom`. -/
theorem step (h : Progress s evs v) (hl : Ledger evs v.buffer) (hs : CursorStep s v evs' v')
    (hno : ∀ id i, .replayedFrom s id i ∉ evs') : Progress s (evs ++ evs') v' := by
  have h0' := hs.index_nonneg h.index_nonneg
  cases hs with
  | enqueue m =>
    refine h.forward h0' ?_ (le_of_eq ?_) rfl rfl (fun _ hm => hm) id
    · simp
    · simp [CursorView.position, prunedOf]
  | @prune gone kept hsplit =>
    refine h.forward h0' ?_ ?_ rfl rfl (fun _ hm => hm) id
    · simp [enqueuedOf]
    · -- the pass removes as many messages as it moves the index back, or more
      have hlen : (prunedOf (evs ++ [Event.pruned gone])).length =
          (prunedOf evs).length + gone.length := by
        simp [prunedOf]
      simp only [CursorView.position, hlen]
      split_ifs <;> omega
  | subscribe habs hd => exact h.subscribe habs hd
  | unsubscribe _ => exact h.still rfl rfl rfl rfl rfl (fun _ hm => hm) (by simp)
  | replayFrom _ _ _ _ => exact absurd (List.mem_singleton.mpr rfl) (hno _ _)
  | readNothing _ _ _ =>
    exact h.still rfl rfl rfl (by simp [readsOf]) rfl (fun _ hm => hm) id
  | read habs _ _ hm => exact h.dispatchRead hl habs hm
  | commit hreg hd => exact h.commit hreg hd
  | commitMissed _ _ => exact h.still rfl rfl rfl rfl rfl (by simp) id
  | release _ hq =>
    exact h.still rfl hq.enqueuedOf_eq hq.prunedOf_eq hq.readsOf_eq hq.committedOf_eq (by simp) id
  | quiet hq =>
    exact h.still rfl hq.enqueuedOf_eq hq.prunedOf_eq hq.readsOf_eq hq.committedOf_eq
      (fun _ hm => hm) id

end Progress

/-! ### Over whole runs -/

section Runs

variable {ttl : TimeSpan} {n : ℕ} {tr : Trace} {σ σ' : System} {a : Action} {evs : List Event}
  {s : Guid} {m : MessageEnvelope}

/-- Whether an action is a `ReplayFrom` call for a subscriber. -/
def Action.replays (s : Guid) : Action → Bool
  | .replayFrom s' _ => s' = s
  | _ => false

/-- What a subscriber has got to, in a run in which nobody replays its cursor. -/
theorem progress_of_run (h : RunOf ttl n tr σ) (hno : ∀ t ∈ tr, t.act.replays s = false) :
    Progress s (events tr) (σ.cursorView s) := by
  have hmain := cursorInvariant (s := s)
    (I := fun evs v => (∀ id i, .replayedFrom s id i ∉ evs) → Progress s evs v)
    (fun _ => ⟨le_refl _, by simp [readsOf], by simp [committedOf], by simp, fun _ => ⟨rfl, rfl⟩,
      List.Pairwise.nil⟩)
    (fun evs v evs' v' hl _ hs hi hquiet => (hi fun id i hmem =>
      hquiet id i (List.mem_append_left _ hmem)).step hl hs fun id i hmem =>
        hquiet id i (List.mem_append_right _ hmem)) h
  refine hmain fun id i hmem => ?_
  obtain ⟨t, ht, he⟩ := mem_events.mp hmem
  obtain ⟨pre, post, rfl, hpre, hstep, -⟩ := h.of_mem ht
  have hact := (effect_of_step hstep).of_replayedFrom he
  simpa [hact, Action.replays] using hno t ht

/-- A read for delivery returns what stands at the index. -/
theorem CursorStep.of_dispatchRead {v v' : CursorView} (h : CursorStep s v evs v')
    (hmem : .dispatchRead s (some m) ∈ evs) : v.buffer[v.index.toNat]? = some m := by
  cases h with
  | read _ _ _ hm =>
    obtain rfl : m = _ := by simpa using hmem
    exact hm
  | release _ hq => exact absurd rfl (hq _ hmem)
  | quiet hq => exact absurd rfl (hq _ hmem)
  | _ => simp at hmem

/-- **Committed messages are not read again.** -/
theorem notMem_readsOf_of_committed {pre post : Trace} {t : Transition System Action Event}
    (h : RunOf ttl n (pre ++ t :: post) σ)
    (hno : ∀ u ∈ pre ++ t :: post, u.act.replays s = false)
    (ht : .committed s m ∈ t.out) : m ∉ readsOf s (events post) := by
  intro hread
  obtain ⟨u, hu, he⟩ := mem_events.mp (mem_readsOf.mp hread)
  obtain ⟨post₁, post₂, rfl⟩ := List.append_of_mem hu
  rw [← List.cons_append, ← List.append_assoc] at h hno
  obtain ⟨hrun, hstep, -⟩ := h.cut
  have hprogress := progress_of_run hrun fun w hw => hno w (List.mem_append_left _ hw)
  have hcommitted : m ∈ committedOf s (events (pre ++ t :: post₁)) := by
    refine mem_committedOf.mpr (mem_events.mpr ⟨t, by simp, ht⟩)
  have hm := ((effect_of_step hstep).cursorStep (wellFormed_of_run hrun) s).of_dispatchRead he
  have hledger : Ledger (events (pre ++ t :: post₁)) (u.pre.cursorView s).buffer :=
    ledger_of_run hrun
  -- the message read stands at the position, and the committed ones below it
  obtain ⟨j, hj, hpos⟩ := hledger.getElem?_position hprogress.index_nonneg hm
  exact hledger.not_placedBelow hj hpos.ge (hprogress.committed m hcommitted)

/-- The loop of a subscriber that has left, once it has come back to its `while` condition. -/
def System.Retired (σ : System) (s : Guid) : Prop :=
  σ.standing s = .removed ∧
    (σ.loops s = .checking ∨ σ.loops s = .ended ∨ σ.loops s = .faulted)

theorem CursorStep.removed {v v' : CursorView} (h : CursorStep s v evs v')
    (hs : v.standing = .removed) : v'.standing = .removed := by
  cases h with
  | subscribe habs _ => exact absurd (hs.symm.trans habs) (by simp)
  | _ => first | exact hs | rfl

/-- **A retired loop reads nothing more**: it is cancelled, and sees it at its next step. -/
theorem System.Retired.step (h : σ.Retired s) (hw : σ.WellFormed) (heff : Effect σ a σ' evs) :
    σ'.Retired s ∧ ∀ next, .dispatchRead s next ∉ evs := by
  obtain ⟨hs, hl⟩ := h
  have hs' : σ'.standing s = .removed := (heff.cursorStep hw s).removed hs
  have hne : σ.loops s ≠ .notStarted := by
    rcases hl with hl | hl | hl <;> simp [hl]
  have hc := hw.left_cancelled s (System.standing_eq_removed.mp hs).1 hne
  cases heff.loopStep s with
  | stays _ hl' hquiet =>
    refine ⟨⟨hs', hl' ▸ hl⟩, fun next hmem => hquiet _ hmem rfl⟩
  | starts hids _ => exact absurd (System.standing_eq_removed.mp hs).2 hids
  | dispatch hle =>
    suffices hstop : (σ'.loops s = .ended ∨ σ'.loops s = .faulted) ∧ evs = [] from
      ⟨⟨hs', Or.inr hstop.1⟩, by simp [hstop.2]⟩
    generalize σ'.loops s = p', σ'.queue = q' at hle
    rcases hl with hl | hl | hl <;> rw [hl] at hle <;> cases hle
    · exact ⟨Or.inr rfl, rfl⟩
    · exact ⟨Or.inl rfl, rfl⟩
    · rename_i hc'
      exact absurd (hc.symm.trans hc') (by simp)
  | received h _ | retried h _ | failedHandled h _ =>
    rcases hl with hl | hl | hl <;> simp [hl] at h

theorem System.Retired.reads_nil (h : RunOf ttl n tr σ) (hret : σ.Retired s) {post : Trace}
    (hpost : Run PushDeliveredQueue.step σ post σ') : readsOf s (events post) = [] := by
  have hmain : σ'.WellFormed ∧ σ'.Retired s ∧ readsOf s (events post) = [] := by
    refine hpost.invariant
      (I := fun tr σ => σ.WellFormed ∧ σ.Retired s ∧ readsOf s (events tr) = [])
      ⟨wellFormed_of_run h, hret, rfl⟩ ?_
    rintro tr σ a evs σ' - ⟨hw, hr, hnil⟩ hstep
    have heff := effect_of_step hstep
    obtain ⟨hr', hread⟩ := hr.step hw heff
    refine ⟨hw.of_effect heff, hr', ?_⟩
    have hevs : readsOf s evs = [] :=
      List.eq_nil_iff_forall_not_mem.mpr fun m hm => hread _ (mem_readsOf.mp hm)
    simp [hnil, hevs]
  exact hmain.2.2

/-- **Ordered, at-most-once committed delivery.** In a run in which `ReplayFrom` is not
called for a subscriber, of the messages its loop reads each was enqueued before the next
ones that differ from it; and once `Commit` has run at the end of the delivery of a message,
whether or not it still found the subscriber, the message is not read again. -/
theorem delivery_ordered (h : RunOf ttl n tr σ)
    (hno : ∀ t ∈ tr, t.act.replays s = false) :
    (readsOf s (events tr)).Pairwise (fun m m' => m = m' ∨ EnqueuedBefore (events tr) m m') ∧
      ∀ pre t post m, tr = pre ++ t :: post → t.act = .dispatch s →
        t.pre.loops s = .committing m → m ∉ readsOf s (events post) := by
  refine ⟨(progress_of_run h hno).ordered, ?_⟩
  rintro pre t post m rfl hact hl
  obtain ⟨hpre, hstep, hpost⟩ := h.cut
  have heff := effect_of_step hstep
  rw [hact] at heff
  by_cases hs : s ∈ t.pre.queue.subscribers
  · refine notMem_readsOf_of_committed h hno ?_
    rw [(heff.committed hl hs).1]
    exact List.mem_singleton.mpr rfl
  · -- the subscriber has left: its loop is cancelled, and back at its condition
    have hw := wellFormed_of_run hpre
    have hstanding : t.pre.standing s = .removed := by
      refine System.standing_eq_removed.mpr ⟨hs, ?_⟩
      by_contra hids
      exact absurd ((hw.unknown_idle s hids).symm.trans hl) (by simp)
    have hret : t.post.Retired s := by
      refine ⟨(heff.cursorStep hw s).removed hstanding, Or.inl ?_⟩
      generalize t.post = σ₁, t.out = evs at heff
      cases heff with
      | dispatch hp hle =>
        rw [hl] at hp
        subst hp
        rw [System.loops_moveLoop_self]
        cases hle <;> rfl
    rw [hret.reads_nil (hpre.snoc hstep) hpost]
    exact List.not_mem_nil

/-- The theorem at a run in which the message being delivered is pruned before its commit. -/
theorem delivery_ordered_pruned : ∃ tr σ, RunOf 5 0 tr σ ∧
    readsOf 7 (events tr) = [⟨1, 10⟩, ⟨3, 20⟩] ∧
    (readsOf 7 (events tr)).Pairwise (fun m m' => m = m' ∨ EnqueuedBefore (events tr) m m') := by
  have hrun := runOf_exec 5 0 [.subscribe 7, .enqueue 1 10 none, .dispatch 7, .dispatch 7,
    .dispatch 7, .beginPrune 20, .prune 0, .enqueue 2 20 none, .enqueue 3 20 none,
    .received 7 (.ok .ack), .dispatch 7, .dispatch 7, .dispatch 7] (by decide)
  exact ⟨_, _, hrun, by decide, (delivery_ordered (s := 7) hrun (by decide)).1⟩

end Runs

end PushDeliveredQueue
