import PushDeliveredQueue.Cursor
import PushDeliveredQueue.Fifo

/-!
# Every subscriber reads from a plain queue

The buffer and the index of a registered subscriber, put together as the list of the messages
still to be delivered to it (`PushDeliveredQueue.System.pending`), make up the first-in,
first-out queue of `Fifo.Queue`: every transition of the system is one operation on it
(`PushDeliveredQueue.CursorStep.fifoStep`), in every run in which no prune pass removes the
message the subscriber is being delivered and no `ReplayFrom` is accepted for it meanwhile
(`PushDeliveredQueue.Undisturbed`). Under these two conditions the message being delivered
stays where the cursor points (`PushDeliveredQueue.Aligned`), and `Commit`, which increments
the index without looking, takes out that message and no other.

The library then gives what a queue is for: delivery in order, exactly once.
-/

namespace PushDeliveredQueue

open Transitions

/-! ### The abstraction -/

/-- The messages still to be delivered to a subscriber. -/
def System.pending (σ : System) (s : Guid) : List MessageEnvelope :=
  σ.queue.buffer.drop (σ.queue.cursors s).index.toNat

/-- The queue a view stands for. -/
def CursorView.fifo (v : CursorView) : Fifo.Queue MessageEnvelope where
  retained := v.buffer
  pending := v.buffer.drop v.index.toNat
  working := v.delivering

/-- What an event means for the queue of a subscriber, given the buffer before it. An accepted
`ReplayFrom` winds the reader back to the message it asks for. -/
def Event.fifoOp (s : Guid) (buffer : List MessageEnvelope) :
    Event → Option (Fifo.Op MessageEnvelope)
  | .enqueued m => some (.enqueue m)
  | .pruned gone => some (.discard gone)
  | .dispatchRead s' next => if s' = s then some (.read next) else none
  | .committed s' m => if s' = s then some (.commit m) else none
  | .replayedFrom s' messageId _ =>
    if s' = s then (buffer.find? (·.id = messageId)).map .rewind else none
  | .commitMissed .. | .receiveCalled .. | .receiveReturned .. | .failedCalled ..
  | .failedReturned .. | .addedToDlq .. => none

/-- What a transition with these events means for the queue of a subscriber. -/
def opOf (s : Guid) (buffer : List MessageEnvelope) (evs : List Event) :
    Fifo.Op MessageEnvelope :=
  (evs.findSome? (Event.fifoOp s buffer)).getD .internal

section Ops

variable {s : Guid} {buffer : List MessageEnvelope} {evs : List Event}

theorem opOf_singleton (e : Event) :
    opOf s buffer [e] = (e.fifoOp s buffer).getD .internal := by
  rcases h : e.fifoOp s buffer with _ | o <;> simp [opOf, h]

/-- Events that do not concern the view of a subscriber mean nothing for its queue. -/
theorem opOf_of_quiet (h : Quiet s evs) : opOf s buffer evs = .internal := by
  have hnone : evs.findSome? (Event.fifoOp s buffer) = none := by
    rw [List.findSome?_eq_none_iff]
    intro e he
    have hc := h e he
    cases e <;> simp_all [Event.Concerns, Event.fifoOp]
  rw [opOf, hnone, Option.getD_none]

/-- The operation of a step says the same as its events. -/
theorem CursorStep.opOf_eq {v v' : CursorView} (h : CursorStep s v evs v') :
    Fifo.enqueues [opOf s v.buffer evs] = enqueuedOf evs ∧
      Fifo.commits [opOf s v.buffer evs] = committedOf s evs ∧
      Fifo.discards [opOf s v.buffer evs] = prunedOf evs := by
  cases h with
  | @replayFrom m _ _ _ _ _ =>
    rw [opOf_singleton]
    cases hfind : v.buffer.find? (·.id = m.id) <;>
      simp [Event.fifoOp, hfind, Fifo.enqueues, Fifo.commits, Fifo.discards, enqueuedOf,
        committedOf, prunedOf]
  | release _ hq | quiet hq =>
    rw [opOf_of_quiet hq, hq.enqueuedOf_eq, hq.committedOf_eq, hq.prunedOf_eq]
    exact ⟨rfl, rfl, rfl⟩
  | subscribe _ _ | unsubscribe _ => exact ⟨rfl, rfl, rfl⟩
  | _ =>
    rw [opOf_singleton]
    simp [Event.fifoOp, Fifo.enqueues, Fifo.commits, Fifo.discards, enqueuedOf, committedOf,
      prunedOf]

/-- A step winds the reader back only by an accepted `ReplayFrom`. -/
theorem CursorStep.not_isRewind {v v' : CursorView} (h : CursorStep s v evs v')
    (hno : ∀ id i, .replayedFrom s id i ∉ evs) : ¬ (opOf s v.buffer evs).IsRewind := by
  cases h with
  | replayFrom _ _ _ _ => exact absurd (List.mem_singleton.mpr rfl) (hno _ _)
  | release _ hq | quiet hq =>
    rw [opOf_of_quiet hq]
    exact id
  | subscribe _ _ | unsubscribe _ => exact id
  | _ =>
    rw [opOf_singleton]
    simp [Event.fifoOp, Fifo.Op.IsRewind]

end Ops

/-! ### The message being delivered stays at the head -/

/-- The two things that may not happen to a subscriber in the middle of a delivery: a prune
pass removing the message, and a `ReplayFrom` being accepted. -/
structure Undisturbed (s : Guid) (t : Transition System Action Event) : Prop where
  prune : ∀ m gone, (t.pre.loops s).message = some m → .pruned gone ∈ t.out → m ∉ gone
  replay : ∀ messageId i, .replayedFrom s messageId i ∈ t.out → (t.pre.loops s).message = none

/-- The cursor of a registered subscriber lies within the buffer and, during a delivery, at
the message being delivered. -/
structure Aligned (v : CursorView) : Prop where
  index_nonneg : 0 ≤ v.index
  index_le : v.index ≤ v.buffer.length
  head : ∀ m, v.delivering = some m → v.buffer[v.index.toNat]? = some m

section Alignment

variable {s : Guid} {v v' : CursorView} {evs : List Event} {gone kept : List MessageEnvelope}

/-- The index after a pass, for a registered subscriber. -/
theorem index_prune (h0 : 0 ≤ v.index) (hreg : v.standing = .registered) :
    (if v.standing = .registered ∧ gone ≠ [] then max 0 (v.index - gone.length) else v.index) =
      max 0 (v.index - gone.length) := by
  rcases eq_or_ne gone [] with rfl | hne
  · simp [h0]
  · simp [hreg, hne]

/-- A pass that spares the message being delivered takes the cursor along with it. -/
theorem Aligned.prune (h : Aligned v) (hsplit : v.buffer = gone ++ kept)
    (hspare : ∀ m, v.delivering = some m → m ∉ gone) {i : ℤ}
    (hi : i = max 0 (v.index - gone.length)) :
    Aligned { v with buffer := kept, index := i } := by
  obtain ⟨h0, hle, hhead⟩ := h
  rw [hsplit] at hle hhead
  rw [List.length_append] at hle
  refine ⟨by dsimp only; omega, by dsimp only; omega, ?_⟩
  intro m hm
  have hget := hhead m hm
  rcases Nat.lt_or_ge v.index.toNat gone.length with hlt | hge
  · -- the pass would remove the message being delivered
    rw [List.getElem?_append_left hlt] at hget
    exact absurd (List.mem_of_getElem? hget) (hspare m hm)
  · rw [List.getElem?_append_right hge] at hget
    have htoNat : i.toNat = v.index.toNat - gone.length := by omega
    rw [htoNat, hget]

/-- **One undisturbed step keeps the cursor aligned.** -/
theorem Aligned.step (hs : CursorStep s v evs v') (hreg' : v'.standing = .registered)
    (h : v.standing = .registered → Aligned v)
    (hprune : ∀ m gone, v.delivering = some m → .pruned gone ∈ evs → m ∉ gone)
    (hreplay : ∀ id i, .replayedFrom s id i ∈ evs → v.delivering = none) : Aligned v' := by
  cases hs with
  | enqueue m =>
    obtain ⟨h0, hle, hhead⟩ := h hreg'
    refine ⟨h0, ?_, ?_⟩
    · simp only [List.length_append, List.length_singleton]
      omega
    · intro x hx
      have hget := hhead x hx
      rw [List.getElem?_append_left (List.getElem?_eq_some_iff.mp hget).1, hget]
  | prune hsplit =>
    have hal := h hreg'
    exact hal.prune hsplit (fun m hm => hprune m _ hm (List.mem_singleton.mpr rfl))
      (index_prune hal.index_nonneg hreg')
  | subscribe _ hd =>
    refine ⟨le_refl _, Int.natCast_nonneg _, fun m hm => ?_⟩
    exact absurd (hd.symm.trans hm) (by simp)
  | unsubscribe _ => simp at hreg'
  | replayFrom _ _ _ hm =>
    have hlt := (List.getElem?_eq_some_iff.mp hm).1
    refine ⟨Int.natCast_nonneg _, by dsimp only; omega, fun x hx => ?_⟩
    have hnone := hreplay _ _ (List.mem_singleton.mpr rfl)
    exact absurd (hnone.symm.trans hx) (by simp)
  | readNothing _ _ _ | quiet _ => exact h hreg'
  | read _ _ _ hm =>
    obtain ⟨h0, hle, -⟩ := h hreg'
    refine ⟨h0, hle, ?_⟩
    rintro x ⟨⟩
    exact hm
  | commit hreg hd =>
    obtain ⟨h0, -, hhead⟩ := h hreg
    have hlt := (List.getElem?_eq_some_iff.mp (hhead _ hd)).1
    exact ⟨by dsimp only; omega, by dsimp only; omega, by simp⟩
  | commitMissed hrem _ => exact absurd (hrem.symm.trans hreg') (by simp)
  | release _ _ =>
    obtain ⟨h0, hle, -⟩ := h hreg'
    exact ⟨h0, hle, by simp⟩

end Alignment

/-! ### One step -/

section Simulation

variable {s : Guid} {v v' : CursorView} {evs : List Event}

/-- Discarding a prefix of a list without repetitions from one of its tails. -/
theorem filter_drop_append {α : Type*} [DecidableEq α] {gone kept : List α}
    (h : (gone ++ kept).Nodup) (k : ℕ) :
    ((gone ++ kept).drop k).filter (· ∉ gone) = kept.drop (k - gone.length) := by
  have hdis := List.disjoint_of_nodup_append h
  have hgone : (gone.drop k).filter (· ∉ gone) = [] := by
    rw [List.filter_eq_nil_iff]
    intro a ha
    simpa using List.mem_of_mem_drop ha
  have hkept : (kept.drop (k - gone.length)).filter (· ∉ gone) = kept.drop (k - gone.length) := by
    rw [List.filter_eq_self]
    intro a ha
    simpa using fun hg => hdis hg (List.mem_of_mem_drop ha)
  rw [List.drop_append, List.filter_append, hgone, hkept, List.nil_append]

/-- What stands at a place is the head of what comes from there on. -/
theorem drop_eq_cons_of_getElem? {α : Type*} {l : List α} {k : ℕ} {a : α} (h : l[k]? = some a) :
    l.drop k = a :: l.drop (k + 1) := by
  obtain ⟨hlt, rfl⟩ := List.getElem?_eq_some_iff.mp h
  exact List.drop_eq_getElem_cons hlt

/-- Where the `Id`s are distinct, a message is the one found by its `Id`. -/
theorem find?_id_eq {buffer : List MessageEnvelope} {m : MessageEnvelope}
    (hids : (buffer.map (·.id)).Nodup) (hm : m ∈ buffer) :
    buffer.find? (·.id = m.id) = some m := by
  obtain ⟨m', hm'⟩ : ∃ m', buffer.find? (·.id = m.id) = some m' := by
    rw [← Option.isSome_iff_exists, List.find?_isSome]
    exact ⟨m, hm, by simp⟩
  have hid : m'.id = m.id := by simpa using List.find?_some hm'
  rw [hm', List.inj_on_of_nodup_map hids (List.mem_of_find?_eq_some hm') hm hid]

/-- **An accepted `ReplayFrom`** makes what is pending the end of the buffer that starts at the
message asked for. -/
theorem CursorStep.pending_of_replayedFrom {messageId : Guid} {i : ℕ} (hs : CursorStep s v evs v')
    (hmem : .replayedFrom s messageId i ∈ evs) : ∃ before m after,
      v.buffer = before ++ m :: after ∧ m.id = messageId ∧
        v'.buffer.drop v'.index.toNat = m :: after := by
  cases hs with
  | @replayFrom m i' _ _ _ hm =>
    obtain ⟨rfl, rfl⟩ := by simpa using hmem
    have hdrop : v.buffer.drop i = m :: v.buffer.drop (i + 1) := drop_eq_cons_of_getElem? hm
    refine ⟨v.buffer.take i, m, v.buffer.drop (i + 1), ?_, rfl, ?_⟩
    · rw [← hdrop, List.take_append_drop]
    · rw [Int.toNat_natCast, hdrop]
  | release _ hq => exact absurd rfl (hq _ hmem)
  | quiet hq => exact absurd rfl (hq _ hmem)
  | _ => simp at hmem

/-- **Every undisturbed step of a registered subscriber's view is one operation on its
queue.** -/
theorem CursorStep.fifoStep (hs : CursorStep s v evs v') (hreg : v.standing = .registered)
    (hreg' : v'.standing = .registered) (h : Aligned v) (hids : (v.buffer.map (·.id)).Nodup)
    (hprune : ∀ m gone, v.delivering = some m → .pruned gone ∈ evs → m ∉ gone)
    (hreplay : ∀ id i, .replayedFrom s id i ∈ evs → v.delivering = none) :
    Fifo.Step v.fifo (opOf s v.buffer evs) v'.fifo := by
  obtain ⟨h0, hle, hhead⟩ := h
  have hnodup : v.buffer.Nodup := hids.of_map _
  cases hs with
  | enqueue m =>
    have hdrop : (v.buffer ++ [m]).drop v.index.toNat = v.buffer.drop v.index.toNat ++ [m] :=
      List.drop_append_of_le_length (by omega)
    rw [CursorView.fifo, CursorView.fifo, hdrop]
    exact .enqueue v.fifo m
  | @prune gone kept hsplit =>
    -- what is pending afterwards is what the pass leaves of it, also where the index clamps
    have hpending : kept.drop (max 0 (v.index - gone.length)).toNat =
        (v.buffer.drop v.index.toNat).filter (· ∉ gone) := by
      rw [hsplit, filter_drop_append (hsplit ▸ hnodup)]
      congr 1
      omega
    rw [CursorView.fifo, CursorView.fifo, index_prune h0 hreg, hpending]
    exact .discard hsplit fun m hm => hprune m _ hm (List.mem_singleton.mpr rfl)
  | subscribe habs _ => exact absurd (hreg.symm.trans habs) (by simp)
  | unsubscribe _ => simp at hreg'
  | @replayFrom m i _ _ _ hm =>
    have hop : opOf s v.buffer [.replayedFrom s m.id i] = .rewind m := by
      simp [opOf_singleton, Event.fifoOp, find?_id_eq hids (List.mem_of_getElem? hm)]
    have hdrop : v.buffer.drop i = m :: v.buffer.drop (i + 1) := drop_eq_cons_of_getElem? hm
    have hsplit : v.buffer = v.buffer.take i ++ m :: v.buffer.drop (i + 1) := by
      rw [← hdrop, List.take_append_drop]
    have hw := hreplay _ _ (List.mem_singleton.mpr rfl)
    rw [hop, CursorView.fifo, CursorView.fifo, Int.toNat_natCast, hdrop]
    exact .rewind hsplit hw
  | readNothing _ _ h =>
    have hop : opOf s v.buffer [.dispatchRead s none] = .read none := by
      simp [opOf_singleton, Event.fifoOp]
    rw [hop]
    exact .readNothing (List.drop_eq_nil_of_le (by omega))
  | @read m _ hd _ hm =>
    have hop : opOf s v.buffer [.dispatchRead s (some m)] = .read (some m) := by
      simp [opOf_singleton, Event.fifoOp]
    rw [hop]
    exact .read (q := v.fifo) (drop_eq_cons_of_getElem? hm) hd
  | @commit m _ hd =>
    have hop : opOf s v.buffer [.committed s m] = .commit m := by
      simp [opOf_singleton, Event.fifoOp]
    have hnext : (v.index + 1).toNat = v.index.toNat + 1 := by omega
    rw [hop, CursorView.fifo, CursorView.fifo, hnext]
    exact .commit (q := v.fifo) (drop_eq_cons_of_getElem? (hhead m hd)) hd
  | commitMissed hrem _ => exact absurd (hrem.symm.trans hreg) (by simp)
  | release _ hq =>
    rw [opOf_of_quiet hq]
    exact .release v.fifo
  | quiet hq =>
    rw [opOf_of_quiet hq]
    exact .internal v.fifo

end Simulation

/-! ### Whole runs -/

/-- What a transition means for the queue of a subscriber. -/
def transitionOp (s : Guid) (t : Transition System Action Event) :
    Fifo.Op MessageEnvelope :=
  opOf s t.pre.queue.buffer t.out

section Runs

variable {ttl : TimeSpan} {n : ℕ} {pre seg : Trace} {σ σ₀ σ₁ : System} {s : Guid}

theorem registered_of_run (h : Run step σ₀ seg σ₁) (hs : s ∈ σ₀.queue.subscribers)
    (hstay : ∀ t ∈ seg, t.act ≠ .unsubscribe s) : s ∈ σ₁.queue.subscribers :=
  h.invariantOn (I := fun _ σ => s ∈ σ.queue.subscribers) hs
    (fun _ _ _ _ _ _ hi hs' ha => (effect_of_step hs').registered ha hi) hstay

/-- **In an undisturbed run the cursor of a registered subscriber is aligned** in every state
reached. -/
theorem aligned_of_run (h : RunOf ttl n pre σ) (hok : ∀ t ∈ pre, Undisturbed s t)
    (hs : s ∈ σ.queue.subscribers) : Aligned (σ.cursorView s) := by
  have hmain : (σ.cursorView s).standing = .registered → Aligned (σ.cursorView s) := by
    refine h.invariantOn (I := fun _ σ => (σ.cursorView s).standing = .registered →
      Aligned (σ.cursorView s)) ?_ ?_ hok
    · intro hreg
      rw [System.cursorView_init] at hreg
      simp at hreg
    · intro tr σ a evs σ' hrun hi hstep hun hreg'
      exact Aligned.step ((effect_of_step hstep).cursorStep (wellFormed_of_run hrun) s) hreg' hi
        hun.prune hun.replay
  exact hmain (System.standing_eq_registered.mpr hs)

/-- The operations of a stretch of a run say the same as its events. -/
theorem transitionOps_eq
    (h : ∀ t ∈ seg, CursorStep s (t.pre.cursorView s) t.out (t.post.cursorView s)) :
    Fifo.enqueues (seg.map (transitionOp s)) = enqueuedOf (events seg) ∧
      Fifo.commits (seg.map (transitionOp s)) = committedOf s (events seg) ∧
      Fifo.discards (seg.map (transitionOp s)) = prunedOf (events seg) := by
  induction seg with
  | nil => exact ⟨rfl, rfl, rfl⟩
  | cons t seg ih =>
    obtain ⟨he, hc, hd⟩ := (h t List.mem_cons_self).opOf_eq
    obtain ⟨ihe, ihc, ihd⟩ := ih fun u hu => h u (List.mem_cons_of_mem _ hu)
    rw [List.map_cons, Fifo.enqueues_cons, Fifo.commits_cons, Fifo.discards_cons, ihe, ihc, ihd,
      events_cons, enqueuedOf_append, committedOf_append, prunedOf_append]
    exact ⟨congrArg (· ++ _) he, congrArg (· ++ _) hc, congrArg (· ++ _) hd⟩

/-- What is pending and what enters later are distinct messages. -/
theorem nodup_pending_append (h : RunOf ttl n pre σ₀) (h' : RunOf ttl n (pre ++ seg) σ₁) :
    (σ₀.pending s ++ enqueuedOf (events seg)).Nodup := by
  have hnodup := (ledger_of_run h').nodup
  rw [events_append, enqueuedOf_append, (ledger_of_run h).enqueued, List.append_assoc] at hnodup
  exact hnodup.of_append_right.sublist ((List.drop_sublist _ _).append_right _)

/-- **Refinement to a plain queue, per subscriber.** Take a run in which no prune pass
removes the message a subscriber is being delivered and no `ReplayFrom` is accepted for it
meanwhile, and a stretch of it throughout which the subscriber is registered. Then that
stretch is a path of the first-in, first-out queue of what is pending; during a delivery the
message delivered is the head; an accepted `ReplayFrom` makes what is pending the end of the
buffer that starts at the message asked for; and between two accepted `ReplayFrom`s, of what was
pending or has been enqueued each message is committed exactly once, or is not committed and is
still pending or has been pruned. -/
theorem fifo_refinement (h₀ : RunOf ttl n pre σ₀) (h : RunOf ttl n (pre ++ seg) σ₁)
    (hs : s ∈ σ₀.queue.subscribers) (hstay : ∀ t ∈ seg, t.act ≠ .unsubscribe s)
    (hok : ∀ t ∈ pre ++ seg, Undisturbed s t) :
    Path Fifo.Step (σ₀.cursorView s).fifo (seg.map (transitionOp s)) (σ₁.cursorView s).fifo ∧
      (∀ m, (σ₁.loops s).message = some m → (σ₁.pending s).head? = some m) ∧
      (∀ t ∈ seg, ∀ messageId i, .replayedFrom s messageId i ∈ t.out →
        t.act = .replayFrom s messageId ∧ ∃ before m after,
          t.pre.queue.buffer = before ++ m :: after ∧ m.id = messageId ∧
            t.post.pending s = m :: after) ∧
      ((∀ t ∈ seg, ∀ messageId i, .replayedFrom s messageId i ∉ t.out) →
        ∀ m ∈ σ₀.pending s ++ enqueuedOf (events seg),
          (committedOf s (events seg)).count m = 1 ∨
            (committedOf s (events seg)).count m = 0 ∧
              (m ∈ σ₁.pending s ∨ m ∈ prunedOf (events seg))) := by
  obtain ⟨σ', h', hseg⟩ := h.split
  obtain rfl := h'.functional h₀
  -- every transition of the stretch, with the state it leaves and the run up to there
  have hcut : ∀ t ∈ seg, ∃ seg₁, seg₁ ++ [t] <+: seg ∧ RunOf ttl n (pre ++ seg₁) t.pre ∧
      s ∈ t.pre.queue.subscribers ∧ step t.pre t.act = some (t.post, t.out) := by
    intro t ht
    obtain ⟨seg₁, seg₂, rfl, hpre, hstep, -⟩ := hseg.of_mem ht
    refine ⟨seg₁, ⟨seg₂, by simp⟩, h₀.append hpre, ?_, hstep⟩
    exact registered_of_run hpre hs fun u hu => hstay u (by simp [hu])
  have hcursor : ∀ t ∈ seg, CursorStep s (t.pre.cursorView s) t.out (t.post.cursorView s) := by
    intro t ht
    obtain ⟨seg₁, -, hrun, -, hstep⟩ := hcut t ht
    exact (effect_of_step hstep).cursorStep (wellFormed_of_run hrun) s
  have hpath : Path Fifo.Step (σ'.cursorView s).fifo (seg.map (transitionOp s))
      (σ₁.cursorView s).fifo := by
    refine hseg.path (fun σ => (σ.cursorView s).fifo) (transitionOp s) ?_
    intro t ht
    obtain ⟨seg₁, ⟨seg₂, hpre⟩, hrun, hreg, hstep⟩ := hcut t ht
    have hreg' := (effect_of_step hstep).registered (hstay t ht) hreg
    have hun := hok t (List.mem_append_right _ ht)
    have hal : Aligned (t.pre.cursorView s) := by
      refine aligned_of_run hrun (fun u hu => hok u ?_) hreg
      rw [← hpre]
      rcases List.mem_append.mp hu with hu | hu <;> simp [hu]
    exact (hcursor t ht).fifoStep (System.standing_eq_registered.mpr hreg)
      (System.standing_eq_registered.mpr hreg') hal (ledger_of_run hrun).distinct_buffer hun.prune
      hun.replay
  refine ⟨hpath, ?_, ?_, ?_⟩
  · intro m hm
    have hal := aligned_of_run h hok (registered_of_run hseg hs hstay)
    rw [System.pending, List.head?_drop]
    exact hal.head m hm
  · intro t ht messageId i hmem
    obtain ⟨seg₁, -, -, -, hstep⟩ := hcut t ht
    exact ⟨(effect_of_step hstep).of_replayedFrom hmem, (hcursor t ht).pending_of_replayedFrom hmem⟩
  · intro hno m hm
    -- the conservation law of the abstract queue, its histories read off the events
    obtain ⟨he, hc, hd⟩ := transitionOps_eq hcursor
    have honce := Fifo.Step.exactly_once_of_path (a := m) hpath ?_ ?_ ?_
    · rwa [hc, hd] at honce
    · intro o ho
      obtain ⟨t, ht, rfl⟩ := List.mem_map.mp ho
      exact (hcursor t ht).not_isRewind (hno t ht)
    · rw [he]
      exact nodup_pending_append h₀ h
    · rwa [he]

/-- The events that move a cursor otherwise than by a commit. -/
def Event.moves : Event → Bool
  | .pruned _ | .replayedFrom .. => true
  | _ => false

/-- Nothing can disturb a subscriber that is being delivered nothing, nor can a transition
that moves no cursor. -/
theorem Undisturbed.of_still {t : Transition System Action Event}
    (h : (t.pre.loops s).message = none ∨ t.out.any Event.moves = false) : Undisturbed s t := by
  rcases h with h | h
  · exact ⟨fun m gone hm => absurd (h.symm.trans hm) (by simp), fun _ _ _ => h⟩
  · have hno : ∀ e ∈ t.out, e.moves = false := by simpa using h
    refine ⟨fun m gone _ hmem => ?_, fun messageId i hmem => ?_⟩
    · exact absurd (hno _ hmem) (by simp [Event.moves])
    · exact absurd (hno _ hmem) (by simp [Event.moves])

/-- The theorem at a stretch in which a message is committed, replayed with another one behind it,
committed again and pruned. -/
theorem fifo_refinement_replayed : ∃ pre seg σ₀ σ₁, RunOf 5 0 pre σ₀ ∧
    RunOf 5 0 (pre ++ seg) σ₁ ∧ (.rewind ⟨1, 10⟩ : Fifo.Op MessageEnvelope) ∈
      seg.map (transitionOp 7) ∧
    committedOf 7 (events seg) = [⟨1, 10⟩, ⟨1, 10⟩] ∧ σ₁.pending 7 = [⟨2, 20⟩] ∧
    Path Fifo.Step (σ₀.cursorView 7).fifo (seg.map (transitionOp 7)) (σ₁.cursorView 7).fifo := by
  have h₀ := runOf_exec 5 0 [.subscribe 7] (by decide)
  have h := h₀.append (run_exec [.enqueue 1 10 none, .dispatch 7, .dispatch 7, .dispatch 7,
    .received 7 (.ok .ack), .dispatch 7, .replayFrom 7 1, .enqueue 2 20 none, .dispatch 7,
    .dispatch 7, .dispatch 7, .received 7 (.ok .ack), .dispatch 7, .beginPrune 20, .prune 0]
    (by decide))
  refine ⟨_, _, _, _, h₀, h, by decide, by decide, by decide,
    (fifo_refinement h₀ h (by decide) (by decide) fun t ht => Undisturbed.of_still ?_).1⟩
  revert t
  decide

end Runs

end PushDeliveredQueue
