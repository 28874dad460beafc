import PushDeliveredQueue.Loop

/-!
# What lies below a cursor

The index of a registered subscriber stays within the buffer, and everything still in the
buffer below it has been delivered to that subscriber and committed – as long as every
`Commit` finds things in place (`PushDeliveredQueue.cursor_invariant_iff`).

`Commit` increments the index whatever has happened since the message it commits was read.
If a prune pass has removed that message meanwhile, the pass has already moved the cursor to
the head of the buffer, and the increment takes it over a message that nobody has delivered,
or over the end of an empty buffer. What is in order at a commit is
`PushDeliveredQueue.CommitInPlace`: the message is still in the buffer, or the one at the
head of the buffer has been committed before – which happens after a `ReplayFrom`.

While a message is being delivered it is either where the cursor points or above it, with
everything below it done (`PushDeliveredQueue.InPlace`), or it is gone and the cursor stands
at the head (`PushDeliveredQueue.Displaced`).
-/

namespace PushDeliveredQueue

open Transitions

/-! ### The elements below a position -/

/-- Everything below a position of a list has a property. -/
def AllBelow {α : Type*} (P : α → Prop) (l : List α) (x : ℤ) : Prop :=
  ∀ j : ℕ, (j : ℤ) < x → ∀ a, l[j]? = some a → P a

namespace AllBelow

variable {α : Type*} {P Q : α → Prop} {l l' : List α} {x y : ℤ}

theorem of_nonpos (hx : x ≤ 0) : AllBelow P l x := by
  intro j hj
  omega

theorem mono (h : AllBelow P l x) (hPQ : ∀ a, P a → Q a) (hyx : y ≤ x) : AllBelow Q l y :=
  fun j hj a ha => hPQ a (h j (lt_of_lt_of_le hj hyx) a ha)

/-- Appending behind the position. -/
theorem append (h : AllBelow P l x) (hx : x ≤ l.length) : AllBelow P (l ++ l') x := by
  intro j hj a ha
  rw [List.getElem?_append_left (by omega)] at ha
  exact h j hj a ha

/-- Removing a prefix moves the position back by its length. -/
theorem of_append (h : AllBelow P (l ++ l') x) : AllBelow P l' (x - l.length) := by
  intro j hj a ha
  refine h (l.length + j) (by omega) a ?_
  rw [List.getElem?_append_right (Nat.le_add_right _ _), Nat.add_sub_cancel_left, ha]

/-- One position further. -/
theorem succ {p : ℕ} (h : AllBelow P l p) (hp : ∀ a, l[p]? = some a → P a) :
    AllBelow P l (p + 1) := by
  intro j hj a ha
  rcases eq_or_lt_of_le (show j ≤ p by omega) with rfl | hlt
  · exact hp a ha
  · exact h j (by omega) a ha

end AllBelow

/-! ### Deliveries that ended in a commit -/

/-- A subscriber's dispatch loop called the handler with a message, and committed it before
it read anything else: the commit is the outcome of that delivery. -/
def CommittedDelivery (s : Guid) (evs : List Event) (m : MessageEnvelope) : Prop :=
  ∃ pre payload mid post,
    evs = pre ++ .receiveCalled s .dispatch m payload :: mid ++ .committed s m :: post ∧
      ∀ next, .dispatchRead s next ∉ mid

section Deliveries

variable {s : Guid} {evs evs' : List Event} {m m' : MessageEnvelope}

theorem CommittedDelivery.append (h : CommittedDelivery s evs m) :
    CommittedDelivery s (evs ++ evs') m := by
  obtain ⟨pre, payload, mid, post, rfl, hmid⟩ := h
  exact ⟨pre, payload, mid, post ++ evs', by simp, hmid⟩

theorem HandedOver.committed (h : HandedOver s m evs) :
    CommittedDelivery s (evs ++ [.committed s m]) m := by
  obtain ⟨pre, payload, mid, rfl, hmid⟩ := h
  exact ⟨pre, payload, mid, [], rfl, hmid⟩

theorem CommittedDelivery.mem (h : CommittedDelivery s evs m) : .committed s m ∈ evs := by
  obtain ⟨pre, payload, mid, post, rfl, -⟩ := h
  simp

/-- The commit of another message adds nothing. -/
theorem CommittedDelivery.of_snoc (h : CommittedDelivery s (evs ++ [.committed s m]) m')
    (hne : m' ≠ m) : CommittedDelivery s evs m' := by
  obtain ⟨pre, payload, mid, post, heq, hmid⟩ := h
  rcases List.eq_nil_or_concat post with rfl | ⟨post, e, rfl⟩
  · obtain ⟨-, hlast⟩ := List.append_inj' heq rfl
    simp only [List.cons.injEq, Event.committed.injEq, true_and, and_true] at hlast
    exact absurd hlast.symm hne
  · rw [List.concat_eq_append, ← List.cons_append, ← List.append_assoc] at heq
    exact ⟨pre, payload, mid, post, (List.append_inj' heq rfl).1, hmid⟩

end Deliveries

/-! ### The invariant of one cursor -/

/-- The message being delivered is in the buffer, at the index or above it, and everything
below it is done. -/
def InPlace (P : MessageEnvelope → Prop) (v : CursorView) (m : MessageEnvelope) : Prop :=
  ∃ p : ℕ, v.buffer[p]? = some m ∧ v.index ≤ p ∧ AllBelow P v.buffer p

/-- The message being delivered has left the buffer, and the cursor stands at its head. -/
def Displaced (v : CursorView) (m : MessageEnvelope) : Prop := m ∉ v.buffer ∧ v.index = 0

/-- **The cursor of a registered subscriber covers what lies below it.** -/
structure Covered (s : Guid) (evs : List Event) (v : CursorView) : Prop where
  index_nonneg : 0 ≤ v.index
  index_le : v.index ≤ v.buffer.length
  below : AllBelow (CommittedDelivery s evs) v.buffer v.index
  delivering : ∀ m, v.delivering = some m → m ∈ enqueuedOf evs ∧
    (InPlace (CommittedDelivery s evs) v m ∨ Displaced v m)

namespace Covered

variable {s : Guid} {evs evs' : List Event} {v v' : CursorView} {m : MessageEnvelope}

/-- A step that leaves the buffer and the index alone. -/
theorem still (h : Covered s evs v) (hb : v'.buffer = v.buffer) (hi : v'.index = v.index)
    (hd : ∀ m, v'.delivering = some m → v.delivering = some m) : Covered s (evs ++ evs') v' := by
  obtain ⟨h0, hle, hbelow, hdel⟩ := h
  -- the history grows, so what has been committed stays committed
  have hdone : ∀ a, CommittedDelivery s evs a → CommittedDelivery s (evs ++ evs') a :=
    fun a ha => ha.append
  refine ⟨hi ▸ h0, hi ▸ hb ▸ hle, hi ▸ hb ▸ hbelow.mono hdone (le_refl _), ?_⟩
  intro m hm
  obtain ⟨henq, hplace⟩ := hdel m (hd m hm)
  refine ⟨by simp [henq], hplace.imp ?_ ?_⟩
  · rintro ⟨p, hp, hip, hall⟩
    exact ⟨p, hb ▸ hp, hi ▸ hip, hb ▸ hall.mono hdone (le_refl _)⟩
  · rintro ⟨hmem, hzero⟩
    exact ⟨hb ▸ hmem, hi ▸ hzero⟩

theorem enqueue (h : Covered s evs v) {m : MessageEnvelope}
    (hnew : (enqueuedOf (evs ++ [.enqueued m])).Nodup) :
    Covered s (evs ++ [.enqueued m]) { v with buffer := v.buffer ++ [m] } := by
  obtain ⟨h0, hle, hbelow, hdel⟩ := h
  have hdone : ∀ a, CommittedDelivery s evs a → CommittedDelivery s (evs ++ [.enqueued m]) a :=
    fun a ha => ha.append
  have hsnoc : enqueuedOf (evs ++ [Event.enqueued m]) = enqueuedOf evs ++ [m] := by
    simp [enqueuedOf]
  rw [hsnoc] at hnew
  refine ⟨h0, ?_, (hbelow.mono hdone (le_refl _)).append hle, ?_⟩
  · simp only [List.length_append, List.length_singleton]
    omega
  · intro x hx
    obtain ⟨henq, hplace⟩ := hdel x hx
    refine ⟨by simp [hsnoc, henq], hplace.imp ?_ ?_⟩
    · rintro ⟨p, hp, hip, hall⟩
      have hlt := (List.getElem?_eq_some_iff.mp hp).1
      refine ⟨p, ?_, hip, (hall.mono hdone (le_refl _)).append (by omega)⟩
      rw [List.getElem?_append_left hlt, hp]
    · -- the message enqueued is a new one
      rintro ⟨hmem, hzero⟩
      refine ⟨?_, hzero⟩
      intro hx'
      rcases List.mem_append.mp hx' with hx' | hx'
      · exact hmem hx'
      · obtain rfl := List.mem_singleton.mp hx'
        exact List.disjoint_of_nodup_append hnew henq hx'

theorem prune (h : Covered s evs v) {gone kept : List MessageEnvelope}
    (hsplit : v.buffer = gone ++ kept) (hnodup : v.buffer.Nodup) {i : ℤ}
    (hi : i = max 0 (v.index - gone.length)) :
    Covered s (evs ++ [.pruned gone]) { v with buffer := kept, index := i } := by
  obtain ⟨h0, hle, hbelow, hdel⟩ := h
  rw [hsplit] at hle hbelow hnodup
  rw [List.length_append] at hle
  have hdone : ∀ a, CommittedDelivery s evs a → CommittedDelivery s (evs ++ [.pruned gone]) a :=
    fun a ha => ha.append
  refine ⟨by dsimp only; omega, by dsimp only; omega, ?_, ?_⟩
  · -- either nothing is left below the cursor, or all of it was there before
    rcases le_or_gt (v.index - gone.length) 0 with hneg | hpos
    · exact AllBelow.of_nonpos (by dsimp only; omega)
    · exact hbelow.of_append.mono hdone (by dsimp only; omega)
  · intro x hx
    obtain ⟨henq, hplace⟩ := hdel x hx
    refine ⟨by simp [henq], ?_⟩
    rcases hplace with ⟨p, hp, hip, hall⟩ | ⟨hmem, hzero⟩
    · rcases Nat.lt_or_ge p gone.length with hlt | hge
      · -- the pass removes the message, and moves the cursor to the head
        have hgone : x ∈ gone := by
          rw [hsplit, List.getElem?_append_left hlt] at hp
          exact List.mem_of_getElem? hp
        refine Or.inr ⟨fun hkept => List.disjoint_of_nodup_append hnodup hgone hkept, ?_⟩
        dsimp only
        omega
      · refine Or.inl ⟨p - gone.length, ?_, by dsimp only; omega, ?_⟩
        · rwa [hsplit, List.getElem?_append_right hge] at hp
        · rw [hsplit] at hall
          exact hall.of_append.mono hdone (by omega)
    · refine Or.inr ⟨fun hkept => hmem ?_, by dsimp only; omega⟩
      rw [hsplit]
      exact List.mem_append_right _ hkept

theorem subscribe (hd : v.delivering = none) :
    Covered s evs { v with index := 0, standing := .registered } := by
  refine ⟨le_refl _, Int.natCast_nonneg _, AllBelow.of_nonpos (le_refl _), ?_⟩
  intro m hm
  exact absurd (hd.symm.trans hm) (by simp)

/-- An accepted replay moves the cursor down, at most from the last message of the buffer or
from its end. -/
theorem replayFrom (h : Covered s evs v) {i : ℕ}
    (hend : (v.buffer.length : ℤ) ≤ v.index + 1) (hm : v.buffer[i]? = some m) :
    Covered s (evs ++ evs') { v with index := i } := by
  have hi := (List.getElem?_eq_some_iff.mp hm).1
  have hdone : ∀ a, CommittedDelivery s evs a → CommittedDelivery s (evs ++ evs') a :=
    fun a ha => ha.append
  refine ⟨Int.natCast_nonneg _, by dsimp only; omega, h.below.mono hdone (by dsimp only; omega),
    ?_⟩
  intro x hx
  obtain ⟨henq, hplace⟩ := h.delivering x hx
  refine ⟨by simp [henq], ?_⟩
  rcases hplace with ⟨p, hp, hip, hall⟩ | ⟨hmem, hzero⟩
  · refine Or.inl ⟨p, hp, ?_, hall.mono hdone (le_refl _)⟩
    dsimp only
    omega
  · refine Or.inr ⟨hmem, ?_⟩
    dsimp only
    omega

theorem dispatchRead (h : Covered s evs v) (hl : Ledger evs v.buffer)
    (hm : v.buffer[v.index.toNat]? = some m) :
    Covered s (evs ++ evs') { v with delivering := some m } := by
  have hdone : ∀ a, CommittedDelivery s evs a → CommittedDelivery s (evs ++ evs') a :=
    fun a ha => ha.append
  refine ⟨h.index_nonneg, h.index_le, h.below.mono hdone (le_refl _), ?_⟩
  rintro x ⟨⟩
  have h0 := h.index_nonneg
  refine ⟨?_, Or.inl ⟨v.index.toNat, hm, by dsimp only; omega, h.below.mono hdone (by omega)⟩⟩
  rw [enqueuedOf_append, hl.enqueued]
  exact List.mem_append_left _ (List.mem_append_right _ (List.mem_of_getElem? hm))

/-- **A commit that finds things in place.** -/
theorem commit (h : Covered s evs v) (hd : v.delivering = some m) (hover : HandedOver s m evs)
    (hok : m ∈ v.buffer ∨
      ∃ head rest, v.buffer = head :: rest ∧ CommittedDelivery s evs head) :
    Covered s (evs ++ [.committed s m]) { v with index := v.index + 1, delivering := none } := by
  have hdone : ∀ a, CommittedDelivery s evs a → CommittedDelivery s (evs ++ [.committed s m]) a :=
    fun a ha => ha.append
  have h0 := h.index_nonneg
  obtain ⟨-, hplace⟩ := h.delivering m hd
  suffices hend : v.index + 1 ≤ v.buffer.length ∧
      AllBelow (CommittedDelivery s (evs ++ [.committed s m])) v.buffer (v.index + 1) from
    ⟨by dsimp only; omega, hend.1, hend.2, by simp⟩
  rcases hplace with ⟨p, hp, hip, hall⟩ | ⟨hmem, hzero⟩
  · -- in place: the cursor comes to at most just past the message committed
    have hlt := (List.getElem?_eq_some_iff.mp hp).1
    refine ⟨by omega, ?_⟩
    refine ((hall.mono hdone (le_refl _)).succ ?_).mono (fun _ ha => ha) (by omega)
    intro a ha
    obtain rfl := Option.some.inj (hp.symm.trans ha)
    exact hover.committed
  · -- displaced: the cursor is at the head, and passes it
    obtain ⟨head, rest, hbuffer, hhead⟩ := hok.resolve_left hmem
    rw [hbuffer, hzero]
    refine ⟨by simp only [List.length_cons]; omega, ?_⟩
    refine AllBelow.succ (p := 0) (AllBelow.of_nonpos (le_refl _)) ?_
    intro a ha
    obtain rfl : head = a := by simpa using ha
    exact hhead.append

/-- **A commit that does not** leaves the cursor where it covers less. -/
theorem commit_converse (h : Covered s evs v) (hd : v.delivering = some m)
    (hle : v.index + 1 ≤ v.buffer.length)
    (hbelow : AllBelow (CommittedDelivery s (evs ++ [.committed s m])) v.buffer (v.index + 1)) :
    m ∈ v.buffer ∨ ∃ head rest, v.buffer = head :: rest ∧ CommittedDelivery s evs head := by
  obtain ⟨-, ⟨p, hp, -, -⟩ | ⟨hmem, hzero⟩⟩ := h.delivering m hd
  · exact Or.inl (List.mem_of_getElem? hp)
  · -- displaced: the commit passes the head, which it does not commit itself
    rw [hzero] at hle hbelow
    rcases hbuffer : v.buffer with _ | ⟨head, rest⟩
    · simp [hbuffer] at hle
    · have hhead : CommittedDelivery s (evs ++ [.committed s m]) head :=
        hbelow 0 (by simp) head (by simp [hbuffer])
      refine Or.inr ⟨head, rest, rfl, hhead.of_snoc ?_⟩
      rintro rfl
      exact hmem (by simp [hbuffer])

/-- **One step keeps the cursor of a registered subscriber covering**, a commit if it finds
things in place. -/
theorem step (hs : CursorStep s v evs' v') (hl : Ledger evs v.buffer)
    (hl' : Ledger (evs ++ evs') v'.buffer) (hreg' : v'.standing = .registered)
    (h : v.standing = .registered → Covered s evs v)
    (hcommit : ∀ m, .committed s m ∈ evs' → HandedOver s m evs ∧
      (m ∈ v.buffer ∨ ∃ head rest, v.buffer = head :: rest ∧ CommittedDelivery s evs head)) :
    Covered s (evs ++ evs') v' := by
  cases hs with
  | enqueue m => exact (h hreg').enqueue hl'.nodup
  | @prune gone kept hsplit =>
    have hreg : v.standing = .registered := hreg'
    have h0 := (h hreg).index_nonneg
    refine (h hreg).prune hsplit hl.nodup_buffer ?_
    rcases eq_or_ne gone [] with rfl | hne
    · simp [h0]
    · simp [hreg, hne]
  | subscribe _ hd =>
    rw [List.append_nil]
    exact subscribe hd
  | unsubscribe _ => simp at hreg'
  | replayFrom _ _ hend hm => exact (h hreg').replayFrom hend hm
  | readNothing _ _ _ => exact (h hreg').still rfl rfl fun _ hm => hm
  | read _ _ _ hm => exact (h hreg').dispatchRead hl hm
  | commit hreg hd =>
    obtain ⟨hover, hok⟩ := hcommit _ (List.mem_singleton.mpr rfl)
    exact (h hreg).commit hd hover hok
  | commitMissed hrem _ => exact absurd (hrem.symm.trans hreg') (by simp)
  | release _ _ => exact (h hreg').still rfl rfl (by simp)
  | quiet _ => exact (h hreg').still rfl rfl fun _ hm => hm

end Covered

/-! ### Over whole runs -/

/-- **The cursor invariant**: the index of every registered subscriber lies within the
buffer, and every message below it has been handed to that subscriber by its dispatch loop
and committed as the outcome of that delivery. -/
def CursorInvariant (tr : Trace) (σ : System) : Prop :=
  ∀ s ∈ σ.queue.subscribers,
    0 ≤ (σ.queue.cursors s).index ∧ (σ.queue.cursors s).index ≤ σ.queue.buffer.length ∧
      AllBelow (CommittedDelivery s (events tr)) σ.queue.buffer (σ.queue.cursors s).index

/-- **What is in order when a `Commit` runs**: the message it commits is still in the buffer,
or the message at the head of the buffer has been committed by the same subscriber before. -/
def CommitInPlace (pre : Trace) (t : Transition System Action Event) : Prop :=
  ∀ s m, t.act = .dispatch s → t.pre.loops s = .committing m → s ∈ t.pre.queue.subscribers →
    m ∈ t.pre.queue.buffer ∨
      ∃ head rest, t.pre.queue.buffer = head :: rest ∧ CommittedDelivery s (events pre) head

section Runs

variable {ttl : TimeSpan} {n : ℕ} {tr : Trace} {σ : System} {s : Guid}

/-- What all the cursors satisfy while every commit is in place. -/
def AllCovered (tr : Trace) (σ : System) : Prop :=
  ∀ s, (σ.cursorView s).standing = .registered → Covered s (events tr) (σ.cursorView s)

theorem CursorInvariant.of_allCovered (h : AllCovered tr σ) : CursorInvariant tr σ := by
  intro s hs
  obtain ⟨h0, hle, hbelow, -⟩ := h s (System.standing_eq_registered.mpr hs)
  exact ⟨h0, hle, hbelow⟩

/-- A transition whose commit is in place keeps the cursors covering. -/
theorem AllCovered.step {t : Transition System Action Event} (hrun : RunOf ttl n tr t.pre)
    (h : AllCovered tr t.pre)
    (hstep : PushDeliveredQueue.step t.pre t.act = some (t.post, t.out))
    (hok : CommitInPlace tr t) : AllCovered (tr ++ [t]) t.post := by
  intro s hreg
  have heff := effect_of_step hstep
  have hpost := ledger_of_run (hrun.snoc hstep)
  simp only [events_append, events_cons, events_nil, List.append_nil] at hpost ⊢
  refine Covered.step (heff.cursorStep (wellFormed_of_run hrun) s) (ledger_of_run hrun) hpost
    hreg (h s) ?_
  intro m hmem
  obtain ⟨hact, hl, hs⟩ := heff.of_committed hmem
  exact ⟨handedOver_of_run hrun hl, hok s m hact hl hs⟩

/-- A transition that leaves the cursors within the buffer, with nothing skipped below them,
had its commit in place. -/
theorem CommitInPlace.of_invariant {t : Transition System Action Event}
    (h : AllCovered tr t.pre)
    (hstep : PushDeliveredQueue.step t.pre t.act = some (t.post, t.out))
    (hinv : CursorInvariant (tr ++ [t]) t.post) : CommitInPlace tr t := by
  intro s m hact hl hs
  have heff := effect_of_step hstep
  rw [hact] at heff
  obtain ⟨hevs, hview⟩ := heff.committed hl hs
  have hreg : (t.pre.cursorView s).standing = .registered := System.standing_eq_registered.mpr hs
  have hreg' : (t.post.cursorView s).standing = .registered := hview ▸ hreg
  obtain ⟨-, hle, hbelow⟩ := hinv s (System.standing_eq_registered.mp hreg')
  have hbuffer : t.post.queue.buffer = t.pre.queue.buffer := congrArg CursorView.buffer hview
  have hindex : (t.post.queue.cursors s).index = (t.pre.queue.cursors s).index + 1 :=
    congrArg CursorView.index hview
  rw [hindex, hbuffer] at hle hbelow
  simp only [events_append, events_cons, events_nil, List.append_nil, hevs] at hbelow
  exact (h s hreg).commit_converse (congrArg DispatchPhase.message hl) hle hbelow

/-- **The cursor invariant, exactly.** In a run, the cursor invariant holds in every state
visited if and only if every `Commit` of the run is in place. -/
theorem cursor_invariant_iff (h : RunOf ttl n tr σ) :
    Run.Always step (System.init ttl n) CursorInvariant tr ↔
      ∀ pre t, pre ++ [t] <+: tr → CommitInPlace pre t := by
  refine Run.always_iff (G := AllCovered) ?_ ?_ ?_ ?_ h
  · intro s hreg
    rw [System.cursorView_init] at hreg
    simp at hreg
  · exact fun _ _ _ hgood => .of_allCovered hgood
  · exact fun _ _ hrun hgood hstep hok => hgood.step hrun hstep hok
  · exact fun _ _ _ hgood hstep hinv => .of_invariant hgood hstep hinv

/-- A message being delivered is in the buffer unless it has been pruned. -/
theorem delivering_mem_of_run (h : RunOf ttl n tr σ) {m : MessageEnvelope}
    (hm : (σ.loops s).message = some m) :
    m ∈ σ.queue.buffer ∨ m ∈ prunedOf (events tr) := by
  have hmem := delivering_enqueued_of_run h hm
  rw [(ledger_of_run h).enqueued] at hmem
  exact (List.mem_append.mp hmem).symm

/-- The theorem at a run in which nothing is pruned: the one commit is in place. -/
theorem cursor_invariant_unpruned : ∃ tr σ, RunOf 5 0 tr σ ∧ CursorInvariant tr σ ∧
    (σ.queue.cursors 7).index = 1 := by
  have hrun := runOf_exec 5 0 [.subscribe 7, .enqueue 1 10 none, .enqueue 2 11 none, .dispatch 7,
    .dispatch 7, .dispatch 7, .received 7 (.ok .ack), .dispatch 7] (by decide)
  have hpruned : prunedOf (events (traceOf step (System.init 5 0) [.subscribe 7,
      .enqueue 1 10 none, .enqueue 2 11 none, .dispatch 7, .dispatch 7, .dispatch 7,
      .received 7 (.ok .ack), .dispatch 7])) = [] := by decide
  refine ⟨_, _, hrun, (cursor_invariant_iff hrun).mpr ?_ _ _ (List.prefix_refl _) hrun, by decide⟩
  rintro pre t ⟨post, hpost⟩ s m - hl -
  rw [List.append_assoc, List.singleton_append] at hpost
  rw [← hpost, events_append, prunedOf_append, List.append_eq_nil_iff] at hpruned
  have hrun' := hrun
  rw [← hpost] at hrun'
  refine Or.inl ((delivering_mem_of_run hrun'.cut.1 (congrArg _ hl)).resolve_right ?_)
  rw [hpruned.1]
  exact List.not_mem_nil

/-- **A commit that finds its message pruned skips the next one**: the subscriber has been
delivered nothing but message `1`, and its cursor is past message `2`. -/
theorem commit_skips_after_prune : ∃ tr σ, RunOf 5 0 tr σ ∧ ¬ CursorInvariant tr σ := by
  have hrun := runOf_exec 5 0 [.subscribe 7, .enqueue 1 10 none, .dispatch 7, .dispatch 7,
    .dispatch 7, .beginPrune 20, .prune 0, .enqueue 2 20 none, .received 7 (.ok .ack),
    .dispatch 7] (by decide)
  refine ⟨_, _, hrun, fun hinv => ?_⟩
  obtain ⟨-, -, hbelow⟩ := hinv 7 (by decide)
  have hdelivered := (hbelow 0 (by decide) ⟨2, 20⟩ (by decide)).mem
  revert hdelivered
  decide

end Runs

end PushDeliveredQueue
