import PushDeliveredQueue.DeadLetters

/-!
# Overlapping replays of one dead letter queue

A replay call looks an entry up, awaits the handler, and removes the entry by its `Id` if the
handler acknowledged it. Nothing marks the entry in between, and `ReplayAllDlqMessagesAsync`
keeps its place in the queue as a bare position. This file is about what that means when
calls overlap.

* **Processing twice.** Once a replay of a message has returned `Ack`, nothing hands that
  message over again until it is added again; so another `Ack` can only come from a call that
  was already awaiting the handler (`PushDeliveredQueue.acks_overlap`). That does happen
  (`PushDeliveredQueue.acked_twice`).
* **Skipping.** A call that replays the whole queue misses no entry as long as nothing moves
  the entries under its position (`PushDeliveredQueue.replay_all_complete`). The removal, by
  another call, of the entry it is at or of one before it does move them, and then it steps
  over an entry nobody has offered (`PushDeliveredQueue.replay_all_skips`).
-/

namespace PushDeliveredQueue

open Transitions

/-! ### Processing twice -/

section Acks

variable {s : Guid} {v w : DlqView} {evs : List Event} {m : MessageEnvelope} {call : ℕ}

/-- A message is handed over by a replay only while it is an entry. -/
theorem DlqStep.mem_of_receiveCalled {payload : Payload} (h : DlqStep s v evs w)
    (hmem : .receiveCalled s (.replay call) m payload ∈ evs) : m ∈ w.entries := by
  have hcalls : ∀ {call' : ℕ} {p : ReplayPhase} {evs : List Event}, CallsFor s call' p evs →
      Opens w.entries p → .receiveCalled s (.replay call) m payload ∈ evs → m ∈ w.entries := by
    intro call' p evs hc ho hmem
    obtain ⟨kind, m', payload', rfl, heq⟩ := hc.of_mem hmem
    obtain rfl : m = m' := by simp_all
    exact ho.message_mem rfl
  cases h with
  | start ho hc | runScheduled _ ho hc => exact hcalls hc ho hmem
  | acked _ _ hc =>
    simp only [List.mem_cons, reduceCtorEq, false_or] at hmem
    exact hcalls hc (opens_afterSuccess _ _) hmem
  | failed _ hc =>
    simp only [List.mem_cons, reduceCtorEq, false_or] at hmem
    exact hcalls hc (opens_afterFailure _ _) hmem
  | quiet h => exact absurd ⟨rfl, call, rfl⟩ (h _ hmem)
  | _ => simp at hmem

/-- A replay call that awaits the handler awaits it already, or does so with an entry. -/
theorem DlqStep.mem_of_receiving {kind : ReplayKind} (h : DlqStep s v evs w)
    (hc : w.calls[call]? = some (.receiving kind m)) :
    m ∈ w.entries ∨ v.calls[call]? = some (.receiving kind m) := by
  rcases h.phase hc with hc | ho | heq | ⟨_, _, heq, -⟩
  · exact Or.inr hc
  · exact Or.inl (ho.message_mem rfl)
  · exact ReplayPhase.noConfusion heq
  · exact ReplayPhase.noConfusion heq

/-- A message has been acknowledged to a replay call, and not been added again: it is no
entry, and the calls that await the handler with it are others, that did so `before`. -/
structure Settled (s : Guid) (m : MessageEnvelope) (call : ℕ) (before : List ReplayPhase)
    (v : DlqView) : Prop where
  notMem : m ∉ v.entries
  receiving : ∀ (c : ℕ) (kind : ReplayKind), v.calls[c]? = some (.receiving kind m) →
    c ≠ call ∧ ∃ kind, before[c]? = some (.receiving kind m)

/-- A settled message stays so until it is added again. -/
theorem Settled.step {before : List ReplayPhase} (hi : Settled s m call before v)
    (h : DlqStep s v evs w) (hadd : .addedToDlq s m ∉ evs) : Settled s m call before w := by
  have hnot : m ∉ w.entries := fun hm =>
    (h.mem_entries hm).elim hi.notMem hadd
  exact ⟨hnot, fun c kind hc =>
    hi.receiving c kind ((h.mem_of_receiving hc).resolve_left hnot)⟩

variable {ttl : TimeSpan} {n : ℕ} {tr cont : Trace} {σ σ₁ σ₂ : System} {a : Action}
  {out : List Event}

end Acks

/-! ### Skipping -/

section Lists

variable {α : Type*} {l : List α} {p : α → Bool} {i : ℕ}

/-- Filtering keeps a prefix it has nothing to remove from. -/
theorem take_filter_of_forall (h : ∀ x ∈ l.take i, p x = true) :
    (l.filter p).take i = l.take i := by
  induction l generalizing i with
  | nil => simp
  | cons x l ih =>
    cases i with
    | zero => simp
    | succ i =>
      rw [List.take_succ_cons, List.forall_mem_cons] at h
      rw [List.filter_cons_of_pos h.1, List.take_succ_cons, List.take_succ_cons, ih h.2]

/-- Filtering keeps the place of an element it has nothing to remove up to. -/
theorem getElem?_filter_of_forall (h : ∀ x ∈ l.take (i + 1), p x = true) :
    (l.filter p)[i]? = l[i]? := by
  rw [← List.getElem?_take_of_lt (Nat.lt_succ_self i), take_filter_of_forall h,
    List.getElem?_take_of_lt (Nat.lt_succ_self i)]

end Lists

/-- Some replay call has handed a dead letter to the handler. -/
def HandedBy (s : Guid) (evs : List Event) (m : MessageEnvelope) : Prop :=
  ∃ call payload, .receiveCalled s (.replay call) m payload ∈ evs

/-- A call of `ReplayAllDlqMessagesAsync` is processing a message, as `DeadLetterQueue[i]`. -/
def ReplayPhase.IsAt (p : ReplayPhase) (i : ℕ) (m : MessageEnvelope) : Prop :=
  p = .receiving (.all i) m ∨ p = .failing (.all i) m

/-- The position of a call that replays the whole queue is right: what is before it has been
handed over, and so has the message being processed, which is at it or gone. -/
structure Placed (s : Guid) (evs : List Event) (entries : List MessageEnvelope) (i : ℕ)
    (m : MessageEnvelope) : Prop where
  nodup : (entries.map (·.id)).Nodup
  before : ∀ e ∈ entries.take i, HandedBy s evs e
  current : HandedBy s evs m
  inPlace : ∀ e ∈ entries, e.id = m.id → e = m ∧ entries[i]? = some m

/-- A call that replays the whole queue has missed nothing so far: everything has been
handed over, or the position of the call is right, or the call has failed. -/
def MissesNone (s : Guid) (call : ℕ) (evs : List Event) (v : DlqView) : Prop :=
  (∀ e ∈ v.entries, HandedBy s evs e) ∨ v.calls[call]? = some .threw ∨
    ∃ p i m, v.calls[call]? = some p ∧ p.IsAt i m ∧ Placed s evs v.entries i m

/-- What must not happen to a call that replays the whole queue while some entry has not been
handed over since it began: that another call, returning with `Ack`, removes an entry from
before its position, or that the entry it is at is gone when its own failure handler
returns. -/
def KeepsPlace (s : Guid) (call : ℕ) (evs : List Event) (v : DlqView) (evs' : List Event) : Prop :=
  ∀ p i m, v.calls[call]? = some p → p.IsAt i m →
    (∀ e ∈ v.entries, HandedBy s evs e) ∨
      (∀ c m', c ≠ call → .receiveReturned s (.replay c) m' (.ok .ack) ∈ evs' →
        ∀ e ∈ v.entries.take i, e.id ≠ m'.id) ∧
      ∀ b, .failedReturned s (.replay call) m (.ok b) ∈ evs' → ∃ e ∈ v.entries, e.id = m.id

section ReplayAll

variable {s : Guid} {v w : DlqView} {evs evs' : List Event} {m : MessageEnvelope} {call i : ℕ}

theorem HandedBy.append_left (h : HandedBy s evs m) : HandedBy s (evs ++ evs') m := by
  obtain ⟨c, payload, hmem⟩ := h
  exact ⟨c, payload, List.mem_append_left _ hmem⟩

theorem HandedBy.append_right (h : HandedBy s evs' m) : HandedBy s (evs ++ evs') m := by
  obtain ⟨c, payload, hmem⟩ := h
  exact ⟨c, payload, List.mem_append_right _ hmem⟩

theorem Placed.append {entries : List MessageEnvelope} (h : Placed s evs entries i m) :
    Placed s (evs ++ evs') entries i m :=
  ⟨h.nodup, fun e he => (h.before e he).append_left, h.current.append_left, h.inPlace⟩

/-- Nothing before the position of a call is the message it is processing. -/
theorem Placed.id_ne {entries : List MessageEnvelope} (h : Placed s evs entries i m) :
    ∀ e ∈ entries.take i, e.id ≠ m.id := by
  intro e he hid
  obtain ⟨rfl, hplace⟩ := h.inPlace e (List.mem_of_mem_take he) hid
  obtain ⟨j, hj⟩ := List.mem_iff_getElem?.mp he
  rw [List.getElem?_take] at hj
  split_ifs at hj with hlt
  have hnodup : entries.Nodup := h.nodup.of_map
  have hij : j = i := (List.getElem?_inj (List.getElem?_eq_some_iff.mp hj).1 hnodup).mp
    (hj.trans hplace.symm)
  omega

/-- The removal of other entries behind the position leaves it right. -/
theorem Placed.removeAll {entries : List MessageEnvelope} {id : Guid}
    (h : Placed s evs entries i m) (hid : ∀ e ∈ entries.take i, e.id ≠ id) :
    Placed s evs (removeAll entries id) i m := by
  have hp : ∀ e ∈ entries.take i, decide (e.id ≠ id) = true := by simpa using hid
  refine ⟨h.nodup.sublist (List.filter_sublist.map _), ?_, h.current, ?_⟩
  · rw [PushDeliveredQueue.removeAll, take_filter_of_forall hp]
    exact h.before
  · intro e he hem
    obtain ⟨hmem, hne⟩ := List.mem_filter.mp he
    obtain ⟨rfl, hplace⟩ := h.inPlace e hmem hem
    refine ⟨rfl, ?_⟩
    rw [PushDeliveredQueue.removeAll, getElem?_filter_of_forall, hplace]
    intro x hx
    rw [List.take_add_one, hplace] at hx
    rcases List.mem_append.mp hx with hx | hx
    · exact hp x hx
    · rwa [List.mem_singleton.mp hx]

/-- **Going round the loop**: a call that looks at position `i`, with everything before it
handed over, has missed nothing. -/
theorem missesNone_of_replayAllFrom (hcall : w.calls[call]? = some (replayAllFrom w.entries i))
    (hc : CallsFor s call (replayAllFrom w.entries i) evs')
    (hnodup : (w.entries.map (·.id)).Nodup) (hbefore : ∀ e ∈ w.entries.take i, HandedBy s evs e) :
    MissesNone s call (evs ++ evs') w := by
  rcases lt_or_ge i w.entries.length with hlt | hge
  · have hget : w.entries[i]? = some w.entries[i] := List.getElem?_eq_getElem hlt
    rw [replayAllFrom_of_getElem? hget] at hcall hc
    obtain ⟨payload, rfl⟩ := hc
    refine Or.inr (Or.inr ⟨_, i, _, hcall, Or.inl rfl, hnodup, ?_, ?_, ?_⟩)
    · exact fun e he => (hbefore e he).append_left
    · exact HandedBy.append_right ⟨call, payload, List.mem_singleton_self _⟩
    · intro e he hid
      exact ⟨List.inj_on_of_nodup_map hnodup he (List.getElem_mem hlt) hid, hget⟩
  · refine Or.inl fun e he => (hbefore e ?_).append_left
    rwa [List.take_of_length_le hge]

/-- A step that moves neither the entries nor the call. -/
theorem MissesNone.of_same (h : MissesNone s call evs v) (he : w.entries = v.entries)
    (hc : w.calls[call]? = v.calls[call]?) : MissesNone s call (evs ++ evs') w := by
  rw [MissesNone, he, hc]
  rcases h with h | h | ⟨p, i, m, hcall, hat, hp⟩
  · exact Or.inl fun e he => (h e he).append_left
  · exact Or.inr (Or.inl h)
  · exact Or.inr (Or.inr ⟨p, i, m, hcall, hat, hp.append⟩)

theorem ReplayPhase.isAt_receiving_iff {kind : ReplayKind} {m' : MessageEnvelope} :
    (ReplayPhase.receiving kind m').IsAt i m ↔ kind = .all i ∧ m' = m := by
  simp [ReplayPhase.IsAt]

theorem ReplayPhase.isAt_failing_iff {kind : ReplayKind} {m' : MessageEnvelope} :
    (ReplayPhase.failing kind m').IsAt i m ↔ kind = .all i ∧ m' = m := by
  simp [ReplayPhase.IsAt]

theorem ReplayPhase.IsAt.of_receiving {calls : List ReplayPhase} {p : ReplayPhase}
    {kind : ReplayKind} {m' : MessageEnvelope} (h : p.IsAt i m)
    (hc : calls[call]? = some (.receiving kind m')) (hp : calls[call]? = some p) :
    kind = .all i ∧ m' = m := by
  obtain rfl := Option.some.inj (hc.symm.trans hp)
  exact ReplayPhase.isAt_receiving_iff.mp h

theorem ReplayPhase.IsAt.of_failing {calls : List ReplayPhase} {p : ReplayPhase}
    {kind : ReplayKind} {m' : MessageEnvelope} (h : p.IsAt i m)
    (hc : calls[call]? = some (.failing kind m')) (hp : calls[call]? = some p) :
    kind = .all i ∧ m' = m := by
  obtain rfl := Option.some.inj (hc.symm.trans hp)
  exact ReplayPhase.isAt_failing_iff.mp h

/-- A call does not change by the step of one that is elsewhere. -/
theorem getElem?_set_of_phase_ne {calls : List ReplayPhase} {c : ℕ} {p p' p'' : ReplayPhase}
    (hp : calls[call]? = some p) (hc : calls[c]? = some p') (hne : p' ≠ p) :
    (calls.set c p'')[call]? = calls[call]? := by
  refine List.getElem?_set_ne ?_
  rintro rfl
  exact hne (Option.some.inj (hc.symm.trans hp))

theorem getElem?_append_of_some {calls : List ReplayPhase} {p p' : ReplayPhase}
    (hp : calls[call]? = some p) : (calls ++ [p'])[call]? = calls[call]? :=
  List.getElem?_append_left (List.getElem?_eq_some_iff.mp hp).1

/-- A call that has failed stays so. -/
theorem DlqStep.threw_stays (h : DlqStep s v evs w) (hp : v.calls[call]? = some .threw) :
    w.calls[call]? = some .threw := by
  cases h with
  | start _ _ | schedule => exact (getElem?_append_of_some hp).trans hp
  | runScheduled hc _ _ | acked hc _ _ | notAcked hc _ | threw hc | failed hc _ =>
    exact (getElem?_set_of_phase_ne hp hc ReplayPhase.noConfusion).trans hp
  | _ => exact hp

/-- **One step makes a call miss nothing** when it keeps the place of the call. -/
theorem DlqStep.missesNone (h : DlqStep s v evs' w) (hadd : ∀ m, .addedToDlq s m ∉ evs')
    (hk : KeepsPlace s call evs v evs') (hi : MissesNone s call evs v) :
    MissesNone s call (evs ++ evs') w := by
  -- with everything handed over there is nothing left to miss
  have hdone : (∀ e ∈ v.entries, HandedBy s evs e) → MissesNone s call (evs ++ evs') w :=
    fun hall => Or.inl fun e he =>
      (hall e ((h.mem_entries he).resolve_right (hadd e))).append_left
  rcases hi with hall | hthrew | ⟨p, i, m, hcall, hat, hp⟩
  · exact hdone hall
  · exact Or.inr (Or.inl (h.threw_stays hthrew))
  have hi : MissesNone s call evs v := Or.inr (Or.inr ⟨p, i, m, hcall, hat, hp⟩)
  rcases hk p i m hcall hat with hall | ⟨hothers, hown⟩
  · exact hdone hall
  have hlt : call < v.calls.length := (List.getElem?_eq_some_iff.mp hcall).1
  cases h with
  | add _ => exact absurd (List.mem_singleton_self _) (hadd _)
  | subscribe _ => exact Or.inl (by simp)
  | unsubscribe _ | quiet _ => exact hi.of_same rfl rfl
  | start _ _ | schedule => exact hi.of_same rfl (getElem?_append_of_some hcall)
  | runScheduled hc _ _ =>
    refine hi.of_same rfl (getElem?_set_of_phase_ne hcall hc ?_)
    rcases hat with rfl | rfl <;> exact ReplayPhase.noConfusion
  | @acked c kind m' entries evs'' hc he hcf =>
    rcases eq_or_ne c call with rfl | hne
    · -- the call itself: its message is removed from its position, or was gone
      obtain ⟨rfl, rfl⟩ : kind = .all i ∧ m' = m := hat.of_receiving hc hcall
      have hkept := hp.removeAll hp.id_ne
      rw [← he] at hkept
      rw [afterSuccess_all] at hcf ⊢
      rw [List.append_cons]
      exact missesNone_of_replayAllFrom (List.getElem?_set_self hlt) hcf hkept.nodup
        fun e he => (hkept.before e he).append_left
    · -- another call: it removes nothing from before the position
      have hkept := hp.removeAll (hothers c m' hne (List.mem_cons_self ..))
      rw [← he] at hkept
      refine Or.inr (Or.inr ⟨p, i, m, ?_, hat, hkept.append⟩)
      exact (List.getElem?_set_ne hne).trans hcall
  | @notAcked c kind m' r hc hr =>
    rcases eq_or_ne c call with rfl | hne
    · obtain ⟨rfl, rfl⟩ : kind = .all i ∧ m' = m := hat.of_receiving hc hcall
      exact Or.inr (Or.inr ⟨_, i, m', List.getElem?_set_self hlt, Or.inr rfl, hp.append⟩)
    · exact hi.of_same rfl (List.getElem?_set_ne hne)
  | @threw c kind m' e hc =>
    rcases eq_or_ne c call with rfl | hne
    · exact Or.inr (Or.inl (List.getElem?_set_self hlt))
    · exact hi.of_same rfl (List.getElem?_set_ne hne)
  | @failed c kind m' b evs'' hc hcf =>
    rcases eq_or_ne c call with rfl | hne
    · -- the call itself goes past its message, which is still at its position
      obtain ⟨rfl, rfl⟩ : kind = .all i ∧ m' = m := hat.of_failing hc hcall
      obtain ⟨e, he, hid⟩ := hown b (List.mem_cons_self ..)
      have hplace := (hp.inPlace e he hid).2
      rw [afterFailure_all] at hcf ⊢
      rw [List.append_cons]
      refine missesNone_of_replayAllFrom (List.getElem?_set_self hlt) hcf hp.nodup ?_
      intro x hx
      rw [List.take_add_one, hplace] at hx
      rcases List.mem_append.mp hx with hx | hx
      · exact (hp.before x hx).append_left
      · rw [List.mem_singleton.mp hx]
        exact hp.current.append_left
    · exact hi.of_same rfl (List.getElem?_set_ne hne)

variable {ttl : TimeSpan} {n : ℕ} {tr cont : Trace} {σ σ₁ σ₂ : System} {a : Action}
  {out : List Event}

/-- An action begins the body of the call of `ReplayAllDlqMessagesAsync` of this number. -/
def Action.BeginsReplayAll (σ : System) (s : Guid) (call : ℕ) : Action → Prop
  | .replayAllDlqMessages s' => s' = s ∧ (σ.replays s).length = call
  | .runScheduled s' call' => s' = s ∧ call' = call
  | _ => False

theorem replayAllDlqMessages_of_mem {q : SubscribableQueue} (hs : s ∈ q.subscribers) :
    replayAllDlqMessages q s = replayAllFrom (q.cursors s).deadLetterQueue 0 := by
  simp only [replayAllDlqMessages, SubscribableQueue.tryGetValue, if_pos hs]
  split_ifs with hlen
  · rfl
  · have hzero : (q.cursors s).deadLetterQueue.length = 0 := Nat.eq_zero_of_not_pos hlen
    simp [replayAllFrom, hzero]

/-- A call that begins on a registered subscriber looks at position `0`. -/
theorem Effect.of_beginsReplayAll (h : Effect σ a σ₁ out) (ha : a.BeginsReplayAll σ s call)
    (hs : s ∈ σ.queue.subscribers) :
    (σ₁.dlqView s).entries = (σ.dlqView s).entries ∧
      (σ₁.dlqView s).calls[call]? = some (replayAllFrom (σ₁.dlqView s).entries 0) ∧
      CallsFor s call (replayAllFrom (σ₁.dlqView s).entries 0) out := by
  cases h with
  | replayAllDlqMessages s' =>
    obtain ⟨rfl, rfl⟩ := ha
    have hphase := replayAllDlqMessages_of_mem hs
    refine ⟨rfl, ?_, ?_⟩
    · simp only [System.dlqView, System.startReplay, Function.update_self, ← hphase]
      exact List.getElem?_concat_length
    · exact hphase ▸ callsFor_replayCalls _ _ _ _
  | @runScheduled s' call' h =>
    obtain ⟨rfl, rfl⟩ := ha
    have hphase := replayAllDlqMessages_of_mem hs
    have hlt := (List.getElem?_eq_some_iff.mp h).1
    refine ⟨rfl, ?_, ?_⟩
    · rw [System.dlqView_moveReplay, hphase]
      exact List.getElem?_set_self hlt
    · exact hphase ▸ callsFor_replayCalls _ _ _ _
  | _ => exact absurd ha id

/-- **A call misses nothing in a run that keeps its place.** -/
theorem missesNone_of_run (h : RunOf ttl n tr σ) (ha : a.BeginsReplayAll σ s call)
    (hstep : step σ a = some (σ₁, out)) (hs : s ∈ σ.queue.subscribers)
    (hnodup : ((σ.queue.cursors s).deadLetterQueue.map (·.id)).Nodup)
    (hcont : Run step σ₁ cont σ₂) (hadd : ∀ m, .addedToDlq s m ∉ events cont)
    (hkeeps : ∀ pre t, pre ++ [t] <+: cont →
      KeepsPlace s call (out ++ events pre) (t.pre.dlqView s) t.out) :
    MissesNone s call (out ++ events cont) (σ₂.dlqView s) := by
  refine hcont.invariant (I := fun cont σ₂ => (∀ m, .addedToDlq s m ∉ events cont) →
    (∀ pre t, pre ++ [t] <+: cont →
      KeepsPlace s call (out ++ events pre) (t.pre.dlqView s) t.out) →
    MissesNone s call (out ++ events cont) (σ₂.dlqView s)) ?_ ?_ hadd hkeeps
  · intro _ _
    obtain ⟨hentries, hcall, hcf⟩ := (effect_of_step hstep).of_beginsReplayAll ha hs
    have hstart : MissesNone s call ([] ++ out) (σ₁.dlqView s) := by
      refine missesNone_of_replayAllFrom (i := 0) hcall hcf ?_ (by simp)
      rw [hentries]
      exact hnodup
    simpa using hstart
  · intro cont σ' b evs σ'' hrun hi hs' hadd hkeeps
    simp only [events_append, events_cons, events_nil, List.append_nil, List.mem_append,
      not_or] at hadd
    have hd := dlqStep_of_run ((h.snoc hstep).append hrun) hs' s
    have hbefore := hi (fun m => (hadd m).1) fun pre t hpre =>
      hkeeps pre t (hpre.trans (List.prefix_append _ _))
    have hafter := hd.missesNone (fun m => (hadd m).2) (hkeeps _ _ (List.prefix_refl _)) hbefore
    simpa [List.append_assoc] using hafter

/-- **Replaying the whole queue misses nothing as long as it keeps its place.** Let a call of
`ReplayAllDlqMessagesAsync` begin on a registered subscriber whose dead letters have
different `Id`s, and let nothing be added to them until it has returned. If no transition in
between, while some entry has not been handed over since the call began, removes an entry
from before the position of the call through another one or has the failure handler of the
call return with the entry it is at gone, then every entry that was there at the beginning
and is there at the end has been handed to the handler by some replay call. -/
theorem replay_all_complete (h : RunOf ttl n tr σ) (ha : a.BeginsReplayAll σ s call)
    (hstep : step σ a = some (σ₁, out)) (hs : s ∈ σ.queue.subscribers)
    (hnodup : ((σ.queue.cursors s).deadLetterQueue.map (·.id)).Nodup)
    (hcont : Run step σ₁ cont σ₂) (hadd : ∀ m, .addedToDlq s m ∉ events cont)
    (hkeeps : ∀ pre t, pre ++ [t] <+: cont →
      KeepsPlace s call (out ++ events pre) (t.pre.dlqView s) t.out)
    (hret : (σ₂.replays s)[call]? = some .returned) :
    ∀ e ∈ (σ.queue.cursors s).deadLetterQueue, e ∈ (σ₂.queue.cursors s).deadLetterQueue →
      HandedBy s (out ++ events cont) e := by
  rcases missesNone_of_run h ha hstep hs hnodup hcont hadd hkeeps with
    hall | hthrew | ⟨p, i, m, hp, hat, -⟩
  · exact fun e _ he => hall e he
  · exact absurd (hret.symm.trans hthrew) (by simp)
  · -- a call that has returned is at no message
    obtain rfl := Option.some.inj (hret.symm.trans hp)
    rcases hat with hat | hat <;> exact ReplayPhase.noConfusion hat

/-- The theorem at two dead letters, the second of which another call removes meanwhile. -/
theorem replay_all_complete_shared : ∃ tr σ σ₁ out cont σ₂, RunOf 100 0 tr σ ∧
    step σ (.replayAllDlqMessages 7) = some (σ₁, out) ∧ Run step σ₁ cont σ₂ ∧
    (σ₂.queue.cursors 7).deadLetterQueue = [⟨1, 10⟩] ∧
    ∀ e ∈ (σ.queue.cursors 7).deadLetterQueue, e ∈ (σ₂.queue.cursors 7).deadLetterQueue →
      HandedBy 7 (out ++ events cont) e := by
  have h := runOf_exec 100 0 ([.subscribe 7, .enqueue 1 10 none, .enqueue 2 11 none] ++
    deadLetter 7 ++ deadLetter 7) (by decide)
  obtain ⟨σ₁, cont, σ₂, hstep, hcont, hnone, hat, hret, hdlq⟩ : ∃ σ₁ cont σ₂,
      step (stateOf step (System.init 100 0) ([.subscribe 7, .enqueue 1 10 none,
        .enqueue 2 11 none] ++ deadLetter 7 ++ deadLetter 7)) (.replayAllDlqMessages 7) =
          some (σ₁, [.receiveCalled 7 (.replay 0) ⟨1, 10⟩ none]) ∧
      Run step σ₁ cont σ₂ ∧ events cont = [.receiveCalled 7 (.replay 1) ⟨2, 11⟩ none,
        .receiveReturned 7 (.replay 1) ⟨2, 11⟩ (.ok .ack),
        .receiveReturned 7 (.replay 0) ⟨1, 10⟩ (.ok .nack),
        .failedCalled 7 (.replay 0) ⟨1, 10⟩ none,
        .failedReturned 7 (.replay 0) ⟨1, 10⟩ (.ok .commit)] ∧
      (∀ t ∈ cont, ⟨1, 10⟩ ∈ (t.pre.queue.cursors 7).deadLetterQueue ∧
        ((t.pre.replays 7)[0]? = some (.receiving (.all 0) ⟨1, 10⟩) ∨
          (t.pre.replays 7)[0]? = some (.failing (.all 0) ⟨1, 10⟩))) ∧
      (σ₂.replays 7)[0]? = some .returned ∧
      (σ₂.queue.cursors 7).deadLetterQueue = [⟨1, 10⟩] :=
    ⟨_, _, _, rfl, run_exec [.replayFromDlq 7 2, .replayReceived 7 1 (.ok .ack),
      .replayReceived 7 0 (.ok .nack), .replayFailedHandled 7 0 (.ok .commit)] (by decide),
      rfl, by decide, by decide, by decide⟩
  -- the call stays at position `0`, with its message there
  have hkeeps : ∀ pre t, pre ++ [t] <+: cont → KeepsPlace 7 0
      ([.receiveCalled 7 (.replay 0) ⟨1, 10⟩ none] ++ events pre) (t.pre.dlqView 7) t.out := by
    intro pre t hpre p i m hp hi
    obtain ⟨hmem, hphase⟩ := hat t (hpre.subset (by simp))
    obtain ⟨rfl, rfl⟩ : i = 0 ∧ m = ⟨1, 10⟩ := by
      rcases hphase with hphase | hphase
      · simpa [eq_comm] using hi.of_receiving hphase hp
      · simpa [eq_comm] using hi.of_failing hphase hp
    exact Or.inr ⟨by simp, fun _ _ => ⟨_, hmem, rfl⟩⟩
  exact ⟨_, _, σ₁, _, cont, σ₂, h, hstep, hcont, hdlq, replay_all_complete
    (a := .replayAllDlqMessages 7) h ⟨rfl, rfl⟩ hstep (by decide) (by decide) hcont
    (by simp [hnone]) hkeeps hret⟩

/-- **Replaying the whole queue skips a dead letter.** While the call awaits the handler with
the first of three, another call replays that one and removes it; the first call then fails,
goes on to position `1`, and never looks at the second. -/
theorem replay_all_skips : ∃ tr σ σ₁ out cont σ₂, RunOf 100 0 tr σ ∧ 7 ∈ σ.queue.subscribers ∧
    ((σ.queue.cursors 7).deadLetterQueue.map (·.id)).Nodup ∧
    step σ (.replayAllDlqMessages 7) = some (σ₁, out) ∧ Run step σ₁ cont σ₂ ∧
    (∀ m, .addedToDlq 7 m ∉ events cont) ∧
    (∀ caller m e, .failedReturned 7 caller m (.error e) ∉ events cont) ∧
    (σ₂.replays 7)[0]? = some .returned ∧
    ⟨2, 11⟩ ∈ (σ.queue.cursors 7).deadLetterQueue ∧
    ⟨2, 11⟩ ∈ (σ₂.queue.cursors 7).deadLetterQueue ∧
    ¬ HandedBy 7 (out ++ events cont) ⟨2, 11⟩ := by
  obtain ⟨tr, σ, σ₁, cont, σ₂, h, hreg, hdlq, hstep, hcont, hevents, hret, hmem⟩ :
      ∃ tr σ σ₁ cont σ₂, RunOf 100 0 tr σ ∧ 7 ∈ σ.queue.subscribers ∧
      (σ.queue.cursors 7).deadLetterQueue = [⟨1, 10⟩, ⟨2, 11⟩, ⟨3, 12⟩] ∧
      step σ (.replayAllDlqMessages 7) = some (σ₁, [.receiveCalled 7 (.replay 0) ⟨1, 10⟩ none]) ∧
      Run step σ₁ cont σ₂ ∧ events cont =
        [.receiveCalled 7 (.replay 1) ⟨1, 10⟩ none,
          .receiveReturned 7 (.replay 1) ⟨1, 10⟩ (.ok .ack),
          .receiveReturned 7 (.replay 0) ⟨1, 10⟩ (.ok .nack),
          .failedCalled 7 (.replay 0) ⟨1, 10⟩ none,
          .failedReturned 7 (.replay 0) ⟨1, 10⟩ (.ok .commit),
          .receiveCalled 7 (.replay 0) ⟨3, 12⟩ none,
          .receiveReturned 7 (.replay 0) ⟨3, 12⟩ (.ok .ack)] ∧
      (σ₂.replays 7)[0]? = some .returned ∧
      ⟨2, 11⟩ ∈ (σ₂.queue.cursors 7).deadLetterQueue := by
    have h := runOf_exec 100 0 ([.subscribe 7, .enqueue 1 10 none, .enqueue 2 11 none,
      .enqueue 3 12 none] ++ deadLetter 7 ++ deadLetter 7 ++ deadLetter 7) (by decide)
    exact ⟨_, _, _, _, _, h, by decide, rfl, rfl, run_exec [.replayFromDlq 7 1,
      .replayReceived 7 1 (.ok .ack), .replayReceived 7 0 (.ok .nack),
      .replayFailedHandled 7 0 (.ok .commit), .replayReceived 7 0 (.ok .ack)] (by decide),
      rfl, by decide, by decide⟩
  refine ⟨tr, σ, σ₁, _, cont, σ₂, h, hreg, ?_, hstep, hcont, ?_, ?_, hret, ?_, hmem, ?_⟩
  · simp [hdlq]
  · simp [hevents]
  · simp [hevents]
  · simp [hdlq]
  · simp [HandedBy, hevents]

end ReplayAll

end PushDeliveredQueue
