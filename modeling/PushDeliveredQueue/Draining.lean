import PushDeliveredQueue.CatchUp
import PushDeliveredQueue.ReplayAll

/-!
# Replaying while dead letters come in

`ReplayAllDlqMessagesAsync` looks at `Count` anew in every round, so it also replays what its
subscriber's dispatch loop adds while it is under way. Two things are proved of that, whatever else
goes on.

* **It drains the queue.** If no other replay removes anything meanwhile, the call hands over what
  there was and what has come in, in order and each once, and what it leaves in the queue is what it
  had no `Ack` for (`PushDeliveredQueue.replay_all_drains`). When it returns, it has handed over all
  that was in the queue until then.
* **It ends.** However many other replays remove entries meanwhile, the rounds of a call are no more
  than the entries it found and those that have come in (`PushDeliveredQueue.replay_all_ends`).
-/

namespace PushDeliveredQueue

open Transitions

/-! ### The queue grows behind the call -/

/-- **The invariant of a call on dead letters that come in**: `D` are those there were and those
added so far. -/
inductive Draining (s : Guid) (call : ℕ) (D : List MessageEnvelope) (evs : List Event) :
    List MessageEnvelope → ReplayPhase → Prop
  | awaiting {entries : List MessageEnvelope} {p : ReplayPhase} {k i : ℕ} {m : MessageEnvelope}
      (hp : p.IsAt i m) (hm : D[k]? = some m)
      (hscan : Traversal.Scan D (ackedBy s call evs) k entries i)
      (hreplayed : replayedBy s call evs = D.take (k + 1)) : Draining s call D evs entries p
  | finished {entries : List MessageEnvelope} {p : ReplayPhase} (hp : p = .returned ∨ p = .threw)
      (hacked : ∀ m ∈ ackedBy s call evs, m ∈ D)
      (hleft : entries = D.filter (· ∉ ackedBy s call evs))
      (hreplayed : replayedBy s call evs <+: D) : Draining s call D evs entries p

section Draining

variable {s : Guid} {call k i : ℕ} {D L entries entries' : List MessageEnvelope}
  {evs evs' : List Event} {p p' : ReplayPhase} {a : Action}

/-- **Going round the loop** at the first entry not offered; if there is none, all have been. -/
theorem Draining.goRound (hscan : Traversal.Scan D (ackedBy s call evs) k entries i)
    (hD : D.Nodup) (hreplayed : replayedBy s call evs = D.take k)
    (hc : CallsFor s call (replayAllFrom entries i) evs') :
    Draining s call D (evs ++ evs') entries (replayAllFrom entries i) ∧
      (replayAllFrom entries i = .returned → replayedBy s call (evs ++ evs') = D) := by
  obtain ⟨hhanded, hacked⟩ := hc.replayedBy_ackedBy
  have hacked' : ackedBy s call (evs ++ evs') = ackedBy s call evs := by
    rw [ackedBy_append, hacked, List.append_nil]
  rcases hget : D[k]? with _ | m
  · have hk : D.length ≤ k := List.getElem?_eq_none_iff.mp hget
    have hphase := replayAllFrom_of_length_le (List.getElem?_eq_none_iff.mp (hscan.getElem? ▸ hget))
    rw [hphase] at hhanded ⊢
    have hall : replayedBy s call (evs ++ evs') = D := by
      rw [replayedBy_append, hhanded, hreplayed, List.take_of_length_le hk]
      exact List.append_nil D
    refine ⟨.finished (Or.inl rfl) ?_ ?_ (hall ▸ List.prefix_refl _), fun _ => hall⟩
    · intro m hm
      exact List.mem_of_mem_take (hscan.visited m (hacked' ▸ hm))
    · rw [hacked']
      exact hscan.list_eq_filter hD
  · have hphase := replayAllFrom_of_getElem? (hscan.getElem?.trans hget)
    rw [hphase] at hhanded ⊢
    refine ⟨.awaiting (Or.inl rfl) hget (hacked' ▸ hscan) ?_,
      fun hp => ReplayPhase.noConfusion hp⟩
    rw [replayedBy_append, hhanded, hreplayed, Traversal.take_succ_of_getElem? hget]
    rfl

/-- **What is added the call is to come to**, or is left behind if it is over. -/
theorem Draining.grow (h : Draining s call D evs entries p) (hD : (D ++ L).Nodup)
    (hquiet : ∀ e ∈ evs', ¬ e.OfReplay s call) :
    Draining s call (D ++ L) (evs ++ evs') (entries ++ L) p := by
  have hreplayed' : replayedBy s call (evs ++ evs') = replayedBy s call evs := by
    rw [replayedBy_append, replayedBy_of_not_ofReplay hquiet, List.append_nil]
  have hacked' : ackedBy s call (evs ++ evs') = ackedBy s call evs := by
    rw [ackedBy_append, ackedBy_of_not_ofReplay hquiet, List.append_nil]
  cases h with
  | @awaiting k i m hp hm hscan hreplayed =>
    have hk := (List.getElem?_eq_some_iff.mp hm).1
    refine .awaiting (k := k) hp ?_ ?_ ?_
    · rw [List.getElem?_append_left hk, hm]
    · rw [hacked']
      exact hscan.grow hk.le L
    · rw [hreplayed', hreplayed, List.take_append_of_le_length (Nat.succ_le_of_lt hk)]
  | finished hp hacked hleft hreplayed =>
    refine .finished hp (fun m hm => ?_) ?_ ?_
    · exact List.mem_append_left _ (hacked m (hacked' ▸ hm))
    · have hnew : ∀ m ∈ L, decide (m ∉ ackedBy s call evs) = true := by
        intro m hm
        have hne := (List.nodup_append.mp hD).2.2
        exact decide_eq_true fun hmem => hne m (hacked m hmem) m hm rfl
      rw [hacked', List.filter_append, List.filter_eq_self.mpr hnew, hleft]
    · rw [hreplayed']
      exact hreplayed.trans (List.prefix_append _ _)

/-- **One step of the call**, with nothing coming in. -/
theorem CallStep.draining (h : CallStep s call a entries p evs' entries' p')
    (ha : a.OfReplay s call) (hD : (D.map (·.id)).Nodup)
    (hi : Draining s call D evs entries p) :
    Draining s call D (evs ++ evs') entries' p' ∧
      (p' = .returned → replayedBy s call (evs ++ evs') = D) := by
  have hnodup : D.Nodup := List.Nodup.of_map _ hD
  cases h with
  | other ha' _ => exact absurd ha ha'
  | @acked _ _ kind m evs' he hc =>
    cases hi with
    | finished hp _ _ _ => simp at hp
    | @awaiting k i m' hp hm hscan hreplayed =>
      obtain ⟨rfl, rfl⟩ := ReplayPhase.isAt_receiving_iff.mp hp
      have hacked : ackedBy s call (evs ++ [.receiveReturned s (.replay call) m (.ok .ack)]) =
          ackedBy s call evs ++ [m] := by
        simp [ackedBy]
      rw [afterSuccess_all] at hc ⊢
      rw [List.append_cons]
      refine Draining.goRound (k := k + 1) ?_ hnodup ?_ hc
      · rw [hacked, he]
        exact hscan.remove hD hm
      · simpa [replayedBy] using hreplayed
  | @notAcked _ kind m r hr =>
    cases hi with
    | finished hp _ _ _ => simp at hp
    | @awaiting k i m' hp hm hscan hreplayed =>
      obtain ⟨rfl, rfl⟩ := ReplayPhase.isAt_receiving_iff.mp hp
      refine ⟨.awaiting (Or.inr rfl) hm ?_ ?_, fun hp => ReplayPhase.noConfusion hp⟩
      · simpa [ackedBy, hr] using hscan
      · simpa [replayedBy] using hreplayed
  | @threw _ kind m e =>
    cases hi with
    | finished hp _ _ _ => simp at hp
    | @awaiting k i m' hp hm hscan hreplayed =>
      obtain ⟨rfl, rfl⟩ := ReplayPhase.isAt_failing_iff.mp hp
      have hacked : ackedBy s call (evs ++ [.failedReturned s (.replay call) m (.error e)]) =
          ackedBy s call evs := by
        simp [ackedBy]
      refine ⟨.finished (Or.inr rfl) ?_ ?_ ?_, fun hp => ReplayPhase.noConfusion hp⟩
      · intro x hx
        exact List.mem_of_mem_take (hscan.visited x (hacked ▸ hx))
      · rw [hacked]
        exact hscan.list_eq_filter hnodup
      · have hsame : replayedBy s call (evs ++ [.failedReturned s (.replay call) m (.error e)]) =
            replayedBy s call evs := by
          simp [replayedBy]
        rw [hsame, hreplayed]
        exact List.take_prefix _ _
  | @failed _ kind m b evs' hc =>
    cases hi with
    | finished hp _ _ _ => simp at hp
    | @awaiting k i m' hp hm hscan hreplayed =>
      obtain ⟨rfl, rfl⟩ := ReplayPhase.isAt_failing_iff.mp hp
      rw [afterFailure_all] at hc ⊢
      rw [List.append_cons]
      refine Draining.goRound (k := k + 1) ?_ hnodup ?_ hc
      · simpa [ackedBy] using hscan.keep hD hm
      · simpa [replayedBy] using hreplayed

/-- A call adds nothing to the dead letters. -/
theorem CallStep.addedOf_eq (h : CallStep s call a entries p evs entries' p')
    (ha : a.OfReplay s call) : addedOf s evs = [] := by
  refine addedOf_eq_nil fun m hm => ?_
  cases h with
  | other ha' _ => exact ha' ha
  | acked _ hc | failed hc =>
    exact hc.addedToDlq_notMem (List.mem_of_ne_of_mem Event.noConfusion hm)
  | notAcked _ | threw => simp at hm

/-- What is not its own leaves a call where it is. -/
theorem CallStep.of_not_ofReplay (h : CallStep s call a entries p evs entries' p')
    (ha : ¬ a.OfReplay s call) : p' = p ∧ ∀ e ∈ evs, ¬ e.OfReplay s call := by
  cases h with
  | other _ hquiet => exact ⟨rfl, hquiet⟩
  | _ => exact absurd ⟨rfl, rfl⟩ ha

end Draining

section Runs

variable {s : Guid} {call : ℕ} {σ σ₁ σ₂ : System} {a : Action} {out : List Event} {cont : Trace}

/-- In a run from a well-formed state nothing but an `Ack` of a replay takes entries away. -/
theorem dlq_eq_of_run (hw : σ.WellFormed) (hs : s ∈ σ.subscriberIds) (hcont : Run step σ cont σ₂)
    {t : Transition System Action Event} (ht : t ∈ cont)
    (hack : ∀ c m, .receiveReturned s (.replay c) m (.ok .ack) ∉ t.out) :
    t.post.dlq s = t.pre.dlq s ++ addedOf s t.out := by
  obtain ⟨pre, post, -, hpre, hstep, -⟩ := hcont.of_mem ht
  have hs' : s ∈ t.pre.subscriberIds := by
    refine hpre.stateInvariant (I := fun τ => s ∈ τ.subscriberIds) hs ?_
    exact fun τ b evs τ' hmem hstep => (effect_of_step hstep).subscriberId hmem
  refine ((effect_of_step hstep).dlqStep (hw.of_run hpre) s).entries_eq ?_ hack
  exact fun habs => (System.standing_eq_absent.mp habs).2 hs'

/-- What a call has handed over when it returns: what there was, and what had come in by then. -/
def HandedAll (s : Guid) (call : ℕ) (D : List MessageEnvelope) (out : List Event)
    (cont : Trace) : Prop :=
  ∃ c₁ c₂, cont = c₁ ++ c₂ ∧ (∀ t ∈ c₂, ¬ t.act.OfReplay s call) ∧
    replayedBy s call (out ++ events cont) = D ++ addedOf s (events c₁)

/-- What happens beside the call changes nothing of that. -/
theorem HandedAll.snoc {D : List MessageEnvelope} (h : HandedAll s call D out cont)
    {t : Transition System Action Event} (ht : ¬ t.act.OfReplay s call)
    (hquiet : ∀ e ∈ t.out, ¬ e.OfReplay s call) : HandedAll s call D out (cont ++ [t]) := by
  obtain ⟨c₁, c₂, rfl, hc₂, hreplayed⟩ := h
  refine ⟨c₁, c₂ ++ [t], by simp, ?_, ?_⟩
  · intro u hu
    rcases List.mem_append.mp hu with hu | hu
    · exact hc₂ u hu
    · exact List.mem_singleton.mp hu ▸ ht
  · rw [events_append, events_cons, events_nil, List.append_nil, ← List.append_assoc,
      replayedBy_append, replayedBy_of_not_ofReplay hquiet, List.append_nil, hreplayed]

/-- **The invariant in every run of a call** in which no other call has an `Ack`. -/
theorem draining_of_run (hw : σ.WellFormed) (ha : a.BeginsReplayAll σ s call)
    (hstep : step σ a = some (σ₁, out)) (hs : s ∈ σ.queue.subscribers)
    (hcont : Run step σ₁ cont σ₂)
    (hids : ((σ.dlq s ++ addedOf s (events cont)).map (·.id)).Nodup)
    (hacks : ∀ c m, .receiveReturned s (.replay c) m (.ok .ack) ∈ events cont → c = call) :
    ∃ p, (σ₂.replays s)[call]? = some p ∧
      Draining s call (σ.dlq s ++ addedOf s (events cont)) (out ++ events cont) (σ₂.dlq s) p ∧
      (p = .returned → HandedAll s call (σ.dlq s) out cont) := by
  have heff := effect_of_step hstep
  have hw₁ := hw.of_effect heff
  have hs₁ := heff.subscriberId (hw.registered_known s hs)
  refine call_invariant
    (I := fun pre entries p =>
      Draining s call (σ.dlq s ++ addedOf s (events pre)) (out ++ events pre) entries p ∧
      (p = .returned → HandedAll s call (σ.dlq s) out pre)) ha hstep hs hcont ?_ ?_
  · intro _ hcf _
    have hnodup : (σ.dlq s).Nodup := by
      rw [List.map_append] at hids
      exact List.Nodup.of_map _ hids.of_append_left
    have hnone : replayedBy s call [] = (σ.dlq s).take 0 := rfl
    obtain ⟨hstart, hall⟩ := Draining.goRound (i := 0) (Traversal.Scan.initial (σ.dlq s)) hnodup
      hnone hcf
    refine ⟨by simpa using hstart, fun hp => ⟨[], [], rfl, by simp, ?_⟩⟩
    simpa using hall hp
  · rintro pre t p p' ⟨rest, rfl⟩ ⟨hi, hret⟩ - - hcs
    have hmem : t ∈ pre ++ [t] ++ rest := by simp
    have hout : ∀ e ∈ t.out, e ∈ events (pre ++ [t] ++ rest) := fun e he =>
      mem_events.mpr ⟨t, hmem, he⟩
    simp only [events_append, addedOf_append, events_cons, events_nil, List.append_nil] at hids ⊢
    rw [← List.append_assoc, ← List.append_assoc] at hids ⊢
    have hids' : (((σ.dlq s ++ addedOf s (events pre)) ++ addedOf s t.out).map (·.id)).Nodup := by
      rw [List.map_append] at hids
      exact hids.of_append_left
    by_cases hown : t.act.OfReplay s call
    · have hnone := hcs.addedOf_eq hown
      have hD : ((σ.dlq s ++ addedOf s (events pre)).map (·.id)).Nodup := by
        rw [List.map_append] at hids'
        exact hids'.of_append_left
      rw [hnone, List.append_nil]
      obtain ⟨hnext, hall⟩ := hcs.draining hown hD hi
      refine ⟨hnext, fun hp => ⟨pre ++ [t], [], by simp, by simp, ?_⟩⟩
      simpa [hnone, List.append_assoc] using hall hp
    · obtain ⟨rfl, hquiet⟩ := hcs.of_not_ofReplay hown
      have hdlq : t.post.dlq s = t.pre.dlq s ++ addedOf s t.out := by
        refine dlq_eq_of_run hw₁ hs₁ hcont hmem fun c m hack => ?_
        obtain rfl := hacks c m (hout _ hack)
        exact hquiet _ hack ⟨rfl, rfl⟩
      rw [hdlq]
      exact ⟨hi.grow (List.Nodup.of_map _ hids') hquiet, fun hp => (hret hp).snoc hown hquiet⟩

/-- **Replaying the whole queue drains it.** Let a call begin on a registered subscriber, and let no
other replay call of that subscriber have an `Ack` meanwhile; its loop may dead-letter more, and
everybody else may do what they like. If the entries there were and those that come in have distinct
`Id`s, the call hands them over in order, each once at most. What is in the queue, at any time, is
what the call has had no `Ack` for, in the order it came in. When the call has returned, it has
handed over all there was and all that came in until it returned. -/
theorem replay_all_drains (hw : σ.WellFormed) (ha : a.BeginsReplayAll σ s call)
    (hstep : step σ a = some (σ₁, out)) (hs : s ∈ σ.queue.subscribers)
    (hcont : Run step σ₁ cont σ₂)
    (hids : ((σ.dlq s ++ addedOf s (events cont)).map (·.id)).Nodup)
    (hacks : ∀ c m, .receiveReturned s (.replay c) m (.ok .ack) ∈ events cont → c = call) :
    replayedBy s call (out ++ events cont) <+: σ.dlq s ++ addedOf s (events cont) ∧
      σ₂.dlq s = (σ.dlq s ++ addedOf s (events cont)).filter
        (· ∉ ackedBy s call (out ++ events cont)) ∧
      ((σ₂.replays s)[call]? = some .returned → HandedAll s call (σ.dlq s) out cont) := by
  obtain ⟨p, hp, hi, hret⟩ := draining_of_run hw ha hstep hs hcont hids hacks
  refine ⟨?_, ?_, fun hover => hret (Option.some.inj (hp.symm.trans hover))⟩
  · cases hi with
    | awaiting _ _ _ hreplayed => exact hreplayed ▸ List.take_prefix _ _
    | finished _ _ _ hreplayed => exact hreplayed
  · cases hi with
    | awaiting _ _ hscan _ => exact hscan.list_eq_filter (List.Nodup.of_map _ hids)
    | finished _ _ hleft _ => exact hleft

/-- The theorem at a call that finds one dead letter and hands over another that comes in while it
awaits the handler: it leaves the first, which fails again. -/
theorem replay_all_drains_growing : ∃ tr σ σ₁ out cont σ₂, RunOf 100 0 tr σ ∧
    step σ (.replayAllDlqMessages 7) = some (σ₁, out) ∧ Run step σ₁ cont σ₂ ∧
    σ.dlq 7 = [⟨1, 10⟩] ∧ addedOf 7 (events cont) = [⟨2, 11⟩] ∧ σ₂.dlq 7 = [⟨1, 10⟩] ∧
    (σ₂.replays 7)[0]? = some .returned ∧ HandedAll 7 0 (σ.dlq 7) out cont := by
  have h := runOf_exec 100 0 ([.subscribe 7, .enqueue 1 10 none, .enqueue 2 11 none] ++
    deadLetter 7) (by decide)
  obtain ⟨σ₁, cont, σ₂, hstep, hcont, hevents, hleft, hover⟩ : ∃ σ₁ cont σ₂,
      step (stateOf step (System.init 100 0) ([.subscribe 7, .enqueue 1 10 none,
        .enqueue 2 11 none] ++ deadLetter 7)) (.replayAllDlqMessages 7) =
          some (σ₁, [.receiveCalled 7 (.replay 0) ⟨1, 10⟩ none]) ∧
      Run step σ₁ cont σ₂ ∧ events cont =
        [.dispatchRead 7 (some ⟨2, 11⟩), .receiveCalled 7 .dispatch ⟨2, 11⟩ none,
          .receiveReturned 7 .dispatch ⟨2, 11⟩ (.ok .nack),
          .failedCalled 7 .dispatch ⟨2, 11⟩ none,
          .failedReturned 7 .dispatch ⟨2, 11⟩ (.ok .addToDLQ),
          .addedToDlq 7 ⟨2, 11⟩, .committed 7 ⟨2, 11⟩,
          .receiveReturned 7 (.replay 0) ⟨1, 10⟩ (.ok .nack),
          .failedCalled 7 (.replay 0) ⟨1, 10⟩ none,
          .failedReturned 7 (.replay 0) ⟨1, 10⟩ (.ok .commit),
          .receiveCalled 7 (.replay 0) ⟨2, 11⟩ none,
          .receiveReturned 7 (.replay 0) ⟨2, 11⟩ (.ok .ack)] ∧
      σ₂.dlq 7 = [⟨1, 10⟩] ∧ (σ₂.replays 7)[0]? = some .returned :=
    ⟨_, _, _, rfl, run_exec (deadLetter 7 ++ [.replayReceived 7 0 (.ok .nack),
      .replayFailedHandled 7 0 (.ok .commit), .replayReceived 7 0 (.ok .ack)]) (by decide),
      rfl, by decide, by decide⟩
  have hadded : addedOf 7 (events cont) = [⟨2, 11⟩] := by
    rw [hevents]
    rfl
  have hown : ∀ c m, .receiveReturned 7 (.replay c) m (.ok .ack) ∈ events cont → c = 0 := by
    intro c m hmem
    simp_all
  have hall := (replay_all_drains (a := .replayAllDlqMessages 7) (wellFormed_of_run h) ⟨rfl, rfl⟩
    hstep (by decide) hcont (by rw [hadded]; decide) hown).2.2 hover
  exact ⟨_, _, σ₁, _, cont, σ₂, h, hstep, hcont, by decide, hadded, hleft, hover, hall⟩

end Runs

/-! ### The rounds of a call -/

/-- The rounds a call is yet to go, after the one it is in, if nothing comes in: once its entry is
gone, whoever has removed it, the one behind it has moved up. -/
def ReplayPhase.roundsLeft (entries : List MessageEnvelope) : ReplayPhase → ℕ
  | .receiving (.all i) m =>
    (entries.length - i).toNat - if m.id ∈ entries.map (·.id) then 1 else 0
  | .failing (.all i) _ => (entries.length - (i + 1)).toNat
  | _ => 0

/-- The returns of the handler a call awaits in the round it is in. -/
def ReplayPhase.returnsLeft : ReplayPhase → ℕ
  | .receiving _ _ => 2
  | .failing _ _ => 1
  | .scheduled | .returned | .threw => 0

section Rounds

variable {s : Guid} {call : ℕ} {entries entries' : List MessageEnvelope} {evs : List Event}
  {p p' : ReplayPhase} {a : Action} {m : MessageEnvelope} {v w : DlqView}

theorem length_removeAll_le (entries : List MessageEnvelope) (id : Guid) :
    (removeAll entries id).length ≤ entries.length :=
  List.length_filter_le _ _

theorem length_removeAll_lt {id : Guid} (h : id ∈ entries.map (·.id)) :
    (removeAll entries id).length < entries.length := by
  obtain ⟨m, hm, rfl⟩ := List.mem_map.mp h
  have hgone : m ∉ removeAll entries m.id := by simp [removeAll]
  exact Traversal.length_lt_of_sublist_of_notMem List.filter_sublist hm hgone

theorem removeAll_of_notMem {id : Guid} (h : id ∉ entries.map (·.id)) :
    removeAll entries id = entries := by
  refine List.filter_eq_self.mpr fun m hm => ?_
  simpa using fun hid : m.id = id => h (List.mem_map.mpr ⟨m, hm, hid⟩)

/-- Another call's removal takes no round away but the one it saves. -/
theorem ReplayPhase.roundsLeft_removeAll (p : ReplayPhase) (entries : List MessageEnvelope)
    (id : Guid) : p.roundsLeft (removeAll entries id) ≤ p.roundsLeft entries := by
  have hle := length_removeAll_le entries id
  cases p with
  | receiving kind m =>
    cases kind with
    | fromDlq => exact le_rfl
    | all i =>
      by_cases hid : id ∈ entries.map (·.id)
      · have hlt := length_removeAll_lt hid
        simp only [roundsLeft]
        split_ifs <;> omega
      · rw [removeAll_of_notMem hid]
  | failing kind m =>
    cases kind with
    | fromDlq => exact le_rfl
    | all i =>
      simp only [roundsLeft]
      omega
  | scheduled | returned | threw => exact le_rfl

/-- In the round after a removal the loop looks at the same position, with the entry gone. -/
theorem ReplayPhase.length_removeAll_sub_le (entries : List MessageEnvelope) (i : ℤ)
    (m : MessageEnvelope) : ((removeAll entries m.id).length - i).toNat ≤
      (ReplayPhase.receiving (.all i) m).roundsLeft entries := by
  by_cases hin : m.id ∈ entries.map (·.id)
  · have hlt := length_removeAll_lt hin
    rw [roundsLeft, if_pos hin]
    omega
  · rw [removeAll_of_notMem hin, roundsLeft, if_neg hin]
    omega

/-- What comes in costs a round each. -/
theorem ReplayPhase.roundsLeft_append (p : ReplayPhase) (entries L : List MessageEnvelope) :
    p.roundsLeft (entries ++ L) ≤ p.roundsLeft entries + L.length := by
  cases p with
  | receiving kind m =>
    cases kind with
    | fromDlq => exact Nat.zero_le _
    | all i =>
      simp only [roundsLeft, List.length_append, List.map_append, List.mem_append]
      split_ifs with hin hold hold
      · omega
      · omega
      · exact absurd (Or.inl hold) hin
      · omega
  | failing kind m =>
    cases kind with
    | fromDlq => exact Nat.zero_le _
    | all i =>
      simp only [roundsLeft, List.length_append]
      omega
  | scheduled | returned | threw => exact Nat.zero_le _

/-- The head of the loop hands over an entry and goes that round, or ends. -/
theorem handed_replayAllFrom (entries : List MessageEnvelope) (i : ℤ) :
    (replayAllFrom entries i).handed.length + (replayAllFrom entries i).roundsLeft entries ≤
        (entries.length - i).toNat ∧
      2 * (replayAllFrom entries i).roundsLeft entries + (replayAllFrom entries i).returnsLeft ≤
        2 * (entries.length - i).toNat := by
  unfold replayAllFrom
  split_ifs with hlt h0
  · split
    · rename_i m hm
      have hin : m.id ∈ entries.map (·.id) := List.mem_map_of_mem (List.mem_of_getElem? hm)
      simp only [ReplayPhase.handed, ReplayPhase.roundsLeft, ReplayPhase.returnsLeft, if_pos hin,
        List.length_singleton]
      omega
    · simp [ReplayPhase.handed, ReplayPhase.roundsLeft, ReplayPhase.returnsLeft]
  · simp [ReplayPhase.handed, ReplayPhase.roundsLeft, ReplayPhase.returnsLeft]
  · simp [ReplayPhase.handed, ReplayPhase.roundsLeft, ReplayPhase.returnsLeft]

/-- What happens to the dead letters leaves a call no more rounds than it had and one for each that
comes in. -/
theorem DlqStep.roundsLeft (h : DlqStep s v evs w) (p : ReplayPhase) :
    p.roundsLeft w.entries ≤ p.roundsLeft v.entries + (addedOf s evs).length := by
  cases h with
  | @add m _ => simpa [addedOf] using p.roundsLeft_append v.entries [m]
  | subscribe _ =>
    cases p with
    | receiving kind m =>
      cases kind with
      | fromDlq => exact Nat.zero_le _
      | all i =>
        have hlen : m.id ∈ v.entries.map (·.id) → 0 < v.entries.length := fun hm => by
          simpa using List.length_pos_of_mem hm
        simp only [ReplayPhase.roundsLeft, List.map_nil, List.not_mem_nil, if_false,
          List.length_nil, addedOf_nil]
        split_ifs with hm
        · have := hlen hm
          omega
        · omega
    | failing kind m =>
      cases kind with
      | fromDlq => exact Nat.zero_le _
      | all i =>
        simp only [ReplayPhase.roundsLeft, List.length_nil, addedOf_nil]
        omega
    | _ => exact Nat.zero_le _
  | acked _ he _ =>
    subst he
    exact (p.roundsLeft_removeAll _ _).trans (Nat.le_add_right _ _)
  | _ => exact Nat.le_add_right _ _

/-- **Every step of a call is paid for**, in rounds and in returns. -/
theorem CallStep.roundsLeft (h : CallStep s call a entries p evs entries' p') {c : ℕ}
    (hothers : p.roundsLeft entries' ≤ p.roundsLeft entries + c) :
    (replayedBy s call evs).length + p'.roundsLeft entries' ≤ p.roundsLeft entries + c ∧
      (if a.OfReplay s call then 1 else 0) + (2 * p'.roundsLeft entries' + p'.returnsLeft) ≤
        2 * (p.roundsLeft entries + c) + p.returnsLeft := by
  cases h with
  | other ha hquiet =>
    rw [if_neg ha, replayedBy_of_not_ofReplay hquiet, List.length_nil]
    omega
  | @acked _ _ kind m evs he hc =>
    rw [if_pos ⟨rfl, rfl⟩]
    have hrep : replayedBy s call (.receiveReturned s (.replay call) m (.ok .ack) :: evs) =
        (afterSuccess entries' kind).handed := hc.replayedBy_ackedBy.1
    rw [hrep]
    cases kind with
    | fromDlq => simp [afterSuccess, ReplayPhase.handed, ReplayPhase.roundsLeft,
        ReplayPhase.returnsLeft]
    | all i =>
      have hnext := ReplayPhase.length_removeAll_sub_le entries i m
      obtain ⟨hhanded, hreturns⟩ := handed_replayAllFrom entries' (i - 1 + 1)
      rw [← he] at hnext
      simp only [afterSuccess, ReplayPhase.returnsLeft] at hhanded hreturns ⊢
      omega
  | @notAcked _ kind m r hr =>
    have hnone : replayedBy s call [.receiveReturned s (.replay call) m r,
        .failedCalled s (.replay call) m (exceptionOf r)] = [] := rfl
    rw [if_pos ⟨rfl, rfl⟩, hnone]
    cases kind with
    | fromDlq => simp [ReplayPhase.roundsLeft, ReplayPhase.returnsLeft]
    | all i =>
      simp only [ReplayPhase.roundsLeft, ReplayPhase.returnsLeft, List.length_nil]
      split_ifs <;> omega
  | @threw _ kind m e =>
    have hnone : replayedBy s call [.failedReturned s (.replay call) m (.error e)] = [] := rfl
    rw [if_pos ⟨rfl, rfl⟩, hnone]
    simp [ReplayPhase.roundsLeft, ReplayPhase.returnsLeft]
  | @failed _ kind m b evs hc =>
    rw [if_pos ⟨rfl, rfl⟩]
    have hrep : replayedBy s call (.failedReturned s (.replay call) m (.ok b) :: evs) =
        (afterFailure entries kind).handed := hc.replayedBy_ackedBy.1
    rw [hrep]
    cases kind with
    | fromDlq => simp [afterFailure, ReplayPhase.handed, ReplayPhase.roundsLeft,
        ReplayPhase.returnsLeft]
    | all i =>
      obtain ⟨hhanded, hreturns⟩ := handed_replayAllFrom entries (i + 1)
      simp only [afterFailure, ReplayPhase.roundsLeft, ReplayPhase.returnsLeft]
        at hhanded hreturns ⊢
      omega

variable {σ σ₁ σ₂ : System} {out : List Event} {cont : Trace}

/-- **The rounds of a run of a call**, and the returns it has awaited. -/
theorem roundsLeft_of_run (hw : σ.WellFormed) (ha : a.BeginsReplayAll σ s call)
    (hstep : step σ a = some (σ₁, out)) (hs : s ∈ σ.queue.subscribers)
    (hcont : Run step σ₁ cont σ₂) :
    ∃ p, (σ₂.replays s)[call]? = some p ∧ p ≠ .scheduled ∧
      (replayedBy s call (out ++ events cont)).length + p.roundsLeft (σ₂.dlq s) ≤
        (σ.dlq s).length + (addedOf s (events cont)).length ∧
      cont.countP (·.act.OfReplay s call) + (2 * p.roundsLeft (σ₂.dlq s) + p.returnsLeft) ≤
        2 * ((σ.dlq s).length + (addedOf s (events cont)).length) := by
  refine call_invariant
    (I := fun pre entries p => p ≠ .scheduled ∧
      (replayedBy s call (out ++ events pre)).length + p.roundsLeft entries ≤
        (σ.dlq s).length + (addedOf s (events pre)).length ∧
      pre.countP (·.act.OfReplay s call) + (2 * p.roundsLeft entries + p.returnsLeft) ≤
        2 * ((σ.dlq s).length + (addedOf s (events pre)).length)) ha hstep hs hcont ?_ ?_
  · intro _ hcf _
    obtain ⟨hhanded, hreturns⟩ := handed_replayAllFrom (σ.dlq s) 0
    have hlen : ((σ.dlq s).length - (0 : ℤ)).toNat = (σ.dlq s).length := by simp
    rw [hlen] at hhanded hreturns
    rw [events_nil, List.append_nil, hcf.replayedBy_ackedBy.1]
    refine ⟨replayAllFrom_ne_scheduled _ _, ?_, ?_⟩
    · simpa using hhanded
    · simpa using hreturns
  · rintro pre t p p' hpre ⟨hbegun, hrep, hret⟩ - - hcs
    obtain ⟨pre', post, -, hrun, hs', -⟩ := hcont.of_mem (hpre.subset (by simp : t ∈ pre ++ [t]))
    have hw' := (hw.of_effect (effect_of_step hstep)).of_run hrun
    have hothers := ((effect_of_step hs').dlqStep hw' s).roundsLeft p
    obtain ⟨hrep', hret'⟩ := hcs.roundsLeft hothers
    refine ⟨hcs.ne_scheduled hbegun, ?_, ?_⟩
    · simp only [events_append, events_cons, events_nil, List.append_nil, addedOf_append,
        List.length_append, replayedBy_append] at hrep ⊢
      omega
    · simp only [events_append, events_cons, events_nil, List.append_nil, addedOf_append,
        List.length_append, List.countP_append, List.countP_singleton, decide_eq_true_eq]
      omega

/-- **Replaying the whole queue ends.** Let a call begin on a registered subscriber, and let
anything happen meanwhile: more dead letters, other replays with any outcome, a departure. The call
hands over no more entries than there were and have come in, and awaits no more than two returns of
the handler for each. Unless it is over it awaits one that it can take. -/
theorem replay_all_ends (hw : σ.WellFormed) (ha : a.BeginsReplayAll σ s call)
    (hstep : step σ a = some (σ₁, out)) (hs : s ∈ σ.queue.subscribers)
    (hcont : Run step σ₁ cont σ₂) :
    (replayedBy s call (out ++ events cont)).length ≤
        (σ.dlq s).length + (addedOf s (events cont)).length ∧
      cont.countP (·.act.OfReplay s call) ≤
        2 * ((σ.dlq s).length + (addedOf s (events cont)).length) ∧
      ((σ₂.replays s)[call]? = some .returned ∨ (σ₂.replays s)[call]? = some .threw ∨
        ∃ b, b.OfReplay s call ∧ (step σ₂ b).isSome) := by
  obtain ⟨p, hp, hbegun, hrep, hret⟩ := roundsLeft_of_run hw ha hstep hs hcont
  refine ⟨by omega, by omega, ?_⟩
  cases p with
  | scheduled => exact absurd rfl hbegun
  | receiving kind m =>
    refine Or.inr (Or.inr ⟨.replayReceived s call (.ok .ack), ⟨rfl, rfl⟩, ?_⟩)
    exact isSome_step_replayReceived hp _
  | failing kind m =>
    refine Or.inr (Or.inr ⟨.replayFailedHandled s call (.ok .commit), ⟨rfl, rfl⟩, ?_⟩)
    exact isSome_step_replayFailedHandled hp _
  | returned => exact Or.inl hp
  | threw => exact Or.inr (Or.inl hp)

/-- The theorem at a call that finds one dead letter, which another call removes before this one has
had its own `Ack` for it, and then hands over one that has come in. -/
theorem replay_all_ends_shared : ∃ tr σ σ₁ out cont σ₂, RunOf 100 0 tr σ ∧
    step σ (.replayAllDlqMessages 7) = some (σ₁, out) ∧ Run step σ₁ cont σ₂ ∧
    σ.dlq 7 = [⟨1, 10⟩] ∧ addedOf 7 (events cont) = [⟨2, 11⟩] ∧ σ₂.dlq 7 = [] ∧
    (replayedBy 7 0 (out ++ events cont)).length ≤ 1 + 1 := by
  have h := runOf_exec 100 0 ([.subscribe 7, .enqueue 1 10 none, .enqueue 2 11 none] ++
    deadLetter 7) (by decide)
  obtain ⟨σ₁, cont, σ₂, hstep, hcont, hadded, hleft⟩ : ∃ σ₁ cont σ₂,
      step (stateOf step (System.init 100 0) ([.subscribe 7, .enqueue 1 10 none,
        .enqueue 2 11 none] ++ deadLetter 7)) (.replayAllDlqMessages 7) =
          some (σ₁, [.receiveCalled 7 (.replay 0) ⟨1, 10⟩ none]) ∧
      Run step σ₁ cont σ₂ ∧ addedOf 7 (events cont) = [⟨2, 11⟩] ∧ σ₂.dlq 7 = [] :=
    ⟨_, _, _, rfl, run_exec ([.replayFromDlq 7 1, .replayReceived 7 1 (.ok .ack)] ++ deadLetter 7 ++
      [.replayReceived 7 0 (.ok .ack), .replayReceived 7 0 (.ok .ack)]) (by decide),
      by decide, by decide⟩
  refine ⟨_, _, σ₁, _, cont, σ₂, h, hstep, hcont, by decide, hadded, hleft, ?_⟩
  have hle := (replay_all_ends (a := .replayAllDlqMessages 7) (wellFormed_of_run h) ⟨rfl, rfl⟩
    hstep (by decide) hcont).1
  rwa [hadded] at hle

end Rounds

end PushDeliveredQueue
