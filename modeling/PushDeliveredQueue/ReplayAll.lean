import PushDeliveredQueue.ReplayCall

/-!
# What replaying the whole queue comes to

A call of `ReplayAllDlqMessagesAsync` that nothing interferes with: every other transition leaves
the dead letters of its subscriber as they are (`PushDeliveredQueue.UndisturbedCall`). The call
removes from the list it walks along, and steps its position back by one when it has.

* **With distinct `Id`s** that is right: the call offers every entry once, in order, and what it
  leaves is a filter of what it found (`PushDeliveredQueue.replay_all_filters`). The invariant is
  `Traversal.Scan`.
* **With an `Id` that occurs several times** it is not: one `RemoveAll` may remove several
  entries, and of those before the position the step back makes up for none. So many entries
  behind it slip past (`Traversal.drop_filter`), and the call reaches every `Id` exactly when no
  `Id` is lost in this way (`PushDeliveredQueue.replay_all_reaches_iff`).
-/

namespace PushDeliveredQueue

open Transitions

/-- **Nothing interferes with a call**: the transitions of a run that are not its own leave the
dead letters as they are. -/
def UndisturbedCall (s : Guid) (call : ℕ) (cont : Trace) : Prop :=
  ∀ t ∈ cont, ¬ t.act.OfReplay s call → t.post.dlq s = t.pre.dlq s

instance (s : Guid) (call : ℕ) (cont : Trace) : Decidable (UndisturbedCall s call cont) :=
  inferInstanceAs (Decidable (∀ t ∈ cont, _ → _))

/-- The failure handler of a replay call has not thrown. -/
def NoneThrown (s : Guid) (call : ℕ) (evs : List Event) : Prop :=
  ∀ m e, .failedReturned s (.replay call) m (.error e) ∉ evs

section Thrown

variable {s : Guid} {call : ℕ} {evs evs' : List Event}

theorem NoneThrown.append (h : NoneThrown s call evs) (h' : NoneThrown s call evs') :
    NoneThrown s call (evs ++ evs') := by
  intro m e hmem
  exact (List.mem_append.mp hmem).elim (h m e) (h' m e)

theorem noneThrown_of_not_ofReplay (h : ∀ e ∈ evs, ¬ e.OfReplay s call) :
    NoneThrown s call evs :=
  fun _ _ hmem => h _ hmem ⟨rfl, rfl⟩

theorem CallsFor.noneThrown {p : ReplayPhase} (h : CallsFor s call p evs) :
    NoneThrown s call evs := by
  intro m e hmem
  obtain ⟨_, _, _, -, heq⟩ := h.of_mem hmem
  exact Event.noConfusion heq

end Thrown

/-! ### Distinct `Id`s -/

/-- **The invariant of a call on dead letters `D` with distinct `Id`s**: the entries it has
offered are the first of them, and the list that is left is split by its position into what has
been offered and kept and what has not been offered. -/
inductive Scanning (s : Guid) (call : ℕ) (D : List MessageEnvelope) (evs : List Event) :
    List MessageEnvelope → ReplayPhase → Prop
  | awaiting {entries : List MessageEnvelope} {p : ReplayPhase} {k i : ℕ} {m : MessageEnvelope}
      (hp : p.IsAt i m) (hm : D[k]? = some m)
      (hscan : Traversal.Scan D (ackedBy s call evs) k entries i)
      (hreplayed : replayedBy s call evs = D.take (k + 1)) (hthrown : NoneThrown s call evs) :
      Scanning s call D evs entries p
  | returned {entries : List MessageEnvelope} {k i : ℕ} (hk : D.length ≤ k)
      (hscan : Traversal.Scan D (ackedBy s call evs) k entries i)
      (hreplayed : replayedBy s call evs = D) (hthrown : NoneThrown s call evs) :
      Scanning s call D evs entries .returned
  | threw {entries : List MessageEnvelope} {k i : ℕ} {m : MessageEnvelope} {e : Exception}
      (hm : D[k]? = some m) (hscan : Traversal.Scan D (ackedBy s call evs) (k + 1) entries i)
      (hreplayed : replayedBy s call evs = D.take (k + 1))
      (hthrown : .failedReturned s (.replay call) m (.error e) ∈ evs)
      (honly : ∀ m' e', .failedReturned s (.replay call) m' (.error e') ∈ evs → m' = m) :
      Scanning s call D evs entries .threw

section Distinct

variable {s : Guid} {call k i : ℕ} {D entries entries' : List MessageEnvelope}
  {evs evs' : List Event} {p p' : ReplayPhase} {a : Action}

/-- **Going round the loop** at the first entry not offered. -/
theorem Scanning.of_replayAllFrom (hscan : Traversal.Scan D (ackedBy s call evs) k entries i)
    (hreplayed : replayedBy s call evs = D.take k) (hthrown : NoneThrown s call evs)
    (hc : CallsFor s call (replayAllFrom entries i) evs') :
    Scanning s call D (evs ++ evs') entries (replayAllFrom entries i) := by
  obtain ⟨hhanded, hacked⟩ := hc.replayedBy_ackedBy
  have hscan' : Traversal.Scan D (ackedBy s call (evs ++ evs')) k entries i := by
    rwa [ackedBy_append, hacked, List.append_nil]
  have hthrown' := hthrown.append hc.noneThrown
  rcases hget : D[k]? with _ | m
  · have hk : D.length ≤ k := List.getElem?_eq_none_iff.mp hget
    have hphase := replayAllFrom_of_length_le (List.getElem?_eq_none_iff.mp (hscan.getElem? ▸ hget))
    rw [hphase] at hhanded ⊢
    refine .returned hk hscan' ?_ hthrown'
    rw [replayedBy_append, hhanded, hreplayed, List.take_of_length_le hk]
    exact List.append_nil D
  · have hphase := replayAllFrom_of_getElem? (hscan.getElem?.trans hget)
    rw [hphase] at hhanded ⊢
    refine .awaiting (Or.inl rfl) hget hscan' ?_ hthrown'
    rw [replayedBy_append, hhanded, hreplayed, Traversal.take_succ_of_getElem? hget]
    rfl

/-- A transition that tells nothing of the call and leaves the dead letters alone. -/
theorem Scanning.append_of_not_ofReplay (h : Scanning s call D evs entries p)
    (hquiet : ∀ e ∈ evs', ¬ e.OfReplay s call) : Scanning s call D (evs ++ evs') entries p := by
  have hreplayed : replayedBy s call (evs ++ evs') = replayedBy s call evs := by
    rw [replayedBy_append, replayedBy_of_not_ofReplay hquiet, List.append_nil]
  have hacked : ackedBy s call (evs ++ evs') = ackedBy s call evs := by
    rw [ackedBy_append, ackedBy_of_not_ofReplay hquiet, List.append_nil]
  have hnone := noneThrown_of_not_ofReplay hquiet
  cases h with
  | awaiting hp hm hscan hrep hthrown =>
    exact .awaiting hp hm (hacked ▸ hscan) (hreplayed ▸ hrep) (hthrown.append hnone)
  | returned hk hscan hrep hthrown =>
    exact .returned hk (hacked ▸ hscan) (hreplayed ▸ hrep) (hthrown.append hnone)
  | threw hm hscan hrep hthrown honly =>
    refine .threw hm (hacked ▸ hscan) (hreplayed ▸ hrep) (List.mem_append_left _ hthrown) ?_
    intro m' e' hmem
    exact (List.mem_append.mp hmem).elim (honly m' e') fun hmem => absurd hmem (hnone m' e')

/-- **One step of a call on distinct `Id`s.** -/
theorem CallStep.scanning (h : CallStep s call a entries p evs' entries' p')
    (hothers : ¬ a.OfReplay s call → entries' = entries) (hD : (D.map (·.id)).Nodup)
    (hi : Scanning s call D evs entries p) : Scanning s call D (evs ++ evs') entries' p' := by
  cases h with
  | other ha hquiet =>
    rw [hothers ha]
    exact hi.append_of_not_ofReplay hquiet
  | @acked _ _ kind m evs' he hc =>
    cases hi with
    | @awaiting _ k i m' hp hm hscan hrep hthrown =>
      obtain ⟨rfl, rfl⟩ := ReplayPhase.isAt_receiving_iff.mp hp
      have hacked : ackedBy s call (evs ++ [.receiveReturned s (.replay call) m (.ok .ack)]) =
          ackedBy s call evs ++ [m] := by
        simp [ackedBy]
      rw [afterSuccess_all] at hc ⊢
      rw [List.append_cons]
      refine Scanning.of_replayAllFrom (k := k + 1) ?_ ?_ (hthrown.append (by simp [NoneThrown])) hc
      · rw [hacked, he]
        exact hscan.remove hD hm
      · simpa [replayedBy] using hrep
  | @notAcked _ kind m r hr =>
    cases hi with
    | @awaiting _ k i m' hp hm hscan hrep hthrown =>
      obtain ⟨rfl, rfl⟩ := ReplayPhase.isAt_receiving_iff.mp hp
      refine .awaiting (Or.inr rfl) hm ?_ ?_ (hthrown.append (by simp [NoneThrown]))
      · simpa [ackedBy, hr] using hscan
      · simpa [replayedBy] using hrep
  | @threw _ kind m e =>
    cases hi with
    | @awaiting _ k i m' hp hm hscan hrep hthrown =>
      obtain ⟨rfl, rfl⟩ := ReplayPhase.isAt_failing_iff.mp hp
      refine .threw (i := i + 1) hm ?_ ?_ (List.mem_append_right _ (List.mem_singleton_self _)) ?_
      · simpa [ackedBy] using hscan.keep hD hm
      · simpa [replayedBy] using hrep
      · intro m'' e' hmem
        rcases List.mem_append.mp hmem with hmem | hmem
        · exact absurd hmem (hthrown m'' e')
        · obtain ⟨rfl, rfl⟩ : m'' = m ∧ e' = e := by simpa using hmem
          rfl
  | @failed _ kind m b evs' hc =>
    cases hi with
    | @awaiting _ k i m' hp hm hscan hrep hthrown =>
      obtain ⟨rfl, rfl⟩ := ReplayPhase.isAt_failing_iff.mp hp
      rw [afterFailure_all] at hc ⊢
      rw [List.append_cons]
      refine Scanning.of_replayAllFrom (k := k + 1) ?_ ?_ (hthrown.append (by simp [NoneThrown])) hc
      · simpa [ackedBy] using hscan.keep hD hm
      · simpa [replayedBy] using hrep

variable {σ σ₁ σ₂ : System} {out : List Event} {cont : Trace}

/-- **The invariant in every undisturbed run of a call.** -/
theorem scanning_of_run (ha : a.BeginsReplayAll σ s call) (hstep : step σ a = some (σ₁, out))
    (hs : s ∈ σ.queue.subscribers) (hids : ((σ.dlq s).map (·.id)).Nodup)
    (hcont : Run step σ₁ cont σ₂) (hquiet : UndisturbedCall s call cont) :
    ∃ p, (σ₂.replays s)[call]? = some p ∧
      Scanning s call (σ.dlq s) (out ++ events cont) (σ₂.dlq s) p := by
  refine call_invariant
    (I := fun pre entries p => Scanning s call (σ.dlq s) (out ++ events pre) entries p)
    ha hstep hs hcont ?_ ?_
  · intro _ hcf _
    have hstart : Scanning s call (σ.dlq s) ([] ++ out) (σ.dlq s)
        (replayAllFrom (σ.dlq s) (0 : ℕ)) :=
      Scanning.of_replayAllFrom (Traversal.Scan.initial (σ.dlq s)) rfl (by simp [NoneThrown]) hcf
    simpa using hstart
  · intro pre t p p' hpre hi _ _ hcs
    have hnext := hcs.scanning (hquiet t (hpre.subset (by simp))) hids hi
    simpa [List.append_assoc] using hnext

/-- **Replaying the whole queue is a filter.** Let a call begin on a registered subscriber whose
dead letters have distinct `Id`s, with nothing interfering. It offers the entries in order, each
once at most. When it has returned, it has offered them all, and left those for which it had no
`Ack`, in their order. When its failure handler has thrown while it was at some entry, the call
has ended with that, has offered the entries up to that one, and has left those of them for which
it had no `Ack`, in their order, and all behind. A call ends in no other way. And it comes to one of
the two: there are no more offers than entries, and as long as the call is not over, the return of
the handler call it awaits takes it on, whatever that turns out to be. -/
theorem replay_all_filters (ha : a.BeginsReplayAll σ s call) (hstep : step σ a = some (σ₁, out))
    (hs : s ∈ σ.queue.subscribers) (hids : ((σ.dlq s).map (·.id)).Nodup)
    (hcont : Run step σ₁ cont σ₂) (hquiet : UndisturbedCall s call cont) :
    replayedBy s call (out ++ events cont) <+: σ.dlq s ∧
      ((σ₂.replays s)[call]? = some .returned →
        replayedBy s call (out ++ events cont) = σ.dlq s ∧
        σ₂.dlq s = (σ.dlq s).filter (· ∉ ackedBy s call (out ++ events cont))) ∧
      (∀ m e, .failedReturned s (.replay call) m (.error e) ∈ out ++ events cont →
        (σ₂.replays s)[call]? = some .threw ∧ ∃ k, (σ.dlq s)[k]? = some m ∧
          replayedBy s call (out ++ events cont) = (σ.dlq s).take (k + 1) ∧
          σ₂.dlq s = ((σ.dlq s).take (k + 1)).filter
            (· ∉ ackedBy s call (out ++ events cont)) ++ (σ.dlq s).drop (k + 1)) ∧
      ((σ₂.replays s)[call]? = some .threw →
        ∃ m e, .failedReturned s (.replay call) m (.error e) ∈ out ++ events cont) ∧
      (replayedBy s call (out ++ events cont)).length ≤ (σ.dlq s).length ∧
      ((σ₂.replays s)[call]? = some .returned ∨ (σ₂.replays s)[call]? = some .threw ∨
        AwaitsReturn σ₂ s call) := by
  obtain ⟨p, hp, hi⟩ := scanning_of_run ha hstep hs hids hcont hquiet
  cases hi with
  | awaiting hat _ _ hreplayed hthrown =>
    have hoffered : replayedBy s call (out ++ events cont) <+: σ.dlq s :=
      hreplayed ▸ List.take_prefix _ _
    refine ⟨hoffered, fun hover => ?_, fun m e hmem => absurd hmem (hthrown m e), fun hover => ?_,
      hoffered.length_le, Or.inr (Or.inr (awaitsReturn_of_isAt hp hat))⟩
    all_goals
      obtain rfl := Option.some.inj (hp.symm.trans hover)
      rcases hat with h | h <;> exact ReplayPhase.noConfusion h
  | returned hk hscan hreplayed hthrown =>
    refine ⟨hreplayed ▸ List.prefix_refl _, fun _ => ⟨hreplayed, hscan.complete hk⟩,
      fun m e hmem => absurd hmem (hthrown m e), fun hover => ?_, hreplayed ▸ le_refl _, Or.inl hp⟩
    exact ReplayPhase.noConfusion (Option.some.inj (hp.symm.trans hover))
  | threw hm hscan hreplayed hthrown honly =>
    have hoffered : replayedBy s call (out ++ events cont) <+: σ.dlq s :=
      hreplayed ▸ List.take_prefix _ _
    refine ⟨hoffered, fun hover => ?_, fun m' e' hmem => ?_, fun _ => ⟨_, _, hthrown⟩,
      hoffered.length_le, Or.inr (Or.inl hp)⟩
    · exact ReplayPhase.noConfusion (Option.some.inj (hp.symm.trans hover))
    · obtain rfl := honly m' e' hmem
      exact ⟨hp, _, hm, hreplayed, hscan.list⟩

/-- The theorem at three dead letters, the second of which is acknowledged, the failure handler
throwing at the third. -/
theorem replay_all_filters_throwing : ∃ tr σ σ₁ out cont σ₂, RunOf 100 0 tr σ ∧
    step σ (.replayAllDlqMessages 7) = some (σ₁, out) ∧ Run step σ₁ cont σ₂ ∧
    σ.dlq 7 = [⟨1, 10⟩, ⟨2, 11⟩, ⟨3, 12⟩, ⟨4, 13⟩] ∧
    σ₂.dlq 7 = [⟨1, 10⟩, ⟨3, 12⟩, ⟨4, 13⟩] ∧ (σ₂.replays 7)[0]? = some .threw ∧
    replayedBy 7 0 (out ++ events cont) <+: σ.dlq 7 := by
  have h := runOf_exec 100 0 ([.subscribe 7, .enqueue 1 10 none, .enqueue 2 11 none,
    .enqueue 3 12 none, .enqueue 4 13 none] ++ deadLetter 7 ++ deadLetter 7 ++ deadLetter 7 ++
    deadLetter 7) (by decide)
  obtain ⟨σ₁, cont, σ₂, hstep, hcont, hquiet, hleft, hover⟩ : ∃ σ₁ cont σ₂,
      step (stateOf step (System.init 100 0) ([.subscribe 7, .enqueue 1 10 none,
        .enqueue 2 11 none, .enqueue 3 12 none, .enqueue 4 13 none] ++ deadLetter 7 ++
        deadLetter 7 ++ deadLetter 7 ++ deadLetter 7)) (.replayAllDlqMessages 7) =
          some (σ₁, [.receiveCalled 7 (.replay 0) ⟨1, 10⟩ none]) ∧
      Run step σ₁ cont σ₂ ∧ UndisturbedCall 7 0 cont ∧
      σ₂.dlq 7 = [⟨1, 10⟩, ⟨3, 12⟩, ⟨4, 13⟩] ∧ (σ₂.replays 7)[0]? = some .threw :=
    ⟨_, _, _, rfl, run_exec [.replayReceived 7 0 (.ok .nack),
      .replayFailedHandled 7 0 (.ok .block), .replayReceived 7 0 (.ok .ack),
      .replayReceived 7 0 (.error (.handler 1)),
      .replayFailedHandled 7 0 (.error (.handler 2))] (by decide),
      by decide, by decide, by decide⟩
  exact ⟨_, _, σ₁, _, cont, σ₂, h, hstep, hcont, by decide, hleft, hover, (replay_all_filters
    (a := .replayAllDlqMessages 7) ⟨rfl, rfl⟩ hstep (by decide) (by decide) hcont hquiet).1⟩

end Distinct

/-! ### Repeated `Id`s -/

/-- The entries that slip past the position of a call when it removes the `Id` of the entry `m` it
is at: of those behind that it keeps, as many as it removes from before the position. -/
def steppedOver (entries : List MessageEnvelope) (i : ℕ) (m : MessageEnvelope) :
    List MessageEnvelope :=
  (removeAll (entries.drop (i + 1)) m.id).take ((entries.take i).countP (·.id = m.id))

/-- The entries that are still to come then. -/
def stillAhead (entries : List MessageEnvelope) (i : ℕ) (m : MessageEnvelope) :
    List MessageEnvelope :=
  (removeAll (entries.drop (i + 1)) m.id).drop ((entries.take i).countP (·.id = m.id))

/-- An `Id` is **within reach** of a call: an entry with it has been offered, or is to come. -/
def WithinReach (s : Guid) (call : ℕ) (evs : List Event) (ahead : List MessageEnvelope)
    (id : Guid) : Prop :=
  id ∈ (replayedBy s call evs).map (·.id) ∨ id ∈ ahead.map (·.id)

/-- **A transition loses nothing** for a call: if it is the `Ack` for the entry the call is at,
every entry that slips past has an `Id` that is within reach all the same. -/
def LosesNothing (s : Guid) (call : ℕ) (evs : List Event)
    (t : Transition System Action Event) : Prop :=
  ∀ (i : ℕ) (m : MessageEnvelope), (t.pre.replays s)[call]? = some (.receiving (.all i) m) →
    t.act = .replayReceived s call (.ok .ack) → ∀ e ∈ steppedOver (t.pre.dlq s) i m,
      WithinReach s call evs (stillAhead (t.pre.dlq s) i m) e.id

/-- Where a call on dead letters `D` is, whatever their `Id`s: at an entry it has offered, with
those behind it still to come, or over. -/
inductive Walking (s : Guid) (call : ℕ) (D : List MessageEnvelope) (evs : List Event) :
    List MessageEnvelope → ReplayPhase → List MessageEnvelope → Prop
  | awaiting {entries : List MessageEnvelope} {p : ReplayPhase} {i : ℕ} {m : MessageEnvelope}
      (hp : p.IsAt i m) (hm : entries[i]? = some m)
      (hreplayed : m.id ∈ (replayedBy s call evs).map (·.id)) (hsub : entries.Sublist D) :
      Walking s call D evs entries p (entries.drop (i + 1))
  | returned (entries : List MessageEnvelope) : Walking s call D evs entries .returned []

section Repeated

variable {s : Guid} {call i : ℕ} {D entries entries' ahead ahead' : List MessageEnvelope}
  {m : MessageEnvelope} {evs evs' : List Event} {p p' : ReplayPhase} {a : Action} {id : Guid}

theorem WithinReach.mono (h : WithinReach s call evs ahead id) (hsub : ahead ⊆ ahead') :
    WithinReach s call evs ahead' id :=
  h.imp_right fun hid => List.map_subset _ hsub hid

theorem withinReach_append (h : replayedBy s call evs' = []) :
    WithinReach s call (evs ++ evs') ahead = WithinReach s call evs ahead := by
  funext id
  rw [WithinReach, WithinReach, replayedBy_append, h, List.append_nil]

/-- What is behind the position and kept slips past or is still to come. -/
theorem steppedOver_append_stillAhead (entries : List MessageEnvelope) (i : ℕ)
    (m : MessageEnvelope) :
    steppedOver entries i m ++ stillAhead entries i m = removeAll (entries.drop (i + 1)) m.id :=
  List.take_append_drop _ _

/-- After the removal, the entries from the position on are those still to come. -/
theorem drop_removeAll (hm : entries[i]? = some m) :
    (removeAll entries m.id).drop i = stillAhead entries i m := by
  rw [removeAll, Traversal.drop_filter_of_neg hm (by simp)]
  simp only [stillAhead, removeAll, decide_not, Bool.not_not]

/-- **What a removal does to the reach of a call**: it keeps all `Id`s within reach exactly when
those that slip past are. -/
theorem withinReach_stillAhead_iff (hreplayed : m.id ∈ (replayedBy s call evs).map (·.id))
    (hsub : entries.Sublist D) :
    (∀ x ∈ D, WithinReach s call evs (stillAhead entries i m) x.id) ↔
      (∀ x ∈ D, WithinReach s call evs (entries.drop (i + 1)) x.id) ∧
        ∀ e ∈ steppedOver entries i m, WithinReach s call evs (stillAhead entries i m) e.id := by
  have hsplit := steppedOver_append_stillAhead entries i m
  have hbehind : steppedOver entries i m ++ stillAhead entries i m ⊆ entries.drop (i + 1) := by
    rw [hsplit, removeAll]
    exact List.filter_subset_self _
  constructor
  · intro h
    refine ⟨fun x hx => (h x hx).mono fun e he => hbehind (List.mem_append_right _ he), ?_⟩
    intro e he
    exact h e (hsub.subset (List.mem_of_mem_drop (hbehind (List.mem_append_left _ he))))
  · rintro ⟨hall, hslip⟩ x hx
    rcases hall x hx with hid | hid
    · exact Or.inl hid
    · obtain ⟨e, he, heid⟩ := List.mem_map.mp hid
      by_cases hm : e.id = m.id
      · -- it goes with the entry just offered
        exact Or.inl (heid ▸ hm ▸ hreplayed)
      · have hkept : e ∈ steppedOver entries i m ++ stillAhead entries i m := by
          rw [hsplit]
          exact List.mem_filter.mpr ⟨he, by simpa using hm⟩
        rcases List.mem_append.mp hkept with he | he
        · exact heid ▸ hslip e he
        · exact Or.inr (List.mem_map.mpr ⟨e, he, heid⟩)

/-- **Going round the loop** keeps within reach what is handed over or from the position on. -/
theorem Walking.of_replayAllFrom (evs : List Event) (hsub : entries.Sublist D)
    (hc : CallsFor s call (replayAllFrom entries i) evs') :
    ∃ ahead, Walking s call D (evs ++ evs') entries (replayAllFrom entries i) ahead ∧
      WithinReach s call (evs ++ evs') ahead = WithinReach s call evs (entries.drop i) := by
  have hhanded := hc.replayedBy_ackedBy.1
  rcases hget : entries[i]? with _ | m
  · have hle := List.getElem?_eq_none_iff.mp hget
    rw [replayAllFrom_of_length_le hle] at hhanded ⊢
    refine ⟨[], .returned entries, ?_⟩
    rw [withinReach_append hhanded, List.drop_eq_nil_of_le hle]
  · rw [replayAllFrom_of_getElem? hget] at hhanded ⊢
    have hreplayed : replayedBy s call (evs ++ evs') = replayedBy s call evs ++ [m] := by
      rw [replayedBy_append, hhanded]
      rfl
    refine ⟨entries.drop (i + 1), .awaiting (Or.inl rfl) hget ?_ hsub, ?_⟩
    · simp [hreplayed]
    · ext id
      simp [WithinReach, hreplayed, Traversal.drop_of_getElem? hget, or_assoc]

/-- **One step of a call** throws, or goes on; all `Id`s are within reach after it exactly when they
were before and it has lost none. -/
theorem CallStep.walking (h : CallStep s call a entries p evs' entries' p')
    (hothers : ¬ a.OfReplay s call → entries' = entries)
    (hi : Walking s call D evs entries p ahead) :
    p' = .threw ∨ ∃ ahead', Walking s call D (evs ++ evs') entries' p' ahead' ∧
      ((∀ x ∈ D, WithinReach s call (evs ++ evs') ahead' x.id) ↔
        (∀ x ∈ D, WithinReach s call evs ahead x.id) ∧
          ∀ (i : ℕ) (m : MessageEnvelope), p = .receiving (.all i) m →
            a = .replayReceived s call (.ok .ack) → ∀ e ∈ steppedOver entries i m,
              WithinReach s call evs (stillAhead entries i m) e.id) := by
  cases h with
  | other ha hquiet =>
    have hnone := replayedBy_of_not_ofReplay hquiet
    have hact : a ≠ .replayReceived s call (.ok .ack) := by
      rintro rfl
      exact ha ⟨rfl, rfl⟩
    rw [hothers ha]
    refine Or.inr ⟨ahead, ?_, ?_⟩
    · cases hi with
      | awaiting hp hm hreplayed hsub =>
        refine .awaiting hp hm ?_ hsub
        rwa [replayedBy_append, hnone, List.append_nil]
      | returned => exact .returned _
    · simp [withinReach_append hnone, hact]
  | @acked _ _ kind m evs' he hc =>
    cases hi with
    | @awaiting _ i m' hp hm hreplayed hsub =>
      obtain ⟨rfl, rfl⟩ := ReplayPhase.isAt_receiving_iff.mp hp
      rw [afterSuccess_all] at hc ⊢
      have hsub' : entries'.Sublist D := he ▸ List.filter_sublist.trans hsub
      obtain ⟨ahead', hwalk, hreach⟩ := Walking.of_replayAllFrom
        (evs ++ [.receiveReturned s (.replay call) m (.ok .ack)]) hsub' hc
      rw [List.append_cons]
      refine Or.inr ⟨ahead', hwalk, ?_⟩
      rw [hreach, withinReach_append rfl, he, drop_removeAll hm,
        withinReach_stillAhead_iff hreplayed hsub]
      refine and_congr_right fun _ => ⟨fun h i' m' heq _ => ?_, fun h => h i m rfl rfl⟩
      obtain ⟨hi, rfl⟩ : (i : ℤ) = i' ∧ m = m' := by simpa using heq
      obtain rfl := Int.ofNat_inj.mp hi
      exact h
  | @notAcked _ kind m r hr =>
    have hact : Action.replayReceived s call r ≠ .replayReceived s call (.ok .ack) := by
      simpa using hr
    cases hi with
    | @awaiting _ i m' hp hm hreplayed hsub =>
      obtain ⟨rfl, rfl⟩ := ReplayPhase.isAt_receiving_iff.mp hp
      refine Or.inr ⟨_, .awaiting (Or.inr rfl) hm (by simpa using Or.inl hreplayed) hsub, ?_⟩
      rw [withinReach_append rfl]
      simp [hact]
  | threw => exact Or.inl rfl
  | @failed _ kind m b evs' hc =>
    cases hi with
    | @awaiting _ i m' hp hm hreplayed hsub =>
      obtain ⟨rfl, rfl⟩ := ReplayPhase.isAt_failing_iff.mp hp
      rw [afterFailure_all] at hc ⊢
      obtain ⟨ahead', hwalk, hreach⟩ := Walking.of_replayAllFrom
        (evs ++ [.failedReturned s (.replay call) m (.ok b)]) hsub hc
      rw [List.append_cons]
      refine Or.inr ⟨ahead', hwalk, ?_⟩
      rw [hreach, withinReach_append rfl]
      simp

/-- A call that has thrown is over. -/
theorem CallStep.threw_stays (h : CallStep s call a entries .threw evs entries' p') :
    p' = .threw := by
  cases h
  rfl

/-- A condition on every transition of a trace, in the light of its history, one longer. -/
theorem forall_prefix_snoc {C : Trace → Transition System Action Event → Prop} {pre : Trace}
    {t : Transition System Action Event} :
    (∀ pre' t', pre' ++ [t'] <+: pre ++ [t] → C pre' t') ↔
      (∀ pre' t', pre' ++ [t'] <+: pre → C pre' t') ∧ C pre t := by
  constructor
  · intro h
    exact ⟨fun pre' t' hpre => h pre' t' (hpre.trans (List.prefix_append _ _)),
      h pre t (List.prefix_refl _)⟩
  · rintro ⟨hpre, ht⟩ pre' t' h
    rcases List.prefix_concat_iff.mp h with heq | h
    · obtain ⟨rfl, heq⟩ := List.append_inj' heq rfl
      obtain rfl : t' = t := by simpa using heq
      exact ht
    · exact hpre pre' t' h

variable {σ σ₁ σ₂ : System} {out : List Event} {cont : Trace}

/-- **The reach of a call in every undisturbed run of it.** -/
theorem walking_of_run (ha : a.BeginsReplayAll σ s call) (hstep : step σ a = some (σ₁, out))
    (hs : s ∈ σ.queue.subscribers) (hcont : Run step σ₁ cont σ₂)
    (hquiet : UndisturbedCall s call cont) :
    ∃ p, (σ₂.replays s)[call]? = some p ∧ (p = .threw ∨
      ∃ ahead, Walking s call (σ.dlq s) (out ++ events cont) (σ₂.dlq s) p ahead ∧
        ((∀ x ∈ σ.dlq s, WithinReach s call (out ++ events cont) ahead x.id) ↔
          ∀ pre t, pre ++ [t] <+: cont → LosesNothing s call (out ++ events pre) t)) := by
  refine call_invariant (I := fun cont entries p => p = .threw ∨
      ∃ ahead, Walking s call (σ.dlq s) (out ++ events cont) entries p ahead ∧
        ((∀ x ∈ σ.dlq s, WithinReach s call (out ++ events cont) ahead x.id) ↔
          ∀ pre t, pre ++ [t] <+: cont → LosesNothing s call (out ++ events pre) t))
    ha hstep hs hcont ?_ ?_
  · intro _ hcf _
    obtain ⟨ahead, hwalk, hreach⟩ := Walking.of_replayAllFrom (i := 0) []
      (List.Sublist.refl (σ.dlq s)) hcf
    rw [List.nil_append, List.drop_zero] at hreach
    refine Or.inr ⟨ahead, by simpa using hwalk, ?_⟩
    rw [events_nil, List.append_nil, hreach]
    -- at the beginning everything is ahead
    simp only [List.prefix_nil, List.append_eq_nil_iff, List.cons_ne_self, and_false, false_imp_iff,
      implies_true, iff_true]
    exact fun x hx => Or.inr (List.mem_map_of_mem hx)
  · rintro pre t p p' hpre hi hp - hcs
    have hothers := hquiet t (hpre.subset (by simp))
    rcases hi with rfl | ⟨ahead, hwalk, hiff⟩
    · exact Or.inl hcs.threw_stays
    · refine (hcs.walking hothers hwalk).imp_right ?_
      rintro ⟨ahead', hwalk', hiff'⟩
      have hevs : out ++ events (pre ++ [t]) = out ++ events pre ++ t.out := by
        simp [List.append_assoc]
      refine ⟨ahead', hevs ▸ hwalk', ?_⟩
      rw [forall_prefix_snoc, ← hiff, hevs, hiff']
      refine and_congr_right fun _ => ?_
      rw [LosesNothing, hp]
      simp only [Option.some.injEq]

/-- **Which `Id`s replaying the whole queue reaches.** Let a call begin on a registered subscriber,
whatever its dead letters, with nothing interfering, and let it return. It has offered an entry
with every `Id` that was there exactly when none of its steps loses one: whenever it has an `Ack`
for an entry, each of the entries that slip past its position has an `Id` that it has offered
already or that is still to come. -/
theorem replay_all_reaches_iff (ha : a.BeginsReplayAll σ s call)
    (hstep : step σ a = some (σ₁, out)) (hs : s ∈ σ.queue.subscribers)
    (hcont : Run step σ₁ cont σ₂) (hquiet : UndisturbedCall s call cont)
    (hret : (σ₂.replays s)[call]? = some .returned) :
    (∀ m ∈ σ.dlq s, ∃ m' ∈ replayedBy s call (out ++ events cont), m'.id = m.id) ↔
      ∀ pre t, pre ++ [t] <+: cont → LosesNothing s call (out ++ events pre) t := by
  obtain ⟨p, hp, hi⟩ := walking_of_run ha hstep hs hcont hquiet
  obtain rfl := Option.some.inj (hret.symm.trans hp)
  rcases hi with hthrew | ⟨ahead, hwalk, hiff⟩
  · exact ReplayPhase.noConfusion hthrew
  · rw [← hiff]
    cases hwalk with
    | awaiting hat _ _ _ => rcases hat with h | h <;> exact ReplayPhase.noConfusion h
    | returned =>
      simp only [WithinReach, List.map_nil, List.not_mem_nil, or_false, List.mem_map]

/-- The actions that dead-letter message `1`, then the same message once more, `ReplayFrom` having
had it delivered again, and then message `2`. -/
def deadLettersRepeated : List Action :=
  [.subscribe 7, .enqueue 1 10 none] ++ deadLetter 7 ++ [.replayFrom 7 1] ++ deadLetter 7 ++
    [.enqueue 2 11 none] ++ deadLetter 7

/-- The theorem at dead letters of which the first and the last have the same `Id`, the first
attempt at it failing and the second one succeeding. -/
theorem replay_all_reaches_repeated : ∃ tr σ σ₁ out cont σ₂, RunOf 100 0 tr σ ∧
    step σ (.replayAllDlqMessages 7) = some (σ₁, out) ∧ Run step σ₁ cont σ₂ ∧
    σ.dlq 7 = [⟨1, 10⟩, ⟨2, 11⟩, ⟨1, 10⟩] ∧
    ∀ m ∈ σ.dlq 7, ∃ m' ∈ replayedBy 7 0 (out ++ events cont), m'.id = m.id := by
  have h := runOf_exec 100 0 ([.subscribe 7, .enqueue 1 10 none, .enqueue 2 11 none] ++
    deadLetter 7 ++ deadLetter 7 ++ [.replayFrom 7 1] ++ deadLetter 7) (by decide)
  obtain ⟨σ₁, cont, σ₂, hstep, hcont, hquiet, hret, hacks⟩ : ∃ σ₁ cont σ₂,
      step (stateOf step (System.init 100 0) ([.subscribe 7, .enqueue 1 10 none,
        .enqueue 2 11 none] ++ deadLetter 7 ++ deadLetter 7 ++ [.replayFrom 7 1] ++
        deadLetter 7)) (.replayAllDlqMessages 7) =
          some (σ₁, [.receiveCalled 7 (.replay 0) ⟨1, 10⟩ none]) ∧
      Run step σ₁ cont σ₂ ∧ UndisturbedCall 7 0 cont ∧ (σ₂.replays 7)[0]? = some .returned ∧
      ∀ t ∈ cont, t.act = .replayReceived 7 0 (.ok .ack) →
        (t.pre.replays 7)[0]? = some (.receiving (.all 1) ⟨2, 11⟩) ∧
            t.pre.dlq 7 = [⟨1, 10⟩, ⟨2, 11⟩, ⟨1, 10⟩] ∨
          (t.pre.replays 7)[0]? = some (.receiving (.all 1) ⟨1, 10⟩) ∧
            t.pre.dlq 7 = [⟨1, 10⟩, ⟨1, 10⟩] :=
    ⟨_, _, _, rfl, run_exec [.replayReceived 7 0 (.ok .nack),
      .replayFailedHandled 7 0 (.ok .block), .replayReceived 7 0 (.ok .ack),
      .replayReceived 7 0 (.ok .ack)] (by decide), by decide, by decide, by decide⟩
  refine ⟨_, _, σ₁, _, cont, σ₂, h, hstep, hcont, by decide, (replay_all_reaches_iff
    (a := .replayAllDlqMessages 7) ⟨rfl, rfl⟩ hstep (by decide) hcont hquiet hret).mpr ?_⟩
  -- neither `Ack` has anything to step over
  intro pre t hpre i m hp hact e he
  rcases hacks t (hpre.subset (by simp)) hact with ⟨hphase, hdlq⟩ | ⟨hphase, hdlq⟩
  all_goals
    obtain ⟨hi, rfl⟩ : (1 : ℤ) = i ∧ _ = m := by simpa using hphase.symm.trans hp
    obtain rfl : i = 1 := by omega
    rw [hdlq] at he
    exact absurd he (by simp [steppedOver, removeAll])

/-- **Replaying the whole queue passes over an `Id`**: of the dead letters with `Id`s `1`, `1` and
`2` the first attempt at `1` fails; the second one succeeds and removes both entries, and the call,
which goes back by one, finds itself at the end of the queue. It never looks at `2`. -/
theorem replay_all_passes_over : ∃ tr σ σ₁ out cont σ₂, RunOf 100 0 tr σ ∧
    7 ∈ σ.queue.subscribers ∧ step σ (.replayAllDlqMessages 7) = some (σ₁, out) ∧
    Run step σ₁ cont σ₂ ∧ UndisturbedCall 7 0 cont ∧ NoneThrown 7 0 (out ++ events cont) ∧
    (σ₂.replays 7)[0]? = some .returned ∧ σ.dlq 7 = [⟨1, 10⟩, ⟨1, 10⟩, ⟨2, 11⟩] ∧
    ¬ ∀ m ∈ σ.dlq 7, ∃ m' ∈ replayedBy 7 0 (out ++ events cont), m'.id = m.id := by
  have h := runOf_exec 100 0 deadLettersRepeated (by decide)
  obtain ⟨σ₁, cont, σ₂, hstep, hcont, hevents, hquiet, hret⟩ : ∃ σ₁ cont σ₂,
      step (stateOf step (System.init 100 0) deadLettersRepeated) (.replayAllDlqMessages 7) =
        some (σ₁, [.receiveCalled 7 (.replay 0) ⟨1, 10⟩ none]) ∧
      Run step σ₁ cont σ₂ ∧ events cont =
        [.receiveReturned 7 (.replay 0) ⟨1, 10⟩ (.ok .nack),
          .failedCalled 7 (.replay 0) ⟨1, 10⟩ none,
          .failedReturned 7 (.replay 0) ⟨1, 10⟩ (.ok .block),
          .receiveCalled 7 (.replay 0) ⟨1, 10⟩ none,
          .receiveReturned 7 (.replay 0) ⟨1, 10⟩ (.ok .ack)] ∧
      UndisturbedCall 7 0 cont ∧ (σ₂.replays 7)[0]? = some .returned :=
    ⟨_, _, _, rfl, run_exec [.replayReceived 7 0 (.ok .nack),
      .replayFailedHandled 7 0 (.ok .block), .replayReceived 7 0 (.ok .ack)] (by decide),
      rfl, by decide, by decide⟩
  refine ⟨_, _, σ₁, _, cont, σ₂, h, by decide, hstep, hcont, hquiet, ?_, hret, by decide, ?_⟩
  · simp [NoneThrown, hevents]
  · rw [hevents]
    decide

end Repeated

end PushDeliveredQueue
