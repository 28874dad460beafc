import PushDeliveredQueue.Overlap
import PushDeliveredQueue.Traversal

/-!
# One call of `ReplayAllDlqMessagesAsync`

What a transition of the system is to one replay call that has begun: a step of the call's own,
taken when the handler call it awaits returns, or something else, which leaves the call where it
is and may do anything to the dead letters (`PushDeliveredQueue.CallStep`). The results about the
loop of `ReplayAllDlqMessagesAsync` are inductions over such steps
(`PushDeliveredQueue.call_invariant`).

The first of them is that the loop ends (`PushDeliveredQueue.replay_all_terminates`): as long as
nothing is added to the dead letters, `Count - i` is smaller every time the loop goes round,
because a round either moves on by one position or ends with the entry it was at gone, whoever
has removed it.
-/

namespace PushDeliveredQueue

open Transitions

/-! ### The steps of a call -/

/-- The events of one replay call. -/
def Event.OfReplay (s : Guid) (call : ℕ) : Event → Prop
  | .receiveCalled s' caller _ _ | .receiveReturned s' caller _ _ | .failedCalled s' caller _ _
  | .failedReturned s' caller _ _ => s' = s ∧ caller = .replay call
  | .enqueued _ | .pruned _ | .replayedFrom .. | .dispatchRead .. | .addedToDlq ..
  | .committed .. | .commitMissed .. => False

/-- The actions that are the return of a handler call one replay call awaits. -/
def Action.OfReplay (s : Guid) (call : ℕ) : Action → Prop
  | .replayReceived s' call' _ | .replayFailedHandled s' call' _ => s' = s ∧ call' = call
  | _ => False

instance (s : Guid) (call : ℕ) (a : Action) : Decidable (a.OfReplay s call) := by
  cases a <;> unfold Action.OfReplay <;> infer_instance

/-- **What a transition is to a replay call that has begun**: with the entries and the phase of
the call before and after. -/
inductive CallStep (s : Guid) (call : ℕ) : Action → List MessageEnvelope → ReplayPhase →
    List Event → List MessageEnvelope → ReplayPhase → Prop
  | other {a : Action} {entries entries' : List MessageEnvelope} {p : ReplayPhase}
      {evs : List Event} (ha : ¬ a.OfReplay s call) (h : ∀ e ∈ evs, ¬ e.OfReplay s call) :
      CallStep s call a entries p evs entries' p
  | acked {entries entries' : List MessageEnvelope} {kind : ReplayKind} {m : MessageEnvelope}
      {evs : List Event} (he : entries' = removeAll entries m.id)
      (hc : CallsFor s call (afterSuccess entries' kind) evs) :
      CallStep s call (.replayReceived s call (.ok .ack)) entries (.receiving kind m)
        (.receiveReturned s (.replay call) m (.ok .ack) :: evs) entries'
        (afterSuccess entries' kind)
  | notAcked {entries : List MessageEnvelope} {kind : ReplayKind} {m : MessageEnvelope}
      {r : ReceiveResult} (hr : r ≠ .ok .ack) :
      CallStep s call (.replayReceived s call r) entries (.receiving kind m)
        [.receiveReturned s (.replay call) m r, .failedCalled s (.replay call) m (exceptionOf r)]
        entries (.failing kind m)
  | threw {entries : List MessageEnvelope} {kind : ReplayKind} {m : MessageEnvelope}
      {e : Exception} :
      CallStep s call (.replayFailedHandled s call (.error e)) entries (.failing kind m)
        [.failedReturned s (.replay call) m (.error e)] entries .threw
  | failed {entries : List MessageEnvelope} {kind : ReplayKind} {m : MessageEnvelope}
      {b : PostMessageFailedBehavior} {evs : List Event}
      (hc : CallsFor s call (afterFailure entries kind) evs) :
      CallStep s call (.replayFailedHandled s call (.ok b)) entries (.failing kind m)
        (.failedReturned s (.replay call) m (.ok b) :: evs) entries (afterFailure entries kind)

section Steps

variable {s : Guid} {call : ℕ} {σ σ' : System} {a : Action} {evs : List Event} {p p' : ReplayPhase}

/-- The dead letters of a subscriber. -/
abbrev System.dlq (σ : System) (s : Guid) : List MessageEnvelope :=
  (σ.queue.cursors s).deadLetterQueue

theorem not_ofReplay_replayCalls {s' : Guid} {call' : ℕ} (hne : ¬ (s' = s ∧ call' = call))
    (q : SubscribableQueue) (p : ReplayPhase) :
    ∀ e ∈ replayCalls q s' call' p, ¬ e.OfReplay s call := by
  cases p with
  | receiving kind m => simpa [replayCalls, Event.OfReplay] using hne
  | scheduled | failing _ _ | returned | threw => simp [replayCalls]

/-- A dispatch loop tells nothing of replay calls. -/
theorem LoopEffect.not_ofReplay {q q' : SubscribableQueue} {s' : Guid} {p p' : DispatchPhase}
    (h : LoopEffect q s' p q' p' evs) : ∀ e ∈ evs, ¬ e.OfReplay s call := by
  cases h <;> simp [Event.OfReplay]

/-- Moving a call on, whosever it is, leaves every other call where it was. -/
theorem System.getElem?_replays_moveReplay {s' : Guid} {call' : ℕ}
    (hne : ¬ (s' = s ∧ call' = call)) (q : SubscribableQueue) (p : ReplayPhase) :
    ((σ.moveReplay s' call' q p).replays s)[call]? = (σ.replays s)[call]? := by
  rcases eq_or_ne s s' with rfl | hs
  · simp only [System.moveReplay, Function.update_self]
    exact List.getElem?_set_ne fun hcall => hne ⟨rfl, hcall⟩
  · simp [System.moveReplay, hs]

/-- Moving a call on moves it. -/
theorem System.getElem?_replays_moveReplay_self (hp : (σ.replays s)[call]? = some p)
    (q : SubscribableQueue) (p' : ReplayPhase) :
    ((σ.moveReplay s call q p').replays s)[call]? = some p' := by
  simp only [System.moveReplay, Function.update_self]
  exact List.getElem?_set_self (List.getElem?_eq_some_iff.mp hp).1

/-- Starting a call leaves every call before it where it was. -/
theorem System.getElem?_replays_startReplay {s' : Guid} (hp : (σ.replays s)[call]? = some p)
    (p' : ReplayPhase) : ((σ.startReplay s' p').1.replays s)[call]? = some p := by
  rcases eq_or_ne s s' with rfl | hs
  · simp only [System.startReplay, Function.update_self]
    exact (getElem?_append_of_some hp).trans hp
  · simpa [System.startReplay, hs] using hp

/-- A call that starts is not one that has begun. -/
theorem not_ofReplay_startReplay {s' : Guid} (hp : (σ.replays s)[call]? = some p)
    (p' : ReplayPhase) : ∀ e ∈ (σ.startReplay s' p').2, ¬ e.OfReplay s call := by
  refine not_ofReplay_replayCalls ?_ _ _
  rintro ⟨rfl, hcall⟩
  have hlt := (List.getElem?_eq_some_iff.mp hp).1
  omega

/-- Moving another call on is a step of this one that is not its own. -/
theorem exists_callStep_moveReplay {s' : Guid} {call' : ℕ} (hp : (σ.replays s)[call]? = some p)
    (hne : ¬ (s' = s ∧ call' = call)) (ha : ¬ a.OfReplay s call)
    (hquiet : ∀ e ∈ evs, ¬ e.OfReplay s call) (q : SubscribableQueue) (p' : ReplayPhase) :
    ∃ p'', ((σ.moveReplay s' call' q p').replays s)[call]? = some p'' ∧
      CallStep s call a (σ.dlq s) p evs ((σ.moveReplay s' call' q p').dlq s) p'' :=
  ⟨p, (System.getElem?_replays_moveReplay hne q p').trans hp, .other ha hquiet⟩

/-- **Every transition of the system is such a step of every call that has begun.** -/
theorem Effect.callStep (h : Effect σ a σ' evs) (hp : (σ.replays s)[call]? = some p)
    (hbegun : p ≠ .scheduled) :
    ∃ p', (σ'.replays s)[call]? = some p' ∧
      CallStep s call a (σ.dlq s) p evs (σ'.dlq s) p' := by
  cases h with
  | dispatch _ hl => exact ⟨p, hp, .other (by simp [Action.OfReplay]) hl.not_ofReplay⟩
  | replayFromDlq s' messageId =>
    exact ⟨p, System.getElem?_replays_startReplay hp _,
      .other (by simp [Action.OfReplay]) (not_ofReplay_startReplay hp _)⟩
  | replayAllDlqMessages s' =>
    exact ⟨p, System.getElem?_replays_startReplay hp _,
      .other (by simp [Action.OfReplay]) (not_ofReplay_startReplay hp _)⟩
  | replayAllDlqSubscribers =>
    refine ⟨p, ?_, .other (by simp [Action.OfReplay]) (by simp)⟩
    by_cases hs : s ∈ σ.queue.subscribers
    · simp only [if_pos hs]
      exact (getElem?_append_of_some hp).trans hp
    · simpa only [if_neg hs] using hp
  | @runScheduled s' call' hsched =>
    have hne : ¬ (s' = s ∧ call' = call) := by
      rintro ⟨rfl, rfl⟩
      exact hbegun (Option.some.inj (hp.symm.trans hsched))
    exact exists_callStep_moveReplay hp hne (by simp [Action.OfReplay])
      (not_ofReplay_replayCalls hne _ _) _ _
  | @replayAcked s' call' kind m dlq hcall hdlq =>
    by_cases hown : s' = s ∧ call' = call
    · obtain ⟨rfl, rfl⟩ := hown
      obtain rfl := Option.some.inj (hp.symm.trans hcall)
      refine ⟨_, System.getElem?_replays_moveReplay_self hcall _ _, ?_⟩
      have hentries : System.dlq (σ.moveReplay s' call' (σ.queue.setDeadLetterQueue s' dlq)
          (afterSuccess dlq kind)) s' = dlq := by
        simp [System.dlq, System.moveReplay, SubscribableQueue.setDeadLetterQueue]
      rw [hentries]
      exact .acked hdlq (callsFor_replayCalls _ _ _ _)
    · refine exists_callStep_moveReplay hp hown ?_ (List.forall_mem_cons.mpr ⟨?_, ?_⟩) _ _
      · exact hown
      · simpa [Event.OfReplay] using hown
      · exact not_ofReplay_replayCalls hown _ _
  | @replayNotAcked s' call' kind m r hcall hr =>
    by_cases hown : s' = s ∧ call' = call
    · obtain ⟨rfl, rfl⟩ := hown
      obtain rfl := Option.some.inj (hp.symm.trans hcall)
      exact ⟨_, System.getElem?_replays_moveReplay_self hcall _ _, .notAcked hr⟩
    · refine exists_callStep_moveReplay hp hown ?_ ?_ _ _
      · exact hown
      · simpa [Event.OfReplay] using hown
  | @replayThrew s' call' kind m hcall e =>
    by_cases hown : s' = s ∧ call' = call
    · obtain ⟨rfl, rfl⟩ := hown
      obtain rfl := Option.some.inj (hp.symm.trans hcall)
      exact ⟨_, System.getElem?_replays_moveReplay_self hcall _ _, .threw⟩
    · refine exists_callStep_moveReplay hp hown ?_ ?_ _ _
      · exact hown
      · simpa [Event.OfReplay] using hown
  | @replayFailed s' call' kind m hcall b =>
    by_cases hown : s' = s ∧ call' = call
    · obtain ⟨rfl, rfl⟩ := hown
      obtain rfl := Option.some.inj (hp.symm.trans hcall)
      exact ⟨_, System.getElem?_replays_moveReplay_self hcall _ _,
        .failed (callsFor_replayCalls _ _ _ _)⟩
    · refine exists_callStep_moveReplay hp hown ?_ (List.forall_mem_cons.mpr ⟨?_, ?_⟩) _ _
      · exact hown
      · simpa [Event.OfReplay] using hown
      · exact not_ofReplay_replayCalls hown _ _
  | _ => exact ⟨p, hp, .other (by simp [Action.OfReplay]) (by simp [Event.OfReplay])⟩

theorem replayAllFrom_ne_scheduled (entries : List MessageEnvelope) (i : ℤ) :
    replayAllFrom entries i ≠ .scheduled := by
  rcases opens_replayAllFrom entries i with h | h | ⟨_, _, -, h⟩ <;> simp [h]

/-- A call that has begun does not wait to begin again. -/
theorem CallStep.ne_scheduled {entries entries' : List MessageEnvelope}
    (h : CallStep s call a entries p evs entries' p') (hp : p ≠ .scheduled) :
    p' ≠ .scheduled := by
  cases h with
  | other _ _ => exact hp
  | @acked _ _ kind _ _ _ _ =>
    cases kind with
    | fromDlq => exact ReplayPhase.noConfusion
    | all i => exact replayAllFrom_ne_scheduled _ _
  | @failed _ kind _ _ _ _ =>
    cases kind with
    | fromDlq => exact ReplayPhase.noConfusion
    | all i => exact replayAllFrom_ne_scheduled _ _
  | _ => exact ReplayPhase.noConfusion

variable {cont : Trace} {σ₁ σ₂ : System} {out : List Event}

/-- **Induction over the run of a call**: what holds as the call looks at position `0`, and is
kept by every step, holds as long as the run goes on. -/
theorem call_invariant {I : Trace → List MessageEnvelope → ReplayPhase → Prop}
    (ha : a.BeginsReplayAll σ s call) (hstep : step σ a = some (σ₁, out))
    (hs : s ∈ σ.queue.subscribers) (hcont : Run step σ₁ cont σ₂)
    (h0 : (σ₁.replays s)[call]? = some (replayAllFrom (σ.dlq s) 0) →
      CallsFor s call (replayAllFrom (σ.dlq s) 0) out → σ₁.dlq s = σ.dlq s →
      I [] (σ.dlq s) (replayAllFrom (σ.dlq s) 0))
    (hI : ∀ pre t p p', pre ++ [t] <+: cont → I pre (t.pre.dlq s) p →
      (t.pre.replays s)[call]? = some p → (t.post.replays s)[call]? = some p' →
      CallStep s call t.act (t.pre.dlq s) p t.out (t.post.dlq s) p' →
      I (pre ++ [t]) (t.post.dlq s) p') :
    ∃ p, (σ₂.replays s)[call]? = some p ∧ I cont (σ₂.dlq s) p := by
  suffices hmain : cont <+: cont →
      ∃ p, (σ₂.replays s)[call]? = some p ∧ p ≠ .scheduled ∧ I cont (σ₂.dlq s) p by
    obtain ⟨p, hp, -, hi⟩ := hmain (List.prefix_refl _)
    exact ⟨p, hp, hi⟩
  refine hcont.invariant (I := fun pre σ' => pre <+: cont →
    ∃ p, (σ'.replays s)[call]? = some p ∧ p ≠ .scheduled ∧ I pre (σ'.dlq s) p) ?_ ?_
  · intro _
    obtain ⟨hentries, hcall, hcf⟩ := (effect_of_step hstep).of_beginsReplayAll ha hs
    have hdlq : σ₁.dlq s = σ.dlq s := hentries
    have hcall' : (σ₁.replays s)[call]? = some (replayAllFrom (σ₁.dlq s) 0) := hcall
    have hcf' : CallsFor s call (replayAllFrom (σ₁.dlq s) 0) out := hcf
    rw [hdlq] at hcall' hcf'
    refine ⟨_, hcall', replayAllFrom_ne_scheduled _ _, ?_⟩
    rw [hdlq]
    exact h0 hcall' hcf' hdlq
  · intro pre σ' b evs σ'' _ hi hs' hpre
    obtain ⟨p, hp, hbegun, hip⟩ := hi ((List.prefix_append _ _).trans hpre)
    obtain ⟨p', hp', hcs⟩ := (effect_of_step hs').callStep hp hbegun
    exact ⟨p', hp', hcs.ne_scheduled hbegun, hI pre _ p p' hpre hip hp hp' hcs⟩

end Steps

/-! ### What a call has done so far -/

/-- The dead letters a replay call has handed to the handler, in order. -/
def replayedBy (s : Guid) (call : ℕ) (evs : List Event) : List MessageEnvelope :=
  evs.filterMap fun
    | .receiveCalled s' caller m _ => if s' = s ∧ caller = .replay call then some m else none
    | _ => none

/-- The dead letters a replay call has had an `Ack` for, in order. -/
def ackedBy (s : Guid) (call : ℕ) (evs : List Event) : List MessageEnvelope :=
  evs.filterMap fun
    | .receiveReturned s' caller m r =>
      if s' = s ∧ caller = .replay call ∧ r = .ok .ack then some m else none
    | _ => none

/-- What a call hands over as it enters a phase. -/
def ReplayPhase.handed : ReplayPhase → List MessageEnvelope
  | .receiving _ m => [m]
  | .scheduled | .failing _ _ | .returned | .threw => []

section History

variable {s : Guid} {call : ℕ} {evs evs' : List Event}

@[simp] theorem replayedBy_append :
    replayedBy s call (evs ++ evs') = replayedBy s call evs ++ replayedBy s call evs' :=
  List.filterMap_append

@[simp] theorem ackedBy_append :
    ackedBy s call (evs ++ evs') = ackedBy s call evs ++ ackedBy s call evs' :=
  List.filterMap_append

theorem replayedBy_of_not_ofReplay (h : ∀ e ∈ evs, ¬ e.OfReplay s call) :
    replayedBy s call evs = [] := by
  refine List.filterMap_eq_nil_iff.mpr fun e he => ?_
  cases e with
  | receiveCalled _ _ _ _ => exact if_neg (h _ he)
  | _ => rfl

theorem ackedBy_of_not_ofReplay (h : ∀ e ∈ evs, ¬ e.OfReplay s call) :
    ackedBy s call evs = [] := by
  refine List.filterMap_eq_nil_iff.mpr fun e he => ?_
  cases e with
  | receiveReturned _ _ _ _ => exact if_neg fun hc => h _ he ⟨hc.1, hc.2.1⟩
  | _ => rfl

/-- Entering a phase hands over the entry it is at, and acknowledges nothing. -/
theorem CallsFor.replayedBy_ackedBy {p : ReplayPhase} (h : CallsFor s call p evs) :
    replayedBy s call evs = p.handed ∧ ackedBy s call evs = [] := by
  cases p with
  | receiving kind m =>
    obtain ⟨payload, rfl⟩ := h
    simp [replayedBy, ackedBy, ReplayPhase.handed]
  | scheduled | failing _ _ | returned | threw =>
    obtain rfl : evs = [] := h
    exact ⟨rfl, rfl⟩

end History

/-! ### The loop ends -/

/-- The read of `DeadLetterQueue[i]` a call in this phase has just made: the loop variable, and
`Count`. -/
def ReplayPhase.lap (count : ℕ) : ReplayPhase → Option (ℤ × ℕ)
  | .receiving (.all i) _ => some (i, count)
  | _ => none

/-- The read of `DeadLetterQueue[i]` a call has just made. -/
def System.lap (σ : System) (s : Guid) (call : ℕ) : Option (ℤ × ℕ) :=
  (σ.replays s)[call]?.bind fun p => p.lap (σ.dlq s).length

/-- The reads of a call, in order: the one as it begins, which leads to the state given, and those
after each return of the handler. -/
def lapsOf (s : Guid) (call : ℕ) (σ₁ : System) (cont : Trace) : List (ℤ × ℕ) :=
  (σ₁.lap s call).toList ++
    cont.flatMap fun t => if t.act.OfReplay s call then (t.post.lap s call).toList else []

/-- The reads so far are in range, and `Count - i` has been decreasing. -/
structure Laps (n : ℕ) (laps : List (ℤ × ℕ)) : Prop where
  inRange : ∀ lap ∈ laps, 0 ≤ lap.1 ∧ lap.1 < lap.2 ∧ lap.2 ≤ n
  decreasing : (laps.map fun lap => (lap.2 : ℤ) - lap.1).Pairwise (· > ·)

/-- **Where the loop is, for its measure**: what is left of `Count - i` is no more than at any
read so far, and less once the entry the call is at is gone. -/
inductive LoopMeasure (n : ℕ) (laps : List (ℤ × ℕ)) : List MessageEnvelope → ReplayPhase → Prop
  | awaiting {entries : List MessageEnvelope} {p : ReplayPhase} {i : ℕ} {m : MessageEnvelope}
      (hp : p.IsAt i m) (hlen : entries.length ≤ n)
      (hle : ∀ lap ∈ laps, (entries.length : ℤ) - i ≤ lap.2 - lap.1)
      (hgone : m ∉ entries → ∀ lap ∈ laps, (entries.length : ℤ) - i < lap.2 - lap.1) :
      LoopMeasure n laps entries p
  | ended {entries : List MessageEnvelope} {p : ReplayPhase} (hp : p = .returned ∨ p = .threw) :
      LoopMeasure n laps entries p

section Measure

variable {s : Guid} {call n i : ℕ} {laps : List (ℤ × ℕ)} {entries entries' : List MessageEnvelope}
  {σ σ₁ σ₂ : System} {a : Action} {out : List Event} {cont pre : Trace}
  {t : Transition System Action Event} {p' : ReplayPhase}

/-- One more read, of a smaller measure. -/
theorem Laps.snoc (h : Laps n laps) (hlt : i < entries.length) (hlen : entries.length ≤ n)
    (hless : ∀ lap ∈ laps, (entries.length : ℤ) - i < lap.2 - lap.1) :
    Laps n (laps ++ [((i : ℤ), entries.length)]) := by
  constructor
  · intro lap hlap
    rcases List.mem_append.mp hlap with hlap | hlap
    · exact h.inRange lap hlap
    · obtain rfl := List.mem_singleton.mp hlap
      exact ⟨Int.natCast_nonneg i, Int.ofNat_lt.mpr hlt, hlen⟩
  · rw [List.map_append, List.pairwise_append]
    refine ⟨h.decreasing, List.pairwise_singleton _ _, ?_⟩
    rintro x hx y hy
    obtain ⟨lap, hlap, rfl⟩ := List.mem_map.mp hx
    obtain rfl := List.mem_singleton.mp hy
    exact hless lap hlap

/-- **Going round the loop**: a call that looks at position `i`, with less left than at every read
before, reads an entry or is over. -/
theorem Laps.goRound (h : Laps n laps) (hlen : entries.length ≤ n)
    (hless : ∀ lap ∈ laps, (entries.length : ℤ) - i < lap.2 - lap.1) :
    Laps n (laps ++ ((replayAllFrom entries i).lap entries.length).toList) ∧
      LoopMeasure n (laps ++ ((replayAllFrom entries i).lap entries.length).toList) entries
        (replayAllFrom entries i) := by
  rcases lt_or_ge i entries.length with hlt | hge
  · have hget : entries[i]? = some entries[i] := List.getElem?_eq_getElem hlt
    rw [replayAllFrom_of_getElem? hget]
    refine ⟨h.snoc hlt hlen hless, .awaiting (Or.inl rfl) hlen ?_ ?_⟩
    · intro lap hlap
      rcases List.mem_append.mp hlap with hlap | hlap
      · exact (hless lap hlap).le
      · obtain rfl := List.mem_singleton.mp hlap
        exact le_rfl
    · exact fun hgone => absurd (List.getElem_mem hlt) hgone
  · rw [replayAllFrom_of_length_le hge]
    exact ⟨by simpa [ReplayPhase.lap] using h, .ended (Or.inl rfl)⟩

/-- **One step of a call keeps the measure**, whatever others remove meanwhile. -/
theorem CallStep.loopMeasure {p : ReplayPhase} {evs : List Event}
    (h : CallStep s call a entries p evs entries' p') (hsub : entries'.Sublist entries)
    (hlaps : Laps n laps) (hm : LoopMeasure n laps entries p) {laps' : List (ℤ × ℕ)}
    (hlaps' : laps' =
      laps ++ if a.OfReplay s call then (p'.lap entries'.length).toList else []) :
    Laps n laps' ∧ LoopMeasure n laps' entries' p' := by
  subst hlaps'
  have hcount : (entries'.length : ℤ) ≤ entries.length := Int.ofNat_le.mpr hsub.length_le
  cases h with
  | other ha _ =>
    rw [if_neg ha, List.append_nil]
    refine ⟨hlaps, ?_⟩
    cases hm with
    | ended hp => exact .ended hp
    | @awaiting i m hp hlen hle hgone =>
      refine .awaiting hp (hsub.length_le.trans hlen) (fun lap hlap => ?_) fun hm lap hlap => ?_
      · have := hle lap hlap
        omega
      · by_cases hmem : m ∈ entries
        · -- the entry the call is at has just been removed
          have hlt := Int.ofNat_lt.mpr (Traversal.length_lt_of_sublist_of_notMem hsub hmem hm)
          have := hle lap hlap
          omega
        · have := hgone hmem lap hlap
          omega
  | @acked _ _ kind m evs he hc =>
    rw [if_pos ⟨rfl, rfl⟩]
    cases hm with
    | ended hp => simp at hp
    | @awaiting i m' hp hlen hle hgone =>
      obtain ⟨rfl, rfl⟩ := ReplayPhase.isAt_receiving_iff.mp hp
      rw [afterSuccess_all]
      refine hlaps.goRound (hsub.length_le.trans hlen) fun lap hlap => ?_
      by_cases hmem : m ∈ entries
      · have hm : m ∉ entries' := by simp [he, removeAll]
        have hlt := Int.ofNat_lt.mpr (Traversal.length_lt_of_sublist_of_notMem hsub hmem hm)
        have := hle lap hlap
        omega
      · -- nothing was left to remove: another call has removed the entry
        have := hgone hmem lap hlap
        omega
  | @notAcked _ kind m r hr =>
    rw [if_pos ⟨rfl, rfl⟩]
    cases hm with
    | ended hp => simp at hp
    | @awaiting i m' hp hlen hle hgone =>
      obtain ⟨rfl, rfl⟩ := ReplayPhase.isAt_receiving_iff.mp hp
      have hnone : (ReplayPhase.failing (.all i) m).lap entries.length = none := rfl
      rw [hnone, Option.toList_none, List.append_nil]
      exact ⟨hlaps, .awaiting (Or.inr rfl) hlen hle hgone⟩
  | threw =>
    have hnone : ReplayPhase.threw.lap entries.length = none := rfl
    rw [if_pos ⟨rfl, rfl⟩, hnone, Option.toList_none, List.append_nil]
    exact ⟨hlaps, .ended (Or.inr rfl)⟩
  | @failed _ kind m b evs hc =>
    rw [if_pos ⟨rfl, rfl⟩]
    cases hm with
    | ended hp => simp at hp
    | @awaiting i m' hp hlen hle hgone =>
      obtain ⟨rfl, rfl⟩ := ReplayPhase.isAt_failing_iff.mp hp
      rw [afterFailure_all]
      refine hlaps.goRound hlen fun lap hlap => ?_
      have := hle lap hlap
      omega

/-- The head of the loop hands over as many entries as it reads. -/
theorem CallsFor.length_replayedBy {evs : List Event} {i : ℤ} {c : ℕ}
    (hc : CallsFor s call (replayAllFrom entries i) evs) :
    (replayedBy s call evs).length = ((replayAllFrom entries i).lap c).toList.length := by
  have hphase : (replayAllFrom entries i).handed.length =
      ((replayAllFrom entries i).lap c).toList.length := by
    unfold replayAllFrom
    split_ifs
    · split <;> rfl
    · rfl
    · rfl
  rw [hc.replayedBy_ackedBy.1, hphase]

/-- A step of a call reads as many entries as it hands over. -/
theorem CallStep.length_replayedBy {p : ReplayPhase} {evs : List Event} {c : ℕ}
    (h : CallStep s call a entries p evs entries' p') :
    (replayedBy s call evs).length =
      (if a.OfReplay s call then (p'.lap c).toList else []).length := by
  cases h with
  | other ha hquiet =>
    rw [if_neg ha, replayedBy_of_not_ofReplay hquiet]
    rfl
  | @acked _ _ kind m evs he hc =>
    rw [if_pos ⟨rfl, rfl⟩]
    cases kind with
    | fromDlq =>
      obtain rfl : evs = [] := hc
      rfl
    | all i => exact hc.length_replayedBy
  | @failed _ kind m b evs hc =>
    rw [if_pos ⟨rfl, rfl⟩]
    cases kind with
    | fromDlq =>
      obtain rfl : evs = [] := hc
      rfl
    | all i => exact hc.length_replayedBy
  | notAcked _ | threw =>
    rw [if_pos ⟨rfl, rfl⟩]
    rfl

/-- A call throws only by the exception of its failure handler. -/
theorem CallStep.threw_of {p : ReplayPhase} {evs : List Event}
    (h : CallStep s call a entries p evs entries' p') (hm : LoopMeasure n laps entries p)
    (hp' : p' = .threw) :
    p = .threw ∨ ∃ m e, .failedReturned s (.replay call) m (.error e) ∈ evs := by
  cases h with
  | other _ _ => exact Or.inl hp'
  | notAcked _ => exact ReplayPhase.noConfusion hp'
  | threw => exact Or.inr ⟨_, _, List.mem_singleton_self _⟩
  | @acked _ _ kind m evs _ _ =>
    cases hm with
    | ended hp => simp at hp
    | @awaiting i m' hp _ _ _ =>
      obtain ⟨rfl, rfl⟩ := ReplayPhase.isAt_receiving_iff.mp hp
      rw [afterSuccess_all] at hp'
      exact absurd hp' (replayAllFrom_ne_threw _ _)
  | @failed _ kind m b evs _ =>
    cases hm with
    | ended hp => simp at hp
    | @awaiting i m' hp _ _ _ =>
      obtain ⟨rfl, rfl⟩ := ReplayPhase.isAt_failing_iff.mp hp
      rw [afterFailure_all] at hp'
      exact absurd hp' (replayAllFrom_ne_threw _ _)

theorem lapsOf_snoc (hp : (t.post.replays s)[call]? = some p') :
    lapsOf s call σ₁ (pre ++ [t]) = lapsOf s call σ₁ pre ++
      if t.act.OfReplay s call then (p'.lap (t.post.dlq s).length).toList else [] := by
  simp [lapsOf, System.lap, hp]

/-- Without additions, what is left of the dead letters is part of what there was. -/
theorem dlq_sublist_of_run (hw : σ.WellFormed) (hcont : Run step σ cont σ₂)
    (hadd : ∀ m, .addedToDlq s m ∉ events cont) :
    ∀ t ∈ cont, (t.post.dlq s).Sublist (t.pre.dlq s) := by
  intro t ht
  obtain ⟨pre, post, -, hpre, hstep, -⟩ := hcont.of_mem ht
  have hd := (effect_of_step hstep).dlqStep (hw.of_run hpre) s
  exact hd.entries_sublist fun m hm => hadd m (mem_events.mpr ⟨t, ht, hm⟩)

/-- The return of a handler call that a replay awaits, whatever it is, can be taken. -/
theorem isSome_step_replayReceived {σ : System} {kind : ReplayKind} {m : MessageEnvelope}
    (hp : (σ.replays s)[call]? = some (.receiving kind m)) (r : ReceiveResult) :
    (step σ (.replayReceived s call r)).isSome := by
  by_cases hr : r = .ok .ack <;> simp [step, hp, replayReceived, hr]

theorem isSome_step_replayFailedHandled {σ : System} {kind : ReplayKind} {m : MessageEnvelope}
    (hp : (σ.replays s)[call]? = some (.failing kind m)) (r : FailedResult) :
    (step σ (.replayFailedHandled s call r)).isSome := by
  rcases r with e | b <;> simp [step, hp, replayFailedHandled]

/-- A call that replays the whole queue awaits the return of a handler call, and takes it whatever
it turns out to be. -/
def AwaitsReturn (σ : System) (s : Guid) (call : ℕ) : Prop :=
  (∃ i m, (σ.replays s)[call]? = some (.receiving (.all i) m) ∧
    ∀ r, (step σ (.replayReceived s call r)).isSome) ∨
  ∃ i m, (σ.replays s)[call]? = some (.failing (.all i) m) ∧
    ∀ r, (step σ (.replayFailedHandled s call r)).isSome

theorem awaitsReturn_of_isAt {σ : System} {p : ReplayPhase} {i : ℕ} {m : MessageEnvelope}
    (hp : (σ.replays s)[call]? = some p) (hat : p.IsAt i m) : AwaitsReturn σ s call := by
  rcases hat with rfl | rfl
  · exact Or.inl ⟨i, m, hp, isSome_step_replayReceived hp⟩
  · exact Or.inr ⟨i, m, hp, isSome_step_replayFailedHandled hp⟩

/-- **The measure in every run of a call**, with the number of handler calls and the reason for
an exception. -/
theorem laps_of_run (hw : σ.WellFormed) (ha : a.BeginsReplayAll σ s call)
    (hstep : step σ a = some (σ₁, out)) (hs : s ∈ σ.queue.subscribers)
    (hcont : Run step σ₁ cont σ₂) (hadd : ∀ m, .addedToDlq s m ∉ events cont) :
    ∃ p, (σ₂.replays s)[call]? = some p ∧ Laps (σ.dlq s).length (lapsOf s call σ₁ cont) ∧
      LoopMeasure (σ.dlq s).length (lapsOf s call σ₁ cont) (σ₂.dlq s) p ∧
      (lapsOf s call σ₁ cont).length = (replayedBy s call (out ++ events cont)).length ∧
      (p = .threw → ∃ m e, .failedReturned s (.replay call) m (.error e) ∈ events cont) := by
  have hsub := dlq_sublist_of_run (hw.of_effect (effect_of_step hstep)) hcont hadd
  refine call_invariant
    (I := fun pre entries p => Laps (σ.dlq s).length (lapsOf s call σ₁ pre) ∧
      LoopMeasure (σ.dlq s).length (lapsOf s call σ₁ pre) entries p ∧
      (lapsOf s call σ₁ pre).length = (replayedBy s call (out ++ events pre)).length ∧
      (p = .threw → ∃ m e, .failedReturned s (.replay call) m (.error e) ∈ events pre))
    ha hstep hs hcont ?_ ?_
  · intro hcall hcf hdlq
    have hnil : Laps (σ.dlq s).length [] := ⟨by simp, List.Pairwise.nil⟩
    have hfirst : lapsOf s call σ₁ [] =
        [] ++ ((replayAllFrom (σ.dlq s) (0 : ℕ)).lap (σ.dlq s).length).toList := by
      simp [lapsOf, System.lap, hcall, hdlq]
    obtain ⟨hlaps, hm⟩ := hnil.goRound (i := 0) le_rfl (by simp)
    rw [← hfirst] at hlaps hm
    refine ⟨hlaps, hm, ?_, fun hp => ?_⟩
    · rw [hfirst, events_nil, List.append_nil, List.nil_append]
      exact hcf.length_replayedBy.symm
    · exact absurd hp (replayAllFrom_ne_threw _ 0)
  · rintro pre t p p' hpre ⟨hlaps, hm, hlen, hthrew⟩ - hp' hcs
    have hnext : lapsOf s call σ₁ (pre ++ [t]) = lapsOf s call σ₁ pre ++
        if t.act.OfReplay s call then (p'.lap (t.post.dlq s).length).toList else [] :=
      lapsOf_snoc hp'
    obtain ⟨hlaps', hm'⟩ := hcs.loopMeasure (hsub t (hpre.subset (by simp))) hlaps hm hnext
    refine ⟨hlaps', hm', ?_, fun hp => ?_⟩
    · rw [hnext, List.length_append, hlen, ← hcs.length_replayedBy]
      simp [Nat.add_assoc]
    · rw [events_append]
      rcases hcs.threw_of hm hp with hp | ⟨m, e, he⟩
      · obtain ⟨m, e, he⟩ := hthrew hp
        exact ⟨m, e, List.mem_append_left _ he⟩
      · exact ⟨m, e, List.mem_append_right _ (by simpa using he)⟩

/-- As many reads as they have decreasing measures. -/
theorem Laps.length_le (h : Laps n laps) : laps.length ≤ n := by
  have hmeasures : (laps.map fun lap => (lap.2 : ℤ) - lap.1).length ≤ n := by
    refine Traversal.length_le_of_pairwise_gt h.decreasing ?_ ?_
    · intro x hx
      obtain ⟨lap, hlap, rfl⟩ := List.mem_map.mp hx
      have := (h.inRange lap hlap).2.1
      omega
    · intro x hx
      obtain ⟨lap, hlap, rfl⟩ := List.mem_map.mp hx
      obtain ⟨h0, -, hle⟩ := h.inRange lap hlap
      omega
  simpa using hmeasures

/-- **The loop of `ReplayAllDlqMessagesAsync` ends.** Let a call begin on a registered subscriber,
and let nothing be added to its dead letters; other calls may remove from them whenever they
like. At every read of `DeadLetterQueue[i]` the loop variable is in range, and `Count - i` is
smaller than at the read before. There is one call of the handler for each read, and there are
no more of them than there were entries when the call began. The call is over, by an exception
of the failure handler if by any, or the return of the handler call it awaits takes it on. -/
theorem replay_all_terminates (hw : σ.WellFormed) (ha : a.BeginsReplayAll σ s call)
    (hstep : step σ a = some (σ₁, out)) (hs : s ∈ σ.queue.subscribers)
    (hcont : Run step σ₁ cont σ₂) (hadd : ∀ m, .addedToDlq s m ∉ events cont) :
    (∀ lap ∈ lapsOf s call σ₁ cont, 0 ≤ lap.1 ∧ lap.1 < lap.2) ∧
      ((lapsOf s call σ₁ cont).map fun lap => (lap.2 : ℤ) - lap.1).Pairwise (· > ·) ∧
      (lapsOf s call σ₁ cont).length = (replayedBy s call (out ++ events cont)).length ∧
      (lapsOf s call σ₁ cont).length ≤ (σ.dlq s).length ∧
      ((σ₂.replays s)[call]? = some .returned ∨
        ((σ₂.replays s)[call]? = some .threw ∧
          ∃ m e, .failedReturned s (.replay call) m (.error e) ∈ events cont) ∨
        (∃ i m, (σ₂.replays s)[call]? = some (.receiving (.all i) m) ∧
          ∀ r, (step σ₂ (.replayReceived s call r)).isSome) ∨
        ∃ i m, (σ₂.replays s)[call]? = some (.failing (.all i) m) ∧
          ∀ r, (step σ₂ (.replayFailedHandled s call r)).isSome) := by
  obtain ⟨p, hp, hlaps, hm, hlen, hthrew⟩ := laps_of_run hw ha hstep hs hcont hadd
  refine ⟨fun lap hlap => ⟨(hlaps.inRange lap hlap).1, (hlaps.inRange lap hlap).2.1⟩,
    hlaps.decreasing, hlen, hlaps.length_le, ?_⟩
  cases hm with
  | ended hover =>
    rcases hover with rfl | rfl
    · exact Or.inl hp
    · exact Or.inr (Or.inl ⟨hp, hthrew rfl⟩)
  | awaiting hat _ _ _ => exact Or.inr (Or.inr (awaitsReturn_of_isAt hp hat))

/-- The theorem at three dead letters, of which another call removes the one the call is at, which
then is acknowledged with nothing left to remove. -/
theorem replay_all_terminates_shared : ∃ tr σ σ₁ out cont σ₂, RunOf 100 0 tr σ ∧
    step σ (.replayAllDlqMessages 7) = some (σ₁, out) ∧ Run step σ₁ cont σ₂ ∧
    (σ₂.replays 7)[0]? = some .returned ∧ lapsOf 7 0 σ₁ cont = [(0, 3), (0, 2), (1, 2)] ∧
    (lapsOf 7 0 σ₁ cont).length ≤ (σ.dlq 7).length := by
  have h := runOf_exec 100 0 ([.subscribe 7, .enqueue 1 10 none, .enqueue 2 11 none,
    .enqueue 3 12 none] ++ deadLetter 7 ++ deadLetter 7 ++ deadLetter 7) (by decide)
  obtain ⟨σ₁, cont, σ₂, hstep, hcont, hevents, hret, hlaps⟩ : ∃ σ₁ cont σ₂,
      step (stateOf step (System.init 100 0) ([.subscribe 7, .enqueue 1 10 none,
        .enqueue 2 11 none, .enqueue 3 12 none] ++ deadLetter 7 ++ deadLetter 7 ++
        deadLetter 7)) (.replayAllDlqMessages 7) =
          some (σ₁, [.receiveCalled 7 (.replay 0) ⟨1, 10⟩ none]) ∧
      Run step σ₁ cont σ₂ ∧ events cont =
        [.receiveCalled 7 (.replay 1) ⟨1, 10⟩ none,
          .receiveReturned 7 (.replay 1) ⟨1, 10⟩ (.ok .ack),
          .receiveReturned 7 (.replay 0) ⟨1, 10⟩ (.ok .ack),
          .receiveCalled 7 (.replay 0) ⟨2, 11⟩ none,
          .receiveReturned 7 (.replay 0) ⟨2, 11⟩ (.ok .nack),
          .failedCalled 7 (.replay 0) ⟨2, 11⟩ none,
          .failedReturned 7 (.replay 0) ⟨2, 11⟩ (.ok .commit),
          .receiveCalled 7 (.replay 0) ⟨3, 12⟩ none,
          .receiveReturned 7 (.replay 0) ⟨3, 12⟩ (.ok .ack)] ∧
      (σ₂.replays 7)[0]? = some .returned ∧ lapsOf 7 0 σ₁ cont = [(0, 3), (0, 2), (1, 2)] :=
    ⟨_, _, _, rfl, run_exec [.replayFromDlq 7 1, .replayReceived 7 1 (.ok .ack),
      .replayReceived 7 0 (.ok .ack), .replayReceived 7 0 (.ok .nack),
      .replayFailedHandled 7 0 (.ok .commit), .replayReceived 7 0 (.ok .ack)] (by decide),
      rfl, by decide, by decide⟩
  exact ⟨_, _, σ₁, _, cont, σ₂, h, hstep, hcont, hret, hlaps, (replay_all_terminates
    (a := .replayAllDlqMessages 7) (wellFormed_of_run h) ⟨rfl, rfl⟩ hstep (by decide) hcont
    (by simp [hevents])).2.2.2.1⟩

end Measure

end PushDeliveredQueue
