import PushDeliveredQueue.State
import PushDeliveredQueue.Steps

/-!
# Reading the state while it changes

`GetState` copies the buffer under the lock, lets go of the lock, and then describes the
subscribers one after the other. `PushDeliveredQueue.observedStep` is the system with any number
of such calls under way, each taking its steps between those of everybody else.

What a call reports of a subscriber goes with the buffer it reports only if the two were there
at one instant (`PushDeliveredQueue.ReportedTogether`). They were, as long as nothing changes
the entry of this subscriber once the buffer has changed (`PushDeliveredQueue.Tears`,
`PushDeliveredQueue.get_state_consistent`), whatever becomes of the others meanwhile: a prune pass
that moves its cursor is already too much (`PushDeliveredQueue.get_state_torn`).
-/

namespace PushDeliveredQueue

open Transitions

/-! ### Calls under way -/

/-- A `GetState` call: what it has put into its result so far. -/
structure GetStateCall where
  buffer : List EnvelopeCopy
  subscribers : List (Guid × SubscriberState) := []
  /-- The subscribers that were registered when the call copied the buffer. -/
  known : List Guid
  returned : Bool := false
  deriving DecidableEq

/-- The subscribers a call has described. -/
def GetStateCall.visited (c : GetStateCall) : List Guid := c.subscribers.map (·.1)

/-- The system, with the `GetState` calls ever made, in starting order. -/
structure ObservedSystem where
  system : System
  calls : List GetStateCall := []

/-- A new queue, of which nobody has asked for the state. -/
def ObservedSystem.init (ttl : TimeSpan) (retryCount : ℕ) : ObservedSystem where
  system := System.init ttl retryCount

/-- What can happen next, to the system or in a `GetState` call. -/
inductive ObservedAction where
  | system (action : Action)
  /-- A call copies the buffer under the lock. -/
  | copyBuffer
  /-- The call of this number reads the entry of a subscriber. -/
  | readSubscriber (call : ℕ) (subscriberId : Guid)
  /-- The call of this number returns. -/
  | returnState (call : ℕ)
  deriving DecidableEq

/-- **The transition function of the observed system.** The enumeration of the dictionary comes
to each key once; it comes to every one that is there from its beginning to its end. -/
def observedStep (ω : ObservedSystem) : ObservedAction → Option (ObservedSystem × List Event)
  | .system a =>
    match step ω.system a with
    | some (σ, evs) => some ({ ω with system := σ }, evs)
    | none => none
  | .copyBuffer =>
    some ({ ω with
      calls := ω.calls ++
        [{ buffer := ω.system.queue.copyBuffer, known := ω.system.queue.subscribers }] }, [])
  | .readSubscriber call s =>
    match ω.calls[call]? with
    | some c =>
      if c.returned = false ∧ s ∈ ω.system.queue.subscribers ∧ s ∉ c.visited then
        some ({ ω with
          calls := ω.calls.set call
            { c with
              subscribers := c.subscribers ++
                [(s, ω.system.queue.subscriberState c.buffer.length s)] } }, [])
      else none
    | none => none
  | .returnState call =>
    match ω.calls[call]? with
    | some c =>
      if c.returned = false ∧ ∀ s ∈ c.known, s ∈ ω.system.queue.subscribers → s ∈ c.visited then
        some ({ ω with calls := ω.calls.set call { c with returned := true } }, [])
      else none
    | none => none

/-- The transitions of the observed system. -/
abbrev ObservedTrace := List (Transition ObservedSystem ObservedAction Event)

/-- **What a transition of the observed system can do.** -/
inductive ObservedEffect (ω : ObservedSystem) : ObservedAction → ObservedSystem → Prop
  | system {a : Action} {σ : System} {evs : List Event} (h : step ω.system a = some (σ, evs)) :
      ObservedEffect ω (.system a) { ω with system := σ }
  | copyBuffer :
      ObservedEffect ω .copyBuffer
        { ω with
          calls := ω.calls ++
            [{ buffer := ω.system.queue.copyBuffer, known := ω.system.queue.subscribers }] }
  | readSubscriber {call : ℕ} {s : Guid} {c : GetStateCall} (h : ω.calls[call]? = some c)
      (hopen : c.returned = false) (hs : s ∈ ω.system.queue.subscribers) (hnew : s ∉ c.visited) :
      ObservedEffect ω (.readSubscriber call s)
        { ω with
          calls := ω.calls.set call
            { c with
              subscribers := c.subscribers ++
                [(s, ω.system.queue.subscriberState c.buffer.length s)] } }
  | returnState {call : ℕ} {c : GetStateCall} (h : ω.calls[call]? = some c) :
      ObservedEffect ω (.returnState call)
        { ω with calls := ω.calls.set call { c with returned := true } }

theorem observedEffect_of_step {ω ω' : ObservedSystem} {a : ObservedAction} {evs : List Event}
    (h : observedStep ω a = some (ω', evs)) : ObservedEffect ω a ω' := by
  cases a with
  | system a =>
    simp only [observedStep] at h
    split at h
    · rename_i hstep
      obtain ⟨rfl, rfl⟩ := by simpa using h
      exact .system hstep
    · simp at h
  | copyBuffer =>
    obtain ⟨rfl, rfl⟩ := by simpa [observedStep] using h
    exact .copyBuffer
  | readSubscriber call s =>
    simp only [observedStep] at h
    split at h
    · rename_i hc
      split at h
      · rename_i hguard
        obtain ⟨rfl, rfl⟩ := by simpa using h
        exact .readSubscriber hc hguard.1 hguard.2.1 hguard.2.2
      · simp at h
    · simp at h
  | returnState call =>
    simp only [observedStep] at h
    split at h
    · rename_i hc
      split at h
      · obtain ⟨rfl, rfl⟩ := by simpa using h
        exact .returnState hc
      · simp at h
    · simp at h

/-- **Looking changes nothing**: the system makes a run of its own, whatever is read of it. -/
theorem runOf_of_observed {ttl : TimeSpan} {n : ℕ} {tr : ObservedTrace} {ω : ObservedSystem}
    (h : Run observedStep (.init ttl n) tr ω) : ∃ tr', RunOf ttl n tr' ω.system := by
  refine h.stateInvariant (I := fun ω => ∃ tr', RunOf ttl n tr' ω.system) ⟨[], Run.nil⟩ ?_
  rintro ω a evs ω' ⟨tr', hrun⟩ hs
  cases observedEffect_of_step hs with
  | system hstep => exact ⟨_, hrun.snoc hstep⟩
  | _ => exact ⟨tr', hrun⟩

/-! ### At one instant -/

/-- What a call that has copied this many messages reports of a subscriber if it reads its entry
now. -/
def System.reported (σ : System) (count : ℕ) (s : Guid) : Option SubscriberState :=
  if s ∈ σ.queue.subscribers then some (σ.queue.subscriberState count s) else none

/-- **The buffer and the entry of a subscriber were there at one instant of a call**: an atomic
`GetState` at that instant would have returned both. -/
def ReportedTogether (tr : ObservedTrace) (call : ℕ) (buffer : List EnvelopeCopy) (s : Guid)
    (e : SubscriberState) : Prop :=
  ∃ t ∈ tr, (∃ c, t.post.calls[call]? = some c ∧ c.returned = false) ∧
    t.post.system.queue.getState.buffer = buffer ∧
    (s, e) ∈ t.post.system.queue.getState.subscribers

/-- A transition that **tears** what a call is to report of a subscriber apart: it changes the
entry, which the call has yet to read, and leaves a buffer that is not the one the call has
copied. -/
def Tears (call : ℕ) (s : Guid) (t : Transition ObservedSystem ObservedAction Event) : Prop :=
  ∃ c ∈ t.pre.calls[call]?, c.returned = false ∧ s ∉ c.visited ∧
    t.post.system.reported c.buffer.length s ≠ none ∧
    t.post.system.reported c.buffer.length s ≠ t.pre.system.reported c.buffer.length s ∧
    t.post.system.queue.copyBuffer ≠ c.buffer

instance (call : ℕ) (s : Guid) (t : Transition ObservedSystem ObservedAction Event) :
    Decidable (Tears call s t) := inferInstanceAs (Decidable (∃ c ∈ _, _))

section Consistency

variable {ttl : TimeSpan} {n : ℕ} {tr tr' : ObservedTrace} {ω ω' : ObservedSystem} {call : ℕ}
  {buffer : List EnvelopeCopy} {s : Guid} {e : SubscriberState} {c : GetStateCall}

theorem System.reported_eq_some {σ : System} {count : ℕ} :
    σ.reported count s = some e ↔
      s ∈ σ.queue.subscribers ∧ e = σ.queue.subscriberState count s := by
  by_cases hs : s ∈ σ.queue.subscribers <;> simp [reported, hs, eq_comm]

theorem ReportedTogether.append (h : ReportedTogether tr call buffer s e) :
    ReportedTogether (tr ++ tr') call buffer s e := by
  obtain ⟨t, ht, hdur, hb, hs⟩ := h
  exact ⟨t, List.mem_append_left _ ht, hdur, hb, hs⟩

/-- An instant at which the buffer is the one copied. -/
theorem ReportedTogether.of_last {t : Transition ObservedSystem ObservedAction Event}
    (hc : t.post.calls[call]? = some c) (hopen : c.returned = false)
    (hb : t.post.system.queue.copyBuffer = c.buffer)
    (he : t.post.system.reported c.buffer.length s = some e) :
    ReportedTogether (tr ++ [t]) call c.buffer s e := by
  obtain ⟨hs, rfl⟩ := System.reported_eq_some.mp he
  refine ⟨t, by simp, ⟨c, hc, hopen⟩, hb, ?_⟩
  rw [SubscribableQueue.mem_getState_subscribers, ← hb, SubscribableQueue.length_copyBuffer]
  exact ⟨hs, rfl⟩

/-- **The promise a call keeps** to a subscriber: what it has reported of it goes with its buffer,
and so does what it would report next. -/
structure Keeps (tr : ObservedTrace) (ω : ObservedSystem) (call : ℕ) (s : Guid)
    (c : GetStateCall) : Prop where
  read : ∀ e, (s, e) ∈ c.subscribers → ReportedTogether tr call c.buffer s e
  unread : c.returned = false → s ∉ c.visited → ∀ e,
    ω.system.reported c.buffer.length s = some e → ReportedTogether tr call c.buffer s e

/-- A call that is left alone by a transition which does not change the system. -/
theorem Keeps.of_same {t : Transition ObservedSystem ObservedAction Event}
    (h : Keeps tr ω call s c) (hsys : ω'.system = ω.system) :
    Keeps (tr ++ [t]) ω' call s c := by
  refine ⟨fun e he => (h.read e he).append, fun hopen hs e he => ?_⟩
  rw [hsys] at he
  exact (h.unread hopen hs e he).append

/-- **One transition that does not tear the report apart keeps the promise.** -/
theorem keeps_step {t : Transition ObservedSystem ObservedAction Event}
    (heff : ObservedEffect t.pre t.act t.post) (hok : ¬ Tears call s t)
    (h : ∀ c, t.pre.calls[call]? = some c → Keeps tr t.pre call s c)
    (c : GetStateCall) (hc : t.post.calls[call]? = some c) :
    Keeps (tr ++ [t]) t.post call s c := by
  obtain ⟨ω, a, evs, ω'⟩ := t
  change ObservedEffect ω a ω' at heff
  cases heff with
  | @system a σ evs' hstep =>
    have hkeeps : Keeps tr ω call s c := h c hc
    refine ⟨fun e he => (hkeeps.read e he).append, fun hopen hs e he => ?_⟩
    by_cases hsame : σ.reported c.buffer.length s = ω.system.reported c.buffer.length s
    · exact (hkeeps.unread hopen hs e (hsame ▸ he)).append
    · -- the entry has just changed, so the buffer is the one copied
      refine .of_last hc hopen ?_ he
      by_contra hb
      refine hok ⟨c, hc, hopen, hs, ?_, hsame, hb⟩
      simp only [show σ.reported c.buffer.length s = some e from he]
      simp
  | copyBuffer =>
    simp only [List.getElem?_append] at hc
    split at hc
    · exact (h c hc).of_same rfl
    · rename_i hge
      obtain rfl : call = ω.calls.length := by
        have hlt := (List.getElem?_eq_some_iff.mp hc).1
        simp only [List.length_singleton] at hlt
        omega
      obtain rfl : _ = c := by simpa using hc
      refine ⟨by simp, fun hopen _ e he => ?_⟩
      exact .of_last (c := ⟨ω.system.queue.copyBuffer, [], ω.system.queue.subscribers, false⟩)
        (by simp) rfl rfl he
  | @readSubscriber call' s' c' hc' hopen' hs' hnew' =>
    rw [List.getElem?_set] at hc
    split_ifs at hc with heq hlt
    · obtain rfl := heq
      obtain rfl : _ = c := by simpa using hc
      have hkeeps := h c' hc'
      refine ⟨fun e he => ?_, fun _ hs e he => ?_⟩
      · rcases List.mem_append.mp he with he | he
        · exact (hkeeps.read e he).append
        · obtain ⟨rfl, rfl⟩ : s = s' ∧ e = ω.system.queue.subscriberState c'.buffer.length s' := by
            simpa using he
          exact (hkeeps.unread hopen' hnew' _ (System.reported_eq_some.mpr ⟨hs', rfl⟩)).append
      · refine (hkeeps.unread hopen' (fun hmem => hs ?_) e he).append
        simp only [GetStateCall.visited, List.map_append, List.mem_append]
        exact Or.inl hmem
    · exact (h c hc).of_same rfl
  | @returnState call' c' hc' =>
    rw [List.getElem?_set] at hc
    split_ifs at hc with heq hlt
    · obtain rfl := heq
      obtain rfl : _ = c := by simpa using hc
      exact ⟨fun e he => ((h c' hc').read e he).append, by simp⟩
    · exact (h c hc).of_same rfl

/-- **A report nobody tears apart is a snapshot.** Take a `GetState` call and a subscriber, and a
run none of whose transitions changes the entry of the subscriber before the call has read it and
leaves a buffer that is not the one the call has copied. Then whatever the call reports of the
subscriber is, together with the buffer it reports, what an atomic `GetState` would have returned
at some instant of the call; and its `PendingCount` is one the subscriber really had then. -/
theorem get_state_consistent (h : Run observedStep (.init ttl n) tr ω)
    (hok : ∀ t ∈ tr, ¬ Tears call s t) (hc : ω.calls[call]? = some c)
    (he : (s, e) ∈ c.subscribers) :
    ReportedTogether tr call c.buffer s e ∧
      ∃ t ∈ tr, (∃ c, t.post.calls[call]? = some c ∧ c.returned = false) ∧
        e.pendingCount = max ((t.post.system.queue.buffer.length : ℤ) -
          ((t.post.system.queue.cursors s).index + 1)) 0 := by
  have hkeeps : ∀ c, ω.calls[call]? = some c → Keeps tr ω call s c := by
    refine h.invariantOn (I := fun tr ω => ∀ c, ω.calls[call]? = some c → Keeps tr ω call s c)
      ?_ ?_ hok
    · intro c hc
      simp [ObservedSystem.init] at hc
    · intro tr ω a evs ω' _ hi hs hok
      exact keeps_step (t := ⟨ω, a, evs, ω'⟩) (observedEffect_of_step hs) hok hi
  have htogether := (hkeeps c hc).read e he
  refine ⟨htogether, ?_⟩
  obtain ⟨t, ht, hdur, -, hs⟩ := htogether
  obtain ⟨-, rfl⟩ := SubscribableQueue.mem_getState_subscribers _ |>.mp hs
  exact ⟨t, ht, hdur, rfl⟩

/-- A subscriber with one message committed and another one waiting. -/
def oneCommitted : List Action :=
  [.subscribe 7, .enqueue 1 10 none, .enqueue 2 11 none, .dispatch 7, .dispatch 7, .dispatch 7,
    .received 7 (.ok .ack), .dispatch 7]

/-- A `GetState` call during which subscriber `7` commits its second message, a third one is
enqueued, and a prune pass removes the first one; subscriber `8` has committed none of them. -/
def busyGetState : List ObservedAction :=
  (.subscribe 8 :: oneCommitted).map .system ++ [.copyBuffer] ++
    [.dispatch 7, .dispatch 7, .dispatch 7, .received 7 (.ok .ack), .dispatch 7,
      .enqueue 3 12 none].map .system ++
    [.readSubscriber 0 7, .system (.beginPrune 16), .system (.prune 0), .readSubscriber 0 8,
      .returnState 0]

/-- The theorem at both subscribers of this call: the entry of `7` has changed before the buffer
did, and that of `8` has not changed. -/
theorem get_state_consistent_busy : ∃ tr ω c e₇ e₈, Run observedStep (.init 5 0) tr ω ∧
    ω.calls[0]? = some c ∧ c.buffer.map (·.id) = [1, 2] ∧
    ω.system.queue.buffer.map (·.id) = [2, 3] ∧
    (7, e₇) ∈ c.subscribers ∧ e₇.cursorIndex = 2 ∧ ReportedTogether tr 0 c.buffer 7 e₇ ∧
    (8, e₈) ∈ c.subscribers ∧ e₈.pendingCount = 1 ∧ ReportedTogether tr 0 c.buffer 8 e₈ := by
  have h : Run observedStep (.init 5 0) _ _ := run_exec busyGetState (by decide)
  have hcall : (stateOf observedStep (.init 5 0) busyGetState).calls[0]? = some _ := rfl
  have h₇ := get_state_consistent (s := 7) h (by decide) hcall List.mem_cons_self
  have h₈ := get_state_consistent (s := 8) h (by decide) hcall
    (List.mem_cons_of_mem _ List.mem_cons_self)
  exact ⟨_, _, _, _, _, h, hcall, by decide, by decide, List.mem_cons_self, by decide, h₇.1,
    List.mem_cons_of_mem _ List.mem_cons_self, by decide, h₈.1⟩

/-- **A prune pass tears a report apart**: `GetState` copies a buffer of two messages, of which
subscriber `7` has committed the first; a prune pass removes that one and moves the cursor back
before its entry is read. The call reports one message pending, and at no instant of it was
there any. -/
theorem get_state_torn : ∃ tr ω c e, Run observedStep (.init 5 0) tr ω ∧
    ω.calls[0]? = some c ∧ (7, e) ∈ c.subscribers ∧ ¬ ReportedTogether tr 0 c.buffer 7 e ∧
    ∀ t ∈ tr, (∃ c, t.post.calls[0]? = some c ∧ c.returned = false) →
      e.pendingCount ≠ max ((t.post.system.queue.buffer.length : ℤ) -
        ((t.post.system.queue.cursors 7).index + 1)) 0 := by
  have h : Run observedStep (.init 5 0) _ _ := run_exec
    (oneCommitted.map .system ++ [.copyBuffer, .system (.beginPrune 16), .system (.prune 0),
      .readSubscriber 0 7]) (by decide)
  have hpending : ∀ t ∈ traceOf observedStep (.init 5 0) (oneCommitted.map .system ++
      [.copyBuffer, .system (.beginPrune 16), .system (.prune 0), .readSubscriber 0 7]),
      t.post.calls ≠ [] → (1 : ℤ) ≠ max ((t.post.system.queue.buffer.length : ℤ) -
        ((t.post.system.queue.cursors 7).index + 1)) 0 := by decide
  have hcalled : ∀ {ω : ObservedSystem}, (∃ c, ω.calls[0]? = some c ∧ c.returned = false) →
      ω.calls ≠ [] := by
    rintro ω ⟨c, hc, -⟩ hnil
    simp [hnil] at hc
  refine ⟨_, _, _, _, h, rfl, List.mem_singleton.mpr rfl, ?_, fun t ht hdur =>
    hpending t ht (hcalled hdur)⟩
  rintro ⟨t, ht, hdur, -, hs⟩
  obtain ⟨-, he⟩ := SubscribableQueue.mem_getState_subscribers _ |>.mp hs
  exact hpending t ht (hcalled hdur) (congrArg SubscriberState.pendingCount he)

end Consistency

end PushDeliveredQueue
