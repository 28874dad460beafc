import Mathlib.Algebra.Order.BigOperators.Group.List
import Mathlib.Algebra.Order.Ring.Nat
import PushDeliveredQueue.CatchUp
import PushDeliveredQueue.Disposal

/-!
# Coming to rest

The constructor of the queue starts a task of its own, `PruneExpiredMessages`, which makes one pass
after the other until the source of the queue is cancelled. `PushDeliveredQueue.taskStep` is the
system of `PushDeliveredQueue.closingStep` with this one task in the place of the passes that come
from anywhere.

`Dispose` waits for nothing: not for the task, nor for the dispatch loops, nor for an `Unsubscribe`
that has taken a cursor out of the dictionary and not cancelled it yet, whose loop goes on until
then. Once there is none of the latter, what `Dispose` leaves behind comes to rest all the same. The
task finishes the pass it is in and every loop the delivery it is in, each in a bounded number of
steps (`PushDeliveredQueue.shutdown_bounded`). Only what clients do goes on after that, and nothing
leaves the buffer any more.

Whom the loops call meanwhile depends on the callbacks that handlers register on the tokens they
are given. One that throws ends a `try` block of `Dispose` between `Cancel` and `Dispose`, and what
has not been disposed of does not keep anybody from the calls of his last delivery. If none throws,
no loop calls the failure handler again or makes an extra attempt, and one whose subscriber is
registered does not call the handler at all.
-/

namespace PushDeliveredQueue

open Transitions

/-! ### The pruning task -/

/-- Where the task of `PruneExpiredMessages` is. -/
inductive PruneTask where
  /-- Handed to `Task.Run` by the constructor, and not begun. -/
  | scheduled
  /-- At the `while` condition. -/
  | checking
  /-- Past it, about to compute the cutoff. -/
  | computing
  /-- About to take the lock, with the cutoff in the queue's list of passes. -/
  | locking
  /-- The task saw its cancellation, or was cancelled before it began. -/
  | ended
  deriving DecidableEq

/-- The queue with its pruning task. -/
structure TaskSystem where
  closing : ClosingSystem
  task : PruneTask := .scheduled

/-- A new queue. -/
def TaskSystem.init (ttl : TimeSpan) (retryCount : ℕ) : TaskSystem where
  closing := ClosingSystem.init ttl retryCount

/-- What can happen next. -/
inductive TaskAction where
  /-- Anything but the steps of the pruning task. -/
  | closing (action : ClosingAction)
  /-- The pruning task takes its next step; should it read the clock, it reads this. -/
  | task (utcNow : DateTime)
  deriving DecidableEq

/-- Whether an action is a step of a prune pass. -/
def Action.ofPass : Action → Bool
  | .beginPrune _ | .prune _ => true
  | _ => false

/-- Whether an action of the closing system is. -/
def ClosingAction.ofPass : ClosingAction → Bool
  | .system a => a.ofPass
  | _ => false

/-- What the task does to the queue in a step. -/
def PruneTask.action (utcNow : DateTime) : PruneTask → Option Action
  | .computing => some (.beginPrune utcNow)
  | .locking => some (.prune 0)
  | .scheduled | .checking | .ended => none

/-- Where the task is after a step. -/
def PruneTask.next (q : SubscribableQueue) (utcNow : DateTime) : PruneTask → PruneTask
  | .scheduled => if q.cts.isCancellationRequested then .ended else .checking
  | .checking => if q.cts.isCancellationRequested then .ended else .computing
  | .computing =>
    match q.cutoff utcNow with
    | .ok _ => .locking
    -- the exception is logged, and the loop goes round
    | .error _ => .checking
  | .locking => .checking
  | .ended => .ended

/-- The action of the closing system an action means. -/
def TaskSystem.act (ω : TaskSystem) : TaskAction → Option ClosingAction
  | .closing a => if a.ofPass then none else some a
  | .task utcNow => (ω.task.action utcNow).map .system

/-- **The transition function of the queue with its pruning task.** -/
def taskStep (ω : TaskSystem) : TaskAction → Option (TaskSystem × List Event)
  | .closing a =>
    if a.ofPass then none
    else
      match closingStep ω.closing a with
      | some (c, evs) => some ({ ω with closing := c }, evs)
      | none => none
  | .task utcNow =>
    let task := ω.task.next ω.closing.system.queue utcNow
    if ω.task = .ended then none
    else
      match ω.task.action utcNow with
      | none => some ({ ω with task := task }, [])
      | some a =>
        match closingStep ω.closing (.system a) with
        | some (c, evs) => some (⟨c, task⟩, evs)
        | none => none

/-- The transitions of the queue with its pruning task. -/
abbrev TaskTrace := List (Transition TaskSystem TaskAction Event)

/-- The runs of a freshly constructed queue. -/
abbrev TaskRun (ttl : TimeSpan) (retryCount : ℕ) (tr : TaskTrace) (ω : TaskSystem) : Prop :=
  Run taskStep (.init ttl retryCount) tr ω

section Steps

variable {ω ω' : TaskSystem} {a : TaskAction} {evs : List Event}

/-- What the closing system does with a step of a pass. -/
theorem closingStep_of_ofPass {c : ClosingSystem} {b : Action} (hb : b.ofPass = true) :
    closingStep c (.system b) =
      (step c.system b).map fun x => ({ c with system := x.1 }, x.2) := by
  have hcalls : b.opensOrCloses = false := by
    cases b <;> simp_all [Action.ofPass, Action.opensOrCloses]
  cases hstep : step c.system b <;> simp [closingStep, hcalls, hstep]

/-- **What a transition can do.** -/
inductive TaskEffect (ω : TaskSystem) : TaskAction → TaskSystem → List Event → Prop
  | closing {b : ClosingAction} {c : ClosingSystem} {evs : List Event} (hb : b.ofPass = false)
      (h : closingStep ω.closing b = some (c, evs)) :
      TaskEffect ω (.closing b) { ω with closing := c } evs
  | begins (utcNow : DateTime) (ht : ω.task = .scheduled)
      (hc : ω.closing.system.queue.cts.isCancellationRequested = false) :
      TaskEffect ω (.task utcNow) { ω with task := .checking } []
  | goesOn (utcNow : DateTime) (ht : ω.task = .checking)
      (hc : ω.closing.system.queue.cts.isCancellationRequested = false) :
      TaskEffect ω (.task utcNow) { ω with task := .computing } []
  | ends (utcNow : DateTime) (ht : ω.task = .scheduled ∨ ω.task = .checking) :
      TaskEffect ω (.task utcNow) { ω with task := .ended } []
  | computes {utcNow cutoff : DateTime} {c : ClosingSystem} (ht : ω.task = .computing)
      (hc : c.system.passes = ω.closing.system.passes ++ [cutoff])
      (h : closingStep ω.closing (.system (.beginPrune utcNow)) = some (c, [])) :
      TaskEffect ω (.task utcNow) ⟨c, .locking⟩ []
  /-- The exception is logged. -/
  | fails {utcNow : DateTime} (ht : ω.task = .computing)
      (h : closingStep ω.closing (.system (.beginPrune utcNow)) = some (ω.closing, [])) :
      TaskEffect ω (.task utcNow) { ω with task := .checking } []
  | prunes {utcNow : DateTime} {c : ClosingSystem} {gone : List MessageEnvelope}
      (ht : ω.task = .locking) (hc : c.system.passes = ω.closing.system.passes.tail)
      (h : closingStep ω.closing (.system (.prune 0)) = some (c, [.pruned gone])) :
      TaskEffect ω (.task utcNow) ⟨c, .checking⟩ [.pruned gone]

/-- **Every transition is one of these.** -/
theorem taskEffect_of_step (h : taskStep ω a = some (ω', evs)) : TaskEffect ω a ω' evs := by
  cases a with
  | closing b =>
    simp only [taskStep] at h
    split_ifs at h with hb
    split at h
    · rename_i hstep
      obtain ⟨rfl, rfl⟩ := by simpa using h
      exact .closing (by simpa using hb) hstep
    · simp at h
  | task utcNow =>
    simp only [taskStep] at h
    cases ht : ω.task with
    | ended => simp [ht] at h
    | scheduled =>
      cases hc : ω.closing.system.queue.cts.isCancellationRequested <;>
        obtain ⟨rfl, rfl⟩ := by simpa [ht, PruneTask.action, PruneTask.next, hc] using h
      · exact .begins utcNow ht hc
      · exact .ends utcNow (Or.inl ht)
    | checking =>
      cases hc : ω.closing.system.queue.cts.isCancellationRequested <;>
        obtain ⟨rfl, rfl⟩ := by simpa [ht, PruneTask.action, PruneTask.next, hc] using h
      · exact .goesOn utcNow ht hc
      · exact .ends utcNow (Or.inr ht)
    | computing =>
      have hpass := closingStep_of_ofPass (c := ω.closing) (b := .beginPrune utcNow) rfl
      cases hcut : ω.closing.system.queue.cutoff utcNow with
      | ok cutoff =>
        simp only [step, hcut, Option.map_some] at hpass
        obtain ⟨rfl, rfl⟩ := by
          simpa [ht, PruneTask.action, PruneTask.next, hpass, hcut] using h
        exact .computes ht rfl hpass
      | error e =>
        simp only [step, hcut, Option.map_some] at hpass
        obtain ⟨rfl, rfl⟩ := by
          simpa [ht, PruneTask.action, PruneTask.next, hpass, hcut] using h
        exact .fails ht hpass
    | locking =>
      have hpass := closingStep_of_ofPass (c := ω.closing) (b := .prune 0) rfl
      cases hcutoff : ω.closing.system.passes[0]? with
      | some cutoff =>
        simp only [step, hcutoff, Option.map_some, List.eraseIdx_zero] at hpass
        obtain ⟨rfl, rfl⟩ := by
          simpa [ht, PruneTask.action, PruneTask.next, hpass] using h
        exact .prunes ht rfl hpass
      | none =>
        simp only [step, hcutoff, Option.map_none] at hpass
        simp [ht, PruneTask.action, hpass] at h

/-- What a transition means for the closing system: an action of it, or nothing. -/
theorem TaskEffect.closing_cases (h : TaskEffect ω a ω' evs) :
    (∃ b, ω.act a = some b ∧ closingStep ω.closing b = some (ω'.closing, evs)) ∨
      ω.act a = none ∧ ω'.closing = ω.closing ∧ evs = [] := by
  cases h with
  | closing hb hstep => exact Or.inl ⟨_, by simp [TaskSystem.act, hb], hstep⟩
  | begins _ ht _ | goesOn _ ht _ =>
    exact Or.inr ⟨by simp [TaskSystem.act, PruneTask.action, ht], rfl, rfl⟩
  | ends _ ht =>
    exact Or.inr ⟨by rcases ht with ht | ht <;> simp [TaskSystem.act, PruneTask.action, ht],
      rfl, rfl⟩
  | computes ht _ hstep | fails ht hstep | prunes ht _ hstep =>
    exact Or.inl ⟨_, by simp only [TaskSystem.act, PruneTask.action, ht, Option.map_some], hstep⟩

/-- What a trace means for the closing system. -/
def closingTraceOf (tr : TaskTrace) : ClosingTrace := simulated TaskSystem.closing TaskSystem.act tr

/-- **The queue with its task is the closing system**, with the passes of one task. -/
theorem closingRun_of_taskRun {ω₀ : TaskSystem} {tr : TaskTrace} (h : Run taskStep ω₀ tr ω) :
    Run closingStep ω₀.closing (closingTraceOf tr) ω.closing := by
  refine (h.simulate TaskSystem.closing TaskSystem.act ?_ ?_).1
  · intro ω a b ω' evs hs hb
    rcases (taskEffect_of_step hs).closing_cases with ⟨b', hb', hstep⟩ | ⟨hnone, -, -⟩
    · obtain rfl := Option.some.inj (hb.symm.trans hb')
      exact hstep
    · simp [hb] at hnone
  · intro ω a ω' evs hs hnone
    rcases (taskEffect_of_step hs).closing_cases with ⟨b, hb, -⟩ | ⟨-, hsame, hevs⟩
    · simp [hb] at hnone
    · exact ⟨hsame, hevs⟩

/-- The task does not throw out of a `Cancel`. -/
theorem callbackThrows_notMem {tr : TaskTrace} (h : ∀ t ∈ tr, t.act ≠ .closing .callbackThrows) :
    ∀ t ∈ closingTraceOf tr, t.act ≠ .callbackThrows := by
  intro t ht hact
  obtain ⟨t', ht', b, hb, rfl⟩ := mem_simulated.mp ht
  obtain rfl : b = .callbackThrows := hact
  refine h t' ht' ?_
  cases ha : t'.act with
  | closing a =>
    rw [ha, TaskSystem.act] at hb
    split_ifs at hb
    rw [Option.some.inj hb]
  | task utcNow => simp [ha, TaskSystem.act] at hb

end Steps

/-! ### How much is left to do -/

/-- The steps a cancelled loop takes, the returns of the calls it awaits included. -/
def DispatchPhase.stepsLeft (n : ℕ) : DispatchPhase → ℕ
  | .notStarted | .ended | .faulted => 0
  | .checking => 1
  | .backoff | .committing _ => 2
  | .deadLettering _ => 3
  | .retrying _ _ => 4
  | .manualRetry _ _ => 5
  | .deciding _ => 6
  | .failed _ _ => 7
  | .receiving _ k => 2 * (n - k) + 8
  | .attempting _ k => 2 * (n - k) + 9
  | .reading => 2 * n + 10

/-- The steps the task takes once the queue has been cancelled. -/
def PruneTask.stepsLeft : PruneTask → ℕ
  | .ended => 0
  | .scheduled | .checking => 1
  | .locking => 2
  | .computing => 3

/-- The passes the task still makes then. -/
def PruneTask.passesLeft : PruneTask → ℕ
  | .computing | .locking => 1
  | .scheduled | .checking | .ended => 0

/-- The steps all the loops together have left. -/
def System.stepsLeft (σ : System) : ℕ :=
  (σ.subscriberIds.map fun s => (σ.loops s).stepsLeft σ.queue.retryCount).sum

/-- Whether an action is one of somebody's dispatch loop. -/
def Action.ofSomeLoop : Action → Bool
  | .dispatch _ | .received _ _ | .failedHandled _ _ => true
  | _ => false

/-- Whether an action of the closing system is. -/
def ClosingAction.ofSomeLoop : ClosingAction → Bool
  | .system a => a.ofSomeLoop
  | _ => false

/-- Whether an action is a step of a dispatch loop or of the pruning task. -/
def TaskAction.ofWorker : TaskAction → Bool
  | .closing a => a.ofSomeLoop
  | .task _ => true

/-- Whether an event is a prune pass. -/
def Event.isPass : Event → Bool
  | .pruned _ => true
  | _ => false

section Loops

variable {q q' : SubscribableQueue} {p p' : DispatchPhase} {σ σ' : System} {a : Action}
  {evs : List Event} {s : Guid} {n : ℕ}

theorem DispatchPhase.stepsLeft_le (n : ℕ) (p : DispatchPhase) : p.stepsLeft n ≤ 2 * n + 10 := by
  cases p <;> simp only [stepsLeft] <;> omega

theorem stepsLeft_afterAttempt (n : ℕ) (m : MessageEnvelope) (k : ℕ) (r : ReceiveResult) :
    1 + (afterAttempt n m k r).stepsLeft n ≤ (DispatchPhase.receiving m k).stepsLeft n := by
  unfold afterAttempt
  split_ifs <;> simp only [DispatchPhase.stepsLeft] <;> omega

/-- **Every step of a cancelled loop is paid for.** -/
theorem LoopEffect.stepsLeft (h : LoopEffect q s p q' p' evs)
    (hc : (q.cancellation s).isCancellationRequested = true) :
    1 + p'.stepsLeft q.retryCount ≤ p.stepsLeft q.retryCount := by
  cases h with
  | checkPasses _ hc' => exact absurd (hc.symm.trans hc') (by simp)
  | @attemptThrows m k _ =>
    have hpaid := stepsLeft_afterAttempt q.retryCount m k (.error .objectDisposed)
    simp only [DispatchPhase.stepsLeft] at hpaid ⊢
    omega
  | _ =>
    simp only [DispatchPhase.stepsLeft]
    omega

/-- **Every action of a loop is paid for**, if it is cancelled once it has been started. -/
theorem Effect.stepsLeft_of_ofLoop (h : Effect σ a σ' evs)
    (hc : σ.loops s = .notStarted ∨ (σ.queue.cancellation s).isCancellationRequested = true)
    (ha : a.ofLoop s = true) :
    1 + (σ'.loops s).stepsLeft σ.queue.retryCount ≤
      (σ.loops s).stepsLeft σ.queue.retryCount := by
  cases h with
  | @dispatch s' q p p' _ hp hle =>
    obtain rfl : s' = s := by simpa [Action.ofLoop] using ha
    rw [System.loops_moveLoop_self, hp]
    exact hle.stepsLeft (hc.resolve_left (hp ▸ hle.started.1))
  | @received s' m k hl r =>
    obtain rfl : s' = s := by simpa [Action.ofLoop] using ha
    rw [System.loops_moveLoop_self, hl]
    exact stepsLeft_afterAttempt _ m k r
  | @retried s' m b hl r =>
    obtain rfl : s' = s := by simpa [Action.ofLoop] using ha
    rw [System.loops_moveLoop_self, hl]
    rcases r with e | r
    · simp [afterManualRetry, DispatchPhase.stepsLeft]
    · cases b <;> simp [afterManualRetry, DispatchPhase.stepsLeft]
  | @failedHandled s' m hl r =>
    obtain rfl : s' = s := by simpa [Action.ofLoop] using ha
    rw [System.loops_moveLoop_self, hl]
    rcases r with e | b
    · simp [afterFailedHandler, DispatchPhase.stepsLeft]
    · cases b <;> simp [afterFailedHandler, DispatchPhase.stepsLeft]
  | _ => simp [Action.ofLoop] at ha

/-- What is not a loop's own does not move it. -/
theorem Effect.loops_of_not_ofLoop (h : Effect σ a σ' evs) (hcalls : a.opensOrCloses = false)
    (ha : a.ofLoop s = false) : σ'.loops s = σ.loops s := by
  cases h.loopStep s with
  | stays _ hl _ => exact hl
  | starts _ _ => simp [Action.opensOrCloses] at hcalls
  | _ => simp [Action.ofLoop] at ha

/-- Only `Subscribe` gives out a `Guid`. -/
theorem Effect.subscriberIds_eq (h : Effect σ a σ' evs) (hcalls : a.opensOrCloses = false) :
    σ'.subscriberIds = σ.subscriberIds := by
  cases h.lifecycleStep with
  | subscribe _ _ => simp [Action.opensOrCloses] at hcalls
  | same hsame => exact hsame.subscriberIds
  | _ => rfl

/-- **All the loops together** have one step less to take after each of theirs, and no more after
anything else. -/
theorem Effect.stepsLeft (h : Effect σ a σ' evs) (hcalls : a.opensOrCloses = false)
    (hc : ∀ s, σ.loops s = .notStarted ∨
      (σ.queue.cancellation s).isCancellationRequested = true)
    (hknown : ∀ s, σ.loops s ≠ .notStarted → s ∈ σ.subscriberIds) :
    (if a.ofSomeLoop then 1 else 0) + σ'.stepsLeft ≤ σ.stepsLeft := by
  rw [System.stepsLeft, System.stepsLeft, h.subscriberIds_eq hcalls, h.retryCount]
  by_cases ha : a.ofSomeLoop = true
  · obtain ⟨s, hs⟩ : ∃ s, a.ofLoop s = true := by
      cases a with
      | dispatch s | received s _ | failedHandled s _ => exact ⟨s, by simp [Action.ofLoop]⟩
      | _ => simp [Action.ofSomeLoop] at ha
    have hpaid := h.stepsLeft_of_ofLoop (hc s) hs
    have hmem : s ∈ σ.subscriberIds := by
      refine hknown s fun hl => ?_
      rw [hl, DispatchPhase.stepsLeft] at hpaid
      omega
    rw [if_pos ha, Nat.add_comm]
    refine List.sum_lt_sum _ _ (fun s' _ => ?_) ⟨s, hmem, Nat.one_add_le_iff.mp hpaid⟩
    by_cases hs' : a.ofLoop s' = true
    · exact (Nat.le_add_left _ 1).trans (h.stepsLeft_of_ofLoop (hc s') hs')
    · exact le_of_eq (congrArg _ (h.loops_of_not_ofLoop hcalls (by simpa using hs')))
  · have hnone : ∀ s, a.ofLoop s = false := by
      intro s
      cases a <;> simp_all [Action.ofSomeLoop, Action.ofLoop]
    rw [if_neg ha, Nat.zero_add]
    refine le_of_eq (congrArg List.sum (List.map_congr_left fun s _ => ?_))
    rw [h.loops_of_not_ofLoop hcalls (hnone s)]

/-- The loops have no more than so many steps left for each. -/
theorem System.stepsLeft_le (σ : System) :
    σ.stepsLeft ≤ (2 * σ.queue.retryCount + 10) * σ.subscriberIds.length := by
  have hle := List.sum_le_card_nsmul
    (σ.subscriberIds.map fun s => (σ.loops s).stepsLeft σ.queue.retryCount)
    (2 * σ.queue.retryCount + 10) (by
      intro x hx
      obtain ⟨s, -, rfl⟩ := List.mem_map.mp hx
      exact DispatchPhase.stepsLeft_le _ _)
  rw [List.length_map, Nat.nsmul_eq_mul, Nat.mul_comm] at hle
  exact hle

/-- Only the locked part of a pass says so. -/
theorem Effect.countP_isPass (h : Effect σ a σ' evs) (ha : a.ofPass = false) :
    evs.countP Event.isPass = 0 := by
  refine List.countP_eq_zero.mpr fun e he hpass => ?_
  cases e with
  | pruned gone =>
    have hprunes := h.of_pruned he
    cases a <;> simp_all [Action.prunes, Action.ofPass]
  | _ => simp [Event.isPass] at hpass

/-- Only a pass touches the list of passes. -/
theorem Effect.passes_eq (h : Effect σ a σ' evs) (ha : a.ofPass = false) :
    σ'.passes = σ.passes := by
  cases h with
  | beginPrune _ _ | prune _ => simp [Action.ofPass] at ha
  | _ => rfl

/-- A loop of a queue whose source has been disposed of calls nobody but `OnMessageReceiveAsync`,
in an attempt of the policy, and only if its own source has not been disposed of. -/
theorem Effect.calls_of_disposed {m : MessageEnvelope} {c : Caller} (h : Effect σ a σ' evs)
    (hd : σ.queue.cts.disposed = true) (hc : c.ofLoop = true) :
    (∀ e, .failedCalled s c m e ∉ evs) ∧ ∀ p, .receiveCalled s c m p ∈ evs →
      c = .dispatch ∧ (σ.queue.cancellation s).disposed = false ∧ σ.loops s ≠ .notStarted := by
  cases h.loopStep s with
  | stays _ _ hquiet =>
    exact ⟨fun e hmem => hquiet _ hmem ⟨rfl, Caller.ofLoop_iff.mp hc⟩,
      fun p hmem => absurd ⟨rfl, Caller.ofLoop_iff.mp hc⟩ (hquiet _ hmem)⟩
  | dispatch hl =>
    have hstarted := hl.started.1
    generalize σ.loops s = p₀, σ'.loops s = p', σ'.queue = q' at hl hstarted
    cases hl with
    | failed hd' | manualRetry hd' => exact absurd (hd.symm.trans hd') (by simp)
    | attempt hown =>
      refine ⟨by simp, fun p hmem => ?_⟩
      obtain ⟨rfl, -, -⟩ := by simpa using hmem
      exact ⟨rfl, hown, hstarted⟩
    | _ => simp
  | _ => simp

end Loops

/-! ### One step of the closing system -/

section Closing

variable {ω ω' : ClosingSystem} {a : ClosingAction} {evs : List Event} {s : Guid}

theorem ClosingEffect.retryCount (h : ClosingEffect ω a ω' evs) :
    ω'.system.queue.retryCount = ω.system.queue.retryCount := by
  cases h with
  | system _ hstep => exact (effect_of_step hstep).retryCount
  | dispose hstep =>
    obtain ⟨σ, calls, pending, phase⟩ := ω
    cases hstep <;> rfl
  | _ => rfl

/-- A `Guid` that has been given out stays so. -/
theorem ClosingEffect.known (h : ClosingEffect ω a ω' evs) (hs : s ∈ ω.system.subscriberIds) :
    s ∈ ω'.system.subscriberIds := by
  cases h with
  | system ha hstep => exact (sameFor_of_step ha hstep).known.mpr hs
  | subscribe _ => exact List.mem_cons_of_mem _ hs
  | _ => exact hs

/-- Only a step of a pass touches the list of passes, and says that it was one. -/
theorem ClosingEffect.of_not_ofPass (h : ClosingEffect ω a ω' evs) (ha : a.ofPass = false) :
    ω'.system.passes = ω.system.passes ∧ evs.countP Event.isPass = 0 := by
  cases h with
  | system _ hstep =>
    exact ⟨(effect_of_step hstep).passes_eq ha, (effect_of_step hstep).countP_isPass ha⟩
  | _ => exact ⟨rfl, rfl⟩

/-- **A closed queue pays for every step of a loop.** -/
theorem Closed.stepsLeft (h : Closed ω) (hacc : ∀ s, AccountedFor s ω)
    (heff : ClosingEffect ω a ω' evs) :
    (if a.ofSomeLoop then 1 else 0) + ω'.system.stepsLeft ≤ ω.system.stepsLeft := by
  cases heff with
  | system ha hstep =>
    exact (effect_of_step hstep).stepsLeft ha h.loops fun s hs => (hacc s).started_known hs
  | @subscribe s hnew =>
    -- the new subscriber has no loop yet
    have hidle : ω.system.loops s = .notStarted := by
      by_contra hl
      exact hnew ((hacc s).started_known hl)
    simp [ClosingAction.ofSomeLoop, System.stepsLeft, hidle, DispatchPhase.stepsLeft,
      SubscribableQueue.addSubscriber]
  | @subscribing a _ _ ha _ _ =>
    cases a with
    | system b => exact absurd rfl (ha b)
    | _ => simp [ClosingAction.ofSomeLoop, System.stepsLeft]
  | startLoop _ hcts _ => exact absurd (h.queue.symm.trans hcts) (by simp)
  | dispose hstep =>
    obtain ⟨σ, calls, pending, phase⟩ := ω
    cases hstep <;>
      simp [ClosingAction.ofSomeLoop, System.stepsLeft, SubscribableQueue.setCancellation,
        SubscribableQueue.setCursor]
  | _ =>
    simp [ClosingAction.ofSomeLoop, System.stepsLeft, SubscribableQueue.setCancellation,
      SubscribableQueue.setCursor]

/-- Once its source has been disposed of, a queue has no loop call anybody but in an attempt of the
policy, and only if the loop's own source has not been disposed of. -/
theorem ClosingEffect.calls_of_disposed {m : MessageEnvelope} {c : Caller}
    (h : ClosingEffect ω a ω' evs) (hd : ω.system.queue.cts.disposed = true)
    (hc : c.ofLoop = true) :
    (∀ e, .failedCalled s c m e ∉ evs) ∧ ∀ p, .receiveCalled s c m p ∈ evs →
      c = .dispatch ∧ (ω.system.queue.cancellation s).disposed = false ∧
        ω.system.loops s ≠ .notStarted := by
  cases h with
  | system _ hstep => exact (effect_of_step hstep).calls_of_disposed hd hc
  | _ => simp

/-! #### What `Dispose` has disposed of -/

/-- **How far `Dispose` has come, where no callback has thrown**: after its first `try` block the
source of the queue is disposed of; and a registered subscriber whose loop has been started is
still to come in the snapshot, or `Dispose` has just cancelled its source, or the source is disposed
of. -/
structure DisposedFor (s : Guid) (ω : ClosingSystem) : Prop where
  queue : ω.disposing = .notCalled ∨ ω.disposing = .cancelledQueue ∨
    ω.system.queue.cts.disposed = true
  cursor : ∀ remaining, ω.disposing.remaining = some remaining →
    ω.system.loops s ≠ .notStarted → s ∈ ω.system.queue.subscribers →
    s ∈ remaining ∨ ω.disposing = .closingCursor s remaining ∨
      (ω.system.queue.cancellation s).disposed = true

/-- A transition that neither moves `Dispose` nor starts the loop nor registers the subscriber, and
after which its source is a later one. -/
theorem DisposedFor.of_later (h : DisposedFor s ω) (hd : ω'.disposing = ω.disposing)
    (hcts : ω.system.queue.cts.Later ω'.system.queue.cts)
    (hl : ω.system.loops s = .notStarted → ω'.system.loops s = .notStarted)
    (hreg : s ∈ ω'.system.queue.subscribers → s ∈ ω.system.queue.subscribers)
    (hc : (ω.system.queue.cancellation s).Later (ω'.system.queue.cancellation s)) :
    DisposedFor s ω' := by
  refine ⟨?_, fun remaining hrem hs hmem => ?_⟩
  · rw [hd]
    exact h.queue.imp id (Or.imp id hcts.disposed)
  · rw [hd] at hrem ⊢
    exact (h.cursor remaining hrem (mt hl hs) (hreg hmem)).imp id (Or.imp id hc.disposed)

/-- **One step of `Dispose`**, out of which nothing comes. -/
theorem DisposedFor.dispose {q : SubscribableQueue} {p : DisposePhase} (h : DisposedFor s ω)
    (heff : DisposeEffect ω.system.queue .dispose ω.disposing q p) :
    DisposedFor s { ω with system := { ω.system with queue := q }, disposing := p } := by
  obtain ⟨σ, calls, pending, phase⟩ := ω
  obtain ⟨hqueue, hcursor⟩ := h
  have hdone (h₀ : phase ≠ .notCalled) (h₁ : phase ≠ .cancelledQueue) :
      σ.queue.cts.disposed = true := (hqueue.resolve_left h₀).resolve_left h₁
  cases heff with
  | queueThrows hdis => exact ⟨Or.inr (Or.inr hdis), by simp [DisposePhase.remaining]⟩
  | cancelQueue => exact ⟨Or.inr (Or.inl rfl), by simp [DisposePhase.remaining]⟩
  | disposeQueue => exact ⟨Or.inr (Or.inr rfl), by simp [DisposePhase.remaining]⟩
  | snapshot =>
    refine ⟨Or.inr (Or.inr (hdone (by simp) (by simp))), ?_⟩
    rintro _ ⟨⟩ - hmem
    exact Or.inl hmem
  | returns =>
    refine ⟨Or.inr (Or.inr (hdone (by simp) (by simp))), ?_⟩
    rintro _ ⟨⟩ hs hmem
    simpa using hcursor [] rfl hs hmem
  | @cursorThrows s' rest hdis =>
    refine ⟨Or.inr (Or.inr (hdone (by simp) (by simp))), ?_⟩
    rintro _ ⟨⟩ hs hmem
    rcases hcursor _ rfl hs hmem with hrest | hnow | hdis'
    · rcases List.mem_cons.mp hrest with rfl | hrest
      · exact Or.inr (Or.inr hdis)
      · exact Or.inl hrest
    · simp at hnow
    · exact Or.inr (Or.inr hdis')
  | @cancelCursor s' rest =>
    refine ⟨Or.inr (Or.inr (hdone (by simp) (by simp))), ?_⟩
    rintro _ ⟨⟩ hs hmem
    rcases eq_or_ne s s' with rfl | hne
    · exact Or.inr (Or.inl rfl)
    · rw [SubscribableQueue.cancellation_setCancellation_of_ne hne]
      rcases hcursor _ rfl hs hmem with hrest | hnow | hdis'
      · exact Or.inl (List.mem_of_ne_of_mem hne hrest)
      · simp at hnow
      · exact Or.inr (Or.inr hdis')
  | @disposeCursor s' rest =>
    refine ⟨Or.inr (Or.inr (hdone (by simp) (by simp))), ?_⟩
    rintro _ ⟨⟩ hs hmem
    rcases eq_or_ne s s' with rfl | hne
    · simp
    · rw [SubscribableQueue.cancellation_setCancellation_of_ne hne]
      rcases hcursor _ rfl hs hmem with hrest | hnow | hdis'
      · exact Or.inl hrest
      · simp [hne.symm] at hnow
      · exact Or.inr (Or.inr hdis')

/-- **One step** in which no callback throws. -/
theorem DisposedFor.step (h : DisposedFor s ω) (hq : QueueCancelled ω) (hacc : AccountedFor s ω)
    (heff : ClosingEffect ω a ω' evs) (hno : a ≠ .callbackThrows) : DisposedFor s ω' := by
  have hcts := heff.later_cts
  cases heff with
  | system ha hstep =>
    have hsame := sameFor_of_step (s := s) ha hstep
    exact h.of_later rfl hcts hsame.loop.mpr hsame.registered.mp (.of_eq hsame.cancellation)
  | @subscribe s' hnew =>
    rcases eq_or_ne s s' with rfl | hne
    · -- nobody has started its loop
      refine ⟨h.queue, fun _ _ hl _ => ?_⟩
      exact absurd (hacc.started_known hl) hnew
    · refine h.of_later rfl hcts id (fun hmem => ?_) (.of_eq ?_)
      · simpa [SubscribableQueue.addSubscriber, hne] using hmem
      · exact SubscribableQueue.cancellation_addSubscriber_of_ne hne
  | @startLoop s' _ hnot _ =>
    rcases eq_or_ne s s' with rfl | hne
    · refine ⟨h.queue, fun rest hrest _ _ => ?_⟩
      -- no loop is started once `Dispose` has begun
      have hcan := hq.disposing fun hnone => by
        change ω.disposing.remaining = some rest at hrest
        simp [hnone, DisposePhase.remaining] at hrest
      exact absurd (hnot.symm.trans hcan) (by simp)
    · exact h.of_later rfl hcts (by simp [System.moveLoop, hne]) id (.of_eq rfl)
  | removeSubscriber _ => exact h.of_later rfl hcts id List.mem_of_mem_filter (.of_eq rfl)
  | cancelSubscriber _ =>
    exact h.of_later rfl hcts id id
      (SubscribableQueue.later_setCancellation ⟨fun _ => rfl, id⟩)
  | @dispose a _ _ hstep =>
    cases a with
    | dispose => exact h.dispose hstep
    | callbackThrows => exact absurd rfl hno
    | _ => cases hstep
  | _ => exact h.of_later rfl hcts id id (.of_eq rfl)

variable {ttl : TimeSpan} {n : ℕ} {tr : ClosingTrace}

theorem disposedFor_of_run (h : Run closingStep (.init ttl n) tr ω)
    (hno : ∀ t ∈ tr, t.act ≠ .callbackThrows) (s : Guid) : DisposedFor s ω := by
  refine h.invariantOn (I := fun _ ω => DisposedFor s ω) ?_ ?_ hno
  · exact ⟨Or.inl rfl, by simp [ClosingSystem.init, DisposePhase.remaining]⟩
  · intro tr ω a evs ω' hrun hi hs hact
    obtain ⟨hq, hacc⟩ := accountedFor_of_run hrun
    exact hi.step hq (hacc s) (closingEffect_of_step hs) hact

/-- What has been disposed of stays so. -/
theorem disposed_of_run {ω₀ : ClosingSystem} (h : Run closingStep ω₀ tr ω)
    (hcts : ω₀.system.queue.cts.disposed = true) :
    ω.system.queue.cts.disposed = true ∧
      (s ∈ ω₀.system.subscriberIds → (ω₀.system.queue.cancellation s).disposed = true →
        (ω.system.queue.cancellation s).disposed = true) := by
  refine ⟨h.stateInvariant (I := fun ω => ω.system.queue.cts.disposed = true) hcts
    fun _ _ _ _ hi hs => (closingEffect_of_step hs).later_cts.disposed hi, fun hs hdis => ?_⟩
  refine (h.stateInvariant (I := fun ω => s ∈ ω.system.subscriberIds ∧
    (ω.system.queue.cancellation s).disposed = true) ⟨hs, hdis⟩ ?_).2
  rintro ω a evs ω' ⟨hs, hdis⟩ hstep
  have heff := closingEffect_of_step hstep
  exact ⟨heff.known hs, (heff.later hs).disposed hdis⟩

end Closing

/-! ### After `Dispose` -/

/-- What holds once `Dispose` has returned and no `Unsubscribe` has a cursor in hand. -/
structure TaskSystem.AtRest (n : ℕ) (ω : TaskSystem) : Prop where
  closed : Closed ω.closing
  accounted : ∀ s, AccountedFor s ω.closing
  queueCancelled : QueueCancelled ω.closing
  retryCount : ω.closing.system.queue.retryCount = n

section Tasks

variable {ω ω' : TaskSystem} {a : TaskAction} {evs : List Event} {n : ℕ}

/-- **One transition keeps it so.** -/
theorem TaskSystem.AtRest.step (h : ω.AtRest n) (hs : taskStep ω a = some (ω', evs)) :
    ω'.AtRest n := by
  rcases (taskEffect_of_step hs).closing_cases with ⟨b, -, hstep⟩ | ⟨-, hsame, -⟩
  · have heff := closingEffect_of_step hstep
    exact ⟨h.closed.step h.accounted heff, fun s => (h.accounted s).step h.queueCancelled heff,
      h.queueCancelled.step heff, heff.retryCount.trans h.retryCount⟩
  · obtain ⟨hclosed, hacc, hq, hn⟩ := h
    exact ⟨hsame ▸ hclosed, hsame ▸ hacc, hsame ▸ hq, hsame ▸ hn⟩

/-- **Every step of a loop and of the task is paid for.** -/
theorem TaskSystem.AtRest.stepsLeft (h : ω.AtRest n) (hs : taskStep ω a = some (ω', evs)) :
    (if a.ofWorker then 1 else 0) + (ω'.closing.system.stepsLeft + ω'.task.stepsLeft) ≤
      ω.closing.system.stepsLeft + ω.task.stepsLeft := by
  have hloops {b : ClosingAction} {c : ClosingSystem} {evs : List Event}
      (hstep : closingStep ω.closing b = some (c, evs)) :
      (if b.ofSomeLoop then 1 else 0) + c.system.stepsLeft ≤ ω.closing.system.stepsLeft :=
    h.closed.stepsLeft h.accounted (closingEffect_of_step hstep)
  cases taskEffect_of_step hs with
  | closing _ hstep =>
    have hpaid := hloops hstep
    rw [TaskAction.ofWorker]
    dsimp only
    omega
  | begins _ _ hc | goesOn _ _ hc => exact absurd (h.closed.queue.symm.trans hc) (by simp)
  | ends _ ht =>
    rcases ht with ht | ht
    · simp only [TaskAction.ofWorker, ht, PruneTask.stepsLeft, if_true]
      omega
    · simp only [TaskAction.ofWorker, ht, PruneTask.stepsLeft, if_true]
      omega
  | computes ht _ hstep | fails ht hstep | prunes ht _ hstep =>
    have hpaid := hloops hstep
    simp only [TaskAction.ofWorker, ht, PruneTask.stepsLeft, if_true] at hpaid ⊢
    omega

/-- **Every pass is paid for.** -/
theorem TaskSystem.AtRest.passesLeft (h : ω.AtRest n) (hs : taskStep ω a = some (ω', evs)) :
    evs.countP Event.isPass + ω'.task.passesLeft ≤ ω.task.passesLeft := by
  cases taskEffect_of_step hs with
  | closing hb hstep =>
    rw [((closingEffect_of_step hstep).of_not_ofPass hb).2, Nat.zero_add]
  | begins _ _ hc | goesOn _ _ hc => exact absurd (h.closed.queue.symm.trans hc) (by simp)
  | ends _ _ => simp [PruneTask.passesLeft]
  | computes ht _ _ | fails ht _ | prunes ht _ _ =>
    simp [ht, PruneTask.passesLeft, Event.isPass]

/-! #### The task is never stuck -/

/-- The task has put one cutoff into the list of passes while it is about to take the lock, and
there is none otherwise. -/
def TaskSystem.OnePass (ω : TaskSystem) : Prop :=
  ω.closing.system.passes.length = if ω.task = .locking then 1 else 0

theorem TaskSystem.OnePass.step (h : ω.OnePass) (hs : taskStep ω a = some (ω', evs)) :
    ω'.OnePass := by
  unfold OnePass at h ⊢
  cases taskEffect_of_step hs with
  | closing hb hstep => rwa [((closingEffect_of_step hstep).of_not_ofPass hb).1]
  | begins _ ht _ | goesOn _ ht _ | fails ht _ => simpa [ht] using h
  | ends _ ht => rcases ht with ht | ht <;> simpa [ht] using h
  | computes ht hpasses _ => simpa [ht, hpasses] using h
  | prunes ht hpasses _ =>
    simp [hpasses, show ω.closing.system.passes.length = 1 by simpa [ht] using h]

/-- **The task always has a step to take**, until it has ended. -/
theorem TaskSystem.OnePass.isSome_taskStep (h : ω.OnePass) (hend : ω.task ≠ .ended)
    (utcNow : DateTime) : (taskStep ω (.task utcNow)).isSome := by
  unfold OnePass at h
  cases ht : ω.task with
  | ended => exact absurd ht hend
  | scheduled | checking => simp [taskStep, ht, PruneTask.action]
  | computing =>
    have hpass := closingStep_of_ofPass (c := ω.closing) (b := .beginPrune utcNow) rfl
    cases hcut : ω.closing.system.queue.cutoff utcNow <;>
      simp [taskStep, ht, PruneTask.action, hpass, PushDeliveredQueue.step, hcut]
  | locking =>
    have hpass := closingStep_of_ofPass (c := ω.closing) (b := .prune 0) rfl
    rw [ht, if_pos rfl] at h
    obtain ⟨cutoff, hcutoff⟩ := List.length_eq_one_iff.mp h
    simp [taskStep, ht, PruneTask.action, hpass, PushDeliveredQueue.step, hcutoff]

end Tasks

section Runs

variable {ttl : TimeSpan} {n : ℕ} {pre post : TaskTrace} {ω ω₀ : TaskSystem}

theorem onePass_of_run (h : TaskRun ttl n pre ω) : ω.OnePass :=
  h.stateInvariant (I := TaskSystem.OnePass)
    (by simp [TaskSystem.OnePass, TaskSystem.init, ClosingSystem.init, System.init])
    fun _ _ _ _ hi hs => hi.step hs

/-- The state in which `Dispose` and the `Unsubscribe` calls leave the queue. -/
theorem TaskSystem.atRest_of_returned (h : TaskRun ttl n pre ω)
    (hret : ω.closing.disposing = .returned) (hun : ω.closing.unsubscribing = []) :
    ω.AtRest n := by
  have hrun : Run closingStep (.init ttl n) _ _ := closingRun_of_taskRun h
  obtain ⟨hq, hacc⟩ := accountedFor_of_run hrun
  refine ⟨closed_of_returned hrun hret hun, hacc, hq, ?_⟩
  exact hrun.stateInvariant (I := fun ω => ω.system.queue.retryCount = n) rfl
    fun _ _ _ _ hi hs => (closingEffect_of_step hs).retryCount.trans hi

/-- **The steps of the loops and of the task** from then on. -/
theorem TaskSystem.AtRest.workerSteps_le (h₀ : ω₀.AtRest n) (h : Run taskStep ω₀ post ω) :
    post.countP (·.act.ofWorker) ≤
      (2 * n + 10) * ω₀.closing.system.subscriberIds.length + 3 := by
  have htotal := (h.amortized (I := TaskSystem.AtRest n) (G := fun _ => True)
    (fun ω => ω.closing.system.stepsLeft + ω.task.stepsLeft)
    (fun t => if t.act.ofWorker then 1 else 0) (fun _ => 0)
    (fun ω a evs ω' hi hs _ => ⟨hi.step hs, hi.stepsLeft hs⟩) h₀ fun _ _ => trivial).2
  have hloops := ω₀.closing.system.stepsLeft_le
  have htask : ω₀.task.stepsLeft ≤ 3 := by
    cases ω₀.task <;> simp [PruneTask.stepsLeft]
  rw [h₀.retryCount] at hloops
  rw [sum_map_indicator, List.map_const', List.sum_replicate, Nat.nsmul_eq_mul,
    Nat.mul_zero] at htotal
  omega

/-- **The passes** from then on. -/
theorem TaskSystem.AtRest.passes_le (h₀ : ω₀.AtRest n) (h : Run taskStep ω₀ post ω) :
    (events post).countP Event.isPass ≤ 1 := by
  have htotal := (h.budget (I := TaskSystem.AtRest n) Event.isPass (fun ω => ω.task.passesLeft)
    (fun ω a evs ω' hi hs => ⟨hi.step hs, hi.passesLeft hs⟩) h₀).2
  have htask : ω₀.task.passesLeft ≤ 1 := by
    cases ω₀.task <;> simp [PruneTask.passesLeft]
  omega

/-- **The calls of the loops** from then on, where no callback has thrown out of `Dispose`: no loop
calls the failure handler, and only one whose subscriber had been taken out of the dictionary calls
the other. -/
theorem TaskSystem.calls_of_returned {t : Transition TaskSystem TaskAction Event} {s : Guid}
    {c : Caller} (hpre : TaskRun ttl n pre ω₀) (hret : ω₀.closing.disposing = .returned)
    (hun : ω₀.closing.unsubscribing = []) (hno : ∀ t ∈ pre, t.act ≠ .closing .callbackThrows)
    (h : Run taskStep ω₀ post t.pre) (hs : taskStep t.pre t.act = some (t.post, t.out))
    (hc : c.ofLoop = true) (m : MessageEnvelope) :
    (∀ e, .failedCalled s c m e ∉ t.out) ∧ ∀ p, .receiveCalled s c m p ∈ t.out → c = .dispatch ∧
      s ∈ ω₀.closing.system.subscriberIds ∧ s ∉ ω₀.closing.system.queue.subscribers := by
  have hrun : Run closingStep (.init ttl n) _ _ := closingRun_of_taskRun hpre
  have hrun' := closingRun_of_taskRun h
  have hdone := disposedFor_of_run hrun (callbackThrows_notMem hno) s
  have hcts : ω₀.closing.system.queue.cts.disposed = true := by simpa [hret] using hdone.queue
  obtain ⟨hcts', hkeeps⟩ := disposed_of_run (s := s) hrun' hcts
  rcases (taskEffect_of_step hs).closing_cases with ⟨b, -, hb⟩ | ⟨-, -, hnil⟩
  · obtain ⟨hfailed, hreceive⟩ :=
      (closingEffect_of_step hb).calls_of_disposed (m := m) (s := s) hcts' hc
    refine ⟨hfailed, fun p hmem => ?_⟩
    obtain ⟨hc', hown, hstarted⟩ := hreceive p hmem
    -- its loop was running by the time `Dispose` returned
    have hstarted₀ : ω₀.closing.system.loops s ≠ .notStarted := by
      have hclosed := closed_of_returned hrun hret hun
      exact fun hl => hstarted ((hclosed.of_run hrun hrun').2 s hl)
    have hknown := ((accountedFor_of_run hrun).2 s).started_known hstarted₀
    refine ⟨hc', hknown, fun hreg => ?_⟩
    have hrem : ω₀.closing.disposing.remaining = some [] := by rw [hret]; rfl
    have hdis : (ω₀.closing.system.queue.cancellation s).disposed = true := by
      simpa [hret] using hdone.cursor [] hrem hstarted₀ hreg
    exact absurd (hown.symm.trans (hkeeps hknown hdis)) (by simp)
  · simp [hnil]

/-- **The queue comes to rest after `Dispose`.** From any state on in which it has returned and no
`Unsubscribe` call is between its `TryRemove` and its `Cancel`, the dispatch loops and the pruning
task together take at most `2 n + 10` steps for every subscriber there has been, and three for the
task; at most one prune pass is made; and if no callback has thrown out of a `Cancel` of `Dispose`,
no loop calls the failure handler or makes an extra attempt, and the only ones that still call
`OnMessageReceiveAsync` are those of subscribers that had left by then. And none of them is ever
stuck: whoever has not come to his end has a step to take, or awaits an answer. -/
theorem shutdown_bounded (hpre : TaskRun ttl n pre ω₀) (hret : ω₀.closing.disposing = .returned)
    (hun : ω₀.closing.unsubscribing = []) (hpost : Run taskStep ω₀ post ω) :
    post.countP (·.act.ofWorker) ≤
      (2 * n + 10) * ω₀.closing.system.subscriberIds.length + 3 ∧
    (events post).countP Event.isPass ≤ 1 ∧
    ((∀ t ∈ pre, t.act ≠ .closing .callbackThrows) → ∀ t ∈ post, ∀ s c m, c.ofLoop = true →
      (∀ e, .failedCalled s c m e ∉ t.out) ∧
      ∀ p, .receiveCalled s c m p ∈ t.out → c = .dispatch ∧
        s ∈ ω₀.closing.system.subscriberIds ∧ s ∉ ω₀.closing.system.queue.subscribers) ∧
    (∀ s, (ω.closing.system.loops s).Running →
      ∃ a, a.ofLoop s = true ∧ (taskStep ω (.closing (.system a))).isSome) ∧
    (ω.task ≠ .ended → ∀ utcNow, (taskStep ω (.task utcNow)).isSome) := by
  have hrest := TaskSystem.atRest_of_returned hpre hret hun
  refine ⟨hrest.workerSteps_le hpost, hrest.passes_le hpost, ?_, ?_, ?_⟩
  · intro hno t ht s c m hc
    obtain ⟨mid, rest, rfl, hmid, hs, -⟩ := hpost.of_mem ht
    exact TaskSystem.calls_of_returned hpre hret hun hno hmid hs hc m
  · intro s hs
    obtain ⟨a, ha, hsome⟩ := hs.exists_step
    obtain ⟨x, hx⟩ := Option.isSome_iff_exists.mp hsome
    have hpass : a.ofPass = false ∧ a.opensOrCloses = false := by
      cases a <;> simp_all [Action.ofLoop, Action.ofPass, Action.opensOrCloses]
    exact ⟨a, ha, by simp [taskStep, closingStep, ClosingAction.ofPass, hpass, hx]⟩
  · exact (onePass_of_run (hpre.append hpost)).isSome_taskStep

/-- A run up to the return of a `Dispose` that comes in the middle of a pass and of two deliveries,
one of which belongs to a subscriber that an `Unsubscribe` has in hand until `Dispose` is over. -/
def midwayDispose : List TaskAction :=
  [.closing (.subscribe 7), .closing (.readQueueToken 7), .closing (.linkTokens 7),
    .closing (.startLoop 7), .closing (.subscribe 8), .closing (.readQueueToken 8),
    .closing (.linkTokens 8), .closing (.startLoop 8), .closing (.system (.enqueue 1 10 none)),
    .task 0, .task 0] ++ List.replicate 3 (.closing (.system (.dispatch 7))) ++
    List.replicate 3 (.closing (.system (.dispatch 8))) ++ [.closing (.removeSubscriber 8)] ++
    List.replicate 6 (.closing .dispose) ++ [.closing (.cancelSubscriber 8)]

/-- The theorem after that run: pass and deliveries are finished, and the loop of the subscriber
that has left makes one more attempt on the way. -/
theorem shutdown_bounded_midway : ∃ pre ω₀ post ω, TaskRun 5 1 pre ω₀ ∧
    ω₀.closing.disposing = .returned ∧ Run taskStep ω₀ post ω ∧
    post.countP (·.act.ofWorker) = 10 ∧
    post.countP (·.act.ofWorker) ≤
      (2 * 1 + 10) * ω₀.closing.system.subscriberIds.length + 3 ∧
    (events post).countP Event.isPass = 1 ∧
    .receiveCalled 8 .dispatch ⟨1, 10⟩ none ∈ events post ∧
    (∀ t ∈ post, ∀ s c m, c.ofLoop = true → (∀ e, .failedCalled s c m e ∉ t.out) ∧
      ∀ p, .receiveCalled s c m p ∈ t.out → c = .dispatch ∧
        s ∈ ω₀.closing.system.subscriberIds ∧ s ∉ ω₀.closing.system.queue.subscribers) ∧
    ω.task = .ended ∧ ω.closing.system.loops 7 = .faulted ∧
    ω.closing.system.loops 8 = .faulted := by
  have h : TaskRun 5 1 _ _ := run_exec midwayDispose (by decide)
  have hpost := run_exec (s := stateOf taskStep (TaskSystem.init 5 1) midwayDispose)
    [.task 20, .task 20, .task 20, .closing (.system (.received 8 (.ok .nack))),
      .closing (.system (.dispatch 8)), .closing (.system (.received 8 (.ok .nack))),
      .closing (.system (.dispatch 8)), .closing (.system (.received 7 (.ok .ack))),
      .closing (.system (.dispatch 7)), .closing (.system (.dispatch 7))]
    (show (exec taskStep _ _).isSome by decide)
  obtain ⟨hsteps, -, hcalls, -⟩ := shutdown_bounded h rfl rfl hpost
  exact ⟨_, _, _, _, h, rfl, hpost, by decide, hsteps, by decide, by decide,
    hcalls (by decide), by decide, by decide, by decide⟩

end Runs

end PushDeliveredQueue
