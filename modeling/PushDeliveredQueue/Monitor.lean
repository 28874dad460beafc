import PushDeliveredQueue.Delivery
import PushDeliveredQueue.Snapshot

/-!
# Monitoring the queue

`QueueMonitoringService` of the UI asks the API for the state of the queue every two seconds, when
monitoring is started, and when somebody clicks on a button; what it gets it keeps in
`CurrentState`, for the page to show. A refresh does not wait for the one before it, nor does
`StopMonitoring` wait for any.

`PushDeliveredQueue.monitorStep` is the observed queue with such a service and its refreshes, each
with a `GetState` call of its own. What the page shows is always the answer to a refresh that was
begun while the queue was monitored, and it is true in all its parts, though not at one instant
(`PushDeliveredQueue.monitor_truthful`). Refreshes that overlap can bring the page back to an older
state; without them it shows the states in the order in which they were there
(`PushDeliveredQueue.monitor_in_order`). Once monitoring has been stopped the page changes at most
once for every refresh that was under way (`PushDeliveredQueue.monitor_settles`).
-/

namespace PushDeliveredQueue

open Transitions

/-! ### The service -/

/-- A `RefreshStateAsync` call that has found `IsMonitoring` set. -/
inductive Refresh where
  /-- `GetQueueStateAsync` has sent its request. -/
  | requested
  /-- The API is serving it, in the `GetState` call of this number. -/
  | serving (call : ℕ)
  /-- What `GetQueueStateAsync` has returned. -/
  | answered (newState : Option SubscribableQueueStateDto)
  /-- `CurrentState` has been set. -/
  | shown (newState : SubscribableQueueStateDto)
  | ended
  deriving DecidableEq

/-- How far a refresh has got. -/
def Refresh.stage : Refresh → ℕ
  | .requested => 0
  | .serving _ => 1
  | .answered _ => 2
  | .shown _ => 3
  | .ended => 4

/-- The observed queue, with a `QueueMonitoringService`. -/
structure Monitor where
  observed : ObservedSystem
  isMonitoring : Bool := false
  currentState : Option SubscribableQueueStateDto := none
  lastRefresh : DateTime := 0
  /-- The refreshes ever begun, in this order. -/
  refreshes : List Refresh := []

/-- A new queue that is not monitored yet. -/
def Monitor.init (ttl : TimeSpan) (retryCount : ℕ) : Monitor where
  observed := ObservedSystem.init ttl retryCount

/-- What can happen next. -/
inductive MonitorAction where
  /-- The queue, or a `GetState` call, the monitor's or another one. -/
  | observed (action : ObservedAction)
  | startMonitoring
  | stopMonitoring
  /-- `RefreshStateAsync` is called, by the timer or by the page. -/
  | refreshState
  /-- `Dispose`. A tick of the timer that is already there may still follow. -/
  | dispose
  /-- The API gets the request of this refresh. -/
  | getQueueState (refresh : ℕ)
  /-- It answers, with the clock readings of `ToExternalDto`. -/
  | answer (refresh : ℕ) (utcNow : Guid → DateTime)
  /-- The request or the answer is lost. -/
  | lose (refresh : ℕ)
  /-- The refresh goes on with what `GetQueueStateAsync` has returned. -/
  | setCurrentState (refresh : ℕ)
  /-- It sets `LastRefresh` and raises `StateChanged`. -/
  | notify (refresh : ℕ) (utcNow : DateTime)

instance : ∀ a : MonitorAction, Decidable (a = .startMonitoring)
  | .startMonitoring => isTrue rfl
  | .observed _ | .stopMonitoring | .refreshState | .dispose | .getQueueState _ | .answer _ _
  | .lose _ | .setCurrentState _ | .notify _ _ => isFalse nofun

/-- What one sees of the monitored queue. -/
inductive MonitorEvent where
  | queue (event : Event)
  /-- `GetState` is called for this refresh. -/
  | getState (refresh : ℕ)
  | currentState (refresh : ℕ) (newState : SubscribableQueueStateDto)
  | stateChanged (refresh : ℕ) (newState : SubscribableQueueStateDto)

namespace Monitor

variable (μ : Monitor)

/-- `RefreshStateAsync`, up to its request. -/
def refreshState : Monitor :=
  if μ.isMonitoring then { μ with refreshes := μ.refreshes ++ [.requested] } else μ

/-- A refresh gets further. -/
def setRefresh (k : ℕ) (r : Refresh) : Monitor := { μ with refreshes := μ.refreshes.set k r }

end Monitor

/-- What a `GetState` call returns. -/
def GetStateCall.state (c : GetStateCall) (ttl : TimeSpan) : SubscribableQueueState where
  ttl := ttl
  buffer := c.buffer
  subscribers := c.subscribers

/-- **The transition function of the monitored queue.** -/
def monitorStep (μ : Monitor) : MonitorAction → Option (Monitor × List MonitorEvent)
  | .observed a =>
    match observedStep μ.observed a with
    | some (ω, evs) => some ({ μ with observed := ω }, evs.map .queue)
    | none => none
  | .startMonitoring =>
    if μ.isMonitoring then some (μ, [])
    else some (({ μ with isMonitoring := true } : Monitor).refreshState, [])
  | .stopMonitoring | .dispose => some ({ μ with isMonitoring := false }, [])
  | .refreshState => some (μ.refreshState, [])
  | .getQueueState k =>
    match μ.refreshes[k]?, observedStep μ.observed .copyBuffer with
    | some .requested, some (ω, _) =>
      some (({ μ with observed := ω } : Monitor).setRefresh k (.serving μ.observed.calls.length),
        [.getState k])
    | _, _ => none
  | .answer k utcNow =>
    match μ.refreshes[k]? with
    | some (.serving call) =>
      match μ.observed.calls[call]? with
      | some c =>
        if c.returned then
          -- an exception of `ToExternalDto` becomes one of the request
          let newState := toExternalDto utcNow (c.state μ.observed.system.queue.ttl)
          some (μ.setRefresh k (.answered newState.toOption), [])
        else none
      | none => none
    | _ => none
  | .lose k =>
    match μ.refreshes[k]? with
    | some .requested | some (.serving _) => some (μ.setRefresh k (.answered none), [])
    | _ => none
  | .setCurrentState k =>
    match μ.refreshes[k]? with
    | some (.answered none) => some (μ.setRefresh k .ended, [])
    | some (.answered (some newState)) =>
      some (({ μ with currentState := some newState } : Monitor).setRefresh k (.shown newState),
        [.currentState k newState])
    | _ => none
  | .notify k utcNow =>
    match μ.refreshes[k]? with
    | some (.shown newState) =>
      some (({ μ with lastRefresh := utcNow } : Monitor).setRefresh k .ended,
        [.stateChanged k newState])
    | _ => none

/-- The transitions of the monitored queue. -/
abbrev MonitorTrace := List (Transition Monitor MonitorAction MonitorEvent)

/-- The runs of a monitored queue. -/
abbrev MonitorRun (ttl : TimeSpan) (n : ℕ) (tr : MonitorTrace) (μ : Monitor) : Prop :=
  Run monitorStep (.init ttl n) tr μ

/-- The refreshes the API has been asked for, in the order in which it was. -/
def askedOf (evs : List MonitorEvent) : List ℕ :=
  evs.filterMap fun
    | .getState k => some k
    | _ => none

/-- The states the page was given, each with its refresh. -/
def shownOf (evs : List MonitorEvent) : List (ℕ × SubscribableQueueStateDto) :=
  evs.filterMap fun
    | .currentState k newState => some (k, newState)
    | _ => none

/-! ### What a transition does -/

/-- **What a transition of the monitored queue does.** -/
inductive MonitorEffect (μ : Monitor) : MonitorAction → List MonitorEvent → Monitor → Prop
  | observed {a ω evs} (h : observedStep μ.observed a = some (ω, evs)) :
      MonitorEffect μ (.observed a) (evs.map .queue) { μ with observed := ω }
  /-- Monitoring goes on, is stopped, or is not what a refresh finds. -/
  | switch {a} (on : Bool) (hon : on = true → μ.isMonitoring = true) :
      MonitorEffect μ a [] { μ with isMonitoring := on }
  /-- A refresh is begun. -/
  | refresh {a} (ha : μ.isMonitoring = true ∨ a = .startMonitoring) :
      MonitorEffect μ a []
        { μ with isMonitoring := true, refreshes := μ.refreshes ++ [.requested] }
  | getState {k ω evs} (hk : μ.refreshes[k]? = some .requested)
      (h : observedStep μ.observed .copyBuffer = some (ω, evs)) :
      MonitorEffect μ (.getQueueState k) [.getState k]
        (({ μ with observed := ω } : Monitor).setRefresh k (.serving μ.observed.calls.length))
  | answer {k utcNow call c} (hk : μ.refreshes[k]? = some (.serving call))
      (hc : μ.observed.calls[call]? = some c) (hdone : c.returned = true) :
      MonitorEffect μ (.answer k utcNow) []
        (μ.setRefresh k (.answered
          (toExternalDto utcNow (c.state μ.observed.system.queue.ttl)).toOption))
  /-- A refresh comes to nothing, now or when it goes on. -/
  | giveUp {a k r r'} (hk : μ.refreshes[k]? = some r) (hr : r.stage < 3)
      (hr' : r' = .answered none ∨ r' = .ended) (hstage : r.stage < r'.stage) :
      MonitorEffect μ a [] (μ.setRefresh k r')
  | setCurrentState {k newState} (hk : μ.refreshes[k]? = some (.answered (some newState))) :
      MonitorEffect μ (.setCurrentState k) [.currentState k newState]
        (({ μ with currentState := some newState } : Monitor).setRefresh k (.shown newState))
  | notify {k newState utcNow} (hk : μ.refreshes[k]? = some (.shown newState)) :
      MonitorEffect μ (.notify k utcNow) [.stateChanged k newState]
        (({ μ with lastRefresh := utcNow } : Monitor).setRefresh k .ended)

section Monitoring

variable {μ μ' : Monitor} {a : MonitorAction} {evs evs' : List MonitorEvent} {ttl : TimeSpan}
  {n : ℕ} {tr : MonitorTrace} {k : ℕ} {r : Refresh}

@[simp] theorem askedOf_append : askedOf (evs ++ evs') = askedOf evs ++ askedOf evs' :=
  List.filterMap_append

@[simp] theorem shownOf_append : shownOf (evs ++ evs') = shownOf evs ++ shownOf evs' :=
  List.filterMap_append

theorem mem_askedOf : k ∈ askedOf evs ↔ .getState k ∈ evs := by
  rw [askedOf, List.mem_filterMap]
  constructor
  · rintro ⟨ev, hev, hk⟩
    cases ev with
    | getState k' =>
      obtain rfl := Option.some.inj hk
      exact hev
    | _ => cases hk
  · exact fun h => ⟨_, h, rfl⟩

/-- What happens to the queue is not the monitor's. -/
theorem ofQueue (evs : List Event) :
    askedOf (evs.map .queue) = [] ∧ shownOf (evs.map .queue) = [] := by
  constructor <;> induction evs with
  | nil => rfl
  | cons _ _ ih => exact ih

theorem effect_of_monitorStep (h : monitorStep μ a = some (μ', evs)) :
    MonitorEffect μ a evs μ' := by
  cases a with
  | observed a =>
    simp only [monitorStep] at h
    split at h
    · next ω evs hstep =>
      obtain ⟨rfl, rfl⟩ := Prod.ext_iff.mp (Option.some.inj h)
      exact .observed hstep
    · cases h
  | startMonitoring =>
    simp only [monitorStep] at h
    split_ifs at h with hon
    · obtain ⟨rfl, rfl⟩ := Prod.ext_iff.mp (Option.some.inj h)
      exact .switch μ.isMonitoring id
    · obtain ⟨rfl, rfl⟩ := Prod.ext_iff.mp (Option.some.inj h)
      exact .refresh (Or.inr rfl)
  | stopMonitoring | dispose =>
    obtain ⟨rfl, rfl⟩ := Prod.ext_iff.mp (Option.some.inj h)
    exact .switch false (by simp)
  | refreshState =>
    obtain ⟨rfl, rfl⟩ := Prod.ext_iff.mp (Option.some.inj h)
    simp only [Monitor.refreshState]
    split_ifs with hon
    · have heff : MonitorEffect μ .refreshState [] _ := .refresh (Or.inl hon)
      rwa [← hon] at heff
    · exact .switch μ.isMonitoring id
  | getQueueState k =>
    simp only [monitorStep] at h
    split at h
    · next ω evs hk hstep =>
      obtain ⟨rfl, rfl⟩ := Prod.ext_iff.mp (Option.some.inj h)
      exact .getState hk hstep
    · cases h
  | answer k utcNow =>
    simp only [monitorStep] at h
    split at h
    · next call hk =>
      split at h
      · next c hc =>
        split_ifs at h with hdone
        obtain ⟨rfl, rfl⟩ := Prod.ext_iff.mp (Option.some.inj h)
        exact .answer hk hc hdone
      · cases h
    · cases h
  | lose k =>
    simp only [monitorStep] at h
    split at h
    · next hk =>
      obtain ⟨rfl, rfl⟩ := Prod.ext_iff.mp (Option.some.inj h)
      exact .giveUp hk (by decide) (Or.inl rfl) (by decide)
    · next call hk =>
      obtain ⟨rfl, rfl⟩ := Prod.ext_iff.mp (Option.some.inj h)
      exact .giveUp hk (by simp [Refresh.stage]) (Or.inl rfl) (by simp [Refresh.stage])
    · cases h
  | setCurrentState k =>
    simp only [monitorStep] at h
    split at h
    · next hk =>
      obtain ⟨rfl, rfl⟩ := Prod.ext_iff.mp (Option.some.inj h)
      exact .giveUp hk (by decide) (Or.inr rfl) (by decide)
    · next newState hk =>
      obtain ⟨rfl, rfl⟩ := Prod.ext_iff.mp (Option.some.inj h)
      exact .setCurrentState hk
    · cases h
  | notify k utcNow =>
    simp only [monitorStep] at h
    split at h
    · next newState hk =>
      obtain ⟨rfl, rfl⟩ := Prod.ext_iff.mp (Option.some.inj h)
      exact .notify hk
    · cases h

/-! ### The order of the refreshes -/

/-- One refresh gets further, and the others stay where they are. -/
theorem stage_set {l : List Refresh} {k₀ : ℕ} {r₀ r₁ : Refresh} (hk₀ : l[k₀]? = some r₀)
    (hle : r₀.stage ≤ r₁.stage) (hk : l[k]? = some r) :
    ∃ r', (l.set k₀ r₁)[k]? = some r' ∧ r.stage ≤ r'.stage := by
  by_cases hkk : k₀ = k
  · subst hkk
    obtain rfl := Option.some.inj (hk₀.symm.trans hk)
    have hlt := (List.getElem?_eq_some_iff.mp hk).1
    exact ⟨r₁, by simp [hlt], hle⟩
  · exact ⟨r, by rw [List.getElem?_set_ne hkk, hk], le_rfl⟩

/-- Refreshes only get further. -/
theorem MonitorEffect.stage_le (h : MonitorEffect μ a evs μ') (hk : μ.refreshes[k]? = some r) :
    ∃ r', μ'.refreshes[k]? = some r' ∧ r.stage ≤ r'.stage := by
  cases h with
  | observed _ | switch _ _ => exact ⟨r, hk, le_rfl⟩
  | refresh _ =>
    have hlt := (List.getElem?_eq_some_iff.mp hk).1
    exact ⟨r, (List.getElem?_append_left hlt).trans hk, le_rfl⟩
  | getState hk₀ _ | answer hk₀ _ _ | setCurrentState hk₀ | notify hk₀ =>
    exact stage_set hk₀ (by simp [Refresh.stage]) hk
  | giveUp hk₀ _ _ hstage => exact stage_set hk₀ hstage.le hk

/-- Refreshes that have got somewhere stay there. -/
theorem MonitorEffect.stage_mono (h : MonitorEffect μ a evs μ') {m : ℕ}
    (hk : ∃ r, μ.refreshes[k]? = some r ∧ m ≤ r.stage) :
    ∃ r, μ'.refreshes[k]? = some r ∧ m ≤ r.stage := by
  obtain ⟨r, hr, hm⟩ := hk
  obtain ⟨r', hr', hle⟩ := h.stage_le hr
  exact ⟨r', hr', hm.trans hle⟩

/-- A refresh that has been given no state is not one that has. -/
theorem shown_of_set {l : List Refresh} {k₀ : ℕ} {r₁ : Refresh} (hr₁ : r₁.stage ≠ 3)
    {newState : SubscribableQueueStateDto} (hk : (l.set k₀ r₁)[k]? = some (.shown newState)) :
    l[k]? = some (.shown newState) := by
  rw [List.getElem?_set] at hk
  split_ifs at hk
  · obtain rfl := Option.some.inj hk
    exact absurd rfl hr₁
  · exact hk

/-- The API is asked once for a refresh. -/
structure AskedOnce (asked : List ℕ) (μ : Monitor) : Prop where
  stage : ∀ k ∈ asked, ∃ r, μ.refreshes[k]? = some r ∧ 1 ≤ r.stage
  nodup : asked.Nodup

theorem AskedOnce.step {asked : List ℕ} (h : AskedOnce asked μ)
    (heff : MonitorEffect μ a evs μ') : AskedOnce (asked ++ askedOf evs) μ' := by
  have hquiet : askedOf evs = [] → AskedOnce (asked ++ askedOf evs) μ' := by
    intro hno
    rw [hno, List.append_nil]
    exact ⟨fun k hk => heff.stage_mono (h.stage k hk), h.nodup⟩
  cases heff with
  | observed _ => exact hquiet (ofQueue _).1
  | @getState k₀ ω _ hk₀ hstep =>
    have hlt := (List.getElem?_eq_some_iff.mp hk₀).1
    have hnew : k₀ ∉ asked := by
      intro hmem
      obtain ⟨r, hr, hstage⟩ := h.stage k₀ hmem
      obtain rfl := Option.some.inj (hk₀.symm.trans hr)
      exact absurd hstage (by decide)
    rw [show askedOf [.getState k₀] = [k₀] from rfl]
    refine ⟨fun k hk => ?_, List.nodup_append'.mpr ⟨h.nodup, List.nodup_singleton _, ?_⟩⟩
    · rcases List.mem_append.mp hk with hk | hk
      · exact (MonitorEffect.getState hk₀ hstep).stage_mono (h.stage k hk)
      · obtain rfl := List.mem_singleton.mp hk
        exact ⟨_, List.getElem?_set_self hlt, le_rfl⟩
    · exact List.disjoint_singleton.mpr hnew
  | _ => exact hquiet rfl

/-- The page is given the state of a refresh once, and told once. -/
structure ShownOnce (shown : List (ℕ × SubscribableQueueStateDto)) (μ : Monitor) : Prop where
  stage : ∀ p ∈ shown, ∃ r, μ.refreshes[p.1]? = some r ∧ 3 ≤ r.stage
  nodup : (shown.map (·.1)).Nodup
  showing : ∀ k newState, μ.refreshes[k]? = some (.shown newState) → (k, newState) ∈ shown
  current : μ.currentState = shown.getLast?.map (·.2)

theorem ShownOnce.step {shown : List (ℕ × SubscribableQueueStateDto)} (h : ShownOnce shown μ)
    (heff : MonitorEffect μ a evs μ') : ShownOnce (shown ++ shownOf evs) μ' := by
  have hquiet : shownOf evs = [] → μ'.currentState = μ.currentState →
      (∀ (k : ℕ) newState, μ'.refreshes[k]? = some (.shown newState) →
        μ.refreshes[k]? = some (.shown newState)) → ShownOnce (shown ++ shownOf evs) μ' := by
    intro hno hcur hshown
    rw [hno, List.append_nil]
    exact ⟨fun p hp => heff.stage_mono (h.stage p hp), h.nodup,
      fun k newState hk => h.showing k newState (hshown k newState hk), hcur.trans h.current⟩
  cases heff with
  | observed _ => exact hquiet (ofQueue _).2 rfl fun _ _ hk => hk
  | switch _ _ => exact hquiet rfl rfl fun _ _ hk => hk
  | refresh _ =>
    refine hquiet rfl rfl fun k newState hk => ?_
    rw [List.getElem?_append] at hk
    split_ifs at hk
    · exact hk
    · rw [List.getElem?_singleton] at hk
      split_ifs at hk
      cases hk
  | getState _ _ | answer _ _ _ | notify _ =>
    exact hquiet rfl rfl fun _ _ hk => shown_of_set (by simp [Refresh.stage]) hk
  | giveUp _ _ hr' _ =>
    refine hquiet rfl rfl fun _ _ hk => shown_of_set ?_ hk
    rcases hr' with rfl | rfl <;> simp [Refresh.stage]
  | @setCurrentState k₀ newState₀ hk₀ =>
    have hlt := (List.getElem?_eq_some_iff.mp hk₀).1
    have hnew : k₀ ∉ shown.map (·.1) := by
      intro hmem
      obtain ⟨p, hp, rfl⟩ := List.mem_map.mp hmem
      obtain ⟨r, hr, hstage⟩ := h.stage p hp
      obtain rfl := Option.some.inj (hk₀.symm.trans hr)
      exact absurd hstage (by simp [Refresh.stage])
    rw [show shownOf [.currentState k₀ newState₀] = [(k₀, newState₀)] from rfl]
    refine ⟨fun p hp => ?_, ?_, fun k newState hk => ?_, by simp [Monitor.setRefresh]⟩
    · rcases List.mem_append.mp hp with hp | hp
      · exact (MonitorEffect.setCurrentState hk₀).stage_mono (h.stage p hp)
      · obtain rfl := List.mem_singleton.mp hp
        exact ⟨_, List.getElem?_set_self hlt, le_rfl⟩
    · rw [List.map_append]
      exact List.nodup_append'.mpr ⟨h.nodup, List.nodup_singleton _,
        List.disjoint_singleton.mpr hnew⟩
    · refine List.mem_append.mpr ?_
      by_cases hkk : k₀ = k
      · subst hkk
        obtain h' := Option.some.inj ((List.getElem?_set_self hlt).symm.trans hk)
        obtain rfl := Refresh.shown.inj h'
        exact Or.inr (List.mem_singleton.mpr rfl)
      · exact Or.inl (h.showing k newState ((List.getElem?_set_ne hkk).symm.trans hk))

theorem askedOnce_of_run (h : MonitorRun ttl n tr μ) : AskedOnce (askedOf (events tr)) μ := by
  refine h.invariant (I := fun tr μ => AskedOnce (askedOf (events tr)) μ)
    ⟨by simp [askedOf], by simp [askedOf]⟩ ?_
  intro tr μ a evs μ' _ hi hs
  simpa using hi.step (effect_of_monitorStep hs)

theorem shownOnce_of_run (h : MonitorRun ttl n tr μ) : ShownOnce (shownOf (events tr)) μ := by
  refine h.invariant (I := fun tr μ => ShownOnce (shownOf (events tr)) μ)
    ⟨by simp [shownOf], by simp [shownOf], by simp [Monitor.init], rfl⟩ ?_
  intro tr μ a evs μ' _ hi hs
  simpa using hi.step (effect_of_monitorStep hs)

/-- `StateChanged` is raised with a state that has been shown. -/
theorem shown_of_stateChanged (h : MonitorRun ttl n tr μ) {newState : SubscribableQueueStateDto}
    (hk : .stateChanged k newState ∈ events tr) : (k, newState) ∈ shownOf (events tr) := by
  revert k newState
  refine h.invariant (I := fun tr _ => ∀ {k newState}, .stateChanged k newState ∈ events tr →
    (k, newState) ∈ shownOf (events tr)) (by simp) ?_
  intro tr μ a evs μ' hrun hi hs k newState hk
  rw [events_append, shownOf_append]
  rcases List.mem_append.mp (events_append _ _ ▸ hk) with hk | hk
  · exact List.mem_append_left _ (hi hk)
  · refine List.mem_append_left _ ((shownOnce_of_run hrun).showing k newState ?_)
    have heff := effect_of_monitorStep hs
    have hk : .stateChanged k newState ∈ evs := by simpa using hk
    cases heff with
    | notify hk₀ =>
      obtain ⟨rfl, rfl⟩ := by simpa using hk
      exact hk₀
    | _ => simp at hk

/-! ### What is shown -/

/-- The queue makes a run of its own, whoever monitors it. -/
theorem observedRun_of_monitorRun (h : MonitorRun ttl n tr μ) :
    ∃ tr', Run observedStep (.init ttl n) tr' μ.observed := by
  refine h.stateInvariant (I := fun μ => ∃ tr', Run observedStep (.init ttl n) tr' μ.observed)
    ⟨[], Run.nil⟩ ?_
  rintro μ a evs μ' ⟨tr', hrun⟩ hs
  cases effect_of_monitorStep hs with
  | observed hstep | getState _ hstep => exact ⟨_, hrun.snoc hstep⟩
  | _ => exact ⟨tr', hrun⟩

/-- What a transition of the queue does to a `GetState` call: nothing, or the call reads the entry
of a subscriber, or it has read all of them and returns. -/
theorem call_of_observedStep {ω ω' : ObservedSystem} {b : ObservedAction} {out : List Event}
    {call : ℕ} {c : GetStateCall} (h : observedStep ω b = some (ω', out))
    (hc : ω.calls[call]? = some c) : ∃ c', ω'.calls[call]? = some c' ∧ (c' = c ∨
      (∃ s ∈ ω.system.queue.subscribers, s ∉ c.visited ∧
        c' = { c with subscribers := c.subscribers ++
          [(s, ω.system.queue.subscriberState c.buffer.length s)] }) ∨
      ((∀ s ∈ c.known, s ∈ ω.system.queue.subscribers → s ∈ c.visited) ∧
        c' = { c with returned := true })) := by
  have hlt := (List.getElem?_eq_some_iff.mp hc).1
  cases b with
  | system b =>
    simp only [observedStep] at h
    split at h
    · obtain ⟨rfl, rfl⟩ := Prod.ext_iff.mp (Option.some.inj h)
      exact ⟨c, hc, Or.inl rfl⟩
    · cases h
  | copyBuffer =>
    obtain ⟨rfl, rfl⟩ := Prod.ext_iff.mp (Option.some.inj h)
    exact ⟨c, (List.getElem?_append_left hlt).trans hc, Or.inl rfl⟩
  | readSubscriber call' s =>
    simp only [observedStep] at h
    split at h
    · next c' hc' =>
      split_ifs at h with hread
      obtain ⟨rfl, rfl⟩ := Prod.ext_iff.mp (Option.some.inj h)
      by_cases hcall : call' = call
      · subst hcall
        obtain rfl := Option.some.inj (hc'.symm.trans hc)
        exact ⟨_, List.getElem?_set_self hlt, Or.inr (Or.inl ⟨s, hread.2.1, hread.2.2, rfl⟩)⟩
      · exact ⟨c, (List.getElem?_set_ne hcall).trans hc, Or.inl rfl⟩
    · cases h
  | returnState call' =>
    simp only [observedStep] at h
    split at h
    · next c' hc' =>
      split_ifs at h with hdone
      obtain ⟨rfl, rfl⟩ := Prod.ext_iff.mp (Option.some.inj h)
      by_cases hcall : call' = call
      · subst hcall
        obtain rfl := Option.some.inj (hc'.symm.trans hc)
        exact ⟨_, List.getElem?_set_self hlt, Or.inr (Or.inr ⟨hdone.2, rfl⟩)⟩
      · exact ⟨c, (List.getElem?_set_ne hcall).trans hc, Or.inl rfl⟩
    · cases h

/-- A refresh is begun, with monitoring on. -/
def Begun (tr : MonitorTrace) (k : ℕ) : Prop :=
  ∃ t ∈ tr, t.pre.refreshes.length = k ∧ t.post.refreshes.length = k + 1 ∧
    t.post.isMonitoring = true

/-- The API is in the `GetState` call of a refresh. -/
def During (t : Transition Monitor MonitorAction MonitorEvent) (k : ℕ) : Prop :=
  ∃ call, t.pre.refreshes[k]? = some (.serving call)

/-- **Where the result of a `GetState` call made for a refresh comes from**: the buffer is what it
was when the call was made, and the entry of a subscriber what it was at some instant of the call;
no subscriber is reported twice, and none is left out that was there when the call was made and
when it returned. -/
structure Gathered (tr : MonitorTrace) (k : ℕ) (c : GetStateCall) : Prop where
  buffer : ∃ t ∈ tr, .getState k ∈ t.out ∧ t.pre.observed.system.queue.copyBuffer = c.buffer ∧
    t.pre.observed.system.queue.subscribers = c.known
  subscribers : ∀ s e, (s, e) ∈ c.subscribers → ∃ t ∈ tr, During t k ∧
    s ∈ t.pre.observed.system.queue.subscribers ∧
    e = t.pre.observed.system.queue.subscriberState c.buffer.length s
  nodup : c.visited.Nodup
  complete : c.returned = true → ∃ t ∈ tr, During t k ∧
    ∀ s ∈ c.known, s ∈ t.pre.observed.system.queue.subscribers → s ∈ c.visited

theorem Gathered.append {tr' : MonitorTrace} {c : GetStateCall} (h : Gathered tr k c) :
    Gathered (tr ++ tr') k c := by
  have hmem : ∀ {P : Transition Monitor MonitorAction MonitorEvent → Prop},
      (∃ t ∈ tr, P t) → ∃ t ∈ tr ++ tr', P t :=
    fun ⟨t, ht, hP⟩ => ⟨t, List.mem_append_left _ ht, hP⟩
  exact ⟨hmem h.buffer, fun s e he => hmem (h.subscribers s e he), h.nodup,
    fun hdone => hmem (h.complete hdone)⟩

/-- **A state that is, or is about to be, shown**: what `ToExternalDto` has made of the result of
the `GetState` call of a refresh, with the clock readings it took when the API answered. -/
def Truthful (ttl : TimeSpan) (tr : MonitorTrace) (k : ℕ) (newState : SubscribableQueueStateDto) :
    Prop :=
  ∃ c utcNow, c.returned = true ∧ Gathered tr k c ∧ (∃ t ∈ tr, t.act = .answer k utcNow) ∧
    toExternalDto utcNow (c.state ttl) = .ok newState

theorem Truthful.append {tr' : MonitorTrace} {newState : SubscribableQueueStateDto}
    (h : Truthful ttl tr k newState) : Truthful ttl (tr ++ tr') k newState := by
  obtain ⟨c, utcNow, hdone, hgathered, ⟨t, ht, hact⟩, hdto⟩ := h
  exact ⟨c, utcNow, hdone, hgathered.append, ⟨t, List.mem_append_left _ ht, hact⟩, hdto⟩

/-- What is known of a refresh, with the `GetState` calls. -/
def Refresh.Sound (ttl : TimeSpan) (tr : MonitorTrace) (calls : List GetStateCall) (k : ℕ) :
    Refresh → Prop
  | .serving call => ∃ c, calls[call]? = some c ∧ Gathered tr k c
  | .answered (some newState) | .shown newState => Truthful ttl tr k newState
  | .requested | .answered none | .ended => True

/-- A `GetState` call that is under way for a refresh stays what it is, or gathers more. -/
theorem Gathered.observedStep {c : GetStateCall} {call : ℕ} {b : ObservedAction}
    {ω : ObservedSystem} {out : List Event} (h : Gathered tr k c)
    (hk : μ.refreshes[k]? = some (.serving call)) (hc : μ.observed.calls[call]? = some c)
    (hstep : observedStep μ.observed b = some (ω, out)) :
    ∃ c', ω.calls[call]? = some c' ∧ Gathered (tr ++ [⟨μ, a, evs, μ'⟩]) k c' := by
  have hduring : During ⟨μ, a, evs, μ'⟩ k := ⟨call, hk⟩
  have hold : Gathered (tr ++ [⟨μ, a, evs, μ'⟩]) k c := h.append
  obtain ⟨c', hc', rfl | ⟨s, hs, hnew, rfl⟩ | ⟨hall, rfl⟩⟩ := call_of_observedStep hstep hc
  · exact ⟨c', hc', hold⟩
  · have hvisited : GetStateCall.visited { c with subscribers := c.subscribers ++
        [(s, μ.observed.system.queue.subscriberState c.buffer.length s)] } = c.visited ++ [s] := by
      simp [GetStateCall.visited]
    refine ⟨_, hc', hold.buffer, fun s' e he => ?_, ?_, fun hdone => ?_⟩
    · rcases List.mem_append.mp he with he | he
      · exact hold.subscribers s' e he
      · obtain ⟨rfl, rfl⟩ := Prod.mk.inj (List.mem_singleton.mp he)
        exact ⟨_, List.mem_append_right _ (List.mem_singleton.mpr rfl), hduring, hs, rfl⟩
    · rw [hvisited]
      exact List.nodup_append'.mpr ⟨hold.nodup, List.nodup_singleton _,
        List.disjoint_singleton.mpr hnew⟩
    · obtain ⟨t, ht, hdur, hall⟩ := hold.complete hdone
      refine ⟨t, ht, hdur, fun s' hs' hreg => ?_⟩
      rw [hvisited]
      exact List.mem_append_left _ (hall s' hs' hreg)
  · exact ⟨_, hc', hold.buffer, hold.subscribers, hold.nodup, fun _ =>
      ⟨_, List.mem_append_right _ (List.mem_singleton.mpr rfl), hduring, hall⟩⟩

/-- **Every refresh keeps to what was there.** -/
theorem Refresh.Sound.step (hs : monitorStep μ a = some (μ', evs))
    (httl : μ.observed.system.queue.ttl = ttl)
    (h : ∀ (k : ℕ) r, μ.refreshes[k]? = some r → r.Sound ttl tr μ.observed.calls k)
    (hk : μ'.refreshes[k]? = some r) :
    r.Sound ttl (tr ++ [⟨μ, a, evs, μ'⟩]) μ'.observed.calls k := by
  -- a transition that leaves the calls of the refreshes under way to go on
  have hstay : ∀ {r : Refresh}, μ.refreshes[k]? = some r →
      (μ'.observed = μ.observed ∨ ∃ b out, observedStep μ.observed b = some (μ'.observed, out)) →
      r.Sound ttl (tr ++ [⟨μ, a, evs, μ'⟩]) μ'.observed.calls k := by
    intro r hr hobs
    have hsound := h k r hr
    cases r with
    | serving call =>
      obtain ⟨c, hc, hgathered⟩ := hsound
      rcases hobs with hobs | ⟨b, out, hstep⟩
      · exact ⟨c, hobs ▸ hc, hgathered.append⟩
      · exact hgathered.observedStep hr hc hstep
    | answered newState =>
      cases newState with
      | none => trivial
      | some newState => exact Truthful.append hsound
    | shown newState => exact Truthful.append hsound
    | requested | ended => trivial
  -- and one that takes a refresh further
  have hset : ∀ {k₀ : ℕ} {r₁ : Refresh}, μ'.refreshes = μ.refreshes.set k₀ r₁ →
      (μ'.observed = μ.observed ∨ ∃ b out, observedStep μ.observed b = some (μ'.observed, out)) →
      r₁.Sound ttl (tr ++ [⟨μ, a, evs, μ'⟩]) μ'.observed.calls k₀ →
      r.Sound ttl (tr ++ [⟨μ, a, evs, μ'⟩]) μ'.observed.calls k := by
    intro k₀ r₁ hrefreshes hobs hr₁
    rw [hrefreshes, List.getElem?_set] at hk
    split_ifs at hk with hkk
    · subst hkk
      obtain rfl := Option.some.inj hk
      exact hr₁
    · exact hstay hk hobs
  cases effect_of_monitorStep hs with
  | observed hstep => exact hstay hk (Or.inr ⟨_, _, hstep⟩)
  | switch _ _ => exact hstay hk (Or.inl rfl)
  | refresh _ =>
    rw [List.getElem?_append] at hk
    split_ifs at hk
    · exact hstay hk (Or.inl rfl)
    · rw [List.getElem?_singleton] at hk
      split_ifs at hk
      obtain rfl := Option.some.inj hk
      trivial
  | @getState k₀ ω out hk₀ hstep =>
    refine hset rfl (Or.inr ⟨_, _, hstep⟩) ?_
    obtain ⟨rfl, rfl⟩ := Prod.ext_iff.mp (Option.some.inj hstep)
    refine ⟨_, List.getElem?_concat_length, ⟨_, List.mem_append_right _
      (List.mem_singleton.mpr rfl), by simp, rfl, rfl⟩, by simp, List.nodup_nil, by simp⟩
  | @answer k₀ utcNow call c hk₀ hc hdone =>
    refine hset rfl (Or.inl rfl) ?_
    cases hdto : toExternalDto utcNow (c.state μ.observed.system.queue.ttl) with
    | error e => trivial
    | ok newState =>
      obtain ⟨c', hc', hgathered⟩ := h k₀ _ hk₀
      obtain rfl := Option.some.inj (hc.symm.trans hc')
      exact ⟨c, utcNow, hdone, hgathered.append,
        ⟨_, List.mem_append_right _ (List.mem_singleton.mpr rfl), rfl⟩, httl ▸ hdto⟩
  | giveUp _ _ hr' _ =>
    refine hset rfl (Or.inl rfl) ?_
    rcases hr' with rfl | rfl <;> trivial
  | setCurrentState hk₀ => exact hset rfl (Or.inl rfl) (Truthful.append (h _ _ hk₀))
  | notify _ => exact hset rfl (Or.inl rfl) trivial

theorem sound_of_run (h : MonitorRun ttl n tr μ) (hk : μ.refreshes[k]? = some r) :
    r.Sound ttl tr μ.observed.calls k := by
  revert k r
  refine h.invariant (I := fun tr μ => ∀ {k : ℕ} {r : Refresh}, μ.refreshes[k]? = some r →
    r.Sound ttl tr μ.observed.calls k) (by simp [Monitor.init]) ?_
  intro tr μ a evs μ' hrun hi hs k r hk
  obtain ⟨_, hobserved⟩ := observedRun_of_monitorRun hrun
  obtain ⟨_, hsystem⟩ := runOf_of_observed hobserved
  exact Refresh.Sound.step hs (options_of_run hsystem).1 (fun _ _ hk => hi hk) hk

/-- A refresh is begun with monitoring on. -/
theorem begun_of_run (h : MonitorRun ttl n tr μ) (hk : k < μ.refreshes.length) : Begun tr k := by
  revert k
  refine h.invariant (I := fun tr μ => ∀ {k : ℕ}, k < μ.refreshes.length → Begun tr k)
    (by simp [Monitor.init]) ?_
  intro tr μ a evs μ' _ hi hs k hk
  have hold : k < μ.refreshes.length → Begun (tr ++ [⟨μ, a, evs, μ'⟩]) k := fun hlt => by
    obtain ⟨t, ht, hbegun⟩ := hi hlt
    exact ⟨t, List.mem_append_left _ ht, hbegun⟩
  cases effect_of_monitorStep hs with
  | observed _ | switch _ _ => exact hold hk
  | refresh _ =>
    rcases Nat.lt_succ_iff_lt_or_eq.mp (by simpa using hk) with hlt | rfl
    · exact hold hlt
    · exact ⟨_, List.mem_append_right _ (List.mem_singleton.mpr rfl), rfl, by simp, rfl⟩
  | _ => exact hold (by simpa [Monitor.setRefresh] using hk)

theorem truthful_of_run (h : MonitorRun ttl n tr μ) {newState : SubscribableQueueStateDto}
    (hk : (k, newState) ∈ shownOf (events tr)) : Truthful ttl tr k newState := by
  revert k newState
  refine h.invariant (I := fun tr _ => ∀ {k newState}, (k, newState) ∈ shownOf (events tr) →
    Truthful ttl tr k newState) (by simp [shownOf]) ?_
  intro tr μ a evs μ' hrun hi hs k newState hk
  rw [events_append, shownOf_append] at hk
  rcases List.mem_append.mp hk with hk | hk
  · exact (hi hk).append
  · have hk : (k, newState) ∈ shownOf evs := by simpa using hk
    cases effect_of_monitorStep hs with
    | observed _ => simp [(ofQueue _).2] at hk
    | setCurrentState hk₀ =>
      obtain ⟨rfl, rfl⟩ := by simpa [shownOf] using hk
      exact Truthful.append (sound_of_run hrun hk₀)
    | _ => simp [shownOf] at hk

/-- **What the page shows.** It shows the state of the refresh that was last given to it; no refresh
gives it a state twice, and `StateChanged` is raised with states it has been given. Every such state
is the answer to a refresh begun with monitoring on: the buffer is that of the queue when the API
called `GetState` for it, and every subscriber's part what it was at some instant of that call; and
how long a message has left is what it had by a clock reading of that answer. -/
theorem monitor_truthful (h : MonitorRun ttl n tr μ) :
    μ.currentState = (shownOf (events tr)).getLast?.map (·.2) ∧
      ((shownOf (events tr)).map (·.1)).Nodup ∧
      (∀ k newState, .stateChanged k newState ∈ events tr → (k, newState) ∈ shownOf (events tr)) ∧
      ∀ k newState, (k, newState) ∈ shownOf (events tr) → Begun tr k ∧
        ∃ c utcNow, c.returned = true ∧ Gathered tr k c ∧ (∃ t ∈ tr, t.act = .answer k utcNow) ∧
          toExternalDto utcNow (c.state ttl) = .ok newState := by
  have hshown := shownOnce_of_run h
  refine ⟨hshown.current, hshown.nodup, fun k newState hk => shown_of_stateChanged h hk,
    fun k newState hk => ⟨?_, truthful_of_run h hk⟩⟩
  obtain ⟨r, hr, -⟩ := hshown.stage _ hk
  exact begun_of_run h (List.getElem?_eq_some_iff.mp hr).1

/-- A subscriber, a message, and a refresh. -/
def oneRefresh : List MonitorAction :=
  [.observed (.system (.subscribe 7)), .observed (.system (.enqueue 1 10 none)), .startMonitoring,
    .getQueueState 0, .observed (.readSubscriber 0 7), .observed (.returnState 0),
    .answer 0 fun _ => 11, .setCurrentState 0, .notify 0 12]

/-- The theorem at a single refresh. -/
theorem monitor_truthful_once : ∃ tr μ newState, MonitorRun 5 0 tr μ ∧
    μ.currentState = some newState ∧ newState.subscribers.map (·.1) = [7] ∧
    newState.buffer.map (·.expiresIn) = ["in 0 sec"] ∧ Begun tr 0 := by
  have h : MonitorRun 5 0 _ _ := run_exec oneRefresh (by decide)
  exact ⟨_, _, _, h, rfl, by decide, by decide,
    ((monitor_truthful h).2.2.2 0 _ (List.mem_singleton.mpr rfl)).1⟩

/-! ### In what order -/

/-- A transition that begins a refresh while another one is under way. -/
def Overlaps (t : Transition Monitor MonitorAction MonitorEvent) : Prop :=
  t.pre.refreshes.length < t.post.refreshes.length ∧ ∃ r ∈ t.pre.refreshes, r ≠ .ended

instance (t : Transition Monitor MonitorAction MonitorEvent) : Decidable (Overlaps t) :=
  inferInstanceAs (Decidable (_ ∧ _))

/-- Only the last refresh can be under way. -/
def OneAtATime (μ : Monitor) : Prop :=
  ∀ (k : ℕ) r, μ.refreshes[k]? = some r → k + 1 < μ.refreshes.length → r = .ended

theorem OneAtATime.step (h : OneAtATime μ) (heff : MonitorEffect μ a evs μ')
    (hno : ¬ Overlaps ⟨μ, a, evs, μ'⟩) : OneAtATime μ' := by
  have hset : ∀ {k₀ : ℕ} {r₀ r₁ : Refresh}, μ.refreshes[k₀]? = some r₀ → r₀ ≠ .ended →
      μ'.refreshes = μ.refreshes.set k₀ r₁ → OneAtATime μ' := by
    intro k₀ r₀ r₁ hk₀ hr₀ hset k r hk hlt
    rw [hset] at hk hlt
    rw [List.length_set] at hlt
    rw [List.getElem?_set] at hk
    split_ifs at hk with hkk
    · subst hkk
      exact absurd (h k₀ r₀ hk₀ hlt) hr₀
    · exact h k r hk hlt
  cases heff with
  | observed _ | switch _ _ => exact h
  | refresh _ =>
    intro k r hk hlt
    rw [List.length_append, List.length_singleton, Nat.add_lt_add_iff_right] at hlt
    rw [List.getElem?_append_left hlt] at hk
    by_contra hr
    exact hno ⟨by simp, r, List.mem_of_getElem? hk, hr⟩
  | getState hk₀ _ | answer hk₀ _ _ | setCurrentState hk₀ | notify hk₀ =>
    exact hset hk₀ (by simp) rfl
  | giveUp hk₀ hr _ _ =>
    refine hset hk₀ ?_ rfl
    rintro rfl
    simp [Refresh.stage] at hr

/-- A refresh that is under way comes after those that have got further. -/
theorem OneAtATime.lt (h : OneAtATime μ) (hk : μ.refreshes[k]? = some r) (hr : r ≠ .ended)
    {j m : ℕ} (hm : r.stage < m) (hj : ∃ r, μ.refreshes[j]? = some r ∧ m ≤ r.stage) : j < k := by
  obtain ⟨r', hr', hle⟩ := hj
  have hlast : ¬ k + 1 < μ.refreshes.length := fun hlt => hr (h k r hk hlt)
  have hlt := (List.getElem?_eq_some_iff.mp hr').1
  have hne : j ≠ k := by
    rintro rfl
    obtain rfl := Option.some.inj (hr'.symm.trans hk)
    omega
  omega

/-- A number behind smaller ones. -/
theorem pairwise_concat {ks : List ℕ} (h : ks.Pairwise (· < ·)) (hk : ∀ j ∈ ks, j < k) :
    (ks ++ [k]).Pairwise (· < ·) :=
  List.pairwise_append.mpr ⟨h, List.pairwise_singleton _ _, fun j hj _ hk' =>
    List.mem_singleton.mp hk' ▸ hk j hj⟩

/-- With one refresh at a time, the API is asked for them in their order. -/
theorem pairwise_askedOf (h : OneAtATime μ) (hasked : AskedOnce (askedOf evs) μ)
    (hsorted : (askedOf evs).Pairwise (· < ·)) (heff : MonitorEffect μ a evs' μ') :
    (askedOf (evs ++ evs')).Pairwise (· < ·) := by
  rw [askedOf_append]
  cases heff with
  | observed _ => rwa [(ofQueue _).1, List.append_nil]
  | getState hk₀ _ =>
    exact pairwise_concat hsorted fun j hj =>
      h.lt hk₀ (by simp) (m := 1) (by decide) (hasked.stage j hj)
  | _ => simpa [askedOf] using hsorted

/-- And the page is given states in their order. -/
theorem pairwise_shownOf (h : OneAtATime μ) (hshown : ShownOnce (shownOf evs) μ)
    (hsorted : ((shownOf evs).map (·.1)).Pairwise (· < ·)) (heff : MonitorEffect μ a evs' μ') :
    ((shownOf (evs ++ evs')).map (·.1)).Pairwise (· < ·) := by
  rw [shownOf_append, List.map_append]
  cases heff with
  | observed _ => rwa [(ofQueue _).2, List.map_nil, List.append_nil]
  | setCurrentState hk₀ =>
    refine pairwise_concat hsorted fun j hj => ?_
    obtain ⟨p, hp, rfl⟩ := List.mem_map.mp hj
    exact h.lt hk₀ (by simp) (m := 3) (by simp [Refresh.stage]) (hshown.stage p hp)
  | _ => simpa [shownOf] using hsorted

/-- **With one refresh at a time the page does not go back**: it is given the states in the order in
which the API was asked for them. -/
theorem monitor_in_order (h : MonitorRun ttl n tr μ) (hno : ∀ t ∈ tr, ¬ Overlaps t) :
    (askedOf (events tr)).Pairwise (· < ·) ∧
      ((shownOf (events tr)).map (·.1)).Sublist (askedOf (events tr)) := by
  have hsorted : OneAtATime μ ∧ (askedOf (events tr)).Pairwise (· < ·) ∧
      ((shownOf (events tr)).map (·.1)).Pairwise (· < ·) := by
    refine h.invariantOn (I := fun tr μ => OneAtATime μ ∧ (askedOf (events tr)).Pairwise (· < ·) ∧
      ((shownOf (events tr)).map (·.1)).Pairwise (· < ·))
      ⟨by simp [OneAtATime, Monitor.init], by simp [askedOf], by simp [shownOf]⟩ ?_ hno
    rintro tr μ a evs μ' hrun ⟨hone, hasked, hshown⟩ hs hno
    have heff := effect_of_monitorStep hs
    rw [events_append, events_cons, events_nil, List.append_nil]
    exact ⟨hone.step heff hno, pairwise_askedOf hone (askedOnce_of_run hrun) hasked heff,
      pairwise_shownOf hone (shownOnce_of_run hrun) hshown heff⟩
  obtain ⟨-, hasked, hshown⟩ := hsorted
  refine ⟨hasked, List.sublist_of_subperm_of_pairwise (List.subperm_of_subset ?_ ?_) hshown hasked⟩
  · exact hshown.imp fun hlt => hlt.ne
  · intro k hk
    obtain ⟨⟨k, newState⟩, hp, rfl⟩ := List.mem_map.mp hk
    obtain ⟨c, _, -, hgathered, -, -⟩ := truthful_of_run h hp
    obtain ⟨t, ht, hout, -⟩ := hgathered.buffer
    exact mem_askedOf.mpr (mem_events.mpr ⟨t, ht, hout⟩)

/-- The theorem at two refreshes, one after the other. -/
theorem monitor_in_order_twice : ∃ tr μ, MonitorRun 5 0 tr μ ∧ askedOf (events tr) = [0, 1] ∧
    ((shownOf (events tr)).map (·.1)).Sublist (askedOf (events tr)) := by
  have h : MonitorRun 5 0 _ _ := run_exec (oneRefresh ++ [.refreshState, .getQueueState 1,
    .observed (.readSubscriber 1 7), .observed (.returnState 1), .answer 1 fun _ => 13,
    .setCurrentState 1, .notify 1 14]) (by decide)
  exact ⟨_, _, h, by decide, (monitor_in_order h (by decide)).2⟩

/-- **A refresh can be overtaken** by a later one, and the page then goes back: it shows the message
first, and after that the empty buffer. -/
theorem monitor_overtaken : ∃ tr μ, MonitorRun 5 0 tr μ ∧
    (shownOf (events tr)).map (fun p => (p.1, p.2.buffer.length)) = [(1, 1), (0, 0)] := by
  have h : MonitorRun 5 0 _ _ := run_exec [.startMonitoring, .getQueueState 0, .refreshState,
    .observed (.system (.enqueue 1 10 none)), .getQueueState 1, .observed (.returnState 1),
    .answer 1 fun _ => 11, .setCurrentState 1, .observed (.returnState 0), .answer 0 fun _ => 11,
    .setCurrentState 0] (by decide)
  exact ⟨_, _, h, by decide⟩

/-! ### Once monitoring has been stopped -/

/-- The refreshes that can still give the page a state. -/
def Monitor.underWay (μ : Monitor) : ℕ := μ.refreshes.countP (·.stage < 3)

/-- A refresh that gets further does not make more of them under way. -/
theorem countP_set_stage {l : List Refresh} {k₀ : ℕ} {r₀ r₁ : Refresh} (hk₀ : l[k₀]? = some r₀)
    (hlt : r₀.stage < r₁.stage) :
    (l.set k₀ r₁).countP (·.stage < 3) + (if r₀.stage < 3 ∧ 3 ≤ r₁.stage then 1 else 0) =
      l.countP (·.stage < 3) := by
  obtain ⟨hlen, rfl⟩ := List.getElem?_eq_some_iff.mp hk₀
  rw [List.countP_set hlen]
  have hpos : l[k₀].stage < 3 → 0 < l.countP (·.stage < 3) := fun h =>
    List.countP_pos_iff.mpr ⟨_, List.getElem_mem hlen, by simpa using h⟩
  simp only [decide_eq_true_eq]
  split_ifs <;> omega

/-- While the queue is not monitored, what the page is given comes out of the refreshes under
way. -/
theorem MonitorEffect.underWay (h : MonitorEffect μ a evs μ') (hoff : μ.isMonitoring = false)
    (ha : a ≠ .startMonitoring) : μ'.isMonitoring = false ∧
      μ'.refreshes.length = μ.refreshes.length ∧
      (shownOf evs).length + μ'.underWay ≤ μ.underWay := by
  have hset : ∀ {k₀ : ℕ} {r₀ r₁ : Refresh}, μ.refreshes[k₀]? = some r₀ →
      μ'.refreshes = μ.refreshes.set k₀ r₁ → r₀.stage < r₁.stage →
      μ'.refreshes.length = μ.refreshes.length ∧ μ'.underWay ≤ μ.underWay := by
    intro k₀ r₀ r₁ hk₀ hset hlt
    have hcount := countP_set_stage hk₀ hlt
    rw [Monitor.underWay, Monitor.underWay, hset]
    exact ⟨List.length_set, by omega⟩
  cases h with
  | observed _ => exact ⟨hoff, rfl, by simp [(ofQueue _).2, Monitor.underWay]⟩
  | switch on hon =>
    refine ⟨?_, rfl, by simp [shownOf, Monitor.underWay]⟩
    cases on with
    | false => rfl
    | true => exact absurd (hon rfl) (by simp [hoff])
  | refresh hstart =>
    rcases hstart with hon | hstart
    · simp [hoff] at hon
    · exact absurd hstart ha
  | getState hk₀ _ | answer hk₀ _ _ | notify hk₀ =>
    obtain ⟨hlen, hle⟩ := hset hk₀ rfl (by simp [Refresh.stage])
    exact ⟨hoff, hlen, by simpa [shownOf] using hle⟩
  | giveUp hk₀ _ _ hstage =>
    obtain ⟨hlen, hle⟩ := hset hk₀ rfl hstage
    exact ⟨hoff, hlen, by simpa [shownOf] using hle⟩
  | @setCurrentState k₀ newState hk₀ =>
    have hcount := countP_set_stage hk₀
      (show Refresh.stage _ < (Refresh.shown newState).stage by simp [Refresh.stage])
    refine ⟨hoff, List.length_set, ?_⟩
    rw [if_pos ⟨by simp [Refresh.stage], by simp [Refresh.stage]⟩, Nat.add_comm] at hcount
    exact hcount.le

/-- **Once monitoring has been stopped** and as long as it is not started again, no refresh is
begun, and the page is given at most one state for every refresh that was under way. -/
theorem monitor_settles {pre post : MonitorTrace}
    {d : Transition Monitor MonitorAction MonitorEvent}
    (h : MonitorRun ttl n (pre ++ d :: post) μ) (hd : d.act = .stopMonitoring ∨ d.act = .dispose)
    (hno : ∀ t ∈ post, t.act ≠ .startMonitoring) :
    μ.isMonitoring = false ∧ μ.refreshes.length = d.pre.refreshes.length ∧
      (shownOf (events post)).length + μ.underWay ≤ d.pre.underWay := by
  obtain ⟨-, hstop, hrun⟩ := h.cut
  have hpost : d.post = { d.pre with isMonitoring := false } := by
    rcases hd with hd | hd <;> rw [hd] at hstop
    · exact (Prod.ext_iff.mp (Option.some.inj hstop)).1.symm
    · exact (Prod.ext_iff.mp (Option.some.inj hstop)).1.symm
  rw [hpost] at hrun
  refine hrun.invariantOn (I := fun tr μ => μ.isMonitoring = false ∧
    μ.refreshes.length = d.pre.refreshes.length ∧
      (shownOf (events tr)).length + μ.underWay ≤ d.pre.underWay) ⟨rfl, rfl, ?_⟩ ?_ hno
  · simp [shownOf, Monitor.underWay]
  · rintro tr μ a evs μ' - ⟨hoff, hlen, hle⟩ hs ha
    obtain ⟨hoff', hlen', hle'⟩ := (effect_of_monitorStep hs).underWay hoff ha
    refine ⟨hoff', hlen'.trans hlen, ?_⟩
    rw [events_append, events_cons, events_nil, List.append_nil, shownOf_append,
      List.length_append]
    change _ + (shownOf evs).length + _ ≤ _
    omega

/-- The theorem at a refresh that ends after monitoring has been stopped. -/
theorem monitor_settles_late : ∃ pre d post μ, MonitorRun 5 0 (pre ++ d :: post) μ ∧
    d.act = .stopMonitoring ∧ (shownOf (events post)).length = 1 ∧ μ.isMonitoring = false := by
  have h := (run_exec (s := Monitor.init 5 0) [.startMonitoring, .getQueueState 0]
    (show (exec monitorStep _ _).isSome by decide)).snoc (a := .stopMonitoring) rfl
  have hpost := h.append (run_exec [.observed (.returnState 0), .answer 0 fun _ => 11,
    .setCurrentState 0, .refreshState] (by decide))
  rw [List.append_assoc] at hpost
  exact ⟨_, _, _, _, hpost, rfl, by decide, (monitor_settles hpost (Or.inl rfl) (by decide)).1⟩

end Monitoring

end PushDeliveredQueue
