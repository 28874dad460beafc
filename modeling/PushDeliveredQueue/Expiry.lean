import PushDeliveredQueue.State
import PushDeliveredQueue.Delivery
import Mathlib.Tactic.Linarith

/-!
# The arithmetic of expiry

Two places decide when a message has expired. A prune pass compares its `CreatedAt` with the
cutoff `UtcNow - Ttl`; the state endpoint compares `CreatedAt + Ttl` with `UtcNow`. On paper that
is the same comparison. In ticks it is not, for two reasons.

* A `DateTime` has a first and a last tick, and the two sums leave its range at opposite ends. A
  `Ttl` may be any `TimeSpan`, and only those up to the age of the clock itself are safe on both
  sides (`PushDeliveredQueue.expiry_in_range_iff`). With a longer one every pass fails before it
  takes the lock, and nothing is ever pruned (`PushDeliveredQueue.never_pruned`).
* The pass keeps a message at the very instant of its expiry, which the endpoint calls expired
  already (`PushDeliveredQueue.labels_agree_iff`).
-/

namespace PushDeliveredQueue

open Transitions

/-! ### When the arithmetic throws -/

/-- The first tick of a year, in the Gregorian calendar. -/
def firstTickOfYear (year : ℤ) : DateTime :=
  (365 * (year - 1) + (year - 1) / 4 - (year - 1) / 100 + (year - 1) / 400) * ticksPerDay

/-- A clock reading between the years 2020 and 2100. -/
def ClockReading (utcNow : DateTime) : Prop :=
  firstTickOfYear 2020 ≤ utcNow ∧ utcNow < firstTickOfYear 2101

instance (utcNow : DateTime) : Decidable (ClockReading utcNow) :=
  inferInstanceAs (Decidable (_ ∧ _))

/-- The last tick of a `DateTime` is the last one of the year 9999. -/
example : firstTickOfYear 10000 = SubscribableQueue.maxTicks + 1 := by decide

namespace SubscribableQueue

variable {q : SubscribableQueue} {utcNow : DateTime}

theorem cutoff_eq_ok {cutoff : DateTime} :
    q.cutoff utcNow = .ok cutoff ↔ InDateTimeRange (utcNow - q.ttl) ∧ cutoff = utcNow - q.ttl := by
  have hcutoff : q.cutoff utcNow = if InDateTimeRange (utcNow - q.ttl) then
      .ok (utcNow - q.ttl) else .error .argumentOutOfRange := rfl
  by_cases h : InDateTimeRange (utcNow - q.ttl) <;> simp [hcutoff, h, eq_comm]

/-- **A prune pass computes its cutoff** exactly when that is in range. -/
theorem exists_cutoff : (∃ cutoff, q.cutoff utcNow = .ok cutoff) ↔
    InDateTimeRange (utcNow - q.ttl) := by
  simp [cutoff_eq_ok]

/-- **The state endpoint answers** exactly when every expiry in the buffer is in range. -/
theorem exists_toExternalDto_getState {utcNow : Guid → DateTime} :
    (∃ dto, toExternalDto utcNow q.getState = .ok dto) ↔
      ∀ m ∈ q.buffer, InDateTimeRange (m.createdAt + q.ttl) := by
  have h := @exists_toExternalDto utcNow q.getState fun _ => True
  simp only [and_true] at h
  rw [h]
  simp [getState, copyBuffer, copyEnvelope]

end SubscribableQueue

/-- A cutoff is in range for every clock reading and every `Ttl` that is neither longer than the
clock has been running nor, being negative, longer than it has still to go. -/
theorem inDateTimeRange_sub {utcNow : DateTime} {ttl : TimeSpan} (h : ClockReading utcNow)
    (hpast : ttl ≤ firstTickOfYear 2020)
    (hfuture : firstTickOfYear 2101 - SubscribableQueue.maxTicks ≤ ttl) :
    InDateTimeRange (utcNow - ttl) := by
  obtain ⟨hfrom, hto⟩ := h
  constructor <;> linarith

/-- An expiry is in range for every timestamp and every `Ttl` that is neither longer than the
clock has still to go nor, being negative, longer than it has been running. -/
theorem inDateTimeRange_add {createdAt : DateTime} {ttl : TimeSpan} (h : ClockReading createdAt)
    (hpast : -firstTickOfYear 2020 ≤ ttl)
    (hfuture : ttl ≤ SubscribableQueue.maxTicks - firstTickOfYear 2101) :
    InDateTimeRange (createdAt + ttl) := by
  obtain ⟨hfrom, hto⟩ := h
  constructor <;> linarith

section Range

variable {ttl : TimeSpan} {n : ℕ} {tr : Trace} {σ : System}

/-- **Nothing goes out of range** in a run: every prune pass computes its cutoff, and the state
endpoint answers in the state reached, whatever the clock says then. -/
structure ArithmeticInRange (tr : Trace) (σ : System) : Prop where
  cutoffs : ∀ t ∈ tr, ∀ utcNow, t.act = .beginPrune utcNow →
    ∃ cutoff, t.pre.queue.cutoff utcNow = .ok cutoff
  states : ∀ utcNow, ∃ dto, toExternalDto utcNow σ.queue.getState = .ok dto

/-- The clock of a run stays between the years 2020 and 2100. -/
def ClockInRange (tr : Trace) : Prop := ∀ utcNow ∈ clockReadings tr, ClockReading utcNow

instance (tr : Trace) : Decidable (ClockInRange tr) :=
  inferInstanceAs (Decidable (∀ utcNow ∈ clockReadings tr, ClockReading utcNow))

theorem mem_clockReadings_of_beginPrune {t : Transition System Action Event} {utcNow : DateTime}
    (ht : t ∈ tr) (hact : t.act = .beginPrune utcNow) : utcNow ∈ clockReadings tr :=
  List.mem_filterMap.mpr ⟨t, ht, by rw [hact]⟩

/-- The messages of the buffer carry readings of the clock. -/
theorem createdAt_mem_clockReadings (h : RunOf ttl n tr σ) {m : MessageEnvelope}
    (hm : m ∈ σ.queue.buffer) : m.createdAt ∈ clockReadings tr := by
  have henqueued : m ∈ enqueuedOf (events tr) := by
    rw [(ledger_of_run h).enqueued]
    exact List.mem_append_right _ hm
  exact (createdAt_sublist_of_run h).subset (List.mem_map_of_mem henqueued)

/-- **A `Ttl` up to the age of the clock is safe**, and so is a negative one as far back. -/
theorem arithmeticInRange_of_le (h : RunOf ttl n tr σ) (hclock : ClockInRange tr)
    (hneg : -firstTickOfYear 2020 ≤ ttl) (hpos : ttl ≤ firstTickOfYear 2020) :
    ArithmeticInRange tr σ := by
  -- what is left of the range after 2100 is longer than what there was before 2020
  have hroom : firstTickOfYear 2020 ≤ SubscribableQueue.maxTicks - firstTickOfYear 2101 := by
    decide
  constructor
  · intro t ht utcNow hact
    obtain ⟨pre, post, -, hpre, -, -⟩ := h.of_mem ht
    rw [SubscribableQueue.exists_cutoff, (options_of_run hpre).1]
    have hnow : ClockReading utcNow := hclock _ (mem_clockReadings_of_beginPrune ht hact)
    exact inDateTimeRange_sub hnow hpos (by linarith)
  · intro utcNow
    rw [SubscribableQueue.exists_toExternalDto_getState, (options_of_run h).1]
    intro m hm
    have hcreated : ClockReading m.createdAt := hclock _ (createdAt_mem_clockReadings h hm)
    exact inDateTimeRange_add hcreated hneg (by linarith)

/-- A message enqueued, and then a prune pass, at the first instant of 2020. -/
theorem runOf_enqueue_beginPrune (ttl : TimeSpan) (n : ℕ) : ∃ tr σ, RunOf ttl n tr σ ∧
    clockReadings tr = [firstTickOfYear 2020, firstTickOfYear 2020] ∧
    (∃ t ∈ tr, t.act = .beginPrune (firstTickOfYear 2020) ∧ t.pre.queue.ttl = ttl) ∧
    σ.queue.buffer = [⟨1, firstTickOfYear 2020⟩] := by
  obtain ⟨σ₁, hstep, hqueue⟩ : ∃ σ₁, step (System.init ttl n)
      (.enqueue 1 (firstTickOfYear 2020) none) = some (σ₁, [.enqueued ⟨1, firstTickOfYear 2020⟩]) ∧
      σ₁.queue = (System.init ttl n).queue.enqueue 1 (firstTickOfYear 2020) none :=
    ⟨_, rfl, rfl⟩
  obtain ⟨σ₂, hprune, hsame⟩ : ∃ σ₂, step σ₁ (.beginPrune (firstTickOfYear 2020)) = some (σ₂, []) ∧
      σ₂.queue = σ₁.queue := by
    rcases hc : σ₁.queue.cutoff (firstTickOfYear 2020) with e | cutoff <;> simp [step, hc]
  refine ⟨_, _, (Run.single hstep).snoc hprune, rfl,
    ⟨_, List.mem_append_right _ List.mem_cons_self, rfl, ?_⟩, ?_⟩
  · rw [hqueue]
    rfl
  · rw [hsame, hqueue]
    rfl

end Range

/-- **Expiry arithmetic in range.** With a given `Ttl`, no run whose clock stays between the years
2020 and 2100 sees the cutoff of a pass or the expiry of a buffered message out of range, exactly
when the `Ttl` is, up to sign, no longer than the time from the first tick to the year 2020. -/
theorem expiry_in_range_iff (ttl : TimeSpan) (n : ℕ) :
    (∀ tr σ, RunOf ttl n tr σ → ClockInRange tr → ArithmeticInRange tr σ) ↔
      -firstTickOfYear 2020 ≤ ttl ∧ ttl ≤ firstTickOfYear 2020 := by
  constructor
  · intro h
    obtain ⟨tr, σ, hrun, hclock, ⟨t, ht, hact, httl⟩, hbuffer⟩ := runOf_enqueue_beginPrune ttl n
    have hreadings : ClockInRange tr := by
      rw [ClockInRange, hclock]
      decide
    obtain ⟨hcutoffs, hstates⟩ := h tr σ hrun hreadings
    constructor
    · -- the expiry of the message
      have hadd := SubscribableQueue.exists_toExternalDto_getState.mp (hstates fun _ => 0)
      simp only [hbuffer, List.mem_singleton, forall_eq, (options_of_run hrun).1] at hadd
      have := hadd.1
      linarith
    · -- the cutoff of the pass
      have hsub := SubscribableQueue.exists_cutoff.mp (hcutoffs t ht _ hact)
      rw [httl] at hsub
      have := hsub.1
      linarith
  · rintro ⟨hneg, hpos⟩ tr σ hrun hclock
    exact arithmeticInRange_of_le hrun hclock hneg hpos

/-- **`TimeSpan.MaxValue`, for never expiring, is out of range**: the pass fails, and so does the
state endpoint. -/
theorem expiry_out_of_range : ∃ tr σ, RunOf 9223372036854775807 5 tr σ ∧ ClockInRange tr ∧
    (∃ t ∈ tr, t.act = .beginPrune (firstTickOfYear 2020) ∧
      t.pre.queue.cutoff (firstTickOfYear 2020) = .error .argumentOutOfRange) ∧
    (∀ utcNow, toExternalDto utcNow σ.queue.getState = .error .argumentOutOfRange) ∧
    ¬ ArithmeticInRange tr σ := by
  obtain ⟨tr, σ, hrun, hclock, ⟨t, ht, hact, httl⟩, hbuffer⟩ :=
    runOf_enqueue_beginPrune 9223372036854775807 5
  have hcutoff : t.pre.queue.cutoff (firstTickOfYear 2020) = .error .argumentOutOfRange := by
    rw [SubscribableQueue.cutoff, httl]
    decide
  refine ⟨tr, σ, hrun, ?_, ⟨t, ht, hact, hcutoff⟩, fun utcNow => ?_, fun h => ?_⟩
  · rw [ClockInRange, hclock]
    decide
  · have hout : ¬ InDateTimeRange (firstTickOfYear 2020 + 9223372036854775807) := by decide
    simp [toExternalDto, SubscribableQueue.getState, SubscribableQueue.copyBuffer, hbuffer,
      SubscribableQueue.copyEnvelope, (options_of_run hrun).1, toMessageEnvelopeDto,
      getTimeUntilExpiry, addTimeSpan, hout, bind, Except.bind]
  · obtain ⟨cutoff, hok⟩ := h.cutoffs t ht _ hact
    simp [hcutoff] at hok

/-! ### A `Ttl` that is too long -/

section NeverPruned

variable {ttl : TimeSpan} {n : ℕ} {tr : Trace} {σ σ' : System} {a : Action} {evs : List Event}

/-- Only a pass that computes its cutoff comes to wait for the lock. -/
theorem Effect.passes_eq_nil (h : Effect σ a σ' evs) (ha : ∀ utcNow, a ≠ .beginPrune utcNow)
    (hpasses : σ.passes = []) : σ'.passes = [] := by
  cases h with
  | beginPrune utcNow _ => exact absurd rfl (ha utcNow)
  | prune hpass => simp [hpasses] at hpass
  | _ => exact hpasses

/-- A pass whose cutoff is out of range leaves everything as it was. -/
theorem step_beginPrune_of_not_inDateTimeRange {utcNow : DateTime}
    (h : ¬ InDateTimeRange (utcNow - σ.queue.ttl)) :
    step σ (.beginPrune utcNow) = some (σ, []) := by
  rcases hc : σ.queue.cutoff utcNow with e | cutoff
  · simp [step, hc]
  · exact absurd (SubscribableQueue.exists_cutoff.mp ⟨cutoff, hc⟩) h

/-- **With a `Ttl` longer than the clock has been running nothing is ever pruned**: no pass gets
as far as the lock, and the buffer holds every message there ever was. -/
theorem never_pruned (h : RunOf ttl n tr σ) (hlong : ∀ utcNow ∈ clockReadings tr, utcNow < ttl) :
    prunedOf (events tr) = [] ∧ σ.queue.buffer = enqueuedOf (events tr) := by
  have hbegun : ∀ t ∈ tr, ∀ utcNow, t.act = .beginPrune utcNow → utcNow < ttl :=
    fun t ht utcNow hact => hlong _ (mem_clockReadings_of_beginPrune ht hact)
  have hnone : σ.passes = [] ∧ prunedOf (events tr) = [] := by
    refine h.invariantOn (I := fun tr σ => σ.passes = [] ∧ prunedOf (events tr) = [])
      ⟨rfl, rfl⟩ ?_ hbegun
    rintro tr σ a evs σ' hrun ⟨hpasses, hpruned⟩ hstep hok
    rw [events_append, prunedOf_append, hpruned]
    by_cases hbegin : ∃ utcNow, a = .beginPrune utcNow
    · obtain ⟨utcNow, rfl⟩ := hbegin
      have hout : ¬ InDateTimeRange (utcNow - σ.queue.ttl) := by
        rintro ⟨h0, -⟩
        have := hok utcNow rfl
        rw [(options_of_run hrun).1] at h0
        linarith
      rw [step_beginPrune_of_not_inDateTimeRange hout] at hstep
      obtain ⟨rfl, rfl⟩ := by simpa using hstep
      exact ⟨hpasses, rfl⟩
    · have hbegin' : ∀ utcNow, a ≠ .beginPrune utcNow := fun utcNow ha => hbegin ⟨utcNow, ha⟩
      have heff := effect_of_step hstep
      refine ⟨heff.passes_eq_nil hbegin' hpasses, ?_⟩
      by_cases henq : ∃ id t p, a = .enqueue id t p
      · obtain ⟨id, t, p, rfl⟩ := henq
        cases heff with
        | enqueue _ => rfl
      · have hprune : ∀ pass, a ≠ .prune pass := by
          rintro pass rfl
          cases heff with
          | prune hpass => simp [hpasses] at hpass
        have hsame := heff.sameBuffer (fun id t p ha => henq ⟨id, t, p, ha⟩) hprune
        simpa using hsame.pruned
  refine ⟨hnone.2, ?_⟩
  have hledger := (ledger_of_run h).enqueued
  rw [hnone.2] at hledger
  exact hledger.symm

end NeverPruned

/-! ### Labels -/

/-- The result of a computation over a list whose every success has a known value. -/
theorem eq_map_of_mapM_eq_ok {α β ε : Type} {f : α → Except ε β} {g : α → β} {l : List α}
    {ys : List β} (hf : ∀ x ∈ l, ∀ y, f x = .ok y → y = g x) (h : l.mapM f = .ok ys) :
    ys = l.map g := by
  induction l generalizing ys with
  | nil => simpa [pure, Except.pure, eq_comm] using h
  | cons x l ih =>
    rcases hx : f x with e | y
    · simp [List.mapM_cons, hx, bind, Except.bind] at h
    · rcases hl : l.mapM f with e | zs
      · simp [List.mapM_cons, hx, hl, bind, Except.bind] at h
      · obtain rfl : y :: zs = ys := by
          simpa [List.mapM_cons, hx, hl, bind, Except.bind, pure, Except.pure] using h
        rw [List.map_cons, hf x List.mem_cons_self y hx,
          ih (fun x hx => hf x (List.mem_cons_of_mem _ hx)) hl]

/-- Every other label begins with the word "in". -/
theorem in_append_ne_expired (s : String) : "in " ++ s ≠ "expired" := by
  intro h
  have hin : "in ".toList = ['i', 'n', ' '] := by decide
  have hexpired : "expired".toList = ['e', 'x', 'p', 'i', 'r', 'e', 'd'] := by decide
  have hlist := congrArg String.toList h
  rw [String.toList_append, hin, hexpired] at hlist
  exact absurd (List.cons.inj hlist).1 (by decide)

/-- **The label is "expired"** for a span that is not positive. -/
theorem formatRelative_eq_expired {timeSpan : TimeSpan} :
    formatRelative timeSpan = "expired" ↔ timeSpan ≤ 0 := by
  unfold formatRelative
  split
  · rename_i h
    simp [h]
  · rename_i h
    simp only [h, iff_false]
    split_ifs <;> simp only [String.append_assoc] <;> exact in_append_ne_expired _

section Labels

variable {q : SubscribableQueue} {utcNow cutoff : DateTime} {dto : SubscribableQueueStateDto}

/-- The messages of a report that are labelled expired. -/
def SubscribableQueueStateDto.expired (dto : SubscribableQueueStateDto) : List Guid :=
  (dto.buffer.filter (·.expiresIn = "expired")).map (·.id)

/-- The time until expiry, once its sum is in range. -/
theorem getTimeUntilExpiry_eq_ok {createdAt : DateTime} {ttl timeSpan : TimeSpan}
    (h : getTimeUntilExpiry createdAt ttl utcNow = .ok timeSpan) :
    timeSpan = if createdAt + ttl > utcNow then createdAt + ttl - utcNow else 0 := by
  by_cases hrange : InDateTimeRange (createdAt + ttl)
  · simpa [getTimeUntilExpiry, addTimeSpan, hrange, bind, Except.bind, pure, Except.pure,
      eq_comm] using h
  · simp [getTimeUntilExpiry, addTimeSpan, hrange, bind, Except.bind] at h

/-- **What the state endpoint labels expired**: the messages whose expiry is not after the
reading of the clock. -/
theorem expired_toExternalDto (h : toExternalDto (fun _ => utcNow) q.getState = .ok dto) :
    dto.expired = (q.buffer.filter (fun m => m.createdAt + q.ttl ≤ utcNow)).map (·.id) := by
  let label (m : EnvelopeCopy) : MessageEnvelopeDto :=
    ⟨m.id, m.payload, formatRelative
      (if m.createdAt + q.ttl > utcNow then m.createdAt + q.ttl - utcNow else 0)⟩
  have hlabel : ∀ m, (label m).expiresIn = "expired" ↔ m.createdAt + q.ttl ≤ utcNow := by
    intro m
    rw [formatRelative_eq_expired]
    split
    · simp only [tsub_le_iff_right, zero_add]
    · simp only [le_refl, true_iff]
      linarith
  have hbuffer : dto.buffer = q.copyBuffer.map label := by
    rcases hb : q.copyBuffer.mapM (fun m => toMessageEnvelopeDto q.ttl utcNow m) with e | ys
    · simp [toExternalDto, SubscribableQueue.getState, hb, bind, Except.bind] at h
    · obtain rfl := by
        simpa [toExternalDto, SubscribableQueue.getState, hb, bind, Except.bind, pure,
          Except.pure, eq_comm] using h
      refine eq_map_of_mapM_eq_ok (fun m _ y hy => ?_) hb
      rcases ht : getTimeUntilExpiry m.createdAt q.ttl utcNow with e | timeSpan
      · simp [toMessageEnvelopeDto, ht, bind, Except.bind] at hy
      · rw [getTimeUntilExpiry_eq_ok ht] at ht
        simpa [toMessageEnvelopeDto, ht, bind, Except.bind, pure, Except.pure, eq_comm] using hy
  rw [SubscribableQueueStateDto.expired, hbuffer, SubscribableQueue.copyBuffer, List.map_map,
    List.filter_map, List.map_map]
  refine congrArg₂ List.map rfl (List.filter_congr fun m _ => ?_)
  simp [hlabel, SubscribableQueue.copyEnvelope]

/-- **What a pass removes** from a buffer sorted by `CreatedAt`: the messages whose expiry is
before its reading of the clock. -/
theorem expired_of_sorted (hsorted : q.buffer.Pairwise (fun m m' => m.createdAt ≤ m'.createdAt))
    (hcutoff : q.cutoff utcNow = .ok cutoff) :
    q.expired cutoff = q.buffer.filter (fun m => m.createdAt + q.ttl < utcNow) := by
  obtain ⟨-, rfl⟩ := SubscribableQueue.cutoff_eq_ok.mp hcutoff
  rw [SubscribableQueue.expired, takeWhile_eq_filter]
  · refine List.filter_congr fun m _ => ?_
    rw [decide_eq_decide]
    exact lt_sub_iff_add_lt
  · refine hsorted.imp ?_
    intro m m' hle hlt
    simp only [decide_eq_true_eq] at hlt ⊢
    exact lt_of_le_of_lt hle hlt

/-- Two filters of a list, one below the other, keep the same images only if they agree. -/
theorem map_filter_eq_map_filter_iff {α β : Type*} {f : α → β} {p p' : α → Bool} {l : List α}
    (h : ∀ x, p' x = true → p x = true) :
    (l.filter p).map f = (l.filter p').map f ↔ ∀ x ∈ l, p x = true → p' x = true := by
  constructor
  · intro heq x hx hp
    have hsub : (l.filter p').Sublist (l.filter p) := List.monotone_filter_right l h
    have hlen : (l.filter p').length = (l.filter p).length := by
      simpa using (congrArg List.length heq).symm
    have hmem : x ∈ l.filter p' := hsub.eq_of_length hlen ▸ List.mem_filter.mpr ⟨hx, hp⟩
    exact (List.mem_filter.mp hmem).2
  · intro hall
    refine congrArg _ (List.filter_congr fun x hx => ?_)
    exact Bool.eq_iff_iff.mpr ⟨hall x hx, h x⟩

end Labels

/-- **Labels and pruning.** In a buffer sorted by `CreatedAt`, at a reading of the clock for which
the arithmetic is in range, the messages that the state endpoint labels expired are those a prune
pass removes, exactly when no message expires at that very tick. -/
theorem labels_agree_iff {q : SubscribableQueue} {utcNow cutoff : DateTime}
    {dto : SubscribableQueueStateDto} {removed : List MessageEnvelope}
    (hsorted : q.buffer.Pairwise (fun m m' => m.createdAt ≤ m'.createdAt))
    (hcutoff : q.cutoff utcNow = .ok cutoff)
    (hdto : toExternalDto (fun _ => utcNow) q.getState = .ok dto)
    (hremoved : removed ++ (q.pruneExpiredMessages cutoff).buffer = q.buffer) :
    dto.expired = removed.map (·.id) ↔ ∀ m ∈ q.buffer, m.createdAt + q.ttl ≠ utcNow := by
  obtain rfl : removed = q.expired cutoff :=
    List.append_cancel_right (hremoved.trans (q.expired_append_buffer cutoff).symm)
  rw [expired_toExternalDto hdto, expired_of_sorted hsorted hcutoff, map_filter_eq_map_filter_iff]
  · simp only [decide_eq_true_eq]
    refine forall₂_congr fun m _ => ⟨fun h heq => ?_, fun hne hle => lt_of_le_of_ne hle hne⟩
    exact absurd (h heq.le) heq.not_lt
  · intro m hm
    simp only [decide_eq_true_eq] at hm ⊢
    exact hm.le

/-- The theorem at a buffer of three messages, of which one has expired and two are to expire. -/
theorem labels_agree_in_between : ∃ q : SubscribableQueue, ∃ cutoff dto,
    q.buffer = [⟨1, 3⟩, ⟨2, 8⟩, ⟨3, 9⟩] ∧ q.cutoff 15 = .ok cutoff ∧
    toExternalDto (fun _ => 15) q.getState = .ok dto ∧ dto.expired = [1] ∧
    dto.expired = (q.expired cutoff).map (·.id) := by
  let q : SubscribableQueue :=
    { ttl := 10, retryCount := 1, buffer := [⟨1, 3⟩, ⟨2, 8⟩, ⟨3, 9⟩] }
  have hcutoff : q.cutoff 15 = .ok 5 := by decide
  obtain ⟨dto, hdto⟩ : ∃ dto, toExternalDto (fun _ => 15) q.getState = .ok dto := by
    rw [SubscribableQueue.exists_toExternalDto_getState]
    decide
  have hagree := (labels_agree_iff (by decide) hcutoff hdto (q.expired_append_buffer 5)).mpr
    (by decide)
  exact ⟨q, 5, dto, rfl, hcutoff, hdto, hagree.trans (by decide), hagree⟩

/-- **At the tick of its expiry** a message is labelled expired, and a pass leaves it. -/
theorem label_at_expiry : ∃ q : SubscribableQueue, ∃ cutoff dto,
    q.buffer = [⟨1, 5⟩] ∧ q.ttl = 10 ∧ q.cutoff 15 = .ok cutoff ∧
    toExternalDto (fun _ => 15) q.getState = .ok dto ∧ dto.expired = [1] ∧
    (q.pruneExpiredMessages cutoff).buffer = q.buffer := by
  let q : SubscribableQueue := { ttl := 10, retryCount := 1, buffer := [⟨1, 5⟩] }
  exact ⟨q, 5, ⟨[⟨1, none, "expired"⟩], []⟩, rfl, rfl, by decide, by decide, by decide, by decide⟩

end PushDeliveredQueue
