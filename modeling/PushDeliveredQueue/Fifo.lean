import PushDeliveredQueue.Runs
import Mathlib.Data.List.Nodup
import Mathlib.Data.List.Sublists

/-!
# A queue with one reader

What a subscriber is meant to see, with nothing of how it is done: a first-in, first-out
queue that one reader takes from. Elements enter at the back; the reader looks at the head,
works on it, and takes it out when it is done. Two things set this queue apart from the
simplest one. Elements may be discarded from under the reader, and what has been taken out is
**retained** for a while, so that the reader can be wound back to it.

`Fifo.Step` is the machine, `Fifo.Op` its operations. Along a path with no winding back, what
the reader takes out followed by what is still pending is a sublist of what was pending
followed by what entered (`Fifo.Step.sublist_of_path`), and the rest has been discarded
(`Fifo.Step.mem_of_path`). With distinct elements that is delivery in order, exactly once.
-/

namespace Fifo

open Transitions

variable {α : Type*}

/-- The queue as its one reader sees it. -/
structure Queue (α : Type*) where
  /-- What the reader can be wound back to. -/
  retained : List α
  /-- What the reader has still to take, the head next. -/
  pending : List α
  /-- What the reader is working on. -/
  working : Option α

/-- What can be done to the queue. -/
inductive Op (α : Type*) where
  | enqueue (a : α)
  /-- The reader looks at the head, if there is one, and starts to work on it. -/
  | read (next : Option α)
  /-- The reader is done with the head, and takes it out. -/
  | commit (a : α)
  /-- Elements are discarded, wherever they are. -/
  | discard (gone : List α)
  /-- The reader is wound back to an element. -/
  | rewind (a : α)
  /-- Something nobody else sees: the reader may have stopped working. -/
  | internal
  deriving DecidableEq

/-- **The machine.** -/
inductive Step [DecidableEq α] : Queue α → Op α → Queue α → Prop
  | enqueue (q : Queue α) (a : α) :
      Step q (.enqueue a) { q with retained := q.retained ++ [a], pending := q.pending ++ [a] }
  | readNothing {q : Queue α} (h : q.pending = []) : Step q (.read none) q
  | read {q : Queue α} {a : α} {rest : List α} (h : q.pending = a :: rest)
      (hw : q.working = none) : Step q (.read (some a)) { q with working := some a }
  | commit {q : Queue α} {a : α} {rest : List α} (h : q.pending = a :: rest)
      (hw : q.working = some a) :
      Step q (.commit a) { q with pending := rest, working := none }
  | discard {q : Queue α} {gone kept : List α} (h : q.retained = gone ++ kept)
      (hw : ∀ a, q.working = some a → a ∉ gone) :
      Step q (.discard gone)
        { q with retained := kept, pending := q.pending.filter (· ∉ gone) }
  | rewind {q : Queue α} {a : α} {before rest : List α} (h : q.retained = before ++ a :: rest)
      (hw : q.working = none) : Step q (.rewind a) { q with pending := a :: rest }
  | release (q : Queue α) : Step q .internal { q with working := none }
  | internal (q : Queue α) : Step q .internal q

/-! ### What a list of operations says -/

/-- The elements that enter. -/
def enqueues (ops : List (Op α)) : List α :=
  ops.filterMap fun
    | .enqueue a => some a
    | _ => none

/-- The elements the reader takes out. -/
def commits (ops : List (Op α)) : List α :=
  ops.filterMap fun
    | .commit a => some a
    | _ => none

/-- The elements discarded. -/
def discards (ops : List (Op α)) : List α :=
  ops.flatMap fun
    | .discard gone => gone
    | _ => []

/-- Whether an operation winds the reader back. -/
def Op.IsRewind : Op α → Prop
  | .rewind _ => True
  | _ => False

@[simp] theorem enqueues_nil : enqueues ([] : List (Op α)) = [] := rfl

@[simp] theorem commits_nil : commits ([] : List (Op α)) = [] := rfl

@[simp] theorem discards_nil : discards ([] : List (Op α)) = [] := rfl

theorem enqueues_cons (o : Op α) (ops : List (Op α)) :
    enqueues (o :: ops) = enqueues [o] ++ enqueues ops :=
  List.filterMap_append (l := [o])

theorem commits_cons (o : Op α) (ops : List (Op α)) :
    commits (o :: ops) = commits [o] ++ commits ops :=
  List.filterMap_append (l := [o])

theorem discards_cons (o : Op α) (ops : List (Op α)) :
    discards (o :: ops) = discards [o] ++ discards ops := by
  simp [discards]

/-! ### Conservation -/

namespace Step

variable [DecidableEq α] {q q' : Queue α} {o : Op α} {ops : List (Op α)}

/-- **One step takes nothing out of turn**: what it takes out and what it leaves pending was
pending or has entered, in the same order. -/
theorem sublist (h : Step q o q') (hr : ¬ o.IsRewind) :
    (commits [o] ++ q'.pending).Sublist (q.pending ++ enqueues [o]) := by
  cases h with
  | enqueue a => exact List.Sublist.refl _
  | readNothing _ | read _ _ | release | internal =>
    simp [commits, enqueues]
  | commit h _ => simp [commits, enqueues, h]
  | discard _ _ => simp [commits, enqueues]
  | rewind _ _ => exact absurd trivial hr

/-- **One step loses nothing** but what it discards. -/
theorem mem (h : Step q o q') (hr : ¬ o.IsRewind) {a : α} (ha : a ∈ q.pending ++ enqueues [o]) :
    a ∈ commits [o] ++ q'.pending ∨ a ∈ discards [o] := by
  cases h with
  | enqueue b => exact Or.inl ha
  | readNothing _ | read _ _ | release | internal =>
    simpa [commits, enqueues, discards] using ha
  | commit h _ => exact Or.inl (by simpa [commits, enqueues, h] using ha)
  | @discard gone kept h _ =>
    simp only [enqueues, commits, discards, List.filterMap_cons, List.filterMap_nil,
      List.append_nil, List.nil_append, List.flatMap_cons, List.flatMap_nil, List.mem_filter,
      decide_not] at ha ⊢
    rcases em (a ∈ gone) with hg | hg
    · exact Or.inr hg
    · exact Or.inl ⟨ha, by simpa using hg⟩
  | rewind _ _ => exact absurd trivial hr

/-- **In order.** Along a path with no winding back, what the reader takes out followed by
what is still pending is a sublist of what was pending followed by what entered. -/
theorem sublist_of_path (h : Path Step q ops q') (hr : ∀ o ∈ ops, ¬ o.IsRewind) :
    (commits ops ++ q'.pending).Sublist (q.pending ++ enqueues ops) := by
  induction h with
  | nil q => simp
  | @cons q q₁ q' o ops hs _ ih =>
    have ih' := ih fun o' ho' => hr o' (List.mem_cons_of_mem _ ho')
    have hone := hs.sublist (hr o List.mem_cons_self)
    rw [commits_cons, enqueues_cons, List.append_assoc, ← List.append_assoc q.pending]
    refine (ih'.append_left _).trans ?_
    rw [← List.append_assoc]
    exact hone.append_right _

/-- **Nothing lost.** Along such a path everything that was pending or entered is taken out,
still pending, or discarded. -/
theorem mem_of_path (h : Path Step q ops q') (hr : ∀ o ∈ ops, ¬ o.IsRewind) {a : α}
    (ha : a ∈ q.pending ++ enqueues ops) : a ∈ commits ops ++ q'.pending ∨ a ∈ discards ops := by
  induction h with
  | nil q => exact Or.inl (by simpa using ha)
  | @cons q q₁ q' o ops hs _ ih =>
    have hr' : ∀ o' ∈ ops, ¬ o'.IsRewind := fun o' ho' => hr o' (List.mem_cons_of_mem _ ho')
    rw [enqueues_cons, ← List.append_assoc] at ha
    rw [commits_cons, discards_cons, List.append_assoc, List.mem_append, List.mem_append,
      List.mem_append]
    rcases List.mem_append.mp ha with ha | ha
    · rcases hs.mem (hr o List.mem_cons_self) ha with hc | hd
      · rcases List.mem_append.mp hc with hc | hp
        · exact Or.inl (Or.inl hc)
        · rcases ih hr' (List.mem_append_left _ hp) with h | h
          · exact Or.inl (Or.inr (List.mem_append.mp h))
          · exact Or.inr (Or.inr h)
      · exact Or.inr (Or.inl hd)
    · rcases ih hr' (List.mem_append_right _ ha) with h | h
      · exact Or.inl (Or.inr (List.mem_append.mp h))
      · exact Or.inr (Or.inr h)

/-- **Exactly once.** When the elements are distinct, each one that was pending or entered is
taken out exactly once, or is not taken out and is still pending or has been discarded. -/
theorem exactly_once_of_path (h : Path Step q ops q') (hr : ∀ o ∈ ops, ¬ o.IsRewind)
    (hnodup : (q.pending ++ enqueues ops).Nodup) {a : α} (ha : a ∈ q.pending ++ enqueues ops) :
    (commits ops).count a = 1 ∨
      (commits ops).count a = 0 ∧ (a ∈ q'.pending ∨ a ∈ discards ops) := by
  have hsub := sublist_of_path h hr
  have hcommits : (commits ops).Nodup := (hnodup.sublist hsub).of_append_left
  rcases em (a ∈ commits ops) with hc | hc
  · exact Or.inl (List.count_eq_one_of_mem hcommits hc)
  · refine Or.inr ⟨List.count_eq_zero.mpr hc, ?_⟩
    rcases mem_of_path h hr ha with hm | hd
    · exact Or.inl ((List.mem_append.mp hm).resolve_left hc)
    · exact Or.inr hd

end Step

end Fifo
