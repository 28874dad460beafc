import Mathlib.Logic.Function.Basic
import Mathlib.Order.Lattice
import Mathlib.Data.Nat.Notation

/-!
# A log with many readers

An append-only log, the front of which is trimmed now and then, and any number of readers, each at
a place of its own. A place is counted from the first entry ever appended, so that it stays what it
is when the log is trimmed; a reader whose place has been trimmed away is put at the first entry
that is left. Nothing keeps a reader from going past the last entry.

What one sees of such a log from outside is what is left of it (`OffsetLog.Log.retained`) and where
each reader is in that (`OffsetLog.Log.offset`). The lemmas say what each operation does to these
two, and that a reader reads the entry at its place (`OffsetLog.Log.peek_eq`).

Three things move a reader that stays: it advances, the log is trimmed from under it, and it is
sent somewhere. Together they account for its place (`OffsetLog.Log.account_apply`).
-/

namespace OffsetLog

variable {α ρ : Type*}

/-- **A log with readers.** -/
structure Log (α ρ : Type*) where
  /-- Everything ever appended. -/
  entries : List α
  /-- How many entries have been trimmed. -/
  base : ℕ
  /-- The place of each reader. -/
  position : ρ → Option ℕ
  base_le_length : base ≤ entries.length
  base_le_position : ∀ r p, position r = some p → base ≤ p

namespace Log

/-- The empty log, which nobody reads. -/
def empty : Log α ρ where
  entries := []
  base := 0
  position := fun _ => none
  base_le_length := le_refl _
  base_le_position := by simp

/-! ### What one sees of it -/

section Views

variable (l : Log α ρ) (r : ρ)

/-- What is left of the log. -/
def retained : List α := l.entries.drop l.base

/-- Where a reader is in what is left. -/
def offset : Option ℕ := (l.position r).map (· - l.base)

/-- What a reader reads. -/
def peek : Option α := (l.position r).bind (l.entries[·]?)

theorem length_retained : l.retained.length = l.entries.length - l.base := List.length_drop

/-- The place of a reader, from where it is in what is left. -/
theorem position_eq : l.position r = (l.offset r).map (l.base + ·) := by
  rcases hp : l.position r with _ | p
  · simp [offset, hp]
  · have hle := l.base_le_position r p hp
    simp only [offset, hp, Option.map_some, Option.some.injEq]
    omega

/-- **A reader reads the entry at its offset.** -/
theorem peek_eq : l.peek r = (l.offset r).bind (l.retained[·]?) := by
  rw [peek, position_eq]
  rcases l.offset r with _ | o
  · rfl
  · simp [retained, List.getElem?_drop]

end Views

/-! ### The operations -/

/-- An entry is appended. -/
def append (l : Log α ρ) (a : α) : Log α ρ where
  entries := l.entries ++ [a]
  base := l.base
  position := l.position
  base_le_length := by
    have h := l.base_le_length
    rw [List.length_append]
    omega
  base_le_position := l.base_le_position

/-- So many entries are trimmed, or all that are left. -/
def trim (l : Log α ρ) (count : ℕ) : Log α ρ where
  entries := l.entries
  base := min (l.base + count) l.entries.length
  position := fun r => (l.position r).map (max (min (l.base + count) l.entries.length))
  base_le_length := min_le_right _ _
  base_le_position := by
    intro r p hp
    obtain ⟨p', -, rfl⟩ := Option.map_eq_some_iff.mp hp
    exact le_max_left _ _

section Buffer

variable (l : Log α ρ) (count : ℕ)

@[simp] theorem retained_append (a : α) : (l.append a).retained = l.retained ++ [a] :=
  List.drop_append_of_le_length l.base_le_length

@[simp] theorem offset_append (a : α) : (l.append a).offset = l.offset := rfl

@[simp] theorem retained_trim : (l.trim count).retained = l.retained.drop count := by
  simp only [retained, trim, List.drop_drop]
  rcases le_total (l.base + count) l.entries.length with h | h
  · rw [min_eq_left h]
  · rw [min_eq_right h, List.drop_length, List.drop_eq_nil_of_le h]

/-- Trimming takes the readers along, as far as they are past what is trimmed. -/
theorem offset_trim (h : count ≤ l.retained.length) :
    (l.trim count).offset = fun r => (l.offset r).map (· - count) := by
  funext r
  rw [length_retained] at h
  have hle := l.base_le_length
  rcases hp : l.position r with _ | p
  · simp [offset, trim, hp]
  · simp only [offset, trim, hp, Option.map_some, Option.some.injEq]
    omega

end Buffer

section Readers

variable [DecidableEq ρ]

/-- A reader is put at a place that has not been trimmed, or is not there any more. -/
def place (l : Log α ρ) (r : ρ) (p : Option ℕ) (hp : ∀ p', p = some p' → l.base ≤ p') :
    Log α ρ where
  entries := l.entries
  base := l.base
  position := Function.update l.position r p
  base_le_length := l.base_le_length
  base_le_position := by
    intro r' p' h
    rcases eq_or_ne r' r with rfl | hne
    · rw [Function.update_self] at h
      exact hp p' h
    · rw [Function.update_of_ne hne] at h
      exact l.base_le_position r' p' h

/-- A reader joins at the first entry that is left. -/
def join (l : Log α ρ) (r : ρ) : Log α ρ :=
  l.place r (some l.base) (by simp)

/-- A reader leaves. -/
def leave (l : Log α ρ) (r : ρ) : Log α ρ :=
  l.place r none (by simp)

/-- A reader goes on to the next place. -/
def advance (l : Log α ρ) (r : ρ) : Log α ρ :=
  l.place r ((l.position r).map (· + 1)) (by
    intro p' h
    obtain ⟨p, hp, rfl⟩ := Option.map_eq_some_iff.mp h
    exact (l.base_le_position r p hp).trans (Nat.le_succ p))

/-- A reader is sent to an entry, counted from the first one that is left. -/
def seek (l : Log α ρ) (r : ρ) (offset : ℕ) : Log α ρ :=
  l.place r ((l.position r).map fun _ => l.base + offset) (by
    intro p' h
    obtain ⟨p, -, rfl⟩ := Option.map_eq_some_iff.mp h
    exact Nat.le_add_right _ _)

variable (l : Log α ρ) (r : ρ)

section Place

variable (p : Option ℕ) (hp : ∀ p', p = some p' → l.base ≤ p')

@[simp] theorem retained_place : (l.place r p hp).retained = l.retained := rfl

theorem offset_place :
    (l.place r p hp).offset = Function.update l.offset r (p.map (· - l.base)) := by
  funext r'
  rcases eq_or_ne r' r with rfl | hne
  · simp [offset, place]
  · simp [offset, place, hne]

end Place

@[simp] theorem retained_join : (l.join r).retained = l.retained := rfl

@[simp] theorem retained_leave : (l.leave r).retained = l.retained := rfl

@[simp] theorem retained_advance : (l.advance r).retained = l.retained := rfl

@[simp] theorem retained_seek (o : ℕ) : (l.seek r o).retained = l.retained := rfl

theorem offset_join : (l.join r).offset = Function.update l.offset r (some 0) := by
  rw [join, offset_place, Option.map_some, Nat.sub_self]

theorem offset_leave : (l.leave r).offset = Function.update l.offset r none := by
  rw [leave, offset_place, Option.map_none]

theorem offset_advance :
    (l.advance r).offset = Function.update l.offset r ((l.offset r).map (· + 1)) := by
  rw [advance, offset_place]
  congr 1
  rcases hp : l.position r with _ | p
  · simp [offset, hp]
  · have hle := l.base_le_position r p hp
    simp only [offset, hp, Option.map_some, Option.some.injEq]
    omega

theorem offset_seek (o : ℕ) :
    (l.seek r o).offset = Function.update l.offset r ((l.offset r).map fun _ => o) := by
  rw [seek, offset_place]
  congr 1
  rcases hp : l.position r with _ | p
  · simp [offset, hp]
  · simp [offset, hp]

end Readers

end Log

/-! ### Lists of operations -/

/-- What can be done to a log. -/
inductive Op (α ρ : Type*) where
  | append (a : α)
  | trim (count : ℕ)
  | join (r : ρ)
  | leave (r : ρ)
  | advance (r : ρ)
  | seek (r : ρ) (offset : ℕ)

variable [DecidableEq ρ]

namespace Log

/-- **The log after an operation.** -/
def apply (l : Log α ρ) : Op α ρ → Log α ρ
  | .append a => l.append a
  | .trim count => l.trim count
  | .join r => l.join r
  | .leave r => l.leave r
  | .advance r => l.advance r
  | .seek r offset => l.seek r offset

/-- The log after some operations. -/
def after (l : Log α ρ) (ops : List (Op α ρ)) : Log α ρ := ops.foldl apply l

@[simp] theorem after_nil (l : Log α ρ) : l.after [] = l := rfl

@[simp] theorem after_singleton (l : Log α ρ) (o : Op α ρ) : l.after [o] = l.apply o := rfl

theorem after_append (l : Log α ρ) (ops ops' : List (Op α ρ)) :
    l.after (ops ++ ops') = (l.after ops).after ops' :=
  List.foldl_append

end Log

/-! ### Accounts -/

/-- How far an operation lets a reader advance. -/
def Op.advanced (r : ρ) : Op α ρ → ℕ
  | .advance r' => if r' = r then 1 else 0
  | _ => 0

namespace Log

variable (l : Log α ρ) (r : ρ)

/-- How far an operation takes a reader forward because what it is at is trimmed. -/
def skipped (o : Op α ρ) : ℕ := ((l.position r).map ((l.apply o).base - ·)).getD 0

/-- How far an operation sends a reader back. -/
def rewound : Op α ρ → ℕ
  | .seek r' offset => if r' = r then ((l.offset r).map (· - offset)).getD 0 else 0
  | _ => 0

/-- How far an operation sends a reader forward. -/
def forwarded : Op α ρ → ℕ
  | .seek r' offset => if r' = r then ((l.offset r).map (offset - ·)).getD 0 else 0
  | _ => 0

variable {l r} {o : Op α ρ} {p : ℕ}

/-- Where nothing is trimmed, nobody is taken forward. -/
theorem skipped_eq_zero (h : (l.apply o).base = l.base) : l.skipped r o = 0 := by
  rcases hp : l.position r with _ | p
  · simp [skipped, hp]
  · have hle := l.base_le_position r p hp
    simp only [skipped, hp, h, Option.map_some, Option.getD_some]
    omega

/-- **What moves a reader that stays**, accounted for. -/
theorem account_apply (hp : l.position r = some p) (hjoin : o ≠ .join r) (hleave : o ≠ .leave r) :
    ∃ p', (l.apply o).position r = some p' ∧
      p' + l.rewound r o = p + o.advanced r + l.skipped r o + l.forwarded r o := by
  have hle := l.base_le_position r p hp
  cases o with
  | append a =>
    refine ⟨p, hp, ?_⟩
    rw [skipped_eq_zero rfl]
    rfl
  | trim count =>
    refine ⟨max (min (l.base + count) l.entries.length) p, by simp [apply, trim, hp], ?_⟩
    simp only [rewound, Op.advanced, skipped, hp, apply, trim, forwarded, Option.map_some,
      Option.getD_some]
    omega
  | join r' =>
    have hne : r ≠ r' := fun heq => hjoin (heq ▸ rfl)
    refine ⟨p, by simp [apply, join, place, hne, hp], ?_⟩
    rw [skipped_eq_zero rfl]
    rfl
  | leave r' =>
    have hne : r ≠ r' := fun heq => hleave (heq ▸ rfl)
    refine ⟨p, by simp [apply, leave, place, hne, hp], ?_⟩
    rw [skipped_eq_zero rfl]
    rfl
  | advance r' =>
    rw [skipped_eq_zero rfl]
    rcases eq_or_ne r' r with rfl | hne
    · exact ⟨p + 1, by simp [apply, advance, place, hp], by simp [rewound, Op.advanced, forwarded]⟩
    · exact ⟨p, by simp [apply, advance, place, hne.symm, hp],
        by simp [rewound, Op.advanced, forwarded, hne]⟩
  | seek r' offset =>
    rw [skipped_eq_zero rfl]
    rcases eq_or_ne r' r with rfl | hne
    · refine ⟨l.base + offset, by simp [apply, seek, place, hp], ?_⟩
      simp only [rewound, Op.advanced, forwarded, Log.offset, hp, if_true, Option.map_some,
        Option.getD_some]
      omega
    · exact ⟨p, by simp [apply, seek, place, hne.symm, hp],
        by simp [rewound, Op.advanced, forwarded, hne]⟩

end Log

end OffsetLog
