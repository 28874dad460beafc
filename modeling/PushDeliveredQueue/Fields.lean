import Mathlib.Data.List.Infix
import Mathlib.Data.List.Basic
import Mathlib.Data.Nat.Notation

/-!
# Texts made of fields

A text is a list of symbols, one of which separates its fields; several separators in a row
separate as one does. Nothing here mentions a queue, or characters. The file gives

* `Fields.split`, the fields of a text, with one equation for a separator
  (`Fields.split_append_cons`) that everything about it follows from;
* what it is to look for a pattern in such a text: a pattern without the separator lies in one of
  the fields (`Fields.infix_append_cons_iff`), and one that begins with it begins at one of the
  separators (`Fields.cons_infix_append_cons_iff`).
-/

namespace Fields

variable {α : Type*} {c : α} {l r w : List α} {n : ℕ}

/-! ### Splitting -/

section Split

variable [DecidableEq α]

/-- The fields of a text: what is between two separators, or a separator and an end, if it is not
empty. -/
def split (c : α) (l : List α) : List (List α) := (l.splitOn c).filter (· ≠ [])

@[simp] theorem split_nil (c : α) : split c [] = [] := by
  simp [split]

/-- **A text is split at a separator.** -/
theorem split_append_cons (c : α) (l r : List α) :
    split c (l ++ c :: r) = split c l ++ split c r := by
  rw [split, List.splitOn_append_cons_self, List.filter_append]
  rfl

/-- A text that is a field. -/
theorem split_of_notMem (hne : l ≠ []) (hc : c ∉ l) : split c l = [l] := by
  rw [split, List.splitOn_eq_singleton hc]
  simp [hne]

theorem split_cons_self (c : α) (l : List α) : split c (c :: l) = split c l := by
  have h := split_append_cons c [] l
  simpa using h

/-- Separators in front separate nothing. -/
theorem split_replicate_append (c : α) (n : ℕ) (l : List α) :
    split c (List.replicate n c ++ l) = split c l := by
  induction n with
  | zero => simp
  | succ n ih => rw [List.replicate_succ, List.cons_append, split_cons_self, ih]

/-- Separators behind separate nothing. -/
theorem split_append_replicate (c : α) (n : ℕ) (l : List α) :
    split c (l ++ List.replicate n c) = split c l := by
  cases n with
  | zero => simp
  | succ n =>
    have h := split_replicate_append c n []
    rw [List.append_nil, split_nil] at h
    rw [List.replicate_succ, split_append_cons, h, List.append_nil]

/-- Splitting undoes joining, up to the texts that were empty. -/
theorem split_intercalate {ls : List (List α)} (h : ∀ l ∈ ls, c ∉ l) :
    split c ([c].intercalate ls) = ls.filter (· ≠ []) := by
  rcases eq_or_ne ls [] with rfl | hne
  · simp
  · rw [split, List.splitOn_intercalate c h hne]

end Split

/-! ### Looking for a pattern -/

/-- A pattern without the separator that begins a text ends before the separator. -/
theorem prefix_append_cons_iff (hc : c ∉ w) : w <+: l ++ c :: r ↔ w <+: l := by
  induction l generalizing w with
  | nil =>
    rw [List.nil_append, List.prefix_nil, List.prefix_cons_iff]
    constructor
    · rintro (rfl | ⟨w', rfl, -⟩)
      · rfl
      · exact absurd List.mem_cons_self hc
    · exact Or.inl
  | cons a l ih =>
    rw [List.cons_append, List.prefix_cons_iff, List.prefix_cons_iff]
    refine or_congr_right (exists_congr fun w' => and_congr_right fun hw => ih fun hmem => hc ?_)
    exact hw ▸ List.mem_cons_of_mem a hmem

/-- **A pattern without the separator** lies on one side of it. -/
theorem infix_append_cons_iff (hc : c ∉ w) : w <:+: l ++ c :: r ↔ w <:+: l ∨ w <:+: r := by
  induction l with
  | nil =>
    have hfront : w <+: c :: r ↔ w <:+: [] := by
      rw [List.infix_nil, ← List.prefix_nil]
      exact prefix_append_cons_iff (l := []) hc
    rw [List.nil_append, List.infix_cons_iff, hfront]
  | cons a l ih =>
    have hfront : w <+: a :: (l ++ c :: r) ↔ w <+: a :: l :=
      prefix_append_cons_iff (l := a :: l) hc
    rw [List.cons_append, List.infix_cons_iff, List.infix_cons_iff, hfront, ih, or_assoc]

/-- **A pattern that begins with the separator**, and has no other, lies before the last one, or
begins with it. -/
theorem cons_infix_append_cons_iff (hc : c ∉ w) (hr : c ∉ r) :
    c :: w <:+: l ++ c :: r ↔ c :: w <:+: l ∨ w <+: r := by
  induction l with
  | nil =>
    have hbehind : ¬ c :: w <:+: r := fun h => hr (h.subset List.mem_cons_self)
    have hempty : ¬ c :: w <:+: [] := by simp
    rw [List.nil_append, List.infix_cons_iff, List.cons_prefix_cons, or_iff_left hbehind,
      or_iff_right hempty]
    exact and_iff_right rfl
  | cons a l ih =>
    rw [List.cons_append, List.infix_cons_iff, List.infix_cons_iff, List.cons_prefix_cons,
      List.cons_prefix_cons, prefix_append_cons_iff hc, ih, or_assoc]

/-- Separators in front hold no pattern. -/
theorem infix_replicate_append_iff (hne : w ≠ []) (hc : c ∉ w) :
    w <:+: List.replicate n c ++ l ↔ w <:+: l := by
  induction n with
  | zero => simp
  | succ n ih =>
    have hnil : ¬ w <:+: [] := by simpa using hne
    rw [List.replicate_succ, List.cons_append]
    exact (infix_append_cons_iff (l := []) hc).trans ((or_iff_right hnil).trans ih)

end Fields
