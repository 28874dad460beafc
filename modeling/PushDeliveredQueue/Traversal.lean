import Mathlib.Data.Int.Notation
import Mathlib.Data.List.Basic
import Mathlib.Data.List.Count
import Mathlib.Data.List.Nodup
import Mathlib.Data.List.Pairwise
import Mathlib.Data.Nat.Basic

/-!
# Walking along a list while removing from it

A loop goes along a list by a position, and now and then removes from the list everything that
has the key of the element it is at. Nothing here mentions a queue. The file gives

* `Traversal.drop_filter`, what stands from a position on once the list has been filtered: as
  many elements have slipped past the position as were removed from before it;
* `Traversal.Scan`, the invariant of the walk when the keys are distinct, so that only the
  element at the position is ever removed: what is before the position is what has been visited
  and kept, and what is from it on has not been visited;
* `Traversal.length_le_of_pairwise_gt`, which bounds the number of rounds by a measure.
-/

namespace Traversal

variable {α β : Type*}

/-! ### What slips past a position -/

section Slip

variable {p : α → Bool} {key : α → β} {l : List α} {i : ℕ} {x : α}

/-- **Filtering under a position**: from the position on there is what was there and is kept,
less as many elements as were removed from before it. -/
theorem drop_filter (p : α → Bool) (l : List α) (i : ℕ) :
    (l.filter p).drop i = ((l.drop i).filter p).drop ((l.take i).countP fun x => !p x) := by
  have hsplit : l.filter p = (l.take i).filter p ++ (l.drop i).filter p := by
    rw [← List.filter_append, List.take_append_drop]
  have hcount : ((l.take i).filter p).length + (l.take i).countP (fun x => !p x) =
      (l.take i).length := by
    rw [← List.countP_eq_length_filter, List.length_eq_countP_add_countP p]
    simp
  have hlen : (l.take i).length ≤ i := List.length_take_le i l
  rw [hsplit, List.drop_append, List.drop_eq_nil_of_le (by omega), List.nil_append]
  rcases le_total i l.length with hle | hge
  · rw [List.length_take, min_eq_left hle] at hcount
    congr 1
    omega
  · simp [List.drop_eq_nil_of_le hge]

/-- The same at a position whose own element is removed. -/
theorem drop_filter_of_neg (hx : l[i]? = some x) (hp : p x = false) :
    (l.filter p).drop i =
      ((l.drop (i + 1)).filter p).drop ((l.take i).countP fun x => !p x) := by
  obtain ⟨hlt, rfl⟩ := List.getElem?_eq_some_iff.mp hx
  rw [drop_filter, List.drop_eq_getElem_cons hlt, List.filter_cons_of_neg (by simp [hp])]

/-- What is from a position on is the element at it, and what is behind. -/
theorem drop_of_getElem? (hx : l[i]? = some x) : l.drop i = x :: l.drop (i + 1) := by
  obtain ⟨hlt, rfl⟩ := List.getElem?_eq_some_iff.mp hx
  exact List.drop_eq_getElem_cons hlt

/-- What is up to a position is what is before it, and the element at it. -/
theorem take_succ_of_getElem? (hx : l[i]? = some x) : l.take (i + 1) = l.take i ++ [x] := by
  rw [List.take_add_one, hx]
  rfl

/-- An element does not occur before or behind its place in a list of distinct keys. -/
theorem key_ne_of_nodup (hl : (l.map key).Nodup) (hx : l[i]? = some x) :
    (∀ y ∈ l.take i, key y ≠ key x) ∧ ∀ y ∈ l.drop (i + 1), key y ≠ key x := by
  have hsplit : l = l.take i ++ x :: l.drop (i + 1) := by
    rw [← drop_of_getElem? hx, List.take_append_drop]
  rw [hsplit, List.map_append, List.map_cons, List.nodup_middle, List.nodup_cons,
    List.mem_append, not_or] at hl
  exact ⟨fun y hy heq => hl.1.1 (List.mem_map.mpr ⟨y, hy, heq⟩),
    fun y hy heq => hl.1.2 (List.mem_map.mpr ⟨y, hy, heq⟩)⟩

end Slip

/-! ### Distinct keys -/

section Scan

variable [DecidableEq α] {key : α → β} {D removed l : List α} {k i : ℕ} {x : α}

/-- **The invariant of the walk**: of the list `D` as it was, the first `k` elements have been
visited, those in `removed` have been removed, and the walk is at position `i` of the list `l`
that is left. -/
structure Scan (D removed : List α) (k : ℕ) (l : List α) (i : ℕ) : Prop where
  list : l = (D.take k).filter (· ∉ removed) ++ D.drop k
  position : i = ((D.take k).filter (· ∉ removed)).length
  visited : ∀ x ∈ removed, x ∈ D.take k

/-- The walk begins at the front. -/
theorem Scan.initial (D : List α) : Scan D [] 0 D 0 :=
  ⟨by simp, by simp, by simp⟩

/-- The position is at the first element not visited. -/
theorem Scan.getElem? (h : Scan D removed k l i) : l[i]? = D[k]? := by
  rw [h.list, h.position, List.getElem?_append_right le_rfl, Nat.sub_self, List.getElem?_drop,
    Nat.add_zero]

theorem Scan.notMem_removed (h : Scan D removed k l i) (hD : (D.map key).Nodup)
    (hx : D[k]? = some x) : x ∉ removed := by
  intro hmem
  exact (key_ne_of_nodup hD hx).1 x (h.visited x hmem) rfl

/-- The walk visits an element and keeps it. -/
theorem Scan.keep (h : Scan D removed k l i) (hD : (D.map key).Nodup) (hx : D[k]? = some x) :
    Scan D removed (k + 1) l (i + 1) := by
  have hkept : (D.take (k + 1)).filter (· ∉ removed) =
      (D.take k).filter (· ∉ removed) ++ [x] := by
    rw [take_succ_of_getElem? hx, List.filter_append]
    simp [h.notMem_removed hD hx]
  refine ⟨?_, ?_, fun y hy => ?_⟩
  · rw [hkept, List.append_assoc, List.singleton_append, ← drop_of_getElem? hx]
    exact h.list
  · rw [hkept, List.length_append, ← h.position]
    rfl
  · rw [take_succ_of_getElem? hx]
    exact List.mem_append_left _ (h.visited y hy)

/-- The walk visits an element and removes its key. -/
theorem Scan.remove [DecidableEq β] (h : Scan D removed k l i) (hD : (D.map key).Nodup)
    (hx : D[k]? = some x) :
    Scan D (removed ++ [x]) (k + 1) (l.filter fun y => key y ≠ key x) i := by
  obtain ⟨hbefore, hbehind⟩ := key_ne_of_nodup hD hx
  have hkept : (D.take (k + 1)).filter (· ∉ removed ++ [x]) =
      (D.take k).filter (· ∉ removed) := by
    rw [take_succ_of_getElem? hx, List.filter_append]
    have hsame : (D.take k).filter (· ∉ removed ++ [x]) = (D.take k).filter (· ∉ removed) := by
      refine List.filter_congr fun y hy => ?_
      have hne : y ≠ x := fun heq => hbefore y hy (congrArg key heq)
      simp [hne]
    rw [hsame]
    simp
  refine ⟨?_, ?_, fun y hy => ?_⟩
  · have hall : ∀ y ∈ (D.take k).filter (· ∉ removed), decide (key y ≠ key x) = true := by
      intro y hy
      simpa using hbefore y (List.mem_filter.mp hy).1
    have hrest : ∀ y ∈ D.drop (k + 1), decide (key y ≠ key x) = true := by
      simpa using hbehind
    rw [h.list, drop_of_getElem? hx, List.filter_append, hkept, List.filter_eq_self.mpr hall,
      List.filter_cons_of_neg (by simp), List.filter_eq_self.mpr hrest]
  · rw [hkept]
    exact h.position
  · rw [take_succ_of_getElem? hx]
    rcases List.mem_append.mp hy with hy | hy
    · exact List.mem_append_left _ (h.visited y hy)
    · exact List.mem_append_right _ hy

/-- Whatever is added at the end of the list, the walk is to come to. -/
theorem Scan.grow (h : Scan D removed k l i) (hk : k ≤ D.length) (L : List α) :
    Scan (D ++ L) removed k (l ++ L) i := by
  have htake : (D ++ L).take k = D.take k := List.take_append_of_le_length hk
  refine ⟨?_, ?_, fun x hx => ?_⟩
  · rw [htake, List.drop_append_of_le_length hk, h.list, List.append_assoc]
  · rw [htake]
    exact h.position
  · rw [htake]
    exact h.visited x hx

/-- In the middle of the walk too what is left is what has not been removed. -/
theorem Scan.list_eq_filter (h : Scan D removed k l i) (hD : D.Nodup) :
    l = D.filter (· ∉ removed) := by
  have hrest : ∀ y ∈ D.drop k, decide (y ∉ removed) = true := by
    intro y hy
    have hnodup := hD
    rw [← List.take_append_drop k D] at hnodup
    have hne := (List.nodup_append.mp hnodup).2.2
    exact decide_eq_true fun hmem => hne y (h.visited y hmem) y hy rfl
  conv_rhs => rw [← List.take_append_drop k D, List.filter_append]
  rw [List.filter_eq_self.mpr hrest]
  exact h.list

/-- At the end of the walk what is left is what has not been removed. -/
theorem Scan.complete (h : Scan D removed k l i) (hk : D.length ≤ k) :
    l = D.filter (· ∉ removed) := by
  rw [h.list, List.take_of_length_le hk, List.drop_eq_nil_of_le hk, List.append_nil]

end Scan

/-! ### A measure -/

/-- A part of a list that lacks one of its elements is shorter. -/
theorem length_lt_of_sublist_of_notMem {l l' : List α} {x : α} (h : l'.Sublist l) (hx : x ∈ l)
    (hx' : x ∉ l') : l'.length < l.length := by
  refine lt_of_le_of_ne h.length_le fun heq => hx' ?_
  rwa [h.eq_of_length heq]

/-- **The measure rule**: positive numbers up to `n` that decrease strictly are at most `n`. -/
theorem length_le_of_pairwise_gt {l : List ℤ} {n : ℕ} (h : l.Pairwise (· > ·))
    (hpos : ∀ x ∈ l, 0 < x) (hle : ∀ x ∈ l, x ≤ n) : l.length ≤ n := by
  induction l generalizing n with
  | nil => exact Nat.zero_le _
  | cons x l ih =>
    obtain ⟨hx, hl⟩ := List.pairwise_cons.mp h
    obtain ⟨hx0, hpos⟩ := List.forall_mem_cons.mp hpos
    obtain ⟨hxn, -⟩ := List.forall_mem_cons.mp hle
    have hrest : l.length ≤ n - 1 := by
      refine ih hl hpos fun y hy => ?_
      have := hx y hy
      omega
    simp only [List.length_cons]
    omega

end Traversal
