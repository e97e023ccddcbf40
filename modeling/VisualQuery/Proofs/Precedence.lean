import Mathlib.Data.List.Basic
import Mathlib.Data.List.Nodup

/-! # One element before another

Orders of nodes and of instances are lists without repetition. That an element stands before
another in one is said by a sublist, which appending and reversing carry along; in a list without
repetition it is the order of the two positions (`before_iff_idxOf_lt`). -/

namespace VisualQuery

def Before {α : Type} (l : List α) (x y : α) : Prop := [x, y].Sublist l

variable {α β : Type} {l m : List α} {x y : α}

theorem Before.mono (h : Before l x y) (hs : l.Sublist m) : Before m x y := h.trans hs

theorem Before.left_mem (h : Before l x y) : x ∈ l := h.subset (by simp)

theorem Before.right_mem (h : Before l x y) : y ∈ l := h.subset (by simp)

/-- What is in the front part stands before what is in the back part. -/
theorem before_append (hx : x ∈ l) (hy : y ∈ m) : Before (l ++ m) x y :=
  (List.singleton_sublist.mpr hx).append (List.singleton_sublist.mpr hy)

theorem before_middle (hx : x ∈ m) : Before (l ++ y :: m) y x :=
  ((List.singleton_sublist.mpr hx).cons_cons y).trans (List.sublist_append_right _ _)

theorem before_iff_append :
    Before l x y ↔ ∃ front back, l = front ++ back ∧ x ∈ front ∧ y ∈ back := by
  constructor
  · intro h
    obtain ⟨front, back, rfl, hx, hy⟩ :=
      List.append_sublist_iff.mp (show ([x] ++ [y]).Sublist l from h)
    exact ⟨front, back, rfl, List.singleton_sublist.mp hx, List.singleton_sublist.mp hy⟩
  · intro hx
    obtain ⟨front, back, rfl, hx, hy⟩ := hx
    exact before_append hx hy

theorem before_reverse : Before l.reverse x y ↔ Before l y x :=
  (List.reverse_sublist : [y, x].reverse.Sublist l.reverse ↔ _)

theorem before_concat {z : α} :
    Before (l ++ [z]) x y ↔ Before l x y ∨ x ∈ l ∧ y = z := by
  have hcons : Before (z :: l.reverse) y x ↔ Before l.reverse y x ∨ x ∈ l.reverse ∧ y = z := by
    unfold Before
    rw [List.sublist_cons_iff]
    simp [and_comm]
  rw [← before_reverse, ← before_reverse (l := l), List.reverse_concat, hcons, List.mem_reverse]

theorem Before.map (f : α → β) (h : Before l x y) : Before (l.map f) (f x) (f y) :=
  List.Sublist.map f h

theorem before_flatMap {f : α → List β} {u v : β} (h : Before l x y) (hu : u ∈ f x) (hv : v ∈ f y) :
    Before (l.flatMap f) u v := by
  obtain ⟨front, back, rfl, hx, hy⟩ := before_iff_append.mp h
  rw [List.flatMap_append]
  exact before_append (List.mem_flatMap_of_mem hx hu) (List.mem_flatMap_of_mem hy hv)

/-- Of two elements one stands before the other. -/
theorem before_or_before (hx : x ∈ l) (hy : y ∈ l) (hne : x ≠ y) : Before l x y ∨ Before l y x := by
  obtain ⟨front, back, rfl⟩ := List.append_of_mem hx
  rcases List.mem_append.mp hy with hy | hy
  · exact .inr (before_append hy (by simp))
  · exact .inl (before_middle ((List.mem_cons.mp hy).resolve_left hne.symm))

/-- What stands before the middle of a list without repetition is in the front part. -/
theorem mem_of_before_middle (hn : (l ++ y :: m).Nodup) (h : Before (l ++ y :: m) x y) : x ∈ l := by
  obtain ⟨front, back, he, hx, hy⟩ := before_iff_append.mp h
  rcases List.append_eq_append_iff.mp he.symm with ⟨rest, rfl, _⟩ | ⟨_ | ⟨z, rest⟩, rfl, hm⟩
  · exact List.mem_append_left _ hx
  · rwa [List.append_nil] at hx
  · obtain ⟨rfl, rfl⟩ := List.cons.inj hm
    have hout := (List.nodup_cons.mp (List.nodup_append.mp hn).2.1).1
    exact absurd (List.mem_append_right _ hy) hout

/-- A sublist of a list without repetition is told by its elements. -/
theorem filter_mem_of_sublist [DecidableEq α] (hn : l.Nodup) (h : m.Sublist l) :
    l.filter (· ∈ m) = m := by
  induction h with
  | slnil => rfl
  | cons z h ih =>
    obtain ⟨hz, hn⟩ := List.nodup_cons.mp hn
    rw [List.filter_cons_of_neg (by simpa using fun hm => hz (h.subset hm)), ih hn]
  | cons_cons z h ih =>
    obtain ⟨hz, hn⟩ := List.nodup_cons.mp hn
    rw [List.filter_cons_of_pos (by simp), ← ih hn]
    refine congrArg (z :: ·) (List.filter_congr fun w hw => ?_)
    have hne : w ≠ z := ne_of_mem_of_not_mem hw hz
    simp [hne, hw]

section Positions
variable [DecidableEq α]

theorem idxOf?_of_mem (h : x ∈ l) : l.idxOf? x = some (l.idxOf x) := by
  obtain ⟨i, hi⟩ := Option.isSome_iff_exists.mp (List.isSome_idxOf?.mpr h)
  rw [List.idxOf_eq_getD_idxOf?, hi, Option.getD_some]

/-- In a list without repetition every element has one position. -/
theorem getElem?_eq_some_iff_idxOf (hn : l.Nodup) (h : x ∈ l) {i : Nat} :
    l[i]? = some x ↔ l.idxOf x = i := by
  constructor
  · intro hi
    obtain ⟨hil, rfl⟩ := List.getElem?_eq_some_iff.mp hi
    exact hn.idxOf_getElem i hil
  · intro hx
    subst hx
    rw [List.getElem?_eq_getElem (List.idxOf_lt_length_of_mem h), List.getElem_idxOf]

/-- In a list without repetition, to stand before is to have the smaller position. -/
theorem before_iff_idxOf_lt (hn : l.Nodup) (hy : y ∈ l) :
    Before l x y ↔ l.idxOf x < l.idxOf y := by
  constructor
  · intro h
    obtain ⟨front, back, rfl, hx, hy⟩ := before_iff_append.mp h
    have hyf : y ∉ front := fun hf => (List.nodup_append.mp hn).2.2 y hf y hy rfl
    have := List.idxOf_lt_length_of_mem hx
    rw [List.idxOf_append, List.idxOf_append, if_pos hx, if_neg hyf]
    omega
  · intro h
    obtain ⟨front, back, rfl⟩ := List.append_of_mem hy
    have hyf : y ∉ front := fun hf => (List.nodup_append.mp hn).2.2 y hf y (by simp) rfl
    have hx : x ∈ front := by
      by_contra hx
      rw [List.idxOf_append, List.idxOf_append, if_neg hx, if_neg hyf, List.idxOf_cons_self] at h
      omega
    exact before_append hx (by simp)

theorem idxOf_lt_concat {z : α} (hy : y ∈ l) :
    (l ++ [z]).idxOf x < (l ++ [z]).idxOf y ↔ l.idxOf x < l.idxOf y := by
  have hlt := List.idxOf_lt_length_of_mem hy
  rw [List.idxOf_append_of_mem hy]
  by_cases hx : x ∈ l
  · rw [List.idxOf_append_of_mem hx]
  · rw [List.idxOf_append_of_notMem hx, List.idxOf_eq_length hx]
    omega

theorem idxOf_lt_last {z : α} (hz : z ∉ l) :
    (l ++ [z]).idxOf x < (l ++ [z]).idxOf z ↔ x ∈ l := by
  rw [List.idxOf_append_of_notMem hz, List.idxOf_cons_self]
  constructor
  · intro h
    by_contra hx
    rw [List.idxOf_append_of_notMem hx] at h
    omega
  · intro hx
    have hlt := List.idxOf_lt_length_of_mem hx
    rw [List.idxOf_append_of_mem hx]
    omega

theorem Before.trans {z : α} (hn : l.Nodup) (h : Before l x y) (h' : Before l y z) :
    Before l x z := by
  have hxy := (before_iff_idxOf_lt hn h.right_mem).mp h
  have hyz := (before_iff_idxOf_lt hn h'.right_mem).mp h'
  exact (before_iff_idxOf_lt hn h'.right_mem).mpr (Nat.lt_trans hxy hyz)

theorem Before.asymm (hn : l.Nodup) (h : Before l x y) : ¬ Before l y x := by
  intro h'
  have hxy := (before_iff_idxOf_lt hn h.right_mem).mp h
  have hyx := (before_iff_idxOf_lt hn h'.right_mem).mp h'
  omega

end Positions

end VisualQuery
