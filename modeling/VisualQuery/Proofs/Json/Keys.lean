import Mathlib.Data.String.Basic
import VisualQuery.Json.Value
import VisualQuery.Proofs.Traversal

/-! # Keys of objects

Members are put in front of members that are sorted by key, and a key that is there already is left
alone. So in every value that was read, at any depth, the keys of an object increase
(`Value.Sorted`), and none comes twice. -/

namespace VisualQuery.Json

def Increasing {α : Type} (members : List (String × α)) : Prop := members.Pairwise (·.1 < ·.1)

/-- In every object inside the value keys increase. -/
inductive Value.Sorted : Value → Prop where
  | null : Sorted .null
  | boolean (b : Bool) : Sorted (.boolean b)
  | number (n : Number) : Sorted (.number n)
  | text (s : String) : Sorted (.text s)
  | list {items : List Value} (h : ∀ v ∈ items, Sorted v) : Sorted (.list items)
  | object {members : List (String × Value)} (h : Increasing members)
    (hv : ∀ m ∈ members, Sorted m.2) : Sorted (.object members)

section Members
variable {α : Type} {members : List (String × α)}

theorem Increasing.nodup (h : Increasing members) : (members.map (·.1)).Nodup :=
  List.pairwise_map.mpr (h.imp fun hlt => ne_of_lt hlt)

theorem mem_addMember {key : String} {value : α} {m : String × α}
    (h : m ∈ addMember key value members) : m = (key, value) ∨ m ∈ members := by
  induction members with
  | nil => simpa [addMember] using h
  | cons first rest ih =>
    unfold addMember at h
    split at h
    · simpa using h
    · split at h
      · exact .inr h
      · rcases List.mem_cons.mp h with rfl | h
        · exact .inr (by simp)
        · exact (ih h).imp id (List.mem_cons_of_mem _)

theorem Increasing.addMember (h : Increasing members) (key : String) (value : α) :
    Increasing (addMember key value members) := by
  induction h with
  | nil => exact List.pairwise_singleton _ _
  | @cons first rest hlt hrest ih =>
    unfold Json.addMember
    split
    · next hkey =>
      refine List.pairwise_cons.mpr ⟨fun m hm => ?_, List.pairwise_cons.mpr ⟨hlt, hrest⟩⟩
      rcases List.mem_cons.mp hm with rfl | hm
      · exact hkey
      · exact lt_trans hkey (hlt m hm)
    · next hkey =>
      split
      · exact List.pairwise_cons.mpr ⟨hlt, hrest⟩
      · next hne =>
        have hgt : first.1 < key := lt_of_le_of_ne (not_lt.mp hkey) (Ne.symm hne)
        refine List.pairwise_cons.mpr ⟨fun m hm => ?_, ih⟩
        rcases mem_addMember hm with rfl | hm
        · exact hgt
        · exact hlt m hm

end Members

mutual

theorem Node.sorted_of_value : ∀ {node : Node} {depth : Nat} {v : Value},
    node.value depth = .ok v → v.Sorted
  | .missing, _, _, h => by simp [Node.value] at h
  | .stray, _, _, h => by simp [Node.value] at h
  | .word announced spelling, _, _, h => by
    unfold Node.value at h
    obtain ⟨_, _, h⟩ := bind_eq_ok_iff.mp h
    cases announced with
    | null =>
      cases h
      exact .null
    | boolean b =>
      cases h
      exact .boolean b
  | .number written, _, _, h => by
    unfold Node.value at h
    obtain ⟨n, _, h⟩ := bind_eq_ok_iff.mp h
    cases h
    exact .number n
  | .text string, _, _, h => by
    unfold Node.value at h
    obtain ⟨s, _, h⟩ := bind_eq_ok_iff.mp h
    cases h
    exact .text s
  | .list items, 0, _, h => by simp [Node.value] at h
  | .list items, depth + 1, _, h => by
    unfold Node.value at h
    obtain ⟨vs, hvs, h⟩ := bind_eq_ok_iff.mp h
    cases h
    exact .list (Items.sorted_of_values hvs)
  | .object members, 0, _, h => by simp [Node.value] at h
  | .object members, depth + 1, _, h => by
    unfold Node.value at h
    obtain ⟨ms, hms, h⟩ := bind_eq_ok_iff.mp h
    cases h
    obtain ⟨hkeys, hvalues⟩ := Members.sorted_of_values hms
    exact .object hkeys hvalues

theorem Items.sorted_of_values : ∀ {items : Items} {depth : Nat} {vs : List Value},
    items.values depth = .ok vs → ∀ v ∈ vs, v.Sorted
  | .close, _, _, h => by
    simp [Items.values] at h
    simp [h]
  | .ends, _, _, h => by simp [Items.values] at h
  | .stray, _, _, h => by simp [Items.values] at h
  | .dangling, _, _, h => by simp [Items.values] at h
  | .item node rest, _, _, h => by
    unfold Items.values at h
    obtain ⟨x, hx, h⟩ := bind_eq_ok_iff.mp h
    obtain ⟨xs, hxs, h⟩ := bind_eq_ok_iff.mp h
    cases h
    intro v hv
    rcases List.mem_cons.mp hv with rfl | hv
    · exact Node.sorted_of_value hx
    · exact Items.sorted_of_values hxs v hv

theorem Members.sorted_of_values : ∀ {members : Members} {depth : Nat}
    {ms : List (String × Value)}, members.values depth = .ok ms →
      Increasing ms ∧ ∀ m ∈ ms, m.2.Sorted
  | .close, _, _, h => by
    simp [Members.values] at h
    simp [h, Increasing]
  | .ends, _, _, h => by simp [Members.values] at h
  | .stray, _, _, h => by simp [Members.values] at h
  | .dangling, _, _, h => by simp [Members.values] at h
  | .cut, _, _, h => by simp [Members.values] at h
  | .keyless, _, _, h => by simp [Members.values] at h
  | .lone key atEnd, _, _, h => by
    unfold Members.values at h
    obtain ⟨_, _, h⟩ := bind_eq_ok_iff.mp h
    split at h <;> cases h
  | .member key value rest, _, _, h => by
    unfold Members.values at h
    obtain ⟨k, _, h⟩ := bind_eq_ok_iff.mp h
    obtain ⟨x, hx, h⟩ := bind_eq_ok_iff.mp h
    obtain ⟨xs, hxs, h⟩ := bind_eq_ok_iff.mp h
    cases h
    obtain ⟨hkeys, hvalues⟩ := Members.sorted_of_values hxs
    refine ⟨hkeys.addMember k x, fun m hm => ?_⟩
    rcases mem_addMember hm with rfl | hm
    · exact Node.sorted_of_value hx
    · exact hvalues m hm

end

theorem once_eq_ok {α σ : Type} {name : String} {slot : Option α}
    {reader : Node → Except Fault α} {put : α → σ} {readInto : Node → Except Fault σ} {node : Node}
    {d : σ} (h : once name slot reader put = .ok readInto) (hd : readInto node = .ok d) :
    ∃ x, reader node = .ok x ∧ d = put x := by
  cases slot with
  | some _ => cases h
  | none =>
    cases h
    cases hx : reader node with
    | error fault => simp [hx] at hd
    | ok x => exact ⟨x, rfl, by simpa [hx] using hd.symm⟩

theorem exists_of_nextOf {α : Type} {record : String} {position : Nat}
    {reader : Node → Except Fault α} {items rest : Items} {x : α}
    (h : items.nextOf record position reader = .ok (x, rest)) :
    ∃ node, items = .item node rest ∧ reader node = .ok x := by
  cases items with
  | item node others =>
    obtain ⟨⟨y, others'⟩, hy, h⟩ := bind_eq_ok_iff.mp h
    obtain ⟨z, hz, hy⟩ := bind_eq_ok_iff.mp hy
    cases hy
    cases h
    exact ⟨node, rfl, hz⟩
  | _ => cases h

/-- What each field keeps, a record keeps. -/
theorem Members.fields_keeps {σ : Type} {P : σ → Prop}
    {field : σ → String → Except Fault (Node → Except Fault σ)}
    (hfield : ∀ d key readInto node d', P d → field d key = .ok readInto →
      readInto node = .ok d' → P d') :
    ∀ {members : Members} {d d' : σ}, P d → members.fields field d = .ok d' → P d'
  | .close, _, _, hd, h => by
    cases h
    exact hd
  | .ends, _, _, _, h => by cases h
  | .stray, _, _, _, h => by cases h
  | .dangling, _, _, _, h => by cases h
  | .cut, _, _, _, h => by cases h
  | .keyless, _, _, _, h => by cases h
  | .lone key atEnd, _, _, _, h => by
    obtain ⟨_, _, h⟩ := bind_eq_ok_iff.mp h
    obtain ⟨_, _, h⟩ := bind_eq_ok_iff.mp h
    split at h <;> cases h
  | .member key value rest, _, _, hd, h => by
    obtain ⟨k, _, h⟩ := bind_eq_ok_iff.mp h
    obtain ⟨readInto, hread, h⟩ := bind_eq_ok_iff.mp h
    obtain ⟨d₁, hd₁, h⟩ := bind_eq_ok_iff.mp h
    exact fields_keeps hfield (hfield _ k readInto value d₁ hd hread hd₁) h

theorem root_of_read {α : Type} {t : Outline} {reader : Node → Except Fault α} {x : α}
    (h : t.read reader = .ok x) : reader t.root = .ok x := by
  obtain ⟨y, hy, h⟩ := bind_eq_ok_iff.mp h
  split at h
  · cases h
  · cases h
    exact hy

end VisualQuery.Json
