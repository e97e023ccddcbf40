import Mathlib.Data.Finset.Card
import Mathlib.Logic.Relation
import VisualQuery.Join.Walk
import VisualQuery.Proofs.Precedence

/-! # What a depth-first walk leaves behind

A walk from a list of targets leaves behind exactly the nodes that it can reach through fresh
nodes, each once, and changes no other mark (`Explores`). Both loops of a walk are the same fold
over targets, the one over all nodes and the one over the neighbours of a node, so the two cases
to prove are one target more (`Explores.append`) and the node in front of its neighbours
(`Explores.around`). As many nested visits as there are fresh nodes always suffice. -/

namespace VisualQuery.Walk
open Relation

def Edge (next : Neighbours) (u v : Nat) : Prop := ∃ vs, next[u]? = some vs ∧ v ∈ vs

/-- Every neighbour is a node. -/
def Closed (next : Neighbours) : Prop := ∀ u v, Edge next u v → v < next.length

def Fresh (marks : List Mark) (v : Nat) : Prop := marks[v]? = some .unvisited

/-- An edge into a fresh node. -/
def Step (next : Neighbours) (marks : List Mark) (u v : Nat) : Prop :=
  Edge next u v ∧ Fresh marks v

/-- A path on which every node behind the first is fresh. -/
abbrev Reach (next : Neighbours) (marks : List Mark) : Nat → Nat → Prop :=
  ReflTransGen (Step next marks)

def freshNodes (marks : List Mark) : Finset Nat :=
  (Finset.range marks.length).filter fun v => marks[v]? = some .unvisited

/-- What a walk from `targets` does to a state: it leaves the nodes `new` behind. -/
structure Explores (next : Neighbours) (targets : List Nat) (s : State) (new : List Nat)
    (s' : State) : Prop where
  left : s'.left = s.left ++ new
  size : s'.marks.length = s.marks.length
  marks : ∀ v, s'.marks[v]? = if v ∈ new then some .done else s.marks[v]?
  nodup : new.Nodup
  mem_iff : ∀ v, v ∈ new ↔ ∃ t ∈ targets, Fresh s.marks t ∧ Reach next s.marks t v
  /-- A node that is no target was come to from one that is left behind later. -/
  parent : ∀ v ∈ new, v ∈ targets ∨ ∃ u, Edge next u v ∧ Before new v u
  /-- A neighbour is left behind earlier, unless it leads back. -/
  ordered : ∀ u ∈ new, ∀ v, Edge next u v → Fresh s.marks v →
    Before new v u ∨ Reach next s.marks v u

variable {next : Neighbours} {s s₁ s₂ : State} {targets more new new₁ new₂ : List Nat}

/-! ## Fresh nodes -/

theorem Fresh.lt {marks : List Mark} {v : Nat} (h : Fresh marks v) : v < marks.length :=
  (List.getElem?_eq_some_iff.mp h).1

theorem mem_freshNodes {marks : List Mark} {v : Nat} : v ∈ freshNodes marks ↔ Fresh marks v := by
  simp only [freshNodes, Finset.mem_filter, Finset.mem_range]
  exact ⟨fun h => h.2, fun h => ⟨Fresh.lt h, h⟩⟩

theorem fresh_set {marks : List Mark} {node v : Nat} {m : Mark} (hm : m ≠ .unvisited) :
    Fresh (marks.set node m) v ↔ v ≠ node ∧ Fresh marks v := by
  unfold Fresh
  rw [List.getElem?_set]
  split
  · next he =>
    subst he
    split
    · simp [hm]
    · simp
  · next hne => exact ⟨fun h => ⟨fun he => hne he.symm, h⟩, fun h => h.2⟩

theorem card_freshNodes_set {marks : List Mark} {node : Nat} {m : Mark} (hm : m ≠ .unvisited)
    (hf : Fresh marks node) :
    (freshNodes (marks.set node m)).card < (freshNodes marks).card := by
  apply Finset.card_lt_card
  refine ⟨fun v hv => ?_, fun hs => ?_⟩
  · rw [mem_freshNodes, fresh_set hm] at hv
    exact mem_freshNodes.mpr hv.2
  · have := hs (mem_freshNodes.mpr hf)
    rw [mem_freshNodes, fresh_set hm] at this
    exact this.1 rfl

theorem Reach.mono {marks marks' : List Mark} (h : ∀ v, Fresh marks v → Fresh marks' v)
    {u v : Nat} (hr : Reach next marks u v) : Reach next marks' u v :=
  hr.lift id fun _ _ hs => ⟨hs.1, h _ hs.2⟩

namespace Explores

theorem fresh_of_mem (h : Explores next targets s new s₁) {v : Nat} (hv : v ∈ new) :
    Fresh s.marks v := by
  obtain ⟨t, _, hf, hr⟩ := (h.mem_iff v).mp hv
  cases hr with
  | refl => exact hf
  | tail _ hs => exact hs.2

theorem fresh_iff (h : Explores next targets s new s₁) (v : Nat) :
    Fresh s₁.marks v ↔ Fresh s.marks v ∧ v ∉ new := by
  unfold Fresh
  rw [h.marks v]
  split
  · next hv => simp [hv]
  · next hv => simp [hv]

theorem card_le (h : Explores next targets s new s₁) :
    (freshNodes s₁.marks).card ≤ (freshNodes s.marks).card := by
  apply Finset.card_le_card
  intro v hv
  rw [mem_freshNodes, h.fresh_iff] at hv
  exact mem_freshNodes.mpr hv.1

theorem mem_of_step (h : Explores next targets s new s₁) {u v : Nat} (hu : u ∈ new)
    (hs : Step next s.marks u v) : v ∈ new := by
  obtain ⟨t, ht, hf, hr⟩ := (h.mem_iff u).mp hu
  exact (h.mem_iff v).mpr ⟨t, ht, hf, hr.tail hs⟩

theorem mem_of_reach (h : Explores next targets s new s₁) {u v : Nat} (hu : u ∈ new)
    (hr : Reach next s.marks u v) : v ∈ new := by
  induction hr with
  | refl => exact hu
  | tail _ hs ih => exact h.mem_of_step ih hs

/-- A path either runs into what a walk has left behind or stays fresh behind it. -/
theorem mem_or_reach (h : Explores next targets s new s₁) {u v : Nat} (hr : Reach next s.marks u v) :
    v ∈ new ∨ Reach next s₁.marks u v := by
  induction hr with
  | refl => exact .inr .refl
  | @tail v w _ hs ih =>
    rcases ih with hv | hv
    · exact .inl (h.mem_of_step hv hs)
    · by_cases hw : w ∈ new
      · exact .inl hw
      · exact .inr (hv.tail ⟨hs.1, (h.fresh_iff w).mpr ⟨hs.2, hw⟩⟩)

theorem nil (next : Neighbours) (s : State) : Explores next [] s [] s where
  left := by simp
  size := rfl
  marks := by simp
  nodup := List.nodup_nil
  mem_iff := by simp
  parent := by simp
  ordered := by simp

theorem skip {t : Nat} (ht : ¬ Fresh s.marks t) : Explores next [t] s [] s where
  left := by simp
  size := rfl
  marks := by simp
  nodup := List.nodup_nil
  mem_iff v := by simp [ht]
  parent := by simp
  ordered := by simp

/-- Walking from more targets afterwards. A path from one of them that the first part has cut
ends in what the first part left behind. -/
theorem append (h₁ : Explores next targets s new₁ s₁) (h₂ : Explores next more s₁ new₂ s₂) :
    Explores next (targets ++ more) s (new₁ ++ new₂) s₂ where
  left := by rw [h₂.left, h₁.left, List.append_assoc]
  size := h₂.size.trans h₁.size
  marks v := by
    rw [h₂.marks, h₁.marks]
    by_cases hv₂ : v ∈ new₂ <;> by_cases hv₁ : v ∈ new₁ <;> simp [hv₁, hv₂]
  nodup := by
    refine List.nodup_append.mpr ⟨h₁.nodup, h₂.nodup, fun a ha b hb he => ?_⟩
    exact ((h₁.fresh_iff b).mp (h₂.fresh_of_mem hb)).2 (he ▸ ha)
  mem_iff v := by
    rw [List.mem_append, h₁.mem_iff v, h₂.mem_iff v]
    constructor
    · intro hx
      rcases hx with ⟨t, ht, hf, hr⟩ | ⟨t, ht, hf, hr⟩
      · exact ⟨t, List.mem_append_left _ ht, hf, hr⟩
      · exact ⟨t, List.mem_append_right _ ht, ((h₁.fresh_iff t).mp hf).1,
          hr.mono fun w hw => ((h₁.fresh_iff w).mp hw).1⟩
    · intro hx
      obtain ⟨t, ht, hf, hr⟩ := hx
      rcases List.mem_append.mp ht with ht | ht
      · exact .inl ⟨t, ht, hf, hr⟩
      · rw [← h₁.mem_iff v]
        by_cases htn : t ∈ new₁
        · exact .inl (h₁.mem_of_reach htn hr)
        · exact (h₁.mem_or_reach hr).imp_right fun hr₁ =>
            ⟨t, ht, (h₁.fresh_iff t).mpr ⟨hf, htn⟩, hr₁⟩
  parent v hv := by
    rcases List.mem_append.mp hv with hv | hv
    · rcases h₁.parent v hv with ht | ⟨u, he, hb⟩
      · exact .inl (List.mem_append_left _ ht)
      · exact .inr ⟨u, he, hb.mono (List.sublist_append_left _ _)⟩
    · rcases h₂.parent v hv with ht | ⟨u, he, hb⟩
      · exact .inl (List.mem_append_right _ ht)
      · exact .inr ⟨u, he, hb.mono (List.sublist_append_right _ _)⟩
  ordered u hu v he hf := by
    rcases List.mem_append.mp hu with hu | hu
    · exact (h₁.ordered u hu v he hf).imp_left fun hb => hb.mono (List.sublist_append_left _ _)
    · by_cases hv : v ∈ new₁
      · exact .inl (before_append hv hu)
      · rcases h₂.ordered u hu v he ((h₁.fresh_iff v).mpr ⟨hf, hv⟩) with hb | hr
        · exact .inl (hb.mono (List.sublist_append_right _ _))
        · exact .inr (hr.mono fun w hw => ((h₁.fresh_iff w).mp hw).1)

/-! A node is in progress while the walk from its neighbours goes on, so a path back to it is one
that the neighbours do not see. -/

section Around
variable {node u v : Nat} {vs : List Nat}

theorem reach_of_inProgress (hr : Reach next (s.marks.set node .inProgress) u v) :
    Reach next s.marks u v :=
  hr.mono fun _ hw => ((fresh_set (by simp)).mp hw).2

theorem reach_below (hvs : next[node]? = some vs)
    (h : Explores next vs { s with marks := s.marks.set node .inProgress } new s₁) (hv : v ∈ new) :
    Reach next s.marks node v := by
  obtain ⟨t, ht, hft, hr⟩ := (h.mem_iff v).mp hv
  have hfresh : Fresh s.marks t := ((fresh_set (by simp)).mp hft).2
  exact .head ⟨⟨vs, hvs, ht⟩, hfresh⟩ (reach_of_inProgress hr)

theorem node_not_mem
    (h : Explores next vs { s with marks := s.marks.set node .inProgress } new s₁) :
    node ∉ new := by
  intro hn
  have hf := (fresh_set (by simp)).mp (h.fresh_of_mem hn)
  exact hf.1 rfl

/-- A fresh neighbour of anything visited is visited, or is the node itself. -/
theorem mem_of_step_around (hvs : next[node]? = some vs)
    (h : Explores next vs { s with marks := s.marks.set node .inProgress } new s₁)
    (hu : u ∈ new ++ [node]) (hs : Step next s.marks u v) : v ∈ new ++ [node] := by
  by_cases hv : v = node
  · simp [hv]
  have hfv : Fresh (s.marks.set node .inProgress) v := (fresh_set (by simp)).mpr ⟨hv, hs.2⟩
  apply List.mem_append_left
  rcases List.mem_append.mp hu with hu | hu
  · exact h.mem_of_step hu ⟨hs.1, hfv⟩
  · obtain ⟨ws, hws, hvw⟩ := hs.1
    rw [List.mem_singleton.mp hu, hvs, Option.some.injEq] at hws
    exact (h.mem_iff v).mpr ⟨v, hws ▸ hvw, hfv, .refl⟩

theorem mem_around_iff (hf : Fresh s.marks node) (hvs : next[node]? = some vs)
    (h : Explores next vs { s with marks := s.marks.set node .inProgress } new s₁) :
    v ∈ new ++ [node] ↔ ∃ t ∈ [node], Fresh s.marks t ∧ Reach next s.marks t v := by
  constructor
  · intro hv
    refine ⟨node, by simp, hf, ?_⟩
    rcases List.mem_append.mp hv with hv | hv
    · exact reach_below hvs h hv
    · rw [List.mem_singleton.mp hv]
  · intro hx
    obtain ⟨t, ht, _, hr⟩ := hx
    rw [List.mem_singleton.mp ht] at hr
    induction hr with
    | refl => simp
    | tail _ hs ih => exact mem_of_step_around hvs h ih hs

theorem ordered_around (hvs : next[node]? = some vs)
    (h : Explores next vs { s with marks := s.marks.set node .inProgress } new s₁)
    (hu : u ∈ new ++ [node]) (he : Edge next u v) (hf : Fresh s.marks v) :
    Before (new ++ [node]) v u ∨ Reach next s.marks v u := by
  by_cases hv : v = node
  · right
    subst hv
    rcases List.mem_append.mp hu with hu | hu
    · exact reach_below hvs h hu
    · rw [List.mem_singleton.mp hu]
  rcases List.mem_append.mp hu with hu | hu
  · rcases h.ordered u hu v he ((fresh_set (by simp)).mpr ⟨hv, hf⟩) with hb | hr
    · exact .inl (hb.mono (List.sublist_append_left _ _))
    · exact .inr (reach_of_inProgress hr)
  · left
    have hmem := mem_of_step_around hvs h (List.mem_append_right _ hu) ⟨he, hf⟩
    rcases List.mem_append.mp hmem with hvn | hvn
    · exact before_append hvn hu
    · exact absurd (List.mem_singleton.mp hvn) hv

theorem around (hf : Fresh s.marks node) (hvs : next[node]? = some vs)
    (h : Explores next vs { s with marks := s.marks.set node .inProgress } new s₁) :
    Explores next [node] s (new ++ [node]) ⟨s₁.marks.set node .done, s₁.left ++ [node]⟩ where
  left := by simp [h.left]
  size := by simp [h.size]
  marks v := by
    have hlt : node < s₁.marks.length := by
      rw [h.size, List.length_set]
      exact hf.lt
    rw [List.getElem?_set, h.marks v, List.getElem?_set]
    by_cases hv : node = v
    · simp [hv, hv ▸ hlt]
    · simp [hv, Ne.symm hv]
  nodup := by
    refine List.nodup_append.mpr ⟨h.nodup, by simp, fun a ha b hb he => node_not_mem h ?_⟩
    rwa [← List.mem_singleton.mp hb, ← he]
  mem_iff v := mem_around_iff hf hvs h
  parent v hv := by
    rcases List.mem_append.mp hv with hv | hv
    · rcases h.parent v hv with ht | ⟨u, he, hb⟩
      · exact .inr ⟨node, ⟨vs, hvs, ht⟩, before_append hv (by simp)⟩
      · exact .inr ⟨u, he, hb.mono (List.sublist_append_left _ _)⟩
    · exact .inl hv
  ordered u hu v he hfv := ordered_around hvs h hu he hfv

end Around

end Explores

/-! ## Visits -/

theorem foldlM_explores {fuel : Nat}
    (visits : ∀ s t, s.marks.length = next.length → t < next.length →
      (freshNodes s.marks).card ≤ fuel →
      ∃ new s', visitNew next fuel s t = some s' ∧ Explores next [t] s new s') :
    ∀ (targets : List Nat) (s : State), s.marks.length = next.length →
      (∀ t ∈ targets, t < next.length) → (freshNodes s.marks).card ≤ fuel →
      ∃ new s', targets.foldlM (visitNew next fuel) s = some s' ∧ Explores next targets s new s'
  | [], s, _, _, _ => ⟨[], s, rfl, .nil next s⟩
  | t :: rest, s, hs, ht, hfuel => by
    obtain ⟨new₁, s₁, hv, h₁⟩ := visits s t hs (ht t (by simp)) hfuel
    obtain ⟨new₂, s₂, hr, h₂⟩ := foldlM_explores visits rest s₁ (h₁.size.trans hs)
      (fun u hu => ht u (by simp [hu])) (h₁.card_le.trans hfuel)
    exact ⟨new₁ ++ new₂, s₂, by simp [hv, hr], h₁.append h₂⟩

theorem visitNew_of_visit {fuel : Nat}
    (visits : ∀ s node, s.marks.length = next.length → Fresh s.marks node →
      (freshNodes s.marks).card ≤ fuel →
      ∃ new s', visit next fuel node s = some s' ∧ Explores next [node] s (new ++ [node]) s') :
    ∀ s t, s.marks.length = next.length → t < next.length → (freshNodes s.marks).card ≤ fuel →
      ∃ new s', visitNew next fuel s t = some s' ∧ Explores next [t] s new s' := by
  intro s t hs ht hfuel
  obtain ⟨m, hm⟩ : ∃ m, s.marks[t]? = some m := ⟨_, List.getElem?_eq_getElem (by omega)⟩
  cases m with
  | unvisited =>
    obtain ⟨new, s', hv, h⟩ := visits s t hs hm hfuel
    exact ⟨_, s', by simp [visitNew, hm, hv], h⟩
  | inProgress => exact ⟨[], s, by simp [visitNew, hm], .skip (by simp [Fresh, hm])⟩
  | done => exact ⟨[], s, by simp [visitNew, hm], .skip (by simp [Fresh, hm])⟩

theorem visit_succ (next : Neighbours) (fuel node : Nat) (s : State) :
    visit next (fuel + 1) node s = (do
      let marks ← setMark? s.marks node .inProgress
      let vs ← next[node]?
      let s ← vs.foldlM (visitNew next fuel) { s with marks := marks }
      let marks ← setMark? s.marks node .done
      pure ⟨marks, s.left ++ [node]⟩) := rfl

theorem setMark?_eq {marks : List Mark} {node : Nat} (h : node < marks.length) (m : Mark) :
    setMark? marks node m = some (marks.set node m) := if_pos h

/-- **A visit of a fresh node** ends, leaves behind what the node reaches through fresh nodes, and
the node itself last. -/
theorem visit_explores (hc : Closed next) : ∀ (fuel : Nat) (s : State) (node : Nat),
    s.marks.length = next.length → Fresh s.marks node → (freshNodes s.marks).card ≤ fuel →
    ∃ new s', visit next fuel node s = some s' ∧ Explores next [node] s (new ++ [node]) s'
  | 0, s, node, _, hf, hfuel => by
    have := Finset.card_pos.mpr ⟨node, mem_freshNodes.mpr hf⟩
    omega
  | fuel + 1, s, node, hs, hf, hfuel => by
    obtain ⟨vs, hvs⟩ : ∃ vs, next[node]? = some vs :=
      ⟨_, List.getElem?_eq_getElem (hs ▸ hf.lt : node < next.length)⟩
    have hcard := card_freshNodes_set (m := .inProgress) (by simp) hf
    obtain ⟨new, s₁, hr, h⟩ := foldlM_explores (visitNew_of_visit (visit_explores hc fuel))
      vs { s with marks := s.marks.set node .inProgress } (by simpa using hs)
      (fun t ht => hc node t ⟨_, hvs, ht⟩) (by simp only; omega)
    have hsize : node < s₁.marks.length := by
      rw [h.size, List.length_set]
      exact hf.lt
    refine ⟨new, _, ?_, .around hf hvs h⟩
    rw [visit_succ, setMark?_eq hf.lt, hvs]
    simp [hr, setMark?_eq hsize]

/-! ## The whole walk -/

theorem fresh_start {n v : Nat} : Fresh (State.start n).marks v ↔ v < n := by
  simp [Fresh, State.start, List.getElem?_replicate]

theorem card_freshNodes_start (n : Nat) : (freshNodes (State.start n).marks).card ≤ n := by
  have h := Finset.card_le_card (s := freshNodes (State.start n).marks) (t := Finset.range n)
    (fun v hv => Finset.mem_range.mpr (fresh_start.mp (mem_freshNodes.mp hv)))
  rwa [Finset.card_range] at h

theorem mem_left_iff {n : Nat} {s' : State}
    (h : Explores next (List.range n) (State.start n) s'.left s') (v : Nat) :
    v ∈ s'.left ↔ v < n := by
  refine ⟨fun hv => fresh_start.mp (h.fresh_of_mem hv), fun hv => ?_⟩
  exact (h.mem_iff v).mpr ⟨v, List.mem_range.mpr hv, fresh_start.mpr hv, .refl⟩

theorem perm_range {n : Nat} {s' : State}
    (h : Explores next (List.range n) (State.start n) s'.left s') : s'.left.Perm (List.range n) :=
  (List.perm_ext_iff_of_nodup h.nodup List.nodup_range).mpr fun v => by
    rw [mem_left_iff h, List.mem_range]

end VisualQuery.Walk
