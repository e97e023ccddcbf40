import VisualQuery.Proofs.Walk.Exploration

/-! # A walk root by root

A walk from several targets falls into blocks: each target that is still fresh at its turn is the
root of one, and leaves behind what it can reach and what no target before it could (`ByRoots`).
Within a block every node but the root was come to from one that is left behind later, and no root
reaches a later one. This follows from the visit of one target by adding targets in front. -/

namespace VisualQuery.Walk
open Relation

/-- A root, and the nodes left behind between its visit's start and end. -/
structure Block where
  root : Nat
  below : List Nat

def Block.nodes (b : Block) : List Nat := b.below ++ [b.root]

/-- What a walk from targets leaves behind, root by root. -/
structure ByRoots (next : Neighbours) (targets : List Nat) (s : State) (blocks : List Block)
    (s' : State) : Prop where
  explores : Explores next targets s (blocks.flatMap Block.nodes) s'
  roots : (blocks.map Block.root).Sublist targets
  /-- A target in a block is its root or comes after it. -/
  first : ∀ b ∈ blocks, ∀ t ∈ targets, t ∈ b.nodes → t = b.root ∨ Before targets b.root t
  reach : ∀ b ∈ blocks, ∀ v ∈ b.nodes, Reach next s.marks b.root v
  parent : ∀ b ∈ blocks, ∀ v ∈ b.below, ∃ u, Edge next u v ∧ Before b.nodes v u
  apart : blocks.Pairwise fun b c => ¬ Reach next s.marks b.root c.root

variable {next : Neighbours} {s s₁ s₂ : State} {targets below : List Nat} {blocks : List Block}
  {t v : Nat}

theorem Block.root_mem (b : Block) : b.root ∈ b.nodes := by simp [Block.nodes]

namespace ByRoots

theorem fresh_of_block (h : ByRoots next targets s blocks s₁) {b : Block} (hb : b ∈ blocks)
    (hv : v ∈ b.nodes) : Fresh s.marks v :=
  h.explores.fresh_of_mem (List.mem_flatMap.mpr ⟨b, hb, hv⟩)

theorem nil (next : Neighbours) (s : State) : ByRoots next [] s [] s where
  explores := .nil next s
  roots := List.Sublist.slnil
  first := by simp
  reach := by simp
  parent := by simp
  apart := .nil

/-- A target that is not fresh is passed over. -/
theorem skip (ht : ¬ Fresh s.marks t) (h : ByRoots next targets s blocks s₁) :
    ByRoots next (t :: targets) s blocks s₁ where
  explores := (Explores.skip ht).append h.explores
  roots := h.roots.cons t
  first b hb u hu hm := by
    rcases List.mem_cons.mp hu with rfl | hu
    · exact absurd (h.fresh_of_block hb hm) ht
    · exact (h.first b hb u hu hm).imp_right fun hbefore => hbefore.mono (List.sublist_cons_self ..)
  reach := h.reach
  parent := h.parent
  apart := h.apart

/-- A fresh target is the root of a block of its own. A later root that it reached would have been
left behind with it. -/
theorem visit (hv : Explores next [t] s (below ++ [t]) s₁)
    (hparent : ∀ v ∈ below, ∃ u, Edge next u v ∧ Before (below ++ [t]) v u)
    (h : ByRoots next targets s₁ blocks s₂) :
    ByRoots next (t :: targets) s (⟨t, below⟩ :: blocks) s₂ where
  explores := hv.append h.explores
  roots := h.roots.cons_cons t
  first b hb u hu hm := by
    have hself : t ∈ below ++ [t] := by simp
    rcases List.mem_cons.mp hb with rfl | hlater <;> rcases List.mem_cons.mp hu with rfl | hrest
    · exact .inl rfl
    · exact .inr ((List.singleton_sublist.mpr hrest).cons_cons t)
    · exact absurd hself ((hv.fresh_iff u).mp (h.fresh_of_block hlater hm)).2
    · exact (h.first b hlater u hrest hm).imp_right fun hbefore =>
        hbefore.mono (List.sublist_cons_self ..)
  reach b hb u hu := by
    rcases List.mem_cons.mp hb with rfl | hb
    · obtain ⟨r, hr, _, hreach⟩ := (hv.mem_iff u).mp hu
      rwa [List.mem_singleton.mp hr] at hreach
    · exact (h.reach b hb u hu).mono fun w hw => ((hv.fresh_iff w).mp hw).1
  parent b hb u hu := by
    rcases List.mem_cons.mp hb with rfl | hb
    · exact hparent u hu
    · exact h.parent b hb u hu
  apart := by
    have hout : ∀ b ∈ blocks, b.root ∉ below ++ [t] :=
      fun b hb => ((hv.fresh_iff b.root).mp (h.fresh_of_block hb b.root_mem)).2
    refine List.pairwise_cons.mpr ⟨fun b hb hr => ?_, ?_⟩
    · exact hout b hb (hv.mem_of_reach (by simp) hr)
    · refine h.apart.imp_of_mem fun {b c} _ hc hbc hr => ?_
      exact (hv.mem_or_reach hr).elim (hout c hc) hbc

/-- If the first of all nodes reaches every other one, it is the only root. -/
theorem eq_singleton {n : Nat} (h : ByRoots next (List.range n) s blocks s₁)
    (hfresh : ∀ v < n, Fresh s.marks v) (hn : 0 < n) (hreach : ∀ v < n, Reach next s.marks 0 v) :
    ∃ below, blocks = [⟨0, below⟩] := by
  have hlt : (blocks.map Block.root).Pairwise (· < ·) := List.pairwise_lt_range.sublist h.roots
  have hzero : 0 ∈ blocks.flatMap Block.nodes :=
    (h.explores.mem_iff 0).mpr ⟨0, List.mem_range.mpr hn, hfresh 0 hn, .refl⟩
  obtain ⟨b, hb, hm⟩ := List.mem_flatMap.mp hzero
  have hroot : b.root = 0 := by
    rcases h.first b hb 0 (List.mem_range.mpr hn) hm with he | hbefore
    · exact he.symm
    · have := List.pairwise_lt_range.sublist hbefore
      simp at this
  obtain ⟨front, back, rfl⟩ := List.append_of_mem hb
  have hfront : front = [] := List.eq_nil_iff_forall_not_mem.mpr fun c hc => by
    rw [List.map_append, List.pairwise_append] at hlt
    have := hlt.2.2 c.root (List.mem_map_of_mem hc) b.root (by simp)
    omega
  have hback : back = [] := List.eq_nil_iff_forall_not_mem.mpr fun c hc => by
    have hc' : c ∈ front ++ b :: back := by simp [hc]
    refine (List.pairwise_cons.mp (List.pairwise_append.mp h.apart).2.1).1 c hc ?_
    rw [hroot]
    exact hreach _ (List.mem_range.mp (h.roots.subset (List.mem_map_of_mem hc')))
  obtain ⟨root, below⟩ := b
  obtain rfl : root = 0 := hroot
  exact ⟨below, by rw [hfront, hback, List.nil_append]⟩

end ByRoots

/-! ## The whole walk -/

/-- The nodes below a visited one were come to from others of the same visit. -/
theorem parent_below (hv : Explores next [t] s (below ++ [t]) s₁) :
    ∀ v ∈ below, ∃ u, Edge next u v ∧ Before (below ++ [t]) v u := by
  intro v hm
  refine (hv.parent v (List.mem_append_left _ hm)).resolve_left fun he => ?_
  exact (List.nodup_append.mp hv.nodup).2.2 v hm t (by simp) (List.mem_singleton.mp he)

theorem foldlM_byRoots (hc : Closed next) (fuel : Nat) :
    ∀ (targets : List Nat) (s : State), s.marks.length = next.length →
      (∀ t ∈ targets, t < next.length) → (freshNodes s.marks).card ≤ fuel →
      ∃ blocks s', targets.foldlM (visitNew next fuel) s = some s' ∧
        ByRoots next targets s blocks s'
  | [], s, _, _, _ => ⟨[], s, rfl, .nil next s⟩
  | t :: rest, s, hs, ht, hfuel => by
    have hrest : ∀ u ∈ rest, u < next.length := fun u hu => ht u (List.mem_cons_of_mem t hu)
    obtain ⟨m, hm⟩ : ∃ m, s.marks[t]? = some m :=
      ⟨_, List.getElem?_eq_getElem (hs ▸ ht t (by simp))⟩
    by_cases hfresh : Fresh s.marks t
    · obtain ⟨below, s₁, hvisit, h₁⟩ := visit_explores hc fuel s t hs hfresh hfuel
      obtain ⟨blocks, s₂, hfold, h₂⟩ := foldlM_byRoots hc fuel rest s₁ (h₁.size.trans hs) hrest
        (h₁.card_le.trans hfuel)
      have hnew : visitNew next fuel s t = some s₁ := by
        rw [Fresh] at hfresh
        simp [visitNew, hfresh, hvisit]
      exact ⟨_, s₂, by simp [hnew, hfold], .visit h₁ (parent_below h₁) h₂⟩
    · obtain ⟨blocks, s₂, hfold, h₂⟩ := foldlM_byRoots hc fuel rest s hs hrest hfuel
      have hnew : visitNew next fuel s t = some s := by
        cases m with
        | unvisited => exact absurd hm hfresh
        | inProgress | done => simp [visitNew, hm]
      exact ⟨blocks, s₂, by simp [hnew, hfold], .skip hfresh h₂⟩

/-- **The whole walk** leaves all nodes behind, root by root. -/
theorem all_byRoots (hc : Closed next) : ∃ blocks s, all next = some s ∧
    ByRoots next (List.range next.length) (State.start next.length) blocks s ∧
    s.left = blocks.flatMap Block.nodes := by
  obtain ⟨blocks, s, hfold, h⟩ := foldlM_byRoots hc next.length (List.range next.length)
    (State.start next.length) (by simp [State.start]) (fun t ht => List.mem_range.mp ht)
    (card_freshNodes_start _)
  exact ⟨blocks, s, hfold, h, h.explores.left⟩

end VisualQuery.Walk
