import VisualQuery.Proofs.Join.Outcome

/-! # Walks cover

One visit ends and covers what it can reach, at any moment of any walk over numbered nodes. So the
walk that a join order is taken from, in either direction, leaves every mentioned instance behind,
once (`walks_cover`). -/

namespace VisualQuery
open Walk

/-- **Walks cover.** Whatever the marks and the nodes left behind before, a visit of a fresh node
ends in one state, however much deeper than the number of fresh nodes its calls may be nested. It
leaves behind the nodes that paths through fresh nodes lead to, each once and the visited one last,
marks these as done, and touches nothing else. At the end of the walk that a join order is taken
from every node is done and left behind once, so that the order has every mentioned instance
once, in either direction. -/
theorem walks_cover :
    (∀ (next : Neighbours) (s : State) (node : Nat), Closed next →
      s.marks.length = next.length → Fresh s.marks node → ∃ below s',
        (∀ fuel, (freshNodes s.marks).card ≤ fuel → visit next fuel node s = some s') ∧
        Visited next node s below s') ∧
    ∀ (d : Direction) (rs : List Relationship), ∃ edges s order,
      edges? (instancesOf rs) rs = some edges ∧
      all (d.neighbours (instancesOf rs).length edges) = some s ∧
      s.marks = List.replicate (instancesOf rs).length .done ∧
      s.left.Perm (List.range (instancesOf rs).length) ∧
      joinOrder? d (instancesOf rs) rs = some order ∧ order = reversed (instancesOf rs) s ∧
      order.Nodup ∧ ∀ i, i ∈ order ↔ Mentions rs i := by
  refine ⟨fun next s node => exists_visited, fun d rs => ?_⟩
  obtain ⟨edges, s, hedges, _, hall, hdone, hperm⟩ := exists_walk rs d
  have horder := perm_reversed hperm
  exact ⟨edges, s, _, hedges, hall, hdone, hperm, joinOrder?_of_walk hedges hall hperm, rfl,
    horder.nodup_iff.mpr (nodup_firstMentions rs), fun i => horder.mem_iff.trans mem_instancesOf⟩

/-- A round trip between nodes, of which one is in progress and one done. -/
def roundTrip : Neighbours := [[1, 2], [0, 3], [1, 4], [0], []]

/-- The state in which node 3 has come to node 0 of `roundTrip`. -/
def underway : State := ⟨[.unvisited, .unvisited, .unvisited, .inProgress, .done], [4]⟩

theorem walks_cover_underway : Closed roundTrip ∧ underway.marks.length = roundTrip.length ∧
    Fresh underway.marks 0 ∧ ∃ below s',
      (∀ fuel, (freshNodes underway.marks).card ≤ fuel →
        visit roundTrip fuel 0 underway = some s') ∧
      Visited roundTrip 0 underway below s' := by
  have hc : Closed roundTrip := closed_iff.mpr (by decide)
  exact ⟨hc, rfl, rfl, walks_cover.1 roundTrip underway 0 hc rfl rfl⟩

end VisualQuery
