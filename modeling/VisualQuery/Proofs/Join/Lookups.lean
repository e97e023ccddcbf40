import VisualQuery.Proofs.Join.Outcome

/-! # No look-up misses

Planning looks up columns and tables in the catalog, the instances of relationships among those
mentioned and in a join order, and on a walk the neighbours and marks of nodes. If one of these
missed there would be no answer. Behind the two checks in front none does, along either direction,
whether the plan is used in the end or not (`finds_of_resolved`); so whatever was drawn, with
endpoints from wherever, there is an answer (`plan?_finds`). -/

namespace VisualQuery
open JoinPlan

/-- The look-ups of planning in a direction, each with what it finds: the edges between positions
of instances, what the walk along them leaves behind, the join order, and the names in the catalog
that make up the result. -/
structure JoinPlan.Finds (catalog : Catalog) (rs : List Relationship) (d : Direction)
    (edges : List (Nat × Nat)) (walked : Walk.State) (order : List InstanceId)
    (result : Except Stuck JoinPlan) : Prop where
  nodes : edges? (instancesOf rs) rs = some edges
  ends : ∀ e ∈ edges, e.1 < (instancesOf rs).length ∧ e.2 < (instancesOf rs).length
  walk : Walk.all (d.neighbours (instancesOf rs).length edges) = some walked
  left : ∀ v ∈ walked.left, v < (instancesOf rs).length
  linearized : joinOrder? d (instancesOf rs) rs = some order
  first : order ≠ []
  positions : ∀ r ∈ rs, (∃ a, order.idxOf? r.a.place = some a) ∧
    ∃ b, order.idxOf? r.b.place = some b
  tables : ∀ i ∈ order, ∃ name, tableName? catalog (firstMentions rs) i = some name
  conditions : ∀ r ∈ rs, ∃ text, condition? catalog r = some text
  planned : inDirection? catalog rs d = some result

variable {catalog : Catalog} {rs : List Relationship} {order : List InstanceId} {d : Direction}

/-- **Along either direction every look-up finds something.** -/
theorem finds_of_resolved (h : Plannable catalog rs) (d : Direction) :
    ∃ edges walked order result, Finds catalog rs d edges walked order result := by
  obtain ⟨order, ho, hordered⟩ := exists_joinOrder? rs d
  obtain ⟨edges, walked, hedges, hmem, hwalked, _, hperm⟩ := exists_walk rs d
  have hspan := hordered.spans h.oriented
  have hleft := fun v hv => List.mem_range.mp (hperm.subset (a := v) hv)
  refine ⟨edges, walked, order, _, hedges, fun e he => ?_, hwalked, hleft, ho,
    hordered.ne_nil h.ne_nil, fun r hr => ⟨?_, ?_⟩, fun i hi => ?_, fun r hr => ?_,
    h.inDirection? ho⟩
  · obtain ⟨r, _, ha, hb⟩ := (hmem e.1 e.2).mp he
    exact ⟨(List.getElem?_eq_some_iff.mp ha).1, (List.getElem?_eq_some_iff.mp hb).1⟩
  · exact ⟨_, idxOf?_of_mem (hspan.a_mem r hr)⟩
  · exact ⟨_, idxOf?_of_mem (hspan.b_mem r hr)⟩
  · exact ⟨_, h.resolved.tableName? (hordered.perm.mem_iff.mp hi)⟩
  · exact ⟨_, h.resolved.condition? hr⟩

/-- **Planning misses no look-up.** Whatever was drawn, with whatever endpoints, planning over a
catalog that was read gives an answer; and where no endpoint is foreign every look-up along either
direction finds something, also along the one that the answer is not taken from. -/
theorem plan?_finds (edits : List GraphEdit) (hc : catalog.Built) :
    let g := Graph.empty.after edits
    (∃ answer, g.plan? catalog = some answer) ∧
    (g.relationships ≠ [] → (∀ r ∈ g.relationships, ¬ r.Foreign catalog) →
      ∀ d, ∃ edges walked order result,
        Finds catalog g.relationships d edges walked order result) := by
  intro g
  refine ⟨exists_answer edits hc, fun hne hr d => ?_⟩
  exact finds_of_resolved (plannable_of_resolved hc.owned hne hr (Graph.oriented_after edits)) d

/-- Two pairs of instances that nothing relates to each other. -/
def pairs : List GraphEdit :=
  [.add ⟨0, 0, 0⟩ ⟨1, 2, 4⟩ .inner, .add ⟨3, 1, 1⟩ ⟨2, 2, 3⟩ .left]

theorem plan?_finds_pairs : Catalog.shop.Built ∧
    (∃ answer, (Graph.empty.after pairs).plan? Catalog.shop = some answer) ∧
    (∃ edges walked order result, Finds Catalog.shop (Graph.empty.after pairs).relationships
      .forward edges walked order result) ∧
    ∃ answer, (Graph.empty.after (.add ⟨0, 7, 9⟩ ⟨5, 0, 2⟩ .right :: pairs)).plan? Catalog.shop =
      some answer := by
  obtain ⟨hanswer, hfinds⟩ := plan?_finds pairs Catalog.built_shop
  exact ⟨Catalog.built_shop, hanswer,
    hfinds (by decide) (find?_foreign_eq_none.mp rfl) .forward,
    (plan?_finds _ Catalog.built_shop).1⟩

end VisualQuery
