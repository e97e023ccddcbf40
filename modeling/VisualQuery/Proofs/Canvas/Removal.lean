import VisualQuery.Proofs.Canvas.Anchoring

/-! # What a removal drops

Removing a placement goes through the columns of its table and clears the graph of each endpoint in
turn. Taken together this is one filter: what goes is what has a side at a column of the placement
(`Holds`). Endpoints that are drawn past the placements, on the same instance but with another
table or a column of another table, are no such sides and stay. A placement of a table that the
catalog lacks holds nothing; it goes as well, but then its columns are asked for, and there is no
answer (`edit_remove_drops`). -/

namespace VisualQuery

/-- An endpoint at a column of a placement: on the instance, with the table that is placed, and at
a column that the catalog has in this table. -/
def Placement.Holds (p : Placement) (catalog : Catalog) (e : Endpoint) : Prop :=
  e.place = p.place ∧ e.table = p.table ∧ ∃ column ∈ catalog.columns[e.column]?,
    column.table = p.table

instance (p : Placement) (catalog : Catalog) : DecidablePred (p.Holds catalog) :=
  fun _ => inferInstanceAs (Decidable (_ ∧ _ ∧ _))

namespace Canvas
variable {c : Canvas} {catalog : Catalog} {p : Placement} {i : InstanceId}

/-- What the removal of a placement makes of a canvas: the placement goes, and of the relationships
those with a side that it holds. All else stays, in its order. -/
structure Drops (c : Canvas) (p : Placement) (c' : Canvas) : Prop where
  catalog : c'.catalog = c.catalog
  placements : ∃ front back, c.placements = front ++ p :: back ∧ c'.placements = front ++ back
  gone : ∀ q ∈ c'.placements, q.place ≠ p.place
  relationships : c'.graph.relationships = c.graph.relationships.filter fun r =>
    ¬ p.Holds c.catalog r.a ∧ ¬ p.Holds c.catalog r.b
  nextInstance : c'.nextInstance = c.nextInstance
  nextId : c'.graph.nextId = c.graph.nextId

theorem mem_endpointsOf_iff (hc : c.catalog.Owned) {e : Endpoint} :
    e ∈ c.endpointsOf p ↔ p.Holds c.catalog e := by
  unfold endpointsOf Placement.Holds
  rw [List.mem_map]
  constructor
  · intro hx
    obtain ⟨k, hk, rfl⟩ := hx
    exact ⟨rfl, rfl, hc.listsColumn_iff.mp (Catalog.mem_columnsIn_iff.mp hk)⟩
  · intro hx
    obtain ⟨hplace, htable, hcolumn⟩ := hx
    refine ⟨e.column, Catalog.mem_columnsIn_iff.mpr (hc.listsColumn_iff.mpr hcolumn), ?_⟩
    rw [← hplace, ← htable]

theorem drops_without (hc : c.catalog.Owned) (hl : c.placements.Pairwise (·.place < ·.place))
    (hp : p ∈ c.placements) : c.Drops p (c.without p) where
  catalog := rfl
  placements := by
    -- what goes is the first placement of the number, and numbers increase, so it is `p`
    obtain ⟨q, front, back, _, hq, hsplit, herase⟩ :=
      List.exists_of_eraseP (p := (·.place = p.place)) hp (by simp)
    have hmem : q ∈ c.placements := by simp [hsplit]
    obtain rfl := eq_of_place hl hmem hp (by simpa using hq)
    exact ⟨front, back, hsplit, herase⟩
  gone := place_ne_of_mem_eraseP hl
  relationships := by
    refine List.filter_congr fun r _ => ?_
    rw [Bool.eq_iff_iff, Bool.not_eq_true', ← Bool.not_eq_true, Relationship.any_touches_iff,
      mem_endpointsOf_iff hc, mem_endpointsOf_iff hc, not_or, decide_eq_true_iff]
  nextInstance := rfl
  nextId := rfl

theorem placement_eq_ok_of_mem (hl : c.placements.Pairwise (·.place < ·.place))
    (hp : p ∈ c.placements) : c.placement p.place = .ok p := by
  rw [placement_eq_ok_iff]
  cases hfind : c.placements.find? (·.place = p.place) with
  | none => simpa using List.find?_eq_none.mp hfind p hp
  | some q =>
    have hq := List.find?_some hfind
    rw [eq_of_place hl (List.mem_of_find?_eq_some hfind) hp (by simpa using hq)]

theorem placement_eq_error (h : ∀ p ∈ c.placements, p.place ≠ i) :
    c.placement i = .error (.unknownInstance i) := by
  have hnone : c.placements.find? (·.place = i) = none :=
    List.find?_eq_none.mpr fun p hp => by simpa using h p hp
  simp [placement, hnone]

/-- Whatever was done to a canvas, instances stand in the order of their numbers. -/
theorem increasing_after (catalog : Catalog) (edits : List CanvasEdit) :
    ((blank catalog).after edits).placements.Pairwise (·.place < ·.place) := by
  exact List.pairwise_map.mp
    ((issued_increasing catalog edits).sublist (places_after edits (blank catalog)))

/-- **A removal drops what it holds**, and nothing else, from every canvas over a catalog that was
read, whatever has been drawn in its graph. It answers with the placement if the catalog has the
table that was placed, and else there is no answer. An instance that is not placed cannot be
removed, and the canvas stays as it is. (Numbers of instances count on without a bound here, which
is the same for runs that place no more than `InstanceId.limit` tables: `issued_lt_limit`.) -/
theorem edit_remove_drops (hc : catalog.Built) (edits : List CanvasEdit) (g : Graph) :
    let c := { (blank catalog).after edits with graph := g }
    (∀ p ∈ c.placements, c.Drops p (c.next (.remove p.place)) ∧
      (c.answer (.remove p.place) = some (.ok (.removed p)) ↔ p.table < catalog.tables.size) ∧
      (c.answer (.remove p.place) = none ↔ ¬ p.table < catalog.tables.size)) ∧
    ∀ i, (∀ p ∈ c.placements, p.place ≠ i) →
      c.answer (.remove i) = some (.error (.unknownInstance i)) ∧ c.next (.remove i) = c := by
  intro c
  have hl : c.placements.Pairwise (·.place < ·.place) := increasing_after catalog edits
  have hcatalog : c.catalog = catalog := catalog_after edits (blank catalog)
  have howned : c.catalog.Owned := hcatalog ▸ hc.owned
  refine ⟨fun p hp => ?_, fun i hi => ?_⟩
  · have hplaced := placement_eq_ok_of_mem hl hp
    have hanswer : c.answer (.remove p.place) =
        catalog.tables[p.table]?.map fun _ => .ok (.removed p) := by
      simp only [answer, edit, remove_of_placement hplaced, hcatalog, Option.map_map]
      rfl
    refine ⟨next_remove hplaced ▸ drops_without howned hl hp, ?_, ?_⟩ <;>
      · rw [hanswer]
        by_cases hlt : p.table < catalog.tables.size <;> simp [hlt]
  · have hunknown := remove_of_unknown (placement_eq_error hi)
    exact ⟨by simp [answer, edit, hunknown, Except.map], by simp [next, edit, hunknown]⟩

/-- Customers and their orders, and three more relationships past the placements: to the instance of
the customers with the table of the orders, with a column of the items, and twice to the orders. The
third placement is of a table that the shop does not have. -/
def drawnPast : List CanvasEdit :=
  [.place 0, .place 2, .place 7, .connect (0, "id") (1, "customer_id") .left,
    .graph (.add ⟨0, 2, 0⟩ ⟨1, 2, 3⟩ .inner), .graph (.add ⟨1, 2, 4⟩ ⟨0, 0, 1⟩ .right),
    .graph (.add ⟨1, 2, 3⟩ ⟨5, 2, 3⟩ .inner)]

theorem edit_remove_drops_drawnPast : Catalog.shop.Built ∧
    (let c := (blank Catalog.shop).after drawnPast
    (c.Drops ⟨0, 0⟩ (c.next (.remove 0)) ∧ c.answer (.remove 0) = some (.ok (.removed ⟨0, 0⟩)) ∧
      (c.next (.remove 0)).placements = [⟨1, 2⟩, ⟨2, 7⟩] ∧
      (c.next (.remove 0)).graph.relationships.map (·.id) = [1, 2, 3]) ∧
    (c.Drops ⟨2, 7⟩ (c.next (.remove 2)) ∧ c.answer (.remove 2) = none) ∧
    (∀ p ∈ c.placements, p.place ≠ 5) ∧ c.next (.remove 5) = c) := by
  have h := edit_remove_drops Catalog.built_shop drawnPast ((blank Catalog.shop).after drawnPast).graph
  obtain ⟨hdrops, hanswer, _⟩ := h.1 ⟨0, 0⟩ (by decide)
  obtain ⟨hforeign, _, hnone⟩ := h.1 ⟨2, 7⟩ (by decide)
  have hfive : ∀ p ∈ ((blank Catalog.shop).after drawnPast).placements, p.place ≠ 5 := by decide
  exact ⟨Catalog.built_shop, ⟨hdrops, hanswer.mpr (by decide), rfl, rfl⟩,
    ⟨hforeign, hnone.mpr (by decide)⟩, hfive, (h.2 5 hfive).2⟩

end Canvas

end VisualQuery
