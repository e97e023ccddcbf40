import VisualQuery.Proofs.Canvas.Anchoring
import VisualQuery.Proofs.Join.Shape

/-! # Plans of a canvas

The graph of a canvas is one that graph edits lead to, and by the invariant of `Anchored` all its
endpoints are columns of placed tables. So planning over the catalog of the canvas never meets a
foreign endpoint, and a plan names the tables that were placed: each placement is either joined or
left out as unrelated (`plan?_after_covers`). -/

namespace VisualQuery
open JoinPlan

namespace Canvas

def PlacedAs (c : Canvas) (i : InstanceId) (name : String) : Prop :=
  ∃ t table, (⟨i, t⟩ : Placement) ∈ c.placements ∧ c.catalog.tables[t]? = some table ∧
    name = table.name

def HasColumn (c : Canvas) (i : InstanceId) (name : String) : Prop :=
  ∃ t k column, (⟨i, t⟩ : Placement) ∈ c.placements ∧ c.catalog.ListsColumn t k ∧
    c.catalog.columns[k]? = some column ∧ name = column.name

/-- A text equates columns of the two placements that a relationship joins. -/
def Equates (c : Canvas) (r : Relationship) (text : String) : Prop :=
  ∃ x y, c.HasColumn r.a.place x ∧ c.HasColumn r.b.place y ∧ text = x ++ " = " ++ y

structure Covers (c : Canvas) (plan : JoinPlan) : Prop where
  perm : (plan.order ++ c.unrelated).Perm (c.placements.map (·.place))
  apart : ∀ p ∈ c.placements, p.place ∈ plan.order ↔ p.place ∉ c.unrelated
  seed : ∃ first, plan.order.head? = some first ∧ c.PlacedAs first plan.seed
  tables : ∀ step ∈ plan.steps, c.PlacedAs step.place step.table
  conditions : ∀ step ∈ plan.steps, List.Forall₂ c.Equates
    (attributed plan.order c.graph.relationships step.place) step.conditions

variable {c c' : Canvas} {catalog : Catalog} {e : CanvasEdit} {x : Endpoint} {plan : JoinPlan}
  {i : InstanceId}

/-! ## The graph on a canvas -/

theorem Moves.graph_eq (hm : Moves c e c') : ∃ edits, c'.graph = c.graph.after edits := by
  cases hm with
  | kept => exact ⟨[], rfl⟩
  | placed table => exact ⟨[], rfl⟩
  | @removed i p hp =>
    refine ⟨(c.endpointsOf p).map .removeTouching, ?_⟩
    rw [Graph.after, List.foldl_map]
    exact (Graph.foldl_removeTouching _ _).symm
  | @connected a b x y kind ha hb => exact ⟨[.add x y kind], rfl⟩
  | edited e => exact ⟨[e], rfl⟩

/-- Whatever is done to a canvas, its graph is one that graph edits lead to. -/
theorem graph_after (edits : List CanvasEdit) :
    ∀ c : Canvas, ∃ graphEdits, (c.after edits).graph = c.graph.after graphEdits := by
  induction edits with
  | nil => exact fun c => ⟨[], rfl⟩
  | cons e rest ih =>
    intro c
    obtain ⟨first, hfirst⟩ := (moves_next c e).graph_eq
    obtain ⟨others, hothers⟩ := ih (c.next e)
    refine ⟨first ++ others, ?_⟩
    rw [Graph.after_append, ← hfirst]
    exact hothers

theorem oriented_after (edits : List CanvasEdit) :
    ∀ r ∈ ((blank catalog).after edits).graph.relationships, r.a.place < r.b.place := by
  obtain ⟨graphEdits, h⟩ := graph_after edits (blank catalog)
  rw [h]
  exact Graph.oriented_after graphEdits

/-! ## Endpoints on placements -/

theorem Anchored.of_mem_mentions (h : Anchored c) (hx : x ∈ mentions c.graph.relationships) :
    c.Anchors x := by
  obtain ⟨r, hr, rfl | rfl⟩ := mem_mentions.mp hx
  · exact (h.sides r hr).1
  · exact (h.sides r hr).2

theorem Anchors.not_foreign (hc : c.catalog.Owned) (hx : c.Anchors x) : ¬ x.Foreign c.catalog := by
  obtain ⟨column, hcolumn, ht⟩ := hc.listsColumn_iff.mp hx.2
  exact fun hf => hf column hcolumn ht

theorem Anchored.not_foreign (h : Anchored c) (hc : c.catalog.Owned) :
    ∀ r ∈ c.graph.relationships, ¬ r.Foreign c.catalog := by
  rintro r hr (hf | hf)
  · exact (h.sides r hr).1.not_foreign hc hf
  · exact (h.sides r hr).2.not_foreign hc hf

theorem Anchored.mem_places (h : Anchored c) (hi : Mentions c.graph.relationships i) :
    i ∈ c.placements.map (·.place) := by
  obtain ⟨e, he, rfl⟩ := mentions_iff.mp hi
  exact List.mem_map.mpr ⟨_, (h.of_mem_mentions he).1, rfl⟩

theorem mem_unrelated_iff : i ∈ c.unrelated ↔
    i ∈ c.placements.map (·.place) ∧ ¬ Mentions c.graph.relationships i := by
  simp only [unrelated, List.mem_filter, Bool.not_eq_true', List.contains_eq_mem,
    decide_eq_false_iff_not, Graph.instances, mem_firstMentions_iff]

theorem Anchored.placedAs (h : Anchored c) {name : String}
    (hn : NamesTable c.catalog c.graph.relationships i name) : c.PlacedAs i name := by
  obtain ⟨e, table, he, ht, hname⟩ := hn
  have hplace : e.place = i := by simpa using List.find?_some he
  have hanchor := h.of_mem_mentions (List.mem_of_find?_eq_some he)
  exact ⟨e.table, table, hplace ▸ hanchor.1, ht, hname⟩

theorem Anchored.equates (h : Anchored c) {r : Relationship} (hr : r ∈ c.graph.relationships)
    {text : String} (he : VisualQuery.Equates c.catalog r text) : c.Equates r text := by
  obtain ⟨a, b, ha, hb, htext⟩ := he
  obtain ⟨hanchor, hanchor'⟩ := h.sides r hr
  exact ⟨a.name, b.name, ⟨_, _, a, hanchor.1, hanchor.2, ha, rfl⟩,
    ⟨_, _, b, hanchor'.1, hanchor'.2, hb, rfl⟩, htext⟩

theorem Anchored.covers (h : Anchored c) (hj : plan.Joins c.catalog c.graph.relationships) :
    c.Covers plan := by
  have hunrelated : ∀ i, i ∈ c.unrelated ↔ i ∈ c.placements.map (·.place) ∧ i ∉ plan.order := by
    intro i
    rw [mem_unrelated_iff, hj.mem_order]
  have hnodup : (plan.order ++ c.unrelated).Nodup := by
    rw [List.nodup_append]
    refine ⟨hj.nodup, (nodup_places h.increasing).filter _, ?_⟩
    rintro i hi _ hu rfl
    exact ((hunrelated i).mp hu).2 hi
  refine ⟨?_, fun p hp => ?_, ?_, fun step hs => ?_, fun step hs => ?_⟩
  · rw [List.perm_ext_iff_of_nodup hnodup (nodup_places h.increasing)]
    intro i
    have hplaced : i ∈ plan.order → i ∈ c.placements.map (·.place) :=
      fun hi => h.mem_places ((hj.mem_order i).mp hi)
    rw [List.mem_append, hunrelated]
    tauto
  · have hplaced := List.mem_map_of_mem (f := (·.place)) hp
    rw [hunrelated]
    tauto
  · obtain ⟨first, hfirst, hseed⟩ := hj.seed
    exact ⟨first, hfirst, h.placedAs hseed⟩
  · exact h.placedAs (hj.steps step hs).table
  · have hmem : ∀ r ∈ attributed plan.order c.graph.relationships step.place,
        r ∈ c.graph.relationships := fun r hr => (mem_attributed.mp hr).1
    exact ((List.forall₂_and_left _ _).mpr ⟨hmem, (hj.steps step hs).conditions⟩).imp
      fun r text hr => h.equates hr.1 hr.2

/-! ## Answers -/

theorem Anchored.plan?_covers (h : Anchored c) (hc : c.catalog.Owned)
    (ho : ∀ r ∈ c.graph.relationships, r.a.place < r.b.place)
    (hp : c.graph.plan? c.catalog = some (.ok plan)) : c.Covers plan := by
  obtain ⟨hplannable, d, order, horder, halong⟩ := plannable_of_plan? hc ho hp
  exact h.covers (joins_of_planAlong hplannable horder halong)

theorem Anchored.exists_answer (h : Anchored c) (hc : c.catalog.Owned)
    (ho : ∀ r ∈ c.graph.relationships, r.a.place < r.b.place) :
    ∃ answer, c.graph.plan? c.catalog = some answer ∧
      ∀ id, answer ≠ .error (.foreignEndpoint id) := by
  by_cases hne : c.graph.relationships = []
  · exact ⟨_, plan?_of_nil hne, by simp⟩
  · have hr := h.not_foreign hc
    obtain ⟨_, _, _, _, he⟩ := plan?_of_resolved hr (plannable_of_resolved hc hne hr ho)
    refine ⟨_, he, fun id hid => ?_⟩
    obtain ⟨stuck, hs⟩ := disconnected_of_eitherPlan hid
    cases hs

/-- **A canvas can be planned over its own catalog**: behind every run of checked edits planning
answers, and never that an endpoint is foreign. A plan covers the canvas: each placement is either
in the order or unrelated, the named tables are those that were placed, and each condition equates
columns of the two placements that its relationship joins. (Placements are told apart by numbers,
of which there are enough for runs that place no more than `InstanceId.limit` tables:
`issued_lt_limit`.) -/
theorem plan?_after_covers (edits : List CanvasEdit) (hc : catalog.Built)
    (he : ∀ e ∈ edits, e.Checked) :
    let c := (blank catalog).after edits
    (∃ answer, c.graph.plan? c.catalog = some answer ∧
      ∀ id, answer ≠ .error (.foreignEndpoint id)) ∧
    ∀ plan, c.graph.plan? c.catalog = some (.ok plan) → c.Covers plan := by
  intro c
  have h : Anchored c := (anchored_blank catalog).after edits he
  have hcatalog : c.catalog = catalog := catalog_after edits (blank catalog)
  have howned : c.catalog.Owned := hcatalog ▸ hc.owned
  exact ⟨h.exists_answer howned (oriented_after edits),
    fun plan hp => h.plan?_covers howned (oriented_after edits) hp⟩

/-- Customers stay unrelated, orders are removed and placed again, and joined with their items. -/
def reordered : List CanvasEdit :=
  [.place 0, .place 2, .connect (0, "id") (1, "customer_id") .left, .remove 1, .place 2, .place 1,
    .connect (3, "order_id") (2, "id") .inner]

theorem plan?_after_covers_reordered : Catalog.shop.Built ∧ (∀ e ∈ reordered, e.Checked) ∧
    ∃ plan, ((blank Catalog.shop).after reordered).graph.plan? Catalog.shop = some (.ok plan) ∧
      ((blank Catalog.shop).after reordered).Covers plan ∧
      ((blank Catalog.shop).after reordered).unrelated = [0] := by
  have he : ∀ e ∈ reordered, e.Checked := by simp [reordered, CanvasEdit.Checked]
  have hcovers := (plan?_after_covers reordered Catalog.built_shop he).2
  exact ⟨Catalog.built_shop, he, _, rfl, hcovers _ rfl, rfl⟩

end Canvas

end VisualQuery
