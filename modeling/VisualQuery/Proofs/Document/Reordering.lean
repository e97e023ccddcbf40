import VisualQuery.Proofs.Document.Checks
import VisualQuery.Proofs.Document.Renumbering

/-! # Documents over catalogs in another order

Two catalogs that were read with the same content differ in the numbers of tables and columns alone.
Loading finds everything by name, and instances and relationships keep their numbers, so every
document has the same outcome over both (`load_of_sameContent`). -/

namespace VisualQuery

variable {n : Renumbering}

/-! ## Where instances and relationships keep their numbers -/

theorem DocumentError.renumber_eq (hp : n.place = id) (hr : n.relationship = id)
    (e : DocumentError) : e.renumber n = e := by
  cases e with
  | canvas cause =>
    cases cause with
    | graph cause => cases cause <;> simp [DocumentError.renumber, CanvasError.renumber,
        GraphError.renumber, hp, hr]
    | _ => simp [DocumentError.renumber, CanvasError.renumber, hp]
  | unknownPlacement position => simp [DocumentError.renumber, hp]
  | _ => rfl

theorem PlanError.renumber_eq (hp : n.place = id) (hr : n.relationship = id) (e : PlanError) :
    e.renumber n = e := by
  cases e <;> simp [PlanError.renumber, Stuck.renumber, hp, hr]

theorem mapBoth_eq {ε α : Type} {f : ε → ε} (hf : ∀ e, f e = e) (x : Except ε α) :
    mapBoth f id x = x := by
  cases x <;> simp [mapBoth, hf]

namespace Document

/-! ## Catalogs that documents bring along -/

theorem sorted_of_field {d d' : Draft} {key : String}
    {readInto : Json.Node → Except Json.Fault Draft} {node : Json.Node}
    (hd : ∀ v ∈ d.catalog, v.Sorted) (hfield : field d key = .ok readInto)
    (hread : readInto node = .ok d') : ∀ v ∈ d'.catalog, v.Sorted := by
  unfold field at hfield
  split at hfield
  · obtain ⟨v, hv, rfl⟩ := Json.once_eq_ok hfield hread
    intro w hw
    cases hw
    exact Json.Node.sorted_of_value hv
  iterate 4
    split at hfield
    · obtain ⟨_, _, rfl⟩ := Json.once_eq_ok hfield hread
      exact hd
  cases hfield
  obtain ⟨_, _, hread⟩ := bind_eq_ok_iff.mp hread
  cases hread
  exact hd

theorem sorted_of_node {node : Json.Node} {d : Document} (h : ofNode node = .ok d) :
    d.catalog.Sorted := by
  cases node with
  | list items =>
    obtain ⟨⟨v, rest⟩, hv, h⟩ := bind_eq_ok_iff.mp h
    iterate 4 obtain ⟨⟨_, _⟩, _, h⟩ := bind_eq_ok_iff.mp h
    obtain ⟨_, _, h⟩ := bind_eq_ok_iff.mp h
    cases h
    obtain ⟨node, _, hnode⟩ := Json.exists_of_nextOf hv
    exact Json.Node.sorted_of_value hnode
  | object members =>
    obtain ⟨draft, hdraft, h⟩ := bind_eq_ok_iff.mp h
    obtain ⟨v, hv, h⟩ := bind_eq_ok_iff.mp h
    cases h
    have hsorted := Json.Members.fields_keeps (P := fun d : Draft => ∀ v ∈ d.catalog, v.Sorted)
      (fun _ _ _ _ _ => sorted_of_field) (by simp) hdraft
    cases hcatalog : draft.catalog with
    | none =>
      rw [hcatalog] at hv
      cases hv
    | some w =>
      rw [hcatalog] at hv
      cases hv
      exact hsorted v hcatalog
  | _ => cases h

/-- The catalog of a document that was read is one that was read. -/
theorem read_of_ownCatalog {text : String} {d : Document} {c : Catalog}
    (hd : ofText text = .ok d) (hc : d.ownCatalog = .ok c) : c.Read := by
  have hsorted := sorted_of_node (Json.root_of_read hd)
  unfold ownCatalog at hc
  split at hc
  · next c' hc' =>
    cases hc
    exact .inr ⟨d.catalog, hsorted, hc'⟩
  · cases hc

/-! ## Loading -/

theorem refer_eq (hp : n.place = id) (d : Document) : d.refer n d.tables = d := by
  simp [refer, SavedRelationship.renumber, SavedGridColumn.renumber, SavedColumn.renumber, hp]

/-- The tables of a document are found under their other numbers. -/
theorem mirrors_tableOf {c c' : Catalog} (hp : n.place = id) (h : c.Renumbers n c')
    (ts : List SavedTable) :
    Mirrors (·.renumber n) (fun ids ids' => ∀ k : Nat, ids'[n.place k]? = ids[k]?.map n.table)
      (ts.mapM (tableOf c)) (ts.mapM (tableOf c')) := by
  have hstep : ∀ t : SavedTable, Mirrors (·.renumber n) (fun id id' => n.table id = id')
      (tableOf c t) (tableOf c' t) := by
    intro t
    unfold tableOf
    rw [h.findTable?]
    cases c.findTable? t.schema t.table with
    | none => exact .error (DocumentError.unknownTable t.schema t.table)
    | some table => exact .ok rfl
  have hall := Mirrors.mapM (k := id) hstep ts
  rw [List.map_id] at hall
  refine hall.imp fun ids ids' hids k => ?_
  rw [eq_map_of_forall₂ hids, hp, List.getElem?_map]
  rfl

/-- **The order of registration never shows**: over two catalogs that were read, with the same
content up to the order of schemas and of tables, a document is refused for the same reason, or it
is loaded over both and compiling answers the same. -/
theorem load_of_sameContent {c c' : Catalog} (hc : c.Read) (hc' : c'.Read)
    (h : c.described.SameContent c'.described) (d : Document) (defaults : Defaults) :
    (∃ e, d.load? c defaults = some (.error e) ∧ d.load? c' defaults = some (.error e)) ∨
    ∃ q q' answer, d.load? c defaults = some (.ok q) ∧ d.load? c' defaults = some (.ok q') ∧
      q.compile? = some answer ∧ q'.compile? = some answer := by
  have hnumbers := hc.orderly.renumbers hc'.orderly h
  have hload := load_renumber strictMono_id rfl hnumbers d defaults
    (mirrors_tableOf rfl hnumbers d.tables)
  rw [refer_eq rfl] at hload
  obtain ⟨answer, hanswer, _⟩ := decides_load hc.orderly d defaults
  have hq : d.load? c defaults = some answer := hanswer
  cases answer with
  | error e =>
    have hq' := eq_error_of_rel hload hq
    rw [DocumentError.renumber_eq rfl rfl] at hq'
    exact .inl ⟨e, hq, hq'⟩
  | ok q =>
    obtain ⟨q', hq', hquery⟩ := exists_ok_of_rel hload hq
    obtain ⟨answer, hanswer⟩ := exists_answer_of_load hc.built hq q.totals
    refine .inr ⟨q, q', answer, hq, hq', hanswer, ?_⟩
    rw [hquery.compile? Function.injective_id, hanswer, Option.map_some,
      mapBoth_eq (PlanError.renumber_eq rfl rfl)]

end Document

/-- The same tables, the other way round. -/
def ordersFirst : Catalog where
  schemas := #[⟨"shop", [0, 1]⟩]
  tables := #[⟨"orders", 0, [0]⟩, ⟨"buyers", 0, [1]⟩]
  columns := #[⟨"buyer", false, 0⟩, ⟨"id", true, 1⟩]

theorem read_ordersFirst : ordersFirst.Read := by
  let text := "\x7b\"shop\":\x7b\"orders\":[[\"buyer\",false]],\"buyers\":[[\"id\",true]]\x7d\x7d"
  have hread : (Catalog.ofText text).toOption = some ordersFirst := by decide +kernel
  refine .inl ⟨text, ?_⟩
  cases h : Catalog.ofText text with
  | error e =>
    rw [h] at hread
    cases hread
  | ok c =>
    rw [h] at hread
    cases hread
    rfl

/-- Orders joined to their buyers have the same clauses over both catalogs. -/
theorem load_of_sameContent_shop : buyersFirst.Read ∧ ordersFirst.Read ∧
    buyersFirst.described.SameContent ordersFirst.described ∧ ∃ q q' clauses,
      ordersOfBuyers.load? buyersFirst Settings.standard.defaults = some (.ok q) ∧
      ordersOfBuyers.load? ordersFirst Settings.standard.defaults = some (.ok q') ∧
      q.compile? = some (.ok clauses) ∧ q'.compile? = some (.ok clauses) := by
  have hsame : buyersFirst.described.SameContent ordersFirst.described :=
    ⟨_, .refl _, .cons ⟨rfl, .swap _ _ _⟩ .nil⟩
  refine ⟨read_buyersFirst, read_ordersFirst, hsame, ?_⟩
  rcases Document.load_of_sameContent read_buyersFirst read_ordersFirst hsame ordersOfBuyers
    Settings.standard.defaults with ⟨e, he, _⟩ | ⟨q, q', answer, hq, hq', hanswer, hanswer'⟩
  · cases he
  · cases hq
    cases hanswer
    exact ⟨_, q', _, rfl, hq', rfl, hanswer'⟩

end VisualQuery
