import Mathlib.Data.List.Nodup
import VisualQuery.Proofs.Catalog.Registration
import VisualQuery.Proofs.Json.Keys

/-! # Names in a catalog

A description that was read names its schemas apart, and the tables within each schema: in a text
the last of several entries with one name replaces the others, and the keys of a value increase
(`Description.Distinct`). So in a catalog that was read a table is found under its own two names
and under no others (`Orderly.findTable?_eq_some_iff`). -/

namespace VisualQuery

/-- Schemas have different names, and so have the tables of each. -/
structure Description.Distinct (d : Description) : Prop where
  schemas : (d.map (·.1)).Nodup
  tables : ∀ s ∈ d, (s.2.map (·.1)).Nodup

/-! ## Names read from a text -/

section Entries
variable {α : Type} {entries : List (String × α)}

theorem mem_putEntry {key : String} {value : α} {e : String × α}
    (h : e ∈ putEntry entries key value) : e = (key, value) ∨ e ∈ entries := by
  unfold putEntry at h
  split at h
  · obtain ⟨x, hx, rfl⟩ := List.mem_map.mp h
    split
    · exact .inl rfl
    · exact .inr hx
  · exact (List.mem_append.mp h).symm.imp List.mem_singleton.mp id

theorem nodup_putEntry (h : (entries.map (·.1)).Nodup) (key : String) (value : α) :
    ((putEntry entries key value).map (·.1)).Nodup := by
  unfold putEntry
  split
  · have hkeys : (entries.map fun e => if e.1 = key then (key, value) else e).map (·.1) =
        entries.map (·.1) := by
      rw [List.map_map]
      refine List.map_congr_left fun e _ => ?_
      by_cases he : e.1 = key <;> simp [he]
    rwa [hkeys]
  · next hnew =>
    rw [List.map_append, List.nodup_append]
    refine ⟨h, List.nodup_singleton _, fun x hx y hy hxy => ?_⟩
    obtain ⟨e, he, rfl⟩ := List.mem_map.mp hx
    obtain rfl := List.mem_singleton.mp hy
    exact hnew (List.any_eq_true.mpr ⟨e, he, by simpa using hxy⟩)

theorem lastOfEach_spec (entries : List (String × α)) :
    ((lastOfEach entries).map (·.1)).Nodup ∧ ∀ e ∈ lastOfEach entries, e ∈ entries := by
  have hfold : ∀ (es done : List (String × α)), (done.map (·.1)).Nodup →
      ((es.foldl (fun done e => putEntry done e.1 e.2) done).map (·.1)).Nodup ∧
        ∀ e ∈ es.foldl (fun done e => putEntry done e.1 e.2) done, e ∈ done ∨ e ∈ es := by
    intro es
    induction es with
    | nil => exact fun done h => ⟨h, fun e he => .inl he⟩
    | cons x rest ih =>
      intro done h
      obtain ⟨hnodup, hmem⟩ := ih _ (nodup_putEntry h x.1 x.2)
      refine ⟨hnodup, fun e he => ?_⟩
      rcases hmem e he with he | he
      · rcases mem_putEntry he with rfl | he
        · exact .inr (by simp)
        · exact .inl he
      · exact .inr (List.mem_cons_of_mem _ he)
  obtain ⟨hnodup, hmem⟩ := hfold entries [] List.nodup_nil
  exact ⟨hnodup, fun e he => (hmem e he).resolve_left (by simp)⟩

theorem exists_of_entries {reader : Json.Node → Except Json.Fault α} :
    ∀ {members : Json.Members} {entries : List (String × α)},
      members.entries reader = .ok entries → ∀ e ∈ entries, ∃ node, reader node = .ok e.2
  | .close, _, h => by
    cases h
    simp
  | .ends, _, h => by cases h
  | .stray, _, h => by cases h
  | .dangling, _, h => by cases h
  | .cut, _, h => by cases h
  | .keyless, _, h => by cases h
  | .lone key atEnd, _, h => by
    obtain ⟨_, _, h⟩ := bind_eq_ok_iff.mp h
    split at h <;> cases h
  | .member key value rest, _, h => by
    obtain ⟨k, _, h⟩ := bind_eq_ok_iff.mp h
    obtain ⟨x, hx, h⟩ := bind_eq_ok_iff.mp h
    obtain ⟨xs, hxs, h⟩ := bind_eq_ok_iff.mp h
    cases h
    intro e he
    rcases List.mem_cons.mp he with rfl | he
    · exact ⟨value, hx⟩
    · exact exists_of_entries hxs e he

theorem exists_of_entriesOf {reader : Json.Node → Except Json.Fault α} {node : Json.Node}
    (h : node.entriesOf reader = .ok entries) : ∀ e ∈ entries, ∃ child, reader child = .ok e.2 := by
  cases node with
  | object members => exact exists_of_entries h
  | _ => cases h

end Entries

theorem Description.distinct_ofNode {node : Json.Node} {d : Description}
    (h : Description.ofNode node = .ok d) : d.Distinct := by
  obtain ⟨schemas, hschemas, h⟩ := bind_eq_ok_iff.mp h
  cases h
  obtain ⟨hnodup, hmem⟩ := lastOfEach_spec schemas
  refine ⟨hnodup, fun s hs => ?_⟩
  obtain ⟨tables, htables⟩ := exists_of_entriesOf hschemas s (hmem s hs)
  rw [map_eq_pure_bind] at htables
  obtain ⟨entries, _, htables⟩ := bind_eq_ok_iff.mp htables
  have hlast : lastOfEach entries = s.2 := by simpa [pure, Except.pure] using htables
  rw [← hlast]
  exact (lastOfEach_spec entries).1

/-! ## Names read from a value -/

theorem Json.Value.asEntries_eq_ok {α : Type} {reader : Json.Value → Except Json.Fault α}
    {v : Json.Value} {entries : List (String × α)} (h : v.asEntries reader = .ok entries) :
    ∃ members, v = .object members ∧ entries.map (·.1) = members.map (·.1) ∧
      ∀ e ∈ entries, ∃ m ∈ members, reader m.2 = .ok e.2 := by
  cases v with
  | object members =>
    refine ⟨members, rfl, ?_⟩
    have hread : List.Forall₂ (fun (m : String × Json.Value) (e : String × α) =>
        e.1 = m.1 ∧ reader m.2 = .ok e.2) members entries := by
      refine (mapM_eq_ok_iff.mp h).imp fun m e he => ?_
      obtain ⟨x, hx, he⟩ := bind_eq_ok_iff.mp he
      cases he
      exact ⟨rfl, hx⟩
    refine ⟨?_, fun e he => ?_⟩
    · exact eq_map_of_forall₂ (List.forall₂_map_right_iff.mpr (hread.imp fun m e he => he.1.symm))
    · obtain ⟨m, hm, he⟩ := exists_of_forall₂ hread he
      exact ⟨m, hm, he.2⟩
  | _ => cases h

theorem Description.distinct_ofValue {v : Json.Value} {d : Description} (hv : v.Sorted)
    (h : Description.ofValue v = .ok d) : d.Distinct := by
  obtain ⟨schemas, rfl, hkeys, hschemas⟩ := Json.Value.asEntries_eq_ok h
  cases hv with
  | object hincreasing hmembers =>
    refine ⟨hkeys ▸ hincreasing.nodup, fun s hs => ?_⟩
    obtain ⟨m, hm, hs⟩ := hschemas s hs
    obtain ⟨tables, htables, hkeys', _⟩ := Json.Value.asEntries_eq_ok hs
    have hsorted := hmembers m hm
    rw [htables] at hsorted
    cases hsorted with
    | object hincreasing' _ => exact hkeys' ▸ hincreasing'.nodup

namespace Catalog

/-- A catalog that was read from a text, or from a value whose keys increase. -/
def Read (c : Catalog) : Prop :=
  (∃ text, ofText text = .ok c) ∨ ∃ v : Json.Value, v.Sorted ∧ ofValue v = .ok c

/-- What holds of every catalog that was read. -/
structure Orderly (c : Catalog) : Prop where
  owned : Owned c
  filed : Filed c
  distinct : c.described.Distinct

variable {c : Catalog}

theorem orderly_ofDescription {d : Description} (hd : d.Distinct) (h : ofDescription d = .ok c) :
    Orderly c := by
  obtain ⟨hfiled, hdescribed⟩ := filed_ofDescription h
  exact ⟨owned_ofDescription h, hfiled, hdescribed ▸ hd⟩

theorem Read.orderly (h : c.Read) : Orderly c := by
  rcases h with ⟨text, h⟩ | ⟨v, hv, h⟩
  · obtain ⟨d, hd, h⟩ := ofText_eq_ok h
    exact orderly_ofDescription (Description.distinct_ofNode (Json.root_of_read hd)) h
  · obtain ⟨d, hd, h⟩ := ofValue_eq_ok h
    exact orderly_ofDescription (Description.distinct_ofValue hv hd) h

theorem Read.built (h : c.Read) : Built c :=
  h.imp id fun hv => by
    obtain ⟨v, _, hv⟩ := hv
    exact ⟨v, hv⟩

/-! ## Look-ups by name -/

def nameOf? (c : Catalog) (t : TableId) : Option (String × String) := do
  let table ← c.tables[t]?
  let schema ← c.schemas[table.schema]?
  pure (schema.name, table.name)

theorem fullName?_eq (c : Catalog) (t : TableId) :
    c.fullName? t = (c.nameOf? t).map fun x => x.1 ++ "." ++ x.2 := by
  unfold fullName? nameOf?
  cases c.tables[t]? with
  | none => rfl
  | some table =>
    show (c.schemas[table.schema]?).bind _ = ((c.schemas[table.schema]?).bind _).map _
    cases c.schemas[table.schema]? <;> rfl

theorem nameOf?_eq_some_iff {t : TableId} {schema name : String} :
    c.nameOf? t = some (schema, name) ↔ ∃ (table : Table) (owner : Schema),
      c.tables[t]? = some table ∧ c.schemas[table.schema]? = some owner ∧
        owner.name = schema ∧ table.name = name := by
  simp only [nameOf?, Option.bind_eq_bind, Option.bind_eq_some_iff, Option.pure_def,
    Option.some.injEq, Prod.mk.injEq]
  constructor
  · intro hx
    obtain ⟨table, ht, owner, ho, hnames⟩ := hx
    exact ⟨table, owner, ht, ho, hnames⟩
  · intro hx
    obtain ⟨table, owner, ht, ho, hnames⟩ := hx
    exact ⟨table, ht, owner, ho, hnames⟩

theorem Filed.mem_tables (h : Filed c) {t : TableId} {x : Table} (ht : c.tables[t]? = some x) :
    ∃ owner : Schema, c.schemas[x.schema]? = some owner ∧ t ∈ owner.tables := by
  have hlt := (Array.getElem?_eq_some_iff.mp ht).1
  have hm : t ∈ c.schemas.toList.flatMap (·.tables) := by
    rw [h.tables]
    exact List.mem_range.mpr hlt
  obtain ⟨owner, ho, hto⟩ := List.mem_flatMap.mp hm
  obtain ⟨s, hs⟩ := List.mem_iff_getElem?.mp ho
  rw [Array.getElem?_toList] at hs
  obtain ⟨table, ht', hschema⟩ := h.owned s owner hs t hto
  rw [ht] at ht'
  cases ht'
  exact ⟨owner, hschema ▸ hs, hto⟩

theorem Filed.exists_fullName? (h : Filed c) {t : TableId} (ht : t < c.tables.size) :
    ∃ name, c.fullName? t = some name := by
  have hx := Array.getElem?_eq_getElem ht
  obtain ⟨owner, ho, _⟩ := h.mem_tables hx
  exact ⟨owner.name ++ "." ++ c.tables[t].name, by simp [fullName?, hx, ho]⟩

/-- A table that is found has the names that it was looked up by. -/
theorem Filed.nameOf?_of_findTable? (h : Filed c) {schema name : String} {t : TableId}
    (ht : c.findTable? schema name = some t) : c.nameOf? t = some (schema, name) := by
  simp only [findTable?, Option.bind_eq_bind, Option.bind_eq_some_iff] at ht
  obtain ⟨s, hs, owner, ho, ht⟩ := ht
  obtain ⟨table, htable, rfl⟩ := h.owned s owner ho t (List.mem_of_find?_eq_some ht)
  have hname := List.find?_some ht
  rw [htable, Option.any_some, decide_eq_true_eq] at hname
  obtain ⟨hlt, hschema, _⟩ := List.findIdx?_eq_some_iff_getElem.mp hs
  have howner := (Array.getElem?_eq_some_iff.mp ho).2
  rw [Array.getElem_toList, howner, decide_eq_true_eq] at hschema
  exact nameOf?_eq_some_iff.mpr ⟨table, owner, htable, ho, hschema, hname⟩

theorem Filed.fullName?_of_findTable? (h : Filed c) {schema name : String} {t : TableId}
    (ht : c.findTable? schema name = some t) : c.fullName? t = some (schema ++ "." ++ name) := by
  rw [fullName?_eq, h.nameOf?_of_findTable? ht]
  rfl

theorem map_some_filterMap {α β : Type} {f : α → Option β} {l : List α}
    (h : ∀ x ∈ l, ∃ y, f x = some y) : (l.filterMap f).map some = l.map f := by
  induction l with
  | nil => rfl
  | cons x rest ih =>
    obtain ⟨y, hy⟩ := h x (by simp)
    have hrest := ih fun z hz => h z (List.mem_cons_of_mem _ hz)
    simp [hy, hrest]

theorem find?_eq_some_of_unique {α : Type} {p : α → Bool} {l : List α} {x : α} (hx : x ∈ l)
    (hp : p x = true) (h : ∀ y ∈ l, p y = true → y = x) : l.find? p = some x := by
  cases hf : l.find? p with
  | none => exact absurd hp (List.find?_eq_none.mp hf x hx)
  | some y => rw [h y (List.mem_of_find?_eq_some hf) (List.find?_some hf)]

namespace Orderly
variable {s : SchemaId} {t u : TableId} {owner : Schema} {x y : Table}

theorem findSchema?_eq (h : Orderly c) (hs : c.schemas[s]? = some owner) :
    c.findSchema? owner.name = some s := by
  have hnodup : (c.schemas.toList.map (·.name)).Nodup := by
    simpa [described, describedSchema, Function.comp_def] using h.distinct.schemas
  obtain ⟨hlt, rfl⟩ := Array.getElem?_eq_some_iff.mp hs
  unfold findSchema?
  rw [List.findIdx?_eq_some_iff_getElem]
  refine ⟨by simpa using hlt, by simp, fun j hj => ?_⟩
  have hjlt : j < c.schemas.toList.length := by simpa using Nat.lt_trans hj hlt
  have hne := List.pairwise_map.mp hnodup
  have hjs := List.pairwise_iff_getElem.mp hne j s hjlt (by simpa using hlt) hj
  simpa using hjs

/-- Within a schema a table is known by its name. -/
theorem eq_of_name (h : Orderly c) (hs : c.schemas[s]? = some owner) (ht : t ∈ owner.tables)
    (hu : u ∈ owner.tables) (hx : c.tables[t]? = some x) (hy : c.tables[u]? = some y)
    (hname : x.name = y.name) : t = u := by
  have hmem : c.describedSchema owner ∈ c.described := by
    refine List.mem_map_of_mem ?_
    rw [Array.mem_toList_iff]
    exact Array.mem_of_getElem? hs
  have hnodup : (owner.tables.filterMap fun id => (c.tables[id]?).map (·.name)).Nodup := by
    simpa [describedSchema, List.map_filterMap, Function.comp_def, describedTable] using
      h.distinct.tables _ hmem
  have hfound : ∀ id ∈ owner.tables, ∃ name, (c.tables[id]?).map (·.name) = some name := by
    intro id hid
    obtain ⟨table, htable, _⟩ := h.filed.owned s owner hs id hid
    exact ⟨table.name, by rw [htable]; rfl⟩
  have hmap := hnodup.map fun _ _ he => Option.some.inj he
  rw [map_some_filterMap hfound] at hmap
  exact List.inj_on_of_nodup_map hmap ht hu (by simp [hx, hy, hname])

/-- **A table is found under its names** and under no others. -/
theorem findTable?_eq_some_iff (h : Orderly c) {schema name : String} :
    c.findTable? schema name = some t ↔ c.nameOf? t = some (schema, name) := by
  refine ⟨h.filed.nameOf?_of_findTable?, fun hx => ?_⟩
  obtain ⟨table, owner, htable, ho, rfl, rfl⟩ := nameOf?_eq_some_iff.mp hx
  obtain ⟨owner', ho', ht⟩ := h.filed.mem_tables htable
  rw [ho] at ho'
  cases ho'
  simp only [findTable?, Option.bind_eq_bind, Option.bind_eq_some_iff]
  refine ⟨table.schema, h.findSchema?_eq ho, owner, ho, ?_⟩
  refine find?_eq_some_of_unique ht (by simp [htable]) fun u hu hname => ?_
  obtain ⟨x, hx, _⟩ := h.filed.owned _ owner ho u hu
  rw [hx, Option.any_some, decide_eq_true_eq] at hname
  exact h.eq_of_name ho hu ht hx htable hname

end Orderly

end Catalog

end VisualQuery
