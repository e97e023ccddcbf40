import VisualQuery.Proofs.Catalog.Ownership

/-! # What registration leaves in a catalog

A table is registered with all its columns in one go (`describeTable_eq_ok`), at the end of the
schema that was opened last. So numbers run through the lists of the catalog, depth first
(`Filed`), nothing that was registered changes its number (`Extends`), and the catalog reads back
as what was described (`filed_ofDescription`). -/

namespace VisualQuery.Catalog

variable {c c' : Catalog}

/-- All tables and columns of the first catalog are in the second one, under their numbers. -/
structure Extends (c c' : Catalog) : Prop where
  tables : ∀ (t : TableId) (table : Table), c.tables[t]? = some table → c'.tables[t]? = some table
  columns : ∀ (k : ColumnId) (column : Column),
    c.columns[k]? = some column → c'.columns[k]? = some column

/-- Numbers run through the lists in order, and tables name the schema that lists them. -/
structure Filed (c : Catalog) : Prop where
  tables : c.schemas.toList.flatMap (·.tables) = List.range c.tables.size
  columns : c.tables.toList.flatMap (·.columns) = List.range c.columns.size
  owned : ∀ (s : SchemaId) (schema : Schema), c.schemas[s]? = some schema → ∀ t ∈ schema.tables,
    ∃ table : Table, c.tables[t]? = some table ∧ table.schema = s

theorem filed_empty : Filed empty where
  tables := rfl
  columns := rfl
  owned s schema h := by simp [empty] at h

/-! ## Tables -/

/-- The record of a table with the numbers that its columns will have. -/
def recordOf (c : Catalog) (schema : SchemaId) (d : TableDescription) : Table :=
  ⟨d.1, schema, List.range' c.columns.size d.2.length⟩

/-- Files a table with all its columns at the end of a schema. -/
def register (c : Catalog) (schema : SchemaId) (d : TableDescription) : Catalog where
  schemas := c.schemas.modify schema fun s => { s with tables := s.tables ++ [c.tables.size] }
  tables := c.tables.push (c.recordOf schema d)
  columns := c.columns ++
    (d.2.map fun x => (⟨x.name, x.isPrimaryKey, c.tables.size⟩ : Column)).toArray

theorem modify_push {α : Type} (xs : Array α) (x : α) (f : α → α) :
    (xs.push x).modify xs.size f = xs.push (f x) := by
  apply Array.ext_getElem?
  intro i
  rw [Array.getElem?_modify, Array.getElem?_push, Array.getElem?_push]
  split
  · next h => simp [← h]
  · next h => simp [Ne.symm h]

theorem describeColumns_eq_ok {tables : Array Table} (cols : List ColumnDescription) :
    ∀ {c c' : Catalog} {table : Table}, c.tables = tables.push table →
      cols.foldlM (describeColumn tables.size) c = .ok c' →
      c' = ⟨c.schemas,
        tables.push { table with
          columns := table.columns ++ List.range' c.columns.size cols.length },
        c.columns ++ (cols.map fun x =>
          (⟨x.name, x.isPrimaryKey, tables.size⟩ : Column)).toArray⟩ := by
  -- the table is the last one throughout, so only its own record changes
  induction cols with
  | nil =>
    intro c c' table ht h
    cases h
    simp [← ht]
  | cons x rest ih =>
    intro c c' table ht h
    rw [List.foldlM_cons] at h
    obtain ⟨c₁, hc₁, h⟩ := bind_eq_ok_iff.mp h
    obtain ⟨_, _, hc₁⟩ := bind_eq_ok_iff.mp hc₁
    cases hc₁
    have hpush : (c.addColumn tables.size x.name x.isPrimaryKey).tables =
        tables.push { table with columns := table.columns ++ [c.columns.size] } := by
      rw [addColumn, ht, modify_push]
    rw [ih hpush h]
    simp [addColumn, List.range'_succ]

theorem describeTable_eq_ok {schema : SchemaId} {d : TableDescription}
    (h : describeTable schema c d = .ok c') : c' = c.register schema d := by
  obtain ⟨_, _, h⟩ := bind_eq_ok_iff.mp h
  exact describeColumns_eq_ok d.2 rfl h

theorem extends_register (c : Catalog) (schema : SchemaId) (d : TableDescription) :
    Extends c (c.register schema d) where
  tables t table h := by
    have hlt := (Array.getElem?_eq_some_iff.mp h).1
    simpa [register, Array.getElem?_push, Nat.ne_of_lt hlt] using h
  columns k column h := by
    have hlt := (Array.getElem?_eq_some_iff.mp h).1
    simpa [register, Array.getElem?_append, hlt] using h

/-! ## Numbers -/

theorem Filed.addSchema (h : Filed c) (name : String) : Filed (c.addSchema name) where
  tables := by simpa [Catalog.addSchema] using h.tables
  columns := h.columns
  owned s schema hs t ht := by
    simp only [Catalog.addSchema, Array.getElem?_push] at hs
    split at hs
    · cases hs
      cases ht
    · exact h.owned s schema hs t ht

theorem Filed.register {schemas : Array Schema} {schema : Schema} (h : Filed c)
    (hs : c.schemas = schemas.push schema) (d : TableDescription) :
    Filed (c.register schemas.size d) where
  tables := by
    have ht := h.tables
    simp only [Catalog.register, hs, modify_push] at ht ⊢
    simp only [Array.toList_push, List.flatMap_append, List.flatMap_singleton, ← List.append_assoc,
      Array.size_push, List.range_succ] at ht ⊢
    rw [ht]
  columns := by
    have hrange := List.range'_append_1 (s := 0) (m := c.columns.size) (n := d.2.length)
    simpa [Catalog.register, recordOf, h.columns, List.range_eq_range'] using hrange
  owned s owner ho t ht := by
    have hold : ∀ old : Schema, c.schemas[s]? = some old → t ∈ old.tables →
        ∃ table : Table, (c.register schemas.size d).tables[t]? = some table ∧
          table.schema = s := by
      intro old hold hm
      obtain ⟨table, htable, hschema⟩ := h.owned s old hold t hm
      exact ⟨table, (extends_register c _ d).tables t table htable, hschema⟩
    simp only [Catalog.register, hs, modify_push, Array.getElem?_push] at ho
    split at ho
    · next hlast =>
      cases ho
      rcases List.mem_append.mp ht with hm | hm
      · exact hold schema (by simp [hs, hlast]) hm
      · rw [List.mem_singleton.mp hm]
        exact ⟨c.recordOf schemas.size d, by simp [Catalog.register], hlast.symm⟩
    · next hlast => exact hold owner (by simp [hs, Array.getElem?_push, hlast, ho]) ht

/-! ## Reading back -/

theorem Filed.lt_of_listed (h : Filed c) {schema : Schema} (hs : schema ∈ c.schemas.toList)
    {t : TableId} (ht : t ∈ schema.tables) : t < c.tables.size := by
  have hm : t ∈ c.schemas.toList.flatMap (·.tables) := List.mem_flatMap.mpr ⟨schema, hs, ht⟩
  rwa [h.tables, List.mem_range] at hm

theorem Filed.lt_of_column (h : Filed c) {t : TableId} {table : Table}
    (ht : c.tables[t]? = some table) {k : ColumnId} (hk : k ∈ table.columns) :
    k < c.columns.size := by
  have hmem : table ∈ c.tables.toList := by
    rw [Array.mem_toList_iff]
    exact Array.mem_of_getElem? ht
  have hm : k ∈ c.tables.toList.flatMap (·.columns) := List.mem_flatMap.mpr ⟨table, hmem, hk⟩
  rwa [h.columns, List.mem_range] at hm

/-- What was registered reads the same when more is registered. -/
theorem Filed.describedSchema_eq (h : Filed c) (hx : Extends c c') {schema : Schema}
    (hs : schema ∈ c.schemas.toList) : c'.describedSchema schema = c.describedSchema schema := by
  have htable : ∀ t ∈ schema.tables,
      (c'.tables[t]?).map c'.describedTable = (c.tables[t]?).map c.describedTable := by
    intro t ht
    have hlt := h.lt_of_listed hs ht
    have hfound : c.tables[t]? = some c.tables[t] := Array.getElem?_eq_getElem hlt
    have hcolumn : ∀ k ∈ c.tables[t].columns, c'.columns[k]? = c.columns[k]? := by
      intro k hk
      have hk' := Array.getElem?_eq_getElem (h.lt_of_column hfound hk)
      rw [hk', hx.columns k _ hk']
    rw [hx.tables t _ hfound, hfound]
    simp only [Option.map_some, describedTable]
    rw [List.filterMap_congr fun k hk => by rw [hcolumn k hk]]
  unfold describedSchema
  rw [List.filterMap_congr htable]

theorem filterMap_range'_append {α β : Type} (f : α → β) (l : List α) : ∀ xs : Array α,
    (List.range' xs.size l.length).filterMap (fun k => (xs ++ l.toArray)[k]?.map f) = l.map f := by
  induction l with
  | nil => exact fun _ => rfl
  | cons x rest ih =>
    intro xs
    have happend : xs ++ (x :: rest).toArray = xs.push x ++ rest.toArray := by
      apply Array.toList_inj.mp
      simp
    have hfirst : (xs.push x ++ rest.toArray)[xs.size]?.map f = some (f x) := by
      simp
    have hrest := ih (xs.push x)
    rw [Array.size_push] at hrest
    rw [happend, List.length_cons, List.range'_succ]
    simp only [List.filterMap_cons, hfirst, hrest, List.map_cons]

theorem describedTable_register (c : Catalog) (schema : SchemaId) (d : TableDescription) :
    (c.register schema d).describedTable (c.recordOf schema d) = d := by
  have hcolumns := filterMap_range'_append
    (fun x : Column => (⟨x.name, x.isPrimaryKey⟩ : ColumnDescription))
    (d.2.map fun x => (⟨x.name, x.isPrimaryKey, c.tables.size⟩ : Column)) c.columns
  simp only [List.length_map, List.map_map, Function.comp_def] at hcolumns
  unfold describedTable
  simp only [recordOf, register, hcolumns, List.map_id']

theorem Filed.describedSchema_register (h : Filed c) {schema : Schema}
    (hs : schema ∈ c.schemas.toList) (s : SchemaId) (d : TableDescription) :
    (c.register s d).describedSchema { schema with tables := schema.tables ++ [c.tables.size] } =
      (schema.name, (c.describedSchema schema).2 ++ [d]) := by
  have hlast : (c.register s d).tables[c.tables.size]? = some (c.recordOf s d) := by
    simp [Catalog.register]
  have hold := congrArg Prod.snd (h.describedSchema_eq (extends_register c s d) hs)
  simp only [describedSchema] at hold ⊢
  rw [List.filterMap_append, hold]
  simp [hlast, describedTable_register]

/-- Tables are read back behind those that the last schema had. -/
theorem describeTables_described {schemas : Array Schema} (tables : List TableDescription) :
    ∀ {c : Catalog} {schema : Schema}, Filed c → c.schemas = schemas.push schema →
      tables.foldlM (describeTable schemas.size) c = .ok c' →
      Filed c' ∧ c'.described = schemas.toList.map c.describedSchema ++
        [(schema.name, (c.describedSchema schema).2 ++ tables)] := by
  induction tables with
  | nil =>
    intro c schema h hs hc
    cases hc
    exact ⟨h, by simp [described, hs, describedSchema]⟩
  | cons d rest ih =>
    intro c schema h hs hc
    rw [List.foldlM_cons] at hc
    obtain ⟨c₁, hc₁, hc⟩ := bind_eq_ok_iff.mp hc
    obtain rfl := describeTable_eq_ok hc₁
    have hpush : (c.register schemas.size d).schemas =
        schemas.push { schema with tables := schema.tables ++ [c.tables.size] } := by
      rw [register, hs, modify_push]
    obtain ⟨hfiled, hdescribed⟩ := ih (h.register hs d) hpush hc
    have hold : ∀ s ∈ schemas.toList,
        (c.register schemas.size d).describedSchema s = c.describedSchema s := by
      intro s hm
      exact h.describedSchema_eq (extends_register c _ d) (by simp [hs] at hm ⊢; exact .inl hm)
    have hlast : schema ∈ c.schemas.toList := by simp [hs]
    refine ⟨hfiled, ?_⟩
    rw [hdescribed, List.map_congr_left hold, h.describedSchema_register hlast]
    simp

theorem describeSchema_described {d : SchemaDescription} (h : Filed c)
    (hc : describeSchema c d = .ok c') : Filed c' ∧ c'.described = c.described ++ [d] := by
  obtain ⟨_, _, hc⟩ := bind_eq_ok_iff.mp hc
  exact describeTables_described d.2 (h.addSchema d.1) rfl hc

theorem describeSchemas_described (d : Description) : ∀ {c : Catalog}, Filed c →
    d.foldlM describeSchema c = .ok c' → Filed c' ∧ c'.described = c.described ++ d := by
  induction d with
  | nil =>
    intro c h hc
    cases hc
    exact ⟨h, (List.append_nil _).symm⟩
  | cons s rest ih =>
    intro c h hc
    rw [List.foldlM_cons] at hc
    obtain ⟨c₁, hc₁, hc⟩ := bind_eq_ok_iff.mp hc
    obtain ⟨hfiled, hdescribed⟩ := describeSchema_described h hc₁
    obtain ⟨hfiled', hdescribed'⟩ := ih hfiled hc
    exact ⟨hfiled', by rw [hdescribed', hdescribed, List.append_assoc, List.singleton_append]⟩

/-- **A catalog reads back as it was described**, and its numbers run through it in that order. -/
theorem filed_ofDescription {d : Description} (h : ofDescription d = .ok c) :
    Filed c ∧ c.described = d := describeSchemas_described d filed_empty h

theorem Built.filed (h : Built c) : Filed c := by
  obtain ⟨d, hd⟩ := h.exists_description
  exact (filed_ofDescription hd).1

end VisualQuery.Catalog
