import Mathlib.Data.List.Induction
import Mathlib.Data.List.Sort
import VisualQuery.Proofs.Catalog.Building
import VisualQuery.Proofs.Catalog.Reordering
import VisualQuery.Proofs.Json.Members
import VisualQuery.Proofs.Text.ByteOrder

/-! # Two readings of a catalog

A description is read from a text as it stands there, or from the value that the text holds. The
first keeps the order of the text, the second goes by the names; of several entries with one name
both take the last. So where a text can be read in both ways the second catalog is the first one
sorted by name (`ofValue_of_ofText`). -/

namespace VisualQuery

/-! ## Sorting by name -/

/-- Names in the order of their bytes. -/
def NotBehind {α : Type} (e e' : String × α) : Prop := Text.bytes e.1 ≤ Text.bytes e'.1

instance {α : Type} : DecidableRel (@NotBehind α) := fun e e' =>
  inferInstanceAs (Decidable (Text.bytes e.1 ≤ Text.bytes e'.1))

theorem notBehind_iff {α : Type} {e e' : String × α} : NotBehind e e' ↔ e.1 ≤ e'.1 := by
  rw [NotBehind, ← List.not_lt, ← not_lt, Text.bytes_lt_bytes_iff]

instance {α : Type} : Std.Total (@NotBehind α) where
  total e e' := by
    rw [notBehind_iff, notBehind_iff]
    exact le_total e.1 e'.1

instance {α : Type} : IsTrans (String × α) NotBehind where
  trans e e' e'' := by
    rw [notBehind_iff, notBehind_iff, notBehind_iff]
    exact le_trans

/-- Entries in the order of the bytes of their names. -/
def sortByName {α : Type} (entries : List (String × α)) : List (String × α) :=
  entries.insertionSort NotBehind

/-- A description with its schemas sorted by name, and the tables of each. -/
def Description.sorted (d : Description) : Description :=
  sortByName (d.map fun s => (s.1, sortByName s.2))

section Sorting
variable {α : Type} {entries sorted : List (String × α)}

theorem perm_sortByName (entries : List (String × α)) : (sortByName entries).Perm entries :=
  List.perm_insertionSort _ entries

theorem increasing_sortByName (h : (entries.map (·.1)).Nodup) :
    Json.Increasing (sortByName entries) := by
  have hne := ((perm_sortByName entries).map (·.1)).nodup_iff.mpr h
  exact ((List.pairwise_insertionSort NotBehind entries).and (List.pairwise_map.mp hne)).imp
    fun h => lt_of_le_of_ne (notBehind_iff.mp h.1) h.2

/-- Sorting is settled by what is in the list. -/
theorem sortByName_eq (h : Json.Increasing sorted) (hn : (entries.map (·.1)).Nodup)
    (hm : ∀ e, e ∈ sorted ↔ e ∈ entries) : sortByName entries = sorted := by
  have hperm : entries.Perm sorted :=
    (List.perm_ext_iff_of_nodup (List.Nodup.of_map _ hn) (List.Nodup.of_map _ h.nodup)).mpr
      fun e => (hm e).symm
  exact ((perm_sortByName entries).trans hperm).eq_of_pairwise
    (fun a b _ _ hab hba => absurd hab (lt_asymm hba)) (increasing_sortByName hn) h

end Sorting

/-- Sorting keeps the content. -/
theorem Description.sameContent_sorted (d : Description) : d.SameContent d.sorted := by
  have hmap : d.sorted = (sortByName d).map fun s => (s.1, sortByName s.2) := by
    symm
    exact List.map_insertionSort _ _ _ d fun _ _ _ _ => Iff.rfl
  refine ⟨sortByName d, (perm_sortByName d).symm, ?_⟩
  rw [hmap, List.forall₂_map_right_iff]
  exact List.forall₂_same.mpr fun s _ => ⟨rfl, (perm_sortByName s.2).symm⟩

/-- Sorting keeps the names. -/
theorem Description.mem_names_sorted {d : Description} {x : Level × String} :
    x ∈ d.sorted.names ↔ x ∈ d.names := by
  have hschema : ∀ s : SchemaDescription,
      x ∈ SchemaDescription.names (s.1, sortByName s.2) ↔ x ∈ s.names := by
    intro s
    simp only [SchemaDescription.names, List.mem_cons, List.mem_flatMap,
      (perm_sortByName s.2).mem_iff]
  simp only [names, sorted, List.mem_flatMap, (perm_sortByName _).mem_iff, List.mem_map]
  constructor
  · intro hx
    obtain ⟨_, ⟨s, hs, rfl⟩, hx⟩ := hx
    exact ⟨s, hs, (hschema s).mp hx⟩
  · intro hx
    obtain ⟨s, hs, hx⟩ := hx
    exact ⟨_, ⟨s, hs, rfl⟩, (hschema s).mpr hx⟩

/-! ## The last entry of each name -/

theorem mem_putEntry_iff {α : Type} {entries : List (String × α)} {e x : String × α} :
    e ∈ putEntry entries x.1 x.2 ↔ e = x ∨ e.1 ≠ x.1 ∧ e ∈ entries := by
  unfold putEntry
  split
  · next hold =>
    obtain ⟨y, hy, hkey⟩ := List.any_eq_true.mp hold
    rw [decide_eq_true_eq] at hkey
    rw [List.mem_map]
    constructor
    · intro hz
      obtain ⟨z, hz, rfl⟩ := hz
      split
      · exact .inl rfl
      · next hne => exact .inr ⟨hne, hz⟩
    · rintro (rfl | ⟨hne, he⟩)
      · exact ⟨y, hy, if_pos hkey⟩
      · exact ⟨e, he, if_neg hne⟩
  · next hnew =>
    have hkeys : ∀ y ∈ entries, y.1 ≠ x.1 := fun y hy hkey =>
      hnew (List.any_eq_true.mpr ⟨y, hy, decide_eq_true hkey⟩)
    rw [List.mem_append, List.mem_singleton, or_comm]
    exact or_congr_right ⟨fun he => ⟨hkeys e he, he⟩, And.right⟩

theorem mem_lastOfEach_iff {α : Type} {entries : List (String × α)} {e : String × α} :
    e ∈ lastOfEach entries ↔ LastOf entries e := by
  induction entries using List.reverseRecOn with
  | nil => simp [lastOfEach, LastOf]
  | append_singleton rest x ih =>
    rw [lastOf_concat, ← ih, lastOfEach, List.foldl_append]
    exact mem_putEntry_iff

open Json (Node Value Items Members collect)

section Entries
variable {α β : Type} {reader' : Value → Except Json.Fault β} {f : α → β}

/-- Members that are collected by key are the last of each name, sorted. -/
theorem mapM_collect {all : List (String × Value)} {es : List (String × α)}
    (h : List.Forall₂ (fun e w => e.1 = w.1 ∧ reader' w.2 = .ok (f e.2)) es all) :
    (collect all).mapM (fun m => do pure (m.1, ← reader' m.2)) =
      .ok (sortByName ((lastOfEach es).map fun e => (e.1, f e.2))) := by
  have hall : ∀ w, LastOf all w → ∃ x, LastOf es (w.1, x) ∧ reader' w.2 = .ok (f x) := fun w hw =>
    hw.forall₂ (R := fun w x => reader' w = .ok (f x))
      (h.flip.imp fun _ _ hx => ⟨hx.1.symm, hx.2⟩)
  obtain ⟨ys, hys⟩ : ∃ ys, (collect all).mapM (fun m => do pure (m.1, ← reader' m.2)) = .ok ys := by
    refine exists_mapM_eq_ok_iff.mpr fun w hw => ?_
    obtain ⟨x, _, hx⟩ := hall w (Json.mem_collect_iff.mp hw)
    exact ⟨(w.1, f x), by rw [hx]; rfl⟩
  have hread : List.Forall₂ (fun w y => w.1 = y.1 ∧ reader' w.2 = .ok y.2) (collect all) ys := by
    refine (mapM_eq_ok_iff.mp hys).imp fun w y hy => ?_
    obtain ⟨z, hz, hy⟩ := bind_eq_ok_iff.mp hy
    cases hy
    exact ⟨rfl, hz⟩
  have hincreasing : Json.Increasing ys := by
    have hkeys : (collect all).map (·.1) = ys.map (·.1) := by
      rw [← List.forall₂_eq_eq_eq, List.forall₂_map_left_iff, List.forall₂_map_right_iff]
      exact hread.imp fun _ _ hx => hx.1
    have hlt := List.pairwise_map.mpr (Json.increasing_collect all)
    rw [hkeys] at hlt
    exact List.pairwise_map.mp hlt
  rw [hys, sortByName_eq hincreasing]
  · rw [List.map_map]
    exact (lastOfEach_spec es).1
  · intro e
    simp only [List.mem_map, mem_lastOfEach_iff]
    constructor
    · intro he
      obtain ⟨w, hw, hkey, hvalue⟩ := exists_of_forall₂ hread he
      obtain ⟨x, hx, hvalue'⟩ := hall w (Json.mem_collect_iff.mp hw)
      rw [hvalue] at hvalue'
      exact ⟨_, hx, Prod.ext hkey (Except.ok.inj hvalue').symm⟩
    · intro hx
      obtain ⟨x, hx, rfl⟩ := hx
      obtain ⟨w, hw, hvalue⟩ := hx.forall₂ (R := fun x w => reader' w = .ok (f x)) h
      obtain ⟨y, hy, hkey, hvalue'⟩ := exists_of_forall₂ hread.flip (Json.mem_collect_iff.mpr hw)
      rw [hvalue] at hvalue'
      rwa [show (x.1, f x.2) = y from Prod.ext hkey (Except.ok.inj hvalue')]

/-- Entries read from a text, the last of each name, and those of the value that the text holds
are the same after sorting. -/
theorem asEntries_of_entriesOf {reader : Node → Except Json.Fault α} {depth : Nat} {node : Node}
    {v : Value} {es : List (String × α)}
    (hr : ∀ {node : Node} {x v}, reader node = .ok x → node.value depth = .ok v →
      reader' v = .ok (f x))
    (h : node.entriesOf reader = .ok es) (hv : node.value (depth + 1) = .ok v) :
    v.asEntries reader' = .ok (sortByName ((lastOfEach es).map fun e => (e.1, f e.2))) := by
  cases node with
  | object members =>
    unfold Node.value at hv
    obtain ⟨vs, hvs, hv⟩ := bind_eq_ok_iff.mp hv
    cases hv
    obtain ⟨ms, hms, hread⟩ := Members.lists_of_entries h
    obtain ⟨ms', all, hms', rfl, hvalues⟩ := Members.lists_of_values hvs
    obtain rfl := hms.unique hms'
    exact mapM_collect (forall₂_of_common hread hvalues fun _ _ _ hx hw =>
      ⟨hx.1.symm.trans hw.1, hr hx.2 hw.2⟩)
  | _ => cases h

end Entries

/-! ## Columns -/

theorem Json.eq_text_of_string {node : Node} {depth : Nat} {s : String} {v : Value}
    (h : node.string = .ok s) (hv : node.value depth = .ok v) : v = .text s := by
  cases node with
  | text string =>
    unfold Node.value at hv
    obtain ⟨s', hs', hv⟩ := bind_eq_ok_iff.mp hv
    cases hv
    rw [show string.read = .ok s from h] at hs'
    cases hs'
    rfl
  | _ => cases h

theorem Json.eq_boolean_of_boolean {node : Node} {depth : Nat} {b : Bool} {v : Value}
    (h : node.boolean = .ok b) (hv : node.value depth = .ok v) : v = .boolean b := by
  unfold Node.boolean at h
  split at h
  · cases h
    unfold Node.value at hv
    cases hv
    rfl
  · cases h

theorem Json.slot_of_once {α σ : Type} {name : String} {slot : Option α}
    {reader : Node → Except Fault α} {put : α → σ} {readInto : Node → Except Fault σ}
    (h : once name slot reader put = .ok readInto) : slot = none := by
  cases slot with
  | some _ => cases h
  | none => rfl

theorem Json.eq_some_of_require {α : Type} {name : String} {slot : Option α} {x : α}
    (h : require name slot = .ok x) : slot = some x := by
  cases slot with
  | none => cases h
  | some y =>
    cases h
    rfl

namespace ColumnDescription

def Draft.names (d : Draft) : List Value := d.name.toList.map .text

def Draft.keyFlags (d : Draft) : List Value := d.isPrimaryKey.toList.map .boolean

/-- Reading a member from a text fills the slot of its key with its value. -/
theorem slots_of_field {depth : Nat} {key : String} {node : Node} {v : Value} {d d' : Draft}
    {readInto : Node → Except Json.Fault Draft} (hfield : field d key = .ok readInto)
    (hread : readInto node = .ok d') (hv : node.value depth = .ok v) :
    d'.names = d.names ++ (if key = "name" then [v] else []) ∧
      d'.keyFlags = d.keyFlags ++ if keyFlagNames.contains key then [v] else [] := by
  unfold field at hfield
  split at hfield
  · next hkey =>
    obtain ⟨s, hs, rfl⟩ := Json.once_eq_ok hfield hread
    have hflag : keyFlagNames.contains key = false := by
      rw [hkey]
      decide
    rw [if_pos hkey, hflag, Json.eq_text_of_string hs hv]
    simp [Draft.names, Draft.keyFlags, Json.slot_of_once hfield]
  · next hkey =>
    rw [if_neg hkey]
    split at hfield
    · next hflag =>
      obtain ⟨b, hb, rfl⟩ := Json.once_eq_ok hfield hread
      rw [if_pos hflag, Json.eq_boolean_of_boolean hb hv]
      simp [Draft.names, Draft.keyFlags, Json.slot_of_once hfield]
    · next hflag =>
      rw [if_neg hflag]
      cases hfield
      obtain ⟨_, _, hread⟩ := bind_eq_ok_iff.mp hread
      cases hread
      simp

theorem slots_of_fields {depth : Nat} {ms : List (String × Node)} {all : List (String × Value)}
    (hall : List.Forall₂ (fun m e => m.1 = e.1 ∧ m.2.value depth = .ok e.2) ms all) :
    ∀ {d d' : Draft}, ms.foldlM (fun d m => do (← field d m.1) m.2) d = .ok d' →
      d'.names = d.names ++ (all.filter (·.1 = "name")).map (·.2) ∧
      d'.keyFlags = d.keyFlags ++ (all.filter (keyFlagNames.contains ·.1)).map (·.2) := by
  induction hall with
  | nil =>
    intro d d' h
    cases h
    simp
  | @cons m e ms all hme _ ih =>
    intro d d' h
    rw [List.foldlM_cons] at h
    obtain ⟨d₁, hd₁, h⟩ := bind_eq_ok_iff.mp h
    obtain ⟨readInto, hfield, hd₁⟩ := bind_eq_ok_iff.mp hd₁
    obtain ⟨hkey, hvalue⟩ := hme
    obtain ⟨hname, hflag⟩ := slots_of_field hfield hd₁ hvalue
    obtain ⟨hnames, hflags⟩ := ih h
    rw [hnames, hflags, hname, hflag, hkey, List.filter_cons, List.filter_cons]
    constructor
    · by_cases hk : e.1 = "name" <;> simp [hk]
    · by_cases hk : e.1 ∈ keyFlagNames <;> simp [hk]

/-- Members fill the slots of a draft if the values under each kind of key go into its slot. -/
theorem foldlM_putMember {s : String} {b : Bool} {entries : List (String × Value)} :
    ∀ {d : Draft}, d.names ++ (entries.filter (·.1 = "name")).map (·.2) = [.text s] →
      d.keyFlags ++ (entries.filter (keyFlagNames.contains ·.1)).map (·.2) = [.boolean b] →
      entries.foldlM putMember d = .ok ⟨some s, some b⟩ := by
  induction entries with
  | nil =>
    intro d hname hflag
    obtain ⟨name, flag⟩ := d
    cases name <;> cases flag <;> simp_all [Draft.names, Draft.keyFlags]
  | cons e rest ih =>
    intro d hname hflag
    obtain ⟨name, flag⟩ := d
    rw [List.foldlM_cons]
    by_cases hk : e.1 = "name"
    · have hother : keyFlagNames.contains e.1 = false := by
        rw [hk]
        decide
      rw [List.filter_cons_of_pos (by simpa using hk)] at hname
      rw [List.filter_cons_of_neg (by simp only [hother]; decide)] at hflag
      cases name with
      | some _ => simp [Draft.names] at hname
      | none =>
        obtain ⟨hvalue, hrest⟩ := List.cons.inj hname
        have hput : putMember ⟨none, flag⟩ e = .ok ⟨some s, flag⟩ := by
          simp [putMember, hk, hvalue, Value.asString]
        rw [hput, ok_bind]
        exact ih (by rw [hrest]; rfl) hflag
    · rw [List.filter_cons_of_neg (by simpa using hk)] at hname
      by_cases hkf : keyFlagNames.contains e.1 = true
      · rw [List.filter_cons_of_pos (by exact hkf)] at hflag
        cases flag with
        | some _ => simp [Draft.keyFlags] at hflag
        | none =>
          obtain ⟨hvalue, hrest⟩ := List.cons.inj hflag
          have hread : e.2.asBoolean = .ok b := by rw [show e.2 = .boolean b from hvalue]; rfl
          have hput : putMember ⟨name, none⟩ e = .ok ⟨name, some b⟩ := by
            simp only [putMember, if_neg hk, if_pos hkf, hread]
            rfl
          rw [hput, ok_bind]
          exact ih hname (by rw [hrest]; rfl)
      · rw [List.filter_cons_of_neg (by exact hkf)] at hflag
        have hput : putMember ⟨name, flag⟩ e = .ok ⟨name, flag⟩ := by
          unfold putMember
          rw [if_neg hk, if_neg hkf]
        rw [hput, ok_bind]
        exact ih hname hflag

/-- A column that was read from a text is read from the value of the text. -/
theorem ofValue_of_ofNode {depth : Nat} {node : Node} {d : ColumnDescription} {v : Value}
    (h : ofNode node = .ok d) (hv : node.value (depth + 1) = .ok v) : ofValue v = .ok d := by
  cases node with
  | list items =>
    unfold Node.value at hv
    obtain ⟨vs, hvs, hv⟩ := bind_eq_ok_iff.mp hv
    cases hv
    obtain ⟨⟨name, items₁⟩, h₁, h⟩ := bind_eq_ok_iff.mp h
    obtain ⟨⟨flag, items₂⟩, h₂, h⟩ := bind_eq_ok_iff.mp h
    obtain ⟨_, hend, h⟩ := bind_eq_ok_iff.mp h
    cases h
    obtain ⟨node₁, rfl, hname⟩ := Json.exists_of_nextOf h₁
    obtain ⟨node₂, rfl, hflag⟩ := Json.exists_of_nextOf h₂
    cases items₂ with
    | close =>
      simp only [Items.values, bind_eq_ok_iff, pure_eq_ok, Except.ok.injEq] at hvs
      obtain ⟨v₁, hv₁, _, ⟨v₂, hv₂, _, rfl, rfl⟩, rfl⟩ := hvs
      rw [Json.eq_text_of_string hname hv₁, Json.eq_boolean_of_boolean hflag hv₂]
      rfl
    | _ => cases hend
  | object members =>
    unfold Node.value at hv
    obtain ⟨vs, hvs, hv⟩ := bind_eq_ok_iff.mp hv
    cases hv
    obtain ⟨draft, hdraft, h⟩ := bind_eq_ok_iff.mp h
    obtain ⟨name, hname, h⟩ := bind_eq_ok_iff.mp h
    obtain ⟨flag, hflag, h⟩ := bind_eq_ok_iff.mp h
    cases h
    obtain ⟨ms, hms, hread⟩ := Members.lists_of_fields hdraft
    obtain ⟨ms', all, hms', rfl, hvalues⟩ := Members.lists_of_values hvs
    obtain rfl := hms.unique hms'
    obtain ⟨hnames, hflags⟩ := slots_of_fields hvalues hread
    rw [Draft.names, Json.eq_some_of_require hname] at hnames
    rw [Draft.keyFlags, Json.eq_some_of_require hflag] at hflags
    obtain ⟨e, he, hvalue⟩ := List.map_eq_singleton_iff.mp hnames.symm
    obtain ⟨e', he', hvalue'⟩ := List.map_eq_singleton_iff.mp hflags.symm
    have hfold : (collect all).foldlM putMember ⟨none, none⟩ = .ok ⟨some name, some flag⟩ := by
      refine foldlM_putMember ?_ ?_
      · rw [Json.filter_collect (p := fun k => decide (k = "name")) he, ← hvalue]
        rfl
      · rw [Json.filter_collect (p := keyFlagNames.contains) he', ← hvalue']
        rfl
    simp only [ofValue, hfold, ok_bind]
    rfl
  | _ => cases h

end ColumnDescription

/-! ## Whole descriptions -/

theorem Description.ofValue_of_ofNode {depth : Nat} {node : Node} {d : Description} {v : Value}
    (h : ofNode node = .ok d) (hv : node.value (depth + 4) = .ok v) :
    ofValue v = .ok d.sorted := by
  obtain ⟨schemas, hs, h⟩ := bind_eq_ok_iff.mp h
  cases h
  have hcolumns : ∀ {node : Node} {x v}, node.listOf ColumnDescription.ofNode = .ok x →
      node.value (depth + 2) = .ok v → v.asList ColumnDescription.ofValue = .ok x := by
    intro node x v hx hv
    cases node with
    | list items =>
      unfold Node.value at hv
      obtain ⟨vs, hvs, hv⟩ := bind_eq_ok_iff.mp hv
      cases hv
      exact Items.values_of_all ColumnDescription.ofValue_of_ofNode hx hvs
    | _ => cases hx
  refine asEntries_of_entriesOf (f := sortByName) (fun {tables} x v hx hv => ?_) hs hv
  cases hes : tables.entriesOf (Node.listOf ColumnDescription.ofNode) with
  | error fault =>
    rw [hes] at hx
    cases hx
  | ok es =>
    rw [hes] at hx
    cases hx
    simpa using asEntries_of_entriesOf (f := id) hcolumns hes hv

namespace Catalog

/-- **The two readings agree**: a text that is read as a catalog and also holds a value has a value
that is read as a catalog, the one that is described by the same schemas and tables sorted by name.
A table has the same names in both, and the same columns at the same positions. -/
theorem ofValue_of_ofText {text : String} {c : Catalog} {v : Value}
    (hc : ofText text = .ok c) (hv : Value.ofText text = .ok v) :
    ∃ c', ofValue v = .ok c' ∧ ofDescription c.described.sorted = .ok c' ∧
      c'.Represents c.described.sorted ∧
      c.Renumbers ⟨id, c.sameTable c', c.sameColumn c', id⟩ c' := by
  have hread : c.Read := .inl ⟨text, hc⟩
  obtain ⟨d, hd, hc⟩ := ofText_eq_ok hc
  have hnode := Json.root_of_read hv
  have hvalue : Description.ofValue v = .ok d.sorted :=
    Description.ofValue_of_ofNode (Json.root_of_read hd) hnode
  obtain ⟨_, rfl⟩ := filed_ofDescription hc
  -- the sorted description has no blank name because the given one has none
  have hnames := (checks_ofDescription _).exists_ok_iff.mp ⟨c, hc⟩
  obtain ⟨c', hc'⟩ := (checks_ofDescription c.described.sorted).exists_ok_iff.mpr fun n hn =>
    hnames n (Description.mem_names_sorted.mp hn)
  have hof : ofValue v = .ok c' := by
    rw [ofValue, hvalue]
    exact hc'
  have hsorted := Json.Node.sorted_of_value hnode
  have hrepresents :=
    represents_ofDescription (Description.distinct_ofValue hsorted hvalue) hc'
  have hsame : c.described.SameContent c'.described := by
    rw [hrepresents.described]
    exact c.described.sameContent_sorted
  have hread' : c'.Read := .inr ⟨v, hsorted, hof⟩
  exact ⟨c', hof, hc', hrepresents, hread.orderly.renumbers hread'.orderly hsame⟩

/-- A schema that comes twice, and one that has a table twice. -/
def twiceNamed : String :=
  "\x7b\"shop\":\x7b\"lost\":[]\x7d,\"Shop\":\x7b\"orders\":[]," ++
    "\"buyers\":[\x7b\"is_pk\":true,\"note\":null,\"name\":\"id\"\x7d]," ++
    "\"orders\":[[\"id\",true],[\"buyer\",false]]\x7d,\"shop\":\x7b\x7d\x7d"

/-- The last of two entries counts in both readings; by name the schemas and the tables change
places. -/
theorem ofValue_of_ofText_twiceNamed : ∃ c v c', ofText twiceNamed = .ok c ∧
    Value.ofText twiceNamed = .ok v ∧ ofValue v = .ok c' ∧
    c.described = [("shop", []), ("Shop", [("orders", [⟨"id", true⟩, ⟨"buyer", false⟩]),
      ("buyers", [⟨"id", true⟩])])] ∧
    c'.described = [("Shop", [("buyers", [⟨"id", true⟩]),
      ("orders", [⟨"id", true⟩, ⟨"buyer", false⟩])]), ("shop", [])] := by
  have hdescribed : (ofText twiceNamed).toOption.map described =
      some [("shop", []), ("Shop", [("orders", [⟨"id", true⟩, ⟨"buyer", false⟩]),
        ("buyers", [⟨"id", true⟩])])] := by decide +kernel
  have hvalue : (Value.ofText twiceNamed).isOk = true := by decide +kernel
  cases hc : ofText twiceNamed with
  | error e =>
    rw [hc] at hdescribed
    cases hdescribed
  | ok c =>
    cases hv : Value.ofText twiceNamed with
    | error e =>
      rw [hv] at hvalue
      cases hvalue
    | ok v =>
      obtain ⟨c', hc', _, hrepresents, _⟩ := ofValue_of_ofText hc hv
      rw [hc] at hdescribed
      have hd := Option.some.inj hdescribed
      refine ⟨c, v, c', rfl, rfl, hc', hd, ?_⟩
      rw [hrepresents.described, hd]
      decide +kernel

end Catalog

end VisualQuery
