import VisualQuery.Proofs.Statement.Clauses
import VisualQuery.Proofs.Statement.Condition

/-! # What the predicate says

Every condition on a column is an atom, also where an aggregate brings parentheses of its own. The
conditions of a column are joined by OR and, where there are several columns, put into parentheses,
so the predicate is read as the composition over the columns (`predicate_decided`). -/

namespace VisualQuery

open Text

/-! ## Words of longer texts -/

namespace Text

/-- A text without parentheses and without words that join. -/
structure Plain (s : String) : Prop where
  parentheses : ∀ c ∈ s.toList, c ≠ '(' ∧ c ≠ ')'
  apart : ∀ c : Composition, c.keyword ∉ words s

instance (s : String) : Decidable (Plain s) :=
  decidable_of_iff ((s.toList.all fun c => c ≠ '(' ∧ c ≠ ')') = true ∧
      Composition.all.keyword ∉ words s ∧ Composition.any.keyword ∉ words s)
    ⟨fun h => ⟨by simpa using h.1, fun c => by cases c <;> simp [h.2]⟩,
      fun h => ⟨by simpa using h.parentheses, h.apart _, h.apart _⟩⟩

section Words
variable {cs ds : List Char} {c : Char} {w : List Char} {s t : String}

theorem mem_splitOn_cons (hc : c ≠ ' ') (h : w ∈ (c :: cs).splitOn ' ') :
    w ∈ cs.splitOn ' ' ∨ c ∈ w := by
  unfold List.splitOn at *
  rw [List.splitOnP_cons_eq_if_modifyHead, if_neg (by simpa using hc)] at h
  obtain ⟨first, others, hwords⟩ :=
    List.exists_cons_of_ne_nil (List.splitOnP_ne_nil (· == ' ') cs)
  rw [hwords] at h ⊢
  rcases List.mem_cons.mp h with rfl | h
  · exact .inr (by simp)
  · exact .inl (List.mem_cons_of_mem _ h)

theorem mem_splitOn_append (hds : ' ' ∉ ds) (h : w ∈ (ds ++ cs).splitOn ' ') :
    w ∈ cs.splitOn ' ' ∨ ∃ c ∈ ds, c ∈ w := by
  induction ds with
  | nil => exact .inl h
  | cons d rest ih =>
    rw [List.mem_cons, not_or] at hds
    rcases mem_splitOn_cons (Ne.symm hds.1) h with h | h
    · rcases ih hds.2 h with h | ⟨c, hc, hw⟩
      · exact .inl h
      · exact .inr ⟨c, List.mem_cons_of_mem _ hc, hw⟩
    · exact .inr ⟨d, by simp, h⟩

theorem forall₂_splitOn_concat (hc : c ≠ ' ') (cs : List Char) :
    List.Forall₂ (fun w w' => w' = w ∨ c ∈ w') (cs.splitOn ' ') ((cs ++ [c]).splitOn ' ') := by
  have hspace : (c == ' ') = false := by simpa using hc
  induction cs with
  | nil => simp [List.splitOn, List.splitOnP_cons_eq_if_modifyHead, hspace]
  | cons d rest ih =>
    unfold List.splitOn at *
    rw [List.cons_append, List.splitOnP_cons_eq_if_modifyHead,
      List.splitOnP_cons_eq_if_modifyHead]
    split
    · exact .cons (.inl rfl) ih
    · generalize List.splitOnP (· == ' ') rest = ws,
        List.splitOnP (· == ' ') (rest ++ [c]) = ws' at ih ⊢
      cases ih with
      | nil => exact .nil
      | cons hw hrest =>
        refine .cons ?_ hrest
        rcases hw with rfl | hw
        · exact .inl rfl
        · exact .inr (List.mem_cons_of_mem d hw)

theorem mem_splitOn_concat (hc : c ≠ ' ') (h : w ∈ (cs ++ [c]).splitOn ' ') :
    w ∈ cs.splitOn ' ' ∨ c ∈ w := by
  obtain ⟨w', hw', rfl | hw⟩ := exists_of_forall₂ (forall₂_splitOn_concat hc cs) h
  · exact .inl hw'
  · exact .inr hw

theorem words_equation (s t : String) : words (s ++ " = " ++ t) = words s ++ ['='] :: words t := by
  have hlist : (s ++ " = " ++ t).toList = s.toList ++ ' ' :: (['='] ++ ' ' :: t.toList) := by
    simp
  unfold words
  rw [hlist, splitOn_word (by decide)]

end Words

end Text

/-! ## Atoms -/

/-- A text that can stand in front of an equals sign in an atom. -/
structure IsName (s : String) : Prop where
  closed : Closed s.toList
  head : s.toList.head? ≠ some '('
  apart : ∀ c : Composition, c.keyword ∉ words s

theorem Text.Plain.isName {s : String} (h : Text.Plain s) : IsName s where
  closed := nesting_eq_self h.parentheses 0
  head hhead := (h.parentheses _ (List.mem_of_mem_head? hhead)).1 rfl
  apart := h.apart

theorem IsName.isAtom {s v : String} (h : IsName s) (hv : Text.Plain v) :
    IsAtom (s ++ " = " ++ v) := by
  have hlist : (s ++ " = " ++ v).toList = s.toList ++ (' ' :: '=' :: ' ' :: v.toList) := by simp
  refine ⟨?_, ?_, fun k hk => ?_⟩
  · rw [hlist]
    exact h.closed.append (nesting_eq_self hv.parentheses 0)
  · rw [hlist, List.head?_append]
    cases hs : s.toList.head? with
    | none => simp
    | some c => simpa [hs] using h.head
  · obtain ⟨before, after, hw, _⟩ := hk
    have hmem : k.keyword ∈ words (s ++ " = " ++ v) := by
      rw [hw]
      simp
    rw [words_equation, List.mem_append, List.mem_cons] at hmem
    rcases hmem with hmem | hmem | hmem
    · exact h.apart k hmem
    · cases k <;> cases hmem
    · exact hv.apart k hmem

theorem not_mem_keyword_of_lower {c : Char} (h : c.isLower = true) (k : Composition) :
    c ∉ k.keyword := by
  cases k <;> simp only [Composition.keyword, List.mem_cons, List.not_mem_nil, or_false] <;>
    rintro (rfl | rfl | rfl) <;> cases h

/-- A call of a function in small letters opens a parenthesis of its own and closes it. -/
theorem Text.Plain.isName_call {f s : String} (hs : Text.Plain s) (hne : f.toList ≠ [])
    (hlower : ∀ c ∈ f.toList, c.isLower = true) : IsName (f ++ "(" ++ s ++ ")") := by
  have hchar : ∀ c ∈ f.toList, c ≠ '(' ∧ c ≠ ')' ∧ c ≠ ' ' := by
    intro c hc
    have hl := hlower c hc
    refine ⟨?_, ?_, ?_⟩ <;> rintro rfl <;> cases hl
  have hlist : (f ++ "(" ++ s ++ ")").toList = f.toList ++ '(' :: (s.toList ++ [')']) := by simp
  refine ⟨?_, ?_, fun k hk => ?_⟩
  · have hf : Closed f.toList :=
      nesting_eq_self (fun c hc => ⟨(hchar c hc).1, (hchar c hc).2.1⟩) 0
    rw [hlist]
    exact hf.append (Closed.group (nesting_eq_self hs.parentheses 0))
  · obtain ⟨first, rest, hfirst⟩ := List.exists_cons_of_ne_nil hne
    rw [hlist, hfirst, List.cons_append, List.head?_cons, ne_eq, Option.some.injEq]
    exact (hchar first (by simp [hfirst])).1
  · -- a word of the call is one of the name, or it has a letter or a parenthesis around the name
    have hspace : ' ' ∉ f.toList ++ ['('] := by
      simp only [List.mem_append, List.mem_singleton, not_or]
      exact ⟨fun hc => (hchar ' ' hc).2.2 rfl, by decide⟩
    rw [words, hlist, List.append_cons] at hk
    rcases mem_splitOn_append hspace hk with hk | ⟨c, hc, hk⟩
    · rcases mem_splitOn_concat (by decide) hk with hk | hk
      · exact hs.apart k hk
      · cases k <;> revert hk <;> decide
    · rcases List.mem_append.mp hc with hc | hc
      · exact not_mem_keyword_of_lower (hlower c hc) k hk
      · rw [List.mem_singleton.mp hc] at hk
        cases k <;> revert hk <;> decide

theorem Aggregate.lower_function {a : Aggregate} {f : String} (h : a.function? = some f) :
    f.toList ≠ [] ∧ ∀ c ∈ f.toList, c.isLower = true := by
  rw [← List.all_eq_true]
  cases a <;> cases h <;> decide

namespace GridColumn

/-- A column whose name and criteria are plain. -/
structure Plain (g : GridColumn) : Prop where
  name : Text.Plain g.displayName
  criteria : ∀ v ∈ g.criteria, Text.Plain v

instance (g : GridColumn) : Decidable g.Plain :=
  decidable_of_iff (Text.Plain g.displayName ∧ ∀ v ∈ g.criteria, Text.Plain v)
    ⟨fun h => ⟨h.1, h.2⟩, fun h => ⟨h.name, h.criteria⟩⟩

def given (g : GridColumn) : List String := g.criteria.filter fun v => !blank v

variable {g : GridColumn} {totals : Bool}

theorem conditions_eq (g : GridColumn) (totals : Bool) : g.conditions totals =
    g.given.map fun v => g.effectiveName totals ++ " = " ++ v := rfl

theorem conditions_eq_nil_iff : g.conditions totals = [] ↔ g.given = [] := by
  rw [conditions_eq, List.map_eq_nil_iff]

theorem Plain.isName (hg : g.Plain) (totals : Bool) : IsName (g.effectiveName totals) := by
  unfold effectiveName
  split
  · next f hf =>
    obtain ⟨hne, hlower⟩ := Aggregate.lower_function hf
    exact hg.name.isName_call hne hlower
  · exact hg.name.isName

/-- The conditions of a column are read as joined by OR. -/
theorem Plain.exists_reads_conditions (hg : g.Plain) (hne : g.conditions totals ≠ []) :
    ∃ x, Reads (.joined .any) (" OR ".intercalate (g.conditions totals)) x ∧
      x.atoms = g.conditions totals ∧
      ∀ truth, x.value truth = (g.conditions totals).any truth := by
  have hall : List.Forall₂ (Reads Composition.any.tighter) (g.conditions totals)
      ((g.conditions totals).map .atom) := by
    rw [List.forall₂_map_right_iff, List.forall₂_same]
    intro s hs
    obtain ⟨v, hv, rfl⟩ := List.mem_map.mp hs
    have hplain := hg.criteria v (List.mem_filter.mp hv).1
    exact .single (.atom ((hg.isName totals).isAtom hplain))
  obtain ⟨x, hx, hatoms, hvalue⟩ := exists_reads_intercalate hne hall
  refine ⟨x, hx, ?_, fun truth => ?_⟩
  · rw [hatoms, List.flatMap_map]
    simp [Condition.atoms]
  · rw [hvalue]
    simp [Composition.holds, Condition.value, Function.comp_def]

end GridColumn

/-! ## The predicate -/

namespace Clauses

variable {clauses : Clauses} {p : String} {xs : List Condition}

/-- Groups are read as joined by the composition; a single group needs no parentheses. -/
theorem exists_reads_predicate (composition : Composition)
    (h : List.Forall₂ (Reads (.joined .any)) clauses.conditions xs)
    (hp : clauses.predicate composition = some p) :
    ∃ x, Reads (.joined .any) p x ∧ x.atoms = xs.flatMap (·.atoms) ∧
      ∀ truth, x.value truth = composition.holds xs (·.value truth) := by
  unfold predicate at hp
  split at hp
  · cases hp
  · next group hgroup =>
    cases hp
    rw [hgroup] at h
    cases h with
    | cons hx hxs =>
      cases hxs
      refine ⟨_, hx, by simp, fun truth => ?_⟩
      cases composition <;> simp [Composition.holds]
  · next groups hempty hsingle =>
    cases hp
    have hgroups : List.Forall₂ (Reads .operand)
        (clauses.conditions.map fun g => "(" ++ g ++ ")") xs :=
      List.forall₂_map_left_iff.mpr (h.imp fun _ _ => .group)
    have hne : (clauses.conditions.map fun g => "(" ++ g ++ ")") ≠ [] := by
      simpa using hempty
    cases composition with
    | all =>
      obtain ⟨x, hx, hrest⟩ := exists_reads_intercalate (c := .all) hne hgroups
      exact ⟨x, .single hx, hrest⟩
    | any =>
      exact exists_reads_intercalate (c := .any) hne (hgroups.imp fun _ _ hx => .single hx)

end Clauses

namespace GridColumn

theorem criteria_contribution (g : GridColumn) (totals : Bool) :
    (g.contribution totals).criteria =
      if g.given ≠ [] then some (" OR ".intercalate (g.conditions totals)) else none := by
  unfold contribution
  rw [conditions_eq]
  cases g.given <;> rfl

/-- Blank criteria are left out when they are set or when the clauses are made. -/
theorem contribution_withCriteria (g : GridColumn) (criteria : List String) (totals : Bool) :
    (g.withCriteria criteria).contribution totals =
      { g with criteria := criteria }.contribution totals := by
  have hname : (g.withCriteria criteria).effectiveName totals = g.effectiveName totals := rfl
  have hconditions : (g.withCriteria criteria).conditions totals =
      { g with criteria := criteria }.conditions totals := by
    unfold conditions
    rw [hname]
    simp only [withCriteria, List.filter_filter, Bool.and_self]
    rfl
  unfold contribution
  rw [hname, hconditions]
  rfl

end GridColumn

namespace Clauses

variable {catalog : Catalog} {totals : Bool} {columns columns' : List GridColumn} {graph : Graph}
  {clauses : Clauses}

theorem conditions_ofColumns (totals : Bool) (columns : List GridColumn) (source : String) :
    (ofColumns totals columns source).conditions =
      (columns.filter (·.given ≠ [])).map fun g => " OR ".intercalate (g.conditions totals) := by
  unfold ofColumns
  simp only [List.filterMap_map]
  induction columns with
  | nil => rfl
  | cons g rest ih =>
    rw [List.filterMap_cons, List.filter_cons, Function.comp_apply, g.criteria_contribution, ih]
    by_cases hg : g.given = [] <;> simp [hg]

theorem predicate_eq_none_iff (composition : Composition) :
    clauses.predicate composition = none ↔ clauses.conditions = [] := by
  unfold predicate
  split <;> simp_all

theorem conditions_eq_nil_iff (totals : Bool) (columns : List GridColumn) (source : String) :
    (ofColumns totals columns source).conditions = [] ↔
      ∀ g ∈ columns, ∀ v ∈ g.criteria, blank v = true := by
  simp [conditions_ofColumns, GridColumn.given]

theorem holds_congr {α β : Type} {composition : Composition} {l : List α} {m : List β}
    {p : α → Bool} {q : β → Bool} (h : List.Forall₂ (fun a b => p a = q b) l m) :
    composition.holds m q = composition.holds l p := by
  induction h with
  | nil => rfl
  | cons hab _ ih => cases composition <;> simp_all [Composition.holds]

theorem flatMap_conditions (totals : Bool) (columns : List GridColumn) :
    columns.flatMap (·.conditions totals) =
      ((columns.filter (·.given ≠ [])).map (·.conditions totals)).flatten := by
  induction columns with
  | nil => rfl
  | cons g rest ih =>
    by_cases hg : g.given = []
    · rw [List.flatMap_cons, GridColumn.conditions_eq_nil_iff.mpr hg, ih]
      simp [hg]
    · rw [List.flatMap_cons, ih]
      simp [hg]

/-- What is read of the conditions, column by column. -/
theorem exists_reads_columns (hplain : ∀ g ∈ columns, g.Plain) (composition : Composition)
    {source p : String} (hp : (ofColumns totals columns source).predicate composition = some p) :
    ∃ x, Reads (.joined .any) p x ∧
      x.atoms = columns.flatMap (·.conditions totals) ∧
      ∀ truth, x.value truth = composition.holds (columns.filter (·.given ≠ [])) fun g =>
        (g.conditions totals).any truth := by
  have hall : ∀ g ∈ columns.filter (·.given ≠ []), ∃ x,
      Reads (.joined .any) (" OR ".intercalate (g.conditions totals)) x ∧
        x.atoms = g.conditions totals ∧
        ∀ truth, x.value truth = (g.conditions totals).any truth := by
    intro g hg
    obtain ⟨hg, hgiven⟩ := List.mem_filter.mp hg
    refine (hplain g hg).exists_reads_conditions ?_
    simpa [GridColumn.conditions_eq_nil_iff] using hgiven
  obtain ⟨xs, hxs⟩ := exists_forall₂ hall
  have hread : List.Forall₂ (Reads (.joined .any)) (ofColumns totals columns source).conditions
      xs := by
    rw [conditions_ofColumns, List.forall₂_map_left_iff]
    exact hxs.imp fun _ _ hx => hx.1
  obtain ⟨x, hx, hatoms, hvalue⟩ := exists_reads_predicate composition hread hp
  refine ⟨x, hx, ?_, fun truth => ?_⟩
  · have hlists : xs.map (·.atoms) =
        (columns.filter (·.given ≠ [])).map (·.conditions totals) :=
      eq_map_of_forall₂ (List.forall₂_map_right_iff.mpr (hxs.imp fun _ _ hx => hx.2.1.symm))
    rw [hatoms, List.flatMap_def, hlists, flatMap_conditions]
  · rw [hvalue]
    exact holds_congr (hxs.imp fun g y hy => (hy.2.2 truth).symm)

/-- **What the predicate says**: there is none just if no column has a criterion that is not blank,
and otherwise it is read in one way, as the composition over the columns that have one, each of them
asking for any of its conditions. It does not matter whether criteria are set with the blank ones
left out or are stored as they are. -/
theorem predicate_decided (h : compile? catalog totals columns graph = some (.ok clauses))
    (hplain : ∀ g ∈ columns, g.Plain) (composition : Composition) :
    (clauses.predicate composition = none ↔ ∀ g ∈ columns, ∀ v ∈ g.criteria, blank v = true) ∧
    (∀ p, clauses.predicate composition = some p → ∃ x,
      (∀ y, Reads (.joined .any) p y ↔ y = x) ∧
      x.atoms = columns.flatMap (fun g =>
        g.given.map fun v => g.effectiveName totals ++ " = " ++ v) ∧
      ∀ truth, x.value truth = composition.holds (columns.filter (·.given ≠ [])) fun g =>
        g.given.any fun v => truth (g.effectiveName totals ++ " = " ++ v)) ∧
    ∀ columns', List.Forall₂ (fun g g' => g' = g ∨ ∃ (f : GridColumn) (criteria : List String),
        g = { f with criteria := criteria } ∧ g' = f.withCriteria criteria) columns columns' →
      compile? catalog totals columns' graph = some (.ok clauses) := by
  refine ⟨?_, fun p hp => ?_, fun columns' hsame => ?_⟩
  · obtain ⟨source, rfl⟩ := eq_ofColumns_of_compile? h
    rw [predicate_eq_none_iff, conditions_eq_nil_iff]
  · obtain ⟨source, rfl⟩ := eq_ofColumns_of_compile? h
    obtain ⟨x, hx, hatoms, hvalue⟩ := exists_reads_columns hplain composition hp
    refine ⟨x, fun y => ⟨fun hy => hy.unique hx, fun hy => hy ▸ hx⟩, hatoms, fun truth => ?_⟩
    simp only [hvalue, GridColumn.conditions_eq, List.any_map, Function.comp_def]
  · rw [← h]
    refine compile?_congr ?_
    rw [← List.forall₂_eq_eq_eq, List.forall₂_map_left_iff, List.forall₂_map_right_iff]
    refine hsame.flip.imp fun g' g hg => ?_
    rcases hg with rfl | ⟨f, criteria, rfl, rfl⟩
    · rfl
    · exact f.contribution_withCriteria criteria totals

/-- Large orders of two regions, with a criterion that is blank and a column without criteria. -/
def largeOrders : List GridColumn :=
  [{ GridColumn.named "region" with criteria := ["north", " ", "south"] },
    GridColumn.named "note",
    { GridColumn.named "total" with aggregate := .sum, criteria := ["100", "200"] }]

/-- The regions and the totals are groups, and `sum(total)` is none. -/
theorem predicate_decided_largeOrders : ∃ clauses x,
    compile? Catalog.shop true largeOrders (Graph.empty.after hub) = some (.ok clauses) ∧
    (∀ g ∈ largeOrders, g.Plain) ∧
    clauses.predicate .all = some
      "(region = north OR region = south) AND (sum(total) = 100 OR sum(total) = 200)" ∧
    Reads (.joined .any)
      "(region = north OR region = south) AND (sum(total) = 100 OR sum(total) = 200)" x ∧
    x.atoms = ["region = north", "region = south", "sum(total) = 100", "sum(total) = 200"] := by
  have hplain : ∀ g ∈ largeOrders, g.Plain := by decide
  have h : compile? Catalog.shop true largeOrders (Graph.empty.after hub) = some (.ok _) := rfl
  obtain ⟨x, hx, hatoms, _⟩ := (predicate_decided h hplain .all).2.1 _ rfl
  refine ⟨_, x, h, hplain, by decide, ?_, hatoms⟩
  exact (hx x).mpr rfl

end Clauses

end VisualQuery
