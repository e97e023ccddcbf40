import VisualQuery.Proofs.Document.Renumbering
import VisualQuery.Proofs.Join.Answers

/-! # Numbers that do not matter

Instance numbers matter through their order alone, since the earlier of two related instances is
kept on side `a`, and the numbers of relationships do not matter at all. So a table that is placed
without being referred to changes nothing, wherever it is placed: the others keep their order, with
a gap between them (`answers_under_other_numbers`). -/

namespace VisualQuery

namespace Renumbering

/-- Increasing numbers that leave out `k`. -/
def makeRoom (k : InstanceId) : Renumbering := .ofPlaces fun i => if i < k then i else i + 1

theorem makeRoom_strictMono (k : InstanceId) : StrictMono (makeRoom k).place := by
  intro (i : Nat) (j : Nat) (hij : i < j)
  show (if i < k then i else i + 1) < if j < k then j else j + 1
  split <;> split <;> omega

end Renumbering

namespace Document
variable {catalog : Catalog} {defaults : Defaults} {k : Nat} {t : SavedTable}

/-- A document with one more table at a position; references to later tables move along. -/
def insertTable (k : Nat) (t : SavedTable) (d : Document) : Document :=
  d.refer (.makeRoom k) (d.tables.insertIdx k t)

theorem renumber_of_tableOf {n : Renumbering} {e : DocumentError}
    (h : tableOf catalog t = .error e) : e.renumber n = e := by
  unfold tableOf at h
  split at h <;> cases h
  rfl

/-- Behind the new table every table is found one position later. -/
theorem mirrors_insertIdx (d : Document) (hk : k ≤ d.tables.length)
    (ht : catalog.findTable? t.schema t.table ≠ none) :
    Mirrors (·.renumber (.makeRoom k))
      (fun ts ts' => ∀ i : Nat, ts'[(Renumbering.makeRoom k).place i]? = ts[i]?.map id)
      (d.tables.mapM (tableOf catalog)) ((d.tables.insertIdx k t).mapM (tableOf catalog)) := by
  obtain ⟨table, htable⟩ := Option.ne_none_iff_exists'.mp ht
  have hfound : tableOf catalog t = .ok table := by simp [tableOf, htable]
  rw [mapM_insertIdx hfound d.tables k hk]
  cases hts : d.tables.mapM (tableOf catalog) with
  | error e =>
    obtain ⟨s, _, hs⟩ := exists_error_of_mapM hts
    exact .of_error (renumber_of_tableOf hs)
  | ok ts =>
    refine .ok fun i => ?_
    show (ts.insertIdx k table)[if i < k then i else i + 1]? = _
    rw [Option.map_id_fun, id]
    split
    · next hlt => exact List.getElem?_insertIdx_of_lt hlt
    · next hge => exact List.getElem?_insertIdx_of_gt (Nat.lt_succ_of_le (Nat.le_of_not_gt hge))

/-- **A table that nothing refers to changes nothing**: the document loads as before, or is refused
alike. -/
theorem load_insertTable (d : Document) (defaults : Defaults) (hk : k ≤ d.tables.length)
    (ht : catalog.findTable? t.schema t.table ≠ none) :
    Option.Rel (Mirrors (·.renumber (.makeRoom k)) (Query.Renumbers (.makeRoom k)))
      (d.load? catalog defaults) ((d.insertTable k t).load? catalog defaults) :=
  load_renumber (Renumbering.makeRoom_strictMono k) rfl (.refl rfl rfl catalog) d defaults
    (mirrors_insertIdx d hk ht)

end Document

/-- **Numbers do not matter**, but for the order of instances: over every catalog that was read,
what was drawn under increasing other instance numbers, with any numbers for the relationships, gets
the same answer up to these numbers. So a table that is placed at any position of a document,
without being referred to, leaves the clauses as they were. -/
theorem answers_under_other_numbers {catalog : Catalog} (hc : catalog.Built) :
    (∀ f edits, StrictMono f →
      Graph.empty.after (edits.map (·.renumber (.ofPlaces f))) =
        (Graph.empty.after edits).renumber (.ofPlaces f)) ∧
    (∀ f ids edits, StrictMonoOn f {i | Mentions (Graph.empty.after edits).relationships i} →
      ∃ answer, (Graph.empty.after edits).plan? catalog = some answer ∧
        ((Graph.empty.after edits).renumber ⟨f, id, id, ids⟩).plan? catalog =
          some (mapBoth (·.renumber ⟨f, id, id, ids⟩) (·.renumber ⟨f, id, id, ids⟩) answer)) ∧
    (∀ (n : Renumbering) (plan : JoinPlan), (plan.renumber n).source = plan.source) ∧
    ∀ (d : Document) defaults q k (t : SavedTable), d.load? catalog defaults = some (.ok q) →
      k ≤ d.tables.length → catalog.findTable? t.schema t.table ≠ none →
      ∃ q' answer, (d.insertTable k t).load? catalog defaults = some (.ok q') ∧
        q.compile? = some answer ∧
        q'.compile? = some (mapBoth (·.renumber (.makeRoom k)) id answer) := by
  refine ⟨fun f edits hf => ?_, fun f ids edits hf => exists_answer_renumber edits hc hf.injOn ids,
    fun n plan => source_renumber plan, fun d defaults q k t hq hk ht => ?_⟩
  · have hinjective : Function.Injective (Endpoint.renumber (.ofPlaces f)) := by
      intro x y hxy
      cases x
      cases y
      simpa [Endpoint.renumber, Renumbering.ofPlaces, hf.injective.eq_iff] using hxy
    exact Graph.after_renumber hf hinjective rfl edits Graph.empty
  · obtain ⟨q', hq', hquery⟩ := exists_ok_of_rel (Document.load_insertTable d defaults hk ht) hq
    obtain ⟨answer, hanswer⟩ := Document.exists_answer_of_load hc hq q.totals
    refine ⟨q', answer, hq', hanswer, ?_⟩
    rw [hquery.compile? (Renumbering.makeRoom_strictMono k).injective, hanswer]
    rfl

/-- Customers and their orders, which are shown by number. -/
def ordersOfCustomers : Document where
  catalog := .null
  tables := [⟨"shop", "customers"⟩, ⟨"shop", "orders"⟩]
  relationships := [⟨⟨0, "id"⟩, ⟨1, "customer_id"⟩, none⟩]
  columns := [⟨⟨1, "id"⟩, none, none, .none, true, []⟩]
  totals := none

/-- Orders drawn to customers, with gaps between the numbers. -/
def spaced : List GraphEdit := [.add ⟨2, 0, 0⟩ ⟨5, 2, 4⟩ .inner]

/-- Closing the gaps keeps the plan; items between customers and orders keep the clauses. -/
theorem answers_under_other_numbers_between : Catalog.shop.Built ∧
    StrictMonoOn (· / 2) {i : Nat | Mentions (Graph.empty.after spaced).relationships i} ∧
    (∃ plan, (Graph.empty.after spaced).plan? Catalog.shop = some (.ok plan) ∧
      plan.order = [2, 5] ∧
      ((Graph.empty.after spaced).renumber ⟨(· / 2), id, id, (· + 7)⟩).plan? Catalog.shop =
        some (.ok (plan.renumber ⟨(· / 2), id, id, (· + 7)⟩))) ∧
    ∃ q q' clauses,
      ordersOfCustomers.load? Catalog.shop Settings.standard.defaults = some (.ok q) ∧
      (ordersOfCustomers.insertTable 1 ⟨"shop", "items"⟩).load? Catalog.shop
        Settings.standard.defaults = some (.ok q') ∧
      q.compile? = some (.ok clauses) ∧ q'.compile? = some (.ok clauses) := by
  have hf : StrictMonoOn (· / 2)
      {i : Nat | Mentions (Graph.empty.after spaced).relationships i} := by
    intro i hi j hj hij
    have hmentions : ∀ i, Mentions (Graph.empty.after spaced).relationships i → i = 2 ∨ i = 5 := by
      rintro i ⟨r, hr, hi⟩
      cases hr with
      | head => exact hi.imp Eq.symm Eq.symm
      | tail _ hr => cases hr
    rcases hmentions i hi with rfl | rfl <;> rcases hmentions j hj with rfl | rfl <;> revert hij <;>
      decide
  obtain ⟨_, hplan, _, hload⟩ := answers_under_other_numbers Catalog.built_shop
  obtain ⟨answer, hanswer, hrenumbered⟩ := hplan (· / 2) (· + 7) spaced hf
  obtain ⟨q', answer', hq', hanswer', hcompiled⟩ := hload ordersOfCustomers
    Settings.standard.defaults _ 1 ⟨"shop", "items"⟩ rfl (by decide) (by decide)
  refine ⟨Catalog.built_shop, hf, ⟨_, rfl, rfl, ?_⟩, _, q', _, rfl, hq', rfl, ?_⟩
  · cases hanswer
    exact hrenumbered
  · cases hanswer'
    exact hcompiled

end VisualQuery
