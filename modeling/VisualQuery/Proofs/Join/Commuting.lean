import VisualQuery.Proofs.Join.Kinds

/-! # Edits of different relationships

An edit of one relationship works through its position in the list, and a removal shifts all
positions behind it. Seen from a single relationship, though, an edit either takes it away or
changes its kind, whatever stands around it (`leaves`), and it leaves every relationship of another
number as it is (`Concerns.leaves_eq`). So of two edits that are about different relationships at
least one does nothing to a given relationship, and it does not matter which of them comes first
(`edits_commute`). -/

namespace VisualQuery

namespace GraphEdit

/-- The edits of a single relationship: the one that takes it away and those that may give it
another kind. -/
def Concerns (e : GraphEdit) (id : RelationshipId) : Prop := e = .remove id ∨ e.Alters id

/-- What an edit leaves of a relationship, if anything. -/
def leaves (e : GraphEdit) (r : Relationship) : Option Relationship :=
  if e.Removes r then none else some (r.behind [e])

/-- What an edit of a single relationship answers when it finds it. -/
def answerTo (r : Relationship) : GraphEdit → GraphAnswer
  | .remove _ => .removed r
  | .cycleKind _ => .cycled r.kind.cycle
  | .add _ _ _ | .removeTouching _ | .setKind _ _ => .done

end GraphEdit

namespace Graph

/-- The edits that are not about relationship `id`: those of a single other one, and a drawing
that gives out another number or is refused. -/
inductive Apart (g : Graph) (id : RelationshipId) : GraphEdit → Prop where
  | other {e : GraphEdit} {j : RelationshipId} (h : e.Concerns j) (hj : j ≠ id) : Apart g id e
  | drawing {a b : Endpoint} {kind : JoinKind} (h : id ∉ g.issuedBy (.add a b kind)) :
    Apart g id (.add a b kind)

end Graph

variable {g g' : Graph} {e x y : GraphEdit} {r q : Relationship} {id i j : RelationshipId}

/-! ## One relationship -/

namespace GraphEdit

theorem id_of_leaves (h : e.leaves r = some q) : q.id = r.id := by
  unfold leaves at h
  split at h
  · cases h
  · cases h
    rfl

theorem leaves_eq_self (hr : ¬ e.Removes r) (hk : ¬ e.Alters r.id) : e.leaves r = some r := by
  have hkind : (r.behind [e]).kind = r.kind := kind_behind_of_not_alters (by simpa using hk)
  have hsame : r.behind [e] = { r with kind := (r.behind [e]).kind } := rfl
  rw [leaves, if_neg hr, hsame, hkind]

/-- Relationships of other numbers stay as they are. -/
theorem Concerns.leaves_eq (h : e.Concerns id) (hr : r.id ≠ id) : e.leaves r = some r := by
  refine leaves_eq_self (fun hremoves => hr ?_) fun halters => hr ?_
  · rcases h with rfl | halters
    · simpa [Removes, eq_comm] using hremoves
    · exact absurd hremoves (halters.not_removes r)
  · rcases h with rfl | h
    · simp [Alters] at halters
    · rcases h with rfl | ⟨kind, rfl⟩ <;> simp_all [Alters]

theorem leaves_add (a b : Endpoint) (kind : JoinKind) (r : Relationship) :
    (GraphEdit.add a b kind).leaves r = some r :=
  leaves_eq_self (by simp [Removes]) (by simp [Alters])

theorem Concerns.drawn_eq_nil (h : e.Concerns id) (next : RelationshipId) : e.drawn next = [] := by
  rcases h with rfl | h
  · rfl
  · exact h.drawn_eq_nil next

end GraphEdit

namespace Graph

theorem relationships_next_eq_leaves (h : g.Ordered) (e : GraphEdit) :
    (g.next e).relationships = g.relationships.filterMap e.leaves ++ e.drawn g.nextId := by
  rw [relationships_next h, ← List.filterMap_eq_map, List.filterMap_filter]
  refine congrArg (· ++ _) (List.filterMap_congr fun r _ => ?_)
  by_cases hr : e.Removes r <;> simp [GraphEdit.leaves, hr]

theorem Apart.leaves_eq (h : g.Apart id e) (hr : r.id = id) : e.leaves r = some r := by
  cases h with
  | other h hj => exact h.leaves_eq (hr ▸ hj.symm)
  | drawing h => exact GraphEdit.leaves_add ..

theorem Apart.id_ne_of_drawn (h : g.Apart id e) (hr : r ∈ e.drawn g.nextId) : r.id ≠ id := by
  cases h with
  | other h _ =>
    rw [h.drawn_eq_nil] at hr
    cases hr
  | drawing h =>
    rw [issuedBy_eq] at h
    exact fun hid => h (List.mem_map.mpr ⟨r, hr, hid⟩)

/-- One of the two edits leaves the relationship as it is, whether it comes first or last. -/
theorem leaves_comm (hx : x.Concerns id) (hy : g.Apart id y) (r : Relationship) :
    (x.leaves r).bind y.leaves = (y.leaves r).bind x.leaves := by
  by_cases hr : r.id = id
  · rw [hy.leaves_eq hr, Option.bind_some]
    cases hleft : x.leaves r with
    | none => rfl
    | some q => exact hy.leaves_eq ((GraphEdit.id_of_leaves hleft).trans hr)
  · rw [hx.leaves_eq hr, Option.bind_some]
    cases hleft : y.leaves r with
    | none => rfl
    | some q => exact (hx.leaves_eq (GraphEdit.id_of_leaves hleft ▸ hr)).symm

/-! ## Graphs -/

theorem nextId_next_of_concerns (h : e.Concerns id) : (g.next e).nextId = g.nextId := by
  rw [nextId_next, h.drawn_eq_nil]
  rfl

theorem next_comm (hg : g.Ordered) (hx : x.Concerns id) (hy : g.Apart id y) :
    (g.next x).next y = (g.next y).next x := by
  have hdrawn : (y.drawn g.nextId).filterMap x.leaves = y.drawn g.nextId := by
    rw [List.filterMap_congr fun r hr => hx.leaves_eq (hy.id_ne_of_drawn hr)]
    exact List.filterMap_some
  have hrelationships : ((g.next x).next y).relationships = ((g.next y).next x).relationships := by
    rw [relationships_next_eq_leaves (hg.next x), relationships_next_eq_leaves (hg.next y),
      relationships_next_eq_leaves hg, relationships_next_eq_leaves hg, hx.drawn_eq_nil,
      hx.drawn_eq_nil, nextId_next_of_concerns hx, List.append_nil, List.append_nil,
      List.filterMap_append, hdrawn, List.filterMap_filterMap, List.filterMap_filterMap]
    simp only [leaves_comm hx hy]
  have hnext : ((g.next x).next y).nextId = ((g.next y).next x).nextId := by
    rw [nextId_next_of_concerns hx, nextId_next _ y, nextId_next_of_concerns hx, nextId_next]
  calc (g.next x).next y
      = ⟨((g.next x).next y).relationships, ((g.next x).next y).nextId⟩ := rfl
    _ = ⟨((g.next y).next x).relationships, ((g.next y).next x).nextId⟩ := by
        rw [hrelationships, hnext]

/-! ## Answers -/

/-- An edit of a single relationship answers by what is found under its number. -/
theorem answer_of_concerns (h : e.Concerns id) (g : Graph) :
    g.answer e = (g.get id).map (e.answerTo ·) := by
  rcases h with rfl | rfl | ⟨kind, rfl⟩
  · exact answer_remove g id
  · exact answer_cycleKind g id
  · exact answer_setKind g id kind

/-- A drawing answers by its two sides and the number that comes next. -/
theorem answer_add_congr (h : g'.nextId = g.nextId) (a b : Endpoint) (kind : JoinKind) :
    g'.answer (.add a b kind) = g.answer (.add a b kind) := by
  by_cases hab : a.place = b.place
  · rw [answer_add_same hab, answer_add_same hab]
  · rw [answer_add hab, answer_add hab, h]

/-- What stands under a number hangs on the relationships of this number alone. -/
theorem get?_next_of_leaves (hg : g.Ordered) (h : ∀ r, r.id = id → e.leaves r = some r)
    (hd : ∀ r ∈ e.drawn g.nextId, r.id ≠ id) : (g.next e).get? id = g.get? id := by
  refine Option.ext fun r => ?_
  rw [(hg.next e).get?_eq_some_iff, hg.get?_eq_some_iff, and_congr_left_iff]
  intro hr
  rw [relationships_next_eq_leaves hg, List.mem_append, List.mem_filterMap]
  constructor
  · rintro (⟨q, hq, hleft⟩ | hdrawn)
    · rw [h q ((GraphEdit.id_of_leaves hleft).symm.trans hr)] at hleft
      exact Option.some.inj hleft ▸ hq
    · exact absurd hr (hd r hdrawn)
  · exact fun hmem => .inl ⟨r, hmem, h r hr⟩

theorem answer_next_of_concerns (hg : g.Ordered) (hx : x.Concerns id)
    (h : ∀ r, r.id = id → e.leaves r = some r) (hd : ∀ r ∈ e.drawn g.nextId, r.id ≠ id) :
    (g.next e).answer x = g.answer x := by
  rw [answer_of_concerns hx, answer_of_concerns hx, get, get, get?_next_of_leaves hg h hd]

theorem answer_next_of_apart (hg : g.Ordered) (hx : x.Concerns id) (hy : g.Apart id y) :
    (g.next x).answer y = g.answer y := by
  cases hy with
  | @other _ j h hj =>
    refine answer_next_of_concerns hg h (fun r hr => hx.leaves_eq (hr ▸ hj)) fun r hr => ?_
    rw [hx.drawn_eq_nil] at hr
    cases hr
  | drawing h => exact answer_add_congr (nextId_next_of_concerns hx) ..

/-- **Edits of different relationships commute.** An edit of a single relationship and one that is
about none of its number give the same two answers in either order, and lead to the same graph; so
the graph is planned alike. -/
theorem edits_commute (edits : List GraphEdit) (hx : x.Concerns id)
    (hy : (empty.after edits).Apart id y) :
    let g := empty.after edits
    (g.next y).answer x = g.answer x ∧ (g.next x).answer y = g.answer y ∧
    (g.next x).next y = (g.next y).next x ∧
    ∀ catalog : Catalog, catalog.Built → ∃ plan, ((g.next x).next y).plan? catalog = some plan ∧
      ((g.next y).next x).plan? catalog = some plan := by
  intro g
  have hg : g.Ordered := ordered_empty.after edits
  have hcomm := next_comm hg hx hy
  refine ⟨answer_next_of_concerns hg hx (fun r => hy.leaves_eq) fun r => hy.id_ne_of_drawn,
    answer_next_of_apart hg hx hy, hcomm, fun catalog hc => ?_⟩
  obtain ⟨plan, hplan⟩ := exists_answer (edits ++ [x, y]) hc
  rw [after_append] at hplan
  exact ⟨plan, hplan, hcomm ▸ hplan⟩

/-- The first of two relationships is taken away, and the second one, which then stands first, is
given another kind. -/
theorem edits_commute_hub :
    (GraphEdit.remove 0).Concerns 0 ∧ (empty.after hub).Apart 0 (.cycleKind 1) ∧
    ((empty.after hub).next (.remove 0)).answer (.cycleKind 1) = .ok (.cycled .right) ∧
    ((empty.after hub).next (.remove 0)).next (.cycleKind 1) =
      ((empty.after hub).next (.cycleKind 1)).next (.remove 0) := by
  have hx : (GraphEdit.remove 0).Concerns 0 := .inl rfl
  have hy : (empty.after hub).Apart 0 (.cycleKind 1) := .other (.inr (.inl rfl)) (by decide)
  obtain ⟨_, hanswer, hcomm, _⟩ := edits_commute hub hx hy
  exact ⟨hx, hy, hanswer.trans rfl, hcomm⟩

end Graph

end VisualQuery
