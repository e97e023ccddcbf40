import VisualQuery.Proofs.Join.Comparison
import VisualQuery.Proofs.Join.History
import VisualQuery.Proofs.Join.Shape

/-! # Kinds and plans

Edits of kinds leave every relationship where it is, with its sides and its number
(`relationships_after_alters`). Neither the endpoints mentioned nor the edges drawn show a kind, so
that a graph is planned alike before and behind such edits; of all kinds a step shows that of its
first relationship, and no other is seen anywhere (`plan?_after_alters`). -/

namespace VisualQuery
open JoinPlan

/-- The edits that may give a relationship another kind. -/
def GraphEdit.Alters (e : GraphEdit) (id : RelationshipId) : Prop :=
  e = .cycleKind id ∨ ∃ kind, e = .setKind id kind

/-- A step before and behind edits of kinds: it keeps all but its kind, which is that of its first
relationship in either case. -/
structure JoinStep.Rekinded (rs : List Relationship) (kinds : List GraphEdit)
    (order : List InstanceId) (step step' : JoinStep) : Prop where
  place : step'.place = step.place
  table : step'.table = step.table
  conditions : step'.conditions = step.conditions
  kind : ∃ first, (attributed order rs step.place).head? = some first ∧
    step.kind = first.kind ∧ step'.kind = (first.behind kinds).kind ∧
    (step'.kind ≠ step.kind → ∃ e ∈ kinds, e.Alters first.id)

/-- Of the relationships that belong to its step `r` is the one drawn first. -/
def JoinPlan.GivesKind (plan : JoinPlan) (rs : List Relationship) (r : Relationship) : Prop :=
  (attributed plan.order rs (laterInstance plan.order r)).head? = some r

variable {catalog : Catalog} {rs : List Relationship} {order : List InstanceId}
  {e : GraphEdit} {kinds : List GraphEdit} {r : Relationship}

/-! ## Edits of kinds -/

namespace GraphEdit
variable {id : RelationshipId}

theorem Alters.not_removes (h : e.Alters id) (r : Relationship) : ¬ e.Removes r := by
  obtain rfl | ⟨kind, rfl⟩ := h <;> simp [Removes]

theorem Alters.drawn_eq_nil (h : e.Alters id) (next : RelationshipId) : e.drawn next = [] := by
  obtain rfl | ⟨kind, rfl⟩ := h <;> rfl

theorem kindBehind_of_not_alters (h : ¬ e.Alters id) (kind : JoinKind) :
    e.kindBehind id kind = kind := by
  cases e with
  | add | removeTouching | remove => rfl
  | cycleKind i =>
    have hi : i ≠ id := fun hi => h (.inl (hi ▸ rfl))
    rw [kindBehind, if_neg hi]
  | setKind i k =>
    have hi : i ≠ id := fun hi => h (.inr ⟨k, hi ▸ rfl⟩)
    rw [kindBehind, if_neg hi]

end GraphEdit

theorem kind_behind_of_not_alters (h : ∀ e ∈ kinds, ¬ e.Alters r.id) :
    (r.behind kinds).kind = r.kind := by
  refine List.foldlRecOn (motive := (· = r.kind)) kinds (GraphEdit.kindBehind r.id) rfl ?_
  intro kind hkind e he
  rw [GraphEdit.kindBehind_of_not_alters (h e he), hkind]

theorem relationships_after_alters (hk : ∀ e ∈ kinds, ∃ id, e.Alters id) :
    ∀ {g : Graph}, g.Ordered →
      (g.after kinds).relationships = g.relationships.map (·.behind kinds) := by
  induction kinds with
  | nil =>
    intro g _
    exact (List.map_id _).symm
  | cons e rest ih =>
    intro g hg
    obtain ⟨id, he⟩ := hk e (by simp)
    have hnext : (g.next e).relationships = g.relationships.map (·.behind [e]) := by
      rw [Graph.relationships_next hg, he.drawn_eq_nil, List.append_nil,
        List.filter_eq_self.mpr fun r _ => by simpa using he.not_removes r]
    show ((g.next e).after rest).relationships = _
    rw [ih (fun x hx => hk x (List.mem_cons_of_mem e hx)) (hg.next e), hnext, List.map_map]
    rfl

/-! ## Planned alike -/

theorem alike_behind (rs : List Relationship) (kinds : List GraphEdit) :
    Alike rs (rs.map (·.behind kinds)) := by
  refine ⟨?_, fun nodes => ?_⟩
  · unfold firstMentions mentions
    rw [List.flatMap_map]
    rfl
  · unfold edges?
    rw [List.mapM_map]
    rfl

theorem attributed_behind (order : List InstanceId) (rs : List Relationship)
    (kinds : List GraphEdit) (i : InstanceId) :
    attributed order (rs.map (·.behind kinds)) i =
      (attributed order rs i).map (·.behind kinds) := by
  unfold attributed
  rw [List.filter_map]
  rfl

theorem mirrors_stepAt_behind (catalog : Catalog) (name : InstanceId → String)
    (order : List InstanceId) (rs : List Relationship) (kinds : List GraphEdit) (i : InstanceId) :
    Mirrors id (JoinStep.Rekinded rs kinds order) (stepAt name (conditionOf catalog) order rs i)
      (stepAt name (conditionOf catalog) order (rs.map (·.behind kinds)) i) := by
  have hbehind := attributed_behind order rs kinds i
  cases hown : attributed order rs i with
  | nil =>
    rw [hown] at hbehind
    rw [stepAt_nil hown, stepAt_nil hbehind]
    exact .error _
  | cons first rest =>
    rw [hown, List.map_cons] at hbehind
    rw [stepAt_cons hown, stepAt_cons hbehind]
    refine .ok ⟨rfl, rfl, ?_, first, by simp [hown], rfl, rfl, fun hne => ?_⟩
    · show ((first :: rest).map (·.behind kinds)).map (conditionOf catalog) = _
      rw [List.map_map]
      rfl
    · by_contra hnone
      exact hne (kind_behind_of_not_alters fun e he ha => hnone ⟨e, he, ha⟩)

theorem mirrors_planAlong_behind (rs : List Relationship) (kinds : List GraphEdit)
    (order : List InstanceId) :
    Mirrors id
      (fun plan plan' => Stepwise (JoinStep.Rekinded rs kinds plan.order) plan plan')
      (planAlong catalog rs order) (planAlong catalog (rs.map (·.behind kinds)) order) := by
  have halong := mirrors_along (mirrors_stepAt_behind catalog (tableOf catalog rs) order rs kinds)
  unfold planAlong
  rw [(alike_behind rs kinds).tableOf_eq]
  refine halong.imp fun plan plan' ⟨hplan, hstepwise⟩ => ?_
  obtain ⟨rfl, _⟩ := along_eq_ok_iff.mp hplan
  exact hstepwise

/-- If nothing that gives a step its kind was altered, no step has another kind. -/
theorem eq_of_rekinded {plan plan' : JoinPlan}
    (h : Stepwise (JoinStep.Rekinded rs kinds plan.order) plan plan')
    (hother : ∀ r ∈ rs, (∃ e ∈ kinds, e.Alters r.id) → ¬ plan.GivesKind rs r) : plan' = plan := by
  refine Stepwise.eq ⟨h.order, h.seed, h.steps.imp fun step step' hs => ?_⟩
  obtain ⟨first, hfirst, _, _, haltered⟩ := hs.kind
  obtain ⟨hmem, hlater⟩ := mem_attributed.mp (List.mem_of_mem_head? hfirst)
  have hgives : plan.GivesKind rs first := by
    unfold GivesKind
    rwa [hlater]
  have hkind : step'.kind = step.kind := by
    by_contra hne
    exact hother first hmem (haltered hne) hgives
  exact JoinStep.ext hs.place hs.table hkind hs.conditions

/-- **Kinds do not reach the join order.** Edits of kinds leave an error as it is. Of a plan they
leave the order, the tables and the conditions, and the kind of each step whose first relationship
they do not alter; if they alter none that gives a step its kind, the plan stays what it was. -/
theorem plan?_after_alters (edits kinds : List GraphEdit) (hc : catalog.Built)
    (hk : ∀ e ∈ kinds, ∃ id, e.Alters id) :
    let g := Graph.empty.after edits
    (∃ e, g.plan? catalog = some (.error e) ∧ (g.after kinds).plan? catalog = some (.error e)) ∨
    ∃ plan plan', g.plan? catalog = some (.ok plan) ∧
      (g.after kinds).plan? catalog = some (.ok plan') ∧
      Stepwise (JoinStep.Rekinded g.relationships kinds plan.order) plan plan' ∧
      ((∀ r ∈ g.relationships, (∃ e ∈ kinds, e.Alters r.id) →
        ¬ plan.GivesKind g.relationships r) → plan' = plan) := by
  intro g
  have hbehind : (g.after kinds).relationships = g.relationships.map (·.behind kinds) :=
    relationships_after_alters hk (Graph.ordered_empty.after edits)
  by_cases hne : g.relationships = []
  · refine .inl ⟨_, plan?_of_nil hne, plan?_of_nil ?_⟩
    rw [hbehind, hne, List.map_nil]
  have hfind : (g.after kinds).relationships.find? (fun r => !r.resolves catalog) =
      (g.relationships.find? fun r => !r.resolves catalog).map (·.behind kinds) := by
    rw [hbehind, List.find?_map]
    rfl
  cases hf : g.relationships.find? (fun r => !r.resolves catalog) with
  | some r =>
    rw [hf] at hfind
    exact .inl ⟨_, plan?_of_foreign hf, plan?_of_foreign (r := r.behind kinds) hfind⟩
  | none =>
    rw [hf] at hfind
    have hr := find?_foreign_eq_none.mp hf
    have hr' := find?_foreign_eq_none.mp hfind
    have h := plannable_of_resolved hc.owned hne hr (Graph.oriented_after edits)
    have ho' : ∀ r ∈ (g.after kinds).relationships, r.a.place < r.b.place :=
      Graph.after_append Graph.empty edits kinds ▸ Graph.oriented_after (edits ++ kinds)
    have h' := plannable_of_resolved hc.owned (by simpa [hbehind] using hne) hr' ho'
    have ha : Alike g.relationships (g.after kinds).relationships := hbehind ▸ alike_behind ..
    rcases plan?_of_alike hr hr' h h' ha
        fun order _ => hbehind ▸ mirrors_planAlong_behind g.relationships kinds order with
      ⟨stuck, hstuck, hstuck'⟩ | ⟨plan, plan', hplan, hplan', hstepwise⟩
    · exact .inl ⟨_, hstuck, hstuck'⟩
    · exact .inr ⟨plan, plan', hplan, hplan', hstepwise, eq_of_rekinded hstepwise⟩

def paired : List GraphEdit :=
  [.add ⟨0, 0, 0⟩ ⟨1, 2, 4⟩ .inner, .add ⟨1, 2, 3⟩ ⟨0, 0, 0⟩ .left]

/-- Edits of the second of two relationships, and one that is refused. -/
def secondAltered : List GraphEdit := [.cycleKind 1, .setKind 4 .right]

theorem plan?_after_alters_paired : Catalog.shop.Built ∧
    (∀ e ∈ secondAltered, ∃ id, e.Alters id) ∧
    ∃ plan, (Graph.empty.after paired).plan? Catalog.shop = some (.ok plan) ∧
      ((Graph.empty.after paired).after secondAltered).plan? Catalog.shop = some (.ok plan) := by
  have hk : ∀ e ∈ secondAltered, ∃ id, e.Alters id := by
    simp [secondAltered, GraphEdit.Alters]
  refine ⟨Catalog.built_shop, hk, ?_⟩
  obtain ⟨_, herror, _⟩ | ⟨plan, plan', hplan, hplan', _, hsame⟩ :=
    plan?_after_alters paired secondAltered Catalog.built_shop hk
  · cases herror
  · have horder : plan.order = [0, 1] := by
      cases hplan
      rfl
    have hother : ∀ r ∈ (Graph.empty.after paired).relationships, r.id ≠ 0 →
        (attributed [0, 1] (Graph.empty.after paired).relationships
          (laterInstance [0, 1] r)).head? ≠ some r := by decide
    simp only [GivesKind, horder] at hsame
    refine ⟨plan, hplan, hsame (fun r hr ⟨e, he, ha⟩ => hother r hr fun hid => ?_) ▸ hplan'⟩
    simp only [secondAltered, List.mem_cons, List.not_mem_nil, or_false] at he
    rcases he with rfl | rfl <;> simp [GraphEdit.Alters, hid] at ha

end VisualQuery
