import VisualQuery.Proofs.Join.Outcome

/-! # The shape of a plan

A plan joins every mentioned instance once, and every relationship at the step of the later one
of its two instances, in order of drawing (`plan?_joins`). -/

namespace VisualQuery
open JoinPlan

/-- A name is that of the table which an instance is first mentioned with, read off the sides of the
relationships in order. -/
def NamesTable (catalog : Catalog) (rs : List Relationship) (i : InstanceId) (name : String) :
    Prop :=
  ∃ (e : Endpoint) (table : Table), (mentions rs).find? (·.place = i) = some e ∧
    catalog.tables[e.table]? = some table ∧ name = table.name

/-- A text equates the two columns of a relationship, side `a` first. -/
def Equates (catalog : Catalog) (r : Relationship) (text : String) : Prop :=
  ∃ a b : Column, catalog.columns[r.a.column]? = some a ∧ catalog.columns[r.b.column]? = some b ∧
    text = a.name ++ " = " ++ b.name

/-- What a step is to an order of instances: it joins on the relationships that belong to its
instance, of which the first one drawn gives the kind. -/
structure JoinStep.Joins (catalog : Catalog) (rs : List Relationship) (order : List InstanceId)
    (step : JoinStep) : Prop where
  own : attributed order rs step.place ≠ []
  kind : (attributed order rs step.place).head?.map (·.kind) = some step.kind
  conditions : List.Forall₂ (Equates catalog) (attributed order rs step.place) step.conditions
  joined : ∀ r ∈ attributed order rs step.place,
    order.idxOf r.a.place ≤ order.idxOf step.place ∧ order.idxOf r.b.place ≤ order.idxOf step.place
  table : NamesTable catalog rs step.place step.table

/-- What a plan is to relationships: each mentioned instance stands in the order once, each behind
the first has a step, and each relationship belongs to one step. -/
structure JoinPlan.Joins (catalog : Catalog) (rs : List Relationship) (plan : JoinPlan) : Prop where
  nodup : plan.order.Nodup
  mem_order : ∀ i, i ∈ plan.order ↔ Mentions rs i
  places : plan.steps.map (·.place) = plan.order.tail
  steps : ∀ step ∈ plan.steps, step.Joins catalog rs plan.order
  once : ∀ r ∈ rs, ∃! step, step ∈ plan.steps ∧ step.place = laterInstance plan.order r
  seed : ∃ first, plan.order.head? = some first ∧ NamesTable catalog rs first plan.seed
  source : plan.source = plan.seed ++ " " ++ String.join (plan.steps.map fun step =>
    step.kind.keyword ++ " JOIN " ++ step.table ++ " ON " ++
      " AND ".intercalate step.conditions ++ " ")

variable {catalog : Catalog} {rs : List Relationship} {order : List InstanceId} {d : Direction}

theorem namesTable_tableOf (h : Resolved catalog rs) {i : InstanceId} (hi : Mentions rs i) :
    NamesTable catalog rs i (tableOf catalog rs i) := by
  have hname := h.tableName? (mem_instancesOf.mpr hi)
  unfold JoinPlan.tableName? at hname
  obtain ⟨e, he, hname⟩ := Option.bind_eq_some_iff.mp hname
  obtain ⟨table, ht, hname⟩ := Option.bind_eq_some_iff.mp hname
  rw [find?_firstMentions] at he
  exact ⟨e, table, he, ht, (Option.some.inj hname).symm⟩

theorem equates_conditionOf (h : Resolved catalog rs) {r : Relationship} (hr : r ∈ rs) :
    Equates catalog r (conditionOf catalog r) := by
  have hcond := h.condition? hr
  unfold JoinPlan.condition? at hcond
  obtain ⟨a, ha, hcond⟩ := Option.bind_eq_some_iff.mp hcond
  obtain ⟨b, hb, hcond⟩ := Option.bind_eq_some_iff.mp hcond
  exact ⟨a, b, ha, hb, (Option.some.inj hcond).symm⟩

theorem forall₂_equates (h : Resolved catalog rs) {l : List Relationship} (hl : ∀ r ∈ l, r ∈ rs) :
    List.Forall₂ (Equates catalog) l (l.map (conditionOf catalog)) := by
  rw [List.forall₂_map_right_iff]
  exact List.forall₂_same.mpr fun r hr => equates_conditionOf h (hl r hr)

theorem place_of_stepAt {name : InstanceId → String} {condition : Relationship → String}
    {i : InstanceId} {step : JoinStep} (h : stepAt name condition order rs i = .ok step) :
    step.place = i := by
  cases he : attributed order rs i with
  | nil =>
    rw [stepAt_nil he] at h
    cases h
  | cons first rest =>
    rw [stepAt_cons he] at h
    cases h
    rfl

theorem joins_of_stepAt (h : Resolved catalog rs) (hspan : Spans order rs) {i : InstanceId}
    {step : JoinStep} (hi : Mentions rs i)
    (hs : stepAt (tableOf catalog rs) (conditionOf catalog) order rs i = .ok step) :
    step.Joins catalog rs order := by
  have hown : ∀ r ∈ attributed order rs i, r ∈ rs ∧ laterInstance order r = i :=
    fun r hr => mem_attributed.mp hr
  cases he : attributed order rs i with
  | nil =>
    rw [stepAt_nil he] at hs
    cases hs
  | cons first rest =>
    rw [stepAt_cons he] at hs
    cases hs
    refine ⟨by simp [he], by simp [he], ?_, fun r hr => ?_, namesTable_tableOf h hi⟩
    · simp only [he]
      exact forall₂_equates h fun r hr => (hown r (he ▸ hr)).1
    · obtain ⟨hrs, hl⟩ := hown r hr
      have hpos := (hspan.later_eq_iff hrs).mp hl
      unfold laterPosition at hpos
      simp only
      omega

theorem places_of_planAlong {plan : JoinPlan} (hp : planAlong catalog rs order = .ok plan) :
    plan.steps.map (·.place) = order.tail := by
  obtain ⟨_, _, hsteps⟩ := along_eq_ok_iff.mp hp
  have hplaces := hsteps.imp fun i step hs => (place_of_stepAt hs).symm
  rw [← List.forall₂_eq_eq_eq, List.forall₂_map_left_iff]
  exact hplaces.flip.imp fun _ _ he => he.symm

/-- A relationship belongs to one step of a plan. -/
theorem exists_unique_step (hspan : Spans order rs) {plan : JoinPlan}
    (hp : planAlong catalog rs order = .ok plan) {r : Relationship} (hr : r ∈ rs) :
    ∃! step, step ∈ plan.steps ∧ step.place = laterInstance plan.order r := by
  have hplaces := places_of_planAlong hp
  obtain ⟨rfl, _⟩ := along_eq_ok_iff.mp hp
  have hnodup : (plan.steps.map (·.place)).Nodup := by
    rw [hplaces]
    exact hspan.nodup.tail
  have hl : laterInstance plan.order r ∈ plan.steps.map (·.place) := by
    rw [hplaces]
    exact hspan.later_mem_tail hr
  obtain ⟨step, hs, he⟩ := List.mem_map.mp hl
  refine ⟨step, ⟨hs, he⟩, fun other ⟨hos, hoe⟩ => ?_⟩
  exact List.inj_on_of_nodup_map hnodup hos hs (hoe.trans he.symm)

theorem joins_of_planAlong (h : Plannable catalog rs) {plan : JoinPlan}
    (ho : OrderedBy d rs (instancesOf rs) order) (hp : planAlong catalog rs order = .ok plan) :
    plan.Joins catalog rs := by
  have hplaces := places_of_planAlong hp
  have hspan := ho.spans h.oriented
  have honce := fun r hr => exists_unique_step hspan hp (r := r) hr
  obtain ⟨rfl, hseed, hsteps⟩ := along_eq_ok_iff.mp hp
  obtain ⟨first, later, hfirst⟩ := List.exists_cons_of_ne_nil (ho.ne_nil h.ne_nil)
  refine ⟨ho.nodup, fun i => ho.mem_iff, hplaces, fun step hs => ?_, honce, ?_, rfl⟩
  · obtain ⟨i, hi, he⟩ := exists_of_forall₂ hsteps hs
    exact joins_of_stepAt h.resolved hspan (ho.mem_iff.mp (List.mem_of_mem_tail hi)) he
  · refine ⟨first, by rw [hfirst]; rfl, ?_⟩
    rw [hseed, hfirst]
    exact namesTable_tableOf h.resolved (ho.mem_iff.mp (by simp [hfirst]))

/-- **Every plan joins what is drawn**: each mentioned instance once, each relationship once and
at the step of the later of its instances, in order of drawing. -/
theorem plan?_joins (edits : List GraphEdit) (hc : catalog.Built) {plan : JoinPlan}
    (hp : (Graph.empty.after edits).plan? catalog = some (.ok plan)) :
    plan.Joins catalog (Graph.empty.after edits).relationships := by
  obtain ⟨hne, hr⟩ := not_foreign_of_plan? hp
  have h := plannable_of_resolved hc.owned hne hr (Graph.oriented_after edits)
  obtain ⟨d, order, ho, halong⟩ := exists_order_of_plan? hr h hp
  exact joins_of_planAlong h ho halong

theorem plan?_joins_hub : Catalog.shop.Built ∧ ∃ plan,
    (Graph.empty.after hub).plan? Catalog.shop = some (.ok plan) ∧
      plan.Joins Catalog.shop (Graph.empty.after hub).relationships :=
  ⟨Catalog.built_shop, _, rfl, plan?_joins hub Catalog.built_shop rfl⟩

end VisualQuery
