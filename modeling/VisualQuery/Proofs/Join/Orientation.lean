import VisualQuery.Proofs.Join.Sources

/-! # Which rows a join keeps

A left join keeps the rows of what was joined before it, a right join those of the table it joins. A
step has its kind from the first relationship that belongs to it, unchanged, so the kind means the
side that it means in the drawing just where the step joins side `b` (`JoinStep.Inherits`). In the
order along the edges every step does. The walk both ways is gone for where there are several
sources; behind the first one it joins each of them as side `a` (`plan?_orients`). -/

namespace VisualQuery
open JoinPlan

/-- The instance whose rows a join keeps without a partner, of one joined before and one that is
joined to it. -/
def JoinKind.keeps (kind : JoinKind) (before joined : InstanceId) : Option InstanceId :=
  match kind with
  | .inner => none
  | .left => some before
  | .right => some joined

/-- Of the two instances of a relationship the one that stands earlier. -/
def JoinPlan.earlierInstance (order : List InstanceId) (r : Relationship) : InstanceId :=
  if order.idxOf r.a.place < order.idxOf r.b.place then r.a.place else r.b.place

/-- What a step has from the relationship that gives it its kind: between the side that was joined
before and the side it joins it stands as the relationship does between sides `a` and `b`, if side
`a` was joined first, and the other way round if side `b` was. -/
structure JoinStep.Inherits (rs : List Relationship) (order : List InstanceId) (step : JoinStep)
    (r : Relationship) : Prop where
  first : (attributed order rs step.place).head? = some r
  kind : step.kind = r.kind
  sides : Before order r.a.place r.b.place ∨ Before order r.b.place r.a.place
  along : Before order r.a.place r.b.place → step.place = r.b.place ∧
    step.kind.keeps (earlierInstance order r) step.place = r.kind.keeps r.a.place r.b.place
  against : Before order r.b.place r.a.place → step.place = r.a.place ∧
    step.kind.keeps (earlierInstance order r) step.place = r.kind.keeps r.b.place r.a.place

variable {catalog : Catalog} {rs : List Relationship} {order : List InstanceId} {d : Direction}
  {step : JoinStep} {r : Relationship} {plan : JoinPlan}

/-! ## Steps -/

theorem instances_of_before (hn : order.Nodup) (h : Before order r.a.place r.b.place) :
    earlierInstance order r = r.a.place ∧ laterInstance order r = r.b.place := by
  have hlt := (before_iff_idxOf_lt hn h.right_mem).mp h
  exact ⟨if_pos hlt, if_pos hlt⟩

theorem instances_of_before_reverse (hn : order.Nodup) (h : Before order r.b.place r.a.place) :
    earlierInstance order r = r.b.place ∧ laterInstance order r = r.a.place := by
  have hlt := Nat.lt_asymm ((before_iff_idxOf_lt hn h.right_mem).mp h)
  exact ⟨if_neg hlt, if_neg hlt⟩

/-- Whatever relationship comes first at a step gives the step its kind. -/
theorem inherits_of_joins (hspan : Spans order rs) (hj : step.Joins catalog rs order)
    (hfirst : (attributed order rs step.place).head? = some r) : step.Inherits rs order r := by
  obtain ⟨hr, hlater⟩ := mem_attributed.mp (List.mem_of_mem_head? hfirst)
  have hkind : step.kind = r.kind := by
    have hk := hj.kind
    rw [hfirst] at hk
    exact (Option.some.inj hk).symm
  have hsides := before_or_before (hspan.a_mem r hr) (hspan.b_mem r hr) (hspan.distinct r hr)
  refine ⟨hfirst, hkind, hsides, fun hb => ?_, fun hb => ?_⟩
  · obtain ⟨hearlier, hb⟩ := instances_of_before hspan.nodup hb
    rw [← hlater, hearlier, hb, hkind]
    exact ⟨rfl, rfl⟩
  · obtain ⟨hearlier, hb⟩ := instances_of_before_reverse hspan.nodup hb
    rw [← hlater, hearlier, hb, hkind]
    exact ⟨rfl, rfl⟩

theorem exists_inherits (hspan : Spans order rs) (hj : step.Joins catalog rs order) :
    ∃ r, step.Inherits rs order r := by
  obtain ⟨r, rest, hown⟩ := List.exists_cons_of_ne_nil hj.own
  exact ⟨r, inherits_of_joins hspan hj (by rw [hown]; rfl)⟩

/-- A step at a source joins side `a`. -/
theorem JoinStep.Inherits.place_of_source (h : step.Inherits rs order r)
    (hs : Source rs step.place) : step.place = r.a.place := by
  have hr := (mem_attributed.mp (List.mem_of_mem_head? h.first)).1
  rcases h.sides with hb | hb
  · exact absurd (h.along hb).1.symm (hs.2 r hr)
  · exact (h.against hb).1

/-! ## Plans -/

section Along
variable (h : Plannable catalog rs) (ho : OrderedBy d rs (instancesOf rs) order)
    (hp : planAlong catalog rs order = .ok plan)
include h ho hp

theorem existsUnique_inherits (hs : step ∈ plan.steps) : ∃! r, step.Inherits rs plan.order r := by
  have hj := joins_of_planAlong h ho hp
  obtain ⟨rfl, _⟩ := along_eq_ok_iff.mp hp
  obtain ⟨r, hr⟩ := exists_inherits (ho.spans h.oriented) (hj.steps step hs)
  exact ⟨r, hr, fun q hq => Option.some.inj (hq.first.symm.trans hr.first)⟩

/-- Of two sources one is not the first instance, and has a step. -/
theorem exists_step_of_sources {s t : InstanceId} (hs : Source rs s) (ht : Source rs t)
    (hne : s ≠ t) : ∃ step ∈ plan.steps, ∃ r, step.Inherits rs plan.order r ∧
      step.place = r.a.place := by
  have hplaces := places_of_planAlong hp
  have hstep : ∀ i ∈ order.tail, Source rs i → ∃ step ∈ plan.steps, ∃ r,
      step.Inherits rs plan.order r ∧ step.place = r.a.place := by
    intro i hi hsource
    rw [← hplaces] at hi
    obtain ⟨step, hstep, rfl⟩ := List.mem_map.mp hi
    obtain ⟨r, hr, _⟩ := existsUnique_inherits h ho hp hstep
    exact ⟨step, hstep, r, hr, hr.place_of_source hsource⟩
  obtain ⟨first, later, rfl⟩ := List.exists_cons_of_ne_nil (ho.ne_nil h.ne_nil)
  rcases List.mem_cons.mp (ho.mem_iff.mpr hs.1) with rfl | hmem
  · exact hstep t ((List.mem_cons.mp (ho.mem_iff.mpr ht.1)).resolve_left hne.symm) ht
  · exact hstep s hmem hs

end Along

theorem place_of_forward (h : Plannable catalog rs)
    (ho : OrderedBy .forward rs (instancesOf rs) order)
    (hp : planAlong catalog rs order = .ok plan) (hr : step.Inherits rs plan.order r) :
    step.place = r.b.place ∧ step.kind.keeps (earlierInstance plan.order r) step.place =
      r.kind.keeps r.a.place r.b.place := by
  obtain ⟨rfl, _⟩ := along_eq_ok_iff.mp hp
  have hmem := (mem_attributed.mp (List.mem_of_mem_head? hr.first)).1
  exact hr.along (ho.before_sides h.oriented r hmem)

/-- The order along the edges is stuck at a second source. -/
theorem exists_sources_of_stuck (h : Plannable catalog rs) {stuck : Stuck}
    (ho : OrderedBy .forward rs (instancesOf rs) order)
    (hp : planAlong catalog rs order = .error stuck) :
    ∃ s t, Source rs s ∧ Source rs t ∧ s ≠ t := by
  obtain ⟨first, later, rfl⟩ := List.exists_cons_of_ne_nil (ho.ne_nil h.ne_nil)
  have hno : ¬ ∃ plan, planAlong catalog rs (first :: later) = .ok plan := by simp [hp]
  rw [ho.exists_planAlong_iff h.oriented] at hno
  push Not at hno
  obtain ⟨t, ht, hsource⟩ := hno
  have hne := ne_of_mem_of_not_mem ht (List.nodup_cons.mp ho.nodup).1
  exact ⟨first, t, ho.source_head h.oriented, hsource, hne.symm⟩

/-- **What becomes of outer joins.** Every step has its kind from one relationship. If the plan was
made along the edges, each step joins side `b` and keeps the rows of the side that the relationship
means. If it was made both ways, this is so where side `a` was joined before, and some step joins
side `a`. -/
theorem plan?_orients (edits : List GraphEdit) (hc : catalog.Built) {plan : JoinPlan}
    (hp : (Graph.empty.after edits).plan? catalog = some (.ok plan)) :
    let rs := (Graph.empty.after edits).relationships
    (∀ step ∈ plan.steps, ∃! r, step.Inherits rs plan.order r) ∧
    ((inDirection? catalog rs .forward = some (.ok plan) ∧
        ∀ step ∈ plan.steps, ∀ r, step.Inherits rs plan.order r → step.place = r.b.place ∧
          step.kind.keeps (earlierInstance plan.order r) step.place =
            r.kind.keeps r.a.place r.b.place) ∨
      ((∃ stuck, inDirection? catalog rs .forward = some (.error stuck)) ∧
        inDirection? catalog rs .bothWays = some (.ok plan) ∧
        ∃ step ∈ plan.steps, ∃ r, step.Inherits rs plan.order r ∧ step.place = r.a.place)) := by
  intro rs
  obtain ⟨hne, hr⟩ := not_foreign_of_plan? hp
  have h := plannable_of_resolved hc.owned hne hr (Graph.oriented_after edits)
  obtain ⟨forward, hf, hforward⟩ := exists_joinOrder? rs .forward
  obtain ⟨bothWays, hb, hboth⟩ := exists_joinOrder? rs .bothWays
  rw [plan?_of_joinOrders hr h hf hb, Option.some.injEq, eitherPlan_eq_ok_iff] at hp
  rw [h.inDirection? hf, h.inDirection? hb]
  rcases hp with hplan | ⟨⟨stuck, hstuck⟩, hplan⟩
  · exact ⟨fun step hs => existsUnique_inherits h hforward hplan hs,
      .inl ⟨congrArg some hplan, fun step _ r => place_of_forward h hforward hplan⟩⟩
  · obtain ⟨s, t, hs, ht, hst⟩ := exists_sources_of_stuck h hforward hstuck
    exact ⟨fun step hs => existsUnique_inherits h hboth hplan hs,
      .inr ⟨⟨stuck, congrArg some hstuck⟩, congrArg some hplan,
        exists_step_of_sources h hboth hplan hs ht hst⟩⟩

/-- The walk both ways reaches the items behind the orders, as side `a` of a left join. -/
theorem plan?_orients_hub : Catalog.shop.Built ∧ ∃ plan,
    (Graph.empty.after hub).plan? Catalog.shop = some (.ok plan) ∧
      inDirection? Catalog.shop (Graph.empty.after hub).relationships .bothWays =
        some (.ok plan) ∧
      ∃ step ∈ plan.steps, ∃ r,
        step.Inherits (Graph.empty.after hub).relationships plan.order r ∧
        step.place = r.a.place := by
  refine ⟨Catalog.built_shop, _, rfl, ?_⟩
  obtain ⟨_, ⟨hforward, _⟩ | ⟨_, hboth, hstep⟩⟩ := plan?_orients hub Catalog.built_shop rfl
  · cases hforward
  · exact ⟨hboth, hstep⟩

/-- A left or right join need not join side `b` of the relationship that it has its kind from. -/
theorem not_outer_joins_side_b : ¬ ∀ (edits : List GraphEdit) (catalog : Catalog),
    catalog.Built → ∀ plan, (Graph.empty.after edits).plan? catalog = some (.ok plan) →
      ∀ step ∈ plan.steps, step.kind ≠ .inner → ∀ r,
        (attributed plan.order (Graph.empty.after edits).relationships step.place).head? = some r →
          step.place = r.b.place := by
  intro h
  have hleft := h hub Catalog.shop Catalog.built_shop _ rfl ⟨1, "items", .left, ["order_id = id"]⟩
    (by decide) (by decide) ⟨1, ⟨1, 1, 1⟩, ⟨2, 2, 3⟩, .left⟩ (by decide)
  exact absurd hleft (by decide)

end VisualQuery
