import VisualQuery.Proofs.Join.Outcome

/-! # Two graphs planned alike

Planning reads a graph three times: for the endpoints first mentioned, for the edges between
instances, and for the relationships that belong to each step. Where two graphs agree in the first
two (`Alike`) they are walked alike, so that their answers compare as their steps do
(`plan?_of_alike`). -/

namespace VisualQuery
open JoinPlan

/-- Relationships that mention the same endpoints first and draw the same edges. -/
structure Alike (rs rs' : List Relationship) : Prop where
  firsts : firstMentions rs' = firstMentions rs
  edges : ∀ nodes, edges? nodes rs' = edges? nodes rs

/-- Two plans in one order and from one table, whose steps are in relation one by one. -/
structure JoinPlan.Stepwise (S : JoinStep → JoinStep → Prop) (plan plan' : JoinPlan) : Prop where
  order : plan'.order = plan.order
  seed : plan'.seed = plan.seed
  steps : List.Forall₂ S plan.steps plan'.steps

attribute [ext] JoinStep JoinPlan

variable {catalog : Catalog} {rs rs' : List Relationship} {order : List InstanceId}
  {g g' : Graph} {R : JoinPlan → JoinPlan → Prop}

namespace Alike

theorem instancesOf_eq (h : Alike rs rs') : instancesOf rs' = instancesOf rs := by
  unfold instancesOf
  rw [h.firsts]

theorem tableOf_eq (h : Alike rs rs') : tableOf catalog rs' = tableOf catalog rs := by
  funext i
  unfold tableOf
  rw [h.firsts]

theorem joinOrder?_eq (h : Alike rs rs') (d : Direction) :
    joinOrder? d (instancesOf rs') rs' = joinOrder? d (instancesOf rs) rs := by
  unfold joinOrder?
  rw [h.instancesOf_eq, h.edges]

end Alike

theorem JoinPlan.Stepwise.eq {plan plan' : JoinPlan}
    (h : Stepwise (fun step step' => step' = step) plan plan') : plan' = plan := by
  have hsteps := h.steps.flip
  rw [List.forall₂_eq_eq_eq] at hsteps
  exact JoinPlan.ext h.order h.seed hsteps

/-- Steps that mirror each other make up plans that do. -/
theorem mirrors_along {name : InstanceId → String} {condition : Relationship → String}
    {S : JoinStep → JoinStep → Prop}
    (h : ∀ i, Mirrors id S (stepAt name condition order rs i) (stepAt name condition order rs' i)) :
    Mirrors id (fun plan plan' => along name condition order rs = .ok plan ∧ Stepwise S plan plan')
      (along name condition order rs) (along name condition order rs') := by
  have hsteps := Mirrors.mapM (k := id) h order.tail
  rw [List.map_id] at hsteps
  unfold along
  generalize order.tail.mapM (stepAt name condition order rs) = steps at hsteps ⊢
  generalize order.tail.mapM (stepAt name condition order rs') = steps' at hsteps ⊢
  cases hsteps with
  | ok h => exact .ok ⟨rfl, rfl, rfl, h⟩
  | error stuck => exact .error stuck

theorem mirrors_eitherPlan {forward forward' bothWays bothWays' : Except Stuck JoinPlan}
    (hf : Mirrors id R forward forward') (hb : Mirrors id R bothWays bothWays') :
    Mirrors id R (eitherPlan forward bothWays) (eitherPlan forward' bothWays') := by
  cases hf with
  | ok h => exact .ok h
  | error _ =>
    cases hb with
    | ok h => exact .ok h
    | error stuck => exact .error (PlanError.disconnected stuck)

/-- **Graphs that are walked alike** are stuck alike, or else have plans in the relation in which
their plans along every order are. -/
theorem plan?_of_alike (hr : ∀ r ∈ g.relationships, ¬ r.Foreign catalog)
    (hr' : ∀ r ∈ g'.relationships, ¬ r.Foreign catalog) (h : Plannable catalog g.relationships)
    (h' : Plannable catalog g'.relationships) (ha : Alike g.relationships g'.relationships)
    (hplans : ∀ order, Spans order g.relationships →
      Mirrors id R (planAlong catalog g.relationships order)
        (planAlong catalog g'.relationships order)) :
    (∃ stuck, g.plan? catalog = some (.error (.disconnected stuck)) ∧
      g'.plan? catalog = some (.error (.disconnected stuck))) ∨
    ∃ plan plan', g.plan? catalog = some (.ok plan) ∧ g'.plan? catalog = some (.ok plan') ∧
      R plan plan' := by
  obtain ⟨forward, hf, hforward⟩ := exists_joinOrder? g.relationships .forward
  obtain ⟨bothWays, hb, hboth⟩ := exists_joinOrder? g.relationships .bothWays
  have hplan := plan?_of_joinOrders hr h hf hb
  have hplan' := plan?_of_joinOrders hr' h' (ha.joinOrder?_eq _ ▸ hf) (ha.joinOrder?_eq _ ▸ hb)
  have hcompare := mirrors_eitherPlan (hplans forward (hforward.spans h.oriented))
    (hplans bothWays (hboth.spans h.oriented))
  cases hanswer : eitherPlan (planAlong catalog g.relationships forward)
      (planAlong catalog g.relationships bothWays) with
  | ok plan =>
    obtain ⟨plan', hanswer', hplans⟩ := hcompare.exists_ok hanswer
    exact .inr ⟨plan, plan', hanswer ▸ hplan, hanswer' ▸ hplan', hplans⟩
  | error e =>
    have hanswer' := hcompare.eq_error hanswer
    obtain ⟨stuck, rfl⟩ := disconnected_of_eitherPlan hanswer
    exact .inl ⟨stuck, hanswer ▸ hplan, hanswer' ▸ hplan'⟩

end VisualQuery
