import VisualQuery.Proofs.Join.Comparison
import VisualQuery.Proofs.Join.History
import VisualQuery.Proofs.Join.Shape

/-! # Parallel relationships

A relationship between two instances that an earlier one already relates mentions nothing new and
draws no new edge. It comes behind the earlier one wherever the two are joined, so that it gives
no kind to the step either. All that goes with it is its own condition (`plan?_remove_parallel`). -/

namespace VisualQuery
open JoinPlan

/-- What a step along an order loses with `r`, drawn between `before` and `after`: its condition
if it is the step of `r`, and else nothing. -/
structure JoinStep.Loses (catalog : Catalog) (before : List Relationship) (r : Relationship)
    (after : List Relationship) (order : List InstanceId) (step step' : JoinStep) : Prop where
  place : step'.place = step.place
  table : step'.table = step.table
  kind : step'.kind = step.kind
  own : step.place = laterInstance order r → ∃ front text back,
    step.conditions = front ++ text :: back ∧ step'.conditions = front ++ back ∧
    List.Forall₂ (Equates catalog) (attributed order before step.place) front ∧
    Equates catalog r text ∧
    List.Forall₂ (Equates catalog) (attributed order after step.place) back
  other : step.place ≠ laterInstance order r → step'.conditions = step.conditions

/-- What a plan loses with `r`: one of its steps is that of `r`. -/
structure JoinPlan.Loses (catalog : Catalog) (before : List Relationship) (r : Relationship)
    (after : List Relationship) (plan plan' : JoinPlan) : Prop where
  stepwise : Stepwise (JoinStep.Loses catalog before r after plan.order) plan plan'
  once : ∃! step, step ∈ plan.steps ∧ step.place = laterInstance plan.order r

variable {catalog : Catalog} {before after : List Relationship} {q r : Relationship}
  {order : List InstanceId} {i : InstanceId}

/-! ## In the midst of others -/

theorem attributed_parallel_own (order : List InstanceId) (r : Relationship)
    (before after : List Relationship) :
    attributed order (before ++ r :: after) (laterInstance order r) =
      attributed order before (laterInstance order r) ++
        r :: attributed order after (laterInstance order r) := by
  rw [attributed_append]
  exact congrArg _ (List.filter_cons_of_pos (by simp))

theorem attributed_parallel_of_ne (hi : laterInstance order r ≠ i) :
    attributed order (before ++ r :: after) i = attributed order (before ++ after) i := by
  rw [attributed_append, attributed_append]
  exact congrArg _ (List.filter_cons_of_neg (by simpa using hi))

theorem remove_middle {g : Graph} (hg : g.Ordered) (h : g.relationships = before ++ r :: after) :
    g.remove r.id = (.ok r, { g with relationships := before ++ after }) := by
  have hr : g.get? r.id = some r := hg.get?_eq_some_iff.mpr ⟨by simp [h], rfl⟩
  have hbefore : ∀ p ∈ before, ¬ decide (p.id = r.id) = true := by
    have hlt := hg.increasing
    rw [h] at hlt
    intro p hp
    simpa using Nat.ne_of_lt ((List.pairwise_append.mp hlt).2.2 p hp r (by simp))
  unfold Graph.remove Graph.get
  rw [hr, h, List.eraseP_append_right _ hbefore, List.eraseP_cons_of_pos (by simp)]

/-! ## Nothing new -/

section Parallel
variable (hq : q ∈ before) (ha : q.a.place = r.a.place) (hb : q.b.place = r.b.place)
include hq ha hb

theorem firstMentions_parallel :
    firstMentions (before ++ after) = firstMentions (before ++ r :: after) := by
  have hseen : ∀ e, e = q.a ∨ e = q.b →
      e.place ∈ ((mentions before).foldl addMention []).map (·.place) :=
    fun e he => place_mem_foldl_addMention _ [] (mem_mentions.mpr ⟨q, hq, he⟩)
  have hra := addMention_of_mem (ha ▸ hseen q.a (.inl rfl))
  have hrb := addMention_of_mem (hb ▸ hseen q.b (.inr rfl))
  have hmentions : mentions (before ++ r :: after) =
      mentions before ++ r.a :: r.b :: mentions after := by simp [mentions]
  unfold firstMentions
  rw [hmentions, mentions, List.flatMap_append, List.foldl_append, List.foldl_append,
    List.foldl_cons, List.foldl_cons, hra, hrb]
  rfl

theorem edges?_parallel (nodes : List InstanceId) :
    edges? nodes (before ++ after) = edges? nodes (before ++ r :: after) := by
  unfold edges?
  generalize hpair : (fun r : Relationship => (do
    let a ← nodes.idxOf? r.a.place
    let b ← nodes.idxOf? r.b.place
    pure (a, b) : Option (Nat × Nat))) = pair
  -- positions are looked up by instance, so `q` has drawn this edge when it is the turn of `r`
  have hqr : pair q = pair r := by
    subst hpair
    simp only [ha, hb]
  rw [List.mapM_append, List.mapM_append, List.mapM_cons, ← hqr]
  cases hbefore : before.mapM pair with
  | none => rfl
  | some pairs =>
    obtain ⟨e, hmem, he⟩ := exists_of_mapM_eq_some hq hbefore
    have hdrawn : e ∈ pairs.foldl addEdge [] := (mem_foldl_addEdge pairs []).mpr (.inr hmem)
    rw [he]
    cases after.mapM pair with
    | none => rfl
    | some pairs' =>
      show some ((pairs ++ pairs').foldl addEdge []) =
        some ((pairs ++ e :: pairs').foldl addEdge [])
      rw [List.foldl_append, List.foldl_append, List.foldl_cons, addEdge_of_mem hdrawn]

theorem alike_parallel : Alike (before ++ r :: after) (before ++ after) :=
  ⟨firstMentions_parallel hq ha hb, edges?_parallel hq ha hb⟩

/-! ## One condition less -/

/-- The step of `r` begins with an earlier relationship, whether `r` is there or not. -/
theorem mirrors_stepAt_parallel (h : Resolved catalog (before ++ r :: after))
    (order : List InstanceId) (i : InstanceId) :
    Mirrors id (JoinStep.Loses catalog before r after order)
      (stepAt (tableOf catalog (before ++ r :: after)) (conditionOf catalog) order
        (before ++ r :: after) i)
      (stepAt (tableOf catalog (before ++ r :: after)) (conditionOf catalog) order
        (before ++ after) i) := by
  by_cases hi : i = laterInstance order r
  · subst hi
    -- `q` has its later instance in common with `r`, so something stands in front of `r`
    have hqi : q ∈ attributed order before (laterInstance order r) :=
      mem_attributed.mpr ⟨hq, laterInstance_congr ha hb⟩
    obtain ⟨first, rest, hbefore⟩ := List.exists_cons_of_ne_nil (List.ne_nil_of_mem hqi)
    have hwith := attributed_parallel_own order r before after
    have hwithout := attributed_append order before after (laterInstance order r)
    rw [hbefore, List.cons_append] at hwith hwithout
    rw [stepAt_cons hwith, stepAt_cons hwithout]
    have hfront : ∀ p ∈ attributed order before (laterInstance order r), p ∈ before ++ r :: after :=
      fun p hp => List.mem_append_left _ (mem_attributed.mp hp).1
    have hback : ∀ p ∈ attributed order after (laterInstance order r), p ∈ before ++ r :: after :=
      fun p hp => by simp [(mem_attributed.mp hp).1]
    refine .ok ⟨rfl, rfl, rfl, fun _ => ?_, fun hne => absurd rfl hne⟩
    refine ⟨_, conditionOf catalog r, _, ?_, ?_, forall₂_equates h hfront,
      equates_conditionOf h (by simp), forall₂_equates h hback⟩
    · simp [hbefore]
    · simp [hbefore]
  · rw [stepAt_congr (attributed_parallel_of_ne (Ne.symm hi))]
    refine .refl fun step hstep => ?_
    have hplace := place_of_stepAt hstep
    exact ⟨rfl, rfl, rfl, fun he => absurd (hplace ▸ he) hi, fun _ => rfl⟩

theorem mirrors_planAlong_parallel (h : Resolved catalog (before ++ r :: after))
    (hspan : Spans order (before ++ r :: after)) :
    Mirrors id (JoinPlan.Loses catalog before r after)
      (planAlong catalog (before ++ r :: after) order)
      (planAlong catalog (before ++ after) order) := by
  have halike : Alike (before ++ r :: after) (before ++ after) := alike_parallel hq ha hb
  have halong := mirrors_along (mirrors_stepAt_parallel hq ha hb h order)
  unfold planAlong
  rw [halike.tableOf_eq]
  refine halong.imp fun plan plan' ⟨hplan, hstepwise⟩ => ?_
  have honce := exists_unique_step hspan hplan (r := r) (by simp)
  obtain ⟨rfl, _⟩ := along_eq_ok_iff.mp hplan
  exact ⟨hstepwise, honce⟩

end Parallel

/-! ## The plan without it -/

/-- Sides are ordered, so that two relationships between one pair have it the same way round. -/
theorem exists_parallel (ho : ∀ p ∈ before ++ r :: after, p.a.place < p.b.place)
    (h : Related before r.a.place r.b.place) :
    ∃ q ∈ before, q.a.place = r.a.place ∧ q.b.place = r.b.place := by
  obtain ⟨q, hq, hsides | ⟨ha, hb⟩⟩ := h
  · exact ⟨q, hq, hsides⟩
  · have hlt := ho q (List.mem_append_left _ hq)
    rw [ha, hb] at hlt
    exact absurd (ho r (by simp)) (Nat.lt_asymm hlt)

/-- **Parallel relationships are inert.** Where an earlier relationship relates the same two
instances as `r`, removing `r` leaves planning stuck as it was; or else it leaves the plan, less
the condition of `r`. -/
theorem plan?_remove_parallel (edits : List GraphEdit) (hc : catalog.Built)
    (hg : (Graph.empty.after edits).relationships = before ++ r :: after)
    (hr : ∀ p ∈ before ++ r :: after, ¬ p.Foreign catalog)
    (hp : Related before r.a.place r.b.place) :
    let g := Graph.empty.after edits
    ∃ g', g.remove r.id = (.ok r, g') ∧
      ((∃ stuck, g.plan? catalog = some (.error (.disconnected stuck)) ∧
        g'.plan? catalog = some (.error (.disconnected stuck))) ∨
      ∃ plan plan', g.plan? catalog = some (.ok plan) ∧ g'.plan? catalog = some (.ok plan') ∧
        plan.Loses catalog before r after plan') := by
  intro g
  have ho : ∀ p ∈ before ++ r :: after, p.a.place < p.b.place := hg ▸ Graph.oriented_after edits
  obtain ⟨q, hq, ha, hb⟩ := exists_parallel ho hp
  have hkept : ∀ p ∈ before ++ after, p ∈ before ++ r :: after := fun p hm =>
    (List.mem_append.mp hm).elim (List.mem_append_left _) fun hm => by simp [hm]
  have hr' : ∀ p ∈ before ++ after, ¬ p.Foreign catalog := fun p hm => hr p (hkept p hm)
  have h := plannable_of_resolved hc.owned (by simp) hr ho
  have h' := plannable_of_resolved hc.owned (List.ne_nil_of_mem (List.mem_append_left _ hq)) hr'
    fun p hm => ho p (hkept p hm)
  refine ⟨_, remove_middle (Graph.ordered_empty.after edits) hg, ?_⟩
  rw [← hg] at hr h
  refine plan?_of_alike hr hr' h h' ?_ fun order hspan => ?_
  · rw [hg]
    exact alike_parallel hq ha hb
  · rw [hg] at hspan ⊢
    exact mirrors_planAlong_parallel hq ha hb (hg ▸ h.resolved) hspan

/-- Two relationships between customers and orders, and one between orders and items. -/
def doubled : List GraphEdit :=
  [.add ⟨0, 0, 0⟩ ⟨1, 2, 4⟩ .inner, .add ⟨1, 2, 3⟩ ⟨0, 0, 0⟩ .right, .add ⟨2, 1, 1⟩ ⟨1, 2, 3⟩ .left]

theorem plan?_remove_parallel_doubled : Catalog.shop.Built ∧ ∃ g' plan plan',
    (Graph.empty.after doubled).remove 1 = (.ok ⟨1, ⟨0, 0, 0⟩, ⟨1, 2, 3⟩, .right⟩, g') ∧
    (Graph.empty.after doubled).plan? Catalog.shop = some (.ok plan) ∧
    g'.plan? Catalog.shop = some (.ok plan') ∧
    plan.Loses Catalog.shop [⟨0, ⟨0, 0, 0⟩, ⟨1, 2, 4⟩, .inner⟩] ⟨1, ⟨0, 0, 0⟩, ⟨1, 2, 3⟩, .right⟩
      [⟨2, ⟨1, 2, 3⟩, ⟨2, 1, 1⟩, .left⟩] plan' := by
  have hg : (Graph.empty.after doubled).relationships = [⟨0, ⟨0, 0, 0⟩, ⟨1, 2, 4⟩, .inner⟩] ++
      ⟨1, ⟨0, 0, 0⟩, ⟨1, 2, 3⟩, .right⟩ :: [⟨2, ⟨1, 2, 3⟩, ⟨2, 1, 1⟩, .left⟩] := rfl
  obtain ⟨g', hremove, ⟨_, hstuck, _⟩ | ⟨plan, plan', hplans⟩⟩ :=
    plan?_remove_parallel doubled Catalog.built_shop hg (find?_foreign_eq_none.mp rfl)
      ⟨_, .head _, .inl ⟨rfl, rfl⟩⟩
  · cases hstuck
  · exact ⟨Catalog.built_shop, g', plan, plan', hremove, hplans⟩

end VisualQuery
