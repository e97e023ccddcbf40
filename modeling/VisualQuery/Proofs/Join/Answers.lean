import Mathlib.Data.Set.Function
import VisualQuery.Proofs.Join.Renumbering
import VisualQuery.Proofs.Join.Shape

/-! # Instances in an answer

An answer names no instance but those that the graph mentions (`mentions_of_names`). So of a
renumbering only the numbers of mentioned instances matter: it is enough that these stay apart, as
when gaps between them are closed (`exists_answer_renumber`). -/

namespace VisualQuery
open JoinPlan

/-- An answer names an instance: in its order, in a step, or as the one that is not connected. -/
def Names : Except PlanError JoinPlan → InstanceId → Prop
  | .ok plan, i => i ∈ plan.order ∨ i ∈ plan.steps.map (·.place)
  | .error (.disconnected stuck), i => i = stuck.place
  | .error .noRelationships, _ | .error (.foreignEndpoint _), _ => False

variable {catalog : Catalog} {rs : List Relationship} {order : List InstanceId}
  {edits : List GraphEdit} {answer : Except PlanError JoinPlan}
  {f : InstanceId → InstanceId} {i : InstanceId}

theorem place_of_stuck {stuck : Stuck} (h : planAlong catalog rs order = .error stuck) :
    stuck.place ∈ order.tail := by
  have hsteps : order.tail.mapM (stepAt (tableOf catalog rs) (conditionOf catalog) order rs) =
      .error stuck := by
    unfold planAlong along at h
    cases hm : order.tail.mapM (stepAt (tableOf catalog rs) (conditionOf catalog) order rs) with
    | error e =>
      rw [hm] at h
      cases h
      rfl
    | ok steps =>
      rw [hm] at h
      cases h
  obtain ⟨i, hi, hstep⟩ := exists_error_of_mapM hsteps
  cases hown : attributed order rs i with
  | nil =>
    rw [stepAt_nil hown] at hstep
    cases hstep
    exact hi
  | cons first rest =>
    rw [stepAt_cons hown] at hstep
    cases hstep

theorem mem_of_planAlong {plan : JoinPlan} (h : planAlong catalog rs order = .ok plan)
    (hi : Names (.ok plan) i) : i ∈ order := by
  have hplaces := places_of_planAlong h
  obtain ⟨rfl, _⟩ := along_eq_ok_iff.mp h
  rcases hi with hi | hi
  · exact hi
  · rw [hplaces] at hi
    exact List.mem_of_mem_tail hi

/-- **Answers keep to the graph**: they name mentioned instances alone. -/
theorem mentions_of_names (hc : catalog.Built)
    (ha : (Graph.empty.after edits).plan? catalog = some answer) (hi : Names answer i) :
    Mentions (Graph.empty.after edits).relationships i := by
  by_cases hne : (Graph.empty.after edits).relationships = []
  · rw [plan?_of_nil hne] at ha
    cases ha
    cases hi
  cases hf : (Graph.empty.after edits).relationships.find? (fun r => !r.resolves catalog) with
  | some r =>
    rw [plan?_of_foreign hf] at ha
    cases ha
    cases hi
  | none =>
    have hr := find?_foreign_eq_none.mp hf
    have h := plannable_of_resolved hc.owned hne hr (Graph.oriented_after edits)
    obtain ⟨forward, bothWays, hforward, hboth, he⟩ := plan?_of_resolved hr h
    rw [ha, Option.some.injEq] at he
    subst he
    cases hplan : planAlong catalog (Graph.empty.after edits).relationships forward with
    | ok plan =>
      rw [hplan] at hi
      exact hforward.mem_iff.mp (mem_of_planAlong hplan hi)
    | error _ =>
      rw [hplan] at hi
      cases hplan' : planAlong catalog (Graph.empty.after edits).relationships bothWays with
      | ok plan =>
        rw [hplan'] at hi
        exact hboth.mem_iff.mp (mem_of_planAlong hplan' hi)
      | error stuck =>
        rw [hplan'] at hi
        obtain rfl := hi
        exact hboth.mem_iff.mp (List.mem_of_mem_tail (place_of_stuck hplan'))

/-! ## Numbers that agree where it matters -/

theorem exists_bound (f : InstanceId → InstanceId) (l : List InstanceId) :
    ∃ bound, ∀ i ∈ l, f i < bound := by
  induction l with
  | nil => exact ⟨0, fun _ hi => nomatch hi⟩
  | cons i rest ih =>
    obtain ⟨bound, hrest⟩ := ih
    refine ⟨max (f i + 1) bound, fun j hj => ?_⟩
    rcases List.mem_cons.mp hj with rfl | hj
    · exact Nat.lt_of_lt_of_le (Nat.lt_succ_self _) (Nat.le_max_left ..)
    · exact Nat.lt_of_lt_of_le (hrest j hj) (Nat.le_max_right ..)

/-- Numbers that are apart on some instances can be chosen apart on all: the others go above. -/
theorem exists_injective_extension (l : List InstanceId) (hf : Set.InjOn f {i | i ∈ l}) :
    ∃ f' : InstanceId → InstanceId, Function.Injective f' ∧ ∀ i ∈ l, f' i = f i := by
  obtain ⟨bound, hbound⟩ := exists_bound f l
  refine ⟨fun i => if i ∈ l then f i else bound + i, fun i j hij => ?_, fun i hi => if_pos hi⟩
  by_cases hi : i ∈ l <;> by_cases hj : j ∈ l <;> simp only [hi, hj, if_true, if_false] at hij
  · exact hf hi hj hij
  · exact absurd (hij ▸ hbound i hi) (Nat.not_lt.mpr (Nat.le_add_right ..))
  · exact absurd (hij ▸ hbound j hj) (Nat.not_lt.mpr (Nat.le_add_right ..))
  · exact Nat.add_left_cancel hij

section Agreement
variable {f' : InstanceId → InstanceId} {ids : RelationshipId → RelationshipId}

theorem Graph.renumber_congr {g : Graph} (h : ∀ i, Mentions g.relationships i → f' i = f i) :
    g.renumber ⟨f', id, id, ids⟩ = g.renumber ⟨f, id, id, ids⟩ := by
  have hsides : ∀ r ∈ g.relationships,
      r.renumber ⟨f', id, id, ids⟩ = r.renumber ⟨f, id, id, ids⟩ := by
    intro r hr
    have ha := h r.a.place ⟨r, hr, .inl rfl⟩
    have hb := h r.b.place ⟨r, hr, .inr rfl⟩
    simp only [Relationship.renumber, Endpoint.renumber, ha, hb]
  simp only [Graph.renumber, List.map_congr_left hsides]

theorem renumber_answer_congr (h : ∀ i, Names answer i → f' i = f i) :
    mapBoth (·.renumber ⟨f', id, id, ids⟩) (·.renumber ⟨f', id, id, ids⟩) answer =
      mapBoth (·.renumber ⟨f, id, id, ids⟩) (·.renumber ⟨f, id, id, ids⟩) answer := by
  cases answer with
  | ok plan =>
    have horder : plan.order.map f' = plan.order.map f :=
      List.map_congr_left fun i hi => h i (.inl hi)
    have hsteps : plan.steps.map (·.renumber ⟨f', id, id, ids⟩) =
        plan.steps.map (·.renumber ⟨f, id, id, ids⟩) := by
      refine List.map_congr_left fun s hs => ?_
      have hplace := h s.place (.inr (List.mem_map_of_mem hs))
      simp only [JoinStep.renumber, hplace]
    simp only [mapBoth, JoinPlan.renumber, horder, hsteps]
  | error e =>
    cases e with
    | noRelationships => rfl
    | foreignEndpoint _ => rfl
    | disconnected stuck =>
      have hplace := h stuck.place rfl
      simp only [mapBoth, PlanError.renumber, Stuck.renumber, hplace]

end Agreement

/-- **Planning sees no numbers**, as long as those of mentioned instances stay apart. -/
theorem exists_answer_renumber (edits : List GraphEdit) (hc : catalog.Built)
    (hf : Set.InjOn f {i | Mentions (Graph.empty.after edits).relationships i})
    (ids : RelationshipId → RelationshipId) :
    ∃ answer, (Graph.empty.after edits).plan? catalog = some answer ∧
      ((Graph.empty.after edits).renumber ⟨f, id, id, ids⟩).plan? catalog =
        some (mapBoth (·.renumber ⟨f, id, id, ids⟩) (·.renumber ⟨f, id, id, ids⟩) answer) := by
  obtain ⟨answer, hanswer⟩ := exists_answer edits hc
  -- numbers of other instances may clash, so plan with some that do not and come back
  obtain ⟨f', hinjective, hagree⟩ :=
    exists_injective_extension (instancesOf (Graph.empty.after edits).relationships)
      (by simpa only [mem_instancesOf] using hf)
  simp only [mem_instancesOf] at hagree
  refine ⟨answer, hanswer, ?_⟩
  have hcarried : ∀ e : Endpoint, e.Carried ⟨f', id, id, ids⟩ catalog catalog := .refl rfl rfl
  have hplan := plan?_renumber (Graph.empty.after edits) hinjective fun e _ => hcarried e
  rw [← Graph.renumber_congr hagree, hplan, hanswer, Option.map_some,
    renumber_answer_congr fun i hi => hagree i (mentions_of_names hc hanswer hi)]

end VisualQuery
