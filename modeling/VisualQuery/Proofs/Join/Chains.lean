import VisualQuery.Proofs.Join.Comparison
import VisualQuery.Proofs.Join.Sources

/-! # Chains

Where any two neighbours by number are related, relationships lead from every mentioned instance to
every one of a greater number. This leaves one order in which side `a` always stands before side
`b`, that of the numbers, and the plan has it however the relationships were drawn. Drawn in another
order, they are joined at the same steps (`plan?_of_chain`). -/

namespace VisualQuery
open Relation JoinPlan

/-- Two mentioned instances with no other one between them by number. -/
structure Neighbouring (rs : List Relationship) (i j : InstanceId) : Prop where
  lower : Mentions rs i
  upper : Mentions rs j
  lt : i < j
  between : ∀ k, Mentions rs k → ¬ (i < k ∧ k < j)

/-- Any two neighbours are related directly. -/
def Chain (rs : List Relationship) : Prop := ∀ i j, Neighbouring rs i j → Related rs i j

/-- The same columns are related, in whatever order this was drawn. -/
def SameSides (rs rs' : List Relationship) : Prop :=
  (rs.map fun r => (r.a, r.b)).Perm (rs'.map fun r => (r.a, r.b))

/-- Every instance has one table, wherever it is mentioned. -/
def OneTable (rs : List Relationship) : Prop :=
  ∀ e ∈ mentions rs, ∀ e' ∈ mentions rs, e.place = e'.place → e.table = e'.table

/-- Two steps that join one table on the same conditions, in whatever order. -/
structure JoinStep.Reorders (step step' : JoinStep) : Prop where
  place : step'.place = step.place
  table : step'.table = step.table
  conditions : step'.conditions.Perm step.conditions

variable {catalog : Catalog} {rs rs' : List Relationship} {order : List InstanceId}
  {i j : InstanceId} {g : Graph}

/-! ## Order by number -/

/-- By the distance of the numbers: instances in between split the way. -/
theorem Chain.leads_of_lt (h : Chain rs) (ho : ∀ r ∈ rs, r.a.place < r.b.place)
    (hi : Mentions rs i) (hj : Mentions rs j) (hlt : i < j) :
    TransGen (Direction.forward.Leads rs) i j := by
  induction hd : j - i using Nat.strongRecOn generalizing i j with
  | _ n ih =>
    by_cases hbetween : ∃ k, Mentions rs k ∧ i < k ∧ k < j
    · obtain ⟨k, hk, hik, hkj⟩ := hbetween
      subst hd
      exact (ih _ (Nat.sub_lt_sub_right (Nat.le_of_lt hik) hkj) hi hk hik rfl).trans
        (ih _ (Nat.sub_lt_sub_left hlt hik) hk hj hkj rfl)
    · obtain ⟨r, hr, ⟨rfl, rfl⟩ | ⟨rfl, rfl⟩⟩ :=
        h i j ⟨hi, hj, hlt, fun k hk hb => hbetween ⟨k, hk, hb⟩⟩
      · exact .single ⟨r, hr, rfl, rfl⟩
      · exact absurd (ho r hr) (Nat.lt_asymm hlt)

/-- A chain has one source, the mentioned instance of the least number. -/
theorem Chain.exists_source (h : Chain rs) (ho : ∀ r ∈ rs, r.a.place < r.b.place) (hne : rs ≠ []) :
    ∃ s, ∀ i, Source rs i ↔ i = s := by
  have hleast : ∀ s, Source rs s → ∀ i, Mentions rs i → s ≤ i := by
    intro s hs i hi
    refine Nat.le_of_not_lt fun hlt => ?_
    obtain ⟨k, _, r, hr, _, hb⟩ := TransGen.tail'_iff.mp (h.leads_of_lt ho hi hs.1 hlt)
    exact hs.2 r hr hb
  obtain ⟨first, hfirst⟩ := List.exists_mem_of_ne_nil _ (instancesOf_ne_nil hne)
  obtain ⟨s, hs, _⟩ := exists_source_le ho (mem_instancesOf.mp hfirst)
  refine ⟨s, fun i => ⟨fun hi => ?_, fun hi => hi ▸ hs⟩⟩
  exact Nat.le_antisymm (hleast i hi s hs.1) (hleast s hs i hi.1)

theorem before_of_leads (hn : order.Nodup) (hs : ∀ r ∈ rs, Before order r.a.place r.b.place)
    (h : TransGen (Direction.forward.Leads rs) i j) : Before order i j := by
  have hstep : ∀ {k l}, Direction.forward.Leads rs k l → Before order k l := by
    rintro k l ⟨r, hr, rfl, rfl⟩
    exact hs r hr
  induction h with
  | single hl => exact hstep hl
  | tail _ hl ih => exact ih.trans hn (hstep hl)

/-- **The sides of a chain leave one order**, that of the numbers. -/
theorem Chain.increasing (h : Chain rs) (ho : ∀ r ∈ rs, r.a.place < r.b.place)
    (hn : order.Nodup) (hm : ∀ i, i ∈ order ↔ Mentions rs i)
    (hs : ∀ r ∈ rs, Before order r.a.place r.b.place) : order.Pairwise (· < ·) := by
  refine List.pairwise_iff_forall_sublist.mpr fun {i j} hij => ?_
  have hbefore : Before order i j := hij
  have hi : Mentions rs i := (hm i).mp hbefore.left_mem
  have hj : Mentions rs j := (hm j).mp hbefore.right_mem
  rcases Nat.lt_trichotomy i j with hlt | rfl | hgt
  · exact hlt
  · exact absurd hbefore (hbefore.asymm hn)
  · exact absurd hbefore ((before_of_leads hn hs (h.leads_of_lt ho hj hi hgt)).asymm hn)

theorem Chain.exists_plan (hc : Chain g.relationships)
    (hr : ∀ r ∈ g.relationships, ¬ r.Foreign catalog) (h : Plannable catalog g.relationships) :
    ∃ plan, g.plan? catalog = some (.ok plan) ∧ plan.Joins catalog g.relationships ∧
      plan.order.Pairwise (· < ·) := by
  obtain ⟨s, hs⟩ := hc.exists_source h.oriented h.ne_nil
  obtain ⟨plan, hp, hf⟩ := exists_follows hr h hs
  exact ⟨plan, hp, hf.joins,
    hc.increasing h.oriented hf.joins.nodup hf.joins.mem_order hf.sorted⟩

/-! ## The same sides -/

namespace SameSides

/-- What holds of the sides of some relationship on one hand holds of some on the other. -/
theorem exists_iff (h : SameSides rs rs') (P : Endpoint → Endpoint → Prop) :
    (∃ r ∈ rs, P r.a r.b) ↔ ∃ r ∈ rs', P r.a r.b := by
  have hsides : ∀ l : List Relationship,
      (∃ r ∈ l, P r.a r.b) ↔ ∃ x ∈ l.map fun r => (r.a, r.b), P x.1 x.2 := by simp
  simp only [hsides, h.mem_iff]

theorem mentions_iff (h : SameSides rs rs') : Mentions rs i ↔ Mentions rs' i :=
  h.exists_iff fun a b => a.place = i ∨ b.place = i

theorem related_iff (h : SameSides rs rs') : Related rs i j ↔ Related rs' i j :=
  h.exists_iff fun a b => (a.place = i ∧ b.place = j) ∨ (a.place = j ∧ b.place = i)

theorem chain (h : SameSides rs rs') (hc : Chain rs) : Chain rs' := by
  intro i j hij
  exact h.related_iff.mp (hc i j ⟨h.mentions_iff.mpr hij.lower, h.mentions_iff.mpr hij.upper,
    hij.lt, fun k hk => hij.between k (h.mentions_iff.mp hk)⟩)

theorem not_foreign (h : SameSides rs rs') (hr : ∀ r ∈ rs, ¬ r.Foreign catalog) :
    ∀ r ∈ rs', ¬ r.Foreign catalog := by
  intro r hmem hf
  obtain ⟨q, hq, hforeign⟩ :=
    (h.exists_iff fun a b => a.Foreign catalog ∨ b.Foreign catalog).mpr ⟨r, hmem, hf⟩
  exact hr q hq hforeign

theorem ne_nil (h : SameSides rs rs') (hne : rs ≠ []) : rs' ≠ [] := by
  rintro rfl
  exact hne (List.map_eq_nil_iff.mp (List.perm_nil.mp h))

theorem mem_mentions_iff (h : SameSides rs rs') {e : Endpoint} :
    e ∈ mentions rs ↔ e ∈ mentions rs' := by
  rw [mem_mentions, mem_mentions]
  exact h.exists_iff fun a b => e = a ∨ e = b

/-- What belongs to a step hangs on sides alone, and so do the conditions. -/
theorem conditions_perm (h : SameSides rs rs') (order : List InstanceId) (i : InstanceId) :
    ((attributed order rs' i).map (conditionOf catalog)).Perm
      ((attributed order rs i).map (conditionOf catalog)) := by
  let drawn : Endpoint × Endpoint → Relationship := fun x => ⟨0, x.1, x.2, .inner⟩
  have hdrawn : ∀ l : List Relationship, (attributed order l i).map (conditionOf catalog) =
      (attributed order ((l.map fun r => (r.a, r.b)).map drawn) i).map (conditionOf catalog) := by
    intro l
    unfold attributed
    rw [List.map_map, List.filter_map, List.map_map]
    rfl
  rw [hdrawn, hdrawn rs]
  exact ((h.symm.map drawn).filter _).map _

end SameSides

/-- An instance with one table has one name. -/
theorem OneTable.eq_of_names (ht : OneTable rs) (h : SameSides rs rs') {name name' : String}
    (hn : NamesTable catalog rs i name) (hn' : NamesTable catalog rs' i name') : name' = name := by
  obtain ⟨e, table, he, htable, rfl⟩ := hn
  obtain ⟨e', table', he', htable', rfl⟩ := hn'
  have hplace : e.place = e'.place := by
    have hi := List.find?_some he
    have hi' := List.find?_some he'
    simp only [decide_eq_true_eq] at hi hi'
    rw [hi, hi']
  have hmem := List.mem_of_find?_eq_some he
  have hmem' := List.mem_of_find?_eq_some he'
  rw [ht e hmem e' (h.mem_mentions_iff.mpr hmem') hplace, htable'] at htable
  rw [Option.some.inj htable]

theorem Equates.eq_conditionOf {r : Relationship} {text : String} (h : Equates catalog r text) :
    conditionOf catalog r = text := by
  obtain ⟨a, b, ha, hb, rfl⟩ := h
  simp [conditionOf, condition?, ha, hb]

/-! ## Plans compared -/

theorem JoinPlan.Joins.along_tail {plan : JoinPlan} (h : plan.Joins catalog rs) :
    List.Forall₂ (fun i step => step.place = i ∧ step.Joins catalog rs plan.order)
      plan.order.tail plan.steps := by
  rw [← h.places, List.forall₂_map_left_iff]
  exact List.forall₂_same.mpr fun step hs => ⟨rfl, h.steps step hs⟩

theorem reorders_of_joins (h : SameSides rs rs') (ht : OneTable rs) {step step' : JoinStep}
    (hj : step.Joins catalog rs order) (hj' : step'.Joins catalog rs' order)
    (hplace : step'.place = step.place) : step.Reorders step' := by
  refine ⟨hplace, ht.eq_of_names h hj.table (hplace ▸ hj'.table), ?_⟩
  rw [eq_map_of_forall₂ (hj.conditions.imp fun _ _ he => he.eq_conditionOf),
    eq_map_of_forall₂ (hj'.conditions.imp fun _ _ he => he.eq_conditionOf), hplace]
  exact h.conditions_perm order step.place

theorem stepwise_of_joins {plan plan' : JoinPlan} (h : SameSides rs rs') (ht : OneTable rs)
    (hj : plan.Joins catalog rs) (hj' : plan'.Joins catalog rs')
    (horder : plan'.order = plan.order) : Stepwise JoinStep.Reorders plan plan' := by
  refine ⟨horder, ?_, ?_⟩
  · obtain ⟨first, hfirst, hseed⟩ := hj.seed
    obtain ⟨first', hfirst', hseed'⟩ := hj'.seed
    rw [horder, hfirst] at hfirst'
    obtain rfl := Option.some.inj hfirst'
    exact ht.eq_of_names h hseed hseed'
  · have hsteps := hj'.along_tail
    rw [horder] at hsteps
    refine forall₂_of_common hj.along_tail hsteps fun i step step' hs hs' => ?_
    exact reorders_of_joins h ht hs.2 hs'.2 (hs'.1.trans hs.1.symm)

/-- **A chain is planned by number.** Where any two neighbours by number are related there is a
plan, and its order is that of the numbers. If moreover every instance has one table, the same
relationships drawn in any other order give the same plan, up to the order of conditions within a
step, and to kinds. -/
theorem plan?_of_chain (edits : List GraphEdit) (hc : catalog.Built)
    (hne : (Graph.empty.after edits).relationships ≠ [])
    (hr : ∀ r ∈ (Graph.empty.after edits).relationships, ¬ r.Foreign catalog)
    (hchain : Chain (Graph.empty.after edits).relationships) :
    let g := Graph.empty.after edits
    ∃ plan, g.plan? catalog = some (.ok plan) ∧ plan.order.Pairwise (· < ·) ∧
      (∀ i, i ∈ plan.order ↔ Mentions g.relationships i) ∧
      (OneTable g.relationships → ∀ edits' : List GraphEdit,
        SameSides g.relationships (Graph.empty.after edits').relationships →
          ∃ plan', (Graph.empty.after edits').plan? catalog = some (.ok plan') ∧
            Stepwise JoinStep.Reorders plan plan') := by
  intro g
  have h := plannable_of_resolved hc.owned hne hr (Graph.oriented_after edits)
  obtain ⟨plan, hp, hj, horder⟩ := hchain.exists_plan hr h
  refine ⟨plan, hp, horder, hj.mem_order, fun ht edits' hsame => ?_⟩
  have hr' := hsame.not_foreign hr
  have h' := plannable_of_resolved hc.owned (hsame.ne_nil hne) hr' (Graph.oriented_after edits')
  obtain ⟨plan', hp', hj', horder'⟩ := (hsame.chain hchain).exists_plan hr' h'
  have hperm : plan'.order.Perm plan.order := by
    refine (List.perm_ext_iff_of_nodup hj'.nodup hj.nodup).mpr fun i => ?_
    rw [hj'.mem_order, hj.mem_order, hsame.mentions_iff]
  refine ⟨plan', hp', stepwise_of_joins hsame ht hj hj' ?_⟩
  exact hperm.eq_of_pairwise (fun i j _ _ hij hji => absurd hji (Nat.lt_asymm hij)) horder' horder

/-- The cycle of `ring`, drawn against the order of its instances and with other kinds. -/
def ringAgainst : List GraphEdit :=
  [.add ⟨2, 1, 1⟩ ⟨0, 0, 0⟩ .right, .add ⟨2, 1, 1⟩ ⟨1, 2, 3⟩ .inner, .add ⟨1, 2, 4⟩ ⟨0, 0, 0⟩ .inner]

theorem chain_ring : Chain (Graph.empty.after ring).relationships := by
  intro i j h
  have hmem : ∀ k, Mentions (Graph.empty.after ring).relationships k ↔ k ∈ [1, 2, 0] :=
    fun k => mem_instancesOf.symm
  have hpairs : ∀ k ∈ [1, 2, 0], ∀ l ∈ [1, 2, 0], k < l → ¬ (k < 1 ∧ 1 < l) →
      k = 0 ∧ l = 1 ∨ k = 1 ∧ l = 2 := by decide
  obtain ⟨rfl, rfl⟩ | ⟨rfl, rfl⟩ := hpairs i ((hmem i).mp h.lower) j ((hmem j).mp h.upper) h.lt
    (h.between 1 ((hmem 1).mpr (by decide)))
  · exact ⟨_, .tail _ (.head _), .inl ⟨rfl, rfl⟩⟩
  · exact ⟨_, .head _, .inl ⟨rfl, rfl⟩⟩

theorem plan?_of_chain_ring : Catalog.shop.Built ∧
    Chain (Graph.empty.after ring).relationships ∧ OneTable (Graph.empty.after ring).relationships ∧
    SameSides (Graph.empty.after ring).relationships (Graph.empty.after ringAgainst).relationships ∧
    ∃ plan plan', (Graph.empty.after ring).plan? Catalog.shop = some (.ok plan) ∧
      (Graph.empty.after ringAgainst).plan? Catalog.shop = some (.ok plan') ∧
      plan.order.Pairwise (· < ·) ∧ Stepwise JoinStep.Reorders plan plan' := by
  have htable : OneTable (Graph.empty.after ring).relationships := by unfold OneTable; decide
  have hsame : SameSides (Graph.empty.after ring).relationships
      (Graph.empty.after ringAgainst).relationships := by unfold SameSides; decide
  obtain ⟨plan, hp, horder, _, hother⟩ := plan?_of_chain ring Catalog.built_shop (by decide)
    (find?_foreign_eq_none.mp rfl) chain_ring
  obtain ⟨plan', hp', hsteps⟩ := hother htable ringAgainst hsame
  exact ⟨Catalog.built_shop, chain_ring, htable, hsame, plan, plan', hp, hp', horder, hsteps⟩

end VisualQuery
