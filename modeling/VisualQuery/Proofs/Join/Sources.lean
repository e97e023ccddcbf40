import VisualQuery.Proofs.Join.Shape

/-! # Plans and sources

A source is a mentioned instance that is side `b` of nothing. Sides are ordered by number, so no
path along the edges leads back, and the order of the walk along the edges puts side `a` of every
relationship before side `b` (`OrderedBy.before_sides`). What stands first in it is a source, and
it is stuck at any other source. Hence one source gives a topological order that starts there, and
several leave it to the walk both ways, which starts at the first relationship
(`plan?_of_sources`). -/

namespace VisualQuery
open Relation JoinPlan

/-- A mentioned instance that is side `b` of no relationship. -/
def Source (rs : List Relationship) (i : InstanceId) : Prop :=
  Mentions rs i ∧ ∀ r ∈ rs, r.b.place ≠ i

/-- A plan from the instance `s` on, in which every relationship is joined from side `a` to
side `b`. -/
structure JoinPlan.Follows (catalog : Catalog) (rs : List Relationship) (s : InstanceId)
    (plan : JoinPlan) : Prop where
  joins : plan.Joins catalog rs
  sorted : ∀ r ∈ rs, Before plan.order r.a.place r.b.place
  head : plan.order.head? = some s
  least : ∀ i, Mentions rs i → s ≤ i
  seed : NamesTable catalog rs s plan.seed
  entered : ∀ step ∈ plan.steps, ∀ r ∈ attributed plan.order rs step.place,
    r.b.place = step.place

variable {catalog : Catalog} {rs : List Relationship} {order : List InstanceId} {i j : InstanceId}

/-! ## Edges lead to greater numbers -/

theorem le_of_leads (ho : ∀ r ∈ rs, r.a.place < r.b.place)
    (h : ReflTransGen (Direction.forward.Leads rs) i j) : i ≤ j := by
  induction h with
  | refl => exact Nat.le_refl i
  | tail _ hl ih =>
    obtain ⟨r, hr, rfl, rfl⟩ := hl
    exact Nat.le_trans ih (Nat.le_of_lt (ho r hr))

/-- Following relationships from side `b` to side `a` ends at a source. -/
theorem exists_source_le (ho : ∀ r ∈ rs, r.a.place < r.b.place) (hi : Mentions rs i) :
    ∃ s, Source rs s ∧ s ≤ i := by
  induction i using Nat.strongRecOn with
  | _ i ih =>
    by_cases hb : ∃ r ∈ rs, r.b.place = i
    · obtain ⟨r, hr, rfl⟩ := hb
      obtain ⟨s, hs, hle⟩ := ih r.a.place (ho r hr) ⟨r, hr, .inl rfl⟩
      exact ⟨s, hs, Nat.le_trans hle (Nat.le_of_lt (ho r hr))⟩
    · exact ⟨i, ⟨hi, fun r hr he => hb ⟨r, hr, he⟩⟩, Nat.le_refl i⟩

/-! ## The order along the edges -/

namespace OrderedBy

/-- **The order along the edges is topological.** -/
theorem before_sides (h : OrderedBy .forward rs (instancesOf rs) order)
    (ho : ∀ r ∈ rs, r.a.place < r.b.place) :
    ∀ r ∈ rs, Before order r.a.place r.b.place := by
  intro r hr
  rcases h.ordered r.a.place r.b.place ⟨r, hr, rfl, rfl⟩ with hb | hback
  · exact hb
  · have hle := le_of_leads ho hback
    exact absurd (ho r hr) (Nat.not_lt.mpr hle)

theorem laterInstance_eq (h : OrderedBy .forward rs (instancesOf rs) order)
    (ho : ∀ r ∈ rs, r.a.place < r.b.place) {r : Relationship} (hr : r ∈ rs) :
    laterInstance order r = r.b.place := by
  have hb := h.before_sides ho r hr
  have hlt := (before_iff_idxOf_lt h.nodup hb.right_mem).mp hb
  unfold laterInstance
  rw [if_pos hlt]

theorem source_head {first : InstanceId} {later : List InstanceId}
    (h : OrderedBy .forward rs (instancesOf rs) (first :: later))
    (ho : ∀ r ∈ rs, r.a.place < r.b.place) : Source rs first := by
  refine ⟨h.mem_iff.mp (by simp), fun r hr he => ?_⟩
  have hb := h.before_sides ho r hr
  have hlt := (before_iff_idxOf_lt h.nodup hb.right_mem).mp hb
  rw [he, List.idxOf_cons_self] at hlt
  exact Nat.not_lt_zero _ hlt

/-- The order along the edges gives a plan just if there is no source behind the first. -/
theorem exists_planAlong_iff (h : OrderedBy .forward rs (instancesOf rs) order)
    (ho : ∀ r ∈ rs, r.a.place < r.b.place) :
    (∃ plan, planAlong catalog rs order = .ok plan) ↔ ∀ i ∈ order.tail, ¬ Source rs i := by
  rw [exists_along_iff]
  constructor
  · intro hl i hi hs
    obtain ⟨r, hr, he⟩ := hl i hi
    rw [h.laterInstance_eq ho hr] at he
    exact hs.2 r hr he
  · intro hl i hi
    have hm := h.mem_iff.mp (List.mem_of_mem_tail hi)
    -- an instance that no relationship enters would be a source
    by_contra hno
    refine hl i hi ⟨hm, fun r hr he => hno ⟨r, hr, ?_⟩⟩
    rw [h.laterInstance_eq ho hr, he]

end OrderedBy

/-! ## One source -/

theorem follows_of_planAlong (h : Plannable catalog rs) {s : InstanceId} {plan : JoinPlan}
    (hs : ∀ i, Source rs i ↔ i = s) (ho : OrderedBy .forward rs (instancesOf rs) order)
    (hp : planAlong catalog rs order = .ok plan) : plan.Follows catalog rs s := by
  have hj := joins_of_planAlong h ho hp
  obtain ⟨rfl, _, _⟩ := along_eq_ok_iff.mp hp
  obtain ⟨first, hhead, hseed⟩ := hj.seed
  obtain ⟨later, hl⟩ := List.head?_eq_some_iff.mp hhead
  have hfirst : first = s := (hs first).mp (OrderedBy.source_head (hl ▸ ho) h.oriented)
  subst hfirst
  refine ⟨hj, ho.before_sides h.oriented, hhead, fun i hi => ?_, hseed, fun step _ r hr => ?_⟩
  · obtain ⟨t, ht, hle⟩ := exists_source_le h.oriented hi
    rwa [(hs t).mp ht] at hle
  · obtain ⟨hrs, he⟩ := mem_attributed.mp hr
    rwa [ho.laterInstance_eq h.oriented hrs] at he

theorem exists_follows {g : Graph} (hr : ∀ r ∈ g.relationships, ¬ r.Foreign catalog)
    (h : Plannable catalog g.relationships) {s : InstanceId}
    (hs : ∀ i, Source g.relationships i ↔ i = s) :
    ∃ plan, g.plan? catalog = some (.ok plan) ∧ plan.Follows catalog g.relationships s := by
  obtain ⟨forward, bothWays, hf, _, he⟩ := plan?_of_resolved hr h
  obtain ⟨first, later, rfl⟩ := List.exists_cons_of_ne_nil (hf.ne_nil h.ne_nil)
  have hfirst := (hs first).mp (hf.source_head h.oriented)
  have htail : ∀ i ∈ (first :: later).tail, ¬ Source g.relationships i := by
    intro i hi hsource
    have hi' : first ∈ later := by rwa [hfirst, ← (hs i).mp hsource]
    exact (List.nodup_cons.mp hf.nodup).1 hi'
  obtain ⟨plan, hplan⟩ := (hf.exists_planAlong_iff h.oriented).mpr htail
  refine ⟨plan, ?_, follows_of_planAlong h hs hf hplan⟩
  rw [he, hplan]
  rfl

/-! ## Several sources -/

theorem head?_instancesOf (rs : List Relationship) :
    (instancesOf rs).head? = rs.head?.map (·.a.place) := by
  cases rs with
  | nil => rfl
  | cons r rest =>
    unfold instancesOf
    rw [List.head?_map, head?_firstMentions]
    rfl

theorem head?_of_sources {g : Graph} (hr : ∀ r ∈ g.relationships, ¬ r.Foreign catalog)
    (h : Plannable catalog g.relationships) {s t : InstanceId} (hs : Source g.relationships s)
    (ht : Source g.relationships t) (hne : s ≠ t) {plan : JoinPlan}
    (hp : g.plan? catalog = some (.ok plan)) :
    plan.order.head? = g.relationships.head?.map (·.a.place) := by
  obtain ⟨forward, bothWays, hf, hb, he⟩ := plan?_of_resolved hr h
  rcases eitherPlan_eq_ok_iff.mp (Option.some.inj (he.symm.trans hp)) with hp | ⟨_, hplan⟩
  · exfalso
    have htail := (hf.exists_planAlong_iff h.oriented).mp ⟨plan, hp⟩
    obtain ⟨first, later, rfl⟩ := List.exists_cons_of_ne_nil (hf.ne_nil h.ne_nil)
    have hfirst : ∀ i, Source g.relationships i → i = first := by
      intro i hi
      rcases List.mem_cons.mp (hf.mem_iff.mpr hi.1) with he | hl
      · exact he
      · exact absurd hi (htail i hl)
    exact hne ((hfirst s hs).trans (hfirst t ht).symm)
  · have hconn := (exists_plan?_iff hr h).mp ⟨plan, hp⟩
    have hhead := (linked_of_connected hb h.ne_nil hconn).1
    rw [(along_eq_ok_iff.mp hplan).1, hhead, head?_instancesOf]

/-- **Where a plan starts.** From a single source there is always a plan, and it follows every
relationship from side `a` to side `b`. With several sources a plan starts at side `a` of the first
relationship. -/
theorem plan?_of_sources (edits : List GraphEdit) (hc : catalog.Built)
    (hne : (Graph.empty.after edits).relationships ≠ [])
    (hr : ∀ r ∈ (Graph.empty.after edits).relationships, ¬ r.Foreign catalog) :
    let g := Graph.empty.after edits
    (∀ s, (∀ i, Source g.relationships i ↔ i = s) →
      ∃ plan, g.plan? catalog = some (.ok plan) ∧ plan.Follows catalog g.relationships s) ∧
    (∀ s t, Source g.relationships s → Source g.relationships t → s ≠ t →
      ∀ plan, g.plan? catalog = some (.ok plan) →
        plan.order.head? = g.relationships.head?.map (·.a.place)) := by
  intro g
  have h := plannable_of_resolved hc.owned hne hr (Graph.oriented_after edits)
  refine ⟨fun s hs => exists_follows hr h hs, fun s t hs ht hst plan hp => ?_⟩
  exact head?_of_sources hr h hs ht hst hp

/-- A cycle over three tables, drawn from its middle. -/
def ring : List GraphEdit :=
  [.add ⟨1, 2, 3⟩ ⟨2, 1, 1⟩ .left, .add ⟨0, 0, 0⟩ ⟨1, 2, 4⟩ .inner, .add ⟨2, 1, 1⟩ ⟨0, 0, 0⟩ .inner]

theorem source_ring_iff : Source (Graph.empty.after ring).relationships i ↔ i = 0 := by
  have hrs : (Graph.empty.after ring).relationships = [⟨0, ⟨1, 2, 3⟩, ⟨2, 1, 1⟩, .left⟩,
    ⟨1, ⟨0, 0, 0⟩, ⟨1, 2, 4⟩, .inner⟩, ⟨2, ⟨0, 0, 0⟩, ⟨2, 1, 1⟩, .inner⟩] := rfl
  simp only [hrs, Source, Mentions]
  constructor
  · intro hi
    simp at hi
    grind
  · intro hi
    subst hi
    simp

theorem plan?_of_sources_ring : Catalog.shop.Built ∧
    (Graph.empty.after ring).relationships ≠ [] ∧
    (∀ r ∈ (Graph.empty.after ring).relationships, ¬ r.Foreign Catalog.shop) ∧
    ∃ plan, (Graph.empty.after ring).plan? Catalog.shop = some (.ok plan) ∧
      plan.Follows Catalog.shop (Graph.empty.after ring).relationships 0 := by
  have hne : (Graph.empty.after ring).relationships ≠ [] := by decide
  have hr : ∀ r ∈ (Graph.empty.after ring).relationships, ¬ r.Foreign Catalog.shop :=
    find?_foreign_eq_none.mp rfl
  exact ⟨Catalog.built_shop, hne, hr,
    (plan?_of_sources ring Catalog.built_shop hne hr).1 0 fun i => source_ring_iff⟩

end VisualQuery
