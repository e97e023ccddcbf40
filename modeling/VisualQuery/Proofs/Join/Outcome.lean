import VisualQuery.Proofs.Catalog.Ownership
import VisualQuery.Proofs.Join.Attribution
import VisualQuery.Proofs.Join.Editing
import VisualQuery.Proofs.Join.Order
import VisualQuery.Proofs.Walk.Coverage

/-! # What planning answers

Where all endpoints are in the catalog, a plan is made along one of two join orders
(`plan?_of_resolved`). A plan along any order shows that the mentioned instances are connected,
and along the order of the walk both ways it is never missed when they are. With the two checks
in front this decides every answer (`plan?_decided`). -/

namespace VisualQuery
open Relation JoinPlan

/-- The catalog does not have the column of an endpoint, or has it in another table. -/
def Endpoint.Foreign (catalog : Catalog) (e : Endpoint) : Prop :=
  ∀ column : Column, catalog.columns[e.column]? = some column → column.table ≠ e.table

def Relationship.Foreign (catalog : Catalog) (r : Relationship) : Prop :=
  r.a.Foreign catalog ∨ r.b.Foreign catalog

/-- The instances that relationships mention, in order of first mention. -/
def instancesOf (rs : List Relationship) : List InstanceId := (firstMentions rs).map (·.place)

variable {catalog : Catalog} {rs : List Relationship} {order : List InstanceId} {d : Direction}
  {g : Graph}

/-! ## Endpoints in a catalog -/

theorem Endpoint.resolves_iff {e : Endpoint} : e.resolves catalog = true ↔ ¬ e.Foreign catalog := by
  unfold Endpoint.resolves Endpoint.Foreign
  cases h : catalog.columns[e.column]? <;> simp

theorem Relationship.resolves_iff {r : Relationship} :
    r.resolves catalog = true ↔ ¬ r.Foreign catalog := by
  unfold Relationship.resolves Relationship.Foreign
  rw [Bool.and_eq_true, Endpoint.resolves_iff, Endpoint.resolves_iff, not_or]

theorem find?_foreign_eq_none : rs.find? (fun r => !r.resolves catalog) = none ↔
    ∀ r ∈ rs, ¬ r.Foreign catalog := by
  rw [List.find?_eq_none]
  simp only [← Relationship.resolves_iff, Bool.not_eq_true', Bool.not_eq_false]

theorem foreign_of_find? {r : Relationship}
    (h : rs.find? (fun r => !r.resolves catalog) = some r) : r ∈ rs ∧ r.Foreign catalog := by
  refine ⟨List.mem_of_find?_eq_some h, not_not.mp fun hf => ?_⟩
  have hfound := List.find?_some h
  simp [Relationship.resolves_iff.mpr hf] at hfound

theorem resolved_of_not_foreign (hc : catalog.Owned) (hr : ∀ r ∈ rs, ¬ r.Foreign catalog) :
    Resolved catalog rs := by
  have hcolumn : ∀ e ∈ mentions rs, ∃ column : Column,
      catalog.columns[e.column]? = some column ∧ column.table = e.table := by
    intro e he
    have hf : ¬ e.Foreign catalog := by
      obtain ⟨r, hrs, rfl | rfl⟩ := mem_mentions.mp he
      · exact fun h => hr r hrs (.inl h)
      · exact fun h => hr r hrs (.inr h)
    simpa [Endpoint.Foreign] using hf
  refine ⟨fun e he => ?_, fun e he => ?_⟩
  · obtain ⟨column, h, _⟩ := hcolumn e he
    exact ⟨column, h⟩
  · obtain ⟨column, h, ho⟩ := hcolumn e he
    obtain ⟨table, ht, _⟩ := hc.placed _ column h
    exact ⟨table, ho ▸ ht⟩

theorem JoinPlan.Resolved.tableName? (h : Resolved catalog rs) {i : InstanceId}
    (hi : i ∈ instancesOf rs) :
    tableName? catalog (firstMentions rs) i = some (tableOf catalog rs i) := by
  obtain ⟨e, he, rfl⟩ := List.mem_map.mp hi
  obtain ⟨first, hf⟩ : ∃ first, (firstMentions rs).find? (·.place = e.place) = some first :=
    Option.isSome_iff_exists.mp (List.find?_isSome.mpr ⟨e, he, by simp⟩)
  obtain ⟨table, ht⟩ :=
    h.table first (mem_mentions_of_mem_firstMentions (List.mem_of_find?_eq_some hf))
  simp [tableOf, JoinPlan.tableName?, hf, ht]

theorem JoinPlan.Resolved.condition? (h : Resolved catalog rs) {r : Relationship} (hr : r ∈ rs) :
    condition? catalog r = some (conditionOf catalog r) := by
  obtain ⟨a, ha⟩ := h.column r.a (mem_mentions.mpr ⟨r, hr, .inl rfl⟩)
  obtain ⟨b, hb⟩ := h.column r.b (mem_mentions.mpr ⟨r, hr, .inr rfl⟩)
  simp [conditionOf, JoinPlan.condition?, ha, hb]

/-! ## Join orders and connection -/

theorem mem_instancesOf {i : InstanceId} : i ∈ instancesOf rs ↔ Mentions rs i :=
  mem_firstMentions_iff

theorem instancesOf_ne_nil (h : rs ≠ []) : instancesOf rs ≠ [] := by
  obtain ⟨r, rest, rfl⟩ := List.exists_cons_of_ne_nil h
  exact List.ne_nil_of_mem (mem_instancesOf.mpr ⟨r, by simp, .inl rfl⟩)

namespace OrderedBy

theorem mem_iff (h : OrderedBy d rs (instancesOf rs) order) {i : InstanceId} :
    i ∈ order ↔ Mentions rs i := by
  rw [h.perm.mem_iff, mem_instancesOf]

theorem nodup (h : OrderedBy d rs (instancesOf rs) order) : order.Nodup :=
  h.perm.nodup_iff.mpr (nodup_firstMentions rs)

theorem spans (h : OrderedBy d rs (instancesOf rs) order)
    (ho : ∀ r ∈ rs, r.a.place < r.b.place) : Spans order rs where
  nodup := h.nodup
  a_mem r hr := h.mem_iff.mpr ⟨r, hr, .inl rfl⟩
  b_mem r hr := h.mem_iff.mpr ⟨r, hr, .inr rfl⟩
  distinct r hr := Nat.ne_of_lt (ho r hr)

theorem ne_nil (h : OrderedBy d rs (instancesOf rs) order) (hrs : rs ≠ []) : order ≠ [] :=
  fun he => instancesOf_ne_nil hrs (List.nil_perm.mp (he ▸ h.perm))

end OrderedBy

theorem laterInstance_of_before (hn : order.Nodup) {i j : InstanceId} (h : Related rs i j)
    (hb : Before order i j) : ∃ r ∈ rs, laterInstance order r = j := by
  have hlt := (before_iff_idxOf_lt hn hb.right_mem).mp hb
  obtain ⟨r, hr, ⟨rfl, rfl⟩ | ⟨rfl, rfl⟩⟩ := h
  · exact ⟨r, hr, if_pos hlt⟩
  · exact ⟨r, hr, if_neg (by omega)⟩

theorem related_before (hspan : Spans order rs) {r : Relationship} (hr : r ∈ rs) :
    ∃ i ∈ order, Related rs i (laterInstance order r) ∧
      order.idxOf i < order.idxOf (laterInstance order r) := by
  have hne : order.idxOf r.a.place ≠ order.idxOf r.b.place :=
    fun he => hspan.distinct r hr ((List.idxOf_inj (hspan.a_mem r hr)).mp he)
  unfold laterInstance
  split
  · next hlt => exact ⟨_, hspan.a_mem r hr, related_of_mem hr, hlt⟩
  · exact ⟨_, hspan.b_mem r hr, (related_of_mem hr).symm, by omega⟩

/-- If every instance behind the first has relationships of its own, following them to earlier
and earlier instances ends at the first. -/
theorem connected_of_linked (hspan : Spans order rs) (hm : ∀ i, Mentions rs i → i ∈ order)
    (hl : ∀ i ∈ order.tail, ∃ r ∈ rs, laterInstance order r = i) : Connected rs := by
  cases order with
  | nil => exact fun i _ hi _ => absurd (hm i hi) (by simp)
  | cons first later =>
    -- by position: the other side of a relationship that belongs to `i` stands earlier
    have hreach : ∀ n, ∀ i ∈ first :: later, (first :: later).idxOf i = n →
        ReflTransGen (Related rs) first i := by
      intro n
      induction n using Nat.strongRecOn with
      | _ n ih =>
        rintro i hi rfl
        rcases List.mem_cons.mp hi with rfl | hi
        · exact .refl
        · obtain ⟨r, hr, rfl⟩ := hl i hi
          obtain ⟨j, hj, hrel, hlt⟩ := related_before hspan hr
          exact (ih _ hlt j hj rfl).tail hrel
    intro i j hi hj
    exact (relatedTrans_symm (hreach _ i (hm i hi) rfl)).trans (hreach _ j (hm j hj) rfl)

/-- In the order of the walk both ways nothing is stuck if all instances are connected, and the
first instance mentioned stands first. -/
theorem linked_of_connected (h : OrderedBy .bothWays rs (instancesOf rs) order) (hrs : rs ≠ [])
    (hc : Connected rs) :
    order.head? = (instancesOf rs).head? ∧
      ∀ i ∈ order.tail, ∃ r ∈ rs, laterInstance order r = i := by
  obtain ⟨first, later, hnodes⟩ := List.exists_cons_of_ne_nil (instancesOf_ne_nil hrs)
  have hmem : ∀ i ∈ instancesOf rs, Mentions rs i := fun i hi => mem_instancesOf.mp hi
  obtain ⟨hhead, hparent⟩ := h.rooted first (by rw [hnodes]; rfl)
    (fun j hj => hc first j (hmem first (by simp [hnodes])) (hmem j hj))
  refine ⟨by rw [hhead, hnodes]; rfl, fun i hi => ?_⟩
  obtain ⟨rest, rfl⟩ := List.head?_eq_some_iff.mp hhead
  rcases hparent i (List.mem_cons_of_mem _ hi) with rfl | ⟨k, hk, hb⟩
  · exact absurd hi (List.nodup_cons.mp h.nodup).1
  · exact laterInstance_of_before h.nodup hk hb

/-! ## Plans -/

abbrev planAlong (catalog : Catalog) (rs : List Relationship) (order : List InstanceId) :
    Except Stuck JoinPlan :=
  along (tableOf catalog rs) (conditionOf catalog) order rs

/-- A non-empty graph whose endpoints are all in the catalog, with ordered sides. -/
structure Plannable (catalog : Catalog) (rs : List Relationship) : Prop where
  ne_nil : rs ≠ []
  resolved : Resolved catalog rs
  oriented : ∀ r ∈ rs, r.a.place < r.b.place

/-- The walk behind a join order. -/
theorem exists_walk (rs : List Relationship) (d : Direction) : ∃ edges s,
    edges? (instancesOf rs) rs = some edges ∧
    (∀ u v, (u, v) ∈ edges ↔ ∃ r ∈ rs,
      (instancesOf rs)[u]? = some r.a.place ∧ (instancesOf rs)[v]? = some r.b.place) ∧
    Walk.all (d.neighbours (instancesOf rs).length edges) = some s ∧
    s.marks = List.replicate (instancesOf rs).length .done ∧
    s.left.Perm (List.range (instancesOf rs).length) := by
  obtain ⟨edges, hedges, hmem⟩ := edges?_spec (nodup_firstMentions rs) fun _ => mem_instancesOf
  obtain ⟨s, hall, hdone, hperm⟩ := Walk.all_covers (closed_neighbours (d := d) hmem)
  rw [length_neighbours] at hdone hperm
  exact ⟨edges, s, hedges, hmem, hall, hdone, hperm⟩

theorem exists_joinOrder? (rs : List Relationship) (d : Direction) :
    ∃ order, joinOrder? d (instancesOf rs) rs = some order ∧
      OrderedBy d rs (instancesOf rs) order :=
  joinOrder?_orderedBy d (nodup_firstMentions rs) fun _ => mem_instancesOf

theorem orderedBy_of_joinOrder? (ho : joinOrder? d (instancesOf rs) rs = some order) :
    OrderedBy d rs (instancesOf rs) order := by
  obtain ⟨order', ho', hordered⟩ := exists_joinOrder? rs d
  rwa [← Option.some.inj (ho.symm.trans ho')] at hordered

theorem Plannable.inDirection? (h : Plannable catalog rs)
    (ho : joinOrder? d (instancesOf rs) rs = some order) :
    inDirection? catalog rs d = some (planAlong catalog rs order) := by
  have hordered := orderedBy_of_joinOrder? ho
  unfold JoinPlan.inDirection?
  rw [instancesOf] at ho
  simp only [ho, Option.bind_eq_bind, Option.bind_some]
  exact alongOrder?_eq (firstMentions rs) (hordered.spans h.oriented) (hordered.ne_nil h.ne_nil)
    (fun i hi => h.resolved.tableName? (hordered.perm.mem_iff.mp hi))
    (fun r hr => h.resolved.condition? hr)

theorem plannable_of_resolved (hc : catalog.Owned) (hne : rs ≠ [])
    (hr : ∀ r ∈ rs, ¬ r.Foreign catalog) (ho : ∀ r ∈ rs, r.a.place < r.b.place) :
    Plannable catalog rs :=
  ⟨hne, resolved_of_not_foreign hc hr, ho⟩

theorem plan?_of_nil (h : g.relationships = []) :
    g.plan? catalog = some (.error .noRelationships) := by
  simp [Graph.plan?, h]

theorem plan?_of_foreign {r : Relationship}
    (h : g.relationships.find? (fun r => !r.resolves catalog) = some r) :
    g.plan? catalog = some (.error (.foreignEndpoint r.id)) := by
  have hne : g.relationships ≠ [] := List.ne_nil_of_mem (List.mem_of_find?_eq_some h)
  simp [Graph.plan?, hne, h]

theorem not_foreign_of_plan? {plan : JoinPlan} (hp : g.plan? catalog = some (.ok plan)) :
    g.relationships ≠ [] ∧ ∀ r ∈ g.relationships, ¬ r.Foreign catalog := by
  refine ⟨fun hnil => ?_, ?_⟩
  · rw [plan?_of_nil hnil] at hp
    cases hp
  · cases hf : g.relationships.find? (fun r => !r.resolves catalog) with
    | none => exact find?_foreign_eq_none.mp hf
    | some r =>
      rw [plan?_of_foreign hf] at hp
      cases hp

/-- The first plan of two attempts; the second attempt says where it is stuck. -/
def eitherPlan (forward bothWays : Except Stuck JoinPlan) : Except PlanError JoinPlan :=
  match forward, bothWays with
  | .ok plan, _ => .ok plan
  | .error _, .ok plan => .ok plan
  | .error _, .error stuck => .error (.disconnected stuck)

theorem eitherPlan_eq_ok_iff {forward bothWays : Except Stuck JoinPlan} {plan : JoinPlan} :
    eitherPlan forward bothWays = .ok plan ↔
      forward = .ok plan ∨ (∃ stuck, forward = .error stuck) ∧ bothWays = .ok plan := by
  cases forward <;> cases bothWays <;> simp [eitherPlan]

theorem disconnected_of_eitherPlan {forward bothWays : Except Stuck JoinPlan} {e : PlanError}
    (h : eitherPlan forward bothWays = .error e) : ∃ stuck, e = .disconnected stuck := by
  cases forward <;> cases bothWays <;> cases h
  exact ⟨_, rfl⟩

/-- **The plan is made along the edges**, or else along the walk both ways. -/
theorem plan?_of_joinOrders (hr : ∀ r ∈ g.relationships, ¬ r.Foreign catalog)
    (h : Plannable catalog g.relationships) {forward bothWays : List InstanceId}
    (hf : joinOrder? .forward (instancesOf g.relationships) g.relationships = some forward)
    (hb : joinOrder? .bothWays (instancesOf g.relationships) g.relationships = some bothWays) :
    g.plan? catalog = some (eitherPlan (planAlong catalog g.relationships forward)
      (planAlong catalog g.relationships bothWays)) := by
  unfold Graph.plan?
  rw [if_neg (by simpa using h.ne_nil), find?_foreign_eq_none.mpr hr, h.inDirection? hf,
    h.inDirection? hb]
  cases planAlong catalog g.relationships forward with
  | ok _ => rfl
  | error _ => cases planAlong catalog g.relationships bothWays <;> rfl

theorem plan?_of_resolved (hr : ∀ r ∈ g.relationships, ¬ r.Foreign catalog)
    (h : Plannable catalog g.relationships) : ∃ forward bothWays,
    OrderedBy .forward g.relationships (instancesOf g.relationships) forward ∧
    OrderedBy .bothWays g.relationships (instancesOf g.relationships) bothWays ∧
    g.plan? catalog = some (eitherPlan (planAlong catalog g.relationships forward)
      (planAlong catalog g.relationships bothWays)) := by
  obtain ⟨forward, hf, hforward⟩ := exists_joinOrder? g.relationships .forward
  obtain ⟨bothWays, hb, hboth⟩ := exists_joinOrder? g.relationships .bothWays
  exact ⟨forward, bothWays, hforward, hboth, plan?_of_joinOrders hr h hf hb⟩

theorem exists_order_of_plan? {plan : JoinPlan}
    (hr : ∀ r ∈ g.relationships, ¬ r.Foreign catalog) (h : Plannable catalog g.relationships)
    (hp : g.plan? catalog = some (.ok plan)) : ∃ d order,
    OrderedBy d g.relationships (instancesOf g.relationships) order ∧
      planAlong catalog g.relationships order = .ok plan := by
  obtain ⟨forward, bothWays, hf, hb, he⟩ := plan?_of_resolved hr h
  rcases eitherPlan_eq_ok_iff.mp (Option.some.inj (he.symm.trans hp)) with hp | ⟨_, hp⟩
  · exact ⟨_, _, hf, hp⟩
  · exact ⟨_, _, hb, hp⟩

theorem plannable_of_plan? {plan : JoinPlan} (hc : catalog.Owned)
    (ho : ∀ r ∈ g.relationships, r.a.place < r.b.place)
    (hp : g.plan? catalog = some (.ok plan)) : Plannable catalog g.relationships ∧ ∃ d order,
    OrderedBy d g.relationships (instancesOf g.relationships) order ∧
      planAlong catalog g.relationships order = .ok plan := by
  obtain ⟨hne, hr⟩ := not_foreign_of_plan? hp
  have h := plannable_of_resolved hc hne hr ho
  exact ⟨h, exists_order_of_plan? hr h hp⟩

theorem disconnected_of_plan? {e : PlanError} (hr : ∀ r ∈ g.relationships, ¬ r.Foreign catalog)
    (h : Plannable catalog g.relationships) (hp : g.plan? catalog = some (.error e)) :
    ∃ stuck, e = .disconnected stuck := by
  obtain ⟨_, _, _, _, he⟩ := plan?_of_resolved hr h
  exact disconnected_of_eitherPlan (Option.some.inj (he.symm.trans hp))

/-- A plan is found just if the instances are connected. Along the order of the walk both ways
it cannot be missed, and along any order it shows the connection. -/
theorem exists_plan?_iff (hr : ∀ r ∈ g.relationships, ¬ r.Foreign catalog)
    (h : Plannable catalog g.relationships) :
    (∃ plan, g.plan? catalog = some (.ok plan)) ↔ Connected g.relationships := by
  constructor
  · intro hx
    obtain ⟨plan, hp⟩ := hx
    obtain ⟨d, order, ho, halong⟩ := exists_order_of_plan? hr h hp
    exact connected_of_linked (ho.spans h.oriented) (fun i => ho.mem_iff.mpr)
      (exists_along_iff.mp ⟨plan, halong⟩)
  · intro hc
    obtain ⟨forward, bothWays, _, hb, he⟩ := plan?_of_resolved hr h
    obtain ⟨plan, hplan⟩ := exists_along_iff.mpr (linked_of_connected hb h.ne_nil hc).2
    cases hf : planAlong catalog g.relationships forward with
    | ok p => exact ⟨p, by rw [he, hf]; rfl⟩
    | error stuck =>
      exact ⟨plan, by rw [he, eitherPlan_eq_ok_iff.mpr (.inr ⟨⟨stuck, hf⟩, hplan⟩)]⟩

/-- Without a plan the answer names the instance at which the walk both ways is stuck. -/
theorem exists_disconnected_iff (hr : ∀ r ∈ g.relationships, ¬ r.Foreign catalog)
    (h : Plannable catalog g.relationships) :
    (∃ stuck, g.plan? catalog = some (.error (.disconnected stuck))) ↔
      ¬ Connected g.relationships := by
  obtain ⟨forward, bothWays, _, _, he⟩ := plan?_of_resolved hr h
  rw [← exists_plan?_iff hr h, he]
  cases planAlong catalog g.relationships forward <;>
    cases planAlong catalog g.relationships bothWays <;> simp [eitherPlan]

/-- **Planning always answers**: no look-up misses, whatever was drawn. -/
theorem exists_answer (edits : List GraphEdit) (hc : catalog.Built) :
    ∃ answer, (Graph.empty.after edits).plan? catalog = some answer := by
  by_cases hne : (Graph.empty.after edits).relationships = []
  · exact ⟨_, plan?_of_nil hne⟩
  · cases hf : (Graph.empty.after edits).relationships.find? (fun r => !r.resolves catalog) with
    | some r => exact ⟨_, plan?_of_foreign hf⟩
    | none =>
      have hr := find?_foreign_eq_none.mp hf
      have h := plannable_of_resolved hc.owned hne hr (Graph.oriented_after edits)
      obtain ⟨_, _, _, _, he⟩ := plan?_of_resolved hr h
      exact ⟨_, he⟩

/-- `id` is the number of the first relationship with a foreign endpoint. -/
def FirstForeign (catalog : Catalog) (rs : List Relationship) (id : RelationshipId) : Prop :=
  ∃ before r after, rs = before ++ r :: after ∧ r.id = id ∧ r.Foreign catalog ∧
    ∀ q ∈ before, ¬ q.Foreign catalog

theorem firstForeign_iff {id : RelationshipId} : FirstForeign catalog rs id ↔
    ∃ r, rs.find? (fun r => !r.resolves catalog) = some r ∧ r.id = id := by
  have hf : ∀ r : Relationship, (!r.resolves catalog) = true ↔ r.Foreign catalog := by
    intro r
    rw [← not_iff_not, ← Relationship.resolves_iff]
    simp
  have hn : ∀ r : Relationship, (!!r.resolves catalog) = true ↔ ¬ r.Foreign catalog := by
    intro r
    rw [← Relationship.resolves_iff, Bool.not_not]
  simp only [List.find?_eq_some_iff_append, FirstForeign, hf, hn]
  constructor
  · intro hx
    obtain ⟨before, r, after, hrs, hid, hr, hb⟩ := hx
    exact ⟨r, ⟨hr, before, after, hrs, hb⟩, hid⟩
  · intro hx
    obtain ⟨r, ⟨hr, before, after, hrs, hb⟩, hid⟩ := hx
    exact ⟨before, r, after, hrs, hid, hr, hb⟩

/-- **What planning answers** to any graph that edits lead to, over any catalog that was read:
nothing is drawn; or the first relationship with a foreign endpoint is named; or else there is a
plan just if the mentioned instances are connected, and an instance to blame just if not. -/
theorem plan?_decided (edits : List GraphEdit) (hc : catalog.Built) :
    let g := Graph.empty.after edits
    (g.plan? catalog = some (.error .noRelationships) ↔ g.relationships = []) ∧
    (∀ id, g.plan? catalog = some (.error (.foreignEndpoint id)) ↔
      FirstForeign catalog g.relationships id) ∧
    ((∃ plan, g.plan? catalog = some (.ok plan)) ↔ g.relationships ≠ [] ∧
      (∀ r ∈ g.relationships, ¬ r.Foreign catalog) ∧ Connected g.relationships) ∧
    ((∃ stuck, g.plan? catalog = some (.error (.disconnected stuck))) ↔ g.relationships ≠ [] ∧
      (∀ r ∈ g.relationships, ¬ r.Foreign catalog) ∧ ¬ Connected g.relationships) := by
  intro g
  by_cases hne : g.relationships = []
  · rw [plan?_of_nil hne]
    simp [hne, firstForeign_iff]
  cases hf : g.relationships.find? (fun r => !r.resolves catalog) with
  | some r =>
    obtain ⟨hr, hforeign⟩ := foreign_of_find? hf
    have hall : ¬ ∀ q ∈ g.relationships, ¬ q.Foreign catalog := fun h => h r hr hforeign
    rw [plan?_of_foreign hf]
    simp [hne, firstForeign_iff, hf, hall]
  | none =>
    have hr := find?_foreign_eq_none.mp hf
    have h := plannable_of_resolved hc.owned hne hr (Graph.oriented_after edits)
    refine ⟨⟨fun hp => ?_, fun he => absurd he hne⟩, fun id => ⟨fun hp => ?_, fun hid => ?_⟩, ?_, ?_⟩
    · obtain ⟨_, he⟩ := disconnected_of_plan? hr h hp
      cases he
    · obtain ⟨_, he⟩ := disconnected_of_plan? hr h hp
      cases he
    · obtain ⟨r, hfr, _⟩ := firstForeign_iff.mp hid
      rw [hf] at hfr
      cases hfr
    · rw [exists_plan?_iff hr h]
      exact ⟨fun hconn => ⟨hne, hr, hconn⟩, fun h => h.2.2⟩
    · rw [exists_disconnected_iff hr h]
      exact ⟨fun hconn => ⟨hne, hr, hconn⟩, fun h => h.2.2⟩

/-- Orders drawn to customers and to items, which nothing relates directly. -/
def hub : List GraphEdit :=
  [.add ⟨2, 2, 4⟩ ⟨0, 0, 0⟩ .inner, .add ⟨1, 1, 1⟩ ⟨2, 2, 3⟩ .left]

theorem plan?_decided_hub : Catalog.shop.Built ∧
    (∃ plan, (Graph.empty.after hub).plan? Catalog.shop = some (.ok plan)) ∧
    Connected (Graph.empty.after hub).relationships := by
  have hp : ∃ plan, (Graph.empty.after hub).plan? Catalog.shop = some (.ok plan) := ⟨_, rfl⟩
  have hconn := (plan?_decided hub Catalog.built_shop).2.2.1.mp hp
  exact ⟨Catalog.built_shop, hp, hconn.2.2⟩

end VisualQuery
