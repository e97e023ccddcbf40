import Mathlib.Data.List.Find
import Mathlib.Order.Monotone.Basic
import VisualQuery.Proofs.Join.Attribution
import VisualQuery.Proofs.Join.Editing

/-! # Plans under other numbers

Instances, tables, columns and relationships go by numbers, and planning only ever asks whether
two of them are equal, or looks them up. So it gives the same plan under other numbers, as long as
different instances keep different numbers and the catalog holds the same under the numbers of
endpoints (`Endpoint.Carried`). Each function on the way commutes with a renumbering; the walks
themselves are the same, for they go over positions (`edges?_renumber`). -/

namespace VisualQuery
open JoinPlan

/-- Other numbers for instances, tables, columns and relationships. -/
structure Renumbering where
  place : InstanceId → InstanceId
  table : TableId → TableId
  column : ColumnId → ColumnId
  relationship : RelationshipId → RelationshipId

variable (n : Renumbering)

def Endpoint.renumber (e : Endpoint) : Endpoint :=
  ⟨n.place e.place, n.table e.table, n.column e.column⟩

def Relationship.renumber (r : Relationship) : Relationship :=
  ⟨n.relationship r.id, r.a.renumber n, r.b.renumber n, r.kind⟩

def Graph.renumber (g : Graph) : Graph :=
  ⟨g.relationships.map (·.renumber n), n.relationship g.nextId⟩

def JoinStep.renumber (s : JoinStep) : JoinStep := { s with place := n.place s.place }

def JoinPlan.renumber (p : JoinPlan) : JoinPlan :=
  ⟨p.order.map n.place, p.seed, p.steps.map (·.renumber n)⟩

def Stuck.renumber (s : Stuck) : Stuck := { s with place := n.place s.place }

def PlanError.renumber : PlanError → PlanError
  | .noRelationships => .noRelationships
  | .foreignEndpoint id => .foreignEndpoint (n.relationship id)
  | .disconnected stuck => .disconnected (stuck.renumber n)

/-- A catalog holds the same for an endpoint under its other numbers. -/
structure Endpoint.Carried (catalog catalog' : Catalog) (e : Endpoint) : Prop where
  resolves : (e.renumber n).resolves catalog' = e.resolves catalog
  table : catalog'.tables[n.table e.table]?.map (·.name) = catalog.tables[e.table]?.map (·.name)
  column :
    catalog'.columns[n.column e.column]?.map (·.name) = catalog.columns[e.column]?.map (·.name)

variable {n} {catalog catalog' : Catalog} {rs : List Relationship} {nodes : List Endpoint}
  {i : InstanceId}

/-- The FROM text names no number. -/
theorem source_renumber (p : JoinPlan) : (p.renumber n).source = p.source := by
  have htext : JoinStep.text ∘ JoinStep.renumber n = JoinStep.text := rfl
  simp [JoinPlan.source, JoinPlan.renumber, htext]

/-! ## Look-ups in the catalog -/

theorem Endpoint.Carried.refl (ht : n.table = id) (hk : n.column = id) (e : Endpoint) :
    e.Carried n catalog catalog := by
  refine ⟨?_, ?_, ?_⟩ <;> simp [Endpoint.resolves, Endpoint.renumber, ht, hk]

theorem tableName?_renumber (hp : Function.Injective n.place)
    (h : ∀ e ∈ nodes, e.Carried n catalog catalog') :
    tableName? catalog' (nodes.map (·.renumber n)) (n.place i) = tableName? catalog nodes i := by
  have hfind : (nodes.map (·.renumber n)).find? (·.place = n.place i) =
      (nodes.find? (·.place = i)).map (·.renumber n) := by
    simp [List.find?_map, Endpoint.renumber, hp.eq_iff]
  unfold tableName?
  rw [hfind]
  cases he : nodes.find? (·.place = i) with
  | none => rfl
  | some e =>
    have htable := (h e (List.mem_of_find?_eq_some he)).table
    simpa [Option.map_eq_bind, Function.comp_def, Endpoint.renumber] using htable

theorem condition?_renumber {r : Relationship} (ha : r.a.Carried n catalog catalog')
    (hb : r.b.Carried n catalog catalog') :
    condition? catalog' (r.renumber n) = condition? catalog r := by
  have hnames : ∀ (x y : Option Column), (do
      let a ← x
      let b ← y
      pure (a.name ++ " = " ++ b.name)) = (x.map (·.name)).bind fun a =>
        (y.map (·.name)).map fun b => a ++ " = " ++ b := by
    intro x y
    cases x <;> cases y <;> rfl
  unfold condition?
  rw [hnames, hnames, ← ha.column, ← hb.column]
  rfl

theorem resolves_renumber {r : Relationship} (ha : r.a.Carried n catalog catalog')
    (hb : r.b.Carried n catalog catalog') :
    (r.renumber n).resolves catalog' = r.resolves catalog := by
  simp [Relationship.resolves, Relationship.renumber, ha.resolves, hb.resolves]

/-! ## Mentions -/

theorem mentions_renumber (rs : List Relationship) :
    mentions (rs.map (·.renumber n)) = (mentions rs).map (·.renumber n) := by
  simp [mentions, List.flatMap_map, List.map_flatMap, Relationship.renumber]

theorem addMention_renumber (hp : Function.Injective n.place) (seen : List Endpoint)
    (e : Endpoint) : addMention (seen.map (·.renumber n)) (e.renumber n) =
      (addMention seen e).map (·.renumber n) := by
  simp [addMention, Endpoint.renumber, hp.eq_iff, apply_ite]

theorem firstMentions_renumber (hp : Function.Injective n.place) (rs : List Relationship) :
    firstMentions (rs.map (·.renumber n)) = (firstMentions rs).map (·.renumber n) := by
  have hfold : ∀ (es seen : List Endpoint),
      (es.map (·.renumber n)).foldl addMention (seen.map (·.renumber n)) =
        (es.foldl addMention seen).map (·.renumber n) := by
    intro es
    induction es with
    | nil => exact fun _ => rfl
    | cons e rest ih =>
      intro seen
      rw [List.map_cons, List.foldl_cons, List.foldl_cons, addMention_renumber hp, ih]
  unfold firstMentions
  rw [mentions_renumber]
  exact hfold (mentions rs) []

/-! ## Join orders -/

section Positions
variable {α β : Type} [DecidableEq α] [DecidableEq β] {f : α → β}

theorem idxOf?_map (hf : Function.Injective f) (l : List α) (x : α) :
    (l.map f).idxOf? (f x) = l.idxOf? x := by
  simp [List.idxOf?, List.findIdx?_map, Function.comp_def, beq_eq_decide, hf.eq_iff]

theorem contains_map (hf : Function.Injective f) (l : List α) (x : α) :
    (l.map f).contains (f x) = l.contains x := by
  simp [hf.eq_iff]

end Positions

theorem edges?_renumber (hp : Function.Injective n.place) (nodes : List InstanceId)
    (rs : List Relationship) :
    edges? (nodes.map n.place) (rs.map (·.renumber n)) = edges? nodes rs := by
  unfold edges?
  rw [List.mapM_map]
  simp only [Function.comp_def, Relationship.renumber, Endpoint.renumber, idxOf?_map hp]

theorem joinOrder?_renumber (hp : Function.Injective n.place) (d : Direction)
    (nodes : List InstanceId) (rs : List Relationship) :
    joinOrder? d (nodes.map n.place) (rs.map (·.renumber n)) =
      (joinOrder? d nodes rs).map (List.map n.place) := by
  unfold joinOrder?
  rw [edges?_renumber hp, List.length_map]
  cases edges? nodes rs with
  | none => rfl
  | some edges =>
    cases hw : Walk.all (d.neighbours nodes.length edges) with
    | none => simp [hw]
    | some walked =>
      simp [hw, mapM_option_map]

/-! ## Sorting -/

theorem insertByKey_map {α β : Type} (f : α → β) (x : Nat × α) (l : List (Nat × α)) :
    insertByKey (x.1, f x.2) (l.map fun y => (y.1, f y.2)) =
      (insertByKey x l).map fun y => (y.1, f y.2) := by
  induction l with
  | nil => rfl
  | cons y rest ih =>
    simp only [List.map_cons, insertByKey]
    split <;> simp [ih]

theorem sortByKey_map {α β : Type} (f : α → β) (l : List (Nat × α)) :
    sortByKey (l.map fun x => (x.1, f x.2)) = (sortByKey l).map fun x => (x.1, f x.2) := by
  induction l with
  | nil => rfl
  | cons x rest ih =>
    show insertByKey (x.1, f x.2) (sortByKey (rest.map _)) = _
    rw [ih, insertByKey_map]
    rfl

theorem byLaterInstance?_renumber (hp : Function.Injective n.place) (order : List InstanceId)
    (rs : List Relationship) :
    byLaterInstance? (order.map n.place) (rs.map (·.renumber n)) =
      (byLaterInstance? order rs).map (List.map (·.renumber n)) := by
  have hkey : ∀ r : Relationship, (do
      let a ← (order.map n.place).idxOf? (r.renumber n).a.place
      let b ← (order.map n.place).idxOf? (r.renumber n).b.place
      pure (max a b, r.renumber n)) = (do
      let a ← order.idxOf? r.a.place
      let b ← order.idxOf? r.b.place
      pure (max a b, r)).map fun x : Nat × Relationship => (x.1, x.2.renumber n) := by
    intro r
    simp only [Relationship.renumber, Endpoint.renumber, idxOf?_map hp]
    cases order.idxOf? r.a.place <;> cases order.idxOf? r.b.place <;> rfl
  unfold byLaterInstance?
  rw [List.mapM_map]
  simp only [Function.comp_def, hkey, mapM_option_map]
  cases rs.mapM (m := Option) _ with
  | none => rfl
  | some keyed => simp [sortByKey_map, Function.comp_def]

/-! ## Steps and plans -/

theorem isReady_renumber (hp : Function.Injective n.place) (joined : List InstanceId)
    (r : Relationship) : isReady (joined.map n.place) (r.renumber n) = isReady joined r := by
  simp only [isReady, Relationship.renumber, Endpoint.renumber, contains_map hp]

theorem partition_renumber (hp : Function.Injective n.place) (joined : List InstanceId)
    (pending : List Relationship) :
    (pending.map (·.renumber n)).partition (isReady (joined.map n.place)) =
      ((pending.partition (isReady joined)).1.map (·.renumber n),
        (pending.partition (isReady joined)).2.map (·.renumber n)) := by
  simp [List.partition_eq_filter_filter, List.filter_map, Function.comp_def, isReady_renumber hp]

def Relationship.Carried (n : Renumbering) (catalog catalog' : Catalog) (r : Relationship) : Prop :=
  r.a.Carried n catalog catalog' ∧ r.b.Carried n catalog catalog'

theorem steps?_renumber (hp : Function.Injective n.place)
    (h : ∀ e ∈ nodes, e.Carried n catalog catalog') (later : List InstanceId) :
    ∀ (joined : List InstanceId) (pending : List Relationship),
      (∀ r ∈ pending, r.Carried n catalog catalog') →
      steps? catalog' (nodes.map (·.renumber n)) (joined.map n.place) (later.map n.place)
          (pending.map (·.renumber n)) =
        (steps? catalog nodes joined later pending).map
          (mapBoth (·.renumber n) (List.map (·.renumber n))) := by
  induction later with
  | nil => exact fun _ _ _ => rfl
  | cons i later ih =>
    intro joined pending hpending
    simp only [List.map_cons, steps?]
    rw [tableName?_renumber hp h, ← List.map_cons, partition_renumber hp]
    cases htable : tableName? catalog nodes i with
    | none => rfl
    | some table =>
      rcases hsplit : pending.partition (isReady (i :: joined)) with ⟨ready, rest⟩
      have hsides : ∀ r, r ∈ ready ∨ r ∈ rest → r.Carried n catalog catalog' := by
        intro r hr
        refine hpending r ((List.mem_partition (p := isReady (i :: joined))).mpr ?_)
        rwa [hsplit]
      cases ready with
      | nil => rfl
      | cons first others =>
        have hconditions : ((first :: others).map (·.renumber n)).mapM (condition? catalog') =
            (first :: others).mapM (condition? catalog) := by
          rw [List.mapM_map]
          refine mapM_congr fun r hr => ?_
          obtain ⟨ha, hb⟩ := hsides r (.inl hr)
          exact condition?_renumber ha hb
        simp only [List.map_cons] at hconditions ⊢
        rw [hconditions, ← List.map_cons, ih _ _ fun r hr => hsides r (.inr hr)]
        cases (first :: others).mapM (condition? catalog) with
        | none => rfl
        | some conditions =>
          cases steps? catalog nodes (i :: joined) later rest with
          | none => rfl
          | some result => cases result <;> rfl

theorem mem_of_byLaterInstance? {order : List InstanceId} {sorted : List Relationship}
    (h : byLaterInstance? order rs = some sorted) {r : Relationship} (hr : r ∈ sorted) :
    r ∈ rs := by
  obtain ⟨keyed, hkeyed, h⟩ := Option.bind_eq_some_iff.mp h
  cases h
  obtain ⟨x, hx, rfl⟩ := List.mem_map.mp hr
  obtain ⟨q, hq, hkey⟩ := exists_of_mem_mapM hkeyed (mem_sortByKey.mp hx)
  obtain ⟨_, _, hkey⟩ := Option.bind_eq_some_iff.mp hkey
  obtain ⟨_, _, hkey⟩ := Option.bind_eq_some_iff.mp hkey
  cases hkey
  exact hq

theorem alongOrder?_renumber (hp : Function.Injective n.place)
    (h : ∀ e ∈ nodes, e.Carried n catalog catalog') (hrs : ∀ r ∈ rs, r.Carried n catalog catalog')
    (order : List InstanceId) :
    alongOrder? catalog' (nodes.map (·.renumber n)) (rs.map (·.renumber n)) (order.map n.place) =
      (alongOrder? catalog nodes rs order).map (mapBoth (·.renumber n) (·.renumber n)) := by
  unfold alongOrder?
  rw [byLaterInstance?_renumber hp]
  cases hsorted : byLaterInstance? order rs with
  | none => rfl
  | some pending =>
    cases order with
    | nil => rfl
    | cons first later =>
      have hsteps := steps?_renumber hp h later [first] pending
        fun r hr => hrs r (mem_of_byLaterInstance? hsorted hr)
      simp only [Option.map_some, Option.bind_eq_bind, Option.bind_some, List.map_cons,
        List.map_nil] at hsteps ⊢
      rw [tableName?_renumber hp h, hsteps]
      cases tableName? catalog nodes first with
      | none => rfl
      | some seed =>
        cases steps? catalog nodes [first] later pending with
        | none => rfl
        | some result => cases result <;> rfl

theorem carried_of_mentions (h : ∀ e ∈ mentions rs, e.Carried n catalog catalog') :
    ∀ r ∈ rs, r.Carried n catalog catalog' :=
  fun r hr =>
    ⟨h r.a (mem_mentions.mpr ⟨r, hr, .inl rfl⟩), h r.b (mem_mentions.mpr ⟨r, hr, .inr rfl⟩)⟩

theorem inDirection?_renumber (hp : Function.Injective n.place)
    (h : ∀ e ∈ mentions rs, e.Carried n catalog catalog') (d : Direction) :
    inDirection? catalog' (rs.map (·.renumber n)) d =
      (inDirection? catalog rs d).map (mapBoth (·.renumber n) (·.renumber n)) := by
  have hnodes : ((firstMentions rs).map (·.renumber n)).map (·.place) =
      ((firstMentions rs).map (·.place)).map n.place := by
    simp [Endpoint.renumber]
  unfold inDirection?
  simp only [firstMentions_renumber hp, hnodes, joinOrder?_renumber hp]
  cases joinOrder? d ((firstMentions rs).map (·.place)) rs with
  | none => rfl
  | some order =>
    exact alongOrder?_renumber hp (fun e he => h e (mem_mentions_of_mem_firstMentions he))
      (carried_of_mentions h) order

/-- **Planning sees no numbers**: under other ones it gives the same plan with other numbers. -/
theorem plan?_renumber (g : Graph) (hp : Function.Injective n.place)
    (h : ∀ e ∈ mentions g.relationships, e.Carried n catalog catalog') :
    (g.renumber n).plan? catalog' =
      (g.plan? catalog).map (mapBoth (·.renumber n) (·.renumber n)) := by
  have hfind : (g.relationships.map (·.renumber n)).find? (fun r => !r.resolves catalog') =
      (g.relationships.find? fun r => !r.resolves catalog).map (·.renumber n) := by
    have hresolves : ∀ r ∈ g.relationships,
        (r.renumber n).resolves catalog' = r.resolves catalog :=
      fun r hr => resolves_renumber (carried_of_mentions h r hr).1 (carried_of_mentions h r hr).2
    rw [List.find?_map, List.find?_congr fun r hr => by rw [Function.comp_apply, hresolves r hr]]
  unfold Graph.plan?
  simp only [Graph.renumber, List.isEmpty_map, hfind, inDirection?_renumber hp h]
  split
  · rfl
  · cases g.relationships.find? fun r => !r.resolves catalog with
    | some r => rfl
    | none =>
      cases inDirection? catalog g.relationships .forward with
      | none => rfl
      | some forward =>
        cases forward with
        | ok plan => rfl
        | error _ =>
          cases inDirection? catalog g.relationships .bothWays with
          | none => rfl
          | some bothWays => cases bothWays <;> rfl

/-! ## Edits -/

/-- Other numbers for instances alone. -/
def Renumbering.ofPlaces (f : InstanceId → InstanceId) : Renumbering := ⟨f, id, id, id⟩

def GraphError.renumber (n : Renumbering) : GraphError → GraphError
  | .sameInstance i => .sameInstance (n.place i)
  | .unknownRelationship id => .unknownRelationship (n.relationship id)

def GraphEdit.renumber (n : Renumbering) : GraphEdit → GraphEdit
  | .add a b kind => .add (a.renumber n) (b.renumber n) kind
  | .removeTouching e => .removeTouching (e.renumber n)
  | .remove id => .remove (n.relationship id)
  | .cycleKind id => .cycleKind (n.relationship id)
  | .setKind id kind => .setKind (n.relationship id) kind

namespace Graph
variable {g : Graph}

/-- Where increasing numbers stay increasing, the earlier instance stays on side `a`. -/
theorem add_renumber (hp : StrictMono n.place) (hr : n.relationship = id) (a b : Endpoint)
    (kind : JoinKind) : (g.renumber n).add (a.renumber n) (b.renumber n) kind =
      (g.add a b kind).map (mapBoth (·.renumber n) id) (·.renumber n) := by
  have hsame : (a.renumber n).place = (b.renumber n).place ↔ a.place = b.place :=
    hp.injective.eq_iff
  have hlt : (b.renumber n).place < (a.renumber n).place ↔ b.place < a.place := hp.lt_iff_lt
  unfold add
  by_cases hab : a.place = b.place
  · rw [if_pos (hsame.mpr hab), if_pos hab]
    rfl
  · rw [if_neg (mt hsame.mp hab), if_neg hab]
    by_cases hba : b.place < a.place
    · simp [hlt.mpr hba, hba, renumber, mapBoth, Relationship.renumber, hr]
    · simp [mt hlt.mp hba, hba, renumber, mapBoth, Relationship.renumber, hr]

theorem alter_renumber (hr : Function.Injective n.relationship)
    (change : Relationship → Relationship)
    (h : ∀ r : Relationship, change (r.renumber n) = (change r).renumber n) (id : RelationshipId)
    (rs : List Relationship) : alter change (n.relationship id) (rs.map (·.renumber n)) =
      (alter change id rs).map (·.renumber n) := by
  induction rs with
  | nil => rfl
  | cons r rest ih =>
    have hid : (r.renumber n).id = n.relationship id ↔ r.id = id := hr.eq_iff
    simp only [List.map_cons, alter, hid]
    split <;> simp [h, ih]

theorem touches_renumber (h : Function.Injective (Endpoint.renumber n)) (r : Relationship)
    (e : Endpoint) : (r.renumber n).touches (e.renumber n) = r.touches e := by
  simp [Relationship.touches, Relationship.renumber, h.eq_iff]

theorem next_renumber (hp : StrictMono n.place) (he : Function.Injective (Endpoint.renumber n))
    (hr : n.relationship = id) (g : Graph) (e : GraphEdit) :
    (g.renumber n).next (e.renumber n) = (g.next e).renumber n := by
  have hinj : Function.Injective n.relationship := hr ▸ Function.injective_id
  cases e with
  | add a b kind =>
    simp only [GraphEdit.renumber, next, edit, add_renumber hp hr, Prod.map_snd]
  | removeTouching x =>
    simp [GraphEdit.renumber, next_removeTouching, removeTouching, renumber, List.filter_map,
      Function.comp_def, touches_renumber he]
  | remove id =>
    simp [GraphEdit.renumber, next_remove, renumber, List.eraseP_map, Function.comp_def,
      Relationship.renumber, hinj.eq_iff]
  | cycleKind id =>
    simp only [GraphEdit.renumber, next_cycleKind, renumber]
    rw [alter_renumber hinj (fun r => { r with kind := r.kind.cycle }) fun _ => rfl]
  | setKind id kind =>
    simp only [GraphEdit.renumber, next_setKind, renumber]
    rw [alter_renumber hinj (fun r => { r with kind := kind }) fun _ => rfl]

/-- A run over other numbers leads to the graph with other numbers. -/
theorem after_renumber (hp : StrictMono n.place) (he : Function.Injective (Endpoint.renumber n))
    (hr : n.relationship = id) (edits : List GraphEdit) : ∀ g : Graph,
    (g.renumber n).after (edits.map (·.renumber n)) = (g.after edits).renumber n := by
  induction edits with
  | nil => exact fun _ => rfl
  | cons e rest ih =>
    intro g
    show ((g.renumber n).next (e.renumber n)).after _ = ((g.next e).after rest).renumber n
    rw [next_renumber hp he hr, ih]

end Graph

end VisualQuery
