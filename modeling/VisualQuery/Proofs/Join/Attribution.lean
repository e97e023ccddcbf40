import VisualQuery.Join.Plan
import VisualQuery.Proofs.Join.Mentions
import VisualQuery.Proofs.Precedence
import VisualQuery.Proofs.Traversal

/-! # Which step a relationship is joined at

Along an order of instances every relationship belongs to the one of its two instances that
stands later. The plan is made by sorting relationships by that position and splitting off, at
each step, those that are ready; `alongOrder?_eq` says that this is one step for each instance
behind the first, made from the relationships that belong to it, in order of drawing. -/

namespace VisualQuery.JoinPlan

/-- The position at which both instances of a relationship are joined. -/
def laterPosition (order : List InstanceId) (r : Relationship) : Nat :=
  max (order.idxOf r.a.place) (order.idxOf r.b.place)

def laterInstance (order : List InstanceId) (r : Relationship) : InstanceId :=
  if order.idxOf r.a.place < order.idxOf r.b.place then r.b.place else r.a.place

def attributed (order : List InstanceId) (rs : List Relationship) (i : InstanceId) :
    List Relationship :=
  rs.filter fun r => laterInstance order r = i

def tableOf (catalog : Catalog) (rs : List Relationship) (i : InstanceId) : String :=
  (tableName? catalog (firstMentions rs) i).getD ""

def conditionOf (catalog : Catalog) (r : Relationship) : String :=
  (condition? catalog r).getD ""

/-- The step of an instance, or the instance as the place where the plan is stuck. -/
def stepAt (name : InstanceId → String) (condition : Relationship → String)
    (order : List InstanceId) (rs : List Relationship) (i : InstanceId) : Except Stuck JoinStep :=
  match attributed order rs i with
  | [] => .error ⟨name i, i⟩
  | first :: rest => .ok ⟨i, name i, first.kind, (first :: rest).map condition⟩

/-- An order of instances in which both sides of every relationship have places of their own. -/
structure Spans (order : List InstanceId) (rs : List Relationship) : Prop where
  nodup : order.Nodup
  a_mem : ∀ r ∈ rs, r.a.place ∈ order
  b_mem : ∀ r ∈ rs, r.b.place ∈ order
  distinct : ∀ r ∈ rs, r.a.place ≠ r.b.place

/-- Every endpoint has its column and its table in the catalog. -/
structure Resolved (catalog : Catalog) (rs : List Relationship) : Prop where
  column : ∀ e ∈ mentions rs, ∃ column, catalog.columns[e.column]? = some column
  table : ∀ e ∈ mentions rs, ∃ table, catalog.tables[e.table]? = some table

variable {catalog : Catalog} {order : List InstanceId} {rs : List Relationship} {r : Relationship}

/-! ## Sorting by position -/

/-- An element is put behind others of smaller keys only. -/
theorem filter_insertByKey {α : Type} (x : Nat × α) (k : Nat) (l : List (Nat × α)) :
    (insertByKey x l).filter (·.1 = k) = (x :: l).filter (·.1 = k) := by
  induction l with
  | nil => rfl
  | cons y rest ih =>
    unfold insertByKey
    split
    · rfl
    · next hlt =>
      rw [List.filter_cons, ih]
      by_cases hx : x.1 = k
      · have hy : y.1 ≠ k := by omega
        simp [hx, hy]
      · simp [List.filter_cons, hx]

theorem filter_sortByKey {α : Type} (k : Nat) (l : List (Nat × α)) :
    (sortByKey l).filter (·.1 = k) = l.filter (·.1 = k) := by
  induction l with
  | nil => rfl
  | cons x rest ih =>
    show (insertByKey x (sortByKey rest)).filter (·.1 = k) = _
    rw [filter_insertByKey, List.filter_cons, List.filter_cons, ih]

theorem mem_sortByKey {α : Type} {l : List (Nat × α)} {x : Nat × α} :
    x ∈ sortByKey l ↔ x ∈ l := by
  have h := congrArg (x ∈ ·) (filter_sortByKey x.1 l)
  simpa using h

/-! ## Later instances -/

theorem Spans.later_mem (h : Spans order rs) (hr : r ∈ rs) : laterInstance order r ∈ order := by
  unfold laterInstance
  split
  · exact h.b_mem r hr
  · exact h.a_mem r hr

/-- The later instance of a relationship hangs on the instances of its sides alone. -/
theorem laterInstance_congr {q : Relationship} (ha : q.a.place = r.a.place)
    (hb : q.b.place = r.b.place) : laterInstance order q = laterInstance order r := by
  unfold laterInstance
  rw [ha, hb]

theorem idxOf_laterInstance (order : List InstanceId) (r : Relationship) :
    order.idxOf (laterInstance order r) = laterPosition order r := by
  unfold laterInstance laterPosition
  split <;> omega

theorem Spans.later_eq_iff (h : Spans order rs) (hr : r ∈ rs) {i : InstanceId} :
    laterInstance order r = i ↔ laterPosition order r = order.idxOf i := by
  rw [← idxOf_laterInstance]
  exact (List.idxOf_inj (h.later_mem hr)).symm

/-- The two instances have two positions, so the later one is not the first. -/
theorem Spans.later_pos (h : Spans order rs) (hr : r ∈ rs) : 0 < laterPosition order r := by
  have hne : order.idxOf r.a.place ≠ order.idxOf r.b.place :=
    fun he => h.distinct r hr ((List.idxOf_inj (h.a_mem r hr)).mp he)
  unfold laterPosition
  omega

theorem Spans.later_mem_tail (h : Spans order rs) (hr : r ∈ rs) :
    laterInstance order r ∈ order.tail := by
  have hm := h.later_mem hr
  have hpos := h.later_pos hr
  rw [← idxOf_laterInstance] at hpos
  cases order with
  | nil => cases hm
  | cons first later =>
    refine (List.mem_cons.mp hm).resolve_left fun he => ?_
    rw [he, List.idxOf_cons_self] at hpos
    exact Nat.lt_irrefl 0 hpos

theorem mem_attributed {i : InstanceId} :
    r ∈ attributed order rs i ↔ r ∈ rs ∧ laterInstance order r = i := by
  simp [attributed]

theorem attributed_append (order : List InstanceId) (before after : List Relationship)
    (i : InstanceId) : attributed order (before ++ after) i =
      attributed order before i ++ attributed order after i := List.filter_append ..

theorem byLaterInstance?_spec (h : Spans order rs) : ∃ sorted,
    byLaterInstance? order rs = some sorted ∧ (∀ r, r ∈ sorted ↔ r ∈ rs) ∧
    ∀ i ∈ order, attributed order sorted i = attributed order rs i := by
  have hkeyed := mapM_eq_some_map (l := rs)
    (f := fun r => do pure (max (← order.idxOf? r.a.place) (← order.idxOf? r.b.place), r))
    (g := fun r => (laterPosition order r, r))
    (fun r hr => by
      simp [idxOf?_of_mem (h.a_mem r hr), idxOf?_of_mem (h.b_mem r hr), laterPosition])
  let keyed := rs.map fun r => (laterPosition order r, r)
  have hkey : ∀ x ∈ keyed, x.2 ∈ rs ∧ x.1 = laterPosition order x.2 := by
    intro x hx
    obtain ⟨r, hr, rfl⟩ := List.mem_map.mp hx
    exact ⟨hr, rfl⟩
  refine ⟨(sortByKey keyed).map Prod.snd, by unfold byLaterInstance?; rw [hkeyed]; rfl,
    fun r => ?_, fun i hi => ?_⟩
  · constructor
    · intro hr
      obtain ⟨x, hx, rfl⟩ := List.mem_map.mp hr
      exact (hkey x (mem_sortByKey.mp hx)).1
    · intro hr
      exact List.mem_map.mpr ⟨_, mem_sortByKey.mpr (List.mem_map.mpr ⟨r, hr, rfl⟩), rfl⟩
  · -- what belongs to `i` is what has its position as key
    have hclass : ∀ l : List (Nat × Relationship), (∀ x ∈ l, x ∈ keyed) →
        attributed order (l.map Prod.snd) i =
          (l.filter (·.1 = order.idxOf i)).map Prod.snd := by
      intro l hl
      unfold attributed
      rw [List.filter_map]
      refine congrArg _ (List.filter_congr fun x hx => ?_)
      obtain ⟨hr, hk⟩ := hkey x (hl x hx)
      simp only [Function.comp_apply, h.later_eq_iff hr, hk]
    rw [hclass _ fun x hx => mem_sortByKey.mp hx, filter_sortByKey, ← hclass keyed fun _ hx => hx]
    simp [keyed, Function.comp_def]

/-! ## Steps -/

theorem mem_front_iff {front back : List InstanceId} {i x : InstanceId}
    (hn : (front ++ i :: back).Nodup) (hx : x ∈ front ++ i :: back) :
    x ∈ front ++ [i] ↔ (front ++ i :: back).idxOf x ≤ (front ++ i :: back).idxOf i := by
  rcases List.mem_append.mp hx with hf | hb
  · have hlt := (before_iff_idxOf_lt hn (by simp)).mp (before_append hf (List.mem_cons_self (a := i)))
    exact ⟨fun _ => Nat.le_of_lt hlt, fun _ => List.mem_append_left _ hf⟩
  rcases List.mem_cons.mp hb with rfl | hb
  · simp
  · have hlt := (before_iff_idxOf_lt hn hx).mp (before_middle hb)
    refine ⟨fun h => ?_, fun h => by omega⟩
    rw [List.append_cons] at hn
    exact absurd rfl ((List.nodup_append.mp hn).2.2 x h x hb)

/-- With an instance joined to those before it, a relationship that was not ready yet is ready
just if it belongs to the instance. -/
theorem Spans.isReady_eq {front back joined : List InstanceId} {i : InstanceId}
    (h : Spans order rs) (ho : order = front ++ i :: back) (hj : ∀ x, x ∈ joined ↔ x ∈ front)
    (hr : r ∈ rs) (hl : laterInstance order r ∈ i :: back) :
    isReady (i :: joined) r = decide (laterInstance order r = i) := by
  have hmem : ∀ x ∈ order, x ∈ i :: joined ↔ order.idxOf x ≤ order.idxOf i := by
    intro x hx
    have hn := h.nodup
    subst ho
    rw [← mem_front_iff hn hx, List.mem_cons, hj, List.mem_append, List.mem_singleton, or_comm]
  have hge : order.idxOf i ≤ laterPosition order r := by
    rw [← idxOf_laterInstance]
    rcases List.mem_cons.mp hl with he | hb
    · exact Nat.le_of_eq (by rw [he])
    · have hb : Before order i (laterInstance order r) := ho ▸ before_middle (ho ▸ hb)
      exact Nat.le_of_lt ((before_iff_idxOf_lt h.nodup (h.later_mem hr)).mp hb)
  rw [Bool.eq_iff_iff, decide_eq_true_iff, h.later_eq_iff hr]
  simp only [isReady, Bool.and_eq_true, List.contains_iff_mem, hmem _ (h.a_mem r hr),
    hmem _ (h.b_mem r hr)]
  unfold laterPosition at hge ⊢
  omega

theorem Spans.partition_eq {front back joined : List InstanceId} {i : InstanceId}
    {pending : List Relationship} (h : Spans order rs) (ho : order = front ++ i :: back)
    (hj : ∀ x, x ∈ joined ↔ x ∈ front)
    (hp : ∀ r ∈ pending, r ∈ rs ∧ laterInstance order r ∈ i :: back) :
    pending.partition (isReady (i :: joined)) = (attributed order pending i,
      pending.filter fun r => !decide (laterInstance order r = i)) := by
  have hready : ∀ r ∈ pending, isReady (i :: joined) r = decide (laterInstance order r = i) :=
    fun r hr => h.isReady_eq ho hj (hp r hr).1 (hp r hr).2
  rw [List.partition_eq_filter_filter]
  refine Prod.ext (List.filter_congr hready) (List.filter_congr fun r hr => ?_)
  rw [Function.comp_apply, hready r hr]

theorem attributed_filter_ne {i j : InstanceId} (hij : j ≠ i) :
    attributed order (rs.filter fun r => !decide (laterInstance order r = i)) j =
      attributed order rs j := by
  unfold attributed
  rw [List.filter_filter]
  refine List.filter_congr fun r _ => ?_
  by_cases hl : laterInstance order r = j <;> simp [hl, hij]

variable {name : InstanceId → String} {condition : Relationship → String}

theorem stepAt_nil {i : InstanceId} (h : attributed order rs i = []) :
    stepAt name condition order rs i = .error ⟨name i, i⟩ := by
  unfold stepAt
  rw [h]

theorem stepAt_cons {i : InstanceId} {first : Relationship} {rest : List Relationship}
    (h : attributed order rs i = first :: rest) :
    stepAt name condition order rs i =
      .ok ⟨i, name i, first.kind, (first :: rest).map condition⟩ := by
  unfold stepAt
  rw [h]

theorem stepAt_congr {rs' : List Relationship} {i : InstanceId}
    (h : attributed order rs i = attributed order rs' i) :
    stepAt name condition order rs i = stepAt name condition order rs' i := by
  unfold stepAt
  rw [h]

/-- The loop over later instances, started with the relationships that are not ready yet. -/
theorem steps?_eq (nodes : List Endpoint) (hspan : Spans order rs)
    (hname : ∀ i ∈ order, tableName? catalog nodes i = some (name i))
    (hcond : ∀ r ∈ rs, condition? catalog r = some (condition r)) (back : List InstanceId) :
    ∀ (front joined : List InstanceId) (pending : List Relationship), order = front ++ back →
      (∀ x, x ∈ joined ↔ x ∈ front) →
      (∀ r ∈ pending, r ∈ rs ∧ laterInstance order r ∈ back) →
      steps? catalog nodes joined back pending =
        some (back.mapM (stepAt name condition order pending)) := by
  induction back with
  | nil => exact fun _ _ _ _ _ _ => rfl
  | cons i back ih =>
    intro front joined pending ho hj hp
    have hsplit := hspan.partition_eq ho hj hp
    have hrest := ih (front ++ [i]) (i :: joined)
      (pending.filter fun r => !decide (laterInstance order r = i)) (by simp [ho])
      (fun x => by rw [List.mem_cons, hj, List.mem_append, List.mem_singleton, or_comm])
      (fun r hr => by
        obtain ⟨hr, hne⟩ := List.mem_filter.mp hr
        obtain ⟨hrs, hl⟩ := hp r hr
        exact ⟨hrs, (List.mem_cons.mp hl).resolve_left (by simpa using hne)⟩)
    have hni : i ∉ back := by
      have hn := hspan.nodup
      rw [ho] at hn
      exact (List.nodup_cons.mp (List.nodup_append.mp hn).2.1).1
    rw [mapM_congr fun j hb => stepAt_congr
      (attributed_filter_ne (ne_of_mem_of_not_mem hb hni))] at hrest
    have hconds := mapM_eq_some_map (l := attributed order pending i)
      (fun r hr => hcond r (hp r (mem_attributed.mp hr).1).1)
    unfold steps?
    simp only [hname i (by simp [ho]), hsplit, hrest, Option.bind_eq_bind, Option.bind_some,
      List.mapM_cons]
    cases hown : attributed order pending i with
    | nil =>
      rw [stepAt_nil hown]
      rfl
    | cons first others =>
      rw [hown] at hconds
      rw [stepAt_cons hown, hconds]
      cases back.mapM (stepAt name condition order pending) <;> rfl

/-- The plan that an order of instances leads to: a step for each behind the first. -/
def along (name : InstanceId → String) (condition : Relationship → String)
    (order : List InstanceId) (rs : List Relationship) : Except Stuck JoinPlan :=
  (order.tail.mapM (stepAt name condition order rs)).map fun steps =>
    ⟨order, name (order.headD 0), steps⟩

theorem alongOrder?_eq (nodes : List Endpoint) (hspan : Spans order rs) (hne : order ≠ [])
    (hname : ∀ i ∈ order, tableName? catalog nodes i = some (name i))
    (hcond : ∀ r ∈ rs, condition? catalog r = some (condition r)) :
    alongOrder? catalog nodes rs order = some (along name condition order rs) := by
  obtain ⟨sorted, hsorted, hmem, hattr⟩ := byLaterInstance?_spec hspan
  obtain ⟨first, later, rfl⟩ := List.exists_cons_of_ne_nil hne
  have hpending : ∀ r ∈ sorted, r ∈ rs ∧ laterInstance (first :: later) r ∈ later := by
    intro r hr
    have hrs := (hmem r).mp hr
    exact ⟨hrs, hspan.later_mem_tail hrs⟩
  have hsteps := steps?_eq nodes hspan hname hcond later [first] [first] sorted rfl
    (fun _ => Iff.rfl) hpending
  rw [mapM_congr fun i hi => stepAt_congr (hattr i (List.mem_cons_of_mem _ hi))] at hsteps
  unfold alongOrder? along
  simp only [hsorted, hname first (by simp), hsteps, Option.bind_eq_bind, Option.bind_some,
    List.tail_cons, List.headD_cons]
  cases later.mapM (stepAt name condition (first :: later) rs) <;> rfl

/-! ## Plans along an order -/

theorem along_eq_ok_iff {plan : JoinPlan} :
    along name condition order rs = .ok plan ↔
      plan.order = order ∧ plan.seed = name (order.headD 0) ∧
      List.Forall₂ (fun i step => stepAt name condition order rs i = .ok step) order.tail
        plan.steps := by
  rw [← mapM_eq_ok_iff]
  obtain ⟨o, seed, steps⟩ := plan
  unfold along
  cases order.tail.mapM (stepAt name condition order rs) <;>
    simp [Except.map, eq_comm]

theorem exists_stepAt_iff {i : InstanceId} :
    (∃ step, stepAt name condition order rs i = .ok step) ↔
      ∃ r ∈ rs, laterInstance order r = i := by
  simp only [← mem_attributed]
  cases hown : attributed order rs i with
  | nil => simp [stepAt_nil hown]
  | cons first rest => simp [stepAt_cons hown]

/-- There is a plan just if every instance behind the first has relationships of its own. -/
theorem exists_along_iff : (∃ plan, along name condition order rs = .ok plan) ↔
    ∀ i ∈ order.tail, ∃ r ∈ rs, laterInstance order r = i := by
  have hstep : ∀ i, (∃ step, stepAt name condition order rs i = .ok step) ↔
      ∃ r ∈ rs, laterInstance order r = i := fun _ => exists_stepAt_iff
  simp only [← hstep, ← exists_mapM_eq_ok_iff]
  unfold along
  cases order.tail.mapM (stepAt name condition order rs) <;> simp [Except.map]

/-- A plan gets stuck at the first instance without relationships of its own. -/
theorem along_eq_error {front back : List InstanceId} {i : InstanceId}
    (ho : order.tail = front ++ i :: back)
    (hfront : ∀ j ∈ front, ∃ r ∈ rs, laterInstance order r = j)
    (hi : ∀ r ∈ rs, laterInstance order r ≠ i) :
    along name condition order rs = .error ⟨name i, i⟩ := by
  have hown : attributed order rs i = [] :=
    List.eq_nil_iff_forall_not_mem.mpr fun r hr => hi r (mem_attributed.mp hr).1
      (mem_attributed.mp hr).2
  unfold along
  rw [ho, mapM_eq_error (fun j hj => exists_stepAt_iff.mpr (hfront j hj)) (stepAt_nil hown)]
  rfl

end VisualQuery.JoinPlan
