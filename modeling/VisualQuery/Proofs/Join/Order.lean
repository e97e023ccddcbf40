import VisualQuery.Join.Order
import VisualQuery.Proofs.Join.Mentions
import VisualQuery.Proofs.Traversal
import VisualQuery.Proofs.Walk.Roots

/-! # Join orders

A join order lists the mentioned instances once each. What the walk says of nodes is read here of
instances (`OrderedBy`): an instance that a walk may go to stands later than the one it comes
from, unless a path leads back; and if the first instance leads to all, then it stands first and
every other one has its predecessor somewhere before it. -/

namespace VisualQuery
open Relation Walk

/-- A walk in a direction may go from `i` to `j`. -/
def Direction.Leads (d : Direction) (rs : List Relationship) (i j : InstanceId) : Prop :=
  match d with
  | .forward => ∃ r ∈ rs, r.a.place = i ∧ r.b.place = j
  | .bothWays => Related rs i j

structure OrderedBy (d : Direction) (rs : List Relationship) (nodes order : List InstanceId) :
    Prop where
  perm : order.Perm nodes
  ordered : ∀ i j, d.Leads rs i j → Before order i j ∨ ReflTransGen (d.Leads rs) j i
  rooted : ∀ i, nodes.head? = some i → (∀ j ∈ nodes, ReflTransGen (d.Leads rs) i j) →
    order.head? = some i ∧ ∀ j ∈ order, j = i ∨ ∃ k, d.Leads rs k j ∧ Before order k j

variable {d : Direction} {rs : List Relationship} {nodes : List InstanceId}

theorem Direction.Leads.related {i j : InstanceId} (h : d.Leads rs i j) : Related rs i j := by
  cases d with
  | forward =>
    obtain ⟨r, hr, hi, hj⟩ := h
    exact ⟨r, hr, .inl ⟨hi, hj⟩⟩
  | bothWays => exact h

/-! ## Edges between positions -/

theorem mem_addEdge {edges : List (Nat × Nat)} {e x : Nat × Nat} :
    x ∈ addEdge edges e ↔ x ∈ edges ∨ x = e := by
  unfold addEdge
  split
  · next h =>
    have he : e ∈ edges := by simpa using h
    exact ⟨.inl, fun hx => hx.elim id fun hx => hx ▸ he⟩
  · simp

theorem addEdge_of_mem {edges : List (Nat × Nat)} {e : Nat × Nat} (h : e ∈ edges) :
    addEdge edges e = edges := by
  unfold addEdge
  rw [if_pos (by simpa using h)]

theorem mem_foldl_addEdge (pairs : List (Nat × Nat)) {x : Nat × Nat} :
    ∀ edges, x ∈ pairs.foldl addEdge edges ↔ x ∈ edges ∨ x ∈ pairs := by
  induction pairs with
  | nil => simp
  | cons e rest ih =>
    intro edges
    rw [List.foldl_cons, ih, mem_addEdge, List.mem_cons, or_assoc]

theorem edges?_spec (hn : nodes.Nodup) (hm : ∀ i, i ∈ nodes ↔ Mentions rs i) :
    ∃ es, edges? nodes rs = some es ∧
      ∀ u v, (u, v) ∈ es ↔ ∃ r ∈ rs, nodes[u]? = some r.a.place ∧ nodes[v]? = some r.b.place := by
  have ha : ∀ r ∈ rs, r.a.place ∈ nodes := fun r hr => (hm _).mpr ⟨r, hr, .inl rfl⟩
  have hb : ∀ r ∈ rs, r.b.place ∈ nodes := fun r hr => (hm _).mpr ⟨r, hr, .inr rfl⟩
  have hpairs := mapM_eq_some_map (l := rs)
    (f := fun r => do pure (← nodes.idxOf? r.a.place, ← nodes.idxOf? r.b.place))
    (g := fun r => (nodes.idxOf r.a.place, nodes.idxOf r.b.place))
    (fun r hr => by simp [idxOf?_of_mem (ha r hr), idxOf?_of_mem (hb r hr)])
  refine ⟨_, by unfold edges?; rw [hpairs]; rfl, fun u v => ?_⟩
  rw [mem_foldl_addEdge, List.mem_map]
  constructor
  · intro hx
    rcases hx with h | ⟨r, hr, he⟩
    · simp at h
    · obtain ⟨hu, hv⟩ := Prod.mk.inj he
      exact ⟨r, hr, (getElem?_eq_some_iff_idxOf hn (ha r hr)).mpr hu,
        (getElem?_eq_some_iff_idxOf hn (hb r hr)).mpr hv⟩
  · intro hx
    obtain ⟨r, hr, hu, hv⟩ := hx
    exact .inr ⟨r, hr, by rw [(getElem?_eq_some_iff_idxOf hn (ha r hr)).mp hu,
      (getElem?_eq_some_iff_idxOf hn (hb r hr)).mp hv]⟩

theorem follow_eq_some_iff {u v : Nat} {e : Nat × Nat} :
    d.follow u e = some v ↔ e = (u, v) ∨ d = .bothWays ∧ e = (v, u) := by
  obtain ⟨a, b⟩ := e
  cases d <;> by_cases ha : a = u <;> by_cases hb : b = u <;>
    simp [Direction.follow, ha, hb]

theorem edge_neighbours_iff {n u v : Nat} {es : List (Nat × Nat)} :
    Edge (d.neighbours n es) u v ↔ u < n ∧ ((u, v) ∈ es ∨ d = .bothWays ∧ (v, u) ∈ es) := by
  have hget : ∀ vs, (d.neighbours n es)[u]? = some vs ↔ u < n ∧ es.filterMap (d.follow u) = vs := by
    intro vs
    by_cases hu : u < n <;> simp [Direction.neighbours, hu]
  unfold Edge
  simp only [hget]
  constructor
  · intro hx
    obtain ⟨vs, ⟨hu, rfl⟩, hv⟩ := hx
    obtain ⟨e, he, hf⟩ := List.mem_filterMap.mp hv
    rcases follow_eq_some_iff.mp hf with rfl | ⟨hd, rfl⟩
    · exact ⟨hu, .inl he⟩
    · exact ⟨hu, .inr ⟨hd, he⟩⟩
  · intro hx
    obtain ⟨hu, he⟩ := hx
    refine ⟨_, ⟨hu, rfl⟩, List.mem_filterMap.mpr ?_⟩
    rcases he with he | ⟨hd, he⟩
    · exact ⟨_, he, follow_eq_some_iff.mpr (.inl rfl)⟩
    · exact ⟨_, he, follow_eq_some_iff.mpr (.inr ⟨hd, rfl⟩)⟩

theorem edge_iff_leads {es : List (Nat × Nat)}
    (hes : ∀ u v, (u, v) ∈ es ↔
      ∃ r ∈ rs, nodes[u]? = some r.a.place ∧ nodes[v]? = some r.b.place) {u v : Nat} :
    Edge (d.neighbours nodes.length es) u v ↔
      ∃ i j, nodes[u]? = some i ∧ nodes[v]? = some j ∧ d.Leads rs i j := by
  rw [edge_neighbours_iff, hes u v, hes v u]
  constructor
  · intro hx
    obtain ⟨_, ⟨r, hr, hu, hv⟩ | ⟨rfl, r, hr, hv, hu⟩⟩ := hx
    · refine ⟨_, _, hu, hv, ?_⟩
      cases d with
      | forward => exact ⟨r, hr, rfl, rfl⟩
      | bothWays => exact ⟨r, hr, .inl ⟨rfl, rfl⟩⟩
    · exact ⟨_, _, hu, hv, ⟨r, hr, .inr ⟨rfl, rfl⟩⟩⟩
  · intro hx
    obtain ⟨i, j, hu, hv, hl⟩ := hx
    refine ⟨(List.getElem?_eq_some_iff.mp hu).1, ?_⟩
    cases d with
    | forward =>
      obtain ⟨r, hr, rfl, rfl⟩ := hl
      exact .inl ⟨r, hr, hu, hv⟩
    | bothWays =>
      obtain ⟨r, hr, ⟨rfl, rfl⟩ | ⟨rfl, rfl⟩⟩ := hl
      · exact .inl ⟨r, hr, hu, hv⟩
      · exact .inr ⟨rfl, r, hr, hv, hu⟩

theorem length_neighbours (d : Direction) (n : Nat) (es : List (Nat × Nat)) :
    (d.neighbours n es).length = n := by
  simp [Direction.neighbours]

theorem closed_neighbours {es : List (Nat × Nat)}
    (hes : ∀ u v, (u, v) ∈ es ↔
      ∃ r ∈ rs, nodes[u]? = some r.a.place ∧ nodes[v]? = some r.b.place) :
    Closed (d.neighbours nodes.length es) := by
  intro u v he
  obtain ⟨_, j, _, hv, _⟩ := (edge_iff_leads hes).mp he
  rw [length_neighbours]
  exact (List.getElem?_eq_some_iff.mp hv).1

/-! ## From nodes to instances -/

def instanceOf (nodes : List InstanceId) (v : Nat) : InstanceId := nodes[v]?.getD 0

theorem getElem?_instanceOf {v : Nat} (hv : v < nodes.length) :
    nodes[v]? = some (instanceOf nodes v) := by
  simp [instanceOf, hv]

theorem instanceOf_eq {v : Nat} {i : InstanceId} (h : nodes[v]? = some i) :
    instanceOf nodes v = i := by
  simp [instanceOf, h]

theorem map_instanceOf_range (nodes : List InstanceId) :
    (List.range nodes.length).map (instanceOf nodes) = nodes := by
  apply List.ext_getElem?
  intro v
  by_cases hv : v < nodes.length
  · simp [hv, instanceOf]
  · simp [hv]

section Walked
variable {next : Neighbours} {s : State} {blocks : List Block}

theorem leads_of_reach {marks : List Mark} {u v : Nat}
    (hedge : ∀ u v, Edge next u v ↔
      ∃ i j, nodes[u]? = some i ∧ nodes[v]? = some j ∧ d.Leads rs i j)
    (h : Reach next marks u v) :
    ReflTransGen (d.Leads rs) (instanceOf nodes u) (instanceOf nodes v) := by
  refine h.lift (instanceOf nodes) fun a b hs => ?_
  obtain ⟨i, j, hi, hj, hl⟩ := (hedge a b).mp hs.1
  show d.Leads rs (instanceOf nodes a) (instanceOf nodes b)
  rwa [instanceOf_eq hi, instanceOf_eq hj]

/-- A path of instances is one of nodes, all of which are fresh at the start. -/
theorem reach_of_leads {i j : InstanceId} (hn : nodes.Nodup) (hm : ∀ i, i ∈ nodes ↔ Mentions rs i)
    (hedge : ∀ u v, Edge next u v ↔
      ∃ i j, nodes[u]? = some i ∧ nodes[v]? = some j ∧ d.Leads rs i j)
    (h : ReflTransGen (d.Leads rs) i j) :
    Reach next (State.start nodes.length).marks (nodes.idxOf i) (nodes.idxOf j) := by
  refine h.lift nodes.idxOf fun a b hl => ?_
  have hb : b ∈ nodes := (hm b).mpr hl.related.mentions_right
  have ha : a ∈ nodes := (hm a).mpr hl.related.symm.mentions_right
  refine ⟨(hedge _ _).mpr ⟨a, b, ?_, ?_, hl⟩, fresh_start.mpr (List.idxOf_lt_length_of_mem hb)⟩
  · exact (getElem?_eq_some_iff_idxOf hn ha).mpr rfl
  · exact (getElem?_eq_some_iff_idxOf hn hb).mpr rfl

/-- The instances in the reverse of the order in which a walk leaves their nodes. -/
def reversed (nodes : List InstanceId) (s : State) : List InstanceId :=
  s.left.reverse.map (instanceOf nodes)

theorem before_reversed {u v : Nat} (h : Before s.left u v) :
    Before (reversed nodes s) (instanceOf nodes v) (instanceOf nodes u) :=
  (before_reverse.mpr h).map _

theorem perm_reversed (h : s.left.Perm (List.range nodes.length)) :
    (reversed nodes s).Perm nodes := by
  have hperm := (List.reverse_perm s.left).trans h
  exact (hperm.map _).trans (.of_eq (map_instanceOf_range nodes))

theorem ordered_reversed (hn : nodes.Nodup) (hm : ∀ i, i ∈ nodes ↔ Mentions rs i)
    (hedge : ∀ u v, Edge next u v ↔
      ∃ i j, nodes[u]? = some i ∧ nodes[v]? = some j ∧ d.Leads rs i j)
    (hs : Explores next (List.range nodes.length) (State.start nodes.length) s.left s)
    (hml : ∀ v, v ∈ s.left ↔ v < nodes.length) {i j : InstanceId} (hl : d.Leads rs i j) :
    Before (reversed nodes s) i j ∨ ReflTransGen (d.Leads rs) j i := by
  have hi : i ∈ nodes := (hm i).mpr hl.related.symm.mentions_right
  have hj : j ∈ nodes := (hm j).mpr hl.related.mentions_right
  have hgi := (getElem?_eq_some_iff_idxOf hn hi).mpr rfl
  have hgj := (getElem?_eq_some_iff_idxOf hn hj).mpr rfl
  rcases hs.ordered (nodes.idxOf i) ((hml _).mpr (List.idxOf_lt_length_of_mem hi))
    (nodes.idxOf j) ((hedge _ _).mpr ⟨i, j, hgi, hgj, hl⟩)
    (fresh_start.mpr (List.idxOf_lt_length_of_mem hj)) with hb | hr
  · left
    have hbefore : Before (reversed nodes s) _ _ := before_reversed hb
    rwa [instanceOf_eq hgi, instanceOf_eq hgj] at hbefore
  · right
    have hback := leads_of_reach hedge hr
    rwa [instanceOf_eq hgi, instanceOf_eq hgj] at hback

/-- If the first instance leads to all, its node is the only root of the walk. -/
theorem rooted_reversed {i : InstanceId} {tail : List InstanceId} (hn : (i :: tail).Nodup)
    (hm : ∀ j, j ∈ i :: tail ↔ Mentions rs j)
    (hedge : ∀ u v, Edge next u v ↔
      ∃ j k, (i :: tail)[u]? = some j ∧ (i :: tail)[v]? = some k ∧ d.Leads rs j k)
    (h : ByRoots next (List.range (i :: tail).length) (State.start (i :: tail).length) blocks s)
    (hleft : s.left = blocks.flatMap Block.nodes)
    (hreach : ∀ j ∈ i :: tail, ReflTransGen (d.Leads rs) i j) :
    (reversed (i :: tail) s).head? = some i ∧
      ∀ j ∈ reversed (i :: tail) s, j = i ∨
        ∃ k, d.Leads rs k j ∧ Before (reversed (i :: tail) s) k j := by
  have hnodes : ∀ v < (i :: tail).length,
      Reach next (State.start (i :: tail).length).marks 0 v := by
    intro v hv
    have hg := getElem?_instanceOf hv
    have hvm := List.mem_of_getElem? hg
    have hr := reach_of_leads hn hm hedge (hreach _ hvm)
    rwa [(getElem?_eq_some_iff_idxOf hn hvm).mp hg, List.idxOf_cons_self] at hr
  obtain ⟨below, rfl⟩ := h.eq_singleton (fun _ => fresh_start.mpr) (by simp) hnodes
  have hblock : s.left = below ++ [0] := by simp [hleft, Block.nodes]
  refine ⟨by unfold reversed; rw [hblock]; simp [instanceOf], fun j hj => ?_⟩
  obtain ⟨v, hv, rfl⟩ := List.mem_map.mp hj
  rw [List.mem_reverse, hblock] at hv
  rcases List.mem_append.mp hv with hv | hv
  · right
    obtain ⟨u, he, hb⟩ := h.parent ⟨0, below⟩ (by simp) v hv
    obtain ⟨k, j, hk, hj, hl⟩ := (hedge u v).mp he
    rw [← instanceOf_eq hk, ← instanceOf_eq hj] at hl
    exact ⟨_, hl, before_reversed (hblock ▸ hb)⟩
  · left
    rw [List.mem_singleton.mp hv]
    rfl

end Walked

theorem joinOrder?_of_walk {edges : List (Nat × Nat)} {s : State}
    (hedges : edges? nodes rs = some edges) (hall : all (d.neighbours nodes.length edges) = some s)
    (hperm : s.left.Perm (List.range nodes.length)) :
    joinOrder? d nodes rs = some (reversed nodes s) := by
  have hmap := mapM_eq_some_map (l := s.left.reverse) (f := fun v => nodes[v]?)
    (g := instanceOf nodes) fun v hv =>
      getElem?_instanceOf (List.mem_range.mp (hperm.subset (List.mem_reverse.mp hv)))
  unfold joinOrder?
  simp only [hedges, hall, Option.bind_eq_bind, Option.bind_some]
  exact hmap

/-- Every join order exists: it lists the instances against the order in which a walk over their
positions leaves these behind. -/
theorem joinOrder?_eq_reversed (d : Direction) (hn : nodes.Nodup)
    (hm : ∀ i, i ∈ nodes ↔ Mentions rs i) : ∃ (next : Neighbours) (blocks : List Block) (s : State),
    joinOrder? d nodes rs = some (reversed nodes s) ∧
    (∀ u v, Edge next u v ↔
      ∃ i j, nodes[u]? = some i ∧ nodes[v]? = some j ∧ d.Leads rs i j) ∧
    ByRoots next (List.range nodes.length) (State.start nodes.length) blocks s ∧
    s.left = blocks.flatMap Block.nodes := by
  obtain ⟨es, hes, hmem⟩ := edges?_spec hn hm
  have hedge := fun u v => edge_iff_leads (d := d) hmem (u := u) (v := v)
  obtain ⟨blocks, s, hall, hs, hleft⟩ := all_byRoots (closed_neighbours hmem)
  rw [length_neighbours] at hs
  exact ⟨_, blocks, s, joinOrder?_of_walk hes hall (perm_range (hleft ▸ hs.explores)), hedge, hs,
    hleft⟩

/-- **Every join order exists** and is one. -/
theorem joinOrder?_orderedBy (d : Direction) (hn : nodes.Nodup)
    (hm : ∀ i, i ∈ nodes ↔ Mentions rs i) :
    ∃ order, joinOrder? d nodes rs = some order ∧ OrderedBy d rs nodes order := by
  obtain ⟨next, blocks, s, ho, hedge, hs, hleft⟩ := joinOrder?_eq_reversed d hn hm
  have hexplores := hleft ▸ hs.explores
  have hml := mem_left_iff hexplores
  refine ⟨_, ho, perm_reversed (perm_range hexplores),
    fun i j hl => ordered_reversed hn hm hedge hexplores hml hl, fun i hi hreach => ?_⟩
  obtain ⟨tail, rfl⟩ : ∃ tail, nodes = i :: tail := List.head?_eq_some_iff.mp hi
  exact rooted_reversed hn hm hedge hs hleft hreach

end VisualQuery
