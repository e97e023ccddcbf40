import Mathlib.Data.List.Pairwise
import VisualQuery.Proofs.Join.Shape

/-! # Components

A connected component is named by its head, the one of its instances that is mentioned first. The
walk both ways visits one component after the other, from its head, so the join order lists them
one by one against the order of mention; within a component every instance behind the head is
related to one in front of it (`exists_listsComponents`). So planning goes through the component
mentioned last and is stuck at the head of the one mentioned before it (`plan?_blames`). -/

namespace VisualQuery
open Relation JoinPlan Walk

/-- The heads of the connected components, in order of mention: no two of them hang together, and
every mentioned instance hangs together with one that is mentioned no later. -/
structure ComponentHeads (rs : List Relationship) (heads : List InstanceId) : Prop where
  sublist : heads.Sublist (instancesOf rs)
  apart : heads.Pairwise fun i j => ¬ ReflTransGen (Related rs) i j
  covers : ∀ j, Mentions rs j →
    ∃ i ∈ heads, ReflTransGen (Related rs) i j ∧ (j = i ∨ Before (instancesOf rs) i j)

/-- A component as a join order lists it. -/
structure Component where
  head : InstanceId
  others : List InstanceId

def Component.instances (c : Component) : List InstanceId := c.head :: c.others

/-- An order that lists components one after another, the one mentioned last in front. -/
structure ListsComponents (rs : List Relationship) (cs : List Component)
    (order : List InstanceId) : Prop where
  order : order = cs.reverse.flatMap Component.instances
  heads : ComponentHeads rs (cs.map Component.head)
  mem_iff : ∀ c ∈ cs, ∀ j, j ∈ c.instances ↔ ReflTransGen (Related rs) c.head j
  joined : ∀ c ∈ cs, ∀ j ∈ c.others, ∃ k, Related rs k j ∧ Before c.instances k j

variable {catalog : Catalog} {rs : List Relationship} {order heads heads' : List InstanceId}
  {i j : InstanceId}

/-! ## Heads -/

theorem nodup_instancesOf (rs : List Relationship) : (instancesOf rs).Nodup :=
  nodup_firstMentions rs

theorem not_connected_of_closed (p : InstanceId → Prop)
    (hclosed : ∀ r ∈ rs, p r.a.place ↔ p r.b.place) (hi : p i) (hj : ¬ p j) :
    ¬ ReflTransGen (Related rs) i j := by
  intro h
  refine hj (ReflTransGen.head_induction_on (motive := fun k _ => p k → p j) h id ?_ hi)
  rintro k l ⟨r, hr, ⟨rfl, rfl⟩ | ⟨rfl, rfl⟩⟩ _ ih hk
  · exact ih ((hclosed r hr).mp hk)
  · exact ih ((hclosed r hr).mpr hk)

namespace ComponentHeads

theorem nodup (h : ComponentHeads rs heads) : heads.Nodup :=
  (nodup_instancesOf rs).sublist h.sublist

theorem eq_of_connected (h : ComponentHeads rs heads) (hi : i ∈ heads) (hj : j ∈ heads)
    (hij : ReflTransGen (Related rs) i j) : i = j := by
  have hsymm : Std.Symm fun i j => ¬ ReflTransGen (Related rs) i j :=
    ⟨fun _ _ hn h => hn (relatedTrans_symm h)⟩
  by_contra hne
  exact h.apart.forall hi hj hne hij

/-- The heads are those instances that nothing mentioned before them hangs together with. -/
theorem mem_iff (h : ComponentHeads rs heads) : i ∈ heads ↔
    Mentions rs i ∧ ∀ j, Before (instancesOf rs) j i → ¬ ReflTransGen (Related rs) j i := by
  constructor
  · intro hi
    refine ⟨mem_instancesOf.mp (h.sublist.subset hi), fun j hji hconn => ?_⟩
    obtain ⟨k, hk, hkj, hle⟩ := h.covers j (mem_instancesOf.mp hji.left_mem)
    obtain rfl := h.eq_of_connected hk hi (hkj.trans hconn)
    have hn := nodup_instancesOf rs
    rcases hle with rfl | hkj
    · exact hji.asymm hn hji
    · exact hji.asymm hn hkj
  · rintro ⟨hi, hfirst⟩
    obtain ⟨k, hk, hconn, rfl | hbefore⟩ := h.covers i hi
    · exact hk
    · exact absurd hconn (hfirst k hbefore)

/-- There is one list of heads. -/
theorem unique (h : ComponentHeads rs heads) (h' : ComponentHeads rs heads') : heads = heads' := by
  rw [← filter_mem_of_sublist (nodup_instancesOf rs) h.sublist,
    ← filter_mem_of_sublist (nodup_instancesOf rs) h'.sublist]
  exact List.filter_congr fun i _ => by rw [decide_eq_decide, h.mem_iff, h'.mem_iff]

end ComponentHeads

/-! ## Blocks of a walk -/

/-- The component that a block of nodes stands for. -/
def componentOf (nodes : List InstanceId) (b : Block) : Component :=
  ⟨instanceOf nodes b.root, b.below.reverse.map (instanceOf nodes)⟩

theorem instances_componentOf (nodes : List InstanceId) (b : Block) :
    (componentOf nodes b).instances = b.nodes.reverse.map (instanceOf nodes) := by
  simp [componentOf, Component.instances, Block.nodes]

theorem reversed_eq_flatMap (nodes : List InstanceId) {blocks : List Block} {s : State}
    (h : s.left = blocks.flatMap Block.nodes) :
    reversed nodes s = (blocks.map (componentOf nodes)).reverse.flatMap Component.instances := by
  unfold reversed
  rw [h, ← List.map_reverse, List.flatMap_map, List.reverse_flatMap, List.map_flatMap]
  simp only [instances_componentOf, Function.comp_apply]

section Blocks
variable {next : Neighbours} {blocks : List Block} {s : State} {b : Block}
    (hedge : ∀ u v, Edge next u v ↔ ∃ i j, (instancesOf rs)[u]? = some i ∧
      (instancesOf rs)[v]? = some j ∧ Direction.bothWays.Leads rs i j)
    (h : ByRoots next (List.range (instancesOf rs).length)
      (State.start (instancesOf rs).length) blocks s)
include hedge h

theorem related_of_block (hb : b ∈ blocks) :
    ∀ j ∈ (componentOf (instancesOf rs) b).instances,
      ReflTransGen (Related rs) (componentOf (instancesOf rs) b).head j := by
  intro j hj
  rw [instances_componentOf] at hj
  obtain ⟨v, hv, rfl⟩ := List.mem_map.mp hj
  exact leads_of_reach hedge (h.reach b hb v (List.mem_reverse.mp hv))

theorem joined_of_block (hb : b ∈ blocks) :
    ∀ j ∈ (componentOf (instancesOf rs) b).others,
      ∃ k, Related rs k j ∧ Before (componentOf (instancesOf rs) b).instances k j := by
  intro j hj
  obtain ⟨v, hv, rfl⟩ := List.mem_map.mp hj
  obtain ⟨u, he, hbefore⟩ := h.parent b hb v (List.mem_reverse.mp hv)
  obtain ⟨k, j, hk, hj, hl⟩ := (hedge u v).mp he
  rw [← instanceOf_eq hk, ← instanceOf_eq hj] at hl
  refine ⟨_, hl, ?_⟩
  rw [instances_componentOf]
  exact (before_reverse.mpr hbefore).map _

/-- The roots of the walk stand for the heads of components. -/
theorem componentHeads_of_blocks :
    ComponentHeads rs ((blocks.map (componentOf (instancesOf rs))).map Component.head) := by
  have hn := nodup_instancesOf rs
  have hlt : ∀ b ∈ blocks, b.root < (instancesOf rs).length :=
    fun b hb => fresh_start.mp (h.fresh_of_block hb b.root_mem)
  have hposition : ∀ v < (instancesOf rs).length,
      (instancesOf rs).idxOf (instanceOf (instancesOf rs) v) = v := by
    intro v hv
    have hg := getElem?_instanceOf hv
    exact (getElem?_eq_some_iff_idxOf hn (List.mem_of_getElem? hg)).mp hg
  have hheads : (blocks.map (componentOf (instancesOf rs))).map Component.head =
      (blocks.map Block.root).map (instanceOf (instancesOf rs)) := by
    simp [componentOf]
  rw [hheads]
  refine ⟨?_, ?_, fun j hj => ?_⟩
  · have hroots := h.roots.map (instanceOf (instancesOf rs))
    rwa [map_instanceOf_range] at hroots
  · rw [List.map_map, List.pairwise_map]
    refine h.apart.imp_of_mem fun {b c} hb hc hbc hr => hbc ?_
    have hreach := reach_of_leads hn (fun _ => mem_instancesOf) hedge hr
    simp only [Function.comp_apply] at hreach
    rwa [hposition _ (hlt b hb), hposition _ (hlt c hc)] at hreach
  · have hj' := mem_instancesOf.mpr hj
    have hv := List.idxOf_lt_length_of_mem hj'
    have hjv := instanceOf_eq ((getElem?_eq_some_iff_idxOf hn hj').mpr rfl)
    obtain ⟨b, hb, hm⟩ := List.mem_flatMap.mp ((h.explores.mem_iff _).mpr
      ⟨_, List.mem_range.mpr hv, fresh_start.mpr hv, .refl⟩)
    refine ⟨instanceOf (instancesOf rs) b.root,
      List.mem_map_of_mem (List.mem_map_of_mem hb), ?_, ?_⟩
    · have hr := leads_of_reach hedge (h.reach b hb _ hm)
      rwa [hjv] at hr
    · rcases h.first b hb _ (List.mem_range.mpr hv) hm with he | hbefore
      · left
        rw [← he, hjv]
      · right
        have hbefore := hbefore.map (instanceOf (instancesOf rs))
        rwa [map_instanceOf_range, hjv] at hbefore

end Blocks

/-- A listed component is all that hangs together with its head. -/
theorem mem_instances_iff {cs : List Component} (h : ComponentHeads rs (cs.map Component.head))
    (hall : ∀ j, Mentions rs j → ∃ c ∈ cs, j ∈ c.instances)
    (hown : ∀ c ∈ cs, ∀ j ∈ c.instances, ReflTransGen (Related rs) c.head j) {c : Component}
    (hc : c ∈ cs) : j ∈ c.instances ↔ ReflTransGen (Related rs) c.head j := by
  refine ⟨hown c hc j, fun hr => ?_⟩
  have hhead := List.mem_map_of_mem (f := Component.head) hc
  have hj : Mentions rs j := by
    rcases ReflTransGen.cases_tail hr with he | ⟨k, _, hk⟩
    · exact he ▸ mem_instancesOf.mp (h.sublist.subset hhead)
    · exact hk.mentions_right
  obtain ⟨c', hc', hj'⟩ := hall j hj
  have he := h.eq_of_connected hhead (List.mem_map_of_mem hc')
    (hr.trans (relatedTrans_symm (hown c' hc' j hj')))
  rwa [List.inj_on_of_nodup_map h.nodup hc hc' he]

/-- **The walk both ways goes component by component.** -/
theorem exists_listsComponents (rs : List Relationship) : ∃ cs order,
    joinOrder? .bothWays (instancesOf rs) rs = some order ∧ ListsComponents rs cs order := by
  obtain ⟨next, blocks, s, ho, hedge, hs, hleft⟩ := joinOrder?_eq_reversed .bothWays
    (nodup_instancesOf rs) fun _ => mem_instancesOf
  have hperm := (orderedBy_of_joinOrder? ho).perm
  have horder := reversed_eq_flatMap (instancesOf rs) hleft
  have hheads := componentHeads_of_blocks hedge hs
  have hof : ∀ c ∈ blocks.map (componentOf (instancesOf rs)),
      ∃ b ∈ blocks, componentOf (instancesOf rs) b = c := fun _ => List.mem_map.mp
  refine ⟨_, _, ho, horder, hheads, fun c hc j => ?_, fun c hc => ?_⟩
  · refine mem_instances_iff hheads (fun k hk => ?_) (fun c' hc' => ?_) hc
    · rw [← mem_instancesOf, ← hperm.mem_iff, horder] at hk
      obtain ⟨c', hc', hk⟩ := List.mem_flatMap.mp hk
      exact ⟨c', List.mem_reverse.mp hc', hk⟩
    · obtain ⟨b, hb, rfl⟩ := hof c' hc'
      exact related_of_block hedge hs hb
  · obtain ⟨b, hb, rfl⟩ := hof c hc
    exact joined_of_block hedge hs hb

/-! ## Blame -/

theorem exists_last_two {front : List InstanceId} {blamed last : InstanceId} {cs : List Component}
    (h : ListsComponents rs cs order) (hheads : ComponentHeads rs (front ++ [blamed, last])) :
    ∃ c back, c ∈ cs ∧ c.head = last ∧ order = c.instances ++ blamed :: back := by
  have hcs : cs.map Component.head = front ++ [blamed, last] := h.heads.unique hheads
  obtain ⟨cs', pair, rfl, _, hpair⟩ := List.map_eq_append_iff.mp hcs
  obtain ⟨b, rest, rfl, hb, hrest⟩ := List.map_eq_cons_iff.mp hpair
  obtain ⟨c, none, rfl, hc, hnone⟩ := List.map_eq_cons_iff.mp hrest
  obtain rfl := List.map_eq_nil_iff.mp hnone
  refine ⟨c, b.others ++ cs'.reverse.flatMap Component.instances, by simp, hc, ?_⟩
  rw [h.order, ← hb]
  simp [Component.instances]

/-- Along the order both ways planning is stuck at the head of the last component but one. -/
theorem planAlong_eq_stuck (catalog : Catalog) {front : List InstanceId}
    {blamed last : InstanceId} {cs : List Component}
    (h : ListsComponents rs cs order) (hspan : Spans order rs)
    (hheads : ComponentHeads rs (front ++ [blamed, last])) :
    planAlong catalog rs order = .error ⟨tableOf catalog rs blamed, blamed⟩ ∧ blamed ∈ order ∧
      ∀ i, Before order i blamed → ¬ ReflTransGen (Related rs) blamed i := by
  obtain ⟨c, back, hc, rfl, rfl⟩ := exists_last_two h hheads
  have hapart : ¬ ReflTransGen (Related rs) blamed c.head := by
    have hpair := (List.pairwise_append.mp hheads.apart).2.1
    exact (List.pairwise_cons.mp hpair).1 c.head (by simp)
  have hbefore : ∀ i, Before (c.instances ++ blamed :: back) i blamed →
      ¬ ReflTransGen (Related rs) blamed i := by
    intro i hi hr
    have hci := (h.mem_iff c hc i).mp (mem_of_before_middle hspan.nodup hi)
    exact hapart (hr.trans (relatedTrans_symm hci))
  have htail : (c.instances ++ blamed :: back).tail = c.others ++ blamed :: back := rfl
  refine ⟨along_eq_error htail (fun j hj => ?_) fun r hr he => ?_, by simp, hbefore⟩
  · obtain ⟨k, hk, hkj⟩ := h.joined c hc j hj
    exact laterInstance_of_before hspan.nodup hk (hkj.mono (List.sublist_append_left ..))
  · obtain ⟨k, _, hk, hlt⟩ := related_before hspan hr
    rw [he] at hk hlt
    exact hbefore k ((before_iff_idxOf_lt hspan.nodup (by simp)).mpr hlt) (.single hk.symm)

theorem exists_append_pair {α : Type} {l : List α} (h : 2 ≤ l.length) :
    ∃ front x y, l = front ++ [x, y] := by
  obtain rfl | ⟨init, y, rfl⟩ := l.eq_nil_or_concat'
  · simp at h
  obtain rfl | ⟨front, x, rfl⟩ := init.eq_nil_or_concat'
  · simp at h
  · exact ⟨front, x, y, by simp⟩

/-- **Whom planning blames.** The mentioned instances fall into components with certain heads. If
there are two or more components, planning fails at the head of the last one but one, under the
name of the table that it is first mentioned with. In the join order both ways no instance that
hangs together with it stands before it. -/
theorem plan?_blames (edits : List GraphEdit) (hc : catalog.Built)
    (hr : ∀ r ∈ (Graph.empty.after edits).relationships, ¬ r.Foreign catalog) :
    let g := Graph.empty.after edits
    (∃! heads, ComponentHeads g.relationships heads) ∧
    ∀ heads, ComponentHeads g.relationships heads → 2 ≤ heads.length →
      ∃ front blamed last table order, heads = front ++ [blamed, last] ∧
        NamesTable catalog g.relationships blamed table ∧
        g.plan? catalog = some (.error (.disconnected ⟨table, blamed⟩)) ∧
        joinOrder? .bothWays (instancesOf g.relationships) g.relationships = some order ∧
        blamed ∈ order ∧
        ∀ i, Before order i blamed → ¬ ReflTransGen (Related g.relationships) blamed i := by
  intro g
  obtain ⟨cs, order, ho, hcs⟩ := exists_listsComponents g.relationships
  refine ⟨⟨_, hcs.heads, fun heads h => h.unique hcs.heads⟩, fun heads hheads htwo => ?_⟩
  obtain ⟨front, blamed, last, rfl⟩ := exists_append_pair htwo
  have hmentions : ∀ i ∈ front ++ [blamed, last], Mentions g.relationships i :=
    fun i hi => mem_instancesOf.mp (hheads.sublist.subset hi)
  have hblamed := hmentions blamed (by simp)
  have hne : g.relationships ≠ [] := by
    obtain ⟨r, hr, _⟩ := hblamed
    exact List.ne_nil_of_mem hr
  have h := plannable_of_resolved hc.owned hne hr (Graph.oriented_after edits)
  have hspan := (orderedBy_of_joinOrder? ho).spans h.oriented
  obtain ⟨hstuck, hmem, hbefore⟩ := planAlong_eq_stuck catalog hcs hspan hheads
  obtain ⟨forward, hf, _⟩ := exists_joinOrder? g.relationships .forward
  have hplan := plan?_of_joinOrders hr h hf ho
  refine ⟨front, blamed, last, _, order, rfl, namesTable_tableOf h.resolved hblamed, ?_, ho, hmem,
    hbefore⟩
  cases hforward : planAlong catalog g.relationships forward with
  | ok plan =>
    -- a plan would connect the last two heads
    have hconn := (exists_plan?_iff hr h).mp ⟨plan, by rw [hplan, hforward]; rfl⟩
    have hapart := (List.pairwise_append.mp hheads.apart).2.1
    exact absurd (hconn blamed last hblamed (hmentions last (by simp)))
      ((List.pairwise_cons.mp hapart).1 last (by simp))
  | error _ =>
    rw [hplan, hforward, hstuck]
    rfl

/-- Three pairs of instances, mentioned out of order. -/
def islands : List GraphEdit :=
  [.add ⟨2, 2, 4⟩ ⟨0, 0, 0⟩ .inner, .add ⟨3, 1, 1⟩ ⟨4, 2, 3⟩ .left, .add ⟨5, 2, 4⟩ ⟨1, 0, 0⟩ .inner]

theorem componentHeads_islands :
    ComponentHeads (Graph.empty.after islands).relationships [0, 3, 1] := by
  set drawn := (Graph.empty.after islands).relationships
  have hinstances : instancesOf drawn = [0, 2, 3, 4, 1, 5] := rfl
  have h02 : Related drawn 0 2 := ⟨_, .head _, .inl ⟨rfl, rfl⟩⟩
  have h34 : Related drawn 3 4 := ⟨_, .tail _ (.head _), .inl ⟨rfl, rfl⟩⟩
  have h15 : Related drawn 1 5 := ⟨_, .tail _ (.tail _ (.head _)), .inl ⟨rfl, rfl⟩⟩
  refine ⟨by decide, ?_, fun j hj => ?_⟩
  · have h0 : ∀ j, j ∉ [0, 2] → ¬ ReflTransGen (Related drawn) 0 j :=
      fun j => not_connected_of_closed (· ∈ [0, 2]) (by decide) (by decide)
    have h3 : ∀ j, j ∉ [3, 4] → ¬ ReflTransGen (Related drawn) 3 j :=
      fun j => not_connected_of_closed (· ∈ [3, 4]) (by decide) (by decide)
    simp only [List.pairwise_cons, List.mem_cons, List.not_mem_nil, or_false, forall_eq_or_imp,
      forall_eq, IsEmpty.forall_iff, implies_true, List.Pairwise.nil, and_true]
    exact ⟨⟨h0 3 (by decide), h0 1 (by decide)⟩, h3 1 (by decide)⟩
  · rw [← mem_instancesOf, hinstances] at hj
    simp only [List.mem_cons, List.not_mem_nil, or_false] at hj
    rcases hj with rfl | rfl | rfl | rfl | rfl | rfl
    · exact ⟨0, by decide, .refl, .inl rfl⟩
    · exact ⟨0, by decide, .single h02, .inr (by unfold Before; decide)⟩
    · exact ⟨3, by decide, .refl, .inl rfl⟩
    · exact ⟨3, by decide, .single h34, .inr (by unfold Before; decide)⟩
    · exact ⟨1, by decide, .refl, .inl rfl⟩
    · exact ⟨1, by decide, .single h15, .inr (by unfold Before; decide)⟩

theorem plan?_blames_islands : Catalog.shop.Built ∧
    ComponentHeads (Graph.empty.after islands).relationships [0, 3, 1] ∧
    ∃ front blamed last table order, [0, 3, 1] = front ++ [blamed, last] ∧
      NamesTable Catalog.shop (Graph.empty.after islands).relationships blamed table ∧
      (Graph.empty.after islands).plan? Catalog.shop =
        some (.error (.disconnected ⟨table, blamed⟩)) ∧
      joinOrder? .bothWays (instancesOf (Graph.empty.after islands).relationships)
        (Graph.empty.after islands).relationships = some order ∧
      blamed ∈ order ∧ ∀ i, Before order i blamed →
        ¬ ReflTransGen (Related (Graph.empty.after islands).relationships) blamed i := by
  refine ⟨Catalog.built_shop, componentHeads_islands, ?_⟩
  exact (plan?_blames islands Catalog.built_shop (find?_foreign_eq_none.mp rfl)).2 [0, 3, 1]
    componentHeads_islands (by decide)

end VisualQuery
