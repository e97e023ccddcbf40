import Mathlib.Data.List.Induction
import VisualQuery.Proofs.Join.Components

/-! # Orders by components

The join order both ways keeps every connected component together, whether or not there are
several: a component begins with the instance that is mentioned first, the components stand
against the order of mention, and every instance behind the first of its component is related to
one in front of it (`joinOrder?_groups`). Which of two instances is mentioned first is read off
the sides of the relationships, one after the other. -/

namespace VisualQuery
open Relation Walk

/-- The instances of all sides of relationships, as often as they occur. -/
def mentionedPlaces (rs : List Relationship) : List InstanceId := (mentions rs).map (·.place)

/-- The first mention of `i` comes before that of `j`. -/
def MentionedBefore (rs : List Relationship) (i j : InstanceId) : Prop :=
  Mentions rs j ∧ (mentionedPlaces rs).idxOf i < (mentionedPlaces rs).idxOf j

/-- Nothing that hangs together with the mentioned instance `i` precedes it. -/
def FirstOfComponent (rs : List Relationship) (precedes : InstanceId → InstanceId → Prop)
    (i : InstanceId) : Prop :=
  Mentions rs i ∧ ∀ j, precedes j i → ¬ ReflTransGen (Related rs) j i

/-- An order of the mentioned instances by connected components. -/
structure GroupsComponents (rs : List Relationship) (order : List InstanceId) : Prop where
  once : order.Nodup
  mem_iff : ∀ i, i ∈ order ↔ Mentions rs i
  /-- What stands between two instances of a component belongs to it. -/
  contiguous : ∀ i j k, Before order i j → Before order j k →
    ReflTransGen (Related rs) i k → ReflTransGen (Related rs) i j
  begins : ∀ i, FirstOfComponent rs (Before order) i ↔ FirstOfComponent rs (MentionedBefore rs) i
  /-- Of two components the one that is mentioned first stands behind the other. -/
  against : ∀ i j, FirstOfComponent rs (MentionedBefore rs) i →
    FirstOfComponent rs (MentionedBefore rs) j → MentionedBefore rs i j →
    ∀ k l, ReflTransGen (Related rs) i k → ReflTransGen (Related rs) j l → Before order l k
  joined : ∀ j ∈ order, ¬ FirstOfComponent rs (Before order) j →
    ∃ i, Related rs i j ∧ Before order i j

variable {rs : List Relationship} {cs : List Component} {order : List InstanceId}
  {i j : InstanceId} {c d : Component}

/-! ## First mentions in order -/

theorem before_addMention_iff {seen : List Endpoint} {e : Endpoint} :
    Before ((addMention seen e).map (·.place)) i j ↔ Before (seen.map (·.place)) i j ∨
      e.place ∉ seen.map (·.place) ∧ i ∈ seen.map (·.place) ∧ j = e.place := by
  rcases addMention_cases seen e with ⟨he, hmem⟩ | ⟨he, hnew⟩
  · rw [he, or_iff_left fun h => h.1 hmem]
  · rw [he, List.map_append, List.map_singleton, before_concat, and_iff_right hnew]

/-- Collecting first mentions keeps their order. -/
theorem before_foldl_addMention_iff (es : List Endpoint) (hj : j ∈ es.map (·.place)) :
    Before ((es.foldl addMention []).map (·.place)) i j ↔
      (es.map (·.place)).idxOf i < (es.map (·.place)).idxOf j := by
  induction es using List.reverseRecOn with
  | nil => cases hj
  | append_singleton es e ih =>
    rw [List.foldl_concat, before_addMention_iff]
    simp only [place_mem_foldl_iff]
    rw [List.map_append, List.map_singleton] at hj ⊢
    -- a place that occurred before keeps its position, a new one stands behind all others
    by_cases hold : j ∈ es.map (·.place)
    · rw [or_iff_left fun h => h.1 (h.2.2 ▸ hold), ih hold, idxOf_lt_concat hold]
    · have hnot : ¬ Before ((es.foldl addMention []).map (·.place)) i j :=
        fun h => hold (place_mem_foldl_iff.mp h.right_mem)
      obtain rfl : j = e.place :=
        List.mem_singleton.mp ((List.mem_append.mp hj).resolve_left hold)
      rw [or_iff_right hnot, and_iff_right hold, and_iff_left rfl, idxOf_lt_last hold]

theorem before_instancesOf_iff : Before (instancesOf rs) i j ↔ MentionedBefore rs i j := by
  constructor
  · intro h
    have hj := place_mem_foldl_iff.mp h.right_mem
    exact ⟨mem_instancesOf.mp h.right_mem, (before_foldl_addMention_iff (mentions rs) hj).mp h⟩
  · rintro ⟨hj, hlt⟩
    have hj' := place_mem_foldl_iff.mp (mem_instancesOf.mpr hj)
    exact (before_foldl_addMention_iff (mentions rs) hj').mpr hlt

/-! ## Listed components -/

/-- The heads are what is mentioned first of each component. -/
theorem ComponentHeads.mem_iff_first {heads : List InstanceId} (h : ComponentHeads rs heads) :
    i ∈ heads ↔ FirstOfComponent rs (MentionedBefore rs) i := by
  rw [h.mem_iff]
  simp only [before_instancesOf_iff]
  rfl

namespace ListsComponents

theorem exists_component (h : ListsComponents rs cs order) (hi : i ∈ order) :
    ∃ c ∈ cs, i ∈ c.instances := by
  rw [h.order] at hi
  obtain ⟨c, hc, hi⟩ := List.mem_flatMap.mp hi
  exact ⟨c, List.mem_reverse.mp hc, hi⟩

theorem connected (h : ListsComponents rs cs order) (hc : c ∈ cs) (hi : i ∈ c.instances)
    (hj : j ∈ c.instances) : ReflTransGen (Related rs) i j :=
  (relatedTrans_symm ((h.mem_iff c hc i).mp hi)).trans ((h.mem_iff c hc j).mp hj)

theorem mem_of_connected (h : ListsComponents rs cs order) (hc : c ∈ cs) (hi : i ∈ c.instances)
    (hij : ReflTransGen (Related rs) i j) : j ∈ c.instances :=
  (h.mem_iff c hc j).mpr (((h.mem_iff c hc i).mp hi).trans hij)

theorem sublist_order (h : ListsComponents rs cs order) (hc : c ∈ cs) :
    c.instances.Sublist order := by
  rw [h.order, List.flatMap_def]
  exact List.sublist_flatten_of_mem (List.mem_map_of_mem (List.mem_reverse.mpr hc))

/-- Components stand against the order in which they are listed. -/
theorem before_of_before (h : ListsComponents rs cs order) (hcd : Before cs c d)
    (hi : i ∈ c.instances) (hj : j ∈ d.instances) : Before order j i := by
  rw [h.order]
  exact before_flatMap (before_reverse.mpr hcd) hj hi

/-- An instance is the head of its component or was joined to one in front of it. -/
theorem head_or_joined (h : ListsComponents rs cs order) (hj : j ∈ order) :
    j ∈ cs.map Component.head ∨ ∃ i, Related rs i j ∧ Before order i j := by
  obtain ⟨c, hc, hjc⟩ := h.exists_component hj
  rcases List.mem_cons.mp hjc with rfl | hother
  · exact .inl (List.mem_map_of_mem hc)
  · obtain ⟨i, hi, hij⟩ := h.joined c hc j hother
    exact .inr ⟨i, hi, hij.mono (h.sublist_order hc)⟩

section Whole
variable (h : ListsComponents rs cs order) (hn : order.Nodup)
    (hm : ∀ i, i ∈ order ↔ Mentions rs i)
include h hn

/-- What stands between two instances of a component belongs to it: another component stands as a
whole in front of it or behind. -/
theorem contiguous {k : InstanceId} (hij : Before order i j) (hjk : Before order j k)
    (hik : ReflTransGen (Related rs) i k) : ReflTransGen (Related rs) i j := by
  obtain ⟨c, hc, hi⟩ := h.exists_component hij.left_mem
  obtain ⟨d, hd, hj⟩ := h.exists_component hjk.left_mem
  have hk := h.mem_of_connected hc hi hik
  by_cases hcd : c = d
  · exact h.connected hc hi (hcd ▸ hj)
  · rcases before_or_before hc hd hcd with hbefore | hbefore
    · exact absurd hij ((h.before_of_before hbefore hi hj).asymm hn)
    · exact absurd hjk ((h.before_of_before hbefore hj hk).asymm hn)

include hm

/-- A component begins with its head. -/
theorem mem_heads_iff : i ∈ cs.map Component.head ↔ FirstOfComponent rs (Before order) i := by
  constructor
  · intro hi
    have hmentions := (h.heads.mem_iff.mp hi).1
    obtain ⟨c, hc, rfl⟩ := List.mem_map.mp hi
    refine ⟨hmentions, fun j hji hconn => ?_⟩
    have hj := (h.mem_iff c hc j).mpr (relatedTrans_symm hconn)
    rcases List.mem_cons.mp hj with rfl | hj
    · exact hji.asymm hn hji
    · have hij : Before c.instances c.head j := before_middle (l := []) hj
      exact hji.asymm hn (hij.mono (h.sublist_order hc))
  · rintro ⟨hi, hfirst⟩
    refine (h.head_or_joined ((hm i).mpr hi)).resolve_right ?_
    rintro ⟨k, hk, hki⟩
    exact hfirst k hki (.single hk)

theorem groupsComponents : GroupsComponents rs order where
  once := hn
  mem_iff := hm
  contiguous _ _ _ := h.contiguous hn
  begins i := (h.mem_heads_iff hn hm).symm.trans h.heads.mem_iff_first
  against i j hi hj hij k l hik hjl := by
    obtain ⟨c, hc, rfl⟩ := List.mem_map.mp (h.heads.mem_iff_first.mpr hi)
    obtain ⟨d, hd, rfl⟩ := List.mem_map.mp (h.heads.mem_iff_first.mpr hj)
    have hheads := before_instancesOf_iff.mpr hij
    have hmention := nodup_instancesOf rs
    -- components are listed as their heads are mentioned
    have hcd : Before cs c d := by
      refine (before_or_before hc hd ?_).resolve_right fun hdc => ?_
      · rintro rfl
        exact hheads.asymm hmention hheads
      · exact hheads.asymm hmention ((hdc.map Component.head).mono h.heads.sublist)
    exact h.before_of_before hcd ((h.mem_iff c hc k).mpr hik) ((h.mem_iff d hd l).mpr hjl)
  joined j hj hfirst := (h.head_or_joined hj).resolve_left fun hhead =>
    hfirst ((h.mem_heads_iff hn hm).mp hhead)

end Whole

end ListsComponents

/-- **The walk both ways groups components.** Of every graph, connected or not, the join order both
ways lists the mentioned instances once each and those of a component next to each other. Each
component begins with the instance that is mentioned first, the components stand against the order
of their first mentions, and every other instance is related to one in front of it. -/
theorem joinOrder?_groups (g : Graph) : ∃ order,
    joinOrder? .bothWays g.instances g.relationships = some order ∧
    GroupsComponents g.relationships order := by
  obtain ⟨cs, order, ho, h⟩ := exists_listsComponents g.relationships
  have hordered := orderedBy_of_joinOrder? ho
  exact ⟨order, ho, h.groupsComponents hordered.nodup fun _ => hordered.mem_iff⟩

/-- The instances 3 and 4 are mentioned after 0, but before 1, which hangs together with 0. -/
example :
    let g := Graph.empty.after [.add ⟨2, 2, 4⟩ ⟨0, 0, 0⟩ .inner, .add ⟨3, 1, 1⟩ ⟨4, 2, 3⟩ .left,
      .add ⟨2, 2, 4⟩ ⟨1, 0, 0⟩ .inner]
    joinOrder? .bothWays g.instances g.relationships = some [3, 4, 0, 2, 1] := by decide

end VisualQuery
