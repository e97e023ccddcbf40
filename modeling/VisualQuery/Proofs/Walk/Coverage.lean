import VisualQuery.Proofs.Traversal
import VisualQuery.Proofs.Walk.Roots

/-! # What a walk covers

A visit of a fresh node ends as soon as calls may be nested as deep as there are fresh nodes, and
how much deeper they may be nested changes nothing (`visit_mono`). It covers the nodes that paths
through fresh nodes lead to, and leaves everything else alone (`exists_visited`). A walk from all
nodes in turn covers all of them (`all_covers`). -/

namespace VisualQuery.Walk

/-- What a visit of `node` does to a state: it leaves `below` behind and then `node` itself. -/
structure Visited (next : Neighbours) (node : Nat) (s : State) (below : List Nat) (s' : State) :
    Prop where
  left : s'.left = s.left ++ (below ++ [node])
  once : (below ++ [node]).Nodup
  mem_iff : ∀ v, v ∈ below ++ [node] ↔ Reach next s.marks node v
  done : ∀ v ∈ below ++ [node], s'.marks[v]? = some .done
  others : ∀ v, v ∉ below ++ [node] → s'.marks[v]? = s.marks[v]?

variable {next : Neighbours} {s s' : State} {node : Nat}

theorem closed_iff : Closed next ↔ ∀ vs ∈ next, ∀ v ∈ vs, v < next.length := by
  constructor
  · intro hc vs hvs v hv
    obtain ⟨u, hu⟩ := List.mem_iff_getElem?.mp hvs
    exact hc u v ⟨vs, hu, hv⟩
  · rintro h u v ⟨vs, hvs, hv⟩
    exact h vs (List.mem_of_getElem? hvs) v hv

/-! ## Deeper nesting -/

theorem visitNew_succ {fuel : Nat}
    (hvisit : ∀ node s s', visit next fuel node s = some s' →
      visit next (fuel + 1) node s = some s') :
    ∀ s t s', visitNew next fuel s t = some s' → visitNew next (fuel + 1) s t = some s' := by
  intro s t s' h
  unfold visitNew at h ⊢
  obtain ⟨m, hm, h⟩ := Option.bind_eq_some_iff.mp h
  refine Option.bind_eq_some_iff.mpr ⟨m, hm, ?_⟩
  cases m with
  | unvisited => exact hvisit t s s' h
  | inProgress | done => exact h

/-- One more nested call changes no result. -/
theorem visit_succ_of_eq : ∀ (fuel node : Nat) (s s' : State),
    visit next fuel node s = some s' → visit next (fuel + 1) node s = some s'
  | 0, _, _, _, h => nomatch h
  | fuel + 1, node, s, s', h => by
    rw [visit_succ] at h ⊢
    obtain ⟨marks, hmarks, h⟩ := Option.bind_eq_some_iff.mp h
    obtain ⟨vs, hvs, h⟩ := Option.bind_eq_some_iff.mp h
    obtain ⟨t, ht, h⟩ := Option.bind_eq_some_iff.mp h
    -- only the loop over the neighbours calls further visits
    have hloop := foldlM_mono (visitNew_succ (visit_succ_of_eq fuel)) vs ht
    exact Option.bind_eq_some_iff.mpr ⟨marks, hmarks, Option.bind_eq_some_iff.mpr ⟨vs, hvs,
      Option.bind_eq_some_iff.mpr ⟨t, hloop, h⟩⟩⟩

theorem visit_mono {fuel more : Nat} (h : visit next fuel node s = some s') (hle : fuel ≤ more) :
    visit next more node s = some s' := by
  induction hle with
  | refl => exact h
  | step _ ih => exact visit_succ_of_eq _ node s s' ih

/-! ## One visit -/

theorem Explores.visited {below : List Nat} (hf : Fresh s.marks node)
    (h : Explores next [node] s (below ++ [node]) s') : Visited next node s below s' where
  left := h.left
  once := h.nodup
  mem_iff v := by
    rw [h.mem_iff v]
    constructor
    · rintro ⟨t, ht, _, hr⟩
      rwa [List.mem_singleton.mp ht] at hr
    · exact fun hr => ⟨node, List.mem_singleton.mpr rfl, hf, hr⟩
  done v hv := by rw [h.marks v, if_pos hv]
  others v hv := by rw [h.marks v, if_neg hv]

/-- **A visit of a fresh node ends** in one state, whatever room its calls have beyond the number
of fresh nodes, and covers what fresh paths lead to. -/
theorem exists_visited (hc : Closed next) (hs : s.marks.length = next.length)
    (hf : Fresh s.marks node) : ∃ below s',
      (∀ fuel, (freshNodes s.marks).card ≤ fuel → visit next fuel node s = some s') ∧
      Visited next node s below s' := by
  obtain ⟨below, s', hv, h⟩ := visit_explores hc _ s node hs hf (Nat.le_refl _)
  exact ⟨below, s', fun fuel hle => visit_mono hv hle, h.visited hf⟩

example : visit [[1, 2], [0, 3], [1, 4], [0], []] 3 0
    ⟨[.unvisited, .unvisited, .unvisited, .inProgress, .done], [4]⟩ =
    some ⟨[.done, .done, .done, .inProgress, .done], [4, 1, 2, 0]⟩ := by decide

/-! ## The whole walk -/

/-- **A walk from all nodes** leaves every one behind, once, and done. -/
theorem all_covers (hc : Closed next) : ∃ s, all next = some s ∧
    s.marks = List.replicate next.length .done ∧ s.left.Perm (List.range next.length) := by
  obtain ⟨blocks, s, hall, h, hleft⟩ := all_byRoots hc
  have hexplores := hleft ▸ h.explores
  have hmem := mem_left_iff hexplores
  refine ⟨s, hall, List.ext_getElem? fun v => ?_, perm_range hexplores⟩
  rw [hexplores.marks v, List.getElem?_replicate]
  by_cases hv : v < next.length
  · rw [if_pos ((hmem v).mpr hv), if_pos hv]
  · rw [if_neg (mt (hmem v).mp hv), if_neg hv]
    simp [State.start, hv]

end VisualQuery.Walk
