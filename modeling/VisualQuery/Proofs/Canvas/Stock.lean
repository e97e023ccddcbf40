import VisualQuery.Proofs.Canvas.Anchoring
import VisualQuery.Proofs.Catalog.Naming

/-! # Canvases that always answer

What is asked of a placement is asked of its table, by number. As long as only tables are placed
that the catalog has (`Stocked`), every look-up finds something and every edit is answered, be it
with a refusal (`Stocked.exists_answer`). -/

namespace VisualQuery.Canvas

/-- Every table that is placed is one of the catalog. -/
def Stocked (c : Canvas) : Prop := ∀ p ∈ c.placements, p.table < c.catalog.tables.size

variable {c c' : Canvas} {e : CanvasEdit}

theorem Stocked.moves (h : Stocked c) (hm : Moves c e c')
    (he : ∀ table, e = .place table → table < c.catalog.tables.size) : Stocked c' := by
  cases hm with
  | kept => exact h
  | placed table =>
    intro p hp
    rcases List.mem_append.mp hp with hp | hp
    · exact h p hp
    · rw [List.mem_singleton.mp hp]
      exact he table rfl
  | removed => exact fun p hp => h p (List.mem_of_mem_eraseP hp)
  | connected | edited => exact h

theorem Stocked.after (edits : List CanvasEdit) : ∀ {c : Canvas}, Stocked c →
    (∀ table, .place table ∈ edits → table < c.catalog.tables.size) → Stocked (c.after edits) := by
  induction edits with
  | nil => exact fun h _ => h
  | cons e rest ih =>
    intro c h he
    have hm := moves_next c e
    refine ih (h.moves hm fun table heq => he table (by simp [heq])) fun table hmem => ?_
    rw [hm.catalog_eq]
    exact he table (List.mem_cons_of_mem _ hmem)

theorem Stocked.exists_endpoint (h : Stocked c) (hc : c.catalog.Filed) (i : InstanceId)
    (column : String) : ∃ found, c.endpoint i column = some found := by
  unfold endpoint
  cases hp : c.placement i with
  | error cause => exact ⟨_, rfl⟩
  | ok p =>
    have htable := h p (mem_of_placement hp).1
    obtain ⟨name, hname⟩ := hc.exists_fullName? htable
    simp only [Catalog.findColumn?_of_table (Array.getElem?_eq_getElem htable), hname,
      Option.bind_eq_bind, Option.bind_some, Option.pure_def]
    split <;> exact ⟨_, rfl⟩

theorem Stocked.exists_sides (h : Stocked c) (hc : c.catalog.Filed) (a b : InstanceId × String) :
    ∃ found, c.sides a b = some found := by
  obtain ⟨x, hx⟩ := h.exists_endpoint hc a.1 a.2
  obtain ⟨y, hy⟩ := h.exists_endpoint hc b.1 b.2
  unfold sides
  rw [hx, hy]
  cases x with
  | error cause => exact ⟨_, rfl⟩
  | ok x => cases y <;> exact ⟨_, rfl⟩

/-- **Every edit is answered** where every table that is placed is one of the catalog. -/
theorem Stocked.exists_answer (h : Stocked c) (hc : c.catalog.Filed) (e : CanvasEdit) :
    ∃ answer, c.answer e = some answer := by
  unfold answer
  cases e with
  | place table => exact ⟨_, rfl⟩
  | remove i =>
    cases hp : c.placement i with
    | error cause => simp [edit, remove_of_unknown hp]
    | ok p => simp [edit, remove_of_placement hp, h p (mem_of_placement hp).1]
  | connect a b kind =>
    obtain ⟨found, hfound⟩ := h.exists_sides hc a b
    cases found with
    | error cause => simp [edit, connect, hfound]
    | ok ends =>
      simp only [edit, connect, hfound]
      rcases c.graph.add ends.1 ends.2 kind with ⟨_ | _, _⟩ <;> exact ⟨_, rfl⟩
  | graph e =>
    simp only [edit]
    rcases c.graph.edit e with ⟨_ | _, _⟩ <;> exact ⟨_, rfl⟩

end VisualQuery.Canvas
