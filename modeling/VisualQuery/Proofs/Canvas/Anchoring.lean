import Mathlib.Data.List.Nodup
import VisualQuery.Proofs.Canvas.Editing
import VisualQuery.Proofs.Catalog.Ownership

/-! # Relationships stay with placements

As long as nothing is drawn past the placements, every endpoint stands on a placement, with the
table that was placed and a column of it (`Anchored`). Removing a placement clears only the
endpoints at its own table and columns; by the invariant these are all that lie on the instance.
Numbers are given out in increasing order, so a removed instance never comes back, and nothing is
ever drawn to it again (`anchored_after`). -/

namespace VisualQuery

/-- An edit that draws nothing past the placements. -/
def CanvasEdit.Checked (e : CanvasEdit) : Prop := ∀ a b kind, e ≠ .graph (.add a b kind)

namespace Canvas

/-- Placements with increasing numbers, and endpoints that stand on them. -/
structure Anchored (c : Canvas) : Prop where
  increasing : c.placements.Pairwise (·.place < ·.place)
  below : ∀ p ∈ c.placements, p.place < c.nextInstance
  sides : ∀ r ∈ c.graph.relationships, c.Anchors r.a ∧ c.Anchors r.b

/-- An instance whose number was given out and that is no longer placed. -/
structure Retired (c : Canvas) (i : InstanceId) : Prop where
  given : i < c.nextInstance
  gone : ∀ p ∈ c.placements, p.place ≠ i

def issuedBy (c : Canvas) (e : CanvasEdit) : List InstanceId :=
  match c.answer e with
  | some (.ok (.placed i)) => [i]
  | _ => []

def issued : Canvas → List CanvasEdit → List InstanceId
  | _, [] => []
  | c, e :: rest => c.issuedBy e ++ issued (c.next e) rest

variable {c c' : Canvas} {catalog : Catalog} {i : InstanceId} {p q : Placement} {e : CanvasEdit}

theorem anchored_blank (catalog : Catalog) : Anchored (blank catalog) where
  increasing := List.Pairwise.nil
  below p hp := by cases hp
  sides r hr := by cases hr

/-! ## What an edit keeps -/

theorem nodup_places {l : List Placement} (hl : l.Pairwise (·.place < ·.place)) :
    (l.map (·.place)).Nodup :=
  List.pairwise_map.mpr (hl.imp fun hlt => Nat.ne_of_lt hlt)

theorem eq_of_place {l : List Placement} (hl : l.Pairwise (·.place < ·.place)) (hp : p ∈ l)
    (hq : q ∈ l) (he : p.place = q.place) : p = q :=
  List.inj_on_of_nodup_map (nodup_places hl) hp hq he

/-- What is left on the instance of a placement would touch one of its endpoints. -/
theorem Anchored.touches_endpointsOf (h : Anchored c) (hp : p ∈ c.placements) {x : Endpoint}
    (hx : c.Anchors x) (he : x.place = p.place) : x ∈ c.endpointsOf p := by
  have hpx := eq_of_place h.increasing hx.1 hp he
  subst hpx
  exact List.mem_map.mpr ⟨x.column, Catalog.mem_columnsIn_iff.mpr hx.2, rfl⟩

theorem mem_without {r : Relationship} (h : r ∈ (c.without p).graph.relationships) :
    r ∈ c.graph.relationships ∧ r.a ∉ c.endpointsOf p ∧ r.b ∉ c.endpointsOf p := by
  obtain ⟨hr, ht⟩ := List.mem_filter.mp h
  rw [Bool.not_eq_true', ← Bool.not_eq_true, Relationship.any_touches_iff, not_or] at ht
  exact ⟨hr, ht⟩

theorem Anchored.without (h : Anchored c) (hp : p ∈ c.placements) : Anchored (c.without p) where
  increasing := h.increasing.sublist (List.eraseP_sublist ..)
  below q hq := h.below q (List.mem_of_mem_eraseP hq)
  sides r hr := by
    obtain ⟨hr, ha, hb⟩ := mem_without hr
    -- an endpoint that stays is on no column of `p`, so by the invariant it is not on `p` at all
    have hkeep : ∀ x : Endpoint, c.Anchors x → x ∉ c.endpointsOf p → (c.without p).Anchors x := by
      intro x hx hout
      have hne : x.place ≠ p.place := fun he => hout (h.touches_endpointsOf hp hx he)
      exact ⟨(List.mem_eraseP_of_neg (by simpa using hne)).mpr hx.1, hx.2⟩
    exact ⟨hkeep _ (h.sides r hr).1 ha, hkeep _ (h.sides r hr).2 hb⟩

/-- **Checked edits keep endpoints anchored.** -/
theorem Anchored.moves (h : Anchored c) (he : e.Checked) (hm : Moves c e c') : Anchored c' := by
  cases hm with
  | kept => exact h
  | placed table =>
    refine ⟨?_, fun p hp => ?_, fun r hr => ?_⟩
    · refine List.pairwise_append.mpr ⟨h.increasing, List.pairwise_singleton _ _, fun p hp q hq => ?_⟩
      rw [List.mem_singleton.mp hq]
      exact h.below p hp
    · rcases List.mem_append.mp hp with hp | hp
      · exact Nat.lt_succ_of_lt (h.below p hp)
      · rw [List.mem_singleton.mp hp]
        exact Nat.lt_succ_self _
    · obtain ⟨⟨ha, hac⟩, hb, hbc⟩ := h.sides r hr
      exact ⟨⟨List.mem_append_left _ ha, hac⟩, List.mem_append_left _ hb, hbc⟩
  | removed hp => exact h.without (mem_of_placement hp).1
  | connected kind ha hb =>
    have hx := anchors_of_endpoint ha
    have hy := anchors_of_endpoint hb
    refine ⟨h.increasing, h.below, fun r hr => ?_⟩
    rcases Graph.sides_next_add hr with hr | ⟨_, ⟨hra, hrb⟩ | ⟨hra, hrb⟩⟩
    · exact h.sides r hr
    · rw [hra, hrb]
      exact ⟨hx, hy⟩
    · rw [hra, hrb]
      exact ⟨hy, hx⟩
  | edited e =>
    refine ⟨h.increasing, h.below, fun r hr => ?_⟩
    obtain ⟨q, hq, ha, hb⟩ := Graph.sides_next (fun a b kind hadd => he a b kind (by rw [hadd])) hr
    rw [ha, hb]
    exact h.sides q hq

theorem place_ne_of_mem_eraseP {l : List Placement} (hl : l.Pairwise (·.place < ·.place)) :
    ∀ p ∈ l.eraseP (·.place = i), p.place ≠ i := by
  induction hl with
  | nil => exact fun p hp => by cases hp
  | @cons q rest hlt _ ih =>
    intro p hp
    by_cases hq : q.place = i
    · rw [List.eraseP_cons_of_pos (by simpa using hq)] at hp
      rw [← hq]
      exact Nat.ne_of_gt (hlt p hp)
    · rw [List.eraseP_cons_of_neg (by simpa using hq)] at hp
      rcases List.mem_cons.mp hp with rfl | hp
      · exact hq
      · exact ih p hp

theorem Anchored.retired_without (h : Anchored c) (hp : p ∈ c.placements) :
    Retired (c.without p) p.place :=
  ⟨h.below p hp, place_ne_of_mem_eraseP h.increasing⟩

theorem Retired.moves (h : Retired c i) (hm : Moves c e c') : Retired c' i := by
  cases hm with
  | kept => exact h
  | placed table =>
    refine ⟨Nat.lt_succ_of_lt h.given, fun p hp => ?_⟩
    rcases List.mem_append.mp hp with hp | hp
    · exact h.gone p hp
    · rw [List.mem_singleton.mp hp]
      exact Nat.ne_of_gt h.given
  | removed hp => exact ⟨h.given, fun p hp => h.gone p (List.mem_of_mem_eraseP hp)⟩
  | connected | edited => exact ⟨h.given, h.gone⟩

theorem Anchored.involves_eq_false (h : Anchored c) (hi : Retired c i) :
    ∀ r ∈ c.graph.relationships, r.involves i = false := by
  intro r hr
  obtain ⟨ha, hb⟩ := h.sides r hr
  have hane := hi.gone _ ha.1
  have hbne := hi.gone _ hb.1
  simp_all [Relationship.involves]

/-! ## Runs -/

theorem Moves.catalog_eq (hm : Moves c e c') : c'.catalog = c.catalog := by
  cases hm <;> rfl

theorem catalog_after (edits : List CanvasEdit) :
    ∀ c : Canvas, (c.after edits).catalog = c.catalog := by
  induction edits with
  | nil => exact fun _ => rfl
  | cons e rest ih => exact fun c => (ih (c.next e)).trans (moves_next c e).catalog_eq

theorem Anchored.after (edits : List CanvasEdit) : ∀ {c : Canvas}, Anchored c →
    (∀ e ∈ edits, e.Checked) → Anchored (c.after edits) := by
  induction edits with
  | nil => exact fun h _ => h
  | cons e rest ih =>
    intro c h he
    have hnext := h.moves (he e (by simp)) (moves_next c e)
    exact ih hnext fun x hx => he x (List.mem_cons_of_mem _ hx)

theorem Retired.after (edits : List CanvasEdit) : ∀ {c : Canvas}, Retired c i →
    Retired (c.after edits) i := by
  induction edits with
  | nil => exact fun h => h
  | cons e rest ih => exact fun h => ih (h.moves (moves_next _ e))

/-! ## Numbers -/

theorem issuedBy_of_ne_place (he : ∀ table, e ≠ .place table) : c.issuedBy e = [] := by
  unfold issuedBy answer
  cases e with
  | place table => exact absurd rfl (he table)
  | remove i =>
    simp only [edit]
    rcases (c.remove i).1 with _ | _ | _ <;> rfl
  | connect a b kind =>
    simp only [edit]
    rcases (c.connect a b kind).1 with _ | _ | _ <;> rfl
  | graph e =>
    simp only [edit]
    rcases c.graph.edit e with ⟨_ | _, _⟩ <;> rfl

theorem nextInstance_next (he : ∀ table, e ≠ .place table) :
    (c.next e).nextInstance = c.nextInstance := by
  have hm := moves_next c e
  generalize c.next e = c' at hm
  cases hm with
  | placed table => exact absurd rfl (he table)
  | kept | removed | connected | edited => rfl

theorem range_nextInstance (c : Canvas) (e : CanvasEdit) :
    List.range c.nextInstance ++ c.issuedBy e = List.range (c.next e).nextInstance := by
  by_cases he : ∃ table, e = .place table
  · obtain ⟨table, rfl⟩ := he
    exact List.range_succ.symm
  · have hne : ∀ table, e ≠ .place table := fun table h => he ⟨table, h⟩
    rw [issuedBy_of_ne_place hne, nextInstance_next hne, List.append_nil]

/-- Numbers are given out one after another. -/
theorem issued_eq (edits : List CanvasEdit) : ∀ c : Canvas,
    List.range c.nextInstance ++ c.issued edits = List.range (c.after edits).nextInstance := by
  induction edits with
  | nil => exact fun c => List.append_nil _
  | cons e rest ih =>
    intro c
    show _ = List.range ((c.next e).after rest).nextInstance
    rw [← ih, ← range_nextInstance, issued, List.append_assoc]

theorem issued_blank (catalog : Catalog) (edits : List CanvasEdit) :
    (blank catalog).issued edits = List.range ((blank catalog).after edits).nextInstance :=
  issued_eq edits (blank catalog)

theorem issued_increasing (catalog : Catalog) (edits : List CanvasEdit) :
    ((blank catalog).issued edits).Pairwise (· < ·) :=
  issued_blank catalog edits ▸ List.pairwise_lt_range

/-- A run that places no more than `InstanceId.limit` tables gives out no other number than those
that there are. -/
theorem issued_lt_limit {edits : List CanvasEdit}
    (h : ((blank catalog).issued edits).length ≤ InstanceId.limit) :
    ∀ i ∈ (blank catalog).issued edits, i < InstanceId.limit := by
  intro i hi
  rw [issued_blank] at h hi
  rw [List.length_range] at h
  exact Nat.lt_of_lt_of_le (List.mem_range.mp hi) h

theorem Moves.places_sublist (hm : Moves c e c') :
    (c'.placements.map (·.place)).Sublist (c.placements.map (·.place) ++ c.issuedBy e) := by
  cases hm with
  | placed table => simp [place, issuedBy, answer, edit]
  | removed hp => exact ((List.eraseP_sublist ..).map _).trans (List.sublist_append_left _ _)
  | kept | connected | edited => exact List.sublist_append_left _ _

theorem places_after (edits : List CanvasEdit) : ∀ c : Canvas,
    ((c.after edits).placements.map (·.place)).Sublist
      (c.placements.map (·.place) ++ c.issued edits) := by
  induction edits with
  | nil => exact fun c => List.sublist_append_left _ _
  | cons e rest ih =>
    intro c
    have hstep := (moves_next c e).places_sublist.append_right (issued (c.next e) rest)
    rw [List.append_assoc] at hstep
    exact (ih (c.next e)).trans hstep

theorem after_append (c : Canvas) (edits more : List CanvasEdit) :
    c.after (edits ++ more) = (c.after edits).after more := List.foldl_append

/-- An instance is gone behind a removal that was not refused, answered or not. -/
theorem Anchored.retired_next (h : Anchored c)
    (hr : ∀ cause, c.answer (.remove i) ≠ some (.error cause)) : Retired (c.next (.remove i)) i := by
  cases hp : c.placement i with
  | error cause => exact absurd (by simp [answer, edit, remove_of_unknown hp, Except.map]) (hr cause)
  | ok p =>
    obtain ⟨hmem, rfl⟩ := mem_of_placement hp
    rw [next_remove hp]
    exact h.retired_without hmem

/-- **Relationships stay with placements** behind every run of checked edits, over every catalog
that was read. Placements have increasing numbers out of those given out, none of which is given
out twice nor lies beyond the numbers that there are, if there are enough of them. Nothing is drawn
to an instance once it has been removed. -/
theorem anchored_after (edits : List CanvasEdit) (hc : catalog.Built)
    (he : ∀ e ∈ edits, e.Checked) :
    let c := (blank catalog).after edits
    (∀ r ∈ c.graph.relationships, ∀ x, x = r.a ∨ x = r.b →
      (⟨x.place, x.table⟩ : Placement) ∈ c.placements ∧ catalog.ListsColumn x.table x.column ∧
        ∃ column : Column, catalog.columns[x.column]? = some column ∧ column.table = x.table) ∧
    c.placements.Pairwise (·.place < ·.place) ∧
    ((blank catalog).issued edits).Pairwise (· < ·) ∧
    (((blank catalog).issued edits).length ≤ InstanceId.limit →
      ∀ i ∈ (blank catalog).issued edits, i < InstanceId.limit) ∧
    (c.placements.map (·.place)).Sublist ((blank catalog).issued edits) ∧
    ∀ before i rest, edits = before ++ .remove i :: rest →
      (∀ cause, ((blank catalog).after before).answer (.remove i) ≠ some (.error cause)) →
        i ∉ c.placements.map (·.place) ∧ ∀ r ∈ c.graph.relationships, r.involves i = false := by
  intro c
  have h : Anchored c := (anchored_blank catalog).after edits he
  have hcatalog : c.catalog = catalog := catalog_after edits (blank catalog)
  refine ⟨fun r hr x hx => ?_, h.increasing, issued_increasing catalog edits, issued_lt_limit,
    places_after edits (blank catalog), fun before i rest hrun hremoved => ?_⟩
  · have hanchor : c.Anchors x := by
      rcases hx with rfl | rfl
      · exact (h.sides r hr).1
      · exact (h.sides r hr).2
    obtain ⟨hplaced, hcolumn⟩ := hanchor
    rw [hcatalog] at hcolumn
    exact ⟨hplaced, hcolumn, hc.owned.listsColumn_iff.mp hcolumn⟩
  · have hbefore : Anchored ((blank catalog).after before) :=
      (anchored_blank catalog).after before fun e hm => he e (by simp [hrun, hm])
    have hretired : Retired c i := by
      show Retired ((blank catalog).after edits) i
      rw [hrun, after_append]
      exact (hbefore.retired_next hremoved).after rest
    refine ⟨fun hm => ?_, h.involves_eq_false hretired⟩
    obtain ⟨p, hp, hpi⟩ := List.mem_map.mp hm
    exact hretired.gone p hp hpi

/-- Customers are removed with what was drawn to them, and come back under another number. -/
def replaced : List CanvasEdit :=
  [.place 0, .place 2, .connect (0, "id") (1, "customer_id") .left, .remove 0, .place 0,
    .connect (1, "customer_id") (2, "id") .inner, .graph (.cycleKind 1)]

theorem anchored_after_replaced : Catalog.shop.Built ∧ (∀ e ∈ replaced, e.Checked) ∧
    0 ∉ ((blank Catalog.shop).after replaced).placements.map (·.place) ∧
    ∀ r ∈ ((blank Catalog.shop).after replaced).graph.relationships, r.involves 0 = false := by
  have he : ∀ e ∈ replaced, e.Checked := by simp [replaced, CanvasEdit.Checked]
  have hremoved := (anchored_after replaced Catalog.built_shop he).2.2.2.2.2
    [.place 0, .place 2, .connect (0, "id") (1, "customer_id") .left] 0 _ rfl
    fun cause h => by cases h
  exact ⟨Catalog.built_shop, he, hremoved⟩

end Canvas

end VisualQuery
