import VisualQuery.Join.Edit

/-! # What an edit leaves of a graph

The graph behind an edit and the answer to it, one equation for each kind of edit; behind a refused
edit the equation gives back the graph, since what is not there cannot be taken away. None of
them touches the sides of a relationship that stays, so only drawing has to be looked at where a
property of sides is to hold behind every run of edits (`oriented_after`). -/

namespace VisualQuery.Graph

variable {g : Graph} {rs : List Relationship} {id : RelationshipId}

theorem find?_id_eq_none (h : rs.find? (·.id = id) = none) : ∀ r ∈ rs, r.id ≠ id := by
  simpa using h

theorem alter_of_absent {change : Relationship → Relationship} (h : ∀ r ∈ rs, r.id ≠ id) :
    alter change id rs = rs := by
  induction rs with
  | nil => rfl
  | cons r rest ih =>
    unfold alter
    rw [if_neg (h r (by simp)), ih fun q hq => h q (List.mem_cons_of_mem _ hq)]

theorem alter_congr {change change' : Relationship → Relationship} {q : Relationship}
    (hq : rs.find? (·.id = id) = some q) (h : change q = change' q) :
    alter change id rs = alter change' id rs := by
  induction rs with
  | nil => rfl
  | cons r rest ih =>
    unfold alter
    by_cases hr : r.id = id
    · rw [List.find?_cons_of_pos (by simpa using hr)] at hq
      rw [if_pos hr, if_pos hr, Option.some.inj hq, h]
    · rw [List.find?_cons_of_neg (by simpa using hr)] at hq
      rw [if_neg hr, if_neg hr, ih hq]

theorem mem_alter {change : Relationship → Relationship} {r : Relationship}
    (h : r ∈ alter change id rs) : r ∈ rs ∨ ∃ q ∈ rs, r = change q := by
  induction rs with
  | nil => cases h
  | cons q rest ih =>
    unfold alter at h
    split at h
    · rcases List.mem_cons.mp h with rfl | h
      · exact .inr ⟨q, by simp, rfl⟩
      · exact .inl (List.mem_cons_of_mem _ h)
    · rcases List.mem_cons.mp h with rfl | h
      · exact .inl (by simp)
      · rcases ih h with h | ⟨p, hp, he⟩
        · exact .inl (List.mem_cons_of_mem _ h)
        · exact .inr ⟨p, List.mem_cons_of_mem _ hp, he⟩

/-! ## The graph behind an edit -/

theorem next_add_same {a b : Endpoint} (h : a.place = b.place) (kind : JoinKind) :
    g.next (.add a b kind) = g := by
  simp [next, edit, add, h]

theorem next_add {a b : Endpoint} (h : a.place ≠ b.place) (kind : JoinKind) :
    g.next (.add a b kind) =
      ⟨g.relationships ++ [if b.place < a.place then ⟨g.nextId, b, a, kind⟩
        else ⟨g.nextId, a, b, kind⟩], g.nextId + 1⟩ := by
  by_cases hlt : b.place < a.place <;>
    simp [next, edit, add, h, hlt]

/-- Adding writes one relationship behind the others, from the smaller instance to the larger. -/
theorem exists_of_add {g' : Graph} {a b : Endpoint} {kind : JoinKind}
    (h : g.add a b kind = (.ok id, g')) :
    ∃ r, g' = ⟨g.relationships ++ [r], g.nextId + 1⟩ ∧ r.id = g.nextId ∧ r.kind = kind ∧
      r.a.place < r.b.place ∧ (r.a = a ∧ r.b = b ∨ r.a = b ∧ r.b = a) := by
  unfold add at h
  split at h
  · cases h
  · next hne =>
    by_cases hlt : b.place < a.place
    · rw [if_pos hlt] at h
      cases h
      exact ⟨⟨_, b, a, _⟩, rfl, rfl, rfl, hlt, .inr ⟨rfl, rfl⟩⟩
    · rw [if_neg hlt] at h
      cases h
      have hlt' := Nat.lt_of_le_of_ne (Nat.le_of_not_lt hlt) hne
      exact ⟨⟨_, a, b, _⟩, rfl, rfl, rfl, hlt', .inl ⟨rfl, rfl⟩⟩

theorem next_removeTouching (g : Graph) (e : Endpoint) :
    g.next (.removeTouching e) = g.removeTouching e := rfl

theorem next_remove (g : Graph) (id : RelationshipId) :
    g.next (.remove id) = { g with relationships := g.relationships.eraseP (·.id = id) } := by
  cases hf : g.relationships.find? (·.id = id) with
  | none =>
    rw [List.eraseP_of_forall_not (by simpa using find?_id_eq_none hf)]
    simp [next, edit, remove, get, get?, hf]
  | some r => simp [next, edit, remove, get, get?, hf]

theorem next_setKind (g : Graph) (id : RelationshipId) (kind : JoinKind) :
    g.next (.setKind id kind) =
      { g with relationships := alter (fun r => { r with kind := kind }) id g.relationships } := by
  cases hf : g.relationships.find? (·.id = id) with
  | none =>
    rw [alter_of_absent (find?_id_eq_none hf)]
    simp [next, edit, setKind, get, get?, hf]
  | some r => simp [next, edit, setKind, get, get?, hf]

theorem next_cycleKind (g : Graph) (id : RelationshipId) :
    g.next (.cycleKind id) = { g with
      relationships := alter (fun r => { r with kind := r.kind.cycle }) id g.relationships } := by
  cases hf : g.relationships.find? (·.id = id) with
  | none =>
    rw [alter_of_absent (find?_id_eq_none hf)]
    simp [next, edit, cycleKind, get, get?, hf]
  | some r =>
    have hset : alter (fun q => { q with kind := q.kind.cycle }) id g.relationships =
        alter (fun q => { q with kind := r.kind.cycle }) id g.relationships := alter_congr hf rfl
    rw [hset]
    simp [next, edit, cycleKind, setKind, get, get?, hf]

theorem after_append (g : Graph) (edits more : List GraphEdit) :
    g.after (edits ++ more) = (g.after edits).after more := List.foldl_append

/-! ## The answer to an edit -/

theorem answer_add_same {a b : Endpoint} (h : a.place = b.place) (kind : JoinKind) :
    g.answer (.add a b kind) = .error (.sameInstance a.place) := by
  simp [answer, edit, add, h, Except.map]

theorem answer_add {a b : Endpoint} (h : a.place ≠ b.place) (kind : JoinKind) :
    g.answer (.add a b kind) = .ok (.added g.nextId) := by
  simp [answer, edit, add, h, Except.map]

theorem answer_remove (g : Graph) (id : RelationshipId) :
    g.answer (.remove id) = (g.get id).map .removed := by
  cases h : g.get id <;> simp [answer, edit, remove, h, Except.map]

theorem answer_cycleKind (g : Graph) (id : RelationshipId) :
    g.answer (.cycleKind id) = (g.get id).map fun r => .cycled r.kind.cycle := by
  cases h : g.get id <;> simp [answer, edit, cycleKind, h, Except.map]

theorem answer_setKind (g : Graph) (id : RelationshipId) (kind : JoinKind) :
    g.answer (.setKind id kind) = (g.get id).map fun _ => .done := by
  cases h : g.get id <;> simp [answer, edit, setKind, h, Except.map]

theorem map_eq_error_iff {ε α β : Type} {f : α → β} {x : Except ε α} {e : ε} :
    x.map f = .error e ↔ x = .error e := by
  cases x <;> simp [Except.map]

/-! ## Sides -/

/-- Behind any edit but a drawing every relationship has the sides of one that was there. -/
theorem sides_next {e : GraphEdit} (he : ∀ a b kind, e ≠ .add a b kind) {r : Relationship}
    (h : r ∈ (g.next e).relationships) : ∃ q ∈ g.relationships, r.a = q.a ∧ r.b = q.b := by
  cases e with
  | add a b kind => exact absurd rfl (he a b kind)
  | removeTouching e => exact ⟨r, (List.mem_filter.mp h).1, rfl, rfl⟩
  | remove id =>
    rw [next_remove] at h
    exact ⟨r, List.mem_of_mem_eraseP h, rfl, rfl⟩
  | cycleKind id =>
    rw [next_cycleKind] at h
    rcases mem_alter h with h | ⟨q, hq, rfl⟩
    · exact ⟨r, h, rfl, rfl⟩
    · exact ⟨q, hq, rfl, rfl⟩
  | setKind id kind =>
    rw [next_setKind] at h
    rcases mem_alter h with h | ⟨q, hq, rfl⟩
    · exact ⟨r, h, rfl, rfl⟩
    · exact ⟨q, hq, rfl, rfl⟩

/-- A drawn relationship has the drawn endpoints, the one of the earlier instance on side `a`. -/
theorem sides_next_add {a b : Endpoint} {kind : JoinKind} {r : Relationship}
    (h : r ∈ (g.next (.add a b kind)).relationships) :
    r ∈ g.relationships ∨ (r.a.place < r.b.place ∧ (r.a = a ∧ r.b = b ∨ r.a = b ∧ r.b = a)) := by
  by_cases hab : a.place = b.place
  · rw [next_add_same hab] at h
    exact .inl h
  · rw [next_add hab] at h
    refine (List.mem_append.mp h).imp_right fun h => ?_
    rw [List.mem_singleton] at h
    split at h
    · next hlt =>
      subst h
      exact ⟨hlt, .inr ⟨rfl, rfl⟩⟩
    · next hle =>
      subst h
      exact ⟨Nat.lt_of_le_of_ne (Nat.le_of_not_lt hle) hab, .inl ⟨rfl, rfl⟩⟩

/-- **Sides are ordered** in every graph that edits lead to. -/
theorem oriented_after (edits : List GraphEdit) :
    ∀ r ∈ (empty.after edits).relationships, r.a.place < r.b.place := by
  refine List.foldlRecOn (motive := fun g : Graph => ∀ r ∈ g.relationships, r.a.place < r.b.place)
    edits next (fun r hr => by cases hr) fun g hg e _ r hr => ?_
  cases e with
  | add a b kind =>
    rcases sides_next_add hr with hr | hr
    · exact hg r hr
    · exact hr.1
  | removeTouching | remove | cycleKind | setKind =>
    obtain ⟨q, hq, ha, hb⟩ := sides_next (by simp) hr
    rw [ha, hb]
    exact hg q hq

end VisualQuery.Graph
