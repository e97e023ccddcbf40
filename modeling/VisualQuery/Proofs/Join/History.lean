import Mathlib.Data.List.Nodup
import VisualQuery.Proofs.Join.Editing
import VisualQuery.Proofs.Traversal

/-! # What a graph remembers of its edits

One equation says what any edit does to a graph whose relationships stand in increasing order of
their numbers (`relationships_next`): it takes some away, changes the kind of some, and may draw
one at the end. Hence the order is kept, and a relationship behind a run is one that the run drew
and did not take away again (`mem_after_iff`). Sides stay as they were drawn, and the kind is what
the later edits made of it (`after_remembers`). -/

namespace VisualQuery

namespace GraphEdit

/-- The edits that take a relationship away, if it is there. -/
def Removes (e : GraphEdit) (r : Relationship) : Prop :=
  e = .remove r.id ∨ e = .removeTouching r.a ∨ e = .removeTouching r.b

instance (e : GraphEdit) (r : Relationship) : Decidable (e.Removes r) :=
  inferInstanceAs (Decidable (_ ∨ _ ∨ _))

/-- What an edit makes of the kind of relationship `id`. -/
def kindBehind (id : RelationshipId) (kind : JoinKind) : GraphEdit → JoinKind
  | .setKind i k => if i = id then k else kind
  | .cycleKind i => if i = id then kind.cycle else kind
  | .add _ _ _ | .removeTouching _ | .remove _ => kind

/-- What an edit draws when `id` is the next number. -/
def drawn (id : RelationshipId) : GraphEdit → List Relationship
  | .add a b kind =>
    if a.place = b.place then []
    else [if b.place < a.place then ⟨id, b, a, kind⟩ else ⟨id, a, b, kind⟩]
  | .removeTouching _ | .remove _ | .cycleKind _ | .setKind _ _ => []

end GraphEdit

/-- A relationship with the kind that it has behind some edits. -/
def Relationship.behind (r : Relationship) (edits : List GraphEdit) : Relationship :=
  { r with kind := edits.foldl (GraphEdit.kindBehind r.id) r.kind }

/-- `r` is what the edits leave of `q`. -/
def Remains (edits : List GraphEdit) (q r : Relationship) : Prop :=
  (∀ e ∈ edits, ¬ e.Removes q) ∧ r = q.behind edits

namespace Graph

/-- Relationships in increasing order of their numbers, all of which were given out. -/
structure Ordered (g : Graph) : Prop where
  increasing : g.relationships.Pairwise (·.id < ·.id)
  below : ∀ r ∈ g.relationships, r.id < g.nextId

def issuedBy (g : Graph) (e : GraphEdit) : List RelationshipId :=
  match g.answer e with
  | .ok (.added id) => [id]
  | _ => []

def issued : Graph → List GraphEdit → List RelationshipId
  | _, [] => []
  | g, e :: rest => g.issuedBy e ++ issued (g.next e) rest

/-- Somewhere in a run of edits `q` is drawn, and `later` are the edits behind that. -/
def Draws (edits : List GraphEdit) (q : Relationship) (later : List GraphEdit) : Prop :=
  ∃ before a b, edits = before ++ .add a b q.kind :: later ∧
    (empty.after before).answer (.add a b q.kind) = .ok (.added q.id) ∧
    q.a.place < q.b.place ∧ (q.a = a ∧ q.b = b ∨ q.a = b ∧ q.b = a)

/-- The edits that a graph refuses, and why. -/
inductive Refuses (g : Graph) : GraphEdit → GraphError → Prop where
  | sameInstance {a b : Endpoint} (kind : JoinKind) (h : a.place = b.place) :
    Refuses g (.add a b kind) (.sameInstance a.place)
  | remove {id : RelationshipId} (h : g.get? id = none) :
    Refuses g (.remove id) (.unknownRelationship id)
  | cycleKind {id : RelationshipId} (h : g.get? id = none) :
    Refuses g (.cycleKind id) (.unknownRelationship id)
  | setKind {id : RelationshipId} (kind : JoinKind) (h : g.get? id = none) :
    Refuses g (.setKind id kind) (.unknownRelationship id)

variable {g : Graph} {e : GraphEdit} {edits later : List GraphEdit} {q r : Relationship}
  {rs : List Relationship} {id : RelationshipId}

/-! ## One edit -/

/-- The first relationship of a number is the only one. -/
theorem eraseP_id (h : rs.Pairwise (·.id < ·.id)) (id : RelationshipId) :
    rs.eraseP (·.id = id) = rs.filter (·.id ≠ id) := by
  induction h with
  | nil => rfl
  | @cons r rest hlt _ ih =>
    by_cases hr : r.id = id
    · have hrest : ∀ q ∈ rest, q.id ≠ id := fun q hq => hr ▸ Nat.ne_of_gt (hlt q hq)
      rw [List.eraseP_cons_of_pos (by simpa using hr), List.filter_cons_of_neg (by simpa using hr)]
      exact (List.filter_eq_self.mpr fun q hq => by simpa using hrest q hq).symm
    · rw [List.eraseP_cons_of_neg (by simpa using hr),
        List.filter_cons_of_pos (by simpa using hr), ih]

theorem alter_eq_map (h : rs.Pairwise (·.id < ·.id)) (change : Relationship → Relationship)
    (id : RelationshipId) :
    alter change id rs = rs.map fun r => if r.id = id then change r else r := by
  induction h with
  | nil => rfl
  | @cons r rest hlt _ ih =>
    unfold alter
    by_cases hr : r.id = id
    · have hrest : ∀ q ∈ rest, q.id ≠ id := fun q hq => hr ▸ Nat.ne_of_gt (hlt q hq)
      rw [if_pos hr, List.map_cons, if_pos hr, ← ih, alter_of_absent hrest]
    · rw [if_neg hr, List.map_cons, if_neg hr, ih]

theorem alter_eq_behind (h : rs.Pairwise (·.id < ·.id)) {change : Relationship → Relationship}
    (hkeeps : ∀ r, ¬ e.Removes r)
    (hchange : ∀ r, r.behind [e] = if r.id = id then change r else r) :
    alter change id rs = (rs.filter fun r => ¬ e.Removes r).map (·.behind [e]) := by
  have hall : (rs.filter fun r => ¬ e.Removes r) = rs :=
    List.filter_eq_self.mpr fun r _ => by simpa using hkeeps r
  rw [alter_eq_map h, hall]
  exact List.map_congr_left fun r _ => (hchange r).symm

/-- **What an edit does**: it takes relationships away, changes kinds, and may draw one. -/
theorem relationships_next (h : g.Ordered) (e : GraphEdit) :
    (g.next e).relationships =
      (g.relationships.filter fun r => ¬ e.Removes r).map (·.behind [e]) ++ e.drawn g.nextId := by
  cases e with
  | add a b kind =>
    by_cases hab : a.place = b.place
    · simp [next_add_same hab, GraphEdit.Removes, Relationship.behind, GraphEdit.kindBehind,
        GraphEdit.drawn, hab]
    · simp [next_add hab, GraphEdit.Removes, Relationship.behind, GraphEdit.kindBehind,
        GraphEdit.drawn, hab]
  | removeTouching x =>
    simp [next_removeTouching, removeTouching, Relationship.touches, GraphEdit.Removes,
      Relationship.behind, GraphEdit.kindBehind, GraphEdit.drawn, eq_comm]
  | remove id =>
    rw [next_remove, eraseP_id h.increasing]
    simp [GraphEdit.Removes, Relationship.behind, GraphEdit.kindBehind, GraphEdit.drawn, eq_comm]
  | cycleKind id =>
    rw [next_cycleKind, GraphEdit.drawn, List.append_nil]
    refine alter_eq_behind h.increasing (fun r => by simp [GraphEdit.Removes]) fun r => ?_
    by_cases hr : id = r.id <;>
      simp [Relationship.behind, GraphEdit.kindBehind, hr, eq_comm (b := id)]
  | setKind id kind =>
    rw [next_setKind, GraphEdit.drawn, List.append_nil]
    refine alter_eq_behind h.increasing (fun r => by simp [GraphEdit.Removes]) fun r => ?_
    by_cases hr : id = r.id <;>
      simp [Relationship.behind, GraphEdit.kindBehind, hr, eq_comm (b := id)]

theorem nextId_next (g : Graph) (e : GraphEdit) :
    (g.next e).nextId = g.nextId + (e.drawn g.nextId).length := by
  cases e with
  | add a b kind =>
    by_cases hab : a.place = b.place
    · simp [next_add_same hab, GraphEdit.drawn, hab]
    · simp [next_add hab, GraphEdit.drawn, hab]
  | removeTouching x => rfl
  | remove id => rw [next_remove]; rfl
  | cycleKind id => rw [next_cycleKind]; rfl
  | setKind id kind => rw [next_setKind]; rfl

theorem drawn_cases (e : GraphEdit) (id : RelationshipId) :
    e.drawn id = [] ∨ ∃ r, e.drawn id = [r] ∧ r.id = id := by
  cases e with
  | add a b kind =>
    by_cases hab : a.place = b.place
    · simp [GraphEdit.drawn, hab]
    · refine .inr ⟨_, if_neg hab, ?_⟩
      split <;> rfl
  | removeTouching | remove | cycleKind | setKind => exact .inl rfl

theorem id_of_mem_drawn (h : r ∈ e.drawn id) : r.id = id := by
  rcases drawn_cases e id with he | ⟨q, he, hq⟩ <;> rw [he] at h
  · cases h
  · rw [List.mem_singleton.mp h, hq]

theorem eq_of_mem_drawn (hq : q ∈ e.drawn id) (hr : r ∈ e.drawn id) : q = r := by
  rcases drawn_cases e id with he | ⟨p, he, _⟩ <;> rw [he] at hq hr
  · cases hq
  · rw [List.mem_singleton.mp hq, List.mem_singleton.mp hr]

theorem mem_next_iff (h : g.Ordered) : r ∈ (g.next e).relationships ↔
    (∃ q ∈ g.relationships, ¬ e.Removes q ∧ q.behind [e] = r) ∨ r ∈ e.drawn g.nextId := by
  simp [relationships_next h, and_assoc]

theorem ordered_empty : Ordered empty := ⟨.nil, fun r hr => by cases hr⟩

theorem Ordered.next (h : g.Ordered) (e : GraphEdit) : (g.next e).Ordered := by
  have hkept : ∀ r ∈ (g.relationships.filter fun r => ¬ e.Removes r).map (·.behind [e]),
      r.id < g.nextId := by
    intro r hr
    obtain ⟨q, hq, rfl⟩ := List.mem_map.mp hr
    exact h.below q (List.mem_filter.mp hq).1
  constructor
  · rw [relationships_next h, List.pairwise_append]
    refine ⟨List.pairwise_map.mpr (h.increasing.filter _), ?_, fun r hr q hq => ?_⟩
    · rcases drawn_cases e g.nextId with he | ⟨q, he, _⟩ <;> simp [he]
    · rw [id_of_mem_drawn hq]
      exact hkept r hr
  · intro r hr
    rw [nextId_next]
    rw [relationships_next h, List.mem_append] at hr
    rcases hr with hr | hr
    · exact Nat.lt_add_right _ (hkept r hr)
    · rw [id_of_mem_drawn hr]
      exact Nat.lt_add_of_pos_right (List.length_pos_of_mem hr)

/-! ## Runs -/

theorem Ordered.after (edits : List GraphEdit) :
    ∀ {g : Graph}, g.Ordered → (g.after edits).Ordered := by
  induction edits with
  | nil => exact id
  | cons e rest ih => exact fun h => ih (h.next e)

theorem remains_nil : Remains [] q r ↔ r = q := by simp [Remains, Relationship.behind]

theorem remains_cons :
    Remains (e :: edits) q r ↔ ¬ e.Removes q ∧ Remains edits (q.behind [e]) r := by
  simp [Remains, Relationship.behind, GraphEdit.Removes, and_assoc]

/-- **What is behind a run** was there and remains, or was drawn on the way and remains. -/
theorem mem_after_iff (edits : List GraphEdit) : ∀ {g : Graph}, g.Ordered →
    (r ∈ (g.after edits).relationships ↔ (∃ q ∈ g.relationships, Remains edits q r) ∨
      ∃ before e later q, edits = before ++ e :: later ∧ q ∈ e.drawn (g.after before).nextId ∧
        Remains later q r) := by
  induction edits with
  | nil =>
    intro g _
    simp [remains_nil, after]
  | cons e rest ih =>
    intro g h
    show r ∈ ((g.next e).after rest).relationships ↔ _
    rw [ih (h.next e)]
    simp only [mem_next_iff h, remains_cons, List.cons_eq_append_iff]
    constructor
    · rintro (⟨q, ⟨p, hp, hk, rfl⟩ | hq, hr⟩ | ⟨before, x, later, q, hrest, hq, hr⟩)
      · exact .inl ⟨p, hp, hk, hr⟩
      · exact .inr ⟨[], e, rest, q, .inl ⟨rfl, rfl⟩, hq, hr⟩
      · exact .inr ⟨e :: before, x, later, q, .inr ⟨before, rfl, hrest⟩, hq, hr⟩
    · rintro (⟨q, hq, hk, hr⟩ | ⟨before, x, later, q, ⟨rfl, hx⟩ | ⟨before, rfl, hrest⟩, hq, hr⟩)
      · exact .inl ⟨_, .inl ⟨q, hq, hk, rfl⟩, hr⟩
      · cases hx
        exact .inl ⟨q, .inr hq, hr⟩
      · exact .inr ⟨before, x, later, q, hrest, hq, hr⟩

/-! ## Numbers -/

theorem issuedBy_eq (g : Graph) (e : GraphEdit) : g.issuedBy e = (e.drawn g.nextId).map (·.id) := by
  cases e with
  | add a b kind =>
    by_cases hab : a.place = b.place
    · simp [issuedBy, answer_add_same hab, GraphEdit.drawn, hab]
    · simp only [issuedBy, answer_add hab, GraphEdit.drawn, if_neg hab]
      split <;> rfl
  | removeTouching x => rfl
  | remove id =>
    rw [issuedBy, answer_remove]
    cases g.get id <;> rfl
  | cycleKind id =>
    rw [issuedBy, answer_cycleKind]
    cases g.get id <;> rfl
  | setKind id kind =>
    rw [issuedBy, answer_setKind]
    cases g.get id <;> rfl

/-- Numbers are given out one after another. -/
theorem issued_eq (edits : List GraphEdit) : ∀ g : Graph,
    List.range g.nextId ++ g.issued edits = List.range (g.after edits).nextId := by
  induction edits with
  | nil => simp [issued, after]
  | cons e rest ih =>
    intro g
    show _ = List.range ((g.next e).after rest).nextId
    rw [← ih, issued, issuedBy_eq, nextId_next]
    rcases drawn_cases e g.nextId with he | ⟨q, he, hq⟩
    · simp [he]
    · simp [he, hq, List.range_succ]

theorem nextId_le_after (edits : List GraphEdit) :
    ∀ g : Graph, g.nextId ≤ (g.after edits).nextId := by
  induction edits with
  | nil => exact fun g => Nat.le_refl _
  | cons e rest ih =>
    intro g
    exact Nat.le_trans (nextId_next g e ▸ Nat.le_add_right _ _) (ih (g.next e))

theorem answer_add_eq_ok_iff {a b : Endpoint} {kind : JoinKind} :
    g.answer (.add a b kind) = .ok (.added id) ↔ a.place ≠ b.place ∧ id = g.nextId := by
  by_cases hab : a.place = b.place
  · simp [answer_add_same hab, hab]
  · simp [answer_add hab, hab, eq_comm]

theorem draws_iff : Draws edits q later ↔
    ∃ before e, edits = before ++ e :: later ∧ q ∈ e.drawn (empty.after before).nextId := by
  constructor
  · rintro ⟨before, a, b, rfl, hanswer, hlt, hsides⟩
    obtain ⟨hab, hid⟩ := answer_add_eq_ok_iff.mp hanswer
    refine ⟨before, _, rfl, ?_⟩
    obtain ⟨id, x, y, kind⟩ := q
    simp only at hid hsides hlt
    subst hid
    simp only [GraphEdit.drawn, if_neg hab, List.mem_singleton]
    rcases hsides with ⟨rfl, rfl⟩ | ⟨rfl, rfl⟩
    · rw [if_neg (Nat.not_lt_of_gt hlt)]
    · rw [if_pos hlt]
  · rintro ⟨before, e, rfl, hq⟩
    cases e with
    | add a b kind =>
      by_cases hab : a.place = b.place
      · simp [GraphEdit.drawn, hab] at hq
      · simp only [GraphEdit.drawn, if_neg hab, List.mem_singleton] at hq
        subst hq
        refine ⟨before, a, b, ?_, answer_add_eq_ok_iff.mpr ⟨hab, ?_⟩, ?_⟩
        · split <;> rfl
        · split <;> rfl
        · split
          · exact ⟨by assumption, .inr ⟨rfl, rfl⟩⟩
          · exact ⟨Nat.lt_of_le_of_ne (Nat.le_of_not_lt ‹_›) hab, .inl ⟨rfl, rfl⟩⟩
    | removeTouching | remove | cycleKind | setKind => cases hq

theorem mem_issued_iff (edits : List GraphEdit) : ∀ g : Graph, id ∈ g.issued edits ↔
    ∃ before e later, edits = before ++ e :: later ∧
      ∃ q ∈ e.drawn (g.after before).nextId, q.id = id := by
  induction edits with
  | nil => simp [issued]
  | cons e rest ih =>
    intro g
    simp only [issued, issuedBy_eq, List.mem_append, List.mem_map, ih, List.cons_eq_append_iff]
    constructor
    · rintro (⟨q, hq, rfl⟩ | ⟨before, x, later, hrest, hx⟩)
      · exact ⟨[], e, rest, .inl ⟨rfl, rfl⟩, q, hq, rfl⟩
      · exact ⟨e :: before, x, later, .inr ⟨before, rfl, hrest⟩, hx⟩
    · rintro ⟨before, x, later, ⟨rfl, hx⟩ | ⟨before, rfl, hrest⟩, hq⟩
      · cases hx
        exact .inl hq
      · exact .inr ⟨before, x, later, hrest, hq⟩

theorem mem_issued_empty_iff :
    id ∈ empty.issued edits ↔ ∃ q later, Draws edits q later ∧ q.id = id := by
  simp only [mem_issued_iff, draws_iff]
  constructor
  · rintro ⟨before, e, later, he, q, hq, hid⟩
    exact ⟨q, later, ⟨before, e, he, hq⟩, hid⟩
  · rintro ⟨q, later, ⟨before, e, he, hq⟩, hid⟩
    exact ⟨before, e, later, he, q, hq, hid⟩

theorem id_lt_of_drawn {before more : List GraphEdit} {e' : GraphEdit} {q' : Relationship}
    (hq : q ∈ e.drawn (g.after before).nextId)
    (hq' : q' ∈ e'.drawn (g.after (before ++ e :: more)).nextId) : q.id < q'.id := by
  have hle := nextId_le_after more ((g.after before).next e)
  rw [nextId_next] at hle
  rw [id_of_mem_drawn hq, id_of_mem_drawn hq', after_append]
  exact Nat.lt_of_lt_of_le (Nat.lt_add_of_pos_right (List.length_pos_of_mem hq)) hle

/-- A number is given out at one edit only. -/
theorem Draws.unique {q' : Relationship} {later' : List GraphEdit} (h : Draws edits q later)
    (h' : Draws edits q' later') (hid : q.id = q'.id) : q = q' ∧ later = later' := by
  obtain ⟨before, e, rfl, hq⟩ := draws_iff.mp h
  obtain ⟨before', e', he, hq'⟩ := draws_iff.mp h'
  -- if one of the two drawings comes first, it has the smaller number
  rcases List.append_eq_append_iff.mp he with ⟨_ | ⟨x, more⟩, rfl, hm⟩ | ⟨_ | ⟨x, more⟩, rfl, hm⟩ <;>
    cases hm
  · rw [List.append_nil] at hq'
    exact ⟨eq_of_mem_drawn hq hq', rfl⟩
  · exact absurd hid (Nat.ne_of_lt (id_lt_of_drawn hq hq'))
  · rw [List.append_nil] at hq
    exact ⟨eq_of_mem_drawn hq hq', rfl⟩
  · exact absurd hid (Nat.ne_of_gt (id_lt_of_drawn hq' hq))

/-! ## Look-ups and refusals -/

theorem Ordered.get?_eq_some_iff (h : g.Ordered) :
    g.get? id = some r ↔ r ∈ g.relationships ∧ r.id = id := by
  constructor
  · intro hr
    exact ⟨List.mem_of_find?_eq_some hr, by simpa using List.find?_some hr⟩
  · rintro ⟨hr, rfl⟩
    obtain ⟨q, hq⟩ := Option.isSome_iff_exists.mp
      (List.find?_isSome.mpr ⟨r, hr, by simp⟩ : (g.get? r.id).isSome)
    have hid : q.id = r.id := by simpa using List.find?_some hq
    have hn : (g.relationships.map (·.id)).Nodup :=
      List.pairwise_map.mpr (h.increasing.imp fun hlt => Nat.ne_of_lt hlt)
    rw [get?, hq, List.inj_on_of_nodup_map hn (List.mem_of_find?_eq_some hq) hr hid]

theorem get_of_absent (h : g.get? id = none) : g.get id = .error (.unknownRelationship id) := by
  rw [get, h]

theorem get_eq_error_iff {cause : GraphError} :
    g.get id = .error cause ↔ g.get? id = none ∧ cause = .unknownRelationship id := by
  unfold get
  cases g.get? id <;> simp [eq_comm]

theorem answer_eq_error_iff {cause : GraphError} :
    g.answer e = .error cause ↔ g.Refuses e cause := by
  constructor
  · intro h
    cases e with
    | add a b kind =>
      by_cases hab : a.place = b.place
      · rw [answer_add_same hab] at h
        cases h
        exact .sameInstance kind hab
      · rw [answer_add hab] at h
        cases h
    | removeTouching x => cases h
    | remove id =>
      rw [answer_remove, map_eq_error_iff, get_eq_error_iff] at h
      exact h.2 ▸ .remove h.1
    | cycleKind id =>
      rw [answer_cycleKind, map_eq_error_iff, get_eq_error_iff] at h
      exact h.2 ▸ .cycleKind h.1
    | setKind id kind =>
      rw [answer_setKind, map_eq_error_iff, get_eq_error_iff] at h
      exact h.2 ▸ .setKind kind h.1
  · rintro (⟨kind, h⟩ | h | h | ⟨kind, h⟩)
    · exact answer_add_same h kind
    · rw [answer_remove, get_of_absent h]
      rfl
    · rw [answer_cycleKind, get_of_absent h]
      rfl
    · rw [answer_setKind, get_of_absent h]
      rfl

/-- Every operation looks before it writes. -/
theorem Refuses.next_eq {cause : GraphError} (h : g.Refuses e cause) : g.next e = g := by
  cases h with
  | sameInstance kind h => exact next_add_same h kind
  | remove h => simp [next, edit, Graph.remove, get_of_absent h]
  | cycleKind h => simp [next, edit, Graph.cycleKind, get_of_absent h]
  | setKind kind h => simp [next, edit, Graph.setKind, get_of_absent h]

/-- **A graph remembers its edits.** Relationships stand in increasing order of numbers below the
next one, with ordered sides. The numbers given out are 0, 1, 2 and so on, each at one edit. Under
a number stands what was drawn with it, unless a later edit took it away, with the sides that were
drawn and the kind that later edits gave it. A refused edit changes nothing. -/
theorem after_remembers (edits : List GraphEdit) :
    let g := empty.after edits
    g.Ordered ∧ (∀ r ∈ g.relationships, r.a.place < r.b.place) ∧
    empty.issued edits = List.range g.nextId ∧
    (∀ id, id ∈ empty.issued edits ↔
      ∃! p : Relationship × List GraphEdit, Draws edits p.1 p.2 ∧ p.1.id = id) ∧
    (∀ id r, g.get? id = some r ↔
      ∃ q later, Draws edits q later ∧ q.id = id ∧ Remains later q r) ∧
    ∀ e cause, (g.answer e = .error cause ↔ g.Refuses e cause) ∧
      (g.answer e = .error cause → g.next e = g) := by
  intro g
  have hg : g.Ordered := ordered_empty.after edits
  refine ⟨hg, oriented_after edits, issued_eq edits empty, fun id => ?_,
    fun id r => ?_, fun e cause => ⟨answer_eq_error_iff, fun h => ?_⟩⟩
  · rw [mem_issued_empty_iff]
    constructor
    · rintro ⟨q, later, hq, rfl⟩
      refine ⟨(q, later), ⟨hq, rfl⟩, fun ⟨q', later'⟩ ⟨hq', hid⟩ => ?_⟩
      obtain ⟨rfl, rfl⟩ := hq'.unique hq hid
      rfl
    · rintro ⟨⟨q, later⟩, ⟨hq, hid⟩, _⟩
      exact ⟨q, later, hq, hid⟩
  · have hid : ∀ {q later}, Remains later q r → r.id = q.id := fun h => h.2 ▸ rfl
    rw [hg.get?_eq_some_iff, mem_after_iff edits ordered_empty]
    simp only [draws_iff]
    constructor
    · rintro ⟨⟨q, hq, _⟩ | ⟨before, e, later, q, he, hq, hr⟩, rfl⟩
      · cases hq
      · exact ⟨q, later, ⟨before, e, he, hq⟩, (hid hr).symm, hr⟩
    · rintro ⟨q, later, ⟨before, e, he, hq⟩, rfl, hr⟩
      exact ⟨.inr ⟨before, e, later, q, he, hq, hr⟩, hid hr⟩
  · exact (answer_eq_error_iff.mp h).next_eq

/-- Two drawings with a refused one between them; the first is taken away and asked for again. -/
def rewired : List GraphEdit :=
  [.add ⟨1, 2, 4⟩ ⟨0, 0, 0⟩ .inner, .add ⟨1, 2, 4⟩ ⟨1, 2, 3⟩ .left, .add ⟨1, 2, 3⟩ ⟨2, 1, 1⟩ .left,
    .cycleKind 1, .removeTouching ⟨0, 0, 0⟩]

theorem after_remembers_rewired :
    (empty.after rewired).answer (.setKind 0 .left) = .error (.unknownRelationship 0) ∧
    (empty.after rewired).next (.setKind 0 .left) = empty.after rewired ∧
    ∃ q later, Draws rewired q later ∧ q.id = 1 ∧
      Remains later q ⟨1, ⟨1, 2, 3⟩, ⟨2, 1, 1⟩, .right⟩ := by
  obtain ⟨_, _, _, _, hget, hrefused⟩ := after_remembers rewired
  have h : (empty.after rewired).answer (.setKind 0 .left) = .error (.unknownRelationship 0) := rfl
  exact ⟨h, (hrefused _ _).2 h, (hget 1 _).mp rfl⟩

end Graph

end VisualQuery
