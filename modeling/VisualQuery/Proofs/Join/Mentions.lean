import Mathlib.Logic.Relation
import VisualQuery.Join.Graph

/-! # Mentioned and related instances

The instances that relationships mention, what it is for two of them to be related, and for all
of them to hang together. The list of first mentions holds each mentioned instance once, under
one of its own endpoints, and begins with side `a` of the first relationship. -/

namespace VisualQuery
open Relation

def Mentions (rs : List Relationship) (i : InstanceId) : Prop :=
  ∃ r ∈ rs, r.a.place = i ∨ r.b.place = i

/-- Some relationship has one side on `i` and the other on `j`. -/
def Related (rs : List Relationship) (i j : InstanceId) : Prop :=
  ∃ r ∈ rs, (r.a.place = i ∧ r.b.place = j) ∨ (r.a.place = j ∧ r.b.place = i)

/-- Any two mentioned instances are related, directly or through others. -/
def Connected (rs : List Relationship) : Prop :=
  ∀ i j, Mentions rs i → Mentions rs j → ReflTransGen (Related rs) i j

variable {rs : List Relationship} {i j : InstanceId}

theorem Related.symm (h : Related rs i j) : Related rs j i := by
  obtain ⟨r, hr, h⟩ := h
  exact ⟨r, hr, h.symm⟩

instance : Std.Symm (Related rs) := ⟨fun _ _ => Related.symm⟩

theorem related_of_mem {r : Relationship} (hr : r ∈ rs) : Related rs r.a.place r.b.place :=
  ⟨r, hr, .inl ⟨rfl, rfl⟩⟩

theorem Related.mentions_right (h : Related rs i j) : Mentions rs j := by
  obtain ⟨r, hr, ⟨_, hj⟩ | ⟨hj, _⟩⟩ := h
  · exact ⟨r, hr, .inr hj⟩
  · exact ⟨r, hr, .inl hj⟩

theorem relatedTrans_symm (h : ReflTransGen (Related rs) i j) : ReflTransGen (Related rs) j i :=
  ReflTransGen.stdSymm.symm _ _ h

/-! ## First mentions -/

theorem mem_mentions {e : Endpoint} : e ∈ mentions rs ↔ ∃ r ∈ rs, e = r.a ∨ e = r.b := by
  simp [mentions, List.mem_flatMap]

theorem mentions_iff : Mentions rs i ↔ ∃ e ∈ mentions rs, e.place = i := by
  constructor
  · intro hx
    obtain ⟨r, hr, hi | hi⟩ := hx
    · exact ⟨r.a, mem_mentions.mpr ⟨r, hr, .inl rfl⟩, hi⟩
    · exact ⟨r.b, mem_mentions.mpr ⟨r, hr, .inr rfl⟩, hi⟩
  · intro hx
    obtain ⟨e, he, hi⟩ := hx
    obtain ⟨r, hr, rfl | rfl⟩ := mem_mentions.mp he
    · exact ⟨r, hr, .inl hi⟩
    · exact ⟨r, hr, .inr hi⟩

section Collecting
variable {seen : List Endpoint} {e x : Endpoint}

theorem addMention_cases (seen : List Endpoint) (e : Endpoint) :
    (addMention seen e = seen ∧ e.place ∈ seen.map (·.place)) ∨
      (addMention seen e = seen ++ [e] ∧ e.place ∉ seen.map (·.place)) := by
  by_cases h : ∃ x ∈ seen, x.place = e.place <;> simp [addMention, h]

theorem addMention_of_mem (h : e.place ∈ seen.map (·.place)) : addMention seen e = seen := by
  rcases addMention_cases seen e with ⟨he, _⟩ | ⟨_, hn⟩
  · exact he
  · exact absurd h hn

theorem prefix_addMention (seen : List Endpoint) (e : Endpoint) : seen <+: addMention seen e := by
  rcases addMention_cases seen e with ⟨he, _⟩ | ⟨he, _⟩
  · exact he.symm ▸ List.prefix_rfl
  · exact he.symm ▸ List.prefix_append _ _

theorem place_mem_addMention (seen : List Endpoint) (e : Endpoint) :
    e.place ∈ (addMention seen e).map (·.place) := by
  rcases addMention_cases seen e with ⟨he, h⟩ | ⟨he, _⟩ <;> rw [he]
  · exact h
  · simp

theorem mem_addMention (h : x ∈ addMention seen e) : x ∈ seen ∨ x = e := by
  rcases addMention_cases seen e with ⟨he, _⟩ | ⟨he, _⟩ <;> rw [he] at h
  · exact .inl h
  · simpa using h

theorem nodup_addMention (h : (seen.map (·.place)).Nodup) (e : Endpoint) :
    ((addMention seen e).map (·.place)).Nodup := by
  rcases addMention_cases seen e with ⟨he, _⟩ | ⟨he, hx⟩ <;> rw [he]
  · exact h
  · rw [List.map_append, List.nodup_append]
    refine ⟨h, by simp, fun a ha b hb hab => hx ?_⟩
    have hb : b = e.place := by simpa using hb
    rwa [← hb, ← hab]

theorem prefix_foldl_addMention (es : List Endpoint) : ∀ seen, seen <+: es.foldl addMention seen := by
  induction es with
  | nil => exact fun _ => List.prefix_rfl
  | cons e rest ih => exact fun seen => (prefix_addMention seen e).trans (ih _)

theorem mem_foldl_addMention (es : List Endpoint) :
    ∀ seen, x ∈ es.foldl addMention seen → x ∈ seen ∨ x ∈ es := by
  induction es with
  | nil => exact fun _ h => .inl h
  | cons e rest ih =>
    intro seen h
    rcases ih _ h with h | h
    · exact (mem_addMention h).imp_right fun h => by simp [h]
    · exact .inr (List.mem_cons_of_mem _ h)

theorem place_mem_foldl_addMention (es : List Endpoint) :
    ∀ seen, e ∈ es → e.place ∈ (es.foldl addMention seen).map (·.place) := by
  induction es with
  | nil => exact fun _ h => absurd h (by simp)
  | cons x rest ih =>
    intro seen h
    rcases List.mem_cons.mp h with rfl | h
    · exact ((prefix_foldl_addMention rest _).map _).subset (place_mem_addMention seen e)
    · exact ih _ h

/-- The first mentions are of all places that occur. -/
theorem place_mem_foldl_iff {es : List Endpoint} :
    i ∈ (es.foldl addMention []).map (·.place) ↔ i ∈ es.map (·.place) := by
  constructor
  · intro h
    obtain ⟨e, he, rfl⟩ := List.mem_map.mp h
    exact List.mem_map_of_mem ((mem_foldl_addMention es [] he).resolve_left List.not_mem_nil)
  · intro h
    obtain ⟨e, he, rfl⟩ := List.mem_map.mp h
    exact place_mem_foldl_addMention es [] he

/-- What is looked for by its place is the first of that place. -/
theorem find?_foldl_addMention (i : InstanceId) (es : List Endpoint) : ∀ seen,
    (es.foldl addMention seen).find? (·.place = i) =
      (seen.find? (·.place = i)).or (es.find? (·.place = i)) := by
  induction es with
  | nil => exact fun _ => by simp
  | cons e rest ih =>
    intro seen
    rw [List.foldl_cons, ih]
    rcases addMention_cases seen e with ⟨he, hmem⟩ | ⟨he, _⟩ <;> rw [he]
    · by_cases hi : e.place = i
      · -- an endpoint of the same place stands in front
        have hsome : (seen.find? (·.place = i)).isSome := by simpa [hi] using hmem
        obtain ⟨x, hx⟩ := Option.isSome_iff_exists.mp hsome
        rw [hx, Option.some_or, Option.some_or]
      · rw [List.find?_cons_of_neg (by simpa using hi)]
    · rw [List.find?_append, Option.or_assoc, ← List.find?_append, List.singleton_append]

end Collecting

theorem find?_firstMentions (rs : List Relationship) (i : InstanceId) :
    (firstMentions rs).find? (·.place = i) = (mentions rs).find? (·.place = i) :=
  find?_foldl_addMention i (mentions rs) []

theorem nodup_firstMentions (rs : List Relationship) :
    ((firstMentions rs).map (·.place)).Nodup := by
  refine (mentions rs).foldlRecOn (motive := fun seen => (seen.map (·.place)).Nodup) addMention ?_ ?_
  · exact List.nodup_nil
  · exact fun seen h e _ => nodup_addMention h e

theorem mem_mentions_of_mem_firstMentions {e : Endpoint} (h : e ∈ firstMentions rs) :
    e ∈ mentions rs := by
  simpa using mem_foldl_addMention (mentions rs) [] h

theorem mem_firstMentions_iff : i ∈ (firstMentions rs).map (·.place) ↔ Mentions rs i := by
  rw [mentions_iff, ← List.mem_map]
  exact place_mem_foldl_iff

/-- The first instance is side `a` of the first relationship. -/
theorem head?_firstMentions (r : Relationship) (rest : List Relationship) :
    (firstMentions (r :: rest)).head? = some r.a := by
  obtain ⟨tail, ht⟩ := prefix_foldl_addMention (r.b :: mentions rest) [r.a]
  show ((r.b :: mentions rest).foldl addMention (addMention [] r.a)).head? = some r.a
  rw [show addMention [] r.a = [r.a] from rfl, ← ht]
  rfl

end VisualQuery
