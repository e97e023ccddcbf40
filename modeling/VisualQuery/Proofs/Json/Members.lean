import Mathlib.Data.List.Nodup
import VisualQuery.Proofs.Json.Keys

/-! # Members of an object, read in several ways

A reader that gets to the end of an object has read every member of it (`Members.Lists`), whatever
it made of them. So two readers of one object can be compared member by member. Where a key comes
several times the last member of that key counts (`LastOf`), both when members are collected in the
order of their keys (`mem_collect_iff`) and when each key keeps its first position. -/

namespace VisualQuery

/-- The last entry of its key. -/
def LastOf {α : Type} (entries : List (String × α)) (e : String × α) : Prop :=
  ∃ before after, entries = before ++ e :: after ∧ ∀ x ∈ after, x.1 ≠ e.1

section Entries
variable {α β : Type} {entries : List (String × α)} {e x : String × α}

theorem LastOf.mem (h : LastOf entries e) : e ∈ entries := by
  obtain ⟨before, after, rfl, _⟩ := h
  simp

theorem lastOf_cons :
    LastOf (x :: entries) e ↔ LastOf entries e ∨ x = e ∧ ∀ y ∈ entries, y.1 ≠ e.1 := by
  constructor
  · intro hx
    obtain ⟨before, after, hlist, hafter⟩ := hx
    cases before with
    | nil =>
      cases hlist
      exact .inr ⟨rfl, hafter⟩
    | cons y rest =>
      cases hlist
      exact .inl ⟨rest, after, rfl, hafter⟩
  · rintro (⟨before, after, rfl, hafter⟩ | ⟨rfl, hafter⟩)
    · exact ⟨x :: before, after, rfl, hafter⟩
    · exact ⟨[], entries, rfl, hafter⟩

theorem exists_lastOf (h : x ∈ entries) : ∃ e, e.1 = x.1 ∧ LastOf entries e := by
  induction entries generalizing x with
  | nil => cases h
  | cons y rest ih =>
    by_cases hlater : ∃ z ∈ rest, z.1 = x.1
    · obtain ⟨z, hz, hkey⟩ := hlater
      obtain ⟨e, he, hlast⟩ := ih hz
      exact ⟨e, he.trans hkey, lastOf_cons.mpr (.inl hlast)⟩
    · have hnone : ∀ z ∈ rest, z.1 ≠ x.1 := fun z hz hkey => hlater ⟨z, hz, hkey⟩
      rcases List.mem_cons.mp h with rfl | h
      · exact ⟨x, rfl, lastOf_cons.mpr (.inr ⟨rfl, hnone⟩)⟩
      · exact absurd rfl (hnone x h)

theorem lastOf_concat :
    LastOf (entries ++ [x]) e ↔ e = x ∨ e.1 ≠ x.1 ∧ LastOf entries e := by
  induction entries with
  | nil =>
    rw [List.nil_append, lastOf_cons]
    simp [LastOf, eq_comm]
  | cons y rest ih =>
    rw [List.cons_append, lastOf_cons, lastOf_cons, ih]
    simp only [List.mem_append, List.mem_singleton, or_imp, forall_and, forall_eq]
    constructor
    · rintro ((h | h) | ⟨rfl, hrest, hx⟩)
      · exact .inl h
      · exact .inr ⟨h.1, .inl h.2⟩
      · exact .inr ⟨Ne.symm hx, .inr ⟨rfl, hrest⟩⟩
    · rintro (h | ⟨hx, h | ⟨rfl, hrest⟩⟩)
      · exact .inl (.inl h)
      · exact .inl (.inr ⟨hx, h⟩)
      · exact .inr ⟨rfl, hrest, Ne.symm hx⟩

/-- Where entries correspond, so do the last entries of each key. -/
theorem LastOf.forall₂ {R : α → β → Prop} {others : List (String × β)}
    (h : List.Forall₂ (fun x y => x.1 = y.1 ∧ R x.2 y.2) entries others) (he : LastOf entries e) :
    ∃ y, LastOf others (e.1, y) ∧ R e.2 y := by
  induction h with
  | nil =>
    obtain ⟨before, after, hlist, _⟩ := he
    simp at hlist
  | @cons x y rest others hxy hrest ih =>
    rcases lastOf_cons.mp he with he | ⟨rfl, hkeys⟩
    · obtain ⟨z, hz, hR⟩ := ih he
      exact ⟨z, lastOf_cons.mpr (.inl hz), hR⟩
    · refine ⟨y.2, lastOf_cons.mpr (.inr ⟨Prod.ext hxy.1.symm rfl, fun z hz => ?_⟩), hxy.2⟩
      obtain ⟨w, hw, hwz⟩ := exists_of_forall₂ hrest hz
      rw [← hwz.1]
      exact hkeys w hw

end Entries

namespace Json

/-! ## Members in the order of their keys -/

/-- Members in the order of their keys, the last one of each key. -/
def collect {α : Type} (entries : List (String × α)) : List (String × α) :=
  entries.foldr (fun e done => addMember e.1 e.2 done) []

section Collect
variable {α : Type} {entries : List (String × α)} {e : String × α}

theorem increasing_collect (entries : List (String × α)) : Increasing (collect entries) := by
  induction entries with
  | nil => exact .nil
  | cons x rest ih => exact ih.addMember x.1 x.2

theorem mem_addMember_iff {members : List (String × α)} (h : Increasing members) {key : String}
    {value : α} : e ∈ addMember key value members ↔
      e ∈ members ∨ (key, value) = e ∧ ∀ m ∈ members, m.1 ≠ key := by
  induction members with
  | nil => simp [addMember, eq_comm]
  | cons first rest ih =>
    obtain ⟨hlt, hrest⟩ := List.pairwise_cons.mp h
    unfold addMember
    split
    · next hkey =>
      have hnew : ∀ m ∈ first :: rest, m.1 ≠ key := by
        intro m hm
        rcases List.mem_cons.mp hm with rfl | hm
        · exact (ne_of_lt hkey).symm
        · exact (ne_of_lt (lt_trans hkey (hlt m hm))).symm
      rw [List.mem_cons, or_comm, eq_comm]
      exact or_congr_right (and_iff_left hnew).symm
    · split
      · next heq =>
        have hold : ¬ ∀ m ∈ first :: rest, m.1 ≠ key := fun hm => hm first (by simp) heq.symm
        simp only [hold, and_false, or_false]
      · next hne =>
        simp only [List.mem_cons, ih hrest, forall_eq_or_imp]
        have hfirst : first.1 ≠ key := fun he => hne he.symm
        simp only [hfirst, ne_eq, not_false_eq_true, true_and, or_assoc]

/-- Of the members of one key the last one is kept. -/
theorem mem_collect_iff : e ∈ collect entries ↔ LastOf entries e := by
  induction entries generalizing e with
  | nil => simp [collect, LastOf]
  | cons x rest ih =>
    rw [lastOf_cons, ← ih]
    show e ∈ addMember x.1 x.2 (collect rest) ↔ _
    rw [mem_addMember_iff (increasing_collect rest)]
    refine or_congr_right ⟨?_, ?_⟩
    · rintro ⟨rfl, hkeys⟩
      refine ⟨rfl, fun y hy hkey => ?_⟩
      obtain ⟨z, hz, hlast⟩ := exists_lastOf hy
      exact hkeys z (ih.mpr hlast) (hz.trans hkey)
    · rintro ⟨rfl, hkeys⟩
      exact ⟨rfl, fun m hm => hkeys m (ih.mp hm).mem⟩

/-- A kind of keys that comes once in all is found once among what is kept. -/
theorem filter_collect {p : String → Bool} (h : entries.filter (p ·.1) = [e]) :
    (collect entries).filter (p ·.1) = [e] := by
  have hmem : ∀ x, x ∈ entries ∧ p x.1 = true ↔ x = e := by
    intro x
    rw [← List.mem_filter (p := fun x : String × α => p x.1), h, List.mem_singleton]
  have hlast : LastOf entries e := by
    obtain ⟨x, hkey, hx⟩ := exists_lastOf ((hmem e).mpr rfl).1
    have hxe : x = e := (hmem x).mp ⟨hx.mem, hkey ▸ ((hmem e).mpr rfl).2⟩
    exact hxe ▸ hx
  have hnodup : (collect entries).Nodup :=
    List.Nodup.of_map _ (increasing_collect entries).nodup
  refine List.perm_singleton.mp ((List.perm_ext_iff_of_nodup (hnodup.filter _)
    (List.nodup_singleton e)).mpr fun x => ?_)
  rw [List.mem_filter, List.mem_singleton, mem_collect_iff]
  constructor
  · exact fun hx => (hmem x).mp ⟨hx.1.mem, hx.2⟩
  · rintro rfl
    exact ⟨hlast, ((hmem x).mpr rfl).2⟩

end Collect

/-! ## Readers of an object -/

/-- The members of an object that is written to its end, under their keys. -/
inductive Members.Lists : Members → List (String × Node) → Prop where
  | close : Lists .close []
  | member {key : Written String} {k : String} {value : Node} {rest : Members}
    {ms : List (String × Node)} (hk : key.read = .ok k) (h : Lists rest ms) :
    Lists (.member key value rest) ((k, value) :: ms)

theorem Members.Lists.unique {members : Members} {ms ms' : List (String × Node)}
    (h : members.Lists ms) (h' : members.Lists ms') : ms = ms' := by
  induction h generalizing ms' with
  | close =>
    cases h'
    rfl
  | member hk _ ih =>
    cases h' with
    | member hk' h' =>
      rw [hk] at hk'
      cases hk'
      rw [ih h']

/-- Members with any keys are read one by one. -/
theorem Members.lists_of_entries {α : Type} {reader : Node → Except Fault α} :
    ∀ {members : Members} {es : List (String × α)}, members.entries reader = .ok es →
      ∃ ms, members.Lists ms ∧
        List.Forall₂ (fun m e => m.1 = e.1 ∧ reader m.2 = .ok e.2) ms es
  | .close, _, h => by
    cases h
    exact ⟨[], .close, .nil⟩
  | .ends, _, h | .stray, _, h | .dangling, _, h | .cut, _, h | .keyless, _, h => by cases h
  | .lone key atEnd, _, h => by
    obtain ⟨_, _, h⟩ := bind_eq_ok_iff.mp h
    split at h <;> cases h
  | .member key value rest, _, h => by
    obtain ⟨k, hk, h⟩ := bind_eq_ok_iff.mp h
    obtain ⟨x, hx, h⟩ := bind_eq_ok_iff.mp h
    obtain ⟨xs, hxs, h⟩ := bind_eq_ok_iff.mp h
    cases h
    obtain ⟨ms, hms, hread⟩ := lists_of_entries hxs
    exact ⟨(k, value) :: ms, .member hk hms, .cons ⟨rfl, hx⟩ hread⟩

/-- Members of any shape are read like others and then collected. -/
theorem Members.values_eq (depth : Nat) : ∀ members : Members,
    members.values depth = (do pure (collect (← members.entries (Node.value depth))))
  | .close | .ends | .stray | .dangling | .cut | .keyless => by
    unfold values
    rfl
  | .lone key atEnd => by
    unfold values entries
    cases key.read <;> cases atEnd <;> rfl
  | .member key value rest => by
    unfold values entries
    rw [values_eq depth rest]
    cases key.read <;> cases value.value depth <;> cases rest.entries (Node.value depth) <;> rfl

theorem Members.lists_of_values {depth : Nat} {members : Members} {vs : List (String × Value)}
    (h : members.values depth = .ok vs) :
    ∃ ms all, members.Lists ms ∧ vs = collect all ∧
      List.Forall₂ (fun m e => m.1 = e.1 ∧ m.2.value depth = .ok e.2) ms all := by
  rw [values_eq] at h
  obtain ⟨all, hall, h⟩ := bind_eq_ok_iff.mp h
  cases h
  obtain ⟨ms, hms, hread⟩ := lists_of_entries hall
  exact ⟨ms, all, hms, rfl, hread⟩

/-- The members of a record are read one by one into the draft. -/
theorem Members.lists_of_fields {σ : Type}
    {field : σ → String → Except Fault (Node → Except Fault σ)} :
    ∀ {members : Members} {d d' : σ}, members.fields field d = .ok d' →
      ∃ ms, members.Lists ms ∧
        ms.foldlM (fun d m => do (← field d m.1) m.2) d = .ok d'
  | .close, _, _, h => by
    cases h
    exact ⟨[], .close, rfl⟩
  | .ends, _, _, h | .stray, _, _, h | .dangling, _, _, h | .cut, _, _, h
  | .keyless, _, _, h => by cases h
  | .lone key atEnd, _, _, h => by
    obtain ⟨_, _, h⟩ := bind_eq_ok_iff.mp h
    obtain ⟨_, _, h⟩ := bind_eq_ok_iff.mp h
    split at h <;> cases h
  | .member key value rest, _, _, h => by
    obtain ⟨k, hk, h⟩ := bind_eq_ok_iff.mp h
    obtain ⟨readInto, hread, h⟩ := bind_eq_ok_iff.mp h
    obtain ⟨d₁, hd₁, h⟩ := bind_eq_ok_iff.mp h
    obtain ⟨ms, hms, hfold⟩ := lists_of_fields h
    refine ⟨(k, value) :: ms, .member hk hms, ?_⟩
    rw [List.foldlM_cons, hread, ok_bind, hd₁]
    exact hfold

/-- The items of a list are read one by one, by two readers alike. -/
theorem Items.values_of_all {α : Type} {reader : Node → Except Fault α}
    {reader' : Value → Except Fault α} {depth : Nat}
    (hr : ∀ {node : Node} {x v}, reader node = .ok x → node.value depth = .ok v →
      reader' v = .ok x) :
    ∀ {items : Items} {xs : List α} {vs : List Value}, items.all reader = .ok xs →
      items.values depth = .ok vs → vs.mapM reader' = .ok xs
  | .close, _, _, h, hv => by
    cases h
    simp only [values, Except.ok.injEq] at hv
    rw [← hv]
    rfl
  | .ends, _, _, h, _ | .stray, _, _, h, _ | .dangling, _, _, h, _ => by cases h
  | .item node rest, _, _, h, hv => by
    obtain ⟨x, hx, h⟩ := bind_eq_ok_iff.mp h
    obtain ⟨xs, hxs, h⟩ := bind_eq_ok_iff.mp h
    cases h
    unfold values at hv
    obtain ⟨v, hv₁, hv⟩ := bind_eq_ok_iff.mp hv
    obtain ⟨vs, hvs, hv⟩ := bind_eq_ok_iff.mp hv
    cases hv
    rw [List.mapM_cons, hr hx hv₁, ok_bind, values_of_all hr hxs hvs]
    rfl

end Json

end VisualQuery
