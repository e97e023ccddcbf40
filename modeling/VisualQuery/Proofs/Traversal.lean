import Mathlib.Data.List.Forall2

/-! # Traversals that may fail

A step carried out for every element of a list succeeds as a whole when each step does. Where each
step makes checks of its own, the first check that does not pass decides the whole (`Decided`). Of
two traversals, each step of one may mirror that of the other; then so do the results
(`Mirrors`). -/

namespace VisualQuery

variable {α β ε : Type}

def mapBoth {ε' : Type} (onError : ε → ε') (onValue : α → β) : Except ε α → Except ε' β
  | .ok x => .ok (onValue x)
  | .error e => .error (onError e)

@[simp]
theorem ok_bind (x : α) (f : α → Except ε β) : (Except.ok x >>= f) = f x := rfl

@[simp]
theorem error_bind (e : ε) (f : α → Except ε β) : (Except.error e >>= f) = .error e := rfl

@[simp]
theorem pure_eq_ok (x : α) : (pure x : Except ε α) = .ok x := rfl

theorem mapM_eq_some_map {f : α → Option β} {g : α → β} {l : List α}
    (h : ∀ x ∈ l, f x = some (g x)) : l.mapM f = some (l.map g) := by
  induction l with
  | nil => rfl
  | cons x rest ih =>
    have hr := ih fun y hy => h y (List.mem_cons_of_mem _ hy)
    simp [h x, hr]

theorem exists_mapM_eq_some {f : α → Option β} {l : List α} (h : ∀ x ∈ l, ∃ y, f x = some y) :
    ∃ ys, l.mapM f = some ys := by
  induction l with
  | nil => exact ⟨[], rfl⟩
  | cons x rest ih =>
    obtain ⟨y, hy⟩ := h x (by simp)
    obtain ⟨ys, hys⟩ := ih fun z hz => h z (List.mem_cons_of_mem _ hz)
    exact ⟨y :: ys, by simp [hy, hys]⟩

/-- To map every result is to map the list of results. -/
theorem mapM_option_map {γ : Type} (f : α → Option β) (h : β → γ) (l : List α) :
    l.mapM (fun x => (f x).map h) = (l.mapM f).map (List.map h) := by
  induction l with
  | nil => rfl
  | cons x rest ih =>
    rw [List.mapM_cons, List.mapM_cons, ih]
    cases f x <;> cases rest.mapM f <;> rfl

theorem exists_of_mem_mapM {f : α → Option β} {l : List α} {y : β} :
    ∀ {ys : List β}, l.mapM f = some ys → y ∈ ys → ∃ x ∈ l, f x = some y := by
  induction l with
  | nil =>
    intro ys h hy
    cases h
    cases hy
  | cons x rest ih =>
    intro ys h hy
    rw [List.mapM_cons] at h
    obtain ⟨z, hz, h⟩ := Option.bind_eq_some_iff.mp h
    obtain ⟨zs, hzs, h⟩ := Option.bind_eq_some_iff.mp h
    cases h
    rcases List.mem_cons.mp hy with rfl | hy
    · exact ⟨x, by simp, hz⟩
    · obtain ⟨w, hw, hwy⟩ := ih hzs hy
      exact ⟨w, List.mem_cons_of_mem _ hw, hwy⟩

theorem exists_of_mapM_eq_some {f : α → Option β} {l : List α} {x : α} (hx : x ∈ l) :
    ∀ {ys : List β}, l.mapM f = some ys → ∃ y ∈ ys, f x = some y := by
  induction l with
  | nil => cases hx
  | cons z rest ih =>
    intro ys h
    rw [List.mapM_cons] at h
    obtain ⟨y, hy, h⟩ := Option.bind_eq_some_iff.mp h
    obtain ⟨zs, hzs, h⟩ := Option.bind_eq_some_iff.mp h
    cases h
    rcases List.mem_cons.mp hx with rfl | hx
    · exact ⟨y, by simp, hy⟩
    · obtain ⟨w, hw, hwx⟩ := ih hx hzs
      exact ⟨w, List.mem_cons_of_mem _ hw, hwx⟩

theorem mapM_congr {m : Type → Type} [Monad m] [LawfulMonad m] {f g : α → m β} {l : List α}
    (h : ∀ x ∈ l, f x = g x) : l.mapM f = l.mapM g := by
  induction l with
  | nil => rfl
  | cons x rest ih =>
    rw [List.mapM_cons, List.mapM_cons, h x (by simp),
      ih fun y hy => h y (List.mem_cons_of_mem _ hy)]

/-- Where each step finds what another one finds, so does the whole. -/
theorem foldlM_mono {σ : Type} {f g : σ → α → Option σ}
    (hfg : ∀ s a s', f s a = some s' → g s a = some s') :
    ∀ (l : List α) {s s' : σ}, l.foldlM f s = some s' → l.foldlM g s = some s'
  | [], _, _, h => h
  | a :: rest, s, s', h => by
    rw [List.foldlM_cons] at h ⊢
    obtain ⟨t, ht, hrest⟩ := Option.bind_eq_some_iff.mp h
    exact Option.bind_eq_some_iff.mpr ⟨t, hfg s a t ht, foldlM_mono hfg rest hrest⟩

theorem bind_eq_ok_iff {x : Except ε α} {f : α → Except ε β} {y : β} :
    (x >>= f) = .ok y ↔ ∃ a, x = .ok a ∧ f a = .ok y := by
  cases x <;> simp [bind, Except.bind]

/-- What each step keeps, a fold of steps keeps. -/
theorem foldlM_keeps {step : β → α → Except ε β} {P : β → Prop}
    (hstep : ∀ s x s', P s → step s x = .ok s' → P s') (l : List α) :
    ∀ {s s' : β}, P s → l.foldlM step s = .ok s' → P s' := by
  induction l with
  | nil =>
    intro s s' hs h
    cases h
    exact hs
  | cons x rest ih =>
    intro s s' hs h
    rw [List.foldlM_cons] at h
    obtain ⟨t, ht, h⟩ := bind_eq_ok_iff.mp h
    exact ih (hstep s x t hs ht) h

/-- The results stand in the order of the elements. -/
theorem mapM_eq_ok_iff {f : α → Except ε β} {l : List α} :
    ∀ {ys : List β}, l.mapM f = .ok ys ↔ List.Forall₂ (fun x y => f x = .ok y) l ys := by
  induction l with
  | nil => intro ys; cases ys <;> simp
  | cons x rest ih =>
    intro ys
    rw [List.mapM_cons, bind_eq_ok_iff]
    simp only [bind_eq_ok_iff, ih, pure_eq_ok, Except.ok.injEq]
    constructor
    · intro hx
      obtain ⟨y, hy, zs, hzs, rfl⟩ := hx
      exact .cons hy hzs
    · intro hx
      rcases hx with _ | ⟨hy, hzs⟩
      exact ⟨_, hy, _, hzs, rfl⟩

theorem exists_mapM_eq_ok_iff {f : α → Except ε β} {l : List α} :
    (∃ ys, l.mapM f = .ok ys) ↔ ∀ x ∈ l, ∃ y, f x = .ok y := by
  induction l with
  | nil => simp
  | cons x rest ih =>
    simp only [mapM_eq_ok_iff, List.forall₂_cons_left_iff, List.mem_cons, forall_eq_or_imp] at ih ⊢
    rw [← ih]
    constructor
    · intro hx
      obtain ⟨_, y, zs, hy, hzs, _⟩ := hx
      exact ⟨⟨y, hy⟩, zs, hzs⟩
    · intro hx
      obtain ⟨⟨y, hy⟩, zs, hzs⟩ := hx
      exact ⟨_, y, zs, hy, hzs, rfl⟩

theorem exists_error_of_mapM {f : α → Except ε β} {l : List α} {e : ε}
    (h : l.mapM f = .error e) : ∃ x ∈ l, f x = .error e := by
  induction l with
  | nil => cases h
  | cons x rest ih =>
    rw [List.mapM_cons] at h
    cases hx : f x with
    | error e' =>
      rw [hx] at h
      cases h
      exact ⟨x, by simp, hx⟩
    | ok y =>
      rw [hx] at h
      cases hrest : rest.mapM f with
      | error e' =>
        rw [hrest] at h
        cases h
        obtain ⟨z, hz, he⟩ := ih hrest
        exact ⟨z, List.mem_cons_of_mem _ hz, he⟩
      | ok ys =>
        rw [hrest] at h
        cases h

/-- The first step that fails makes the traversal fail. -/
theorem mapM_eq_error {f : α → Except ε β} {front back : List α} {x : α} {e : ε}
    (hfront : ∀ y ∈ front, ∃ z, f y = .ok z) (hx : f x = .error e) :
    (front ++ x :: back).mapM f = .error e := by
  induction front with
  | nil => rw [List.nil_append, List.mapM_cons, hx, error_bind]
  | cons y rest ih =>
    obtain ⟨z, hz⟩ := hfront y (by simp)
    rw [List.cons_append, List.mapM_cons, hz, ok_bind,
      ih fun w hw => hfront w (List.mem_cons_of_mem y hw), error_bind]

/-- A step that succeeds can be carried out at any position. -/
theorem mapM_insertIdx {f : α → Except ε β} {x : α} {y : β} (hx : f x = .ok y) (l : List α) :
    ∀ k ≤ l.length,
      (l.insertIdx k x).mapM f = l.mapM f >>= fun ys => pure (ys.insertIdx k y) := by
  induction l with
  | nil =>
    intro k hk
    obtain rfl := Nat.le_zero.mp hk
    simp [hx]
  | cons z rest ih =>
    intro k hk
    cases k with
    | zero =>
      rw [List.insertIdx_zero, List.mapM_cons, hx]
      rfl
    | succ k =>
      rw [List.insertIdx_succ_cons, List.mapM_cons, List.mapM_cons,
        ih k (Nat.le_of_succ_le_succ hk)]
      cases f z with
      | error e => rfl
      | ok w => cases rest.mapM f <;> rfl

theorem exists_of_forall₂ {R : α → β → Prop} {xs : List α} {ys : List β}
    (h : List.Forall₂ R xs ys) {y : β} (hy : y ∈ ys) : ∃ x ∈ xs, R x y := by
  induction h with
  | nil => cases hy
  | cons hab _ ih =>
    rcases List.mem_cons.mp hy with rfl | hy
    · exact ⟨_, by simp, hab⟩
    · obtain ⟨x, hx, hxy⟩ := ih hy
      exact ⟨x, List.mem_cons_of_mem _ hx, hxy⟩

theorem exists_forall₂ {R : α → β → Prop} {xs : List α} (h : ∀ x ∈ xs, ∃ y, R x y) :
    ∃ ys, List.Forall₂ R xs ys := by
  induction xs with
  | nil => exact ⟨[], .nil⟩
  | cons x rest ih =>
    obtain ⟨y, hy⟩ := h x (by simp)
    obtain ⟨ys, hys⟩ := ih fun z hz => h z (List.mem_cons_of_mem _ hz)
    exact ⟨y :: ys, .cons hy hys⟩

theorem eq_map_of_forall₂ {f : α → β} {xs : List α} {ys : List β}
    (h : List.Forall₂ (fun x y => f x = y) xs ys) : ys = xs.map f := by
  have heq := List.forall₂_map_left_iff.mpr h
  rw [List.forall₂_eq_eq_eq] at heq
  exact heq.symm

/-- Lists that both go with a third one go with each other. -/
theorem forall₂_of_common {γ : Type} {R : γ → α → Prop} {S : γ → β → Prop} {T : α → β → Prop}
    {zs : List γ} {xs : List α} {ys : List β} (hR : List.Forall₂ R zs xs)
    (hS : List.Forall₂ S zs ys) (h : ∀ z x y, R z x → S z y → T x y) : List.Forall₂ T xs ys := by
  induction hR generalizing ys with
  | nil =>
    cases hS
    exact .nil
  | cons hzx _ ih =>
    cases hS with
    | cons hzy hS => exact .cons (h _ _ _ hzx hzy) (ih hS)

/-! ## Checks in order -/

/-- What comes of checks that are made one after the other: a value as described if all of them
pass, and otherwise the error of the first one that does not. -/
inductive Decided {κ : Type} (passes : κ → Prop) (error : κ → ε) (R : α → Prop) :
    List κ → Except ε α → Prop where
  | passed {checks : List κ} {x : α} (h : ∀ k ∈ checks, passes k) (hx : R x) :
    Decided passes error R checks (.ok x)
  | failed {before after : List κ} {k : κ} (h : ∀ y ∈ before, passes y) (hk : ¬ passes k) :
    Decided passes error R (before ++ k :: after) (.error (error k))

/-- There is but one first check that does not pass. -/
theorem eq_of_first_failing {κ : Type} {passes : κ → Prop} {before : List κ} :
    ∀ {before' after after' : List κ} {k k' : κ}, before ++ k :: after = before' ++ k' :: after' →
      (∀ y ∈ before, passes y) → ¬ passes k → (∀ y ∈ before', passes y) → ¬ passes k' → k = k' := by
  induction before with
  | nil =>
    intro before' after after' k k' h _ hk hbefore' _
    cases before' with
    | nil => exact (List.cons.inj h).1
    | cons y rest =>
      obtain ⟨rfl, _⟩ := List.cons.inj h
      exact absurd (hbefore' k (by simp)) hk
  | cons x rest ih =>
    intro before' after after' k k' h hbefore hk hbefore' hk'
    cases before' with
    | nil =>
      obtain ⟨rfl, _⟩ := List.cons.inj h
      exact absurd (hbefore x (by simp)) hk'
    | cons y rest' =>
      exact ih (List.cons.inj h).2 (fun z hz => hbefore z (List.mem_cons_of_mem _ hz)) hk
        (fun z hz => hbefore' z (List.mem_cons_of_mem _ hz)) hk'

namespace Decided
variable {κ : Type} {passes : κ → Prop} {error : κ → ε} {R : α → Prop} {S : β → Prop}
  {checks more : List κ} {x : Except ε α}

theorem single {k : κ} (hok : passes k → ∃ a, x = .ok a ∧ R a)
    (herror : ¬ passes k → x = .error (error k)) : Decided passes error R [k] x := by
  by_cases hk : passes k
  · obtain ⟨a, rfl, ha⟩ := hok hk
    exact .passed (by simpa using hk) ha
  · rw [herror hk]
    show Decided passes error R ([] ++ [k]) _
    exact .failed (by simp) hk

theorem bind {f : α → Except ε β} (h : Decided passes error R checks x)
    (hf : ∀ a, R a → Decided passes error S more (f a)) :
    Decided passes error S (checks ++ more) (x >>= f) := by
  cases h with
  | failed hbefore hk =>
    rw [List.append_assoc, List.cons_append]
    exact .failed hbefore hk
  | @passed _ a hall ha =>
    show Decided passes error S (checks ++ more) (f a)
    have hrest := hf a ha
    generalize f a = y at hrest
    cases hrest with
    | passed hmore hy =>
      exact .passed (fun k hk => (List.mem_append.mp hk).elim (hall k) (hmore k)) hy
    | failed hbefore hk =>
      rw [← List.append_assoc]
      exact .failed (fun k hk => (List.mem_append.mp hk).elim (hall k) (hbefore k)) hk

theorem map {f : α → β} (h : Decided passes error R checks x) (hf : ∀ a, R a → S (f a)) :
    Decided passes error S checks (x >>= fun a => pure (f a)) := by
  cases h with
  | passed hall ha => exact .passed hall (hf _ ha)
  | failed hbefore hk => exact .failed hbefore hk

/-- Checks of which every step makes its own, in a run that keeps what the steps need. -/
theorem foldlM {checks : β → List κ} {step : α → β → Except ε α}
    (h : ∀ s y, R s → Decided passes error R (checks y) (step s y)) (l : List β) :
    ∀ {s : α}, R s → Decided passes error R (l.flatMap checks) (l.foldlM step s) := by
  induction l with
  | nil => exact fun hs => .passed (by simp) hs
  | cons y rest ih =>
    intro s hs
    rw [List.flatMap_cons, List.foldlM_cons]
    exact (h s y hs).bind fun _ => ih

theorem mapM {checks : β → List κ} {f : β → Except ε α}
    (h : ∀ y, Decided passes error R (checks y) (f y)) (l : List β) :
    Decided passes error (∀ a ∈ ·, R a) (l.flatMap checks) (l.mapM f) := by
  induction l with
  | nil => exact .passed (by simp) (by simp)
  | cons y rest ih =>
    rw [List.flatMap_cons, List.mapM_cons]
    exact (h y).bind fun a ha => ih.map fun as has => by simpa using ⟨ha, has⟩

/-- A value that comes of the checks is the one that was computed. -/
theorem and_eq (h : Decided passes error R checks x) :
    Decided passes error (fun a => R a ∧ x = .ok a) checks x := by
  cases h with
  | passed hall ha => exact .passed hall ⟨ha, rfl⟩
  | failed hbefore hk => exact .failed hbefore hk

theorem exists_ok_iff (h : Decided passes error R checks x) :
    (∃ a, x = .ok a) ↔ ∀ k ∈ checks, passes k := by
  cases h with
  | @passed _ a hall _ => exact ⟨fun _ => hall, fun _ => ⟨a, rfl⟩⟩
  | @failed _ _ k _ hk =>
    constructor
    · intro hx
      obtain ⟨a, ha⟩ := hx
      cases ha
    · exact fun hall => absurd (hall k (by simp)) hk

theorem eq_error_iff (h : Decided passes error R checks x) {e : ε} :
    x = .error e ↔ ∃ before k after, checks = before ++ k :: after ∧ (∀ y ∈ before, passes y) ∧
      ¬ passes k ∧ e = error k := by
  cases h with
  | passed hall _ =>
    constructor
    · intro he
      cases he
    · intro hx
      obtain ⟨before, k, after, rfl, _, hk, _⟩ := hx
      exact absurd (hall k (by simp)) hk
  | @failed before after k hbefore hk =>
    constructor
    · intro he
      cases he
      exact ⟨before, k, after, rfl, hbefore, hk, rfl⟩
    · intro hx
      obtain ⟨before', k', after', hchecks, hbefore', hk', rfl⟩ := hx
      rw [eq_of_first_failing hchecks hbefore hk hbefore' hk']

end Decided

/-! ## Two runs -/

/-- Two results of which one mirrors the other: values in relation, or an error and its image. -/
inductive Mirrors {ε' : Type} (m : ε → ε') (R : α → β → Prop) :
    Except ε α → Except ε' β → Prop where
  | ok {x : α} {y : β} (h : R x y) : Mirrors m R (.ok x) (.ok y)
  | error (e : ε) : Mirrors m R (.error e) (.error (m e))

namespace Mirrors
variable {ε' α' β' : Type} {m : ε → ε'} {R : α → β → Prop} {S : α' → β' → Prop}

theorem mapBoth {f : α → β} (x : Except ε α) :
    Mirrors m (fun a b => f a = b) x (mapBoth m f x) := by
  cases x with
  | ok a => exact .ok rfl
  | error e => exact .error e

theorem bind {x : Except ε α} {y : Except ε' β} {f : α → Except ε α'} {g : β → Except ε' β'}
    (h : Mirrors m R x y) (hfg : ∀ a b, R a b → Mirrors m S (f a) (g b)) :
    Mirrors m S (x >>= f) (y >>= g) := by
  cases h with
  | ok h => exact hfg _ _ h
  | error e => exact .error e

theorem mapM {f : α → Except ε α'} {g : β → Except ε' β'} {k : α → β}
    (h : ∀ x, Mirrors m S (f x) (g (k x))) (l : List α) :
    Mirrors m (List.Forall₂ S) (l.mapM f) ((l.map k).mapM g) := by
  induction l with
  | nil => exact .ok .nil
  | cons x rest ih =>
    rw [List.map_cons, List.mapM_cons, List.mapM_cons]
    exact (h x).bind fun a b hab => ih.bind fun as bs habs => .ok (.cons hab habs)

theorem imp {R' : α → β → Prop} {x : Except ε α} {y : Except ε' β} (h : Mirrors m R x y)
    (hR : ∀ a b, R a b → R' a b) : Mirrors m R' x y := by
  cases h with
  | ok h => exact .ok (hR _ _ h)
  | error e => exact .error e

theorem refl {R : α → α → Prop} {x : Except ε α} (h : ∀ a, x = .ok a → R a a) :
    Mirrors id R x x := by
  cases x with
  | ok a => exact .ok (h a rfl)
  | error e => exact .error e

theorem of_error {e : ε} {e' : ε'} (h : m e = e') : Mirrors m R (.error e) (.error e') := by
  subst h
  exact .error e

theorem eq_error {x : Except ε α} {y : Except ε' β} {e : ε} (h : Mirrors m R x y)
    (hx : x = .error e) : y = .error (m e) := by
  subst hx
  cases h with
  | error e => rfl

theorem exists_ok {x : Except ε α} {y : Except ε' β} {a : α} (h : Mirrors m R x y)
    (hx : x = .ok a) : ∃ b, y = .ok b ∧ R a b := by
  subst hx
  cases h with
  | ok h => exact ⟨_, rfl, h⟩

end Mirrors

end VisualQuery
