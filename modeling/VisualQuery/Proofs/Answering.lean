import VisualQuery.Proofs.Traversal

/-! # Runs that may miss something

A run in `ExceptT ε Option` ends with a value or with an error, unless a look-up in it misses: then
it has no answer at all. Where the checks of a run decide it, it has one (`DecidedRun`), and of two
runs that mirror each other both have one or neither has (`MirroredRun`). -/

namespace VisualQuery

variable {α β ε : Type}

theorem run_bind_eq_ok_iff {x : ExceptT ε Option α} {f : α → ExceptT ε Option β} {b : β} :
    (x >>= f).run = some (.ok b) ↔ ∃ a, x.run = some (.ok a) ∧ (f a).run = some (.ok b) := by
  rw [ExceptT.run_bind]
  rcases x.run with _ | _ | _ <;> simp

/-- What each step keeps of the elements done so far, a fold of steps has of all elements. -/
theorem run_foldlM_done {step : β → α → ExceptT ε Option β} {P : List α → β → Prop}
    (hstep : ∀ done s x s', P done s → (step s x).run = some (.ok s') → P (done ++ [x]) s')
    (l : List α) : ∀ (done : List α) {s s' : β}, P done s →
      (l.foldlM step s).run = some (.ok s') → P (done ++ l) s' := by
  induction l with
  | nil =>
    intro done s s' hs h
    cases h
    rwa [List.append_nil]
  | cons x rest ih =>
    intro done s s' hs h
    rw [List.foldlM_cons] at h
    obtain ⟨t, ht, h⟩ := run_bind_eq_ok_iff.mp h
    have hrest := ih (done ++ [x]) (hstep done s x t hs ht) h
    rwa [List.append_assoc] at hrest

/-- The results stand in the order of the elements. -/
theorem forall₂_of_run_mapM {f : α → ExceptT ε Option β} {l : List α} :
    ∀ {ys : List β}, (l.mapM f).run = some (.ok ys) →
      List.Forall₂ (fun x y => (f x).run = some (.ok y)) l ys := by
  induction l with
  | nil =>
    intro ys h
    cases h
    exact .nil
  | cons x rest ih =>
    intro ys h
    rw [List.mapM_cons] at h
    obtain ⟨y, hy, h⟩ := run_bind_eq_ok_iff.mp h
    obtain ⟨zs, hzs, h⟩ := run_bind_eq_ok_iff.mp h
    cases h
    exact .cons hy (ih hzs)

/-! ## Checks in order -/

/-- A run that has an answer, and the one that comes of its checks. -/
def DecidedRun {κ : Type} (passes : κ → Prop) (error : κ → ε) (R : α → Prop) (checks : List κ)
    (x : ExceptT ε Option α) : Prop :=
  ∃ answer, x.run = some answer ∧ Decided passes error R checks answer

namespace DecidedRun
variable {κ : Type} {passes : κ → Prop} {error : κ → ε} {R : α → Prop} {S : β → Prop}
  {checks more : List κ}

theorem lift {x : Except ε α} (h : Decided passes error R checks x) :
    DecidedRun passes error R checks (liftM x) := ⟨x, rfl, h⟩

theorem bind {x : ExceptT ε Option α} {f : α → ExceptT ε Option β}
    (h : DecidedRun passes error R checks x)
    (hf : ∀ a, R a → DecidedRun passes error S more (f a)) :
    DecidedRun passes error S (checks ++ more) (x >>= f) := by
  obtain ⟨answer, hx, h⟩ := h
  unfold DecidedRun
  rw [ExceptT.run_bind, hx]
  cases h with
  | failed hbefore hk =>
    rw [List.append_assoc, List.cons_append]
    exact ⟨_, rfl, .failed hbefore hk⟩
  | passed hall ha =>
    obtain ⟨answer, hfa, h⟩ := hf _ ha
    exact ⟨answer, hfa, (Decided.passed hall ha).bind (f := fun _ => answer) fun _ _ => h⟩

theorem map {x : ExceptT ε Option α} {f : α → β} (h : DecidedRun passes error R checks x)
    (hf : ∀ a, R a → S (f a)) :
    DecidedRun passes error S checks (x >>= fun a => pure (f a)) := by
  have hpure : ∀ a, R a → DecidedRun passes error S [] (pure (f a)) :=
    fun a ha => ⟨.ok (f a), rfl, .passed (by simp) (hf a ha)⟩
  simpa using h.bind hpure

/-- Checks of which every step makes its own, in a run that keeps what the steps need. -/
theorem foldlM {checks : β → List κ} {step : α → β → ExceptT ε Option α}
    (h : ∀ s y, R s → DecidedRun passes error R (checks y) (step s y)) (l : List β) :
    ∀ {s : α}, R s → DecidedRun passes error R (l.flatMap checks) (l.foldlM step s) := by
  induction l with
  | nil => exact fun hs => ⟨_, rfl, .passed (by simp) hs⟩
  | cons y rest ih =>
    intro s hs
    rw [List.flatMap_cons, List.foldlM_cons]
    exact (h s y hs).bind fun _ => ih

theorem mapM {checks : β → List κ} {f : β → ExceptT ε Option α}
    (h : ∀ y, DecidedRun passes error R (checks y) (f y)) (l : List β) :
    DecidedRun passes error (∀ a ∈ ·, R a) (l.flatMap checks) (l.mapM f) := by
  induction l with
  | nil => exact ⟨_, rfl, .passed (by simp) (by simp)⟩
  | cons y rest ih =>
    rw [List.flatMap_cons, List.mapM_cons]
    exact (h y).bind fun a ha => ih.map fun as has => by simpa using ⟨ha, has⟩

end DecidedRun

/-! ## Two runs -/

/-- Two runs of which one mirrors the other, or neither has an answer. -/
def MirroredRun {ε' : Type} (m : ε → ε') (R : α → β → Prop) (x : ExceptT ε Option α)
    (y : ExceptT ε' Option β) : Prop :=
  Option.Rel (Mirrors m R) x.run y.run

namespace MirroredRun
variable {ε' α' β' : Type} {m : ε → ε'} {R : α → β → Prop} {S : α' → β' → Prop}

theorem lift {x : Except ε α} {y : Except ε' β} (h : Mirrors m R x y) :
    MirroredRun m R (liftM x) (liftM y) := .some h

theorem bind {x : ExceptT ε Option α} {y : ExceptT ε' Option β} {f : α → ExceptT ε Option α'}
    {g : β → ExceptT ε' Option β'} (h : MirroredRun m R x y)
    (hfg : ∀ a b, R a b → MirroredRun m S (f a) (g b)) : MirroredRun m S (x >>= f) (y >>= g) := by
  unfold MirroredRun at h ⊢
  rw [ExceptT.run_bind, ExceptT.run_bind]
  cases h with
  | none => exact .none
  | some h =>
    cases h with
    | ok h => exact hfg _ _ h
    | error e => exact .some (.error e)

/-- Steps that mirror each other make up runs that do. -/
theorem foldlM {step : α → α' → ExceptT ε Option α} {step' : β → β' → ExceptT ε' Option β}
    {f : α' → β'} (h : ∀ s t x, R s t → MirroredRun m R (step s x) (step' t (f x))) (l : List α') :
    ∀ {s : α} {t : β}, R s t → MirroredRun m R (l.foldlM step s) ((l.map f).foldlM step' t) := by
  induction l with
  | nil => exact fun hst => .some (.ok hst)
  | cons x rest ih =>
    intro s t hst
    rw [List.map_cons, List.foldlM_cons, List.foldlM_cons]
    exact (h s t x hst).bind fun _ _ h => ih h

theorem mapM {f : α → ExceptT ε Option α'} {g : β → ExceptT ε' Option β'} {k : α → β}
    (h : ∀ x, MirroredRun m S (f x) (g (k x))) (l : List α) :
    MirroredRun m (List.Forall₂ S) (l.mapM f) ((l.map k).mapM g) := by
  induction l with
  | nil => exact .some (.ok .nil)
  | cons x rest ih =>
    rw [List.map_cons, List.mapM_cons, List.mapM_cons]
    exact (h x).bind fun a b hab => ih.bind fun as bs habs => .some (.ok (.cons hab habs))

end MirroredRun

section
variable {ε' : Type} {m : ε → ε'} {R : α → β → Prop} {x : Option (Except ε α)}
  {y : Option (Except ε' β)}

theorem eq_error_of_rel {e : ε} (h : Option.Rel (Mirrors m R) x y) (hx : x = some (.error e)) :
    y = some (.error (m e)) := by
  subst hx
  cases h with
  | some h => rw [h.eq_error rfl]

theorem exists_ok_of_rel {a : α} (h : Option.Rel (Mirrors m R) x y) (hx : x = some (.ok a)) :
    ∃ b, y = some (.ok b) ∧ R a b := by
  subst hx
  cases h with
  | some h =>
    obtain ⟨b, rfl, hab⟩ := h.exists_ok rfl
    exact ⟨b, rfl, hab⟩

end

end VisualQuery
