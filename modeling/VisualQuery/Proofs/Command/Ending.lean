import VisualQuery.Command.Run
import VisualQuery.Proofs.Document.Reordering

/-! # Every run of the command ends with an outcome

A run has no outcome only if a look-up by number finds nothing. A document that was read brings a
catalog that was read, and over such a catalog loading and compiling have an answer, and every
table that is placed has a name for the warnings. So each run ends with an outcome, whatever the
files and the arguments are (`exists_outcome`). -/

namespace VisualQuery.Command

section Document
variable {catalog : Catalog} {defaults : Defaults} {d : Document} {q : Query}

theorem exists_warnings (hc : catalog.Built) (h : d.load? catalog defaults = some (.ok q)) :
    ∃ warnings, warnings? q.canvas = some warnings := by
  have hloads := Document.loads_of_load hc h
  refine exists_mapM_eq_some fun p hp => ?_
  obtain ⟨i, _, hi⟩ := List.mem_filterMap.mp hp
  have hplacement : q.canvas.placement i = .ok p := by
    cases hx : q.canvas.placement i with
    | error cause =>
      rw [hx] at hi
      cases hi
    | ok x =>
      rw [hx] at hi
      cases hi
      rfl
  obtain ⟨t, _, ht⟩ := exists_of_forall₂ hloads.tables (Canvas.mem_of_placement hplacement).1
  rw [hloads.catalog, hc.filed.fullName?_of_findTable? ht]
  exact ⟨_, rfl⟩

theorem exists_compileQuery (hc : catalog.Built) (h : d.load? catalog defaults = some (.ok q))
    (format : Format) (layout : Layout) (totals : Bool) :
    ∃ outcome, compileQuery? format layout { q with totals := totals } = some outcome := by
  obtain ⟨answer, hanswer⟩ := Document.exists_answer_of_load hc h totals
  unfold compileQuery?
  rw [hanswer]
  cases answer <;> exact ⟨_, rfl⟩

end Document

/-- A document that was read is compiled or refused. -/
theorem exists_compileDocument {text : String} {d : Document} (hd : Document.ofText text = .ok d)
    (settings : Settings) (format : Format) (totals pretty : Bool) :
    ∃ outcome, compileDocument? settings format totals pretty d = some outcome := by
  unfold compileDocument?
  cases hcatalog : d.ownCatalog with
  | error e => exact ⟨_, rfl⟩
  | ok catalog =>
    have hread := Document.read_of_ownCatalog hd hcatalog
    obtain ⟨answer, hanswer, _⟩ := Document.decides_load hread.orderly d settings.defaults
    have hload : d.load? catalog settings.defaults = some answer := hanswer
    simp only [hload]
    cases answer with
    | error e => exact ⟨_, rfl⟩
    | ok q =>
      obtain ⟨warnings, hwarnings⟩ := exists_warnings hread.built hload
      obtain ⟨outcome, houtcome⟩ := exists_compileQuery hread.built hload format
        { settings.layout with pretty := pretty || settings.layout.pretty } (totals || q.totals)
      exact ⟨outcome.warned warnings, by simp [hwarnings, houtcome]⟩

/-! ## Runs -/

section Runs
variable {m : Type → Type} [Monad m] [LawfulMonad m]

/-- A computation whose result is always there is one of such results. -/
theorem exists_map_some_bind {α β : Type} (x : m α) {f : α → m (Option β)}
    (h : ∀ a, ∃ y : m β, f a = some <$> y) : ∃ y : m β, (x >>= f) = some <$> y := by
  choose g hg using h
  exact ⟨x >>= g, by rw [map_bind, funext hg]⟩

theorem exists_map_some_pure {β : Type} {x : Option β} (h : ∃ y, x = some y) :
    ∃ y : m β, (pure x : m (Option β)) = some <$> y := by
  obtain ⟨y, rfl⟩ := h
  exact ⟨pure y, by rw [map_pure]⟩

theorem exists_withDocument (read : FileSource m) (file : String) {go : Document → Option Outcome}
    (h : ∀ text d, Document.ofText text = .ok d → ∃ outcome, go d = some outcome) :
    ∃ y : m Outcome, withDocument read file go = some <$> y := by
  refine exists_map_some_bind _ fun reading => ?_
  cases reading with
  | error e => exact exists_map_some_pure ⟨_, rfl⟩
  | ok text =>
    dsimp only
    split
    · exact exists_map_some_pure ⟨_, rfl⟩
    · next d hd => exact exists_map_some_pure (h text d hd)

theorem exists_withSettings (read : FileSource m) (environment config : Option String)
    {go : Settings → m (Option Outcome)} (h : ∀ s, ∃ y : m Outcome, go s = some <$> y) :
    ∃ y : m Outcome, withSettings read environment config go = some <$> y := by
  refine exists_map_some_bind _ fun loaded => ?_
  cases loaded with
  | error e => exact exists_map_some_pure ⟨_, rfl⟩
  | ok settings => exact h settings

/-- **Every run ends with an outcome**: what the command computes, with any files, environment and
arguments, is the computation of an outcome. -/
theorem exists_outcome (read : FileSource m) (environment : Option String)
    (arguments : List String) :
    ∃ y : m Outcome, run read environment arguments = some <$> y := by
  unfold run
  cases Request.ofArguments none arguments with
  | none => exact exists_map_some_pure ⟨_, rfl⟩
  | some request =>
    cases request with
    | version => exact exists_map_some_pure ⟨_, rfl⟩
    | compile config file format totals pretty =>
      refine exists_withSettings read _ _ fun settings => exists_withDocument read file ?_
      exact fun text d hd => exists_compileDocument hd settings format totals pretty
    | catalog config file =>
      exact exists_withSettings read _ _ fun _ =>
        exists_withDocument read file fun _ _ _ => ⟨_, rfl⟩

end Runs

end VisualQuery.Command
