import Mathlib.Data.List.Forall2
import VisualQuery.Statement.Sql

/-! # Reading a condition

A condition is read as it is written: texts joined by OR, each of them texts joined by AND, each of
these an atom or a condition in parentheses (`Reads`). What is inside parentheses belongs together,
so only the words outside of them join. Behind a text that is closed the next such word is the
first one, and so there is only one way to read a condition (`Reads.unique`). -/

namespace VisualQuery

inductive Condition where
  | atom (text : String)
  | join (c : Composition) (x y : Condition)
deriving DecidableEq, Repr

def Composition.keyword : Composition → List Char
  | .all => ['A', 'N', 'D']
  | .any => ['O', 'R']

def Composition.holds {α : Type} (c : Composition) (l : List α) (p : α → Bool) : Bool :=
  match c with
  | .all => l.all p
  | .any => l.any p

namespace Condition

def atoms : Condition → List String
  | .atom text => [text]
  | .join _ x y => x.atoms ++ y.atoms

def value (truth : String → Bool) : Condition → Bool
  | .atom text => truth text
  | .join .all x y => x.value truth && y.value truth
  | .join .any x y => x.value truth || y.value truth

end Condition

/-! ## Words and parentheses -/

namespace Text

def words (s : String) : List (List Char) := s.toList.splitOn ' '

/-- How many parentheses are open behind a character; none may be closed that is not open. -/
def nest (depth : Nat) (c : Char) : Option Nat :=
  if c = '(' then some (depth + 1)
  else if c = ')' then (if depth = 0 then none else some (depth - 1))
  else some depth

def nesting (depth : Nat) (cs : List Char) : Option Nat := cs.foldlM nest depth

/-- Every parenthesis is closed, and none that was not open. -/
def Closed (cs : List Char) : Prop := nesting 0 cs = some 0

section Nesting
variable {s t : String} {cs ds : List Char} {c : Char} {n m : Nat}

theorem eq_of_words (h : words s = words t) : s = t := by
  have hlist := congrArg (List.intercalate [' ']) h
  unfold words at hlist
  rw [List.intercalate_splitOn, List.intercalate_splitOn] at hlist
  exact String.toList_inj.mp hlist

theorem flatten_splitOn (cs : List Char) :
    (cs.splitOn ' ').flatten = cs.filter (· ≠ ' ') := by
  induction cs with
  | nil => rfl
  | cons c rest ih =>
    unfold List.splitOn at ih ⊢
    rw [List.splitOnP_cons_eq_if_modifyHead]
    obtain ⟨first, others, hwords⟩ :=
      List.exists_cons_of_ne_nil (List.splitOnP_ne_nil (· == ' ') rest)
    rw [hwords, List.flatten_cons] at ih
    rw [hwords]
    by_cases hc : c = ' ' <;> simp [hc, ih]

/-- A word between two spaces is one of the words. -/
theorem splitOn_word {w : List Char} (hw : ' ' ∉ w) (cs ds : List Char) :
    (cs ++ ' ' :: (w ++ ' ' :: ds)).splitOn ' ' = cs.splitOn ' ' ++ w :: ds.splitOn ' ' := by
  have hword : w.splitOnP (· == ' ') = [w] := by
    refine List.splitOnP_eq_singleton fun c hc => ?_
    rw [beq_eq_false_iff_ne]
    rintro rfl
    exact hw hc
  unfold List.splitOn
  rw [List.splitOnP_append_cons _ _ (by decide), List.splitOnP_append_cons _ _ (by decide), hword]
  rfl

theorem nesting_append (n : Nat) (cs ds : List Char) :
    nesting n (cs ++ ds) = (nesting n cs).bind fun m => nesting m ds := List.foldlM_append

theorem nesting_cons (n : Nat) (c : Char) (cs : List Char) :
    nesting n (c :: cs) = (nest n c).bind fun m => nesting m cs := List.foldlM_cons

theorem nesting_eq_self (h : ∀ c ∈ cs, c ≠ '(' ∧ c ≠ ')') (n : Nat) : nesting n cs = some n := by
  induction cs with
  | nil => rfl
  | cons c rest ih =>
    obtain ⟨ho, hc⟩ := h c (by simp)
    rw [nesting_cons, nest, if_neg ho, if_neg hc]
    exact ih fun d hd => h d (List.mem_cons_of_mem _ hd)

theorem nest_add (h : nest n c = some m) (k : Nat) : nest (n + k) c = some (m + k) := by
  unfold nest at *
  split_ifs at h ⊢ <;> simp_all <;> omega

/-- Parentheses that are open around a text stay open. -/
theorem nesting_add (h : nesting n cs = some m) (k : Nat) :
    nesting (n + k) cs = some (m + k) := by
  induction cs generalizing n with
  | nil =>
    cases h
    rfl
  | cons c rest ih =>
    rw [nesting_cons] at h ⊢
    obtain ⟨d, hd, h⟩ := Option.bind_eq_some_iff.mp h
    rw [nest_add hd]
    exact ih h

/-- Spaces do not matter. -/
theorem nesting_filter (n : Nat) (cs : List Char) :
    nesting n (cs.filter (· ≠ ' ')) = nesting n cs := by
  induction cs generalizing n with
  | nil => rfl
  | cons c rest ih =>
    rw [nesting_cons]
    by_cases hc : c = ' '
    · subst hc
      exact ih n
    · rw [List.filter_cons_of_pos (by simpa using hc), nesting_cons]
      simp only [ih]

theorem Closed.append (hc : Closed cs) (hd : Closed ds) : Closed (cs ++ ds) := by
  rw [Closed, nesting_append, hc]
  exact hd

theorem Closed.of_append (hc : Closed cs) (h : Closed (cs ++ ds)) : Closed ds := by
  rw [Closed, nesting_append, hc] at h
  exact h

theorem closed_words_iff : Closed (words s).flatten ↔ Closed s.toList := by
  rw [words, flatten_splitOn, Closed, nesting_filter, Closed]

theorem Closed.group (h : Closed cs) : Closed ('(' :: (cs ++ [')'])) := by
  have hinside : nesting 1 cs = some 1 := nesting_add h 1
  rw [Closed, nesting_cons, show nest 0 '(' = some 1 from rfl, Option.bind_some, nesting_append,
    hinside]
  rfl

/-- A parenthesis stays open as long as what follows is the beginning of something closed. -/
theorem not_closed_open (h : Closed (cs ++ ds)) : ¬ Closed ('(' :: cs) := by
  rw [Closed, nesting_append] at h
  obtain ⟨k, hk, _⟩ := Option.bind_eq_some_iff.mp h
  have hopen := nesting_add hk 1
  intro hclosed
  rw [Closed, nesting_cons, show nest 0 '(' = some 1 from rfl, Option.bind_some] at hclosed
  rw [Nat.zero_add, hclosed] at hopen
  cases hopen

end Nesting

end Text

open Text

/-- The word of a composition stands in a text outside all parentheses. -/
def TopWord (c : Composition) (s : String) : Prop :=
  ∃ before after, words s = before ++ c.keyword :: after ∧ Closed before.flatten

structure IsAtom (s : String) : Prop where
  closed : Closed s.toList
  /-- What begins with a parenthesis is a group. -/
  head : s.toList.head? ≠ some '('
  apart : ∀ c, ¬ TopWord c s

/-! ## Reading -/

/-- What a text can be read as: one operand, or operands joined by the word of a composition. -/
inductive Rank where
  | operand
  | joined (c : Composition)
deriving DecidableEq, Repr

/-- What the word of a composition joins: AND joins operands, and OR what AND has joined. -/
def Composition.tighter : Composition → Rank
  | .all => .operand
  | .any => .joined .all

inductive Reads : Rank → String → Condition → Prop where
  | atom {s : String} (h : IsAtom s) : Reads .operand s (.atom s)
  | group {s : String} {x : Condition} (h : Reads (.joined .any) s x) :
    Reads .operand ("(" ++ s ++ ")") x
  | single {c : Composition} {s : String} {x : Condition} (h : Reads c.tighter s x) :
    Reads (.joined c) s x
  | join {c : Composition} {s t : String} {x y : Condition} (h : Reads c.tighter s x)
    (ht : Reads (.joined c) t y) : Reads (.joined c) (s ++ c.connective ++ t) (.join c x y)

variable {c c' : Composition} {s t s' t' : String} {r : Rank} {x y : Condition}

/-! ## Words outside parentheses -/

theorem keyword_injective (h : c.keyword = c'.keyword) : c = c' := by
  cases c <;> cases c' <;> first | rfl | cases h

theorem closed_keyword (c : Composition) : Closed c.keyword := by
  cases c <;> rfl

theorem toList_join (c : Composition) (s t : String) :
    (s ++ c.connective ++ t).toList = s.toList ++ ' ' :: (c.keyword ++ ' ' :: t.toList) := by
  cases c <;> simp [Composition.connective, Composition.keyword]

theorem words_join (c : Composition) (s t : String) :
    words (s ++ c.connective ++ t) = words s ++ c.keyword :: words t := by
  unfold words
  rw [toList_join, splitOn_word (by cases c <;> decide)]

/-- The word that joins two texts stands outside parentheses. -/
theorem topWord_join (hs : Closed s.toList) (t : String) : TopWord c (s ++ c.connective ++ t) :=
  ⟨words s, words t, words_join c s t, closed_words_iff.mpr hs⟩

/-- Any other word outside parentheses was there before. -/
theorem topWord_of_join (hs : Closed s.toList) (h : TopWord c' (s ++ c.connective ++ t)) :
    c = c' ∨ TopWord c' s ∨ TopWord c' t := by
  obtain ⟨before, after, hwords, hclosed⟩ := h
  rw [words_join] at hwords
  rcases List.append_eq_append_iff.mp hwords with ⟨between, rfl, ht⟩ | ⟨between, hs', ht⟩
  · cases between with
    | nil => exact .inl (keyword_injective (List.cons.inj ht).1)
    | cons k rest =>
      rw [List.cons_append] at ht
      obtain ⟨rfl, hrest⟩ := List.cons.inj ht
      refine .inr (.inr ⟨rest, after, hrest, ?_⟩)
      rw [List.flatten_append, List.flatten_cons] at hclosed
      exact (closed_keyword c).of_append ((closed_words_iff.mpr hs).of_append hclosed)
  · cases between with
    | nil => exact .inl (keyword_injective (List.cons.inj ht).1).symm
    | cons k rest =>
      obtain ⟨rfl, _⟩ := List.cons.inj ht
      exact .inr (.inl ⟨before, rest, hs', hclosed⟩)

/-- A text is cut in one way at the first word outside parentheses. -/
theorem join_cut (hs : Closed s.toList) (hs' : Closed s'.toList) (hw : ¬ TopWord c s)
    (hw' : ¬ TopWord c s') (h : s ++ c.connective ++ t = s' ++ c.connective ++ t') :
    s = s' ∧ t = t' := by
  have hwords := congrArg words h
  rw [words_join, words_join] at hwords
  rcases List.append_eq_append_iff.mp hwords with ⟨between, hsame, ht⟩ | ⟨between, hsame, ht⟩
  · cases between with
    | nil =>
      rw [List.append_nil] at hsame
      exact ⟨eq_of_words hsame.symm, eq_of_words (List.cons.inj ht).2⟩
    | cons k rest =>
      obtain ⟨rfl, _⟩ := List.cons.inj ht
      exact absurd ⟨words s, rest, hsame, closed_words_iff.mpr hs⟩ hw'
  · cases between with
    | nil =>
      rw [List.append_nil] at hsame
      exact ⟨eq_of_words hsame, eq_of_words (List.cons.inj ht).2.symm⟩
    | cons k rest =>
      obtain ⟨rfl, _⟩ := List.cons.inj ht
      exact absurd ⟨words s', rest, hsame, closed_words_iff.mpr hs'⟩ hw

theorem head_group (s : String) : ("(" ++ s ++ ")").toList.head? = some '(' := by
  simp

/-- Inside parentheses there are no words outside of them. -/
theorem not_topWord_group (hs : Closed s.toList) : ¬ TopWord c ("(" ++ s ++ ")") := by
  intro h
  obtain ⟨before, after, hwords, hclosed⟩ := h
  have hflat : before.flatten ++ (c.keyword ++ after.flatten) =
      '(' :: (s.toList.filter (· ≠ ' ') ++ [')']) := by
    have hall := flatten_splitOn ("(" ++ s ++ ")").toList
    rw [← words, hwords] at hall
    simpa using hall
  rw [← closed_words_iff, words, flatten_splitOn] at hs
  cases hb : before.flatten with
  | nil =>
    rw [hb] at hflat
    cases c <;> simp [Composition.keyword] at hflat
  | cons p rest =>
    rw [hb, List.cons_append] at hflat
    obtain ⟨rfl, hrest⟩ := List.cons.inj hflat
    rcases List.append_eq_append_iff.mp hrest with ⟨between, hsame, _⟩ | ⟨between, _, hend⟩
    · rw [hsame] at hs
      exact not_closed_open hs (hb ▸ hclosed)
    · have hlength := congrArg List.length hend
      cases c <;> simp [Composition.keyword] at hlength <;> omega

/-! ## One reading -/

/-- What is read at a rank has none of these words outside parentheses. -/
def Rank.Excludes : Rank → Composition → Prop
  | .operand, _ => True
  | .joined .all, .any => True
  | _, _ => False

theorem excludes_tighter (c : Composition) : c.tighter.Excludes c := by
  cases c <;> trivial

theorem Rank.Excludes.of_joined (h : (Rank.joined c).Excludes c') : c.tighter.Excludes c' := by
  cases c
  · trivial
  · cases c' <;> exact h.elim

theorem Rank.Excludes.ne (h : (Rank.joined c).Excludes c') : c ≠ c' := by
  cases c <;> cases c' <;> first | exact h.elim | decide

namespace Reads

theorem closed (h : Reads r s x) : Closed s.toList := by
  induction h with
  | atom h => exact h.closed
  | group _ ih => simpa using ih.group
  | single _ ih => exact ih
  | @join c s t _ _ _ _ ih iht =>
    have hspace : Closed [' '] := rfl
    rw [toList_join]
    exact ih.append (hspace.append ((closed_keyword c).append (hspace.append iht)))

theorem not_topWord (h : Reads r s x) (hr : r.Excludes c) : ¬ TopWord c s := by
  induction h with
  | atom h => exact h.apart c
  | group h _ => exact not_topWord_group h.closed
  | single _ ih => exact ih hr.of_joined
  | join h _ ih iht =>
    intro hw
    rcases topWord_of_join h.closed hw with he | hw | hw
    · exact hr.ne he
    · exact ih hr.of_joined hw
    · exact iht hr hw

theorem eq_of_text (h : Reads r s x) : ∀ s' y, Reads r s' y → s = s' → x = y := by
  induction h with
  | atom h =>
    intro s' y h' hs
    subst hs
    cases h' with
    | atom _ => rfl
    | group _ => exact absurd (head_group _) h.head
  | @group s x h ih =>
    intro s' y h' hs
    cases h' with
    | atom h' => exact absurd (hs ▸ head_group s) h'.head
    | @group t y h' =>
      have hinside : s.toList = t.toList := by simpa using congrArg String.toList hs
      exact ih t y h' (String.toList_inj.mp hinside)
  | @single c s x h ih =>
    intro s' y h' hs
    cases h' with
    | single h' => exact ih s' y h' hs
    | @join _ s₁ t₁ _ _ h' _ =>
      rw [hs] at h
      exact absurd (topWord_join h'.closed t₁) (h.not_topWord (excludes_tighter c))
  | @join c s t x y h ht ih iht =>
    intro s' z h' hs
    cases h' with
    | single h' =>
      rw [← hs] at h'
      exact absurd (topWord_join h.closed t) (h'.not_topWord (excludes_tighter c))
    | @join _ s₁ t₁ _ _ h' ht' =>
      have hex := excludes_tighter c
      obtain ⟨rfl, rfl⟩ :=
        join_cut h.closed h'.closed (h.not_topWord hex) (h'.not_topWord hex) hs
      rw [ih _ _ h' rfl, iht _ _ ht' rfl]

/-- **There is one way to read a condition.** -/
theorem unique (h : Reads r s x) (h' : Reads r s y) : x = y := h.eq_of_text s y h' rfl

end Reads

/-! ## Writing -/

/-- Texts that are joined by the word of a composition are read as the composition of what they
are read as. -/
theorem exists_reads_intercalate {ss : List String} {xs : List Condition} (hne : ss ≠ [])
    (h : List.Forall₂ (Reads c.tighter) ss xs) :
    ∃ x, Reads (.joined c) (c.connective.intercalate ss) x ∧ x.atoms = xs.flatMap (·.atoms) ∧
      ∀ truth, x.value truth = c.holds xs (·.value truth) := by
  induction h with
  | nil => exact absurd rfl hne
  | @cons s x ss xs hx hxs ih =>
    cases hxs with
    | nil =>
      rw [String.intercalate_singleton]
      refine ⟨x, .single hx, by simp, fun truth => ?_⟩
      cases c <;> simp [Composition.holds]
    | @cons t y ss xs hy hxs =>
      obtain ⟨z, hz, hatoms, hvalue⟩ := ih (by simp)
      rw [String.intercalate_cons_cons]
      refine ⟨.join c x z, .join hx hz, ?_, fun truth => ?_⟩
      · simp only [Condition.atoms, hatoms, List.flatMap_cons]
      · cases c <;> simp [Condition.value, hvalue, Composition.holds]

end VisualQuery
