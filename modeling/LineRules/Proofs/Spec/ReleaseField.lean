import LineRules.Proofs.Captures
import LineRules.Proofs.Decimal
import LineRules.Spec.Field

/-!
The lines that hold a release. Each of five forms has its own head; behind it come a release, which
starts with a digit, and white space to the end of the line. No head has a digit in it, so a line
falls into these parts in one way at most, and no head has two forms. The pattern of a form matches
exactly the lines of that form and captures the release.
-/
namespace LineRules.Spec

open Regex Decimal

inductive FieldForm where
  | tag
  | rel
  | release
  | function
  | baserelease
deriving DecidableEq, Repr

def Blanks (t : Text) : Prop :=
  ∀ c ∈ t, c = ' ' ∨ c = '\t'

instance (t : Text) : Decidable (Blanks t) :=
  List.decidableBAll (fun c => c = ' ' ∨ c = '\t') t

def SameFold (t w : Text) : Prop :=
  t.map Unicode.fold = w.map Unicode.fold

def DefineHead (name h : Text) : Prop :=
  ∃ gap space, Blanks gap ∧ gap ≠ [] ∧ Blanks space ∧ space ≠ [] ∧
    h = "%define" ++ (gap ++ (name ++ space))

namespace FieldForm

def Head : FieldForm → Text → Prop
  | .tag, h => ∃ name gap space, SameFold name "Release" ∧ Blanks gap ∧ Blanks space ∧
      h = name ++ (gap ++ (":" ++ space))
  | .rel, h => DefineHead "rel" h
  | .release, h => DefineHead "release" h
  | .function, h => ∃ name gap space function more, SameFold name "Release" ∧ Blanks gap ∧
      Blanks space ∧ space ≠ [] ∧ SameFold function "%release_func" ∧ Blanks more ∧ more ≠ [] ∧
      h = name ++ (gap ++ (":" ++ (space ++ (function ++ more))))
  | .baserelease, h => DefineHead "baserelease" h

def shape : FieldForm → List Regex
  | .tag => [textAnyCase "Release", blanks, text ":", blanks]
  | .rel => [text "%define", blanks1, text "rel", blanks1]
  | .release => [text "%define", blanks1, text "release", blanks1]
  | .function => [textAnyCase "Release", blanks, text ":", blanks1, textAnyCase "%release_func",
      blanks1]
  | .baserelease => [text "%define", blanks1, text "baserelease", blanks1]

def every : List FieldForm :=
  [.tag, .rel, .release, .function, .baserelease]

theorem mem_every (form : FieldForm) : form ∈ every := by
  cases form <;> decide

end FieldForm

theorem takes_blanks {t : Text} : blanks.Takes t ↔ Blanks t :=
  forall₂_congr fun _ _ => CharSet.mem_blank

theorem takes_blanks1 {t : Text} : blanks1.Takes t ↔ Blanks t ∧ t ≠ [] := by
  rw [blanks1, takes_many1, and_comm]
  exact and_congr_left fun _ => forall₂_congr fun _ _ => CharSet.mem_blank

theorem takes_define {name h : Text} :
    (all [text "%define", blanks1, text name, blanks1]).Takes h ↔ DefineHead name h := by
  simp only [takes_all_cons, takes_all_nil, takes_text, takes_blanks1]
  constructor
  · intro given
    obtain ⟨-, -, rfl, rfl, gap, -, rfl, ⟨blank, some⟩, -, -, rfl, rfl, space, -, rfl,
      ⟨blankToo, someToo⟩, rfl⟩ := given
    exact ⟨gap, space, blank, some, blankToo, someToo, by rw [List.append_nil]⟩
  · intro given
    obtain ⟨gap, space, blank, some, blankToo, someToo, rfl⟩ := given
    exact ⟨_, _, rfl, rfl, gap, _, rfl, ⟨blank, some⟩, _, _, rfl, rfl, space, [],
      (List.append_nil space).symm, ⟨blankToo, someToo⟩, rfl⟩

theorem takes_shape {form : FieldForm} {h : Text} : (all form.shape).Takes h ↔ form.Head h := by
  cases form with
  | tag =>
    simp only [FieldForm.shape, takes_all_cons, takes_all_nil, takes_text, takes_blanks,
      takes_textAnyCase]
    constructor
    · intro given
      obtain ⟨name, -, rfl, same, gap, -, rfl, blank, -, -, rfl, rfl, space, -, rfl, blankToo,
        rfl⟩ := given
      exact ⟨name, gap, space, same, blank, blankToo, by rw [List.append_nil]⟩
    · intro given
      obtain ⟨name, gap, space, same, blank, blankToo, rfl⟩ := given
      exact ⟨name, _, rfl, same, gap, _, rfl, blank, _, _, rfl, rfl, space, [],
        (List.append_nil space).symm, blankToo, rfl⟩
  | function =>
    simp only [FieldForm.shape, takes_all_cons, takes_all_nil, takes_text, takes_blanks,
      takes_blanks1, takes_textAnyCase]
    constructor
    · intro given
      obtain ⟨name, -, rfl, same, gap, -, rfl, blank, -, -, rfl, rfl, space, -, rfl,
        ⟨blankToo, some⟩, function, -, rfl, sameToo, more, -, rfl, ⟨last, someToo⟩, rfl⟩ := given
      exact ⟨name, gap, space, function, more, same, blank, blankToo, some, sameToo, last, someToo,
        by rw [List.append_nil]⟩
    · intro given
      obtain ⟨name, gap, space, function, more, same, blank, blankToo, some, sameToo, last, someToo,
        rfl⟩ := given
      exact ⟨name, _, rfl, same, gap, _, rfl, blank, _, _, rfl, rfl, space, _, rfl,
        ⟨blankToo, some⟩, function, _, rfl, sameToo, more, [], (List.append_nil more).symm,
        ⟨last, someToo⟩, rfl⟩
  | rel => exact takes_define
  | release => exact takes_define
  | baserelease => exact takes_define

theorem shape_plain (form : FieldForm) : ∀ r ∈ form.shape, r.Plain := by
  intro r member
  have options : (∃ w, r = text w) ∨ (∃ w, r = textAnyCase w) ∨ r = blanks ∨ r = blanks1 := by
    cases form <;> simp only [FieldForm.shape, List.mem_cons, List.not_mem_nil, or_false] at member
      <;> grind
  rcases options with ⟨w, rfl⟩ | ⟨w, rfl⟩ | rfl | rfl
  · exact plain_text w
  · exact plain_textAnyCase w
  · trivial
  · exact ⟨trivial, trivial⟩

def NoDigit (t : Text) : Prop :=
  ∀ c ∈ t, ¬IsDigit c

instance (t : Text) : Decidable (NoDigit t) :=
  List.decidableBAll (¬IsDigit ·) t

theorem noDigit_append {s t : Text} (one : NoDigit s) (two : NoDigit t) : NoDigit (s ++ t) :=
  fun c member => (List.mem_append.mp member).elim (one c) (two c)

theorem noDigit_blanks {t : Text} (blank : Blanks t) : NoDigit t := by
  intro c member
  rcases blank c member with rfl | rfl
  · decide
  · decide

theorem fold_digit {c : Char} (digit : IsDigit c) : Unicode.fold c = c := by
  have beyond : ∀ run ∈ Unicode.foldRuns, 58 ≤ run.first := by decide +kernel
  apply Unicode.fold_uncovered
  intro run member covered
  have low := ((Unicode.covers_iff run c.toNat).mp covered).1
  have high := ((isDigit_iff c).mp digit).2
  have above := beyond run member
  omega

theorem SameFold.head_fold {t w : Text} (same : SameFold t w) :
    t.head?.map Unicode.fold = w.head?.map Unicode.fold := by
  rw [← List.head?_map, same, List.head?_map]

theorem noDigit_sameFold {t w : Text} (same : SameFold t w) (plain : NoDigit (w.map Unicode.fold)) :
    NoDigit t := by
  intro c member digit
  refine plain c ?_ digit
  rw [← same, ← fold_digit digit]
  exact List.mem_map_of_mem member

theorem noDigit_define {name h : Text} (plain : NoDigit name) (head : DefineHead name h) :
    NoDigit h := by
  obtain ⟨gap, space, blank, -, blankToo, -, rfl⟩ := head
  have word : NoDigit "%define" := by decide
  exact noDigit_append word (noDigit_append (noDigit_blanks blank)
    (noDigit_append plain (noDigit_blanks blankToo)))

theorem noDigit_head {form : FieldForm} {h : Text} (head : form.Head h) : NoDigit h := by
  have release : NoDigit (("Release" : Text).map Unicode.fold) := by decide +kernel
  have word : NoDigit (("%release_func" : Text).map Unicode.fold) := by decide +kernel
  have colon : NoDigit ":" := by decide
  cases form with
  | tag =>
    obtain ⟨name, gap, space, same, blank, blankToo, rfl⟩ := head
    exact noDigit_append (noDigit_sameFold same release) (noDigit_append (noDigit_blanks blank)
      (noDigit_append colon (noDigit_blanks blankToo)))
  | function =>
    obtain ⟨name, gap, space, function, more, same, blank, blankToo, -, sameToo, last, -,
      rfl⟩ := head
    exact noDigit_append (noDigit_sameFold same release) (noDigit_append (noDigit_blanks blank)
      (noDigit_append colon (noDigit_append (noDigit_blanks blankToo)
        (noDigit_append (noDigit_sameFold sameToo word) (noDigit_blanks last)))))
  | rel => exact noDigit_define (by decide) head
  | release => exact noDigit_define (by decide) head
  | baserelease => exact noDigit_define (by decide) head

theorem first_digit_unique {h g t u : Text} (plain : NoDigit h) (plainToo : NoDigit g)
    (start : ∃ c, t.head? = some c ∧ IsDigit c) (startToo : ∃ c, u.head? = some c ∧ IsDigit c)
    (same : h ++ t = g ++ u) : h = g ∧ t = u := by
  obtain ⟨c, first, digit⟩ := start
  obtain ⟨d, firstToo, digitToo⟩ := startToo
  rcases List.append_eq_append_iff.mp same with ⟨z, longer, rest⟩ | ⟨z, longer, rest⟩
  · cases z with
    | nil => exact ⟨by rw [longer, List.append_nil], rest⟩
    | cons x z =>
      rw [rest, List.cons_append, List.head?_cons, Option.some.injEq] at first
      exact absurd digit (plainToo c (by rw [longer, ← first]; simp))
  · cases z with
    | nil => exact ⟨by rw [longer, List.append_nil], rest.symm⟩
    | cons x z =>
      rw [rest, List.cons_append, List.head?_cons, Option.some.injEq] at firstToo
      exact absurd digitToo (plain d (by rw [longer, ← firstToo]; simp))

/-- What tells the forms apart: a head without case and without blanks. -/
def core (t : Text) : Text :=
  (t.map Unicode.fold).filter fun c => c ≠ ' ' && c ≠ '\t'

theorem core_append (s t : Text) : core (s ++ t) = core s ++ core t := by
  simp [core]

theorem core_blanks {t : Text} (blank : Blanks t) : core t = [] := by
  have space : Unicode.fold ' ' = ' ' := by decide +kernel
  have tab : Unicode.fold '\t' = '\t' := by decide +kernel
  apply List.filter_eq_nil_iff.mpr
  intro c member
  obtain ⟨d, given, rfl⟩ := List.mem_map.mp member
  rcases blank d given with rfl | rfl
  · simp [space]
  · simp [tab]

theorem core_sameFold {t w : Text} (same : SameFold t w) : core t = core w := by
  rw [core, core, same]

def FieldForm.core : FieldForm → Text
  | .tag => "release:"
  | .rel => "%definerel"
  | .release => "%definerelease"
  | .function => "release:%release_func"
  | .baserelease => "%definebaserelease"

theorem core_define {name h : Text} (head : DefineHead name h) :
    core h = "%define" ++ core name := by
  have word : core "%define" = "%define" := by decide +kernel
  obtain ⟨gap, space, blank, -, blankToo, -, rfl⟩ := head
  simp only [core_append, core_blanks blank, core_blanks blankToo, word, List.nil_append,
    List.append_nil]

theorem core_head {form : FieldForm} {h : Text} (head : form.Head h) : core h = form.core := by
  cases form with
  | tag =>
    obtain ⟨name, gap, space, same, blank, blankToo, rfl⟩ := head
    simp only [core_append, core_blanks blank, core_blanks blankToo, core_sameFold same]
    decide +kernel
  | function =>
    obtain ⟨name, gap, space, function, more, same, blank, blankToo, -, sameToo, last, -,
      rfl⟩ := head
    simp only [core_append, core_blanks blank, core_blanks blankToo, core_blanks last,
      core_sameFold same, core_sameFold sameToo]
    decide +kernel
  | rel =>
    rw [core_define head]
    decide +kernel
  | release =>
    rw [core_define head]
    decide +kernel
  | baserelease =>
    rw [core_define head]
    decide +kernel

theorem head_unique {form other : FieldForm} {h : Text} (head : form.Head h)
    (too : other.Head h) : form = other := by
  have apart : ∀ f ∈ FieldForm.every, ∀ g ∈ FieldForm.every, f.core = g.core → f = g := by decide
  exact apart form form.mem_every other other.mem_every
    ((core_head head).symm.trans (core_head too))

structure ReleaseFirst (release space : Text) : Prop where
  starts : ∃ c, release.head? = some c ∧ IsDigit c
  oneLine : '\n' ∉ release
  trimmed : release.Trimmed
  onlySpace : space.AllSpace

/-- A line of a form: its head, a release, and white space. -/
structure Fits (form : FieldForm) (line head release space : Text) : Prop
    extends ReleaseFirst release space where
  parts : line = head ++ release ++ space
  isHead : form.Head head

theorem ReleaseFirst.ne_nil {r w : Text} (release : ReleaseFirst r w) : r ≠ [] := by
  obtain ⟨c, start, -⟩ := release.starts
  exact List.ne_nil_of_mem (List.mem_of_head? start)

theorem ReleaseFirst.starts_text {r w : Text} (release : ReleaseFirst r w) :
    ∃ c, (r ++ w).head? = some c ∧ IsDigit c := by
  obtain ⟨c, first, digit⟩ := release.starts
  exact ⟨c, by rw [List.head?_append, first, Option.some_or], digit⟩

/-- A line has one form at most, and falls into its parts in one way. -/
theorem fits_unique {form other : FieldForm} {line h g r s w v : Text}
    (fits : Fits form line h r w) (too : Fits other line g s v) :
    form = other ∧ h = g ∧ r = s ∧ w = v := by
  have same : h ++ (r ++ w) = g ++ (s ++ v) := by
    rw [← List.append_assoc, ← List.append_assoc, ← fits.parts, ← too.parts]
  obtain ⟨rfl, rest⟩ := first_digit_unique (noDigit_head fits.isHead) (noDigit_head too.isHead)
    fits.starts_text too.starts_text same
  have one := Text.trimEnd_unique fits.trimmed fits.onlySpace rfl
  have two := Text.trimEnd_unique too.trimmed too.onlySpace rest
  obtain rfl : r = s := one.trans two.symm
  exact ⟨head_unique fits.isHead too.isHead, rfl, rfl, List.append_cancel_left rest⟩

end LineRules.Spec
