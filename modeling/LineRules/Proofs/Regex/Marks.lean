import LineRules.Proofs.Regex.First
import LineRules.Regex.Expr

/-!
Marks change nothing that is found. What is tried behind a mark depends on the position only, apart
from the groups, so where it failed once it fails again. The marks of an expression are numbered in
the order in which they are met, and met in this order or behind some characters. So those that can
still be met at a position were either not passed there yet or passed in vain, and no way to match
is lost.
-/
namespace LineRules

namespace Cursor

def Within (t : Text) (c : Cursor) : Prop :=
  ∃ done rest groups, t = done ++ rest ∧ c = .between done rest groups

variable {t : Text} {c d : Cursor}

theorem Within.start (t : Text) : (Cursor.start t).Within t :=
  ⟨[], t, [], rfl, rfl⟩

theorem Within.record (within : c.Within t) (n start : Nat) : (c.record n start).Within t := by
  obtain ⟨done, rest, groups, whole, rfl⟩ := within
  exact ⟨done, rest, _, whole, rfl⟩

theorem Within.advance (within : c.Within t) : c.advance.Within t := by
  obtain ⟨done, rest, groups, whole, rfl⟩ := within
  cases rest with
  | nil => exact ⟨done, [], groups, whole, rfl⟩
  | cons x rest => exact ⟨done ++ [x], rest, groups, by simp [whole], between_advance ..⟩

theorem Within.rest_le (within : c.Within t) : c.rest.length ≤ t.length := by
  obtain ⟨done, rest, groups, rfl, rfl⟩ := within
  simp [between]

theorem offset_advance {x : Char} {rest : Text} (here : c.rest = x :: rest) :
    c.offset < c.advance.offset := by
  have positive := x.utf8Size_pos
  simp only [Cursor.advance, here]
  omega

theorem Within.bare_eq (one : c.Within t) (two : d.Within t) (same : c.offset = d.offset) :
    c.bare = d.bare := by
  obtain ⟨u, v, groups, rfl, rfl⟩ := one
  obtain ⟨u', v', groups', whole, rfl⟩ := two
  have split := Text.splitAt_append u v
  rw [show u.byteLength = u'.byteLength from same, whole, Text.splitAt_append] at split
  obtain ⟨rfl, rfl⟩ := Prod.mk.inj (Option.some.inj split)
  rfl

end Cursor

namespace Regex

variable {t : Text} {c d : Cursor}

theorem reach_within {s : CharSet} {rest : Text} (within : c.Within t)
    (member : d ∈ reach s rest c) : d.Within t ∧ c.offset ≤ d.offset := by
  induction rest generalizing c with
  | nil =>
    obtain rfl : d = c := List.mem_singleton.mp member
    exact ⟨within, Nat.le_refl _⟩
  | cons x rest ih =>
    rcases List.mem_cons.mp member with rfl | later
    · exact ⟨within, Nat.le_refl _⟩
    · split at later
      · obtain ⟨inside, far⟩ := ih within.advance later
        refine ⟨inside, Nat.le_trans ?_ far⟩
        cases here : c.rest with
        | nil => simp [Cursor.advance, here]
        | cons y rest => exact Nat.le_of_lt (Cursor.offset_advance here)
      · simp at later

theorem ways_within {r : Regex} (within : c.Within t) (member : d ∈ r.ways c) :
    d.Within t ∧ c.offset ≤ d.offset := by
  induction r generalizing c d with
  | empty =>
    obtain rfl : d = c := List.mem_singleton.mp member
    exact ⟨within, Nat.le_refl _⟩
  | set s =>
    simp only [ways] at member
    cases here : c.rest with
    | nil => simp [here] at member
    | cons x rest =>
      simp only [here] at member
      split at member
      · obtain rfl : d = c.advance := List.mem_singleton.mp member
        exact ⟨within.advance, Nat.le_of_lt (Cursor.offset_advance here)⟩
      · simp at member
  | look l =>
    simp only [ways] at member
    split at member
    · obtain rfl : d = c := List.mem_singleton.mp member
      exact ⟨within, Nat.le_refl _⟩
    · simp at member
  | seq a b first second =>
    obtain ⟨m, one, two⟩ := List.mem_flatMap.mp member
    obtain ⟨inside, near⟩ := first within one
    obtain ⟨inside, far⟩ := second inside two
    exact ⟨inside, Nat.le_trans near far⟩
  | alt a b first second =>
    rcases List.mem_append.mp member with one | two
    · exact first within one
    · exact second within two
  | group n a inner =>
    obtain ⟨m, one, rfl⟩ := List.mem_map.mp member
    obtain ⟨inside, far⟩ := inner within one
    exact ⟨inside.record _ _, far⟩
  | star greedy a =>
    cases a with
    | set s =>
      cases greedy with
      | true => exact reach_within within (List.mem_reverse.mp member)
      | false => exact reach_within within member
    | _ => simp [ways] at member
  | once mark => simp [ways] at member

/-- The ways to match at a position lead to the same positions, whatever the groups are. -/
theorem ways_offset (r : Regex) (one : c.Within t) (two : d.Within t)
    (same : c.offset = d.offset) :
    (r.ways c).map (·.offset) = (r.ways d).map (·.offset) := by
  have ends (c : Cursor) : (r.ways c).map (·.offset) =
      ((r.ways c).map Cursor.bare).map (·.offset) := by
    rw [List.map_map]
    rfl
  rw [ends c, ends d, ways_bare r c, ways_bare r d, one.bare_eq two same]

section Leads

/-- Of the marks passed so far, those from a number on were passed in vain, from a position on. -/
def Clear (doomed : Nat → Nat → Prop) (mark offset : Nat) (passed : Marks) : Prop :=
  ∀ m o, (m, o) ∈ passed → mark ≤ m → offset ≤ o → doomed m o

/-- The same, but for this mark at this position itself. -/
def ClearBut (doomed : Nat → Nat → Prop) (mark offset : Nat) (passed : Marks) : Prop :=
  ∀ m o, (m, o) ∈ passed → mark ≤ m → offset ≤ o → ¬(m = mark ∧ o = offset) → doomed m o

/-- The marks that were added have a number from a given one on, and were passed in vain. -/
def Grown (doomed : Nat → Nat → Prop) (mark : Nat) (passed later : Marks) : Prop :=
  ∀ m o, (m, o) ∈ later → (m, o) ∈ passed ∨ mark ≤ m ∧ doomed m o

/-- The outcome that is expected, where marks are only added in vain. -/
def Resolves (doomed : Nat → Nat → Prop) (mark : Nat) (passed : Marks) :
    Outcome → Option Cursor → Prop
  | .ok d, expected => expected = some d
  | .error later, expected => expected = none ∧ Grown doomed mark passed later

/-- Going on with marks, from a number on, comes to what going on without them comes to. Where that
is in vain depends on the position only. -/
structure Leads (t : Text) (doomed : Nat → Nat → Prop) (vain : Nat → Prop) (mark : Nat)
    (next : Continuation) (k : Cursor → Option Cursor) : Prop where
  vain_iff : ∀ c, c.Within t → (k c = none ↔ vain c.offset)
  resolves : ∀ c passed, c.Within t → Clear doomed mark c.offset passed →
    Resolves doomed mark passed (next c passed) (k c)

variable {doomed other : Nat → Nat → Prop} {vain : Nat → Prop} {mark more offset : Nat}
  {passed later : Marks} {next : Continuation} {k : Cursor → Option Cursor}

theorem Grown.refl : Grown doomed mark passed passed :=
  fun _ _ member => .inl member

theorem Grown.trans {last : Marks} (one : Grown doomed mark passed later)
    (two : Grown doomed mark later last) : Grown doomed mark passed last := by
  intro m o member
  rcases two m o member with before | new
  · exact one m o before
  · exact .inr new

theorem Clear.grown (clear : Clear doomed mark offset passed)
    (grown : Grown doomed more passed later) : Clear doomed mark offset later := by
  intro m o member high behind
  rcases grown m o member with before | new
  · exact clear m o before high behind
  · exact new.2

theorem Clear.behind {far : Nat} (clear : Clear doomed mark offset passed) (le : offset ≤ far) :
    Clear doomed mark far passed :=
  fun m o member high behind => clear m o member high (Nat.le_trans le behind)

theorem Resolves.cases {out : Outcome} {expected : Option Cursor}
    (resolves : Resolves doomed mark passed out expected) :
    (∃ d, out = .ok d ∧ expected = some d) ∨
      ∃ later, out = .error later ∧ expected = none ∧ Grown doomed mark passed later := by
  cases out with
  | ok d => exact .inl ⟨d, rfl, resolves⟩
  | error later => exact .inr ⟨later, rfl, resolves⟩

theorem Resolves.or {out : Outcome} {expected : Option Cursor} {again : Marks → Outcome}
    {otherwise : Option Cursor} (one : Resolves doomed mark passed out expected)
    (two : ∀ later, Grown doomed mark passed later →
      Resolves doomed mark later (again later) otherwise) :
    Resolves doomed mark passed (out.tryCatch again) (expected.or otherwise) := by
  rcases one.cases with ⟨d, rfl, rfl⟩ | ⟨later, rfl, rfl, grown⟩
  · rfl
  · change Resolves doomed mark passed (again later) otherwise
    rcases (two later grown).cases with ⟨d, gives, rfl⟩ | ⟨last, gives, rfl, more⟩
    · rw [gives]
      rfl
    · rw [gives]
      exact ⟨rfl, grown.trans more⟩

theorem Resolves.mono {out : Outcome} {expected : Option Cursor}
    (resolves : Resolves doomed more passed out expected) (le : mark ≤ more)
    (same : ∀ m o, more ≤ m → doomed m o → other m o) :
    Resolves other mark passed out expected := by
  cases out with
  | ok d => exact resolves
  | error later =>
    refine ⟨resolves.1, fun m o member => ?_⟩
    rcases resolves.2 m o member with before | ⟨high, new⟩
    · exact .inl before
    · exact .inr ⟨Nat.le_trans le high, same m o high new⟩

theorem Leads.tryEach (leads : Leads t doomed vain mark next k) {cs : List Cursor}
    (inside : ∀ d ∈ cs, d.Within t ∧ offset ≤ d.offset)
    (clear : Clear doomed mark offset passed) :
    Resolves doomed mark passed (tryEach next cs passed) (cs.findSome? k) := by
  induction cs generalizing passed with
  | nil => exact ⟨rfl, .refl⟩
  | cons d cs ih =>
    obtain ⟨⟨within, far⟩, inside⟩ := List.forall_mem_cons.mp inside
    have both := (leads.resolves d passed within (clear.behind far)).or
      fun later grown => ih inside (clear.grown grown)
    have parts : (d :: cs).findSome? k = (k d).or (cs.findSome? k) := by
      rw [List.findSome?_cons]
      cases k d <;> rfl
    rw [parts]
    exact both

def VainBehind (t : Text) (r : Regex) (vain : Nat → Prop) (offset : Nat) : Prop :=
  ∀ c, c.Within t → c.offset = offset → ∀ d ∈ r.ways c, vain d.offset

theorem first_vain {r : Regex} (goes : ∀ c, c.Within t → (k c = none ↔ vain c.offset))
    (within : c.Within t) : r.first c k = none ↔ VainBehind t r vain c.offset := by
  rw [first_eq_none]
  constructor
  · intro none d same offset e member
    have ends : e.offset ∈ (r.ways c).map (·.offset) :=
      ways_offset r same within offset ▸ List.mem_map_of_mem member
    obtain ⟨e', member, offset⟩ := List.mem_map.mp ends
    rw [← offset]
    exact (goes e' (ways_within within member).1).mp (none e' member)
  · intro behind d member
    exact (goes d (ways_within within member).1).mpr (behind c within rfl d member)

theorem Leads.simple (leads : Leads t doomed vain mark next k) {r : Regex} (simple : r.Simple)
    {rounds : Nat} (enough : t.length ≤ rounds) :
    Leads t doomed (VainBehind t r vain) mark (fun c passed => r.run rounds c passed next)
      (fun c => r.first c k) := by
  refine ⟨fun c within => first_vain leads.vain_iff within, fun c passed within clear => ?_⟩
  rw [run_ways simple (Nat.le_trans within.rest_le enough)]
  exact leads.tryEach (fun d member => ways_within within member) clear

def marking (mark : Nat) (vain : Nat → Prop) (doomed : Nat → Nat → Prop) (m o : Nat) : Prop :=
  if m = mark then vain o else doomed m o

theorem marking_here (mark : Nat) : marking mark vain doomed mark offset ↔ vain offset := by
  rw [marking, if_pos rfl]

theorem marking_other {m : Nat} (after : mark + 1 ≤ m) :
    marking mark vain doomed m offset ↔ doomed m offset := by
  rw [marking, if_neg (by omega)]

theorem run_seq (rounds : Nat) (a b : Regex) (c : Cursor) (passed : Marks) (next : Continuation) :
    (Regex.seq a b).run rounds c passed next =
      a.run rounds c passed fun d passed => b.run rounds d passed next :=
  rfl

theorem resolves_once {rounds : Nat} {expected : Option Cursor}
    (vain : expected = none ↔ doomed mark c.offset)
    (known : (mark, c.offset) ∈ passed → doomed mark c.offset)
    (goes : Resolves doomed mark (passed.insert (mark, c.offset))
      (next c (passed.insert (mark, c.offset))) expected) :
    Resolves doomed mark passed ((once mark).run rounds c passed next) expected := by
  rw [run]
  split
  · rename_i met
    exact ⟨vain.mpr (known (Std.HashSet.contains_iff_mem.mp met)), .refl⟩
  · rcases goes.cases with ⟨d, out, rfl⟩ | ⟨later, out, rfl, grown⟩
    · rw [out]
      rfl
    · rw [out]
      refine ⟨rfl, fun m o member => ?_⟩
      rcases grown m o member with before | new
      · rw [Std.HashSet.mem_insert, beq_iff_eq, Prod.mk.injEq] at before
        rcases before with ⟨rfl, rfl⟩ | before
        · exact .inr ⟨Nat.le_refl _, vain.mp rfl⟩
        · exact .inl before
      · exact .inr new

theorem Clear.insert (clear : Clear doomed mark offset passed) :
    ClearBut doomed mark offset (passed.insert (mark, offset)) := by
  intro m o member high behind elsewhere
  rw [Std.HashSet.mem_insert, beq_iff_eq, Prod.mk.injEq] at member
  rcases member with ⟨rfl, rfl⟩ | before
  · exact absurd ⟨rfl, rfl⟩ elsewhere
  · exact clear m o before high behind

theorem ClearBut.unmarked {behind : Nat → Prop}
    (clear : ClearBut (marking mark behind doomed) mark offset passed) :
    Clear doomed (mark + 1) offset passed :=
  fun m o member after far => (marking_other after).mp
    (clear m o member (Nat.le_of_succ_le after) far fun same => absurd same.1 (by omega))

theorem ClearBut.grown (clear : ClearBut doomed mark offset passed)
    (grown : Grown doomed more passed later) : ClearBut doomed mark offset later := by
  intro m o member high behind elsewhere
  rcases grown m o member with before | new
  · exact clear m o before high behind elsewhere
  · exact new.2

theorem ClearBut.ahead {far : Nat} (clear : ClearBut doomed mark offset passed)
    (lt : offset < far) : Clear doomed mark far passed :=
  fun m o member high behind =>
    clear m o member high (by omega) fun same => absurd same.2 (by omega)

theorem Leads.leave {behind : Nat → Prop} (leads : Leads t doomed vain (mark + 1) next k)
    (within : c.Within t) (clear : ClearBut (marking mark behind doomed) mark c.offset passed) :
    Resolves (marking mark behind doomed) mark passed (next c passed) (k c) :=
  (leads.resolves c passed within clear.unmarked).mono (Nat.le_succ mark)
    fun _ _ after doom => (marking_other after).mpr doom

theorem Leads.once (leads : Leads t doomed vain (mark + 1) next k) (rounds : Nat) :
    Leads t (marking mark vain doomed) vain mark
      (fun c passed => (once mark).run rounds c passed next) k := by
  refine ⟨leads.vain_iff, fun c passed within clear => ?_⟩
  apply resolves_once
  · rw [marking_here]
    exact leads.vain_iff c within
  · exact fun met => clear mark c.offset met (Nat.le_refl _) (Nat.le_refl _)
  · exact leads.leave within clear.insert

theorem first_star (greedy : Bool) (s : CharSet) (within : c.Within t) :
    (star greedy (set s)).first c k =
      let more := match c.rest with
        | [] => none
        | x :: _ => if s.mem x then (star greedy (set s)).first c.advance k else none
      if greedy then more.or (k c) else (k c).or more := by
  obtain ⟨done, rest, groups, -, rfl⟩ := within
  have here : (Cursor.between done rest groups).rest = rest := rfl
  cases rest with
  | nil =>
    cases greedy with
    | true => exact first_many_nil s done groups
    | false => exact (first_fewest_nil s done groups).trans (Option.or_none).symm
  | cons x rest =>
    rw [here, Cursor.between_advance]
    cases greedy with
    | true => exact first_many_cons s done x rest groups
    | false => exact first_fewest_cons s done x rest groups

/-- One round is a character of the set, the mark behind it, and the rounds that follow. -/
theorem resolves_round {rounds : Nat} {s : CharSet} {again : Continuation}
    {k : Cursor → Option Cursor}
    (goes : c.offset < c.advance.offset → c.advance.rest.length < c.rest.length →
      Resolves doomed mark passed ((once mark).run rounds c.advance passed again) (k c.advance)) :
    Resolves doomed mark passed
      ((Regex.seq (.set s) (.once mark)).run rounds c passed again)
      (match c.rest with
        | [] => none
        | x :: _ => if s.mem x then k c.advance else none) := by
  simp only [run] at goes ⊢
  cases here : c.rest with
  | nil => exact ⟨rfl, .refl⟩
  | cons x rest =>
    by_cases fits : s.mem x
    · simp only [fits, if_true]
      exact goes (Cursor.offset_advance here) (by simp [Cursor.advance, here])
    · simp only [fits]
      exact ⟨rfl, .refl⟩

/-- Where the continuation of a loop over a set is in vain, whatever number of rounds it is behind. -/
def LoopVain (t : Text) (greedy : Bool) (s : CharSet) (vain : Nat → Prop) : Nat → Prop :=
  VainBehind t (.star greedy (.set s)) vain

theorem Leads.rounds (leads : Leads t doomed vain (mark + 1) next k) (greedy : Bool) (s : CharSet)
    {rounds left : Nat} (within : c.Within t) (enough : c.rest.length ≤ left)
    (clear : ClearBut (marking mark (LoopVain t greedy s vain) doomed) mark c.offset passed) :
    Resolves (marking mark (LoopVain t greedy s vain) doomed) mark passed
      (iterate greedy ((Regex.seq (.set s) (.once mark)).run rounds) next left c passed)
      ((star greedy (set s)).first c k) := by
  induction left generalizing c passed with
  | zero =>
    have nothing : c.rest = [] := List.length_eq_zero_iff.mp (Nat.le_zero.mp enough)
    rw [first_star greedy s within, iterate]
    cases greedy <;> simpa [nothing] using leads.leave within clear
  | succ left ih =>
    let again : Continuation :=
      iterate greedy ((Regex.seq (.set s) (.once mark)).run rounds) next left
    have round (now : Marks)
        (clear : ClearBut (marking mark (LoopVain t greedy s vain) doomed) mark c.offset now) :
        Resolves (marking mark (LoopVain t greedy s vain) doomed) mark now
          ((Regex.seq (.set s) (.once mark)).run rounds c now again)
          (match c.rest with
            | [] => none
            | x :: _ => if s.mem x then (star greedy (set s)).first c.advance k else none) := by
      apply resolves_round (k := fun c => (star greedy (set s)).first c k)
      intro far shorter
      have ahead := clear.ahead far
      apply resolves_once
      · rw [marking_here]
        exact first_vain leads.vain_iff within.advance
      · exact fun met => ahead mark _ met (Nat.le_refl _) (Nat.le_refl _)
      · exact ih within.advance (by omega) ahead.insert
    rw [first_star greedy s within, iterate]
    cases greedy with
    | true => exact (round passed clear).or fun now grown => leads.leave within (clear.grown grown)
    | false => exact (leads.leave within clear).or fun now grown => round now (clear.grown grown)

theorem Leads.loop (leads : Leads t doomed vain (mark + 1) next k) (greedy : Bool) (s : CharSet)
    {rounds : Nat} (enough : t.length ≤ rounds) :
    Leads t (marking mark (LoopVain t greedy s vain) doomed) (LoopVain t greedy s vain) mark
      (fun c passed =>
        (Regex.seq (.once mark) (.star greedy (.seq (.set s) (.once mark)))).run rounds c passed next)
      (fun c => (star greedy (set s)).first c k) := by
  refine ⟨fun c within => first_vain leads.vain_iff within, fun c passed within clear => ?_⟩
  rw [run_seq]
  apply resolves_once
  · rw [marking_here]
    exact first_vain leads.vain_iff within
  · exact fun met => clear mark c.offset met (Nat.le_refl _) (Nat.le_refl _)
  · exact leads.rounds greedy s within (Nat.le_trans within.rest_le enough) clear.insert

/-- An expression with marks, numbered from one number up to another, and one that is the same
without them. -/
inductive Marked : Nat → Regex → Regex → Nat → Prop
  | plain {n : Nat} {r s : Regex} (one : r.Simple) (two : s.Simple)
    (groups : r.groupNumbers = s.groupNumbers) (ends : ∀ c, r.ways c = s.ways c) : Marked n r s n
  | seq {n m l : Nat} {a a' b b' : Regex} (first : Marked n a a' m) (second : Marked m b b' l) :
    Marked n (.seq a b) (.seq a' b') l
  | group {n m i : Nat} {a a' : Regex} (inner : Marked n a a' m) :
    Marked n (.group i a) (.group i a') m
  | mark {n m : Nat} {a a' : Regex} (inner : Marked (n + 1) a a' m) :
    Marked n (.seq (.once n) a) a' m
  | loop {n : Nat} {greedy : Bool} {s : CharSet} :
    Marked n (.seq (.once n) (.star greedy (.seq (.set s) (.once n)))) (.star greedy (.set s))
      (n + 1)

variable {n m : Nat} {r s : Regex}

theorem Marked.simple (marked : Marked n r s m) : s.Simple := by
  induction marked with
  | plain _ simple => exact simple
  | seq _ _ first second => exact ⟨first, second⟩
  | group _ inner => exact inner
  | mark _ inner => exact inner
  | loop => trivial

theorem Marked.groupNumbers (marked : Marked n r s m) : r.groupNumbers = s.groupNumbers := by
  induction marked with
  | plain _ _ groups => exact groups
  | seq _ _ first second => simp only [Regex.groupNumbers, first, second]
  | group _ inner => simp only [Regex.groupNumbers, inner]
  | mark _ inner => simpa only [Regex.groupNumbers, List.nil_append] using inner
  | loop => rfl

theorem Marked.leads (marked : Marked n r s m) {rounds : Nat} (enough : t.length ≤ rounds)
    (doomed : Nat → Nat → Prop) (vain : Nat → Prop) :
    ∃ doomed' vain', ∀ next k, Leads t doomed vain m next k →
      Leads t doomed' vain' n (fun c passed => r.run rounds c passed next)
        (fun c => s.first c k) := by
  induction marked generalizing doomed vain with
  | @plain n r s simple _ _ ends =>
    refine ⟨doomed, VainBehind t r vain, fun next k leads => ?_⟩
    simp only [first, ← ends]
    exact leads.simple simple enough
  | seq _ _ first second =>
    obtain ⟨doomed, vain, behind⟩ := second doomed vain
    obtain ⟨doomed, vain, both⟩ := first doomed vain
    refine ⟨doomed, vain, fun next k leads => ?_⟩
    simp only [first_seq]
    exact both _ _ (behind next k leads)
  | group _ inner =>
    obtain ⟨doomed', vain', inner⟩ := inner doomed vain
    refine ⟨doomed', vain', fun next k leads => ?_⟩
    have recorded (c : Cursor) (i : Nat) :
        Leads t doomed vain _ (fun d passed => next (d.record i c.offset) passed)
          (fun d => k (d.record i c.offset)) :=
      ⟨fun d within => leads.vain_iff _ (within.record _ _),
        fun d passed within => leads.resolves _ passed (within.record _ _)⟩
    simp only [first_group]
    exact ⟨fun c => (inner _ _ (recorded c _)).vain_iff c,
      fun c => (inner _ _ (recorded c _)).resolves c⟩
  | mark _ inner =>
    obtain ⟨doomed, vain, inner⟩ := inner doomed vain
    exact ⟨_, _, fun next k leads => (inner next k leads).once rounds⟩
  | loop => exact ⟨_, _, fun next k leads => leads.loop _ _ enough⟩

theorem Leads.finish (t : Text) (doomed : Nat → Nat → Prop) (mark : Nat) :
    Leads t doomed (fun _ => False) mark finish some :=
  ⟨fun _ _ => by simp, fun _ _ _ _ => rfl⟩

theorem Leads.tried {u v : Text} {run : Continuation}
    (leads : Leads (u ++ v) doomed vain mark run fun c => s.first c some)
    (clear : Clear doomed mark 0 passed) :
    Resolves doomed mark passed (run (.between u v []) passed)
      (s.ways (.between u v [])).head? := by
  rw [head_ways]
  exact leads.resolves _ passed ⟨u, v, [], rfl, rfl⟩ (clear.behind (Nat.zero_le _))

theorem searchFrom_marked {rounds : Nat} {u v : Text}
    (leads : Leads (u ++ v) doomed vain mark (fun c passed => r.run rounds c passed finish)
      fun c => s.first c some)
    (clear : Clear doomed mark 0 passed) :
    r.searchFrom rounds v.length (.between u v []) passed = s.firstMatch u v := by
  induction v generalizing u passed with
  | nil =>
    rw [List.length_nil, searchFrom, firstMatch]
    rcases (leads.tried clear).cases with ⟨d, out, found⟩ | ⟨later, out, none, -⟩
    · rw [out, found]
      rfl
    · rw [out, none]
      rfl
  | cons x v ih =>
    rw [List.length_cons, searchFrom, firstMatch]
    rcases (leads.tried clear).cases with ⟨d, out, found⟩ | ⟨later, out, none, grown⟩
    · rw [out, found]
      rfl
    · have seam : u ++ x :: v = u ++ [x] ++ v := by simp
      rw [out, none]
      simp only [Cursor.between_advance]
      exact ih (seam ▸ leads) (clear.grown grown)

/-- A search finds the same with marks and without. -/
theorem search_marked (marked : Marked n r s m) (t : Text) : r.search t = s.search t := by
  have enough : t.length ≤ roundsFor t.length := by
    simp only [roundsFor]
    omega
  obtain ⟨doomed, vain, leads⟩ := marked.leads enough (fun _ _ => False) (fun _ => False)
  rw [search_firstMatch marked.simple]
  exact searchFrom_marked (u := []) (leads _ _ (.finish t _ m))
    fun _ _ member => absurd member Std.HashSet.not_mem_empty

theorem Marked.same (simple : r.Simple) : Marked n r r n :=
  .plain simple simple rfl fun _ => rfl

theorem find_matcher {e : Expr} {form : Regex} {next : Nat} {matcher : Matcher}
    (readied : e.toRegex.run 0 = (form, next)) (marked : Marked n form matcher.body m)
    (named : ∀ name ∈ matcher.names, matcher.body.groupNumbers.contains name.2 = true) :
    (e.matcher matcher.names).find? = matcher.find? := by
  have body : (e.matcher matcher.names).body = form := congrArg Prod.fst readied
  have names : (e.matcher matcher.names).names = matcher.names := by
    change matcher.names.filter
      (fun name => (e.matcher matcher.names).body.groupNumbers.contains name.2) = _
    rw [body, marked.groupNumbers]
    exact List.filter_eq_self.mpr named
  funext line
  simp only [Matcher.find?, Matcher.reported, Matcher.groupCount, body, names,
    marked.groupNumbers, search_marked marked]

end Leads

end Regex

end LineRules
