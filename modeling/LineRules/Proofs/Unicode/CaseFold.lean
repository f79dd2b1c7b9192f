import LineRules.Unicode.CaseFold
import Mathlib.Data.List.Basic
import Mathlib.Data.List.Chain
import Mathlib.Tactic.Push

namespace LineRules.Unicode

def AllChars (first last : Int) : Prop :=
  0 ≤ first ∧ last < 0xd800 ∨ 0xdfff < first ∧ last < 0x110000

instance (first last : Int) : Decidable (AllChars first last) :=
  inferInstanceAs (Decidable (_ ∨ _))

def FoldRun.image (run : FoldRun) : Nat :=
  ((run.first : Int) + run.shift).toNat

/-- Whether a run folds nothing from `low` to `high`, where another one leads: it lies before it,
behind it, or between its steps. -/
def FoldRun.avoids (other run : FoldRun) (low high : Nat) : Bool :=
  !(Nat.ble other.first high && Nat.ble low other.last) ||
    (run.first == run.last || run.step % other.step == 0) &&
      low % other.step != other.first % other.step

def FoldRun.Precedes (run other : FoldRun) : Prop :=
  run.last < other.first ∧ other.first ≤ other.last

instance : DecidableRel FoldRun.Precedes :=
  fun run other => inferInstanceAs (Decidable (run.last < other.first ∧ other.first ≤ other.last))

instance : Trans FoldRun.Precedes FoldRun.Precedes FoldRun.Precedes :=
  ⟨fun one two => ⟨Nat.lt_of_lt_of_le one.1 (Nat.le_trans one.2 (Nat.le_of_lt two.1)), two.2⟩⟩

theorem runs_ordered : foldRuns.IsChain FoldRun.Precedes := by
  decide +kernel

theorem runs_valid : ∀ run ∈ foldRuns, AllChars run.first run.last ∧
    AllChars (run.first + run.shift) (run.last + run.shift) := by
  decide +kernel

theorem runs_apart : (foldRuns.all fun run =>
    let low := run.image
    let high := low + (run.last - run.first)
    foldRuns.all (·.avoids run low high)) = true := by
  decide +kernel

theorem covers_iff (run : FoldRun) (code : Nat) :
    run.covers code = true ↔
      run.first ≤ code ∧ code ≤ run.last ∧ (code - run.first) % run.step = 0 := by
  simp [FoldRun.covers, and_assoc]

theorem toNat_ofNat {n : Nat} (valid : n.isValidChar) : (Char.ofNat n).toNat = n := by
  rw [Char.ofNat, dif_pos valid]
  rfl

theorem valid_within {first last : Int} {n : Nat} (valid : AllChars first last)
    (low : first ≤ n) (high : n ≤ last) : n.isValidChar := by
  rcases valid with ⟨-, less⟩ | ⟨more, less⟩
  · exact .inl (by omega)
  · exact .inr ⟨by omega, by omega⟩

theorem covers_unique {runs : List FoldRun} {run : FoldRun} {code : Nat}
    (ordered : runs.Pairwise FoldRun.Precedes) (member : run ∈ runs)
    (covered : run.covers code = true) : runs.find? (·.covers code) = some run := by
  induction runs with
  | nil => simp at member
  | cons first rest ih =>
    obtain ⟨before, ordered⟩ := List.pairwise_cons.mp ordered
    rcases List.mem_cons.mp member with rfl | later
    · exact List.find?_cons_of_pos covered
    · have gap := (before run later).1
      have bounds := (covers_iff run code).mp covered
      have vain : ¬first.covers code = true := by
        intro too
        have first := (covers_iff first code).mp too
        omega
      rw [List.find?_cons, Bool.eq_false_iff.mpr vain]
      exact ih ordered later

theorem fold_covered {run : FoldRun} {c : Char} (member : run ∈ foldRuns)
    (covered : run.covers c.toNat = true) : ((fold c).toNat : Int) = c.toNat + run.shift := by
  have bounds := (covers_iff run c.toNat).mp covered
  have valid := (runs_valid run member).2
  have image : (((c.toNat : Int) + run.shift).toNat : Int) = c.toNat + run.shift := by
    unfold AllChars at valid
    omega
  have inside := valid_within (n := ((c.toNat : Int) + run.shift).toNat) valid
    (by omega) (by omega)
  rw [fold, covers_unique (List.isChain_iff_pairwise.mp runs_ordered) member covered]
  simp only
  rw [toNat_ofNat inside, image]

theorem fold_uncovered {c : Char} (uncovered : ∀ run ∈ foldRuns, ¬run.covers c.toNat = true) :
    fold c = c := by
  rw [fold, List.find?_eq_none.mpr uncovered]

theorem avoids_uncovered {run other : FoldRun} {code image : Nat}
    (valid : AllChars (run.first + run.shift) (run.last + run.shift))
    (apart : other.avoids run run.image (run.image + (run.last - run.first)) = true)
    (covered : run.covers code = true) (shifted : (image : Int) = code + run.shift) :
    ¬other.covers image = true := by
  intro again
  obtain ⟨low, high, steps⟩ := (covers_iff run code).mp covered
  obtain ⟨lowToo, highToo, stepsToo⟩ := (covers_iff other image).mp again
  have start : (run.image : Int) = run.first + run.shift := by
    unfold AllChars at valid
    unfold FoldRun.image
    omega
  simp only [FoldRun.avoids, Bool.or_eq_true, Bool.and_eq_true, Bool.not_eq_eq_eq_not,
    Bool.not_true, ← Bool.not_eq_true, Nat.ble_eq, beq_iff_eq, bne_iff_ne] at apart
  rcases apart with outside | ⟨whole, between⟩
  · omega
  · refine between ?_
    -- The image is some steps behind the first one, so both lie between the steps of the other run.
    have further : image = run.image + (code - run.first) := by omega
    have same : image % other.step = run.image % other.step := by
      rcases whole with single | multiple
      · have none : code - run.first = 0 := by omega
        rw [further, none, Nat.add_zero]
      · have whole := Nat.dvd_trans (Nat.dvd_of_mod_eq_zero multiple) (Nat.dvd_of_mod_eq_zero steps)
        rw [further, Nat.add_mod, Nat.mod_eq_zero_of_dvd whole, Nat.add_zero, Nat.mod_mod]
    rw [← same]
    have distance : image = other.first + (image - other.first) := by omega
    rw [distance, Nat.add_mod, stepsToo, Nat.add_zero, Nat.mod_mod]

theorem fold_fold (c : Char) : fold (fold c) = fold c := by
  by_cases uncovered : ∀ run ∈ foldRuns, ¬run.covers c.toNat = true
  · rw [fold_uncovered uncovered, fold_uncovered uncovered]
  · push Not at uncovered
    obtain ⟨run, member, covered⟩ := uncovered
    have apart := List.all_eq_true.mp runs_apart run member
    exact fold_uncovered fun other also => avoids_uncovered (runs_valid run member).2
      (List.all_eq_true.mp apart other also) covered (fold_covered member covered)

theorem mem_foldSources {x r : Char} :
    x ∈ foldSources r ↔
      ∃ run ∈ foldRuns, run.covers x.toNat = true ∧ (r.toNat : Int) = x.toNat + run.shift := by
  simp only [foldSources, List.mem_filterMap]
  constructor
  · intro given
    obtain ⟨run, member, gives⟩ := given
    split at gives
    · rename_i fits
      obtain ⟨positive, covered⟩ := fits
      have bounds := (covers_iff run _).mp covered
      have inside := valid_within (n := ((r.toNat : Int) - run.shift).toNat)
        (runs_valid run member).1 (by omega) (by omega)
      have code := toNat_ofNat inside
      rw [Option.some.injEq] at gives
      rw [gives] at code
      rw [← code] at covered
      exact ⟨run, member, covered, by omega⟩
    · simp at gives
  · intro given
    obtain ⟨run, member, covered, shifted⟩ := given
    have code : ((r.toNat : Int) - run.shift).toNat = x.toNat := by omega
    refine ⟨run, member, ?_⟩
    rw [code, if_pos ⟨by omega, covered⟩, Char.ofNat_toNat]

theorem mem_caseVariants {x c : Char} : x ∈ caseVariants c ↔ fold x = fold c := by
  rw [caseVariants, List.mem_cons, mem_foldSources]
  constructor
  · intro given
    rcases given with rfl | ⟨run, member, covered, shifted⟩
    · exact fold_fold c
    · have folded := fold_covered member covered
      exact Char.toNat_inj.mp (by omega)
  · intro same
    by_cases uncovered : ∀ run ∈ foldRuns, ¬run.covers x.toNat = true
    · exact .inl (by rw [← same, fold_uncovered uncovered])
    · push Not at uncovered
      obtain ⟨run, member, covered⟩ := uncovered
      exact .inr ⟨run, member, covered, by rw [← same, fold_covered member covered]⟩

end LineRules.Unicode
