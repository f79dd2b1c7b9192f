import LineRules.Decimal
import Mathlib.Data.List.Induction
import Mathlib.Data.List.TakeWhile

namespace LineRules.Decimal

def AllDigits (t : Text) : Prop :=
  ∀ c ∈ t, IsDigit c

instance (t : Text) : Decidable (AllDigits t) :=
  List.decidableBAll (IsDigit ·) t

theorem isDigit_iff (c : Char) : IsDigit c ↔ 48 ≤ c.toNat ∧ c.toNat ≤ 57 :=
  Iff.rfl

theorem digit_not_space {c : Char} (digit : IsDigit c) : Unicode.isWhiteSpace c = false := by
  have every : ∀ n ∈ List.range 10, Unicode.whiteSpaceTable.covers (48 + n) = false := by decide
  have bounds := (isDigit_iff c).mp digit
  have none := every (c.toNat - 48) (List.mem_range.mpr (by omega))
  rwa [Nat.add_sub_cancel' bounds.1] at none

theorem digitValue_lt {c : Char} (digit : IsDigit c) : digitValue c < 10 := by
  have bounds := (isDigit_iff c).mp digit
  have zero : '0'.toNat = 48 := rfl
  unfold digitValue
  omega

theorem isDigit_digitChar {d : Nat} (less : d < 10) : IsDigit (Nat.digitChar d) := by
  have every : ∀ e ∈ List.range 10, IsDigit (Nat.digitChar e) := by decide
  exact every d (List.mem_range.mpr less)

theorem digitValue_digitChar {d : Nat} (less : d < 10) : digitValue (Nat.digitChar d) = d := by
  have every : ∀ e ∈ List.range 10, digitValue (Nat.digitChar e) = e := by decide
  exact every d (List.mem_range.mpr less)

theorem digitChar_digitValue {c : Char} (digit : IsDigit c) :
    Nat.digitChar (digitValue c) = c := by
  have bounds := (isDigit_iff c).mp digit
  have every : ∀ e ∈ List.range 10,
      Nat.digitChar (digitValue (Char.ofNat (48 + e))) = Char.ofNat (48 + e) := by decide
  have offset : c = Char.ofNat (48 + (c.toNat - 48)) := by
    have sum : 48 + (c.toNat - 48) = c.toNat := by omega
    rw [sum, Char.ofNat_toNat]
  rw [offset]
  exact every _ (List.mem_range.mpr (by omega))

theorem value_append_single (digits : Text) (c : Char) :
    value (digits ++ [c]) = 10 * value digits + digitValue c := by
  simp [value, List.foldl_append]

theorem numeral_digit {d : Nat} (less : d < 10) : numeral d = [Nat.digitChar d] :=
  Nat.toDigits_of_lt_base less

theorem numeral_append {n d : Nat} (positive : 0 < n) (less : d < 10) :
    numeral n ++ [Nat.digitChar d] = numeral (10 * n + d) := by
  rw [← numeral_digit less]
  exact Nat.toDigits_append_toDigits (by omega) positive less

theorem digit_induction {P : Nat → Prop} (small : ∀ d < 10, P d)
    (more : ∀ n d, 0 < n → d < 10 → P n → P (10 * n + d)) (n : Nat) : P n := by
  induction n using Nat.strong_induction_on with
  | _ n ih =>
    by_cases less : n < 10
    · exact small n less
    · have step := more (n / 10) (n % 10) (by omega) (Nat.mod_lt n (by omega))
        (ih (n / 10) (by omega))
      rwa [Nat.div_add_mod] at step

theorem numeral_ne_nil (n : Nat) : numeral n ≠ [] :=
  Nat.toDigits_ne_nil

theorem numeral_allDigits (n : Nat) : AllDigits (numeral n) := by
  induction n using digit_induction with
  | small d less =>
    intro c member
    rw [numeral_digit less, List.mem_singleton] at member
    exact member ▸ isDigit_digitChar less
  | more n d positive less ih =>
    intro c member
    rw [← numeral_append positive less] at member
    rcases List.mem_append.mp member with before | last
    · exact ih c before
    · exact List.mem_singleton.mp last ▸ isDigit_digitChar less

theorem value_numeral (n : Nat) : value (numeral n) = n := by
  induction n using digit_induction with
  | small d less =>
    rw [numeral_digit less]
    have one := value_append_single [] (Nat.digitChar d)
    rw [digitValue_digitChar less] at one
    exact one.trans (Nat.zero_add d)
  | more n d positive less ih =>
    rw [← numeral_append positive less, value_append_single, ih, digitValue_digitChar less]

theorem numeral_head {n : Nat} (positive : 0 < n) : (numeral n).head? ≠ some '0' := by
  induction n using digit_induction with
  | small d less =>
    have every : ∀ e ∈ List.range 10, 0 < e → Nat.digitChar e ≠ '0' := by decide
    rw [numeral_digit less]
    simpa using every d (List.mem_range.mpr less) positive
  | more n d before less ih =>
    obtain ⟨x, rest, start⟩ := List.exists_cons_of_ne_nil (numeral_ne_nil n)
    have kept := ih before
    rw [start] at kept
    rw [← numeral_append before less, start]
    exact kept

theorem normalize_single (c : Char) : normalize [c] = [c] := by
  by_cases zero : c = '0'
  · rw [zero]
    rfl
  · simp [normalize, zero]

theorem normalize_append_single (digits : Text) (c : Char) :
    normalize (digits ++ [c]) =
      if digits.dropWhile (· = '0') = [] then [c] else normalize digits ++ [c] := by
  have single := normalize_single c
  unfold normalize at single ⊢
  rw [List.dropWhile_append]
  cases left : digits.dropWhile (· = '0') with
  | nil => simpa using single
  | cons x rest => simp

theorem value_of_zeros {digits : Text} (zeros : digits.dropWhile (· = '0') = []) :
    value digits = 0 := by
  induction digits using List.reverseRecOn with
  | nil => rfl
  | append_singleton digits c ih =>
    have every := List.dropWhile_eq_nil_iff.mp zeros
    have before : digits.dropWhile (· = '0') = [] :=
      List.dropWhile_eq_nil_iff.mpr fun x member => every x (List.mem_append_left _ member)
    have last : c = '0' := of_decide_eq_true (every c (by simp))
    rw [value_append_single, ih before, last]
    rfl

theorem normalize_head (digits : Text) (filled : digits.dropWhile (· = '0') ≠ []) :
    (normalize digits).head? ≠ some '0' := by
  unfold normalize
  cases left : digits.dropWhile (· = '0') with
  | nil => exact absurd left filled
  | cons x rest =>
    have kept := List.head?_dropWhile_not (· = '0') digits
    simp only [left, List.head?_cons] at kept ⊢
    intro zero
    rw [Option.some.injEq] at zero
    simp [zero] at kept

theorem normalize_eq_numeral {digits : Text} (all : AllDigits digits) :
    normalize digits = numeral (value digits) := by
  induction digits using List.reverseRecOn with
  | nil => rfl
  | append_singleton digits c ih =>
    have digit : IsDigit c := all c (by simp)
    have before := ih fun x member => all x (List.mem_append_left _ member)
    rw [normalize_append_single, value_append_single]
    split
    · rename_i zeros
      rw [value_of_zeros zeros, Nat.mul_zero, Nat.zero_add, numeral_digit (digitValue_lt digit),
        digitChar_digitValue digit]
    · rename_i filled
      have positive : 0 < value digits := by
        refine Nat.pos_of_ne_zero fun zero => normalize_head digits filled ?_
        rw [before, zero]
        rfl
      rw [← numeral_append positive (digitValue_lt digit), before, digitChar_digitValue digit]

theorem carry_numeral (n : Nat) : (carry (numeral n).reverse).reverse = numeral (n + 1) := by
  have last : ∀ e ∈ List.range 10, e ≠ 9 → Nat.digitChar e ≠ '9' ∧
      Char.ofNat ((Nat.digitChar e).toNat + 1) = Nat.digitChar (e + 1) := by decide
  induction n using digit_induction with
  | small d less =>
    have every : ∀ e ∈ List.range 10,
        (carry (numeral e).reverse).reverse = numeral (e + 1) := by decide
    exact every d (List.mem_range.mpr less)
  | more n d positive less ih =>
    rw [← numeral_append positive less, List.reverse_append, List.reverse_singleton,
      List.singleton_append, carry]
    by_cases nine : d = 9
    · subst nine
      rw [if_pos (by decide), List.reverse_cons, ih]
      exact numeral_append (Nat.succ_pos n) (d := 0) (by omega)
    · obtain ⟨differs, next⟩ := last d (List.mem_range.mpr less) nine
      rw [if_neg differs, List.reverse_cons, List.reverse_reverse, next]
      exact numeral_append positive (by omega)

theorem succ_eq_numeral {digits : Text} (all : AllDigits digits) :
    succ digits = numeral (value digits + 1) := by
  rw [succ, normalize_eq_numeral all, carry_numeral]

/-- The form in which a number is written: digits only, at least one, no zero before another one. -/
structure Canonical (t : Text) (n : Nat) : Prop where
  digits : AllDigits t
  filled : t ≠ []
  noLeadingZero : t.head? = some '0' → t = ['0']
  value : value t = n

theorem Canonical.normalized {t : Text} {n : Nat} (canonical : Canonical t n) :
    normalize t = t := by
  cases t with
  | nil => exact absurd rfl canonical.filled
  | cons c rest =>
    by_cases zero : c = '0'
    · rw [canonical.noLeadingZero (by simp [zero])]
      exact normalize_single '0'
    · simp [normalize, zero]

theorem canonical_numeral (n : Nat) : Canonical (numeral n) n where
  digits := numeral_allDigits n
  filled := numeral_ne_nil n
  noLeadingZero := by
    intro head
    have zero : n = 0 := by
      by_contra other
      exact numeral_head (Nat.pos_of_ne_zero other) head
    rw [zero]
    rfl
  value := value_numeral n

theorem canonical_iff {t : Text} {n : Nat} : Canonical t n ↔ t = numeral n := by
  constructor
  · intro canonical
    rw [← canonical.normalized, normalize_eq_numeral canonical.digits, canonical.value]
  · intro same
    rw [same]
    exact canonical_numeral n

/-- Incrementing digits, however many and with whatever zeros in front, gives digits without a zero in
front that stand for the next number. They are the one canonical form of that number, and the digits
without their leading zeros are the one canonical form of the number that they stand for. -/
theorem increment_is_exact (digits : Text) (all : AllDigits digits) :
    let n := value digits
    let next := succ digits
    (AllDigits next ∧ next.head? ≠ some '0' ∧ value next = n + 1) ∧
    (∀ t, Canonical t (n + 1) ↔ t = next) ∧
    (∀ t, Canonical t n ↔ t = normalize digits) := by
  intro n next
  have written : next = numeral (n + 1) := succ_eq_numeral all
  have trimmed : normalize digits = numeral n := normalize_eq_numeral all
  refine ⟨⟨?_, ?_, ?_⟩, ?_, ?_⟩
  · rw [written]
    exact numeral_allDigits (n + 1)
  · rw [written]
    exact numeral_head (Nat.succ_pos n)
  · rw [written]
    exact value_numeral (n + 1)
  · intro t
    rw [written]
    exact canonical_iff
  · intro t
    rw [trimmed]
    exact canonical_iff

theorem zeros_dropped_and_nines_carried :
    AllDigits "0099" ∧ succ "0099" = "100" ∧ normalize "0099" = "99" := by
  have all : AllDigits "0099" := by decide
  have hundred : Canonical "100" 100 := ⟨by decide, by decide, by decide, by decide⟩
  have same : Canonical "99" 99 := ⟨by decide, by decide, by decide, by decide⟩
  obtain ⟨-, next, here⟩ := increment_is_exact "0099" all
  exact ⟨all, ((next _).mp hundred).symm, ((here _).mp same).symm⟩

end LineRules.Decimal
