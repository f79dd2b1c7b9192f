import LineRules.Decimal
import LineRules.Proofs.Unicode.CaseFold
import LineRules.Regex.CharSet

namespace LineRules

namespace CharRange

theorem mem_iff {r : CharRange} {c : Char} :
    r.mem c = true ↔ r.lo.toNat ≤ c.toNat ∧ c.toNat ≤ r.hi.toNat := by
  rw [mem, Bool.and_eq_true, decide_eq_true_eq, decide_eq_true_eq]

theorem mem_hull {r s : CharRange} {c : Char} (near : ¬r.apart s = true)
    (nearToo : ¬s.apart r = true) :
    (r.hull s).mem c = true ↔ r.mem c = true ∨ s.mem c = true := by
  have lower : (r.hull s).lo.toNat = min r.lo.toNat s.lo.toNat := by
    simp only [hull]
    split
    · rename_i less
      exact (Nat.min_eq_left less).symm
    · rename_i more
      exact (Nat.min_eq_right (Nat.le_of_not_le more)).symm
  have upper : (r.hull s).hi.toNat = max r.hi.toNat s.hi.toNat := by
    simp only [hull]
    split
    · rename_i less
      exact (Nat.max_eq_right less).symm
    · rename_i more
      exact (Nat.max_eq_left (Nat.le_of_not_le more)).symm
  simp only [apart, decide_eq_true_eq] at near nearToo
  rw [mem_iff, mem_iff, mem_iff, lower, upper]
  omega

theorem mem_insert {r : CharRange} {rs : List CharRange} {c : Char} :
    (∃ s ∈ insert r rs, s.mem c = true) ↔ r.mem c = true ∨ ∃ s ∈ rs, s.mem c = true := by
  induction rs generalizing r with
  | nil => simp [insert]
  | cons s rest ih =>
    rw [insert]
    by_cases before : r.apart s
    · simp [before]
    · by_cases behind : s.apart r
      · rw [if_neg before, if_pos behind, List.exists_mem_cons_iff, ih, List.exists_mem_cons_iff]
        exact or_left_comm
      · rw [if_neg before, if_neg behind, ih, mem_hull before behind, List.exists_mem_cons_iff]
        exact or_assoc

end CharRange

namespace CharSet

theorem mem_iff {s : CharSet} {c : Char} : s.mem c = true ↔ ∃ r ∈ s.ranges, r.mem c = true :=
  List.any_eq_true

theorem mem_ofRanges {ranges : List CharRange} {c : Char} :
    (ofRanges ranges).mem c = true ↔ ∃ r ∈ ranges, r.mem c = true := by
  rw [mem_iff, ofRanges]
  induction ranges with
  | nil => simp
  | cons r rest ih =>
    rw [List.foldr_cons, CharRange.mem_insert, ih, List.exists_mem_cons_iff]

theorem mem_range {lo hi c : Char} :
    (range lo hi).mem c = true ↔ lo.toNat ≤ c.toNat ∧ c.toNat ≤ hi.toNat := by
  simp only [mem_iff, range, List.mem_singleton, exists_eq_left, CharRange.mem_iff]

theorem mem_single {x c : Char} : (single x).mem c = true ↔ c = x := by
  rw [single, mem_range]
  constructor
  · intro given
    obtain ⟨low, high⟩ := given
    exact Char.toNat_inj.mp (Nat.le_antisymm high low)
  · intro same
    subst same
    exact ⟨Nat.le_refl _, Nat.le_refl _⟩

theorem mem_ofList {chars : List Char} {c : Char} : (ofList chars).mem c = true ↔ c ∈ chars := by
  rw [ofList, mem_ofRanges]
  constructor
  · intro given
    obtain ⟨r, member, within⟩ := given
    obtain ⟨x, given, rfl⟩ := List.mem_map.mp member
    obtain ⟨low, high⟩ := CharRange.mem_iff.mp within
    rwa [Char.toNat_inj.mp (Nat.le_antisymm high low)]
  · intro given
    exact ⟨⟨c, c⟩, List.mem_map.mpr ⟨c, given, rfl⟩,
      CharRange.mem_iff.mpr ⟨Nat.le_refl _, Nat.le_refl _⟩⟩

theorem mem_sameFold {x c : Char} :
    (sameFold x).mem c = true ↔ Unicode.fold c = Unicode.fold x := by
  rw [sameFold, mem_ofList, Unicode.mem_caseVariants]

theorem mem_asciiDigit {c : Char} : asciiDigit.mem c = true ↔ Decimal.IsDigit c :=
  mem_range

theorem mem_blank {c : Char} : blank.mem c = true ↔ c = ' ' ∨ c = '\t' := by
  simp only [mem_iff, blank, List.mem_cons, List.not_mem_nil, or_false, exists_eq_or_imp,
    exists_eq_left, CharRange.mem_iff]
  constructor
  · intro given
    rcases given with ⟨low, high⟩ | ⟨low, high⟩
    · exact .inr (Char.toNat_inj.mp (Nat.le_antisymm high low))
    · exact .inl (Char.toNat_inj.mp (Nat.le_antisymm high low))
  · intro given
    rcases given with rfl | rfl
    · exact .inr ⟨Nat.le_refl _, Nat.le_refl _⟩
    · exact .inl ⟨Nat.le_refl _, Nat.le_refl _⟩

theorem mem_notLineFeed {c : Char} : notLineFeed.mem c = true ↔ c ≠ '\n' := by
  have ranges : notLineFeed.ranges = [⟨'\x00', '\x09'⟩, ⟨'\x0b', Char.ofNat 0x10ffff⟩] := by
    decide +kernel
  have valid : c.toNat < 0x110000 := by
    rcases c.valid with less | less
    · exact Nat.lt_trans less (by decide)
    · exact less.2
  have bounds : ('\x00').toNat = 0 ∧ ('\x09').toNat = 9 ∧ ('\x0b').toNat = 11 ∧
      (Char.ofNat 0x10ffff).toNat = 0x10ffff := by decide +kernel
  obtain ⟨zero, nine, eleven, last⟩ := bounds
  have feed : c = '\n' ↔ c.toNat = 10 :=
    ⟨fun same => same ▸ rfl, fun same => Char.toNat_inj.mp same⟩
  simp only [mem_iff, ranges, List.mem_cons, List.not_mem_nil, or_false, exists_eq_or_imp,
    exists_eq_left, CharRange.mem_iff, zero, nine, eleven, last, ne_eq, feed]
  omega

theorem forall_notLineFeed {t : Text} :
    (∀ c ∈ t, notLineFeed.mem c = true) ↔ '\n' ∉ t := by
  constructor
  · intro all member
    exact mem_notLineFeed.mp (all '\n' member) rfl
  · intro line c member
    apply mem_notLineFeed.mpr
    intro same
    exact line (same ▸ member)

theorem mem_ofTable {table : Unicode.Table} {c : Char}
    (valid : ∀ range ∈ table, range.1.isValidChar ∧ range.2.isValidChar) :
    (ofTable table).mem c = table.covers c.toNat := by
  rw [Bool.eq_iff_iff, mem_iff, Unicode.Table.covers, List.any_eq_true]
  constructor
  · intro given
    obtain ⟨r, member, within⟩ := given
    obtain ⟨range, given, rfl⟩ := List.mem_map.mp member
    obtain ⟨low, high⟩ := CharRange.mem_iff.mp within
    rw [Unicode.toNat_ofNat (valid range given).1] at low
    rw [Unicode.toNat_ofNat (valid range given).2] at high
    exact ⟨range, given, by simp [low, high]⟩
  · intro given
    obtain ⟨range, given, within⟩ := given
    obtain ⟨low, high⟩ : range.1 ≤ c.toNat ∧ c.toNat ≤ range.2 := by simpa using within
    refine ⟨⟨Char.ofNat range.1, Char.ofNat range.2⟩, List.mem_map.mpr ⟨range, given, rfl⟩, ?_⟩
    rw [CharRange.mem_iff, Unicode.toNat_ofNat (valid range given).1,
      Unicode.toNat_ofNat (valid range given).2]
    exact ⟨low, high⟩

theorem mem_space {c : Char} : space.mem c = Unicode.isWhiteSpace c :=
  mem_ofTable (by decide)

end CharSet

end LineRules
