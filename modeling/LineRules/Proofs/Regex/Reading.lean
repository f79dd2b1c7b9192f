import LineRules.Proofs.Regex.Literal

namespace LineRules.Regex

variable {r : Reader} {c : Char} {rest : Text}

theorem readAll_step {s : Reader} {left : Text} (step : r.step c rest = some (s, left))
    (le : left.length ≤ rest.length) : r.readAll (c :: rest) = s.readAll left := by
  rw [Reader.readAll]
  simp only [step, if_pos le]

section Brackets

variable {anyCase : Bool} {b : Bracket} {outer brackets : List Bracket} {t : Text}

theorem read_step (step : Bracket.step anyCase b outer t = some (.inl brackets, rest))
    (lt : rest.length < t.length) :
    Bracket.read anyCase (b :: outer) t = Bracket.read anyCase brackets rest := by
  rw [Bracket.read]
  simp only [step, if_pos lt]

theorem read_stop {part : SetPart} (step : Bracket.step anyCase b outer t = some (.inr part, rest)) :
    Bracket.read anyCase (b :: outer) t = some (part, rest) := by
  rw [Bracket.read]
  simp only [step]

theorem closed_blank (anyCase : Bool) :
    Bracket.closed anyCase ⟨false, none, [⟨.single '\t', 0⟩, ⟨.single ' ', 0⟩]⟩ = ⟨.blank, 2⟩ := by
  have set : meant anyCase false (SetPart.union [⟨.single '\t', 0⟩, ⟨.single ' ', 0⟩]).set =
      .blank := by
    cases anyCase <;> decide +kernel
  rw [Bracket.closed, Bracket.combined]
  simp only [set]
  rfl

theorem readBracket_blank (anyCase : Bool) (rest : Text) :
    readBracket anyCase (" \\t]" ++ rest : Text) = some (⟨.blank, 2⟩, rest) := by
  calc readBracket anyCase (" \\t]" ++ rest : Text)
    _ = Bracket.read anyCase [⟨false, none, []⟩] (" \\t]" ++ rest : Text) := rfl
    _ = Bracket.read anyCase [⟨false, none, [⟨.single ' ', 0⟩]⟩] ("\\t]" ++ rest : Text) :=
      read_step rfl (by simp)
    _ = Bracket.read anyCase [⟨false, none, [⟨.single '\t', 0⟩, ⟨.single ' ', 0⟩]⟩]
        ("]" ++ rest : Text) := read_step rfl (by simp)
    _ = some (⟨.blank, 2⟩, rest) := by
      rw [read_stop rfl, closed_blank]
      rfl

theorem readAll_blank (r : Reader) (rest : Text) :
    r.readAll ("[ \\t]" ++ rest : Text) = (r.push ⟨.set .blank, 2⟩).readAll rest := by
  refine readAll_step ?_ (Nat.le_add_right _ 4)
  change (readBracket r.flags.anyCase (" \\t]" ++ rest : Text)).map _ = _
  rw [readBracket_blank]
  rfl

end Brackets

section Escape

theorem step_plain (plain : c ∉ metacharacters) : r.step c rest = some (r.literal c, rest) := by
  unfold Reader.step
  split <;> first | rfl | exact absurd (by decide) plain

theorem readEscape_meta (escaped : c ∈ metacharacters) :
    readEscape (c :: rest) = some (.char c, rest) := by
  have plain := List.all_eq_true.mp (by decide : metacharacters.all isPlainEscape = true)
  simp only [readEscape]
  split <;> first | exact absurd escaped (by decide) | exact if_pos (plain _ escaped)

/-- An escaped text is read character by character, each as itself. -/
theorem readAll_escape (r : Reader) (t rest : Text) :
    r.readAll (escape t ++ rest) = (t.foldl Reader.literal r).readAll rest := by
  induction t generalizing r with
  | nil => rfl
  | cons c t ih =>
    rw [escape, List.flatMap_cons, List.append_assoc, List.foldl_cons, ← ih, ← escape]
    split
    · rename_i escaped
      refine readAll_step ?_ (Nat.le_succ _)
      change (readEscape (c :: (escape t ++ rest))).map _ = _
      rw [readEscape_meta escaped]
      rfl
    · rename_i plain
      exact readAll_step (step_plain plain) (Nat.le_refl _)

def meantBy (flags : Flags) (c : Char) : CharSet :=
  if flags.anyCase then .sameFold c else .single c

def literalParts (flags : Flags) (t : Text) : List Part :=
  t.map fun c => ⟨.ofSet (meantBy flags c), 0⟩

theorem foldl_literal (r : Reader) (t : Text) :
    t.foldl Reader.literal r =
      { r with
        items := (literalParts r.flags t).reverse ++ r.items
        repeatable := r.repeatable || !t.isEmpty } := by
  induction t generalizing r with
  | nil => simp [literalParts]
  | cons c t ih =>
    rw [List.foldl_cons, ih]
    simp only [Reader.literal, Reader.pushFlat, Reader.push, literalParts, List.map_cons,
      List.reverse_cons, List.append_assoc, List.singleton_append, Bool.true_or,
      List.isEmpty_cons, Bool.not_false, Bool.or_true]
    rfl

def literalPart (flags : Flags) (t : Text) : Part :=
  .alternatives [.sequence (literalParts flags t).reverse]

theorem depthOf_le {parts : List Part} {d : Nat} (le : ∀ part ∈ parts, part.depth ≤ d) :
    Part.depthOf parts ≤ d + 1 := by
  have deepest (e : Nat) (start : e ≤ d) : (parts.map (·.depth)).foldl max e ≤ d := by
    induction parts generalizing e with
    | nil => exact start
    | cons part parts ih =>
      obtain ⟨first, rest⟩ := List.forall_mem_cons.mp le
      exact ih rest _ (Nat.max_le.mpr ⟨start, first⟩)
  have inner := deepest 0 (Nat.zero_le _)
  rw [Part.depthOf]
  split <;> omega

theorem literalParts_depth {flags : Flags} {t : Text} {part : Part}
    (member : part ∈ literalParts flags t) : part.depth = 0 := by
  obtain ⟨c, -, rfl⟩ := List.mem_map.mp member
  rfl

theorem literalPart_depth (flags : Flags) (t : Text) : (literalPart flags t).depth ≤ 1 := by
  have flat : Part.depthOf (literalParts flags t).reverse ≤ 0 + 1 :=
    depthOf_le fun part member =>
      Nat.le_of_eq (literalParts_depth (List.mem_reverse.mp member))
  simpa [literalPart, Part.alternatives, Part.depthOf, Part.sequence] using flat

theorem spellsAll_literal (flags : Flags) (t : Text) :
    Expr.SpellsAll (t.map fun c => Expr.ofSet (meantBy flags c))
      (t.map fun c => (meantBy flags c).mem) := by
  induction t with
  | nil => exact .nil
  | cons c t ih => exact .cons (Expr.spells_ofSet _) ih

theorem literalPart_spells (flags : Flags) (t : Text) :
    (literalPart flags t).expr.Spells (t.map fun c => (meantBy flags c).mem) := by
  have parts : (literalParts flags t).reverse.reverse.map (·.expr) =
      t.map fun c => Expr.ofSet (meantBy flags c) := by
    rw [List.reverse_reverse, literalParts, List.map_map]
    rfl
  have whole : (literalPart flags t).expr =
      .alternatives [.sequence ((literalParts flags t).reverse.reverse.map (·.expr))] := rfl
  rw [whole, parts]
  exact Expr.spells_alternatives (Expr.spells_sequence (spellsAll_literal flags t))

theorem readAll_literalGroup (flags : Flags) (n next : Nat) (names : List (Text × Nat))
    (items : List Part) (t rest : Text) :
    Reader.readAll ⟨flags, next, names, [⟨some n, flags, [], items⟩], [], [], false⟩
        (escape t ++ (')' :: rest)) =
      Reader.readAll ⟨flags, next, names, [], [],
        ⟨.group n (literalPart flags t).expr, (literalPart flags t).depth + 1⟩ :: items, true⟩
        rest := by
  rw [readAll_escape, foldl_literal]
  refine readAll_step ?_ (Nat.le_refl _)
  rw [List.append_nil]
  rfl

end Escape

end LineRules.Regex
