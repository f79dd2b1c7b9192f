import LineRules.Decimal

namespace LineRules

inductive Output where
  | lines (rest : List Line)
  | copies (line : Line) (left : Nat)
  /-- One line numbered from `next` up to `stop`, which is left out. -/
  | numbered (line : Line) (next stop : Nat)
deriving DecidableEq, Repr

namespace Output

def none : Output :=
  .lines []

def ofLine? (line : Option Line) (make : Line → Output) : Output :=
  match line with
  | some l => make l
  | .none => none

def numberedLine (n : Nat) (line : Line) : Line :=
  Decimal.numeral n ++ ": " ++ line

def next? : Output → Option (Line × Output)
  | .lines [] => .none
  | .lines (l :: rest) => some (l, .lines rest)
  | .copies _ 0 => .none
  | .copies l (left + 1) => some (l, .copies l left)
  | .numbered l next stop =>
    if next < stop then some (numberedLine next l, .numbered l (next + 1) stop) else .none

def size : Output → Nat
  | .lines rest => rest.length
  | .copies _ left => left
  | .numbered _ next stop => stop - next

theorem size_next {o rest : Output} {l : Line} (h : o.next? = some (l, rest)) :
    rest.size + 1 = o.size := by
  cases o with
  | lines lines =>
    cases lines with
    | nil => simp [next?] at h
    | cons first others =>
      simp only [next?, Option.some.injEq, Prod.mk.injEq] at h
      obtain ⟨rfl, rfl⟩ := h
      rfl
  | copies line left =>
    cases left with
    | zero => simp [next?] at h
    | succ left =>
      simp only [next?, Option.some.injEq, Prod.mk.injEq] at h
      obtain ⟨rfl, rfl⟩ := h
      rfl
  | numbered line next stop =>
    simp only [next?] at h
    split at h
    · simp only [Option.some.injEq, Prod.mk.injEq] at h
      obtain ⟨rfl, rfl⟩ := h
      simp only [size]
      omega
    · simp at h

def take : Nat → Output → List Line
  | 0, _ => []
  | n + 1, o =>
    match o.next? with
    | some (l, rest) => l :: take n rest
    | .none => []

def toList : Output → List Line
  | .lines rest => rest
  | .copies l left => List.replicate left l
  | .numbered l next stop => (List.range' next (stop - next)).map (numberedLine · l)

end Output

end LineRules
