namespace LineRules.Unicode

/-- Ranges of code points, both ends included. -/
abbrev Table := List (Nat × Nat)

def Table.covers (table : Table) (code : Nat) : Bool :=
  table.any fun range => range.1 ≤ code && code ≤ range.2

end LineRules.Unicode
