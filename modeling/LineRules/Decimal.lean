import LineRules.Text

namespace LineRules.Decimal

def IsDigit (c : Char) : Prop :=
  '0'.toNat ≤ c.toNat ∧ c.toNat ≤ '9'.toNat

instance (c : Char) : Decidable (IsDigit c) :=
  inferInstanceAs (Decidable (_ ∧ _))

def digitValue (c : Char) : Nat :=
  c.toNat - '0'.toNat

def value (digits : Text) : Nat :=
  digits.foldl (fun n c => 10 * n + digitValue c) 0

def numeral (n : Nat) : Text :=
  Nat.toDigits 10 n

def normalize (digits : Text) : Text :=
  match digits.dropWhile (· = '0') with
  | [] => ['0']
  | rest => rest

/-- Adds one to digits that are given from the last to the first. -/
def carry : Text → Text
  | [] => ['1']
  | c :: rest => if c = '9' then '0' :: carry rest else Char.ofNat (c.toNat + 1) :: rest

def succ (digits : Text) : Text :=
  (carry (normalize digits).reverse).reverse

end LineRules.Decimal
