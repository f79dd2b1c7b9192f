import LineRules.Unicode.WhiteSpace

namespace LineRules

abbrev Text := List Char

abbrev Line := Text

instance : Coe String Text := ⟨String.toList⟩

namespace Text

def byteLength : Text → Nat
  | [] => 0
  | c :: t => c.utf8Size + byteLength t

/-- The text before a byte offset and the text after it; none unless the offset lies between two
characters or at an end. -/
def splitAt? : Text → Nat → Option (Text × Text)
  | t, 0 => some ([], t)
  | [], _ + 1 => none
  | c :: t, n + 1 =>
    if c.utf8Size ≤ n + 1 then
      (splitAt? t (n + 1 - c.utf8Size)).map fun parts => (c :: parts.1, parts.2)
    else none

def slice? (t : Text) (start stop : Nat) : Option Text := do
  if stop < start then none
  let (_, after) ← splitAt? t start
  let (inside, _) ← splitAt? after (stop - start)
  return inside

def startsWith (t start : Text) : Bool :=
  start.isPrefixOf t

def endsWith (t stop : Text) : Bool :=
  stop.isSuffixOf t

def contains (t part : Text) : Bool :=
  part.isPrefixOf t || match t with
    | [] => false
    | _ :: rest => contains rest part

def trimEnd (t : Text) : Text :=
  (t.reverse.dropWhile Unicode.isWhiteSpace).reverse

/-- Cuts a text after every line feed; `current` holds the characters since the last cut,
latest first. -/
def linesFrom (current : Text) : Text → List Line
  | [] => if current.isEmpty then [] else [current.reverse]
  | c :: t =>
    if c = '\n' then (c :: current).reverse :: linesFrom [] t else linesFrom (c :: current) t

def lines (t : Text) : List Line :=
  linesFrom [] t

def terminator (line : Line) : Text :=
  if line.endsWith "\r\n" then "\r\n" else if line.endsWith "\n" then "\n" else ""

end Text

end LineRules
