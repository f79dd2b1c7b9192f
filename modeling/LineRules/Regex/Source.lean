import LineRules.Regex.Bracket
import LineRules.Regex.Limit

/-!
The written form of regular expressions: literals, bracketed sets, escapes, groups with and without
names, inline flags, alternatives and repetition. There is no look-around and no back-reference, a
name may be given once only, and every repetition needs something to repeat; a text that breaks
these rules stands for no expression.
-/
namespace LineRules.Regex

structure Flags where
  anyCase : Bool := false
  multiLine : Bool := false
  dotAll : Bool := false
  swapGreed : Bool := false
deriving DecidableEq, Repr

/-- Sets the flag of a letter. Texts are always Unicode, so the letter for that can only be set. -/
def Flags.set? (flags : Flags) (letter : Char) (value : Bool) : Option Flags :=
  match letter with
  | 'i' => some { flags with anyCase := value }
  | 'm' => some { flags with multiLine := value }
  | 's' => some { flags with dotAll := value }
  | 'U' => some { flags with swapGreed := value }
  | 'u' => if value then some flags else none
  | _ => none

structure Part where
  expr : Expr
  depth : Nat

namespace Part

/-- The depth of the deepest part; one more if there are several, as they form a level. -/
def depthOf (parts : List Part) : Nat :=
  (parts.map (·.depth)).foldl max 0 + if parts.length ≤ 1 then 0 else 1

def sequence (parts : List Part) : Part :=
  ⟨.sequence (parts.reverse.map (·.expr)), depthOf parts⟩

def alternatives (parts : List Part) : Part :=
  ⟨.alternatives (parts.reverse.map (·.expr)), depthOf parts⟩

end Part

structure Frame where
  number : Option Nat
  flags : Flags
  alternatives : List Part
  items : List Part

structure Reader where
  flags : Flags
  nextGroup : Nat
  names : List (Text × Nat)
  frames : List Frame
  /-- The finished alternatives of the innermost group, latest first. -/
  alternatives : List Part
  /-- The items of the alternative that is being read, latest first. -/
  items : List Part
  repeatable : Bool

namespace Reader

def inner (r : Reader) : Part :=
  .alternatives (.sequence r.items :: r.alternatives)

def push (r : Reader) (item : Part) : Reader :=
  { r with items := item :: r.items, repeatable := true }

def pushFlat (r : Reader) (e : Expr) : Reader :=
  r.push ⟨e, 0⟩

def literal (r : Reader) (c : Char) : Reader :=
  r.pushFlat (.ofSet (if r.flags.anyCase then .sameFold c else .single c))

def enter (r : Reader) (number : Option Nat) (flags : Flags) : Reader :=
  { r with
    flags, frames := ⟨number, r.flags, r.alternatives, r.items⟩ :: r.frames,
    alternatives := [], items := [], repeatable := false }

def enterNumbered (r : Reader) : Reader :=
  { r.enter (some r.nextGroup) r.flags with nextGroup := r.nextGroup + 1 }

def leave (r : Reader) : Option Reader :=
  match r.frames with
  | [] => none
  | frame :: frames =>
    let inner := r.inner
    let e := match frame.number with
      | some n => .group n inner.expr
      | none => inner.expr
    some { r with
      flags := frame.flags, frames, alternatives := frame.alternatives,
      items := ⟨e, inner.depth + 1⟩ :: frame.items, repeatable := true }

def switch (r : Reader) (flags : Flags) : Reader :=
  { r.pushFlat .empty with flags, repeatable := false }

def repeatLast (r : Reader) (least : Nat) (most : Option Nat) (rest : Text) :
    Option (Reader × Text) :=
  match r.repeatable, r.items with
  | true, item :: items =>
    let (greedy, rest) := match rest with
      | '?' :: rest => (false, rest)
      | _ => (true, rest)
    let e := .repeated least most (greedy != r.flags.swapGreed) item.expr
    some ({ r with items := ⟨e, item.depth + 1⟩ :: items }, rest)
  | _, _ => none

def maxCount : Nat := 4294967295

/-- Reads a count with the white space around it: some count, or none if no digit is there. A
count out of range is malformed. -/
def readCount (t : Text) : Option (Option Nat × Text) :=
  let t := t.dropWhile Unicode.isWhiteSpace
  let digits := t.takeWhile CharSet.asciiDigit.mem
  let rest := (t.drop digits.length).dropWhile Unicode.isWhiteSpace
  if digits.isEmpty then some (none, rest)
  else if maxCount < Decimal.value digits then none
  else some (some (Decimal.value digits), rest)

def readCounts (t : Text) : Option (Nat × Option Nat × Text) := do
  match ← readCount t with
  | (some n, '\x7d' :: rest) => some (n, some n, rest)
  | (some n, ',' :: '\x7d' :: rest) => some (n, none, rest)
  | (some n, ',' :: rest) =>
    match ← readCount rest with
    | (some m, '\x7d' :: rest) => if n ≤ m then some (n, some m, rest) else none
    | _ => none
  | _ => none

/-- Reads flag letters up to the colon or bracket that ends them; `seen` holds the letters before,
and `value` is what the next letter sets its flag to. -/
def readFlags (flags : Flags) (seen : List Char) (value : Bool) :
    Text → Option (Flags × List Char × Char × Text)
  | [] => none
  | c :: rest =>
    if c = ':' || c = ')' then
      if seen.head? = some '-' then none else some (flags, seen, c, rest)
    else if seen.contains c then none
    else if c = '-' then readFlags flags (c :: seen) false rest
    else do readFlags (← flags.set? c value) (c :: seen) value rest

def isNameChar (first : Bool) (c : Char) : Bool :=
  if first then c == '_' || Unicode.isAlphabetic c
  else c == '_' || c == '.' || c == '[' || c == ']' || Unicode.isAlphabetic c || Unicode.isNumeric c

def isGroupName : Text → Bool
  | [] => false
  | c :: rest => isNameChar true c && rest.all (isNameChar false)

def enterNamed (r : Reader) (t : Text) : Option (Reader × Text) :=
  let name := t.takeWhile (· ≠ '>')
  match t.drop name.length with
  | _ :: rest =>
    if isGroupName name && (r.names.lookup name).isNone then
      some ({ r.enterNumbered with names := r.names ++ [(name, r.nextGroup)] }, rest)
    else none
  | [] => none

def readGroup (r : Reader) : Text → Option (Reader × Text)
  | '?' :: '=' :: _ | '?' :: '!' :: _ | '?' :: '<' :: '=' :: _ | '?' :: '<' :: '!' :: _ => none
  | '?' :: 'P' :: '<' :: rest | '?' :: '<' :: rest => r.enterNamed rest
  | '?' :: rest => do
    match ← readFlags r.flags [] true rest with
    | (flags, _, ':', rest) => some (r.enter none flags, rest)
    | (_, [], _, _) => none
    | (flags, _, _, rest) => some (r.switch flags, rest)
  | rest => some (r.enterNumbered, rest)

def step (r : Reader) (c : Char) (rest : Text) : Option (Reader × Text) :=
  match c with
  | '(' => r.readGroup rest
  | ')' => r.leave.map (·, rest)
  | '|' =>
    some ({ r with
      alternatives := .sequence r.items :: r.alternatives, items := [], repeatable := false }, rest)
  | '[' =>
    (readBracket r.flags.anyCase rest).map fun (found, rest) =>
      (r.push ⟨.ofSet found.set, found.depth⟩, rest)
  | '?' => r.repeatLast 0 (some 1) rest
  | '*' => r.repeatLast 0 none rest
  | '+' => r.repeatLast 1 none rest
  | '\x7b' => do
    if !r.repeatable then none
    let (least, most, rest) ← readCounts rest
    r.repeatLast least most rest
  | '.' => some (r.pushFlat (.set (if r.flags.dotAll then .all else .notLineFeed)), rest)
  | '^' => some (r.pushFlat (.look (if r.flags.multiLine then .lineStart else .textStart)), rest)
  | '$' => some (r.pushFlat (.look (if r.flags.multiLine then .lineEnd else .textEnd)), rest)
  | '\\' =>
    (readEscape rest).map fun (atom, rest) =>
      (match atom with
        | .char c => r.literal c
        | .set s => r.pushFlat (.set s)
        | .look l => r.pushFlat (.look l), rest)
  | c => some (r.literal c, rest)

def readAll (r : Reader) (t : Text) : Option Reader :=
  match t with
  | [] => some r
  | c :: rest =>
    match r.step c rest with
    | none => none
    | some (r, left) => if left.length ≤ rest.length then r.readAll left else none
termination_by t.length

end Reader

def maxDepth : Nat := 250

def read? (source : Text) (flags : Flags) : Option (Expr × List (Text × Nat)) := do
  let r ← Reader.readAll ⟨flags, 1, [], [], [], [], false⟩ source
  let whole := r.inner
  if r.frames.isEmpty && whole.depth ≤ maxDepth then some (whole.expr, r.names) else none

inductive Fault where
  | malformed
  | tooLarge
deriving DecidableEq, Repr

/-- What is said about a fault. Where and why a text is malformed is not told. -/
def Fault.message : Fault → Text
  | .malformed => ""
  | .tooLarge => ("Compiled regex exceeds size limit of " : Text) ++
    (Decimal.numeral maxMemory ++ (" bytes." : Text))

def ofSource (limit : Limit) (source : Text) (flags : Flags) : Except Fault Matcher :=
  match read? source flags with
  | none => .error .malformed
  | some (e, names) => if limit.refuses e then .error .tooLarge else .ok (e.matcher names)

def metacharacters : Text :=
  "\\.+*?()|[]\x7b\x7d^$#&-~"

def escape (t : Text) : Text :=
  t.flatMap fun c => if c ∈ metacharacters then ['\\', c] else [c]

end LineRules.Regex
