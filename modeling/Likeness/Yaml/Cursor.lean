import Likeness.Yaml.Value

/-!
# Likeness.Yaml.Cursor

The place in a document up to which it has been read, and the steps that take nothing from it but
blanks, comments and line ends.
-/

namespace Likeness.Yaml

/-- Why a text is not one YAML document, and where that shows. -/
structure Fault where
  reason : String
  line : Nat
  column : Nat
deriving DecidableEq

namespace Fault

/-- What is said about a fault. Lines and columns are counted from one. -/
def message (f : Fault) : String :=
  f.reason ++ " at line " ++ toString (f.line + 1) ++ " column " ++ toString (f.column + 1)

end Fault

/-- The rest of a text and what is known about it. -/
structure State where
  rest : List Char
  line : Nat
  column : Nat
  /-- Whether a key of a block mapping or an entry of a block sequence may start here. -/
  keyAllowed : Bool
  anchors : List (String × Yaml)

/-- A reader of the rest of a text, which stops at the first fault. -/
abbrev Reader := StateT State (Except Fault)

/-! ### Characters -/

/-- Whether a character separates words in a line. -/
def isBlank (c : Char) : Bool := c = ' ' || c = '\t'

/-- Whether a word ends here. -/
def endsWord : List Char → Bool
  | [] => true
  | c :: _ => isBlank c || c = '\n'

/-- Characters with a meaning in flow collections. -/
def isFlowMark (c : Char) : Bool := [',', '[', ']', '{', '}'].contains c

/-- Whether the rest starts with a mark that stands alone. -/
def startsWith (mark : String) (cs : List Char) : Bool :=
  mark.toList.isPrefixOf cs && endsWord (cs.drop mark.length)

/-- All kinds of line ends as one. -/
def unifyBreaks : List Char → List Char
  | '\x0d' :: '\n' :: cs => '\n' :: unifyBreaks cs
  | '\x0d' :: cs => '\n' :: unifyBreaks cs
  | c :: cs => (if c.toNat = 0x85 then '\n' else c) :: unifyBreaks cs
  | [] => []

/-- Characters that a document can hold. -/
def isAllowed (c : Char) : Bool :=
  let n := c.toNat
  n = 0x09 || n = 0x0a || n = 0x0d || (0x20 ≤ n && n ≤ 0x7e) || n = 0x85 ||
    (0xa0 ≤ n && n ≤ 0xfffd && n ≠ 0xfeff) || 0x10000 ≤ n

namespace State

/-- Past one character. -/
def step (s : State) : State :=
  match s.rest with
  | [] => s
  | '\n' :: cs => { s with rest := cs, line := s.line + 1, column := 0 }
  | _ :: cs => { s with rest := cs, column := s.column + 1 }

/-- Past some characters of a line. -/
def skip (s : State) (n : Nat) : State :=
  { s with rest := s.rest.drop n, column := s.column + n }

/-- Whether a line begins here that starts or ends a document. -/
def atMark (s : State) : Bool :=
  s.column = 0 && (startsWith "---" s.rest || startsWith "..." s.rest)

/-- Whether the document ends here. -/
def atEnd (s : State) : Bool := s.rest.isEmpty || s.atMark

/-- Whether a dash stands here as a word of its own. -/
def atDash (s : State) : Bool :=
  match s.rest with
  | '-' :: cs => endsWord cs
  | _ => false

/-- Past blanks, comments and line ends. Where a key may start, a tab is no blank. -/
def gap (flow comment : Bool) (s : State) : List Char → State
  | [] => { s with rest := [] }
  | c :: cs =>
    if c = '\n' then
      gap flow false { s with line := s.line + 1, column := 0, keyAllowed := s.keyAllowed || !flow }
        cs
    else if comment || c = ' ' || (c = '\t' && (flow || !s.keyAllowed)) then
      gap flow comment { s with column := s.column + 1 } cs
    else if c = '#' then gap flow true { s with column := s.column + 1 } cs
    else { s with rest := c :: cs }

end State

def fail (reason : String) : Reader α := fun s => .error ⟨reason, s.line, s.column⟩

/-- Goes on to the next thing that is no blank, comment or line end. -/
def skipGap (flow : Bool) : Reader Unit := modify fun s => s.gap flow false s.rest

/-- Goes on behind the blanks in the line. -/
def skipBlanks : Reader Unit :=
  modify fun s => s.skip (s.rest.takeWhile isBlank).length

/-- Whether a colon follows that makes a key of what was read since `line`. -/
def colonFollows (flow : Bool) (line : Nat) : Reader Bool := do
  skipBlanks
  let s ← get
  match s.rest with
  | ':' :: cs =>
    if flow || endsWord cs then
      if s.line = line then return true else fail "a key has to stay on one line"
    else return false
  | _ => return false

end Likeness.Yaml
