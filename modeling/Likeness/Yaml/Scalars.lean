import Likeness.Yaml.Cursor

/-!
# Likeness.Yaml.Scalars

Reads plain scalars, quoted ones, and those that stand on the lines below their head. A line end
inside a plain or quoted scalar is folded into a blank.
-/

namespace Likeness.Yaml

/-! ### Folding -/

/-- A stretch of blanks and line ends inside a scalar. -/
structure Fold where
  /-- Blanks before the first line end. -/
  blanks : List Char
  breaks : Nat
  /-- Whether a tab stands to the left of `indent` after a line end. -/
  tabbed : Bool

namespace Fold

/-- What stands for the stretch: the blanks themselves, a blank for one line end, and the line ends
but one for several. -/
def text (f : Fold) : List Char :=
  if f.breaks = 0 then f.blanks
  else if f.breaks = 1 then [' ']
  else List.replicate (f.breaks - 1) '\n'

/-- Takes a stretch, and gives it with the state after it. -/
def take (indent : Nat) (f : Fold) (s : State) : List Char → Fold × State
  | [] => (f, { s with rest := [] })
  | c :: cs =>
    if c = '\n' then
      take indent { f with breaks := f.breaks + 1 } { s with line := s.line + 1, column := 0 } cs
    else if isBlank c then
      if f.breaks = 0 then
        take indent { f with blanks := f.blanks ++ [c] } { s with column := s.column + 1 } cs
      else
        take indent { f with tabbed := f.tabbed || (c = '\t' && s.column < indent) }
          { s with column := s.column + 1 } cs
    else (f, { s with rest := c :: cs })

end Fold

/-- Reads a stretch of blanks and line ends. -/
def fold (indent : Nat) : Reader Fold := do
  let s ← get
  let (f, s) := Fold.take indent ⟨[], 0, false⟩ s s.rest
  set s
  return f

/-! ### Plain scalars -/

/-- Characters that start something other than a plain scalar. -/
def startMarks : List Char := ['#', '&', '*', '!', '|', '>', '\'', '"', '%', '@', '\x60']

/-- Whether a plain scalar may start like this. -/
def startsPlain (flow : Bool) : List Char → Bool
  | [] => false
  | c :: cs =>
    if c = '-' then !endsWord cs
    else if c = '?' || c = ':' then !flow && !endsWord cs
    else !endsWord [c] && !isFlowMark c && !startMarks.contains c

/-- A word of a plain scalar. -/
def plainWord (flow : Bool) : List Char → List Char
  | [] => []
  | c :: cs =>
    if endsWord [c] || (c = ':' && endsWord cs) || (flow && isFlowMark c) then []
    else c :: plainWord flow cs

/-- Whether a word holds a colon that no flow collection admits, given what follows the word. -/
def hasStrayColon : (word after : List Char) → Bool
  | ':' :: [], c :: _ => isFlowMark c
  | ':' :: '?' :: _, _ => true
  | _ :: cs, after => hasStrayColon cs after
  | [], _ => false

/-- Reads on in a plain scalar, with `pending` before the next word. -/
def plainFrom (flow : Bool) (indent : Nat) : Nat → (pending : List Char) → Reader (List Char)
  | 0, _ => return []
  | fuel + 1, pending => do
    let s ← get
    if s.atEnd || s.rest.head? = some '#' || (!flow && s.column < indent) then return []
    let word := plainWord flow s.rest
    if word = [] then return []
    set (s.skip word.length)
    if flow && hasStrayColon word (s.rest.drop word.length) then fail "unexpected colon"
    let f ← fold indent
    if f.tabbed then fail "a tab where lines are indented"
    if 0 < f.breaks then modify fun s => { s with keyAllowed := true }
    let more ← if f.blanks = [] ∧ f.breaks = 0 then pure [] else plainFrom flow indent fuel f.text
    return pending ++ word ++ more

/-- Reads a plain scalar. -/
def plain (flow : Bool) (indent : Nat) : Reader Yaml := do
  let s ← get
  return .scalar true (String.ofList (← plainFrom flow indent (s.rest.length + 1) []))

/-! ### Quoted scalars -/

/-- Reads on in a scalar between single quotes. -/
def singleFrom : Nat → Reader (List Char)
  | 0 => fail "unclosed quote"
  | fuel + 1 => do
    let s ← get
    if s.atEnd then fail "unclosed quote"
    match s.rest with
    | '\'' :: '\'' :: _ =>
      set (s.skip 2)
      return '\'' :: (← singleFrom fuel)
    | '\'' :: _ =>
      set s.step
      return []
    | c :: cs =>
      if endsWord (c :: cs) then
        let f ← fold 0
        return f.text ++ (← singleFrom fuel)
      else
        set s.step
        return c :: (← singleFrom fuel)
    | [] => fail "unclosed quote"

/-- The character of a one-letter escape. -/
def escaped? (c : Char) : Option Char :=
  match c with
  | '0' => some '\x00'
  | 'a' => some '\x07'
  | 'b' => some '\x08'
  | 't' | '\t' => some '\t'
  | 'n' => some '\n'
  | 'v' => some '\x0b'
  | 'f' => some '\x0c'
  | 'r' => some '\x0d'
  | 'e' => some '\x1b'
  | ' ' => some ' '
  | '"' => some '"'
  | '/' => some '/'
  | '\\' => some '\\'
  | 'N' => some (Char.ofNat 0x85)
  | '_' => some (Char.ofNat 0xa0)
  | 'L' => some (Char.ofNat 0x2028)
  | 'P' => some (Char.ofNat 0x2029)
  | _ => none

/-- How many digits follow the letter of a numbered escape. -/
def escapeLength? (c : Char) : Option Nat :=
  match c with
  | 'x' => some 2
  | 'u' => some 4
  | 'U' => some 8
  | _ => none

/-- The character of a numbered escape. -/
def numbered? (digits : List Char) (length : Nat) : Option Char := do
  if digits.length ≠ length then none
  let n ← digits? 16 digits
  if (0xd800 ≤ n ∧ n ≤ 0xdfff) ∨ 0x10ffff < n then none else some (Char.ofNat n)

/-- Reads an escape, after the backslash. -/
def escape (c : Char) (s : State) : Reader (List Char) :=
  if c = '\n' then do
    -- The line end is taken away, with the blanks after it.
    let f ← fold 0
    return List.replicate (f.breaks - 1) '\n'
  else
    match escapeLength? c with
    | some n =>
      match numbered? ((s.rest.drop 2).take n) n with
      | some d => do
        set (s.skip (n + 2))
        return [d]
      | none => fail "a number of no character"
    | none =>
      match escaped? c with
      | some d => do
        set (s.skip 2)
        return [d]
      | none => fail "unknown escape"

/-- Reads on in a scalar between double quotes. -/
def doubleFrom : Nat → Reader (List Char)
  | 0 => fail "unclosed quote"
  | fuel + 1 => do
    let s ← get
    if s.atEnd then fail "unclosed quote"
    match s.rest with
    | '"' :: _ =>
      set s.step
      return []
    | '\\' :: c :: _ =>
      set s.step
      let d ← escape c s
      return d ++ (← doubleFrom fuel)
    | c :: cs =>
      if endsWord (c :: cs) then
        let f ← fold 0
        return f.text ++ (← doubleFrom fuel)
      else
        set s.step
        return c :: (← doubleFrom fuel)
    | [] => fail "unclosed quote"

/-! ### Literal scalars -/

/-- The head of a scalar that stands on the lines below it. -/
structure BlockHead where
  folded : Bool
  /-- The depth of its lines below that of the block around, if given. -/
  depth : Option Nat
  /-- What becomes of the line ends at its end: none, one, or all stay. -/
  strip : Bool
  keep : Bool

namespace BlockHead

/-- Takes the marks after the first. -/
def take (h : BlockHead) : List Char → BlockHead × List Char
  | [] => (h, [])
  | c :: cs =>
    if c = '-' && !h.strip && !h.keep then take { h with strip := true } cs
    else if c = '+' && !h.strip && !h.keep then take { h with keep := true } cs
    else if '1' ≤ c && c ≤ '9' && h.depth.isNone then
      take { h with depth := some (c.toNat - 48) } cs
    else (h, c :: cs)

end BlockHead

/-- Blanks at the start of a line. -/
def leadingBlanks (line : List Char) : Nat := (line.takeWhile (· = ' ')).length

/-- Whether a line holds nothing but blanks. -/
def isEmptyLine (line : List Char) : Bool := line.all (· = ' ')

/-- The depth that the lines show: of the first with a word, or of a blank line before it that is
longer. -/
def shownDepth : List (List Char) → Nat
  | [] => 0
  | l :: ls =>
    if isEmptyLine l then max l.length (shownDepth ls) else leadingBlanks l

/-- The lines that belong to a scalar of some depth, without the blanks in front. -/
def blockLines (depth : Nat) : List (List Char) → List (List Char)
  | [] => []
  | l :: ls =>
    if isEmptyLine l || depth ≤ leadingBlanks l then l.drop depth :: blockLines depth ls else []

/-- Puts lines together as they are; the last has no end yet. -/
def joinLiteral : List (List Char) → List Char
  | [] => []
  | [l] => l
  | l :: ls => l ++ '\n' :: joinLiteral ls

/-- A line that begins with a blank is kept apart from its neighbours. -/
def isWide (l : List Char) : Bool := l.head?.any isBlank

/-- What stands between two lines of words, or in front of the first, for some empty lines. -/
def foldedGap (previous : Option (List Char)) (emptyLines : Nat) (line : List Char) : List Char :=
  match previous with
  | none => List.replicate emptyLines '\n'
  | some p =>
    if isWide p || isWide line then List.replicate (emptyLines + 1) '\n'
    else if emptyLines = 0 then [' ']
    else List.replicate emptyLines '\n'

/-- Puts lines together with a blank in place of a single line end. -/
def joinFolded (previous : Option (List Char)) (emptyLines : Nat) : List (List Char) → List Char
  | [] => []
  | [] :: ls => joinFolded previous (emptyLines + 1) ls
  | l :: ls => foldedGap previous emptyLines l ++ l ++ joinFolded (some l) 0 ls

/-- The lines of a text, of which the last may be empty. -/
def splitLines : List Char → List (List Char)
  | [] => [[]]
  | c :: cs =>
    if c = '\n' then [] :: splitLines cs
    else match splitLines cs with
      | [] => [[c]]
      | l :: ls => (c :: l) :: ls

/-- Reads a scalar on the lines below its head, in a block at a column. -/
def literal (parent : Int) : Reader Yaml := do
  let s ← get
  let (h, rest) := BlockHead.take ⟨s.rest.head? = some '>', none, false, false⟩ s.rest.tail
  let line := rest.takeWhile (· ≠ '\n')
  let blanks := line.takeWhile isBlank
  if !(line.drop blanks.length).isEmpty && (line.drop blanks.length).head? ≠ some '#' then
    fail "unexpected text behind the head of a scalar"
  let lines := splitLines ((rest.drop line.length).drop 1)
  let outer := (max parent 0).toNat
  let depth := match h.depth with
    | some d => (if parent < 0 then 0 else outer) + d
    | none => max (shownDepth lines) (max 1 (parent + 1).toNat)
  -- What the last line end is followed by is no line.
  let complete := lines.dropLast
  let taken := blockLines depth complete
  let unfinished := taken.length = complete.length && !(lines.getLastD []).isEmpty &&
    depth ≤ leadingBlanks (lines.getLastD [])
  let all := if unfinished then taken ++ [(lines.getLastD []).drop depth] else taken
  let body := (all.reverse.dropWhile (· = [])).reverse
  let after := all.length - body.length
  let text := if h.folded then joinFolded none 0 body else joinLiteral body
  let ends :=
    if h.keep then (if body = [] || (unfinished && after = 0) then after else after + 1)
    else if h.strip || body = [] || (unfinished && after = 0) then 0 else 1
  set { s with
    rest := joinLiteral (lines.drop all.length)
    line := s.line + 1 + all.length
    column := 0
    keyAllowed := true }
  return .scalar false (String.ofList (text ++ List.replicate ends '\n'))

end Likeness.Yaml
