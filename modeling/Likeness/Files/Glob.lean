import Likeness.Path

/-!
# Likeness.Files.Glob

Globs for paths. `?` stands for any byte and `*` for any bytes, slashes too; `**` between slashes
stands for any directories, also for none; `[a-z]` and `[!a-z]` stand for one byte, `{a,b}` for
either of two globs, and a backslash takes the meaning from the next character. A path matches as a
whole, byte by byte.

A glob is read into tokens, and these make a pattern, which is matched by keeping track of what may
be left of the path.
-/

namespace Likeness

/-! ### Patterns -/

/-- A set of texts. -/
inductive Pattern where
  /-- The empty text. -/
  | empty
  /-- One byte out of some ranges, or out of none of them. -/
  | byte (negated : Bool) (ranges : List (UInt8 × UInt8))
  /-- Any text. -/
  | any
  | sequence (p q : Pattern)
  | either (p q : Pattern)
deriving DecidableEq

namespace Pattern

/-- Whether a class of bytes has a byte in it. -/
def allows (negated : Bool) (ranges : List (UInt8 × UInt8)) (b : UInt8) : Bool :=
  ranges.any (fun (low, high) => low ≤ b && b ≤ high) != negated

/-- All ends of a text, the text itself among them. -/
def ends : List UInt8 → List (List UInt8)
  | [] => [[]]
  | b :: bs => (b :: bs) :: ends bs

/-- The first of the longest texts. -/
def longest (texts : List (List UInt8)) : List UInt8 :=
  texts.foldl (fun a b => if a.length < b.length then b else a) []

/-- What may be left when a pattern is taken from the front. All of `texts` are ends of one text,
so the ends of the longest are those of all. -/
def leftOver : Pattern → List (List UInt8) → List (List UInt8)
  | empty, texts => texts
  | byte negated ranges, texts => texts.filterMap fun
    | [] => none
    | b :: rest => if allows negated ranges b then some rest else none
  | any, texts => if texts = [] then [] else ends (longest texts)
  | sequence p q, texts => q.leftOver (p.leftOver texts)
  | either p q, texts => p.leftOver texts ++ q.leftOver texts

/-- Whether a whole text lies in a pattern. -/
def accepts (p : Pattern) (text : List UInt8) : Bool := (p.leftOver [text]).contains []

/-- A sequence of patterns, without those of the empty text. -/
def inSequence : List Pattern → Pattern
  | [] => empty
  | p :: ps =>
    if p = empty then inSequence ps
    else
      let rest := inSequence ps
      if rest = empty then p else sequence p rest

/-- Any of some patterns. Those of the empty text do not count. -/
def anyOf (ps : List Pattern) : Pattern :=
  match (ps.filter (· ≠ empty)).reverse with
  | [] => empty
  | last :: before => before.foldl (fun rest p => either p rest) last

/-- The pattern of a single byte. -/
def ofByte (b : UInt8) : Pattern := byte false [(b, b)]

/-- The bytes of a character. -/
def ofChar (c : Char) : Pattern := inSequence ((String.singleton c).toUTF8.toList.map ofByte)

/-- The pattern of a slash. -/
def slash : Pattern := ofByte 0x2f

end Pattern

/-! ### Globs -/

namespace Glob

/-- What can be wrong with a glob. -/
inductive Fault where
  | unclosedClass
  | invalidRange (low high : Char)
  | unclosedGroup
  | unopenedGroup
  | danglingEscape
deriving DecidableEq

/-- What is said about a glob that cannot be read. -/
def Fault.message : Fault → String
  | .unclosedClass => "unclosed character class; missing ']'"
  | .invalidRange low high =>
    "invalid range; '" ++ String.singleton low ++ "' > '" ++ String.singleton high ++ "'"
  | .unclosedGroup =>
    "unclosed alternate group; missing '\x7d' (maybe escape '\x7b' with '[\x7b]'?)"
  | .unopenedGroup =>
    "unopened alternate group; missing '\x7b' (maybe escape '\x7d' with '[\x7d]'?)"
  | .danglingEscape => "dangling '\\'"

/-- A piece of a glob that has a meaning of its own. -/
inductive Token where
  | literal (c : Char)
  | oneByte
  | anyBytes
  /-- Directories in front of a name. -/
  | leadingDirectories
  /-- A slash and all that may follow. -/
  | trailingPath
  /-- Directories between slashes. -/
  | innerDirectories
  | oneOf (negated : Bool) (ranges : List (Char × Char))
  | group (p : Pattern)
deriving DecidableEq

/-- A range of characters, as bytes. Of a character of several bytes, all but the one that meets
the dash stand for themselves. -/
def byteRanges (low high : Char) : List (UInt8 × UInt8) :=
  let lows := (String.singleton low).toUTF8.toList
  let highs := (String.singleton high).toUTF8.toList
  let alone := fun b : UInt8 => (b, b)
  if low = high then lows.map alone
  else lows.dropLast.map alone ++ [(lows.getLastD 0, highs.headD 0)] ++ highs.tail.map alone

namespace Token

/-- The texts that a token stands for. -/
def pattern : Token → Pattern
  | literal c => .ofChar c
  | oneByte => .byte true []
  | anyBytes => .any
  | leadingDirectories => .either .empty (.either .slash (.sequence .any .slash))
  | trailingPath => .sequence .slash .any
  | innerDirectories => .either .slash (.sequence .slash (.sequence .any .slash))
  | oneOf negated ranges => .byte negated (ranges.flatMap fun (a, b) => byteRanges a b)
  | group p => p

end Token

/-- A group whose end has not been read. -/
structure OpenGroup where
  /-- What was read before the group, the latest first. -/
  before : List Token
  /-- Branches of the group that are complete, the latest first. -/
  branches : List Pattern

/-- The reading of a glob. -/
structure Reading where
  /-- Groups around what is read, the innermost first. -/
  groups : List OpenGroup
  /-- Tokens of the branch that is read, the latest first. -/
  tokens : List Token

/-- The pattern of tokens, the latest first. -/
def patternOf (tokens : List Token) : Pattern := .inSequence (tokens.reverse.map Token.pattern)

namespace Reading

/-- Adds a token to the branch that is read. -/
def push (r : Reading) (t : Token) : Reading := { r with tokens := t :: r.tokens }

/-- Puts a token in place of the latest one. -/
def replace (r : Reading) (t : Token) : Reading := { r with tokens := t :: r.tokens.tail }

/-- Opens a group; what was read before it is put aside. -/
def openGroup (r : Reading) : Reading := ⟨⟨r.tokens, []⟩ :: r.groups, []⟩

/-- Ends a branch of the innermost group. Outside of groups a comma is a character. -/
def comma (r : Reading) : Reading :=
  match r.groups with
  | [] => r.push (.literal ',')
  | g :: gs => ⟨{ g with branches := patternOf r.tokens :: g.branches } :: gs, []⟩

/-- Ends the innermost group, which becomes a token of what was put aside. -/
def closeGroup (r : Reading) : Except Fault Reading :=
  match r.groups with
  | [] => .error .unopenedGroup
  | g :: gs =>
    .ok ⟨gs, .group (.anyOf (patternOf r.tokens :: g.branches).reverse) :: g.before⟩

/-- What two stars stand for, after the character `previous` and before the character `next`. -/
inductive Stars where
  /-- Any bytes. -/
  | plain
  | leading
  | inner
  | trailing

/-- What two stars stand for between two characters. Inside a group, its brackets and commas count
as ends. -/
def starsAt (r : Reading) (previous next : Option Char) : Stars :=
  let nested := r.groups ≠ []
  if r.tokens = [] then
    if next = none ∨ next = some '/' then .leading else .plain
  else if previous = some '/' ∨ nested ∧ (previous = some ',' ∨ previous = some '{') then
    match next with
    | none => .trailing
    | some '/' => .inner
    | some c => if nested ∧ (c = ',' ∨ c = '}') then .trailing else .plain
  else .plain

/-- The token that stars leave behind where `t` is new. After stars at the front or at the end, which
stand for all of that already, they add nothing. -/
def absorbed (r : Reading) (t : Token) : Token :=
  match r.tokens with
  | .leadingDirectories :: _ => .leadingDirectories
  | .trailingPath :: _ => .trailingPath
  | _ => t

/-- Enters two stars. In the middle and at the end they take in the slash before them. -/
def stars (r : Reading) : Stars → Reading
  | .plain => (r.push .anyBytes).push .anyBytes
  | .leading => r.push .leadingDirectories
  | .inner => r.replace (r.absorbed .innerDirectories)
  | .trailing => r.replace (r.absorbed .trailingPath)

end Reading

/-- The reading of a class: its ranges, the latest first, and whether a dash waits for the end of
one. -/
structure ClassReading where
  negated : Bool
  ranges : List (Char × Char)
  inRange : Bool

namespace ClassReading

/-- Ends the latest range. -/
def endRange (k : ClassReading) (c : Char) : Except Fault ClassReading :=
  match k.ranges with
  | [] => .ok k
  | (low, _) :: rest =>
    if c < low then .error (.invalidRange low c)
    else .ok { k with ranges := (low, c) :: rest, inRange := false }

/-- Takes a character, or a dash. The first is never an end or a dash between two others. -/
def take (k : ClassReading) (c : Char) : Except Fault ClassReading :=
  if k.inRange then k.endRange c
  else if c = '-' ∧ k.ranges ≠ [] then .ok { k with inRange := true }
  else .ok { k with ranges := (c, c) :: k.ranges }

/-- The class that was read. A dash that still waits for an end is a character of it. -/
def token (k : ClassReading) : Token :=
  .oneOf k.negated (if k.inRange then ('-', '-') :: k.ranges else k.ranges).reverse

end ClassReading

mutual

/-- Reads a glob, after the character `previous`. -/
def read (r : Reading) (previous : Option Char) : List Char → Except Fault Reading
  | [] => .ok r
  | '?' :: cs => read (r.push .oneByte) '?' cs
  | '*' :: '*' :: '/' :: cs =>
    match r.starsAt previous (some '/') with
    | .plain => read ((r.stars .plain).push (.literal '/')) '/' cs
    | s => read (r.stars s) '/' cs
  | '*' :: '*' :: cs => read (r.stars (r.starsAt previous cs.head?)) '*' cs
  | '*' :: cs => read (r.push .anyBytes) '*' cs
  | '[' :: '!' :: cs => readClass r ⟨true, [], false⟩ cs
  | '[' :: '^' :: cs => readClass r ⟨true, [], false⟩ cs
  | '[' :: cs => readClass r ⟨false, [], false⟩ cs
  | '{' :: cs => read r.openGroup '{' cs
  | '}' :: cs =>
    match r.closeGroup with
    | .error f => .error f
    | .ok r => read r '}' cs
  | ',' :: cs => read r.comma ',' cs
  | '\\' :: [] => .error .danglingEscape
  | '\\' :: c :: cs => read (r.push (.literal c)) c cs
  | c :: cs => read (r.push (.literal c)) c cs

/-- Reads a class, up to its closing bracket. -/
def readClass (r : Reading) (k : ClassReading) : List Char → Except Fault Reading
  | [] => .error .unclosedClass
  | c :: cs =>
    if c = ']' ∧ k.ranges ≠ [] then read (r.push k.token) ']' cs
    else
      match k.take c with
      | .error f => .error f
      | .ok k => readClass r k cs

end

/-- The pattern of a glob. -/
def pattern (glob : String) : Except Fault Pattern := do
  let r ← read ⟨[], []⟩ none glob.toList
  if r.groups ≠ [] then throw .unclosedGroup
  -- Alone, two stars stand for everything.
  if r.tokens = [.leadingDirectories] then return .any
  return patternOf r.tokens

/-- What is said of a glob that cannot be read. -/
def faultText (glob : String) (f : Fault) : String :=
  "error parsing glob '" ++ glob ++ "': " ++ f.message

/-- Whether a path matches a pattern. -/
def isMatch (p : Pattern) (path : Path) : Bool := p.accepts path.text.toUTF8.toList

end Glob

end Likeness
