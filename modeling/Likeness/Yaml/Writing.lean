import Likeness.Digest.Bytes
import Likeness.Yaml.Value

/-!
# Likeness.Yaml.Writing

Writes trees of named values as YAML. A text is written plainly when nothing else could be read out
of it, over several lines when it has several, and in quotes otherwise.
-/

namespace Likeness.Yaml

/-! ### Texts -/

/-- Words that some readers take for truth values. -/
def truthWords : List String :=
  ["y", "Y", "yes", "Yes", "YES", "n", "N", "no", "No", "NO", "true", "True", "TRUE", "false",
   "False", "FALSE", "on", "On", "ON", "off", "Off", "OFF"]

/-- Whether a plain text would be read as something other than a text. -/
def standsForMore (text : String) : Bool :=
  truthWords.contains text || text = "" || isNullWord text ||
    (natural? (Nat.pow 2 128) text).isSome || isNegativeInteger text || (real? text).isSome ||
    hasSpareZero (match text.toList with
      | '-' :: cs => cs
      | cs => withoutPlus cs)

/-- Characters that may stand in a text without an escape. -/
def isPrintable (c : Char) : Bool :=
  let n := c.toNat
  n = 0x0a || (0x20 ≤ n && n ≤ 0x7e) || (0xa0 ≤ n && n ≤ 0xfffd && n ≠ 0xfeff)

/-- A line break other than the one that ends lines here. -/
def isForeignBreak (c : Char) : Bool := c.toNat = 0x2028 || c.toNat = 0x2029

/-- Whether all characters can stand for themselves, and no line ends in a blank. -/
def isTame : List Char → Bool
  | [] => true
  | ' ' :: '\n' :: _ => false
  | c :: cs => isPrintable c && !isForeignBreak c && isTame cs

/-- Whether what follows separates words. -/
def startsApart : List Char → Bool
  | [] => true
  | c :: _ => c = ' ' || c = '\t' || c = '\n'

/-- Characters that a plain text cannot start with. -/
def indicators : List Char :=
  ['#', ',', '[', ']', '{', '}', '&', '*', '!', '|', '>', '\'', '"', '%', '@', '\x60']

/-- Whether a plain text may start like this. -/
def startsPlainly : List Char → Bool
  | [] => false
  | c :: cs =>
    !indicators.contains c && c ≠ ' ' && !((c = '-' || c = '?' || c = ':') && startsApart cs)

/-- Whether a plain text may go on like this, after a blank or not. -/
def continuesPlainly (afterBlank : Bool) : List Char → Bool
  | [] => true
  | c :: cs =>
    !(c = ':' && startsApart cs) && !(c = '#' && afterBlank) && c ≠ '\n' &&
      continuesPlainly (c = ' ') cs

/-- Whether a text can be written plainly. -/
def canBePlain (cs : List Char) : Bool :=
  isTame cs && startsPlainly cs && continuesPlainly true cs && cs.getLast? ≠ some ' ' &&
    !("---".toList.isPrefixOf cs) && !("...".toList.isPrefixOf cs)

/-- Hexadecimal digits in upper case. -/
def upperHexadecimal (digits n : Nat) : String := (hexadecimal digits n).toUpper

/-- A character between double quotes. -/
def escapedText (c : Char) : String :=
  match c.toNat with
  | 0x00 => "\\0"
  | 0x07 => "\\a"
  | 0x08 => "\\b"
  | 0x09 => "\\t"
  | 0x0a => "\\n"
  | 0x0b => "\\v"
  | 0x0c => "\\f"
  | 0x0d => "\\r"
  | 0x1b => "\\e"
  | 0x22 => "\\\""
  | 0x5c => "\\\\"
  | 0x85 => "\\N"
  | 0x2028 => "\\L"
  | 0x2029 => "\\P"
  | n =>
    if isPrintable c then String.singleton c
    else if n ≤ 0xff then "\\x" ++ upperHexadecimal 2 n
    else if n ≤ 0xffff then "\\u" ++ upperHexadecimal 4 n
    else "\\U" ++ upperHexadecimal 8 n

/-- A text between double quotes, where any character can be escaped. -/
def doubleQuoted (text : String) : String :=
  "\"" ++ String.join (text.toList.map escapedText) ++ "\""

/-- A text between single quotes, where a quote is written twice and nothing can be escaped. -/
def singleQuoted (text : String) : String :=
  "'" ++ String.join (text.toList.map fun c => if c = '\'' then "''" else String.singleton c) ++ "'"

/-- The lines of a text of which each line but the last must have an end. -/
def linesOf (text : String) : List String :=
  let pieces := text.splitOn "\n"
  if text.endsWith "\n" then pieces.dropLast else pieces

/-- The mark of a text over several lines: the depth of its lines if they do not show it, and what
becomes of the ends of the last ones. -/
def literalMark (text : String) : String :=
  let cs := text.toList
  let depth := match cs with
    | ' ' :: _ | '\n' :: _ => "2"
    | _ => ""
  let ending := match cs.reverse with
    | '\n' :: [] | '\n' :: '\n' :: _ => "+"
    | '\n' :: _ => ""
    | _ => "-"
  "|" ++ depth ++ ending

/-! ### Trees -/

/-- A named value: what stands behind the name and, for some texts, on lines below it. -/
inductive Tree where
  | leaf (head : String) (below : List String)
  | branch (entries : List (String × Tree))

namespace Tree

/-- A leaf in one line. -/
def word (text : String) : Tree := leaf text []

/-- A natural number. -/
def ofNat (n : Nat) : Tree := word (toString n)

/-- A truth value. -/
def ofBool (b : Bool) : Tree := word (toString b)

/-- Numbers in YAML text. -/
def layout : Binary64.Layout := ⟨"", ".nan", ".inf"⟩

/-- A real number. -/
def ofReal (x : Binary64) : Tree := word (x.write layout)

/-- A text in the plainest way in which it is read back. -/
def ofText (text : String) : Tree :=
  let cs := text.toList
  if cs.contains '\n' then
    if isTame cs ∧ cs.getLast? ≠ some ' ' then leaf (literalMark text) (linesOf text)
    else word (doubleQuoted text)
  else if isTame cs then
    if canBePlain cs ∧ ¬ standsForMore text then word text else word (singleQuoted text)
  else word (doubleQuoted text)

/-- A value, or null for nothing. -/
def ofOption (f : α → Tree) : Option α → Tree
  | none => word "null"
  | some a => f a

/-- Two blanks for each level. -/
def indent (level : Nat) : String := String.ofList (List.replicate (2 * level) ' ')

/-- Lines at a level. Empty lines have no margin. -/
def writeBelow (level : Nat) (lines : List String) : String :=
  String.join (lines.map fun l => (if l = "" then "" else indent level ++ l) ++ "\n")

mutual

/-- A value behind its name. -/
def write (level : Nat) : Tree → String
  | leaf head below => " " ++ head ++ "\n" ++ writeBelow (level + 1) below
  | branch [] => " \x7b\x7d\n"
  | branch (e :: es) => "\n" ++ writeEntries (level + 1) (e :: es)

/-- The entries of a branch at a level. -/
def writeEntries (level : Nat) : List (String × Tree) → String
  | [] => ""
  | (name, value) :: rest =>
    indent level ++ name ++ ":" ++ write level value ++ writeEntries level rest

end

/-- A whole document. -/
def document (entries : List (String × Tree)) : String := writeEntries 0 entries

end Tree

end Likeness.Yaml
