/-!
# Likeness.Command.Words

The words of a command line, read as options and operands.

An option has a long name behind two dashes, and may have a letter behind one; letters of options
without a value can share a dash. A value stands in the next word or in the same one, and an option
with several values takes words up to the next option. Behind a word of two dashes there are
operands only.
-/

namespace Likeness.Command

/-- Why words make no request. -/
inductive UsageFault where
  | unknownOption (word : String)
  | missingValue (option : String)
  | unexpectedValue (option value : String)
  | invalidValue (option : String) (values : List String)
  | repeated (option : String)
  | unexpectedWord (word : String)
  | missing (what : String)
  | missingCommand
  | unknownCommand (word : String)
deriving DecidableEq

namespace UsageFault

/-- What is said about a use that was not meant. -/
def message : UsageFault → String
  | unknownOption w => "unexpected argument '" ++ w ++ "' found"
  | missingValue o => "a value is required for '--" ++ o ++ "' but none was supplied"
  | unexpectedValue o v =>
    "unexpected value '" ++ v ++ "' for '--" ++ o ++ "' found; no more were expected"
  | invalidValue o vs => "invalid value '" ++ " ".intercalate vs ++ "' for '--" ++ o ++ "'"
  | repeated o => "the argument '--" ++ o ++ "' cannot be used multiple times"
  | unexpectedWord w => "unexpected argument '" ++ w ++ "' found"
  | missing what => "the following required argument was not provided: " ++ what
  | missingCommand => "a command is required but none was provided"
  | unknownCommand w => "unrecognized subcommand '" ++ w ++ "'"

end UsageFault

/-- Why reading ends without a request. -/
inductive Halt where
  | usage (f : UsageFault)
  /-- Help was asked for, on a command or on the program. -/
  | help (command : Option String)
  | version
deriving DecidableEq

/-- How many values an option takes where it is given. -/
inductive Arity where
  | none
  | one
  /-- One or more. -/
  | some
deriving DecidableEq

/-- What an option is called and what it is for. -/
structure OptionInfo where
  long : String
  letter : Option Char
  arity : Arity
  /-- What its value is called. -/
  value : String
  about : String
  /-- Whether it can be given more than once. -/
  repeats : Bool := false

namespace OptionInfo

/-- An option without a value. -/
def flag (long : String) (letter : Option Char) (about : String) : OptionInfo :=
  { long := long, letter := letter, arity := .none, value := "", about := about }

/-- An option with one value. -/
def valued (long : String) (letter : Option Char) (value about : String) : OptionInfo :=
  { long := long, letter := letter, arity := .one, value := value, about := about }

/-- An option with any number of values, which can be given again for more. -/
def several (long : String) (letter : Option Char) (value about : String) : OptionInfo :=
  { long := long, letter := letter, arity := .some, value := value, about := about,
    repeats := true }

end OptionInfo

/-- An option, and what it makes of the values it is given. -/
structure Switch (σ : Type) where
  info : OptionInfo
  effect : σ → List String → Except Halt σ

namespace Switch

variable {σ α : Type}

/-- Fails for values that will not do. -/
def orInvalid (info : OptionInfo) (values : List String) : Option α → Except Halt α
  | some a => .ok a
  | none => .error (.usage (.invalidValue info.long values))

/-- An option without a value. -/
def flag (info : OptionInfo) (set : σ → σ) : Switch σ := ⟨info, fun s _ => .ok (set s)⟩

/-- An option with a value, or with several. -/
def setting (info : OptionInfo) (read : String → Option α) (set : σ → List α → σ) : Switch σ :=
  ⟨info, fun s values => (orInvalid info values (values.mapM read)).map (set s)⟩

/-- An option that ends the reading. -/
def halting (info : OptionInfo) (h : Halt) : Switch σ := ⟨info, fun _ _ => .error h⟩

end Switch

/-- What was read so far. -/
structure Words (σ : Type) where
  value : σ
  /-- Long names of the options given. -/
  given : List String
  /-- The option that the next word may be a value of, and its values so far. -/
  pending : Option (Switch σ × List String)
  operands : List String
  /-- Whether only operands may follow. -/
  closed : Bool

namespace Words

variable {σ : Type}

/-- Before the first word. -/
def start (value : σ) : Words σ := ⟨value, [], none, [], false⟩

/-- Carries out an option, which then waits for nothing more. -/
def apply (w : Words σ) (s : Switch σ) (values : List String) : Except Halt (Words σ) := do
  return { w with value := ← s.effect w.value values, pending := none }

/-- Gives the option that waits for values what it has got. -/
def settle (w : Words σ) : Except Halt (Words σ) :=
  match w.pending with
  | none => .ok w
  | some (s, []) => .error (.usage (.missingValue s.info.long))
  | some (s, v :: vs) => w.apply s (v :: vs)

/-- Takes an option, with the value that stands in the same word, if any. -/
def use (w : Words σ) (s : Switch σ) (value : Option String) : Except Halt (Words σ) := do
  let w ← w.settle
  if w.given.contains s.info.long && !s.info.repeats then
    throw (.usage (.repeated s.info.long))
  let w := { w with given := s.info.long :: w.given }
  match s.info.arity, value with
  | .none, none => w.apply s []
  | .none, some v => throw (.usage (.unexpectedValue s.info.long v))
  | _, some v => w.apply s [v]
  | _, none => return { w with pending := some (s, []) }

/-- Reads a long option. -/
def long (switches : List (Switch σ)) (w : Words σ) (word : String) (cs : List Char) :
    Except Halt (Words σ) :=
  let name := String.ofList (cs.takeWhile (· ≠ '='))
  let value := match cs.dropWhile (· ≠ '=') with
    | [] => none
    | _ :: v => some (String.ofList v)
  match switches.find? (·.info.long = name) with
  | none => .error (.usage (.unknownOption word))
  | some s => w.use s value

/-- Reads letters that share a dash. -/
def letters (switches : List (Switch σ)) (word : String) :
    Words σ → List Char → Except Halt (Words σ)
  | w, [] => .ok w
  | w, c :: cs =>
    match switches.find? (·.info.letter = some c) with
    | none => .error (.usage (.unknownOption word))
    | some s =>
      if s.info.arity = .none then do letters switches word (← w.use s none) cs
      else w.use s (match cs with
        | [] => none
        | '=' :: v => some (String.ofList v)
        | v => some (String.ofList v))

/-- Takes a word that is no option: as a value if one is awaited, else as an operand. -/
def plain (room : Nat) (w : Words σ) (word : String) : Except Halt (Words σ) := do
  match w.pending, w.closed with
  | some (s, values), false =>
    if s.info.arity = .some || values = [] then
      return { w with pending := some (s, values ++ [word]) }
  | _, _ => pure ()
  let w ← w.settle
  if w.operands.length < room then return { w with operands := w.operands ++ [word] }
  else throw (.usage (.unexpectedWord word))

/-- Takes the next word: an option, a value or an operand. -/
def word (switches : List (Switch σ)) (room : Nat) (w : Words σ) (text : String) :
    Except Halt (Words σ) :=
  if w.closed then w.plain room text
  else match text.toList with
    | ['-', '-'] => .ok { w with closed := true }
    | '-' :: '-' :: cs => w.long switches text cs
    | '-' :: c :: cs => letters switches text w (c :: cs)
    | _ => w.plain room text

/-- Reads words; there is room for a number of operands. -/
def read (switches : List (Switch σ)) (room : Nat) (value : σ) (words : List String) :
    Except Halt (Words σ) := do
  (← words.foldlM (word switches room) (start value)).settle

end Words

end Likeness.Command
