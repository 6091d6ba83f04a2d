import Likeness.Settings.Basic

/-!
# Likeness.Command.Request

What the program can be asked for.
-/

namespace Likeness.Command

/-- How results are shown. -/
inductive OutputFormat where
  | text
  | json
deriving DecidableEq

/-- Compare all pairs of a batch of works. What is not given is taken from the settings. -/
structure CheckRequest where
  files : List Path := []
  /-- Each directory is a group. -/
  directories : List Path := []
  pairing : Option Pairing := none
  threshold : Option UInt8 := none
  ignoreThreshold : Bool := false
  maxDepth : Option UInt32 := none
  workers : Option UInt64 := none
  reports : Option Path := none
  featureCache : Option Path := none
  /-- Globs of files that are not looked for in the directories. -/
  exclude : List String := []
  /-- The file with the settings. -/
  settings : Option Path := none
  hideProgress : Bool := false
  format : OutputFormat := .text
deriving DecidableEq

/-- Compare two works, with a close look at their tokens. -/
structure CompareRequest where
  first : Path
  second : Path
  settings : Option Path
  /-- Least length of the tiles that are shown. -/
  leastTile : Nat
  format : OutputFormat
deriving DecidableEq

/-- What the program was asked to do. -/
inductive Request where
  | check (r : CheckRequest)
  | compare (r : CompareRequest)
  /-- Show the default settings. -/
  | showDefaults
  /-- Write the default settings to a file, over one that is there if `force` is set. -/
  | writeDefaults (output : Path) (force : Bool)
  /-- Check the settings in a file. -/
  | validate (file : Path)
deriving DecidableEq

end Likeness.Command
