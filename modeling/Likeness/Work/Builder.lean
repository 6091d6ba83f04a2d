import Likeness.Work.Basic

/-!
# Likeness.Work.Builder

Building a work step by step, as its source is read. Labels of the outline are numbered in the
order in which they first occur.
-/

namespace Likeness

namespace Labels

/-- The id of a label, and the labels with it among them. -/
def intern (labels : List String) (label : String) : UInt32 × List String :=
  match labels.findIdx? (· = label) with
  | some i => (.ofNat i, labels)
  | none => (.ofNat labels.length, labels ++ [label])

end Labels

namespace Work

/-- A work at a path without any features. -/
def blank (path : Path) : Work :=
  { identity := ⟨path, ""⟩, modified := none, tokens := [], places := [], operators := .empty,
    keywords := .empty, literals := .empty, outline := [], heads := [], labels := [] }

/-- The three categories of counted labels. -/
inductive Category where
  | operator
  | keyword
  | literal
deriving DecidableEq

/-- One step of building. -/
inductive Step where
  | content (bytes : ByteArray)
  | digest (text : String)
  | modified (text : String)
  | token (token : UInt32) (place : Option Place)
  | tokens (tokens : List UInt32)
  | count (category : Category) (label : String) (count : UInt64)
  | node (depth : UInt32) (label : String)
  | head (label : String)

/-- Takes a step on a work under construction. -/
def step (w : Work) : Step → Except Overflow Work
  | .content bytes => .ok { w with identity := .ofContent w.path bytes }
  | .digest text => .ok { w with identity := ⟨w.path, text⟩ }
  | .modified text => .ok { w with modified := some text }
  | .token token place =>
    .ok { w with tokens := w.tokens ++ [token], places := w.places ++ place.toList }
  | .tokens tokens => .ok { w with tokens := w.tokens ++ tokens }
  | .count .operator label n => return { w with operators := ← w.operators.add label n }
  | .count .keyword label n => return { w with keywords := ← w.keywords.add label n }
  | .count .literal label n => return { w with literals := ← w.literals.add label n }
  | .node depth label =>
    let (id, labels) := Labels.intern w.labels label
    .ok { w with outline := w.outline ++ [⟨depth, id⟩], labels := labels }
  | .head label => .ok { w with heads := w.heads ++ [label] }

/-- Takes steps one after the other. -/
def steps (w : Work) (ss : List Step) : Except Overflow Work := ss.foldlM step w

/-- The finished work, if its outline is well nested. -/
def finish (w : Work) : Except Misnesting Work := do
  w.outline.check
  return w

end Work

end Likeness
