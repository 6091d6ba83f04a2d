/-!
# Likeness.Path

Paths of works. A path keeps the text it was given and prints as that text, but it is compared by
components: repeated slashes, inner `.` components and a trailing slash do not count, while a
leading `.` does, and `..` is never resolved.
-/

namespace Likeness

/-- A path, as the text it was given. -/
structure Path where
  text : String
deriving DecidableEq, Inhabited

namespace Path

/-- A step of a path. -/
inductive Component where
  | root
  | here
  | parent
  | name (text : String)
deriving DecidableEq

namespace Component

/-- Order key of a component: the root, then `.`, then `..`, then names by their characters. -/
def key : Component → List Nat
  | .root => [0]
  | .here => [1]
  | .parent => [2]
  | .name t => 3 :: t.toList.map Char.toNat

/-- A component as it is written. -/
def text : Component → String
  | .root => "/"
  | .here => "."
  | .parent => ".."
  | .name t => t

theorem key_inj {a b : Component} (h : a.key = b.key) : a = b := by
  have char_inj : Function.Injective Char.toNat := fun _ _ => Char.toNat_inj.1
  cases a <;> cases b <;> simp [key] at h ⊢
  exact String.toList_inj.1 (List.map_inj_right (fun _ _ e => char_inj e) |>.1 h)

end Component

/-- The pieces of a list of characters between slashes. -/
def pieces : List Char → List (List Char)
  | [] => [[]]
  | c :: cs =>
    if c = '/' then [] :: pieces cs
    else match pieces cs with
      | [] => [[c]]
      | p :: ps => (c :: p) :: ps

/-- The component of one piece; empty pieces and inner dots have none. -/
def ofPiece (piece : List Char) : Option Component :=
  if piece = [] ∨ piece = ['.'] then none
  else if piece = ['.', '.'] then some .parent
  else some (.name (String.ofList piece))

/-- The steps of a path. Empty pieces, and dots behind the first, are none. -/
def components (p : Path) : List Component :=
  match pieces p.text.toList with
  | [] => []
  | [] :: rest =>
    -- A leading slash leaves an empty first piece; so does the empty path, which has no second.
    if rest = [] then [] else .root :: rest.filterMap ofPiece
  | ['.'] :: rest => .here :: rest.filterMap ofPiece
  | first :: rest => (first :: rest).filterMap ofPiece

/-! ### Order -/

/-- Order key of a path: the keys of its components. -/
def key (p : Path) : List (List Nat) := p.components.map Component.key

/-- Equality of paths as places. -/
def same (p q : Path) : Bool := p.key == q.key

/-- The strict order of paths: by components, a shorter path before its extensions. -/
def before (p q : Path) : Bool := p.key < q.key

/-- The order of paths as a comparison. -/
protected def compare (p q : Path) : Ordering :=
  if p.before q then .lt else if q.before p then .gt else .eq

/-- Two things in the order of their paths; the given order stays when the paths are the same. -/
def inOrder (path : α → Path) (a b : α) : α × α :=
  if (path b).before (path a) then (b, a) else (a, b)

/-- What tells pairs of paths apart. -/
abbrev PairKey := List (List Nat) × List (List Nat)

/-- The key of two paths as they stand. -/
def pairKey (first second : Path) : PairKey := (first.key, second.key)

/-- The strict order of keys: by the first path, then by the second. -/
def keyBefore (k l : PairKey) : Bool := k.1 < l.1 || (k.1 == l.1 && k.2 < l.2)

/-! ### Parts -/

/-- The last component, when it is a name. -/
def fileName? (p : Path) : Option String :=
  match p.components.getLast? with
  | some (.name t) => some t
  | _ => none

/-- What follows the last dot of the file name, unless that dot comes first. -/
def extension? (p : Path) : Option String := do
  let name ← p.fileName?
  let reversed := name.toList.reverse
  let after := reversed.takeWhile (· ≠ '.')
  let before := (reversed.drop after.length).drop 1
  if after.length = reversed.length ∨ before = [] then none
  else some (String.ofList after.reverse)

/-- Positions of the pieces that stand for a component. -/
def componentPieces (ps : List (List Char)) : List Nat :=
  (List.range ps.length).filter fun i =>
    let piece := ps.getD i []
    if i = 0 then piece ≠ [] || 1 < ps.length else (ofPiece piece).isSome

/-- The path without its last component, cut out of the text. The root, and what has no components,
have none. -/
def parent? (p : Path) : Option Path :=
  let ps := pieces p.text.toList
  let upTo (i : Nat) : Path := ⟨"/".intercalate ((ps.take (i + 1)).map String.ofList)⟩
  match (componentPieces ps).reverse with
  | [] => none
  | [i] => if ps.getD i [] = [] then none else some ⟨""⟩
  | _ :: j :: _ => if ps.getD j [] = [] then some ⟨"/"⟩ else some (upTo j)

/-- The path of `name` inside the directory `p`. An absolute `name` stands for itself. -/
def join (p : Path) (name : String) : Path :=
  if name.toList.head? = some '/' ∨ p.text = "" then ⟨name⟩
  else if p.text.toList.getLast? = some '/' then ⟨p.text ++ name⟩
  else ⟨p.text ++ "/" ++ name⟩

end Path

end Likeness
