/-!
# Likeness.Outline.Basic

The outline of a work: its syntax tree in preorder, each node given by its depth and the id of its
label. An outline is *well nested* when no node lies above the first one and each node lies at
most one level below the node before it; then it is the preorder of an ordered forest.

The children of an outline start at the entries that share the depth of the first entry. A child
consists of such an entry, its heading, and the entries up to the next heading, its body. This
reading makes sense of every list of entries, well nested or not.
-/

namespace Likeness

/-- A node of a syntax tree in preorder: how deep it lies, and what it is. -/
structure Entry where
  depth : UInt32
  label : UInt32
deriving DecidableEq, Inhabited

/-- A forest of syntax trees, written down in preorder. -/
abbrev Outline := List Entry

/-- Where an outline stops being well nested. -/
structure Misnesting where
  index : Nat
  depth : UInt32
  previous : UInt32
  base : UInt32
deriving DecidableEq

namespace Misnesting

/-- What is said about an outline that is not well nested. -/
def message (m : Misnesting) : String :=
  "malformed structure at index " ++ toString m.index ++ ": depth " ++ toString m.depth.toNat ++
    " after " ++ toString m.previous.toNat ++ " (base " ++ toString m.base.toNat ++ ")"

end Misnesting

namespace Outline

/-! ### Nesting -/

/-- Checks the entries after one of depth `previous`, the next of them at position `index`. -/
def checkFrom (base previous : UInt32) (index : Nat) : Outline → Except Misnesting Unit
  | [] => .ok ()
  | e :: rest =>
    if e.depth < base ∨ previous.toNat + 1 < e.depth.toNat then
      .error ⟨index, e.depth, previous, base⟩
    else checkFrom base e.depth (index + 1) rest

/-- Fails at the first entry that is out of place. -/
def check : Outline → Except Misnesting Unit
  | [] => .ok ()
  | e :: rest => checkFrom e.depth e.depth 1 rest

/-- Whether an outline passes the check. -/
def WellNested (o : Outline) : Prop := check o = .ok ()

instance (o : Outline) : Decidable o.WellNested :=
  match h : check o with
  | .ok () => isTrue h
  | .error _ => isFalse (by simp [WellNested, h])

/-- The entries down to a depth. -/
def upTo (limit : Option UInt32) (o : Outline) : Outline :=
  match limit with
  | none => o
  | some d => o.filter (·.depth ≤ d)

/-! ### Children -/

/-- Positions of the entries at depth `d`, counted from `index`. -/
def headings (d : UInt32) (index : Nat) : Outline → List Nat
  | [] => []
  | e :: rest =>
    if e.depth = d then index :: headings d (index + 1) rest else headings d (index + 1) rest

/-- Where the children start, followed by the length of the outline. -/
def childStarts (o : Outline) : List Nat :=
  match o with
  | [] => [0]
  | e :: _ => headings e.depth 0 o ++ [o.length]

/-- Splits off the bodies that follow each heading of depth `d`. -/
def bodiesAt (d : UInt32) : Outline → List Outline
  | [] => []
  | _ :: rest =>
    rest.takeWhile (·.depth ≠ d) :: bodiesAt d (rest.dropWhile (·.depth ≠ d))
termination_by o => o.length
decreasing_by
  have := (List.dropWhile_sublist (l := rest) (fun e => decide (e.depth ≠ d))).length_le
  simp only [List.length_cons]
  omega

/-- The bodies of the children, in order. -/
def bodies (o : Outline) : List Outline :=
  match o with
  | [] => []
  | e :: _ => bodiesAt e.depth o

theorem length_of_mem_bodiesAt {d : UInt32} {o b : Outline} (h : b ∈ bodiesAt d o) :
    b.length < o.length := by
  fun_induction bodiesAt d o with
  | case1 => simp at h
  | case2 e rest ih =>
    have hTake := (List.takeWhile_sublist (l := rest) (fun e => decide (e.depth ≠ d))).length_le
    have hDrop := (List.dropWhile_sublist (l := rest) (fun e => decide (e.depth ≠ d))).length_le
    rcases List.mem_cons.1 h with rfl | h
    · simp only [List.length_cons]; omega
    · have := ih h
      simp only [List.length_cons]; omega

theorem length_of_mem_bodies {o b : Outline} (h : b ∈ o.bodies) : b.length < o.length := by
  cases o with
  | nil => simp [bodies] at h
  | cons e rest => exact length_of_mem_bodiesAt h

end Outline

end Likeness
