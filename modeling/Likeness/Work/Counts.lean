import Likeness.Number.Checked
import Likeness.Ordered

/-!
# Likeness.Work.Counts

Occurrence counts by label, in the order of the labels. A label without an entry counts as zero.
-/

namespace Likeness

/-- How often each label was met, in the order of the labels. -/
structure Counts where
  entries : List (String × UInt64)
  sorted : entries.Pairwise fun a b => a.1 < b.1

namespace Counts

/-- The order of entries: by their labels. -/
def before (a b : String × UInt64) : Bool := a.1 < b.1

theorem sorted_insert (a : String × UInt64) {es : List (String × UInt64)}
    (h : es.Pairwise fun a b => a.1 < b.1) :
    (Ordered.insert before a es).Pairwise fun a b => a.1 < b.1 := by
  have key : (Ordered.insert before a es).Pairwise (before · · = true) :=
    Ordered.pairwise_insert
      (fun hxy hyz => by
        simp only [before, decide_eq_true_eq] at *
        exact String.lt_trans hxy hyz)
      (fun hxy hyx hyz => by
        simp only [before, decide_eq_true_eq, decide_eq_false_iff_not] at *
        grind)
      (by simpa [before] using h)
  simpa [before] using key

instance : DecidableEq Counts := fun a b =>
  if h : a.entries = b.entries then isTrue (by cases a; cases b; simp_all)
  else isFalse (by intro e; exact h (e ▸ rfl))

/-- Nothing was counted. -/
def empty : Counts := ⟨[], .nil⟩

instance : Inhabited Counts := ⟨empty⟩

/-- Sets the count of a label. -/
def insert (c : Counts) (label : String) (count : UInt64) : Counts :=
  ⟨Ordered.insert before (label, count) c.entries, sorted_insert _ c.sorted⟩

/-- Counts from a list of entries; the last entry of a label stands. -/
def ofList (entries : List (String × UInt64)) : Counts :=
  entries.foldl (fun c (label, count) => c.insert label count) empty

/-- The count of a label that was met. -/
def find? (c : Counts) (label : String) : Option UInt64 := c.entries.lookup label

/-- The count of a label. -/
def get (c : Counts) (label : String) : UInt64 := (c.find? label).getD 0

/-- Adds occurrences of a label. -/
def add (c : Counts) (label : String) (count : UInt64) : Except Overflow Counts := do
  return c.insert label (.ofNat (← checkedAdd (c.get label).toNat count.toNat))

end Counts

end Likeness
