import Likeness.Sequence.CommonSubsequence
import Likeness.Sequence.EditDistance
import Likeness.Sequence.Tiling
import Likeness.Work.Record

/-!
# Likeness.Compare.Tokens

A close look at the token streams of two works: what they share in runs, in order and by edits, and
where the shared runs stand in the sources.
-/

namespace Likeness

/-- What the token streams of two works share. `first` and `second` are the works in the order in
which they were given. -/
structure TokenReport where
  tiles : List Tile
  firstCoverage : Binary64
  secondCoverage : Binary64
  commonRatio : Binary64
  edit : EditDistance
  /-- Where the tiles start in the first source; empty if its places are not known. -/
  firstPlaces : List Place
  secondPlaces : List Place

namespace TokenReport

/-- The places of the starts of tiles. -/
def placesOf (tiles : List Tile) (places : List Place) (start : Tile → Nat) : List Place :=
  tiles.filterMap fun t => places[start t]?

/-- The report on two works; tiles are at least `least` tokens long. -/
def ofWorks (a b : Work) (least : Nat) : TokenReport :=
  let tiling := Tiling.greedy a.tokens b.tokens least
  { tiles := tiling.tiles
    firstCoverage := Tiling.coverage tiling.sourceMarks
    secondCoverage := Tiling.coverage tiling.targetMarks
    commonRatio := Sequence.commonRatio a.tokens b.tokens
    edit := Sequence.editDistance a.tokens b.tokens
    firstPlaces := placesOf tiling.tiles a.places Tile.source
    secondPlaces := placesOf tiling.tiles b.places Tile.target }

end TokenReport

/-! ### Records -/

namespace Tile

/-- The record of a tile. -/
def toJson (t : Tile) : Json :=
  .object [("source_start", .nat t.source), ("target_start", .nat t.target),
    ("length", .nat t.length)]

end Tile

namespace EditDistance

/-- The record of an edit distance. -/
def toJson (e : EditDistance) : Json :=
  .object [("distance", .nat e.distance), ("similarity", .real e.similarity)]

end EditDistance

namespace TokenReport

/-- The record of a token report. -/
def toJson (r : TokenReport) : Json :=
  .object [
    ("tiles", .list Tile.toJson r.tiles),
    ("first_coverage", .real r.firstCoverage),
    ("second_coverage", .real r.secondCoverage),
    ("lcs_ratio", .real r.commonRatio),
    ("edit", r.edit.toJson),
    ("first_places", .list Place.toJson r.firstPlaces),
    ("second_places", .list Place.toJson r.secondPlaces)]

end TokenReport

end Likeness
