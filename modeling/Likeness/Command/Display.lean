import Likeness.Batch.Outcome
import Likeness.Compare.Tokens
import Likeness.Number.Decimal
import Likeness.Text.Style
import Likeness.Text.Table

/-!
# Likeness.Command.Display

Verdicts, token reports and batch reports as they are shown on a terminal. Everything is text; each
line has its end.
-/

namespace Likeness.Command

open Text (Colour coloured dimmed heading Table)

/-- A text as a line. -/
def line (text : String) : String := text ++ "\n"

/-- A fraction of one in percent, with two places. -/
def percentText (x : Binary64) : String := x.percent.writeTwoPlaces ++ "%"

/-- A table, which ends with a line of its own. -/
def tableText (rows : List (List String)) : String := line (Table.mk rows).write

/-! ### Verdicts -/

/-- The quick measures, each in percent. -/
def quickTable (q : QuickLikeness) : String :=
  tableText [["Metric", "Value"],
    ["Jakkar coefficient", percentText q.tokens],
    ["Operators", percentText q.operators],
    ["Keywords", percentText q.keywords],
    ["Literals", percentText q.literals],
    ["Weighted average", percentText q.average]]

/-- What a declaration is called; its position stands for a name that is not known. -/
def headLabel (heads : List String) (i : Nat) : String := heads.getD i ("#" ++ toString i)

/-- The matrix of a comparison, with declarations along both sides. -/
def matrixTable (f : FullVerdict) : String :=
  let m := f.outline.matrix
  tableText (("" :: (List.range m.cols).map (headLabel f.second.heads)) ::
    m.ratios.zipIdx.map fun (row, i) => headLabel f.first.heads i :: row.map percentText)

/-- The best counterpart of every declaration of the first work. -/
def matchTable (f : FullVerdict) : String :=
  tableText (["Declaration", "Best match", "Similarity"] ::
    f.outline.matrix.bestMatches.map fun b =>
      [headLabel f.first.heads b.first, headLabel f.second.heads b.second,
       percentText b.similarity])

/-- When a work was written, if that is known. -/
def dateLine (s : Summary) : String :=
  match s.modified with
  | none => ""
  | some date => line ("  " ++ dimmed s.identity.path.text ++ " " ++ dimmed ("modified " ++ date))

/-- A full verdict. The matrix is only shown for works that are too much alike. -/
def fullText (f : FullVerdict) (threshold : UInt8) : String :=
  let similar := aboveThreshold f.outline.percent threshold
  let m := f.outline.matrix
  let title := f.first.identity.path.text ++ " <-> " ++ f.second.identity.path.text
  let score := percentText f.outline.similarity
  line (heading (if similar then .brightRed else .brightWhite) title) ++
  dateLine f.first ++ dateLine f.second ++
  quickTable f.quick ++
  line ("Structure similarity: " ++
    (if similar then heading .brightRed score else coloured .brightGreen score)) ++
  (if similar && 0 < m.rows && 0 < m.cols then
    line (heading .brightBlue "Compliance matrix") ++ matrixTable f ++ matchTable f
  else "") ++
  line ""

/-- A verdict, as far as the comparison went. -/
def verdictText (v : Verdict) (threshold : UInt8) : String :=
  match v with
  | .full f => fullText f threshold
  | .quick q =>
    quickTable q ++ line (dimmed ("Fast metrics below " ++ toString threshold.toNat ++
      "%, structure not compared."))

/-! ### Token reports -/

/-- A number with blanks in front, three columns wide. -/
def padded (n : Nat) : String :=
  let digits := toString n
  String.ofList (List.replicate (3 - digits.length) ' ') ++ digits

/-- A place in a source. -/
def placeText (p : Place) : String :=
  "line " ++ toString p.line.toNat ++ ":" ++ toString p.column.toNat

/-- A tile, and where it stands if that is known for both sources. -/
def tileLine (r : TokenReport) (t : Tile) (i : Nat) : String :=
  let places := match r.firstPlaces[i]?, r.secondPlaces[i]? with
    | some p, some q => " (" ++ placeText p ++ " <-> " ++ placeText q ++ ")"
    | _, _ => ""
  line ("  tile " ++ padded (i + 1) ++ ": " ++ toString t.length ++ " tokens at " ++
    toString t.source ++ " / " ++ toString t.target ++ dimmed places)

/-- A token report, with a line for each tile. -/
def tokensText (r : TokenReport) : String :=
  line (heading .brightBlue "Token diagnostics") ++
  tableText [["Metric", "Value"],
    ["Tiles", toString r.tiles.length],
    ["First coverage", percentText r.firstCoverage],
    ["Second coverage", percentText r.secondCoverage],
    ["LCS ratio", percentText r.commonRatio],
    ["Edit distance", toString r.edit.distance],
    ["Edit similarity", percentText r.edit.similarity]] ++
  String.join (r.tiles.zipIdx.map fun (t, i) => tileLine r t i) ++
  line ""

/-! ### Batch reports -/

/-- A quotient with two places, ties to even. -/
def twoPlaces (value divisor : Nat) : String :=
  let hundredths := Binary64.roundToNat (100 * value) divisor
  let cents := hundredths % 100
  toString (hundredths / 100) ++ "." ++ (if cents < 10 then "0" else "") ++ toString cents

/-- A span of time in the largest unit that it fills. -/
def elapsedText (e : Batch.Elapsed) : String :=
  let n := e.nanoseconds
  if 0 < e.seconds then twoPlaces (e.seconds * 1000000000 + n) 1000000000 ++ "s"
  else if 1000000 ≤ n then twoPlaces n 1000000 ++ "ms"
  else if 1000 ≤ n then twoPlaces n 1000 ++ "µs"
  else twoPlaces n 1 ++ "ns"

/-- A list under a heading, if there is anything in it. -/
def listText (title : String) (c : Colour) (mark : String) (entries : List String) : String :=
  if entries = [] then ""
  else line (heading c title) ++
    String.join (entries.map fun e => line ("  " ++ coloured c mark ++ " " ++ e))

/-- A pair without a verdict, without what is said about it. -/
def faultText (f : Batch.PairFault) : String :=
  f.first.text ++ " <-> " ++ f.second.text ++ ": " ++ f.kind.text

/-- What a batch came to, and what went wrong. -/
def summaryText (r : Batch.Report) : String :=
  tableText [["Summary", ""],
    ["Pairs", toString r.outcomes.length],
    ["Computed", toString (Batch.Report.countIn .completed r.outcomes)],
    ["From cache", toString r.cacheHits],
    ["Failed", toString r.failures.length],
    ["Similar", toString r.found.length ++ " (> " ++ toString r.threshold.toNat ++ "%)"],
    ["Elapsed", elapsedText r.elapsed],
    ["Status", r.status.text]] ++
  listText "Failed pairs" .red "✗" (r.failures.map faultText) ++
  listText "Works not loaded" .yellow "!" r.diagnostics ++
  listText "Result store warnings" .yellow "!" r.storeWarnings

/-- A batch: what was compared in full, and a summary. -/
def reportText (r : Batch.Report) : String :=
  (if r.outcomes = [] then line (dimmed "No candidate pairs to compare.") else "") ++
  String.join (r.fullVerdicts.map fun v => verdictText v r.threshold) ++
  summaryText r

end Likeness.Command
