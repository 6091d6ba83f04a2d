import Mathlib.Order.Interval.Finset.Nat
import Likeness.Proofs.Compare.Tokens
import Likeness.Proofs.Partial
import Likeness.Proofs.Sequence.Bounds
import Likeness.Proofs.Sequence.Coverage
import Likeness.Proofs.Work.Record

/-!
# Likeness.Proofs.Compare.TokenParts

The parts of a token report agree with one another (`TokenReport.parts_agree`).

The tiles, the common length and the edit distance are found by three algorithms that know nothing of each
other, and are related by what they count. The places are looked up for the tiles one by one, and a tile
without a place would be passed over, so that all places behind it stood for the wrong tiles. That does not
happen to works that were read from records: they know the places of all their tokens or of none, and the
tiles start at tokens.
-/

namespace Likeness

/-! ### Coverage -/

namespace Tiling

variable {α : Type} {a b : List α} {least : Nat} {tiles : List Tile}

theorem count_eq_length_filter (covered : Nat → Prop) [DecidablePred covered] (n : Nat) :
    Nat.count covered n = ((List.range n).filter fun i => decide (covered i)).length := by
  rw [Nat.count_eq_card_filter_range]
  rfl

/-- As many positions are covered on either side as the tiles are long together. -/
theorem Exhausts.count_covered (h : Exhausts a b least tiles) :
    Nat.count (fun i => ∃ t ∈ tiles, t.OnSource i) a.length = (tiles.map Tile.length).sum ∧
      Nat.count (fun i => ∃ t ∈ tiles, t.OnTarget i) b.length = (tiles.map Tile.length).sum := by
  constructor
  · rw [count_eq_length_filter]
    refine length_filter_range (fun _ => Iff.rfl) ?_ (h.apart.imp And.left)
    rintro i ⟨t, ht, hi⟩
    exact (lt_length_of_common (h.common t ht)).1 hi
  · rw [count_eq_length_filter]
    refine length_filter_range (fun _ => Iff.rfl) ?_ (h.apart.imp And.right)
    rintro i ⟨t, ht, hi⟩
    exact (lt_length_of_common (h.common t ht)).2 hi

/-- Tiles start at elements of both sides, unless they are empty. -/
theorem Exhausts.start_lt (h : Exhausts a b least tiles) (hleast : 0 < least) {t : Tile}
    (ht : t ∈ tiles) : t.source < a.length ∧ t.target < b.length := by
  have hpos : 0 < t.length := Nat.lt_of_lt_of_le hleast (h.enough t ht)
  have hinside {i : Nat} := lt_length_of_common (i := i) (h.common t ht)
  exact ⟨hinside.1 ⟨Nat.le_refl _, by omega⟩, hinside.2 ⟨Nat.le_refl _, by omega⟩⟩

end Tiling

/-! ### Places -/

namespace Work

/-- Where some tokens of a work stand: nowhere if the work knows no places, and otherwise each of them at its
own place. -/
structure Locates (w : Work) (tokens : List Nat) (places : List Place) : Prop where
  unknown : w.places = [] → places = []
  known : w.places ≠ [] → places.length = tokens.length ∧
    ∀ k i : Nat, tokens[k]? = some i → ∃ p, w.places[i]? = some p ∧ places[k]? = some p

/-- Works that pass the check know the places of all their tokens or of none. -/
theorem places_of_check {w : Work} (h : w.check = .ok ()) :
    w.places = [] ∨ w.places.length = w.tokens.length := by
  by_contra hbad
  rw [not_or] at hbad
  obtain ⟨-, -, h⟩ := Except.bind_eq_ok.mp h
  rw [if_pos hbad] at h
  cases h

/-- No tile is passed over when the places are looked up. -/
theorem locates_placesOf {w : Work} {tiles : List Tile} {start : Tile → Nat} (h : w.check = .ok ())
    (hstart : ∀ t ∈ tiles, start t < w.tokens.length) :
    w.Locates (tiles.map start) (TokenReport.placesOf tiles w.places start) := by
  unfold TokenReport.placesOf
  constructor
  · intro hnone
    rw [hnone]
    exact List.filterMap_eq_nil_iff.mpr fun _ _ => rfl
  · intro hsome
    -- The work knows the places of all its tokens, so each start has one.
    have hlength := (places_of_check h).resolve_left hsome
    have hfound : ∀ t ∈ tiles, (w.places[start t]?).isSome := by
      intro t ht
      rw [isSome_getElem?, hlength]
      exact hstart t ht
    refine ⟨?_, fun k i hi => ?_⟩
    · rw [List.length_map]
      exact List.filterMap_length_eq_length.mpr hfound
    · rw [List.getElem?_map] at hi
      obtain ⟨t, ht, rfl⟩ := Option.map_eq_some_iff.mp hi
      obtain ⟨p, hp⟩ := Option.isSome_iff_exists.mp (hfound t (List.mem_of_getElem? ht))
      exact ⟨p, hp, by rw [List.getElem?_filterMap_of_isSome hfound, ht, Option.bind_some, hp]⟩

end Work

/-! ### Reports -/

namespace TokenReport

/-- **The parts of a report agree.** The lengths of the tiles add up to the number of positions covered on
either side, of which the coverages are made. No tile is longer than the longest common subsequence. The edit
distance is at least what this leaves out of the longer sequence, and at most what it leaves out of both. The
places are those of the starts of the tiles, one for each, or there are none because the work knows none. -/
theorem parts_agree {path path' : Path} {text text' : String} {a b : Work}
    (ha : Work.ofRecord path text = .ok a) (hb : Work.ofRecord path' text' = .ok b) (least : Nat) :
    let r := ofWorks a b least
    let covered := (r.tiles.map Tile.length).sum
    let common := Sequence.commonLength a.tokens b.tokens
    (Nat.count (fun i => ∃ t ∈ r.tiles, t.OnSource i) a.tokens.length = covered ∧
        Nat.count (fun i => ∃ t ∈ r.tiles, t.OnTarget i) b.tokens.length = covered) ∧
      (r.firstCoverage =
          (if a.tokens.length = 0 then .zero else .ofNat covered / .ofNat a.tokens.length) ∧
        r.secondCoverage =
          if b.tokens.length = 0 then .zero else .ofNat covered / .ofNat b.tokens.length) ∧
      (∀ t ∈ r.tiles, t.length ≤ common) ∧
      (max a.tokens.length b.tokens.length - common ≤ r.edit.distance ∧
        r.edit.distance ≤ a.tokens.length + b.tokens.length - 2 * common) ∧
      a.Locates (r.tiles.map Tile.source) r.firstPlaces ∧
      b.Locates (r.tiles.map Tile.target) r.secondPlaces := by
  intro r covered common
  have habout := about_ofWorks a b least
  have htiles := habout.tiles
  obtain ⟨hsource, htarget⟩ := htiles.count_covered
  have hstart {t : Tile} := htiles.start_lt (t := t) (by omega)
  have hlow := Sequence.max_le_editLength_add_commonLength a.tokens b.tokens
  have hhigh := Sequence.editLength_add_commonLength_le a.tokens b.tokens
  have hdistance : r.edit.distance = Sequence.editLength a.tokens b.tokens :=
    Sequence.distance_editDistance a.tokens b.tokens
  refine ⟨⟨hsource, htarget⟩, ⟨?_, ?_⟩, fun t ht => (htiles.common t ht).length_le,
    ⟨by omega, by omega⟩, ?_, ?_⟩
  · rw [habout.firstCoverage, Tiling.partOf, hsource]
  · rw [habout.secondCoverage, Tiling.partOf, htarget]
  · exact Work.locates_placesOf (Work.check_of_ofRecord ha) fun t ht => (hstart ht).1
  · exact Work.locates_placesOf (Work.check_of_ofRecord hb) fun t ht => (hstart ht).2

/-- A work that has a stream of tokens and nothing else. -/
def streamOnly (path : Path) (tokens : List UInt32) (places : List Place) : Work :=
  { Work.blank path with tokens, places }

theorem ofRecord_streamOnly {path : Path} {tokens : List UInt32} {places : List Place}
    (h : places = [] ∨ places.length = tokens.length) (source : Path) :
    Work.ofRecord source (streamOnly path tokens places).recordText =
      .ok (streamOnly path tokens places) := by
  have hnested : (streamOnly path tokens places).outline.WellNested := rfl
  have hcheck : (streamOnly path tokens places).check = .ok () :=
    (Work.check_of_wellNested hnested).trans (if_pos h)
  rw [Work.ofRecord_recordText, hcheck]
  rfl

/-- Two streams share two runs, and only the first work knows where its tokens stand. -/
theorem parts_agree_two_runs :
    let tokens : List UInt32 := [1, 2, 3, 4, 5, 6, 7, 8, 9, 10]
    let a := streamOnly ⟨"a.py"⟩ tokens (tokens.map fun k => ⟨1, k⟩)
    let b := streamOnly ⟨"b.py"⟩ [1, 4, 3, 4, 5, 6, 5, 8, 9, 10] []
    let r := ofWorks a b 3
    Work.ofRecord ⟨"a.json"⟩ a.recordText = .ok a ∧ Work.ofRecord ⟨"b.json"⟩ b.recordText = .ok b ∧
      r.tiles = [⟨2, 2, 4⟩, ⟨7, 7, 3⟩] ∧ r.edit.distance ≤ 4 ∧ r.firstPlaces.length = 2 ∧
      r.firstPlaces[1]? = some ⟨1, 8⟩ ∧ r.secondPlaces = [] := by
  intro tokens a b r
  have ha : Work.ofRecord ⟨"a.json"⟩ a.recordText = .ok a := ofRecord_streamOnly (.inr rfl) _
  have hb : Work.ofRecord ⟨"b.json"⟩ b.recordText = .ok b := ofRecord_streamOnly (.inl rfl) _
  have htiles : r.tiles = [⟨2, 2, 4⟩, ⟨7, 7, 3⟩] := by decide +kernel
  have hcommon : Sequence.commonLength a.tokens b.tokens = 8 := by decide +kernel
  obtain ⟨-, -, -, ⟨-, hdistance⟩, hfirst, hsecond⟩ := parts_agree ha hb 3
  rw [hcommon] at hdistance
  obtain ⟨hlength, hplace⟩ := hfirst.known nofun
  rw [show (ofWorks a b 3).tiles = _ from htiles] at hlength hplace
  obtain ⟨p, hp, hfound⟩ := hplace 1 7 rfl
  obtain rfl := Option.some.inj hp
  exact ⟨ha, hb, htiles, hdistance, hlength, hfound, hsecond.unknown rfl⟩

end TokenReport

end Likeness
