import Likeness.Proofs.Json.Decoding
import Likeness.Proofs.Ordered
import Likeness.Proofs.Work.Builder
import Likeness.Work.Record

/-!
# Likeness.Proofs.Work.Record

Works survive being written and read. The record of any work is decoded to that work
(`Work.ofRecordUnchecked_recordText`), so reading it back fails only where the check of the work does
(`Work.ofRecord_recordText`).

The check looks at the outline and at the number of places. A work that was built step by step had its
outline looked at when it was finished, but not its places: its record can be read exactly if its
tokens have no places or one each (`Work.ofRecord_of_built`). What was read has passed the check, so
writing it again changes nothing any more (`Work.reencode_settles`).
-/

namespace Likeness

open Json (FitsIn)
open Json.Decode

/-! ### Parts of a work -/

theorem Path.inverts (p : Path) : Inverts Path.decoder p.toJson p := fun _ => rfl

theorem Identity.inverts (i : Identity) : Inverts Identity.decoder i.toJson i := by
  intro o
  rw [Identity.decoder, Identity.toJson, record_object]
  rw [fillNamed_slot rfl rfl (Path.inverts i.path), fillNamed_slot rfl rfl (inverts_stringAs _ _)]
  rfl

theorem Place.inverts (p : Place) : Inverts Place.decoder p.toJson p := by
  intro o
  rw [Place.decoder, Place.toJson, record_object]
  rw [fillNamed_slot rfl rfl (inverts_uint32 p.line), fillNamed_slot rfl rfl (inverts_uint32 p.column)]
  rfl

theorem Entry.inverts (e : Entry) : Inverts Entry.decoder e.toJson e := by
  intro o
  rw [Entry.decoder, Entry.toJson, record_object]
  rw [fillNamed_slot rfl rfl (inverts_uint32 e.depth), fillNamed_slot rfl rfl (inverts_uint32 e.label)]
  rfl

namespace Counts

theorem before_asymm {a b : String × UInt64} (h : before a b = true) : before b a = false := by
  simp only [before, decide_eq_true_eq, decide_eq_false_iff_not] at *
  exact String.lt_asymm h

theorem entries_insert (c : Counts) (label : String) (count : UInt64) :
    (c.insert label count).entries = Ordered.insert before (label, count) c.entries := rfl

theorem entries_ofList (es : List (String × UInt64)) :
    (ofList es).entries = Ordered.ofList before es :=
  (List.foldl_hom entries fun c e => (c.entries_insert e.1 e.2).symm).symm

/-- Counts are made again from their entries. -/
theorem ofList_entries (c : Counts) : ofList c.entries = c := by
  have hlist := entries_ofList c.entries
  have hsorted : c.entries.Pairwise (before · · = true) := by
    simpa only [before, decide_eq_true_eq] using c.sorted
  rw [Ordered.ofList_eq_self before_asymm hsorted] at hlist
  obtain ⟨entries, sorted⟩ := c
  generalize ofList entries = c' at hlist
  obtain ⟨entries', sorted'⟩ := c'
  obtain rfl : entries' = entries := hlist
  rfl

theorem inverts (c : Counts) : Inverts decoder c.toJson c := by
  intro o
  have hread : Inverts (dictionary uint64) c.toJson c.entries :=
    inverts_dictionary (fun n : UInt64 => .nat n.toNat) fun e _ => inverts_uint64 e.2
  rw [decoder, hread o]
  exact congrArg Except.ok c.ofList_entries

end Counts

/-! ### Works -/

namespace Work

/-- **The record of a work is decoded to that work.** -/
theorem inverts (w : Work) : Inverts decoder w.toJson w := by
  intro o
  have htokens : Inverts (many uint32) (.list (fun t : UInt32 => .nat t.toNat) w.tokens) w.tokens :=
    inverts_many fun t _ => inverts_uint32 t
  have hplaces : Inverts (many Place.decoder) (.list Place.toJson w.places) w.places :=
    inverts_many fun p _ => p.inverts
  have houtline : Inverts (many Entry.decoder) (.list Entry.toJson w.outline) w.outline :=
    inverts_many fun e _ => e.inverts
  have hstrings (ss : List String) : Inverts (many string) (.list .string ss) ss :=
    inverts_many fun s _ => inverts_stringAs _ s
  rw [decoder, toJson, record_object]
  simp only [List.cons_append, List.nil_append]
  rw [fillNamed_slot rfl rfl w.identity.inverts,
    fillNamed_slot rfl rfl (inverts_optional_string w.modified), fillNamed_slot rfl rfl htokens,
    fillNamed_slot rfl rfl hplaces, fillNamed_slot rfl rfl w.operators.inverts,
    fillNamed_slot rfl rfl w.keywords.inverts, fillNamed_slot rfl rfl w.literals.inverts,
    fillNamed_slot rfl rfl houtline, fillNamed_slot rfl rfl (hstrings w.heads)]
  -- A work without labels is written without them.
  split
  next hlabels =>
    obtain ⟨identity, modified, tokens, places, operators, keywords, literals, outline, heads, labels⟩ := w
    obtain rfl : labels = [] := hlabels
    rfl
  next =>
    rw [fillNamed_slot rfl rfl (hstrings w.labels)]
    rfl

end Work

/-! ### Texts -/

theorem Path.fitsIn (p : Path) (n : Nat) : FitsIn n p.toJson := .string _

theorem Identity.fitsIn (i : Identity) : FitsIn 1 i.toJson := by
  refine .object ?_
  simp [Path.fitsIn, FitsIn.string]

theorem fitsIn_uint32 (n : UInt32) (k : Nat) : FitsIn k (.nat n.toNat) :=
  .nat (n.toNat_lt.trans (by decide))

theorem Place.fitsIn (p : Place) : FitsIn 1 p.toJson := by
  refine .object ?_
  simp [fitsIn_uint32]

theorem Entry.fitsIn (e : Entry) : FitsIn 1 e.toJson := by
  refine .object ?_
  simp [fitsIn_uint32]

theorem Counts.fitsIn (c : Counts) : FitsIn 1 c.toJson := by
  refine .object fun m hm => ?_
  obtain ⟨e, -, rfl⟩ := List.mem_map.mp hm
  exact .nat e.2.toNat_lt

namespace Work

/-- Any work can be written. -/
theorem fitsIn (w : Work) : FitsIn 3 w.toJson := by
  have htokens : FitsIn 2 (.list (fun t : UInt32 => .nat t.toNat) w.tokens) :=
    .list fun t _ => fitsIn_uint32 t 1
  have hplaces : FitsIn 2 (.list Place.toJson w.places) := .list fun p _ => p.fitsIn
  have houtline : FitsIn 2 (.list Entry.toJson w.outline) := .list fun e _ => e.fitsIn
  have hstrings (ss : List String) : FitsIn 2 (.list .string ss) := .list fun s _ => .string s
  have hmodified : FitsIn 2 (.option .string w.modified) := by
    cases w.modified with
    | none => exact .null
    | some date => exact .string date
  refine .object fun m hm => ?_
  rcases List.mem_append.mp hm with hm | hm
  · revert m
    simp [w.identity.fitsIn.mono, w.operators.fitsIn.mono, w.keywords.fitsIn.mono,
      w.literals.fitsIn.mono, htokens, hplaces, houtline, hstrings, hmodified]
  · split at hm
    · cases hm
    · obtain rfl := List.mem_singleton.mp hm
      exact hstrings w.labels

/-- **The text of a work is read as that work**, whether or not it passes the check. -/
theorem ofRecordUnchecked_recordText (w : Work) (path : Path) :
    ofRecordUnchecked path w.recordText = .ok w := by
  have hread := w.fitsIn.readingOf (by decide) w.toJson.text_mem_texts
  rw [ofRecordUnchecked, recordText, w.inverts.decode_eq_ok hread]
  rfl

/-- Reading the text of a work fails only where the check does. -/
theorem ofRecord_recordText (w : Work) (path : Path) :
    ofRecord path w.recordText = (w.check.mapError (.invalidRecord path)).map fun _ => w := by
  rw [ofRecord, w.ofRecordUnchecked_recordText path]
  change (w.check.mapError (LoadFault.invalidRecord path) >>= fun _ => .ok w) = _
  cases w.check <;> rfl

/-! ### Works that were built -/

/-- With a well nested outline, what is left of the check is to count the places. -/
theorem check_of_wellNested {w : Work} (h : w.outline.WellNested) :
    w.check =
      if w.places = [] ∨ w.places.length = w.tokens.length then .ok ()
      else .error (toString w.places.length ++ " token positions for " ++
        toString w.tokens.length ++ " tokens") := by
  have hcheck : w.outline.check = .ok () := h
  rw [check, hcheck]
  change (if w.places ≠ [] ∧ w.places.length ≠ w.tokens.length then _ else _) = _
  split
  next hbad =>
    rw [if_neg (not_or.mpr hbad)]
    rfl
  next hgood =>
    rw [if_pos (not_not.mp (mt not_or.mp hgood))]
    rfl

/-- **The record of a work that was built.** Whatever steps a work was built with, its text holds all
of it. But reading it back counts the places, which finishing the work did not: it fails as soon as
some tokens were given places and others were not. -/
theorem ofRecord_of_built {path : Path} {ss : List Step} {w w' : Work}
    (hsteps : (blank path).steps ss = .ok w) (hfinish : w.finish = .ok w') (source : Path) :
    ofRecordUnchecked source w'.recordText = .ok w' ∧
      ofRecord source w'.recordText =
        if ss.flatMap Step.placed = [] ∨
            (ss.flatMap Step.placed).length = (ss.flatMap Step.pushed).length then .ok w'
        else .error (.invalidRecord source (toString (ss.flatMap Step.placed).length ++
          " token positions for " ++ toString (ss.flatMap Step.pushed).length ++ " tokens")) := by
  obtain ⟨hnested, rfl⟩ := finish_eq_ok.mp hfinish
  obtain ⟨htokens, hplaces⟩ := streams_of_steps hsteps
  have htokens' : w'.tokens = ss.flatMap Step.pushed := htokens
  have hplaces' : w'.places = ss.flatMap Step.placed := hplaces
  refine ⟨w'.ofRecordUnchecked_recordText source, ?_⟩
  rw [ofRecord_recordText, check_of_wellNested hnested, htokens', hplaces']
  split <;> rfl

/-- Steps with counts and two levels that give a place to each token. -/
def placedSteps : List Step :=
  [.digest "2c", .node 1 "def", .token 7 (some ⟨1, 0⟩), .node 2 "if", .token 8 (some ⟨2, 4⟩),
   .count .keyword "if" 2, .count .keyword "def" 1, .head "f"]

/-- The record of the work they build is read back. -/
theorem ofRecord_of_built_placed : ∃ w w' : Work,
    (blank ⟨"a.py"⟩).steps placedSteps = .ok w ∧ w.finish = .ok w' ∧
      w'.places = [⟨1, 0⟩, ⟨2, 4⟩] ∧ ofRecord ⟨"a.json"⟩ w'.recordText = .ok w' := by
  have hsteps : (blank ⟨"a.py"⟩).steps placedSteps = .ok _ := rfl
  have hread := (ofRecord_of_built hsteps rfl ⟨"a.json"⟩).2
  exact ⟨_, _, hsteps, rfl, rfl, hread.trans (if_pos (.inr rfl))⟩

/-- Of two tokens only the first has a place: the work is finished, and its record is refused. -/
theorem exists_unreadable_record : ∃ w w' : Work,
    (blank ⟨"a.py"⟩).steps [.token 1 (some ⟨1, 0⟩), .token 2 none] = .ok w ∧ w.finish = .ok w' ∧
      ofRecord ⟨"a.py"⟩ w'.recordText =
        .error (.invalidRecord ⟨"a.py"⟩ "1 token positions for 2 tokens") ∧
      ¬ ofRecord ⟨"a.py"⟩ w'.recordText = .ok w' := by
  refine ⟨_, _, rfl, rfl, ?_⟩
  rw [ofRecord_recordText]
  exact ⟨rfl, nofun⟩

/-! ### Works that were read -/

/-- The record of a work that has some tokens and nothing else. -/
def bareRecord (tokens : String) : String :=
  "\x7b\"identity\": \x7b\"path\": \"x\"\x7d, \"tokens\": " ++ tokens ++ "\x7d"

theorem check_of_ofRecord {path : Path} {text : String} {w : Work} (h : ofRecord path text = .ok w) :
    w.check = .ok () := by
  obtain ⟨w', -, h⟩ := Except.bind_eq_ok.mp h
  obtain ⟨⟨⟩, hcheck, h⟩ := Except.bind_eq_ok.mp h
  cases h
  exact Except.mapError_eq_ok.mp hcheck

/-- Reads a record and writes it anew. -/
def reencode (path : Path) (text : String) : Except LoadFault String :=
  (ofRecord path text).map recordText

/-- **Records settle.** Whatever the text was that a work was read from, the work is read again, as it
is, from the text that is written for it, and so that text is written for it again. -/
theorem reencode_settles {path : Path} {text : String} {w : Work}
    (h : ofRecord path text = .ok w) (source : Path) :
    ofRecord source w.recordText = .ok w ∧ reencode path text = .ok w.recordText ∧
      reencode source w.recordText = .ok w.recordText := by
  have hread : ofRecord source w.recordText = .ok w := by
    rw [ofRecord_recordText, check_of_ofRecord h]
    rfl
  refine ⟨hread, ?_, ?_⟩
  · rw [reencode, h]
    rfl
  · rw [reencode, hread]
    rfl

/-- A record that leaves fields out, has one that nobody knows, counts a label twice and gives an
identity and an entry as arrays. -/
def looseRecord : Json :=
  .object [("note", .list .nat [1]),
    ("structure", .array [.list .nat [1, 0], .object [("uid", .nat 3), ("depth", .nat 2)]]),
    ("keywords", .object [("if", .nat 1), ("if", .nat 4)]), ("identity", .list .string ["a.py"])]

/-- The work that its text is read as. -/
def looseWork : Work :=
  { blank ⟨"a.py"⟩ with outline := [⟨1, 0⟩, ⟨2, 3⟩], keywords := .ofList [("if", 4)] }

/-- The work is read again from its own record. -/
theorem reencode_settles_loose :
    ofRecord ⟨"a.json"⟩ looseRecord.text = .ok looseWork ∧
      ofRecord ⟨"a.json"⟩ looseWork.recordText = .ok looseWork := by
  have hwritable : looseRecord.Writable := by
    simp [looseRecord, Json.list, Json.nat, Json.Writable, Json.ItemsWritable, Json.MembersWritable,
      Json.Number.Writable, Json.Number.inRange]
  have hreading := Json.readingOf_text hwritable (by decide)
  have hread : ofRecord ⟨"a.json"⟩ looseRecord.text = .ok looseWork := by
    rw [ofRecord, ofRecordUnchecked, Json.decode_of_readingOf decoder hreading]
    rfl
  exact ⟨hread, (reencode_settles hread _).1⟩

end Work

end Likeness
