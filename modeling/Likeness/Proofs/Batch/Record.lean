import Likeness.Batch.Record
import Likeness.Proofs.Compare.Record

/-!
# Likeness.Proofs.Batch.Record

Outcomes survive being written and read. An outcome is one of three variants under the tag `status`,
and the verdict that two of them hold is one of two variants under the tag `kind`. The members beside
a tag are kept until the tag was found, so a verdict is decoded from kept members that were cut out of
kept members; that they are the ones written is `Outcome.inverts`.

An outcome is read back from its texts just if its verdict can be written (`Outcome.decode_text_iff`).
That goes for all verdicts and outcomes with finite reals and dates in the years 0 to 9999, and for
those that were read from any text (`Outcome.read_back`).
-/

namespace Likeness.Batch

open Json (FitsIn)
open Json.Decode

/-! ### What was written -/

theorem PairFaultKind.inverts (k : PairFaultKind) :
    Inverts PairFaultKind.decoder (.string k.name) k := by
  intro o
  cases o <;> cases k <;> rfl

theorem PairFault.inverts (f : PairFault) : Inverts PairFault.decoder f.toJson f := by
  intro o
  rw [PairFault.decoder, PairFault.toJson, record_object]
  rw [fillNamed_slot rfl rfl (Path.inverts f.first), fillNamed_slot rfl rfl (Path.inverts f.second),
    fillNamed_slot rfl rfl (PairFaultKind.inverts f.kind),
    fillNamed_slot rfl rfl (inverts_stringAs _ f.message)]
  rfl

namespace Outcome

/-- The outcome can be written: so can its verdict, if it has one. -/
def Storable (x : Outcome) : Prop := ∀ v ∈ x.verdict?, v.Storable

/-- Both variants with a verdict have the same members. -/
theorem inverts_pairMembers {v : Verdict} (h : v.Storable) (variant : String)
    (make : Identity → Identity → Verdict → Outcome) (first second : Identity) :
    Inverts (pairDecoder variant make) (.object (pairMembers first second v))
      (make first second v) := by
  intro o
  rw [pairDecoder, pairMembers, record_object]
  rw [fillNamed_slot rfl rfl first.inverts, fillNamed_slot rfl rfl second.inverts,
    fillNamed_slot rfl rfl (Verdict.inverts h)]
  rfl

theorem inverts_failed (f : PairFault) :
    Inverts faultDecoder (.object [("error", f.toJson)]) (.failed f) := by
  intro o
  rw [faultDecoder, record_object, fillNamed_slot rfl rfl f.inverts]
  rfl

/-- **The record of an outcome is decoded to that outcome.** -/
theorem inverts {x : Outcome} (h : x.Storable) : Inverts decoder x.toJson x := by
  cases x with
  | cached first second v =>
      exact inverts_tagged rfl (by simp [pairMembers])
        (inverts_pairMembers (h v rfl) "Cached" .cached first second)
  | computed first second v =>
      exact inverts_tagged rfl (by simp [pairMembers])
        (inverts_pairMembers (h v rfl) "Computed" .computed first second)
  | failed f => exact inverts_tagged rfl (by simp) (inverts_failed f)

end Outcome

/-! ### Texts -/

theorem PairFault.fitsIn (f : PairFault) : FitsIn 1 f.toJson := by
  refine .object ?_
  simp [Path.fitsIn, FitsIn.string]

namespace Outcome

theorem fitsIn_pairMembers (first second : Identity) (v : Verdict) :
    ∀ m ∈ pairMembers first second v, FitsIn 5 m.2 := by
  simp [pairMembers, first.fitsIn.mono, second.fitsIn.mono, v.fitsIn]

/-- Any outcome can be written. What is not finite is written as null. -/
theorem fitsIn (x : Outcome) : FitsIn 6 x.toJson := by
  cases x with
  | cached first second v =>
      exact .object (List.forall_mem_cons.mpr ⟨.string _, fitsIn_pairMembers first second v⟩)
  | computed first second v =>
      exact .object (List.forall_mem_cons.mpr ⟨.string _, fitsIn_pairMembers first second v⟩)
  | failed f =>
      refine .object ?_
      simp [FitsIn.string, f.fitsIn.mono]

/-! ### What is read -/

theorem yields_pair {variant : String} {make : Identity → Identity → Verdict → Outcome}
    (hmake : ∀ first second v, (make first second v).verdict? = some v) :
    Yields (pairDecoder variant make) Storable := by
  refine yields_record (I := fun d => ∀ v, d.verdict = some v → v.Storable) nofun ?_ ?_
  · simp only [List.forall_mem_cons]
    refine ⟨slot_keeps (yields_true _) ?_, slot_keeps (yields_true _) ?_,
      slot_keeps Verdict.yields ?_, List.forall_mem_nil _⟩
    · intro d _ hd _
      exact hd
    · intro d _ hd _
      exact hd
    · intro d v _ hv _ heq
      exact Option.some.inj heq ▸ hv
  · intro d x hd hx v hv
    obtain ⟨first, -, hx⟩ := Except.bind_eq_ok.mp hx
    obtain ⟨second, -, hx⟩ := Except.bind_eq_ok.mp hx
    obtain ⟨verdict, hverdict, hx⟩ := Except.bind_eq_ok.mp hx
    cases hx
    obtain rfl : verdict = v := Option.some.inj ((hmake first second verdict).symm.trans hv)
    exact hd _ (required_eq_ok hverdict)

theorem yields_failed : Yields faultDecoder Storable := by
  refine yields_record (I := fun _ => True) trivial (fun _ _ _ _ _ _ _ _ _ => trivial) ?_
  intro d x _ hx v hv
  obtain ⟨fault, -, hx⟩ := Except.bind_eq_ok.mp hx
  cases hx
  cases hv

/-- **The verdict of an outcome that was read can be written.** -/
theorem yields : Yields decoder Storable := by
  refine yields_tagged fun i => ?_
  split
  · exact yields_pair fun _ _ _ => rfl
  · exact yields_pair fun _ _ _ => rfl
  · exact yields_failed

/-! ### Whole texts -/

/-- **An outcome is read back from its texts just if it can be written.** -/
theorem decode_text_iff {x : Outcome} {text : String} (htext : text ∈ x.toJson.texts) :
    Json.decode decoder text = .ok x ↔ x.Storable :=
  Json.decode_eq_ok_iff inverts yields (x.fitsIn.readingOf (by decide) htext)

/-- **Verdicts and outcomes are read back.** Those with finite reals and dates in the years 0 to 9999
are read back from their texts, and those that were read from any text at all, however it spelled
them, are read back from the texts that are then written for them. -/
theorem read_back :
    (∀ v : Verdict, v.Finite → (∀ t ∈ v.date?, t.FourDigit) →
      ∀ text ∈ v.toJson.texts, Json.decode Verdict.decoder text = .ok v) ∧
    (∀ text v, Json.decode Verdict.decoder text = .ok v →
      ∀ again ∈ v.toJson.texts, Json.decode Verdict.decoder again = .ok v) ∧
    (∀ x : Outcome, (∀ v ∈ x.verdict?, v.Finite ∧ ∀ t ∈ v.date?, t.FourDigit) →
      ∀ text ∈ x.toJson.texts, Json.decode decoder text = .ok x) ∧
    (∀ text x, Json.decode decoder text = .ok x →
      ∀ again ∈ x.toJson.texts, Json.decode decoder again = .ok x) := by
  refine ⟨fun v hfinite hdate text htext => ?_, fun text v hread again hagain => ?_,
    fun x hverdict text htext => ?_, fun text x hread again hagain => ?_⟩
  · exact (Verdict.decode_text_iff htext).mpr (hfinite.storable hdate)
  · exact (Verdict.decode_text_iff hagain).mpr (Json.decode_yields Verdict.yields hread)
  · exact (decode_text_iff htext).mpr fun v hv => (hverdict v hv).1.storable (hverdict v hv).2
  · exact (decode_text_iff hagain).mpr (Json.decode_yields yields hread)

/-- A verdict of the last second of the year 9999, which is a leap second. One measure is the negative
zero, and the rows of the matrix differ in length. -/
def lastVerdict : Verdict :=
  .full
    { date := ⟨253402300799, 1000000001⟩
      first := ⟨⟨⟨"a.py"⟩, "2c"⟩, some "yesterday", ["kind", "status"]⟩
      second := ⟨⟨⟨"b\n.py"⟩, ""⟩, none, []⟩
      quick := ⟨⟨0x8000000000000000⟩, ⟨1⟩, ⟨0x3fd5555555555555⟩, ⟨0x3ff0000000000000⟩, ⟨0⟩⟩
      outline := ⟨⟨0x3fe0000000000000⟩, ⟨[[⟨-1, 2⟩, ⟨0, 0⟩], []]⟩⟩ }

/-- An outcome with this verdict. -/
def lastOutcome : Outcome := .cached ⟨⟨"a.py"⟩, "2c"⟩ ⟨⟨"b\n.py"⟩, ""⟩ lastVerdict

/-- A quick verdict with its tag in between, a member that nobody knows, and integers for reals. -/
def looseVerdictRecord : Json :=
  .object [("jakkar", .nat 1), ("note", .list .nat [1]), ("keywords", .int (-3)),
    ("kind", .string "fast"), ("weighted_average", .nat 0), ("literals", .nat 2),
    ("operators", .nat 1)]

/-- The verdict that it is read as. -/
def looseVerdict : Verdict := .quick ⟨.ofNat 1, .ofNat 1, .ofInt (-3), .ofNat 2, .ofNat 0⟩

/-- An outcome with this verdict in front of its tag, and an identity as an array. -/
def looseOutcomeRecord : Json :=
  .object [("result", looseVerdictRecord), ("first", .list .string ["a.py", "2c"]),
    ("status", .string "computed"), ("second", .object [("path", .string "b.py")])]

/-- The outcome that it is read as. -/
def looseOutcome : Outcome := .computed ⟨⟨"a.py"⟩, "2c"⟩ ⟨⟨"b.py"⟩, ""⟩ looseVerdict

/-- All of them are read back. -/
theorem read_back_last :
    lastVerdict.Finite ∧ (∀ t ∈ lastVerdict.date?, t.FourDigit) ∧
      Json.decode Verdict.decoder lastVerdict.toJson.text = .ok lastVerdict ∧
      Json.decode decoder lastOutcome.toJson.indented = .ok lastOutcome ∧
      Json.decode Verdict.decoder looseVerdictRecord.text = .ok looseVerdict ∧
      Json.decode Verdict.decoder looseVerdict.toJson.text = .ok looseVerdict ∧
      Json.decode decoder looseOutcomeRecord.text = .ok looseOutcome ∧
      Json.decode decoder looseOutcome.toJson.text = .ok looseOutcome := by
  obtain ⟨hverdict, hverdictAgain, houtcome, houtcomeAgain⟩ := read_back
  have hfinite : lastVerdict.Finite := ⟨⟨rfl, rfl, rfl, rfl, rfl⟩, rfl⟩
  have hdate : ∀ t ∈ lastVerdict.date?, t.FourDigit := by
    rintro t ⟨⟩
    exact ⟨by decide, by decide, .inr (by decide)⟩
  have hlast : ∀ v ∈ lastOutcome.verdict?, v.Finite ∧ ∀ t ∈ v.date?, t.FourDigit := by
    rintro v ⟨⟩
    exact ⟨hfinite, hdate⟩
  have hwritable : looseOutcomeRecord.Writable := by
    simp [looseOutcomeRecord, looseVerdictRecord, Json.list, Json.nat, Json.int, Json.Writable,
      Json.ItemsWritable, Json.MembersWritable, Json.Number.Writable, Json.Number.inRange]
  have hloose : Json.decode Verdict.decoder looseVerdictRecord.text = .ok looseVerdict := by
    rw [Json.decode_of_readingOf _ (Json.readingOf_text hwritable.1 (by decide))]
    rfl
  have hlooseOutcome : Json.decode decoder looseOutcomeRecord.text = .ok looseOutcome := by
    rw [Json.decode_of_readingOf _ (Json.readingOf_text hwritable (by decide))]
    rfl
  exact ⟨hfinite, hdate, hverdict _ hfinite hdate _ (Json.text_mem_texts _),
    houtcome _ hlast _ (Json.indented_mem_texts _),
    hloose, hverdictAgain _ _ hloose _ (Json.text_mem_texts _),
    hlooseOutcome, houtcomeAgain _ _ hlooseOutcome _ (Json.text_mem_texts _)⟩

end Outcome

end Likeness.Batch
