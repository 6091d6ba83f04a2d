import Likeness.Proofs.Compare.Record
import Likeness.Store.Record

/-!
# Likeness.Proofs.Store.Record

Stored verdicts survive being written and read. The text of a document of verdicts that can be written
is read as that document (`StoreDocument.decode_indented`), and what was read from any text is such a
document (`StoreDocument.yields`).
-/

namespace Likeness

open Json (FitsIn)
open Json.Decode

/-! ### What was written -/

theorem StoredVerdict.inverts {s : StoredVerdict} (h : s.verdict.Storable) :
    Inverts StoredVerdict.decoder s.toJson s := by
  intro o
  rw [StoredVerdict.decoder, StoredVerdict.toJson, record_object]
  rw [fillNamed_slot rfl rfl (Identity.inverts s.first),
    fillNamed_slot rfl rfl (Identity.inverts s.second), fillNamed_slot rfl rfl (Verdict.inverts h)]
  rfl

/-- **The document of stored verdicts is decoded to them.** -/
theorem StoreDocument.inverts {d : StoreDocument} (h : ∀ s ∈ d.records, s.verdict.Storable) :
    Inverts StoreDocument.decoder d.toJson d := by
  intro o
  rw [StoreDocument.decoder, StoreDocument.toJson, record_object]
  rw [fillNamed_slot rfl rfl (inverts_uint32 d.version),
    fillNamed_slot rfl rfl (inverts_many fun s hs => StoredVerdict.inverts (h s hs))]
  rfl

/-! ### Texts -/

theorem StoredVerdict.fitsIn (s : StoredVerdict) : FitsIn 6 s.toJson := by
  refine .object ?_
  simp [s.first.fitsIn.mono, s.second.fitsIn.mono, s.verdict.fitsIn]

/-- Any document can be written. What is not finite is written as null. -/
theorem StoreDocument.fitsIn (d : StoreDocument) : FitsIn 8 d.toJson := by
  have hversion : FitsIn 7 (.nat d.version.toNat) := .nat (d.version.toNat_lt.trans (by decide))
  have hrecords : FitsIn 7 (.list StoredVerdict.toJson d.records) := .list fun s _ => s.fitsIn
  refine .object ?_
  simp [hversion, hrecords]

/-- The text of a document is read as its value. -/
theorem StoreDocument.readingOf_indented (d : StoreDocument) :
    Json.readingOf d.toJson.indented = (d.toJson.reading, []) :=
  d.fitsIn.readingOf (by decide) d.toJson.indented_mem_texts

/-- **The text of a document of stored verdicts is read as that document.** -/
theorem StoreDocument.decode_indented {d : StoreDocument}
    (h : ∀ s ∈ d.records, s.verdict.Storable) :
    Json.decode StoreDocument.decoder d.toJson.indented = .ok d :=
  (StoreDocument.inverts h).decode_eq_ok d.readingOf_indented

/-! ### What is read -/

theorem StoredVerdict.yields : Yields StoredVerdict.decoder (·.verdict.Storable) := by
  refine yields_record (I := fun d => ∀ v, d.verdict = some v → v.Storable) nofun ?_ ?_
  · simp only [List.forall_mem_cons]
    refine ⟨slot_keeps (yields_true _) ?_, slot_keeps (yields_true _) ?_,
      slot_keeps Verdict.yields ?_, List.forall_mem_nil _⟩
    · intro d _ hd _
      exact hd
    · intro d _ hd _
      exact hd
    · intro d v _ hv _ heq
      exact Option.some.inj heq ▸ hv
  · intro d s hd hs
    obtain ⟨first, -, hs⟩ := Except.bind_eq_ok.mp hs
    obtain ⟨second, -, hs⟩ := Except.bind_eq_ok.mp hs
    obtain ⟨verdict, hverdict, hs⟩ := Except.bind_eq_ok.mp hs
    cases hs
    exact hd _ (required_eq_ok hverdict)

/-- **The verdicts of a document that was read can be written.** -/
theorem StoreDocument.yields :
    Yields StoreDocument.decoder fun d => ∀ s ∈ d.records, s.verdict.Storable := by
  refine yields_record
    (I := fun d => ∀ rs, d.records = some rs → ∀ s ∈ rs, s.verdict.Storable) nofun ?_ ?_
  · simp only [List.forall_mem_cons]
    refine ⟨slot_keeps (yields_true _) ?_, slot_keeps (yields_many StoredVerdict.yields) ?_,
      List.forall_mem_nil _⟩
    · intro d _ hd _
      exact hd
    · intro d rs _ hrs _ heq
      exact Option.some.inj heq ▸ hrs
  · intro d document hd hdocument
    obtain ⟨version, -, hdocument⟩ := Except.bind_eq_ok.mp hdocument
    obtain ⟨records, hrecords, hdocument⟩ := Except.bind_eq_ok.mp hdocument
    cases hdocument
    exact hd _ (required_eq_ok hrecords)

end Likeness
