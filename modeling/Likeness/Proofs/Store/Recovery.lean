import Likeness.Proofs.Store.Record

/-!
# Likeness.Proofs.Store.Recovery

Stored verdicts are never misread.

A document can always be written, also if it holds reals that are not finite and so have no text. Then
its text cannot be read as a document. But whatever document is read from it is the one that was
written (`StoreDocument.eq_of_decode_indented`).
-/

namespace Likeness

open Json.Decode

namespace OutlineLikeness

theorem recovers (l : OutlineLikeness) : Recovers decoder l.toJson l := by
  intro o l' h
  rw [decoder, toJson, record_object] at h
  obtain ⟨d, hfill, h⟩ := Except.bind_eq_ok.mp h
  replace hfill := fillNamed_of_recovers rfl (recovers_binary64 l.similarity) hfill
  replace hfill := fillNamed_of_recovers rfl l.matrix.inverts.recovers hfill
  cases hfill
  exact (Except.ok.inj h).symm

end OutlineLikeness

namespace QuickLikeness

theorem recovers (q : QuickLikeness) : Recovers decoder (.object q.members) q := by
  intro o q' h
  rw [decoder, members, record_object] at h
  obtain ⟨d, hfill, h⟩ := Except.bind_eq_ok.mp h
  replace hfill := fillNamed_of_recovers rfl (recovers_binary64 q.tokens) hfill
  replace hfill := fillNamed_of_recovers rfl (recovers_binary64 q.operators) hfill
  replace hfill := fillNamed_of_recovers rfl (recovers_binary64 q.keywords) hfill
  replace hfill := fillNamed_of_recovers rfl (recovers_binary64 q.literals) hfill
  replace hfill := fillNamed_of_recovers rfl (recovers_binary64 q.average) hfill
  cases hfill
  exact (Except.ok.inj h).symm

end QuickLikeness

theorem FullVerdict.recovers {f : FullVerdict} (hdate : f.date.Valid) :
    Recovers FullVerdict.decoder (.object f.members) f := by
  intro o f' h
  have hquick : Recovers QuickLikeness.decoder f.quick.toJson f.quick := f.quick.recovers
  rw [decoder, members, record_object] at h
  obtain ⟨d, hfill, h⟩ := Except.bind_eq_ok.mp h
  replace hfill := fillNamed_of_recovers rfl (Moment.inverts hdate).recovers hfill
  replace hfill := fillNamed_of_recovers rfl f.first.inverts.recovers hfill
  replace hfill := fillNamed_of_recovers rfl f.second.inverts.recovers hfill
  replace hfill := fillNamed_of_recovers rfl hquick hfill
  replace hfill := fillNamed_of_recovers rfl f.outline.recovers hfill
  cases hfill
  exact (Except.ok.inj h).symm

/-- The verdict has a date that a text can name. -/
def Verdict.Dated : Verdict → Prop
  | .quick _ => True
  | .full f => f.date.Valid

theorem Verdict.Storable.dated {v : Verdict} (h : v.Storable) : v.Dated := by
  cases v with
  | quick q => trivial
  | full f => exact h.date

theorem Verdict.recovers {v : Verdict} (h : v.Dated) : Recovers Verdict.decoder v.toJson v := by
  cases v with
  | quick q =>
      refine recovers_tagged rfl (by simp [QuickLikeness.members]) fun o v' hv' => ?_
      obtain ⟨q', hq', hv'⟩ := Except.bind_eq_ok.mp hv'
      rw [q.recovers o q' hq'] at hv'
      exact (Except.ok.inj hv').symm
  | full f =>
      refine recovers_tagged rfl (by simp [FullVerdict.members]) fun o v' hv' => ?_
      obtain ⟨f', hf', hv'⟩ := Except.bind_eq_ok.mp hv'
      rw [FullVerdict.recovers h o f' hf'] at hv'
      exact (Except.ok.inj hv').symm

theorem StoredVerdict.recovers {s : StoredVerdict} (h : s.verdict.Dated) :
    Recovers StoredVerdict.decoder s.toJson s := by
  intro o s' hs
  rw [decoder, toJson, record_object] at hs
  obtain ⟨d, hfill, hs⟩ := Except.bind_eq_ok.mp hs
  replace hfill := fillNamed_of_recovers rfl s.first.inverts.recovers hfill
  replace hfill := fillNamed_of_recovers rfl s.second.inverts.recovers hfill
  replace hfill := fillNamed_of_recovers rfl (Verdict.recovers h) hfill
  cases hfill
  exact (Except.ok.inj hs).symm

namespace StoreDocument

theorem recovers {d : StoreDocument} (h : ∀ s ∈ d.records, s.verdict.Dated) :
    Recovers decoder d.toJson d := by
  intro o d' hd
  rw [decoder, toJson, record_object] at hd
  obtain ⟨draft, hfill, hd⟩ := Except.bind_eq_ok.mp hd
  have hrecords := recovers_many fun s hs => StoredVerdict.recovers (h s hs)
  replace hfill := fillNamed_of_recovers rfl (inverts_uint32 d.version).recovers hfill
  replace hfill := fillNamed_of_recovers rfl hrecords hfill
  cases hfill
  exact (Except.ok.inj hd).symm

/-- **What is read from the text of a document is that document.** -/
theorem eq_of_decode_indented {d d' : StoreDocument} (h : ∀ s ∈ d.records, s.verdict.Dated)
    (hread : Json.decode decoder d.toJson.indented = .ok d') : d' = d := by
  rw [Json.decode, d.readingOf_indented] at hread
  obtain ⟨d'', hd, hread⟩ := Except.bind_eq_ok.mp hread
  cases hread
  exact recovers h .text d' hd

end StoreDocument

end Likeness
