import Likeness.Compare.Record
import Likeness.Proofs.Calendar
import Likeness.Proofs.Work.Record

/-!
# Likeness.Proofs.Compare.Record

Verdicts survive being written and read. A verdict can be written if its reals are finite and its date
has a text (`Verdict.Storable`). From either of its texts such a verdict is read back, and no other one
is (`Verdict.decode_text_iff`), since all that is read from any text can be written
(`Verdict.yields`).
-/

namespace Likeness

open Json (FitsIn)
open Json.Decode

/-! ### What was written -/

theorem Summary.inverts (s : Summary) : Inverts Summary.decoder s.toJson s := by
  intro o
  rw [Summary.decoder, Summary.toJson, record_object]
  rw [fillNamed_slot rfl rfl (Identity.inverts s.identity),
    fillNamed_slot rfl rfl (inverts_optional_string s.modified),
    fillNamed_slot rfl rfl (inverts_many fun a _ => inverts_stringAs _ a)]
  rfl

theorem Moment.inverts {t : Moment} (h : t.Valid) : Inverts Moment.decoder t.toJson t := by
  intro o
  simp only [Moment.decoder, Moment.toJson, inverts_stringAs _ t.text o, bind, Except.bind,
    Moment.parse_text h]
  rfl

theorem Fraction.inverts (f : Fraction) : Inverts Fraction.decoder f.toJson f := by
  intro o
  rw [Fraction.decoder, Fraction.toJson,
    inverts_pair (inverts_int64 f.numerator) (inverts_int64 f.denominator) o]
  rfl

theorem Matrix.inverts (m : Matrix) : Inverts Matrix.decoder m.toJson m := by
  intro o
  have hrow (row : List Fraction) : Inverts (many Fraction.decoder) (.list Fraction.toJson row) row :=
    inverts_many fun f _ => Fraction.inverts f
  rw [Matrix.decoder, Matrix.toJson, inverts_many (fun row _ => hrow row) o]
  rfl

theorem OutlineLikeness.inverts {l : OutlineLikeness} (h : l.similarity.isFinite = true) :
    Inverts OutlineLikeness.decoder l.toJson l := by
  intro o
  rw [OutlineLikeness.decoder, OutlineLikeness.toJson, record_object]
  rw [fillNamed_slot rfl rfl (inverts_binary64 h), fillNamed_slot rfl rfl (Matrix.inverts l.matrix)]
  rfl

/-- All measures are finite. -/
structure QuickLikeness.Finite (q : QuickLikeness) : Prop where
  tokens : q.tokens.isFinite = true
  operators : q.operators.isFinite = true
  keywords : q.keywords.isFinite = true
  literals : q.literals.isFinite = true
  average : q.average.isFinite = true

theorem QuickLikeness.inverts {q : QuickLikeness} (h : q.Finite) :
    Inverts QuickLikeness.decoder (.object q.members) q := by
  intro o
  rw [QuickLikeness.decoder, QuickLikeness.members, record_object]
  rw [fillNamed_slot rfl rfl (inverts_binary64 h.tokens),
    fillNamed_slot rfl rfl (inverts_binary64 h.operators),
    fillNamed_slot rfl rfl (inverts_binary64 h.keywords),
    fillNamed_slot rfl rfl (inverts_binary64 h.literals),
    fillNamed_slot rfl rfl (inverts_binary64 h.average)]
  rfl

/-- The verdict can be written: its date has a text, and so have its numbers. -/
structure FullVerdict.Storable (f : FullVerdict) : Prop where
  date : f.date.Valid
  quick : f.quick.Finite
  outline : f.outline.similarity.isFinite = true

theorem FullVerdict.inverts {f : FullVerdict} (h : f.Storable) :
    Inverts FullVerdict.decoder (.object f.members) f := by
  intro o
  have hquick : Inverts QuickLikeness.decoder f.quick.toJson f.quick := QuickLikeness.inverts h.quick
  rw [FullVerdict.decoder, FullVerdict.members, record_object]
  rw [fillNamed_slot rfl rfl (Moment.inverts h.date),
    fillNamed_slot rfl rfl (Summary.inverts f.first),
    fillNamed_slot rfl rfl (Summary.inverts f.second),
    fillNamed_slot rfl rfl hquick,
    fillNamed_slot rfl rfl (OutlineLikeness.inverts h.outline)]
  rfl

/-- The verdict can be written. -/
def Verdict.Storable : Verdict → Prop
  | .quick q => q.Finite
  | .full f => f.Storable

theorem Verdict.inverts {v : Verdict} (h : v.Storable) : Inverts Verdict.decoder v.toJson v := by
  cases v with
  | quick q =>
      refine inverts_tagged rfl (by simp [QuickLikeness.members]) fun o => ?_
      simp [QuickLikeness.inverts h o, bind, Except.bind, pure, Except.pure]
  | full f =>
      refine inverts_tagged rfl (by simp [FullVerdict.members]) fun o => ?_
      simp [FullVerdict.inverts h o, bind, Except.bind, pure, Except.pure]

/-! ### Texts -/

theorem Summary.fitsIn (s : Summary) : FitsIn 2 s.toJson := by
  have hdate : FitsIn 1 (.option .string s.modified) := by
    cases s.modified with
    | none => exact .null
    | some date => exact .string date
  have hheads : FitsIn 1 (.list .string s.heads) := .list fun a _ => .string a
  refine .object ?_
  simp [s.identity.fitsIn, hdate, hheads]

theorem Fraction.fitsIn (f : Fraction) : FitsIn 1 f.toJson := by
  have hrange (n : Int64) : Json.Number.inRange n.toInt = true := by
    have hlow := n.le_toInt
    have hhigh := n.toInt_lt
    simp only [Json.Number.inRange, Bool.and_eq_true, decide_eq_true_eq]
    omega
  refine .array ?_
  simp [FitsIn.int (hrange _)]

theorem OutlineLikeness.fitsIn (l : OutlineLikeness) : FitsIn 4 l.toJson := by
  have hmatrix : FitsIn 3 l.matrix.toJson := .list fun row _ => .list fun f _ => f.fitsIn
  refine .object ?_
  simp [FitsIn.real, hmatrix]

theorem QuickLikeness.fitsIn_members (q : QuickLikeness) : ∀ m ∈ q.members, FitsIn 0 m.2 := by
  simp [QuickLikeness.members, FitsIn.real]

theorem FullVerdict.fitsIn_members (f : FullVerdict) : ∀ m ∈ f.members, FitsIn 4 m.2 := by
  have hdate : FitsIn 4 f.date.toJson := .string _
  have hquick : FitsIn 1 f.quick.toJson := .object f.quick.fitsIn_members
  simp [FullVerdict.members, hdate, f.first.fitsIn.mono, f.second.fitsIn.mono, hquick.mono,
    f.outline.fitsIn]

theorem Verdict.fitsIn (v : Verdict) : FitsIn 5 v.toJson := by
  cases v with
  | quick q =>
      refine .object (List.forall_mem_cons.mpr ⟨.string _, fun m hm => ?_⟩)
      exact (q.fitsIn_members m hm).mono (Nat.zero_le 4)
  | full f => exact .object (List.forall_mem_cons.mpr ⟨.string _, f.fitsIn_members⟩)

/-! ### What is read -/

theorem Moment.yields : Yields Moment.decoder Moment.Valid := by
  intro o r t _ ht
  obtain ⟨text, -, ht⟩ := Except.bind_eq_ok.mp ht
  exact Moment.valid_of_parse (Except.mapError_eq_ok.mp ht)

/-- The measures read so far are finite. -/
structure QuickLikeness.Draft.Finite (d : QuickLikeness.Draft) : Prop where
  tokens : ∀ x, d.tokens = some x → x.isFinite = true
  operators : ∀ x, d.operators = some x → x.isFinite = true
  keywords : ∀ x, d.keywords = some x → x.isFinite = true
  literals : ∀ x, d.literals = some x → x.isFinite = true
  average : ∀ x, d.average = some x → x.isFinite = true

theorem QuickLikeness.yields : Yields QuickLikeness.decoder QuickLikeness.Finite := by
  refine yields_record (I := Draft.Finite) ⟨nofun, nofun, nofun, nofun, nofun⟩ ?_ ?_
  · simp only [List.forall_mem_cons]
    refine ⟨slot_keeps yields_binary64 ?_, slot_keeps yields_binary64 ?_,
      slot_keeps yields_binary64 ?_, slot_keeps yields_binary64 ?_, slot_keeps yields_binary64 ?_,
      List.forall_mem_nil _⟩
    · intro d x hd hx
      exact { hd with tokens := fun _ heq => Option.some.inj heq ▸ hx }
    · intro d x hd hx
      exact { hd with operators := fun _ heq => Option.some.inj heq ▸ hx }
    · intro d x hd hx
      exact { hd with keywords := fun _ heq => Option.some.inj heq ▸ hx }
    · intro d x hd hx
      exact { hd with literals := fun _ heq => Option.some.inj heq ▸ hx }
    · intro d x hd hx
      exact { hd with average := fun _ heq => Option.some.inj heq ▸ hx }
  · intro d q hd hq
    obtain ⟨tokens, htokens, hq⟩ := Except.bind_eq_ok.mp hq
    obtain ⟨operators, hoperators, hq⟩ := Except.bind_eq_ok.mp hq
    obtain ⟨keywords, hkeywords, hq⟩ := Except.bind_eq_ok.mp hq
    obtain ⟨literals, hliterals, hq⟩ := Except.bind_eq_ok.mp hq
    obtain ⟨average, haverage, hq⟩ := Except.bind_eq_ok.mp hq
    cases hq
    exact ⟨hd.tokens _ (required_eq_ok htokens), hd.operators _ (required_eq_ok hoperators),
      hd.keywords _ (required_eq_ok hkeywords), hd.literals _ (required_eq_ok hliterals),
      hd.average _ (required_eq_ok haverage)⟩

theorem OutlineLikeness.yields :
    Yields OutlineLikeness.decoder (·.similarity.isFinite = true) := by
  refine yields_record (I := fun d => ∀ x, d.similarity = some x → x.isFinite = true) nofun ?_ ?_
  · simp only [List.forall_mem_cons]
    refine ⟨slot_keeps yields_binary64 ?_, slot_keeps (yields_true _) ?_, List.forall_mem_nil _⟩
    · intro d x _ hx _ heq
      exact Option.some.inj heq ▸ hx
    · intro d _ hd _
      exact hd
  · intro d l hd hl
    obtain ⟨similarity, hsimilarity, hl⟩ := Except.bind_eq_ok.mp hl
    obtain ⟨matrix, -, hl⟩ := Except.bind_eq_ok.mp hl
    cases hl
    exact hd _ (required_eq_ok hsimilarity)

/-- The parts read so far can be written. -/
structure FullVerdict.Draft.Storable (d : FullVerdict.Draft) : Prop where
  date : ∀ t, d.date = some t → t.Valid
  quick : ∀ q, d.quick = some q → q.Finite
  outline : ∀ l, d.outline = some l → l.similarity.isFinite = true

theorem FullVerdict.yields : Yields FullVerdict.decoder FullVerdict.Storable := by
  refine yields_record (I := Draft.Storable) ⟨nofun, nofun, nofun⟩ ?_ ?_
  · simp only [List.forall_mem_cons]
    refine ⟨slot_keeps Moment.yields ?_, slot_keeps (yields_true _) ?_, slot_keeps (yields_true _) ?_,
      slot_keeps QuickLikeness.yields ?_, slot_keeps OutlineLikeness.yields ?_,
      List.forall_mem_nil _⟩
    · intro d t hd ht
      exact { hd with date := fun _ heq => Option.some.inj heq ▸ ht }
    · intro d _ hd _
      exact { hd with }
    · intro d _ hd _
      exact { hd with }
    · intro d q hd hq
      exact { hd with quick := fun _ heq => Option.some.inj heq ▸ hq }
    · intro d l hd hl
      exact { hd with outline := fun _ heq => Option.some.inj heq ▸ hl }
  · intro d f hd hf
    obtain ⟨date, hdate, hf⟩ := Except.bind_eq_ok.mp hf
    obtain ⟨first, -, hf⟩ := Except.bind_eq_ok.mp hf
    obtain ⟨second, -, hf⟩ := Except.bind_eq_ok.mp hf
    obtain ⟨quick, hquick, hf⟩ := Except.bind_eq_ok.mp hf
    obtain ⟨outline, houtline, hf⟩ := Except.bind_eq_ok.mp hf
    cases hf
    exact ⟨hd.date _ (required_eq_ok hdate), hd.quick _ (required_eq_ok hquick),
      hd.outline _ (required_eq_ok houtline)⟩

theorem Verdict.yields : Yields Verdict.decoder Verdict.Storable := by
  refine yields_tagged fun i o r v hr hv => ?_
  split at hv
  · obtain ⟨q, hq, hv⟩ := Except.bind_eq_ok.mp hv
    cases hv
    exact QuickLikeness.yields o r q hr hq
  · obtain ⟨f, hf, hv⟩ := Except.bind_eq_ok.mp hv
    cases hv
    exact FullVerdict.yields o r f hr hf

/-! ### Whole texts -/

/-- **A verdict is read back from its texts just if it can be written.** -/
theorem Verdict.decode_text_iff {v : Verdict} {text : String} (htext : text ∈ v.toJson.texts) :
    Json.decode Verdict.decoder text = .ok v ↔ v.Storable :=
  Json.decode_eq_ok_iff Verdict.inverts Verdict.yields (v.fitsIn.readingOf (by decide) htext)

/-- The date of a verdict, if it has one. -/
def Verdict.date? : Verdict → Option Moment
  | .quick _ => none
  | .full f => some f.date

/-- All reals of a verdict are finite. -/
def Verdict.Finite : Verdict → Prop
  | .quick q => q.Finite
  | .full f => f.quick.Finite ∧ f.outline.similarity.isFinite = true

theorem Verdict.Finite.storable {v : Verdict} (h : v.Finite) (hdate : ∀ t ∈ v.date?, t.FourDigit) :
    v.Storable := by
  cases v with
  | quick q => exact h
  | full f => exact ⟨(hdate f.date rfl).valid, h.1, h.2⟩

end Likeness
