import Likeness.Proofs.Files.Tree
import Likeness.Proofs.Store.PairMap
import Likeness.Proofs.Store.Recovery

/-!
# Likeness.Proofs.Store.Sessions

Stores in files that were written by such stores.

A store is opened on a missing or blank file, or on the text of records that were put into a store
before (`FileStore.Finds`), and holds these records then (`FileStore.records_of_open`). From there on
it answers as a store in memory that starts with them, and both answer as one map of unordered pairs
(`FileStore.answers_alike`).
-/

namespace Likeness

namespace FileStore

/-! ### Opening -/

/-- What is read from the text of records are these records. -/
theorem eq_of_recordsOf {p : Path} {rs rs' : Records} (hsorted : rs.Sorted)
    (hdated : ∀ s ∈ rs.toList, s.verdict.Dated)
    (h : recordsOf p (StoreDocument.ofRecords rs) = .ok rs') : rs' = rs := by
  rw [recordsOf, if_neg (trim_ofRecords rs)] at h
  cases hread : Json.decode StoreDocument.decoder (StoreDocument.ofRecords rs) with
  | error e =>
      rw [hread] at h
      cases h
  | ok d =>
      obtain rfl := StoreDocument.eq_of_decode_indented hdated hread
      rw [hread] at h
      simp only [ne_eq, not_true_eq_false, if_false] at h
      rw [← Except.ok.inj h]
      exact hsorted.ofList_toList

variable {τ : Type} [Host (StateM τ)] {p : Path} {s : FileStore} {t t' : τ}

/-- A path at which a store can be opened, with the records that it is to hold then: there is no file, a
blank one, or one with the text of the records that some requests have left in a store. -/
inductive Finds (p : Path) (t : τ) : Records → Prop where
  | missing (look : (Host.look t p).1 = none) : Finds p t .empty
  | blank {kind : FileKind} {content : ByteArray} {text : String}
      (look : Host.look t p = (some kind, .ok content))
      (decode : Text.Utf8.decode content = .ok text) (blank : Text.trim text.toList = []) :
      Finds p t .empty
  | written {kind : FileKind} {requests : List Request}
      (look : Host.look t p =
        (some kind, .ok (StoreDocument.ofRecords (Records.empty.after requests)).toUTF8))
      (dated : ∀ a b v, .put a b v ∈ requests → v.Dated) :
      Finds p t (Records.empty.after requests)

theorem Finds.tidy {rs : Records} (h : Finds p t rs) : rs.Tidy := by
  cases h with
  | missing look => exact Records.tidy_empty
  | blank look decode blank => exact Records.tidy_empty
  | written look dated => exact Records.tidy_empty.after _

/-- **A store holds the records that it finds when it is opened.** -/
theorem records_of_open (hhost : Host.Steady τ p) {rs : Records} (hfinds : Finds p t rs)
    {interval : Nat} (h : (open? p interval : StateM τ _).run t = (.ok s, t')) : s.records = rs := by
  rcases open_cases hhost h with ⟨hsome, hlook, hopen⟩ | ⟨hnone, hopen⟩
  · obtain ⟨hpath, -, kind, content, text, hlook', hdecode, hrecords⟩ := hopen s rfl
    rw [hpath, hlook] at hlook'
    cases hfinds with
    | missing look =>
        rw [look] at hsome
        cases hsome
    | blank look decode blank =>
        rw [look] at hlook'
        cases hlook'
        cases decode.symm.trans hdecode
        rw [recordsOf, if_pos blank] at hrecords
        exact (Except.ok.inj hrecords).symm
    | @written kind requests look dated =>
        rw [look] at hlook'
        cases hlook'
        rw [Text.Utf8.decode_toUTF8] at hdecode
        cases hdecode
        refine eq_of_recordsOf (Records.tidy_empty.after requests).sorted ?_ hrecords
        intro x hx
        rcases Records.mem_after hx with hx | ⟨a, b, v, hmem, rfl⟩
        · cases hx
        · exact dated a b v hmem
  · obtain ⟨ticks, t₁, hsave⟩ := hopen s rfl
    obtain ⟨-, ticks', rfl⟩ := wrote_of_save hhost hsave
    cases hfinds with
    | missing look => rfl
    | blank look decode blank =>
        rw [look] at hnone
        cases hnone
    | written look dated =>
        rw [look] at hnone
        cases hnone

/-- **Stores answer alike.** Take a store in a file on any host that keeps the file as it was written,
opened on a missing or blank file or on one that such a store has written, and a store in memory with
the same records, and make the same requests to both, for verdicts on different paths. Whenever the
store in the file saves, and whether or not it can, both give the same answers.

These are the answers of one map of unordered pairs of paths that starts with the records and has, for
each pair, the digests and the verdict of what was put there last: it gives the verdict if it is asked
about the same digests, in any order, and nothing otherwise. -/
theorem answers_alike (hhost : Host.Steady τ p) {rs : Records} (hfinds : Finds p t rs)
    {interval : Nat} (hopen : (open? p interval : StateM τ _).run t = (.ok s, t'))
    (requests : List Request)
    (hrequests : ∀ request ∈ requests, request.isDistinct = true) :
    (((VerdictStore.fileOn τ).answers requests).run (s, t')).1 =
        ((VerdictStore.pairMap.answers requests).run (.ofRecords rs)).1 ∧
      ((VerdictStore.memory.answers requests).run rs).1 =
        ((VerdictStore.pairMap.answers requests).run (.ofRecords rs)).1 := by
  have hmemory := VerdictStore.answers_memory hfinds.tidy.denote hrequests
  refine ⟨?_, hmemory⟩
  obtain ⟨hanswers, -⟩ := VerdictStore.holds_fileOn.run_answers requests (s, t')
  rw [hanswers, records_of_open hhost hfinds hopen]
  exact hmemory

/-- A verdict is put, asked for in both orders, and then replaced by one for a new version of a work,
whose path is written in another way. -/
def replacement : List Request :=
  [.put ⟨⟨"b"⟩, "2"⟩ ⟨⟨"a"⟩, "1"⟩ (.quick ⟨.one, .one, .one, .one, .one⟩),
    .get ⟨⟨"a"⟩, "1"⟩ ⟨⟨"b"⟩, "2"⟩, .get ⟨⟨"b"⟩, "2"⟩ ⟨⟨"a"⟩, "1"⟩,
    .get ⟨⟨"b/."⟩, "3"⟩ ⟨⟨"a"⟩, "1"⟩, .flush,
    .put ⟨⟨"a"⟩, "1"⟩ ⟨⟨"b/."⟩, "3"⟩ (.quick ⟨.zero, .one, .one, .one, .one⟩),
    .get ⟨⟨"b"⟩, "3"⟩ ⟨⟨"a"⟩, "1"⟩, .get ⟨⟨"a"⟩, "1"⟩ ⟨⟨"b"⟩, "2"⟩]

theorem answers_alike_replacement : ∃ s t',
    (open? ⟨"store.json"⟩ 0 : StateM FileTree _).run .empty = (.ok s, t') ∧
    (((VerdictStore.fileOn FileTree).answers replacement).run (s, t')).1 =
      [some (.quick ⟨.one, .one, .one, .one, .one⟩), some (.quick ⟨.one, .one, .one, .one, .one⟩),
        none, some (.quick ⟨.zero, .one, .one, .one, .one⟩), none] := by
  have hopens : ((open? ⟨"store.json"⟩ 0 : StateM FileTree _).run .empty).1.toOption.isSome = true := by
    decide +kernel
  rcases hopen : (open? ⟨"store.json"⟩ 0 : StateM FileTree _).run .empty with ⟨answer, t'⟩
  rw [hopen] at hopens
  cases answer with
  | error f => cases hopens
  | ok s =>
      refine ⟨s, t', rfl, ?_⟩
      rw [(answers_alike (FileTree.steady _) (.missing rfl) hopen replacement ?_).1]
      · decide +kernel
      · decide +kernel

end FileStore

end Likeness
