import Mathlib.Data.List.TakeWhile
import Likeness.Proofs.Files.Host
import Likeness.Proofs.Store.Record
import Likeness.Proofs.Store.Records
import Likeness.Proofs.Text.Utf8
import Likeness.Store.File

/-!
# Likeness.Proofs.Store.File

The store in a file. While it has nothing to save, its file is read as exactly the records that it
holds (`FileStore.Backed`). That is so when it is opened, whatever the file held before
(`FileStore.backed_of_open`), it stays so through all calls of a batch (`FileStore.Sound`), and a store
that is closed with nothing left to save is opened again with the same records
(`FileStore.exists_reopen`).
-/

namespace Likeness

/-- Records that a file can hold. -/
structure Records.Storable (rs : Records) : Prop where
  sorted : rs.Sorted
  verdicts : ∀ s ∈ rs.toList, s.verdict.Storable

theorem Records.Storable.put {rs : Records} (h : rs.Storable) (a b : Identity) {v : Verdict}
    (hv : v.Storable) : (rs.put a b v).Storable := by
  refine ⟨h.sorted.put a b v, ?_⟩
  intro s hs
  rcases Records.mem_put hs with rfl | hs
  · exact hv
  · exact h.verdicts s hs

namespace FileStore

/-! ### Texts -/

/-- The text of a document is not blank: it starts with a bracket. -/
theorem trim_ofRecords (rs : Records) :
    Text.trim (StoreDocument.ofRecords rs).toList ≠ [] := by
  obtain ⟨rest, hrest⟩ : ∃ rest, (StoreDocument.ofRecords rs).toList = '{' :: rest :=
    ⟨_, by rw [StoreDocument.ofRecords, Json.indented, String.toList_ofList]; rfl⟩
  have hspace : Text.isSpace '{' = false := by decide
  intro hblank
  rw [hrest, Text.trim, Text.trimStart, Text.trimStart,
    List.dropWhile_cons_of_neg (by simp [hspace]), List.reverse_eq_nil_iff,
    List.dropWhile_eq_nil_iff] at hblank
  have hmem := hblank '{' (by simp)
  rw [hspace] at hmem
  cases hmem

/-- **The text of records is read as these records.** -/
theorem recordsOf_ofRecords (p : Path) {rs : Records} (h : rs.Storable) :
    recordsOf p (StoreDocument.ofRecords rs) = .ok rs := by
  have hdecode := StoreDocument.decode_indented
    (d := ⟨StoreDocument.currentVersion, rs.toList⟩) h.verdicts
  rw [recordsOf, if_neg (trim_ofRecords rs), StoreDocument.ofRecords, hdecode]
  simp only [ne_eq, not_true_eq_false, if_false, h.sorted.ofList_toList]

/-- Records that were read can be written. -/
theorem storable_of_recordsOf {p : Path} {text : String} {rs : Records}
    (h : recordsOf p text = .ok rs) : rs.Storable := by
  unfold recordsOf at h
  split at h
  · obtain rfl := Except.ok.inj h
    exact ⟨Records.sorted_empty, List.forall_mem_nil _⟩
  · split at h
    · cases h
    next d hd =>
      split at h
      · cases h
      · obtain rfl := Except.ok.inj h
        have hrecords := Json.decode_yields StoreDocument.yields hd
        exact ⟨Records.sorted_ofList _, fun s hs => hrecords s (Records.mem_ofList hs)⟩

/-! ### Saving -/

variable {τ : Type} [Host (StateM τ)] {p : Path} {s s' : FileStore} {t t' : τ}

/-- A save either fails and leaves the store as it is, or writes the records and then looks at the
clock. -/
theorem save_cases (s : FileStore) (t : τ) :
    (∃ f t', (s.save : StateM τ _).run t = ((.error f, s), t')) ∨
      ∃ t₁ t₂ t' ticks, (Host.writeText s.path (StoreDocument.ofRecords s.records) :
          StateM τ _).run t₁ = (.ok (), t₂) ∧
        (Host.ticks : StateM τ _).run t₂ = (ticks, t') ∧
        (s.save : StateM τ _).run t = ((.ok (), s.saved ticks), t') := by
  rcases hroom : (makeRoom s.path : StateM τ _).run t with ⟨made, t₁⟩
  cases made with
  | error f =>
      refine .inl ⟨.writeFailed s.path f, t₁, ?_⟩
      rw [save, Host.run_bind_eq hroom]
      rfl
  | ok _ =>
      rcases hwrite : (Host.writeText s.path (StoreDocument.ofRecords s.records) :
        StateM τ _).run t₁ with ⟨written, t₂⟩
      cases written with
      | error f =>
          refine .inl ⟨.writeFailed s.path f, t₂, ?_⟩
          rw [save, Host.run_bind_eq hroom]
          dsimp only
          rw [Host.run_bind_eq hwrite]
          rfl
      | ok _ =>
          rcases hticks : (Host.ticks : StateM τ _).run t₂ with ⟨ticks, t'⟩
          refine .inr ⟨t₁, t₂, t', ticks, hwrite, hticks, ?_⟩
          rw [save, Host.run_bind_eq hroom]
          dsimp only
          rw [Host.run_bind_eq hwrite]
          dsimp only
          rw [Host.run_bind_eq hticks]
          rfl

/-- The file is read as the records that the store holds. -/
def Backed (s : FileStore) (t : τ) : Prop :=
  ∃ kind content text, Host.look t s.path = (some kind, .ok content) ∧
    Text.Utf8.decode content = .ok text ∧ recordsOf s.path text = .ok s.records

/-- The store as it is between calls: its records can be written, and while nothing is to be saved its
file is read as these records. -/
structure Sound (p : Path) (s : FileStore) (t : τ) : Prop where
  path : s.path = p
  storable : s.records.Storable
  backed : s.dirty = false → s.Backed t

/-- The file has the text of the records that the store holds. -/
def Wrote (s : FileStore) (t : τ) : Prop :=
  Host.look t s.path = (some .file, .ok (StoreDocument.ofRecords s.records).toUTF8)

theorem Wrote.backed (h : s.Wrote t) (hs : s.records.Storable) : s.Backed t :=
  ⟨.file, _, _, h, Text.Utf8.decode_toUTF8 _, recordsOf_ofRecords s.path hs⟩

/-- A store that was saved has written its records. -/
theorem wrote_saved (hhost : Host.Steady τ s.path) {t₁ t₂ : τ} {ticks : Nat}
    (hwrite : (Host.writeText s.path (StoreDocument.ofRecords s.records) : StateM τ _).run t₁ =
      (.ok (), t₂))
    (hticks : (Host.ticks : StateM τ _).run t₂ = (ticks, t')) : (s.saved ticks).Wrote t' := by
  have hwritten := hhost.write t₁ t₂ _ hwrite
  have hlook := hhost.ticks t₂
  rw [hticks, hwritten] at hlook
  exact hlook

/-- Saving a store that has something to save. -/
theorem Sound.save (hhost : Host.Steady τ p) (hpath : s.path = p) (hs : s.records.Storable)
    (hdirty : s.dirty = true) {answer : Except StoreFault Unit}
    (h : (s.save : StateM τ _).run t = ((answer, s'), t')) : Sound p s' t' := by
  subst hpath
  rcases save_cases s t with ⟨f, t₁, hfail⟩ | ⟨t₁, t₂, t₃, ticks, hwrite, hticks, hsave⟩
  · rw [hfail] at h
    cases h
    refine ⟨rfl, hs, fun hclean => ?_⟩
    rw [hdirty] at hclean
    cases hclean
  · rw [hsave] at h
    cases h
    exact ⟨rfl, hs, fun _ => (wrote_saved hhost hwrite hticks).backed hs⟩

/-- A save leaves the records as they are. -/
theorem records_save (s : FileStore) (t : τ) : ((s.save : StateM τ _).run t).1.2.records = s.records := by
  rcases save_cases s t with ⟨f, t₁, hfail⟩ | ⟨t₁, t₂, t₃, ticks, -, -, hsave⟩
  · rw [hfail]
  · rw [hsave]
    rfl

/-- A save that succeeded has written the records. -/
theorem wrote_of_save (hhost : Host.Steady τ s.path)
    (h : (s.save : StateM τ _).run t = ((.ok (), s'), t')) :
    s'.Wrote t' ∧ ∃ ticks, s' = s.saved ticks := by
  rcases save_cases s t with ⟨f, t₁, hfail⟩ | ⟨t₁, t₂, t₃, ticks, hwrite, hticks, hsave⟩
  · rw [hfail] at h
    cases h
  · rw [hsave] at h
    cases h
    exact ⟨wrote_saved hhost hwrite hticks, ticks, rfl⟩

/-- After a save that succeeded there is nothing to save. -/
theorem dirty_of_save (h : (s.save : StateM τ _).run t = ((.ok (), s'), t')) : s'.dirty = false := by
  rcases save_cases s t with ⟨f, t₁, hfail⟩ | ⟨t₁, t₂, t₃, ticks, -, -, hsave⟩
  · rw [hfail] at h
    cases h
  · rw [hsave] at h
    cases h
    rfl

/-! ### Calls -/

/-- A put looks at the clock, and then saves or does not. -/
theorem run_put (s : FileStore) (a b : Identity) (v : Verdict) (t : τ) :
    ∃ t₁, (s.put a b v : StateM τ _).run t = ((.ok (), s.withRecord a b v), t₁) ∨
      (s.put a b v : StateM τ _).run t = ((s.withRecord a b v).save : StateM τ _).run t₁ := by
  rcases hticks : (Host.ticks : StateM τ _).run t with ⟨ticks, t₁⟩
  refine ⟨t₁, ?_⟩
  rw [put, Host.run_bind_eq hticks]
  cases hdue : (s.withRecord a b v).isDue ticks with
  | true => exact .inr (by rw [if_pos rfl])
  | false => exact .inl (by rw [if_neg (by decide)]; rfl)

theorem records_put (s : FileStore) (a b : Identity) (v : Verdict) (t : τ) :
    ((s.put a b v : StateM τ _).run t).1.2.records = s.records.put a b v := by
  obtain ⟨t₁, hrun | hrun⟩ := run_put s a b v t
  · rw [hrun]
    rfl
  · rw [hrun, records_save]
    rfl

theorem Sound.put (h : Sound p s t) (hhost : Host.Steady τ p) (a b : Identity) {v : Verdict}
    (hv : v.Storable) {answer : Except StoreFault Unit}
    (hput : (s.put a b v : StateM τ _).run t = ((answer, s'), t')) : Sound p s' t' := by
  have hs : (s.withRecord a b v).records.Storable := h.storable.put a b hv
  obtain ⟨t₁, hrun | hrun⟩ := run_put s a b v t
  · rw [hrun] at hput
    cases hput
    exact ⟨h.path, hs, nofun⟩
  · rw [hrun] at hput
    exact Sound.save (s := s.withRecord a b v) hhost h.path hs rfl hput

/-- A flush of a store with nothing to save does nothing. -/
theorem run_flush_clean (h : s.dirty = false) (t : τ) :
    (s.flush : StateM τ _).run t = ((.ok (), s), t) := by
  unfold flush
  rw [if_neg (by simp [h])]
  rfl

theorem run_flush_dirty (h : s.dirty = true) (t : τ) :
    (s.flush : StateM τ _).run t = (s.save : StateM τ _).run t := by
  unfold flush
  rw [if_pos h]

theorem records_flush (s : FileStore) (t : τ) :
    ((s.flush : StateM τ _).run t).1.2.records = s.records := by
  cases hdirty : s.dirty with
  | true => rw [run_flush_dirty hdirty, records_save]
  | false => rw [run_flush_clean hdirty]

/-- Closing a store flushes it. -/
theorem run_close {answer : Except StoreFault Unit}
    (h : (s.flush : StateM τ _).run t = ((answer, s'), t')) :
    (s.close : StateM τ _).run t = ((), t') := by
  rw [close, Host.run_bind_eq h]
  rfl

theorem dirty_of_flush (h : (s.flush : StateM τ _).run t = ((.ok (), s'), t')) : s'.dirty = false := by
  cases hdirty : s.dirty with
  | true =>
      rw [run_flush_dirty hdirty] at h
      exact dirty_of_save h
  | false =>
      rw [run_flush_clean hdirty] at h
      cases h
      exact hdirty

theorem Sound.flush (h : Sound p s t) (hhost : Host.Steady τ p) {answer : Except StoreFault Unit}
    (hflush : (s.flush : StateM τ _).run t = ((answer, s'), t')) : Sound p s' t' := by
  cases hdirty : s.dirty with
  | true =>
      rw [run_flush_dirty hdirty] at hflush
      exact Sound.save hhost h.path h.storable hdirty hflush
  | false =>
      rw [run_flush_clean hdirty] at hflush
      cases hflush
      exact h

/-! ### Opening -/

/-- Opening a store either leaves the file that is there as it is, and if the store is opened it holds
what is read from the file, or there is none and one without records is written. -/
theorem open_cases (hhost : Host.Steady τ p) {interval : Nat} {answer : Except StoreFault FileStore}
    (h : (open? p interval : StateM τ _).run t = (answer, t')) :
    ((Host.look t p).1.isSome = true ∧ Host.look t' p = Host.look t p ∧
      ∀ s, answer = .ok s → s.path = p ∧ s.dirty = false ∧ s.Backed t') ∨
    ((Host.look t p).1 = none ∧ ∀ s, answer = .ok s → ∃ ticks t₁,
      ((FileStore.mk p .empty interval ticks false).save : StateM τ _).run t₁ = ((.ok (), s), t')) := by
  rcases hticks : (Host.ticks : StateM τ _).run t with ⟨ticks, t₁⟩
  rcases hthere : (Host.exists? p : StateM τ _).run t₁ with ⟨there, t₂⟩
  have hlook₁ := hhost.ticks t
  rw [hticks] at hlook₁
  obtain ⟨hlook₂, hsome⟩ := hhost.look_of_exists? hthere
  rw [hlook₁] at hlook₂ hsome
  rw [open?, Host.run_bind_eq hticks] at h
  dsimp only at h
  rw [Host.run_bind_eq hthere] at h
  cases there with
  | true =>
      refine .inl ⟨hsome, ?_⟩
      rcases hread : (Host.readText p : StateM τ _).run t₂ with ⟨got, t₃⟩
      have hlook₃ := (hhost.look_of_readText hread).trans hlook₂
      rw [if_pos rfl, Host.run_bind_eq hread] at h
      cases got with
      | error f =>
          obtain ⟨rfl, rfl⟩ := Prod.mk.inj h
          exact ⟨hlook₃, nofun⟩
      | ok text =>
          obtain ⟨content, hcontent, hdecode⟩ := Host.readText_eq_ok hread
          obtain ⟨rfl, rfl⟩ := Prod.mk.inj h
          refine ⟨hlook₃, ?_⟩
          intro s hs
          obtain ⟨rs, hrs, rfl⟩ := Except.map_eq_ok.mp hs
          obtain ⟨kind, hkind⟩ := Option.isSome_iff_exists.mp hsome
          refine ⟨rfl, rfl, kind, content, text, ?_, hdecode, hrs⟩
          rw [hlook₃]
          refine Prod.ext hkind ?_
          rw [← hlook₂]
          exact congrArg Prod.fst hcontent
  | false =>
      refine .inr ⟨Option.not_isSome_iff_eq_none.mp (by simp [hsome]), ?_⟩
      intro s hs
      rcases hsave : ((FileStore.mk p .empty interval ticks false).save : StateM τ _).run t₂ with
        ⟨⟨written, s₁⟩, t₃⟩
      rw [if_neg (by decide), Host.run_bind_eq hsave] at h
      obtain ⟨hopen, rfl⟩ := Prod.mk.inj h
      rw [hs] at hopen
      obtain ⟨_, rfl, rfl⟩ := Except.map_eq_ok.mp hopen
      exact ⟨ticks, t₂, hsave⟩

/-- **Whatever the file held, a store that was opened is backed by it.** -/
theorem sound_of_open (hhost : Host.Steady τ p) {interval : Nat}
    (h : (open? p interval : StateM τ _).run t = (.ok s, t')) : Sound p s t' ∧ s.dirty = false := by
  rcases open_cases hhost h with ⟨-, -, hopen⟩ | ⟨-, hopen⟩
  · obtain ⟨hpath, hclean, hbacked⟩ := hopen s rfl
    have hstorable : s.records.Storable := by
      obtain ⟨kind, content, text, -, -, hrecords⟩ := hbacked
      exact storable_of_recordsOf hrecords
    exact ⟨⟨hpath, hstorable, fun _ => hbacked⟩, hclean⟩
  · obtain ⟨ticks, t₁, hsave⟩ := hopen s rfl
    have hempty : Records.empty.Storable := ⟨Records.sorted_empty, List.forall_mem_nil _⟩
    obtain ⟨hwrote, ticks', rfl⟩ := wrote_of_save hhost hsave
    exact ⟨⟨rfl, hempty, fun _ => hwrote.backed hempty⟩, rfl⟩

/-- A store in a file that was opened, whatever the file held, and used since. -/
inductive InUse (p : Path) : FileStore → τ → Prop where
  | opened {s : FileStore} {interval : Nat} {t t' : τ}
      (run : (open? p interval : StateM τ _).run t = (.ok s, t')) : InUse p s t'
  | put {s s' : FileStore} {t t' : τ} {a b : Identity} {v : Verdict}
      {answer : Except StoreFault Unit} (use : InUse p s t) (storable : v.Storable)
      (run : (s.put a b v : StateM τ _).run t = ((answer, s'), t')) : InUse p s' t'
  | flush {s s' : FileStore} {t t' : τ} {answer : Except StoreFault Unit} (use : InUse p s t)
      (run : (s.flush : StateM τ _).run t = ((answer, s'), t')) : InUse p s' t'

theorem InUse.sound (h : InUse p s t) (hhost : Host.Steady τ p) : Sound p s t := by
  induction h with
  | opened run => exact (sound_of_open hhost run).1
  | put _ storable run ih => exact ih.put hhost _ _ storable run
  | flush _ run ih => exact ih.flush hhost run

/-- **A store that was closed with nothing left to save is opened again with its records.** -/
theorem exists_reopen (hhost : Host.Steady τ p) (h : Sound p s t) (hclean : s.dirty = false)
    (interval : Nat) : ∃ s' t', (do s.close; open? p interval : StateM τ _).run t = (.ok s', t') ∧
      s'.records = s.records ∧ s'.dirty = false ∧ Host.look t' p = Host.look t p := by
  obtain ⟨kind, content, text, hlook, hdecode, hrecords⟩ := h.backed hclean
  rw [h.path] at hlook hrecords
  have hclose := run_close (run_flush_clean hclean t)
  rcases hticks : (Host.ticks : StateM τ _).run t with ⟨ticks, t₁⟩
  have hlook₁ := hhost.ticks t
  rw [hticks, hlook] at hlook₁
  rcases hthere : (Host.exists? p : StateM τ _).run t₁ with ⟨there, t₂⟩
  obtain ⟨hlook₂, hsome⟩ := hhost.look_of_exists? hthere
  rw [hlook₁] at hlook₂ hsome
  obtain rfl : true = there := hsome
  have hread := Host.run_readText (congrArg Prod.snd hlook₂) hdecode
  have hlook₃ := (hhost.read t₂).trans (hlook₂.trans hlook.symm)
  refine ⟨⟨p, s.records, interval, ticks, false⟩, ((Host.read p : StateM τ _).run t₂).2, ?_, rfl,
    rfl, hlook₃⟩
  rw [Host.run_bind_eq hclose, open?, Host.run_bind_eq hticks]
  dsimp only
  rw [Host.run_bind_eq hthere, if_pos rfl, Host.run_bind_eq hread]
  dsimp only
  rw [hrecords]
  rfl

end FileStore

/-! ### One state -/

/-- A computation with a state of its own beside that of a host, as one with both as its state. -/
def flatten {α τ β : Type} (x : StateT α (StateM τ) β) : StateM (α × τ) β := fun (s, t) =>
  let ((b, s'), t') := (x.run s).run t
  (b, s', t')

theorem flatten_bind {α τ β γ : Type} (x : StateT α (StateM τ) β) (k : β → StateT α (StateM τ) γ) :
    flatten (x >>= k) = flatten x >>= fun b => flatten (k b) := rfl

theorem run_flatten {α τ β : Type} {x : StateT α (StateM τ) β} {y z : α × τ} {b : β}
    (h : (flatten x).run y = (b, z)) : (x.run y.1).run y.2 = ((b, z.1), z.2) := by
  obtain ⟨rfl, rfl⟩ := Prod.mk.inj h
  rfl

namespace VerdictStore

/-- A store with a state of its own beside that of a host, as one with both as its state. -/
def flat {α τ : Type} (store : VerdictStore (StateT α (StateM τ))) :
    VerdictStore (StateM (α × τ)) where
  get a b := flatten (store.get a b)
  put a b v := flatten (store.put a b v)
  flush := flatten store.flush

variable {τ : Type} [Host (StateM τ)]

/-- The store in a file, with the host, as a batch uses it. -/
def fileOn (τ : Type) [Host (StateM τ)] : VerdictStore (StateM (FileStore × τ)) :=
  (file : VerdictStore (StateT FileStore (StateM τ))).flat

theorem peek_fileOn (x : FileStore × τ) (a b : Identity) :
    (fileOn τ).peek x a b = x.1.records.get? a b := rfl

theorem run_put_fileOn {x y : FileStore × τ} {a b : Identity} {v : Verdict}
    {answer : Except StoreFault Unit} (h : ((fileOn τ).put a b v).run x = (answer, y)) :
    (x.1.put a b v : StateM τ _).run x.2 = ((answer, y.1), y.2) :=
  run_flatten (x := (file : VerdictStore (StateT FileStore (StateM τ))).put a b v) h

theorem run_flush_fileOn {x y : FileStore × τ} {answer : Except StoreFault Unit}
    (h : (fileOn τ).flush.run x = (answer, y)) :
    (x.1.flush : StateM τ _).run x.2 = ((answer, y.1), y.2) :=
  run_flatten (x := (file : VerdictStore (StateT FileStore (StateM τ))).flush) h

theorem records_put_fileOn (x : FileStore × τ) (a b : Identity) (v : Verdict) :
    (((fileOn τ).put a b v).run x).2.1.records = x.1.records.put a b v := by
  rcases hput : ((fileOn τ).put a b v).run x with ⟨answer, y⟩
  rw [← FileStore.records_put x.1 a b v x.2, run_put_fileOn hput]

theorem records_flush_fileOn (x : FileStore × τ) :
    ((fileOn τ).flush.run x).2.1.records = x.1.records := by
  rcases hflush : (fileOn τ).flush.run x with ⟨answer, y⟩
  rw [← FileStore.records_flush x.1 x.2, run_flush_fileOn hflush]

/-- A store in a file holds its records in memory. -/
theorem holds_fileOn : (fileOn τ).Holds (·.1.records) where
  peek _ _ _ := rfl
  get _ _ _ := rfl
  put := records_put_fileOn
  flush := records_flush_fileOn

theorem recalls_fileOn : (fileOn τ).Recalls := holds_fileOn.recalls

end VerdictStore

end Likeness
