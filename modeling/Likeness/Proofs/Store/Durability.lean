import Likeness.Proofs.Store.Sessions

/-!
# Likeness.Proofs.Store.Durability

A store in a file loses nothing (`FileStore.nothing_lost`).

From opening it on a file that such a store has written, its records are those of the file with what was
put since laid over them, whether saving succeeds or not (`Records.mem_after_iff`). While the file does
not hold them there is something to save, and when saving has succeeded the store can be opened again
with the same records.
-/

namespace Likeness

/-! ### Members of records -/

/-- A record takes the place of the one with its key; all others stay. -/
theorem StoredVerdict.mem_insert_iff {records : List StoredVerdict}
    (h : records.Pairwise (StoredVerdict.before · · = true)) {s x : StoredVerdict} :
    x ∈ Ordered.insert StoredVerdict.before s records ↔ x = s ∨ x ∈ records ∧ x.key ≠ s.key := by
  induction records with
  | nil => simp [Ordered.insert]
  | cons t records ih =>
      obtain ⟨hfirst, hsorted⟩ := List.pairwise_cons.mp h
      rw [Ordered.insert]
      split
      next hst =>
        -- The record comes before all others, none of which has its key.
        have hnone : ∀ y ∈ t :: records, y.key ≠ s.key := by
          intro y hy
          rcases List.mem_cons.mp hy with rfl | hy
          · exact (key_ne_of_before hst).symm
          · exact (key_ne_of_before (before_trans hst (hfirst y hy))).symm
        rw [List.mem_cons]
        exact or_congr_right ⟨fun hx => ⟨hx, hnone x hx⟩, And.left⟩
      next hst =>
        split
        next hts =>
          have hne := key_ne_of_before hts
          rw [List.mem_cons, ih hsorted, List.mem_cons]
          grind
        next hts =>
          -- The first record has the key, and no other has.
          have hkey : s.key = t.key := Path.eq_of_not_keyBefore
            (Bool.eq_false_of_not_eq_true hst) (Bool.eq_false_of_not_eq_true hts)
          have hothers : ∀ y ∈ records, y.key ≠ s.key := fun y hy =>
            hkey ▸ (key_ne_of_before (hfirst y hy)).symm
          rw [List.mem_cons, List.mem_cons]
          grind

namespace Records

/-- Records in order with the same members are the same. -/
theorem Sorted.eq_of_mem_iff {rs rs' : Records} (h : rs.Sorted) (h' : rs'.Sorted)
    (hmem : ∀ x, x ∈ rs.toList ↔ x ∈ rs'.toList) : rs = rs' := by
  have hnodup {rs : Records} (h : rs.Sorted) : rs.toList.Nodup :=
    h.imp fun hxy heq => StoredVerdict.key_ne_of_before hxy (congrArg _ heq)
  have hperm := (List.perm_ext_iff_of_nodup (hnodup h) (hnodup h')).mpr hmem
  have hasymm (x y : StoredVerdict) (hxy : x.before y = true) (hyx : y.before x = true) : x = y :=
    absurd rfl (StoredVerdict.key_ne_of_before (StoredVerdict.before_trans hxy hyx))
  obtain ⟨records⟩ := rs
  obtain ⟨records'⟩ := rs'
  exact congrArg mk (hperm.eq_of_pairwise (fun x y _ _ => hasymm x y) h h')

end Records

/-- The record that some requests put last for a pair of paths. -/
def lastRecord? (requests : List Request) (pair : Sym2 (List (List Nat))) : Option StoredVerdict :=
  (requests.filterMap Request.record?).reverse.find? (·.pair = pair)

theorem lastRecord?_cons (request : Request) (requests : List Request)
    (pair : Sym2 (List (List Nat))) : lastRecord? (request :: requests) pair =
      (lastRecord? requests pair).or (request.record?.filter (·.pair = pair)) := by
  unfold lastRecord?
  cases hrecord : request.record? with
  | none => simp [hrecord]
  | some x =>
      rw [List.filterMap_cons_some hrecord, List.reverse_cons, List.find?_append, Option.filter_some]
      simp only [List.find?_singleton]

namespace Records

/-- **What is put is laid over what was there**, the last record for each pair. -/
theorem Tidy.mem_after_iff {rs : Records} (h : rs.Tidy) {requests : List Request}
    {x : StoredVerdict} : x ∈ (rs.after requests).toList ↔
      lastRecord? requests x.pair = some x ∨
        lastRecord? requests x.pair = none ∧ x ∈ rs.toList := by
  induction requests generalizing rs with
  | nil => simp [Records.after, lastRecord?]
  | cons request requests ih =>
      have hserve : (rs.serve request).Tidy := h.after [request]
      have hafter : rs.after (request :: requests) = (rs.serve request).after requests := rfl
      rw [lastRecord?_cons, hafter, ih hserve]
      cases hlast : lastRecord? requests x.pair with
      | some y => simp
      | none =>
          cases request with
          | get a b => simp [Request.record?, serve]
          | flush => simp [Request.record?, serve]
          | put a b v =>
              have hput : x ∈ (rs.serve (.put a b v)).toList ↔ x = .ofPair a b v ∨
                  x ∈ rs.toList ∧ x.key ≠ (StoredVerdict.ofPair a b v).key :=
                StoredVerdict.mem_insert_iff h.sorted
              have hkey (hx : x ∈ rs.toList) := (h.inOrder x hx).key_eq_iff
                (StoredVerdict.inOrder_ofPair a b v)
              rw [hput]
              by_cases hpair : (StoredVerdict.ofPair a b v).pair = x.pair
              · simp only [Request.record?, Option.filter_some, hpair]
                grind
              · simp only [Request.record?, Option.filter_some, hpair]
                grind

end Records

namespace FileStore

variable {τ : Type} [Host (StateM τ)] {p : Path} {rs : Records} {requests : List Request}
  {s s' : FileStore} {t t' : τ}

/-! ### Requests to a store in a file -/

/-- What puts and flushes keep, all requests keep. -/
theorem kept_answers {P : FileStore → τ → Prop} (h : P s t)
    (hput : ∀ a b v, .put a b v ∈ requests → ∀ {s s' t t' answer}, P s t →
      (s.put a b v : StateM τ _).run t = ((answer, s'), t') → P s' t')
    (hflush : ∀ {s s' t t' answer}, P s t →
      (s.flush : StateM τ _).run t = ((answer, s'), t') → P s' t')
    (hrun : (((VerdictStore.fileOn τ).answers requests).run (s, t)).2 = (s', t')) : P s' t' := by
  have hkept : P (((VerdictStore.fileOn τ).answers requests).run (s, t)).2.1
      (((VerdictStore.fileOn τ).answers requests).run (s, t)).2.2 := by
    refine VerdictStore.kept_answers (P := fun x : FileStore × τ => P x.1 x.2) ?_ h
    intro request hmem x hx
    cases request with
    | get a b => exact hx
    | put a b v =>
        rcases hrun : ((VerdictStore.fileOn τ).put a b v).run x with ⟨answer, y⟩
        rw [VerdictStore.run_ask_put, hrun]
        exact hput a b v hmem hx (VerdictStore.run_put_fileOn hrun)
    | flush =>
        rcases hrun : (VerdictStore.fileOn τ).flush.run x with ⟨answer, y⟩
        rw [VerdictStore.run_ask_flush, hrun]
        exact hflush hx (VerdictStore.run_flush_fileOn hrun)
  rw [hrun] at hkept
  exact hkept

theorem Sound.answers (h : Sound p s t) (hhost : Host.Steady τ p)
    (hstorable : ∀ a b v, .put a b v ∈ requests → v.Storable)
    (hrun : (((VerdictStore.fileOn τ).answers requests).run (s, t)).2 = (s', t')) :
    Sound p s' t' :=
  kept_answers h (fun a b v hmem _ _ _ _ _ hs hput => hs.put hhost a b (hstorable a b v hmem) hput)
    (fun hs hflush => hs.flush hhost hflush) hrun

/-- Without puts, a store with nothing to save stays as it is, and so does its host. -/
theorem answers_of_clean (hclean : s.dirty = false)
    (hputs : ∀ a b v, .put a b v ∉ requests)
    (hrun : (((VerdictStore.fileOn τ).answers requests).run (s, t)).2 = (s', t')) :
    s' = s ∧ t' = t := by
  refine kept_answers (P := fun s₁ t₁ => s₁ = s ∧ t₁ = t) ⟨rfl, rfl⟩ ?_ ?_ hrun
  · intro a b v hmem
    exact absurd hmem (hputs a b v)
  · rintro s₁ s₂ t₁ t₂ answer ⟨rfl, rfl⟩ hflush
    rw [run_flush_clean hclean] at hflush
    cases hflush
    exact ⟨rfl, rfl⟩

/-- There is something to save, or the file has the text of the records. -/
structure Written (p : Path) (s : FileStore) (t : τ) : Prop where
  path : s.path = p
  wrote : s.dirty = false → s.Wrote t

/-- A store that has something to save, after it tried. -/
theorem written_of_save (hhost : Host.Steady τ p) (hpath : s.path = p) (hdirty : s.dirty = true)
    {answer : Except StoreFault Unit} (h : (s.save : StateM τ _).run t = ((answer, s'), t')) :
    Written p s' t' := by
  subst hpath
  rcases save_cases s t with ⟨f, t₁, hfail⟩ | ⟨t₁, t₂, t₃, ticks, hwrite, hticks, hsave⟩
  · rw [hfail] at h
    cases h
    refine ⟨rfl, fun hclean => ?_⟩
    rw [hdirty] at hclean
    cases hclean
  · rw [hsave] at h
    cases h
    exact ⟨rfl, fun _ => wrote_saved hhost hwrite hticks⟩

theorem written_of_put (hhost : Host.Steady τ p) (hpath : s.path = p) {a b : Identity} {v : Verdict}
    {answer : Except StoreFault Unit} (h : (s.put a b v : StateM τ _).run t = ((answer, s'), t')) :
    Written p s' t' := by
  obtain ⟨t₁, hrun | hrun⟩ := run_put s a b v t
  · rw [hrun] at h
    cases h
    exact ⟨hpath, nofun⟩
  · rw [hrun] at h
    exact written_of_save (s := s.withRecord a b v) hhost hpath rfl h

theorem Written.flush (h : Written p s t) (hhost : Host.Steady τ p)
    {answer : Except StoreFault Unit} (hflush : (s.flush : StateM τ _).run t = ((answer, s'), t')) :
    Written p s' t' := by
  cases hdirty : s.dirty with
  | true =>
      rw [run_flush_dirty hdirty] at hflush
      exact written_of_save hhost h.path hdirty hflush
  | false =>
      rw [run_flush_clean hdirty] at hflush
      cases hflush
      exact h

theorem Written.answers (h : Written p s t) (hhost : Host.Steady τ p)
    (hrun : (((VerdictStore.fileOn τ).answers requests).run (s, t)).2 = (s', t')) :
    Written p s' t' :=
  kept_answers h (fun _ _ _ _ _ _ _ _ _ hs hput => written_of_put hhost hs.path hput)
    (fun hs hflush => hs.flush hhost hflush) hrun

/-- Once something was put, either there is something to save or the file has the text of the
records. -/
theorem written_of_answers (h : Sound p s t) (hhost : Host.Steady τ p)
    (hstorable : ∀ a b v, .put a b v ∈ requests → v.Storable) {a b : Identity} {v : Verdict}
    (hput : .put a b v ∈ requests)
    (hrun : (((VerdictStore.fileOn τ).answers requests).run (s, t)).2 = (s', t')) :
    Written p s' t' := by
  obtain ⟨before, after, rfl⟩ := List.append_of_mem hput
  have hbefore := h.answers hhost (fun a b v (hmem : .put a b v ∈ before) =>
    hstorable a b v (List.mem_append_left _ hmem)) rfl
  rw [VerdictStore.run_answers_append, VerdictStore.run_answers_cons,
    VerdictStore.run_ask_put] at hrun
  rcases hrun₁ : ((VerdictStore.fileOn τ).put a b v).run
    (((VerdictStore.fileOn τ).answers before).run (s, t)).2 with ⟨answer, y⟩
  rw [hrun₁] at hrun
  exact (written_of_put hhost hbefore.path (VerdictStore.run_put_fileOn hrun₁)).answers hhost hrun

/-! ### Sessions -/

/-- A store that was opened on a file that such a store has written, or on none, and has served some
requests since. The verdicts that were put can be written. -/
structure Session (p : Path) (t : τ) (rs : Records) (requests : List Request) (s : FileStore)
    (t' : τ) : Prop where
  finds : Finds p t rs
  storable : ∀ a b v, .put a b v ∈ requests → v.Storable
  served : ∃ interval s₀ t₀, (open? p interval : StateM τ _).run t = (.ok s₀, t₀) ∧
    (((VerdictStore.fileOn τ).answers requests).run (s₀, t₀)).2 = (s, t')

/-- What is found only depends on what is seen at the path. -/
theorem Finds.of_look (h : Finds p t rs) (hlook : Host.look t' p = Host.look t p) :
    Finds p t' rs := by
  cases h with
  | missing look => exact .missing (hlook ▸ look)
  | blank look decode blank => exact .blank (hlook.trans look) decode blank
  | written look dated => exact .written (hlook.trans look) dated

/-- A file with the text of what requests leave of records that were found can be found in turn. -/
theorem Finds.after (h : Finds p t rs) (hdated : ∀ a b v, .put a b v ∈ requests → v.Dated)
    {kind : FileKind} (hlook : Host.look t' p =
      (some kind, .ok (StoreDocument.ofRecords (rs.after requests)).toUTF8)) :
    Finds p t' (rs.after requests) := by
  have hbefore : ∃ before : List Request, rs = Records.empty.after before ∧
      ∀ a b v, .put a b v ∈ before → v.Dated := by
    cases h with
    | missing look => exact ⟨[], rfl, nofun⟩
    | blank look decode blank => exact ⟨[], rfl, nofun⟩
    | @written _ before look dated => exact ⟨before, rfl, dated⟩
  obtain ⟨before, rfl, hbefore⟩ := hbefore
  have happend : (Records.empty.after before).after requests =
      Records.empty.after (before ++ requests) := List.foldl_append.symm
  rw [happend] at hlook ⊢
  refine .written hlook ?_
  intro a b v hmem
  rcases List.mem_append.mp hmem with hmem | hmem
  · exact hbefore a b v hmem
  · exact hdated a b v hmem

namespace Session

theorem records_eq (h : Session p t rs requests s t') (hhost : Host.Steady τ p) :
    s.records = rs.after requests := by
  obtain ⟨interval, s₀, t₀, hopen, hrun⟩ := h.served
  obtain ⟨-, hrecords⟩ := VerdictStore.holds_fileOn.run_answers requests (s₀, t₀)
  rw [hrun, records_of_open hhost h.finds hopen] at hrecords
  exact hrecords

theorem sound (h : Session p t rs requests s t') (hhost : Host.Steady τ p) : Sound p s t' := by
  obtain ⟨interval, s₀, t₀, hopen, hrun⟩ := h.served
  exact (sound_of_open hhost hopen).1.answers hhost h.storable hrun

/-- If something was put, or there was no file, the file has the text of the records unless there is
something to save. -/
theorem written (h : Session p t rs requests s t') (hhost : Host.Steady τ p)
    (hchanged : (∃ a b v, .put a b v ∈ requests) ∨ (Host.look t p).1 = none) : Written p s t' := by
  obtain ⟨interval, s₀, t₀, hopen, hrun⟩ := h.served
  have hsound := (sound_of_open hhost hopen).1
  rcases hchanged with ⟨a, b, v, hput⟩ | hnone
  · exact written_of_answers hsound hhost h.storable hput hrun
  · refine Written.answers ⟨hsound.path, fun _ => ?_⟩ hhost hrun
    rcases open_cases hhost hopen with ⟨hsome, -⟩ | ⟨-, hsaved⟩
    · rw [hnone] at hsome
      cases hsome
    · obtain ⟨ticks, t₁, hsave⟩ := hsaved s₀ rfl
      exact (wrote_of_save hhost hsave).1

/-- Without puts, the store has what the file held, and a file that is there stays as it is. -/
theorem kept (h : Session p t rs requests s t') (hhost : Host.Steady τ p)
    (hputs : ∀ a b v, .put a b v ∉ requests) (hsome : (Host.look t p).1.isSome = true) :
    s.records = rs ∧ s.dirty = false ∧ Host.look t' p = Host.look t p := by
  obtain ⟨interval, s₀, t₀, hopen, hrun⟩ := h.served
  obtain ⟨rfl, rfl⟩ := answers_of_clean (sound_of_open hhost hopen).2 hputs hrun
  rcases open_cases hhost hopen with ⟨-, hlook, hopened⟩ | ⟨hnone, -⟩
  · exact ⟨records_of_open hhost h.finds hopen, (hopened s rfl).2.1, hlook⟩
  · rw [hnone] at hsome
    cases hsome

end Session

/-- What a session keeps. -/
structure Durable (p : Path) (t : τ) (rs : Records) (requests : List Request) (s : FileStore)
    (t' : τ) : Prop where
  /-- The store holds the record that was put last for a pair, and where none was put the record that
  the file held. -/
  records : ∀ x, x ∈ s.records.toList ↔ lastRecord? requests x.pair = some x ∨
    lastRecord? requests x.pair = none ∧ x ∈ rs.toList
  /-- If the file is not read as the records, there is something to save. -/
  dirty : ¬ s.Backed t' → s.dirty = true
  /-- When the last save succeeds, be it by a flush or as the store is closed, the store is opened again
  with the same records. -/
  reopened : ∀ s₁ t₁, (s.flush : StateM τ _).run t' = ((.ok (), s₁), t₁) →
    ∀ interval, ∃ s₂ t₂, (do s.close; open? p interval : StateM τ _).run t' = (.ok s₂, t₂) ∧
      (do s₁.close; open? p interval : StateM τ _).run t₁ = (.ok s₂, t₂) ∧ s₂.records = s.records
  /-- Then it is found again as a file that such a store has written. -/
  found : ∀ s₁ t₁, (s.flush : StateM τ _).run t' = ((.ok (), s₁), t₁) → Finds p t₁ s.records
  /-- If something was put, or there was no file before, it then has the text of the records. -/
  text : ∀ s₁ t₁, (s.flush : StateM τ _).run t' = ((.ok (), s₁), t₁) →
    (∃ a b v, .put a b v ∈ requests) ∨ (Host.look t p).1 = none →
    Host.look t₁ p = (some .file, .ok (StoreDocument.ofRecords s.records).toUTF8)

namespace Session

theorem text_of_flush (h : Session p t rs requests s t') (hhost : Host.Steady τ p) {s₁ : FileStore}
    {t₁ : τ} (hflush : (s.flush : StateM τ _).run t' = ((.ok (), s₁), t₁))
    (hchanged : (∃ a b v, .put a b v ∈ requests) ∨ (Host.look t p).1 = none) :
    Host.look t₁ p = (some .file, .ok (StoreDocument.ofRecords s.records).toUTF8) := by
  have hwritten := (h.written hhost hchanged).flush hhost hflush
  have hwrote := hwritten.wrote (dirty_of_flush hflush)
  have hrecords := records_flush s t'
  rw [hflush] at hrecords
  rw [Wrote, hwritten.path] at hwrote
  rw [hwrote]
  exact congrArg (fun rs => (_, Except.ok (StoreDocument.ofRecords rs).toUTF8)) hrecords

theorem durable (h : Session p t rs requests s t') (hhost : Host.Steady τ p) :
    Durable p t rs requests s t' where
  records x := by
    rw [h.records_eq hhost]
    exact h.finds.tidy.mem_after_iff
  dirty hbacked := by
    by_contra hclean
    exact hbacked ((h.sound hhost).backed (Bool.eq_false_of_not_eq_true hclean))
  reopened s₁ t₁ hflush interval := by
    have hclean := dirty_of_flush hflush
    obtain ⟨s₂, t₂, hreopen, hrecords, -, -⟩ :=
      exists_reopen hhost ((h.sound hhost).flush hhost hflush) hclean interval
    have hkept := records_flush s t'
    rw [hflush] at hkept
    refine ⟨s₂, t₂, ?_, hreopen, hrecords.trans hkept⟩
    rw [Host.run_bind_eq (run_close (run_flush_clean hclean t₁))] at hreopen
    rw [Host.run_bind_eq (run_close hflush), hreopen]
  found s₁ t₁ hflush := by
    by_cases hchanged : (∃ a b v, .put a b v ∈ requests) ∨ (Host.look t p).1 = none
    · have htext := h.text_of_flush hhost hflush hchanged
      rw [h.records_eq hhost] at htext ⊢
      exact h.finds.after (fun a b v hmem => (h.storable a b v hmem).dated) htext
    · rw [not_or, ← ne_eq, Option.ne_none_iff_isSome] at hchanged
      obtain ⟨hrecords, hclean, hlook⟩ := h.kept hhost
        (fun a b v hmem => hchanged.1 ⟨a, b, v, hmem⟩) hchanged.2
      rw [run_flush_clean hclean] at hflush
      cases hflush
      rw [hrecords]
      exact h.finds.of_look hlook
  text _ _ := h.text_of_flush hhost

end Session

/-- **A store in a file loses nothing.** On any host that keeps the file as it was written, whenever the
store saves and whether or not it can, a session keeps what `Durable` says, and the text of a file
depends only on the set of the records.

Whatever a file holds, it stays as it is when a store is opened on it, whether or not that succeeds, and
requests that put nothing and closing the store change neither the store nor anything on the host. -/
theorem nothing_lost (hhost : Host.Steady τ p) :
    (∀ (t : τ) rs requests s t', Session p t rs requests s t' → Durable p t rs requests s t') ∧
    (∀ (t₁ t₂ : τ) rs₁ rs₂ requests₁ requests₂ s₁ s₂ t₁' t₂', Session p t₁ rs₁ requests₁ s₁ t₁' →
      Session p t₂ rs₂ requests₂ s₂ t₂' → (∀ x, x ∈ s₁.records.toList ↔ x ∈ s₂.records.toList) →
      StoreDocument.ofRecords s₁.records = StoreDocument.ofRecords s₂.records) ∧
    ∀ (t : τ) interval answer t', (open? p interval : StateM τ _).run t = (answer, t') →
      (Host.look t p).1.isSome = true → Host.look t' p = Host.look t p ∧
      ∀ s, answer = .ok s → ∀ requests, (∀ a b v, .put a b v ∉ requests) →
        (((VerdictStore.fileOn τ).answers requests).run (s, t')).2 = (s, t') ∧
        (s.close : StateM τ _).run t' = ((), t') := by
  refine ⟨fun _ _ _ _ _ h => h.durable hhost, ?_, ?_⟩
  · intro t₁ t₂ rs₁ rs₂ requests₁ requests₂ s₁ s₂ t₁' t₂' h₁ h₂ hmem
    rw [(h₁.sound hhost).storable.sorted.eq_of_mem_iff (h₂.sound hhost).storable.sorted hmem]
  · intro t interval answer t' hopen hsome
    rcases open_cases hhost hopen with ⟨-, hlook, hopened⟩ | ⟨hnone, -⟩
    · refine ⟨hlook, ?_⟩
      intro s hs requests hputs
      obtain ⟨-, hclean, -⟩ := hopened s hs
      obtain ⟨hstore, hstate⟩ := answers_of_clean (t := t') hclean hputs rfl
      exact ⟨Prod.ext hstore hstate, run_close (run_flush_clean hclean t')⟩
    · rw [hnone] at hsome
      cases hsome

/-- A store that was opened in an empty tree, after some requests. -/
def sessionInTree (p : Path) (interval : Nat) (requests : List Request) :
    Option (FileStore × FileTree) :=
  match (open? p interval : StateM FileTree _).run .empty with
  | (.ok s, t) => some (((VerdictStore.fileOn FileTree).answers requests).run (s, t)).2
  | (.error _, _) => none

theorem session_inTree {p : Path} {interval : Nat} {requests : List Request} {s : FileStore}
    {t : FileTree} (hstorable : ∀ a b v, .put a b v ∈ requests → v.Storable)
    (hmissing : (Host.look FileTree.empty p).1 = none)
    (h : sessionInTree p interval requests = some (s, t)) :
    Session p FileTree.empty .empty requests s t := by
  rcases hopen : (open? p interval : StateM FileTree _).run .empty with ⟨answer, t₀⟩
  rw [sessionInTree, hopen] at h
  cases answer with
  | error f => cases h
  | ok s₀ => exact ⟨.missing hmissing, hstorable, interval, s₀, t₀, hopen, Option.some.inj h⟩

/-- The verdict that replaced another is only saved when the store is closed, and it is there when the
store is opened again. -/
theorem nothing_lost_replacement : ∃ s t' s₂ t₂,
    Session ⟨"store.json"⟩ FileTree.empty .empty replacement s t' ∧ s.dirty = true ∧
    (do s.close; open? ⟨"store.json"⟩ 60 : StateM FileTree _).run t' = (.ok s₂, t₂) ∧
    s₂.records.toList =
      [⟨⟨⟨"a"⟩, "1"⟩, ⟨⟨"b/."⟩, "3"⟩, .quick ⟨.zero, .one, .one, .one, .one⟩⟩] := by
  have heval : (sessionInTree ⟨"store.json"⟩ 60 replacement).any (fun x =>
      x.1.dirty && ((x.1.flush : StateM FileTree _).run x.2).1.1.toBool) = true := by
    decide +kernel
  cases hrun : sessionInTree ⟨"store.json"⟩ 60 replacement with
  | none =>
      rw [hrun] at heval
      cases heval
  | some x =>
      obtain ⟨s, t'⟩ := x
      rw [hrun] at heval
      obtain ⟨hdirty, hsaved⟩ := Bool.and_eq_true_iff.mp heval
      have hsession : Session ⟨"store.json"⟩ FileTree.empty .empty replacement s t' := by
        refine session_inTree ?_ rfl hrun
        intro a b v hmem
        have hzero : Binary64.zero.isFinite = true := by decide
        have hone : Binary64.one.isFinite = true := by decide
        simp only [replacement, List.mem_cons, Request.put.injEq, reduceCtorEq, false_or,
          List.not_mem_nil, or_false] at hmem
        rcases hmem with ⟨-, -, rfl⟩ | ⟨-, -, rfl⟩
        · exact ⟨hone, hone, hone, hone, hone⟩
        · exact ⟨hzero, hone, hone, hone, hone⟩
      have hdurable := (nothing_lost (FileTree.steady ⟨"store.json"⟩)).1 _ _ _ _ _ hsession
      rcases hflush : (s.flush : StateM FileTree _).run t' with ⟨⟨answer, s₁⟩, t₁⟩
      dsimp only at hsaved
      rw [hflush] at hsaved
      cases answer with
      | error f => cases hsaved
      | ok _ =>
          obtain ⟨s₂, t₂, hreopen, -, hrecords⟩ := hdurable.reopened s₁ t₁ hflush 60
          refine ⟨s, t', s₂, t₂, hsession, hdirty, hreopen, ?_⟩
          rw [hrecords, hsession.records_eq (FileTree.steady _)]
          decide +kernel

end FileStore

end Likeness
