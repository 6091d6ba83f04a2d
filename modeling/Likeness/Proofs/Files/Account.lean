import Likeness.Proofs.Files.Below
import Likeness.Proofs.Files.Loading
import Likeness.Proofs.Ordered

/-!
# Likeness.Proofs.Files.Account

What a loader without a cache comes to (`Loader.load_accounts`).

Every file that is asked for by name or found in a directory is in the account once, as a work of its
group or as a diagnostic, and so is every path given as a directory that is none. What is found in a
directory of a well-formed tree are the files below it that are served and not excluded, each once, in the
order of their paths (`Loader.candidates_found`).
-/

namespace Likeness.Loader

open FileTree Batch

variable {l : Loader} {t : FileTree} {d : Path} {paths files directories : List Path}

/-! ### Files, one after another -/

/-- The works of those files that can be loaded. -/
def worksOf (l : Loader) (t : FileTree) (paths : List Path) : List Work :=
  paths.filterMap fun p => (l.resultAt t p).toOption

/-- What went wrong with the others. -/
def faultsOf (l : Loader) (t : FileTree) (paths : List Path) : List LoadFault :=
  paths.filterMap fun p =>
    match l.resultAt t p with
    | .ok _ => none
    | .error f => some f

theorem account_of_ok {p : Path} {w : Work} (h : l.resultAt t p = .ok w) (ps : List Path) :
    l.worksOf t (p :: ps) = w :: l.worksOf t ps ∧ l.faultsOf t (p :: ps) = l.faultsOf t ps :=
  ⟨List.filterMap_cons_some (by rw [h]; rfl), List.filterMap_cons_none (by rw [h])⟩

theorem account_of_error {p : Path} {f : LoadFault} (h : l.resultAt t p = .error f)
    (ps : List Path) :
    l.worksOf t (p :: ps) = l.worksOf t ps ∧ l.faultsOf t (p :: ps) = f :: l.faultsOf t ps :=
  ⟨List.filterMap_cons_none (by rw [h]; rfl), List.filterMap_cons_some (by rw [h])⟩

/-- Every file gives a work or a fault. -/
theorem length_worksOf_add (l : Loader) (t : FileTree) (paths : List Path) :
    (l.worksOf t paths).length + (l.faultsOf t paths).length = paths.length := by
  induction paths with
  | nil => rfl
  | cons p ps ih =>
      cases hresult : l.resultAt t p with
      | ok w =>
          obtain ⟨hworks, hfaults⟩ := account_of_ok hresult ps
          rw [hworks, hfaults, List.length_cons, List.length_cons]
          omega
      | error f =>
          obtain ⟨hworks, hfaults⟩ := account_of_error hresult ps
          rw [hworks, hfaults, List.length_cons, List.length_cons]
          omega

/-- Files are loaded each for itself. -/
theorem run_loadMany (hcache : l.cache = none) (paths : List Path) (t : FileTree) :
    (l.loadMany paths : StateM FileTree _).run t = ((l.worksOf t paths, l.faultsOf t paths), t) := by
  induction paths with
  | nil => rfl
  | cons p ps ih =>
      rw [loadMany, Host.run_bind_eq (run_loadFile_of_uncached hcache p t), Host.run_bind_eq ih]
      cases hresult : l.resultAt t p with
      | ok w =>
          obtain ⟨hworks, hfaults⟩ := account_of_ok hresult ps
          rw [hworks, hfaults]
          rfl
      | error f =>
          obtain ⟨hworks, hfaults⟩ := account_of_error hresult ps
          rw [hworks, hfaults]
          rfl

/-! ### Directories -/

/-- Looking for files gives those that are found, or says that there is no directory. -/
theorem run_discover_found (l : Loader) (d : Path) (t : FileTree) :
    (l.discover d : StateM FileTree _).run t =
      (if t.kind? d = some .directory then .ok (l.found t d)
      else .error (.unreadable d (.other "not a directory")), t) := by
  rw [found, run_discover_eq]
  split <;> rfl

/-- What is found in a directory, in order. -/
structure Candidates (l : Loader) (t : FileTree) (d : Path) (paths : List Path) : Prop where
  run : (l.discover d : StateM FileTree _).run t = (.ok paths, t)
  ordered : paths.Pairwise (·.before · = true)
  /-- They are the files below the directory that are served and not excluded. -/
  mem : ∀ p, p ∈ paths ↔
    (∃ names, names ≠ [] ∧ (∀ name ∈ names, Plain name) ∧ p = below d names) ∧
      t.kind? p = some .file ∧ l.supports p = true ∧ l.exclude p = false

/-- Different paths that are sorted are in the strict order of paths. -/
theorem pairwise_before_mergeSort (h : paths.Pairwise fun p q => ¬ p.same q = true) :
    (paths.mergeSort fun p q => !(q.before p)).Pairwise (·.before · = true) := by
  refine Ordered.pairwise_mergeSort Path.before_asymm ?_ (h.imp ?_)
  · intro p q r hpq hqr
    simp only [Path.before, decide_eq_false_iff_not, not_lt] at *
    exact hpq.trans hqr
  · intro p q hne
    by_cases hbefore : q.before p = true
    · exact .inr hbefore
    · exact .inl (Path.before_of_not_same hne hbefore)

theorem found_eq (hd : t.kind? d = some .directory) : l.found t d =
    (((t.filesBelow d).map (below d)).filter l.wants).mergeSort fun a b => !(b.before a) := by
  rw [found, run_discover_eq, if_pos hd]

/-- **What is found in a directory** of a well-formed tree. -/
theorem candidates_found (ht : t.WellFormed) (hd : t.kind? d = some .directory) :
    l.Candidates t d (l.found t d) := by
  have hrun := l.run_discover_found d t
  rw [if_pos hd] at hrun
  have htext : d.text ≠ "" := by
    obtain ⟨g, htarget, -⟩ := kind?_eq_directory.mp hd
    intro hempty
    rw [target, if_pos hempty] at htarget
    cases htarget
  refine ⟨hrun, ?_, ?_⟩
  · rw [found_eq hd]
    refine pairwise_before_mergeSort (List.Pairwise.filter _ (List.pairwise_map.mpr ?_))
    refine (ht.nodup_filesBelow d).imp_of_mem fun {names names'} hnames hnames' hne hsame => hne ?_
    have hplain := ((ht.mem_filesBelow hd).mp hnames).2.1
    have hplain' := ((ht.mem_filesBelow hd).mp hnames').2.1
    exact Path.eq_of_same_below htext hplain hplain' hsame
  · intro p
    rw [found_eq hd, List.mem_mergeSort, List.mem_filter, List.mem_map, wants, Bool.and_eq_true,
      Bool.not_eq_true']
    constructor
    · rintro ⟨⟨names, hnames, rfl⟩, hwanted⟩
      obtain ⟨hne, hplain, hkind⟩ := (ht.mem_filesBelow hd).mp hnames
      exact ⟨⟨names, hne, hplain, rfl⟩, hkind, hwanted⟩
    · rintro ⟨⟨names, hne, hplain, rfl⟩, hkind, hwanted⟩
      exact ⟨⟨names, (ht.mem_filesBelow hd).mpr ⟨hne, hplain, hkind⟩, rfl⟩, hwanted⟩

/-- The groups of those paths that lead to a directory. -/
def groupsOf (l : Loader) (t : FileTree) (directories : List Path) : List Group :=
  (directories.filter (t.kind? · = some .directory)).map fun d =>
    ⟨d.text, l.worksOf t (l.found t d)⟩

theorem groupsOf_cons (l : Loader) (t : FileTree) (d : Path) (ds : List Path) :
    l.groupsOf t (d :: ds) =
      if t.kind? d = some .directory then ⟨d.text, l.worksOf t (l.found t d)⟩ :: l.groupsOf t ds
      else l.groupsOf t ds := by
  by_cases hd : t.kind? d = some .directory <;> simp [groupsOf, hd]

/-- What went wrong with a path given as a directory. -/
def faultsAt (l : Loader) (t : FileTree) (d : Path) : List LoadFault :=
  if t.kind? d = some .directory then l.faultsOf t (l.found t d)
  else [.unreadable d (.other "not a directory")]

/-- How much a path given as a directory adds to the account. -/
def share (l : Loader) (t : FileTree) (d : Path) : Nat :=
  if t.kind? d = some .directory then (l.found t d).length else 1

theorem run_loadDirectories (hcache : l.cache = none) (directories : List Path) (t : FileTree) :
    (l.loadDirectories directories : StateM FileTree _).run t =
      (⟨l.groupsOf t directories, directories.flatMap (l.faultsAt t)⟩, t) := by
  induction directories with
  | nil => rfl
  | cons d ds ih =>
      rw [loadDirectories, Host.run_bind_eq (l.run_discover_found d t), groupsOf_cons,
        List.flatMap_cons, faultsAt]
      by_cases hd : t.kind? d = some .directory
      · rw [if_pos hd, if_pos hd, if_pos hd]
        dsimp only
        rw [Host.run_bind_eq (run_loadMany hcache _ t), Host.run_bind_eq ih]
        rfl
      · rw [if_neg hd, if_neg hd, if_neg hd]
        dsimp only
        rw [Host.run_bind_eq ih]
        rfl

/-- A path given as a directory adds its share. -/
theorem count_directories (l : Loader) (t : FileTree) (directories : List Path) :
    ((l.groupsOf t directories).map fun g => g.works.length).sum +
      (directories.flatMap (l.faultsAt t)).length = (directories.map (l.share t)).sum := by
  induction directories with
  | nil => rfl
  | cons d ds ih =>
      rw [groupsOf_cons, List.flatMap_cons, List.length_append, List.map_cons, List.sum_cons, ← ih,
        faultsAt, share]
      by_cases hd : t.kind? d = some .directory
      · have hcount := l.length_worksOf_add t (l.found t d)
        rw [if_pos hd, if_pos hd, if_pos hd, ← hcount, List.map_cons, List.sum_cons]
        dsimp only
        omega
      · rw [if_neg hd, if_neg hd, if_neg hd, List.length_singleton]
        omega

/-! ### The account -/

/-- What was loaded accounts for every file and every path given as a directory. -/
structure Accounts (l : Loader) (t : FileTree) (files directories : List Path) (loaded : Loaded) :
    Prop where
  groups : loaded.groups =
    (if files = [] then [] else [⟨filesGroup, l.worksOf t files⟩]) ++ l.groupsOf t directories
  diagnostics : loaded.diagnostics = l.faultsOf t files ++ directories.flatMap (l.faultsAt t)
  count : (loaded.groups.map fun g => g.works.length).sum + loaded.diagnostics.length =
    files.length + (directories.map (l.share t)).sum

theorem exists_accounts (hcache : l.cache = none) (t : FileTree) (files directories : List Path) :
    ∃ loaded, (l.load files directories : StateM FileTree _).run t = (loaded, t) ∧
      l.Accounts t files directories loaded := by
  have hrun : (l.load files directories : StateM FileTree _).run t =
      (⟨(if files = [] then [] else [⟨filesGroup, l.worksOf t files⟩]) ++ l.groupsOf t directories,
        l.faultsOf t files ++ directories.flatMap (l.faultsAt t)⟩, t) := by
    rw [load]
    by_cases hfiles : files = []
    · rw [if_pos hfiles, if_pos hfiles, run_loadDirectories hcache, hfiles]
      rfl
    · rw [if_neg hfiles, if_neg hfiles, Host.run_bind_eq (run_loadMany hcache files t)]
      dsimp only
      rw [Host.run_bind_eq (run_loadDirectories hcache directories t)]
      rfl
  refine ⟨_, hrun, rfl, rfl, ?_⟩
  have hworks : ((if files = [] then [] else [(⟨filesGroup, l.worksOf t files⟩ : Group)]).map
      fun g => g.works.length).sum = (l.worksOf t files).length := by
    split
    next hfiles => rw [hfiles]; rfl
    next => simp
  have hfiles := l.length_worksOf_add t files
  have hdirectories := l.count_directories t directories
  rw [List.map_append, List.sum_append, List.length_append, hworks]
  omega

/-- **Everything that is asked for is accounted for once.** Take any extractors, any predicate for what is
not looked for, no cache, and any tree.

Loading changes nothing. It gives the group of the files that were asked for by name, if any, and then a
group for each path given as a directory that is one, in the order in which they were given. A group has
the works of those files that can be loaded, in the order in which they were given or found, and the
diagnostics say, in the order in which things were done, what went wrong with each of the others and with
each path that leads to no directory. Works and diagnostics together are as many as the files that were
given or found and the paths that lead to no directory.

What is found in a directory of a well-formed tree are the files below it that are served and not
excluded, in the strict order of their paths, so each once. -/
theorem load_accounts (hcache : l.cache = none) (t : FileTree) (files directories : List Path) :
    (∃ loaded, (l.load files directories : StateM FileTree _).run t = (loaded, t) ∧
      l.Accounts t files directories loaded) ∧
    (t.WellFormed → ∀ d, t.kind? d = some .directory → l.Candidates t d (l.found t d)) :=
  ⟨exists_accounts hcache t files directories, fun ht _ hd => candidates_found ht hd⟩

/-- Reads texts, but not empty ones. -/
def texts : Extractor where
  language := "text"
  extensions := ["txt"]
  extract text identity :=
    if text = "" then .error (.rejected identity.path "nothing to read")
    else .ok { Work.blank identity.path with identity }

/-- A loader of texts that passes over what is old. -/
def reader : Loader :=
  { Loader.empty.register texts with exclude := (excluding ["**/old/**"]).toOption.getD fun _ => false }

/-- A directory with two texts, an empty one, something else and something old, and a text beside it. -/
def desk : Except FileFault FileTree := do
  let t ← FileTree.empty.makeDirectories ⟨"essays/old"⟩
  let t ← t.write ⟨"essays/c.txt"⟩ "third".toUTF8
  let t ← t.write ⟨"essays/b.txt"⟩ "".toUTF8
  let t ← t.write ⟨"essays/a.txt"⟩ "first".toUTF8
  let t ← t.write ⟨"essays/a.pdf"⟩ "first".toUTF8
  let t ← t.write ⟨"essays/old/a.txt"⟩ "first".toUTF8
  t.write ⟨"note.txt"⟩ "note".toUTF8

theorem wellFormed_desk (h : desk = .ok t) : t.WellFormed := by
  obtain ⟨t₁, h₁, h⟩ := Except.bind_eq_ok.mp h
  obtain ⟨t₂, h₂, h⟩ := Except.bind_eq_ok.mp h
  obtain ⟨t₃, h₃, h⟩ := Except.bind_eq_ok.mp h
  obtain ⟨t₄, h₄, h⟩ := Except.bind_eq_ok.mp h
  obtain ⟨t₅, h₅, h⟩ := Except.bind_eq_ok.mp h
  obtain ⟨t₆, h₆, h⟩ := Except.bind_eq_ok.mp h
  have hmade := wellFormed_empty.makeDirectories h₁
  exact (((((hmade.write h₂).write h₃).write h₄).write h₅).write h₆).write h

/-- A file and a directory that are there, and one of each that is not. -/
theorem load_accounts_desk : ∃ (t : FileTree) (loaded : Loaded), desk = .ok t ∧
    (reader.load [⟨"note.txt"⟩, ⟨"note.pdf"⟩] [⟨"essays"⟩, ⟨"absent"⟩] : StateM FileTree _).run t =
      (loaded, t) ∧
    loaded.groups.map (fun g => (g.name, g.works.map Work.path)) =
      [("files", [⟨"note.txt"⟩]), ("essays", [⟨"essays/a.txt"⟩, ⟨"essays/c.txt"⟩])] ∧
    loaded.diagnostics = [.unsupported ⟨"note.pdf"⟩, .rejected ⟨"essays/b.txt"⟩ "nothing to read",
      .unreadable ⟨"absent"⟩ (.other "not a directory")] ∧
    (reader.found t ⟨"essays"⟩).Pairwise (·.before · = true) := by
  let files : List Path := [⟨"note.txt"⟩, ⟨"note.pdf"⟩]
  let essays : List Path := [⟨"essays/a.txt"⟩, ⟨"essays/b.txt"⟩, ⟨"essays/c.txt"⟩]
  have hfacts : desk.toOption.any (fun t => decide (
      t.kind? ⟨"essays"⟩ = some .directory ∧ t.kind? ⟨"absent"⟩ ≠ some .directory ∧
      ((t.filesBelow ⟨"essays"⟩).map (below ⟨"essays"⟩)).filter reader.wants = essays ∧
      (reader.worksOf t files).map Work.path = [⟨"note.txt"⟩] ∧
      reader.faultsOf t files = [.unsupported ⟨"note.pdf"⟩] ∧
      (reader.worksOf t essays).map Work.path = [⟨"essays/a.txt"⟩, ⟨"essays/c.txt"⟩] ∧
      reader.faultsOf t essays = [.rejected ⟨"essays/b.txt"⟩ "nothing to read"])) = true := by
    decide +kernel
  cases hdesk : desk with
  | error f =>
      rw [hdesk] at hfacts
      cases hfacts
  | ok t =>
      rw [hdesk] at hfacts
      obtain ⟨hthere, habsent, hbelow, hworks, hfaults, hessays, hbroken⟩ := of_decide_eq_true hfacts
      have hfound : reader.found t ⟨"essays"⟩ = essays := by
        rw [found_eq hthere, hbelow]
        exact List.mergeSort_of_pairwise (by decide +kernel)
      obtain ⟨⟨loaded, hrun, haccounts⟩, hcandidates⟩ :=
        load_accounts (l := reader) rfl t files [⟨"essays"⟩, ⟨"absent"⟩]
      refine ⟨t, loaded, rfl, hrun, ?_, ?_, (hcandidates (wellFormed_desk hdesk) _ hthere).ordered⟩
      · rw [haccounts.groups, if_neg (List.cons_ne_nil _ _), groupsOf_cons, if_pos hthere,
          groupsOf_cons, if_neg habsent, hfound, ← hworks, ← hessays]
        rfl
      · rw [haccounts.diagnostics, hfaults, List.flatMap_cons, List.flatMap_singleton, faultsAt,
          if_pos hthere, hfound, hbroken, faultsAt, if_neg habsent]
        rfl

end Likeness.Loader
