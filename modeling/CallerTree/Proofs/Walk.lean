import Mathlib.Data.List.Nodup
import CallerTree.Proofs.FileTree
import CallerTree.Proofs.Run
import CallerTree.SourceTree.Files

/-!
# What a walk lists

A walk goes through a source tree of any depth and decides at each entry what to do: a file is
listed or passed over, a folder is entered or left out with everything in it, a link is passed over.
So a pattern that matches a folder leaves out everything below it, even where it does not match the
files themselves. `Admits` states this rule for a single path, without the walk.

## What is listed, and in which order

What a walk lists at and below an entry is said by `mem_listed_visits_iff`, and the order by
`pairwise_listed_visits`. That only admitted paths are listed, and none of them twice, follows from
these two. Both rest on `Entry.IsSound`: a folder with an entry called `a/b` would hide the folder
`a` from the patterns, and of two entries with one name the second could not be reached.

## Main definitions

* `SourceTree.IsEntered` — the rule for a folder
* `SourceTree.IsFolderOn`, `SourceTree.Admits` — the rule for one path
* `Path.Precedes` — the order of a walk, for two lists of names
* `SourceTree.listing` — the paths that are listed, as a function of the files

## Main results

* `SourceTree.mem_listed_visits_iff`, `SourceTree.pairwise_listed_visits` — what is listed at and
  below an entry, and in which order
* `SourceTree.admits_of_mem_files` — the walk lists admitted paths only
* `SourceTree.exists_components_of_mem_files` — the listed paths in terms of names
* `SourceTree.does_files` — an enumeration does nothing but list the paths
* `SourceTree.nodup_files` — no path is listed twice
-/

namespace CallerTree

/-! ### The order of names -/

theorem Text.byteLE_iff {s t : Text} : s.byteLE t = true ↔ s.utf8 ≤ t.utf8 := by
  rw [byteLE, Bool.not_eq_true', ← Bool.not_eq_true, List.lex_eq_true_iff_lt, List.not_lt]

theorem Text.byteLE_trans {s t u : Text} (hst : s.byteLE t = true) (htu : t.byteLE u = true) :
    s.byteLE u = true := by
  rw [byteLE_iff] at hst htu ⊢
  exact List.le_trans hst htu

theorem Text.byteLE_total (s t : Text) : (s.byteLE t || t.byteLE s) = true := by
  rw [Bool.or_eq_true, byteLE_iff, byteLE_iff]
  exact List.le_total _ _

/-- The ways down part at some folder, and there `cs` goes on with the smaller name by its bytes. -/
def Path.Precedes (cs ds : List Text) : Prop :=
  ∃ common c d, (c ≠ d ∧ c.byteLE d = true) ∧ common ++ [c] <+: cs ∧ common ++ [d] <+: ds

theorem Path.Precedes.ne {cs ds : List Text} (h : Precedes cs ds) : cs ≠ ds := by
  rintro rfl
  obtain ⟨common, c, d, ⟨hne, -⟩, hc, hd⟩ := h
  have hsame := (List.prefix_of_prefix_length_le hc hd (by simp)).eq_of_length (by simp)
  exact hne (by simpa using hsame)

namespace SourceTree

/-- The folder at `cs` below the root is entered: it belongs to no version control system, and no
pattern matches its path. The root itself is always entered. -/
def IsEntered (tree : SourceTree) (cs : List Text) : Prop :=
  ∀ above folder, cs = above ++ [folder] →
    folder ∉ ([".git", ".hg", ".svn"] : List Text) ∧
      tree.excludes? (Path.ofComponents false cs) = false

/-- The folder `d` lies below the root on the way to `path`. -/
def IsFolderOn (d path : Text) : Prop :=
  ∃ cs, cs ≠ [] ∧ cs <+: Path.components path ∧ cs ≠ Path.components path ∧
    Text.ofString ".." ∉ cs ∧ d = Path.ofComponents false cs

/-- No exclude pattern matches the path or a folder on the way to it. -/
def Admits (tree : SourceTree) (path : Text) : Prop :=
  tree.excludes? path = false ∧ ∀ d, IsFolderOn d path → tree.excludes? d = false

/-! ### The visits of a walk -/

variable {tree : SourceTree} {includeHeaders : Bool}

theorem visitsBelow_eq_map (path : Text) (entries : List (Text × Entry)) :
    visitsBelow tree includeHeaders path entries =
      entries.map fun p =>
        (p.1, visits tree includeHeaders (Path.join path p.1) p.1 false p.2) := by
  induction entries with
  | nil => rw [visitsBelow, List.map_nil]
  | cons p entries ih => rw [visitsBelow, List.map_cons, ih]

theorem mem_inNameOrder_visitsBelow {path : Text} {entries : List (Text × Entry)} {v : Visit} :
    v ∈ inNameOrder (visitsBelow tree includeHeaders path entries) ↔
      ∃ p ∈ entries, v ∈ visits tree includeHeaders (Path.join path p.1) p.1 false p.2 := by
  simp [inNameOrder, visitsBelow_eq_map]

variable {root cs : List Text} {name path : Text}

theorem relative_ofComponents (hroot : tree.root = Path.ofComponents true root)
    (hnames : ∀ c ∈ root, Path.IsName c) (hcs : ∀ c ∈ cs, Path.IsName c) :
    tree.relative (Path.ofComponents true (root ++ cs)) = Path.ofComponents false cs := by
  rw [relative, hroot, Path.relativeTo_ofComponents hnames hcs]

/-! ### What is listed -/

/-- The paths of the listed visits. -/
def listed (vs : List Visit) : List Text := (vs.filter (·.isListed)).map (·.path)

theorem listed_cons_false (path : Text) (vs : List Visit) :
    listed (⟨path, false⟩ :: vs) = listed vs := rfl

theorem mem_listed_iff {vs : List Visit} {path : Text} :
    path ∈ listed vs ↔ ∃ v ∈ vs, v.isListed = true ∧ v.path = path := by
  simp [listed, and_assoc]

theorem listed_flatMap {α : Type} (f : α → List Visit) (as : List α) :
    listed (as.flatMap f) = as.flatMap fun a => listed (f a) := by
  simp only [listed, List.filter_flatMap, List.map_flatMap]

/-- The walk enters the folders that are to be entered. -/
theorem isEntered_iff (hroot : tree.root = Path.ofComponents true root)
    (hnames : ∀ c ∈ root, Path.IsName c) (hcs : ∀ c ∈ cs, Path.IsName c)
    (hname : ∀ above folder, cs = above ++ [folder] → folder = name) :
    tree.IsEntered cs ↔
      ¬ (!cs.isEmpty && tree.prunes (Path.ofComponents true (root ++ cs)) name) = true := by
  rcases List.eq_nil_or_concat cs with rfl | ⟨above, folder, rfl⟩
  · simp [IsEntered]
  · rw [List.concat_eq_append] at hcs hname ⊢
    obtain rfl := hname above folder rfl
    have hbelow : (above ++ [folder]).isEmpty = false := by simp
    rw [prunes, relative_ofComponents hroot hnames hcs, hbelow, Bool.not_false, Bool.true_and,
      Bool.or_eq_true, List.contains_iff_mem, not_or, Bool.not_eq_true]
    constructor
    · exact fun h => h above folder rfl
    · rintro h above' folder' heq
      obtain ⟨rfl, hlast⟩ := List.append_inj' heq rfl
      obtain rfl := List.singleton_inj.mp hlast
      exact h

theorem eq_of_concat_eq (name : Text) :
    ∀ above folder, cs ++ [name] = above ++ [folder] → folder = name := fun _ _ heq =>
  (List.singleton_inj.mp (List.append_inj_right' heq rfl)).symm

/-- One step down: a path is listed at a folder if the folder is entered, and the path is listed at
one of its entries. -/
theorem mem_listed_folder_iff (hroot : tree.root = Path.ofComponents true root)
    (hnames : ∀ c ∈ root, Path.IsName c) (hcs : ∀ c ∈ cs, Path.IsName c)
    (hname : ∀ above folder, cs = above ++ [folder] → folder = name)
    {entries : List (Text × Entry)} (hentries : ∀ p ∈ entries, Path.IsName p.1) :
    path ∈ listed (visits tree includeHeaders (Path.ofComponents true (root ++ cs)) name cs.isEmpty
        (.folder entries)) ↔
      tree.IsEntered cs ∧ ∃ p ∈ entries, path ∈ listed (visits tree includeHeaders
        (Path.ofComponents true (root ++ (cs ++ [p.1]))) p.1 (cs ++ [p.1]).isEmpty p.2) := by
  have hjoin := fun p hp => Path.join_ofComponents_append hnames hcs (hentries p hp)
  have hlower : ∀ p : Text × Entry, (cs ++ [p.1]).isEmpty = false := fun p => by simp
  rw [isEntered_iff hroot hnames hcs hname, visits]
  constructor
  · intro h
    obtain ⟨v, hv, hlisted, rfl⟩ := mem_listed_iff.mp h
    rcases List.mem_cons.mp hv with rfl | hv
    · cases hlisted
    · split at hv
      · simp at hv
      · rename_i hentered
        obtain ⟨p, hp, hv⟩ := mem_inNameOrder_visitsBelow.mp hv
        rw [hjoin p hp, ← hlower p] at hv
        exact ⟨hentered, p, hp, mem_listed_iff.mpr ⟨v, hv, hlisted, rfl⟩⟩
  · rintro ⟨hentered, p, hp, h⟩
    obtain ⟨v, hv, hlisted, rfl⟩ := mem_listed_iff.mp h
    rw [hlower p, ← hjoin p hp] at hv
    rw [if_neg hentered]
    exact mem_listed_iff.mpr ⟨v, List.mem_cons_of_mem _
      (mem_inNameOrder_visitsBelow.mpr ⟨p, hp, hv⟩), hlisted, rfl⟩

/-- What is listed at and below an entry at `cs`: the files that belong to the tree, if all folders
from `cs` on are entered. -/
theorem mem_listed_visits_iff (hroot : tree.root = Path.ofComponents true root)
    (hnames : ∀ c ∈ root, Path.IsName c) {e : Entry} (he : e.IsSound) :
    ∀ (cs : List Text) (name : Text), (∀ c ∈ cs, Path.IsName c) →
      (∀ above folder, cs = above ++ [folder] → folder = name) →
      (path ∈ listed (visits tree includeHeaders (Path.ofComponents true (root ++ cs)) name
          cs.isEmpty e) ↔
        ∃ ds, path = Path.ofComponents true (root ++ (cs ++ ds)) ∧
          (∃ mode data, e.get? ds = some (.file mode data)) ∧
          tree.lists includeHeaders path = true ∧
          ∀ above, above <+: ds → above ≠ ds → tree.IsEntered (cs ++ above)) := by
  induction he with
  | link =>
    intro cs name _ _
    refine iff_of_false (by simp [mem_listed_iff, visits]) ?_
    rintro ⟨_ | _, -, ⟨_, _, ⟨⟩⟩, -⟩
  | file =>
    intro cs name _ _
    simp only [mem_listed_iff, visits, List.mem_singleton, exists_eq_left]
    constructor
    · rintro ⟨hlisted, rfl⟩
      exact ⟨[], by rw [List.append_nil], ⟨_, _, rfl⟩, hlisted, fun above hle hne =>
        absurd (List.prefix_nil.mp hle) hne⟩
    · rintro ⟨_ | _, rfl, ⟨_, _, ⟨⟩⟩, hlisted, -⟩
      rw [List.append_nil] at hlisted ⊢
      exact ⟨hlisted, rfl⟩
  | @folder entries hentries hdistinct _ ih =>
    intro cs name hcs hname
    have hlower : ∀ p ∈ entries, ∀ c ∈ cs ++ [p.1], Path.IsName c := fun p hp =>
      List.forall_mem_append.mpr ⟨hcs, List.forall_mem_singleton.mpr (hentries p hp)⟩
    have hbelow := fun p hp => ih p hp (cs ++ [p.1]) p.1 (hlower p hp) (eq_of_concat_eq p.1)
    rw [mem_listed_folder_iff hroot hnames hcs hname hentries]
    constructor
    · rintro ⟨hentered, p, hp, hpath⟩
      obtain ⟨ds, hpath, ⟨mode, data, hfile⟩, hlists, habove⟩ := (hbelow p hp).mp hpath
      rw [List.append_assoc, List.singleton_append] at hpath
      have hfile' : (Entry.folder entries).get? (p.1 :: ds) = some (.file mode data) := by
        rw [Entry.get?_cons, Entry.child?_of_mem hdistinct hp]
        exact hfile
      refine ⟨p.1 :: ds, hpath, ⟨mode, data, hfile'⟩, hlists, fun above hle hne => ?_⟩
      cases above with
      | nil => rwa [List.append_nil]
      | cons a above =>
        obtain ⟨rfl, hrest⟩ := List.cons_prefix_cons.mp hle
        rw [List.append_cons]
        exact habove above hrest fun heq => hne (by rw [heq])
    · rintro ⟨_ | ⟨d, ds⟩, hpath, ⟨mode, data, hfile⟩, hlists, habove⟩
      · cases hfile
      · rw [Entry.get?_cons, Option.bind_eq_some_iff] at hfile
        obtain ⟨f, hchild, hfile⟩ := hfile
        have hp := Entry.mem_of_child? hchild
        have hentered := habove [] List.nil_prefix (List.cons_ne_nil d ds).symm
        rw [List.append_nil] at hentered
        refine ⟨hentered, (d, f), hp, (hbelow _ hp).mpr
          ⟨ds, ?_, ⟨mode, data, hfile⟩, hlists, fun above hle hne => ?_⟩⟩
        · rw [hpath, List.append_assoc, List.singleton_append]
        · rw [← List.append_cons]
          exact habove (d :: above) (List.cons_prefix_cons.mpr ⟨rfl, hle⟩) fun heq =>
            hne (List.cons.inj heq).2

/-! ### The order -/

/-- Every visit at or below an entry is at the entry's path or some names further down. -/
theorem exists_components_of_mem_visits (hnames : ∀ c ∈ root, Path.IsName c) {e : Entry}
    (he : e.IsSound) :
    ∀ (cs : List Text) (name : Text) (isRoot : Bool), (∀ c ∈ cs, Path.IsName c) →
      ∀ v ∈ visits tree includeHeaders (Path.ofComponents true (root ++ cs)) name isRoot e,
        ∃ ds, (∀ d ∈ cs ++ ds, Path.IsName d) ∧
          v.path = Path.ofComponents true (root ++ (cs ++ ds)) := by
  induction he with
  | link =>
    intro cs name isRoot hcs v hv
    rw [visits, List.mem_singleton] at hv
    exact ⟨[], by simpa using hcs, by simp [hv]⟩
  | file =>
    intro cs name isRoot hcs v hv
    rw [visits, List.mem_singleton] at hv
    exact ⟨[], by simpa using hcs, by simp [hv]⟩
  | folder hentries _ _ ih =>
    intro cs name isRoot hcs v hv
    rw [visits] at hv
    rcases List.mem_cons.mp hv with rfl | hv
    · exact ⟨[], by simpa using hcs, by simp⟩
    · split at hv
      · simp at hv
      · obtain ⟨p, hp, hv⟩ := mem_inNameOrder_visitsBelow.mp hv
        have hbelow : ∀ c ∈ cs ++ [p.1], Path.IsName c :=
          List.forall_mem_append.mpr ⟨hcs, List.forall_mem_singleton.mpr (hentries p hp)⟩
        rw [Path.join_ofComponents_append hnames hcs (hentries p hp)] at hv
        obtain ⟨ds, hds, hpath⟩ := ih p hp (cs ++ [p.1]) p.1 false hbelow v hv
        exact ⟨p.1 :: ds, by simpa using hds, by simpa using hpath⟩

/-- The names of an entry stand in front of those of everything that is met at or below it. -/
theorem prefix_components_of_mem_visits (hnames : ∀ c ∈ root, Path.IsName c) {e : Entry}
    (he : e.IsSound) (hcs : ∀ c ∈ cs, Path.IsName c) {name : Text} {isRoot : Bool} {v : Visit}
    (hv : v ∈ visits tree includeHeaders (Path.ofComponents true (root ++ cs)) name isRoot e) :
    root ++ cs <+: Path.components v.path := by
  obtain ⟨ds, hds, hpath⟩ := exists_components_of_mem_visits hnames he cs name isRoot hcs v hv
  rw [hpath, Path.components_ofComponents (List.forall_mem_append.mpr ⟨hnames, hds⟩),
    ← List.append_assoc]
  exact List.prefix_append _ _

/-- Everything met below one entry of a folder precedes everything met below another one, if the
name is smaller. -/
theorem precedes_of_mem_visits (hnames : ∀ c ∈ root, Path.IsName c)
    (hcs : ∀ c ∈ cs, Path.IsName c) {p q : Text × Entry} (hp : Path.IsName p.1 ∧ p.2.IsSound)
    (hq : Path.IsName q.1 ∧ q.2.IsSound) (hlt : p.1 ≠ q.1 ∧ p.1.byteLE q.1 = true) {v v' : Visit}
    (hv : v ∈ visits tree includeHeaders (Path.ofComponents true (root ++ (cs ++ [p.1]))) p.1
      false p.2)
    (hv' : v' ∈ visits tree includeHeaders (Path.ofComponents true (root ++ (cs ++ [q.1]))) q.1
      false q.2) :
    Path.Precedes (Path.components v.path) (Path.components v'.path) := by
  have hbelow : ∀ {c : Text}, Path.IsName c → ∀ d ∈ cs ++ [c], Path.IsName d := fun hc =>
    List.forall_mem_append.mpr ⟨hcs, List.forall_mem_singleton.mpr hc⟩
  have hle := prefix_components_of_mem_visits hnames hp.2 (hbelow hp.1) hv
  have hle' := prefix_components_of_mem_visits hnames hq.2 (hbelow hq.1) hv'
  rw [← List.append_assoc] at hle hle'
  exact ⟨root ++ cs, p.1, q.1, hlt, hle, hle'⟩

/-- Distinct names that are sorted are in strict order. -/
theorem pairwise_mergeSort_byteLE {children : List (Text × List Visit)}
    (h : children.Pairwise fun a b => a.1 ≠ b.1) :
    (children.mergeSort fun a b => a.1.byteLE b.1).Pairwise fun a b =>
      a.1 ≠ b.1 ∧ a.1.byteLE b.1 = true := by
  have hsorted : (children.mergeSort fun a b => a.1.byteLE b.1).Pairwise fun a b =>
      a.1.byteLE b.1 = true := by
    apply List.pairwise_mergeSort
    · exact fun a b c hab hbc => Text.byteLE_trans hab hbc
    · exact fun a b => Text.byteLE_total a.1 b.1
  exact (((List.mergeSort_perm _ _).pairwise_iff Ne.symm).mpr h).and hsorted

/-- The walk lists paths in its order. -/
theorem pairwise_listed_visits (hnames : ∀ c ∈ root, Path.IsName c) {e : Entry} (he : e.IsSound) :
    ∀ (cs : List Text) (name : Text) (isRoot : Bool), (∀ c ∈ cs, Path.IsName c) →
      (listed (visits tree includeHeaders (Path.ofComponents true (root ++ cs)) name isRoot
        e)).Pairwise fun p q => Path.Precedes (Path.components p) (Path.components q) := by
  induction he with
  | link =>
    intro cs name isRoot _
    simp [listed, visits]
  | file =>
    intro cs name isRoot _
    rw [visits]
    cases hlisted : tree.lists includeHeaders (Path.ofComponents true (root ++ cs)) with
    | false => exact .nil
    | true => exact List.pairwise_singleton _ _
  | @folder entries hentries hunique hbelow ih =>
    intro cs name isRoot hcs
    have hlower : ∀ p ∈ entries, ∀ c ∈ cs ++ [p.1], Path.IsName c := fun p hp =>
      List.forall_mem_append.mpr ⟨hcs, List.forall_mem_singleton.mpr (hentries p hp)⟩
    have hjoin := fun p hp => Path.join_ofComponents_append hnames hcs (hentries p hp)
    rw [visits, listed_cons_false]
    split
    · exact .nil
    · rw [inNameOrder, listed_flatMap, List.pairwise_flatMap]
      constructor
      · intro c hc
        rw [List.mem_mergeSort, visitsBelow_eq_map, List.mem_map] at hc
        obtain ⟨p, hp, rfl⟩ := hc
        rw [hjoin p hp]
        exact ih p hp _ _ _ (hlower p hp)
      · have hne : (visitsBelow tree includeHeaders (Path.ofComponents true (root ++ cs))
            entries).Pairwise fun a b => a.1 ≠ b.1 := by
          rw [visitsBelow_eq_map, List.pairwise_map]
          exact List.pairwise_map.mp hunique
        refine (pairwise_mergeSort_byteLE hne).imp_of_mem
          fun {a b} ha hb hlt path hpath path' hpath' => ?_
        rw [List.mem_mergeSort, visitsBelow_eq_map, List.mem_map] at ha hb
        obtain ⟨p, hp, rfl⟩ := ha
        obtain ⟨q, hq, rfl⟩ := hb
        obtain ⟨v, hv, -, rfl⟩ := mem_listed_iff.mp hpath
        obtain ⟨v', hv', -, rfl⟩ := mem_listed_iff.mp hpath'
        rw [hjoin p hp] at hv
        rw [hjoin q hq] at hv'
        exact precedes_of_mem_visits hnames hcs ⟨hentries p hp, hbelow p hp⟩
          ⟨hentries q hq, hbelow q hq⟩ hlt hv hv'

/-! ### Collecting -/

theorem eq_of_collect {vs : List Visit} {w w' : World} {paths : List Text}
    (h : collect vs w = .ok paths w') :
    paths = listed vs ∧ w'.files = w.files := by
  induction vs generalizing w paths w' with
  | nil =>
    obtain ⟨rfl, rfl⟩ := Run.pure_ok_iff.mp h
    exact ⟨rfl, rfl⟩
  | cons v vs ih =>
    simp only [collect, Run.bind_ok_iff, Run.check_ok_iff, Run.pure_ok_iff] at h
    obtain ⟨_, _, ⟨-, rfl⟩, rest, u, hrest, rfl, rfl⟩ := h
    obtain ⟨rfl, hfiles⟩ := ih hrest
    refine ⟨?_, hfiles.trans rfl⟩
    rw [listed, listed, List.filter_cons]
    split <;> rfl

/-- A walk that succeeds has collected the visits at the root's entry. -/
theorem exists_collect_of_files {w w' : World} {paths : List Text}
    (h : tree.files includeHeaders w = .ok paths w') :
    ∃ e, w.files.lstat tree.root = .ok e ∧
      collect (visits tree includeHeaders tree.root (Path.base tree.root) true e) w =
        .ok paths w' := by
  simp only [files, Run.bind_ok_iff] at h
  obtain ⟨found, v, hfound, h⟩ := h
  cases found with
  | error e => exact (Run.throw_ok_iff.mp h).elim
  | ok paths' =>
    obtain ⟨rfl, rfl⟩ := Run.pure_ok_iff.mp h
    simp only [Run.attempt_ok_iff, Run.bind_ok_iff, Run.files_ok_iff] at hfound
    obtain ⟨fs, u, ⟨rfl, rfl⟩, hfound⟩ := hfound
    cases hentry : w.files.lstat tree.root with
    | error e =>
      rw [hentry] at hfound
      exact (Run.throw_ok_iff.mp hfound).elim
    | ok e =>
      rw [hentry] at hfound
      exact ⟨e, rfl, hfound⟩

/-! ### A walk in a steady world -/

section Steady

/-- What an enumeration of these files gives: the listed visits at the entry of the root, or why
there is no such entry. -/
def listing (tree : SourceTree) (includeHeaders : Bool) (fs : FileSystem) :
    Except Failure (List Text) :=
  ((fs.lstat tree.root).map fun e =>
    listed (visits tree includeHeaders tree.root (Path.base tree.root) true e)).mapError fun e =>
      .under ("enumerate " ++ tree.root) (.message e)

theorem does_collect (fs : FileSystem) (vs : List Visit) :
    Run.Does fs (collect vs) (.ok (listed vs)) {} fs := by
  unfold listed
  induction vs with
  | nil => exact .pure _
  | cons v vs ih =>
    refine Run.Does.check.bind_of_silent (ih.bind_of_silent ?_)
    cases hlisted : v.isListed with
    | true =>
      rw [List.filter_cons_of_pos hlisted]
      exact .pure _
    | false =>
      rw [List.filter_cons_of_neg (by simp [hlisted])]
      exact .pure _

/-- An enumeration does nothing but list the paths. -/
theorem does_files (tree : SourceTree) (includeHeaders : Bool) (fs : FileSystem) :
    Run.Does fs (tree.files includeHeaders) (tree.listing includeHeaders fs) {} fs := by
  unfold listing
  cases hentry : fs.lstat tree.root with
  | error reason =>
    refine Run.Does.bind_of_silent (a := .error (.message reason)) (.attempt ?_) (.throw _)
    refine Run.Does.files.bind_of_silent ?_
    rw [hentry]
    exact .throw _
  | ok e =>
    refine Run.Does.bind_of_silent (.attempt (r := .ok _) ?_) (.pure _)
    refine Run.Does.files.bind_of_silent ?_
    rw [hentry]
    exact does_collect fs _

/-- An enumeration that has succeeded once always gives the same paths. -/
theorem answers_files {fs : FileSystem} {w v : World} {paths : List Text} (hw : w.IsSteady fs)
    (h : tree.files includeHeaders w = .ok paths v) :
    Run.Answers fs (tree.files includeHeaders) (.ok paths) := by
  have hanswers := Run.Answers.of_does (tree.does_files includeHeaders fs)
  obtain ⟨hlisting, -⟩ := hanswers.eq_of_ok hw h
  rwa [hlisting] at hanswers

end Steady

/-! ### The paths of an enumeration -/

/-- A listed path is that of a file below folders that are entered. -/
theorem exists_way_of_mem_files (hroot : tree.root = Path.ofComponents true root)
    (hnames : ∀ c ∈ root, Path.IsName c) {w w' : World} {paths : List Text}
    (h : tree.files includeHeaders w = .ok paths w') (hpath : path ∈ paths) :
    ∃ ds, (∀ d ∈ ds, Path.IsName d) ∧ path = Path.ofComponents true (root ++ ds) ∧
      tree.lists includeHeaders path = true ∧
      ∀ above, above <+: ds → above ≠ ds → tree.IsEntered above := by
  obtain ⟨e, hentry, hcollect⟩ := exists_collect_of_files h
  obtain ⟨rfl, -⟩ := eq_of_collect hcollect
  rw [hroot, ← List.append_nil root] at hpath
  have hsound := FileSystem.isSound_of_lstat hentry
  obtain ⟨ds, hpath, ⟨mode, data, hfile⟩, hlists, habove⟩ :=
    (mem_listed_visits_iff hroot hnames hsound [] _ (by simp) (by simp)).mp hpath
  exact ⟨ds, hsound.isName_of_get? hfile, hpath, hlists, habove⟩

theorem exists_components_of_mem_files (hroot : tree.root = Path.ofComponents true root)
    (hnames : ∀ c ∈ root, Path.IsName c) {w w' : World} {paths : List Text}
    (h : tree.files includeHeaders w = .ok paths w') (hpath : path ∈ paths) :
    ∃ cs, (∀ c ∈ cs, Path.IsName c) ∧ path = Path.ofComponents true (root ++ cs) := by
  obtain ⟨ds, hds, hpath, -⟩ := exists_way_of_mem_files hroot hnames h hpath
  exact ⟨ds, hds, hpath⟩

/-- The walk lists admitted paths only. -/
theorem admits_of_mem_files (hroot : tree.root = Path.ofComponents true root)
    (hnames : ∀ c ∈ root, Path.IsName c) {w w' : World} {paths : List Text}
    (h : tree.files includeHeaders w = .ok paths w') (hpath : path ∈ paths) :
    tree.Admits (tree.relative path) := by
  obtain ⟨ds, hds, rfl, hlists, habove⟩ := exists_way_of_mem_files hroot hnames h hpath
  rw [lists, Bool.and_eq_true, Bool.not_eq_true'] at hlists
  refine ⟨hlists.2, ?_⟩
  rintro d ⟨cs, hne, hle, hproper, -, rfl⟩
  rw [relative_ofComponents hroot hnames hds, Path.components_ofComponents hds] at hle hproper
  obtain rfl | ⟨above, folder, rfl⟩ := List.eq_nil_or_concat cs
  · exact absurd rfl hne
  · exact (habove _ hle hproper above folder List.concat_eq_append).2

/-- The walk lists no path twice. -/
theorem nodup_files (hroot : tree.root = Path.ofComponents true root)
    (hnames : ∀ c ∈ root, Path.IsName c) {w w' : World} {paths : List Text}
    (h : tree.files includeHeaders w = .ok paths w') : paths.Nodup := by
  obtain ⟨e, hentry, hcollect⟩ := exists_collect_of_files h
  obtain ⟨rfl, -⟩ := eq_of_collect hcollect
  rw [hroot, ← List.append_nil root]
  exact (pairwise_listed_visits hnames (FileSystem.isSound_of_lstat hentry) [] _ true
    (by simp)).imp fun h heq => h.ne (congrArg _ heq)

/-- What a walk lists belongs to the tree, whatever the names are. -/
theorem lists_of_mem_visits (e : Entry) {path name : Text} {isRoot : Bool} {v : Visit}
    (hv : v ∈ visits tree includeHeaders path name isRoot e) (hlisted : v.isListed = true) :
    tree.lists includeHeaders v.path = true := by
  match e with
  | .file mode data =>
    rw [visits, List.mem_singleton] at hv
    subst hv
    exact hlisted
  | .link target =>
    rw [visits, List.mem_singleton] at hv
    subst hv
    cases hlisted
  | .folder entries =>
    rw [visits] at hv
    rcases List.mem_cons.mp hv with rfl | hv
    · cases hlisted
    · split at hv
      · simp at hv
      · obtain ⟨p, hp, hv⟩ := mem_inNameOrder_visitsBelow.mp hv
        exact lists_of_mem_visits p.2 hv hlisted
termination_by sizeOf e
decreasing_by
  have hlt := List.sizeOf_lt_of_mem hp
  obtain ⟨name, e⟩ := p
  simp only [Prod.mk.sizeOf_spec] at hlt
  simp only [Entry.folder.sizeOf_spec]
  omega

theorem lists_of_mem_files {w w' : World} {paths : List Text}
    (h : tree.files includeHeaders w = .ok paths w') {path : Text} (hpath : path ∈ paths) :
    tree.lists includeHeaders path = true := by
  obtain ⟨e, -, hcollect⟩ := exists_collect_of_files h
  obtain ⟨rfl, -⟩ := eq_of_collect hcollect
  obtain ⟨v, hv, hlisted, rfl⟩ := mem_listed_iff.mp hpath
  exact lists_of_mem_visits e hv hlisted

/-! ### The root -/

/-- A source tree is accepted exactly if its root is an absolute path to a folder and its patterns
are well-formed. -/
theorem ofRoot_eq_ok_iff {fs : FileSystem} {path : Text} {excludes : List Text} :
    ofRoot fs path excludes = .ok tree ↔
      (Path.isAbsolute path = true ∧ (∃ e, fs.stat path = .ok e ∧ e.isFolder = true) ∧
        ∀ p ∈ excludes, Glob.isValid p = true) ∧ tree = ⟨Path.clean path, excludes⟩ := by
  unfold ofRoot
  cases habsolute : Path.isAbsolute path with
  | false => simp
  | true =>
    cases hstat : fs.stat path with
    | error reason => simp
    | ok e =>
      cases hfolder : e.isFolder with
      | false => simp [hfolder]
      | true =>
        cases hfind : excludes.find? (!Glob.isValid ·) with
        | some p =>
          have hp := List.mem_of_find?_eq_some hfind
          have hbad : Glob.isValid p = false := by simpa using List.find?_some hfind
          simp only [hfolder, Bool.not_true, Bool.false_eq_true, if_false, reduceCtorEq,
            false_iff, not_and]
          rintro ⟨-, -, hall⟩
          rw [hall p hp] at hbad
          cases hbad
        | none =>
          have hall : ∀ p ∈ excludes, Glob.isValid p = true := by simpa using hfind
          simp only [hfolder, Bool.not_true, Bool.false_eq_true, if_false, Except.ok.injEq]
          exact ⟨fun htree => ⟨⟨trivial, ⟨e, rfl, hfolder⟩, hall⟩, htree.symm⟩, fun h => h.2.symm⟩

/-- A source tree that is accepted has an absolute root, made of names. -/
theorem exists_root_of_ofRoot {fs : FileSystem} {path : Text} {excludes : List Text}
    (h : ofRoot fs path excludes = .ok tree) :
    ∃ root, (∀ c ∈ root, Path.IsName c) ∧ tree.root = Path.ofComponents true root := by
  obtain ⟨⟨habsolute, -, -⟩, rfl⟩ := ofRoot_eq_ok_iff.mp h
  exact ⟨_, Path.isName_of_mem_components habsolute, by rw [Path.clean, habsolute]⟩

end SourceTree

end CallerTree
