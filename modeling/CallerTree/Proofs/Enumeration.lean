import CallerTree.Proofs.Headers

/-!
# The files of a source tree, exactly

This module says which paths an enumeration gives, without the walk: a file is listed if its
extension is known, no pattern matches its path, and every folder on the way to it is entered. It
also says in which order, by comparing two paths name by name.

## The root

The rules for folders are not applied to the root, whatever its name is and whatever the patterns
say. The root has to be a folder itself; a link to one is not entered.

## Main definitions

* `SourceTree.HasSourceExtension` — the rule for a file's name
* `SourceTree.IsListedAt` — the rule for a path, as a list of names

## Main results

* `SourceTree.enumeration_is_exact` — what is listed, how often, and in which order
-/

namespace CallerTree

namespace SourceTree

/-- The extension is known; that of a header counts only if headers are included. -/
def HasSourceExtension (includeHeaders : Bool) (name : Text) : Prop :=
  (Path.extension name).lower ∈ ([".c", ".cpp", ".cc", ".cxx"] : List Text) ∨
    includeHeaders = true ∧ (Path.extension name).lower ∈ ([".h", ".hpp"] : List Text)

/-- Below the folder `top`, the names lead to a file that belongs to the source tree. -/
structure IsListedAt (tree : SourceTree) (includeHeaders : Bool) (top : Entry)
    (folders : List Text) (name : Text) : Prop where
  isFile : ∃ mode data, top.get? (folders ++ [name]) = some (.file mode data)
  hasSourceExtension : HasSourceExtension includeHeaders name
  not_excluded : tree.excludes? (Path.ofComponents false (folders ++ [name])) = false
  isEntered : ∀ above, above <+: folders → tree.IsEntered above

variable {tree : SourceTree} {includeHeaders : Bool}

theorem isSource_iff {path : Text} :
    isSource path includeHeaders = true ↔ HasSourceExtension includeHeaders path := by
  have hdisjoint : ∀ ext ∈ headerExtensions,
      ext ∉ ([".c", ".cpp", ".cc", ".cxx"] : List Text) := by decide
  have hall : sourceExtensions = ([".c", ".cpp", ".cc", ".cxx"] : List Text) ++ headerExtensions :=
    rfl
  unfold isSource HasSourceExtension
  change _ ↔ _ ∨ includeHeaders = true ∧ _ ∈ headerExtensions
  generalize (Path.extension path).lower = ext
  by_cases h : ext ∈ headerExtensions
  · simp only [List.contains_iff_mem.mpr h, if_true, h, hdisjoint ext h, false_or, and_true]
  · have hcontains : ¬ headerExtensions.contains ext = true := mt List.contains_iff_mem.mp h
    simp only [hcontains, Bool.false_eq_true, if_false, List.contains_iff_mem, hall,
      List.mem_append, h, or_false, and_false]

/-! ### What is listed -/

/-- In a live context an enumeration lists what the walk meets at the root's entry. -/
theorem files_eq_of_lstat {w : World} (hlive : w.context = .live) {e : Entry}
    (h : w.files.lstat tree.root = .ok e) :
    tree.files includeHeaders w =
      .ok (listed (visits tree includeHeaders tree.root (Path.base tree.root) true e)) w := by
  have hsteady : w.IsSteady w.files := ⟨rfl, hlive⟩
  have hdoes := tree.does_files includeHeaders w.files w hsteady
  rwa [World.after_nil hsteady, listing, h] at hdoes

variable {root : List Text} {name : Text}

/-! ### The enumeration -/

/-- A file belongs to the tree by its name and by the patterns. -/
theorem lists_ofComponents_iff (hroot : tree.root = Path.ofComponents true root)
    (hnames : ∀ c ∈ root, Path.IsName c) {folders : List Text}
    (hfolders : ∀ c ∈ folders, Path.IsName c) (hname : Path.IsName name) :
    tree.lists includeHeaders (Path.ofComponents true (root ++ (folders ++ [name]))) = true ↔
      HasSourceExtension includeHeaders name ∧
        tree.excludes? (Path.ofComponents false (folders ++ [name])) = false := by
  have hcs : ∀ c ∈ folders ++ [name], Path.IsName c :=
    List.forall_mem_append.mpr ⟨hfolders, List.forall_mem_singleton.mpr hname⟩
  have hbase : Path.base (Path.ofComponents true (root ++ (folders ++ [name]))) =
      Path.base name := by
    rw [← List.append_assoc, Path.base_of_not_mem hname.slash_not_mem]
    exact Path.base_ofComponents_concat (List.forall_mem_append.mpr ⟨hnames, hfolders⟩) hname
  have hextension : Path.extension (Path.ofComponents true (root ++ (folders ++ [name]))) =
      Path.extension name := by rw [Path.extension, hbase, Path.extension]
  rw [lists, Bool.and_eq_true, Bool.not_eq_true', relative_ofComponents hroot hnames hcs,
    isSource_iff, HasSourceExtension, hextension, HasSourceExtension]

/-- **Enumeration is exact.** Let the root be a clean absolute path of a folder. In a live context
the enumeration succeeds and does nothing else. It gives the paths of the files with a known
extension that no pattern matches, if all folders on the way to them are entered, and no other
paths; each of them once, and in the order of a depth-first walk through the names sorted by their
bytes. -/
theorem enumeration_is_exact (tree : SourceTree) (includeHeaders : Bool)
    (habsolute : Path.isAbsolute tree.root = true) (hclean : Path.clean tree.root = tree.root)
    {w : World} (hlive : w.context = .live) {entries : List (Text × Entry)}
    (hfolder : w.files.lstat tree.root = .ok (.folder entries)) :
    ∃ paths, tree.files includeHeaders w = .ok paths w ∧
      (∀ path, path ∈ paths ↔ ∃ folders name,
        path = Path.join tree.root (Path.ofComponents false (folders ++ [name])) ∧
          tree.IsListedAt includeHeaders (.folder entries) folders name) ∧
      paths.Nodup ∧
      paths.Pairwise fun p q => Path.Precedes (Path.components p) (Path.components q) := by
  obtain ⟨root, hnames, hroot⟩ :
      ∃ root, (∀ c ∈ root, Path.IsName c) ∧ tree.root = Path.ofComponents true root :=
    ⟨_, Path.isName_of_mem_components habsolute, by rw [← habsolute, ← Path.clean, hclean]⟩
  have hpaths : tree.files includeHeaders w = .ok (listed (visits tree includeHeaders
      (Path.ofComponents true (root ++ [])) (Path.base tree.root) true (.folder entries))) w := by
    rw [List.append_nil, ← hroot]
    exact files_eq_of_lstat hlive hfolder
  have hsound := FileSystem.isSound_of_lstat hfolder
  refine ⟨_, hpaths, fun path => ?_, nodup_files hroot hnames hpaths,
    pairwise_listed_visits hnames hsound [] _ _ (by simp)⟩
  refine (mem_listed_visits_iff hroot hnames hsound [] (Path.base tree.root) (by simp)
    (by simp)).trans ?_
  simp only [List.nil_append]
  constructor
  · rintro ⟨ds, rfl, ⟨mode, data, hfile⟩, hlists, habove⟩
    rcases List.eq_nil_or_concat ds with rfl | ⟨folders, name, rfl⟩
    · cases hfile
    · rw [List.concat_eq_append] at hfile hlists habove ⊢
      have hcs := hsound.isName_of_get? hfile
      obtain ⟨hfolders, hname⟩ := List.forall_mem_append.mp hcs
      obtain ⟨hextension, hexcludes⟩ := (lists_ofComponents_iff hroot hnames hfolders
        (hname name List.mem_cons_self)).mp hlists
      refine ⟨folders, name, ?_, ⟨mode, data, hfile⟩, hextension, hexcludes, fun above hle => ?_⟩
      · rw [hroot, Path.join_ofComponents_ofComponents hnames hcs]
      · refine habove above (hle.trans (List.prefix_append _ _)) fun heq => ?_
        rw [heq] at hle
        exact absurd hle.length_le (by simp)
  · rintro ⟨folders, name, rfl, ⟨mode, data, hfile⟩, hextension, hexcludes, hentered⟩
    have hcs := hsound.isName_of_get? hfile
    obtain ⟨hfolders, hname⟩ := List.forall_mem_append.mp hcs
    rw [hroot, Path.join_ofComponents_ofComponents hnames hcs]
    have hlists := (lists_ofComponents_iff hroot hnames hfolders
      (hname name List.mem_cons_self)).mpr ⟨hextension, hexcludes⟩
    refine ⟨folders ++ [name], rfl, ⟨mode, data, hfile⟩, hlists, fun above hle hne => ?_⟩
    exact hentered above ((List.prefix_concat_iff.mp hle).resolve_left hne)

/-- A folder with a source in a folder, one that is excluded, and one among the files of a version
control system. -/
def threeSources : FileTree :=
  .folder [("lib", .folder [("z.C", .file 0o644 [])]), ("b.c", .file 0o644 []),
    (".git", .folder [("x.c", .file 0o644 [])])]

/-- Of the three sources one is listed: its extension counts in capital letters too. -/
theorem one_of_threeSources_is_listed :
    ∃ paths, files ⟨"/src", ["b.?"]⟩ false
        { files := { tree := .folder [("src", threeSources)] } } =
          .ok paths { files := { tree := .folder [("src", threeSources)] } } ∧
      Text.ofString "/src/lib/z.C" ∈ paths ∧ Text.ofString "/src/b.c" ∉ paths ∧
      Text.ofString "/src/.git/x.c" ∉ paths := by
  obtain ⟨paths, hfiles, hmem, -, -⟩ := enumeration_is_exact ⟨"/src", ["b.?"]⟩ false
    (w := { files := { tree := .folder [("src", threeSources)] } }) (by decide)
    (by decide +kernel) rfl rfl
  -- The way down to a file is read off its path.
  have hunique : ∀ {cs folders : List Text} {name : Text} {e : Entry},
      threeSources.entry.get? cs = some e →
      Path.join (Path.ofComponents true ["src"]) (Path.ofComponents false cs) =
        Path.join "/src" (Path.ofComponents false (folders ++ [name])) →
      IsListedAt ⟨"/src", ["b.?"]⟩ false threeSources.entry folders name →
      cs = folders ++ [name] := by
    rintro cs folders name e hcs heq ⟨⟨mode, data, hfile⟩, -, -, -⟩
    have hcs := threeSources.sound.isName_of_get? hcs
    have hds := threeSources.sound.isName_of_get? hfile
    have hsrc : ∀ c ∈ [Text.ofString "src"], Path.IsName c := by decide
    change _ = Path.join (Path.ofComponents true ["src"]) _ at heq
    rw [Path.join_ofComponents_ofComponents hsrc hcs,
      Path.join_ofComponents_ofComponents hsrc hds] at heq
    exact List.append_cancel_left (Path.eq_of_ofComponents_eq
      (List.forall_mem_append.mpr ⟨hsrc, hcs⟩) (List.forall_mem_append.mpr ⟨hsrc, hds⟩) heq)
  refine ⟨paths, hfiles, (hmem _).mpr ⟨["lib"], "z.C", by decide +kernel, ?_⟩, fun hb => ?_,
    fun hx => ?_⟩
  · refine ⟨⟨0o644, [], rfl⟩, .inl (by decide +kernel), by decide +kernel, fun above hle => ?_⟩
    rcases List.prefix_cons_iff.mp hle with rfl | ⟨above, rfl, hrest⟩
    · intro above folder heq
      simp at heq
    · obtain rfl := List.prefix_nil.mp hrest
      intro above folder heq
      rw [← List.nil_append [Text.ofString "lib"]] at heq
      obtain ⟨rfl, hlast⟩ := List.append_inj' heq rfl
      obtain rfl := List.singleton_inj.mp hlast
      decide +kernel
  · obtain ⟨folders, name, heq, hlisted⟩ := (hmem _).mp hb
    have hcs : [Text.ofString "b.c"] = folders ++ [name] := hunique rfl heq hlisted
    have hexcluded := hlisted.not_excluded
    rw [← hcs] at hexcluded
    exact absurd hexcluded (by decide +kernel)
  · obtain ⟨folders, name, heq, hlisted⟩ := (hmem _).mp hx
    have hcs : [Text.ofString ".git"] ++ [Text.ofString "x.c"] = folders ++ [name] :=
      hunique rfl heq hlisted
    obtain ⟨rfl, -⟩ := List.append_inj' hcs rfl
    exact (hlisted.isEntered _ (List.prefix_refl _) [] ".git" rfl).1 (by decide)

end SourceTree

end CallerTree
