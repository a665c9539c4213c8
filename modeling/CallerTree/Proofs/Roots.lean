import CallerTree.Proofs.Enumeration
import CallerTree.Proofs.Interchange

/-!
# Two roots of one folder

A folder can be reached along many paths: its own, one through a link further up, or one that ends
in a link. A source tree is accepted under each of them, since links are followed when the root is
looked at. This module compares the trees that are accepted under two such paths.

## Where it matters

Everything that is shown is relative to the root, so the way to the root should not be seen. It is
not, as long as the root is no link itself: the walk then starts at the same entry, and what it
lists and what is read below depends on that entry only. The walk does not enter a link, though, and
this holds for the root as well. Under a root that is a link nothing is listed, and every function
comes out without callers, which looks the same as a function that is never called.

## Scope

The files have to be readable under both roots for their trees to be compared; a path can be too
long under one of them only.

## Main results

* `SourceTree.map_relative_listed_visits` — a walk below another root
* `Locator.eq_of_readSource_below` — what is read below a root is what lies below its folder
* `Locator.isByName_scan`, `Hierarchy.exists_answers_build_both` — resolution with the scan
* `Hierarchy.linked_root_hides_its_folder` — two roots of one folder
-/

namespace CallerTree

namespace SourceTree

/-! ### The walk below another root -/

theorem excludes?_congr {tree tree' : SourceTree} (h : tree.excludes = tree'.excludes)
    (path : Text) : tree.excludes? path = tree'.excludes? path := by
  rw [excludes?, h, excludes?]

theorem inNameOrder_visitsBelow (tree : SourceTree) (includeHeaders : Bool) (path : Text)
    (entries : List (Text × Entry)) :
    inNameOrder (visitsBelow tree includeHeaders path entries) =
      (entries.mergeSort fun p q => p.1.byteLE q.1).flatMap fun p =>
        visits tree includeHeaders (Path.join path p.1) p.1 false p.2 := by
  have hsort := List.map_mergeSort (r := fun p q : Text × Entry => p.1.byteLE q.1)
    (s := fun a b : Text × List Visit => a.1.byteLE b.1) (l := entries)
    (f := fun p => (p.1, visits tree includeHeaders (Path.join path p.1) p.1 false p.2))
    fun _ _ _ _ => rfl
  rw [inNameOrder, visitsBelow_eq_map, ← hsort, List.flatMap_map]

section Relocation

variable {tree tree' : SourceTree} {includeHeaders : Bool} {root root' : List Text}

/-- Seen from the root, a walk lists the same below an entry wherever the root is. -/
theorem map_relative_listed_visits (hexcludes : tree.excludes = tree'.excludes)
    (hroot : tree.root = Path.ofComponents true root) (hnames : ∀ c ∈ root, Path.IsName c)
    (hroot' : tree'.root = Path.ofComponents true root') (hnames' : ∀ c ∈ root', Path.IsName c)
    {e : Entry} (he : e.IsSound) :
    ∀ (cs : List Text) (name name' : Text), (∀ c ∈ cs, Path.IsName c) →
      (cs = [] → e.isFolder = true) → (cs ≠ [] → name = name') →
      (listed (visits tree includeHeaders (Path.ofComponents true (root ++ cs)) name cs.isEmpty
          e)).map tree.relative =
        (listed (visits tree' includeHeaders (Path.ofComponents true (root' ++ cs)) name' cs.isEmpty
          e)).map tree'.relative := by
  induction he with
  | link => exact fun _ _ _ _ _ _ => rfl
  | file =>
    intro cs name name' hcs hbelow _
    rcases List.eq_nil_or_concat cs with rfl | ⟨folders, last, rfl⟩
    · exact absurd (hbelow rfl) (by simp [Entry.isFolder])
    · rw [List.concat_eq_append] at hcs ⊢
      obtain ⟨hfolders, hlast⟩ := List.forall_mem_append.mp hcs
      have hlast := hlast last List.mem_cons_self
      have hlists :
          tree.lists includeHeaders (Path.ofComponents true (root ++ (folders ++ [last]))) =
            tree'.lists includeHeaders (Path.ofComponents true (root' ++ (folders ++ [last]))) := by
        rw [Bool.eq_iff_iff, lists_ofComponents_iff hroot hnames hfolders hlast,
          lists_ofComponents_iff hroot' hnames' hfolders hlast, excludes?_congr hexcludes]
      rw [visits, visits, hlists]
      cases tree'.lists includeHeaders (Path.ofComponents true (root' ++ (folders ++ [last]))) with
      | false => rfl
      | true =>
        change [tree.relative _] = [tree'.relative _]
        rw [relative_ofComponents hroot hnames hcs, relative_ofComponents hroot' hnames' hcs]
  | @folder entries hentries _ _ ih =>
    intro cs name name' hcs _ hname
    have hprunes : (!cs.isEmpty && tree.prunes (Path.ofComponents true (root ++ cs)) name) =
        (!cs.isEmpty && tree'.prunes (Path.ofComponents true (root' ++ cs)) name') := by
      by_cases hempty : cs = []
      · simp [hempty]
      · rw [hname hempty, prunes, prunes, relative_ofComponents hroot hnames hcs,
          relative_ofComponents hroot' hnames' hcs, excludes?_congr hexcludes]
    rw [visits, visits, listed_cons_false, listed_cons_false, hprunes]
    split
    · rfl
    · rw [inNameOrder_visitsBelow, inNameOrder_visitsBelow, listed_flatMap, listed_flatMap,
        List.map_flatMap, List.map_flatMap]
      refine List.flatMap_congr fun p hp => ?_
      have hp := List.mem_mergeSort.mp hp
      have hbelow : (cs ++ [p.1]).isEmpty = false := by simp
      rw [Path.join_ofComponents_append hnames hcs (hentries p hp),
        Path.join_ofComponents_append hnames' hcs (hentries p hp), ← hbelow]
      have hlower : ∀ c ∈ cs ++ [p.1], Path.IsName c :=
        List.forall_mem_append.mpr ⟨hcs, List.forall_mem_singleton.mpr (hentries p hp)⟩
      exact ih p hp (cs ++ [p.1]) p.1 p.1 hlower (by simp) fun _ => rfl

/-- What is listed below a root are files that lie below its folder. -/
theorem exists_file_of_mem_listed (hroot : tree.root = Path.ofComponents true root)
    (hnames : ∀ c ∈ root, Path.IsName c) {dir : Entry} (hsound : dir.IsSound) {path : Text}
    (h : path ∈ listed (visits tree includeHeaders tree.root (Path.base tree.root) true dir)) :
    ∃ ds mode data, (∀ d ∈ ds, Path.IsName d) ∧ path = Path.ofComponents true (root ++ ds) ∧
      dir.get? ds = some (.file mode data) := by
  rw [hroot, ← List.append_nil root] at h
  obtain ⟨ds, hpath, ⟨mode, data, hfile⟩, -⟩ :=
    (mem_listed_visits_iff hroot hnames hsound [] _ (by simp) (by simp)).mp h
  exact ⟨ds, mode, data, hsound.isName_of_get? hfile, hpath, hfile⟩

end Relocation

end SourceTree

/-! ### What is read below a root -/

/-- Below the folder that a root leads to, names lead to what lies there. -/
theorem FileSystem.stat_below {fs : FileSystem} {root ds : List Text}
    (hroot : ∀ c ∈ root, Path.IsName c) (hds : ∀ d ∈ ds, Path.IsName d) {dir f : Entry}
    (hdir : fs.stat (Path.ofComponents true root) = .ok dir) (hf : dir.get? ds = some f)
    (hlink : ∀ target, f ≠ .link target) (hpath : IsPath (Path.ofComponents true (root ++ ds)))
    (hshort : ∀ d ∈ ds, d.utf8.length ≤ nameLimit) :
    fs.stat (Path.ofComponents true (root ++ ds)) = .ok f := by
  have hall : ∀ c ∈ root ++ ds, Path.IsName c := List.forall_mem_append.mpr ⟨hroot, hds⟩
  obtain ⟨cs, hlocate⟩ := entry_eq_ok_iff.mp (stat_eq_ok_iff.mp hdir)
  have hleads := ((locate_ofComponents_eq_ok_iff hroot).mp hlocate).2
  have hat : fs.top.get? cs.reverse.reverse = some dir := by
    rw [List.reverse_reverse]
    exact hleads.entry_eq.symm
  have hdown : ∀ d ∈ ds, IsDown d := fun d hd =>
    ⟨(hds d hd).ne_nil, (hds d hd).ne_dot, (hds d hd).ne_dots, hshort d hd⟩
  have hrest : Leads fs.top true 0 cs.reverse ds _ := leads_of_get? hat hdown hf hlink
  exact stat_eq_ok_iff.mpr (entry_eq_ok_iff.mpr ⟨_, (locate_ofComponents_eq_ok_iff hall).mpr
    ⟨hpath, hleads.append (Option.some_ne_none dir) hrest fun _ => rfl⟩⟩)

namespace Locator

/-- A file that can be read below a root is the one that lies below its folder. -/
theorem eq_of_readSource_below {fs : FileSystem} {root ds : List Text}
    (hroot : ∀ c ∈ root, Path.IsName c) (hds : ∀ d ∈ ds, Path.IsName d) {dir : Entry} {mode : Nat}
    {data : Bytes} (hdir : fs.stat (Path.ofComponents true root) = .ok dir)
    (hfile : dir.get? ds = some (.file mode data)) {lines : List Text}
    (hread : readSource fs (Path.ofComponents true (root ++ ds)) = .ok lines) :
    lines = SourceLines.ofBytes data := by
  obtain ⟨data', hdata, rfl⟩ := readSource_eq_ok_iff.mp hread
  obtain ⟨mode', hstat⟩ := FileSystem.exists_stat_of_read hdata
  obtain ⟨cs, hlocate⟩ := FileSystem.entry_eq_ok_iff.mp (FileSystem.stat_eq_ok_iff.mp hstat)
  obtain ⟨hpath, hleads⟩ := (FileSystem.locate_ofComponents_eq_ok_iff
    (List.forall_mem_append.mpr ⟨hroot, hds⟩)).mp hlocate
  have hshort := hleads.length_le
  have hsame := FileSystem.stat_below hroot hds hdir hfile (by simp) hpath fun d hd =>
    hshort d (by simp [hd])
  cases hstat.symm.trans hsame
  rfl

/-- The scan answers as a function of the name. -/
theorem isByName_scan (tree : SourceTree) (includeHeaders : Bool) (fs : FileSystem) :
    (scan includeHeaders).IsByName tree fs := by
  intro name
  simp only [scan]
  cases FunctionName.checkPattern (FunctionName.callPattern name) with
  | error e => exact ⟨_, (Run.Answers.ofExcept (.error e)).bind_error _⟩
  | ok u =>
    have hfiles := Run.Answers.of_does (tree.does_files includeHeaders fs)
    cases hlisting : tree.listing includeHeaders fs with
    | error e =>
      rw [hlisting] at hfiles
      exact ⟨_, (Run.Answers.ofExcept (.ok u)).bind (hfiles.attempt.bind (.of_does (.throw _)))⟩
    | ok paths =>
      rw [hlisting] at hfiles
      exact ⟨_, (Run.Answers.ofExcept (.ok u)).bind
        (hfiles.attempt.bind (answers_scanFiles paths))⟩

end Locator

namespace Hierarchy

open Locator CallTree

variable {fs : FileSystem}

/-! ### Resolving twice -/

/-- Two ways to find call sites that agree on harmless names resolve to the same tree. -/
theorem exists_answers_build_both {l l' : Locator} {tree tree' : SourceTree}
    (hsites : ∀ name, FunctionName.IsHarmless name → ∃ calls,
      Run.Answers fs (callSites l tree name) (.ok calls) ∧
        Run.Answers fs (callSites l' tree' name) (.ok calls))
    (limit : Int) {name : Text} (hname : FunctionName.IsHarmless name) :
    ∃ t, Run.Answers fs (build l tree limit name) (.ok t) ∧
      Run.Answers fs (build l' tree' limit name) (.ok t) := by
  refine exists_answers_grow_both (fun n depth hn => ?_) limit limit.toNat [] 0 name hname
  obtain ⟨calls, hcalls, hcalls'⟩ := hsites n hn
  have hexpanded := answers_expandedSites hcalls depth
  obtain ⟨v, -, hv⟩ := hexpanded { files := fs } ⟨rfl, rfl⟩
  exact ⟨calls, hexpanded, answers_expandedSites hcalls' depth, fun call hcall _ =>
    isHarmless_of_expandedSites hv call hcall⟩

/-- A resolved tree is bare exactly if no level is allowed or no call site was found. -/
theorem eq_terminal_iff {l : Locator} {tree : SourceTree} (hl : l.IsByName tree fs) {limit : Int}
    {name : Text} {t : CallTree} {calls : List Call}
    (ht : Run.Answers fs (build l tree limit name) (.ok t))
    (hcalls : Run.Answers fs (callSites l tree name) (.ok calls)) :
    t = terminal limit [] 0 name ↔ limit ≤ 0 ∨ calls = [] := by
  have hw : World.IsSteady fs { files := fs } := ⟨rfl, rfl⟩
  obtain ⟨v, -, hv⟩ := ht { files := fs } hw
  obtain ⟨hstop, rfl⟩ | ⟨levels, calls', callers, hlevels, -, hcalls', hcallers, rfl⟩ :=
    grown_iff.mp (grown_callSites_of_build hl hw hv)
  · have hlimit : limit ≤ 0 := by
      have := hstop.resolve_right List.not_mem_nil
      omega
    exact iff_of_true rfl (.inl hlimit)
  · obtain rfl := hcalls.unique hcalls'
    have hlimit : ¬ limit ≤ 0 := by omega
    have hlength := hcallers.length_eq
    simp only [hlimit, false_or]
    constructor
    · intro heq
      have hnil : callers = [] := by injection heq
      rw [hnil] at hlength
      exact List.eq_nil_of_length_eq_zero hlength
    · rintro rfl
      obtain rfl : callers = [] := List.eq_nil_of_length_eq_zero hlength.symm
      rfl

theorem callsIn_congr {tree tree' : SourceTree} {name path path' : Text} {lines : List Text}
    (hrelative : tree.relative path = tree'.relative path')
    (hread : readSource fs path = .ok lines) (hread' : readSource fs path' = .ok lines) :
    callsIn fs tree name path = callsIn fs tree' name path' := by
  rw [callsIn, callsIn, hread, hread', hrelative]

/-- The calls in files that lie at the same names below the same folder. -/
theorem flatMap_callsIn_eq {tree tree' : SourceTree} {root root' : List Text} {dir : Entry}
    (hroot : tree.root = Path.ofComponents true root) (hnames : ∀ c ∈ root, Path.IsName c)
    (hroot' : tree'.root = Path.ofComponents true root') (hnames' : ∀ c ∈ root', Path.IsName c)
    (hdir : fs.stat tree.root = .ok dir) (hdir' : fs.stat tree'.root = .ok dir)
    {paths paths' : List Text}
    (hfiles : ∀ path ∈ paths, ∃ ds mode data, (∀ d ∈ ds, Path.IsName d) ∧
      path = Path.ofComponents true (root ++ ds) ∧ dir.get? ds = some (.file mode data))
    (hfiles' : ∀ path ∈ paths', ∃ ds, (∀ d ∈ ds, Path.IsName d) ∧
      path = Path.ofComponents true (root' ++ ds))
    (hsame : paths.map tree.relative = paths'.map tree'.relative)
    (hread : ∀ path ∈ paths ++ paths', ∃ lines, readSource fs path = .ok lines) (name : Text) :
    paths.flatMap (callsIn fs tree name) = paths'.flatMap (callsIn fs tree' name) := by
  rw [hroot] at hdir
  rw [hroot'] at hdir'
  -- Both are what is found under the relative paths, seen from the second root.
  have hthere : paths'.flatMap (callsIn fs tree' name) = (paths'.map tree'.relative).flatMap
      fun file => callsIn fs tree' name (sourcePath tree'.root file) := by
    rw [List.flatMap_map]
    refine List.flatMap_congr fun path hpath => ?_
    obtain ⟨ds, hds, rfl⟩ := hfiles' path hpath
    rw [sourcePath_relative hroot' hnames' hds]
  rw [hthere, ← hsame, List.flatMap_map]
  refine List.flatMap_congr fun path hpath => ?_
  obtain ⟨ds, mode, data, hds, rfl, hfile⟩ := hfiles path hpath
  have hrelative := SourceTree.relative_ofComponents hroot hnames hds
  have hrelative' := SourceTree.relative_ofComponents hroot' hnames' hds
  have hmem : tree.relative (Path.ofComponents true (root ++ ds)) ∈ paths'.map tree'.relative := by
    rw [← hsame]
    exact List.mem_map_of_mem hpath
  obtain ⟨path', hpath', heq⟩ := List.mem_map.mp hmem
  obtain ⟨ds', hds', rfl⟩ := hfiles' path' hpath'
  rw [hrelative, SourceTree.relative_ofComponents hroot' hnames' hds'] at heq
  obtain rfl := Path.eq_of_ofComponents_eq hds' hds heq
  obtain ⟨lines, hlines⟩ := hread _ (List.mem_append_left _ hpath)
  obtain ⟨lines', hlines'⟩ := hread _ (List.mem_append_right _ hpath')
  obtain rfl := eq_of_readSource_below hnames hds hdir hfile hlines
  obtain rfl := eq_of_readSource_below hnames' hds hdir' hfile hlines'
  rw [hrelative, ← hrelative', sourcePath_relative hroot' hnames' hds]
  exact callsIn_congr (hrelative.trans hrelative'.symm) hlines hlines'

/-- The call sites that a scan finds in files below the root. -/
theorem answers_callSites_below {tree : SourceTree} {root : List Text}
    (hroot : tree.root = Path.ofComponents true root) (hnames : ∀ c ∈ root, Path.IsName c)
    {w v : World} (hw : w.IsSteady fs) {includeHeaders : Bool} {paths : List Text}
    (hpaths : tree.files includeHeaders w = .ok paths v)
    (hfiles : ∀ path ∈ paths, ∃ ds, (∀ d ∈ ds, Path.IsName d) ∧
      path = Path.ofComponents true (root ++ ds)) {name : Text}
    (hname : FunctionName.IsHarmless name) :
    Run.Answers fs (callSites (scan includeHeaders) tree name)
      (.ok (paths.flatMap (callsIn fs tree name))) := by
  refine answers_callSites_scan hname (SourceTree.answers_files hw hpaths) fun path hpath => ?_
  obtain ⟨ds, hds, rfl⟩ := hfiles path hpath
  exact sourcePath_relative hroot hnames hds

/-- With the scan every harmless name resolves, to a bare tree if no level is allowed or no call
site is found. -/
theorem exists_answers_build_below {tree : SourceTree} {root : List Text}
    (hroot : tree.root = Path.ofComponents true root) (hnames : ∀ c ∈ root, Path.IsName c)
    {w v : World} (hw : w.IsSteady fs) {includeHeaders : Bool} {paths : List Text}
    (hpaths : tree.files includeHeaders w = .ok paths v)
    (hfiles : ∀ path ∈ paths, ∃ ds, (∀ d ∈ ds, Path.IsName d) ∧
      path = Path.ofComponents true (root ++ ds)) {name : Text}
    (hname : FunctionName.IsHarmless name) (limit : Int) :
    ∃ t, Run.Answers fs (build (scan includeHeaders) tree limit name) (.ok t) ∧
      (t = terminal limit [] 0 name ↔ limit ≤ 0 ∨ paths.flatMap (callsIn fs tree name) = []) := by
  have hsites := fun n (hn : FunctionName.IsHarmless n) =>
    answers_callSites_below hroot hnames hw hpaths hfiles hn
  obtain ⟨t, ht, -⟩ :=
    exists_answers_build_both (fun n hn => ⟨_, hsites n hn, hsites n hn⟩) limit hname
  exact ⟨t, ht, eq_terminal_iff (isByName_scan tree includeHeaders fs) ht (hsites name hname)⟩

/-! ### Two roots -/

/-- **A root that is a link hides its folder.** Let two source trees be accepted with the same
patterns, and let their roots lead to the same folder, the second of them directly. Both
enumerations succeed. If the first root is a link then it lists nothing, and every valid name
resolves to a bare tree under it; under the other root this is so only if no level is allowed, or
nothing calls the function. If the first root is no link, whatever the way to it, then the same
files are listed relative to the roots, and if they can be read then every valid name resolves to
the same tree. -/
theorem linked_root_hides_its_folder {w : World} (hlive : w.context = .live)
    {path path' : Text} {excludes : List Text} {tree tree' : SourceTree}
    (htree : SourceTree.ofRoot w.files path excludes = .ok tree)
    (htree' : SourceTree.ofRoot w.files path' excludes = .ok tree')
    {entries : List (Text × Entry)} (hleads : w.files.stat tree.root = .ok (.folder entries))
    (hfolder : w.files.lstat tree'.root = .ok (.folder entries)) (includeHeaders : Bool) :
    ∃ paths paths', tree.files includeHeaders w = .ok paths w ∧
      tree'.files includeHeaders w = .ok paths' w ∧
      ((∃ target, w.files.lstat tree.root = .ok (.link target)) → paths = [] ∧
        ∀ name (limit : Int), FunctionName.validate name = .ok () → ∃ t calls u u' v,
          build (scan includeHeaders) tree limit name w = .ok (terminal limit [] 0 name) u ∧
            build (scan includeHeaders) tree' limit name w = .ok t u' ∧
            callSites (scan includeHeaders) tree' name w = .ok calls v ∧
            (t = terminal limit [] 0 name ↔ limit ≤ 0 ∨ calls = [])) ∧
      ((∀ target, w.files.lstat tree.root ≠ .ok (.link target)) →
        paths.map tree.relative = paths'.map tree'.relative ∧
        ((∀ p ∈ paths ++ paths', ∃ lines, readSource w.files p = .ok lines) →
          ∀ name (limit : Int), FunctionName.validate name = .ok () → ∃ t u u',
            build (scan includeHeaders) tree limit name w = .ok t u ∧
              build (scan includeHeaders) tree' limit name w = .ok t u')) := by
  have hw : w.IsSteady w.files := ⟨rfl, hlive⟩
  obtain ⟨root, hnames, hroot⟩ := SourceTree.exists_root_of_ofRoot htree
  obtain ⟨root', hnames', hroot'⟩ := SourceTree.exists_root_of_ofRoot htree'
  have hexcludes : tree.excludes = tree'.excludes := by
    rw [(SourceTree.ofRoot_eq_ok_iff.mp htree).2, (SourceTree.ofRoot_eq_ok_iff.mp htree').2]
  have hsound := FileSystem.isSound_of_lstat hfolder
  have hlisted' := @SourceTree.files_eq_of_lstat tree' includeHeaders w hlive _ hfolder
  have hbelow : ∀ {tree : SourceTree} {root : List Text},
      tree.root = Path.ofComponents true root → (∀ c ∈ root, Path.IsName c) →
      ∀ path ∈ SourceTree.listed (SourceTree.visits tree includeHeaders tree.root
        (Path.base tree.root) true (.folder entries)),
        ∃ ds, (∀ d ∈ ds, Path.IsName d) ∧ path = Path.ofComponents true (root ++ ds) := by
    intro tree root hroot hnames path hpath
    obtain ⟨ds, -, -, hds, heq, -⟩ :=
      SourceTree.exists_file_of_mem_listed hroot hnames hsound hpath
    exact ⟨ds, hds, heq⟩
  obtain ⟨e, he⟩ := FileSystem.exists_lstat_of_stat hleads
  have hlisted := @SourceTree.files_eq_of_lstat tree includeHeaders w hlive _ he
  refine ⟨_, _, hlisted, hlisted', ?_, fun hlink => ?_⟩
  · rintro ⟨target, htarget⟩
    obtain rfl := Except.ok.inj (he.symm.trans htarget)
    refine ⟨rfl, fun name limit hname => ?_⟩
    have hharmless := FunctionName.isHarmless_of_validate hname
    obtain ⟨t, ht, hbare⟩ := exists_answers_build_below hroot hnames hw hlisted
      (fun _ hpath => absurd hpath List.not_mem_nil) hharmless limit
    obtain rfl := hbare.mpr (.inr rfl)
    obtain ⟨t', ht', hbare'⟩ := exists_answers_build_below hroot' hnames' hw hlisted'
      (hbelow hroot' hnames') hharmless limit
    obtain ⟨u, -, hu⟩ := ht w hw
    obtain ⟨u', -, hu'⟩ := ht' w hw
    obtain ⟨v, -, hv⟩ := answers_callSites_below hroot' hnames' hw hlisted'
      (hbelow hroot' hnames') hharmless w hw
    exact ⟨t', _, u, u', v, hu, hu', hv, hbare'⟩
  · have hsame := FileSystem.stat_of_lstat he fun target heq => hlink target (heq ▸ he)
    obtain rfl := Except.ok.inj (hsame.symm.trans hleads)
    have hrelative := @SourceTree.map_relative_listed_visits tree tree' includeHeaders root root'
      hexcludes hroot hnames hroot' hnames' _ hsound [] (Path.base tree.root)
      (Path.base tree'.root) (by simp) (fun _ => rfl) (absurd rfl)
    rw [List.append_nil, List.append_nil, ← hroot, ← hroot'] at hrelative
    refine ⟨hrelative, fun hread name limit hname => ?_⟩
    have hdir' := FileSystem.stat_of_lstat hfolder fun _ => by simp
    have hsites : ∀ n, FunctionName.IsHarmless n → ∃ calls,
        Run.Answers w.files (callSites (scan includeHeaders) tree n) (.ok calls) ∧
          Run.Answers w.files (callSites (scan includeHeaders) tree' n) (.ok calls) := by
      intro n hn
      refine ⟨_, ?_, answers_callSites_below hroot' hnames' hw hlisted' (hbelow hroot' hnames') hn⟩
      rw [← flatMap_callsIn_eq hroot hnames hroot' hnames' hleads hdir' (fun path hpath =>
        SourceTree.exists_file_of_mem_listed hroot hnames hsound hpath)
        (hbelow hroot' hnames') hrelative hread n]
      exact answers_callSites_below hroot hnames hw hlisted (hbelow hroot hnames) hn
    obtain ⟨t, ht, ht'⟩ := exists_answers_build_both hsites limit
      (FunctionName.isHarmless_of_validate hname)
    obtain ⟨u, -, hu⟩ := ht w hw
    obtain ⟨u', -, hu'⟩ := ht' w hw
    exact ⟨t, u, u', hu, hu'⟩

/-- A folder with one call, a link to it, and a link further up. -/
def linkedFolder : FileSystem where
  tree := .folder [
    ("src", .folder [("a.c", .file 0o644 "void g()\n\x7b\n  f();\n\x7d\n".toUTF8.toList)]),
    ("link", .link "src"), ("up", .link "/")]

theorem lstat_linkedFolder :
    linkedFolder.lstat "/link" = .ok (.link "src") ∧
      ∃ entries, linkedFolder.stat "/link" = .ok (.folder entries) ∧
        linkedFolder.lstat "/src" = .ok (.folder entries) ∧
        linkedFolder.lstat "/up/src" = .ok (.folder entries) :=
  ⟨rfl, _, rfl, rfl, rfl⟩

/-- Under the link nothing is found; through the link further up the one call is. -/
theorem call_in_linkedFolder_is_hidden :
    ∃ t u u' x, SourceTree.files ⟨"/link", []⟩ false { files := linkedFolder } =
        .ok [] { files := linkedFolder } ∧
      build (scan false) ⟨"/link", []⟩ 3 "f" { files := linkedFolder } =
        .ok (terminal 3 [] 0 "f") u ∧
      build (scan false) ⟨"/src", []⟩ 3 "f" { files := linkedFolder } = .ok t u' ∧
      build (scan false) ⟨"/up/src", []⟩ 3 "f" { files := linkedFolder } = .ok t x ∧
      t ≠ terminal 3 [] 0 "f" := by
  have hroots : ∀ root ∈ ([Text.ofString "/link", Text.ofString "/src", Text.ofString "/up/src"]),
      (SourceTree.ofRoot linkedFolder root []).toOption = some ⟨root, []⟩ := by decide +kernel
  simp only [List.forall_mem_cons, List.not_mem_nil] at hroots
  obtain ⟨hlink, hsrc, hup, -⟩ := hroots
  have hname : FunctionName.validate "f" = .ok () := eq_ok_of_toOption (by decide +kernel)
  obtain ⟨hlinked, entries, hleads, hfolder, hdirect⟩ := lstat_linkedFolder
  obtain ⟨paths, -, hpaths, -, hhidden, -⟩ := linked_root_hides_its_folder
    (w := { files := linkedFolder }) rfl (eq_ok_of_toOption hlink) (eq_ok_of_toOption hsrc)
    hleads hfolder false
  obtain ⟨rfl, hbare⟩ := hhidden ⟨"src", hlinked⟩
  obtain ⟨t, calls, u, u', v, hu, hu', hv, hiff⟩ := hbare "f" 3 hname
  obtain ⟨paths, paths', hpathsUp, hpathsSrc, -, hsame⟩ := linked_root_hides_its_folder
    (w := { files := linkedFolder }) rfl (eq_ok_of_toOption hup) (eq_ok_of_toOption hsrc)
    (FileSystem.stat_of_lstat hdirect fun _ => by simp) hfolder false
  have hlisted : Run.result? (SourceTree.files ⟨"/up/src", []⟩ false) { files := linkedFolder } =
        some [Text.ofString "/up/src/a.c"] ∧
      Run.result? (SourceTree.files ⟨"/src", []⟩ false) { files := linkedFolder } =
        some [Text.ofString "/src/a.c"] := by decide +kernel
  rw [Run.result?_eq_some_iff.mpr ⟨_, hpathsUp⟩, Run.result?_eq_some_iff.mpr ⟨_, hpathsSrc⟩,
    Option.some.injEq, Option.some.injEq] at hlisted
  obtain ⟨rfl, rfl⟩ := hlisted
  have hread : ∀ p ∈ [Text.ofString "/up/src/a.c"] ++ [Text.ofString "/src/a.c"],
      (readSource linkedFolder p).toOption.isSome = true := by decide +kernel
  have hfound : (Run.result? (callSites (scan false) ⟨"/src", []⟩ "f")
      { files := linkedFolder }).map (·.length) = some 1 := by decide +kernel
  have hdirect : ∀ target, linkedFolder.lstat "/up/src" ≠ .ok (.link target) := by
    simp [hdirect]
  obtain ⟨t', x, x', hx, hx'⟩ := (hsame hdirect).2 (fun p hp =>
    (Option.isSome_iff_exists.mp (hread p hp)).imp fun _ => eq_ok_of_toOption) "f" 3 hname
  obtain ⟨rfl, -⟩ := EStateM.Result.ok.inj (hx'.symm.trans hu')
  refine ⟨t', u, u', x, hpaths, hu, hu', hx, fun hterminal => ?_⟩
  rw [Run.result?_eq_some_iff.mpr ⟨v, hv⟩, (hiff.mp hterminal).resolve_left (by decide)] at hfound
  simp at hfound

end Hierarchy

end CallerTree
