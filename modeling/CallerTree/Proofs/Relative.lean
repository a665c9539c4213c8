import Mathlib.Data.List.Flatten
import CallerTree.Proofs.Scan

/-!
# Relative paths and the way back

Occurrences carry paths relative to the root of the source tree, and a file is opened again under
the root and that path. Nothing should be lost on the way. By name nothing is: the path that comes
back is the cleaned one, and it determines the relative path.

## Names and places

Cleaning resolves `..` by name, while a file system goes to the folder above the one reached. The
two agree if the name before `..` is that of a folder, and differ if it is that of a link: then the
cleaned path may lead to another file, or to none. So the file of an occurrence is found again under
the condition `FileSystem.LeavesNoLink`.

## Proof outline

A path is followed from left to right, next to the stack of names that cleaning keeps. What has been
passed is where the names on the stack lead (`FileSystem.leads_cleaned`); at `..` the last name was
that of a folder, so the parent is where the other names lead.

## Main definitions

* `FileSystem.LeavesNoLink` — no `..` stands behind a link

## Main results

* `Path.clean_sublist` — cleaning only leaves out
* `FileSystem.stat_clean` — a path and its cleaned form lead to the same entry
* `SourceTree.relative_paths_lead_back` — nothing is lost
-/

namespace CallerTree

namespace Path

/-! ### Cleaning only leaves out -/

theorem slash_join (c : Text) (cs : List Text) :
    Text.ofString "/" ++ Text.join "/" (c :: cs) =
      (c :: cs).flatMap (Text.ofString "/" ++ ·) := by
  rw [Text.join, ← List.append_assoc, List.flatMap_cons]

/-- The parts between the slashes make up the path. -/
theorem join_split (p : Text) : Text.join "/" (p.split '/') = p := by
  induction p with
  | nil => rfl
  | cons g p ih =>
    obtain ⟨c, cs, hsplit⟩ : ∃ c cs, Text.split p '/' = c :: cs :=
      List.exists_cons_of_ne_nil (pieces_ne_nil p)
    rw [hsplit] at ih
    by_cases hg : g = .char '/'
    · have hcons : Text.split (g :: p) '/' = [] :: c :: cs := by
        rw [← hsplit]
        exact pieces_cons_of_pos (by simpa using hg) p
      rw [hcons, Text.join, List.nil_append, ← slash_join, ih, hg]
      rfl
    · have hcons : Text.split (g :: p) '/' = (g :: c) :: cs :=
        pieces_cons_of_neg (by simpa using hg) hsplit
      rw [hcons]
      exact congrArg (g :: ·) ih

theorem exists_split_of_isAbsolute {p : Text} (hp : isAbsolute p = true) :
    ∃ q : Text, p = .char '/' :: q ∧ p.split '/' = [] :: q.split '/' := by
  cases p with
  | nil => cases hp
  | cons g q =>
    obtain rfl : g = .char '/' := by simpa [isAbsolute] using hp
    exact ⟨q, rfl, pieces_cons_of_pos (by simp) q⟩

theorem push_sublist (rooted : Bool) {stack parts : List Text} (h : stack.reverse.Sublist parts)
    (c : Text) : (push rooted stack c).reverse.Sublist (parts ++ [c]) := by
  have hkeep : (c :: stack).reverse.Sublist (parts ++ [c]) := by
    rw [List.reverse_cons]
    exact h.append (List.Sublist.refl _)
  unfold push
  split
  · exact h.trans (List.sublist_append_left _ _)
  · split
    · cases stack with
      | nil =>
        cases rooted with
        | true => exact List.nil_sublist _
        | false => exact hkeep
      | cons top rest =>
        dsimp only
        split
        · exact hkeep
        · rw [List.reverse_cons] at h
          exact ((List.sublist_append_left _ _).trans h).trans (List.sublist_append_left _ _)
    · exact hkeep

/-- Of the parts of a path, cleaning keeps some, in their order. -/
theorem components_sublist (p : Text) : (components p).Sublist (p.split '/') := by
  have hfold : ∀ (vs us stack : List Text), stack.reverse.Sublist us →
      (vs.foldl (push (isAbsolute p)) stack).reverse.Sublist (us ++ vs) := by
    intro vs
    induction vs with
    | nil =>
      intro us stack h
      rwa [List.append_nil]
    | cons v vs ih =>
      intro us stack h
      rw [List.append_cons]
      exact ih _ _ (push_sublist _ h v)
  exact hfold (p.split '/') [] [] (List.Sublist.refl _)

/-- Cleaning an absolute path only leaves out. -/
theorem clean_sublist {p : Text} (hp : isAbsolute p = true) : (clean p).Sublist p := by
  obtain ⟨q, rfl, hsplit⟩ := exists_split_of_isAbsolute hp
  have hsub := components_sublist (.char '/' :: q)
  have hnames := isName_of_mem_components hp
  rw [hsplit] at hsub
  rw [clean, hp]
  generalize components (.char '/' :: q) = cs at hsub hnames
  cases cs with
  | nil => exact (List.nil_sublist q).cons_cons _
  | cons c cs =>
    have hparts : (c :: cs).Sublist (q.split '/') := by
      cases hsub with
      | cons _ h => exact h
      | cons_cons _ _ => exact absurd rfl (hnames [] List.mem_cons_self).ne_nil
    obtain ⟨d, ds, hq⟩ : ∃ d ds, q.split '/' = d :: ds :=
      List.exists_cons_of_ne_nil (pieces_ne_nil q)
    have hwhole : .char '/' :: q = (q.split '/').flatMap (Text.ofString "/" ++ ·) := by
      rw [hq, ← slash_join, ← hq, join_split]
      rfl
    change (Text.ofString "/" ++ Text.join "/" (c :: cs)).Sublist _
    rw [slash_join, hwhole]
    exact hparts.flatMap _

/-- Parts in front are a path in front. -/
theorem prefix_of_split {p dir : Text} {rest : List Text}
    (h : p.split '/' = dir.split '/' ++ rest) : dir <+: p := by
  obtain ⟨c, cs, hdir⟩ : ∃ c cs, dir.split '/' = c :: cs :=
    List.exists_cons_of_ne_nil (pieces_ne_nil dir)
  refine ⟨rest.flatMap (Text.ofString "/" ++ ·), ?_⟩
  conv_rhs => rw [← join_split p, h, hdir]
  conv_lhs => rw [← join_split dir, hdir]
  simp [Text.join]

/-- The names that cleaning keeps of the first parts of an absolute path, the last one first. -/
def kept (parts : List Text) : List Text := parts.foldl (push true) []

theorem kept_concat (parts : List Text) (c : Text) :
    kept (parts ++ [c]) = push true (kept parts) c := by
  rw [kept, List.foldl_append, List.foldl_cons, List.foldl_nil, kept]

/-- The first parts of an absolute path, if names are left of them, are a path of their own. -/
theorem exists_split_eq {p : Text} (hp : isAbsolute p = true) {us vs : List Text}
    (hsplit : p.split '/' = us ++ vs) (hne : kept us ≠ []) :
    ∃ dir, isAbsolute dir = true ∧ dir.split '/' = us := by
  obtain ⟨q, -, hq⟩ := exists_split_of_isAbsolute hp
  have hslash : ∀ u ∈ us, Glyph.char '/' ∉ u := by
    intro u hu hmem
    have hpart : u ∈ p.split '/' := hsplit ▸ List.mem_append_left vs hu
    exact not_of_mem_pieces hpart hmem (by simp)
  rw [hq] at hsplit
  obtain _ | ⟨u, us⟩ := us
  · exact absurd rfl hne
  · obtain rfl : [] = u := (List.cons.inj hsplit).1
    obtain _ | ⟨u, us⟩ := us
    · exact absurd rfl hne
    · exact ⟨Text.join "/" ([] :: u :: us), rfl, Path.split_join (List.cons_ne_nil _ _) hslash⟩

theorem components_of_split {dir : Text} (hdir : isAbsolute dir = true) {us : List Text}
    (h : dir.split '/' = us) : components dir = (kept us).reverse := by
  rw [components, hdir, h, kept]

end Path

namespace FileSystem

/-- No `..` of the path stands behind a link, where by name it goes back to the folder of the link
but leads to the folder above the link's target. -/
def LeavesNoLink (fs : FileSystem) (p : Text) : Prop :=
  ∀ (dir : Text) (rest : List Text), Path.isAbsolute dir = true →
    p.split '/' = dir.split '/' ++ Text.ofString ".." :: rest →
    ∀ target, fs.lstat (Path.clean dir) ≠ .ok (.link target)

theorem IsPath.of_sublist {p q : Text} (h : IsPath p) (hsub : q.Sublist p) (hne : q ≠ []) :
    IsPath q where
  zero_free := by
    rw [Bool.eq_false_iff]
    intro hzero
    have hmem : Glyph.char '\x00' ∈ q := Text.contains_singleton_iff.mp hzero
    have hfree := h.zero_free
    rw [Bool.eq_false_iff] at hfree
    exact hfree (Text.contains_singleton_iff.mpr (hsub.subset hmem))
  ne_nil := hne
  length_le := (hsub.flatMap _).length_le.trans h.length_le

/-! ### Following a path and its cleaned form -/

section Leads

variable {top : Entry} {links : Nat} {here : List Text} {place : Place}

/-- A name leads to the entry of that name, if it is not that of a link. -/
theorem Leads.components_eq_or_link {d : Text} (hd : Path.IsName d)
    (h : Leads top true links here [d] place) :
    place.components = here.reverse ++ [d] ∨
      ∃ target, top.get? (here.reverse ++ [d]) = some (.link target) := by
  cases h with
  | stay _ hc _ => exact absurd hc (not_or.mpr ⟨hd.ne_nil, hd.ne_dot⟩)
  | up _ hc _ => exact absurd hc hd.ne_dots
  | missing _ _ _ => exact .inl rfl
  | link _ _ _ hlast => cases hlast
  | jump _ _ hlink _ _ _ => exact .inr ⟨_, hlink⟩
  | down _ _ _ _ hrest =>
    cases hrest
    exact .inl List.reverse_cons

end Leads

variable {fs : FileSystem}

/-- Names that lead somewhere lead to the folder above without the last one, unless that is the name
of a link. -/
theorem exists_parent (htop : fs.top.IsFolderAt []) {ds : List Text} {d : Text}
    (hds : ∀ c ∈ ds ++ [d], Path.IsName c) (hpath : IsPath (Path.ofComponents true (ds ++ [d])))
    (hlink : ∀ target, fs.lstat (Path.ofComponents true (ds ++ [d])) ≠ .ok (.link target))
    {links : Nat} (hle : links ≤ linkLimit) {place : Place}
    (h : Leads fs.top true links [] (ds ++ [d]) place) :
    ∃ l ≤ links, ∃ cs, Leads fs.top true l [] ds ⟨cs, fs.top.get? cs⟩ ∧
      place.components = cs ++ [d] := by
  obtain ⟨l, l', cs, rfl, hfirst, hlast⟩ := h.exists_of_append (List.cons_ne_nil d [])
  have hd := hds d (List.mem_append_right _ List.mem_cons_self)
  refine ⟨l, Nat.le_add_right _ _, cs, hfirst, ?_⟩
  rcases hlast.components_eq_or_link hd with heq | ⟨target, htarget⟩
  · rwa [List.reverse_reverse] at heq
  · have hdown : IsDown d :=
      ⟨hd.ne_nil, hd.ne_dot, hd.ne_dots, hlast.length_le d List.mem_cons_self⟩
    obtain ⟨entries, hdir⟩ := hlast.isFolderAt
    rw [List.reverse_reverse] at hdir htarget
    have hends := hfirst.concat hdown hdir
    rw [htarget] at hends
    refine absurd ?_ (hlink target)
    exact lstat_eq_ok_iff.mpr (entry_eq_ok_iff.mpr ⟨_, (locate_ofComponents_eq_ok_iff hds).mpr
      ⟨hpath, .stay htop (.inl rfl) (hends.mono (by omega))⟩⟩)

section Clean

variable {p : Text} (hp : Path.isAbsolute p = true) (hpath : IsPath p) (hlinks : fs.LeavesNoLink p)
  (htop : fs.top.IsFolderAt [])

include hp hpath hlinks htop

/-- Before a `..` the names passed are those of a path of its own, which ends in no link. -/
theorem exists_parent_of_split {us vs ds cs : List Text} {d : Text} {links : Nat}
    (hle : links ≤ linkLimit) (hsplit : p.split '/' = us ++ Text.ofString ".." :: vs)
    (hstack : Path.kept us = d :: ds)
    (h : Leads fs.top true links [] (d :: ds).reverse ⟨cs, fs.top.get? cs⟩) :
    d ≠ ".." ∧ ∃ l ≤ links, ∃ cs', Leads fs.top true l [] ds.reverse ⟨cs', fs.top.get? cs'⟩ ∧
      cs = cs' ++ [d] := by
  obtain ⟨dir, hdir, hparts⟩ := Path.exists_split_eq hp hsplit (by simp [hstack])
  have hcomponents := Path.components_of_split hdir hparts
  have hnames := Path.isName_of_mem_components hdir
  rw [hstack, List.reverse_cons] at hcomponents
  rw [hcomponents] at hnames
  have hclean : Path.clean dir = Path.ofComponents true (ds.reverse ++ [d]) := by
    rw [Path.clean, hdir, hcomponents]
  have hlink := hlinks dir vs hdir (by rw [hparts, hsplit])
  have hsub := (Path.clean_sublist hdir).trans
    (Path.prefix_of_split (hparts.symm ▸ hsplit)).sublist
  rw [hclean] at hlink hsub
  rw [List.reverse_cons] at h
  exact ⟨(hnames d (List.mem_append_right _ List.mem_cons_self)).ne_dots, exists_parent htop hnames
    (hpath.of_sublist hsub (Path.ofComponents_ne_nil hnames true)) hlink hle h⟩

/-- What is left to be followed of a path, from where the names of the parts passed lead. -/
theorem leads_cleaned {place : Place} (vs : List Text) :
    ∀ (us : List Text) (l l' : Nat) (cs : List Text), l + l' ≤ linkLimit →
      p.split '/' = us ++ vs →
      Leads fs.top true l [] (Path.kept us).reverse ⟨cs, fs.top.get? cs⟩ →
      Leads fs.top true l' cs.reverse vs place →
      Leads fs.top true (l + l') [] (Path.kept (us ++ vs)).reverse place := by
  induction vs with
  | nil =>
    intro us l l' cs _ _ hpassed hrest
    cases hrest
    rw [List.reverse_reverse, List.append_nil]
    exact hpassed.mono (Nat.le_add_right _ _)
  | cons c vs ih =>
    intro us l l' cs hle hsplit hpassed hrest
    have hfound : fs.top.get? cs ≠ none := by
      obtain ⟨entries, hdir⟩ := hrest.isFolderAt
      rw [List.reverse_reverse] at hdir
      simp [hdir]
    have hnext := Path.kept_concat us c
    have hmore : p.split '/' = (us ++ [c]) ++ vs := by rw [hsplit, List.append_cons]
    rw [List.append_cons]
    by_cases hstay : c = [] ∨ c = "."
    · -- The part is passed over, in the file system as in the names.
      have hsame : Path.push true (Path.kept us) c = Path.kept us := if_pos hstay
      exact ih (us ++ [c]) l l' cs hle hmore (by rwa [hnext, hsame])
        ((leads_stay_iff hstay).mp hrest).2
    · by_cases hup : c = ".."
      · subst hup
        have hrest := (leads_up_iff.mp hrest).2
        generalize hstack : Path.kept us = stack at hpassed hnext
        cases stack with
        | nil =>
          cases hpassed
          exact ih (us ++ [_]) l l' [] hle hmore (by rw [hnext]; exact .done) hrest
        | cons d ds =>
          -- The last name goes, and with it the last step down.
          obtain ⟨hd, l₁, hl₁, cs', hparent, rfl⟩ := exists_parent_of_split hp hpath hlinks htop
            (by omega) hsplit hstack hpassed
          have hpop : Path.push true (d :: ds) ".." = ds := by
            rw [Path.push, if_neg hstay, if_pos rfl]
            exact if_neg hd
          refine (ih (us ++ [_]) l₁ l' cs' (by omega) hmore ?_ ?_).mono (by omega)
          · rwa [hnext, hpop]
          · rwa [List.reverse_append] at hrest
      · -- A name: where it leads is where the names with it lead.
        have hpush : Path.push true (Path.kept us) c = c :: Path.kept us := by
          unfold Path.push
          rw [if_neg hstay, if_neg hup]
        rw [hpush] at hnext
        by_cases hvs : vs = []
        · subst hvs
          rw [List.append_nil, hnext, List.reverse_cons]
          exact hpassed.append hfound hrest (by simp)
        · have hparts : Leads fs.top true l' cs.reverse ([c] ++ vs) place := hrest
          obtain ⟨l₁, l₂, ds, rfl, hfirst, hrest⟩ := hparts.exists_of_append hvs
          rw [← Nat.add_assoc]
          refine ih (us ++ [c]) (l + l₁) l₂ ds (by omega) hmore ?_ hrest
          rw [hnext, List.reverse_cons]
          exact hpassed.append hfound hfirst (by simp)

end Clean

/-- A path in which no `..` stands behind a link and its cleaned form lead to the same place. -/
theorem locate_clean {p : Text} (hp : Path.isAbsolute p = true) (hlinks : fs.LeavesNoLink p)
    {place : Place} (h : fs.locate true p = .ok place) :
    fs.locate true (Path.clean p) = .ok place := by
  obtain ⟨hpath, hleads⟩ := locate_eq_ok_iff.mp h
  rw [hp, if_pos rfl] at hleads
  obtain ⟨q, -, hsplit⟩ := Path.exists_split_of_isAbsolute hp
  have htop : fs.top.IsFolderAt [] := by
    rw [hsplit] at hleads
    exact hleads.isFolderAt
  have hnames := Path.isName_of_mem_components hp
  have hcleaned := leads_cleaned hp hpath hlinks htop (p.split '/') [] 0 linkLimit []
    (Nat.zero_add _).le rfl .done hleads
  rw [List.nil_append, ← Path.components_of_split hp rfl, Nat.zero_add] at hcleaned
  have hclean : Path.clean p = Path.ofComponents true (Path.components p) := by rw [Path.clean, hp]
  rw [hclean]
  refine (locate_ofComponents_eq_ok_iff hnames).mpr ⟨?_, .stay htop (.inl rfl) hcleaned⟩
  exact hclean ▸ hpath.of_sublist (Path.clean_sublist hp)
    (hclean ▸ Path.ofComponents_ne_nil hnames true)

end FileSystem

namespace SourceTree

open Locator (readSource)
open Hierarchy (sourcePath)

/-! ### There and back -/

section Relative

variable {tree : SourceTree} {root : List Text} {p : Text}

/-- Below the root a path is written with the names that follow those of the root. -/
theorem exists_relative_eq (hroot : tree.root = Path.ofComponents true root)
    (hnames : ∀ c ∈ root, Path.IsName c) (hp : Path.isAbsolute p = true)
    (h : root <+: Path.components p) :
    ∃ ds, (∀ d ∈ ds, Path.IsName d) ∧ tree.relative p = Path.ofComponents false ds ∧
      Path.clean p = Path.ofComponents true (root ++ ds) := by
  obtain ⟨ds, hds⟩ := h
  have hall := Path.isName_of_mem_components hp
  rw [← hds] at hall
  refine ⟨ds, (List.forall_mem_append.mp hall).2, ?_, by rw [hds, Path.clean, hp]⟩
  rw [relative, Path.relativeTo, hroot, Path.isAbsolute_ofComponents hnames, hp,
    Path.components_ofComponents hnames, ← hds, Path.below?_append]
  rfl

theorem relative_eq_self (hroot : tree.root = Path.ofComponents true root)
    (hnames : ∀ c ∈ root, Path.IsName c) (hp : Path.isAbsolute p = true)
    (h : ¬ root <+: Path.components p) : tree.relative p = p := by
  rw [relative, Path.relativeTo, hroot, Path.isAbsolute_ofComponents hnames, hp,
    Path.components_ofComponents hnames, Bool.and_self, if_pos rfl]
  split
  · rename_i ds hds
    exact absurd ⟨ds, (Path.eq_append_of_below? hds).symm⟩ h
  · rfl

/-- The path that is opened again is the cleaned one if that is below the root, and the path itself
otherwise. -/
theorem sourcePath_relative_eq (hroot : tree.root = Path.ofComponents true root)
    (hnames : ∀ c ∈ root, Path.IsName c) (hp : Path.isAbsolute p = true) :
    sourcePath tree.root (tree.relative p) =
      if root <+: Path.components p then Path.clean p else p := by
  split
  · rename_i hbelow
    obtain ⟨ds, hds, hrelative, hcleaned⟩ := exists_relative_eq hroot hnames hp hbelow
    rw [hrelative, hcleaned, sourcePath, Path.isAbsolute_ofComponents hds, if_neg (by simp), hroot,
      Path.join_ofComponents_ofComponents hnames hds]
  · rename_i houtside
    rw [relative_eq_self hroot hnames hp houtside, sourcePath, if_pos hp]

end Relative

theorem dots_not_mem_split_ofComponents {ds : List Text} (hds : ∀ d ∈ ds, Path.IsName d) :
    Text.ofString ".." ∉ (Path.ofComponents false ds).split '/' := by
  cases ds with
  | nil => decide
  | cons d ds =>
    have hsplit : (Path.ofComponents false (d :: ds)).split '/' = d :: ds :=
      Path.split_join (List.cons_ne_nil d ds) fun c hc => (hds c hc).slash_not_mem
    rw [hsplit]
    exact fun hmem => (hds _ hmem).ne_dots rfl

/-- **Nothing is lost on the way to a relative path.** Let the root be a clean absolute path. An
absolute path whose names start with those of the root is written without `..` and without the
root, and joined to the root it is the cleaned path; any other absolute path stays as it is. Two
paths below the root are written alike exactly if they are alike when cleaned. The file at an
absolute path is read again under what is written, if no `..` of the path stands behind a link. -/
theorem relative_paths_lead_back (tree : SourceTree)
    (habsolute : Path.isAbsolute tree.root = true) (hclean : Path.clean tree.root = tree.root) :
    (∀ p, Path.isAbsolute p = true → Path.components tree.root <+: Path.components p →
      Path.isAbsolute (tree.relative p) = false ∧
        Text.ofString ".." ∉ (tree.relative p).split '/' ∧
        Path.join tree.root (tree.relative p) = Path.clean p) ∧
    (∀ p, Path.isAbsolute p = true → ¬ Path.components tree.root <+: Path.components p →
      tree.relative p = p) ∧
    (∀ p q, Path.isAbsolute p = true → Path.isAbsolute q = true →
      Path.components tree.root <+: Path.components p →
      Path.components tree.root <+: Path.components q →
      (tree.relative p = tree.relative q ↔ Path.clean p = Path.clean q)) ∧
    ∀ (fs : FileSystem) (p : Text) (lines : List Text), Path.isAbsolute p = true →
      fs.LeavesNoLink p → readSource fs p = .ok lines →
        readSource fs (sourcePath tree.root (tree.relative p)) = .ok lines := by
  have hnames := Path.isName_of_mem_components habsolute
  have hroot : tree.root = Path.ofComponents true (Path.components tree.root) := by
    rw [← habsolute, ← Path.clean, hclean]
  generalize Path.components tree.root = root at hnames hroot ⊢
  refine ⟨fun p hp h => ?_, fun p hp h => relative_eq_self hroot hnames hp h,
    fun p q hp hq h h' => ?_, fun fs p lines hp hlinks hread => ?_⟩
  · obtain ⟨ds, hds, hrelative, hcleaned⟩ := exists_relative_eq hroot hnames hp h
    rw [hrelative, hcleaned, hroot]
    exact ⟨Path.isAbsolute_ofComponents hds false, dots_not_mem_split_ofComponents hds,
      Path.join_ofComponents_ofComponents hnames hds⟩
  · obtain ⟨ds, hds, hrelative, hcleaned⟩ := exists_relative_eq hroot hnames hp h
    obtain ⟨ds', hds', hrelative', hcleaned'⟩ := exists_relative_eq hroot hnames hq h'
    rw [hrelative, hrelative', hcleaned, hcleaned']
    constructor
    · intro heq
      rw [Path.eq_of_ofComponents_eq hds hds' heq]
    · intro heq
      have hsame := Path.eq_of_ofComponents_eq (List.forall_mem_append.mpr ⟨hnames, hds⟩)
        (List.forall_mem_append.mpr ⟨hnames, hds'⟩) heq
      rw [List.append_cancel_left hsame]
  · rw [sourcePath_relative_eq hroot hnames hp]
    split
    · obtain ⟨data, hdata, rfl⟩ := Locator.readSource_eq_ok_iff.mp hread
      obtain ⟨cs, mode, hlocate, hopens⟩ := FileSystem.read_eq_ok_iff.mp hdata
      have hcleaned := FileSystem.locate_clean hp hlinks hlocate
      exact Locator.readSource_eq_ok_iff.mpr
        ⟨data, FileSystem.read_eq_ok_iff.mpr ⟨cs, mode, hcleaned, hopens⟩, rfl⟩
    · exact hread

/-- Below `/r`, a file next to a folder, and a link to the folder from elsewhere. -/
def linkedParent : FileSystem where
  tree := .folder [("r", .folder [
    ("x", .folder [("a.c", .file 0o644 "void h()\n\x7b\n  f();\n\x7d\n".toUTF8.toList),
      ("d", .folder [])]),
    ("l", .link "x/d")])]

/-- The file is found again from the folder, by the path that is cleaned of a double slash and of
`..`. A path that only starts with the same letters as the root stays as it is. -/
theorem parent_of_folder_is_found_again :
    ∃ lines, readSource linkedParent "/r/x//d/../a.c" = .ok lines ∧
      relative ⟨"/r", []⟩ "/r/x//d/../a.c" = "x/a.c" ∧
      readSource linkedParent (sourcePath "/r" (relative ⟨"/r", []⟩ "/r/x//d/../a.c")) = .ok lines ∧
      relative ⟨"/r", []⟩ "/rx/a.c" = "/rx/a.c" := by
  obtain ⟨-, houtside, -, hagain⟩ :=
    relative_paths_lead_back ⟨"/r", []⟩ (by decide) (by decide +kernel)
  have hread : (readSource linkedParent "/r/x//d/../a.c").toOption.isSome = true := by
    decide +kernel
  obtain ⟨lines, hlines⟩ := Option.isSome_iff_exists.mp hread
  have hlines := eq_ok_of_toOption hlines
  refine ⟨lines, hlines, by decide +kernel, hagain _ _ _ (by decide) ?_ hlines,
    houtside _ (by decide) (by decide +kernel)⟩
  intro dir rest hdir hsplit target htarget
  have hsplit' : Text.split "/r/x//d/../a.c" '/' =
      (["", "r", "x", "", "d"] : List Text) ++ Text.ofString ".." :: ["a.c"] := by decide +kernel
  rw [hsplit', List.append_cons_inj_of_notMem (by decide +kernel) (by decide +kernel)] at hsplit
  rw [Path.clean, hdir, Path.components_of_split hdir hsplit.1.symm] at htarget
  have hfolder : ∃ entries, linkedParent.lstat "/r/x/d" = .ok (.folder entries) := ⟨_, rfl⟩
  obtain ⟨entries, hfolder⟩ := hfolder
  cases hfolder.symm.trans htarget

/-- From the link the file is not found again: the cleaned path leads to nothing. -/
theorem parent_of_link_is_not_found_again :
    Path.components "/r" <+: Path.components "/r/l/../a.c" ∧
      (∃ lines, readSource linkedParent "/r/l/../a.c" = .ok lines) ∧
      ∀ lines, readSource linkedParent
        (sourcePath "/r" (relative ⟨"/r", []⟩ "/r/l/../a.c")) ≠ .ok lines := by
  have hread : (readSource linkedParent "/r/l/../a.c").toOption.isSome = true := by decide +kernel
  have hagain : (readSource linkedParent
      (sourcePath "/r" (relative ⟨"/r", []⟩ "/r/l/../a.c"))).toOption = none := by decide +kernel
  obtain ⟨lines, hlines⟩ := Option.isSome_iff_exists.mp hread
  refine ⟨by decide +kernel, ⟨lines, eq_ok_of_toOption hlines⟩, fun lines' hlines' => ?_⟩
  rw [hlines'] at hagain
  cases hagain

end SourceTree

end CallerTree
