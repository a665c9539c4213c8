import CallerTree.FileSystem
import CallerTree.Proofs.Path

/-!
# Trees of files

What lies below an entry is read off with `Entry.get?`. This module relates it to the resolution of
paths, through links. Resolution is a nest of two recursions, one along the path and one over the
links still to be followed; `FileSystem.Leads` has one constructor for each step instead, so that a
fact about resolved paths is one induction.

## Main definitions

* `FileSystem.Leads` — the steps in which a path is resolved

## Main results

* `FileSystem.leads_iff`, `FileSystem.locate_eq_ok_iff` — these are the steps that resolution takes
* `FileSystem.entry_eq_of_locate` — a path leads to what lies at the place found for it
* `FileSystem.Leads.append`, `FileSystem.Leads.exists_of_append` — paths are resolved part by part
* `FileSystem.Leads.exists_folder`, `FileSystem.Leads.concat` — a path one name further
-/

namespace CallerTree

namespace Entry

/-! ### Going down -/

/-- With distinct names every entry is found under its name. -/
theorem child?_of_mem {entries : List (Text × Entry)} (hnames : (entries.map (·.1)).Nodup)
    {name : Text} {f : Entry} (h : (name, f) ∈ entries) :
    (folder entries).child? name = some f := by
  induction entries with
  | nil => simp at h
  | cons p entries ih =>
    rw [List.map_cons, List.nodup_cons] at hnames
    rcases List.mem_cons.mp h with rfl | h
    · simp [child?]
    · have hne : p.1 ≠ name := by
        rintro rfl
        exact hnames.1 (List.mem_map.mpr ⟨_, h, rfl⟩)
      have hrest := ih hnames.2 h
      rw [child?] at hrest ⊢
      rw [List.find?_cons_of_neg (by simpa using hne), hrest]

theorem get?_cons (e : Entry) (c : Text) (cs : List Text) :
    e.get? (c :: cs) = (e.child? c).bind (·.get? cs) := by
  rw [get?]
  cases e.child? c <;> rfl

theorem get?_append (e : Entry) (cs ds : List Text) :
    e.get? (cs ++ ds) = (e.get? cs).bind (·.get? ds) := by
  induction cs generalizing e with
  | nil => rfl
  | cons c cs ih =>
    rw [List.cons_append, get?_cons, get?_cons, Option.bind_assoc]
    exact congrArg _ (funext ih)

theorem get?_concat (e : Entry) (cs : List Text) (c : Text) :
    e.get? (cs ++ [c]) = (e.get? cs).bind (·.child? c) := by
  rw [get?_append]
  refine congrArg _ (funext fun f => ?_)
  rw [get?_cons]
  cases f.child? c <;> rfl

/-- What holds of an entry and passes to the entries of a folder holds of all that lies below. -/
theorem of_get? {P : Entry → Prop}
    (hchild : ∀ (e f : Entry) (name : Text), P e → e.child? name = some f → P f) {e f : Entry}
    (he : P e) {cs : List Text} (h : e.get? cs = some f) : P f := by
  induction cs generalizing e with
  | nil =>
    obtain rfl := Option.some.inj h
    exact he
  | cons c cs ih =>
    rw [get?_cons, Option.bind_eq_some_iff] at h
    obtain ⟨g, hg, h⟩ := h
    exact ih (hchild _ _ _ he hg) h

/-- Only a link lies at or below a link. -/
theorem not_link_of_get? {e f : Entry} {cs : List Text} (h : e.get? cs = some f)
    (hf : ∀ target, f ≠ .link target) : ∀ target, e ≠ .link target := by
  rintro target rfl
  cases cs with
  | nil => exact hf target (Option.some.inj h).symm
  | cons c cs => simp [get?_cons, child?] at h

/-- What lies below an entry is reached by names. -/
theorem IsSound.isName_of_get? {e f : Entry} (he : e.IsSound) {ds : List Text}
    (h : e.get? ds = some f) : ∀ d ∈ ds, Path.IsName d := by
  induction ds generalizing e with
  | nil => simp
  | cons d ds ih =>
    rw [get?_cons, Option.bind_eq_some_iff] at h
    obtain ⟨g, hchild, h⟩ := h
    refine List.forall_mem_cons.mpr ⟨?_, ih (he.child? hchild) h⟩
    obtain ⟨entries, rfl⟩ := exists_folder_of_child? hchild
    obtain _ | _ | ⟨hnames, -, -⟩ := he
    exact hnames _ (mem_of_child? hchild)

end Entry

/-! ### Resolving a path -/

/-- There is a folder at these components. -/
def Entry.IsFolderAt (top : Entry) (cs : List Text) : Prop :=
  ∃ entries, top.get? cs = some (.folder entries)

namespace FileSystem

/-- A component that leads down, to the entry of that name. -/
def IsDown (c : Text) : Prop := c ≠ [] ∧ c ≠ "." ∧ c ≠ ".." ∧ c.utf8.length ≤ nameLimit

/-- The ways in which `todo` leads from the folder at `here`, whose last component comes first, to a
place; at most `links` links are followed. -/
inductive Leads (top : Entry) (followLast : Bool) :
    (links : Nat) → (here todo : List Text) → Place → Prop
  | done {links : Nat} {here : List Text} :
    Leads top followLast links here [] ⟨here.reverse, top.get? here.reverse⟩
  | stay {links : Nat} {here todo : List Text} {c : Text} {place : Place}
    (hdir : top.IsFolderAt here.reverse) (hc : c = [] ∨ c = ".")
    (hrest : Leads top followLast links here todo place) :
    Leads top followLast links here (c :: todo) place
  | up {links : Nat} {here todo : List Text} {c : Text} {place : Place}
    (hdir : top.IsFolderAt here.reverse) (hc : c = "..")
    (hrest : Leads top followLast links here.tail todo place) :
    Leads top followLast links here (c :: todo) place
  | missing {links : Nat} {here : List Text} {c : Text}
    (hdir : top.IsFolderAt here.reverse) (hc : IsDown c)
    (hnone : top.get? (here.reverse ++ [c]) = none) :
    Leads top followLast links here [c] ⟨here.reverse ++ [c], none⟩
  | link {links : Nat} {here : List Text} {c target : Text}
    (hdir : top.IsFolderAt here.reverse) (hc : IsDown c)
    (hlink : top.get? (here.reverse ++ [c]) = some (.link target)) (hlast : followLast = false) :
    Leads top followLast links here [c] ⟨here.reverse ++ [c], some (.link target)⟩
  | jump {links : Nat} {here todo : List Text} {c target : Text} {place : Place}
    (hdir : top.IsFolderAt here.reverse) (hc : IsDown c)
    (hlink : top.get? (here.reverse ++ [c]) = some (.link target))
    (hlast : todo = [] → followLast = true) (htarget : target ≠ [])
    (hrest : Leads top followLast links (if Path.isAbsolute target then [] else here)
      (target.split '/' ++ todo) place) :
    Leads top followLast (links + 1) here (c :: todo) place
  | down {links : Nat} {here todo : List Text} {c : Text} {e : Entry} {place : Place}
    (hdir : top.IsFolderAt here.reverse) (hc : IsDown c)
    (he : top.get? (here.reverse ++ [c]) = some e) (hlink : ∀ target, e ≠ .link target)
    (hrest : Leads top followLast links (c :: here) todo place) :
    Leads top followLast links here (c :: todo) place

/-- How a path goes on behind a link, when `links` more may be followed. -/
def jumpWith (top : Entry) (followLast : Bool) :
    (links : Nat) → (target : Text) → (here todo : List Text) → Except FileError Place
  | 0, _, _, _ => .error .tooManyLinks
  | links + 1, target, here, todo =>
    if target.isEmpty then .error .missing
    else follow top followLast links (if Path.isAbsolute target then [] else here)
      (target.split '/' ++ todo)

theorem follow_eq (top : Entry) (followLast : Bool) (links : Nat) :
    follow top followLast links = followWith (jumpWith top followLast links) top followLast := by
  cases links <;> rfl

section Leads

variable {top : Entry} {followLast : Bool} {links : Nat} {here todo : List Text} {place : Place}

/-- The child of the folder reached is what lies one component further. -/
theorem get?_concat_of_folder {dir : Entry} (hdir : top.get? here.reverse = some dir) (c : Text) :
    top.get? (here.reverse ++ [c]) = dir.child? c := by
  rw [Entry.get?_concat, hdir]
  rfl

theorem isFolderAt_of_isFolder {cs : List Text} {dir : Entry} (hdir : top.get? cs = some dir)
    (hfolder : dir.isFolder = true) : top.IsFolderAt cs := by
  cases dir with
  | folder entries => exact ⟨entries, hdir⟩
  | file mode data => cases hfolder
  | link target => cases hfolder

/-- What is found with `followWith` is led to, if that holds behind each link. -/
theorem leads_of_followWith
    (hjump : ∀ here c target todo place, top.IsFolderAt here.reverse → IsDown c →
      top.get? (here.reverse ++ [c]) = some (.link target) → (todo = [] → followLast = true) →
      jumpWith top followLast links target here todo = .ok place →
      Leads top followLast links here (c :: todo) place) (todo : List Text) :
    ∀ here : List Text,
      followWith (jumpWith top followLast links) top followLast here todo = .ok place →
        Leads top followLast links here todo place := by
  induction todo with
  | nil =>
    intro here h
    rw [followWith] at h
    cases h
    exact .done
  | cons c todo ih =>
    intro here h
    rw [followWith] at h
    split at h
    · cases h
    · rename_i dir hdir
      split at h
      · cases h
      · rename_i hfolder
        have hat : top.IsFolderAt here.reverse :=
          isFolderAt_of_isFolder hdir (by simpa using hfolder)
        split at h
        · rename_i hc
          exact .stay hat hc (ih _ h)
        · rename_i hstay
          split at h
          · rename_i hc
            exact .up hat hc (ih _ h)
          · rename_i hup
            split at h
            · cases h
            · rename_i hlong
              have hc : IsDown c :=
                ⟨fun hc => hstay (.inl hc), fun hc => hstay (.inr hc), hup, Nat.le_of_not_lt hlong⟩
              split at h
              · rename_i hnone
                rw [← get?_concat_of_folder hdir] at hnone
                split at h
                · rename_i hlast
                  obtain rfl := List.isEmpty_iff.mp hlast
                  cases h
                  rw [List.reverse_cons]
                  exact .missing hat hc hnone
                · cases h
              · rename_i target hlink
                rw [← get?_concat_of_folder hdir] at hlink
                split at h
                · rename_i hlast
                  simp only [Bool.and_eq_true, List.isEmpty_iff, Bool.not_eq_true'] at hlast
                  obtain ⟨rfl, hlast⟩ := hlast
                  cases h
                  rw [List.reverse_cons]
                  exact .link hat hc hlink hlast
                · rename_i hlast
                  refine hjump _ _ _ _ _ hat hc hlink ?_ h
                  rintro rfl
                  simpa using hlast
              · rename_i e hlink hchild
                rw [← get?_concat_of_folder hdir] at hchild
                exact .down hat hc hchild (fun target => hlink target) (ih _ h)

theorem leads_of_follow :
    follow top followLast links here todo = .ok place →
      Leads top followLast links here todo place := by
  induction links generalizing here todo place with
  | zero =>
    intro h
    rw [follow_eq] at h
    exact leads_of_followWith (fun _ _ _ _ _ _ _ _ _ h => by cases h) todo here h
  | succ links ih =>
    intro h
    rw [follow_eq] at h
    refine leads_of_followWith (fun _ _ _ _ _ hdir hc hlink hlast h => ?_) todo here h
    rw [jumpWith] at h
    split at h
    · cases h
    · rename_i htarget
      exact .jump hdir hc hlink hlast (by simpa using htarget) (ih h)

/-- Each rule uses up a component or a link, as `follow` does. -/
theorem follow_of_leads (h : Leads top followLast links here todo place) :
    follow top followLast links here todo = .ok place := by
  induction h with
  | done => rw [follow_eq, followWith]
  | stay hdir hc _ ih =>
    obtain ⟨entries, hdir⟩ := hdir
    rw [follow_eq] at ih ⊢
    rw [followWith, hdir]
    simp [Entry.isFolder, hc, ih]
  | up hdir hc _ ih =>
    obtain ⟨entries, hdir⟩ := hdir
    rw [follow_eq] at ih ⊢
    rw [followWith, hdir]
    subst hc
    have hstay : ¬ (Text.ofString ".." = [] ∨ Text.ofString ".." = ".") := by decide
    simp [Entry.isFolder, hstay, ih]
  | missing hdir hc hnone =>
    obtain ⟨entries, hdir⟩ := hdir
    rw [get?_concat_of_folder hdir] at hnone
    rw [follow_eq, followWith, hdir]
    simp [Entry.isFolder, hc.1, hc.2.1, hc.2.2.1, Nat.not_lt.mpr hc.2.2.2, hnone]
  | link hdir hc hlink hlast =>
    obtain ⟨entries, hdir⟩ := hdir
    rw [get?_concat_of_folder hdir] at hlink
    rw [follow_eq, followWith, hdir]
    simp [Entry.isFolder, hc.1, hc.2.1, hc.2.2.1, Nat.not_lt.mpr hc.2.2.2, hlink, hlast]
  | @jump _ _ todo _ _ _ hdir hc hlink hlast htarget _ ih =>
    obtain ⟨entries, hdir⟩ := hdir
    rw [get?_concat_of_folder hdir] at hlink
    have hgoes : ¬ (todo = [] ∧ followLast = false) := fun h => by
      rw [hlast h.1] at h
      cases h.2
    rw [follow_eq, followWith, hdir]
    simp [Entry.isFolder, hc.1, hc.2.1, hc.2.2.1, Nat.not_lt.mpr hc.2.2.2, hlink, hgoes, jumpWith,
      htarget, ih]
  | @down _ _ _ _ e _ hdir hc he hlink _ ih =>
    obtain ⟨entries, hdir⟩ := hdir
    rw [get?_concat_of_folder hdir] at he
    rw [follow_eq] at ih ⊢
    rw [followWith, hdir]
    simp only [Entry.isFolder, hc.1, hc.2.1, hc.2.2.1, Nat.not_lt.mpr hc.2.2.2, he]
    cases e with
    | link target => exact absurd rfl (hlink target)
    | file mode data => simpa using ih
    | folder entries => simpa using ih

theorem leads_iff : Leads top followLast links here todo place ↔
    follow top followLast links here todo = .ok place :=
  ⟨follow_of_leads, leads_of_follow⟩

/-- Whatever is led to lies at its place. -/
theorem Leads.entry_eq (h : Leads top followLast links here todo place) :
    place.entry = top.get? place.components := by
  induction h with
  | done => rfl
  | stay _ _ _ ih => exact ih
  | up _ _ _ ih => exact ih
  | missing _ _ hnone => exact hnone.symm
  | link _ _ hlink _ => exact hlink.symm
  | jump _ _ _ _ _ _ ih => exact ih
  | down _ _ _ _ _ ih => exact ih

/-- It matters for a link at the end only whether that is followed. -/
theorem Leads.of_not_link (h : Leads top false links here todo place)
    (hlink : ∀ target, place.entry ≠ some (.link target)) :
    Leads top true links here todo place := by
  induction h with
  | done => exact .done
  | stay hdir hc _ ih => exact .stay hdir hc (ih hlink)
  | up hdir hc _ ih => exact .up hdir hc (ih hlink)
  | missing hdir hc hnone => exact .missing hdir hc hnone
  | link _ _ _ _ => exact absurd rfl (hlink _)
  | jump hdir hc hlink' _ htarget _ ih =>
    exact .jump hdir hc hlink' (fun _ => rfl) htarget (ih hlink)
  | down hdir hc he hlink' _ ih => exact .down hdir hc he hlink' (ih hlink)

/-- A path that looks past a link at its end leads to something, if it does when that is
followed. -/
theorem Leads.exists_lstat (h : Leads top true links here todo place)
    (hfound : place.entry ≠ none) : ∃ cs e, Leads top false links here todo ⟨cs, some e⟩ := by
  induction h with
  | @done links here =>
    obtain ⟨e, he⟩ := Option.ne_none_iff_exists'.mp hfound
    refine ⟨here.reverse, e, ?_⟩
    rw [← he]
    exact .done
  | stay hdir hc _ ih =>
    obtain ⟨cs, e, h⟩ := ih hfound
    exact ⟨cs, e, .stay hdir hc h⟩
  | up hdir hc _ ih =>
    obtain ⟨cs, e, h⟩ := ih hfound
    exact ⟨cs, e, .up hdir hc h⟩
  | missing _ _ _ => exact absurd rfl hfound
  | link _ _ _ hlast => cases hlast
  | @jump _ _ todo _ _ _ hdir hc hlink _ htarget _ ih =>
    by_cases htodo : todo = []
    · subst htodo
      exact ⟨_, _, .link hdir hc hlink rfl⟩
    · obtain ⟨cs, e, h⟩ := ih hfound
      exact ⟨cs, e, .jump hdir hc hlink (absurd · htodo) htarget h⟩
  | down hdir hc he hlink _ ih =>
    obtain ⟨cs, e, h⟩ := ih hfound
    exact ⟨cs, e, .down hdir hc he hlink h⟩

theorem Leads.isFolderAt {c : Text} (h : Leads top followLast links here (c :: todo) place) :
    top.IsFolderAt here.reverse := by
  cases h with
  | stay hdir _ _ => exact hdir
  | up hdir _ _ => exact hdir
  | missing hdir _ _ => exact hdir
  | link hdir _ _ _ => exact hdir
  | jump hdir _ _ _ _ _ => exact hdir
  | down hdir _ _ _ _ => exact hdir

theorem Leads.length_le (h : Leads top followLast links here todo place) :
    ∀ c ∈ todo, c.utf8.length ≤ nameLimit := by
  induction h with
  | done => simp
  | stay _ hc _ ih =>
    refine List.forall_mem_cons.mpr ⟨?_, ih⟩
    rcases hc with rfl | rfl <;> decide
  | up _ hc _ ih =>
    subst hc
    exact List.forall_mem_cons.mpr ⟨by decide, ih⟩
  | missing _ hc _ => exact List.forall_mem_singleton.mpr hc.2.2.2
  | link _ hc _ _ => exact List.forall_mem_singleton.mpr hc.2.2.2
  | jump _ hc _ _ _ _ ih =>
    exact List.forall_mem_cons.mpr ⟨hc.2.2.2, (List.forall_mem_append.mp ih).2⟩
  | down _ hc _ _ _ ih => exact List.forall_mem_cons.mpr ⟨hc.2.2.2, ih⟩

/-! ### One path after another -/

/-- More links may be allowed than there are. -/
theorem Leads.mono (h : Leads top followLast links here todo place) {links' : Nat}
    (hle : links ≤ links') : Leads top followLast links' here todo place := by
  induction h generalizing links' with
  | done => exact .done
  | stay hdir hc _ ih => exact .stay hdir hc (ih hle)
  | up hdir hc _ ih => exact .up hdir hc (ih hle)
  | missing hdir hc hnone => exact .missing hdir hc hnone
  | link hdir hc hlink hlast => exact .link hdir hc hlink hlast
  | jump hdir hc hlink hlast htarget _ ih =>
    obtain ⟨more, rfl⟩ := Nat.exists_eq_add_of_le' hle
    exact .jump hdir hc hlink hlast htarget (ih (Nat.le_add_left _ _))
  | down hdir hc he hlink _ ih => exact .down hdir hc he hlink (ih hle)

/-- The second path starts where the first one leads. -/
theorem Leads.append {links' : Nat} {todo' : List Text} {place' : Place}
    (h : Leads top true links here todo place) (hfound : place.entry ≠ none)
    (h' : Leads top followLast links' place.components.reverse todo' place')
    (hlast : todo' = [] → followLast = true) :
    Leads top followLast (links + links') here (todo ++ todo') place' := by
  induction h with
  | done =>
    rw [List.reverse_reverse] at h'
    exact h'.mono (Nat.le_add_left _ _)
  | stay hdir hc _ ih => exact .stay hdir hc (ih hfound h')
  | up hdir hc _ ih => exact .up hdir hc (ih hfound h')
  | missing _ _ _ => exact absurd rfl hfound
  | link _ _ _ hlast => cases hlast
  | jump hdir hc hlink _ htarget _ ih =>
    have hrest := ih hfound h'
    rw [List.append_assoc] at hrest
    rw [Nat.add_right_comm]
    exact .jump hdir hc hlink (fun hnil => hlast (List.append_eq_nil_iff.mp hnil).2) htarget hrest
  | down hdir hc he hlink _ ih => exact .down hdir hc he hlink (ih hfound h')

/-- A path is resolved part by part. A link that the first part ends in is followed, since the path
goes on. -/
theorem Leads.exists_of_append {us vs : List Text} (hvs : vs ≠ [])
    (h : Leads top followLast links here (us ++ vs) place) :
    ∃ l l' cs, l + l' = links ∧ Leads top true l here us ⟨cs, top.get? cs⟩ ∧
      Leads top followLast l' cs.reverse vs place := by
  have hnil : ∀ {links : Nat} {here : List Text} {place : Place},
      Leads top followLast links here vs place →
        ∃ l l' cs, l + l' = links ∧ Leads top true l here [] ⟨cs, top.get? cs⟩ ∧
          Leads top followLast l' cs.reverse vs place := by
    intro links here place h
    refine ⟨0, links, here.reverse, Nat.zero_add _, .done, ?_⟩
    rwa [List.reverse_reverse]
  generalize hall : us ++ vs = all at h
  induction h generalizing us with
  | done => exact absurd (List.append_eq_nil_iff.mp hall).2 hvs
  | stay hdir hc hrest ih =>
    obtain ⟨rfl, rfl⟩ | ⟨us, rfl, heq⟩ := List.append_eq_cons_iff.mp hall
    · exact hnil (.stay hdir hc hrest)
    · obtain ⟨l, l', cs, hl, hfirst, hsecond⟩ := ih heq.symm
      exact ⟨l, l', cs, hl, .stay hdir hc hfirst, hsecond⟩
  | up hdir hc hrest ih =>
    obtain ⟨rfl, rfl⟩ | ⟨us, rfl, heq⟩ := List.append_eq_cons_iff.mp hall
    · exact hnil (.up hdir hc hrest)
    · obtain ⟨l, l', cs, hl, hfirst, hsecond⟩ := ih heq.symm
      exact ⟨l, l', cs, hl, .up hdir hc hfirst, hsecond⟩
  | missing hdir hc hnone =>
    obtain ⟨rfl, rfl⟩ | ⟨us, rfl, heq⟩ := List.append_eq_cons_iff.mp hall
    · exact hnil (.missing hdir hc hnone)
    · exact absurd (List.append_eq_nil_iff.mp heq.symm).2 hvs
  | link hdir hc hlink hlast =>
    obtain ⟨rfl, rfl⟩ | ⟨us, rfl, heq⟩ := List.append_eq_cons_iff.mp hall
    · exact hnil (.link hdir hc hlink hlast)
    · exact absurd (List.append_eq_nil_iff.mp heq.symm).2 hvs
  | jump hdir hc hlink hlast htarget hrest ih =>
    obtain ⟨rfl, rfl⟩ | ⟨us, rfl, rfl⟩ := List.append_eq_cons_iff.mp hall
    · exact hnil (.jump hdir hc hlink hlast htarget hrest)
    · obtain ⟨l, l', cs, rfl, hfirst, hsecond⟩ := ih (List.append_assoc _ _ _)
      exact ⟨l + 1, l', cs, Nat.add_right_comm _ _ _,
        .jump hdir hc hlink (fun _ => rfl) htarget hfirst, hsecond⟩
  | down hdir hc he hlink hrest ih =>
    obtain ⟨rfl, rfl⟩ | ⟨us, rfl, heq⟩ := List.append_eq_cons_iff.mp hall
    · exact hnil (.down hdir hc he hlink hrest)
    · obtain ⟨l, l', cs, hl, hfirst, hsecond⟩ := ih heq.symm
      exact ⟨l, l', cs, hl, .down hdir hc he hlink hfirst, hsecond⟩

/-- One name leads to the entry of that name. -/
theorem leads_singleton {c : Text} (hdir : top.IsFolderAt here.reverse) (hc : IsDown c) :
    Leads top false links here [c] ⟨here.reverse ++ [c], top.get? (here.reverse ++ [c])⟩ := by
  cases he : top.get? (here.reverse ++ [c]) with
  | none => exact .missing hdir hc he
  | some e =>
    by_cases hlink : ∃ target, e = .link target
    · obtain ⟨target, rfl⟩ := hlink
      exact .link hdir hc he rfl
    · have hdone : Leads top false links (c :: here) []
          ⟨(c :: here).reverse, top.get? (c :: here).reverse⟩ := .done
      rw [List.reverse_cons, he] at hdone
      exact .down hdir hc he (not_exists.mp hlink) hdone

/-- A path into a folder goes on to the entries of the folder. -/
theorem Leads.concat {c : Text} (hc : IsDown c) (h : Leads top true links here todo place)
    {entries : List (Text × Entry)} (hfolder : place.entry = some (.folder entries)) :
    Leads top false links here (todo ++ [c])
      ⟨place.components ++ [c], top.get? (place.components ++ [c])⟩ := by
  have hdir : top.IsFolderAt place.components.reverse.reverse := by
    rw [List.reverse_reverse]
    exact ⟨entries, h.entry_eq.symm.trans hfolder⟩
  have hstep : Leads top false 0 place.components.reverse [c] _ := leads_singleton hdir hc
  rw [List.reverse_reverse] at hstep
  exact h.append (by simp [hfolder]) hstep (by simp)

/-- Below a folder, names lead to what lies there. -/
theorem leads_of_get? {dir f : Entry} {ds : List Text} (hdir : top.get? here.reverse = some dir)
    (hds : ∀ d ∈ ds, IsDown d) (hf : dir.get? ds = some f) (hlink : ∀ target, f ≠ .link target) :
    Leads top true links here ds ⟨here.reverse ++ ds, some f⟩ := by
  induction ds generalizing here dir with
  | nil =>
    rw [List.append_nil, ← hf, Entry.get?, ← hdir]
    exact .done
  | cons d ds ih =>
    obtain ⟨hd, hds⟩ := List.forall_mem_cons.mp hds
    rw [Entry.get?_cons, Option.bind_eq_some_iff] at hf
    obtain ⟨g, hchild, hf⟩ := hf
    have hg : top.get? (here.reverse ++ [d]) = some g :=
      (get?_concat_of_folder hdir d).trans hchild
    have hrest := @ih (d :: here) g (by rwa [List.reverse_cons]) hds hf
    rw [List.reverse_cons, List.append_assoc, List.singleton_append] at hrest
    obtain ⟨entries, rfl⟩ := Entry.exists_folder_of_child? hchild
    exact .down ⟨entries, hdir⟩ hd hg (Entry.not_link_of_get? hf hlink) hrest

/-! ### Dots and slashes -/

theorem leads_stay_iff {c : Text} (hstay : c = [] ∨ c = ".") :
    Leads top followLast links here (c :: todo) place ↔
      top.IsFolderAt here.reverse ∧ Leads top followLast links here todo place := by
  refine ⟨fun h => ?_, fun h => .stay h.1 hstay h.2⟩
  cases h with
  | stay hdir _ hrest => exact ⟨hdir, hrest⟩
  | up _ hc _ => exact absurd hstay (by rw [hc]; decide)
  | missing _ hc _ => exact absurd hstay (not_or.mpr ⟨hc.1, hc.2.1⟩)
  | link _ hc _ _ => exact absurd hstay (not_or.mpr ⟨hc.1, hc.2.1⟩)
  | jump _ hc _ _ _ _ => exact absurd hstay (not_or.mpr ⟨hc.1, hc.2.1⟩)
  | down _ hc _ _ _ => exact absurd hstay (not_or.mpr ⟨hc.1, hc.2.1⟩)

/-- The parent is that of the place reached, not of the name written before. -/
theorem leads_up_iff :
    Leads top followLast links here (Text.ofString ".." :: todo) place ↔
      top.IsFolderAt here.reverse ∧ Leads top followLast links here.tail todo place := by
  refine ⟨fun h => ?_, fun h => .up h.1 rfl h.2⟩
  cases h with
  | stay _ hc _ => exact absurd hc (by decide)
  | up hdir _ hrest => exact ⟨hdir, hrest⟩
  | missing _ hc _ => exact absurd rfl hc.2.2.1
  | link _ hc _ _ => exact absurd rfl hc.2.2.1
  | jump _ hc _ _ _ _ => exact absurd rfl hc.2.2.1
  | down _ hc _ _ _ => exact absurd rfl hc.2.2.1

/-- An absolute path starts with the empty component before its first slash. -/
theorem leads_ofComponents_iff {root : List Text} (hroot : ∀ c ∈ root, Path.IsName c) :
    Leads top followLast links [] ((Path.ofComponents true root).split '/') place ↔
      Leads top followLast links [] ([] :: root) place := by
  by_cases hne : root = []
  · subst hne
    have hsplit : (Path.ofComponents true []).split '/' = [[], []] := by decide
    rw [hsplit, leads_stay_iff (.inl rfl), leads_stay_iff (.inl rfl), and_self_left]
  · rw [Path.split_ofComponents_true hne hroot]

end Leads

/-- What is taken as a path at all. -/
structure IsPath (path : Text) : Prop where
  zero_free : path.contains "\x00" = false
  ne_nil : path ≠ []
  length_le : path.utf8.length ≤ pathLimit

/-- A relative path starts at the working directory, whose components come last first. -/
theorem locate_eq_ok_iff {fs : FileSystem} {followLast : Bool} {path : Text} {place : Place} :
    fs.locate followLast path = .ok place ↔
      IsPath path ∧ Leads fs.top followLast linkLimit
        (if Path.isAbsolute path then [] else fs.workingDirectory.reverse) (path.split '/')
        place := by
  rw [leads_iff, locate]
  constructor
  · intro h
    split at h
    · cases h
    · split at h
      · cases h
      · split at h
        · cases h
        · rename_i hzero hempty hlong
          exact ⟨⟨by simpa using hzero, by simpa using hempty, Nat.le_of_not_lt hlong⟩, h⟩
  · rintro ⟨⟨hzero, hempty, hlong⟩, h⟩
    rw [if_neg (by simp [hzero]), if_neg (by simpa using hempty), if_neg (Nat.not_lt.mpr hlong), h]

theorem locate_ofComponents_eq_ok_iff {fs : FileSystem} {followLast : Bool} {cs : List Text}
    (hcs : ∀ c ∈ cs, Path.IsName c) {place : Place} :
    fs.locate followLast (Path.ofComponents true cs) = .ok place ↔
      IsPath (Path.ofComponents true cs) ∧
        Leads fs.top followLast linkLimit [] ([] :: cs) place := by
  rw [locate_eq_ok_iff, Path.isAbsolute_ofComponents hcs, if_pos rfl, leads_ofComponents_iff hcs]

/-- A path leads to what lies at the place found for it. -/
theorem entry_eq_of_locate {fs : FileSystem} {followLast : Bool} {path : Text} {place : Place}
    (h : fs.locate followLast path = .ok place) : place.entry = fs.top.get? place.components :=
  (locate_eq_ok_iff.mp h).2.entry_eq

theorem entry_eq_ok_iff {fs : FileSystem} {followLast : Bool} {path : Text} {e : Entry} :
    fs.entry followLast path = .ok e ↔ ∃ cs, fs.locate followLast path = .ok ⟨cs, some e⟩ := by
  unfold entry
  cases fs.locate followLast path with
  | error err => simp [bind, Except.bind]
  | ok place =>
    obtain ⟨cs, e'⟩ := place
    cases e' with
    | none => simp [bind, Except.bind]
    | some f => simp [bind, Except.bind]

theorem lstat_eq_ok_iff {fs : FileSystem} {path : Text} {e : Entry} :
    fs.lstat path = .ok e ↔ fs.entry false path = .ok e := by
  rw [lstat]
  cases fs.entry false path with
  | ok f => simp [Except.mapError]
  | error err => simp [Except.mapError]

theorem stat_eq_ok_iff {fs : FileSystem} {path : Text} {e : Entry} :
    fs.stat path = .ok e ↔ fs.entry true path = .ok e := by
  rw [stat]
  cases fs.entry true path with
  | ok f => simp [Except.mapError]
  | error err => simp [Except.mapError]

/-- Links are followed first, so a fault belongs to the place and not to its path. -/
theorem openAt_eq_ok_iff {fs : FileSystem} {path : Text} {place : Place} :
    fs.openAt path = .ok place ↔
      fs.locate true path = .ok place ∧ fs.faults.lookup place.components = none := by
  unfold openAt
  cases fs.locate true path with
  | error err => simp [bind, Except.bind, Except.mapError]
  | ok found =>
    cases hfault : fs.faults.lookup found.components with
    | some err =>
      simp only [bind, Except.bind, Except.mapError, hfault, Except.ok.injEq]
      refine ⟨nofun, ?_⟩
      rintro ⟨rfl, hopens⟩
      exact absurd (hfault.symm.trans hopens) nofun
    | none =>
      simp only [bind, Except.bind, Except.mapError, hfault, Except.ok.injEq]
      exact ⟨fun h => ⟨h, h ▸ hfault⟩, And.left⟩

/-- A file is read if its path leads to it and it can be opened. -/
theorem read_eq_ok_iff {fs : FileSystem} {path : Text} {data : Bytes} :
    fs.read path = .ok data ↔ ∃ cs mode,
      fs.locate true path = .ok ⟨cs, some (.file mode data)⟩ ∧ fs.faults.lookup cs = none := by
  have hfile : fs.read path = .ok data ↔
      ∃ cs mode, fs.openAt path = .ok ⟨cs, some (.file mode data)⟩ := by
    unfold read
    cases fs.openAt path with
    | error err => simp [bind, Except.bind]
    | ok place =>
      obtain ⟨cs, e⟩ := place
      cases e with
      | none => simp [bind, Except.bind]
      | some f => cases f <;> simp [bind, Except.bind]
  simp only [hfile, openAt_eq_ok_iff]

theorem exists_stat_of_read {fs : FileSystem} {path : Text} {data : Bytes}
    (h : fs.read path = .ok data) : ∃ mode, fs.stat path = .ok (.file mode data) := by
  obtain ⟨cs, mode, hlocate, -⟩ := read_eq_ok_iff.mp h
  exact ⟨mode, stat_eq_ok_iff.mpr (entry_eq_ok_iff.mpr ⟨cs, hlocate⟩)⟩

/-- Only a link shows whether links are followed at the end of a path. -/
theorem stat_of_lstat {fs : FileSystem} {path : Text} {e : Entry} (h : fs.lstat path = .ok e)
    (hlink : ∀ target, e ≠ .link target) : fs.stat path = .ok e := by
  obtain ⟨cs, hlocate⟩ := entry_eq_ok_iff.mp (lstat_eq_ok_iff.mp h)
  obtain ⟨hpath, hleads⟩ := locate_eq_ok_iff.mp hlocate
  refine stat_eq_ok_iff.mpr (entry_eq_ok_iff.mpr ⟨cs, locate_eq_ok_iff.mpr ⟨hpath, ?_⟩⟩)
  exact hleads.of_not_link fun target htarget => hlink target (Option.some.inj htarget)

theorem exists_lstat_of_stat {fs : FileSystem} {path : Text} {e : Entry}
    (h : fs.stat path = .ok e) : ∃ f, fs.lstat path = .ok f := by
  obtain ⟨cs, hlocate⟩ := entry_eq_ok_iff.mp (stat_eq_ok_iff.mp h)
  obtain ⟨hpath, hleads⟩ := locate_eq_ok_iff.mp hlocate
  obtain ⟨ds, f, hends⟩ := hleads.exists_lstat (Option.some_ne_none e)
  exact ⟨f, lstat_eq_ok_iff.mpr (entry_eq_ok_iff.mpr ⟨ds, locate_eq_ok_iff.mpr ⟨hpath, hends⟩⟩)⟩

/-- Whatever is found in a file system is as sound as the whole. -/
theorem isSound_of_lstat {fs : FileSystem} {path : Text} {e : Entry} (h : fs.lstat path = .ok e) :
    e.IsSound := by
  obtain ⟨cs, hlocate⟩ := entry_eq_ok_iff.mp (lstat_eq_ok_iff.mp h)
  exact Entry.of_get? (fun _ _ _ he h => he.child? h) fs.tree.sound
    (entry_eq_of_locate hlocate).symm

end FileSystem

end CallerTree
