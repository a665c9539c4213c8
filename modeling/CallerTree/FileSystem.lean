import CallerTree.Path
import CallerTree.Text.Utf8

/-!
# File systems

A file system is a tree of folders, files and symbolic links. Paths are resolved component by
component, as the operating system does it: a `..` leads to the parent of the folder reached, not
of the name written before it, and a link is followed wherever the path goes on.

## Contract

`FileSystem.locate` says where a path leads: the components of the place, without links, and the
entry there, if any. Only the last component may be missing. A file that is there may still refuse
to be opened (`FileSystem.faults`): its entry can be looked at, but it is neither read nor written.

In every folder the names are proper ones and none is used twice. A `FileTree` carries the proof of
this, so it holds of every file system, whatever a tool has left behind.

## Implementation notes

The entries of a folder are in no particular order; listings sort by the bytes of the names. The
number of links followed on the way is bounded, so resolution ends on cyclic links too.
-/

namespace CallerTree

inductive Entry where
  | file (mode : Nat) (data : Bytes)
  | folder (entries : List (Text × Entry))
  | link (target : Text)
  deriving Repr

/-- Why a path cannot be used. -/
inductive FileError where
  | missing
  | notFolder
  | isFolder
  | tooManyLinks
  | nameTooLong
  | badArgument
  | denied
  | badFormat
  deriving DecidableEq, Repr

def FileError.text : FileError → Text
  | missing => "no such file or directory"
  | notFolder => "not a directory"
  | isFolder => "is a directory"
  | tooManyLinks => "too many levels of symbolic links"
  | nameTooLong => "file name too long"
  | badArgument => "invalid argument"
  | denied => "permission denied"
  | badFormat => "exec format error"

namespace Entry

def isFolder : Entry → Bool
  | folder _ => true
  | _ => false

/-- The entry of that name in a folder. -/
def child? (e : Entry) (name : Text) : Option Entry :=
  match e with
  | folder entries => (entries.find? (·.1 = name)).map (·.2)
  | _ => none

/-- The entry below `e` at the given components. -/
def get? (e : Entry) : List Text → Option Entry
  | [] => some e
  | c :: cs =>
    match e.child? c with
    | some f => f.get? cs
    | none => none

/-- A list of named entries with one of them set, or taken away. -/
def put (entries : List (Text × Entry)) (name : Text) : Option Entry → List (Text × Entry)
  | none => entries.filter (·.1 ≠ name)
  | some f =>
    if entries.any (·.1 = name) then entries.map fun p => if p.1 = name then (name, f) else p
    else entries ++ [(name, f)]

/-- The tree with the entry at the given components set, or taken away. Folders on the way that do
not exist are made. -/
def set (e : Entry) (value : Option Entry) : List Text → Option Entry
  | [] => value
  | c :: cs =>
    match e with
    | folder entries => some (folder (put entries c (((e.child? c).getD (folder [])).set value cs)))
    | _ => some e

/-- In all folders from this entry down, the names are proper ones and none is used twice. -/
inductive IsSound : Entry → Prop
  | file {mode : Nat} {data : Bytes} : IsSound (file mode data)
  | link {target : Text} : IsSound (link target)
  | folder {entries : List (Text × Entry)} (hnames : ∀ p ∈ entries, Path.IsName p.1)
      (hdistinct : (entries.map (·.1)).Nodup) (hbelow : ∀ p ∈ entries, IsSound p.2) :
      IsSound (folder entries)

theorem IsSound.nil : (Entry.folder []).IsSound := .folder (by simp) (by simp) (by simp)

theorem mem_of_child? {entries : List (Text × Entry)} {name : Text} {f : Entry}
    (h : (folder entries).child? name = some f) : (name, f) ∈ entries := by
  rw [child?, Option.map_eq_some_iff] at h
  obtain ⟨p, hp, rfl⟩ := h
  have hname : p.1 = name := by simpa using List.find?_some hp
  rw [← hname]
  exact List.mem_of_find?_eq_some hp

theorem exists_folder_of_child? {e f : Entry} {name : Text} (h : e.child? name = some f) :
    ∃ entries, e = folder entries := by
  cases e with
  | folder entries => exact ⟨entries, rfl⟩
  | file mode data => cases h
  | link target => cases h

theorem IsSound.child? {e f : Entry} (he : e.IsSound) {name : Text}
    (h : e.child? name = some f) : f.IsSound := by
  obtain ⟨entries, rfl⟩ := exists_folder_of_child? h
  obtain _ | _ | ⟨-, -, hbelow⟩ := he
  exact hbelow _ (mem_of_child? h)

section Put

variable {entries : List (Text × Entry)} {name : Text} {value : Option Entry}

theorem mem_or_eq_of_mem_put {p : Text × Entry} (hp : p ∈ put entries name value) :
    p ∈ entries ∨ p.1 = name ∧ value = some p.2 := by
  unfold put at hp
  split at hp
  · exact .inl (List.mem_filter.mp hp).1
  · split at hp
    · obtain ⟨q, hq, rfl⟩ := List.mem_map.mp hp
      split
      · exact .inr ⟨rfl, rfl⟩
      · exact .inl hq
    · rcases List.mem_append.mp hp with hp | hp
      · exact .inl hp
      · obtain rfl := List.mem_singleton.mp hp
        exact .inr ⟨rfl, rfl⟩

theorem nodup_put (h : (entries.map (·.1)).Nodup) : ((put entries name value).map (·.1)).Nodup := by
  unfold put
  split
  · exact h.sublist (List.filter_sublist.map _)
  · rename_i f
    split
    · -- The names stay what they were.
      have hsame : (entries.map fun p => if p.1 = name then (name, f) else p).map (·.1) =
          entries.map (·.1) := by
        rw [List.map_map]
        refine List.map_congr_left fun p _ => ?_
        by_cases hp : p.1 = name <;> simp [hp]
      rwa [hsame]
    · rename_i hnew
      rw [List.map_append, List.nodup_append]
      refine ⟨h, by simp, ?_⟩
      rintro _ ha _ hb rfl
      obtain ⟨p, hp, rfl⟩ := List.mem_map.mp ha
      exact hnew (List.any_eq_true.mpr ⟨p, hp, by simpa using hb⟩)

theorem IsSound.put (h : (Entry.folder entries).IsSound) (hname : Path.IsName name)
    (hvalue : ∀ f ∈ value, f.IsSound) : (Entry.folder (put entries name value)).IsSound := by
  obtain _ | _ | ⟨hnames, hdistinct, hbelow⟩ := h
  refine .folder (fun p hp => ?_) (nodup_put hdistinct) fun p hp => ?_
  · rcases mem_or_eq_of_mem_put hp with hp | ⟨rfl, -⟩
    · exact hnames p hp
    · exact hname
  · rcases mem_or_eq_of_mem_put hp with hp | ⟨-, hp⟩
    · exact hbelow p hp
    · exact hvalue _ hp

end Put

/-- Folders that are made on the way get the names of the components, hence `hcs`. -/
theorem IsSound.set {value : Option Entry} (hvalue : ∀ f ∈ value, f.IsSound) {cs : List Text}
    (hcs : ∀ c ∈ cs, Path.IsName c) :
    ∀ {e : Entry}, e.IsSound → ∀ f ∈ e.set value cs, f.IsSound := by
  induction cs with
  | nil => exact fun _ => hvalue
  | cons c cs ih =>
    intro e he f hf
    rw [List.forall_mem_cons] at hcs
    unfold Entry.set at hf
    split at hf
    · obtain rfl := Option.some.inj hf
      rename_i entries
      refine he.put hcs.1 (ih hcs.2 ?_)
      cases hchild : (Entry.folder entries).child? c with
      | none => exact .nil
      | some g => exact he.child? hchild
    · obtain rfl := Option.some.inj hf
      exact he

end Entry

/-- An entry as it can be in a file system. -/
@[ext] structure FileTree where
  entry : Entry
  sound : entry.IsSound
  deriving Repr

namespace FileTree

def file (mode : Nat) (data : Bytes) : FileTree := ⟨.file mode data, .file⟩

def link (target : Text) : FileTree := ⟨.link target, .link⟩

theorem isSound_set (t : FileTree) (value : Option FileTree) {components : List Text}
    (h : ∀ c ∈ components, Path.IsName c) :
    ((t.entry.set (value.map (·.entry)) components).getD (.folder [])).IsSound := by
  have hvalue : ∀ f ∈ value.map (·.entry), f.IsSound := by
    intro f hf
    obtain ⟨u, -, rfl⟩ := Option.map_eq_some_iff.mp hf
    exact u.sound
  have hset := Entry.IsSound.set hvalue h t.sound
  cases hresult : t.entry.set (value.map (·.entry)) components with
  | none => exact .nil
  | some f => exact hset f hresult

/-- The tree with the entry at the given components set, or taken away. Where a component is no name
there is nothing to set. -/
def set (t : FileTree) (value : Option FileTree) (components : List Text) : FileTree :=
  if h : ∀ c ∈ components, Path.IsName c then ⟨_, t.isSound_set value h⟩ else t

/-- The folder with these entries. Of several with one name the last counts. -/
def folder (entries : List (Text × FileTree)) : FileTree :=
  entries.foldl (fun t p => t.set (some p.2) [p.1]) ⟨.folder [], .nil⟩

end FileTree

structure FileSystem where
  /-- The folder `/`, with all that lies below it. -/
  tree : FileTree := .folder []
  /-- The components of the working directory. -/
  workingDirectory : List Text := []
  /-- The files that cannot be opened, by their components, and why. -/
  faults : List (List Text × FileError) := []
  deriving Repr

namespace FileSystem

/-- A file system without files. -/
def empty : FileSystem := {}

abbrev top (fs : FileSystem) : Entry := fs.tree.entry

/-- The number of links that may be followed in one path. -/
def linkLimit : Nat := 40

def nameLimit : Nat := 255

def pathLimit : Nat := 4095

/-- Where a path leads. -/
structure Place where
  components : List Text
  entry : Option Entry
  deriving Repr

/-- Follows `todo` from the folder at `here`, whose last component comes first. At a link it goes on
with `jump`, given the link's target and its folder; with `followLast` also at the very end. -/
def followWith (jump : (target : Text) → (here todo : List Text) → Except FileError Place)
    (top : Entry) (followLast : Bool) : (here todo : List Text) → Except FileError Place
  | here, [] => .ok ⟨here.reverse, top.get? here.reverse⟩
  | here, c :: todo =>
    match top.get? here.reverse with
    | none => .error .missing
    | some dir =>
      if !dir.isFolder then .error .notFolder
      else if c = [] ∨ c = "." then followWith jump top followLast here todo
      else if c = ".." then followWith jump top followLast here.tail todo
      else if nameLimit < c.utf8.length then .error .nameTooLong
      else match dir.child? c with
        | none =>
          if todo.isEmpty then .ok ⟨(c :: here).reverse, none⟩ else .error .missing
        | some (.link target) =>
          if todo.isEmpty && !followLast then
            .ok ⟨(c :: here).reverse, some (.link target)⟩
          else jump target here todo
        | some _ => followWith jump top followLast (c :: here) todo

/-- Follows `todo` from the folder at `here`, through at most `links` links. -/
def follow (top : Entry) (followLast : Bool) :
    (links : Nat) → (here todo : List Text) → Except FileError Place
  | 0 => followWith (fun _ _ _ => .error .tooManyLinks) top followLast
  | links + 1 => followWith (fun target here todo =>
      if target.isEmpty then .error .missing
      else follow top followLast links (if Path.isAbsolute target then [] else here)
        (target.split '/' ++ todo)) top followLast

/-- Where a path leads, from the working directory if it is relative. -/
def locate (fs : FileSystem) (followLast : Bool) (path : Text) : Except FileError Place :=
  if path.contains "\x00" then .error .badArgument
  else if path.isEmpty then .error .missing
  else if pathLimit < path.utf8.length then .error .nameTooLong
  else follow fs.top followLast linkLimit
    (if Path.isAbsolute path then [] else fs.workingDirectory.reverse) (path.split '/')

/-- The entry at a path. -/
def entry (fs : FileSystem) (followLast : Bool) (path : Text) : Except FileError Entry := do
  match (← fs.locate followLast path).entry with
  | some e => .ok e
  | none => .error .missing

/-- The message of a failed operation. -/
def errorText (operation : String) (path : Text) (e : FileError) : Text :=
  operation ++ " " ++ path ++ ": " ++ e.text

/-- The entry at a path, links followed. -/
def stat (fs : FileSystem) (path : Text) : Except Text Entry :=
  (fs.entry true path).mapError (errorText "stat" path)

/-- The entry at a path, which may be a link. -/
def lstat (fs : FileSystem) (path : Text) : Except Text Entry :=
  (fs.entry false path).mapError (errorText "lstat" path)

/-- Where a path leads, if that can be opened. -/
def openAt (fs : FileSystem) (path : Text) : Except Text Place := do
  let place ← (fs.locate true path).mapError (errorText "open" path)
  match fs.faults.lookup place.components with
  | some e => .error (errorText "open" path e)
  | none => .ok place

/-- The contents of a file. -/
def read (fs : FileSystem) (path : Text) : Except Text Bytes := do
  match (← fs.openAt path).entry with
  | some (.file _ data) => .ok data
  | some _ => .error (errorText "read" path .isFolder)
  | none => .error (errorText "open" path .missing)

/-- The file system with the entry at a place set, or taken away. -/
def setAt (fs : FileSystem) (components : List Text) (value : Option FileTree) : FileSystem :=
  { fs with tree := fs.tree.set value components }

/-- Writes a file; an existing one keeps its mode. -/
def write (fs : FileSystem) (path : Text) (data : Bytes) : Except Text FileSystem := do
  let place ← fs.openAt path
  match place.entry with
  | some (.file mode _) => .ok (fs.setAt place.components (some (.file mode data)))
  | some _ => .error (errorText "open" path .isFolder)
  | none => .ok (fs.setAt place.components (some (.file 0o644 data)))

/-- Takes away whatever is at a path, without following a link at its end. -/
def remove (fs : FileSystem) (path : Text) : FileSystem :=
  match fs.locate false path with
  | .ok place => fs.setAt place.components none
  | .error _ => fs

end FileSystem

end CallerTree
