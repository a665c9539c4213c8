import CallerTree.Yaml.Decode
import Mathlib.Data.List.Forall2

/-!
# Mappings decoded into records

A mapping is decoded entry by entry: each entry changes the record that the entries before it have
left, while visits are counted and aliases are followed. Nothing of this shows in the result when
the keys are distinct and known and every value is of the right kind. How such a mapping changes a
record is stated here without the decoder, for all entries at once, and the decoder is shown to make
that change.

## The argument

`Gives` says that a decoding returns a value, notes no mismatch and goes back over the aliases that
it followed. Every step of the decoder is of this kind. The entries of a mapping are gone through by
induction, and `Follows` is what the induction asks of the change: its first entry can be split off
and is made by the field of that name.

## Scope

A document is refused if too large a share of the visits was made through aliases (`overused`). No
other failure is left open, and a document without aliases does not fail in this way either.

## Main definitions

* `Document.value?`, `Document.IsTexts` — what a node stands for
* `Document.Updates` — a mapping with distinct known keys, and the change it makes
* `Decode.Gives` — a decoding that returns a value and leaves no traces

## Main results

* `Decode.gives_record` — the decoder makes the change of a mapping
* `Decode.decode_eq_ok` — what a text is decoded into
-/

namespace CallerTree

namespace Yaml

/-! ### What nodes stand for -/

def Node.isAlias (n : Node) : Bool :=
  match n.content with
  | .reference _ _ => true
  | _ => false

namespace Document

variable (d : Document)

/-- A document without aliases. -/
def IsPlain : Prop := ∀ id, (d.node id).isAlias = false

/-- A node, or the one that an alias refers to. -/
def target (id : NodeId) : Node :=
  match (d.node id).content with
  | .reference _ target => d.node target
  | _ => d.node id

/-- The value of a scalar other than null, read in the given way. -/
def value? {α : Type} (read? : Value → Text → Option α) (id : NodeId) : Option α :=
  match (d.target id).content with
  | .scalar written =>
    match taggedValue (d.target id).tag written with
    | .error _ | .ok .null => none
    | .ok value => read? value written
  | _ => none

def text? : NodeId → Option Text :=
  d.value? fun value written => some (Decode.textOf written value)

def int? : NodeId → Option Int := d.value? fun value _ => Decode.intOf? value

def bool? : NodeId → Option Bool := d.value? fun value _ => Decode.boolOf? value

def duration? : NodeId → Option Int := d.value? fun value _ => Decode.durationOf? value

/-- A sequence of texts. -/
def IsTexts (id : NodeId) (ts : List Text) : Prop :=
  ∃ items, (d.target id).content = .sequence items ∧
    List.Forall₂ (fun item t => d.text? item = some t) items ts

/-- A mapping with the given names and the nodes under them. Its keys are known and distinct, both
as they are written and in the names they stand for. -/
structure IsRecord (known : List Text) (n : Node) (l : List (Text × NodeId)) : Prop where
  exists_entries : ∃ entries, n.content = .mapping entries ∧
    (entries.Pairwise fun e e' => ¬ (d.node e.1).sameKey (d.node e'.1)) ∧
    List.Forall₂ (fun e m => d.text? e.1 = some m.1 ∧ e.2 = m.2) entries l
  distinct : (l.map Prod.fst).Nodup
  known : ∀ m ∈ l, m.1 ∈ known

/-- A mapping changes a record as its members say. -/
def Updates {α : Type} (known : List Text) (Change : List (Text × NodeId) → α → α → Prop)
    (n : Node) (a a' : α) : Prop :=
  ∃ l, d.IsRecord known n l ∧ Change l a a'

/-- The aliases on the way into a node. -/
def wayInto (id : NodeId) (way : List NodeId) : List NodeId :=
  if (d.node id).isAlias then id :: way else way

variable {d}

/-- The merge key is the name of no field. -/
theorem text?_of_isMerge {id : NodeId} (h : (d.node id).isMerge) :
    d.text? id = some (Text.ofString "<<") := by
  unfold Node.isMerge at h
  split at h
  case h_1 written hcontent =>
    obtain ⟨rfl, htag⟩ : written = "<<" ∧ (d.node id).tag = Tag.merge := by simpa using h
    have htarget : d.target id = d.node id := by simp [target, hcontent]
    have hvalue : taggedValue Tag.merge "<<" = .ok (.text "<<") := by decide
    simp only [text?, value?, htarget, hcontent, htag, hvalue]
    rfl
  · cases h

end Document

namespace Decode

variable {d : Document} {way : List NodeId} {α β : Type}

/-! ### Decodings without traces -/

/-- The fault of a document that makes too much use of aliases. -/
def overused : SyntaxError := fault "document contains excessive aliasing"

/-- Nothing was reached through an alias if there are none. Every step keeps this, and it is why a
plain document never exceeds the limit on aliases. -/
def Fits (d : Document) (p : Progress) : Prop := d.IsPlain → p.way = [] ∧ p.aliased = 0

/-- The decoding returns `a` and notes nothing, or the document is refused for its aliases. The way
is part of the contract because a node that is met again on it is refused, and the second case
because the limit on aliases depends on the whole document and not on the part decoded here. -/
def Gives (d : Document) (way : List NodeId) (x : Decode α) (a : α) : Prop :=
  ∀ p : Progress, p.way = way → Fits d p →
    (∃ p', (x.run d).run p = .ok (a, p') ∧ p'.way = way ∧ Fits d p' ∧
      p'.mismatches = p.mismatches) ∨
    (¬ d.IsPlain ∧ (x.run d).run p = .error overused)

section Steps

variable {p p' : Progress} {x : Decode α} {f : α → Decode β} {a : α} {b : β}

theorem run_bind_of_ok (h : (x.run d).run p = .ok (a, p')) :
    ((x >>= f).run d).run p = ((f a).run d).run p' := by
  rw [ReaderT.run_bind, StateT.run_bind, h]
  rfl

theorem run_bind_of_error {e : SyntaxError} (h : (x.run d).run p = .error e) :
    ((x >>= f).run d).run p = .error e := by
  rw [ReaderT.run_bind, StateT.run_bind, h]
  rfl

theorem run_get (p : Progress) : ((get : Decode Progress).run d).run p = .ok (p, p) := rfl

theorem gives_of_run (h : ∀ p, (x.run d).run p = .ok (a, p)) : Gives d way x a :=
  fun p hway hfits => .inl ⟨p, h p, hway, hfits, rfl⟩

theorem gives_pure (a : α) : Gives d way (pure a) a := gives_of_run fun _ => rfl

theorem gives_read : Gives d way (read : Decode Document) d := gives_of_run fun _ => rfl

theorem gives_nodeAt (id : NodeId) : Gives d way (nodeAt id) (d.node id) :=
  gives_of_run fun _ => rfl

/-- A refusal of the first step is one of the whole. -/
theorem Gives.bind (hx : Gives d way x a) (hf : Gives d way (f a) b) :
    Gives d way (x >>= f) b := by
  intro p hway hfits
  rcases hx p hway hfits with ⟨p', hrun, hway', hfits', hkept⟩ | ⟨haliased, hrun⟩
  · rw [run_bind_of_ok hrun, ← hkept]
    exact hf p' hway' hfits'
  · exact .inr ⟨haliased, run_bind_of_error hrun⟩

/-- The only step that may refuse the document. One without aliases passes, by `Fits`. -/
theorem gives_count : Gives d way count () := by
  intro p hway hfits
  rw [count, run_bind_of_ok (run_get p)]
  simp only
  by_cases hexcessive :
    isExcessive (p.visits + 1) (if p.way.isEmpty then p.aliased else p.aliased + 1)
  · refine .inr ⟨fun hplain => ?_, by rw [if_pos hexcessive]; rfl⟩
    obtain ⟨hnone, hzero⟩ := hfits hplain
    simp [isExcessive, hnone, hzero] at hexcessive
  · rw [if_neg hexcessive]
    refine .inl ⟨_, rfl, hway, fun hplain => ?_, rfl⟩
    obtain ⟨hnone, hzero⟩ := hfits hplain
    simp [hnone, hzero]

/-- What is decoded through an alias leaves the way as it was before. -/
theorem Gives.through {id : NodeId} (haliased : ¬ d.IsPlain) (hx : Gives d (id :: way) x a) :
    Gives d way (do
      modify fun p => { p with way := id :: p.way }
      let a ← x
      modify fun p => { p with way := p.way.tail }
      return a) a := by
  intro p hway _
  have hpush : ((modify fun p => { p with way := id :: p.way } : Decode Unit).run d).run p =
      .ok ((), { p with way := id :: p.way }) := rfl
  rw [run_bind_of_ok hpush]
  rcases hx { p with way := id :: p.way } (congrArg _ hway)
    (fun hplain => absurd hplain haliased) with ⟨p', hrun, hway', -, hkept⟩ | ⟨-, hrun⟩
  · rw [run_bind_of_ok hrun]
    exact .inl ⟨{ p' with way := p'.way.tail }, rfl, congrArg List.tail hway',
      fun hplain => absurd hplain haliased, hkept⟩
  · exact .inr ⟨haliased, run_bind_of_error hrun⟩

/-- A node is visited as the one it refers to, unless that is being visited already. -/
theorem Gives.visit {id : NodeId} {f : Node → Decode α} (hid : id ∉ way)
    (h : Gives d (d.wayInto id way) (f (d.target id)) a) : Gives d way (visit id f) a := by
  refine gives_count.bind ((gives_nodeAt id).bind ?_)
  cases hcontent : (d.node id).content with
  | reference name target =>
    simp only [Document.target, Document.wayInto, Node.isAlias, hcontent, if_true] at h
    have haliased : ¬ d.IsPlain := fun hplain => by
      simpa [Node.isAlias, hcontent] using hplain id
    have hinside : Gives d (id :: way) (do count; f (← nodeAt target)) a :=
      gives_count.bind ((gives_nodeAt target).bind h)
    intro p hway hfits
    have hopen : ¬ p.way.contains id := by simpa [hway] using hid
    rw [run_bind_of_ok (run_get p)]
    simp only
    rw [if_neg hopen]
    simpa only [bind_assoc] using hinside.through haliased p hway hfits
  | _ => simpa [Document.target, Document.wayInto, Node.isAlias, hcontent] using h

end Steps

/-! ### Scalars and sequences -/

/-- The aliases on the way are those of collections, so that a scalar is never among them. -/
def IsOpen (d : Document) (way : List NodeId) : Prop :=
  ∀ id ∈ way, ∀ written, (d.target id).content ≠ .scalar written

theorem IsOpen.wayInto (h : IsOpen d way) {id : NodeId}
    (hid : ∀ written, (d.target id).content ≠ .scalar written) : IsOpen d (d.wayInto id way) := by
  unfold Document.wayInto
  split
  · exact List.forall_mem_cons.mpr ⟨hid, h⟩
  · exact h

/-- No scalar is on the way to itself, so none is taken for a loop of aliases. -/
theorem gives_scalar (hopen : IsOpen d way) {type : Text} {read? : Value → Text → Option α}
    {id : NodeId} {a : α} (h : d.value? read? id = some a) :
    Gives d way (scalar type read? id) (some a) := by
  unfold Document.value? at h
  split at h
  case h_1 written hcontent =>
    refine .visit (fun hid => hopen id hid written hcontent) ?_
    simp only [hcontent]
    split at h
    · cases h
    · cases h
    case h_3 value hnull htagged =>
      have hvalue : Gives d (d.wayInto id way)
          (liftM (taggedValue (d.target id).tag written)) value := by
        rw [htagged]
        exact gives_of_run fun _ => rfl
      refine hvalue.bind ?_
      cases value with
      | null => exact absurd rfl hnull
      | _ =>
        simp only [h]
        exact gives_pure _
  · cases h

theorem gives_texts (hopen : IsOpen d way) {id : NodeId} (hid : id ∉ way) {ts : List Text}
    (h : d.IsTexts id ts) : Gives d way (texts id) (some (some ts)) := by
  obtain ⟨items, hcontent, hitems⟩ := h
  have hopen' : IsOpen d (d.wayInto id way) := hopen.wayInto (by simp [hcontent])
  have hall : Gives d (d.wayInto id way) (items.mapM text) (ts.map some) := by
    clear hcontent
    induction hitems with
    | nil => exact gives_pure _
    | cons hitem _ ih =>
      rw [List.mapM_cons]
      exact (gives_scalar hopen' hitem).bind (ih.bind (gives_pure _))
  refine .visit hid ?_
  simp only [hcontent]
  refine hall.bind ?_
  have hsome : (ts.map some).reduceOption = ts := List.filterMap_map.trans List.filterMap_some
  rw [hsome]
  exact gives_pure _

/-! ### Mappings -/

theorem duplicates_eq_nil {keys : List Node} (h : keys.Pairwise fun k k' => ¬ k.sameKey k') :
    duplicates keys = [] := by
  induction h with
  | nil => rfl
  | cons hk _ ih =>
    rw [duplicates, ih, List.filter_eq_nil_iff.mpr hk]
    rfl

theorem gives_hasDuplicates {entries : List (NodeId × NodeId)}
    (h : entries.Pairwise fun e e' => ¬ (d.node e.1).sameKey (d.node e'.1)) :
    Gives d way (hasDuplicates entries) false := by
  have hnone : duplicates (entries.map fun e => d.node e.1) = [] :=
    duplicates_eq_nil (List.pairwise_map.mpr h)
  refine gives_read.bind ?_
  simp only [hnone, ite_self]
  exact gives_pure _

section Records

variable {known : List Text} {fields : Fields α} {type : Text}
  {Change : List (Text × NodeId) → α → α → Prop} {a a' : α}

/-- A change of records that the fields make one after the other. -/
structure Follows (d : Document) (way : List NodeId) (known : List Text) (fields : Fields α)
    (Change : List (Text × NodeId) → α → α → Prop) : Prop where
  nil {a a' : α} (h : Change [] a a') : a' = a
  cons {name : Text} {v : NodeId} {l : List (Text × NodeId)} {a a' : α} (hknown : name ∈ known)
    (hfresh : name ∉ l.map Prod.fst) (h : Change ((name, v) :: l) a a') :
    ∃ change a₁, fields name = some change ∧ Gives d way (change v a) a₁ ∧ Change l a₁ a'

/-- The names met are collected in `done`, hence the induction over all of its values. -/
theorem gives_ownEntries (hfollows : Follows d way known fields Change) (hopen : IsOpen d way)
    (hmerge : Text.ofString "<<" ∉ known) {entries : List (NodeId × NodeId)}
    {l : List (Text × NodeId)}
    (hnames : List.Forall₂ (fun e m => d.text? e.1 = some m.1 ∧ e.2 = m.2) entries l)
    (hdistinct : (l.map Prod.fst).Nodup) (hknown : ∀ m ∈ l, m.1 ∈ known) {done : List Text}
    (hdone : ∀ m ∈ l, m.1 ∉ done) (h : Change l a a') :
    Gives d way (ownEntries type fields none done none entries a) (a', none, none) := by
  induction hnames generalizing a done with
  | nil =>
    obtain rfl := hfollows.nil h
    exact gives_pure _
  | @cons e m entries l he hnames ih =>
    obtain ⟨k, v⟩ := e
    obtain ⟨name, v'⟩ := m
    obtain ⟨hname, rfl⟩ : d.text? k = some name ∧ v = v' := he
    rw [List.map_cons, List.nodup_cons] at hdistinct
    rw [List.forall_mem_cons] at hknown hdone
    obtain ⟨change, a₁, hfield, hchange, hrest⟩ := hfollows.cons hknown.1 hdistinct.1 h
    have hkey : ¬ (d.node k).isMerge := by
      intro hkey
      cases hname.symm.trans (Document.text?_of_isMerge hkey)
      exact hmerge hknown.1
    have hnew : ¬ done.contains name := by simpa using hdone.1
    refine (gives_nodeAt k).bind ?_
    rw [if_neg hkey]
    refine Gives.bind (gives_scalar hopen hname) ?_
    simp only [Option.any_none, Option.map_none, hfield, Bool.false_eq_true, if_false]
    rw [if_neg hnew]
    refine hchange.bind (ih hdistinct.2 hknown.2 (fun m hm => ?_) hrest)
    have hne : m.1 ≠ name := by
      rintro rfl
      exact hdistinct.1 (List.mem_map.mpr ⟨m, hm, rfl⟩)
    exact List.not_mem_cons_of_ne_of_not_mem hne (hdone.2 m hm)

/-- Behind an alias the way is longer, so the fields are those of the way into the record. -/
theorem gives_record {id : NodeId}
    (hfollows : IsOpen d (d.wayInto id way) → Follows d (d.wayInto id way) known fields Change)
    (hopen : IsOpen d way) (hid : id ∉ way) (hmerge : Text.ofString "<<" ∉ known)
    (h : d.Updates known Change (d.target id) a a') :
    Gives d way (record type fields id a) a' := by
  obtain ⟨l, ⟨⟨entries, hcontent, hwritten, hnames⟩, hdistinct, hknown⟩, hchange⟩ := h
  have hopen' : IsOpen d (d.wayInto id way) := hopen.wayInto (by simp [hcontent])
  have hlayered (fuel : Nat) :
      Gives d way (layered type fields (fuel + 1) none id a) (a', none) := by
    refine .visit hid ?_
    simp only [hcontent]
    refine (gives_hasDuplicates hwritten).bind ?_
    rw [if_neg Bool.false_ne_true]
    exact (gives_ownEntries (hfollows hopen') hopen' hmerge hnames hdistinct hknown (by simp)
      hchange).bind (gives_pure _)
  obtain ⟨fuel, hfuel⟩ : ∃ fuel, (d.nodes.size + 1) * (d.nodes.size + 1) = fuel + 1 :=
    ⟨_, (Nat.succ_pred_eq_of_pos (Nat.mul_pos (Nat.succ_pos _) (Nat.succ_pos _))).symm⟩
  refine gives_read.bind ?_
  simp only [hfuel]
  exact (hlayered fuel).bind (gives_pure _)

end Records

/-! ### Texts -/

/-- The use of aliases is limited, so for a document with some it is assumed that it was not
refused. -/
theorem decode_eq_ok {decoder : NodeId → α → Decode α} {bytes : Bytes} {a a' : α}
    (hread : firstDocument bytes = .ok (some d)) (h : Gives d [] (decoder d.root a) a')
    (haliased : d.IsPlain ∨ decode decoder bytes a ≠ .error (.syntaxError overused)) :
    decode decoder bytes a = .ok a' := by
  have hgives : Gives d [] (do count; decoder d.root a) a' := gives_count.bind h
  unfold decode at haliased ⊢
  simp only [hread] at haliased ⊢
  rcases hgives {} rfl (fun _ => ⟨rfl, rfl⟩) with ⟨p, hrun, -, -, hkept⟩ | ⟨hplain, hrun⟩
  · simp only [hrun, hkept]
    rfl
  · rw [hrun] at haliased
    exact absurd rfl (haliased.resolve_left hplain)

end Decode

end Yaml

end CallerTree
