import CallerTree.Proofs.Endings

/-!
# Codes through wrapping and joining

A client is told the code of a failure, and the failure may be wrapped and joined in any way before
it gets that far. `Failure.layers` lists all that is reachable through wrapping and joining, each
failure before those that it holds; a failure whose text is merely quoted is not reachable. Codes
and causes are read off this list: the first layer that carries a code decides, and if there is none
the causes do, wherever they are.

## Main definitions

* `Failure.layers` — a failure and what it holds, in pre-order
* `Failure.ownReport?`, `Failure.IsUncoded` — the layers that carry a code

## Main results

* `Failure.reported?_eq_findSome?`, `Failure.has_iff_mem_layers` — how codes and causes are found
* `Failure.code_join` — the code of a join without codes
* `Failure.codes_respect_wrapping`
-/

namespace CallerTree

namespace Failure

/-- A property of all failures, shown for a failure from those that it holds. -/
@[elab_as_elim]
theorem induct {motive : Failure → Prop} (cause : ∀ c, motive (.cause c))
    (message : ∀ t, motive (.message t))
    (within : ∀ lead inner trail, motive inner → motive (.within lead inner trail))
    (join : ∀ parts, (∀ f ∈ parts, motive f) → motive (.join parts))
    (coded : ∀ code msg, motive (.coded code msg))
    (codedOver : ∀ code msg origin, motive origin → motive (.codedOver code msg origin))
    (f : Failure) : motive f :=
  @Failure.rec motive (fun parts => ∀ f ∈ parts, motive f) cause message within join coded codedOver
    (fun _ hf => absurd hf List.not_mem_nil)
    (fun _ _ hf hfs => List.forall_mem_cons.mpr ⟨hf, hfs⟩) f

/-! ### Reports through wrapping and joining -/

@[simp] theorem reported?_cause (c : Cause) : (cause c).reported? = none := by
  simp [reported?]

@[simp] theorem reported?_message (t : Text) : (message t).reported? = none := by
  simp [reported?]

@[simp] theorem reported?_because (c : Cause) (detail : Text) :
    (because c detail).reported? = none := by
  simp [because, reported?]

@[simp] theorem reported?_under (lead : Text) (f : Failure) :
    (under lead f).reported? = f.reported? := by
  simp [under, reported?]

theorem reported?_join (parts : List Failure) :
    (join parts).reported? = parts.findSome? reported? := by
  rw [reported?]
  induction parts with
  | nil => rw [firstReported?, List.findSome?_nil]
  | cons f rest ih =>
    rw [firstReported?, ih, List.findSome?_cons]
    cases f.reported? <;> rfl

/-! ### Layers -/

mutual

/-- The failure and all that is wrapped or joined in it, each before what it holds in turn. -/
def layers : Failure → List Failure
  | cause c => [cause c]
  | message t => [message t]
  | within lead inner trail => within lead inner trail :: inner.layers
  | join parts => join parts :: layersAll parts
  | coded code msg => [coded code msg]
  | codedOver code msg origin => codedOver code msg origin :: origin.layers

def layersAll : List Failure → List Failure
  | [] => []
  | f :: rest => f.layers ++ layersAll rest

end

theorem layers_join (parts : List Failure) :
    (join parts).layers = join parts :: parts.flatMap layers := by
  have hall : layersAll parts = parts.flatMap layers := by
    induction parts with
    | nil => rw [layersAll, List.flatMap_nil]
    | cons f rest ih => rw [layersAll, List.flatMap_cons, ih]
  rw [layers, hall]

/-- What a failure that carries a code tells clients. -/
def ownReport? : Failure → Option Report
  | coded code msg => some ⟨code, msg, none⟩
  | codedOver code msg origin => some ⟨code, msg, some origin⟩
  | _ => none

/-- The report is that of the first layer that carries a code. -/
theorem reported?_eq_findSome? (f : Failure) : f.reported? = f.layers.findSome? ownReport? := by
  induction f using induct with
  | cause c => simp [reported?, layers, ownReport?]
  | message t => simp [reported?, layers, ownReport?]
  | within lead inner trail ih => simp [reported?, layers, ownReport?, ih, List.findSome?_cons]
  | coded code msg => simp [reported?, layers, ownReport?]
  | codedOver code msg origin ih => simp [reported?, layers, ownReport?, List.findSome?_cons]
  | join parts ih =>
    have hparts : parts.findSome? reported? = (parts.flatMap layers).findSome? ownReport? := by
      induction parts with
      | nil => rfl
      | cons f rest ihrest =>
        obtain ⟨hf, hrest⟩ := List.forall_mem_cons.mp ih
        rw [List.findSome?_cons, List.flatMap_cons, List.findSome?_append, ← hf, ihrest hrest]
        cases f.reported? <;> rfl
    rw [reported?_join, hparts, layers_join, List.findSome?_cons]
    rfl

/-- A cause is found wherever it is. -/
theorem has_iff_mem_layers {c : Cause} {f : Failure} : f.has c = true ↔ cause c ∈ f.layers := by
  induction f using induct with
  | cause d => simp [layers]
  | message t => simp [layers]
  | within lead inner trail ih => simp [has, layers, ih]
  | coded code msg => simp [has, layers]
  | codedOver code msg origin ih => simp [has, layers, ih]
  | join parts ih => simpa [layers_join] using exists_congr fun f => and_congr_right (ih f)

/-! ### Failures without a code -/

/-- No layer carries a code. -/
def IsUncoded (f : Failure) : Prop := ∀ g ∈ f.layers, g.ownReport? = none

theorem reported?_eq_none_iff {f : Failure} : f.reported? = none ↔ f.IsUncoded := by
  rw [reported?_eq_findSome?, List.findSome?_eq_none_iff, IsUncoded]

theorem isUncoded_join_iff {parts : List Failure} :
    (join parts).IsUncoded ↔ ∀ f ∈ parts, f.IsUncoded := by
  simp only [← reported?_eq_none_iff, reported?_join, List.findSome?_eq_none_iff]

theorem IsUncoded.code_eq {f : Failure} (h : f.IsUncoded) :
    f.code = if f.has .invalidRequest || f.has .invalidSearch then .invalidInput
      else if f.has .deadline then .timeout else .internalError := by
  rw [code, reported?_eq_none_iff.mpr h]

theorem invalidInput_ne_timeout : Code.invalidInput ≠ .timeout := by decide

theorem invalidInput_ne_internalError : Code.invalidInput ≠ .internalError := by decide

theorem timeout_ne_internalError : Code.timeout ≠ .internalError := by decide

/-- A join without codes is an invalid request if one of its members is, else it is out of time if
one of its members is. -/
theorem code_join {parts : List Failure} (h : (join parts).IsUncoded) :
    (join parts).code =
      if ∃ f ∈ parts, f.code = .invalidInput then .invalidInput
      else if ∃ f ∈ parts, f.code = .timeout then .timeout else .internalError := by
  have hinvalid : (∃ f ∈ parts, f.code = .invalidInput) ↔
      ((join parts).has .invalidRequest || (join parts).has .invalidSearch) = true := by
    have hpart : ∀ f ∈ parts, f.code = .invalidInput ↔
        f.has .invalidRequest = true ∨ f.has .invalidSearch = true := by
      intro f hf
      rw [(isUncoded_join_iff.mp h f hf).code_eq]
      have htimeout := invalidInput_ne_timeout
      have hinternal := invalidInput_ne_internalError
      grind
    simp only [has_join, Bool.or_eq_true, List.any_eq_true]
    grind
  rw [h.code_eq]
  by_cases hsome : ∃ f ∈ parts, f.code = .invalidInput
  · rw [if_pos hsome, if_pos (hinvalid.mp hsome)]
  · rw [if_neg hsome, if_neg (mt hinvalid.mpr hsome)]
    -- without invalid members, being out of time and having that cause are the same
    have htimeout : (∃ f ∈ parts, f.code = .timeout) ↔ (join parts).has .deadline = true := by
      have hpart : ∀ f ∈ parts, f.code = .timeout ↔ f.has .deadline = true := by
        intro f hf
        have hvalid : f.code ≠ .invalidInput := fun hcode => hsome ⟨f, hf, hcode⟩
        rw [(isUncoded_join_iff.mp h f hf).code_eq] at hvalid ⊢
        have hinternal := timeout_ne_internalError
        grind
      simp only [has_join, List.any_eq_true]
      grind
    simp only [htimeout]

/-! ### Reports -/

theorem reported?_failure (r : Report) : r.failure.reported? = some r := by
  obtain ⟨code, msg, _ | origin⟩ := r
  · simp [Report.failure, reported?]
  · simp [Report.failure, reported?]

theorem code_report (f : Failure) : f.report.code = f.code := by
  unfold report code
  cases f.reported? with
  | none => rfl
  | some r => rfl

/-- The layers of a layer are layers. -/
theorem mem_layers_trans {f g h : Failure} (hh : h ∈ g.layers) (hg : g ∈ f.layers) :
    h ∈ f.layers := by
  induction f using induct with
  | cause c => simp_all [layers]
  | message t => simp_all [layers]
  | coded code msg => simp_all [layers]
  | within lead inner trail ih =>
    rw [layers, List.mem_cons] at hg
    obtain rfl | hg := hg
    · exact hh
    · exact List.mem_cons_of_mem _ (ih hg)
  | codedOver code msg origin ih =>
    rw [layers, List.mem_cons] at hg
    obtain rfl | hg := hg
    · exact hh
    · exact List.mem_cons_of_mem _ (ih hg)
  | join parts ih =>
    rw [layers_join, List.mem_cons, List.mem_flatMap] at hg
    obtain rfl | ⟨f, hf, hg⟩ := hg
    · exact hh
    · rw [layers_join]
      exact List.mem_cons_of_mem _ (List.mem_flatMap.mpr ⟨f, hf, ih f hf hg⟩)

/-- The report is a layer, or it is put around the failure. -/
theorem has_of_has_report {f : Failure} {c : Cause} (h : f.report.failure.has c = true) :
    f.has c = true := by
  unfold report at h
  cases hreported : f.reported? with
  | none =>
    rw [hreported, Option.getD_none, Report.failure, has] at h
    exact h
  | some r =>
    rw [hreported, Option.getD_some, has_iff_mem_layers] at h
    rw [reported?_eq_findSome?] at hreported
    obtain ⟨g, hg, hown⟩ := List.exists_of_findSome?_eq_some hreported
    have hlayer : g = r.failure := by
      cases g <;> cases hown <;> rfl
    exact has_iff_mem_layers.mpr (mem_layers_trans h (hlayer ▸ hg))

/-- **Codes through wrapping and joining.** Wrapping a failure keeps its code; quoting its text does
not. If some layer carries a code, the first one in pre-order decides. A join without codes is an
invalid request if a member is one, else out of time if a member is, else an internal error, in
whatever order the members are. The report of a failure has its code and status, is its own report,
and tells of no cause that the failure does not tell of. -/
theorem codes_respect_wrapping (f : Failure) :
    (∀ lead trail, (within lead f trail).code = f.code ∧
      (message (lead ++ f.text ++ trail)).code = .internalError) ∧
    (¬ f.IsUncoded → ∃ before layer after r, f.layers = before ++ layer :: after ∧
      (∀ g ∈ before, g.ownReport? = none) ∧ layer.ownReport? = some r ∧ f.code = r.code) ∧
    (∀ parts parts', (join parts).IsUncoded → parts'.Perm parts → (join parts').code =
      if ∃ g ∈ parts, g.code = .invalidInput then .invalidInput
      else if ∃ g ∈ parts, g.code = .timeout then .timeout else .internalError) ∧
    f.report.failure.code = f.code ∧ f.report.failure.report = f.report ∧
    f.report.status = f.code.status ∧
    ∀ c, f.report.failure.has c = true → f.has c = true := by
  refine ⟨fun lead trail => ⟨?_, ?_⟩, fun hcoded => ?_, fun parts parts' huncoded hperm => ?_, ?_,
    ?_, ?_, fun c => has_of_has_report⟩
  · rw [code, code, reported?]
    rfl
  · simp [code, reported?]
  · rw [← reported?_eq_none_iff, ← ne_eq, Option.ne_none_iff_exists'] at hcoded
    obtain ⟨r, hr⟩ := hcoded
    have hcode : f.code = r.code := by rw [code, hr]
    rw [reported?_eq_findSome?] at hr
    obtain ⟨before, layer, after, hlayers, hown, hbefore⟩ := List.findSome?_eq_some_iff.mp hr
    exact ⟨before, layer, after, r, hlayers, hbefore, hown, hcode⟩
  · have hmem : ∀ g, g ∈ parts' ↔ g ∈ parts := fun _ => hperm.mem_iff
    have huncoded' : (join parts').IsUncoded := by
      simpa only [isUncoded_join_iff, hmem] using huncoded
    simp only [code_join huncoded', hmem]
  · rw [← code_report, report, reported?_failure, Option.getD_some, code_report]
  · rw [report, reported?_failure, Option.getD_some]
  · rw [Report.status, code_report]

end Failure

end CallerTree
