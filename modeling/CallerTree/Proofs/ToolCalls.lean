import CallerTree.Mcp
import CallerTree.Proofs.Codes
import CallerTree.Proofs.Commands
import CallerTree.Proofs.Headers
import CallerTree.Proofs.Preorder
import CallerTree.Proofs.Refusals

/-!
# Tool calls that are rejected

A tool call about a hierarchy has five arguments to be wrong about: name, path, depth, the exclude
patterns of the service and the format. The first four are checked by the engine, before it does
anything. The format is looked at last, when there is a tree to be formatted. So a call that is
rejected has done nothing, or it has done everything.

## Main definitions

* `Mcp.IsFormat` — the formats that can be asked for
* `Mcp.Content.IsRejected` — the answer to a call that is rejected for its arguments
* `Failure.IsNoRefusal` — a failure that is not reported as a wrong argument

## Main results

* `Mcp.rejected_calls_do_nothing_or_everything`
-/

namespace CallerTree

theorem Context.ordinary_within {κ : Context} (h : ∀ c ∈ κ.cause?, c = .canceled ∨ c = .deadline)
    (looks : Option Nat) : ∀ c ∈ (κ.within looks).cause?, c = .canceled ∨ c = .deadline := by
  cases looks with
  | none => cases κ <;> exact h
  | some n =>
    cases κ with
    | ended c => exact h
    | live =>
      rintro c ⟨⟩
      exact .inr rfl
    | ending m c =>
      rw [within]
      split
      · rintro c ⟨⟩
        exact .inr rfl
      · exact h

theorem World.IsOrdinary.within {w : World} (h : w.IsOrdinary) (limit : Int) :
    (w.within limit).IsOrdinary := by
  unfold World.within World.IsOrdinary
  dsimp only
  split
  · exact Context.ordinary_within h _
  · exact h

/-- A tree that is handed out has no absent entries. -/
theorem Engine.isFull_of_hierarchy {e : Engine} {function basePath : Text} {limit : Int}
    {w w' : World} {t : CallTree} (h : e.hierarchy function basePath limit w = .ok t w') :
    t.IsFull := by
  obtain ⟨tree, indexed, v, u, u', -, -, hbuild⟩ := exists_build_of_hierarchy h
  exact (Hierarchy.grown_of_build hbuild).isFull

/-! ### The code of a failure -/

namespace Failure

/-- The failure is not reported as a wrong argument, whatever is wrapped around it. -/
structure IsNoRefusal (f : Failure) : Prop where
  request : f.has .invalidRequest = false
  search : f.has .invalidSearch = false
  reported : ∀ r ∈ f.reported?, r.code ≠ .invalidInput

theorem isKind_isNoRefusal : IsKind IsNoRefusal where
  ending f hf := by
    cases hf with
    | canceled => exact ⟨by simp, by simp, by simp⟩
    | deadline => exact ⟨by simp, by simp, by simp⟩
  message t := ⟨by simp, by simp, by simp⟩
  unavailable detail := ⟨by simp, by simp, by simp⟩
  under lead f hf := ⟨by simp [hf.request], by simp [hf.search], by simpa using hf.reported⟩
  join fs hfs := by
    refine ⟨?_, ?_, fun r hr => ?_⟩
    · simpa using fun f hf => (hfs f hf).request
    · simpa using fun f hf => (hfs f hf).search
    · rw [reported?_join] at hr
      obtain ⟨f, hf, hr⟩ := List.exists_of_findSome?_eq_some hr
      exact (hfs f hf).reported r hr

theorem IsNoRefusal.code_report_ne {f : Failure} (h : f.IsNoRefusal) :
    f.report.code ≠ .invalidInput := by
  unfold report code
  cases hreported : f.reported? with
  | some r => exact h.reported r hreported
  | none =>
    simp only [Option.getD_none, h.request, h.search, Bool.or_self, Bool.false_eq_true, if_false]
    split
    · decide
    · decide

theorem code_report_because (detail : Text) :
    (because .invalidRequest detail).report.code = .invalidInput := by
  simp [report, code]

end Failure

namespace Mcp

/-! ### Calls -/

/-- The formats in which a hierarchy is written; without one it is structured. -/
def IsFormat (format : Text) : Prop :=
  format = [] ∨ format = "json" ∨ format = "tree" ∨ format = "mermaid"

/-- The call is rejected for its arguments. -/
def Content.IsRejected (content : Content) : Prop :=
  ∃ r, content = .failed r ∧ r.code = .invalidInput

variable {s : Service} {function basePath : Text} {depth : Option Int} {w u : World}
  (format : Text)

/-- The answer to a call for which there is a tree. It can be written in every format. -/
theorem callHierarchy_of_ok {t : CallTree} (h : s.hierarchy function basePath depth w = .ok t u) :
    ∃ content, callHierarchy s function basePath depth format w = .ok (.ok content) u ∧
      (content.IsRejected ↔ ¬ IsFormat format) := by
  have hattempt : Run.attempt (s.hierarchy function basePath depth) w =
      Run.ofExcept (.ok (.ok t)) u := Run.attempt_of_eq (r := .ok t) h
  have hfull : t.IsFull := Engine.isFull_of_hierarchy h
  have hwritten := fun write => (CallTree.writtenBy_of_isFull write).1 hfull
  unfold callHierarchy
  rw [Run.bind_of_ok hattempt]
  dsimp only
  split
  · rename_i hformat
    have hformat : format = [] ∨ format = "json" := by simpa using hformat
    exact ⟨_, rfl, by simp [Content.IsRejected, IsFormat, ← or_assoc, hformat]⟩
  · rename_i hjson
    split
    · rename_i htree
      rw [hwritten]
      exact ⟨_, rfl, by simp [Content.IsRejected, IsFormat, htree]⟩
    · rename_i htree
      split
      · rename_i hmermaid
        rw [hwritten]
        exact ⟨_, rfl, by simp [Content.IsRejected, IsFormat, hmermaid]⟩
      · rename_i hmermaid
        have hjson : ¬ (format = [] ∨ format = "json") := by simpa using hjson
        refine ⟨_, rfl, iff_of_true ⟨_, rfl, rfl⟩ ?_⟩
        simp only [IsFormat, ← or_assoc]
        simp [hjson, htree, hmermaid]

/-- The answer to a call for which there is none. -/
theorem callHierarchy_of_error {f : Failure}
    (h : s.hierarchy function basePath depth w = .error f u) :
    ∃ v, callHierarchy s function basePath depth format w = .ok (.ok (.failed f.report)) v ∧
      v.files = u.files ∧ v.issued = u.issued := by
  have hattempt : Run.attempt (s.hierarchy function basePath depth) w =
      Run.ofExcept (.ok (.error f)) u := Run.attempt_of_eq (r := .error f) h
  unfold callHierarchy
  rw [Run.bind_of_ok hattempt]
  exact ⟨_, rfl, rfl, rfl⟩

/-- **Rejected calls have done nothing or everything.** Let the failures of the tools not be
reported as wrong arguments. A call is always answered. It is rejected exactly if the request is out
of order, and then no command was issued and no file was written; or if the format is unknown and
there is a tree, and then all has been done that is done for a tree. -/
theorem rejected_calls_do_nothing_or_everything
    (htools : s.engine.tools.FailsWith Failure.IsNoRefusal) (hw : w.IsOrdinary) :
    ∃ content v, callHierarchy s function basePath depth format w = .ok (.ok content) v ∧
      (content.IsRejected ↔
        s.engine.IsInvalid w.files function basePath
            (depth.getD s.defaults.filled.maxDepth) ∨
          ¬ IsFormat format ∧ ∃ t u, s.hierarchy function basePath depth w = .ok t u) ∧
      (s.engine.IsInvalid w.files function basePath (depth.getD s.defaults.filled.maxDepth) →
        v.files = w.files ∧ v.issued = w.issued) ∧
      ∀ t u, s.hierarchy function basePath depth w = .ok t u → v = u := by
  let w₁ : World := w.within s.defaults.timeout
  have hw₁ : w₁.IsOrdinary := hw.within _
  have hstart : s.hierarchy function basePath depth w =
      s.engine.hierarchy function basePath (depth.getD s.defaults.filled.maxDepth) w₁ := rfl
  by_cases hinvalid : s.engine.IsInvalid w.files function basePath
      (depth.getD s.defaults.filled.maxDepth)
  · obtain ⟨detail, hrefused⟩ := Engine.hierarchy_of_isInvalid (w := w₁) hinvalid
    rw [← hstart] at hrefused
    obtain ⟨v, hv, hfiles, hissued⟩ := callHierarchy_of_error format hrefused
    refine ⟨_, v, hv, iff_of_true ⟨_, rfl, Failure.code_report_because detail⟩ (.inl hinvalid),
      fun _ => ⟨hfiles, hissued⟩, fun t u h => ?_⟩
    rw [hrefused] at h
    cases h
  · cases h : s.hierarchy function basePath depth w with
    | ok t u =>
      obtain ⟨content, hcontent, hrejected⟩ := callHierarchy_of_ok format h
      refine ⟨content, u, hcontent, hrejected.trans ?_, fun h => absurd h hinvalid, ?_⟩
      · exact ⟨fun hformat => .inr ⟨hformat, t, u, rfl⟩, fun hor => (hor.resolve_left hinvalid).1⟩
      · rintro _ _ ⟨⟩
        rfl
    | error f u =>
      obtain ⟨v, hv, -⟩ := callHierarchy_of_error format h
      have hkind := Engine.kind_of_hierarchy_error Failure.isKind_isNoRefusal htools hw₁ hinvalid
        (hstart ▸ h)
      refine ⟨_, v, hv, iff_of_false ?_ ?_, fun h => absurd h hinvalid, nofun⟩
      · rintro ⟨_, ⟨⟩, hcode⟩
        exact hkind.code_report_ne hcode
      · rintro (h | ⟨-, t, u, ⟨⟩⟩)
        exact hinvalid h

/-- A service with an index that knows the call of `f`. -/
def indexedCall : Service where
  engine := {
    tools := {
      answer := fun _ c => { outcome := .ok {
        stdout := if c.args.contains "-L" then "/src/a.c g 3   f();\n".toUTF8.toList else [] } }
      isInstalled := fun _ => true }
    options := {} }
  searchTool := "ag"
  defaults := {}

/-- A call is rejected for its format, and the index has been built and asked. -/
theorem unknown_format_is_rejected_late :
    ∃ content v, callHierarchy indexedCall "f" "/src" (some 1) "svg" { files := Engine.oneCall } =
        .ok (.ok content) v ∧
      content.IsRejected ∧
      v.issued = [{ name := "cscope", args := ["-b", "-q", "-k"], dir := "/src" },
        { name := "cscope", args := ["-d", "-L", "-3", "f"], dir := "/src" }] ∧
      v.files.read "/src/cscope.files" = .ok "/src/a.c\n".toUTF8.toList := by
  have htools : indexedCall.engine.tools.FailsWith Failure.IsNoRefusal :=
    ⟨nofun, nofun⟩
  have hordinary : World.IsOrdinary { files := Engine.oneCall } := by
    simp [World.IsOrdinary, Context.cause?]
  have hresult : (Run.result? (indexedCall.hierarchy "f" "/src" (some 1))
      { files := Engine.oneCall }).isSome = true := by decide +kernel
  obtain ⟨t, ht⟩ := Option.isSome_iff_exists.mp hresult
  obtain ⟨u, hu⟩ := Run.result?_eq_some_iff.mp ht
  obtain ⟨content, v, hcall, hrejected, -, hworld⟩ :=
    rejected_calls_do_nothing_or_everything "svg" htools hordinary
  obtain rfl := hworld t u hu
  have hafter : Run.worldAfter (indexedCall.hierarchy "f" "/src" (some 1))
      { files := Engine.oneCall } = v := by rw [Run.worldAfter, hu]
  refine ⟨content, v, hcall, hrejected.mpr (.inr ⟨?_, t, v, hu⟩), ?_, ?_⟩
  · rintro (h | h | h | h) <;> exact absurd h (by decide)
  · rw [← hafter]
    decide +kernel
  · rw [← hafter]
    exact eq_ok_of_toOption (by decide +kernel)

end Mcp

end CallerTree
