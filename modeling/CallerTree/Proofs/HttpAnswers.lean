import CallerTree.Http.Server
import CallerTree.Proofs.Codes
import CallerTree.Proofs.JsonText
import CallerTree.Proofs.ToolCalls
import CallerTree.Proofs.Transcript

/-!
# Answers to requests

A request to one of the three interfaces that answer in JSON comes to one of three ends. An integer
among its parameters is none; or what it asks for succeeds; or that fails, and then the answer has
the code of the failure. This module shows that status, body and log agree on which of them it was.

A handler is free to call the writer of the response as often as it likes, and only the first status
gets to the client while the last one gets to the log. So agreement is a matter of the calls made
(`Http.Recorder.Says`), and what it rests on is that nothing but headers was written before the
handler starts.

## Main definitions

* `Text.IsInteger` — the decimal integers of 64 bits
* `Http.Recorder.Says` — one status and one body were written
* `Http.Concludes` — what comes of the thing that a request asks for
* `Http.IsAnswer` — the answers that fit a request

## Main results

* `Search.ends_run` — the kinds of failures of a search
* `Http.Server.answers_are_consistent`
-/

namespace CallerTree

/-! ### Integers -/

namespace Text

/-- The digits of `n`, zeros in front allowed. -/
def IsDigits (t : Text) (n : Nat) : Prop :=
  ∃ cs, t = ofChars cs ∧ cs ≠ [] ∧ (∀ c ∈ cs, c.isDigit = true) ∧ Nat.ofDigitChars 10 cs 0 = n

/-- A decimal integer, with or without a sign, in the range of 64 bits. -/
def IsInteger (t : Text) (n : Int) : Prop :=
  (∃ digits m, IsDigits digits m ∧
    (t = digits ∧ n = m ∨ t = "+" ++ digits ∧ n = m ∨ t = "-" ++ digits ∧ n = -m)) ∧
  minInt64 ≤ n ∧ n ≤ maxInt64

theorem readNat?_eq_some_iff {t : Text} {n : Nat} : readNat? t = some n ↔ IsDigits t n := by
  constructor
  · intro h
    obtain ⟨cs, rfl, hcs, hn⟩ := exists_digits_of_foldlM (foldlM_of_readNat? h)
    refine ⟨cs, rfl, ?_, hcs, hn⟩
    rintro rfl
    cases h
  · rintro ⟨cs, rfl, hne, hcs, rfl⟩
    exact readNat?_ofChars hne hcs

/-- Signs and leading zeros are admitted, and numbers that do not fit are not. -/
theorem readInt?_eq_some_iff {t : Text} {n : Int} : readInt? t = some n ↔ IsInteger t n := by
  constructor
  · intro h
    unfold readInt? at h
    split at h
    all_goals
      obtain ⟨m, hm, hfit⟩ := Option.bind_eq_some_iff.mp h
      obtain ⟨rfl, hrange⟩ := fit64?_eq_some_iff.mp hfit
      refine ⟨⟨_, m, readNat?_eq_some_iff.mp hm, ?_⟩, hrange⟩
    · exact .inr (.inr ⟨rfl, rfl⟩)
    · exact .inr (.inl ⟨rfl, rfl⟩)
    · exact .inl ⟨rfl, rfl⟩
  · rintro ⟨⟨digits, m, hdigits, hcases⟩, hrange⟩
    have hread := readNat?_eq_some_iff.mpr hdigits
    have hfit : fit64? n = some n := fit64?_eq_some_iff.mpr ⟨rfl, hrange⟩
    rcases hcases with ⟨rfl, rfl⟩ | ⟨rfl, rfl⟩ | ⟨rfl, rfl⟩
    · obtain ⟨cs, rfl, hne, hcs, -⟩ := hdigits
      obtain ⟨c, cs, rfl⟩ := List.exists_cons_of_ne_nil hne
      exact (readInt?_of_isDigit (hcs c List.mem_cons_self) _).trans
        ((congrArg (·.bind fun n : Nat => fit64? n) hread).trans hfit)
    · exact (congrArg (·.bind fun n : Nat => fit64? n) hread).trans hfit
    · exact (congrArg (·.bind fun n : Nat => fit64? (-(n : Int))) hread).trans hfit

end Text

/-! ### Failures without a code -/

theorem Failure.isKind_isUncoded : IsKind IsUncoded where
  ending f hf := by
    rw [← reported?_eq_none_iff]
    cases hf with
    | canceled => simp
    | deadline => simp
  message t := reported?_eq_none_iff.mp (by simp)
  unavailable detail := reported?_eq_none_iff.mp (by simp)
  under lead f hf := by
    rw [← reported?_eq_none_iff] at hf ⊢
    simpa using hf
  join fs hfs := isUncoded_join_iff.mpr hfs

theorem Failure.isUncoded_because (c : Cause) (detail : Text) : (because c detail).IsUncoded :=
  reported?_eq_none_iff.mp (by simp)

theorem Failure.IsUncoded.report_eq {f : Failure} (h : f.IsUncoded) :
    f.report = ⟨f.code, f.text, some f⟩ := by
  rw [report, reported?_eq_none_iff.mpr h]
  rfl

theorem Search.exists_because_of_validateDirectory {fs : FileSystem} {root : Text} {f : Failure}
    (h : validateDirectory fs root = .error f) : ∃ detail, f = .because .invalidSearch detail := by
  unfold validateDirectory at h
  grind

/-- A search fails with a failure of a kind that has the refusals of searches in it. -/
theorem Search.ends_run {Q : Failure → Prop} (hQ : Failure.IsKind Q)
    (hrefusal : ∀ detail, Q (.because .invalidSearch detail)) {tools : Toolbox}
    (htools : tools.FailsWith Q) (tool root pattern : Text) (limit : Int) {w : World}
    (hw : w.IsOrdinary) :
    Run.Ends (fun f _ => Q f) (run tools tool root pattern limit) w := by
  have hconclude : ∀ out v, v.IsOrdinary →
      Run.Ends (fun f _ => Q f) (conclude tool root pattern limit out) v := by
    intro out v hv
    unfold conclude
    dsimp only
    split
    · exact .throw_bind hv (hQ.message _)
    · exact .note_bind hv fun v hv _ => .pure hv _
  unfold run
  refine .files_bind (.bind ⟨_, w, rfl, hw, fun f hf => ?_⟩ fun _ v hv => ?_)
  · obtain ⟨detail, rfl⟩ := exists_because_of_validateDirectory hf
    exact hrefusal detail
  · split
    · exact .throw_bind hv (hrefusal _)
    · refine .attempt_bind (Run.ends_command tools _ hv) (hconclude · · ·) fun f v hv hf => ?_
      exact .throw hv (hQ.under _ _ (htools.of_isFailure hQ hf))

namespace FileContext

variable {fs : FileSystem} {path basePath : Text} {line width : Int} {f : Failure}

theorem validate_or_contents_of_read (h : read fs path line width basePath = .error (.refused f)) :
    validate path line width = .error f ∨ contents fs (resolvedPath path basePath) = .error f := by
  unfold read at h
  cases hvalidate : validate path line width with
  | error g =>
    rw [hvalidate] at h
    cases h
    exact .inl rfl
  | ok _ =>
    refine .inr ?_
    cases hcontents : contents fs (resolvedPath path basePath) with
    | error g =>
      simp only [hvalidate, hcontents, Except.mapError] at h
      cases h
      rfl
    | ok data =>
      simp only [hvalidate, hcontents, Except.mapError] at h
      change (if _ then _ else _) = _ at h
      split at h <;> cases h

/-- The request is in order and its file is there, but the file cannot be read. -/
def IsUnreadable (fs : FileSystem) (path : Text) (line width : Int) (basePath : Text) : Prop :=
  validate path line width = .ok () ∧
    ∃ mode data reason, fs.stat (resolvedPath path basePath) = .ok (.file mode data) ∧
      fs.read (resolvedPath path basePath) = .error reason

theorem exists_because_of_validate (h : validate path line width = .error f) :
    ∃ detail, f = .because .invalidSearch detail := by
  unfold validate at h
  grind

/-- What is refused is invalid, unless the file could not be read. -/
theorem refusal_cases (h : read fs path line width basePath = .error (.refused f)) :
    (∃ detail, f = .because .invalidSearch detail) ∧
        ¬ IsUnreadable fs path line width basePath ∨
      (∃ reason, f = .under ("read " ++ resolvedPath path basePath) (.message reason)) ∧
        IsUnreadable fs path line width basePath := by
  cases hvalid : validate path line width with
  | error g =>
    have hg : g = f := by
      rw [read, hvalid] at h
      cases h
      rfl
    refine .inl ⟨exists_because_of_validate (hg ▸ hvalid), fun hno => ?_⟩
    cases hvalid.symm.trans hno.1
  | ok _ =>
    have hcontents := (validate_or_contents_of_read h).resolve_left (by simp [hvalid])
    unfold contents at hcontents
    split at hcontents
    · rename_i hstat
      cases hcontents
      refine .inl ⟨⟨_, rfl⟩, ?_⟩
      rintro ⟨_, _, _, _, hfile, _⟩
      simp [hstat] at hfile
    · rename_i mode data hstat
      cases hread : fs.read (resolvedPath path basePath) with
      | ok data => simp [hread, Except.mapError] at hcontents
      | error reason =>
        rw [hread] at hcontents
        cases hcontents
        exact .inr ⟨⟨reason, rfl⟩, hvalid, mode, data, reason, hstat, hread⟩
    · rename_i hnot hstat
      cases hcontents
      refine .inl ⟨⟨_, rfl⟩, ?_⟩
      rintro ⟨_, mode, data, _, hfile, _⟩
      exact hnot mode data (Except.ok.inj (hstat.symm.trans hfile))

theorem read_of_isUnreadable (h : IsUnreadable fs path line width basePath) :
    ∃ g, read fs path line width basePath = .error (.refused g) := by
  obtain ⟨hvalid, mode, data, reason, hstat, hread⟩ := h
  refine ⟨.under ("read " ++ resolvedPath path basePath) (.message reason), ?_⟩
  simp only [read, hvalid, contents, hstat, hread, Except.mapError]
  rfl

/-- A file that cannot be read is an error of the server, and no other refusal is. -/
theorem code_of_read (h : read fs path line width basePath = .error (.refused f)) :
    f.IsUncoded ∧ (f.code = .internalError ↔ IsUnreadable fs path line width basePath) ∧
      (f.code = .invalidInput ↔ ¬ IsUnreadable fs path line width basePath) := by
  obtain ⟨⟨detail, rfl⟩, hreadable⟩ | ⟨⟨reason, rfl⟩, hunreadable⟩ := refusal_cases h
  · have hcode : (Failure.because .invalidSearch detail).code = .invalidInput := by
      simp [Failure.code]
    simp [hcode, hreadable, Failure.isUncoded_because, Failure.invalidInput_ne_internalError]
  · have huncoded : (Failure.under ("read " ++ resolvedPath path basePath)
        (.message reason)).IsUncoded := Failure.reported?_eq_none_iff.mp (by simp)
    have hcode : (Failure.under ("read " ++ resolvedPath path basePath)
        (.message reason)).code = .internalError := by
      simp [huncoded.code_eq]
    simp [hcode, hunreadable, huncoded, Failure.invalidInput_ne_internalError.symm]

end FileContext

/-- The failure of a request about a hierarchy has no code. -/
theorem Service.isUncoded_of_hierarchy {s : Service} {w v : World} {function basePath : Text}
    {depth : Option Int} {f : Failure} (htools : s.engine.tools.FailsWith Failure.IsUncoded)
    (hw : w.IsOrdinary) (h : s.hierarchy function basePath depth w = .error f v) :
    f.IsUncoded := by
  let w₁ : World := w.within s.defaults.timeout
  by_cases hinvalid : s.engine.IsInvalid w₁.files function basePath
      (depth.getD s.defaults.filled.maxDepth)
  · obtain ⟨detail, hrefused⟩ := Engine.hierarchy_of_isInvalid hinvalid
    cases h.symm.trans hrefused
    exact Failure.isUncoded_because _ _
  · exact Engine.kind_of_hierarchy_error (w := w₁) Failure.isKind_isUncoded htools
      (hw.within _) hinvalid h

namespace Http

open Json (field)

/-! ### What a request comes to -/

/-- The paths of the interfaces that answer in JSON. -/
def Route.jsonPath? : Route → Option Text
  | search => some "/search"
  | fileContent => some "/file-content"
  | callHierarchy => some "/call-hierarchy"
  | _ => none

/-- The parameters that are integers. -/
def Route.integers : Route → List Text
  | search => ["limit"]
  | fileContent => ["line_number", "context_lines"]
  | callHierarchy => ["max_depth"]
  | _ => []

/-- The parameter is there, and is no integer. -/
def IsNoInteger (t : Target) (name : Text) : Prop :=
  t.parameter name ≠ [] ∧ ∀ n, ¬ (t.parameter name).IsInteger n

/-- What is asked for has this result, all integers being in order. -/
inductive Concludes (s : Service) (t : Target) (w : World) : Route → Except Failure Json → Prop
  | search {limit : Option Int} {result : Except Failure SearchResult} {v : World}
      (hlimit : integer t "limit" = .ok limit)
      (h : s.search (t.parameter "path") (t.parameter "pattern") limit w = Run.ofExcept result v) :
      Concludes s t w .search (result.map SearchResult.toJson)
  | fileContent {line width : Option Int} {result : Except Failure FileContext}
      (hline : integer t "line_number" = .ok line)
      (hwidth : integer t "context_lines" = .ok width)
      (h : FileContext.read w.files (t.parameter "file_path") (line.getD 0)
        (width.getD s.defaults.filled.contextLines) (t.parameter "base_path") =
          result.mapError .refused) :
      Concludes s t w .fileContent (result.map FileContext.toJson)
  | callHierarchy {depth : Option Int} {result : Except Failure CallTree} {v : World}
      (hdepth : integer t "max_depth" = .ok depth)
      (h : s.hierarchy (t.parameter "function_name") (t.parameter "base_path") depth w =
        Run.ofExcept result v) :
      Concludes s t w .callHierarchy (result.map CallTree.toJson)

namespace Recorder

/-- The statuses that were written, in order. -/
def statuses (r : Recorder) : List Nat :=
  r.calls.filterMap fun call => match call with
    | .writeHeader status => some status
    | _ => none

/-- The bodies that were written, in order. -/
def bodies (r : Recorder) : List Text :=
  r.calls.filterMap fun call => match call with
    | .write body => some body
    | _ => none

/-- One status was written and one body, which is the text of this value alone. Both get to the
client as they were written, and the status is the one that was recorded. -/
structure Says (r : Recorder) (status : Nat) (j : Json) : Prop where
  statuses_eq : r.statuses = [status]
  bodies_eq : r.bodies = [r.response.body]
  recorded_eq : r.status = status
  status_eq : r.response.status = status
  contentType_eq : r.response.header "Content-Type" = "application/json"
  read?_body : Json.read? r.response.body = some j

/-- Nothing but headers was written so far. -/
def IsFresh (r : Recorder) : Prop := ∀ call ∈ r.calls, ∃ name value, call = .setHeader name value

/-- Calls that set headers only change the headers. -/
theorem exists_ofCalls_append {calls : List WriterCall}
    (h : ∀ call ∈ calls, ∃ name value, call = .setHeader name value)
    (headers : List (Text × Text)) :
    ∃ headers', ∀ rest, Response.ofCalls headers (calls ++ rest) = .ofCalls headers' rest := by
  induction calls generalizing headers with
  | nil => exact ⟨headers, fun _ => rfl⟩
  | cons call calls ih =>
    obtain ⟨⟨name, value, rfl⟩, hcalls⟩ := List.forall_mem_cons.mp h
    exact ih hcalls _

/-- The recorder is fresh, so that the first status is the one of this answer. -/
theorem says_writeJson {r : Recorder} (h : r.IsFresh) (status : Nat) (j : Json) :
    (r.writeJson status j).Says status j.shown := by
  have hcalls : (r.writeJson status j).calls = r.calls ++
      [.setHeader "Content-Type" "application/json", .writeHeader status,
        .write (j.compact ++ "\n")] := by
    simp [writeJson, setHeader, writeHeader, write]
  obtain ⟨headers, hheaders⟩ := exists_ofCalls_append h []
  have hresponse : (r.writeJson status j).response = {
      status, headers := ("Content-Type", "application/json") ::
        headers.filter (·.1 ≠ "Content-Type"), body := j.compact ++ "\n" } := by
    rw [response, hcalls, hheaders]
    simp [Response.ofCalls, Response.ofCalls.bodyOf]
  have hnone : ∀ {α : Type} (f : WriterCall → Option α), (∀ n v, f (.setHeader n v) = none) →
      r.calls.filterMap f = [] := by
    intro α f hf
    refine List.filterMap_eq_nil_iff.mpr fun call hcall => ?_
    obtain ⟨name, value, rfl⟩ := h call hcall
    exact hf name value
  refine ⟨?_, ?_, rfl, by rw [hresponse], ?_, ?_⟩
  · rw [statuses, hcalls, List.filterMap_append, hnone _ fun _ _ => rfl]
    rfl
  · rw [bodies, hcalls, List.filterMap_append, hnone _ fun _ _ => rfl, hresponse]
    rfl
  · simp [hresponse, Response.header]
  · rw [hresponse]
    exact Json.read?_compact j

end Recorder

/-- The fields of an answer that tells of a failure. A search has no results then. -/
structure IsErrorBody (r : Route) (c : Code) (message : Text) (fields : List (Text × Json)) :
    Prop where
  code_eq : field fields "code" = .str c.label
  error_eq : field fields "error" = .str message.visible
  results_eq : r = .search → field fields "results" = .arr [] ∧ field fields "limited" = .bool false

/-- The message with which a failure is answered. A refused search is answered in fixed words. -/
def Route.message (r : Route) (f : Failure) : Text :=
  if r = .search ∧ f.code = .invalidInput then "Invalid directory path" else f.text

/-- The answers that fit a request. -/
inductive IsAnswer (s : Service) (t : Target) (w : World) (r : Route) (answer : Recorder) : Prop
  | noInteger {name : Text} {fields : List (Text × Json)} (hname : name ∈ r.integers)
      (h : IsNoInteger t name) (hbody : answer.Says 400 (.obj fields))
      (hfields : IsErrorBody r .invalidInput (notInteger name (t.parameter name)).message fields)
  | success {j : Json} (h : Concludes s t w r (.ok j)) (hbody : answer.Says 200 j.shown)
  | failure {f : Failure} {fields : List (Text × Json)} (h : Concludes s t w r (.error f))
      (hcode : f.code = .invalidInput ∨ f.code = .timeout ∨ f.code = .internalError)
      (hbody : answer.Says f.code.status (.obj fields))
      (hfields : IsErrorBody r f.code (r.message f) fields)

section Handlers

variable {s : Service} {t : Target} {w : World} {r : Route} {a : Recorder}

theorem integer_cases (t : Target) (name : Text) :
    (¬ IsNoInteger t name ∧ ∃ n, integer t name = .ok n) ∨
    (IsNoInteger t name ∧ integer t name = .error (notInteger name (t.parameter name))) := by
  unfold integer IsNoInteger
  dsimp only
  split
  · rename_i hempty
    exact .inl ⟨fun h => h.1 (List.isEmpty_iff.mp hempty), _, rfl⟩
  · rename_i hne
    cases hread : Text.readInt? (t.parameter name) with
    | some n => exact .inl ⟨fun h => h.2 n (Text.readInt?_eq_some_iff.mp hread), _, rfl⟩
    | none =>
      refine .inr ⟨⟨fun hnil => hne (List.isEmpty_iff.mpr hnil), fun n hn => ?_⟩, rfl⟩
      rw [Text.readInt?_eq_some_iff.mpr hn] at hread
      cases hread

theorem not_isNoInteger_of_integer {name : Text} {n : Option Int} (h : integer t name = .ok n) :
    ¬ IsNoInteger t name := by
  obtain ⟨hinteger, -⟩ | ⟨-, herror⟩ := integer_cases t name
  · exact hinteger
  · rw [h] at herror
    cases herror

theorem Concludes.not_isNoInteger {result : Except Failure Json} (h : Concludes s t w r result) :
    ∀ name ∈ r.integers, ¬ IsNoInteger t name := by
  cases h with
  | search hlimit =>
    exact List.forall_mem_singleton.mpr (not_isNoInteger_of_integer hlimit)
  | fileContent hline hwidth =>
    refine List.forall_mem_cons.mpr ⟨not_isNoInteger_of_integer hline, ?_⟩
    exact List.forall_mem_singleton.mpr (not_isNoInteger_of_integer hwidth)
  | callHierarchy hdepth =>
    exact List.forall_mem_singleton.mpr (not_isNoInteger_of_integer hdepth)

/-! ### Bodies -/

theorem visible_label {c : Code} (h : c = .invalidInput ∨ c = .timeout ∨ c = .internalError) :
    c.label.visible = c.label := by
  rcases h with rfl | rfl | rfl <;> rfl

/-- The answer with which a route tells of a failure. -/
def Route.telling (r : Route) (a : Recorder) (report : Failure.Report) : Recorder :=
  if r = .search then a.writeSearchFailure report else a.writeReport report

theorem Route.exists_says_telling (r : Route) (ha : a.IsFresh) (report : Failure.Report)
    (hcode : report.code = .invalidInput ∨ report.code = .timeout ∨ report.code = .internalError) :
    ∃ fields, (r.telling a report).Says report.status (.obj fields) ∧
      IsErrorBody r report.code report.message fields := by
  have hlabel := visible_label hcode
  unfold telling
  split
  · exact ⟨_, Recorder.says_writeJson ha _ _, congrArg Json.str hlabel, rfl, fun _ => ⟨rfl, rfl⟩⟩
  · rename_i hr
    exact ⟨_, Recorder.says_writeJson ha _ _, congrArg Json.str hlabel, rfl,
      fun h => absurd h hr⟩

/-- A parameter that is no integer is answered so. -/
theorem isAnswer_of_isNoInteger (ha : a.IsFresh) {name : Text} (hname : name ∈ r.integers)
    (h : IsNoInteger t name) :
    IsAnswer s t w r (r.telling a (notInteger name (t.parameter name))) := by
  obtain ⟨fields, hbody, hfields⟩ :=
    r.exists_says_telling ha (notInteger name (t.parameter name)) (.inl rfl)
  exact .noInteger hname h hbody hfields

/-- A failure without a code of its own is answered so. -/
theorem isAnswer_of_isUncoded (ha : a.IsFresh) {f : Failure} (hf : f.IsUncoded)
    (h : Concludes s t w r (.error f)) :
    IsAnswer s t w r (r.telling a ⟨f.code, r.message f, some f⟩) := by
  have hcode : f.code = .invalidInput ∨ f.code = .timeout ∨ f.code = .internalError := by
    rw [hf.code_eq]
    grind
  obtain ⟨fields, hbody, hfields⟩ :=
    r.exists_says_telling ha ⟨f.code, r.message f, some f⟩ hcode
  exact .failure h hcode hbody hfields

theorem isAnswer_writeReport (ha : a.IsFresh) (hr : r ≠ .search) {f : Failure} (hf : f.IsUncoded)
    (h : Concludes s t w r (.error f)) : IsAnswer s t w r (a.writeReport f.report) := by
  have htelling : r.telling a ⟨f.code, r.message f, some f⟩ = a.writeReport f.report := by
    rw [Route.telling, if_neg hr, Route.message, if_neg fun hsearch => hr hsearch.1, hf.report_eq]
  exact htelling ▸ isAnswer_of_isUncoded ha hf h

/-! ### Handlers -/

theorem exists_search (ha : a.IsFresh) (htools : s.engine.tools.FailsWith Failure.IsUncoded)
    (hw : w.IsOrdinary) :
    ∃ answer v, search s t a w = .ok answer v ∧ IsAnswer s t w .search answer := by
  unfold search
  obtain ⟨-, limit, hlimit⟩ | ⟨hno, hlimit⟩ := integer_cases t "limit"
  · rw [hlimit]
    dsimp only
    cases hrun : s.search (t.parameter "path") (t.parameter "pattern") limit w with
    | ok found v =>
      rw [Run.bind_of_ok (Run.attempt_of_eq (r := .ok found) hrun)]
      have hconcludes : Concludes s t w .search (.ok found.toJson) :=
        .search hlimit (show _ = Run.ofExcept (.ok found) v from hrun)
      exact ⟨_, v, rfl, .success hconcludes (Recorder.says_writeJson ha 200 _)⟩
    | error f v =>
      have hends := Search.ends_run Failure.isKind_isUncoded
        (Failure.isUncoded_because .invalidSearch) htools s.searchTool (t.parameter "path")
        (t.parameter "pattern") (limit.getD s.defaults.filled.searchLimit)
        (hw.within s.defaults.timeout)
      obtain ⟨-, hf⟩ := hends.of_error hrun
      rw [Run.bind_of_ok (Run.attempt_of_eq (r := .error f) hrun)]
      have hconcludes : Concludes s t w .search (.error f) :=
        .search hlimit (show _ = Run.ofExcept (.error f) v from hrun)
      have htelling : a.writeSearchFailure (if f.report.code = .invalidInput then
          { f.report with message := "Invalid directory path" } else f.report) =
          Route.search.telling a ⟨f.code, Route.search.message f, some f⟩ := by
        rw [hf.report_eq, Route.telling, if_pos rfl, Route.message]
        by_cases hcode : f.code = .invalidInput <;> simp [hcode]
      refine ⟨_, _, rfl, ?_⟩
      rw [htelling]
      exact isAnswer_of_isUncoded ha hf hconcludes
  · rw [hlimit]
    exact ⟨_, w, rfl, isAnswer_of_isNoInteger ha (List.mem_singleton.mpr rfl) hno⟩

theorem exists_callHierarchy (ha : a.IsFresh)
    (htools : s.engine.tools.FailsWith Failure.IsUncoded) (hw : w.IsOrdinary) :
    ∃ answer v, callHierarchy s t a w = .ok answer v ∧ IsAnswer s t w .callHierarchy answer := by
  unfold callHierarchy
  obtain ⟨-, depth, hdepth⟩ | ⟨hno, hdepth⟩ := integer_cases t "max_depth"
  · rw [hdepth]
    dsimp only
    cases hrun : s.hierarchy (t.parameter "function_name") (t.parameter "base_path") depth w with
    | ok tree v =>
      rw [Run.bind_of_ok (Run.attempt_of_eq (r := .ok tree) hrun)]
      have hconcludes : Concludes s t w .callHierarchy (.ok tree.toJson) :=
        .callHierarchy hdepth (show _ = Run.ofExcept (.ok tree) v from hrun)
      exact ⟨_, v, rfl, .success hconcludes (Recorder.says_writeJson ha 200 _)⟩
    | error f v =>
      have hf : f.IsUncoded := Service.isUncoded_of_hierarchy htools hw hrun
      rw [Run.bind_of_ok (Run.attempt_of_eq (r := .error f) hrun)]
      have hconcludes : Concludes s t w .callHierarchy (.error f) :=
        .callHierarchy hdepth (show _ = Run.ofExcept (.error f) v from hrun)
      have hanswer := isAnswer_writeReport ha (by decide) hf hconcludes
      dsimp only
      split
      · exact ⟨_, _, rfl, hanswer⟩
      · exact ⟨_, _, rfl, hanswer⟩
  · rw [hdepth]
    exact ⟨_, w, rfl, isAnswer_of_isNoInteger ha (List.mem_singleton.mpr rfl) hno⟩

/-- The request asks for more lines than there can be room for. -/
def IsTooWide (s : Service) (t : Target) (fs : FileSystem) : Prop :=
  ∃ line width p, integer t "line_number" = .ok line ∧ integer t "context_lines" = .ok width ∧
    FileContext.read fs (t.parameter "file_path") (line.getD 0)
      (width.getD s.defaults.filled.contextLines) (t.parameter "base_path") = .error (.panicked p)

/-- The request is in order and its file is there, but the file cannot be read. -/
def IsUnreadable (s : Service) (t : Target) (fs : FileSystem) : Prop :=
  ∃ line width, integer t "line_number" = .ok line ∧ integer t "context_lines" = .ok width ∧
    FileContext.IsUnreadable fs (t.parameter "file_path") (line.getD 0)
      (width.getD s.defaults.filled.contextLines) (t.parameter "base_path")

/-- The one route that may end without an answer: a window that is too wide is not allocated. -/
theorem exists_fileContent (ha : a.IsFresh) : ∃ answer v, fileContent s t a w = .ok answer v ∧
    (∀ p, answer = .error p → IsTooWide s t w.files) ∧
    ∀ b, answer = .ok b → IsAnswer s t w .fileContent b := by
  unfold fileContent
  obtain ⟨-, line, hline⟩ | ⟨hno, hline⟩ := integer_cases t "line_number"
  · obtain ⟨-, width, hwidth⟩ | ⟨hno, hwidth⟩ := integer_cases t "context_lines"
    · rw [hline, hwidth]
      have hrun : s.fileContext (t.parameter "file_path") (line.getD 0) width
          (t.parameter "base_path") w = Run.ofExcept (.ok (FileContext.read w.files
            (t.parameter "file_path") (line.getD 0) (width.getD s.defaults.filled.contextLines)
            (t.parameter "base_path"))) w := rfl
      dsimp only
      rw [Run.bind_of_ok hrun]
      cases hread : FileContext.read w.files (t.parameter "file_path") (line.getD 0)
          (width.getD s.defaults.filled.contextLines) (t.parameter "base_path") with
      | ok c =>
        refine ⟨_, w, rfl, nofun, ?_⟩
        rintro _ ⟨⟩
        have hconcludes : Concludes s t w .fileContent (.ok c.toJson) :=
          .fileContent hline hwidth (show _ = Except.mapError _ (.ok c) from hread)
        exact .success hconcludes (Recorder.says_writeJson ha 200 _)
      | error e =>
        cases e with
        | refused f =>
          refine ⟨_, w, rfl, nofun, ?_⟩
          rintro _ ⟨⟩
          have hconcludes : Concludes s t w .fileContent (.error f) :=
            .fileContent hline hwidth (show _ = Except.mapError _ (.error f) from hread)
          have huncoded := (FileContext.code_of_read hread).1
          exact isAnswer_writeReport ha (by decide) huncoded hconcludes
        | panicked p => exact ⟨_, w, rfl, fun _ _ => ⟨_, _, _, hline, hwidth, hread⟩, nofun⟩
    · rw [hline, hwidth]
      refine ⟨_, w, rfl, nofun, ?_⟩
      rintro _ ⟨⟩
      exact isAnswer_of_isNoInteger ha (by simp [Route.integers]) hno
  · rw [hline]
    refine ⟨_, w, rfl, nofun, ?_⟩
    rintro _ ⟨⟩
    exact isAnswer_of_isNoInteger ha List.mem_cons_self hno

theorem Concludes.exists_read {result : Except Failure Json}
    (h : Concludes s t w .fileContent result) :
    ∃ (line width : Option Int) (r : Except Failure FileContext),
      (IsUnreadable s t w.files ↔ FileContext.IsUnreadable w.files (t.parameter "file_path")
        (line.getD 0) (width.getD s.defaults.filled.contextLines) (t.parameter "base_path")) ∧
      FileContext.read w.files (t.parameter "file_path") (line.getD 0)
        (width.getD s.defaults.filled.contextLines) (t.parameter "base_path") =
          r.mapError .refused ∧
      result = r.map FileContext.toJson := by
  cases h with
  | @fileContent line width r hline hwidth hread =>
    refine ⟨line, width, r, ⟨?_, fun h => ⟨line, width, hline, hwidth, h⟩⟩, hread, rfl⟩
    rintro ⟨line', width', hline', hwidth', h⟩
    cases hline.symm.trans hline'
    cases hwidth.symm.trans hwidth'
    exact h

/-- Among the answers about files, those of a server in trouble are those about unreadable ones. -/
theorem IsAnswer.status_eq_iff (h : IsAnswer s t w .fileContent a) :
    a.status = 500 ↔ IsUnreadable s t w.files := by
  cases h with
  | @noInteger name _ hname hno hbody =>
    rw [hbody.recorded_eq]
    refine iff_of_false (by decide) ?_
    rintro ⟨line, width, hline, hwidth, -⟩
    simp only [Route.integers, List.mem_cons, List.not_mem_nil, or_false] at hname
    obtain rfl | rfl := hname
    · exact not_isNoInteger_of_integer hline hno
    · exact not_isNoInteger_of_integer hwidth hno
  | success h hbody =>
    rw [hbody.recorded_eq]
    obtain ⟨line, width, r, hiff, hread, hresult⟩ := h.exists_read
    refine iff_of_false (by decide) fun hunreadable => ?_
    obtain ⟨f, hf⟩ := FileContext.read_of_isUnreadable (hiff.mp hunreadable)
    cases r with
    | ok c => cases hread.symm.trans hf
    | error g => cases hresult
  | failure h hcode hbody =>
    rw [hbody.recorded_eq]
    obtain ⟨line, width, r, hiff, hread, hresult⟩ := h.exists_read
    cases r with
    | ok c => cases hresult
    | error g =>
      cases hresult
      rw [hiff, ← (FileContext.code_of_read hread).2.1]
      obtain hc | hc | hc := hcode <;> rw [hc] <;> decide

theorem IsAnswer.response_status_eq (h : IsAnswer s t w r a) : a.response.status = a.status := by
  cases h with
  | noInteger _ _ hbody => rw [hbody.status_eq, hbody.recorded_eq]
  | success _ hbody => rw [hbody.status_eq, hbody.recorded_eq]
  | failure _ _ hbody => rw [hbody.status_eq, hbody.recorded_eq]

end Handlers

/-! ### The server -/

namespace Server

variable {s : Server} {q : Request} {r : Route} {w : World}

theorem route_eq_of_isClean {t : Target} {path : Text} {toolsMounted : Bool}
    (hpath : t.sentPath = path) (hne : path ≠ []) (hclean : cleanPath path = path)
    (hallows : r.allows "GET" = true)
    (hfind : ((Route.segment? path).bind fun s => (Route.table toolsMounted).lookup s) = some r) :
    route toolsMounted "GET" t = .to r := by
  have hget : ("GET" : Text) ≠ "CONNECT" := by decide
  simp only [route, hpath, hget, if_false, hclean, ne_eq, not_true_eq_false, List.isEmpty_iff, hne]
  rw [hfind]
  simp [hallows]

theorem route_of_jsonPath? {t : Target} (hpath : r.jsonPath? = some t.sentPath)
    (toolsMounted : Bool) : route toolsMounted "GET" t = .to r := by
  cases r with
  | search | fileContent | callHierarchy =>
    refine route_eq_of_isClean (Option.some.inj hpath).symm (by decide) (by decide +kernel) rfl ?_
    cases toolsMounted <;> decide +kernel
  | page | metrics | tools => cases hpath

/-- What always answers never panics. -/
theorem exists_ok {x : Run Recorder} {P : Recorder → Prop} {Q : Prop}
    (h : ∃ a v, x w = .ok a v ∧ P a) :
    ∃ (answer : Except Panic Recorder) (v : World),
      (x >>= fun a => pure (.ok a)) w = .ok answer v ∧ (∀ p, answer = .error p → Q) ∧
        ∀ a, answer = .ok a → P a := by
  obtain ⟨a, v, hrun, ha⟩ := h
  refine ⟨.ok a, v, ?_, nofun, ?_⟩
  · rw [Run.bind_of_ok (v := v) (a := a) hrun]
    rfl
  · rintro _ ⟨⟩
    exact ha

/-- A request to one of the interfaces gets an answer that fits it, unless it asks for too much. -/
theorem exists_dispatch {a : Recorder} (ha : a.IsFresh)
    (htools : s.service.engine.tools.FailsWith Failure.IsUncoded) (hw : w.IsOrdinary)
    (hmethod : q.method = "GET") (hpath : r.jsonPath? = some q.target.sentPath) :
    ∃ answer v, s.dispatch q a w = .ok answer v ∧
      (∀ p, answer = .error p → r = .fileContent ∧ IsTooWide s.service q.target w.files) ∧
      ∀ b, answer = .ok b → IsAnswer s.service q.target w r b := by
  unfold dispatch
  rw [hmethod, route_of_jsonPath? hpath]
  cases r with
  | search => exact exists_ok (exists_search ha htools hw)
  | callHierarchy => exact exists_ok (exists_callHierarchy ha htools hw)
  | fileContent =>
    obtain ⟨answer, v, hrun, hpanic, hanswer⟩ :=
      exists_fileContent (s := s.service) (t := q.target) (w := w) ha
    exact ⟨answer, v, hrun, fun p hp => ⟨rfl, hpanic p hp⟩, hanswer⟩
  | page | metrics | tools => cases hpath

/-- **Answers are consistent.** Let the failures of the tools carry no code. A request to one of the
interfaces that answer in JSON is answered, unless it asks for more lines of a file than there can
be room for. One status is written and one body (`Recorder.Says`). The status is 200, and the body
is what was asked for; or it is the status of the code that the body has, with the message of the
failure (`Route.message`). The code is that of invalid input whenever a parameter that should be an
integer is none, and a file that is there but cannot be read is an error of the server. The status
in the log is that of the response. -/
theorem answers_are_consistent (htools : s.service.engine.tools.FailsWith Failure.IsUncoded)
    (hw : w.IsOrdinary) (hmethod : q.method = "GET")
    (hpath : r.jsonPath? = some q.target.sentPath) (newId : Text) :
    ∃ answered v, s.answer newId q w = .ok answered v ∧
      (∀ p, answered = .error p → r = .fileContent ∧ IsTooWide s.service q.target w.files) ∧
      ∀ a, answered = .ok a →
        IsAnswer s.service q.target w r a ∧
        (∀ name ∈ r.integers, IsNoInteger q.target name → ∃ message fields,
          a.Says 400 (.obj fields) ∧ IsErrorBody r .invalidInput message fields) ∧
        (r = .fileContent → (a.status = 500 ↔ IsUnreadable s.service q.target w.files)) ∧
        ∃ log attributes, v.log = log ++ [⟨.info, "request", attributes⟩] ∧
          attributes.lookup ("status" : Text) = some (.int a.response.status) := by
  have hfresh : (({} : Recorder).setHeader "X-Request-Id"
      (if q.id.isEmpty then newId else q.id)).IsFresh :=
    List.forall_mem_singleton.mpr ⟨_, _, rfl⟩
  obtain ⟨answer, v, hrun, hpanic, hanswer⟩ := exists_dispatch hfresh htools hw hmethod hpath
  unfold Server.answer
  rw [Run.bind_of_ok (v := v) (a := answer) hrun]
  cases answer with
  | error p => exact ⟨_, v, rfl, fun _ _ => hpanic p rfl, nofun⟩
  | ok a =>
    have ha := hanswer a rfl
    refine ⟨_, _, rfl, nofun, ?_⟩
    rintro _ ⟨⟩
    refine ⟨ha, fun name hname hno => ?_, ?_, v.log, _, rfl, ?_⟩
    · cases ha with
      | noInteger _ _ hbody hfields => exact ⟨_, _, hbody, hfields⟩
      | success h => exact absurd hno (h.not_isNoInteger name hname)
      | failure h => exact absurd hno (h.not_isNoInteger name hname)
    · rintro rfl
      exact ha.status_eq_iff
    · rw [ha.response_status_eq]
      rfl

/-- A request for a line with more lines around it than 64 bits can count. -/
def overlongWidth : Request where
  target := {
    path := "/file-content"
    sentPath := "/file-content"
    query := "file_path=/src/a.c&line_number=%2B01&context_lines=9223372036854775808" }

theorem isNoInteger_overlongWidth : IsNoInteger overlongWidth.target "context_lines" := by
  refine ⟨by decide +kernel, fun n hn => ?_⟩
  have hread : Text.readInt? (overlongWidth.target.parameter "context_lines") = none := by
    decide +kernel
  rw [Text.readInt?_eq_some_iff.mpr hn] at hread
  cases hread

/-- The request is refused, and logged as refused. -/
theorem overlong_width_is_refused :
    ∃ a v, Server.answer { service := Mcp.indexedCall } "1" overlongWidth
        { files := Engine.oneCall } = .ok (.ok a) v ∧
      (∃ message fields, a.Says 400 (.obj fields) ∧
        IsErrorBody .fileContent .invalidInput message fields) ∧
      ∃ log attributes, v.log = log ++ [⟨.info, "request", attributes⟩] ∧
        attributes.lookup ("status" : Text) = some (.int a.response.status) := by
  have htools : Mcp.indexedCall.engine.tools.FailsWith Failure.IsUncoded := ⟨nofun, nofun⟩
  have hordinary : World.IsOrdinary { files := Engine.oneCall } := by
    simp [World.IsOrdinary, Context.cause?]
  obtain ⟨answered, v, hanswer, hpanic, hok⟩ := answers_are_consistent
    (s := { service := Mcp.indexedCall }) (q := overlongWidth) (r := .fileContent) htools hordinary
    rfl rfl "1"
  cases answered with
  | error p =>
    obtain ⟨-, _, _, _, -, hwidth, -⟩ := hpanic p rfl
    exact absurd isNoInteger_overlongWidth (not_isNoInteger_of_integer hwidth)
  | ok a =>
    obtain ⟨-, hinvalid, -, hlog⟩ := hok a rfl
    exact ⟨a, v, hanswer,
      hinvalid "context_lines" (by simp [Route.integers]) isNoInteger_overlongWidth, hlog⟩

end Server

end Http

end CallerTree
