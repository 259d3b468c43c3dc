import Stencil.Proofs.Markup.Growth
import Stencil.Proofs.Renderer.Gates
import Stencil.Proofs.Sandbox.Bounds

/-!
# How long the text of an attempt is

The budget for the output bounds what a program writes, and this is what is checked as it is written. The sanitiser
comes behind it and may lengthen the document: an attempt may give out more bytes than the budget says
(`render_longer_than_budget`), but never more than what was written weighs, and so six times as many at most.

Main statement: `byteLength_render_le`.
-/

namespace Stencil

open Markup Policy Template

namespace Sandbox

/-- What a completed run has written keeps to the budget. -/
lemma byteLength_output_le {s : Sandbox} {cache : InclusionCache} {program : Program} {output : Text}
    (h : (s.evaluate cache program).1 = .completed output) : Text.byteLength output ≤ s.budget.maxOutputBytes := by
  have hconfined := (Recorded.composed_execute s s.budget.maxIncludeDepth program).confined (Run.start cache)
    (within_start s cache) (Nat.le_of_eq (Nat.zero_add _))
  obtain ⟨-, hwithin⟩ := hconfined
  rw [Recorded.action_execute] at hwithin
  unfold evaluate at h
  split at h
  · rename_i after hrun
    obtain rfl := Outcome.completed.inj h
    rw [behind, hrun] at hwithin
    exact hwithin.size_eq ▸ hwithin.size_le
  · simp at h

end Sandbox

namespace Renderer

variable {c : Configuration} {detector : PersonalData.Detector} {confine : Text → Text → Option Files.Location}
  {read : Files.Location → Except Fault Text} {r : Renderer} {st : State} {template : Template} {q : Request}
  {out : Text}

/-- A renderer has the budget and the sanitiser of its configuration. -/
lemma budget_ofConfiguration (h : ofConfiguration c detector confine read = .ok r) :
    r.budget = c.budget ∧ r.sanitizer = .ofExtraTags c.allowedTags := by
  obtain ⟨_, -, hr⟩ := bind_eq_ok_iff.1 h
  obtain rfl := Except.ok.inj hr
  exact ⟨rfl, rfl⟩

/-- Without masking, the text of an attempt is the sanitised form of what its program has written, which keeps to the
budget for the output. It takes no more bytes than what was written weighs, and no more than six times the budget. -/
theorem byteLength_render_le (hr : ofConfiguration c detector confine read = .ok r)
    (hmask : template.masksPersonalData = false) (h : (r.render st template q).1 = .ok out) :
    ∃ context program raw, CleanContext.ofContext r.validator template q.context = .ok context ∧
      Program.ofSource c.budget.parseLimits template.content = .ok program ∧
      ((r.sandboxOf q context).evaluate st.inclusions program).1 = .completed raw ∧
      out = (Sanitizer.ofExtraTags c.allowedTags).sanitize raw ∧
      Text.byteLength raw ≤ c.budget.maxOutputBytes ∧
      Text.byteLength out ≤ Text.total weight raw ∧
      Text.byteLength out ≤ 6 * c.budget.maxOutputBytes := by
  obtain ⟨hbudget, hsanitizer⟩ := budget_ofConfiguration hr
  have hanswer := answer_render r st template q
  -- an attempt with an output was not rejected, so the output is what the stages yield
  cases hrejection : r.rejection st template q with
  | some found =>
    rw [hrejection] at hanswer
    rw [show (r.render st template q).1 = .error found.2 from hanswer] at h
    simp at h
  | none =>
    rw [hrejection] at hanswer
    obtain ⟨out', hout', context, program, raw, hcontext, hprogram, hraw, hsanitized⟩ := hanswer
    obtain rfl : out' = out := Except.ok.inj (hout'.symm.trans h)
    rw [hmask, if_neg Bool.false_ne_true, hsanitizer] at hsanitized
    have hwritten : Text.byteLength raw ≤ c.budget.maxOutputBytes := hbudget ▸ Sandbox.byteLength_output_le hraw
    have hweight : Text.byteLength out' ≤ Text.total weight raw :=
      hsanitized ▸ Sanitizer.byteLength_sanitize_le _ raw
    have hsix := total_weight_le raw
    exact ⟨context, program, raw, hcontext, hbudget ▸ hprogram, hraw, hsanitized, hwritten, hweight, by omega⟩

/-! ## A document that grows -/

/-- A configuration that allows an output of forty-six bytes. -/
def terse : Configuration :=
  { version := Configuration.supportedVersion, overrides := { maxOutputBytes := some 46 }, caches := ⟨1, 1, 1⟩ }

/-- A paragraph of forty-six bytes whose identifier is made up of quotes. -/
def quotes : Template := .new "quotes" ("<p id='".toList ++ List.replicate 37 '"' ++ "'>".toList)

/-- The renderer of the short output, which includes no files. -/
def terseRenderer : Renderer :=
  ⟨terse.budget, ⟨.ofBudget terse.budget .warning .html, .none⟩, .html, .ofExtraTags [], none⟩

lemma ofConfiguration_terse :
    ofConfiguration terse .none (fun _ _ => none) (fun _ => .ok []) = .ok terseRenderer := rfl

/-- A state before any attempt, in which everybody may execute the paragraph. -/
def granted? : Option State :=
  (State.new? terse .log).map fun st => { st with permissions := st.permissions.grantPublic "quotes" .execute }

/-- The paragraph is asked for without any variable. -/
def plainRequest : Request := ⟨.empty, "u", false, fun _ => false, 0, 700⟩

lemma exists_render_quotes :
    ∃ st, granted? = some st ∧ ∃ out, (terseRenderer.render st quotes plainRequest).1 = .ok out ∧
      Text.byteLength out = 231 := by
  refine ⟨_, rfl, map_eq_ok_iff.1 ?_⟩
  decide +kernel

/-- The text of an attempt may take more than five times as many bytes as the budget allows for the output. -/
theorem render_longer_than_budget :
    ∃ r st out, ofConfiguration terse .none (fun _ _ => none) (fun _ => .ok []) = .ok r ∧ granted? = some st ∧
      quotes.masksPersonalData = false ∧ (r.render st quotes plainRequest).1 = .ok out ∧
      5 * terse.budget.maxOutputBytes < Text.byteLength out := by
  obtain ⟨st, hst, out, hout, hlength⟩ := exists_render_quotes
  refine ⟨terseRenderer, st, out, ofConfiguration_terse, hst, rfl, hout, ?_⟩
  rw [hlength]
  decide

/-- What is written of the paragraph keeps to the budget, and its text to six times the budget. -/
theorem byteLength_render_le_quotes :
    ∃ st out, (terseRenderer.render st quotes plainRequest).1 = .ok out ∧
      ∃ context program raw,
        CleanContext.ofContext terseRenderer.validator quotes plainRequest.context = .ok context ∧
        Program.ofSource terse.budget.parseLimits quotes.content = .ok program ∧
        ((terseRenderer.sandboxOf plainRequest context).evaluate st.inclusions program).1 = .completed raw ∧
        out = (Sanitizer.ofExtraTags terse.allowedTags).sanitize raw ∧
        Text.byteLength raw ≤ terse.budget.maxOutputBytes ∧ Text.byteLength out ≤ Text.total weight raw ∧
        Text.byteLength out ≤ 6 * terse.budget.maxOutputBytes := by
  obtain ⟨st, -, out, hout, -⟩ := exists_render_quotes
  exact ⟨st, out, hout, byteLength_render_le ofConfiguration_terse rfl hout⟩

end Renderer

end Stencil
