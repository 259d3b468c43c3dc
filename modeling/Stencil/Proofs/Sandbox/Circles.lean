import Mathlib.Logic.Relation
import Stencil.Proofs.Sandbox.Rules
import Stencil.Proofs.Sandbox.Sources
import Stencil.Proofs.Template.Building
import Stencil.Proofs.Template.Joining

/-!
# Files that include each other

A file includes others for certain where the inclusion stands in no body of a loop, a condition or a region
(`Loader.Includes`). A run that goes into a file and is completed has gone into all that this file includes for certain
(`Ends.mem_of_certain`). So it cannot go into a file that comes back to itself in this way (`Loader.Circular`): of the
inclusions in its derivation the innermost would have to go into one more.

Runs come to an end nevertheless (`evaluate_ends`): a circle is cut off where a bound is reached.
-/

namespace Stencil.Sandbox

open Template Files

/-! ## Circles -/

namespace Loader

/-- Whether the file at a place includes the one at another place whatever the context is. -/
def Includes (l : Loader) (place next : Location) : Prop :=
  ∃ content program path, l.read place = .ok content ∧ Program.ofSource l.limits content = .ok program ∧
    .inclusion path ∈ program ∧ l.confine path = some next

/-- Whether a file comes back to itself by way of files that each include the next. -/
def Circular (l : Loader) (place : Location) : Prop := Relation.TransGen l.Includes place place

/-- A circle can be begun at its next file as well. -/
lemma Circular.next {l : Loader} {place : Location} (h : l.Circular place) :
    ∃ next, l.Includes place next ∧ l.Circular next := by
  obtain ⟨next, hincludes, hback⟩ := Relation.TransGen.head'_iff.1 h
  exact ⟨next, hincludes, .tail' hback hincludes⟩

end Loader

/-! ## Inclusions that are certain -/

/-- Whether a part of a program goes into the file of a path if it ends well. -/
def Part.Certain (path : Text) : Part → Prop
  | .program nodes => .inclusion path ∈ nodes
  | .node first => first = .inclusion path
  | .turns .. => False

/-- Whether a task goes into the file of a path if it ends well. -/
def Task.Certain (path : Text) : Task → Prop
  | .step _ => False
  | .sequence first second => first.Certain path ∨ second.Certain path
  | .nested body => body.Certain path
  | .bound _ body => body.Certain path
  | .part whole => whole.Certain path

variable {s : Sandbox} {loader : Loader} {task : Task} {run : Run} {paths : List Text} {ending : Ending} {path : Text}

lemma Part.Certain.of_task? {part : Part} (h : part.Certain path) {scopes : Scopes}
    (htask : part.task? s scopes = some task) : task.Certain path := by
  cases part with
  | program program =>
    cases program with
    | nil => exact absurd h List.not_mem_nil
    | cons first rest =>
      obtain rfl := Option.some.inj htask
      exact Or.inr ((List.mem_cons.1 h).imp_left Eq.symm)
  | node node =>
    obtain rfl : node = .inclusion path := h
    simp [Part.task?] at htask
  | turns => exact h.elim

/-- What is certain has been met if a task ends well. -/
theorem Ends.mem_of_certain (h : s.Ends task run paths ending) (hok : Ending.IsOk ending) (hpath : task.Certain path) :
    path ∈ paths := by
  induction h with
  | step => exact hpath.elim
  | sequence _ _ ih ihSecond =>
    rcases hpath with hfirst | hsecond
    · exact List.mem_append_left _ (ih trivial hfirst)
    · exact List.mem_append_right _ (ihSecond hok hsecond)
  | halted | tooDeep | noLoader | tooManyInclusions | refused => exact hok.elim
  | nested _ _ ih | bound _ ih => exact ih ((isOk_leave _ _).1 hok) hpath
  | part comes _ ih => exact ih hok (hpath.of_task? comes)
  | inclusion =>
    exact List.mem_cons.2 (.inl (Node.inclusion.inj hpath).symm)

/-! ## Completed runs -/

lemma Step.cache_eq (s : Sandbox) (step : Step) (run : Run) :
    (Ending.state (step.action s run)).cache = run.cache := by
  rw [← behind_eq_state]
  cases step with
  | skip => rfl
  | look => rw [action, Recorded.behind_look]
  | emit t =>
    rw [action, Recorded.behind_emit]
    split <;> rfl
  | countTurn => rw [action, Recorded.behind_countTurn]

/-- What is kept stays current. -/
lemma Ends.current (h : s.Ends task run paths ending) (hloader : s.loader = some loader)
    (hcache : loader.Current run.cache) : loader.Current (Ending.state ending).cache := by
  induction h with
  | step => rwa [Step.cache_eq]
  | sequence _ _ ih ihSecond => exact ihSecond (ih hcache)
  | halted _ ih | part _ _ ih => exact ih hcache
  | nested _ _ ih | bound _ ih =>
    rw [state_leave]
    exact ih hcache
  | tooDeep | noLoader | tooManyInclusions => exact hcache
  | refused enabled _ load =>
    obtain rfl := Option.some.inj (hloader.symm.trans enabled)
    exact (hcache.of_load load).1
  | inclusion enabled _ load _ ih =>
    obtain rfl := Option.some.inj (hloader.symm.trans enabled)
    rw [state_leave]
    exact ih (hcache.of_load load).1

/-- A task that ends well has met no file of a circle. -/
lemma Ends.not_circular (h : s.Ends task run paths ending) (hloader : s.loader = some loader)
    (hcache : loader.Current run.cache) (hok : Ending.IsOk ending) {place : Location} (hpath : path ∈ paths)
    (hplace : loader.confine path = some place) : ¬ loader.Circular place := by
  induction h generalizing path place with
  | step => exact absurd hpath List.not_mem_nil
  | sequence first _ ih ihSecond =>
    rcases List.mem_append.1 hpath with hfirst | hsecond
    · exact ih hcache trivial hfirst hplace
    · exact ihSecond (first.current hloader hcache) hok hsecond hplace
  | halted | tooDeep | noLoader | tooManyInclusions | refused => exact hok.elim
  | nested _ _ ih | bound _ ih => exact ih hcache ((isOk_leave _ _).1 hok) hpath hplace
  | part _ _ ih => exact ih hcache hok hpath hplace
  | inclusion enabled _ load inside ih =>
    obtain rfl := Option.some.inj (hloader.symm.trans enabled)
    have hok := (isOk_leave _ _).1 hok
    obtain ⟨hinside, hanswer⟩ := hcache.of_load load
    rcases List.mem_cons.1 hpath with rfl | hpath
    · intro hcircular
      -- the program that was loaded is that of the file, and it goes on to the next file of the circle
      obtain ⟨place', content, hplace', hread, hsource⟩ := Loader.of_loadAfresh hanswer.symm
      obtain rfl := Option.some.inj (hplace.symm.trans hplace')
      obtain ⟨next, ⟨content', program', path', hread', hsource', hmem, hnext⟩, hcircularNext⟩ := hcircular.next
      obtain rfl := Except.ok.inj (hread.symm.trans hread')
      obtain rfl := Except.ok.inj (hsource.symm.trans hsource')
      exact ih hinside hok (inside.mem_of_certain hok (Or.inr hmem)) hnext hcircularNext
    · exact ih hinside hok hpath hplace

/-! ## Ends of runs -/

/-- Whatever files include and whatever the clock says, a run of a program comes to an end by the rules, in one way
only, and the evaluator has it end so. It is not completed if it has met a file that comes back to itself. -/
theorem evaluate_ends (s : Sandbox) (cache : InclusionCache) (program : Program) :
    ∃ paths ending, s.Ends (.body program) (Run.start cache) paths ending ∧
      (∀ paths' ending', s.Ends (.body program) (Run.start cache) paths' ending' → paths' = paths ∧ ending' = ending) ∧
      s.evaluate cache program = Ending.outcome ending ∧
      ∀ loader, s.loader = some loader → loader.Current cache →
        ∀ path ∈ paths, ∀ place, loader.confine path = some place → loader.Circular place →
          ∀ out, (s.evaluate cache program).1 ≠ .completed out := by
  obtain ⟨paths, hends⟩ := ends_execute s cache program
  refine ⟨paths, _, hends, fun _ _ hends' => hends'.unique hends, evaluate_eq_outcome s cache program, ?_⟩
  intro loader hloader hcache path hpath place hplace hcircular out hcompleted
  rw [evaluate_eq_outcome] at hcompleted
  cases hrun : s.execute s.budget.maxIncludeDepth program (Run.start cache) with
  | error halt after => simp [hrun, Ending.outcome] at hcompleted
  | ok u after =>
    rw [hrun] at hends
    exact hends.not_circular hloader hcache trivial hpath hplace hcircular

/-- A loader for which every path leads to the same file, and this file includes itself. -/
def turningBack : Loader :=
  ⟨fun _ => some ["f"], fun _ => .ok "<!--INCLUDE f-->", ⟨⟨100, 0, .warning, false⟩, .none⟩, ⟨100, 5⟩⟩

/-- A sandbox in which an inclusion may be met, but none inside of it. -/
def circling : Sandbox where
  budget := { Budget.ofProfile .secure with maxIncludeDepth := 1 }
  escape := .html
  context := .empty
  deadline := .ofBudget 2000 false
  loader := some turningBack

/-- The file that includes itself is met twice, and the run is not completed. -/
theorem circling_not_completed :
    turningBack.Current (InclusionCache.new 1 1) ∧ turningBack.Circular ["f"] ∧
      ∀ out, (circling.evaluate (InclusionCache.new 1 1) [.inclusion "f"]).1 ≠ .completed out := by
  have hpieces : Piece.ofSource 1 "<!--INCLUDE f-->" = .ok [.block .comment "INCLUDE f"] := by decide +kernel
  have hsource : Program.ofSource turningBack.limits "<!--INCLUDE f-->" = .ok [.inclusion "f"] := by
    rw [Program.ofSource_of_tokens (Token.ofSource_of_pieces hpieces)]
    rfl
  have hcircular : turningBack.Circular ["f"] := .single ⟨_, _, "f", rfl, hsource, List.mem_cons_self, rfl⟩
  have hcache := Loader.current_new turningBack 1 1
  have hload : ∀ cache, turningBack.Current cache →
      turningBack.load cache "f" = (.ok [.inclusion "f"], (turningBack.load cache "f").2) := by
    intro cache hcurrent
    refine Prod.ext ((hcurrent.load_eq "f").trans ?_) rfl
    exact Loader.accept_eq_ok (by decide) (by decide +kernel) hsource
  have hlook : ∀ run : Run, circling.Ends (.step .look) run [] (.ok () { run with looks := run.looks + 1 }) :=
    fun _ => .step
  -- inside of an inclusion the file asks for itself once more, and that is one inclusion too many
  have hinside : ∀ run : Run, 1 ≤ run.inclusionDepth →
      circling.Ends (.body [.inclusion "f"]) run ["f"]
        (.error .inclusionDepthExceeded { run with looks := run.looks + 1 + 1 }) :=
    fun run hdepth => .sequence (hlook run) (.part rfl (.sequence (hlook _) (.halted (.tooManyInclusions rfl hdepth))))
  have hdepth : 0 < circling.budget.maxRecursionDepth := by decide
  have hends : circling.Ends (.body [.inclusion "f"]) (Run.start (InclusionCache.new 1 1)) ["f", "f"] _ :=
    .sequence (hlook _) (.part rfl (.sequence (hlook _)
      (.halted (.inclusion_of_error rfl Nat.one_pos (hload _ hcache)
        (.nested_of_error hdepth (hinside _ (Nat.le_refl 1)))))))
  obtain ⟨paths, ending, -, hunique, -, hnot⟩ := evaluate_ends circling (InclusionCache.new 1 1) [.inclusion "f"]
  obtain ⟨hpaths, -⟩ := hunique _ _ hends
  exact ⟨hcache, hcircular, hnot turningBack rfl hcache "f" (hpaths ▸ List.mem_cons_self) ["f"] rfl hcircular⟩

end Stencil.Sandbox
