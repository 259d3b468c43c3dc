import Stencil.Proofs.Sandbox.Rules
import Stencil.Proofs.Template.Joining
import Stencil.Proofs.Template.Nesting

/-!
# Depth of bodies

How deep a run may lie in bodies is counted twice: where a template is read, by the blocks that are open, and where it
is evaluated, by the bodies gone into. Without inclusions a run gets no deeper than its program is (`Task.depth`), and a
program is no deeper than the limit that it was read under, so the second count does not come to its bound before the
first (`Ends.halt?_ne_recursionExceeded`).

It does come to its bound as soon as the limit is greater: conditions that hold, each inside of the one before
(`tower`), are all gone into.

Main statement: the limits of the grammar under a budget are the widest ones that keep runs from getting too deep
(`never_too_deep`).
-/

namespace Stencil.Sandbox

open Json Template

/-! ## Depth of tasks -/

/-- How many bodies of a part lie inside each other at most. -/
def Part.depth : Part → Nat
  | .program nodes => Program.depth nodes
  | .node first => Program.depth.ofNode first
  | .turns _ _ body _ _ => Program.depth body + 1

/-- How many bodies a task goes into at most, one inside of the other. -/
def Task.depth : Task → Nat
  | .step _ => 0
  | .sequence first second => max first.depth second.depth
  | .nested body => body.depth + 1
  | .bound _ body => body.depth
  | .part whole => whole.depth

lemma Task.depth_body (program : Program) : (Task.body program).depth = Program.depth program := Nat.zero_max _

variable {s : Sandbox} {task : Task} {run : Run} {paths : List Text} {ending : Ending}

/-- What a part comes down to is no deeper than the part. -/
lemma Part.depth_le_of_task? {part : Part} {scopes : Scopes} (htask : part.task? s scopes = some task) :
    task.depth ≤ part.depth := by
  cases part with
  | program nodes =>
    cases nodes with
    | nil =>
      obtain rfl := Option.some.inj htask
      exact Nat.zero_le _
    | cons first rest =>
      obtain rfl := Option.some.inj htask
      exact Nat.le_of_eq (Nat.zero_max _)
  | turns name shown body number items =>
    cases items with
    | nil =>
      obtain rfl := Option.some.inj htask
      exact Nat.zero_le _
    | cons item rest =>
      obtain rfl := Option.some.inj htask
      -- every turn goes into the body anew, and comes out of it again
      have hbody := Task.depth_body body
      simp only [Task.depth, Part.depth, hbody]
      omega
  | node first =>
    cases first with
    | literal t =>
      obtain rfl := Option.some.inj htask
      exact Nat.zero_le _
    | substitution path raw =>
      obtain rfl := Option.some.inj htask
      exact Nat.zero_le _
    | inclusion path => simp [Part.task?] at htask
    | loop name collection body =>
      rw [Part.task?] at htask
      split at htask
      · obtain rfl := Option.some.inj htask
        exact Nat.le_refl _
      · obtain rfl := Option.some.inj htask
        exact Nat.zero_le _
    | conditional condition body otherwise =>
      obtain rfl := Option.some.inj htask
      refine Nat.succ_le_succ ?_
      split
      · rw [Task.depth_body]
        exact Nat.le_max_left _ _
      · rw [Task.depth_body]
        exact Nat.le_max_right _ _
    | region name body =>
      obtain rfl := Option.some.inj htask
      split
      · exact Nat.succ_le_succ (Nat.le_of_eq (Task.depth_body body))
      · exact Nat.zero_le _

/-! ## Runs without inclusions -/

/-- Why a task has halted, if it has. -/
def Ending.halt? : Ending → Option Halt
  | .ok .. => none
  | .error halt _ => some halt

lemma halt?_leave (change : Run → Run) (ending : Ending) :
    Ending.halt? (Ending.leave change ending) = Ending.halt? ending := by
  cases ending <;> rfl

/-- A step goes into no body, so none is too deep for it. -/
theorem Step.halt?_ne_recursionExceeded (s : Sandbox) (step : Step) (run : Run) :
    Ending.halt? (step.action s run) ≠ some .recursionExceeded := by
  cases step with
  | skip => simp [action, Ending.halt?, pure, EStateM.pure]
  | look =>
    rw [action, Sandbox.look]
    split <;> simp [Ending.halt?]
  | emit t =>
    rw [action, Sandbox.emit]
    split <;> simp [Ending.halt?]
  | countTurn =>
    rw [action, Sandbox.countTurn]
    split <;> simp [Ending.halt?]

/-- A task for whose bodies there is room does not get too deep, unless in a file that is included. -/
theorem Ends.halt?_ne_recursionExceeded (h : s.Ends task run paths ending) (hloader : s.loader = none)
    (hroom : run.depth + task.depth ≤ s.budget.maxRecursionDepth) :
    Ending.halt? ending ≠ some .recursionExceeded := by
  induction h with
  | step => exact Step.halt?_ne_recursionExceeded s _ _
  | @sequence first next run between _ _ _ hfirst _ _ ihSecond =>
    -- behind the first task the run lies as deep as in front of it
    have hbetween : between.depth = run.depth := hfirst.kept.depth
    rw [Task.depth] at hroom
    exact ihSecond (by omega)
  | halted _ ih =>
    rw [Task.depth] at hroom
    exact ih (by omega)
  | nested _ _ ih =>
    rw [Task.depth] at hroom
    rw [halt?_leave]
    exact ih (by dsimp only; omega)
  | tooDeep hdeep =>
    rw [Task.depth] at hroom
    omega
  | bound _ ih =>
    rw [halt?_leave]
    exact ih hroom
  | part comes _ ih => exact ih (Nat.le_trans (Nat.add_le_add_left (Part.depth_le_of_task? comes) _) hroom)
  | noLoader => simp [Ending.halt?]
  | tooManyInclusions enabled | refused enabled | inclusion enabled => simp [hloader] at enabled

/-- A program that is no deeper than the budget allows is not halted for its depth. -/
lemma evaluate_ne_recursionExceeded {program : Program} (hloader : s.loader = none)
    (hdepth : program.depth ≤ s.budget.maxRecursionDepth) (cache : InclusionCache) :
    (s.evaluate cache program).1 ≠ .halted .recursionExceeded := by
  obtain ⟨paths, hends⟩ := ends_execute s cache program
  have hroom : (Run.start cache).depth + (Task.body program).depth ≤ s.budget.maxRecursionDepth := by
    rw [Task.depth_body, show (Run.start cache).depth = 0 from rfl, Nat.zero_add]
    exact hdepth
  have hhalt := hends.halt?_ne_recursionExceeded hloader hroom
  rw [evaluate_eq_outcome]
  intro hhalted
  cases hrun : s.execute s.budget.maxIncludeDepth program (Run.start cache) with
  | ok u after => simp [hrun, Ending.outcome] at hhalted
  | error halt after =>
    rw [hrun] at hhalt hhalted
    exact hhalt (congrArg some (Outcome.halted.inj hhalted))

/-! ## Runs of towers -/

/-- A tower with one condition more than there is room for gets too deep, if time is never up. -/
lemma ends_tower (hdeadline : ∀ looks, s.deadline looks = false) {n : Nat}
    (hdeep : s.budget.maxRecursionDepth ≤ run.depth + n) :
    ∃ after, s.Ends (.body (tower (n + 1))) run [] (.error .recursionExceeded after) := by
  have hlook : ∀ run : Run, s.Ends (.step .look) run [] (.ok () { run with looks := run.looks + 1 }) := by
    intro run
    have hstep : Step.action s .look run = .ok () { run with looks := run.looks + 1 } := by
      rw [Step.action, look, hdeadline]
      rfl
    exact hstep ▸ .step
  -- a tower ends as the condition at its bottom does, and this one comes down to the tower on top of it
  have hbottom : ∀ {n : Nat} {run after : Run},
      s.Ends (.nested (.body (tower n))) { run with looks := run.looks + 1 + 1 } [] (.error .recursionExceeded after) →
        s.Ends (.body (tower (n + 1))) run [] (.error .recursionExceeded after) := by
    intro n run after hnested
    exact .sequence (hlook run) (.part rfl (.sequence (hlook _) (.halted (.part rfl hnested))))
  induction n generalizing run with
  | zero => exact ⟨_, hbottom (.tooDeep hdeep)⟩
  | succ n ih =>
    by_cases hfull : s.budget.maxRecursionDepth ≤ run.depth
    · exact ⟨_, hbottom (.tooDeep hfull)⟩
    · obtain ⟨after, hinside⟩ := @ih { run with looks := run.looks + 1 + 1, depth := run.depth + 1 }
        (by dsimp only; omega)
      exact ⟨_, hbottom (.nested_of_error (Nat.lt_of_not_le hfull) hinside)⟩

/-- The limits of the grammar under a budget are as wide as they can be. What is read under them does not get too deep
in a sandbox of that budget without inclusions, whatever the context is and however values are escaped. What is read
under another limit and does get too deep would have been refused under them; and under every wider limit there is a
template that is read and gets too deep in all sandboxes of the budget in which time is never up. -/
theorem never_too_deep (b : Budget) :
    (∀ t program, Program.ofSource b.parseLimits t = .ok program →
      ∀ s : Sandbox, s.budget = b → s.loader = none → ∀ cache,
        (s.evaluate cache program).1 ≠ .halted .recursionExceeded) ∧
    (∀ nesting t program, Program.ofSource ⟨b.maxExpressionLength, nesting⟩ t = .ok program →
      ∀ s : Sandbox, s.budget = b → s.loader = none → ∀ cache,
        (s.evaluate cache program).1 = .halted .recursionExceeded →
          Program.ofSource b.parseLimits t = .error .tooDeep) ∧
    (6 ≤ b.maxExpressionLength → ∀ nesting, b.maxRecursionDepth < nesting →
      ∃ t program, Program.ofSource ⟨b.maxExpressionLength, nesting⟩ t = .ok program ∧
        ∀ s : Sandbox, s.budget = b → (∀ looks, s.deadline looks = false) → ∀ cache,
          (s.evaluate cache program).1 = .halted .recursionExceeded) := by
  refine ⟨?_, ?_, ?_⟩
  · intro t program hsource s hbudget hloader cache
    obtain ⟨tokens, -, hprogram⟩ := bind_eq_ok_iff.1 hsource
    obtain ⟨marks, -, hbuilds⟩ := Program.ofTokens_eq_ok_iff.1 hprogram
    exact evaluate_ne_recursionExceeded hloader (hbudget ▸ hbuilds.depth_le) cache
  · intro nesting t program hsource s hbudget hloader cache hhalted
    have hdeep : ¬ program.depth ≤ b.maxRecursionDepth := fun hdepth =>
      evaluate_ne_recursionExceeded hloader (hbudget ▸ hdepth) cache hhalted
    have hlength : b.parseLimits.maxExpressionLength =
        (⟨b.maxExpressionLength, nesting⟩ : Limits).maxExpressionLength := rfl
    rw [Program.ofSource_of_nesting hlength hsource]
    exact if_neg hdeep
  · -- the tower that the limit would just refuse is too deep for every sandbox that has time
    intro hlength nesting hwider
    refine ⟨towerText (b.maxRecursionDepth + 1), tower (b.maxRecursionDepth + 1), ofSource_towerText hlength hwider, ?_⟩
    intro s hbudget hdeadline cache
    have hdeep : s.budget.maxRecursionDepth ≤ (Run.start cache).depth + b.maxRecursionDepth := by
      rw [hbudget]
      exact Nat.le_add_left _ _
    obtain ⟨after, hends⟩ := ends_tower hdeadline hdeep
    rw [hends.evaluate_eq]
    rfl

/-- A sandbox in which two bodies may lie inside of each other. -/
def shallow : Sandbox where
  budget := { Budget.ofProfile .secure with maxRecursionDepth := 2 }
  escape := .html
  context := .empty
  deadline := .ofBudget 2000 false
  loader := none

/-- Two conditions inside each other are read under the limits of the budget, and do not get too deep. Three are read
under a limit that is one greater, get too deep, and are refused under the limits of the budget. -/
theorem shallow_never_too_deep :
    Program.ofSource shallow.budget.parseLimits (towerText 2) = .ok (tower 2) ∧
      (∀ cache, (shallow.evaluate cache (tower 2)).1 ≠ .halted .recursionExceeded) ∧
      Program.ofSource ⟨200, 3⟩ (towerText 3) = .ok (tower 3) ∧
      (shallow.evaluate (InclusionCache.new 1 1) (tower 3)).1 = .halted .recursionExceeded ∧
      Program.ofSource shallow.budget.parseLimits (towerText 3) = .error .tooDeep ∧
      ∃ t program, Program.ofSource ⟨200, 3⟩ t = .ok program ∧
        ∀ cache, (shallow.evaluate cache program).1 = .halted .recursionExceeded := by
  obtain ⟨hsafe, hrefused, hwidest⟩ := never_too_deep shallow.budget
  have htwo : Program.ofSource shallow.budget.parseLimits (towerText 2) = .ok (tower 2) :=
    ofSource_towerText (by decide) (by decide)
  have hthree : Program.ofSource ⟨200, 3⟩ (towerText 3) = .ok (tower 3) := ofSource_towerText (by decide) (by decide)
  have hdeep : (shallow.evaluate (InclusionCache.new 1 1) (tower 3)).1 = .halted .recursionExceeded := by
    decide +kernel
  refine ⟨htwo, hsafe _ _ htwo shallow rfl rfl, hthree, hdeep, hrefused 3 _ _ hthree shallow rfl rfl _ hdeep, ?_⟩
  obtain ⟨t, program, hsource, hevery⟩ := hwidest (by decide) 3 (by decide)
  exact ⟨t, program, hsource, hevery shallow rfl fun _ => rfl⟩

end Stencil.Sandbox
