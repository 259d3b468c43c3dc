import Stencil.Text.Basic

/-!
# Issues and reports

What the inspection of a text finds. An issue shows the input that was found harmful and never the rule that found it;
a report is valid if none of its issues blocks.
-/

namespace Stencil

/-- The kinds of harmful or sensitive content. -/
inductive Category where
  | templateInjection
  | scriptInjection
  | pathTraversal
  | personalData
deriving DecidableEq, Repr

namespace Category

/-- All categories, in the order in which they are listed. -/
def all : List Category := [.templateInjection, .scriptInjection, .pathTraversal, .personalData]

/-- The name of a category. -/
def name : Category → Text
  | .templateInjection => "ssti"
  | .scriptInjection => "xss"
  | .pathTraversal => "path_traversal"
  | .personalData => "pii"

/-- The category of a name. -/
def ofName? (t : Text) : Option Category := all.find? fun c => c.name = t

end Category

/-- Whether an issue stops a render or is only reported. -/
inductive Severity where
  | blocking
  | warning
deriving DecidableEq, Repr

namespace Severity

/-- The name of a severity. -/
def name : Severity → Text
  | .blocking => "blocking"
  | .warning => "warning"

/-- The severity of a name. -/
def ofName? (t : Text) : Option Severity := [blocking, warning].find? fun s => s.name = t

end Severity

/-- One finding. -/
structure Issue where
  category : Category
  severity : Severity
  excerpt : Text
deriving DecidableEq, Repr

namespace Issue

/-- The greatest number of characters of an excerpt. -/
def maxExcerpt : Nat := 48

/-- The beginning of a text, with an ellipsis if that is not all of it. -/
def excerptOf (t : Text) : Text := if t.length ≤ maxExcerpt then t else t.take maxExcerpt ++ ['…']

/-- The issue of a text found. -/
def ofMatch (category : Category) (severity : Severity) (found : Text) : Issue := ⟨category, severity, excerptOf found⟩

/-- Whether an issue stops a render. -/
def isBlocking (issue : Issue) : Bool := issue.severity = .blocking

end Issue

/-- The findings about a text. -/
structure Report where
  isValid : Bool
  issues : List Issue
deriving DecidableEq, Repr

namespace Report

/-- The report of a list of issues: valid if none of them blocks. -/
def ofIssues (issues : List Issue) : Report := ⟨!issues.any Issue.isBlocking, issues⟩

/-- The first issue that blocks. -/
def firstBlocking? (report : Report) : Option Issue := report.issues.find? Issue.isBlocking

/-- Whether there is an issue of a category. -/
def hasCategory (report : Report) (category : Category) : Bool := report.issues.any fun i => i.category = category

/-- A report of issues is valid exactly if it has no first blocking issue. -/
theorem isValid_ofIssues (issues : List Issue) :
    (ofIssues issues).isValid = true ↔ (ofIssues issues).firstBlocking? = none := by
  simp [ofIssues, firstBlocking?]

end Report

end Stencil
