import Stencil.Sandbox.Evaluation

/-!
# What programs mean

The text that a program stands for, said without a run: nothing is counted and nothing is cut off, save that a loop goes
through no more than a given number of items. A name stands for what the innermost loop around it binds it to
(`Sandbox.Env`), an inclusion for the program that the loader gives at this point, under the names bound around it.

Inclusions can lie inside of each other without end, so meaning is a relation and not a function (`Sandbox.Means`). A
program has one meaning at most (`Sandbox.Means.unique`).
-/

namespace Stencil.Sandbox

open Json Template

/-! ## Names -/

/-- What names stand for. -/
abbrev Env := Text → Option Value

namespace Env

/-- The names of a context: its variables, and behind them its lists. -/
def ofContext (context : CleanContext) : Env := fun name => (context.value? name).or (context.list? name)

/-- One more name bound, in front of the others. -/
def bind (env : Env) (name : Text) (value : Value) : Env := fun n => if name = n then some value else env n

/-- The names in a turn of a loop. What the loop tells about the turn is bound inside of its variable. -/
def turn (env : Env) (name : Text) (number shown : Nat) (item : Value) : Env :=
  (env.bind name item).bind turnName (turnInfo number shown)

/-- The part of a value at the end of some keys and indices. -/
def within? : Value → List Text → Option Value
  | value, [] => some value
  | value, key :: rest => (value.descend? key).bind (within? · rest)

/-- The value that a path names. -/
def resolve? (env : Env) : Path → Option Value
  | [] => none
  | name :: rest => (env name).bind (within? · rest)

/-- The value of an operand. -/
def operandValue? (env : Env) : Operand → Option Value
  | .path path => env.resolve? path
  | .text t => some (.string t)
  | .int i => some (.number (.int i))
  | .bool b => some (.bool b)

/-- Whether a condition holds. An operand without a value is no yes, and has the empty text. -/
def holds (env : Env) : Condition → Bool
  | .truthy operand => (env.operandValue? operand).any Value.isTruthy
  | .equal left right =>
    ((env.operandValue? left).elim [] Value.plainText : Text) = (env.operandValue? right).elim [] Value.plainText
  | .not condition => !env.holds condition

/-- The text in the place of a substitution: its value, escaped, or its source if the path names nothing. -/
def substituted (env : Env) (escape : Markup.EscapeMode) (path : Path) (raw : Text) : Text :=
  match env.resolve? path with
  | some value => escape.apply value.plainText
  | none => raw

end Env

/-! ## Meaning -/

/-- What a meaning depends on beside names: how values are escaped, which regions are left in, how many items of a list
a loop goes through, and where inclusions come from. -/
structure Setting where
  escape : Markup.EscapeMode
  regionEnabled : Text → Bool
  maxItems : Nat
  loader : Option Loader

/-- What has a meaning: a program, a node, and the turns of a loop for the items that are left. -/
inductive Part where
  | program (program : Program)
  | node (node : Node)
  | turns (name : Text) (shown : Nat) (body : Program) (number : Nat) (items : List Value)

/-- The text of a part of a program under the names bound around it. The loader keeps what it has read, so there are
inclusions kept before the part and behind it. -/
inductive Means (setting : Setting) : Env → InclusionCache → Part → Text → InclusionCache → Prop where
  | empty {env cache} : Means setting env cache (.program []) [] cache
  | sequence {env cache between after node rest out later} (first : Means setting env cache (.node node) out between)
      (second : Means setting env between (.program rest) later after) :
      Means setting env cache (.program (node :: rest)) (out ++ later) after
  | literal {env cache t} : Means setting env cache (.node (.literal t)) t cache
  | substitution {env cache path raw} :
      Means setting env cache (.node (.substitution path raw)) (env.substituted setting.escape path raw) cache
  | loop {env cache after name collection body items out} (list : env.resolve? collection = some (.array items))
      (turns : Means setting env cache
        (.turns name (items.take setting.maxItems).length body 1 (items.take setting.maxItems)) out after) :
      Means setting env cache (.node (.loop name collection body)) out after
  | noLoop {env cache name collection body} (noList : ∀ items, env.resolve? collection ≠ some (.array items)) :
      Means setting env cache (.node (.loop name collection body)) [] cache
  | conditional {env cache after condition body otherwise out}
      (branch : Means setting env cache (.program (if env.holds condition then body else otherwise)) out after) :
      Means setting env cache (.node (.conditional condition body otherwise)) out after
  | region {env cache after name body out} (enabled : setting.regionEnabled name = true)
      (inside : Means setting env cache (.program body) out after) :
      Means setting env cache (.node (.region name body)) out after
  | noRegion {env cache name body} (disabled : setting.regionEnabled name = false) :
      Means setting env cache (.node (.region name body)) [] cache
  | inclusion {env cache loaded after path loader program out} (enabled : setting.loader = some loader)
      (load : loader.load cache path = (.ok program, loaded))
      (inside : Means setting env loaded (.program program) out after) :
      Means setting env cache (.node (.inclusion path)) out after
  | noTurn {env cache name shown body number} : Means setting env cache (.turns name shown body number []) [] cache
  | turn {env cache between after name shown body number item rest out later}
      (first : Means setting (env.turn name number shown item) cache (.program body) out between)
      (second : Means setting env between (.turns name shown body (number + 1) rest) later after) :
      Means setting env cache (.turns name shown body number (item :: rest)) (out ++ later) after

/-- A part of a program has one meaning at most. -/
theorem Means.unique {setting : Setting} {env : Env} {cache after after' : InclusionCache} {part : Part}
    {out out' : Text} (h : Means setting env cache part out after) (h' : Means setting env cache part out' after') :
    out = out' ∧ after = after' := by
  -- by induction on the first derivation; two rules compete for loops and for regions, on conditions that exclude each
  -- other
  induction h generalizing out' after' with
  | empty =>
    cases h'
    exact ⟨rfl, rfl⟩
  | sequence _ _ ih ihLater =>
    cases h' with
    | sequence first second =>
      obtain ⟨rfl, rfl⟩ := ih first
      obtain ⟨rfl, rfl⟩ := ihLater second
      exact ⟨rfl, rfl⟩
  | literal =>
    cases h'
    exact ⟨rfl, rfl⟩
  | substitution =>
    cases h'
    exact ⟨rfl, rfl⟩
  | loop list _ ih =>
    cases h' with
    | loop list' turns =>
      rw [list] at list'
      obtain rfl := Value.array.inj (Option.some.inj list')
      exact ih turns
    | noLoop noList => exact absurd list (noList _)
  | noLoop noList =>
    cases h' with
    | loop list _ => exact absurd list (noList _)
    | noLoop => exact ⟨rfl, rfl⟩
  | conditional _ ih =>
    cases h' with
    | conditional branch => exact ih branch
  | region enabled _ ih =>
    cases h' with
    | region _ inside => exact ih inside
    | noRegion disabled =>
      exact absurd (enabled.symm.trans disabled) (by decide)
  | noRegion disabled =>
    cases h' with
    | region enabled _ =>
      exact absurd (enabled.symm.trans disabled) (by decide)
    | noRegion => exact ⟨rfl, rfl⟩
  | inclusion enabled load _ ih =>
    cases h' with
    | inclusion enabled' load' inside =>
      rw [enabled] at enabled'
      obtain rfl := Option.some.inj enabled'
      rw [load] at load'
      obtain ⟨hprogram, rfl⟩ := Prod.mk.inj load'
      obtain rfl := Except.ok.inj hprogram
      exact ih inside
  | noTurn =>
    cases h'
    exact ⟨rfl, rfl⟩
  | turn _ _ ih ihLater =>
    cases h' with
    | turn first second =>
      obtain ⟨rfl, rfl⟩ := ih first
      obtain ⟨rfl, rfl⟩ := ihLater second
      exact ⟨rfl, rfl⟩

end Stencil.Sandbox
