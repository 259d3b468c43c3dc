import Mathlib.Tactic.Lemma
import Stencil.Proofs.Sandbox.Meaning

/-!
# Completed runs mean what they write

A run counts, looks at the clock and keeps its names on a stack. Whatever of this may halt it, a run that is completed
has written what its program means.

Each action is held against the part of a program that it is for (`Realizes`): if it ends well, it has appended what the
part means under the names on the stack, and left the stack as it was.
-/

namespace Stencil

open Json Template

namespace Sandbox

/-! ## Names on the stack -/

/-- The names of a context with those on a stack in front. -/
def envOf (context : CleanContext) (scopes : Scopes) : Env := valueOf? context scopes

/-- A binding at the front of the scopes is the last one of the environment. -/
lemma envOf_cons (context : CleanContext) (name : Text) (value : Value) (scopes : Scopes) :
    envOf context ((name, value) :: scopes) = (envOf context scopes).bind name value := by
  funext n
  unfold envOf Env.bind valueOf?
  rw [Table.get?]
  split <;> rfl

lemma valueOf?_cons (context : CleanContext) (name : Text) (value : Value) (scopes : Scopes) (n : Text) :
    valueOf? context ((name, value) :: scopes) n = if name = n then some value else valueOf? context scopes n :=
  congrFun (envOf_cons context name value scopes) n

/-- A path is resolved key by key. -/
lemma within?_eq_foldlM (value : Value) (keys : List Text) :
    Env.within? value keys = keys.foldlM Value.descend? value := by
  induction keys generalizing value with
  | nil => rfl
  | cons key keys ih =>
    rw [Env.within?, List.foldlM_cons]
    cases hkey : value.descend? key with
    | none => rfl
    | some part => exact ih part

/-- The evaluator resolves a path as the environment of its scopes does. -/
lemma resolve?_eq (context : CleanContext) (scopes : Scopes) (path : Path) :
    resolve? context scopes path = (envOf context scopes).resolve? path := by
  cases path with
  | nil => rfl
  | cons name rest =>
    rw [resolve?, Env.resolve?, envOf]
    cases valueOf? context scopes name with
    | none => rfl
    | some value => exact (within?_eq_foldlM value rest).symm

lemma operandValue?_eq (context : CleanContext) (scopes : Scopes) (operand : Operand) :
    operandValue? context scopes operand = (envOf context scopes).operandValue? operand := by
  cases operand with
  | path path => exact resolve?_eq context scopes path
  | text | int | bool => rfl

lemma operandText_eq (context : CleanContext) (scopes : Scopes) (operand : Operand) :
    operandText context scopes operand = ((envOf context scopes).operandValue? operand).elim [] Value.plainText := by
  rw [operandText, operandValue?_eq]
  cases (envOf context scopes).operandValue? operand <;> rfl

/-- The evaluator decides a condition as the environment of its scopes does. -/
lemma holds_eq (context : CleanContext) (scopes : Scopes) (condition : Condition) :
    holds context scopes condition = (envOf context scopes).holds condition := by
  induction condition with
  | truthy operand => rw [holds, Env.holds, operandValue?_eq]
  | equal left right => rw [holds, Env.holds, operandText_eq, operandText_eq]
  | not condition ih => rw [holds, Env.holds, ih]

/-! ## Actions and meanings -/

/-- What meanings take of a sandbox: no bound but that on the items of a list. -/
def setting (s : Sandbox) : Setting := ⟨s.escape, s.context.regionEnabled, s.budget.maxLoopIterations, s.loader⟩

/-- If an action ends well, it has appended what a part of a program means, and the names bound are as before. -/
def Realizes (s : Sandbox) (part : Part) (action : Action) : Prop :=
  ∀ run after, action run = .ok () after →
    ∃ out, Means s.setting (envOf s.context run.scopes) run.cache part out after.cache ∧
      after.output = run.output ++ out ∧ after.scopes = run.scopes

variable {s : Sandbox} {run after : Run} {part : Part} {action : Action}

/-- Two actions succeed together if the first does and the second does behind it. -/
lemma ok_of_bind {next : Unit → Action} (h : (action >>= next) run = .ok () after) :
    ∃ between, action run = .ok () between ∧ next () between = .ok () after := by
  change EStateM.bind action next run = _ at h
  unfold EStateM.bind at h
  split at h
  · rename_i u between haction
    exact ⟨between, haction, h⟩
  · simp at h

/-- An action behind which something is put back succeeds if the action does. -/
lemma ok_of_leaving {leave : Run → Run} (h : leaving leave action run = .ok () after) :
    ∃ inside, action run = .ok () inside ∧ after = leave inside := by
  unfold leaving at h
  split at h
  · rename_i inside haction
    injection h with _ hafter
    exact ⟨inside, haction, hafter.symm⟩
  · simp at h

/-- Whether an action does nothing that a meaning speaks of. -/
def Silent (action : Action) : Prop :=
  ∀ run after, action run = .ok () after →
    after.output = run.output ∧ after.scopes = run.scopes ∧ after.cache = run.cache

/-- A look at the clock writes nothing and binds nothing. -/
lemma silent_look (s : Sandbox) : Silent s.look := by
  intro run after h
  unfold look at h
  split at h
  · simp at h
  · injection h with _ hafter
    subst hafter
    exact ⟨rfl, rfl, rfl⟩

/-- To count a turn writes nothing and binds nothing. -/
lemma silent_countTurn (s : Sandbox) : Silent s.countTurn := by
  intro run after h
  unfold countTurn at h
  split at h
  · simp at h
  · injection h with _ hafter
    subst hafter
    exact ⟨rfl, rfl, rfl⟩

/-- What is done in silence before an action does not change what it realises. -/
lemma Realizes.behind {first : Action} (hfirst : Silent first) (h : Realizes s part action) :
    Realizes s part (do first; action) := by
  intro run after hrun
  obtain ⟨between, hsilent, haction⟩ := ok_of_bind hrun
  obtain ⟨houtput, hscopes, hcache⟩ := hfirst run between hsilent
  have hmeans := h between after haction
  rwa [houtput, hscopes, hcache] at hmeans

lemma Realizes.look (h : Realizes s part action) : Realizes s part (do s.look; action) := h.behind (silent_look s)

/-- An action one level deeper realises the same. -/
lemma Realizes.nested (h : Realizes s part action) : Realizes s part (s.nested action) := by
  intro run after hrun
  unfold Sandbox.nested at hrun
  split at hrun
  · simp at hrun
  · obtain ⟨inside, haction, rfl⟩ := ok_of_leaving hrun
    obtain ⟨out, hmeans, houtput⟩ := h _ _ haction
    exact ⟨out, hmeans, houtput⟩

/-- What is emitted is appended to the output, and nothing else is changed that can be seen. -/
lemma output_of_emit {t : Text} (h : s.emit t run = .ok () after) :
    after.output = run.output ++ t ∧ after.scopes = run.scopes ∧ after.cache = run.cache := by
  unfold emit at h
  split at h
  · simp at h
  · injection h with _ hafter
    subst hafter
    exact ⟨by simp [Run.output], rfl, rfl⟩

lemma realizes_literal (s : Sandbox) (t : Text) : Realizes s (.node (.literal t)) (s.emit t) := by
  intro run after hrun
  obtain ⟨houtput, hscopes, hcache⟩ := output_of_emit hrun
  rw [hcache]
  exact ⟨t, .literal, houtput, hscopes⟩

/-- A substitution writes the escaped text of its value, or its raw text if there is none. -/
lemma realizes_substitution (s : Sandbox) (path : Path) (raw : Text) :
    Realizes s (.node (.substitution path raw)) (s.substitute path raw) := by
  intro run after hrun
  have hemit : s.emit ((envOf s.context run.scopes).substituted s.escape path raw) run = .ok () after := by
    rw [← hrun, substitute, Env.substituted, resolve?_eq]
    cases (envOf s.context run.scopes).resolve? path <;> rfl
  obtain ⟨houtput, hscopes, hcache⟩ := output_of_emit hemit
  rw [hcache]
  exact ⟨_, .substitution, houtput, hscopes⟩

/-! ## Loops -/

/-- The names bound around an action are those of a part, and they are taken back behind it. -/
lemma ok_of_bound {bindings : Scopes} (h : Realizes s part action) (hrun : bound bindings action run = .ok () after) :
    ∃ out, Means s.setting (envOf s.context (bindings ++ run.scopes)) run.cache part out after.cache ∧
      after.output = run.output ++ out ∧ after.scopes = run.scopes := by
  obtain ⟨inside, haction, rfl⟩ := ok_of_leaving hrun
  obtain ⟨out, hmeans, houtput, hscopes⟩ := h _ _ haction
  -- the stack is cut back to the length that it had
  refine ⟨out, hmeans, houtput, ?_⟩
  change inside.scopes.drop (inside.scopes.length - run.scopes.length) = run.scopes
  have hlength : (bindings ++ run.scopes).length - run.scopes.length = bindings.length := by
    rw [List.length_append]
    omega
  rw [hscopes, hlength, List.drop_left]

/-- The turns of a loop, one after the other, if its body does what it means. -/
lemma realizes_turns {body : Program} (h : Realizes s (.program body) action) (name : Text) (shown number : Nat)
    (items : List Value) :
    Realizes s (.turns name shown body number items) (s.turnsFor name shown action number items) := by
  induction items generalizing number with
  | nil =>
    intro run after hrun
    injection hrun with _ hafter
    subst hafter
    exact ⟨[], .noTurn, (List.append_nil _).symm, rfl⟩
  | cons item rest ih =>
    rw [turnsFor]
    refine Realizes.look (Realizes.behind (silent_countTurn s) fun run after hrun => ?_)
    obtain ⟨between, hturn, hrest⟩ := ok_of_bind hrun
    obtain ⟨out, hmeans, houtput, hscopes⟩ := ok_of_bound h.nested hturn
    obtain ⟨later, hmeansLater, houtputLater, hscopesLater⟩ := ih (number + 1) between after hrest
    rw [hscopes] at hmeansLater
    -- the two names pushed for the turn are the names that the turn binds
    rw [List.cons_append, List.singleton_append, envOf_cons, envOf_cons] at hmeans
    refine ⟨out ++ later, .turn hmeans hmeansLater, ?_, hscopesLater.trans hscopes⟩
    rw [houtputLater, houtput, List.append_assoc]

/-- A loop realises its meaning if its body does. -/
lemma realizes_loop {body : Program} (h : Realizes s (.program body) action) (name : Text) (collection : Path) :
    Realizes s (.node (.loop name collection body)) (s.loop name collection action) := by
  intro run after hrun
  unfold loop at hrun
  rw [resolve?_eq] at hrun
  split at hrun
  · rename_i items hlist
    obtain ⟨out, hmeans, houtput⟩ := realizes_turns h name _ 1 _ run after hrun
    exact ⟨out, .loop hlist hmeans, houtput⟩
  · rename_i hnoList
    injection hrun with _ hafter
    subst hafter
    exact ⟨[], .noLoop hnoList, (List.append_nil _).symm, rfl⟩

/-! ## Choices and inclusions -/

/-- A conditional realises its meaning if both of its bodies do. -/
lemma realizes_conditional {condition : Condition} {body otherwise : Program} {action action' : Action}
    (h : Realizes s (.program body) action) (h' : Realizes s (.program otherwise) action') :
    Realizes s (.node (.conditional condition body otherwise)) (s.choose condition action action') := by
  intro run after hrun
  unfold choose at hrun
  rw [holds_eq] at hrun
  have hbranch : Realizes s
      (.program (if (envOf s.context run.scopes).holds condition then body else otherwise))
      (if (envOf s.context run.scopes).holds condition then action else action') := by
    split
    · exact h
    · exact h'
  obtain ⟨out, hmeans, houtput⟩ := hbranch.nested run after hrun
  exact ⟨out, .conditional hmeans, houtput⟩

/-- A region realises its meaning if its body does. -/
lemma realizes_region {body : Program} (h : Realizes s (.program body) action) (name : Text) :
    Realizes s (.node (.region name body)) (s.region name action) := by
  intro run after hrun
  unfold region at hrun
  split at hrun
  · rename_i henabled
    obtain ⟨out, hmeans, houtput⟩ := h.nested run after hrun
    exact ⟨out, .region henabled hmeans, houtput⟩
  · rename_i hdisabled
    injection hrun with _ hafter
    subst hafter
    exact ⟨[], .noRegion (Bool.not_eq_true _ ▸ hdisabled), (List.append_nil _).symm, rfl⟩

/-- An inclusion that goes well has loaded a program, and run it. -/
lemma realizes_inclusion {execute : Option (Program → Action)}
    (h : ∀ run program, execute = some run → Realizes s (.program program) (run program)) (path : Text) :
    Realizes s (.node (.inclusion path)) (s.inclusion execute path) := by
  intro run after hrun
  unfold inclusion at hrun
  split at hrun
  · simp at hrun
  · simp at hrun
  · rename_i loader execute hloader
    split at hrun
    · simp at hrun
    · rename_i program loaded hload
      obtain ⟨inside, haction, rfl⟩ := ok_of_leaving hrun
      obtain ⟨out, hmeans, houtput⟩ := (h execute program rfl).nested _ _ haction
      exact ⟨out, .inclusion hloader hload hmeans, houtput⟩

/-! ## Programs -/

mutual

/-- A program realises its meaning if its inclusions do, by induction on the program. -/
lemma realizes_nodes {includeFile : Text → Action}
    (h : ∀ path, Realizes s (.node (.inclusion path)) (includeFile path)) :
    (program : Program) → Realizes s (.program program) (s.nodes includeFile program)
  | [] => by
    intro run after hrun
    injection hrun with _ hafter
    subst hafter
    exact ⟨[], .empty, (List.append_nil _).symm, rfl⟩
  | node :: rest => by
    rw [nodes]
    refine Realizes.look fun run after hrun => ?_
    obtain ⟨between, hnode, hrest⟩ := ok_of_bind hrun
    obtain ⟨out, hmeans, houtput, hscopes⟩ := realizes_node h node run between hnode
    obtain ⟨later, hmeansLater, houtputLater, hscopesLater⟩ := realizes_nodes h rest between after hrest
    rw [hscopes] at hmeansLater
    refine ⟨out ++ later, .sequence hmeans hmeansLater, ?_, hscopesLater.trans hscopes⟩
    rw [houtputLater, houtput, List.append_assoc]

/-- A node realises its meaning if the inclusions in it do. -/
lemma realizes_node {includeFile : Text → Action}
    (h : ∀ path, Realizes s (.node (.inclusion path)) (includeFile path)) :
    (node : Node) → Realizes s (.node node) (nodes.ofNode s includeFile node)
  | .literal t => realizes_literal s t
  | .substitution path raw => realizes_substitution s path raw
  | .loop name collection body => realizes_loop (realizes_nodes h body).look name collection
  | .conditional _ body otherwise => realizes_conditional (realizes_nodes h body).look (realizes_nodes h otherwise).look
  | .region name body => realizes_region (realizes_nodes h body).look name
  | .inclusion path => h path

end

/-- An execution realises the meaning of its program, however deep inclusions may still go. -/
lemma realizes_execute (s : Sandbox) (room : Nat) (program : Program) :
    Realizes s (.program program) (s.execute room program) := by
  induction room generalizing program with
  | zero =>
    -- too deep for inclusions: none ends well
    have hnone : ∀ path, Realizes s (.node (.inclusion path)) (s.inclusion none path) :=
      realizes_inclusion fun _ _ hexecute => absurd hexecute (by simp)
    exact (realizes_nodes hnone program).look
  | succ room ih =>
    have hinclusion : ∀ path, Realizes s (.node (.inclusion path)) (s.inclusion (some (s.execute room)) path) :=
      realizes_inclusion fun run included hexecute => by
        obtain rfl := Option.some.inj hexecute
        exact ih included
    exact (realizes_nodes hinclusion program).look

/-- The output of a completed run is what its program means under the names of the context, whatever the budget and the
clock are, and the program means nothing else. -/
theorem means_of_evaluate_eq_completed {cache : InclusionCache} {program : Program} {out : Text}
    (h : (s.evaluate cache program).1 = .completed out) :
    Means s.setting (Env.ofContext s.context) cache (.program program) out (s.evaluate cache program).2 ∧
      ∀ out' after, Means s.setting (Env.ofContext s.context) cache (.program program) out' after → out' = out := by
  have hmeans : Means s.setting (Env.ofContext s.context) cache (.program program) out
      (s.evaluate cache program).2 := by
    unfold evaluate at h ⊢
    split at h
    · rename_i after hrun
      obtain ⟨out', hmeans, houtput, -⟩ := realizes_execute s _ program _ _ hrun
      obtain rfl : after.output = out := Outcome.completed.inj h
      rw [houtput]
      exact hmeans
    · simp at h
  exact ⟨hmeans, fun out' after hother => (hother.unique hmeans).1⟩

/-- A sandbox with a list of a text and a number. -/
def listing : Sandbox where
  budget := .ofProfile .secure
  escape := .html
  context := ⟨[], [], [("items", .array [.string "<a>", .number (.int 2)])]⟩
  deadline := .ofBudget 2000 false
  loader := none

/-- The items of the list with commas between them, and a name that stands for nothing. -/
def listingProgram : Program :=
  [.loop "x" ["items"]
    [.conditional (.truthy (.path ["loop", "first"])) [] [.literal ", "], .substitution ["x"] "\x7b\x7bx\x7d\x7d"],
    .region "end" [.literal "."], .substitution ["y"] "\x7b\x7by\x7d\x7d"]

/-- The program runs to its end, so what it has written is what it means. -/
theorem means_listing :
    (listing.evaluate (InclusionCache.new 1 1) listingProgram).1 =
        .completed "&lt;a&gt;, 2.\x7b\x7by\x7d\x7d" ∧
      Means listing.setting (Env.ofContext listing.context) (InclusionCache.new 1 1) (.program listingProgram)
        "&lt;a&gt;, 2.\x7b\x7by\x7d\x7d" (listing.evaluate (InclusionCache.new 1 1) listingProgram).2 := by
  have hrun : (listing.evaluate (InclusionCache.new 1 1) listingProgram).1 =
      .completed "&lt;a&gt;, 2.\x7b\x7by\x7d\x7d" := by decide +kernel
  exact ⟨hrun, (means_of_evaluate_eq_completed hrun).1⟩

end Sandbox

end Stencil
