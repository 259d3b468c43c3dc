import Stencil.Proofs.Sandbox.Loading
import Stencil.Proofs.Sandbox.Refinement

/-!
# Wider budgets

A budget only cuts a run off: what a run has written when it is completed, it writes under every wider budget as well
(`completed_of_wider`).

The two runs are held against each other action by action. Where the first goes on, so does the second, unless it is out
of time (`Follows`): it has written the same under the same names, and used no more (`Matches`).
-/

namespace Stencil.Sandbox

open Json Template

/-- Sandboxes that differ in time and in bounds that end a run: the second has at least those of the first. -/
structure Wider (s s' : Sandbox) : Prop where
  escape : s'.escape = s.escape
  context : s'.context = s.context
  loader : s'.loader = s.loader
  maxLoopIterations : s'.budget.maxLoopIterations = s.budget.maxLoopIterations
  maxOutputBytes : s.budget.maxOutputBytes ≤ s'.budget.maxOutputBytes
  maxTotalIterations : s.budget.maxTotalIterations ≤ s'.budget.maxTotalIterations
  maxIncludeDepth : s.budget.maxIncludeDepth ≤ s'.budget.maxIncludeDepth
  maxRecursionDepth : s.budget.maxRecursionDepth ≤ s'.budget.maxRecursionDepth

/-- Whether inclusions kept make no difference to a run: they do not if they are the same, or if they are genuine and no
two texts have one digest (`Loader.Genuine.alike`). -/
def CachesAlike (s : Sandbox) (cache cache' : InclusionCache) : Prop :=
  ∀ loader, s.loader = some loader → loader.Alike cache cache'

/-- A state that has come as far as another and has used no more. -/
structure Matches (s : Sandbox) (run run' : Run) : Prop where
  written : run'.written = run.written
  size : run'.size = run.size
  scopes : run'.scopes = run.scopes
  depth : run'.depth ≤ run.depth
  turns : run'.turns ≤ run.turns
  cache : CachesAlike s run.cache run'.cache

/-- What comes of an action where another one has ended well: it does so too, or its time is up. -/
def KeepsUp (s s' : Sandbox) (after : Run) (result : EStateM.Result Halt Run Unit) : Prop :=
  (∃ after', result = .ok () after' ∧ Matches s after after') ∨
    ∃ late looks, result = .error .timedOut late ∧ s'.deadline looks = true

/-- Where an action ends well, another one does so too, unless its time is up. -/
def Follows (s s' : Sandbox) (action action' : Action) : Prop :=
  ∀ run run', Matches s run run' → ∀ after, action run = .ok () after → KeepsUp s s' after (action' run')

variable {s s' : Sandbox} {action action' next next' body body' : Action}

/-! ## Steps -/

lemma follows_pure (s s' : Sandbox) : Follows s s' (pure ()) (pure ()) := by
  intro run run' hmatches after hrun
  injection hrun with _ hafter
  subst hafter
  exact .inl ⟨run', rfl, hmatches⟩

/-- Two actions follow two others if each of them does. -/
lemma Follows.bind (h : Follows s s' action action') (hnext : Follows s s' next next') :
    Follows s s' (do action; next) (do action'; next') := by
  intro run run' hmatches after hrun
  obtain ⟨between, haction, hrest⟩ := ok_of_bind hrun
  obtain ⟨between', haction', hbetween⟩ | ⟨late, looks, hlate, hdeadline⟩ := h run run' hmatches between haction
  · rw [Recorded.bind_of_ok next' haction']
    exact hnext between between' hbetween after hrest
  · exact .inr ⟨late, looks, Recorded.bind_of_error next' hlate, hdeadline⟩

lemma follows_look (s s' : Sandbox) : Follows s s' s.look s'.look := by
  intro run run' hmatches after hrun
  unfold look at hrun ⊢
  split at hrun
  · simp at hrun
  · injection hrun with _ hafter
    subst hafter
    by_cases hlate : s'.deadline run'.looks = true
    · rw [if_pos hlate]
      exact .inr ⟨_, _, rfl, hlate⟩
    · rw [if_neg hlate]
      exact .inl ⟨_, rfl,
        ⟨hmatches.written, hmatches.size, hmatches.scopes, hmatches.depth, hmatches.turns, hmatches.cache⟩⟩

/-- Text that fits into the narrower budget fits into the wider one. -/
lemma follows_emit (h : Wider s s') (t : Text) : Follows s s' (s.emit t) (s'.emit t) := by
  intro run run' hmatches after hrun
  unfold emit at hrun ⊢
  split at hrun
  · simp at hrun
  · rename_i hfits
    injection hrun with _ hafter
    subst hafter
    -- both have put out the same, and the bound is no smaller
    have hfits' : ¬ s'.budget.maxOutputBytes < run'.size + Text.byteLength t := by
      have := h.maxOutputBytes
      have := hmatches.size
      omega
    rw [if_neg hfits']
    refine .inl ⟨_, rfl, ⟨?_, ?_, hmatches.scopes, hmatches.depth, hmatches.turns, hmatches.cache⟩⟩
    · rw [hmatches.written]
    · rw [hmatches.size]

/-- A turn within the narrower bound is within the wider one. -/
lemma follows_countTurn (h : Wider s s') : Follows s s' s.countTurn s'.countTurn := by
  intro run run' hmatches after hrun
  unfold countTurn at hrun ⊢
  split at hrun
  · simp at hrun
  · rename_i hleft
    injection hrun with _ hafter
    subst hafter
    have hturns := hmatches.turns
    have hleft' : ¬ s'.budget.maxTotalIterations < run'.turns + 1 := by
      have := h.maxTotalIterations
      omega
    rw [if_neg hleft']
    exact .inl ⟨_, rfl, ⟨hmatches.written, hmatches.size, hmatches.scopes, hmatches.depth, Nat.succ_le_succ hturns,
      hmatches.cache⟩⟩

/-- A change taken back behind two actions, if they match then as well. -/
lemma Follows.leaving (h : Follows s s' action action') {leave leave' : Run → Run} {run run' after : Run}
    (hrun : leaving leave action run = .ok () after) (hmatches : Matches s run run')
    (hleave : ∀ inside inside', Matches s inside inside' → Matches s (leave inside) (leave' inside')) :
    KeepsUp s s' after (Sandbox.leaving leave' action' run') := by
  obtain ⟨inside, haction, rfl⟩ := ok_of_leaving hrun
  unfold Sandbox.leaving
  obtain ⟨inside', haction', hinside⟩ | ⟨late, looks, hlate, hdeadline⟩ := h run run' hmatches inside haction
  · rw [haction']
    exact .inl ⟨_, rfl, hleave inside inside' hinside⟩
  · rw [hlate]
    exact .inr ⟨_, looks, rfl, hdeadline⟩

/-- A level within the narrower bound is within the wider one. -/
lemma Follows.nested (h : Wider s s') (hbody : Follows s s' body body') :
    Follows s s' (s.nested body) (s'.nested body') := by
  intro run run' hmatches after hrun
  have hdepth := hmatches.depth
  unfold Sandbox.nested at hrun ⊢
  split at hrun
  · simp at hrun
  · rename_i hdeep
    have hdeep' : ¬ s'.budget.maxRecursionDepth ≤ run'.depth := by
      have := h.maxRecursionDepth
      omega
    rw [if_neg hdeep']
    refine hbody.leaving hrun ⟨hmatches.written, hmatches.size, hmatches.scopes, Nat.succ_le_succ hdepth,
      hmatches.turns, hmatches.cache⟩ fun inside inside' hinside => ?_
    exact ⟨hinside.written, hinside.size, hinside.scopes, Nat.sub_le_sub_right hinside.depth 1, hinside.turns,
      hinside.cache⟩

/-- Under the same bindings, actions follow as without them. -/
lemma Follows.bound (h : Follows s s' action action') (bindings : Scopes) :
    Follows s s' (bound bindings action) (bound bindings action') := by
  intro run run' hmatches after hrun
  unfold Sandbox.bound at hrun ⊢
  refine h.leaving hrun ⟨hmatches.written, hmatches.size, ?_, hmatches.depth, hmatches.turns, hmatches.cache⟩
    fun inside inside' hinside => ?_
  · dsimp only
    rw [hmatches.scopes]
  · refine ⟨hinside.written, hinside.size, ?_, hinside.depth, hinside.turns, hinside.cache⟩
    dsimp only
    rw [hinside.scopes, hmatches.scopes]

/-! ## Nodes -/

/-- Turns follow turns if their bodies do. -/
lemma Follows.turnsFor (h : Wider s s') (hbody : Follows s s' body body') (name : Text) (shown number : Nat)
    (items : List Value) :
    Follows s s' (s.turnsFor name shown body number items) (s'.turnsFor name shown body' number items) := by
  induction items generalizing number with
  | nil => exact follows_pure s s'
  | cons item rest ih =>
    refine (follows_look s s').bind ((follows_countTurn h).bind ?_)
    exact ((Follows.nested h hbody).bound _).bind (ih (number + 1))

/-- A loop follows a loop, since both are cut at the same turn. -/
lemma Follows.loop (h : Wider s s') (hbody : Follows s s' body body') (name : Text) (collection : Path) :
    Follows s s' (s.loop name collection body) (s'.loop name collection body') := by
  intro run run' hmatches after hrun
  unfold Sandbox.loop at hrun ⊢
  rw [h.context, hmatches.scopes, h.maxLoopIterations]
  split at hrun
  · exact hbody.turnsFor h name _ 1 _ run run' hmatches after hrun
  · exact follows_pure s s' run run' hmatches after hrun

/-- A substitution follows one with the same context. -/
lemma follows_substitute (h : Wider s s') (path : Path) (raw : Text) :
    Follows s s' (s.substitute path raw) (s'.substitute path raw) := by
  intro run run' hmatches after hrun
  unfold substitute at hrun ⊢
  rw [h.context, hmatches.scopes, h.escape]
  split at hrun
  · exact follows_emit h _ run run' hmatches after hrun
  · exact follows_emit h raw run run' hmatches after hrun

/-- A choice follows a choice, since both decide alike. -/
lemma Follows.choose (h : Wider s s') (condition : Condition) (hbody : Follows s s' body body')
    (hotherwise : Follows s s' action action') :
    Follows s s' (s.choose condition body action) (s'.choose condition body' action') := by
  intro run run' hmatches after hrun
  unfold Sandbox.choose at hrun ⊢
  rw [h.context, hmatches.scopes]
  have hbranch : Follows s s' (if holds s.context run.scopes condition then body else action)
      (if holds s.context run.scopes condition then body' else action') := by
    split
    · exact hbody
    · exact hotherwise
  exact hbranch.nested h run run' hmatches after hrun

/-- A region follows a region if their bodies do. -/
lemma Follows.region (h : Wider s s') (hbody : Follows s s' body body') (name : Text) :
    Follows s s' (s.region name body) (s'.region name body') := by
  unfold Sandbox.region
  rw [h.context]
  split
  · exact hbody.nested h
  · exact follows_pure s s'

/-- Too deep in inclusions nothing ends well. -/
lemma follows_tooDeep (s s' : Sandbox) (path : Text) (action' : Action) :
    Follows s s' (s.inclusion none path) action' := by
  intro run run' _ after hrun
  cases hloader : s.loader with
  | none | some => simp [inclusion, hloader] at hrun

/-- An inclusion follows an inclusion if what is loaded does. -/
lemma follows_inclusion (h : Wider s s') {execute execute' : Program → Action}
    (hexecute : ∀ program, Follows s s' (execute program) (execute' program)) (path : Text) :
    Follows s s' (s.inclusion (some execute) path) (s'.inclusion (some execute') path) := by
  intro run run' hmatches after hrun
  unfold inclusion at hrun ⊢
  rw [h.loader]
  cases hloader : s.loader with
  | none =>
    rw [hloader] at hrun
    simp at hrun
  | some loader =>
    -- caches that are alike load the same program, and stay alike
    obtain ⟨hanswer, halike⟩ := (hmatches.cache loader hloader).load path
    rcases hload : loader.load run.cache path with ⟨answer, loaded⟩
    rcases hload' : loader.load run'.cache path with ⟨answer', loaded'⟩
    rw [hload, hload'] at hanswer halike
    dsimp only at hanswer halike
    subst hanswer
    rw [hloader] at hrun
    dsimp only at hrun ⊢
    rw [hload] at hrun
    rw [hload']
    cases answer with
    | error halt => simp at hrun
    | ok program =>
      refine ((hexecute program).nested h).leaving hrun ⟨hmatches.written, hmatches.size, hmatches.scopes,
        hmatches.depth, hmatches.turns, fun other hother => ?_⟩ fun inside inside' hinside => ?_
      · rw [hloader] at hother
        obtain rfl := Option.some.inj hother
        exact halike
      · exact ⟨hinside.written, hinside.size, hinside.scopes, hinside.depth, hinside.turns, hinside.cache⟩

mutual

/-- A program follows itself if its inclusions do, by induction on its nodes. -/
lemma follows_nodes (h : Wider s s') {includeFile includeFile' : Text → Action}
    (hinclude : ∀ path, Follows s s' (includeFile path) (includeFile' path)) :
    (program : Program) → Follows s s' (s.nodes includeFile program) (s'.nodes includeFile' program)
  | [] => follows_pure s s'
  | node :: rest => (follows_look s s').bind ((follows_node h hinclude node).bind (follows_nodes h hinclude rest))

/-- A node follows itself if its inclusions do. -/
lemma follows_node (h : Wider s s') {includeFile includeFile' : Text → Action}
    (hinclude : ∀ path, Follows s s' (includeFile path) (includeFile' path)) :
    (node : Node) → Follows s s' (nodes.ofNode s includeFile node) (nodes.ofNode s' includeFile' node)
  | .literal t => follows_emit h t
  | .substitution path raw => follows_substitute h path raw
  | .loop name collection body => ((follows_look s s').bind (follows_nodes h hinclude body)).loop h name collection
  | .conditional condition body otherwise =>
    Follows.choose h condition ((follows_look s s').bind (follows_nodes h hinclude body))
      ((follows_look s s').bind (follows_nodes h hinclude otherwise))
  | .region name body => ((follows_look s s').bind (follows_nodes h hinclude body)).region h name
  | .inclusion path => hinclude path

end

/-- An inclusion that goes well is not too deep, and the wider budget lets its program lie no less deep. -/
lemma follows_inclusionWithin (h : Wider s s') {room room' : Nat} (hroom : room ≤ room') (path : Text) :
    Follows s s' (s.inclusionWithin room path) (s'.inclusionWithin room' path) := by
  induction room generalizing room' path with
  | zero => exact follows_tooDeep s s' path _
  | succ room ih =>
    obtain ⟨room', rfl⟩ := Nat.exists_eq_succ_of_ne_zero (show room' ≠ 0 by omega)
    refine follows_inclusion h (fun program => ?_) path
    rw [execute_eq, execute_eq]
    exact (follows_look s s').bind (follows_nodes h (ih (Nat.le_of_succ_le_succ hroom)) program)

lemma follows_execute (h : Wider s s') {room room' : Nat} (hroom : room ≤ room') (program : Program) :
    Follows s s' (s.execute room program) (s'.execute room' program) := by
  rw [execute_eq, execute_eq]
  exact (follows_look s s').bind (follows_nodes h (follows_inclusionWithin h hroom) program)

/-- What a run has written when it is completed, it writes under every wider budget as well, unless its time is up. -/
theorem completed_of_wider (h : Wider s s') {cache cache' : InclusionCache} (halike : CachesAlike s cache cache')
    {program : Program} {out : Text} (hcompleted : (s.evaluate cache program).1 = .completed out) :
    (s'.evaluate cache' program).1 = .completed out ∨
      (s'.evaluate cache' program).1 = .halted .timedOut ∧ ∃ looks, s'.deadline looks = true := by
  have hstart : Matches s (Run.start cache) (Run.start cache') :=
    ⟨rfl, rfl, rfl, Nat.le_refl 0, Nat.le_refl 0, halike⟩
  unfold evaluate at hcompleted ⊢
  split at hcompleted
  · rename_i after hrun
    obtain rfl : after.output = out := Outcome.completed.inj hcompleted
    obtain ⟨after', hrun', hafter⟩ | ⟨late, looks, hlate, hdeadline⟩ :=
      follows_execute h h.maxIncludeDepth program _ _ hstart after hrun
    · rw [hrun']
      left
      dsimp only
      rw [Run.output, hafter.written, Run.output]
    · rw [hlate]
      exact .inr ⟨rfl, looks, hdeadline⟩
  · simp at hcompleted

/-- The sandbox of the listing with a budget that the listing just fills. -/
def narrowListing : Sandbox := { listing with budget := { listing.budget with
  maxOutputBytes := 18, maxTotalIterations := 2, maxIncludeDepth := 0, maxRecursionDepth := 2 } }

/-- The listing fits into the narrow budget, so it fits into that of the profile. -/
theorem completed_listing :
    Wider narrowListing listing ∧ (narrowListing.evaluate (InclusionCache.new 1 1) listingProgram).1 =
        .completed "&lt;a&gt;, 2.\x7b\x7by\x7d\x7d" ∧
      (listing.evaluate (InclusionCache.new 1 1) listingProgram).1 = .completed "&lt;a&gt;, 2.\x7b\x7by\x7d\x7d" := by
  have hwider : Wider narrowListing listing := by
    refine ⟨rfl, rfl, rfl, rfl, ?_, ?_, ?_, ?_⟩ <;> decide
  have hrun : (narrowListing.evaluate (InclusionCache.new 1 1) listingProgram).1 =
      .completed "&lt;a&gt;, 2.\x7b\x7by\x7d\x7d" := by decide +kernel
  have hcaches : CachesAlike narrowListing (InclusionCache.new 1 1) (InclusionCache.new 1 1) :=
    fun loader _ => Loader.Alike.refl loader _
  refine ⟨hwider, hrun, ?_⟩
  obtain hcompleted | ⟨-, looks, hdeadline⟩ := completed_of_wider hwider hcaches hrun
  · exact hcompleted
  · simp [listing, Deadline.ofBudget] at hdeadline

end Stencil.Sandbox
