import Stencil.Proofs.Sandbox.Origins
import Stencil.Proofs.Sandbox.Refinement
import Stencil.Proofs.Sandbox.Rules
import Stencil.Proofs.Sandbox.Sources

/-!
# Inclusions and their files

An inclusion stands for the nodes of its file. If these are written in its place (`Inlines`), a run that was completed
writes the same, and is cut off by nothing but the clock (`completed_of_inlines`): it lies no deeper than before, it
counts the same turns and puts out the same texts.

The two runs are held against each other task by task (`InlinesTask`). Where the one goes into a file, it looks at the
clock and lies deeper once more, and the other goes on with the nodes.
-/

namespace Stencil.Sandbox

open Json Template

/-! ## Files in the place of inclusions -/

mutual

/-- A program and what becomes of it if some of its inclusions, be it one or all, are replaced by the nodes of the
programs given for their paths. -/
inductive Inlines (answer : Text → Except Halt Program) : Program → Program → Prop where
  | nil : Inlines answer [] []
  | inclusion {path file rest rest'} (load : answer path = .ok file) (later : Inlines answer rest rest') :
      Inlines answer (.inclusion path :: rest) (file ++ rest')
  | cons {node node' rest rest'} (first : InlinesNode answer node node') (later : Inlines answer rest rest') :
      Inlines answer (node :: rest) (node' :: rest')

/-- A node that stays as it is, or in whose bodies inclusions are replaced. -/
inductive InlinesNode (answer : Text → Except Halt Program) : Node → Node → Prop where
  | same (node : Node) : InlinesNode answer node node
  | loop {name collection body body'} (inside : Inlines answer body body') :
      InlinesNode answer (.loop name collection body) (.loop name collection body')
  | conditional {condition body body' otherwise otherwise'} (inside : Inlines answer body body')
      (inside' : Inlines answer otherwise otherwise') :
      InlinesNode answer (.conditional condition body otherwise) (.conditional condition body' otherwise')
  | region {name body body'} (inside : Inlines answer body body') :
      InlinesNode answer (.region name body) (.region name body')

end

/-- A task and what it is in a program in which inclusions are replaced: a file is gone into without a look at the
clock and without lying deeper. -/
inductive InlinesTask (answer : Text → Except Halt Program) : Task → Task → Prop where
  | step (step : Step) : InlinesTask answer (.step step) (.step step)
  | sequence {first first' second second'} (left : InlinesTask answer first first')
      (right : InlinesTask answer second second') :
      InlinesTask answer (.sequence first second) (.sequence first' second')
  | nested {body body'} (inside : InlinesTask answer body body') : InlinesTask answer (.nested body) (.nested body')
  | bound {body body'} (bindings : Scopes) (inside : InlinesTask answer body body') :
      InlinesTask answer (.bound bindings body) (.bound bindings body')
  | program {program program'} (inside : Inlines answer program program') :
      InlinesTask answer (.part (.program program)) (.part (.program program'))
  | node {node node'} (inside : InlinesNode answer node node') :
      InlinesTask answer (.part (.node node)) (.part (.node node'))
  | turns {name shown body body' number items} (inside : Inlines answer body body') :
      InlinesTask answer (.part (.turns name shown body number items)) (.part (.turns name shown body' number items))
  | inclusion {path file} (load : answer path = .ok file) :
      InlinesTask answer (.part (.node (.inclusion path))) (.part (.program file))
  | unlooked {task task'} (rest : InlinesTask answer task task') :
      InlinesTask answer (.sequence (.step .look) task) task'
  | unnested {task task'} (inside : InlinesTask answer task task') : InlinesTask answer (.nested task) task'

variable {answer : Text → Except Halt Program} {s : Sandbox} {task task' first second second' : Task}
  {run run' after : Run} {paths : List Text} {ending : Ending}

lemma Inlines.refl (answer : Text → Except Halt Program) (program : Program) : Inlines answer program program := by
  induction program with
  | nil => exact .nil
  | cons node rest ih => exact .cons (.same node) ih

lemma InlinesTask.refl (answer : Text → Except Halt Program) (task : Task) : InlinesTask answer task task := by
  induction task with
  | step step => exact .step step
  | sequence _ _ ih ihSecond => exact .sequence ih ihSecond
  | nested _ ih => exact .nested ih
  | bound bindings _ ih => exact .bound bindings ih
  | part part =>
    cases part with
    | program program => exact .program (.refl answer program)
    | node node => exact .node (.same node)
    | turns name shown body number items => exact .turns (.refl answer body)

lemma Inlines.body {program program' : Program} (h : Inlines answer program program') :
    InlinesTask answer (.body program) (.body program') :=
  .sequence (.step .look) (.program h)

/-! ## Programs behind each other -/

/-- A part ends as what it comes down to. -/
lemma Ends.of_part {part : Part} (h : s.Ends (.part part) run paths ending)
    (hcomes : part.task? s run.scopes = some task) : s.Ends task run paths ending := by
  cases h with
  | part comes ends =>
    obtain rfl := Option.some.inj (comes.symm.trans hcomes)
    exact ends
  | noLoader | tooManyInclusions | refused | inclusion => simp [Part.task?] at hcomes

/-- A sequence ends as before if its second task does. -/
lemma Ends.sequence_mono (h : s.Ends (.sequence first second) run paths ending)
    (hmono : ∀ run paths ending, s.Ends second run paths ending → s.Ends second' run paths ending) :
    s.Ends (.sequence first second') run paths ending := by
  cases h with
  | sequence hfirst hsecond => exact .sequence hfirst (hmono _ _ _ hsecond)
  | halted hfirst => exact .halted hfirst

/-- Three tasks in a row end alike, however they are put together. -/
lemma Ends.sequence_assoc (h : s.Ends (.sequence (.sequence task first) second) run paths ending) :
    s.Ends (.sequence task (.sequence first second)) run paths ending := by
  cases h with
  | sequence hfirst hsecond =>
    cases hfirst with
    | sequence htask hfirst =>
      rw [List.append_assoc]
      exact .sequence htask (.sequence hfirst hsecond)
  | halted hfirst =>
    cases hfirst with
    | sequence htask hfirst => exact .sequence htask (.halted hfirst)
    | halted htask => exact .halted htask

/-- Two programs one after the other end as one. -/
lemma Ends.append {program rest : Program}
    (h : s.Ends (.sequence (.part (.program program)) (.part (.program rest))) run paths ending) :
    s.Ends (.part (.program (program ++ rest))) run paths ending := by
  induction program generalizing run paths ending with
  | nil =>
    have hnil : s.Ends (.part (.program [])) run [] (.ok () run) := .part rfl .step
    cases h with
    | sequence hfirst hsecond =>
      obtain ⟨rfl, hbetween⟩ := hfirst.unique hnil
      obtain rfl := (EStateM.Result.ok.inj hbetween).2
      exact hsecond
    | halted hfirst => exact absurd (hfirst.unique hnil).2 (by simp)
  | cons node program ih =>
    have hunfolded : s.Ends (.sequence (.sequence (.step .look) (.sequence (.part (.node node))
        (.part (.program program)))) (.part (.program rest))) run paths ending := by
      cases h with
      | sequence hfirst hsecond => exact .sequence (hfirst.of_part rfl) hsecond
      | halted hfirst => exact .halted (hfirst.of_part rfl)
    refine .part rfl (hunfolded.sequence_assoc.sequence_mono fun _ _ _ hrest => ?_)
    exact hrest.sequence_assoc.sequence_mono fun _ _ _ => ih

/-! ## What tasks come down to -/

/-- Whether two sandboxes are the same but for the clock. -/
structure SameButTime (s s' : Sandbox) : Prop where
  budget : s'.budget = s.budget
  escape : s'.escape = s.escape
  context : s'.context = s.context
  loader : s'.loader = s.loader

variable {s' : Sandbox} {scopes : Scopes}

lemma SameButTime.task?_eq (h : SameButTime s s') (part : Part) : part.task? s' scopes = part.task? s scopes := by
  unfold Part.task?
  rw [h.budget, h.escape, h.context]

/-- What a part comes down to, and a task that it is enough to end for what stands in its place. -/
lemma InlinesTask.of_task? (hsame : SameButTime s s') {part : Part} (h : InlinesTask answer (.part part) task')
    (hcomes : part.task? s scopes = some task) :
    ∃ inner, InlinesTask answer task inner ∧ ∀ run paths ending, run.scopes = scopes →
      s'.Ends inner run paths ending → s'.Ends task' run paths ending := by
  -- what stands in the place of the part comes down to a task of its own, but for a file
  have hpart : ∀ {part' inner}, part'.task? s scopes = some inner → InlinesTask answer task inner →
      ∃ inner, InlinesTask answer task inner ∧ ∀ run paths ending, run.scopes = scopes →
        s'.Ends inner run paths ending → s'.Ends (.part part') run paths ending := by
    intro part' inner hcomes' hinner
    refine ⟨inner, hinner, fun run paths ending hscopes hends => .part ?_ hends⟩
    rw [hscopes, hsame.task?_eq, hcomes']
  cases h with
  | program inside =>
    cases inside with
    | nil =>
      obtain rfl := Option.some.inj hcomes
      exact hpart rfl (.step .skip)
    | inclusion load later =>
      obtain rfl := Option.some.inj hcomes
      exact ⟨_, .unlooked (.sequence (.inclusion load) (.program later)), fun _ _ _ _ hends => hends.append⟩
    | cons first later =>
      obtain rfl := Option.some.inj hcomes
      exact hpart rfl (.sequence (.step .look) (.sequence (.node first) (.program later)))
  | node inside =>
    cases inside with
    | same node => exact hpart hcomes (.refl answer task)
    | loop inside =>
      rw [Part.task?] at hcomes
      split at hcomes
      · rename_i items hlist
        obtain rfl := Option.some.inj hcomes
        refine hpart ?_ (.turns inside)
        rw [Part.task?, hlist]
      · rename_i hnoList
        obtain rfl := Option.some.inj hcomes
        refine hpart ?_ (.step .skip)
        rw [Part.task?]
        split
        · rename_i items hlist
          exact absurd hlist (hnoList items)
        · rfl
    | conditional inside inside' =>
      obtain rfl := Option.some.inj hcomes
      refine hpart rfl (.nested ?_)
      split
      · exact inside.body
      · exact inside'.body
    | region inside =>
      obtain rfl := Option.some.inj hcomes
      refine hpart rfl ?_
      split
      · exact .nested inside.body
      · exact .step .skip
  | @turns _ _ _ _ _ items inside =>
    cases items with
    | nil =>
      obtain rfl := Option.some.inj hcomes
      exact hpart rfl (.step .skip)
    | cons item rest =>
      obtain rfl := Option.some.inj hcomes
      exact hpart rfl (.sequence (.step .look) (.sequence (.step .countTurn)
        (.sequence (.bound _ (.nested inside.body)) (.turns inside))))
  | inclusion => simp [Part.task?] at hcomes

/-! ## Two runs -/

/-- Two states of which the second has come as far, lies no deeper, and keeps programs of the files as they are. -/
structure Abreast (l : Loader) (run run' : Run) : Prop where
  written : run'.written = run.written
  size : run'.size = run.size
  scopes : run'.scopes = run.scopes
  turns : run'.turns = run.turns
  depth : run'.depth ≤ run.depth
  inclusionDepth : run'.inclusionDepth ≤ run.inclusionDepth
  cache : l.Current run.cache
  cache' : l.Current run'.cache

/-- Whether a task ends well abreast of a state, unless its time is up. -/
def Arrives (l : Loader) (s : Sandbox) (task : Task) (run after : Run) : Prop :=
  (∃ paths after', s.Ends task run paths (.ok () after') ∧ Abreast l after after') ∨
    ∃ paths late looks, s.Ends task run paths (.error .timedOut late) ∧ s.deadline looks = true

variable {l : Loader}

/-- A step that succeeds arrives in the other sandbox, too, unless its clock runs out. -/
lemma Step.arrives (hsame : SameButTime s s') {step : Step} (hrun : Abreast l run run')
    (hok : Ending.IsOk (step.action s run)) : Arrives l s' (.step step) run' (Ending.state (step.action s run)) := by
  -- only a look at the clock can end otherwise in the second sandbox, and then it is late
  have hends : s'.Ends (.step step) run' [] (step.action s' run') := .step
  cases step with
  | skip => exact .inl ⟨[], run', hends, hrun⟩
  | look =>
    rw [action] at hends hok ⊢
    unfold Sandbox.look at hends hok ⊢
    split at hok
    · exact hok.elim
    · rename_i hintime
      rw [if_neg hintime]
      by_cases hlate : s'.deadline run'.looks = true
      · rw [if_pos hlate] at hends
        exact .inr ⟨[], _, _, hends, hlate⟩
      · rw [if_neg hlate] at hends
        exact .inl ⟨[], _, hends, { hrun with }⟩
  | emit t =>
    rw [action] at hends hok ⊢
    unfold Sandbox.emit at hends hok ⊢
    split at hok
    · exact hok.elim
    · rename_i hfits
      rw [hsame.budget, hrun.size, if_neg hfits] at hends
      rw [if_neg hfits]
      exact .inl ⟨[], _, hends, { hrun with written := congrArg (List.cons t) hrun.written, size := rfl }⟩
  | countTurn =>
    rw [action] at hends hok ⊢
    unfold Sandbox.countTurn at hends hok ⊢
    split at hok
    · exact hok.elim
    · rename_i hleft
      rw [hsame.budget, hrun.turns, if_neg hleft] at hends
      rw [if_neg hleft]
      exact .inl ⟨[], _, hends, { hrun with turns := rfl }⟩

/-- A look at the clock leaves two states abreast. -/
lemma Abreast.of_look (hrun : Abreast l run run') (h : s.Ends (.step .look) run paths (.ok () after)) :
    Abreast l after run' := by
  have hlook : EStateM.Result.ok () after = s.look run := (h.unique .step).2
  unfold look at hlook
  split at hlook
  · simp at hlook
  · obtain rfl := (EStateM.Result.ok.inj hlook).2
    exact { hrun with }

variable {between : Run} {change : Run → Run} {inner : Task}

/-- Two tasks arrive if the first does and the second does from there. -/
lemma Arrives.sequence (h : Arrives l s first run between)
    (hsecond : ∀ between', Abreast l between between' → Arrives l s second between' after) :
    Arrives l s (.sequence first second) run after := by
  obtain ⟨paths, between', hfirst, hbetween⟩ | ⟨paths, late, looks, hfirst, hlate⟩ := h
  · obtain ⟨later, after', hends, hafter⟩ | ⟨later, late, looks, hends, hlate⟩ := hsecond between' hbetween
    · exact .inl ⟨paths ++ later, after', .sequence hfirst hends, hafter⟩
    · exact .inr ⟨paths ++ later, late, looks, .sequence hfirst hends, hlate⟩
  · exact .inr ⟨paths, late, looks, .halted hfirst, hlate⟩

/-- What arrives inside of something arrives behind it, if what is taken back there leaves the two states abreast. -/
lemma Arrives.leave {inside : Run} (h : Arrives l s inner run' inside)
    (hends : ∀ paths ending, s.Ends inner run' paths ending →
      ∃ paths', s.Ends task run paths' (Ending.leave change ending))
    (hleave : ∀ inside', Abreast l inside inside' → Abreast l after (change inside')) : Arrives l s task run after := by
  obtain ⟨paths, inside', hinner, hinside⟩ | ⟨paths, late, looks, hinner, hlate⟩ := h
  · obtain ⟨paths', htask⟩ := hends _ _ hinner
    exact .inl ⟨paths', _, htask, hleave inside' hinside⟩
  · obtain ⟨paths', htask⟩ := hends _ _ hinner
    exact .inr ⟨paths', _, looks, htask, hlate⟩

/-- What arrives abreast of one state arrives abreast of another if they are abreast of what leaves all depths as they
were. -/
lemma Arrives.imp {inside : Run} (h : Arrives l s task run inside)
    (himp : ∀ after', Kept run after' → Abreast l inside after' → Abreast l after after') :
    Arrives l s task run after := by
  obtain ⟨paths, after', hends, hafter⟩ | hlate := h
  · exact .inl ⟨paths, after', hends, himp after' hends.kept hafter⟩
  · exact .inr hlate

/-- If a task ends well, then what is in its place after inclusions are replaced ends well abreast of it. -/
lemma Ends.arrives (h : s.Ends task run paths ending) (hsame : SameButTime s s') (hloader : s.loader = some l)
    (hok : Ending.IsOk ending) (htask : InlinesTask l.loadAfresh task task') (hrun : Abreast l run run') :
    Arrives l s' task' run' (Ending.state ending) := by
  induction h generalizing task' run' with
  | step =>
    cases htask
    exact Step.arrives hsame hrun hok
  | sequence hfirst _ ih ihSecond =>
    cases htask with
    | sequence left right => exact (ih trivial left hrun).sequence fun _ hbetween => ihSecond hok right hbetween
    | unlooked rest => exact ihSecond hok rest (hrun.of_look hfirst)
  | halted | tooDeep | noLoader | tooManyInclusions | refused => exact hok.elim
  | @nested _ run _ _ depth hbody ih =>
    have hok := (isOk_leave _ _).1 hok
    rw [state_leave]
    have hdepth := hrun.depth
    cases htask with
    | nested inside =>
      have hdepth' : run'.depth < s'.budget.maxRecursionDepth := by
        rw [hsame.budget]
        exact Nat.lt_of_le_of_lt hdepth depth
      have hdeeper : Abreast l { run with depth := run.depth + 1 } { run' with depth := run'.depth + 1 } :=
        { hrun with depth := Nat.succ_le_succ hdepth }
      refine (ih hok inside hdeeper).leave
        (fun paths _ hinside => ⟨paths, .nested hdepth' hinside⟩) fun inside' hinside => ?_
      exact { hinside with depth := Nat.sub_le_sub_right hinside.depth 1 }
    | unnested inside =>
      refine (ih hok inside { hrun with depth := Nat.le_succ_of_le hdepth }).imp fun after' hkept hafter => ?_
      have hleft := hbody.kept.depth
      have hleft' := hkept.depth
      refine { hafter with depth := ?_ }
      dsimp only at hleft ⊢
      omega
  | @bound bindings _ run _ _ _ ih =>
    have hok := (isOk_leave _ _).1 hok
    rw [state_leave]
    cases htask with
    | bound _ inside =>
      have hbound : Abreast l { run with scopes := bindings ++ run.scopes }
          { run' with scopes := bindings ++ run'.scopes } :=
        { hrun with scopes := congrArg (bindings ++ ·) hrun.scopes }
      refine (ih hok inside hbound).leave
        (fun paths _ hinside => ⟨paths, .bound hinside⟩) fun inside' hinside => { hinside with scopes := ?_ }
      dsimp only
      rw [hinside.scopes, hrun.scopes]
  | part comes _ ih =>
    obtain ⟨inner, hinner, hends⟩ := htask.of_task? hsame comes
    obtain ⟨paths, after', hinside, hafter⟩ | ⟨paths, late, looks, hinside, hlate⟩ := ih hok hinner hrun
    · exact .inl ⟨paths, after', hends _ _ _ hrun.scopes hinside, hafter⟩
    · exact .inr ⟨paths, late, looks, hends _ _ _ hrun.scopes hinside, hlate⟩
  | inclusion enabled depth load hbody ih =>
    rename_i path run l' program cache paths ending
    obtain rfl := Option.some.inj (hloader.symm.trans enabled)
    have hok := (isOk_leave _ _).1 hok
    rw [state_leave]
    have hdepth := hrun.inclusionDepth
    obtain ⟨hcache, hanswer⟩ := hrun.cache.of_load load
    cases htask with
    | node inside =>
      cases inside
      -- both go into the file, which is the same for both
      rcases hload' : l.load run'.cache path with ⟨answer', cache'⟩
      obtain ⟨hcache', hanswer'⟩ := hrun.cache'.of_load hload'
      obtain rfl := hanswer'.trans hanswer.symm
      have hdepth' : run'.inclusionDepth < s'.budget.maxIncludeDepth := by
        rw [hsame.budget]
        exact Nat.lt_of_le_of_lt hdepth depth
      have hdeeper : Abreast l { run with cache, inclusionDepth := run.inclusionDepth + 1 }
          { run' with cache := cache', inclusionDepth := run'.inclusionDepth + 1 } :=
        { hrun with inclusionDepth := Nat.succ_le_succ hdepth, cache := hcache, cache' := hcache' }
      have hloader' : s'.loader = some l := hsame.loader.trans hloader
      refine (ih hok (.refl _ _) hdeeper).leave
        (fun _ _ hinside => ⟨_, .inclusion hloader' hdepth' hload' hinside⟩) fun inside' hinside => ?_
      exact { hinside with inclusionDepth := Nat.sub_le_sub_right hinside.inclusionDepth 1 }
    | inclusion load' =>
      -- the nodes that stand in the place of the file are those that the first run has found there
      obtain rfl := Except.ok.inj (hanswer.trans load')
      have hdeeper : Abreast l { run with cache, inclusionDepth := run.inclusionDepth + 1 } run' :=
        { hrun with inclusionDepth := Nat.le_succ_of_le hdepth, cache := hcache }
      refine (ih hok (.unnested (.unlooked (.refl _ _))) hdeeper).imp fun after' hkept hafter => ?_
      have hleft := hbody.kept.inclusionDepth
      have hleft' := hkept.inclusionDepth
      refine { hafter with inclusionDepth := ?_ }
      dsimp only at hleft ⊢
      omega

/-! ## Runs of programs with their files written out -/

/-- What a run writes when it is completed, it writes as well if inclusions in its program are replaced by the nodes
that a load gives for them, unless its time is up. -/
theorem completed_of_inlines {loader : Loader} (hloader : s.loader = some loader) {cache cache' : InclusionCache}
    (hcache : loader.Current cache) (hcache' : loader.Current cache') {program program' : Program}
    (hinlines : Inlines (fun path => (loader.load cache path).1) program program') {out : Text}
    (hcompleted : (s.evaluate cache program).1 = .completed out) (deadline' : Deadline) :
    (({ s with deadline := deadline' } : Sandbox).evaluate cache' program').1 = .completed out ∨
      (({ s with deadline := deadline' } : Sandbox).evaluate cache' program').1 = .halted .timedOut ∧
        ∃ looks, deadline' looks = true := by
  have hanswer : (fun path => (loader.load cache path).1) = loader.loadAfresh := funext hcache.load_eq
  rw [hanswer] at hinlines
  have hsame : SameButTime s { s with deadline := deadline' } := ⟨rfl, rfl, rfl, rfl⟩
  have hstart : Abreast loader (Run.start cache) (Run.start cache') :=
    ⟨rfl, rfl, rfl, rfl, Nat.le_refl 0, Nat.le_refl 0, hcache, hcache'⟩
  obtain ⟨paths, hends⟩ := ends_execute s cache program
  rw [evaluate_eq_outcome] at hcompleted
  cases hrun : s.execute s.budget.maxIncludeDepth program (Run.start cache) with
  | error halt after => simp [hrun, Ending.outcome] at hcompleted
  | ok u after =>
    rw [hrun] at hends hcompleted
    obtain rfl : after.output = out := Outcome.completed.inj hcompleted
    -- the run arrives with the same output, or it is the second clock that has stopped it
    obtain ⟨paths', after', hends', hafter⟩ | ⟨paths', late, looks, hends', hlate⟩ :=
      hends.arrives hsame hloader trivial hinlines.body hstart
    · left
      rw [hends'.evaluate_eq, Ending.outcome, Run.output, hafter.written]
      rfl
    · right
      rw [hends'.evaluate_eq, Ending.outcome]
      exact ⟨rfl, looks, hlate⟩

/-- The sandbox of the listing, with a loader whose file has a variable between quotes. -/
def quotedListing : Sandbox := { listing with loader := some quoting }

/-- The nodes of that file. -/
def quotedItem : Program := [.literal "\"", .substitution ["x"] "\x7b\x7bx\x7d\x7d", .literal "\""]

/-- A file in each turn of a loop writes what its nodes write there. -/
theorem completed_quotedListing :
    (quotedListing.evaluate (InclusionCache.new 1 1) [.loop "x" ["items"] [.inclusion "f"]]).1 =
        .completed "\"&lt;a&gt;\"\"2\"" ∧
      (quotedListing.evaluate (InclusionCache.new 1 1) [.loop "x" ["items"] quotedItem]).1 =
        .completed "\"&lt;a&gt;\"\"2\"" := by
  have hpieces : Piece.ofSource 1 "\"\x7b\x7bx\x7d\x7d\"" =
      .ok [.text "\"", .block .expression "x", .text "\""] := by decide +kernel
  have hsource : Program.ofSource quoting.limits "\"\x7b\x7bx\x7d\x7d\"" = .ok quotedItem := by
    rw [Program.ofSource_of_tokens (Token.ofSource_of_pieces hpieces)]
    rfl
  have hcache := Loader.current_new quoting 1 1
  have hload : (quoting.load (InclusionCache.new 1 1) "f").1 = .ok quotedItem := by
    rw [hcache.load_eq]
    exact Loader.accept_eq_ok (by decide) (by decide +kernel) hsource
  have hrun : (quotedListing.evaluate (InclusionCache.new 1 1) [.loop "x" ["items"] [.inclusion "f"]]).1 =
      .completed "\"&lt;a&gt;\"\"2\"" := by decide +kernel
  have hinside : Inlines (fun path => (quoting.load (InclusionCache.new 1 1) path).1) [.inclusion "f"]
      (quotedItem ++ []) := .inclusion hload .nil
  refine ⟨hrun, ?_⟩
  obtain hcompleted | ⟨-, looks, hdeadline⟩ :=
    completed_of_inlines rfl hcache hcache (.cons (.loop hinside) .nil) hrun quotedListing.deadline
  · exact hcompleted
  · simp [quotedListing, listing, Deadline.ofBudget] at hdeadline

end Stencil.Sandbox
