import Stencil.Proofs.Sandbox.Recording

/-!
# What holds at every moment of a run

Whatever a node does and however it ends, it takes back what it has changed of the names, the depth and the depth of
inclusions, and it only adds to the output and to the turns (`Kept`). On the way there, no moment lies beyond the budget
(`Within`), and loops are entered no more often than it allows (`history_within_budget`).
-/

namespace Stencil.Sandbox

open Json Template

/-! ## What an action leaves as it was -/

/-- What is the same of two states or has only grown. -/
structure Kept (run after : Run) : Prop where
  scopes : after.scopes = run.scopes
  depth : after.depth = run.depth
  inclusionDepth : after.inclusionDepth = run.inclusionDepth
  output : run.output <+: after.output
  turns : run.turns ≤ after.turns

lemma Kept.refl (run : Run) : Kept run run := ⟨rfl, rfl, rfl, List.prefix_rfl, Nat.le_refl _⟩

/-- What is kept by one part and by the next is kept by both. -/
lemma Kept.trans {run between after : Run} (h : Kept run between) (h' : Kept between after) : Kept run after where
  scopes := h'.scopes.trans h.scopes
  depth := h'.depth.trans h.depth
  inclusionDepth := h'.inclusionDepth.trans h.inclusionDepth
  output := h.output.trans h'.output
  turns := Nat.le_trans h.turns h'.turns

/-! ### What is taken back -/

section Leaving

variable {run inside : Run}

lemma Kept.nested (h : Kept { run with depth := run.depth + 1 } inside) :
    Kept run { inside with depth := inside.depth - 1 } :=
  ⟨h.scopes, by simp [h.depth], h.inclusionDepth, h.output, h.turns⟩

/-- The names are cut back to as many as there were, and those at the bottom have not changed. -/
lemma Kept.bound {bindings : Scopes} (h : Kept { run with scopes := bindings ++ run.scopes } inside) :
    Kept run { inside with scopes := inside.scopes.drop (inside.scopes.length - run.scopes.length) } := by
  refine ⟨?_, h.depth, h.inclusionDepth, h.output, h.turns⟩
  dsimp only
  rw [h.scopes, List.length_append, Nat.add_sub_cancel, List.drop_left]

/-- What is kept in a file that is included is kept when the file is left. -/
lemma Kept.inclusion {cache : InclusionCache}
    (h : Kept { run with cache, inclusionDepth := run.inclusionDepth + 1 } inside) :
    Kept run { inside with inclusionDepth := inside.inclusionDepth - 1 } :=
  ⟨h.scopes, h.depth, by simp [h.inclusionDepth], h.output, h.turns⟩

end Leaving

/-! ### Actions -/

namespace Recorded

variable {s : Sandbox} {room : Nat} {record first second body : Recorded}

lemma kept_look (s : Sandbox) (run : Run) : Kept run (behind s.look run) := by
  rw [behind_look]
  exact ⟨rfl, rfl, rfl, List.prefix_rfl, Nat.le_refl _⟩

lemma kept_emit (s : Sandbox) (t : Text) (run : Run) : Kept run (behind (s.emit t) run) := by
  rw [behind_emit]
  split
  · exact Kept.refl run
  · refine ⟨rfl, rfl, rfl, ⟨t, ?_⟩, Nat.le_refl _⟩
    simp [Run.output]

/-- Two parts that keep the run keep it together. -/
lemma kept_andThen (h : ∀ run, Kept run (behind first.action run)) (h' : ∀ run, Kept run (behind second.action run))
    (run : Run) : Kept run (behind (first.andThen second).action run) := by
  rcases andThen_cases first second run with ⟨hbehind, -⟩ | ⟨hbehind, -⟩
  · rw [hbehind]
    exact (h run).trans (h' _)
  · rw [hbehind]
    exact h run

/-- A body one level deeper keeps the run if the body does. -/
lemma kept_nested (h : ∀ run, Kept run (behind body.action run)) (mark : Mark) (run : Run) :
    Kept run (behind (nested s mark body).action run) := by
  show Kept run (behind (s.nested body.action) run)
  rw [behind_nested]
  split
  · exact Kept.refl run
  · exact (h { run with depth := run.depth + 1 }).nested

lemma kept_bound (h : ∀ run, Kept run (behind body.action run)) (bindings : Scopes) (run : Run) :
    Kept run (behind (bound bindings body).action run) := by
  show Kept run (behind (Sandbox.bound bindings body.action) run)
  rw [behind_bound]
  exact (h { run with scopes := bindings ++ run.scopes }).bound

lemma kept_countTurn (s : Sandbox) (run : Run) : Kept run (behind s.countTurn run) := by
  rw [behind_countTurn]
  exact ⟨rfl, rfl, rfl, List.prefix_rfl, Nat.le_succ _⟩

lemma kept_turn (h : ∀ run, Kept run (behind body.action run)) (bindings : Scopes) (run : Run) :
    Kept run (behind (turn s bindings body).action run) :=
  kept_andThen (kept_countTurn s) (kept_bound (kept_nested h .turn) bindings) run

/-- An inclusion keeps the run if whatever it includes does. -/
lemma kept_inclusion {execute : Program → Recorded}
    (h : ∀ program run, Kept run (behind (execute program).action run)) (path : Text) (run : Run) :
    Kept run (behind (inclusion s (some execute) path).action run) := by
  obtain ⟨-, hbehind, -⟩ | ⟨loader, -, ⟨halt, cache, -, hbehind, -⟩ | ⟨program, cache, -, hbehind, -⟩⟩ :=
    inclusion_cases s execute path run
  · rw [hbehind]
    exact Kept.refl run
  · rw [hbehind]
    exact ⟨rfl, rfl, rfl, List.prefix_rfl, Nat.le_refl _⟩
  · rw [hbehind]
    exact (kept_nested (h program) .plain { run with cache, inclusionDepth := run.inclusionDepth + 1 }).inclusion

/-- Every action of a run leaves as they were the names, the depth and the depth of inclusions. -/
lemma Composed.kept (h : Composed s room record) (run : Run) : Kept run (behind record.action run) := by
  induction h generalizing run with
  | skip => exact Kept.refl run
  | look => exact kept_look s run
  | emit t => exact kept_emit s t run
  | andThen _ _ ih ih' => exact kept_andThen ih ih' run
  | nested _ ih => exact kept_nested ih .plain run
  | turn bindings _ ih => exact kept_turn ih bindings run
  | choice _ ih => exact ih run run
  | tooDeep path =>
    rw [(inclusion_none s path run).1]
    exact Kept.refl run
  | inclusion path _ ih => exact kept_inclusion ih path run

end Recorded

/-! ## The budget at every moment -/

/-- A state whose output, depth and depth of inclusions are within the budget. -/
structure Within (s : Sandbox) (run : Run) : Prop where
  size_eq : run.size = Text.byteLength run.output
  size_le : run.size ≤ s.budget.maxOutputBytes
  depth_le : run.depth ≤ s.budget.maxRecursionDepth
  inclusionDepth_le : run.inclusionDepth ≤ s.budget.maxIncludeDepth

namespace Recorded

variable {s : Sandbox} {room : Nat} {record first second body : Recorded}

/-- Whether a record stays within the budget, where so many inclusions may still lie inside of each other. -/
def Confined (s : Sandbox) (room : Nat) (record : Recorded) : Prop :=
  ∀ run, Within s run → run.inclusionDepth + room ≤ s.budget.maxIncludeDepth →
    (∀ m ∈ record.moments run, Within s m.run) ∧ Within s (behind record.action run)

/-- Text is written only where it fits. -/
lemma confined_emit (s : Sandbox) (room : Nat) (t : Text) : Confined s room (step (s.emit t)) := by
  intro run hrun hroom
  have hafter : Within s (behind (s.emit t) run) := by
    rw [behind_emit]
    split
    · exact hrun
    · refine ⟨?_, ?_, hrun.depth_le, hrun.inclusionDepth_le⟩
      · simp [Run.output, hrun.size_eq, Nat.add_comm]
      · dsimp only
        omega
  refine ⟨fun m hm => ?_, hafter⟩
  rw [List.mem_singleton.1 hm]
  exact hafter

/-- Two parts that stay within the budget do so together, since the first keeps what the second starts from. -/
lemma confined_andThen (h : Confined s room first) (hkept : ∀ run, Kept run (behind first.action run))
    (h' : Confined s room second) : Confined s room (first.andThen second) := by
  intro run hrun hroom
  obtain ⟨hmoments, hbetween⟩ := h run hrun hroom
  rcases andThen_cases first second run with ⟨hbehind, hboth⟩ | ⟨hbehind, hone⟩
  · have hsame := (hkept run).inclusionDepth
    obtain ⟨hlater, hafter⟩ := h' _ hbetween (hsame ▸ hroom)
    rw [hbehind, hboth]
    exact ⟨List.forall_mem_append.2 ⟨hmoments, hlater⟩, hafter⟩
  · rw [hbehind, hone]
    exact ⟨hmoments, hbetween⟩

/-- A body one level deeper stays within the budget: a level too deep is not entered. -/
lemma confined_nested (h : Confined s room body) (mark : Mark) : Confined s room (nested s mark body) := by
  intro run hrun hroom
  have hbehind := behind_nested s body.action run
  rw [nested]
  dsimp only
  split
  · rename_i hdeep
    rw [hbehind, if_pos hdeep]
    exact ⟨fun m hm => absurd hm List.not_mem_nil, hrun⟩
  · rename_i hdeep
    have hinside : Within s { run with depth := run.depth + 1 } :=
      ⟨hrun.size_eq, hrun.size_le, by dsimp only; omega, hrun.inclusionDepth_le⟩
    obtain ⟨hmoments, hafter⟩ := h _ hinside hroom
    have hleft : Within s (behind (s.nested body.action) run) := by
      rw [hbehind, if_neg hdeep]
      exact ⟨hafter.size_eq, hafter.size_le, by have := hafter.depth_le; dsimp only; omega, hafter.inclusionDepth_le⟩
    exact ⟨List.forall_mem_append.2
      ⟨List.forall_mem_cons.2 ⟨hinside, hmoments⟩, List.forall_mem_singleton.2 hleft⟩, hleft⟩

/-- Bindings cost nothing. -/
lemma confined_bound (h : Confined s room body) (bindings : Scopes) : Confined s room (bound bindings body) := by
  intro run hrun hroom
  have hinside : Within s { run with scopes := bindings ++ run.scopes } :=
    ⟨hrun.size_eq, hrun.size_le, hrun.depth_le, hrun.inclusionDepth_le⟩
  obtain ⟨hmoments, hafter⟩ := h _ hinside hroom
  have hleft : Within s (behind (Sandbox.bound bindings body.action) run) := by
    rw [behind_bound]
    exact ⟨hafter.size_eq, hafter.size_le, hafter.depth_le, hafter.inclusionDepth_le⟩
  exact ⟨List.forall_mem_append.2
    ⟨List.forall_mem_cons.2 ⟨hinside, hmoments⟩, List.forall_mem_singleton.2 hleft⟩, hleft⟩

lemma confined_countTurn (s : Sandbox) (room : Nat) : Confined s room (step s.countTurn) := by
  intro run hrun _
  have hafter : Within s (behind s.countTurn run) := by
    rw [behind_countTurn]
    exact ⟨hrun.size_eq, hrun.size_le, hrun.depth_le, hrun.inclusionDepth_le⟩
  exact ⟨List.forall_mem_singleton.2 hafter, hafter⟩

lemma confined_turn (h : Confined s room body) (bindings : Scopes) : Confined s room (turn s bindings body) :=
  confined_andThen (confined_countTurn s room) (kept_countTurn s)
    (confined_bound (confined_nested h .turn) bindings)

/-- Inside of an inclusion there is room for one less. -/
lemma confined_inclusion {execute : Program → Recorded} (h : ∀ program, Confined s room (execute program))
    (path : Text) : Confined s (room + 1) (inclusion s (some execute) path) := by
  intro run hrun hroom
  obtain ⟨-, hbehind, hnone⟩ | ⟨loader, -, ⟨halt, cache, -, hbehind, hrefused⟩ | ⟨program, cache, -, hbehind, hrun'⟩⟩ :=
    inclusion_cases s execute path run
  · rw [hbehind, hnone]
    exact ⟨fun m hm => absurd hm List.not_mem_nil, hrun⟩
  · have hlearnt : Within s { run with cache } := ⟨hrun.size_eq, hrun.size_le, hrun.depth_le, hrun.inclusionDepth_le⟩
    rw [hbehind, hrefused]
    exact ⟨List.forall_mem_cons.2 ⟨hrun, List.forall_mem_singleton.2 hlearnt⟩, hlearnt⟩
  · have hloaded : Within s { run with cache, inclusionDepth := run.inclusionDepth + 1 } :=
      ⟨hrun.size_eq, hrun.size_le, hrun.depth_le, by dsimp only; omega⟩
    obtain ⟨hmoments, hafter⟩ := confined_nested (h program) .plain _ hloaded (by dsimp only; omega)
    have hleft : Within s (behind (inclusion s (some execute) path).action run) := by
      rw [hbehind]
      exact ⟨hafter.size_eq, hafter.size_le, hafter.depth_le, Nat.le_trans (Nat.sub_le _ 1) hafter.inclusionDepth_le⟩
    refine ⟨?_, hleft⟩
    rw [hrun', ← hbehind]
    exact List.forall_mem_append.2
      ⟨List.forall_mem_cons.2 ⟨hrun, List.forall_mem_cons.2 ⟨hloaded, hmoments⟩⟩, List.forall_mem_singleton.2 hleft⟩

/-- Every moment of a run is within the budget. -/
lemma Composed.confined (h : Composed s room record) : Confined s room record := by
  induction h with
  | skip => exact fun run hrun _ => ⟨fun m hm => absurd hm List.not_mem_nil, hrun⟩
  | look =>
    intro run hrun _
    have hafter : Within s (behind s.look run) := by
      rw [behind_look]
      exact ⟨hrun.size_eq, hrun.size_le, hrun.depth_le, hrun.inclusionDepth_le⟩
    exact ⟨List.forall_mem_singleton.2 hafter, hafter⟩
  | emit t => exact confined_emit s _ t
  | andThen hfirst _ ih ih' => exact confined_andThen ih hfirst.kept ih'
  | nested _ ih => exact confined_nested ih .plain
  | turn bindings _ ih => exact confined_turn ih bindings
  | choice _ ih => exact fun run => ih run run
  | tooDeep path =>
    intro run hrun _
    obtain ⟨hbehind, hnone⟩ := inclusion_none s path run
    rw [hbehind, hnone]
    exact ⟨fun m hm => absurd hm List.not_mem_nil, hrun⟩
  | inclusion path _ ih => exact confined_inclusion ih path

end Recorded

/-! ## The turns of all loops -/

/-- How often some moments enter the body of a loop. -/
def turnsEntered (moments : List Moment) : Nat := moments.countP fun m => m.mark = .turn

@[simp] lemma turnsEntered_nil : turnsEntered [] = 0 := rfl

@[simp] lemma turnsEntered_append (moments later : List Moment) :
    turnsEntered (moments ++ later) = turnsEntered moments + turnsEntered later := List.countP_append

@[simp] lemma turnsEntered_turn (run : Run) (moments : List Moment) :
    turnsEntered (⟨.turn, run⟩ :: moments) = turnsEntered moments + 1 := by
  simp [turnsEntered]

@[simp] lemma turnsEntered_plain (run : Run) (moments : List Moment) :
    turnsEntered (⟨.plain, run⟩ :: moments) = turnsEntered moments := by
  simp [turnsEntered]

@[simp] lemma turnsEntered_inclusion (path : Text) (run : Run) (moments : List Moment) :
    turnsEntered (⟨.inclusion path, run⟩ :: moments) = turnsEntered moments := by
  simp [turnsEntered]

namespace Recorded

variable {s : Sandbox} {room : Nat} {record first second body : Recorded}

/-- Whether a record enters no more turns than it counts, and no more than are left. -/
def Counted (s : Sandbox) (record : Recorded) : Prop :=
  ∀ run, run.turns + turnsEntered (record.moments run) ≤ (behind record.action run).turns ∧
    run.turns + turnsEntered (record.moments run) ≤ max run.turns s.budget.maxTotalIterations

/-- The counters of two parts are right if those of each are. -/
lemma counted_andThen (h : Counted s first) (h' : Counted s second) : Counted s (first.andThen second) := by
  intro run
  obtain ⟨hbetween, hleft⟩ := h run
  rcases andThen_cases first second run with ⟨hbehind, hboth⟩ | ⟨hbehind, hone⟩
  · obtain ⟨hafter, hleft'⟩ := h' (behind first.action run)
    rw [hbehind, hboth, turnsEntered_append]
    refine ⟨by omega, ?_⟩
    -- what the second action enters is counted from the turns behind the first
    rcases Nat.le_total (behind first.action run).turns s.budget.maxTotalIterations with hle | hle
    · rw [Nat.max_eq_right hle] at hleft'
      omega
    · rw [Nat.max_eq_left hle] at hleft'
      omega
  · rw [hbehind, hone]
    exact ⟨hbetween, hleft⟩

/-- A body that is entered in a turn counts one more than what it enters itself. -/
lemma turnsEntered_nested (h : Counted s body) (mark : Mark) (run : Run) :
    run.turns + turnsEntered ((nested s mark body).moments run) ≤
        (behind (nested s mark body).action run).turns + turnsEntered [⟨mark, run⟩] ∧
      run.turns + turnsEntered ((nested s mark body).moments run) ≤
        max run.turns s.budget.maxTotalIterations + turnsEntered [⟨mark, run⟩] := by
  have hbehind : behind (nested s mark body).action run = _ := behind_nested s body.action run
  rw [hbehind, nested]
  dsimp only
  split
  · rw [turnsEntered_nil]
    omega
  · obtain ⟨hinside, hleft⟩ := h { run with depth := run.depth + 1 }
    have hmark : turnsEntered [⟨mark, { run with depth := run.depth + 1 }⟩] = turnsEntered [⟨mark, run⟩] := by
      simp [turnsEntered]
    rw [turnsEntered_append, turnsEntered_plain, turnsEntered_nil, ← List.singleton_append, turnsEntered_append, hmark]
    dsimp only at hinside hleft ⊢
    omega

lemma counted_nested (h : Counted s body) : Counted s (nested s .plain body) := fun run =>
  turnsEntered_nested h .plain run

/-- A turn counts itself once, in front of the turns of its body. -/
lemma counted_turn (h : Counted s body) (bindings : Scopes) : Counted s (turn s bindings body) := by
  intro run
  by_cases hmany : s.budget.maxTotalIterations < run.turns + 1
  · -- the turn is counted, and not entered
    have hcount : (step s.countTurn).action run = .error .iterationsExceeded { run with turns := run.turns + 1 } := by
      show s.countTurn run = _
      rw [countTurn, if_pos hmany]
    obtain ⟨haction, hmoments⟩ := andThen_of_error (bound bindings (nested s .turn body)) hcount
    rw [turn, behind, haction, hmoments, step, turnsEntered_plain, turnsEntered_nil]
    dsimp only
    omega
  · -- the turn is entered, and counted once beside what its body counts
    have hcount : (step s.countTurn).action run = .ok () { run with turns := run.turns + 1 } := by
      show s.countTurn run = _
      rw [countTurn, if_neg hmany]
    obtain ⟨haction, hmoments⟩ := andThen_of_ok (bound bindings (nested s .turn body)) hcount
    obtain ⟨hinside, hleft⟩ := turnsEntered_nested h .turn
      { run with turns := run.turns + 1, scopes := bindings ++ run.scopes }
    have hbehind : behind (turn s bindings body).action run =
        behind (Sandbox.bound bindings (nested s .turn body).action) { run with turns := run.turns + 1 } := by
      rw [turn, behind, haction]
      rfl
    rw [hbehind, behind_bound, turn, hmoments, step, bound, turnsEntered_append, turnsEntered_append,
      turnsEntered_plain, turnsEntered_plain, turnsEntered_plain, turnsEntered_nil]
    rw [turnsEntered_turn, turnsEntered_nil] at hinside hleft
    dsimp only at hinside hleft ⊢
    omega

/-- An inclusion counts the turns of what it includes. -/
lemma counted_inclusion {execute : Program → Recorded} (h : ∀ program, Counted s (execute program)) (path : Text) :
    Counted s (inclusion s (some execute) path) := by
  intro run
  obtain ⟨-, hbehind, hnone⟩ | ⟨loader, -, ⟨halt, cache, -, hbehind, hrefused⟩ | ⟨program, cache, -, hbehind, hrun⟩⟩ :=
    inclusion_cases s execute path run
  · rw [hbehind, hnone, turnsEntered_nil]
    omega
  · rw [hbehind, hrefused, turnsEntered_inclusion, turnsEntered_plain, turnsEntered_nil]
    dsimp only
    omega
  · have hinside := counted_nested (h program) { run with cache, inclusionDepth := run.inclusionDepth + 1 }
    rw [hbehind, hrun, turnsEntered_append, turnsEntered_inclusion, turnsEntered_plain, turnsEntered_plain,
      turnsEntered_nil]
    exact hinside

/-- Loops are entered no more often than their turns are counted, and the budget allows. -/
lemma Composed.counted (h : Composed s room record) : Counted s record := by
  -- by induction on how the action is composed; only turns are counted, and inclusions by what is in them
  induction h with
  | skip => exact fun run => ⟨Nat.le_refl _, Nat.le_max_left _ _⟩
  | look =>
    intro run
    show run.turns + turnsEntered [⟨.plain, _⟩] ≤ (behind s.look run).turns ∧ run.turns + turnsEntered [⟨.plain, _⟩] ≤ _
    rw [behind_look, turnsEntered_plain, turnsEntered_nil]
    exact ⟨Nat.le_refl _, Nat.le_max_left _ _⟩
  | emit t =>
    intro run
    have hkept := (kept_emit s t run).turns
    show run.turns + turnsEntered [⟨.plain, _⟩] ≤ (behind (s.emit t) run).turns ∧
      run.turns + turnsEntered [⟨.plain, _⟩] ≤ _
    rw [turnsEntered_plain, turnsEntered_nil]
    exact ⟨hkept, Nat.le_max_left _ _⟩
  | andThen _ _ ih ih' => exact counted_andThen ih ih'
  | nested _ ih => exact counted_nested ih
  | turn bindings _ ih => exact counted_turn ih bindings
  | choice _ ih => exact fun run => ih run run
  | tooDeep path =>
    intro run
    obtain ⟨hbehind, hnone⟩ := inclusion_none s path run
    rw [hbehind, hnone]
    exact ⟨Nat.le_refl _, Nat.le_max_left _ _⟩
  | inclusion path _ ih => exact counted_inclusion ih path

/-! ## The turns of one loop -/

/-- Two parts enter as many turns as they may together. -/
lemma turnsEntered_andThen_le {m n : Nat} (h : ∀ run, turnsEntered (first.moments run) ≤ m)
    (h' : ∀ run, turnsEntered (second.moments run) ≤ n) (run : Run) :
    turnsEntered ((first.andThen second).moments run) ≤ m + n := by
  have hfirst := h run
  rcases andThen_cases first second run with ⟨-, hboth⟩ | ⟨-, hone⟩
  · have hsecond := h' (behind first.action run)
    rw [hboth, turnsEntered_append]
    omega
  · rw [hone]
    omega

lemma turnsEntered_step (action : Action) (run : Run) : turnsEntered ((step action).moments run) = 0 := by
  rw [step, turnsEntered_plain, turnsEntered_nil]

/-- If what goes on in the body is left out, a turn of a loop enters it once at most. -/
lemma turnsEntered_turn_unrecorded_le (s : Sandbox) (bindings : Scopes) (body : Action) (run : Run) :
    turnsEntered ((turn s bindings (unrecorded body)).moments run) ≤ 1 := by
  rw [← Nat.zero_add 1]
  refine turnsEntered_andThen_le (fun run => Nat.le_of_eq (turnsEntered_step _ run)) (fun run => ?_) run
  rw [bound, turnsEntered_append, turnsEntered_plain, turnsEntered_plain, turnsEntered_nil, nested]
  dsimp only
  split
  · exact Nat.zero_le 1
  · simp only [turnsEntered_append, turnsEntered_turn, turnsEntered_plain, turnsEntered_nil, unrecorded]
    exact Nat.le_refl 1

/-- If the turns inside of the bodies are left out, a loop enters no more turns than it has items. -/
lemma turnsEntered_turnsFor_unrecorded_le (s : Sandbox) (name : Text) (shown number : Nat) (body : Action)
    (items : List Value) (run : Run) :
    turnsEntered ((turnsFor s name shown (unrecorded body) number items).moments run) ≤ items.length := by
  induction items generalizing number run with
  | nil => exact Nat.le_refl 0
  | cons item rest ih =>
    have hlook := fun run => Nat.le_of_eq (turnsEntered_step s.look run)
    have hentered := turnsEntered_turn_unrecorded_le s [(turnName, turnInfo number shown), (name, item)] body
    have hturn := turnsEntered_andThen_le hlook (turnsEntered_andThen_le hentered (ih (number + 1))) run
    rw [turnsFor, List.length_cons]
    omega

/-- A single loop enters its body no more often than the budget allows for one. -/
lemma turnsEntered_loop_unrecorded_le (s : Sandbox) (name : Text) (collection : Path) (body : Action) (run : Run) :
    turnsEntered ((loop s name collection (unrecorded body)).moments run) ≤ s.budget.maxLoopIterations := by
  rw [loop, choice]
  dsimp only
  split
  · exact Nat.le_trans (turnsEntered_turnsFor_unrecorded_le s name _ 1 body _ run) (List.length_take_le _ _)
  · exact Nat.zero_le _

end Recorded

/-! ## Runs -/

open Recorded

lemma within_start (s : Sandbox) (cache : InclusionCache) : Within s (Run.start cache) :=
  ⟨rfl, Nat.zero_le _, Nat.zero_le _, Nat.zero_le _⟩

/-- The history of a run, which ends where the run does, stays within the budget at every moment: the output, the depth,
and the depth of inclusions. Loops are entered no more often than the budget allows for all, and each of them no more
often than it allows for one. Whatever node comes up in whatever state, and however it ends, the names, the depth and
the depth of inclusions are then as they were, the output has only been added to, and no turn has been taken back. -/
theorem history_within_budget (s : Sandbox) (cache : InclusionCache) (program : Program) :
    (s.history cache program).getLast?.map Moment.run =
        some (behind (s.execute s.budget.maxIncludeDepth program) (Run.start cache)) ∧
      (∀ m ∈ s.history cache program, Within s m.run) ∧
      turnsEntered (s.history cache program) ≤ s.budget.maxTotalIterations ∧
      (∀ name collection body,
        (Recorded.loop s name collection (.unrecorded body)).action = s.loop name collection body ∧
          ∀ run, turnsEntered ((Recorded.loop s name collection (.unrecorded body)).moments run) ≤
            s.budget.maxLoopIterations) ∧
      ∀ room node run, Kept run (behind (Sandbox.nodes.ofNode s (s.inclusionWithin room) node) run) := by
  have hrun := composed_execute s s.budget.maxIncludeDepth program
  refine ⟨?_, ?_, ?_, fun name collection body => ?_, fun room node run => ?_⟩
  · have hlast := hrun.last_moments (Run.start cache)
    rw [action_execute] at hlast
    rw [history, map_run_getLast?_cons, hlast]
  · obtain ⟨hmoments, -⟩ := hrun.confined (Run.start cache) (within_start s cache) (Nat.le_of_eq (Nat.zero_add _))
    exact List.forall_mem_cons.2 ⟨within_start s cache, hmoments⟩
  · obtain ⟨-, hcount⟩ := hrun.counted (Run.start cache)
    rw [history, turnsEntered_plain]
    rwa [Run.start, Nat.zero_add, Nat.zero_max] at hcount
  · exact ⟨action_loop s name collection (.unrecorded body), turnsEntered_loop_unrecorded_le s name collection body⟩
  · have hnode := (composed_ofNode (composed_files s room) node).kept run
    rwa [action_ofNode, action_files] at hnode

end Stencil.Sandbox
