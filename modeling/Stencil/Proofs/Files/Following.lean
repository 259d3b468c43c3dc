import Mathlib.Data.List.Basic
import Stencil.Files.Tree

/-!
# Where paths lead

What a walk through a tree of files can end at, whatever links it meets on the way. A walk takes one step after the
other, and there are six things that it can meet at a step (`Tree.FirstStep`).

* `Tree.Reached`: the place that a walk ends at lies behind directories only and is no link itself
  (`reached_of_follow`). So a location with all links followed is free of links.
* `Tree.Straight`: steps that meet no link. A walk along them stays on them (`walk_straight`).
* How many links may be followed decides only whether a walk ends at all: with more of them it ends in the same place
  (`follow_mono`).
-/

namespace Stencil.Files

open Fault

/-! ## Names -/

lemma isName_iff {name : Text} : isName name = true ↔ staysPut name = false ∧ goesUp name = false ∧ '/' ∉ name := by
  simp [isName, and_assoc]

/-- The steps of a path hold no slash. -/
lemma slash_not_mem_of_mem_steps {path step : Text} (h : step ∈ steps path) : '/' ∉ step := by
  intro hmem
  have := Text.not_separator_of_mem_split h '/' hmem
  exact absurd this (by decide)

namespace Location.Proper

lemma nil : Location.Proper [] := fun _ h => absurd h List.not_mem_nil

lemma slash_not_mem {l : Location} (h : Location.Proper l) : ∀ name ∈ l, '/' ∉ name :=
  fun name hname => (isName_iff.1 (h name hname)).2.2

lemma append {l l' : Location} (h : l.Proper) (h' : Location.Proper l') : Location.Proper (l ++ l') := by
  intro name hname
  rcases List.mem_append.1 hname with hname | hname
  · exact h name hname
  · exact h' name hname

lemma of_subset {l l' : Location} (h : Location.Proper l) (hsub : ∀ name ∈ l', name ∈ l) : Location.Proper l' :=
  fun name hname => h name (hsub name hname)

lemma dropLast {l : Location} (h : Location.Proper l) : Location.Proper l.dropLast :=
  h.of_subset fun _ hname => List.dropLast_subset l hname

lemma concat {l : Location} {name : Text} (h : Location.Proper l) (hname : isName name = true) :
    Location.Proper (l ++ [name]) :=
  h.append fun n hn => by rwa [List.mem_singleton.1 hn]

end Location.Proper

namespace Tree

variable {tree : Tree}

/-! ## The first step of a walk -/

/-- A step that leads into a directory: it neither stays nor goes up, and it is not too long for a name. -/
structure Enters (step : Text) : Prop where
  moves : staysPut step = false
  down : goesUp step = false
  short : ¬ maxName < Text.byteLength step

/-- What a walk meets at its first step. -/
inductive FirstStep (tree : Tree) (here : Location) (step : Text) : Prop where
  | stays (h : staysPut step = true)
  | up (moves : staysPut step = false) (h : goesUp step = true)
  | tooLong (moves : staysPut step = false) (down : goesUp step = false) (h : maxName < Text.byteLength step)
  | directory (enters : Enters step) (h : tree.get? (here ++ [step]) = some .directory)
  | link (enters : Enters step) (target : Text) (h : tree.get? (here ++ [step]) = some (.link target))
  | other (enters : Enters step) (e : Option Entry) (h : tree.get? (here ++ [step]) = e)
      (noDirectory : e ≠ some .directory) (noLink : ∀ target, e ≠ some (.link target))

/-- Every step either stays put, goes up, is too long, or enters a directory, a link or something else. -/
lemma firstStep (tree : Tree) (here : Location) (step : Text) : tree.FirstStep here step := by
  by_cases hstays : staysPut step = true
  · exact .stays hstays
  have moves : staysPut step = false := by simpa using hstays
  by_cases hup : goesUp step = true
  · exact .up moves hup
  have down : goesUp step = false := by simpa using hup
  by_cases hlong : maxName < Text.byteLength step
  · exact .tooLong moves down hlong
  cases h : tree.get? (here ++ [step]) with
  | none => exact .other ⟨moves, down, hlong⟩ none h (by simp) (by simp)
  | some e =>
    cases e with
    | directory => exact .directory ⟨moves, down, hlong⟩ h
    | link target => exact .link ⟨moves, down, hlong⟩ target h
    | file content => exact .other ⟨moves, down, hlong⟩ (some (.file content)) h (by simp) (by simp)

lemma isName_of_enters {step : Text} (h : Enters step) (hslash : '/' ∉ step) : isName step = true :=
  isName_iff.2 ⟨h.moves, h.down, hslash⟩

section

variable {jump : Location → List Text → Except ReadFailure (Location × Option Entry)} {here : Location} {step : Text}
  {rest : List Text}

lemma walk_stays (h : staysPut step = true) : tree.walk jump here (step :: rest) = tree.walk jump here rest := by
  rw [walk, if_pos h]

lemma walk_up (moves : staysPut step = false) (h : goesUp step = true) :
    tree.walk jump here (step :: rest) = tree.walk jump here.dropLast rest := by
  rw [walk, moves, h]
  rfl

lemma walk_tooLong (moves : staysPut step = false) (down : goesUp step = false)
    (h : maxName < Text.byteLength step) : tree.walk jump here (step :: rest) = .error .invalidName := by
  rw [walk, moves, down, if_neg Bool.false_ne_true, if_neg Bool.false_ne_true, if_pos h]

lemma walk_directory (enters : Enters step) (h : tree.get? (here ++ [step]) = some .directory) :
    tree.walk jump here (step :: rest) = tree.walk jump (here ++ [step]) rest := by
  rw [walk, enters.moves, enters.down, if_neg Bool.false_ne_true, if_neg Bool.false_ne_true, if_neg enters.short, h]

lemma walk_link (enters : Enters step) {target : Text} (h : tree.get? (here ++ [step]) = some (.link target)) :
    tree.walk jump here (step :: rest) = jump (start here target) (steps target ++ rest) := by
  rw [walk, enters.moves, enters.down, if_neg Bool.false_ne_true, if_neg Bool.false_ne_true, if_neg enters.short, h]

/-- How a walk ends at a place where there is a file or nothing: well only if no steps are left. -/
def stopped (place : Location) (rest : List Text) (e : Option Entry) : Except ReadFailure (Location × Option Entry) :=
  if rest.isEmpty then .ok (place, e) else .error (if e.isSome then .notDirectory else .notFound)

/-- A step onto anything else ends the walk there. -/
lemma walk_other (enters : Enters step) {e : Option Entry} (h : tree.get? (here ++ [step]) = e)
    (noDirectory : e ≠ some .directory) (noLink : ∀ target, e ≠ some (.link target)) :
    tree.walk jump here (step :: rest) = stopped (here ++ [step]) rest e := by
  rw [walk, enters.moves, enters.down, if_neg Bool.false_ne_true, if_neg Bool.false_ne_true, if_neg enters.short, h,
    stopped]
  cases e with
  | none => rfl
  | some e =>
    cases e with
    | directory => exact absurd rfl noDirectory
    | link target => exact absurd rfl (noLink target)
    | file content => rfl

/-- A walk that stops gives a place only if nothing is left of the path. -/
lemma stopped_eq_ok {place place' : Location} {e e' : Option Entry} (h : stopped place rest e = .ok (place', e')) :
    rest = [] ∧ place' = place ∧ e' = e := by
  unfold stopped at h
  split at h
  · rename_i hempty
    obtain ⟨rfl, rfl⟩ := Prod.mk.inj (Except.ok.inj h)
    exact ⟨List.isEmpty_iff.1 hempty, rfl, rfl⟩
  · simp at h

end

/-! ## What a walk ends at -/

/-- Every location on the way from the root to this one, itself included, is a directory, and has a proper name that is
short enough. -/
structure Grounded (tree : Tree) (l : Location) : Prop where
  directories : ∀ q, q <+: l → tree.get? q = some .directory
  proper : l.Proper
  short : ∀ name ∈ l, ¬ maxName < Text.byteLength name

/-- A walk may end here: directories lie around the place, and what stands there, if anything, is no link. -/
structure Reached (tree : Tree) (place : Location) (e : Option Entry) : Prop where
  around : ∀ q, q <+: place → q ≠ place → tree.get? q = some .directory
  standing : tree.get? place = e
  noLink : ∀ target, e ≠ some (.link target)
  proper : place.Proper
  short : ∀ name ∈ place, ¬ maxName < Text.byteLength name

lemma Grounded.nil : tree.Grounded [] where
  directories := by
    intro q hq
    rw [List.prefix_nil.1 hq]
    rfl
  proper := Location.Proper.nil
  short := fun _ h => absurd h List.not_mem_nil

/-- A location above a grounded one is grounded. -/
lemma Grounded.of_prefix {l q : Location} (h : tree.Grounded l) (hq : q <+: l) : tree.Grounded q where
  directories q' hq' := h.directories q' (hq'.trans hq)
  proper := h.proper.of_subset fun _ hname => hq.subset hname
  short name hname := h.short name (hq.subset hname)

lemma Grounded.dropLast {l : Location} (h : tree.Grounded l) : tree.Grounded l.dropLast :=
  h.of_prefix (List.dropLast_prefix l)

/-- A directory in a grounded location is grounded. -/
lemma Grounded.concat {l : Location} {name : Text} (h : tree.Grounded l) (enters : Enters name) (hslash : '/' ∉ name)
    (hentry : tree.get? (l ++ [name]) = some .directory) : tree.Grounded (l ++ [name]) where
  directories q hq := by
    rcases List.prefix_concat_iff.1 hq with rfl | hq
    · exact hentry
    · exact h.directories q hq
  proper := h.proper.concat (isName_of_enters enters hslash)
  short := List.forall_mem_append.2 ⟨h.short, List.forall_mem_singleton.2 enters.short⟩

lemma Grounded.enters {l : Location} {name : Text} (h : tree.Grounded l) (hname : name ∈ l) : Enters name := by
  obtain ⟨moves, down, -⟩ := isName_iff.1 (h.proper name hname)
  exact ⟨moves, down, h.short name hname⟩

/-- A grounded location is a place that a walk can reach, and a directory. -/
lemma Grounded.reached {l : Location} (h : tree.Grounded l) : tree.Reached l (some .directory) where
  around q hq _ := h.directories q hq
  standing := h.directories l List.prefix_rfl
  noLink _ := by simp
  proper := h.proper
  short := h.short

/-- What stands in a grounded location and is no link is a place that a walk can reach. -/
lemma Grounded.reached_concat {l : Location} {name : Text} {e : Option Entry} (h : tree.Grounded l)
    (enters : Enters name) (hslash : '/' ∉ name) (hentry : tree.get? (l ++ [name]) = e)
    (hlink : ∀ target, e ≠ some (.link target)) : tree.Reached (l ++ [name]) e where
  around q hq hne := by
    rcases List.prefix_concat_iff.1 hq with rfl | hq
    · exact absurd rfl hne
    · exact h.directories q hq
  standing := hentry
  noLink := hlink
  proper := h.proper.concat (isName_of_enters enters hslash)
  short := List.forall_mem_append.2 ⟨h.short, List.forall_mem_singleton.2 enters.short⟩

/-- A place with a directory has directories all the way. -/
lemma Reached.grounded {place : Location} (h : tree.Reached place (some .directory)) : tree.Grounded place where
  directories q hq := by
    by_cases hne : q = place
    · rw [hne, h.standing]
    · exact h.around q hq hne
  proper := h.proper
  short := h.short

/-- A walk from a grounded place ends at a reached one, if what it does at links has this property. -/
lemma reached_of_walk {jump : Location → List Text → Except ReadFailure (Location × Option Entry)}
    (hjump : ∀ here rest place e, tree.Grounded here → (∀ step ∈ rest, '/' ∉ step) →
      jump here rest = .ok (place, e) → tree.Reached place e)
    {here place : Location} {rest : List Text} {e : Option Entry} (hhere : tree.Grounded here)
    (hrest : ∀ step ∈ rest, '/' ∉ step) (h : tree.walk jump here rest = .ok (place, e)) : tree.Reached place e := by
  induction rest generalizing here with
  | nil =>
    obtain ⟨rfl, rfl⟩ := Prod.mk.inj (Except.ok.inj h)
    exact hhere.reached
  | cons step rest ih =>
    have hstep := hrest step List.mem_cons_self
    have hlater := fun s hs => hrest s (List.mem_cons_of_mem _ hs)
    cases tree.firstStep here step with
    | stays hstays =>
      rw [walk_stays hstays] at h
      exact ih hhere hlater h
    | up moves hup =>
      rw [walk_up moves hup] at h
      exact ih hhere.dropLast hlater h
    | tooLong moves down hlong =>
      rw [walk_tooLong moves down hlong] at h
      simp at h
    | directory enters hget =>
      rw [walk_directory enters hget] at h
      exact ih (hhere.concat enters hstep hget) hlater h
    | link enters target hget =>
      -- the steps of the target take the place of the step
      rw [walk_link enters hget] at h
      refine hjump _ _ _ _ ?_ ?_ h
      · unfold start
        split
        · exact .nil
        · exact hhere
      · intro s hs
        rcases List.mem_append.1 hs with hs | hs
        · exact slash_not_mem_of_mem_steps hs
        · exact hlater s hs
    | other enters e' hget noDirectory noLink =>
      rw [walk_other enters hget noDirectory noLink] at h
      obtain ⟨-, rfl, rfl⟩ := stopped_eq_ok h
      exact hhere.reached_concat enters hstep hget noLink

/-- However many links are followed, a walk ends behind directories only, and not at a link. -/
theorem reached_of_follow {links : Nat} {here place : Location} {rest : List Text} {e : Option Entry}
    (hhere : tree.Grounded here) (hrest : ∀ step ∈ rest, '/' ∉ step)
    (h : tree.follow links here rest = .ok (place, e)) : tree.Reached place e := by
  induction links generalizing here rest place e with
  | zero => exact reached_of_walk (by simp) hhere hrest h
  | succ links ih => exact reached_of_walk (fun _ _ _ _ hh hr h => ih hh hr h) hhere hrest h

/-! ## Steps that meet no link -/

/-- Steps from a place on that meet no link as far as they lead. -/
def Straight (tree : Tree) : Location → List Text → Prop
  | _, [] => True
  | here, name :: rest =>
    if maxName < Text.byteLength name then True
    else match tree.get? (here ++ [name]) with
      | some .directory => Straight tree (here ++ [name]) rest
      | some (.link _) => False
      | some (.file _) => True
      | none => True

/-- A straight path stays straight behind its first directory. -/
lemma Straight.of_directory {here : Location} {name : Text} {rest : List Text}
    (h : tree.Straight here (name :: rest)) (enters : Enters name)
    (hget : tree.get? (here ++ [name]) = some .directory) : tree.Straight (here ++ [name]) rest := by
  rwa [Straight, if_neg enters.short, hget] at h

/-- The first step of a straight path is not onto a link. -/
lemma Straight.not_link {here : Location} {name target : Text} {rest : List Text}
    (h : tree.Straight here (name :: rest)) (hshort : ¬ maxName < Text.byteLength name) :
    tree.get? (here ++ [name]) ≠ some (.link target) := by
  intro hget
  rwa [Straight, if_neg hshort, hget] at h

/-- Directories on the way meet no link. -/
lemma straight_append {here l : Location} {rest : List Text}
    (hl : ∀ q, q <+: l → q ≠ [] → tree.get? (here ++ q) = some .directory) (h : tree.Straight (here ++ l) rest) :
    tree.Straight here (l ++ rest) := by
  induction l generalizing here with
  | nil => rwa [List.append_nil] at h
  | cons name l ih =>
    rw [List.cons_append, Straight]
    split
    · trivial
    · rw [hl [name] (by simp) (by simp)]
      refine ih (fun q hq hne => ?_) (by rwa [List.append_assoc])
      rw [List.append_assoc]
      exact hl ([name] ++ q) (by simpa using hq) (by simp)

/-- A place that a walk ends at is straight, and what is straight behind a directory leads straight on from it. -/
lemma Reached.straight_append {place rest : Location} {e : Option Entry} (h : tree.Reached place e)
    (hrest : e = some .directory → tree.Straight place rest) : tree.Straight [] (place ++ rest) := by
  by_cases hdirectory : e = some .directory
  · subst hdirectory
    exact Tree.straight_append (fun q hq _ => h.grounded.directories q hq) (hrest rfl)
  · -- what is no directory has a name, and directories around it
    obtain rfl | ⟨parent, name, rfl⟩ := List.eq_nil_or_concat' place
    · exact absurd h.standing.symm hdirectory
    · rw [List.append_assoc]
      refine Tree.straight_append (fun q hq _ => h.around q (hq.trans (List.prefix_append _ _)) ?_) ?_
      · rintro rfl
        have hle := hq.length_le
        rw [List.length_append, List.length_singleton] at hle
        omega
      · rw [List.nil_append, List.cons_append, Straight, h.standing]
        split
        · trivial
        · split
          · exact absurd rfl hdirectory
          · rename_i target
            exact absurd rfl (h.noLink target)
          · trivial
          · trivial

lemma Reached.straight {place : Location} {e : Option Entry} (h : tree.Reached place e) :
    tree.Straight [] place := by
  have hself : tree.Straight [] (place ++ []) := h.straight_append fun _ => trivial
  rwa [List.append_nil] at hself

/-- The steps of a proper location stay nowhere and go up nowhere, so a walk along them that meets no link passes
directories only, and may end at what is none. -/
lemma walk_straight_cons {jump : Location → List Text → Except ReadFailure (Location × Option Entry)}
    {here place : Location} {name : Text} {l rest : List Text} {e : Option Entry} (hname : isName name = true)
    (hstraight : tree.Straight here (name :: rest)) (h : tree.walk jump here (name :: l) = .ok (place, e)) :
    Enters name ∧ tree.get? (here ++ [name]) = some .directory ∧ tree.walk jump (here ++ [name]) l = .ok (place, e) ∨
      l = [] ∧ place = here ++ [name] ∧ e ≠ some .directory := by
  obtain ⟨hmoves, hdown, -⟩ := isName_iff.1 hname
  cases tree.firstStep here name with
  | stays hstays =>
    rw [hmoves] at hstays
    simp at hstays
  | up _ hup =>
    rw [hdown] at hup
    simp at hup
  | tooLong moves down hlong =>
    rw [walk_tooLong moves down hlong] at h
    simp at h
  | directory enters hget =>
    rw [walk_directory enters hget] at h
    exact .inl ⟨enters, hget, h⟩
  | link enters target hget => exact absurd hget (hstraight.not_link enters.short)
  | other enters e' hget noDirectory noLink =>
    rw [walk_other enters hget noDirectory noLink] at h
    obtain ⟨hempty, hplace, rfl⟩ := stopped_eq_ok h
    exact .inr ⟨hempty, hplace, noDirectory⟩

/-- A walk along straight steps ends where they lead. -/
theorem walk_straight {jump : Location → List Text → Except ReadFailure (Location × Option Entry)}
    {here place : Location} {l : Location} {e : Option Entry} (hl : l.Proper) (hstraight : tree.Straight here l)
    (h : tree.walk jump here l = .ok (place, e)) : place = here ++ l := by
  induction l generalizing here with
  | nil =>
    obtain ⟨rfl, -⟩ := Prod.mk.inj (Except.ok.inj h)
    rw [List.append_nil]
  | cons name l ih =>
    have hlater : Location.Proper l := hl.of_subset fun _ => List.mem_cons_of_mem _
    obtain ⟨enters, hget, hrest⟩ | ⟨rfl, hplace, -⟩ := walk_straight_cons (hl name List.mem_cons_self) hstraight h
    · rw [ih hlater (hstraight.of_directory enters hget) hrest, List.append_assoc]
      rfl
    · exact hplace

/-- Behind a directory in the middle of straight steps stands no link under the next name of them. -/
lemma noLink_of_walk_straight {jump : Location → List Text → Except ReadFailure (Location × Option Entry)}
    {here place : Location} {l rest : List Text} {name : Text} {target : Text} (hl : Location.Proper l)
    (hshort : ¬ maxName < Text.byteLength name) (hstraight : tree.Straight here (l ++ name :: rest))
    (h : tree.walk jump here l = .ok (place, some .directory)) :
    tree.get? (place ++ [name]) ≠ some (.link target) := by
  induction l generalizing here with
  | nil =>
    obtain ⟨rfl, -⟩ := Prod.mk.inj (Except.ok.inj h)
    exact hstraight.not_link hshort
  | cons first l ih =>
    have hlater : Location.Proper l := hl.of_subset fun _ => List.mem_cons_of_mem _
    rw [List.cons_append] at hstraight
    obtain ⟨enters, hget, hrest⟩ | ⟨-, -, hne⟩ := walk_straight_cons (hl first List.mem_cons_self) hstraight h
    · exact ih hlater (hstraight.of_directory enters hget) hrest
    · exact absurd rfl hne

lemma follow_eq_walk (tree : Tree) (links : Nat) : ∃ jump, tree.follow links = tree.walk jump := by
  cases links with
  | zero => exact ⟨_, rfl⟩
  | succ links => exact ⟨_, rfl⟩

/-! ## Steps that can be asked for -/

lemma askDirectory_of_proper {l : Location} (hl : l.Proper) : askDirectory l = false := by
  cases l with
  | nil => rfl
  | cons name l =>
    obtain ⟨moves, down, -⟩ := isName_iff.1 (hl name List.mem_cons_self)
    simp [askDirectory, moves, down]

/-- The places on the way of straight steps are the parts of the location that they lead to. -/
lemma walkFits_of_straight {jump : Location → List Text → Bool} {here l : Location} (hl : l.Proper)
    (hstraight : tree.Straight here l) (hfits : ∀ q, q <+: l → Fits (here ++ q)) :
    tree.walkFits jump here l = true := by
  -- by induction on the names: no link is met, so each place asked for is one of the parts
  induction l generalizing here with
  | nil => rfl
  | cons name l ih =>
    obtain ⟨moves, down, -⟩ := isName_iff.1 (hl name List.mem_cons_self)
    have hlater : Location.Proper l := hl.of_subset fun _ => List.mem_cons_of_mem _
    have hfirst : Fits (here ++ [name]) := hfits [name] (by simp)
    rw [walkFits, moves, down, if_neg Bool.false_ne_true, if_neg Bool.false_ne_true]
    split
    · rfl
    · rename_i hshort
      split
      · rename_i hget
        have hasked : askedLength (here ++ [name]) l ≤ maxPath := by
          rw [askedLength, askDirectory_of_proper hlater]
          exact hfirst
        have hnext := ih hlater (hstraight.of_directory ⟨moves, down, hshort⟩ hget) fun q hq => by
          rw [List.append_assoc]
          exact hfits ([name] ++ q) (by simpa using hq)
        simp [hasked, hnext]
      · rename_i target hget
        exact absurd hget (hstraight.not_link hshort)
      · exact decide_eq_true hfirst
      · exact decide_eq_true hfirst

/-! ## Steps behind grounded locations -/

/-- A walk along a grounded location arrives at its end and goes on from there. -/
lemma walk_grounded {jump : Location → List Text → Except ReadFailure (Location × Option Entry)}
    {here l : Location} (h : tree.Grounded (here ++ l)) (more : List Text) :
    tree.walk jump here (l ++ more) = tree.walk jump (here ++ l) more := by
  induction l generalizing here with
  | nil => rw [List.nil_append, List.append_nil]
  | cons name l ih =>
    have hsplit : here ++ name :: l = here ++ [name] ++ l := by rw [List.append_assoc]; rfl
    have hdirectory : tree.get? (here ++ [name]) = some .directory :=
      h.directories _ (hsplit ▸ List.prefix_append _ _)
    rw [List.cons_append, walk_directory (h.enters (by simp)) hdirectory, ih (hsplit ▸ h), hsplit]

/-- The path to a grounded location leads to it, and on from there. -/
lemma follow_grounded {links : Nat} {l : Location} (h : tree.Grounded l) (more : List Text) :
    tree.follow links [] (l ++ more) = tree.follow links l more := by
  have hroot : tree.Grounded ([] ++ l) := h
  obtain ⟨jump, hjump⟩ := follow_eq_walk tree links
  rw [hjump]
  exact walk_grounded hroot more

/-- A grounded location, followed from the root, leads to itself. -/
lemma follow_grounded_self {links : Nat} {l : Location} (h : tree.Grounded l) :
    tree.follow links [] l = .ok (l, some .directory) := by
  obtain ⟨jump, hjump⟩ := follow_eq_walk tree links
  have hself : tree.follow links [] (l ++ []) = tree.follow links l [] := follow_grounded h []
  rw [List.append_nil] at hself
  rw [hself, hjump]
  rfl

/-- What is straight from the root is straight from a grounded location on the way. -/
lemma Straight.of_grounded {here l rest : Location} (h : tree.Straight here (l ++ rest))
    (hl : tree.Grounded (here ++ l)) : tree.Straight (here ++ l) rest := by
  induction l generalizing here with
  | nil => rwa [List.append_nil]
  | cons name l ih =>
    have hsplit : here ++ name :: l = here ++ [name] ++ l := by rw [List.append_assoc]; rfl
    have hdirectory : tree.get? (here ++ [name]) = some .directory :=
      hl.directories _ (hsplit ▸ List.prefix_append _ _)
    rw [hsplit] at hl ⊢
    exact ih (Straight.of_directory h (hl.enters (by simp)) hdirectory) hl

/-! ## More links -/

/-- A walk that does not run out of links stays the same with jumps that may go on for longer. -/
lemma walk_mono {jump jump' : Location → List Text → Except ReadFailure (Location × Option Entry)}
    (hjump : ∀ here rest, jump here rest ≠ .error .tooManyLinks → jump' here rest = jump here rest) {here : Location}
    {rest : List Text} (h : tree.walk jump here rest ≠ .error .tooManyLinks) :
    tree.walk jump' here rest = tree.walk jump here rest := by
  induction rest generalizing here with
  | nil => rfl
  | cons step rest ih =>
    cases tree.firstStep here step with
    | stays hstays =>
      rw [walk_stays hstays] at h
      rw [walk_stays hstays, walk_stays hstays, ih h]
    | up moves hup =>
      rw [walk_up moves hup] at h
      rw [walk_up moves hup, walk_up moves hup, ih h]
    | tooLong moves down hlong => rw [walk_tooLong moves down hlong, walk_tooLong moves down hlong]
    | directory enters hget =>
      rw [walk_directory enters hget] at h
      rw [walk_directory enters hget, walk_directory enters hget, ih h]
    | link enters target hget =>
      rw [walk_link enters hget] at h
      rw [walk_link enters hget, walk_link enters hget, hjump _ _ h]
    | other enters e hget noDirectory noLink =>
      rw [walk_other enters hget noDirectory noLink, walk_other enters hget noDirectory noLink]

/-- A path that does not run out of links leads to the same place with one link more. -/
lemma follow_succ {links : Nat} {here : Location} {rest : List Text}
    (h : tree.follow links here rest ≠ .error .tooManyLinks) :
    tree.follow (links + 1) here rest = tree.follow links here rest := by
  induction links generalizing here rest with
  | zero => exact walk_mono (fun _ _ hnone => absurd rfl hnone) h
  | succ links ih => exact walk_mono (fun _ _ hnone => ih hnone) h

/-- A walk that has not used up its links ends in the same way with more of them. -/
theorem follow_mono {links more : Nat} (hle : links ≤ more) {here : Location} {rest : List Text}
    (h : tree.follow links here rest ≠ .error .tooManyLinks) :
    tree.follow more here rest = tree.follow links here rest := by
  induction hle with
  | refl => rfl
  | step _ ih => rw [follow_succ (by rwa [ih]), ih]

/-- Two walks that have not used up their links end in the same way. -/
lemma follow_eq_follow {links links' : Nat} {here : Location} {rest : List Text}
    (h : tree.follow links here rest ≠ .error .tooManyLinks)
    (h' : tree.follow links' here rest ≠ .error .tooManyLinks) :
    tree.follow links here rest = tree.follow links' here rest := by
  rcases Nat.le_total links links' with hle | hle
  · exact (follow_mono hle h).symm
  · exact follow_mono hle h'

/-! ## Steps behind a directory -/

/-- A walk into a directory can be continued from there: what follows is walked with the links that are left. -/
lemma walk_append {jump : Location → List Text → Except ReadFailure (Location × Option Entry)} {links : Nat}
    (hself : tree.follow links = tree.walk jump)
    (hjump : ∀ here rest place, jump here rest = .ok (place, some .directory) →
      ∃ left, ∀ more, jump here (rest ++ more) = tree.follow left place more)
    {here place : Location} {rest : List Text} (h : tree.walk jump here rest = .ok (place, some .directory)) :
    ∃ left, ∀ more, tree.walk jump here (rest ++ more) = tree.follow left place more := by
  induction rest generalizing here with
  | nil =>
    obtain ⟨rfl, -⟩ := Prod.mk.inj (Except.ok.inj h)
    exact ⟨links, fun more => by rw [List.nil_append, hself]⟩
  | cons step rest ih =>
    cases tree.firstStep here step with
    | stays hstays =>
      rw [walk_stays hstays] at h
      obtain ⟨left, hleft⟩ := ih h
      exact ⟨left, fun more => by rw [List.cons_append, walk_stays hstays, hleft]⟩
    | up moves hup =>
      rw [walk_up moves hup] at h
      obtain ⟨left, hleft⟩ := ih h
      exact ⟨left, fun more => by rw [List.cons_append, walk_up moves hup, hleft]⟩
    | tooLong moves down hlong =>
      rw [walk_tooLong moves down hlong] at h
      simp at h
    | directory enters hget =>
      rw [walk_directory enters hget] at h
      obtain ⟨left, hleft⟩ := ih h
      exact ⟨left, fun more => by rw [List.cons_append, walk_directory enters hget, hleft]⟩
    | link enters target hget =>
      -- the target of the link and the steps behind it are read before what is appended
      rw [walk_link enters hget] at h
      obtain ⟨left, hleft⟩ := hjump _ _ _ h
      exact ⟨left, fun more => by rw [List.cons_append, walk_link enters hget, ← List.append_assoc, hleft]⟩
    | other enters e hget noDirectory noLink =>
      rw [walk_other enters hget noDirectory noLink] at h
      exact absurd (stopped_eq_ok h).2.2.symm noDirectory

/-- Steps behind a directory are walked from it, with some links left to be followed. -/
lemma follow_append {links : Nat} {here place : Location} {rest : List Text}
    (h : tree.follow links here rest = .ok (place, some .directory)) :
    ∃ left, ∀ more, tree.follow links here (rest ++ more) = tree.follow left place more := by
  induction links generalizing here rest place with
  | zero => exact walk_append (show tree.follow 0 = _ from rfl) (by simp) h
  | succ links ih => exact walk_append (show tree.follow (links + 1) = _ from rfl) (fun _ _ _ hj => ih hj) h

end Tree

end Stencil.Files
