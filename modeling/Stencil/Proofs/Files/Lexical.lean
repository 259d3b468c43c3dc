import Stencil.Proofs.Files.Confinement

/-!
# The base directory as it is written

The path of the base directory is read as it is written before any link is followed, so a step up drops the name in
front of it. The system takes a step up from where the steps before it have led. The two readings agree if no link is
met in front of the last step up (`Tree.UpsDirect`, `base?_of_upsDirect`), and may differ otherwise: then paths are
confined to another directory than the one that the path of the base leads to.

As long as no link is overlooked in the base as it is written, paths are confined to the directory that the path of the
base leads to if and only if the base as it is written, with links followed, lies in it (`confines_to_real_iff`).
-/

namespace Stencil.Files

open Fault

/-! ## Steps that do not go up -/

/-- A path without the steps that stay. -/
def moving (path : List Text) : List Text := path.filter fun step => !staysPut step

lemma moving_cons_of_stays {step : Text} (h : staysPut step = true) (rest : List Text) :
    moving (step :: rest) = moving rest := List.filter_cons_of_neg (by simp [h])

lemma moving_cons_of_moves {step : Text} (h : staysPut step = false) (rest : List Text) :
    moving (step :: rest) = step :: moving rest := List.filter_cons_of_pos (by simp [h])

/-- A path is collapsed piece by piece. -/
lemma lexicalFrom_append (here : Location) (before after : List Text) :
    lexicalFrom here (before ++ after) = lexicalFrom (lexicalFrom here before) after := by
  induction before generalizing here with
  | nil => rfl
  | cons step before ih =>
    rw [List.cons_append, lexicalFrom, lexicalFrom]
    split
    · exact ih here
    · split
      · exact ih here.dropLast
      · exact ih (here ++ [step])

/-- Steps of which none goes up lead down. -/
lemma lexicalFrom_of_down {after : List Text} (h : ∀ step ∈ after, goesUp step = false) (here : Location) :
    lexicalFrom here after = here ++ moving after := by
  induction after generalizing here with
  | nil => exact (List.append_nil here).symm
  | cons step after ih =>
    obtain ⟨hdown, hlater⟩ := List.forall_mem_cons.1 h
    rw [lexicalFrom]
    by_cases hstays : staysPut step = true
    · rw [if_pos hstays, ih hlater, moving_cons_of_stays hstays]
    · rw [if_neg hstays, hdown, if_neg Bool.false_ne_true, ih hlater, moving_cons_of_moves (by simpa using hstays),
        List.append_assoc]
      rfl

namespace Tree

variable {tree : Tree} {links : Nat} {here place real : Location} {e : Entry}

/-! ## Steps that stay -/

/-- One path is another without some of the steps that stay. -/
inductive Drops : List Text → List Text → Prop where
  | nil : Drops [] []
  | keep (step : Text) {path short : List Text} (h : Drops path short) : Drops (step :: path) (step :: short)
  | drop {step : Text} {path short : List Text} (hstays : staysPut step = true) (h : Drops path short) :
      Drops (step :: path) short

lemma Drops.refl : ∀ path : List Text, Drops path path
  | [] => .nil
  | step :: path => .keep step (Drops.refl path)

lemma Drops.prepend {path short : List Text} (h : Drops path short) : ∀ front, Drops (front ++ path) (front ++ short)
  | [] => h
  | step :: front => .keep step (h.prepend front)

/-- The steps that move are what remains when the others are dropped. -/
lemma drops_moving : ∀ path : List Text, Drops path (moving path)
  | [] => .nil
  | step :: path => by
    by_cases hstays : staysPut step = true
    · rw [moving_cons_of_stays hstays]
      exact .drop hstays (drops_moving path)
    · rw [moving_cons_of_moves (by simpa using hstays)]
      exact .keep step (drops_moving path)

/-- A walk leads to the same place without the steps that are dropped. -/
lemma walk_of_drops {jump : Location → List Text → Except ReadFailure (Location × Option Entry)}
    (hjump : ∀ here path short place e, Drops path short → jump here path = .ok (place, e) →
      jump here short = .ok (place, e))
    {path short : List Text} {e : Option Entry} (hdrops : Drops path short)
    (h : tree.walk jump here path = .ok (place, e)) : tree.walk jump here short = .ok (place, e) := by
  induction hdrops generalizing here with
  | nil => exact h
  | drop hstays _ ih =>
    rw [walk_stays hstays] at h
    exact ih h
  | keep step hrest ih =>
    cases tree.firstStep here step with
    | stays hstays =>
      rw [walk_stays hstays] at h ⊢
      exact ih h
    | up moves hup =>
      rw [walk_up moves hup] at h ⊢
      exact ih h
    | tooLong moves down hlong =>
      rw [walk_tooLong moves down hlong] at h
      simp at h
    | directory enters hget =>
      rw [walk_directory enters hget] at h ⊢
      exact ih h
    | link enters target hget =>
      rw [walk_link enters hget] at h ⊢
      exact hjump _ _ _ _ _ (hrest.prepend _) h
    | other enters e' hget noDirectory noLink =>
      -- nothing may stand behind what is no directory, so there is nothing to drop
      rw [walk_other enters hget noDirectory noLink] at h ⊢
      obtain ⟨rfl, rfl, rfl⟩ := stopped_eq_ok h
      cases hrest
      rfl

/-- Steps that stay are not missed where a path leads somewhere. -/
lemma follow_of_drops {path short : List Text} {e : Option Entry} (hdrops : Drops path short)
    (h : tree.follow links here path = .ok (place, e)) : tree.follow links here short = .ok (place, e) := by
  induction links generalizing here path short place e with
  | zero => exact walk_of_drops (by simp) hdrops h
  | succ links ih =>
    have hjump : ∀ here path short place e, Drops path short → tree.follow links here path = .ok (place, e) →
        tree.follow links here short = .ok (place, e) := fun _ _ _ _ _ hd hj => ih hd hj
    exact walk_of_drops hjump hdrops h

/-! ## Steps that follow no link -/

/-- Steps that follow no link lead to a location behind no links, the one that they name as they are written, and
further steps lead on from there. -/
lemma grounded_of_follow_zero {before : List Text} (hhere : tree.Grounded here)
    (hbefore : ∀ step ∈ before, '/' ∉ step)
    (h : tree.follow 0 here before = .ok (place, some .directory)) :
    tree.Grounded place ∧ lexicalFrom here before = place ∧
      ∀ links after, tree.follow links here (before ++ after) = tree.follow links place after := by
  -- no link may be followed, so the walk meets directories only
  change tree.walk _ here before = _ at h
  induction before generalizing here with
  | nil =>
    obtain ⟨rfl, -⟩ := Prod.mk.inj (Except.ok.inj h)
    exact ⟨hhere, rfl, fun _ _ => rfl⟩
  | cons step before ih =>
    obtain ⟨hstep, hlater⟩ := List.forall_mem_cons.1 hbefore
    -- each step that the walk survives goes on from a grounded place, in all three readings alike
    have hon {next : Location} (hnext : tree.Grounded next)
        (hwalk : ∀ {jump} {rest : List Text}, tree.walk jump here (step :: rest) = tree.walk jump next rest)
        (hlexical : lexicalFrom here (step :: before) = lexicalFrom next before) :
        tree.Grounded place ∧ lexicalFrom here (step :: before) = place ∧
          ∀ links after, tree.follow links here (step :: before ++ after) = tree.follow links place after := by
      obtain ⟨hplace, hread, hfollow⟩ := ih hnext hlater (hwalk ▸ h)
      refine ⟨hplace, hlexical.trans hread, fun links after => ?_⟩
      obtain ⟨jump, hjump⟩ := follow_eq_walk tree links
      rw [← hfollow links after, hjump, List.cons_append, hwalk]
    cases tree.firstStep here step with
    | stays hstays => exact hon hhere (walk_stays hstays) (by rw [lexicalFrom, if_pos hstays])
    | up moves hup =>
      exact hon (hhere.of_prefix (List.dropLast_prefix here)) (walk_up moves hup)
        (by rw [lexicalFrom, moves, hup]; rfl)
    | directory enters hget =>
      exact hon (hhere.concat enters hstep hget) (walk_directory enters hget)
        (by rw [lexicalFrom, enters.moves, enters.down]; rfl)
    | tooLong moves down hlong =>
      rw [walk_tooLong moves down hlong] at h
      simp at h
    | link enters target hget =>
      rw [walk_link enters hget] at h
      simp at h
    | other enters e hget noDirectory noLink =>
      rw [walk_other enters hget noDirectory noLink] at h
      exact absurd (stopped_eq_ok h).2.2.symm noDirectory

/-! ## What stands at a location that is followed -/

/-- A walk that goes on behind some steps has come to a directory there. -/
lemma exists_walk_of_append {jump : Location → List Text → Except ReadFailure (Location × Option Entry)}
    (hjump : ∀ here rest step more place e, jump here (rest ++ step :: more) = .ok (place, e) →
      ∃ parent, jump here rest = .ok (parent, some .directory))
    {rest more : List Text} {name : Text} {e : Option Entry}
    (h : tree.walk jump here (rest ++ name :: more) = .ok (place, e)) :
    ∃ parent, tree.walk jump here rest = .ok (parent, some .directory) := by
  -- by induction on the steps; behind a link, the rest is left to the jump
  induction rest generalizing here with
  | nil => exact ⟨here, rfl⟩
  | cons step rest ih =>
    rw [List.cons_append] at h
    cases tree.firstStep here step with
    | stays hstays =>
      rw [walk_stays hstays] at h ⊢
      exact ih h
    | up moves hup =>
      rw [walk_up moves hup] at h ⊢
      exact ih h
    | tooLong moves down hlong =>
      rw [walk_tooLong moves down hlong] at h
      simp at h
    | directory enters hget =>
      rw [walk_directory enters hget] at h ⊢
      exact ih h
    | link enters target hget =>
      rw [walk_link enters hget, ← List.append_assoc] at h
      rw [walk_link enters hget]
      exact hjump _ _ _ _ _ _ h
    | other enters e' hget noDirectory noLink =>
      rw [walk_other enters hget noDirectory noLink] at h
      simpa using (stopped_eq_ok h).1

/-- Steps in front of others lead to a directory, if all of them lead anywhere. -/
lemma exists_follow_of_append {rest more : List Text} {name : Text} {e : Option Entry}
    (h : tree.follow links here (rest ++ name :: more) = .ok (place, e)) :
    ∃ parent, tree.follow links here rest = .ok (parent, some .directory) := by
  induction links generalizing here rest name more place e with
  | zero => exact exists_walk_of_append (by simp) h
  | succ links ih =>
    have hjump : ∀ here rest step more place e, tree.follow links here (rest ++ step :: more) = .ok (place, e) →
        ∃ parent, tree.follow links here rest = .ok (parent, some .directory) := fun _ _ _ _ _ _ hj => ih hj
    exact exists_walk_of_append hjump h

/-! ## What is settled where it leads -/

/-- A location that leads to something is settled there, if no link is overlooked in it and it leads over no place that
cannot be asked for. -/
lemma settle?_of_follow {l : Location} (hl : l.Proper) (h : tree.follow maxLinks [] l = .ok (real, some e))
    (hseen : ¬ tree.Overlooked l) (hnear : ¬ tree.Blocked tree.Remote l) : tree.settle? l = some real := by
  obtain ⟨p, rest, rfl, hp, hsettle⟩ := tree.settle?_eq l
  have hproper : Location.Proper p := hl.of_subset fun _ => List.mem_append_left _
  have hfits := fits_of_status? hp.exists_status
  have hway : tree.followFits maxLinks [] p = true := by simpa [Remote] using fun hremote => hnear ⟨p, hp, hremote⟩
  cases rest with
  | nil =>
    rw [List.append_nil] at h
    rw [hsettle, real?_eq_some.2 ⟨hfits, hway, e, h⟩, Option.map_some, List.append_nil]
  | cons name rest =>
    -- the rest is kept as it is, and leads straight on from where the part that is found leads
    obtain ⟨parent, hparent⟩ := exists_follow_of_append h
    have hplace : tree.settle? (p ++ name :: rest) = some (parent ++ name :: rest) := by
      rw [hsettle, real?_eq_some.2 ⟨hfits, hway, .directory, hparent⟩, Option.map_some]
    have hgrounded := (reached_of_follow Grounded.nil (Location.Proper.slash_not_mem hproper) hparent).grounded
    have hstraight : tree.Straight [] (parent ++ name :: rest) := straight_of_settle? hl hplace hseen
    obtain ⟨left, hleft⟩ := follow_append hparent
    obtain ⟨jump, hjump⟩ := follow_eq_walk tree left
    rw [hleft, hjump] at h
    have hrest : tree.Straight parent (name :: rest) := hstraight.of_grounded hgrounded
    rw [hplace, walk_straight (hl.of_subset fun _ => List.mem_append_right _) hrest h]

/-- A location without links is settled where it is. -/
lemma settle?_of_straight {l : Location} (hl : l.Proper) (h : tree.Straight [] l) : tree.settle? l = some l := by
  obtain ⟨p, rest, heq, hp, hsettle⟩ := tree.settle?_eq l
  have hproper : Location.Proper p := hl.of_subset fun _ hname => hp.is_part.subset hname
  have hlinks := (straight_iff hl).1 h
  have hstraight : tree.Straight [] p := (straight_iff hproper).2 fun q hq => hlinks q (hq.trans hp.is_part)
  have hreal : tree.real? p = some p := by
    cases hreal : tree.real? p with
    | none =>
      rcases lost_or_remote_of_real?_eq_none hproper hp.exists_status hreal with hlost | hremote
      · exact absurd hlost.1 (hlinks p hp.is_part)
      · have hfits := fits_of_status? hp.exists_status
        have hway : tree.followFits maxLinks [] p = true :=
          walkFits_of_straight hproper hstraight fun q hq => hfits.of_prefix hq
        rw [Remote, hway] at hremote
        simp at hremote
    | some q =>
      obtain ⟨-, -, e, hfollow⟩ := real?_eq_some.1 hreal
      obtain ⟨jump, hjump⟩ := follow_eq_walk tree maxLinks
      rw [hjump] at hfollow
      rw [walk_straight hproper hstraight hfollow, List.nil_append]
  rw [hsettle, hreal, Option.map_some, heq]

/-! ## The base directory -/

variable {base : Text}

/-- No link is met in front of the last step up of a path, and so far it leads through directories. -/
def UpsDirect (tree : Tree) (path : Text) : Prop :=
  ∃ before after place, steps path = before ++ after ∧ (∀ step ∈ after, goesUp step = false) ∧
    tree.follow 0 (start tree.current path) before = .ok (place, some .directory)

lemma grounded_start (hcurrent : tree.Grounded tree.current) (path : Text) :
    tree.Grounded (start tree.current path) := by
  unfold start
  split
  · exact Grounded.nil
  · exact hcurrent

/-- If no link is met in front of the last step up, the base as it is written is the directory that its path leads to,
as far as it can be asked for. -/
theorem base?_of_upsDirect (hcurrent : tree.Grounded tree.current) (hups : tree.UpsDirect base)
    (h : tree.locate base = .ok (real, some e)) (hseen : ¬ tree.Overlooked (lexical tree.current base))
    (hnear : ¬ tree.Blocked tree.Remote (lexical tree.current base)) : tree.base? base = some real := by
  obtain ⟨before, after, place, hsteps, hdown, hbefore⟩ := hups
  have hslash : ∀ step ∈ before, '/' ∉ step := fun step hmem => by
    have hstep : step ∈ steps base := hsteps ▸ List.mem_append_left _ hmem
    exact slash_not_mem_of_mem_steps hstep
  obtain ⟨hplace, hread, hfollow⟩ := grounded_of_follow_zero (grounded_start hcurrent base) hslash hbefore
  have hlexical : lexical tree.current base = place ++ moving after := by
    rw [lexical, hsteps, lexicalFrom_append, hread, lexicalFrom_of_down hdown]
  have hreal : tree.follow maxLinks [] (lexical tree.current base) = .ok (real, some e) := by
    rw [hlexical, follow_grounded hplace]
    refine follow_of_drops (drops_moving after) ?_
    rw [← hfollow, ← hsteps]
    exact follow_of_locate h
  exact settle?_of_follow (proper_lexical tree.proper_current base) hreal hseen hnear

/-- A name that is too long for anything to have it. -/
def longName (n : Nat) : Text := 'x' :: List.replicate (maxName + n) 'x'

lemma eq_of_mem_longName {c : Char} {n : Nat} (h : c ∈ longName n) : c = 'x' :=
  (List.mem_cons.1 h).elim id List.eq_of_mem_replicate

lemma length_longName (n : Nat) : (longName n).length = maxName + n + 1 := by
  rw [longName, List.length_cons, List.length_replicate]

lemma isSuspicious_longName (n : Nat) : isSuspicious (longName n) = false := by
  have hnone {c : Char} (hc : c ≠ 'x') : (longName n).contains c = false := by
    simpa using fun hmem => hc (eq_of_mem_longName hmem)
  rw [isSuspicious, hnone (by decide), hnone (by decide), hnone (by decide)]
  rfl

/-- A name without separators is a path of one name. -/
lemma names?_longName (n : Nat) : names? (longName n) = some [longName n] := by
  have hslash : ∀ c ∈ longName n, (c == '/' || c == '\\') = false := by
    intro c hc
    rw [eq_of_mem_longName hc]
    rfl
  have hup : goesUp (longName n) = false := by simp [goesUp, longName]
  have hstays : staysPut (longName n) = false := by simp [staysPut, longName]
  simp [names?, Text.split_of_forall hslash, hup, hstays]

lemma maxName_lt_longName (n : Nat) : maxName < Text.byteLength (longName n) := by
  have hbytes := Text.length_le_byteLength (longName n)
  rw [length_longName] at hbytes
  omega

/-- Nothing is in the way of a path that is too long for a name. -/
lemma confine?_longName {root : Location} (hroot : tree.base? base = some root)
    (hseen : ¬ tree.Overlooked (lexical tree.current base)) (n : Nat) :
    tree.confine? base (longName n) = some (root ++ [longName n]) := by
  have hlexical := proper_lexical tree.proper_current base
  have hvacant : tree.isOccupied root (longName n) = false := by
    have hnothing : tree.beneath? root (longName n) = none := by
      rw [beneath?]
      split
      · rw [if_pos (maxName_lt_longName n)]
      · rfl
    rw [isOccupied, standing?, hnothing, ite_self]
    rfl
  have hsettle : tree.settle? (root ++ [longName n]) = some (root ++ [longName n]) := by
    have hself := settle?_of_straight (proper_of_settle? hlexical hroot) (straight_of_settle? hlexical hroot hseen)
    rw [settle?] at hself
    rw [settle?, List.reverse_concat, settleReversed?, List.reverse_reverse, hvacant, if_neg Bool.false_ne_true, hself,
      Option.map_some]
  simp [confine?, isSuspicious_longName, names?_longName, hroot, hsettle]

/-- If no link is overlooked in the base as it is written, paths are confined to the directory that the path of the base
leads to if and only if the base as it is written, with links followed, lies in it. It is this directory if no link is
met in front of the last step up and no place on the way has a path that is too long. -/
theorem confines_to_real_iff (h : tree.locate base = .ok (real, some e))
    (hseen : ¬ tree.Overlooked (lexical tree.current base)) :
    ((∀ path place, tree.confine? base path = some place → real <+: place) ↔
      ∀ root, tree.base? base = some root → real <+: root) ∧
    (tree.Grounded tree.current → tree.UpsDirect base → ¬ tree.Blocked tree.Remote (lexical tree.current base) →
      tree.base? base = some real) := by
  refine ⟨⟨fun hconfined root hroot => ?_, fun hbase path place hplace => ?_⟩, fun hcurrent hups hnear => ?_⟩
  · -- neither of two places right inside of the base is the directory itself, or the other one would be outside of it
    rcases List.prefix_concat_iff.1 (hconfined _ _ (confine?_longName hroot hseen 0)) with rfl | hin
    · have hother := hconfined _ _ (confine?_longName hroot hseen 1)
      have hsame := List.append_cancel_left (hother.eq_of_length (by simp))
      have hlength := congrArg List.length (List.singleton_inj.1 hsame)
      rw [length_longName, length_longName] at hlength
      omega
    · exact hin
  · obtain ⟨-, root, hroot, -, hin⟩ := confine?_eq_some hplace
    exact (hbase root hroot).trans hin
  · exact base?_of_upsDirect hcurrent hups h hseen hnear

/-- A directory `a` with a directory `b` and a file in it, another file of this name beside it, and a link to `a/b`. -/
def crossing : Tree where
  entries := [([['a']], .directory), ([['a'], ['b']], .directory), ([['a'], ['x']], .file []), ([['x']], .file []),
    ([['l']], .link "a/b".toList)]
  current := []
  proper_current := Location.Proper.nil

/-- A link behind the last step up does no harm. -/
theorem confines_to_real_crossing :
    crossing.locate "a/b/../../l".toList = .ok ([['a'], ['b']], some .directory) ∧
      ¬ crossing.Overlooked (lexical crossing.current "a/b/../../l".toList) ∧ crossing.Grounded crossing.current ∧
      crossing.UpsDirect "a/b/../../l".toList ∧
      ¬ crossing.Blocked crossing.Remote (lexical crossing.current "a/b/../../l".toList) ∧
      crossing.base? "a/b/../../l".toList = some [['a'], ['b']] := by
  have hseen : ¬ crossing.Overlooked (lexical crossing.current "a/b/../../l".toList) :=
    not_overlooked_of_fits (by decide)
  have hups : crossing.UpsDirect "a/b/../../l".toList :=
    ⟨[['a'], ['b'], ['.', '.'], ['.', '.']], [['l']], [], by decide, by decide, rfl⟩
  have hnear : ¬ crossing.Blocked crossing.Remote (lexical crossing.current "a/b/../../l".toList) := by
    rintro ⟨p, hp, hremote⟩
    -- the link is found, so it is the longest part, and it leads over short paths only
    have hwhole : p = [['l']] := hp.is_part.eq_of_length_le (hp.longest _ List.prefix_rfl (by decide))
    have hway : crossing.followFits maxLinks [] [['l']] = true := by decide
    rw [hwhole, Remote, hway] at hremote
    simp at hremote
  exact ⟨rfl, hseen, Grounded.nil, hups, hnear, (confines_to_real_iff rfl hseen).2 Grounded.nil hups hnear⟩

/-- The path `l/..` leads to `a`, but as it is written to the directory around it, where a file beside `a` is found. -/
theorem exists_confine?_outside :
    crossing.locate "l/..".toList = .ok ([['a']], some .directory) ∧
      crossing.confine? "l/..".toList ['x'] = some [['x']] ∧ ¬ [['a']] <+: [['x']] :=
  ⟨rfl, by decide +kernel, by decide⟩

end Tree

end Stencil.Files
