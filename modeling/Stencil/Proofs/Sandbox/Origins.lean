import Stencil.Proofs.Sandbox.Loading
import Stencil.Proofs.Template.Placeholders

/-!
# Where markup comes from

Under html escaping, each text that a run writes is a literal of its program or of a file that it includes, or it is
free of the characters of markup (`Origin`): an escaped value is, and so is a placeholder that stays as it was written,
since it holds nothing but braces, blanks and a path.

This is an invariant of every record (`Draws`), shown along the program. It needs that each program has been read from
a text, be it the one at hand, one that is kept, or one that a loader reads.

Main statement: a character of markup in the output of a run stands in a literal (`markup_from_literals`).
-/

namespace Stencil

/-! ## Texts without markup -/

namespace Markup

/-- Whether a text holds no character of markup. -/
def Unmarked (t : Text) : Prop := ∀ c ∈ markupChars, c ∉ t

lemma unmarked_escape (t : Text) : Unmarked (escape t) := fun _ hc => not_mem_escape hc t

end Markup

open Markup

namespace Template

/-- Braces, blanks and the characters of paths are no markup. -/
lemma Placeholder.unmarked {path : Path} {raw : Text} (h : Placeholder path raw)
    (hpath : ∀ c ∈ path.text, Path.isPathChar c = true) : Unmarked raw := by
  intro c hc hmem
  have hplain := h.mem hpath hmem
  simp only [markupChars, List.mem_cons, List.not_mem_nil, or_false] at hc
  rcases hc with rfl | rfl | rfl | rfl | rfl <;> exact absurd hplain (by decide)

namespace Program

/-- Whether a program has been read from a text, under whatever limits. -/
def IsRead (program : Program) : Prop := ∃ limits source, ofSource limits source = .ok program

/-- The literal that a leaf or heading is. -/
def literal? : Leaf ⊕ Heading → Option Text
  | .inl (.literal content) => some content
  | .inl (.substitution _ _) => none
  | .inl (.inclusion _) => none
  | .inr _ => none

/-- The literals of a program, those in the bodies of its nodes too, in the order of the document. -/
def literals (program : Program) : List Text := (heads program).filterMap literal?

lemma mem_literals {program : Program} {content : Text} (h : .inl (.literal content) ∈ heads program) :
    content ∈ program.literals :=
  List.mem_filterMap.2 ⟨_, h, rfl⟩

lemma IsRead.unmarked {program : Program} (h : program.IsRead) {path : Path} {raw : Text}
    (hmem : .inl (.substitution path raw) ∈ heads program) : Unmarked raw := by
  obtain ⟨limits, source, hread⟩ := h
  obtain ⟨hplaceholder, hpath⟩ := placeholder_of_ofSource hread hmem
  exact hplaceholder.unmarked hpath

end Program

end Template

namespace Sandbox

open Json Template

/-! ## Files that are included -/

/-- Whether every program that is kept has been read from a text. -/
def AllRead (cache : InclusionCache) : Prop := cache.Everywhere fun _ program => program.IsRead

lemma allRead_new (capacity shards : Nat) : AllRead (InclusionCache.new capacity shards) :=
  Cache.everywhere_new _ _ capacity shards

/-- What a loader gives has been read, and so has what it keeps. -/
lemma AllRead.load {cache after : InclusionCache} (h : AllRead cache) {loader : Loader} {path : Text}
    {answer : Except Halt Program} (hload : loader.load cache path = (answer, after)) :
    AllRead after ∧ ∀ program, answer = .ok program → program.IsRead := by
  have hread : ∀ content program, loader.accept content = .ok program → program.IsRead :=
    fun content program haccept => ⟨loader.limits, content, (Loader.of_accept haccept).1⟩
  obtain rfl : (loader.load cache path).2 = after := congrArg Prod.snd hload
  refine ⟨Loader.everywhere_load h fun _ content program _ haccept => hread content program haccept, ?_⟩
  intro program hanswer
  obtain ⟨place, content, -, hfound | haccept⟩ :=
    Loader.found_or_accepted_of_load ((congrArg Prod.fst hload).trans hanswer)
  · exact Cache.Everywhere.of_lookup h hfound
  · exact hread content program haccept

/-- The program of the file that is included at a moment. -/
def Moment.included? (s : Sandbox) (m : Moment) : Option Program :=
  s.loader.bind fun loader => m.mark.path?.bind fun path => (loader.load m.run.cache path).1.toOption

/-- The programs of the files that are included at some moments. -/
def included (s : Sandbox) (moments : List Moment) : List Program := moments.filterMap (Moment.included? s)

/-! ## Origins -/

/-- Where a text that is written comes from: it is free of markup, or it is a literal of the program at hand, or of a
file that is included. -/
def Origin (s : Sandbox) (heads : List (Leaf ⊕ Heading)) (moments : List Moment) (t : Text) : Prop :=
  Unmarked t ∨ .inl (.literal t) ∈ heads ∨ ∃ program ∈ s.included moments, .inl (.literal t) ∈ program.heads

variable {s : Sandbox} {heads more : List (Leaf ⊕ Heading)} {moments later : List Moment} {t : Text}

/-- What comes from somewhere comes from there among more heads and more moments, too. -/
lemma Origin.mono (h : s.Origin heads moments t) (hheads : heads ⊆ more) (hmoments : moments ⊆ later) :
    s.Origin more later t := by
  rcases h with hunmarked | hown | ⟨program, hincluded, hliteral⟩
  · exact .inl hunmarked
  · exact .inr (.inl (hheads hown))
  · obtain ⟨m, hm, hprogram⟩ := List.mem_filterMap.1 hincluded
    exact .inr (.inr ⟨program, List.mem_filterMap.2 ⟨m, hmoments hm, hprogram⟩, hliteral⟩)

/-- Whether all that a record writes has an origin in a program with these leaves and headings, or in the files that it
includes. -/
def Draws (s : Sandbox) (heads : List (Leaf ⊕ Heading)) (record : Recorded) : Prop :=
  ∀ run, AllRead run.cache → AllRead (behind record.action run).cache ∧
    ∀ t ∈ (behind record.action run).written, t ∈ run.written ∨ s.Origin heads (record.moments run) t

namespace Recorded

variable {first second body otherwise : Recorded}

lemma draws_mono (h : s.Draws heads body) (hheads : heads ⊆ more) : s.Draws more body := by
  intro run hcache
  obtain ⟨hafter, hwritten⟩ := h run hcache
  refine ⟨hafter, fun t ht => ?_⟩
  exact (hwritten t ht).imp_right fun horigin => horigin.mono hheads (List.Subset.refl _)

/-! ### Steps -/

/-- An action that writes nothing and keeps nothing. -/
lemma draws_silent (h : ∀ run, (behind body.action run).written = run.written)
    (hcache : ∀ run, (behind body.action run).cache = run.cache) : s.Draws heads body := by
  intro run hread
  rw [h run, hcache run]
  exact ⟨hread, fun t ht => .inl ht⟩

lemma draws_skip : s.Draws heads skip := draws_silent (fun _ => rfl) fun _ => rfl

lemma draws_look : s.Draws heads (step s.look) := by
  apply draws_silent
  · intro run
    rw [step, behind_look]
  · intro run
    rw [step, behind_look]

lemma draws_countTurn : s.Draws heads (step s.countTurn) := by
  apply draws_silent
  · intro run
    rw [step, behind_countTurn]
  · intro run
    rw [step, behind_countTurn]

/-- Text without markup, or of a literal at hand, may be emitted. -/
lemma draws_emit (h : Unmarked t ∨ .inl (.literal t) ∈ heads) : s.Draws heads (step (s.emit t)) := by
  intro run hcache
  rw [step, behind_emit]
  split
  · exact ⟨hcache, fun t ht => .inl ht⟩
  · refine ⟨hcache, fun t' ht' => ?_⟩
    rcases List.mem_cons.1 ht' with rfl | ht'
    · exact .inr (h.imp_right .inl)
    · exact .inl ht'

/-! ### Composed actions -/

/-- Two actions draw on the same heads if each of them does. -/
lemma draws_andThen (h : s.Draws heads first) (h' : s.Draws heads second) :
    s.Draws heads (first.andThen second) := by
  intro run hcache
  obtain ⟨hbetween, hfirst⟩ := h run hcache
  rcases andThen_cases first second run with ⟨hbehind, hboth⟩ | ⟨hbehind, hone⟩
  · obtain ⟨hafter, hsecond⟩ := h' _ hbetween
    rw [hbehind, hboth]
    refine ⟨hafter, fun t ht => ?_⟩
    rcases hsecond t ht with ht | horigin
    · exact (hfirst t ht).imp_right fun horigin =>
        horigin.mono (List.Subset.refl _) (List.subset_append_left _ _)
    · exact .inr (horigin.mono (List.Subset.refl _) (List.subset_append_right _ _))
  · rw [hbehind, hone]
    exact ⟨hbetween, hfirst⟩

/-- An action one level deeper draws on the same heads. -/
lemma draws_nested (h : s.Draws heads body) (mark : Mark) : s.Draws heads (nested s mark body) := by
  intro run hcache
  have hbehind : behind (nested s mark body).action run = _ := behind_nested s body.action run
  rw [hbehind, nested]
  dsimp only
  split
  · exact ⟨hcache, fun t ht => .inl ht⟩
  · obtain ⟨hafter, hwritten⟩ := h { run with depth := run.depth + 1 } hcache
    refine ⟨hafter, fun t ht => (hwritten t ht).imp_right fun horigin => ?_⟩
    refine horigin.mono (List.Subset.refl _) fun m hm => ?_
    exact List.mem_append_left _ (List.mem_cons_of_mem _ hm)

/-- An action under bindings draws on the same heads. -/
lemma draws_bound (h : s.Draws heads body) (bindings : Scopes) : s.Draws heads (bound bindings body) := by
  intro run hcache
  have hbehind : behind (bound bindings body).action run = _ := behind_bound bindings body.action run
  rw [hbehind, bound]
  dsimp only
  obtain ⟨hafter, hwritten⟩ := h { run with scopes := bindings ++ run.scopes } hcache
  refine ⟨hafter, fun t ht => (hwritten t ht).imp_right fun horigin => ?_⟩
  refine horigin.mono (List.Subset.refl _) fun m hm => ?_
  exact List.mem_append_left _ (List.mem_cons_of_mem _ hm)

/-- Turns draw on the heads of their body. -/
lemma draws_turnsFor (h : s.Draws heads body) (name : Text) (shown number : Nat) (items : List Value) :
    s.Draws heads (turnsFor s name shown body number items) := by
  induction items generalizing number with
  | nil => exact draws_skip
  | cons item rest ih =>
    have hturn : s.Draws heads (turn s [(turnName, turnInfo number shown), (name, item)] body) :=
      draws_andThen draws_countTurn (draws_bound (draws_nested h .turn) _)
    exact draws_andThen draws_look (draws_andThen hturn (ih (number + 1)))

/-! ### Nodes -/

/-- It is enough that every part that may be chosen draws. -/
lemma draws_choice {pick : Run → Recorded} (h : ∀ run, s.Draws heads (pick run)) : s.Draws heads (choice pick) :=
  fun run => h run run

/-- A loop draws on the heads of its body. -/
lemma draws_loop (h : s.Draws heads body) (name : Text) (collection : Path) :
    s.Draws heads (loop s name collection body) := by
  unfold loop
  apply draws_choice
  intro run
  split
  · exact draws_turnsFor h name _ 1 _
  · exact draws_skip

/-- A value is escaped, and the source of a substitution is free of markup. -/
lemma draws_substitute (hhtml : s.escape = .html) {raw : Text} (hraw : Unmarked raw) (path : Path) :
    s.Draws heads (substitute s path raw) := by
  unfold substitute
  apply draws_choice
  intro run
  split
  · rename_i value _
    apply draws_emit
    rw [hhtml]
    exact .inl (unmarked_escape value.plainText)
  · exact draws_emit (.inl hraw)

/-- A choice draws on the heads of both bodies. -/
lemma draws_choose (condition : Condition) (h : s.Draws heads body) (h' : s.Draws heads otherwise) :
    s.Draws heads (choose s condition body otherwise) := by
  unfold choose
  apply draws_choice
  intro run
  apply draws_nested
  split
  · exact h
  · exact h'

lemma draws_region (name : Text) (h : s.Draws heads body) : s.Draws heads (region s name body) := by
  rw [region]
  split
  · exact draws_nested h .plain
  · exact draws_skip

/-- What a file writes has its origin in the program of the file, which is one of those included. -/
lemma draws_inclusion {execute : Program → Recorded}
    (h : ∀ program : Program, program.IsRead → s.Draws program.heads (execute program)) (path : Text) :
    s.Draws heads (inclusion s (some execute) path) := by
  intro run hcache
  obtain ⟨-, hbehind, -⟩ | ⟨loader, hloader, ⟨halt, cache, hload, hbehind, -⟩ |
    ⟨program, cache, hload, hbehind, hmoments⟩⟩ := inclusion_cases s execute path run
  · rw [hbehind]
    exact ⟨hcache, fun t ht => .inl ht⟩
  · rw [hbehind]
    exact ⟨(hcache.load hload).1, fun t ht => .inl ht⟩
  · -- the literals of a file are at hand, since the inclusion records that it was loaded
    obtain ⟨hloaded, hread⟩ := hcache.load hload
    have hincluded : program ∈ s.included ((inclusion s (some execute) path).moments run) := by
      rw [hmoments, included, List.cons_append]
      refine List.mem_filterMap.2 ⟨⟨.inclusion path, run⟩, List.mem_cons_self, ?_⟩
      simp only [Moment.included?, Mark.path?, hloader, hload, Option.bind_some]
      rfl
    have hinside := draws_nested (h program (hread program rfl)) .plain
      { run with cache, inclusionDepth := run.inclusionDepth + 1 } hloaded
    rw [hbehind]
    refine ⟨hinside.1, fun t ht => (hinside.2 t ht).imp_right fun horigin => ?_⟩
    rcases horigin with hunmarked | hown | hfurther
    · exact .inl hunmarked
    · exact .inr (.inr ⟨program, hincluded, hown⟩)
    · -- a file that this file includes
      have horigin : s.Origin heads ((nested s .plain (execute program)).moments
          { run with cache, inclusionDepth := run.inclusionDepth + 1 }) t := .inr (.inr hfurther)
      refine horigin.mono (List.Subset.refl _) fun m hm => ?_
      rw [hmoments]
      exact List.mem_append_left _ (List.mem_cons_of_mem _ (List.mem_cons_of_mem _ hm))

/-! ### Programs -/

/-- A program draws on its own heads, by induction on its nodes. -/
lemma draws_nodes (hhtml : s.escape = .html) {includeFile : Text → Recorded}
    (hfile : ∀ path heads, s.Draws heads (includeFile path)) (program : Program)
    (hraw : ∀ path raw, .inl (.substitution path raw) ∈ program.heads → Unmarked raw) :
    s.Draws program.heads (nodes s includeFile program) := by
  -- by induction on the program: every node draws on its own heads, which are among those of the program
  induction program using Program.rec_nodes with
  | nil => exact draws_skip
  | leaf leaf rest ih =>
    rw [Program.heads_leaf_cons] at hraw ⊢
    have hrest := ih fun path raw hmem => hraw path raw (List.mem_cons_of_mem _ hmem)
    have hleaf : s.Draws (.inl leaf :: Program.heads rest) (nodes.ofNode s includeFile leaf.node) := by
      cases leaf with
      | literal content => exact draws_emit (.inr List.mem_cons_self)
      | substitution path raw => exact draws_substitute hhtml (hraw path raw List.mem_cons_self) path
      | inclusion path => exact hfile path _
    exact draws_andThen draws_look (draws_andThen hleaf (draws_mono hrest (List.subset_cons_self _ _)))
  | block heading body rest ihbody ih =>
    rw [Program.heads_block_cons] at hraw ⊢
    have hbody := ihbody fun path raw hmem =>
      hraw path raw (List.mem_cons_of_mem _ (List.mem_append_left _ hmem))
    have hrest := ih fun path raw hmem =>
      hraw path raw (List.mem_cons_of_mem _ (List.mem_append_right _ hmem))
    have hinside := draws_andThen draws_look hbody
    have hnode : s.Draws (Program.heads body) (nodes.ofNode s includeFile (heading.opening.node body)) := by
      cases heading with
      | loop name collection => exact draws_loop hinside name collection
      | conditional condition => exact draws_choose condition hinside (draws_andThen draws_look draws_skip)
      | region name => exact draws_region name hinside
    have hsubset := List.subset_cons_self (Sum.inr heading : Leaf ⊕ Heading) (Program.heads body ++ Program.heads rest)
    exact draws_andThen draws_look (draws_andThen
      (draws_mono hnode fun head hhead => hsubset (List.mem_append_left _ hhead))
      (draws_mono hrest fun head hhead => hsubset (List.mem_append_right _ hhead)))
  | branches condition body otherwise rest ihbody ihotherwise ih =>
    rw [Program.heads_branches_cons] at hraw ⊢
    have hbody := ihbody fun path raw hmem =>
      hraw path raw (List.mem_cons_of_mem _ (List.mem_append_left _ (List.mem_append_left _ hmem)))
    have hotherwise := ihotherwise fun path raw hmem =>
      hraw path raw (List.mem_cons_of_mem _ (List.mem_append_left _ (List.mem_append_right _ hmem)))
    have hrest := ih fun path raw hmem => hraw path raw (List.mem_cons_of_mem _ (List.mem_append_right _ hmem))
    have hboth : s.Draws (Program.heads body ++ Program.heads otherwise)
        (nodes.ofNode s includeFile (.conditional condition body otherwise)) := by
      apply draws_choose
      · exact draws_mono (draws_andThen draws_look hbody) (List.subset_append_left _ _)
      · exact draws_mono (draws_andThen draws_look hotherwise) (List.subset_append_right _ _)
    have hsubset := List.subset_cons_self (Sum.inr (.conditional condition) : Leaf ⊕ Heading)
      (Program.heads body ++ Program.heads otherwise ++ Program.heads rest)
    exact draws_andThen draws_look (draws_andThen
      (draws_mono hboth fun head hhead => hsubset (List.mem_append_left _ hhead))
      (draws_mono hrest fun head hhead => hsubset (List.mem_append_right _ hhead)))

/-- A file draws on the heads of the program that is loaded for it. -/
lemma draws_files (hhtml : s.escape = .html) (room : Nat) (path : Text) (heads : List (Leaf ⊕ Heading)) :
    s.Draws heads (files s room path) := by
  induction room generalizing path heads with
  | zero =>
    intro run hcache
    obtain ⟨hbehind, -⟩ := inclusion_none s path run
    rw [files, hbehind]
    exact ⟨hcache, fun t ht => .inl ht⟩
  | succ room ih =>
    apply draws_inclusion
    intro program hread
    exact draws_andThen draws_look (draws_nodes hhtml ih program fun _ _ => hread.unmarked)

/-- All that the record of a program writes has an origin in it, or in a file that is included. -/
lemma draws_execute (hhtml : s.escape = .html) {program : Program} (hread : program.IsRead) (room : Nat) :
    s.Draws program.heads (execute s room program) :=
  draws_andThen draws_look (draws_nodes hhtml (draws_files hhtml room) program fun _ _ => hread.unmarked)

end Recorded

/-! ## The output of a run -/

/-- The literals that may be put out in a run: those of its program, and those of the files that it includes. -/
def literalsAtHand (s : Sandbox) (cache : InclusionCache) (program : Program) : List Text :=
  program.literals ++ (s.included (s.history cache program)).flatMap Program.literals

/-- What a run writes has no markup or is a literal at hand, its own or one of a file. -/
lemma mem_literalsAtHand {cache : InclusionCache} {program : Program} {t : Text}
    (h : s.Origin program.heads (s.history cache program) t) : Unmarked t ∨ t ∈ s.literalsAtHand cache program := by
  rcases h with hunmarked | hown | ⟨included, hincluded, hliteral⟩
  · exact .inl hunmarked
  · exact .inr (List.mem_append_left _ (Program.mem_literals hown))
  · refine .inr (List.mem_append_right _ (List.mem_flatMap.2 ⟨included, hincluded, ?_⟩))
    exact Program.mem_literals hliteral

/-- Under html escaping, a completed run of a program that was read puts out pieces each of which is a literal, of its
program or of a file that it includes, or is free of markup. So a character of markup in the output stands in one of
these literals. And what is kept behind the run has been read from texts, as what was kept in front of it. -/
theorem markup_from_literals {limits : Limits} {source : Text} {program : Program} {cache : InclusionCache} {out : Text}
    (hprogram : Program.ofSource limits source = .ok program) (hhtml : s.escape = .html) (hcache : AllRead cache)
    (hout : (s.evaluate cache program).1 = .completed out) :
    (∃ pieces : List Text, out = pieces.flatten ∧
      ∀ piece ∈ pieces, Unmarked piece ∨ piece ∈ s.literalsAtHand cache program) ∧
    (∀ c ∈ markupChars, c ∈ out → ∃ content ∈ s.literalsAtHand cache program, c ∈ content) ∧
    AllRead (s.evaluate cache program).2 := by
  -- the recorded run draws on the heads of the program, and it does what the evaluator does
  have hdraws := Recorded.draws_execute hhtml ⟨limits, source, hprogram⟩ s.budget.maxIncludeDepth
  obtain ⟨hafter, hwritten⟩ := hdraws (Run.start cache) hcache
  rw [Recorded.action_execute] at hafter hwritten
  unfold evaluate at hout ⊢
  unfold behind at hafter hwritten
  cases hrun : s.execute s.budget.maxIncludeDepth program (Run.start cache) with
  | error halt after => simp [hrun] at hout
  | ok u after =>
    rw [hrun] at hout hafter hwritten
    obtain rfl : after.output = out := Outcome.completed.inj hout
    have hpieces : ∀ piece ∈ after.written.reverse, Unmarked piece ∨ piece ∈ s.literalsAtHand cache program := by
      intro piece hpiece
      rcases hwritten piece (List.mem_reverse.1 hpiece) with hstart | horigin
      · exact absurd hstart List.not_mem_nil
      · exact mem_literalsAtHand (horigin.mono (List.Subset.refl _) (List.subset_cons_self _ _))
    refine ⟨⟨after.written.reverse, rfl, hpieces⟩, fun c hc hmem => ?_, hafter⟩
    obtain ⟨piece, hpiece, hcpiece⟩ := List.mem_flatten.1 hmem
    rcases hpieces piece hpiece with hunmarked | hliteral
    · exact absurd hcpiece (hunmarked c hc)
    · exact ⟨piece, hliteral, hcpiece⟩

/-- A loader for which every path leads to the same text: a variable between quotes. -/
def quoting : Loader :=
  ⟨fun _ => some ["f"], fun _ => .ok "\"\x7b\x7bx\x7d\x7d\"", ⟨⟨100, 0, .warning, false⟩, .none⟩, ⟨100, 5⟩⟩

/-- A sandbox with a list whose item has brackets and a quote. -/
def bracketed : Sandbox where
  budget := .ofProfile .secure
  escape := .html
  context := ⟨[("x", .array [.string "<'>"])], [], []⟩
  deadline := .ofBudget 2000 false
  loader := some quoting

/-- The list in bold, a name that stands for nothing, and a file. -/
def boldProgram : Program :=
  [.literal "<b>", .substitution ["x"] "\x7b\x7bx\x7d\x7d", .literal "</b>",
    .substitution ["y", "z"] "\x7b\x7b y.z \x7d\x7d", .inclusion "f"]

/-- The double quotes in the output are those of the file; the quotes of the list are escaped. -/
theorem quotes_from_file :
    Program.ofSource ⟨256, 10⟩ "<b>\x7b\x7bx\x7d\x7d</b>\x7b\x7b y.z \x7d\x7d<!--INCLUDE f-->" = .ok boldProgram ∧
      (bracketed.evaluate (InclusionCache.new 1 1) boldProgram).1 =
        .completed ("<b>[&quot;&lt;&#x27;&gt;&quot;]</b>\x7b\x7b y.z \x7d\x7d" ++
          "\"[&quot;&lt;&#x27;&gt;&quot;]\"".toList) ∧
      bracketed.literalsAtHand (InclusionCache.new 1 1) boldProgram = ["<b>", "</b>", "\"", "\""] ∧
      ∃ content ∈ bracketed.literalsAtHand (InclusionCache.new 1 1) boldProgram, '"' ∈ content := by
  have hpieces : Piece.ofSource 1 "<b>\x7b\x7bx\x7d\x7d</b>\x7b\x7b y.z \x7d\x7d<!--INCLUDE f-->" =
      .ok [.text "<b>", .block .expression "x", .text "</b>", .block .expression " y.z ",
        .block .comment "INCLUDE f"] := by
    decide +kernel
  have hprogram : Program.ofSource ⟨256, 10⟩
      "<b>\x7b\x7bx\x7d\x7d</b>\x7b\x7b y.z \x7d\x7d<!--INCLUDE f-->" = .ok boldProgram := by
    rw [Program.ofSource_of_tokens (Token.ofSource_of_pieces hpieces)]
    rfl
  have hrun : (bracketed.evaluate (InclusionCache.new 1 1) boldProgram).1 =
      .completed ("<b>[&quot;&lt;&#x27;&gt;&quot;]</b>\x7b\x7b y.z \x7d\x7d" ++
        "\"[&quot;&lt;&#x27;&gt;&quot;]\"".toList) := by
    decide +kernel
  have hliterals : bracketed.literalsAtHand (InclusionCache.new 1 1) boldProgram = ["<b>", "</b>", "\"", "\""] := by
    decide +kernel
  have horigin := (markup_from_literals hprogram rfl (allRead_new 1 1) hrun).2.1
  exact ⟨hprogram, hrun, hliterals, horigin '"' (by decide) (by decide)⟩

end Sandbox

end Stencil
