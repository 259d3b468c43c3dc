import Stencil.Proofs.Markup.Neutral
import Stencil.Proofs.Markup.TagForm

/-!
# The text between the tags of a sanitised document

A sanitised document is tags with runs of text between them (`runs`). The text of the document it was made of comes in
stretches between tags of any kind, and each stretch is neutralised by itself. A tag that is dropped leaves nothing, so
the stretches in front of it and behind it end up in one run (`Sanitizer.stretches`, `runs_rebuild`).

Main statement: a run of one stretch is neutral, and all runs are if no tag is dropped (`neutral_of_runs_sanitize`). A
run of two stretches need not be, whatever tags are allowed (`mem_runs_cutScheme`, `exists_run_not_neutral`).
-/

namespace Stencil.Markup

open Pattern

/-! ## Runs -/

/-- What is left of a text behind its first `>`. -/
def behindTag (t : Text) : Text := (t.dropWhile (· != '>')).tail

/-- The text in front of, between and behind the tags of a document. -/
def runs (t : Text) : List Text :=
  match Text.split (· == '<') t with
  | [] => []
  | first :: later => first :: later.map behindTag

/-- Text without a separator is in front of the first piece. -/
lemma split_append_of_not_mem {d : Char} {v : Text} (hv : d ∉ v) (t : Text) :
    Text.split (· == d) (v ++ t) = (Text.split (· == d) t).modifyHead (v ++ ·) := by
  induction v with
  | nil =>
    rw [List.nil_append, show (fun piece : Text => ([] : Text) ++ piece) = id from rfl]
    cases Text.split (· == d) t <;> rfl
  | cons c v ih =>
    have hc : (c == d) = false := beq_eq_false_iff_ne.2 fun heq => hv (by rw [heq]; exact List.mem_cons_self)
    rw [List.cons_append, Text.split, ih fun hmem => hv (List.mem_cons_of_mem _ hmem), hc]
    cases hs : Text.split (· == d) t with
    | nil => exact absurd hs (Text.split_ne_nil _ _)
    | cons piece pieces => rfl

lemma behindTag_append {body : Text} (hbody : '>' ∉ body) (t : Text) : behindTag (body ++ '>' :: t) = t := by
  have hclose : ∀ c ∈ body, (c != '>') = true := fun c hc => bne_iff_ne.2 fun heq => hbody (heq ▸ hc)
  rw [behindTag, List.dropWhile_append_of_pos hclose, List.dropWhile_cons_of_neg (by simp), List.tail_cons]

/-- Text in front of a document belongs to its first run. -/
lemma runs_append {v : Text} (hv : '<' ∉ v) (t : Text) : runs (v ++ t) = (runs t).modifyHead (v ++ ·) := by
  rw [runs, split_append_of_not_mem hv, runs]
  cases Text.split (· == '<') t <;> rfl

/-- A tag in front of a document ends a run without text. -/
lemma runs_tag_append {body : Text} (hbody : ∀ c ∈ brackets, c ∉ body) (t : Text) :
    runs ('<' :: body ++ ['>'] ++ t) = [] :: runs t := by
  obtain ⟨hopen, hclose⟩ := forall_mem_brackets.1 hbody
  have hbody : '<' ∉ body ++ ['>'] := by simp [hopen]
  rw [runs, show '<' :: body ++ ['>'] ++ t = [] ++ '<' :: (body ++ ['>'] ++ t) by simp,
    Text.split_append_separator (by rfl), split_append_of_not_mem hbody, runs]
  cases hs : Text.split (· == '<') t with
  | nil => exact absurd hs (Text.split_ne_nil _ _)
  | cons first later =>
    show [] :: (behindTag (body ++ ['>'] ++ first) :: later.map behindTag) = _
    rw [List.append_assoc, List.singleton_append, behindTag_append hclose]

/-! ## Stretches -/

/-- The stretches of text of a document, put together as tags are dropped: a tag that is kept begins the next row. -/
def Sanitizer.stretches (s : Sanitizer) : List Part → List (List Text)
  | [] => [[]]
  | .plain t :: rest => (s.stretches rest).modifyHead (t :: ·)
  | .found m :: rest => if (Tag.ofMatch? s.allowed m).isSome then [] :: s.stretches rest else s.stretches rest

/-- The runs of what is written are the stretches between its tags. -/
lemma runs_flatten_written {extra : List Text} {parts : List Part}
    (hparts : ∀ m, .found m ∈ parts →
      ∃ position previous t, Tag.shape.matchAt? position previous t = some m) :
    runs (parts.map (Sanitizer.ofExtraTags extra).written).flatten =
      ((Sanitizer.ofExtraTags extra).stretches parts).map fun row => row.flatMap neutralize := by
  induction parts with
  | nil => rfl
  | cons part rest ih =>
    have ih := ih fun m hm => hparts m (List.mem_cons_of_mem _ hm)
    rw [List.map_cons, List.flatten_cons]
    cases part with
    | plain t =>
      rw [show (Sanitizer.ofExtraTags extra).written (.plain t) = neutralize t from rfl,
        runs_append (lt_not_mem_neutralize t), ih, Sanitizer.stretches]
      cases (Sanitizer.ofExtraTags extra).stretches rest <;> rfl
    | found m =>
      obtain ⟨position, previous, t, hm⟩ := hparts m List.mem_cons_self
      rw [Sanitizer.written_found, Sanitizer.stretches]
      cases htag : Tag.ofMatch? (Sanitizer.ofExtraTags extra).allowed m with
      | none => exact ih
      | some tag =>
        obtain ⟨body, hbody, hnone⟩ := (tagForm_of_ofMatch? hm htag).exists_body
        rw [Option.map_some, Option.getD_some, hbody, runs_tag_append hnone, ih]
        rfl

/-- The runs of a rebuilt document are rows of stretches, each of them neutralised. -/
theorem runs_rebuild (extra : List Text) (t : Text) :
    runs ((Sanitizer.ofExtraTags extra).rebuild t) =
      ((Sanitizer.ofExtraTags extra).stretches (Tag.shape.parts t)).map fun row => row.flatMap neutralize := by
  rw [Sanitizer.rebuild_eq]
  exact runs_flatten_written fun m hm => exists_matchAt?_of_mem_parts hm

/-- A row of one stretch is neutral. -/
lemma neutral_of_length_le {row : List Text} (h : row.length ≤ 1) : Neutral (row.flatMap neutralize) := by
  match row, h with
  | [], _ => exact neutral_neutralize []
  | [t], _ =>
    rw [List.flatMap_singleton]
    exact neutral_neutralize t

/-! ## Documents of which no tag is dropped -/

/-- If no tag is dropped, a row has one stretch at most, and the first row none behind a tag. -/
lemma Sanitizer.length_stretches_le {s : Sanitizer} {parts : List Part}
    (hchain : parts.IsChain fun a b => a.match?.isSome = true ∨ b.match?.isSome = true)
    (hkept : ∀ m, .found m ∈ parts → (Tag.ofMatch? s.allowed m).isSome = true) :
    (∀ row ∈ s.stretches parts, row.length ≤ 1) ∧
      ((∀ part, parts.head? = some part → part.match?.isSome = true) → (s.stretches parts).head? = some []) := by
  induction parts with
  | nil => simp [Sanitizer.stretches]
  | cons part rest ih =>
    obtain ⟨hrows, hfirst⟩ := ih hchain.tail fun m hm => hkept m (List.mem_cons_of_mem _ hm)
    cases part with
    | found m =>
      rw [Sanitizer.stretches, if_pos (hkept m List.mem_cons_self)]
      exact ⟨List.forall_mem_cons.2 ⟨Nat.zero_le _, hrows⟩, fun _ => rfl⟩
    | plain t =>
      -- no two plain parts follow each other, so the text is alone in its stretch
      have hnext : ∀ part, rest.head? = some part → part.match?.isSome = true := by
        intro part hpart
        cases rest with
        | nil => simp at hpart
        | cons part' rest =>
          obtain rfl : part' = part := by simpa using hpart
          rcases (List.isChain_cons_cons.1 hchain).1 with hplain | hfound
          · exact Bool.noConfusion hplain
          · exact hfound
      obtain ⟨rows, hstretches⟩ := List.head?_eq_some_iff.1 (hfirst hnext)
      rw [Sanitizer.stretches, hstretches, List.modifyHead_cons]
      rw [hstretches] at hrows
      refine ⟨List.forall_mem_cons.2 ⟨Nat.le_refl _, fun row hrow => hrows row (List.mem_cons_of_mem _ hrow)⟩, ?_⟩
      intro hhead
      exact absurd (hhead (.plain t) rfl) Bool.false_ne_true

/-- The runs of a sanitised document are rows of stretches that are neutralised one by one, and a row of no more than
one stretch is neutral. So all runs are neutral if no tag is dropped. -/
theorem neutral_of_runs_sanitize (extra : List Text) (html : Text) :
    runs ((Sanitizer.ofExtraTags extra).sanitize html) =
        ((Sanitizer.ofExtraTags extra).stretches (Tag.shape.parts (sweepRounds maxRounds html))).map
          (fun row => row.flatMap neutralize) ∧
      (∀ row ∈ (Sanitizer.ofExtraTags extra).stretches (Tag.shape.parts (sweepRounds maxRounds html)),
        row.length ≤ 1 → Neutral (row.flatMap neutralize)) ∧
      ((∀ m, .found m ∈ Tag.shape.parts (sweepRounds maxRounds html) →
          (Tag.ofMatch? (Sanitizer.ofExtraTags extra).allowed m).isSome = true) →
        ∀ run ∈ runs ((Sanitizer.ofExtraTags extra).sanitize html), Neutral run) := by
  have hruns := runs_rebuild extra (sweepRounds maxRounds html)
  refine ⟨hruns, fun row _ => neutral_of_length_le, fun hkept run hrun => ?_⟩
  rw [Sanitizer.sanitize, hruns] at hrun
  obtain ⟨row, hrow, rfl⟩ := List.mem_map.1 hrun
  exact neutral_of_length_le ((Sanitizer.length_stretches_le (isChain_parts _ _) hkept).1 row hrow)

/-! ## What a dropped tag joins -/

/-- A tag that is kept parts two stretches. -/
lemma Sanitizer.stretches_kept {s : Sanitizer} {m : Match} (h : Text.toLower (m.group 2) ∈ s.allowed)
    (rest : List Part) : s.stretches (.found m :: rest) = [] :: s.stretches rest := by
  have hkept : (Tag.ofMatch? s.allowed m).isSome = true := by
    unfold Tag.ofMatch?
    dsimp only
    rw [if_neg (by simpa using h)]
    split <;> rfl
  rw [Sanitizer.stretches, if_pos hkept]

/-- A tag that is dropped parts nothing. -/
lemma Sanitizer.stretches_dropped {s : Sanitizer} {m : Match} (h : Text.toLower (m.group 2) ∉ s.allowed)
    (rest : List Part) : s.stretches (.found m :: rest) = s.stretches rest := by
  have hdropped : Tag.ofMatch? s.allowed m = none := by
    unfold Tag.ofMatch?
    dsimp only
    rw [if_pos (by simpa using h)]
  rw [Sanitizer.stretches, hdropped]
  rfl

/-- Whatever is allowed besides, a forbidden tag is not. -/
lemma not_mem_allowed (extra : List Text) (name : Text) (h : name ∈ forbiddenTags) :
    name ∉ (Sanitizer.ofExtraTags extra).allowed := by
  intro hmem
  have := (List.mem_filter.1 hmem).2
  simp [h] at this

/-- Whatever is allowed besides, a default tag that is not forbidden is. -/
lemma mem_allowed (extra : List Text) (name : Text) (h : name ∈ defaultTags) (hpermitted : name ∉ forbiddenTags) :
    name ∈ (Sanitizer.ofExtraTags extra).allowed :=
  List.mem_filter.2 ⟨List.mem_append_left _ h, by simpa using hpermitted⟩

deriving instance DecidableEq for Pattern.Part

/-- The scheme of a script in a paragraph, with the beginning of a form inside. -/
def cutScheme : Text := "<p>java<form>script:alert(1)</p>"

/-- A tag without attributes as it is found. -/
def foundTag (start : Nat) (text name slash : Text) : Match := ⟨start, text, [(3, []), (2, name), (1, slash)]⟩

/-- The parts of this document. -/
def cutSchemeParts : List Pattern.Part := [
  .found (foundTag 0 "<p>" "p" []),
  .plain "java",
  .found (foundTag 7 "<form>" "form" []),
  .plain "script:alert(1)",
  .found (foundTag 28 "</p>" "p" ['/'])]

/-- The form is dropped, and the two stretches of text come together. -/
lemma stretches_cutSchemeParts (extra : List Text) :
    (Sanitizer.ofExtraTags extra).stretches cutSchemeParts = [[], ["java".toList, "script:alert(1)".toList], []] := by
  have hname : ∀ start text name slash, (foundTag start text name slash).group 2 = name := fun _ _ _ _ => rfl
  have hform := not_mem_allowed extra (Text.toLower "form") (by decide)
  have hp := mem_allowed extra (Text.toLower "p") (by decide) (by decide)
  rw [cutSchemeParts, Sanitizer.stretches_kept (by rwa [hname]), Sanitizer.stretches,
    Sanitizer.stretches_dropped (by rwa [hname]), Sanitizer.stretches, Sanitizer.stretches_kept (by rwa [hname]),
    Sanitizer.stretches]
  rfl

/-- A scheme that a dropped tag has cut in two is whole in the output. -/
theorem mem_runs_cutScheme (extra : List Text) :
    "javascript:alert(1)".toList ∈ runs ((Sanitizer.ofExtraTags extra).sanitize cutScheme) := by
  have hswept : sweepRounds maxRounds cutScheme = cutScheme := by decide +kernel
  have hparts : Tag.shape.parts cutScheme = cutSchemeParts := by decide +kernel
  have hjoined : ["java".toList, "script:alert(1)".toList].flatMap neutralize = "javascript:alert(1)".toList := by
    decide +kernel
  rw [Sanitizer.sanitize, hswept, runs_rebuild, hparts, stretches_cutSchemeParts, ← hjoined]
  exact List.mem_map_of_mem (List.mem_cons_of_mem _ List.mem_cons_self)

/-- A scheme that is cut in two by a tag comes out whole when the tag is dropped. -/
theorem exists_run_not_neutral :
    ∃ run ∈ runs ((Sanitizer.ofExtraTags []).sanitize cutScheme), ¬ Neutral run :=
  ⟨_, mem_runs_cutScheme [], fun hneutral => absurd hneutral.1 (by decide +kernel)⟩

end Stencil.Markup
