import Stencil.Proofs.Cache.Entries
import Stencil.Proofs.Sandbox.Recording

/-!
# Files loaded by a run

What a run does to the inclusions that are kept is to load files, one after the other: those that its moments ask for
(`cache_evaluate`).

A program that is kept is the one that a text is accepted as, and its key has the digest of that text
(`Loader.Genuine`). So as long as no two of the texts have one digest, it makes no difference to what is loaded which
programs are kept (`Loader.Genuine.load_eq`).
-/

namespace Stencil.Sandbox

open Template

/-! ## Loading files -/

namespace Loader

/-- The inclusions kept behind some loads. -/
def loadAll (l : Loader) (cache : InclusionCache) (paths : List Text) : InclusionCache :=
  paths.foldl (fun cache path => (l.load cache path).2) cache

/-- Whether the inclusions kept make no difference to what is loaded, now and later. -/
def Alike (l : Loader) (cache cache' : InclusionCache) : Prop :=
  ∀ paths path, (l.load (l.loadAll cache paths) path).1 = (l.load (l.loadAll cache' paths) path).1

lemma Alike.refl (l : Loader) (cache : InclusionCache) : l.Alike cache cache := fun _ _ => rfl

lemma Alike.load {l : Loader} {cache cache' : InclusionCache} (h : l.Alike cache cache') (path : Text) :
    (l.load cache path).1 = (l.load cache' path).1 ∧ l.Alike (l.load cache path).2 (l.load cache' path).2 :=
  ⟨h [] path, fun paths => h (path :: paths)⟩

/-- The text that is read for a path, if there is one. -/
def contents (l : Loader) (path : Text) : List Text :=
  match l.fetch path with
  | .ok (_, content) => [content]
  | .error _ => []

/-- The program of a path, read without a look at what is kept. -/
def loadAfresh (l : Loader) (path : Text) : Except Halt Program :=
  match l.fetch path with
  | .ok (_, content) => l.accept content
  | .error halt => .error halt

section Load

variable {l : Loader} {cache : InclusionCache} {path : Text}

/-- What is loaded is what would be loaded if nothing were kept, as long as what is found is what the text is accepted
as. -/
lemma load_eq_loadAfresh
    (hfound : ∀ place content program, l.fetch path = .ok (place, content) →
      (cache.lookup (place, Digest.ofText content)).1 = some program → l.accept content = .ok program) :
    (l.load cache path).1 = l.loadAfresh path := by
  unfold load loadAfresh
  cases hfetch : l.fetch path with
  | error halt => rfl
  | ok fetched =>
    obtain ⟨place, content⟩ := fetched
    dsimp only
    rcases hlookup : cache.lookup (place, Digest.ofText content) with ⟨kept, after⟩
    cases kept with
    | some program => exact (hfound place content program hfetch (congrArg Prod.fst hlookup)).symm
    | none =>
      dsimp only
      cases l.accept content <;> rfl

/-- A program that is loaded has been found, or its text accepted. -/
lemma found_or_accepted_of_load {program : Program} (h : (l.load cache path).1 = .ok program) :
    ∃ place content, l.fetch path = .ok (place, content) ∧
      ((cache.lookup (place, Digest.ofText content)).1 = some program ∨ l.accept content = .ok program) := by
  unfold load at h
  cases hfetch : l.fetch path with
  | error halt => simp [hfetch] at h
  | ok fetched =>
    obtain ⟨place, content⟩ := fetched
    refine ⟨place, content, rfl, ?_⟩
    rw [hfetch] at h
    dsimp only at h
    rcases hlookup : cache.lookup (place, Digest.ofText content) with ⟨kept, after⟩
    rw [hlookup] at h
    cases kept with
    | some found => exact .inl (congrArg some (Except.ok.inj h))
    | none =>
      dsimp only at h
      cases haccept : l.accept content with
      | error halt => simp [haccept] at h
      | ok accepted =>
        rw [haccept] at h
        exact .inr h

/-- What holds of all programs kept still does behind a load if it holds of a program that is accepted. -/
lemma everywhere_load {p : InclusionKey → Program → Prop} (h : cache.Everywhere p)
    (haccepted : ∀ place content program, l.fetch path = .ok (place, content) → l.accept content = .ok program →
      p (place, Digest.ofText content) program) :
    (l.load cache path).2.Everywhere p := by
  unfold load
  cases hfetch : l.fetch path with
  | error halt => exact h
  | ok fetched =>
    obtain ⟨place, content⟩ := fetched
    dsimp only
    have hafter := h.lookup (place, Digest.ofText content)
    rcases hlookup : cache.lookup (place, Digest.ofText content) with ⟨kept, after⟩
    rw [hlookup] at hafter
    cases kept with
    | some program => exact hafter
    | none =>
      dsimp only
      cases haccept : l.accept content with
      | error halt => exact hafter
      | ok program => exact hafter.store (haccepted place content program hfetch haccept)

end Load

end Loader

/-! ## Texts and their digests -/

/-- Whether no two of some texts have one digest. -/
def Collisionless (texts : List Text) : Prop :=
  ∀ t ∈ texts, ∀ u ∈ texts, Digest.ofText t = Digest.ofText u → t = u

lemma Collisionless.of_subset {texts more : List Text} (h : Collisionless more) (hsubset : texts ⊆ more) :
    Collisionless texts :=
  fun t ht u hu => h t (hsubset ht) u (hsubset hu)

namespace Loader

/-- Whether every program kept is what one of some texts is accepted as, under the digest of that text. -/
def Genuine (l : Loader) (texts : List Text) (cache : InclusionCache) : Prop :=
  cache.Everywhere fun key program => ∃ content ∈ texts, key.2 = Digest.ofText content ∧ l.accept content = .ok program

variable {l : Loader} {texts more : List Text} {cache : InclusionCache}

/-- A text that is accepted has passed the inspection, and its program is read from it. -/
lemma of_accept {content : Text} {program : Program} (h : l.accept content = .ok program) :
    Program.ofSource l.limits content = .ok program ∧
      ∃ report, l.validator.validateContent content = .ok report ∧ report.firstBlocking? = none := by
  unfold accept at h
  cases hreport : l.validator.validateContent content with
  | error fault => simp [hreport] at h
  | ok report =>
    rw [hreport] at h
    dsimp only at h
    cases hblocking : report.firstBlocking? with
    | some issue => simp [hblocking] at h
    | none =>
      rw [hblocking] at h
      dsimp only at h
      cases hprogram : Program.ofSource l.limits content with
      | error refusal => simp [hprogram, Except.mapError] at h
      | ok read =>
        rw [hprogram] at h
        exact ⟨congrArg _ (Except.ok.inj h), report, rfl, hblocking⟩

lemma Genuine.of_subset (h : l.Genuine texts cache) (hsubset : texts ⊆ more) : l.Genuine more cache :=
  h.imp fun _ _ ⟨content, hcontent, hprogram⟩ => ⟨content, hsubset hcontent, hprogram⟩

/-- A program found under the digest of a text is what that text is accepted as. -/
lemma Genuine.accept_eq (h : l.Genuine texts cache) {place : Files.Location} {content : Text} {program : Program}
    (hdistinct : Collisionless (content :: texts))
    (hfound : (cache.lookup (place, Digest.ofText content)).1 = some program) : l.accept content = .ok program := by
  obtain ⟨other, hother, hdigest, hprogram⟩ := h.of_lookup hfound
  have hsame := hdistinct content List.mem_cons_self other (List.mem_cons_of_mem _ hother) hdigest
  rw [hsame, hprogram]

lemma contents_of_fetch {path content : Text} {place : Files.Location} (h : l.fetch path = .ok (place, content)) :
    l.contents path = [content] := by
  rw [contents, h]

/-- What is loaded is what would be loaded if nothing were kept. -/
theorem Genuine.load_eq (h : l.Genuine texts cache) {path : Text}
    (hdistinct : Collisionless (l.contents path ++ texts)) : (l.load cache path).1 = l.loadAfresh path := by
  refine load_eq_loadAfresh fun place content program hfetch hfound => ?_
  rw [contents_of_fetch hfetch, List.singleton_append] at hdistinct
  -- what is found may have been stored for another path, but for this very text
  exact h.accept_eq hdistinct hfound

/-- What is kept behind a load is genuine again. -/
lemma Genuine.load (h : l.Genuine texts cache) (path : Text) :
    l.Genuine (l.contents path ++ texts) (l.load cache path).2 := by
  have hmore := h.of_subset (List.subset_append_right (l.contents path) texts)
  refine everywhere_load hmore fun place content program hfetch haccept => ⟨content, ?_, rfl, haccept⟩
  rw [contents_of_fetch hfetch]
  exact List.mem_cons_self

/-- A cache stays genuine when it loads one path after the other. -/
lemma Genuine.loadAll (h : l.Genuine texts cache) (paths : List Text) :
    l.Genuine (paths.flatMap l.contents ++ texts) (l.loadAll cache paths) := by
  induction paths generalizing texts cache with
  | nil => exact h
  | cons path paths ih =>
    refine (ih (h.load path)).of_subset fun t ht => ?_
    rw [List.flatMap_cons]
    simp only [List.mem_append] at ht ⊢
    rcases ht with ht | ht | ht
    · exact .inl (.inr ht)
    · exact .inl (.inl ht)
    · exact .inr ht

/-- While no two texts have one digest, it makes no difference which genuine programs are kept. -/
lemma Genuine.alike {cache' : InclusionCache} (h : l.Genuine texts cache) (h' : l.Genuine more cache')
    (hdistinct : ∀ paths : List Text, Collisionless (paths.flatMap l.contents ++ (texts ++ more))) :
    l.Alike cache cache' := by
  intro paths path
  have hpaths := hdistinct (path :: paths)
  rw [List.flatMap_cons, List.append_assoc] at hpaths
  have hfirst := ((h.of_subset (List.subset_append_left texts more)).loadAll paths).load_eq hpaths
  have hsecond := ((h'.of_subset (List.subset_append_right texts more)).loadAll paths).load_eq hpaths
  rw [hfirst, hsecond]

end Loader

/-! ## What a run loads -/

/-- The path that is asked for at a moment. -/
def Mark.path? : Mark → Option Text
  | inclusion path => some path
  | plain | turn => none

/-- The paths that moments ask for. -/
def asked (moments : List Moment) : List Text := moments.filterMap fun m => m.mark.path?

@[simp] lemma asked_nil : asked [] = [] := rfl

@[simp] lemma asked_append (moments later : List Moment) : asked (moments ++ later) = asked moments ++ asked later :=
  List.filterMap_append

@[simp] lemma asked_inclusion (path : Text) (run : Run) (moments : List Moment) :
    asked (⟨.inclusion path, run⟩ :: moments) = path :: asked moments := rfl

lemma asked_cons {mark : Mark} (h : mark.path? = none) (run : Run) (moments : List Moment) :
    asked (⟨mark, run⟩ :: moments) = asked moments :=
  List.filterMap_cons_none h

@[simp] lemma asked_plain (run : Run) (moments : List Moment) :
    asked (⟨.plain, run⟩ :: moments) = asked moments := rfl

/-- The inclusions kept behind some loads, if there is a loader. -/
def loaded (s : Sandbox) (cache : InclusionCache) (paths : List Text) : InclusionCache :=
  match s.loader with
  | some loader => loader.loadAll cache paths
  | none => cache

@[simp] lemma loaded_nil (s : Sandbox) (cache : InclusionCache) : s.loaded cache [] = cache := by
  unfold loaded
  cases s.loader <;> rfl

/-- What is loaded for more paths is loaded on top of what the earlier ones have left. -/
lemma loaded_append (s : Sandbox) (cache : InclusionCache) (paths later : List Text) :
    s.loaded cache (paths ++ later) = s.loaded (s.loaded cache paths) later := by
  unfold loaded
  cases s.loader with
  | none => rfl
  | some loader => exact List.foldl_append

lemma loaded_cons {s : Sandbox} {loader : Loader} (h : s.loader = some loader) (cache : InclusionCache) (path : Text)
    (paths : List Text) : s.loaded cache (path :: paths) = s.loaded (loader.load cache path).2 paths := by
  unfold loaded
  rw [h]
  rfl

namespace Recorded

variable {s : Sandbox} {room : Nat} {record first second body : Recorded}

/-- Whether the inclusions kept behind a record come of loading what it asks for. -/
def Loads (s : Sandbox) (record : Recorded) : Prop :=
  ∀ run, (behind record.action run).cache = s.loaded run.cache (asked (record.moments run))

/-- Two actions load what they ask for if each of them does. -/
lemma loads_andThen (h : Loads s first) (h' : Loads s second) : Loads s (first.andThen second) := by
  intro run
  rcases andThen_cases first second run with ⟨hbehind, hboth⟩ | ⟨hbehind, hone⟩
  · rw [hbehind, hboth, asked_append, loaded_append, ← h run]
    exact h' _
  · rw [hbehind, hone]
    exact h run

/-- An action one level deeper loads what it asks for. -/
lemma loads_nested (h : Loads s body) {mark : Mark} (hmark : mark.path? = none) : Loads s (nested s mark body) := by
  intro run
  have hbehind : behind (nested s mark body).action run = _ := behind_nested s body.action run
  rw [hbehind, nested]
  dsimp only
  split
  · rw [asked_nil, loaded_nil]
  · rw [List.cons_append, asked_cons hmark, asked_append, asked_plain, asked_nil, List.append_nil]
    exact h { run with depth := run.depth + 1 }

/-- An action under bindings loads what it asks for. -/
lemma loads_bound (h : Loads s body) (bindings : Scopes) : Loads s (bound bindings body) := by
  intro run
  have hbehind : behind (bound bindings body).action run = _ := behind_bound bindings body.action run
  rw [hbehind, bound]
  dsimp only
  rw [List.cons_append, asked_plain, asked_append, asked_plain, asked_nil, List.append_nil]
  exact h { run with scopes := bindings ++ run.scopes }

lemma loads_step {action : Action} (h : ∀ run, (behind action run).cache = run.cache) : Loads s (step action) := by
  intro run
  rw [step, asked_plain, asked_nil, loaded_nil]
  exact h run

/-- An inclusion loads its path, and then what its file asks for. -/
lemma loads_inclusion {execute : Program → Recorded} (h : ∀ program, Loads s (execute program)) (path : Text) :
    Loads s (inclusion s (some execute) path) := by
  intro run
  obtain ⟨-, hbehind, hnone⟩ | ⟨loader, hloader, ⟨halt, cache, hload, hbehind, hrefused⟩ |
    ⟨program, cache, hload, hbehind, hrun⟩⟩ := inclusion_cases s execute path run
  · rw [hbehind, hnone, asked_nil, loaded_nil]
  · rw [hbehind, hrefused, asked_inclusion, asked_plain, asked_nil, loaded_cons hloader, hload, loaded_nil]
  · rw [hbehind, hrun, List.cons_append, asked_inclusion, List.cons_append, asked_plain, asked_append, asked_plain,
      asked_nil, List.append_nil, loaded_cons hloader, hload]
    exact loads_nested (h program) rfl { run with cache, inclusionDepth := run.inclusionDepth + 1 }

/-- All that a run does to the inclusions kept is to load what it asks for. -/
lemma Composed.loads (h : Composed s room record) : Loads s record := by
  induction h with
  | skip => exact fun run => (loaded_nil s run.cache).symm
  | look => exact loads_step fun run => by rw [behind_look]
  | emit t =>
    refine loads_step fun run => ?_
    rw [behind_emit]
    split <;> rfl
  | andThen _ _ ih ih' => exact loads_andThen ih ih'
  | nested _ ih => exact loads_nested ih rfl
  | turn bindings _ ih =>
    exact loads_andThen (loads_step fun run => by rw [behind_countTurn]) (loads_bound (loads_nested ih rfl) bindings)
  | choice _ ih => exact fun run => ih run run
  | tooDeep path =>
    intro run
    obtain ⟨hbehind, hnone⟩ := inclusion_none s path run
    rw [hbehind, hnone, asked_nil, loaded_nil]
  | inclusion path _ ih => exact loads_inclusion ih path

end Recorded

/-- The inclusions kept behind a run, however it ends. -/
theorem cache_evaluate (s : Sandbox) (cache : InclusionCache) (program : Program) :
    (s.evaluate cache program).2 = s.loaded cache (asked (s.history cache program)) := by
  have hloads := (Recorded.composed_execute s s.budget.maxIncludeDepth program).loads (Run.start cache)
  rw [Recorded.action_execute] at hloads
  rw [history, asked_plain]
  refine Eq.trans ?_ hloads
  unfold evaluate behind
  cases s.execute s.budget.maxIncludeDepth program (Run.start cache) <;> rfl

end Stencil.Sandbox
