import Stencil.Proofs.Sandbox.Loading
import Stencil.Renderer.Attempt

/-!
# Caches make no difference

A renderer keeps the reports of texts and the programs of inclusions. Whatever it has done before (`Reached`), however
small its caches are and however the files have changed meanwhile, the report of a text and the program of a path are
those that it would give if nothing were kept (`caches_transparent`), as long as no two of the texts that it has come
across have one digest.

Every report that is kept is the one of a text under the digest of that text, and so is every program (`Sound`). No part
of an attempt stores anything else.
-/

namespace Stencil

open Inspection Policy Template Sandbox

/-- What files are like at some time: how paths are confined, and what is read at a location. -/
structure Disk where
  confine : Text → Option Files.Location
  read : Files.Location → Except Fault Text

/-- A loader when files are like this. -/
def Sandbox.Loader.on (l : Loader) (disk : Disk) : Loader := { l with confine := disk.confine, read := disk.read }

namespace Renderer

/-- A renderer when files are like this. -/
def on (r : Renderer) (disk : Disk) : Renderer := { r with loader := r.loader.map fun loader => loader.on disk }

variable {r : Renderer} {texts more : List Text} {st : State} {α β : Type}

/-! ## Parts of an attempt -/

/-- What a part of an attempt answers. -/
def answerOf : EStateM.Result Fault State α → Except Fault α
  | .ok a _ => .ok a
  | .error fault _ => .error fault

/-- The state behind a part of an attempt, however it ends. -/
def stateBehind : EStateM.Result Fault State α → State
  | .ok _ after => after
  | .error _ after => after

/-- Whether what holds of the state in front of a part of an attempt holds behind it as well. -/
def Keeps (p : State → Prop) (stage : Stage α) : Prop := ∀ st, p st → p (stateBehind (stage st))

/-- The state behind two stages is that behind the second, or behind the first if it fails. -/
lemma stateBehind_bind (stage : Stage α) (next : α → Stage β) (st : State) :
    stateBehind ((stage >>= next) st) =
      match stage st with
      | .ok a between => stateBehind (next a between)
      | .error _ after => after := by
  change stateBehind (EStateM.bind stage next st) = _
  unfold EStateM.bind
  cases stage st <;> rfl

/-- Two stages keep a property if each of them does. -/
lemma keeps_bind {p : State → Prop} {stage : Stage α} {next : α → Stage β} (h : Keeps p stage)
    (hnext : ∀ a, Keeps p (next a)) : Keeps p (stage >>= next) := by
  intro st hst
  have hbetween := h st hst
  rw [stateBehind_bind]
  cases hstage : stage st with
  | ok a between =>
    rw [hstage] at hbetween
    exact hnext a between hbetween
  | error fault after =>
    rw [hstage] at hbetween
    exact hbetween

/-- A rejection is measured, and nothing else. -/
lemma of_gated {p : State → Prop} (hmeasure : ∀ st change, p st → p (st.measure change)) {stage : Stage α}
    {st : State} (h : p (stateBehind (stage st))) (gate : Gate) : p (stateBehind (gated gate stage st)) := by
  unfold gated
  cases hstage : stage st with
  | ok a after =>
    rw [hstage] at h
    exact h
  | error fault after =>
    rw [hstage] at h
    exact hmeasure after (fun m => m.countRejection gate.name) h

lemma keeps_gated {p : State → Prop} (hmeasure : ∀ st change, p st → p (st.measure change)) {stage : Stage α}
    (h : Keeps p stage) (gate : Gate) : Keeps p (gated gate stage) :=
  fun st hst => of_gated hmeasure (h st hst) gate

lemma keeps_settled (p : State → Prop) (answer : Except Fault α) : Keeps p (settled answer) := by
  intro st hst
  unfold settled
  cases answer <;> exact hst

/-! ## What the caches hold -/

/-- Whether all that is kept comes of some texts and stands under their digests. -/
structure Sound (r : Renderer) (texts : List Text) (st : State) : Prop where
  reports : st.reports.Everywhere fun key report =>
    ∃ content ∈ texts, key = Digest.ofText content ∧ r.validator.validateContent content = .ok report
  inclusions : ∀ loader, r.loader = some loader → loader.Genuine texts st.inclusions

/-- A state that is sound for some texts is so for more. -/
lemma Sound.of_subset (h : r.Sound texts st) (hsubset : texts ⊆ more) : r.Sound more st where
  reports := h.reports.imp fun _ _ ⟨content, hcontent, hreport⟩ => ⟨content, hsubset hcontent, hreport⟩
  inclusions := fun loader hloader => (h.inclusions loader hloader).of_subset hsubset

/-- What files are like has no part in whether a text is accepted. -/
lemma Sound.on (h : r.Sound texts st) (disk : Disk) : (r.on disk).Sound texts st where
  reports := h.reports
  inclusions := by
    intro loader hloader
    obtain ⟨before, hbefore, rfl⟩ := Option.map_eq_some_iff.1 hloader
    exact h.inclusions before hbefore

lemma Sound.of_on {disk : Disk} (h : (r.on disk).Sound texts st) : r.Sound texts st where
  reports := h.reports
  inclusions := fun loader hloader => h.inclusions (loader.on disk) (congrArg (Option.map _) hloader)

/-! ## What the gates keep -/

lemma Sound.measure (h : r.Sound texts st) (change : Metrics.Registry → Metrics.Registry) :
    r.Sound texts (st.measure change) := ⟨h.reports, h.inclusions⟩

lemma Sound.gated {stage : Stage α} (h : r.Sound texts (stateBehind (stage st))) (gate : Gate) :
    r.Sound texts (stateBehind (gated gate stage st)) :=
  of_gated (fun _ change h => h.measure change) h gate

lemma Sound.keeps_gated {stage : Stage α} (h : Keeps (Sound r texts) stage) (gate : Gate) :
    Keeps (Sound r texts) (Renderer.gated gate stage) :=
  Renderer.keeps_gated (fun _ change h => h.measure change) h gate

lemma keeps_checkPermission (template : Template) (q : Request) :
    Keeps (Sound r texts) (checkPermission template q) := by
  intro st hst
  unfold checkPermission
  split <;> exact hst

lemma keeps_checkRate (q : Request) : Keeps (Sound r texts) (checkRate q) := by
  intro st hst
  unfold checkRate
  split <;> exact ⟨hst.reports, hst.inclusions⟩

/-- Only a report that has just been made is stored, under the digest of its text. -/
lemma keeps_inspect {content : Text} (hcontent : content ∈ texts) : Keeps (Sound r texts) (r.inspect content) := by
  intro st hst
  unfold inspect
  split
  · exact hst
  · -- to look a key up only moves entries about
    have hlooked := hst.reports.lookup (Digest.ofText content)
    dsimp only
    rcases hlookup : st.reports.lookup (Digest.ofText content) with ⟨kept, reports⟩
    rw [hlookup] at hlooked
    cases kept with
    | some report => exact ⟨hlooked, hst.inclusions⟩
    | none =>
      dsimp only
      cases hreport : r.validator.validateContent content with
      | error fault => exact ⟨hlooked, hst.inclusions⟩
      | ok report => exact ⟨hlooked.store ⟨content, hcontent, rfl, hreport⟩, hst.inclusions⟩

/-- The gates in front of the evaluation: what they let through is the context and the program. -/
def prepare (r : Renderer) (template : Template) (q : Request) : Stage (CleanContext × Program) := do
  settled (checkCancelled q)
  gated .permission (checkPermission template q)
  gated .rate (checkRate q)
  let report ← gated .validation (r.inspect template.content)
  gated .validation (settled (refuseBlocking report))
  let context ← gated .context (settled (CleanContext.ofContext r.validator template q.context))
  let program ← gated .reading
    (settled ((Program.ofSource r.budget.parseLimits template.content).mapError .ofRefusal))
  return (context, program)

/-- A rendering prepares the context and the program, evaluates it and presents the result. -/
lemma execute_eq_prepare (r : Renderer) (template : Template) (q : Request) :
    r.execute template q = do
      let (context, program) ← r.prepare template q
      let raw ← gated .evaluation (r.evaluate q context program)
      return r.present template raw := by
  simp only [execute, prepare, bind_assoc, pure_bind]

/-- To prepare a template whose text was seen keeps states sound. -/
lemma keeps_prepare {template : Template} (hcontent : template.content ∈ texts) (q : Request) :
    Keeps (Sound r texts) (r.prepare template q) := by
  refine keeps_bind (keeps_settled _ _) fun _ => ?_
  refine keeps_bind (Sound.keeps_gated (keeps_checkPermission template q) _) fun _ => ?_
  refine keeps_bind (Sound.keeps_gated (keeps_checkRate q) _) fun _ => ?_
  refine keeps_bind (Sound.keeps_gated (keeps_inspect hcontent) _) fun report => ?_
  refine keeps_bind (Sound.keeps_gated (keeps_settled _ _) _) fun _ => ?_
  refine keeps_bind (Sound.keeps_gated (keeps_settled _ _) _) fun context => ?_
  exact keeps_bind (Sound.keeps_gated (keeps_settled _ _) _) fun program => fun _ hst => hst

/-! ## What an evaluation keeps -/

/-- The sandbox of an attempt. -/
def sandboxOf (r : Renderer) (q : Request) (context : CleanContext) : Sandbox :=
  ⟨r.budget, r.escape, context, q.deadline, r.loader⟩

/-- The texts of files at some paths; there are none without a loader. -/
def contents (r : Renderer) (paths : List Text) : List Text :=
  match r.loader with
  | some loader => paths.flatMap loader.contents
  | none => []

/-- The texts of the files that an evaluation asks for, if the state is like this in front of it. -/
def contentsEvaluated (r : Renderer) (q : Request) (context : CleanContext) (program : Program) (st : State) :
    List Text :=
  r.contents (asked ((r.sandboxOf q context).history st.inclusions program))

/-- An evaluation keeps programs of the files that it asks for. -/
lemma Sound.evaluate (h : r.Sound texts st) (q : Request) (context : CleanContext) (program : Program) :
    r.Sound (r.contentsEvaluated q context program st ++ texts) (stateBehind (r.evaluate q context program st)) := by
  -- all that a run does to the programs that are kept is to load the files it asks for
  have hcache := cache_evaluate (r.sandboxOf q context) st.inclusions program
  have hmore := h.of_subset (List.subset_append_right (r.contentsEvaluated q context program st) texts)
  have hinclusions : ∀ loader, r.loader = some loader →
      loader.Genuine (r.contentsEvaluated q context program st ++ texts)
        ((r.sandboxOf q context).evaluate st.inclusions program).2 := by
    intro loader hloader
    rw [hcache, loaded, contentsEvaluated, contents, show (r.sandboxOf q context).loader = some loader from hloader,
      hloader]
    exact (h.inclusions loader hloader).loadAll _
  unfold Renderer.evaluate
  dsimp only
  split <;> exact ⟨hmore.reports, hinclusions⟩

/-! ## Attempts -/

/-- The texts that an attempt comes across: that of the template, and those of the files that the evaluation asks for if
no gate in front of it rejects the attempt. -/
def textsSeen (r : Renderer) (template : Template) (q : Request) (st : State) : List Text :=
  template.content :: match r.prepare template q st with
    | .ok (context, program) ready => r.contentsEvaluated q context program ready
    | .error _ _ => []

/-- The end of an attempt leaves the caches as they are. -/
lemma Sound.render_of_execute {template : Template} {q : Request}
    (h : r.Sound texts (stateBehind (r.execute template q (begin st)))) : r.Sound texts (r.render st template q).2 := by
  unfold Renderer.render
  cases hexecute : r.execute template q (begin st) with
  | ok output after =>
    rw [hexecute] at h
    exact ⟨h.reports, h.inclusions⟩
  | error fault after =>
    rw [hexecute] at h
    exact ⟨h.reports, h.inclusions⟩

/-- A rendering keeps states sound, for the texts that it has seen as well. -/
lemma Sound.execute (h : r.Sound texts st) (template : Template) (q : Request) :
    r.Sound (r.textsSeen template q st ++ texts) (stateBehind (r.execute template q st)) := by
  have hprepare := keeps_prepare List.mem_cons_self q st (h.of_subset (List.subset_cons_self template.content texts))
  rw [execute_eq_prepare, stateBehind_bind, textsSeen]
  cases hready : r.prepare template q st with
  | error fault after =>
    rw [hready] at hprepare
    exact hprepare
  | ok found ready =>
    obtain ⟨context, program⟩ := found
    have hpassed : r.Sound (template.content :: texts) ready := by
      rw [hready] at hprepare
      exact hprepare
    have hevaluate := (hpassed.evaluate q context program).gated .evaluation
    have hafter := hevaluate.of_subset (List.perm_middle (a := template.content)).subset
    dsimp only
    rw [stateBehind_bind]
    cases hraw : Renderer.gated .evaluation (r.evaluate q context program) ready with
    | ok raw after =>
      rw [hraw] at hafter
      exact hafter
    | error fault after =>
      rw [hraw] at hafter
      exact hafter

/-! ## Everything that a renderer does -/

/-- The states that a renderer reaches, with the texts that it has come across. It starts with empty caches of any size;
the files may be different ones for each attempt and each load. -/
inductive Reached (r : Renderer) : State → List Text → Prop where
  | start {shardOf : Text → Nat} {shardOfKey : InclusionKey → Nat} {capacity shards capacity' shards' : Nat}
      (st : State) (hreports : st.reports = .new shardOf capacity shards)
      (hinclusions : st.inclusions = Cache.new shardOfKey capacity' shards') : Reached r st []
  | render {st : State} {seen : List Text} (h : Reached r st seen) (disk : Disk) (template : Template) (q : Request) :
      Reached r ((r.on disk).render st template q).2 ((r.on disk).textsSeen template q (begin st) ++ seen)
  | inspect {st : State} {seen : List Text} (h : Reached r st seen) (template : Template) :
      Reached r (r.validateTemplate st template).2 (template.content :: seen)
  -- files that change in the course of an attempt: the attempt is its inspection, and then load after load
  | load {st : State} {seen : List Text} (h : Reached r st seen) {loader : Loader} (hloader : r.loader = some loader)
      (disk : Disk) (path : Text) :
      Reached r { st with inclusions := ((loader.on disk).load st.inclusions path).2 }
        ((loader.on disk).contents path ++ seen)
  -- permissions, stamps, metrics and the audit may become whatever they like
  | other {st : State} {seen : List Text} (h : Reached r st seen) (st' : State) (hreports : st'.reports = st.reports)
      (hinclusions : st'.inclusions = st.inclusions) : Reached r st' seen

/-- A state with new caches is sound, whatever was seen. -/
lemma Sound.start {shardOf : Text → Nat} {shardOfKey : InclusionKey → Nat} {capacity shards capacity' shards' : Nat}
    (hreports : st.reports = .new shardOf capacity shards)
    (hinclusions : st.inclusions = Cache.new shardOfKey capacity' shards') : r.Sound [] st where
  reports := by
    rw [hreports]
    exact Cache.everywhere_new _ shardOf capacity shards
  inclusions := by
    intro loader _
    rw [hinclusions]
    exact Cache.everywhere_new _ shardOfKey capacity' shards'

/-- In all states that are reached, what is kept comes of the texts that the renderer has come across. -/
lemma Reached.sound {seen : List Text} (h : r.Reached st seen) : r.Sound seen st := by
  induction h with
  | start st hreports hinclusions => exact Sound.start hreports hinclusions
  | @render st seen _ disk template q ih =>
    -- whether a text is accepted does not depend on the files, so the attempt may be made with those of its time
    have hbegin : r.Sound seen (begin st) := ⟨ih.reports, ih.inclusions⟩
    exact (Sound.render_of_execute ((hbegin.on disk).execute template q)).of_on
  | @inspect st seen _ template ih =>
    have hinspect := keeps_inspect List.mem_cons_self st (ih.of_subset (List.subset_cons_self template.content seen))
    unfold validateTemplate
    cases hreport : r.inspect template.content st with
    | ok report after =>
      rw [hreport] at hinspect
      exact hinspect
    | error fault after =>
      rw [hreport] at hinspect
      exact hinspect
  | @load st seen _ loader hloader disk path ih =>
    have hmore := ih.of_subset (List.subset_append_right ((loader.on disk).contents path) seen)
    refine ⟨hmore.reports, fun other hother => ?_⟩
    obtain rfl : loader = other := Option.some.inj (hloader.symm.trans hother)
    exact Loader.Genuine.load (l := loader.on disk) (ih.inclusions loader hloader) path
  | other _ st' hreports hinclusions ih => exact ⟨hreports ▸ ih.reports, hinclusions ▸ ih.inclusions⟩

/-- The first state is reached. -/
theorem reached_new? {c : Configuration} {audit : Audit.Sink} (h : State.new? c audit = some st) :
    r.Reached st [] := by
  unfold State.new? at h
  dsimp only at h
  split at h
  · simp at h
  · obtain rfl := Option.some.inj h
    exact .start _ rfl rfl

/-! ## Transparency -/

/-- The report of a text, without a look at what is kept. -/
def inspectAfresh (r : Renderer) (content : Text) : Except Fault Report :=
  if r.budget.maxContentBytes < Text.byteLength content then .error (.exhausted .size)
  else r.validator.validateContent content

/-- In a sound state, a text gets the report that it would get afresh. -/
lemma Sound.inspect_eq (h : r.Sound texts st) {content : Text} (hdistinct : Collisionless (content :: texts)) :
    answerOf (r.inspect content st) = r.inspectAfresh content := by
  unfold inspect inspectAfresh
  split
  · rfl
  · dsimp only
    rcases hlookup : st.reports.lookup (Digest.ofText content) with ⟨kept, reports⟩
    cases kept with
    | some report =>
      obtain ⟨other, hother, hdigest, hreport⟩ := h.reports.of_lookup (congrArg Prod.fst hlookup)
      have hsame := hdistinct content List.mem_cons_self other (List.mem_cons_of_mem _ hother) hdigest
      rw [hsame, hreport]
      rfl
    | none =>
      dsimp only
      cases r.validator.validateContent content <;> rfl

/-- Whatever a renderer has done before, the report of a text and the program of a path are those that it would give if
nothing were kept. A program that is found is read from the very text that the file has now, and nothing in that text is
blocking. -/
theorem caches_transparent {seen : List Text} (h : r.Reached st seen) :
    (∀ content, Collisionless (content :: seen) → answerOf (r.inspect content st) = r.inspectAfresh content) ∧
    ∀ loader disk path, r.loader = some loader → Collisionless ((loader.on disk).contents path ++ seen) →
      (∀ shardOf capacity shards, ((loader.on disk).load st.inclusions path).1 =
        ((loader.on disk).load (Cache.new shardOf capacity shards) path).1) ∧
      ∀ place content program, (loader.on disk).fetch path = .ok (place, content) →
        (st.inclusions.lookup (place, Digest.ofText content)).1 = some program →
          Program.ofSource loader.limits content = .ok program ∧
            ∃ report, loader.validator.validateContent content = .ok report ∧ report.firstBlocking? = none := by
  have hsound := h.sound
  refine ⟨fun content hdistinct => hsound.inspect_eq hdistinct, fun loader disk path hloader hdistinct => ?_⟩
  have hgenuine : (loader.on disk).Genuine seen st.inclusions := hsound.inclusions loader hloader
  refine ⟨fun shardOf capacity shards => ?_, fun place content program hfetch hfound => ?_⟩
  · -- an empty cache is genuine as well, and of genuine caches it makes no difference which one is there
    have hempty : (loader.on disk).Genuine seen (Cache.new shardOf capacity shards) := Cache.everywhere_new _ _ _ _
    rw [hgenuine.load_eq hdistinct, hempty.load_eq hdistinct]
  · rw [Loader.contents_of_fetch hfetch, List.singleton_append] at hdistinct
    exact Loader.of_accept (hgenuine.accept_eq hdistinct hfound)

/-- A loader of short files. -/
def shortFiles : Loader := ⟨fun _ => none, fun _ => .ok [], ⟨⟨100, 0, .warning, false⟩, .none⟩, ⟨100, 5⟩⟩

/-- A disk with one file only, to which every path leads. -/
def oneFile (content : Text) : Disk := ⟨fun _ => some ["f"], fun _ => .ok content⟩

/-- A renderer that includes short files. -/
def includer : Renderer := ⟨.ofProfile .basic, shortFiles.validator, .html, .ofExtraTags [], some shortFiles⟩

/-- A state before any render. -/
def unused : State := ⟨.none, .new [], .new Cache.spread 1 1, .new 2 1, .empty, .log⟩

/-- The state behind a load of a file with a text. -/
def withFile (content : Text) (st : State) : State :=
  { st with inclusions := ((shortFiles.on (oneFile content)).load st.inclusions "f").2 }

lemma reached_withFile {seen : List Text} (h : includer.Reached st seen) (content : Text) :
    includer.Reached (withFile content st) (content :: seen) :=
  h.load rfl (oneFile content) "f"

/-- The state behind two loads of one file, which has been edited meanwhile. -/
def edited : State := withFile "new" (withFile "old" unused)

/-- The file has its old text again: its program is found, and it is the one that it would be without the cache. -/
theorem transparent_edited :
    includer.Reached edited ["new", "old"] ∧ Collisionless ["old", "new", "old"] ∧
      answerOf (includer.inspect "old" edited) = includer.inspectAfresh "old" ∧
      ((shortFiles.on (oneFile "old")).load edited.inclusions "f").1 =
        ((shortFiles.on (oneFile "old")).load (InclusionCache.new 1 1) "f").1 ∧
      ∃ program, (edited.inclusions.lookup (["f"], Digest.ofText "old")).1 = some program ∧
        Program.ofSource shortFiles.limits "old" = .ok program := by
  have hreached : includer.Reached edited ["new", "old"] :=
    reached_withFile (reached_withFile (.start unused rfl rfl) "old") "new"
  have hdistinct : Collisionless ["old", "new", "old"] := by
    unfold Collisionless
    decide +kernel
  have hfound : (edited.inclusions.lookup (["f"], Digest.ofText "old")).1.isSome = true := by decide +kernel
  obtain ⟨program, hprogram⟩ := Option.isSome_iff_exists.1 hfound
  obtain ⟨hreport, hload⟩ := caches_transparent hreached
  obtain ⟨hempty, hkept⟩ := hload shortFiles (oneFile "old") "f" rfl hdistinct
  exact ⟨hreached, hdistinct, hreport "old" hdistinct, hempty _ 1 1, program, hprogram,
    (hkept ["f"] "old" program rfl hprogram).1⟩

end Renderer

end Stencil
