import Stencil.Proofs.Sandbox.Loading

/-!
# Inclusions kept while their sources stay

A program is kept under the place and the digest of its text. As long as what stands at the places stays the same, a
load gives for each path the same answer (`Loader.Current.load_eq`), whatever has been loaded in between and whatever
has been dropped: that of the text that stands there (`Loader.loadAfresh`).

No two texts are compared by their digests here: what is kept under a place is only asked for with the text of that
place.
-/

namespace Stencil.Sandbox

open Template

namespace Loader

/-- Whether every program kept is what the text at its place is accepted as, unless another text stands there now. -/
def Current (l : Loader) (cache : InclusionCache) : Prop :=
  cache.Everywhere fun key program =>
    ∀ content, l.read key.1 = .ok content → Digest.ofText content = key.2 → l.accept content = .ok program

variable {l : Loader} {texts : List Text} {cache : InclusionCache}

lemma current_new (l : Loader) (capacity shards : Nat) : l.Current (InclusionCache.new capacity shards) :=
  Cache.everywhere_new _ _ capacity shards

/-- Genuine programs are current as long as no text that stands somewhere now has the digest of another one. -/
lemma Genuine.current (h : l.Genuine texts cache)
    (hdistinct : ∀ place content, l.read place = .ok content → Collisionless (content :: texts)) : l.Current cache := by
  refine h.imp fun key program ⟨other, hother, hdigest, haccept⟩ content hread hsame => ?_
  have hcontent := hdistinct key.1 content hread content List.mem_cons_self other (List.mem_cons_of_mem _ hother)
    (hsame.trans hdigest)
  rwa [hcontent]

/-- A text that is fetched stands at the place that its path is confined to. -/
lemma of_fetch {path content : Text} {place : Files.Location} (h : l.fetch path = .ok (place, content)) :
    l.confine path = some place ∧ l.read place = .ok content := by
  unfold fetch at h
  cases hplace : l.confine path with
  | none => simp [hplace] at h
  | some found =>
    rw [hplace] at h
    dsimp only at h
    cases hread : l.read found with
    | error fault => simp [hread] at h
    | ok text =>
      rw [hread] at h
      obtain ⟨rfl, rfl⟩ := Prod.mk.inj (Except.ok.inj h)
      exact ⟨rfl, hread⟩

/-- What is loaded is what is accepted of the text that stands at the place of the path. -/
theorem Current.load_eq (h : l.Current cache) (path : Text) : (l.load cache path).1 = l.loadAfresh path :=
  load_eq_loadAfresh fun _ content _ hfetch hfound => h.of_lookup hfound content (of_fetch hfetch).2 rfl

/-- What is kept behind a load is current again. -/
lemma Current.load (h : l.Current cache) (path : Text) : l.Current (l.load cache path).2 := by
  refine everywhere_load h fun place content program hfetch haccept other hread _ => ?_
  -- there is one text at the place, and it is this one
  obtain rfl := Except.ok.inj ((of_fetch hfetch).2.symm.trans hread)
  exact haccept

lemma Current.of_load (h : l.Current cache) {path : Text} {answer : Except Halt Program} {after : InclusionCache}
    (hload : l.load cache path = (answer, after)) : l.Current after ∧ answer = l.loadAfresh path := by
  have hafter := h.load path
  have hanswer := h.load_eq path
  rw [hload] at hafter hanswer
  exact ⟨hafter, hanswer⟩

/-- A text without issues is accepted as the program that it is read as. -/
lemma accept_eq_ok {content : Text} {program : Program}
    (hlength : Text.byteLength content ≤ l.validator.settings.maxContentBytes)
    (hissues : l.validator.contentIssues content = []) (hsource : Program.ofSource l.limits content = .ok program) :
    l.accept content = .ok program := by
  rw [accept, Inspection.Validator.validateContent, if_neg (Nat.not_lt_of_le hlength), hissues, hsource]
  rfl

/-- A program is loaded from a text that stands at the place of its path. -/
lemma of_loadAfresh {path : Text} {program : Program} (h : l.loadAfresh path = .ok program) :
    ∃ place content, l.confine path = some place ∧ l.read place = .ok content ∧
      Program.ofSource l.limits content = .ok program := by
  unfold loadAfresh at h
  cases hfetch : l.fetch path with
  | error halt => simp [hfetch] at h
  | ok found =>
    obtain ⟨place, content⟩ := found
    rw [hfetch] at h
    obtain ⟨hplace, hread⟩ := of_fetch hfetch
    exact ⟨place, content, hplace, hread, (of_accept h).1⟩

end Loader

end Stencil.Sandbox
