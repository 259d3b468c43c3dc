import Stencil.Proofs.Files.Settling

/-!
# Confined paths stay in their directory

The two sides of `Tree.confine?`. A place that it yields lies in the base directory, and whoever opens the place ends
there, since no part of it is a link, unless a link was overlooked in a path that is too long (`Tree.Overlooked`). A
path for which it yields nothing is refused as it is written, or leads out of the directory, or meets a link that cannot
be followed to an end (`Tree.Lost`), or a place that cannot be asked for (`Tree.Remote`).

An overlooked link leads out of the directory (`Tree.detour`). A link that cannot be followed need not be dangling or
cyclic: a chain of more than forty links that ends in the directory is refused as well (`Tree.chain`).
-/

namespace Stencil.Files

/-! ## Paths as they are written -/

/-- The pieces of a path between slashes of both kinds. -/
def segments (path : Text) : List Text := Text.split (fun c => c == '/' || c == '\\') path

/-- The names among the pieces of a path. -/
def segmentNames (path : Text) : List Text := (segments path).filter fun segment => !staysPut segment

/-- Whether a path is refused whatever the files are: it is empty, holds a zero character, starts at a root, holds a
colon or a percent sign, goes up, or has no name in it. -/
def Refused (path : Text) : Prop :=
  path = [] ∨ '\x00' ∈ path ∨ path.head? = some '/' ∨ path.head? = some '\\' ∨ ':' ∈ path ∨ '%' ∈ path ∨
    ['.', '.'] ∈ segments path ∨ ∀ segment ∈ segments path, segment = [] ∨ segment = ['.']

/-- A suspicious path is refused. -/
lemma refused_of_isSuspicious {path : Text} (h : isSuspicious path = true) : Refused path := by
  simp only [isSuspicious, Bool.or_eq_true, List.isEmpty_iff, List.contains_iff_mem, decide_eq_true_eq] at h
  obtain ((((h | h) | h) | h) | h) | h := h
  · exact .inl h
  · exact .inr (.inl h)
  · exact .inr (.inr (.inl h))
  · exact .inr (.inr (.inr (.inl h)))
  · exact .inr (.inr (.inr (.inr (.inl h))))
  · exact .inr (.inr (.inr (.inr (.inr (.inl h)))))

/-- A path has names if no segment of it goes up. -/
lemma names?_eq (path : Text) :
    names? path = if ['.', '.'] ∈ segments path then none else some (segmentNames path) := by
  have hany : (segments path).any goesUp = true ↔ ['.', '.'] ∈ segments path := by simp [goesUp]
  unfold names?
  by_cases hup : ['.', '.'] ∈ segments path
  · rw [if_pos hup]
    exact if_pos (hany.2 hup)
  · rw [if_neg hup]
    exact if_neg (mt hany.1 hup)

lemma refused_of_segmentNames_eq_nil {path : Text} (h : segmentNames path = []) : Refused path := by
  have hstays : ∀ segment ∈ segments path, segment = [] ∨ segment = ['.'] := by
    intro segment hmem
    have hfilter := List.filter_eq_nil_iff.1 h segment hmem
    simpa [staysPut, or_iff_not_imp_left] using hfilter
  exact .inr (.inr (.inr (.inr (.inr (.inr (.inr hstays))))))

/-- The names of a path that does not go up are proper. -/
lemma proper_segmentNames {path : Text} (h : ['.', '.'] ∉ segments path) :
    Location.Proper (segmentNames path) := by
  intro name hname
  obtain ⟨hmem, hstays⟩ := List.mem_filter.1 hname
  refine isName_iff.2 ⟨by simpa using hstays, ?_, fun hslash => ?_⟩
  · have hne : name ≠ ['.', '.'] := fun heq => h (heq ▸ hmem)
    simpa [goesUp] using hne
  · have := Text.not_separator_of_mem_split hmem '/' hslash
    exact absurd this (by decide)

/-- To collapse steps keeps a location proper. -/
lemma proper_lexicalFrom {here : Location} {rest : List Text} (hhere : here.Proper)
    (hrest : ∀ step ∈ rest, '/' ∉ step) : (lexicalFrom here rest).Proper := by
  induction rest generalizing here with
  | nil => exact hhere
  | cons step rest ih =>
    have hlater := fun s hs => hrest s (List.mem_cons_of_mem _ hs)
    rw [lexicalFrom]
    split
    · exact ih hhere hlater
    · rename_i hstays
      split
      · exact ih (Location.Proper.dropLast hhere) hlater
      · rename_i hup
        have hname : isName step = true :=
          isName_iff.2 ⟨by simpa using hstays, by simpa using hup, hrest step List.mem_cons_self⟩
        exact ih (Location.Proper.concat hhere hname) hlater

lemma proper_lexical {current : Location} (h : current.Proper) (path : Text) : (lexical current path).Proper := by
  refine proper_lexicalFrom ?_ fun _ => slash_not_mem_of_mem_steps
  unfold start
  split
  · exact Location.Proper.nil
  · exact h

/-! ## Confinement -/

namespace Tree

variable {tree : Tree}

/-- The longest part of a location that is found is, with links followed, outside of a directory. -/
def Outside (tree : Tree) (root l : Location) : Prop :=
  ∃ p real, tree.LongestExisting l p ∧ tree.real? p = some real ∧ ¬ root <+: real

lemma outside_of_settle? {root l place : Location} (h : tree.settle? l = some place) (hout : ¬ root <+: place) :
    tree.Outside root l := by
  obtain ⟨p, rest, -, hp, hsettle⟩ := tree.settle?_eq l
  rw [hsettle] at h
  obtain ⟨real, hreal, rfl⟩ := Option.map_eq_some_iff.1 h
  exact ⟨p, real, hp, hreal, fun hin => hout (hin.trans (List.prefix_append _ _))⟩

lemma proper_of_base? {base : Text} {root : Location} (h : tree.base? base = some root) : root.Proper :=
  proper_of_settle? (proper_lexical tree.proper_current base) h

/-- What is confined has a path that does not go up, and settles within the root of the base. -/
lemma confine?_eq_some {base path : Text} {place : Location} (h : tree.confine? base path = some place) :
    ['.', '.'] ∉ segments path ∧ ∃ root, tree.base? base = some root ∧
      tree.settle? (root ++ segmentNames path) = some place ∧ root <+: place := by
  unfold confine? at h
  split at h
  · simp at h
  rw [names?_eq] at h
  split at h
  · simp at h
  rename_i hup
  simp only [Option.bind_eq_bind, Option.bind_some] at h
  split at h
  · simp at h
  simp only [Option.bind_eq_some_iff] at h
  obtain ⟨root, hroot, place', hplace, hin⟩ := h
  split at hin
  · rename_i hprefix
    obtain rfl := Option.some.inj hin
    exact ⟨hup, root, hroot, hplace, List.isPrefixOf_iff_prefix.1 hprefix⟩
  · simp at hin

/-- What is not confined is refused, has no root, does not settle, or settles outside the root. -/
lemma confine?_eq_none {base path : Text} (h : tree.confine? base path = none) :
    Refused path ∨ ['.', '.'] ∉ segments path ∧ (tree.base? base = none ∨ ∃ root, tree.base? base = some root ∧
      (tree.settle? (root ++ segmentNames path) = none ∨
        ∃ place, tree.settle? (root ++ segmentNames path) = some place ∧ ¬ root <+: place)) := by
  -- the stages of the definition, each with the reason for which it gives nothing
  unfold confine? at h
  split at h
  · rename_i hsuspicious
    exact .inl (refused_of_isSuspicious hsuspicious)
  rw [names?_eq] at h
  split at h
  · rename_i hup
    exact .inl (.inr (.inr (.inr (.inr (.inr (.inr (.inl hup)))))))
  rename_i hup
  simp only [Option.bind_eq_bind, Option.bind_some] at h
  split at h
  · rename_i hempty
    exact .inl (refused_of_segmentNames_eq_nil (List.isEmpty_iff.1 hempty))
  refine .inr ⟨hup, ?_⟩
  cases hroot : tree.base? base with
  | none => exact .inl rfl
  | some root =>
    refine .inr ⟨root, rfl, ?_⟩
    cases hplace : tree.settle? (root ++ segmentNames path) with
    | none => exact .inl rfl
    | some place =>
      refine .inr ⟨place, rfl, fun hin => ?_⟩
      rw [hroot, Option.bind_some, hplace, Option.bind_some, if_pos (List.isPrefixOf_iff_prefix.2 hin)] at h
      simp at h

/-- A place that a path is confined to lies in the base directory. A part of it is a link if and only if one was
overlooked, which takes a path of more bytes than the system is given at a time; and the path to the place leads to
another one only then.

A path is confined to no place only if it is refused as it is written, or the way to the base directory or in it is
blocked by a link that cannot be followed to something or by a place that cannot be asked for, or the path leads out of
the base directory. -/
theorem confine?_spec (tree : Tree) (base path : Text) :
    (∀ place, tree.confine? base path = some place →
      ∃ root, tree.base? base = some root ∧ root <+: place ∧
        ((∃ q, q <+: place ∧ tree.IsLink q) ↔ tree.Overlooked (root ++ segmentNames path)) ∧
        (∀ here e, tree.locate place.text = .ok (here, e) →
          (here = place ↔ ¬ tree.Overlooked (root ++ segmentNames path))) ∧
        (Text.byteLength (Location.text (root ++ segmentNames path)) ≤ maxPath →
          ¬ tree.Overlooked (root ++ segmentNames path))) ∧
    (tree.confine? base path = none →
      Refused path ∨ tree.Blocked (fun p => tree.Lost p ∨ tree.Remote p) (lexical tree.current base) ∨
        ∃ root, tree.base? base = some root ∧
          (tree.Blocked (fun p => tree.Lost p ∨ tree.Remote p) (root ++ segmentNames path) ∨
            tree.Outside root (root ++ segmentNames path))) := by
  constructor
  · intro place h
    obtain ⟨hup, root, hroot, hplace, hin⟩ := confine?_eq_some h
    have hproper := (proper_of_base? hroot).append (proper_segmentNames hup)
    have hlinks := exists_isLink_iff_overlooked hproper hplace
    refine ⟨root, hroot, hin, hlinks, fun here e hlocate => ?_, not_overlooked_of_fits⟩
    rw [eq_iff_of_locate_text (proper_of_settle? hproper hplace) hlocate, ← hlinks]
    exact ⟨fun hnone ⟨q, hq, hlink⟩ => hnone q hq hlink, fun hnone q hq hlink => hnone ⟨q, hq, hlink⟩⟩
  · intro h
    obtain hrefused | ⟨hup, hbase | ⟨root, hroot, hplace | ⟨place, hplace, hout⟩⟩⟩ := confine?_eq_none h
    · exact .inl hrefused
    · exact .inr (.inl (blocked_of_settle?_eq_none (proper_lexical tree.proper_current base) hbase))
    · have hproper := (proper_of_base? hroot).append (proper_segmentNames hup)
      exact .inr (.inr ⟨root, hroot, .inl (blocked_of_settle?_eq_none hproper hplace)⟩)
    · exact .inr (.inr ⟨root, hroot, .inr (outside_of_settle? hplace hout)⟩)

/-- A name as long as names may be. -/
def longestName : Text := List.replicate maxName 'L'

/-- A directory with a link to itself and a link to a directory beside it, in which there is a file. -/
def detour : Tree where
  entries := [([['b']], .directory), ([['b'], longestName], .link ['.']), ([['b'], ['x']], .link "../o".toList),
    ([['o']], .directory), ([['o'], ['s']], .file [])]
  current := []
  proper_current := Location.Proper.nil

/-- So many times around the directory, and out of it. -/
def detourPath (n : Nat) : Text := (List.replicate n (longestName ++ ['/'])).flatten ++ "x/s".toList

/-- Behind sixteen rounds the link out of the directory is overlooked, and the place that is given has it on the way:
who opens the place ends outside of the directory. -/
theorem exists_confine?_overlooked :
    detour.confine? "/b".toList (detourPath 16) = some [['b'], longestName, ['x'], ['s']] ∧
      detour.IsLink [['b'], longestName, ['x']] ∧
      detour.locate (Location.text [['b'], longestName, ['x'], ['s']]) = .ok ([['o'], ['s']], some (.file [])) ∧
      ¬ [['b']] <+: [['o'], ['s']] := by
  refine ⟨by decide +kernel, ?_, by decide +kernel, by decide⟩
  exact isLink_concat_iff.2 ⟨"../o".toList, show detour.beneath? [['b'], longestName] ['x'] = _ by decide +kernel⟩

/-- A directory with a file and so many links in it: each leads to the next, and the last to the file. -/
def chain (n : Nat) : Tree where
  entries := ([['b']], .directory) :: ([['b'], ['p']], .file []) :: (List.range n).map fun k =>
    ([['b'], List.replicate (k + 1) 'l'], .link (if k + 1 = n then ['p'] else List.replicate (k + 2) 'l'))
  current := []
  proper_current := Location.Proper.nil

/-- The first of forty-one links is refused, though no link on its way is dangling or cyclic and it ends in the base
directory. -/
theorem confine?_chain :
    (chain 41).confine? ['b'] ['l'] = none ∧ ¬ Refused ['l'] ∧
      (∀ q, q <+: [['b'], ['l']] → (chain 41).IsLink q → ¬ (chain 41).Dangling q ∧ ¬ (chain 41).Cyclic q) ∧
      (chain 41).base? ['b'] = some [['b']] ∧ ¬ (chain 41).Outside [['b']] [['b'], ['l']] := by
  have hend : (chain 41).follow 41 [] [['b'], ['l']] = .ok ([['b'], ['p']], some (.file [])) := by decide +kernel
  refine ⟨by decide +kernel, ?_, ?_, by decide +kernel, ?_⟩
  · unfold Refused
    decide
  · intro q hq hlink
    -- one link more than may be followed is enough to come to the end
    have hends : (chain 41).follow 41 [] [['b'], ['l']] ≠ .error .tooManyLinks := by
      rw [hend]
      simp
    change q <+: [['b']] ++ [['l']] at hq
    rcases List.prefix_concat_iff.1 hq with rfl | hq
    · refine ⟨fun ⟨links, hlinks, hnothing⟩ => ?_, fun hcyclic => hends (hcyclic 41)⟩
      exact hnothing _ _ ((follow_eq_follow hlinks hends).trans hend)
    change q <+: [] ++ [['b']] at hq
    rcases List.prefix_concat_iff.1 hq with rfl | hq
    · obtain ⟨target, hbeneath⟩ := isLink_concat_iff.1 hlink
      have hbase : (chain 41).beneath? [] ['b'] = some .directory := by decide +kernel
      rw [hbase] at hbeneath
      simp at hbeneath
    · rw [List.prefix_nil.1 hq] at hlink
      exact absurd hlink not_isLink_nil
  · rintro ⟨p, real, hp, hreal, -⟩
    have hexists : ((chain 41).status? [['b'], ['l']]).isSome = true := by decide +kernel
    have hwhole := hp.is_part.eq_of_length_le (hp.longest _ List.prefix_rfl hexists)
    have hnone : (chain 41).real? [['b'], ['l']] = none := by decide +kernel
    rw [hwhole, hnone] at hreal
    simp at hreal

end Tree

end Stencil.Files
