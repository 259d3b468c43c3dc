import Mathlib.Algebra.GroupWithZero.Nat
import Stencil.Json.Value

/-!
# Values and their parts

Induction on a value by the parts that it is made of (`Value.rec_parts`), and what its writing takes: an array or an
object is its parts in writing with commas between them.
-/

namespace Stencil

lemma Text.join_cons (separator t next : Text) (rest : List Text) :
    join separator (t :: next :: rest) = t ++ separator ++ join separator (next :: rest) := by
  rw [join]
  exact List.cons_ne_nil next rest

/-- A text that is joined takes the bytes of its parts, and one more for each but the first. -/
lemma Text.byteLength_join (separator : Char) (hseparator : separator.utf8Size = 1) (parts : List Text) :
    byteLength (join [separator] parts) = (parts.map fun part => byteLength part + 1).sum - 1 := by
  induction parts using join.induct with
  | case1 => rfl
  | case2 part => simp [join]
  | case3 part rest hrest ih =>
    obtain ⟨next, more, rfl⟩ := List.exists_cons_of_ne_nil hrest
    rw [join_cons, byteLength_append, byteLength_append, ih]
    simp only [byteLength_cons, byteLength_nil, hseparator, List.map_cons, List.sum_cons]
    omega

namespace Json.Value

/-- What holds of a value if it does of its items or members holds of every value. -/
@[elab_as_elim]
theorem rec_parts {motive : Value → Prop} (null : motive .null) (bool : ∀ b, motive (.bool b))
    (number : ∀ n, motive (.number n)) (string : ∀ t, motive (.string t))
    (array : ∀ items, (∀ item ∈ items, motive item) → motive (.array items))
    (object : ∀ members, (∀ member ∈ members, motive member.2) → motive (.object members))
    (value : Value) : motive value := by
  have hnone : ∀ item ∈ ([] : List Value), motive item := by simp
  have hnobody : ∀ member ∈ ([] : List (Text × Value)), motive member.2 := by simp
  exact @Value.rec motive (fun items => ∀ item ∈ items, motive item)
    (fun members => ∀ member ∈ members, motive member.2) (fun member => motive member.2) null bool number string array
    object hnone
    (fun first rest hfirst hrest => List.forall_mem_cons.2 ⟨hfirst, hrest⟩) hnobody
    (fun first rest hfirst hrest => List.forall_mem_cons.2 ⟨hfirst, hrest⟩) (fun _ _ hvalue => hvalue) value

/-- A member of an object in writing. -/
def memberText (member : Text × Value) : Text := stringText member.1 ++ ':' :: member.2.compact

/-- Items are written with commas between them. -/
lemma compactItems_eq_join (items : List Value) :
    compact.compactItems items = Text.join [','] (items.map compact) := by
  induction items with
  | nil => rfl
  | cons item rest ih =>
    cases rest with
    | nil => rfl
    | cons next rest =>
      have hjoin := Text.join_cons [','] item.compact next.compact (rest.map compact)
      rw [compact.compactItems, ih]
      · exact (hjoin.trans (List.append_assoc _ _ _)).symm
      · exact List.cons_ne_nil next rest

/-- Members are written with commas between them. -/
lemma compactMembers_eq_join (members : List (Text × Value)) :
    compact.compactMembers members = Text.join [','] (members.map memberText) := by
  induction members with
  | nil => rfl
  | cons member rest ih =>
    obtain ⟨key, value⟩ := member
    cases rest with
    | nil => rfl
    | cons next rest =>
      have hjoin := Text.join_cons [','] (memberText (key, value)) (memberText next) (rest.map memberText)
      rw [compact.compactMembers, ih]
      · simp only [List.map_cons, hjoin]
        simp only [memberText, List.append_assoc, List.cons_append, List.nil_append]
      · exact List.cons_ne_nil next rest

/-- Brackets take one byte each. -/
lemma byteLength_compact_array (items : List Value) :
    Text.byteLength (Value.array items).compact =
      1 + ((items.map fun item => Text.byteLength item.compact + 1).sum - 1) + 1 := by
  have hjoin := Text.byteLength_join ',' (by decide) (items.map compact)
  rw [List.map_map] at hjoin
  rw [compact, compactItems_eq_join, Text.byteLength_append, Text.byteLength_cons, hjoin]
  rfl

/-- Braces take one byte each. -/
lemma byteLength_compact_object (members : List (Text × Value)) :
    Text.byteLength (Value.object members).compact =
      1 + ((members.map fun member => Text.byteLength (memberText member) + 1).sum - 1) + 1 := by
  have hjoin := Text.byteLength_join ',' (by decide) (members.map memberText)
  rw [List.map_map] at hjoin
  rw [compact, compactMembers_eq_join, Text.byteLength_append, Text.byteLength_cons, hjoin]
  rfl

lemma byteLength_memberText (member : Text × Value) :
    Text.byteLength (memberText member) =
      Text.byteLength (stringText member.1) + (1 + Text.byteLength member.2.compact) := by
  rw [memberText, Text.byteLength_append, Text.byteLength_cons]
  rfl

end Json.Value

end Stencil
