import Mathlib.Data.Finset.Filter
import Mathlib.Data.Finset.SDiff
import Mathlib.Logic.Function.Basic
import Stencil.Policy.Permission
import Stencil.Proofs.Basic
import Stencil.Proofs.Cache.Entries

/-!
# The rights behind the masks

The table of permissions against sets of rights. A mask stands for a set of elementary rights (`rightsOf`), and granting
and revoking are the union and the difference of such sets. Said without masks, a history of changes leaves behind which
rights are held by whom on what (`Holdings`); each change is about one user and one resource.

One change keeps the table a picture of the sets (`Represents.apply`), so any number of them does (`represents_run`).

Main statement: after any changes a permission is held if its rights are, by the user and by everybody together, and no
mask is corrupted (`ask_eq_holdings`).
-/

namespace Stencil.Policy

/-! ## Rights -/

/-- An elementary right. -/
inductive Right where
  | read
  | write
  | execute
  | delete
deriving DecidableEq, Repr

/-- The elementary rights of a permission. -/
def Permission.rights : Permission → Finset Right
  | read => {.read}
  | write => {.write}
  | execute => {.execute}
  | delete => {.delete}
  | admin => {.read, .write, .execute, .delete}

namespace Right

/-- The place of the bit that stands for a right. -/
def place : Right → Nat
  | read => 0
  | write => 1
  | execute => 2
  | delete => 3

lemma place_lt (r : Right) : r.place < 8 := by cases r <;> decide

lemma mem_rights_admin (r : Right) : r ∈ Permission.admin.rights := by cases r <;> decide

end Right

lemma getLsbD_bits (p : Permission) (r : Right) : p.bits.toBitVec.getLsbD r.place = decide (r ∈ p.rights) := by
  cases p <;> cases r <;> rfl

/-- No bit of a permission is without a right. -/
lemma exists_right_of_getLsbD_bits (p : Permission) :
    ∀ i < 8, p.bits.toBitVec.getLsbD i = true → ∃ r ∈ p.rights, r.place = i := by
  cases p <;> decide

/-- The rights that a mask stands for. -/
def rightsOf (mask : UInt8) : Finset Right :=
  Permission.admin.rights.filter fun r => mask.toBitVec.getLsbD r.place = true

lemma mem_rightsOf {mask : UInt8} {r : Right} : r ∈ rightsOf mask ↔ mask.toBitVec.getLsbD r.place = true := by
  simp [rightsOf, r.mem_rights_admin]

lemma rightsOf_zero : rightsOf 0 = ∅ := by decide

lemma rightsOf_or (mask mask' : UInt8) : rightsOf (mask ||| mask') = rightsOf mask ∪ rightsOf mask' := by
  ext r
  rw [Finset.mem_union, mem_rightsOf, mem_rightsOf, mem_rightsOf, UInt8.toBitVec_or, BitVec.getLsbD_or,
    Bool.or_eq_true]

lemma rightsOf_bits (p : Permission) : rightsOf p.bits = p.rights := by
  ext r
  rw [mem_rightsOf, getLsbD_bits, decide_eq_true_iff]

/-- To clear the bits of a permission is to take its rights away. -/
lemma rightsOf_clear (mask : UInt8) (p : Permission) : rightsOf (mask &&& ~~~p.bits) = rightsOf mask \ p.rights := by
  ext r
  rw [Finset.mem_sdiff, mem_rightsOf, mem_rightsOf, UInt8.toBitVec_and, UInt8.toBitVec_not, BitVec.getLsbD_and,
    BitVec.getLsbD_not, getLsbD_bits]
  simp [r.place_lt]

/-- A mask has all the bits of a permission if it stands for all of its rights. -/
lemma and_bits_eq_iff (mask : UInt8) (p : Permission) : mask &&& p.bits = p.bits ↔ p.rights ⊆ rightsOf mask := by
  constructor
  · intro h r hr
    have hbit := congrArg (fun m : UInt8 => m.toBitVec.getLsbD r.place) h
    simp only [UInt8.toBitVec_and, BitVec.getLsbD_and, getLsbD_bits, hr, decide_true, Bool.and_true] at hbit
    exact mem_rightsOf.2 hbit
  · intro h
    rw [← UInt8.toBitVec_inj, UInt8.toBitVec_and]
    refine BitVec.eq_of_getLsbD_eq fun i hi => ?_
    rw [BitVec.getLsbD_and]
    cases hbit : p.bits.toBitVec.getLsbD i with
    | false => rw [Bool.and_false]
    | true =>
      -- a bit that counts is that of a right
      obtain ⟨r, hr, rfl⟩ := exists_right_of_getLsbD_bits p i hi hbit
      rw [mem_rightsOf.1 (h hr), Bool.and_true]

/-! ## Masks within bounds -/

/-- A mask that may be stored: it has a right, and no other bits. -/
def Stored (mask : UInt8) : Prop := 1 ≤ mask ∧ mask ≤ 15

lemma bits_le (p : Permission) : 1 ≤ p.bits.toNat ∧ p.bits.toNat < 16 := by cases p <;> decide

lemma Stored.of_toNat {mask : UInt8} (hpos : 1 ≤ mask.toNat) (hlt : mask.toNat < 16) : Stored mask :=
  ⟨UInt8.le_iff_toNat_le.2 hpos, UInt8.le_iff_toNat_le.2 (Nat.le_of_lt_succ hlt)⟩

/-- A mask with a permission added can be stored. -/
lemma stored_or_bits {mask : UInt8} (h : mask ≤ 15) (p : Permission) : Stored (mask ||| p.bits) := by
  obtain ⟨hpos, hlt⟩ := bits_le p
  refine .of_toNat ?_ ?_
  · rw [UInt8.toNat_or]
    exact Nat.le_trans hpos Nat.right_le_or
  · rw [UInt8.toNat_or]
    exact Nat.or_lt_two_pow (n := 4) (Nat.lt_succ_of_le (UInt8.le_iff_toNat_le.1 h)) hlt

lemma stored_and {mask : UInt8} (h : mask ≤ 15) {mask' : UInt8} (hne : mask &&& mask' ≠ 0) :
    Stored (mask &&& mask') := by
  refine .of_toNat (Nat.one_le_iff_ne_zero.2 fun hzero => hne (UInt8.toNat_inj.1 hzero)) ?_
  rw [UInt8.toNat_and]
  exact Nat.lt_of_le_of_lt Nat.and_le_left (Nat.lt_succ_of_le (UInt8.le_iff_toNat_le.1 h))

/-- A mask of at most fifteen has no bits but those of rights. -/
lemma and_not_allBits {mask : UInt8} (h : mask ≤ 15) : mask &&& ~~~Permission.allBits = 0 := by
  have hall : ∀ m : BitVec 8, m ≤ 15 → m &&& ~~~15 = 0 := by decide +kernel
  rw [← UInt8.toBitVec_inj]
  exact hall mask.toBitVec (UInt8.le_iff_toBitVec_le.1 h)

/-! ## Changes -/

/-- A change to a table of permissions. -/
inductive Change where
  | grant (user resource : Text) (p : Permission)
  | grantPublic (resource : Text) (p : Permission)
  | revoke (user resource : Text) (p : Permission)
  | revokeAll (user resource : Text)

namespace Change

/-- The user and resource that a change is about. -/
def pair : Change → Text × Text
  | grant user resource _ => (user, resource)
  | grantPublic resource _ => (publicUser, resource)
  | revoke user resource _ => (user, resource)
  | revokeAll user resource => (user, resource)

/-- What a change makes of the rights of its user on its resource. -/
def rights (held : Finset Right) : Change → Finset Right
  | grant _ _ p => held ∪ p.rights
  | grantPublic _ p => held ∪ p.rights
  | revoke _ _ p => held \ p.rights
  | revokeAll _ _ => ∅

end Change

namespace Permissions

/-- A table behind a change. -/
def apply (t : Permissions) : Change → Permissions
  | .grant user resource p => t.grant user resource p
  | .grantPublic resource p => t.grantPublic resource p
  | .revoke user resource p => t.revoke user resource p
  | .revokeAll user resource => t.revokeAll user resource

/-- The table that changes leave behind. -/
def run (changes : List Change) : Permissions := changes.foldl apply none

end Permissions

/-- The rights of each user on each resource. -/
abbrev Holdings := Text × Text → Finset Right

namespace Holdings

/-- The holdings behind a change: those of one user on one resource are new. -/
def apply (held : Holdings) (change : Change) : Holdings :=
  Function.update held change.pair (change.rights (held change.pair))

/-- The holdings that changes leave behind. At first nobody holds any right. -/
def run (changes : List Change) : Holdings := changes.foldl apply fun _ => ∅

end Holdings

/-! ## Tables and holdings -/

/-- A table is a picture of holdings: its masks stand for the rights that are held, and only masks that may be stored
are. -/
structure Represents (t : Permissions) (held : Holdings) : Prop where
  rights : ∀ user resource, rightsOf (t.mask user resource) = held (user, resource)
  stored : ∀ entry ∈ t.masks, Stored entry.2

namespace Represents

variable {t : Permissions} {held : Holdings}

lemma none : Represents .none fun _ => ∅ :=
  ⟨fun _ _ => rightsOf_zero, fun _ h => absurd h List.not_mem_nil⟩

lemma mask_le (h : Represents t held) (user resource : Text) : t.mask user resource ≤ 15 := by
  rw [Permissions.mask]
  cases hget : Table.get? t.masks (user, resource) with
  | none => exact UInt8.le_iff_toNat_le.2 (Nat.zero_le _)
  | some mask => exact (h.stored _ (Table.mem_of_get?_eq_some hget)).2

/-- A table with a new mask for one user on one resource is a picture of the holdings with the rights of this mask. -/
lemma write (h : Represents t held) {t' : Permissions} (user resource : Text) {mask : UInt8}
    (hget : ∀ pair, Table.get? t'.masks pair =
      if (user, resource) = pair then (if mask = 0 then .none else some mask) else Table.get? t.masks pair)
    (hmem : ∀ entry ∈ t'.masks, Stored entry.2 ∨ entry ∈ t.masks) :
    Represents t' (Function.update held (user, resource) (rightsOf mask)) := by
  refine ⟨fun user' resource' => ?_, fun entry hentry => (hmem entry hentry).elim id (h.stored entry)⟩
  rw [Permissions.mask, hget]
  by_cases hpair : (user, resource) = (user', resource')
  · rw [if_pos hpair, ← hpair, Function.update_self]
    by_cases hzero : mask = 0
    · rw [if_pos hzero, hzero]
      rfl
    · rw [if_neg hzero]
      rfl
  · rw [if_neg hpair, Function.update_of_ne (Ne.symm hpair)]
    exact h.rights user' resource'

/-- A mask that is set stands for the rights held from then on. -/
lemma set (h : Represents t held) (user resource : Text) {mask : UInt8} (hmask : Stored mask) :
    Represents ⟨Table.set t.masks (user, resource) mask⟩
      (Function.update held (user, resource) (rightsOf mask)) := by
  have hne : mask ≠ 0 := by
    rintro rfl
    exact absurd hmask.1 (by decide)
  refine h.write user resource (fun pair => ?_) fun entry hentry => ?_
  · rw [Table.get?_set, if_neg hne]
  · refine (Table.mem_set hentry).imp_left fun heq => ?_
    rw [heq]
    exact hmask

lemma erase (h : Represents t held) (user resource : Text) :
    Represents ⟨Table.erase t.masks (user, resource)⟩ (Function.update held (user, resource) ∅) := by
  rw [← rightsOf_zero]
  refine h.write user resource (fun pair => ?_) fun entry hentry => .inr (Table.mem_of_mem_erase hentry)
  rw [Table.get?_erase, if_pos rfl]

/-- A grant adds the rights of the permission. -/
lemma grant (h : Represents t held) (user resource : Text) (p : Permission) :
    Represents (t.grant user resource p)
      (Function.update held (user, resource) (held (user, resource) ∪ p.rights)) := by
  rw [← h.rights, ← rightsOf_bits, ← rightsOf_or]
  exact h.set user resource (stored_or_bits (h.mask_le user resource) p)

/-- A revocation takes the rights of the permission away. -/
lemma revoke (h : Represents t held) (user resource : Text) (p : Permission) :
    Represents (t.revoke user resource p)
      (Function.update held (user, resource) (held (user, resource) \ p.rights)) := by
  rw [← h.rights, ← rightsOf_clear, Permissions.revoke]
  split
  · rename_i hzero
    rw [hzero, rightsOf_zero]
    exact h.erase user resource
  · rename_i hne
    exact h.set user resource (stored_and (h.mask_le user resource) hne)

/-- One change keeps the picture. -/
theorem apply (h : Represents t held) (change : Change) : Represents (t.apply change) (held.apply change) := by
  cases change with
  | grant user resource p => exact h.grant user resource p
  | grantPublic resource p => exact h.grant publicUser resource p
  | revoke user resource p => exact h.revoke user resource p
  | revokeAll user resource => exact h.erase user resource

/-- No mask of a picture is corrupted. -/
lemma readMask_eq (h : Represents t held) (user resource : Text) :
    t.readMask user resource = .ok (t.mask user resource) := by
  rw [Permissions.readMask]
  exact if_neg fun hother => hother (and_not_allBits (h.mask_le user resource))

lemma ask_eq (h : Represents t held) (user resource : Text) (p : Permission) :
    t.ask user resource p = .ok (t.holds user resource p) := by
  rw [Permissions.ask, h.readMask_eq, h.readMask_eq]
  rfl

/-- A permission is held if its rights are, by the user and by everybody together. -/
lemma holds_iff (h : Represents t held) (user resource : Text) (p : Permission) :
    t.holds user resource p = true ↔ p.rights ⊆ held (user, resource) ∪ held (publicUser, resource) := by
  rw [Permissions.holds, decide_eq_true_iff, and_bits_eq_iff, rightsOf_or, h.rights, h.rights]

end Represents

/-- Any number of changes keeps the picture. -/
theorem represents_run (changes : List Change) : Represents (.run changes) (.run changes) := by
  have hfrom : ∀ t held, Represents t held →
      Represents (changes.foldl Permissions.apply t) (changes.foldl Holdings.apply held) := by
    induction changes with
    | nil => exact fun t held h => h
    | cons change rest ih => exact fun t held h => ih _ _ (h.apply change)
  exact hfrom _ _ .none

/-- A change leaves the masks of other users, and of its user on other resources, as they are. -/
lemma get?_apply_of_ne (t : Permissions) (change : Change) {pair : Text × Text} (h : pair ≠ change.pair) :
    Table.get? (t.apply change).masks pair = Table.get? t.masks pair := by
  have hset : ∀ mask, Table.get? (Table.set t.masks change.pair mask) pair = Table.get? t.masks pair := by
    intro mask
    rw [Table.get?_set, if_neg (Ne.symm h)]
  have herase : Table.get? (Table.erase t.masks change.pair) pair = Table.get? t.masks pair := by
    rw [Table.get?_erase, if_neg (Ne.symm h)]
  cases change with
  | grant user resource p => exact hset _
  | grantPublic resource p => exact hset _
  | revoke user resource p =>
    rw [Permissions.apply, Permissions.revoke]
    split
    · exact herase
    · exact hset _
  | revokeAll user resource => exact herase

/-- After any changes a permission is held if all of its elementary rights are, by the user and by everybody together,
where a change is about the rights of one user on one resource. Every mask that is stored is one of one to fifteen, so
no mask that is read is corrupted. -/
theorem ask_eq_holdings (changes : List Change) :
    (∀ user resource p,
      (Permissions.run changes).ask user resource p = .ok ((Permissions.run changes).holds user resource p) ∧
        ((Permissions.run changes).holds user resource p = true ↔
          p.rights ⊆ Holdings.run changes (user, resource) ∪ Holdings.run changes (publicUser, resource))) ∧
      (∀ entry ∈ (Permissions.run changes).masks, 1 ≤ entry.2 ∧ entry.2 ≤ 15) ∧
      ∀ change pair, pair ≠ change.pair →
        Table.get? ((Permissions.run changes).apply change).masks pair =
            Table.get? (Permissions.run changes).masks pair ∧
          (Holdings.run changes).apply change pair = Holdings.run changes pair := by
  have hpicture := represents_run changes
  refine ⟨fun user resource p => ⟨hpicture.ask_eq user resource p, hpicture.holds_iff user resource p⟩,
    hpicture.stored, fun change pair hpair => ⟨get?_apply_of_ne _ change hpair, ?_⟩⟩
  exact Function.update_of_ne hpair _ _

/-- A user is made an administrator of a document, may then no longer write it, and everybody may. -/
def sharedDocument : List Change := [.grant "u" "d" .admin, .revoke "u" "d" .write, .grantPublic "d" .write]

/-- The user holds the rest of the rights and together with everybody all of them. To take those of everybody back
leaves the rest as it is. -/
theorem ask_sharedDocument :
    (Permissions.run sharedDocument).ask "u" "d" .admin = .ok true ∧
      ((publicUser, ("d" : Text)), 2) ∈ (Permissions.run sharedDocument).masks ∧ (1 ≤ (2 : UInt8) ∧ (2 : UInt8) ≤ 15) ∧
      (("u" : Text), ("d" : Text)) ≠ (Change.revokeAll publicUser "d").pair ∧
      Table.get? ((Permissions.run sharedDocument).apply (.revokeAll publicUser "d")).masks
        (("u" : Text), ("d" : Text)) = some 13 := by
  obtain ⟨hask, hstored, hothers⟩ := ask_eq_holdings sharedDocument
  have hpublic : ((publicUser, ("d" : Text)), 2) ∈ (Permissions.run sharedDocument).masks := by decide
  have hpair : (("u" : Text), ("d" : Text)) ≠ (Change.revokeAll publicUser "d").pair := by decide
  refine ⟨?_, hpublic, hstored _ hpublic, hpair, ?_⟩
  · rw [(hask "u" "d" .admin).1]
    exact congrArg Except.ok ((hask "u" "d" .admin).2.2 (by decide))
  · rw [(hothers _ _ hpair).1]
    decide

end Stencil.Policy
