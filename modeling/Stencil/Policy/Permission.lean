import Stencil.Fault
import Stencil.Table

/-!
# Permissions

Nothing is permitted unless it has been granted. A grant is to a user on a resource, or to every user by way of the
public user. The rights of a user on a resource are a mask of four bits, one for each elementary right. A table with any
other bit in a mask is corrupted, and asking it (`Permissions.ask`) is given up; where none is, the answer is that of
`Permissions.holds`.

Main statement: what is granted is held (`holds_grant`).
-/

namespace Stencil.Policy

/-- What may be permitted; the last stands for all others together. -/
inductive Permission where
  | read
  | write
  | execute
  | delete
  | admin
deriving DecidableEq, Repr

namespace Permission

/-- All permissions. -/
def all : List Permission := [read, write, execute, delete, admin]

/-- The bits of a permission. -/
def bits : Permission → UInt8
  | read => 1
  | write => 2
  | execute => 4
  | delete => 8
  | admin => 15

/-- The bits of all rights together. -/
def allBits : UInt8 := admin.bits

/-- The name of a permission. -/
def name : Permission → Text
  | read => "read"
  | write => "write"
  | execute => "execute"
  | delete => "delete"
  | admin => "admin"

/-- The permission of a name. -/
def ofName (t : Text) : Except Fault Permission :=
  match all.find? fun p => p.name = t with
  | some p => .ok p
  | none => .error (.context (.unknownPermission t))

end Permission

/-- The user whose rights everybody has. -/
def publicUser : Text := "*"

/-- A mask on a resource with other bits than those of rights. -/
structure Corruption where
  mask : UInt8
  resource : Text
deriving DecidableEq, Repr

/-- A corrupted table in words. -/
def Corruption.message (c : Corruption) : Text :=
  "permission table corrupted: mask 0x" ++ Nat.toDigits 16 c.mask.toNat ++ " for resource `" ++ c.resource ++ "`"

/-- The rights of users on resources; who is not in it has none. -/
structure Permissions where
  masks : Table (Text × Text) UInt8
deriving Repr

namespace Permissions

/-- Nothing is permitted. -/
def none : Permissions := ⟨[]⟩

/-- The rights granted to a user on a resource. -/
def mask (t : Permissions) (user resource : Text) : UInt8 := (Table.get? t.masks (user, resource)).getD 0

/-- Grants a permission. -/
def grant (t : Permissions) (user resource : Text) (p : Permission) : Permissions :=
  ⟨Table.set t.masks (user, resource) (t.mask user resource ||| p.bits)⟩

/-- Grants a permission to everybody. -/
def grantPublic (t : Permissions) (resource : Text) (p : Permission) : Permissions := t.grant publicUser resource p

/-- Takes the rights of a permission back; a user without any right left is forgotten. -/
def revoke (t : Permissions) (user resource : Text) (p : Permission) : Permissions :=
  let left := t.mask user resource &&& ~~~p.bits
  if left = 0 then ⟨Table.erase t.masks (user, resource)⟩ else ⟨Table.set t.masks (user, resource) left⟩

/-- Takes all rights of a user on a resource back. -/
def revokeAll (t : Permissions) (user resource : Text) : Permissions := ⟨Table.erase t.masks (user, resource)⟩

/-- Whether a user has all the rights of a permission, be it together with everybody. -/
def holds (t : Permissions) (user resource : Text) (p : Permission) : Bool :=
  (t.mask user resource ||| t.mask publicUser resource) &&& p.bits = p.bits

/-- The rights granted to a user on a resource, unless their mask is corrupted. -/
def readMask (t : Permissions) (user resource : Text) : Except Corruption UInt8 :=
  let mask := t.mask user resource
  if mask &&& ~~~Permission.allBits ≠ 0 then .error ⟨mask, resource⟩ else .ok mask

/-- Whether a user has all the rights of a permission, unless a mask that is read is corrupted. -/
def ask (t : Permissions) (user resource : Text) (p : Permission) : Except Corruption Bool := do
  let own ← t.readMask user resource
  let everybodys ← t.readMask publicUser resource
  return (own ||| everybodys) &&& p.bits = p.bits

/-- Whether a user has the permission of a name. -/
def holdsNamed (t : Permissions) (user resource name : Text) : Except Fault Bool :=
  (Permission.ofName name).map (t.holds user resource)

theorem mask_grant (t : Permissions) (user resource : Text) (p : Permission) :
    (t.grant user resource p).mask user resource = t.mask user resource ||| p.bits := by
  simp [grant, mask, Table.get?_set]

/-- What is granted is held. -/
theorem holds_grant (t : Permissions) (user resource : Text) (p : Permission) :
    (t.grant user resource p).holds user resource p = true := by
  simp only [holds, mask_grant, decide_eq_true_eq]
  generalize t.mask user resource = a
  generalize (t.grant user resource p).mask publicUser resource = b
  generalize p.bits = c
  rw [← UInt8.toBitVec_inj]
  simp only [UInt8.toBitVec_and, UInt8.toBitVec_or]
  ext i hi
  simp only [BitVec.getElem_and, BitVec.getElem_or]
  cases c.toBitVec[i] <;> simp

end Permissions

end Stencil.Policy
