import AccessControl.Grant.Permission

/-!
Sets of permissions as stored records: one byte a permission, ascending. Two policies for corrupt
records stand side by side: tables and namespaces report the first byte that stands for nothing,
the system reads a corrupt record as no permissions at all.
-/

namespace AccessControl

/-- A set of permissions. -/
abbrev PermissionSet (P : Type) [Permission P] := SortedSet P

namespace PermissionSet

variable {P : Type} [Permission P]

/-- The record of a set. -/
def record (permissions : PermissionSet P) : Bytes := permissions.toList.map Permission.id

/-- The record of the permissions in a list, in whatever order and however often they occur. -/
def encode (permissions : List P) : Bytes := record (SortedSet.ofList permissions)

/-- The permissions of a record, or the first byte that stands for none. -/
def decode (P : Type) [Permission P] (bytes : Bytes) : Except GrantError (PermissionSet P) := do
  return SortedSet.ofList (← bytes.mapM (Permission.resolve P))

/-- The permissions of a record of the system. A corrupt record grants nothing. -/
def decodeSystem (bytes : Bytes) : PermissionSet SystemPermission :=
  match decode SystemPermission bytes with
  | .ok permissions => permissions
  | .error _ => SortedSet.empty

end PermissionSet

end AccessControl
