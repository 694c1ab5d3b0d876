import AccessControl.Data.SortedSet
import AccessControl.Grant.Error

/-!
Permissions. Each scope has a closed set of them; a permission has a byte for storage, which never
changes, a name in capitals, and a spelling in documents. Permissions are ordered by their bytes.

Main statements: `ofId?_eq_some_iff` and `ofId?_eq_none_iff`, a byte stands for at most one
permission, and for none exactly when no permission has it.
-/

namespace AccessControl

/-- A closed set of permissions of one scope. -/
class Permission (P : Type) extends LT P where
  scope : Scope
  /-- Every permission, in the order of the bytes. -/
  all : List P
  /-- The byte that stands for a permission in storage. -/
  id : P → UInt8
  name : P → String
  /-- The spelling in documents. -/
  variant : P → String
  lt_iff : ∀ a b : P, a < b ↔ id a < id b
  id_injective : ∀ a b : P, id a = id b → a = b
  mem_all : ∀ p : P, p ∈ all

namespace Permission

variable {P : Type} [Permission P]

/-! ### Order -/

instance : DecidableLT P := fun a b => decidable_of_iff (id a < id b) (lt_iff a b).symm

instance : Trans (α := P) (· < ·) (· < ·) (· < ·) where
  trans hab hbc := by
    rw [lt_iff] at *
    exact UInt8.lt_trans hab hbc

instance : Std.Irrefl (α := P) (· < ·) where
  irrefl a := by
    rw [lt_iff]
    exact UInt8.lt_irrefl _

instance : Std.Trichotomous (α := P) (· < ·) where
  trichotomous a b hab hba := by
    rw [lt_iff] at hab hba
    exact id_injective a b (UInt8.le_antisymm (UInt8.not_lt.1 hba) (UInt8.not_lt.1 hab))

/-! ### Look-up -/

/-- The permission that a byte stands for. -/
def ofId? (P : Type) [Permission P] (byte : UInt8) : Option P :=
  (all : List P).find? fun p => id p == byte

/-- The permission that a byte stands for, or the byte as unknown. -/
def resolve (P : Type) [Permission P] (byte : UInt8) : Except GrantError P :=
  match ofId? P byte with
  | some p => .ok p
  | none => .error (.unknownId (scope P) byte)

/-- The permission of a name, in any case of its letters. -/
def ofName (P : Type) [Permission P] (text : String) : Except GrantError P :=
  match (all : List P).find? fun p => Ascii.sameIgnoringCase (name p) text with
  | some p => .ok p
  | none => .error (.unknownName (scope P) text)

theorem ofId?_eq_some_iff {byte : UInt8} {p : P} : ofId? P byte = some p ↔ id p = byte := by
  constructor
  · intro h
    simpa using List.find?_some h
  · rintro rfl
    cases hfind : ofId? P (id p) with
    | none => exact absurd (List.find?_eq_none.1 hfind p (mem_all p)) (by simp)
    | some q => rw [id_injective q p (by simpa using List.find?_some hfind)]

theorem ofId?_eq_none_iff {byte : UInt8} : ofId? P byte = none ↔ ∀ p : P, id p ≠ byte := by
  constructor
  · intro h p hp
    rw [ofId?_eq_some_iff.2 hp] at h
    cases h
  · intro h
    cases hfind : ofId? P byte with
    | none => rfl
    | some p => exact absurd (ofId?_eq_some_iff.1 hfind) (h p)

end Permission

/-! ### The system -/

/-- What may be done to the system as a whole. -/
inductive SystemPermission
  | grant | createTable | dropTable | alterTable | createUser | dropUser | alterUser | system
  | createNamespace | dropNamespace | alterNamespace | obtainDelegationToken
  deriving DecidableEq

/-- The byte, the name and the spelling of a permission. -/
def SystemPermission.row : SystemPermission → UInt8 × String × String
  | grant => (0, "GRANT", "Grant")
  | createTable => (1, "CREATE_TABLE", "CreateTable")
  | dropTable => (2, "DROP_TABLE", "DropTable")
  | alterTable => (3, "ALTER_TABLE", "AlterTable")
  | createUser => (4, "CREATE_USER", "CreateUser")
  | dropUser => (5, "DROP_USER", "DropUser")
  | alterUser => (6, "ALTER_USER", "AlterUser")
  | system => (7, "SYSTEM", "System")
  | createNamespace => (8, "CREATE_NAMESPACE", "CreateNamespace")
  | dropNamespace => (9, "DROP_NAMESPACE", "DropNamespace")
  | alterNamespace => (10, "ALTER_NAMESPACE", "AlterNamespace")
  | obtainDelegationToken => (11, "OBTAIN_DELEGATION_TOKEN", "ObtainDelegationToken")

instance : Permission SystemPermission where
  lt a b := a.row.1 < b.row.1
  scope := .system
  all := [.grant, .createTable, .dropTable, .alterTable, .createUser, .dropUser, .alterUser,
    .system, .createNamespace, .dropNamespace, .alterNamespace, .obtainDelegationToken]
  id p := p.row.1
  name p := p.row.2.1
  variant p := p.row.2.2
  lt_iff _ _ := Iff.rfl
  id_injective a b h := by cases a <;> cases b <;> first | rfl | cases h
  mem_all p := by cases p <;> decide

/-! ### A table -/

/-- What may be done to one table. The bytes 0 and 1 are retired. -/
inductive TablePermission
  | read | write | bulkImport | alterTable | grant | dropTable | getSummaries
  deriving DecidableEq

/-- The byte, the name and the spelling of a permission. -/
def TablePermission.row : TablePermission → UInt8 × String × String
  | read => (2, "READ", "Read")
  | write => (3, "WRITE", "Write")
  | bulkImport => (4, "BULK_IMPORT", "BulkImport")
  | alterTable => (5, "ALTER_TABLE", "AlterTable")
  | grant => (6, "GRANT", "Grant")
  | dropTable => (7, "DROP_TABLE", "DropTable")
  | getSummaries => (8, "GET_SUMMARIES", "GetSummaries")

instance : Permission TablePermission where
  lt a b := a.row.1 < b.row.1
  scope := .tables
  all := [.read, .write, .bulkImport, .alterTable, .grant, .dropTable, .getSummaries]
  id p := p.row.1
  name p := p.row.2.1
  variant p := p.row.2.2
  lt_iff _ _ := Iff.rfl
  id_injective a b h := by cases a <;> cases b <;> first | rfl | cases h
  mem_all p := by cases p <;> decide

/-! ### A namespace -/

/-- What may be done to one namespace and its tables. -/
inductive NamespacePermission
  | read | write | alterNamespace | grant | alterTable | createTable | dropTable | bulkImport
  | dropNamespace
  deriving DecidableEq

/-- The byte, the name and the spelling of a permission. -/
def NamespacePermission.row : NamespacePermission → UInt8 × String × String
  | read => (0, "READ", "Read")
  | write => (1, "WRITE", "Write")
  | alterNamespace => (2, "ALTER_NAMESPACE", "AlterNamespace")
  | grant => (3, "GRANT", "Grant")
  | alterTable => (4, "ALTER_TABLE", "AlterTable")
  | createTable => (5, "CREATE_TABLE", "CreateTable")
  | dropTable => (6, "DROP_TABLE", "DropTable")
  | bulkImport => (7, "BULK_IMPORT", "BulkImport")
  | dropNamespace => (8, "DROP_NAMESPACE", "DropNamespace")

instance : Permission NamespacePermission where
  lt a b := a.row.1 < b.row.1
  scope := .namespaces
  all := [.read, .write, .alterNamespace, .grant, .alterTable, .createTable, .dropTable,
    .bulkImport, .dropNamespace]
  id p := p.row.1
  name p := p.row.2.1
  variant p := p.row.2.2
  lt_iff _ _ := Iff.rfl
  id_injective a b h := by cases a <;> cases b <;> first | rfl | cases h
  mem_all p := by cases p <;> decide

end AccessControl
