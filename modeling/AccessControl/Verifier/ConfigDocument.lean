import AccessControl.Json.Sequence
import AccessControl.Verifier.Config

/-!
Configurations as documents. A document is an object with any of the four members, each at most
once and in any order, and any others, which are skipped; or a list of the four values in order,
of which the last ones may be missing. What is not given has its default.
-/

namespace AccessControl.Config

/-! ### Members -/

/-- What a document may say about a configuration, in the order of a list. -/
inductive Field
  | maxEntries
  | initialCapacity
  | idleTimeout
  | sweepInterval
  deriving DecidableEq

namespace Field

def all : List Field := [maxEntries, initialCapacity, idleTimeout, sweepInterval]

/-- The key of a member. -/
def key : Field → String
  | maxEntries => "max_entries"
  | initialCapacity => "initial_capacity"
  | idleTimeout => "idle_timeout_ms"
  | sweepInterval => "janitor_interval_ms"

/-- The name of the type of a member's value. -/
def expected : Field → String
  | maxEntries | initialCapacity => "usize"
  | idleTimeout | sweepInterval => "u64"

/-- The member of a key. -/
def ofKey? (key : Bytes) : Option Field := all.find? fun field => Utf8.encode field.key == key

end Field

/-- What a document has said so far. -/
structure Overlay where
  maxEntries : Option UInt64
  initialCapacity : Option UInt64
  idleTimeoutMs : Option UInt64
  sweepIntervalMs : Option (Option UInt64)
  deriving DecidableEq

namespace Overlay

def empty : Overlay := ⟨none, none, none, none⟩

/-- Whether a member has been given. -/
def has (o : Overlay) : Field → Bool
  | .maxEntries => o.maxEntries.isSome
  | .initialCapacity => o.initialCapacity.isSome
  | .idleTimeout => o.idleTimeoutMs.isSome
  | .sweepInterval => o.sweepIntervalMs.isSome

/-- The configuration with what was given in place of what it had. -/
def apply (o : Overlay) (c : Config) : Config :=
  ⟨o.maxEntries.getD c.maxEntries, o.initialCapacity.getD c.initialCapacity,
    o.idleTimeoutMs.getD c.idleTimeoutMs, o.sweepIntervalMs.getD c.sweepIntervalMs⟩

end Overlay

open Json

/-! ### Reading -/

/-- The value of a member. Only the sweep interval may be null. -/
def readField (o : Overlay) (field : Field) (bytes : Bytes) : Except Failure (Overlay × Bytes) :=
  match field with
  | .sweepInterval =>
    match readUnsigned? field.expected bytes with
    | .error failure => .error failure
    | .ok (value, rest) => .ok ({ o with sweepIntervalMs := some value }, rest)
  | _ =>
    match readUnsigned field.expected bytes with
    | .error failure => .error failure
    | .ok (value, rest) =>
      match field with
      | .maxEntries => .ok ({ o with maxEntries := some value }, rest)
      | .initialCapacity => .ok ({ o with initialCapacity := some value }, rest)
      | _ => .ok ({ o with idleTimeoutMs := some value }, rest)

/-- The failure on a member that was given before: noticed behind its key, after a look at whether
the object ends there. -/
def repeated (field : Field) (bytes : Bytes) : Failure :=
  match skipBlanks bytes with
  | Ascii.closeBrace :: rest => ⟨.duplicateField field.key, rest⟩
  | rest => ⟨.duplicateField field.key, rest⟩

/-- A member behind the opening quote of its key. -/
def readMember (o : Overlay) (bytes : Bytes) : Except Failure (Overlay × Bytes) :=
  match readString true bytes with
  | .error failure => .error failure
  | .ok (key, rest) =>
    match Field.ofKey? key with
    | some field =>
      if o.has field then .error (repeated field rest)
      else match readColon rest with
        | .error failure => .error failure
        | .ok rest => readField o field rest
    | none =>
      match readColon rest with
      | .error failure => .error failure
      | .ok rest =>
        match skipValue [] rest with
        | .error failure => .error failure
        | .ok rest => .ok (o, rest)

theorem length_readField_lt {o p : Overlay} {field : Field} {bytes rest : Bytes}
    (h : readField o field bytes = .ok (p, rest)) : rest.length < bytes.length := by
  unfold readField at h
  split at h
  · split at h
    · cases h
    · rename_i hvalue
      cases h
      exact length_readUnsigned?_lt hvalue
  · split at h
    · cases h
    · rename_i hvalue
      have := length_readUnsigned_lt hvalue
      split at h <;> cases h <;> exact this

theorem length_readMember_lt {o p : Overlay} {bytes rest : Bytes}
    (h : readMember o bytes = .ok (p, rest)) : rest.length < bytes.length := by
  unfold readMember at h
  split at h
  · cases h
  · rename_i hkey
    have hkey := length_readString_lt hkey
    split at h
    · split at h
      · cases h
      · split at h
        · cases h
        · rename_i hcolon
          have hcolon := length_readColon_lt hcolon
          have := length_readField_lt h
          omega
    · split at h
      · cases h
      · rename_i hcolon
        have hcolon := length_readColon_lt hcolon
        split at h
        · cases h
        · rename_i hvalue
          cases h
          have := length_skipValue_lt hvalue
          omega

/-- The members of an object. -/
def readMembers (first : Bool) (o : Overlay) (bytes : Bytes) :
    Except Failure (Overlay × Bytes) :=
  match hnext : nextMember first bytes with
  | .error failure => .error failure
  | .ok (.closed rest) => .ok (o, rest)
  | .ok (.more rest) =>
    match hmember : readMember o rest with
    | .error failure => .error failure
    | .ok (o, after) =>
      have := length_nextMember_lt hnext
      have := length_readMember_lt hmember
      readMembers false o after
termination_by bytes.length

/-- The elements of a list, for the given fields. -/
def readElements : List Field → Bool → Overlay → Bytes → Except Failure (Overlay × Bytes)
  | [], _, o, bytes =>
    match endList bytes with
    | .error failure => .error failure
    | .ok rest => .ok (o, rest)
  | field :: fields, first, o, bytes =>
    match nextElement first bytes with
    | .error failure => .error failure
    | .ok (.closed rest) => .ok (o, rest)
    | .ok (.more rest) =>
      match readField o field rest with
      | .error failure => .error failure
      | .ok (o, rest) => readElements fields false o rest

/-- What a document says. -/
def readOverlay (bytes : Bytes) : Except Failure (Overlay × Bytes) :=
  match skipBlanks bytes with
  | [] => .error ⟨.endInValue, []⟩
  | b :: rest =>
    if b = Ascii.openBrace then readMembers true .empty rest
    else if b = Ascii.openBracket then readElements Field.all true .empty rest
    else .error (mistyped "struct VerifierConfig" (b :: rest))

/-- The configuration of a document, if a verifier can be set up with it. -/
def ofDocument (document : String) : Except Error Config :=
  match readDocument readOverlay document with
  | .error error => .error (.document error)
  | .ok overlay =>
    match (overlay.apply default).validate with
    | .error error => .error error
    | .ok () => .ok (overlay.apply default)

/-! ### Writing -/

/-- The value of a member, as it is written. -/
def fieldText (c : Config) : Field → String
  | .maxEntries => toString c.maxEntries.toNat
  | .initialCapacity => toString c.initialCapacity.toNat
  | .idleTimeout => toString c.idleTimeoutMs.toNat
  | .sweepInterval =>
    match c.sweepIntervalMs with
    | some millis => toString millis.toNat
    | none => "null"

/-- The document of a configuration: all members in the order of a list, without blanks. -/
def document (c : Config) : String :=
  "\x7b" ++ String.intercalate "," (Field.all.map fun field =>
    "\"" ++ field.key ++ "\":" ++ c.fieldText field) ++ "\x7d"

end AccessControl.Config
