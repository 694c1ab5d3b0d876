import Mathlib.Data.Set.List
import AccessControl.Grant.Record
import AccessControl.Proofs.Data.Except

/-!
The stored record of permissions.

A record is read byte by byte, and a byte is read if some permission has it; so what a record is read
as depends only on which bytes occur in it (`decode_eq_ok_iff`). The record that is written for a
set ascends and holds the bytes of its members (`record_ascending`, `mem_record`). Since an ascending
record is determined by the bytes that occur in it, there is one record for each set, and it is the
one that reads as it is written.

Main statement: `record_canonical`, for the permissions of every scope.
-/

namespace AccessControl

variable {P : Type} [Permission P]

/-- A byte is resolved as the permission that has it. -/
theorem Permission.resolve_eq_ok_iff {byte : UInt8} {p : P} :
    resolve P byte = .ok p ↔ id p = byte := by
  rw [← ofId?_eq_some_iff]
  unfold resolve
  cases ofId? P byte with
  | none => simp
  | some q => simp

namespace PermissionSet

variable {permissions : List P} {s : PermissionSet P} {bytes other : Bytes} {b : UInt8} {p : P}

/-! ### Reading -/

/-- Bytes stand for permissions if they are the bytes of a list of permissions. -/
theorem known_iff_exists :
    (∀ b ∈ bytes, ∃ p : P, Permission.id p = b) ↔ ∃ ps : List P, ps.map Permission.id = bytes := by
  change (∀ b ∈ bytes, b ∈ Set.range Permission.id) ↔ bytes ∈ Set.range (List.map Permission.id)
  rw [Set.range_list_map]
  rfl

/-- What a record is read as are the permissions that have its bytes, one by one. -/
theorem decode_eq_ok_iff_exists :
    decode P bytes = .ok s ↔
      ∃ ps : List P, ps.map Permission.id = bytes ∧ SortedSet.ofList ps = s := by
  have hids : ∀ ps : List P,
      List.Forall₂ (fun b p => Permission.id p = b) bytes ps ↔ ps.map Permission.id = bytes := by
    intro ps
    rw [← List.forall₂_eq_eq_eq, List.forall₂_map_left_iff]
    exact ⟨List.Forall₂.flip, List.Forall₂.flip⟩
  unfold decode
  simp only [bind_eq_ok, mapM_eq_ok, Permission.resolve_eq_ok_iff, hids, pure, Except.pure,
    Except.ok.injEq]

/-- A record is read if each of its bytes stands for a permission, as the set of those that have one
of its bytes. -/
theorem decode_eq_ok_iff :
    decode P bytes = .ok s ↔
      (∀ b ∈ bytes, ∃ p : P, Permission.id p = b) ∧ ∀ p, p ∈ s ↔ Permission.id p ∈ bytes := by
  have hmem : ∀ (ps : List P) (p : P), p ∈ SortedSet.ofList ps ↔
      Permission.id p ∈ ps.map Permission.id := by
    intro ps p
    rw [SortedSet.mem_ofList, List.mem_map_of_injective fun a b => Permission.id_injective a b]
  rw [decode_eq_ok_iff_exists, known_iff_exists]
  constructor
  · rintro ⟨ps, rfl, rfl⟩
    exact ⟨⟨ps, rfl⟩, hmem ps⟩
  · rintro ⟨⟨ps, rfl⟩, hset⟩
    exact ⟨ps, rfl, SortedSet.ext fun p => (hmem ps p).trans (hset p).symm⟩

/-- Records with the same bytes, in any order and any number, are read alike. -/
theorem decode_eq_ok_congr (hsame : ∀ b, b ∈ other ↔ b ∈ bytes) :
    decode P other = .ok s ↔ decode P bytes = .ok s := by
  simp only [decode_eq_ok_iff, hsame]

/-! ### Writing -/

theorem record_ascending (s : PermissionSet P) : (record s).Pairwise (· < ·) :=
  List.pairwise_map.mpr (s.ascending.imp fun h => (Permission.lt_iff _ _).mp h)

theorem mem_record : b ∈ record s ↔ ∃ p ∈ s, Permission.id p = b := List.mem_map

theorem id_mem_record : Permission.id p ∈ record s ↔ p ∈ s :=
  List.mem_map_of_injective fun a b => Permission.id_injective a b

/-- What is written for a list is the record of the set of its members. -/
theorem id_mem_encode : Permission.id p ∈ encode permissions ↔ p ∈ permissions := by
  rw [encode, id_mem_record, SortedSet.mem_ofList]

theorem ofList_toList (s : PermissionSet P) : SortedSet.ofList s.toList = s :=
  SortedSet.ext fun _ => SortedSet.mem_ofList

/-- Lists are written alike exactly when they have the same members. -/
theorem encode_eq_iff {others : List P} :
    encode permissions = encode others ↔ ∀ p, p ∈ permissions ↔ p ∈ others := by
  constructor
  · intro h p
    rw [← id_mem_encode, h, id_mem_encode]
  · intro h
    have hset : SortedSet.ofList permissions = SortedSet.ofList others := by
      apply SortedSet.ext
      intro p
      rw [SortedSet.mem_ofList, SortedSet.mem_ofList, h p]
    rw [encode, encode, hset]

/-! ### Both ways -/

/-- The record of a set is read as that set. -/
theorem decode_record (s : PermissionSet P) : decode P (record s) = .ok s := by
  rw [decode_eq_ok_iff]
  constructor
  · intro b hb
    obtain ⟨p, -, hp⟩ := mem_record.mp hb
    exact ⟨p, hp⟩
  · intro p
    exact id_mem_record.symm

/-- What is written for the set that a record is read as has the bytes of that record. -/
theorem mem_record_of_decode (h : decode P bytes = .ok s) : b ∈ record s ↔ b ∈ bytes := by
  obtain ⟨hknown, hset⟩ := decode_eq_ok_iff.mp h
  rw [mem_record]
  constructor
  · rintro ⟨p, hp, rfl⟩
    exact (hset p).mp hp
  · intro hb
    obtain ⟨p, rfl⟩ := hknown b hb
    exact ⟨p, (hset p).mpr hb, rfl⟩

/-- A record is the one that is written for what it is read as exactly when it ascends. -/
theorem record_eq_iff (h : decode P bytes = .ok s) :
    record s = bytes ↔ bytes.Pairwise (· < ·) := by
  constructor
  · rintro rfl
    exact record_ascending s
  · intro hascending
    exact SortedSet.eq_of_ascending (record_ascending s) hascending fun b => mem_record_of_decode h

theorem exists_decode (h : ∀ b ∈ bytes, ∃ p : P, Permission.id p = b) :
    ∃ s, decode P bytes = .ok s := by
  obtain ⟨ps, hps⟩ := known_iff_exists.mp h
  exact ⟨_, decode_eq_ok_iff_exists.mpr ⟨ps, hps, rfl⟩⟩

/-- **One record for each set.** A list of permissions is written in strictly ascending order and
read back as the set of its members, by the reader of the system too; two lists are written alike
exactly when they have the same members. A record that is read is written again as the bytes that
occur in it, in strictly ascending order, and every record with the same bytes is read as the same
set. So the records that are written again as they are, are the strictly ascending ones of bytes that
stand for permissions. -/
theorem record_canonical (P : Type) [Permission P] :
    (∀ permissions : List P, (encode permissions).Pairwise (· < ·) ∧
      ∃ s, decode P (encode permissions) = .ok s ∧ ∀ p, p ∈ s ↔ p ∈ permissions) ∧
    (∀ (permissions : List SystemPermission) (p : SystemPermission),
      p ∈ decodeSystem (encode permissions) ↔ p ∈ permissions) ∧
    (∀ permissions others : List P,
      encode permissions = encode others ↔ ∀ p, p ∈ permissions ↔ p ∈ others) ∧
    (∀ (bytes : Bytes) (s : PermissionSet P), decode P bytes = .ok s →
      (encode s.toList).Pairwise (· < ·) ∧ (∀ b, b ∈ encode s.toList ↔ b ∈ bytes) ∧
        ∀ other : Bytes, (∀ b, b ∈ other ↔ b ∈ bytes) → decode P other = .ok s) ∧
    ∀ bytes : Bytes, (∃ s : PermissionSet P, decode P bytes = .ok s ∧ encode s.toList = bytes) ↔
      bytes.Pairwise (· < ·) ∧ ∀ b ∈ bytes, ∃ p : P, Permission.id p = b := by
  refine ⟨?_, ?_, fun _ _ => encode_eq_iff, ?_, ?_⟩
  · intro permissions
    exact ⟨record_ascending _, _, decode_record _, fun p => SortedSet.mem_ofList⟩
  · intro permissions p
    rw [decodeSystem, encode, decode_record]
    exact SortedSet.mem_ofList
  · intro bytes s hread
    rw [encode, ofList_toList]
    exact ⟨record_ascending s, fun b => mem_record_of_decode hread,
      fun other hsame => (decode_eq_ok_congr hsame).mpr hread⟩
  · intro bytes
    simp only [encode, ofList_toList]
    constructor
    · rintro ⟨s, hread, hwritten⟩
      exact ⟨(record_eq_iff hread).mp hwritten, (decode_eq_ok_iff.mp hread).1⟩
    · rintro ⟨hascending, hknown⟩
      obtain ⟨s, hread⟩ := exists_decode hknown
      exact ⟨s, hread, (record_eq_iff hread).mpr hascending⟩

/-- A table record out of order, with a repeat, is read as the record in order is, and is written
again in order. -/
theorem written_of_repeated :
    ∃ s, decode TablePermission [6, 2, 6] = .ok s ∧ (encode s.toList).Pairwise (· < ·) ∧
      (∀ b, b ∈ encode s.toList ↔ b ∈ [6, 2, 6]) ∧ decode TablePermission [2, 6] = .ok s := by
  have hread : decode TablePermission [6, 2, 6] = .ok (.ofList [.grant, .read]) := rfl
  obtain ⟨-, -, -, hrecords, -⟩ := record_canonical TablePermission
  obtain ⟨hascending, hbytes, hsame⟩ := hrecords [6, 2, 6] _ hread
  refine ⟨_, hread, hascending, hbytes, hsame [2, 6] fun b => ⟨List.mem_cons_of_mem 6, fun h => ?_⟩⟩
  rcases List.mem_cons.mp h with rfl | h
  · exact List.mem_cons_of_mem 2 (List.mem_singleton_self 6)
  · exact h

end PermissionSet

end AccessControl
