import AccessControl.Proofs.Grant.PermissionRecord

/-!
Records with bytes that stand for nothing.

A byte is known to a kind of permissions if one of them has it, and a record with any other byte is
corrupt. Strict reading goes through the record byte by byte and stops at the first unknown one
(`decode_eq_error_iff`), so what stands behind that byte has no part in the answer; two records read
one after the other are read as one (`decode_append`). The reader of the system puts the empty set
in the place of every error (`mem_decodeSystem`). Neither gives a part of a corrupt record.

Main statement: `corrupt_record_policy`.
-/

namespace AccessControl

variable {P : Type} [Permission P]

namespace Permission

variable {b : UInt8} {e : GrantError}

/-! ### Known bytes -/

/-- A byte that some permission has. -/
def Known (P : Type) [Permission P] (b : UInt8) : Prop := ∃ p : P, id p = b

theorem known_iff_mem : Known P b ↔ b ∈ (all : List P).map id := by
  rw [List.mem_map]
  exact exists_congr fun p => (and_iff_right (mem_all p)).symm

instance : DecidablePred (Known P) := fun _ => decidable_of_iff _ known_iff_mem.symm

/-- Where the bytes of a kind have no gaps, a byte is known if it lies between the ends. -/
theorem known_iff_of_ids (first count : Nat)
    (hids : (all : List P).map id = (List.range' first count).map UInt8.ofNat)
    (hbytes : first + count ≤ UInt8.size) :
    Known P b ↔ first ≤ b.toNat ∧ b.toNat < first + count := by
  rw [known_iff_mem, hids, List.mem_map]
  constructor
  · rintro ⟨n, hn, rfl⟩
    have hrange := List.mem_range'_1.mp hn
    rwa [UInt8.toNat_ofNat_of_lt' (Nat.lt_of_lt_of_le hrange.2 hbytes)]
  · intro hrange
    exact ⟨b.toNat, List.mem_range'_1.mpr hrange, UInt8.ofNat_toNat⟩

theorem known_system_iff : Known SystemPermission b ↔ 0 ≤ b.toNat ∧ b.toNat < 12 :=
  known_iff_of_ids 0 12 rfl (by decide)

/-- The two bytes below those of tables are retired. -/
theorem known_table_iff : Known TablePermission b ↔ 2 ≤ b.toNat ∧ b.toNat < 9 :=
  known_iff_of_ids 2 7 rfl (by decide)

theorem known_namespace_iff : Known NamespacePermission b ↔ 0 ≤ b.toNat ∧ b.toNat < 9 :=
  known_iff_of_ids 0 9 rfl (by decide)

theorem exists_resolve_iff : (∃ p : P, resolve P b = .ok p) ↔ Known P b :=
  exists_congr fun _ => resolve_eq_ok_iff

/-- An unknown byte is reported with its kind. -/
theorem resolve_eq_error_iff :
    resolve P b = .error e ↔ ¬ Known P b ∧ e = .unknownId (scope P) b := by
  rw [Known, not_exists, ← ofId?_eq_none_iff]
  unfold resolve
  cases ofId? P b with
  | none => simp [eq_comm]
  | some p => simp

end Permission

namespace PermissionSet

open Permission (Known scope)

variable {s : PermissionSet P} {bytes front back : Bytes} {b : UInt8} {e : GrantError}

/-! ### Corrupt records -/

/-- A record with a byte that stands for nothing. -/
def Corrupt (P : Type) [Permission P] (bytes : Bytes) : Prop := ∃ b ∈ bytes, ¬ Known P b

/-- The first byte of a record that stands for nothing, whatever follows it. -/
def FirstUnknown (P : Type) [Permission P] (b : UInt8) (bytes : Bytes) : Prop :=
  ¬ Known P b ∧ ∃ before after, bytes = before ++ b :: after ∧ ∀ x ∈ before, Known P x

theorem not_corrupt_iff : ¬ Corrupt P bytes ↔ ∀ b ∈ bytes, Known P b := by
  simp only [Corrupt, not_exists, not_and, not_not]

/-- A record is corrupt exactly if one of its bytes is the first that stands for nothing. -/
theorem corrupt_iff_exists_first : Corrupt P bytes ↔ ∃ b, FirstUnknown P b bytes := by
  constructor
  · rintro ⟨x, hx, hunknown⟩
    have hfound : (bytes.find? fun b => ¬ Known P b) ≠ none := by
      intro hnone
      exact List.find?_eq_none.mp hnone x hx (decide_eq_true hunknown)
    obtain ⟨b, hb⟩ := Option.ne_none_iff_exists'.mp hfound
    obtain ⟨hfirst, before, after, hsplit, hbefore⟩ := List.find?_eq_some_iff_append.mp hb
    exact ⟨b, of_decide_eq_true hfirst, before, after, hsplit,
      fun x hx => by simpa using hbefore x hx⟩
  · rintro ⟨b, hunknown, before, after, rfl, -⟩
    exact ⟨b, by simp, hunknown⟩

/-! ### Strict reading -/

/-- What is reported is the first byte that stands for nothing. -/
theorem decode_eq_error_iff :
    decode P bytes = .error e ↔ ∃ b, FirstUnknown P b bytes ∧ e = .unknownId (scope P) b := by
  have hread : decode P bytes = .error e ↔ bytes.mapM (Permission.resolve P) = .error e := by
    rw [decode, bind_eq_error]
    exact or_iff_left fun ⟨_, _, hok⟩ => nomatch hok
  simp only [hread, mapM_eq_error, Permission.exists_resolve_iff, Permission.resolve_eq_error_iff]
  constructor
  · rintro ⟨before, b, after, hsplit, hbefore, hunknown, he⟩
    exact ⟨b, ⟨hunknown, before, after, hsplit, hbefore⟩, he⟩
  · rintro ⟨b, ⟨hunknown, before, after, hsplit, hbefore⟩, he⟩
    exact ⟨before, b, after, hsplit, hbefore, hunknown, he⟩

theorem exists_error_iff : (∃ e, decode P bytes = .error e) ↔ Corrupt P bytes := by
  rw [corrupt_iff_exists_first]
  constructor
  · rintro ⟨e, he⟩
    obtain ⟨b, hfirst, -⟩ := decode_eq_error_iff.mp he
    exact ⟨b, hfirst⟩
  · rintro ⟨b, hfirst⟩
    exact ⟨_, decode_eq_error_iff.mpr ⟨b, hfirst, rfl⟩⟩

theorem ofList_append (ps qs : List P) :
    SortedSet.ofList (ps ++ qs) = (SortedSet.ofList ps).union (SortedSet.ofList qs) := by
  apply SortedSet.ext
  intro p
  rw [SortedSet.mem_union, SortedSet.mem_ofList, SortedSet.mem_ofList, SortedSet.mem_ofList,
    List.mem_append]

/-- Two records, one behind the other, are read one after the other. -/
theorem decode_append (front back : Bytes) :
    decode P (front ++ back) = do return (← decode P front).union (← decode P back) := by
  unfold decode
  rw [List.mapM_append]
  cases front.mapM (Permission.resolve P) with
  | error e => rfl
  | ok ps =>
      cases back.mapM (Permission.resolve P) with
      | error e => rfl
      | ok qs => exact congrArg Except.ok (ofList_append ps qs)

/-! ### The system -/

theorem decodeSystem_of_corrupt (h : Corrupt SystemPermission bytes) :
    decodeSystem bytes = SortedSet.empty := by
  obtain ⟨e, he⟩ := exists_error_iff.mpr h
  rw [decodeSystem, he]

/-- What the system reads are the permissions with a byte of the record, if it is not corrupt. -/
theorem mem_decodeSystem {p : SystemPermission} :
    p ∈ decodeSystem bytes ↔ ¬ Corrupt SystemPermission bytes ∧ Permission.id p ∈ bytes := by
  by_cases hcorrupt : Corrupt SystemPermission bytes
  · rw [decodeSystem_of_corrupt hcorrupt]
    exact iff_of_false List.not_mem_nil fun h => h.1 hcorrupt
  · obtain ⟨s, hread⟩ := exists_decode (not_corrupt_iff.mp hcorrupt)
    rw [decodeSystem, hread, and_iff_right hcorrupt]
    exact (decode_eq_ok_iff.mp hread).2 p

/-- **Nothing of a corrupt record is read.** A record is refused exactly if it has a byte that no
permission of its kind has, and what is reported is the kind and the first such byte; any other
record is read as the permissions that have one of its bytes. So two records, one behind the other,
are read as the union of what each is read as, or refused as the first of them that is refused. The
system refuses no record: it reads a corrupt one as no permissions at all. -/
theorem corrupt_record_policy (P : Type) [Permission P] :
    (∀ bytes, (∃ e, decode P bytes = .error e) ↔ Corrupt P bytes) ∧
    (∀ bytes e, decode P bytes = .error e ↔
      ∃ b, FirstUnknown P b bytes ∧ e = .unknownId (scope P) b) ∧
    (∀ bytes s, decode P bytes = .ok s ↔
      ¬ Corrupt P bytes ∧ ∀ p, p ∈ s ↔ Permission.id p ∈ bytes) ∧
    (∀ front back, decode P (front ++ back) =
      do return (← decode P front).union (← decode P back)) ∧
    (∀ bytes p, p ∈ decodeSystem bytes ↔
      ¬ Corrupt SystemPermission bytes ∧ Permission.id p ∈ bytes) ∧
    ∀ bytes, Corrupt SystemPermission bytes → decodeSystem bytes = SortedSet.empty := by
  refine ⟨fun _ => exists_error_iff, fun _ _ => decode_eq_error_iff, ?_, decode_append,
    fun _ _ => mem_decodeSystem, fun _ => decodeSystem_of_corrupt⟩
  intro bytes s
  rw [not_corrupt_iff]
  exact decode_eq_ok_iff

/-- A record of tables with a retired byte in the middle is refused for that byte. In a record of a
namespace the same byte is a permission, and the one at the end is reported. A record of the system
with an unknown byte is read as nothing. -/
theorem nothing_of_middleUnknown :
    decode TablePermission [2, 0, 3, 9] = .error (.unknownId .tables 0) ∧
      decode NamespacePermission [2, 0, 3, 9] = .error (.unknownId .namespaces 9) ∧
      Corrupt SystemPermission [0, 1, 42, 7] ∧ decodeSystem [0, 1, 42, 7] = SortedSet.empty := by
  have htable : FirstUnknown TablePermission 0 [2, 0, 3, 9] := by
    refine ⟨?_, [2], [3, 9], rfl, ?_⟩
    · simp [Permission.known_table_iff]
    · simp [Permission.known_table_iff]
  have hnamespace : FirstUnknown NamespacePermission 9 [2, 0, 3, 9] := by
    refine ⟨?_, [2, 0, 3], [], rfl, ?_⟩
    · simp [Permission.known_namespace_iff]
    · simp [Permission.known_namespace_iff]
  have hcorrupt : Corrupt SystemPermission [0, 1, 42, 7] := by
    refine ⟨42, by simp, ?_⟩
    simp [Permission.known_system_iff]
  obtain ⟨-, htables, -, -, -, hsystem⟩ := corrupt_record_policy TablePermission
  obtain ⟨-, hnamespaces, -⟩ := corrupt_record_policy NamespacePermission
  exact ⟨(htables _ _).mpr ⟨0, htable, rfl⟩, (hnamespaces _ _).mpr ⟨9, hnamespace, rfl⟩, hcorrupt,
    hsystem _ hcorrupt⟩

end PermissionSet

end AccessControl
