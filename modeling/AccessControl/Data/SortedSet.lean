/-!
Finite sets kept as strictly ascending lists, so that equal sets are equal values and the order of
the list is the order in which a set is written.

Main statements: `mem_ofList`, a set built from a list has the members of the list, and `ext`, two
sets with the same members are equal.
-/

namespace AccessControl

/-- A finite set: its members in strictly ascending order. -/
structure SortedSet (α : Type) [LT α] where
  toList : List α
  ascending : toList.Pairwise (· < ·)

namespace SortedSet

variable {α : Type} [LT α] [DecidableLT α]

instance [DecidableEq α] : DecidableEq (SortedSet α) := fun s t =>
  decidable_of_iff (s.toList = t.toList) (by cases s; cases t; simp)

instance : Membership α (SortedSet α) := ⟨fun s a => a ∈ s.toList⟩

/-- The set without members. -/
def empty : SortedSet α := ⟨[], .nil⟩

/-- The ascending list with `a` put in its place, once. -/
def place (a : α) : List α → List α
  | [] => [a]
  | b :: rest => if a < b then a :: b :: rest else if b < a then b :: place a rest else b :: rest

/-- Whether `a` is a member. -/
def contains [BEq α] (s : SortedSet α) (a : α) : Bool := s.toList.elem a

/-- The number of members. -/
def size (s : SortedSet α) : Nat := s.toList.length

def isEmpty (s : SortedSet α) : Bool := s.toList.isEmpty

/-! ### Placing a member -/

theorem mem_of_mem_place {a b : α} {l : List α} (h : b ∈ place a l) : b = a ∨ b ∈ l := by
  induction l with
  | nil => simpa [place] using h
  | cons c rest ih =>
    unfold place at h
    split at h
    · simpa using h
    · split at h
      · rcases List.mem_cons.1 h with h | h
        · exact .inr (by simp [h])
        · rcases ih h with h | h
          · exact .inl h
          · exact .inr (by simp [h])
      · exact .inr h

theorem mem_place [Std.Trichotomous (α := α) (· < ·)] {a b : α} {l : List α} :
    b ∈ place a l ↔ b = a ∨ b ∈ l := by
  refine ⟨mem_of_mem_place, ?_⟩
  induction l with
  | nil => simp [place]
  | cons c rest ih =>
    intro h
    unfold place
    split
    · simpa using h
    · split
      · rcases h with h | h
        · exact List.mem_cons_of_mem _ (ih (.inl h))
        · rcases List.mem_cons.1 h with h | h
          · simp [h]
          · exact List.mem_cons_of_mem _ (ih (.inr h))
      · rename_i hac hca
        rcases h with h | h
        · rcases Std.lt_trichotomy a c with hlt | heq | hlt
          · exact absurd hlt hac
          · simp [h, heq]
          · exact absurd hlt hca
        · exact h

/-! ### Building -/

section Build

variable [Trans (α := α) (· < ·) (· < ·) (· < ·)]

theorem place_ascending (a : α) {l : List α} (h : l.Pairwise (· < ·)) :
    (place a l).Pairwise (· < ·) := by
  induction l with
  | nil => simp [place]
  | cons b rest ih =>
    have hb := List.pairwise_cons.1 h
    unfold place
    split
    · rename_i hab
      refine List.pairwise_cons.2 ⟨?_, h⟩
      intro c hc
      rcases List.mem_cons.1 hc with rfl | hc
      · exact hab
      · exact Std.lt_trans hab (hb.1 c hc)
    · split
      · rename_i hba
        refine List.pairwise_cons.2 ⟨?_, ih hb.2⟩
        intro c hc
        rcases mem_of_mem_place hc with rfl | hc
        · exact hba
        · exact hb.1 c hc
      · exact h

/-- The set with one more member. -/
def insert (a : α) (s : SortedSet α) : SortedSet α := ⟨place a s.toList, place_ascending a s.2⟩

/-- The set of the members of a list. -/
def ofList (l : List α) : SortedSet α := l.foldr insert empty

/-- The members of two sets together. -/
def union (s t : SortedSet α) : SortedSet α := ofList (s.toList ++ t.toList)

variable [Std.Trichotomous (α := α) (· < ·)]

theorem mem_insert {a b : α} {s : SortedSet α} : b ∈ s.insert a ↔ b = a ∨ b ∈ s := mem_place

theorem mem_ofList {a : α} {l : List α} : a ∈ ofList l ↔ a ∈ l := by
  induction l with
  | nil => simp [ofList, empty, Membership.mem]
  | cons b rest ih =>
    rw [show ofList (b :: rest) = (ofList rest).insert b from rfl, mem_insert, ih]
    simp

theorem mem_union {a : α} {s t : SortedSet α} : a ∈ s.union t ↔ a ∈ s ∨ a ∈ t :=
  mem_ofList.trans List.mem_append

end Build

/-! ### Equality -/

section Equality

variable {α : Type} [LT α] [Trans (α := α) (· < ·) (· < ·) (· < ·)] [Std.Irrefl (α := α) (· < ·)]

theorem eq_of_ascending {l m : List α} (hl : l.Pairwise (· < ·)) (hm : m.Pairwise (· < ·))
    (h : ∀ a, a ∈ l ↔ a ∈ m) : l = m := by
  induction l generalizing m with
  | nil =>
    cases m with
    | nil => rfl
    | cons b rest => exact absurd ((h b).2 (by simp)) (by simp)
  | cons a rest ih =>
    cases m with
    | nil => exact absurd ((h a).1 (by simp)) (by simp)
    | cons b more =>
      have hl := List.pairwise_cons.1 hl
      have hm := List.pairwise_cons.1 hm
      have hab : a = b := by
        rcases List.mem_cons.1 ((h a).1 (by simp)) with hab | hab
        · exact hab
        · rcases List.mem_cons.1 ((h b).2 (by simp)) with hba | hba
          · exact hba.symm
          · exact absurd (Std.lt_trans (hl.1 b hba) (hm.1 a hab)) Std.lt_irrefl
      subst hab
      congr 1
      refine ih hl.2 hm.2 fun c => ⟨fun hc => ?_, fun hc => ?_⟩
      · rcases List.mem_cons.1 ((h c).1 (List.mem_cons_of_mem _ hc)) with rfl | hc'
        · exact absurd (hl.1 c hc) Std.lt_irrefl
        · exact hc'
      · rcases List.mem_cons.1 ((h c).2 (List.mem_cons_of_mem _ hc)) with rfl | hc'
        · exact absurd (hm.1 c hc) Std.lt_irrefl
        · exact hc'

theorem ext {s t : SortedSet α} (h : ∀ a, a ∈ s ↔ a ∈ t) : s = t := by
  cases s with
  | mk l hl =>
    cases t with
    | mk m hm => cases eq_of_ascending hl hm h; rfl

end Equality

end SortedSet

end AccessControl
