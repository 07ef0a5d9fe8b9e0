/-!
# Ordered sets

A finite set kept as its strictly increasing list of elements, so that two sets with the same
elements are the same value. `mem_ofList` says what a set built from a list holds, `ofList_toList`
that listing a set and collecting the list again loses nothing.
-/

namespace PermissionUsage

/-- A finite set, listed in strictly increasing order. -/
structure OrderedSet (α : Type) [Ord α] where
  toList : List α
  increasing : toList.Pairwise (compare · · = .lt)

namespace OrderedSet

variable {α : Type} [Ord α]

instance [DecidableEq α] : DecidableEq (OrderedSet α) := fun s t =>
  decidable_of_iff (s.toList = t.toList) ⟨fun h => by cases s; cases t; simp_all, fun h => h ▸ rfl⟩

/-- A set is known by its list. -/
@[ext] theorem ext {s t : OrderedSet α} (h : s.toList = t.toList) : s = t := by
  cases s; cases t; simp_all

def empty : OrderedSet α := ⟨[], .nil⟩

instance : Inhabited (OrderedSet α) := ⟨empty⟩

instance : Membership α (OrderedSet α) := ⟨fun s a => a ∈ s.toList⟩

theorem mem_def {s : OrderedSet α} {a : α} : a ∈ s ↔ a ∈ s.toList := Iff.rfl

instance [DecidableEq α] (s : OrderedSet α) (a : α) : Decidable (a ∈ s) :=
  inferInstanceAs (Decidable (a ∈ s.toList))

def erase [DecidableEq α] (s : OrderedSet α) (a : α) : OrderedSet α :=
  ⟨s.toList.filter (· ≠ a), s.increasing.filter _⟩

/-- What is left of a set without one element. -/
theorem mem_erase [DecidableEq α] {s : OrderedSet α} {a x : α} :
    x ∈ s.erase a ↔ x ∈ s ∧ x ≠ a := by
  simp [erase, mem_def]

/-- Puts `a` into its place in an increasing list; an element that is there already stays alone. -/
def insertSorted (a : α) : List α → List α
  | [] => [a]
  | b :: rest =>
    match compare a b with
    | .lt => a :: b :: rest
    | .eq => b :: rest
    | .gt => b :: insertSorted a rest

section Lawful

variable [Std.TransOrd α] [Std.LawfulEqOrd α]

omit [Std.TransOrd α] in
/-- An increasing list holds what is put into it, and nothing else that it did not hold before. -/
theorem mem_insertSorted {a x : α} {l : List α} : x ∈ insertSorted a l ↔ x = a ∨ x ∈ l := by
  induction l with
  | nil => simp [insertSorted]
  | cons b rest ih =>
    rw [insertSorted]
    split
    · simp
    · next h => obtain rfl := Std.LawfulEqOrd.eq_of_compare h; simp
    · rw [List.mem_cons, ih, List.mem_cons]
      exact or_left_comm

/-- A list stays increasing. The element goes in front of the first one that is not less, and what
follows is greater still. -/
theorem insertSorted_increasing (a : α) {l : List α} (h : l.Pairwise (compare · · = .lt)) :
    (insertSorted a l).Pairwise (compare · · = .lt) := by
  induction l with
  | nil => simp [insertSorted]
  | cons b rest ih =>
    obtain ⟨hb, hrest⟩ := List.pairwise_cons.1 h
    rw [insertSorted]
    split
    · next hab =>
      refine List.pairwise_cons.2 ⟨fun x hx => ?_, h⟩
      rcases List.mem_cons.1 hx with rfl | hx
      · exact hab
      · exact Std.TransCmp.lt_trans hab (hb x hx)
    · exact h
    · next hab =>
      refine List.pairwise_cons.2 ⟨fun x hx => ?_, ih hrest⟩
      rcases mem_insertSorted.1 hx with rfl | hx
      · exact Std.OrientedCmp.lt_of_gt hab
      · exact hb x hx

def insert (a : α) (s : OrderedSet α) : OrderedSet α :=
  ⟨insertSorted a s.toList, insertSorted_increasing a s.increasing⟩

theorem mem_insert {a x : α} {s : OrderedSet α} : x ∈ s.insert a ↔ x = a ∨ x ∈ s :=
  mem_insertSorted

def ofList (l : List α) : OrderedSet α := l.foldr insert empty

/-- A set that is collected from a list holds the elements of the list. -/
theorem mem_ofList {x : α} {l : List α} : x ∈ ofList l ↔ x ∈ l := by
  induction l with
  | nil => simp [ofList, empty, mem_def]
  | cons a rest ih =>
    rw [show ofList (a :: rest) = (ofList rest).insert a from rfl, mem_insert, ih, List.mem_cons]

/-- Collecting an increasing list does not move anything. -/
theorem toList_ofList_of_increasing {l : List α} (h : l.Pairwise (compare · · = .lt)) :
    (ofList l).toList = l := by
  induction l with
  | nil => rfl
  | cons a rest ih =>
    obtain ⟨ha, hrest⟩ := List.pairwise_cons.1 h
    rw [show (ofList (a :: rest)).toList = insertSorted a (ofList rest).toList from rfl, ih hrest]
    cases rest with
    | nil => rfl
    | cons b rest => rw [insertSorted, ha b (by simp)]

/-- Listing a set and collecting the list again gives the set back. -/
theorem ofList_toList (s : OrderedSet α) : ofList s.toList = s :=
  ext (toList_ofList_of_increasing s.increasing)

end Lawful

end OrderedSet

end PermissionUsage
