import Mathlib.Algebra.Order.Group.Nat
import Mathlib.Data.List.Basic

/-!
# Slices over arrays

Go's slices share arrays: a slice is an address and a length, a copy of it names the same array, and
writing through one shows in the other. `append` writes into the array while there is room in it and
moves to a new one otherwise. The slices here start at the first cell of their array. The lemmas
say what a slice that lies within its array reads after each operation.
-/

/-- The arrays by their addresses; the length of an array is its capacity. -/
abbrev SliceMemory (α : Type) := List (List α)

/-- A slice; the nil slice has no array. -/
structure SliceRef where
  array : Option Nat := none
  length : Nat := 0
  deriving DecidableEq

namespace SliceRef

section
variable {α : Type} [Inhabited α] (m : SliceMemory α) (s : SliceRef)

/-- The cells of the array. -/
def cells : List α := (s.array.bind fun a => m[a]?).getD []

/-- The elements of the slice. -/
def read : List α := (s.cells m).take s.length

/-- The slice lies within its array. -/
def Valid : Prop := s.length ≤ (s.cells m).length

/-- `s[:0]`. -/
def emptied : SliceRef := { s with length := 0 }

/-- Write over the first cells. -/
def write (l : List α) : SliceMemory α :=
  match s.array with
  | none => m
  | some a => m.set a (l ++ (s.cells m).drop l.length)

/-- `append` of one element; a new array has the given room after it. -/
def append (room : Nat) (a : α) : SliceMemory α × SliceRef :=
  if s.length < (s.cells m).length then
    (s.write m (s.read m ++ [a]), { s with length := s.length + 1 })
  else
    (m ++ [s.read m ++ a :: List.replicate room default],
      { array := some m.length, length := s.length + 1 })

/-- `append` of one element after the other. -/
def appendAll (room : Nat → Nat) (m : SliceMemory α) (s : SliceRef) :
    List α → SliceMemory α × SliceRef
  | [] => (m, s)
  | a :: l =>
    let (m, s) := s.append m (room s.length) a
    appendAll room m s l

/-- Replace the elements in place by fewer or as many; the cells that become free are cleared. -/
def rewrite (f : List α → List α) : SliceMemory α × SliceRef :=
  let l := f (s.read m)
  (s.write m (l ++ List.replicate (s.length - l.length) default), { s with length := l.length })

end

section
variable {α : Type} {m : SliceMemory α} {s : SliceRef}

theorem length_read (h : s.Valid m) : (s.read m).length = s.length :=
  List.length_take_of_le h

theorem valid_emptied : s.emptied.Valid m := Nat.zero_le _

theorem read_emptied : s.emptied.read m = [] := List.take_zero

theorem cells_write {l : List α} (h : l.length ≤ (s.cells m).length) :
    s.cells (s.write m l) = l ++ (s.cells m).drop l.length := by
  have hnil (h0 : s.cells m = []) : l = [] := by
    rw [h0] at h
    exact List.length_eq_zero_iff.mp (Nat.le_zero.mp h)
  unfold write
  split
  · next harray =>
    have h0 : s.cells m = [] := by rw [cells, harray]; rfl
    rw [hnil h0, h0]
    rfl
  · next a harray =>
    cases ha : m[a]? with
    | none =>
      have h0 : s.cells m = [] := by simp [cells, harray, ha]
      rw [hnil h0, h0, List.set_eq_of_length_le (List.getElem?_eq_none_iff.mp ha)]
      exact h0
    | some array =>
      obtain ⟨hlt, -⟩ := List.getElem?_eq_some_iff.mp ha
      generalize l ++ (s.cells m).drop l.length = new
      simp [cells, harray, hlt]

/-- What is written over the first cells is read, through a slice of that length. -/
theorem read_write {l : List α} (h : l.length ≤ (s.cells m).length) {n : Nat} (hn : n ≤ l.length) :
    ({ s with length := n } : SliceRef).read (s.write m l) = l.take n ∧
      ({ s with length := n } : SliceRef).Valid (s.write m l) := by
  have hcells : ({ s with length := n } : SliceRef).cells (s.write m l) =
      l ++ (s.cells m).drop l.length := cells_write h
  constructor
  · rw [read, hcells, List.take_append_of_le_length hn]
  · rw [Valid, hcells, List.length_append]
    exact hn.trans (Nat.le_add_right _ _)

variable [Inhabited α]

theorem read_append (h : s.Valid m) (room : Nat) (a : α) :
    (s.append m room a).2.read (s.append m room a).1 = s.read m ++ [a] ∧
      (s.append m room a).2.Valid (s.append m room a).1 := by
  have hlength : (s.read m ++ [a]).length = s.length + 1 := by
    rw [List.length_append, length_read h, List.length_singleton]
  unfold append
  split
  · next hroom =>
    have hwrite := read_write (s := s) (m := m) (l := s.read m ++ [a]) (n := s.length + 1)
      (hlength.trans_le hroom) hlength.ge
    rwa [← hlength, List.take_length, hlength] at hwrite
  · have hcells : ({ array := some m.length, length := s.length + 1 } : SliceRef).cells
        (m ++ [s.read m ++ a :: List.replicate room default]) =
        (s.read m ++ [a]) ++ List.replicate room default := by
      simp [cells]
    constructor
    · rw [read, hcells, List.take_append_of_le_length hlength.ge, ← hlength, List.take_length]
    · rw [Valid, hcells, List.length_append, hlength]
      exact Nat.le_add_right _ _

theorem read_appendAll (room : Nat → Nat) (l : List α) (h : s.Valid m) :
    (appendAll room m s l).2.read (appendAll room m s l).1 = s.read m ++ l ∧
      (appendAll room m s l).2.Valid (appendAll room m s l).1 := by
  induction l generalizing m s with
  | nil => exact ⟨(List.append_nil _).symm, h⟩
  | cons a l ih =>
    obtain ⟨hread, hvalid⟩ := read_append h (room s.length) a
    obtain ⟨hrest, hvalid'⟩ := ih hvalid
    refine ⟨hrest.trans ?_, hvalid'⟩
    rw [hread, List.append_assoc, List.singleton_append]

theorem read_rewrite {f : List α → List α} (h : s.Valid m)
    (hf : (f (s.read m)).length ≤ s.length) :
    (s.rewrite m f).2.read (s.rewrite m f).1 = f (s.read m) ∧
      (s.rewrite m f).2.Valid (s.rewrite m f).1 := by
  have hlength : (f (s.read m) ++
      List.replicate (s.length - (f (s.read m)).length) default).length = s.length := by
    rw [List.length_append, List.length_replicate]
    omega
  obtain ⟨hread, hvalid⟩ := read_write (s := s) (m := m) (n := (f (s.read m)).length)
    (hlength.trans_le h) (hf.trans hlength.ge)
  exact ⟨hread.trans (List.take_left' rfl), hvalid⟩

/-- A rewriting that changes nothing leaves the slice as it is. -/
theorem rewrite_ref {f : List α → List α} (h : s.Valid m) (hf : f (s.read m) = s.read m) :
    (s.rewrite m f).2 = s := by
  rw [rewrite, hf, length_read h]

end

end SliceRef
