/-!
# Tables of nodes

A table numbers its entries from zero and only ever grows.  Reading a number that was never given
out answers the default entry.
-/

namespace Spreadsheet

/-- Entries by number. -/
structure Table (α : Type) where
  entries : Array α

namespace Table

variable {α : Type}

/-- The table without entries. -/
def empty : Table α :=
  ⟨#[]⟩

/-- The number of entries. -/
def size (t : Table α) : Nat :=
  t.entries.size

/-- The entry of a number. -/
def get [Inhabited α] (t : Table α) (i : Nat) : α :=
  t.entries[i]?.getD default

/-- Change the entry of a number. -/
def update (t : Table α) (i : Nat) (f : α → α) : Table α :=
  ⟨t.entries.modify i f⟩

/-- Add an entry under the next number. -/
def push (t : Table α) (a : α) : Table α :=
  ⟨t.entries.push a⟩

@[simp] theorem size_update (t : Table α) (i : Nat) (f : α → α) : (t.update i f).size = t.size := by
  simp [size, update]

@[simp] theorem size_push (t : Table α) (a : α) : (t.push a).size = t.size + 1 := by
  simp [size, push]

@[simp] theorem get_push_size [Inhabited α] (t : Table α) (a : α) : (t.push a).get t.size = a := by
  simp [get, push, size]

theorem get_push_of_lt [Inhabited α] (t : Table α) (a : α) {i : Nat} (h : i < t.size) :
    (t.push a).get i = t.get i := by
  simp only [size] at h
  simp [get, push, Array.getElem?_push, Nat.ne_of_lt h]

theorem get_update_of_ne [Inhabited α] (t : Table α) (f : α → α) {i j : Nat} (h : i ≠ j) :
    (t.update i f).get j = t.get j := by
  simp [get, update, Array.getElem?_modify, h]

theorem get_update_self [Inhabited α] (t : Table α) (f : α → α) {i : Nat} (h : i < t.size) :
    (t.update i f).get i = f (t.get i) := by
  simp only [size] at h
  simp [get, update, h, Array.getElem_modify]

end Table

end Spreadsheet
