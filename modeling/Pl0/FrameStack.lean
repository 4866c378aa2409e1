import Mathlib

set_option autoImplicit false

/- Frames of different sizes that lie behind each other in a memory, the oldest first. -/

namespace FrameStack

/-- Where the frame begins; with as many frames as there are, where the next one will. -/
def start (first : Nat) (sizes : List Nat) (k : Nat) : Nat :=
  first + (sizes.take k).sum

variable {first : Nat} {sizes : List Nat} {j k size : Nat}

theorem start_length (first : Nat) (sizes : List Nat) :
    start first sizes sizes.length = first + sizes.sum := by
  rw [start, List.take_length]

theorem start_succ (frame : sizes[k]? = some size) :
    start first sizes (k + 1) = start first sizes k + size := by
  obtain ⟨inside, rfl⟩ := List.getElem?_eq_some_iff.mp frame
  rw [start, start, List.take_succ_eq_append_getElem inside, List.sum_append, List.sum_singleton,
    Nat.add_assoc]

/-- Newer frames do not move the older ones. -/
theorem start_append (inside : k ≤ sizes.length) (more : List Nat) :
    start first (sizes ++ more) k = start first sizes k := by
  rw [start, start, List.take_append_of_le_length inside]

theorem start_mono (le : j ≤ k) : start first sizes j ≤ start first sizes k := by
  have split := List.take_append_drop j (sizes.take k)
  rw [List.take_take, Nat.min_eq_left le] at split
  rw [start, start, ← split, List.sum_append]
  omega

/-- A cell of a frame lies in front of the next frame. -/
theorem cell_lt_succ (first : Nat) (frame : sizes[k]? = some size) {cell : Nat}
    (inside : cell < size) :
    start first sizes k + cell < start first sizes (k + 1) := by
  rw [start_succ frame]
  omega

/-- A cell of a frame lies in front of the end. -/
theorem cell_lt (first : Nat) (frame : sizes[k]? = some size) {cell : Nat} (inside : cell < size) :
    start first sizes k + cell < first + sizes.sum := by
  have bound := (List.getElem?_eq_some_iff.mp frame).1
  have next := cell_lt_succ first frame inside
  have last := @start_mono first sizes (k + 1) sizes.length bound
  rw [start_length] at last
  omega

/-- The cells of two frames are apart. -/
theorem apart (first : Nat) {size' cell cell' : Nat} (frame : sizes[j]? = some size)
    (inside : cell < size)
    (frame' : sizes[k]? = some size') (inside' : cell' < size')
    (same : start first sizes j + cell = start first sizes k + cell') : j = k ∧ cell = cell' := by
  have next := cell_lt_succ first frame inside
  have next' := cell_lt_succ first frame' inside'
  rcases Nat.lt_trichotomy j k with below | rfl | above
  · have mono := @start_mono first sizes (j + 1) k below
    omega
  · exact ⟨rfl, by omega⟩
  · have mono := @start_mono first sizes (k + 1) j above
    omega

end FrameStack
