import Mathlib.Data.List.Basic

/- Ring buffers: `size` cells of which `n`, from the position `r` on and around
   the end, hold the contents.

   The cells are read and written in rows that do not cross the end of the
   buffer. `contents_pop` says what taking a row from the front leaves, and
   `contents_push` what writing a row behind the contents adds. -/
namespace Ring

variable {β : Type}

/-- The position `i` cells after `r`, around the end at most once. -/
def index (size r i : Nat) : Nat := if r + i < size then r + i else r + i - size

/-- A position moved forward, back to zero when it reaches the end. -/
def advance (size p m : Nat) : Nat := if p + m = size then 0 else p + m

/-- The number of cells from `r` up to `w`, around the end. -/
def distance (size r w : Nat) : Nat := if r ≤ w then w - r else w + size - r

/-- `n` cells of the ring from `r` on. -/
def contents (buf : Nat → β) (size r n : Nat) : List β := (List.range n).map (fun i => buf (index size r i))

/-- `n` cells in a row from `a` on. -/
def row (buf : Nat → β) (a n : Nat) : List β := (List.range n).map (fun i => buf (a + i))

/-- The cells with a row written from `a` on. -/
def overwrite (buf : Nat → β) (a : Nat) (xs : List β) : Nat → β :=
  fun x => if a ≤ x then (xs[x - a]?).getD (buf x) else buf x

theorem overwrite_other (buf : Nat → β) {a x : Nat} {xs : List β} (h : x < a ∨ a + xs.length ≤ x) :
    overwrite buf a xs x = buf x := by
  unfold overwrite
  by_cases hax : a ≤ x
  · have hnone : xs[x - a]? = none := List.getElem?_eq_none (by omega)
    rw [if_pos hax, hnone]
    rfl
  · rw [if_neg hax]

theorem row_overwrite (buf : Nat → β) (a : Nat) (xs : List β) : row (overwrite buf a xs) a xs.length = xs := by
  apply List.ext_getElem
  · simp [row]
  · intro i hi hi'
    simp [row, overwrite, hi']

theorem length_contents (buf : Nat → β) (size r n : Nat) : (contents buf size r n).length = n := by
  simp [contents]

/-! ## Positions -/

theorem distance_lt {size r w : Nat} (hr : r < size) (hw : w < size) : distance size r w < size := by
  unfold distance; split <;> omega

theorem index_distance {size r w : Nat} (hr : r < size) (hw : w < size) : index size r (distance size r w) = w := by
  unfold index distance; split <;> split <;> omega

theorem advance_lt {size p m : Nat} (hp : p < size) (hm : p + m ≤ size) : advance size p m < size := by
  unfold advance; split <;> omega

theorem advance_eq_mod {size p m : Nat} (hm : p + m ≤ size) : advance size p m = (p + m) % size := by
  unfold advance
  split
  · next heq => rw [heq, Nat.mod_self]
  · next hne => rw [Nat.mod_eq_of_lt (by omega)]

theorem distance_pop {size r w m : Nat} (hw : w < size) (hend : r + m ≤ size)
    (hm : m ≤ distance size r w) : distance size (advance size r m) w = distance size r w - m := by
  unfold distance advance at *; split at hm <;> split <;> split <;> omega

theorem distance_push {size r w m : Nat} (hr : r < size) (hw : w < size) (hend : w + m ≤ size)
    (hm : distance size r w + m < size) : distance size r (advance size w m) = distance size r w + m := by
  unfold distance advance at *; split at hm <;> split <;> split <;> omega

/-! ## Taking from the front and adding behind -/

theorem contents_pop (buf : Nat → β) {size r m n : Nat} (hend : r + m ≤ size) (hm : m ≤ n) (hn : n < size) :
    contents buf size r n = row buf r m ++ contents buf size (advance size r m) (n - m) := by
  obtain ⟨k, rfl⟩ := Nat.exists_eq_add_of_le hm
  have hfront : ∀ i ∈ List.range m, buf (index size r i) = buf (r + i) := by
    intro i hi
    have hi' : i < m := List.mem_range.mp hi
    have heq : index size r i = r + i := by unfold index; split <;> omega
    rw [heq]
  have hback : ∀ i ∈ List.range k, buf (index size r (m + i)) = buf (index size (advance size r m) i) := by
    intro i hi
    have hi' : i < k := List.mem_range.mp hi
    have heq : index size r (m + i) = index size (advance size r m) i := by
      unfold index advance; split <;> split <;> split <;> omega
    rw [heq]
  unfold contents row
  rw [List.range_add, List.map_append, List.map_map, Nat.add_sub_cancel_left]
  congr 1
  · exact List.map_congr_left hfront
  · exact List.map_congr_left hback

theorem contents_push (buf : Nat → β) {size r n : Nat} (xs : List β)
    (hend : index size r n + xs.length ≤ size) (hn : n + xs.length < size) :
    contents (overwrite buf (index size r n) xs) size r (n + xs.length) = contents buf size r n ++ xs := by
  have hold : ∀ i ∈ List.range n, overwrite buf (index size r n) xs (index size r i) = buf (index size r i) := by
    intro i hi
    have hi' : i < n := List.mem_range.mp hi
    apply overwrite_other
    unfold index at *; split at hend <;> split <;> omega
  have hnew : ∀ i ∈ List.range xs.length, overwrite buf (index size r n) xs (index size r (n + i)) =
      overwrite buf (index size r n) xs (index size r n + i) := by
    intro i hi
    have hi' : i < xs.length := List.mem_range.mp hi
    have heq : index size r (n + i) = index size r n + i := by
      unfold index at *; split at hend <;> split <;> omega
    rw [heq]
  unfold contents
  rw [List.range_add, List.map_append, List.map_map]
  congr 1
  · exact List.map_congr_left hold
  · calc (List.range xs.length).map _
        = row (overwrite buf (index size r n) xs) (index size r n) xs.length := List.map_congr_left hnew
      _ = xs := row_overwrite buf _ xs

end Ring
