import AexKernel.Lib.Bytes

/- A store of sectors next to a memory of bytes. A range of sectors is loaded to a
   range of memory, or stored from it; both leave everything as it was exactly when
   the two ranges hold the same bytes already. -/
namespace Sectors

open Bytes (Mem)

/-- A byte for each offset in each sector. -/
abbrev Disk := Nat → Nat → Nat

/-- `count` sectors of `size` bytes come to memory. -/
def load (size : Nat) (disk : Disk) (sector count buffer : Nat) (mem : Mem) : Mem :=
  fun x => if buffer ≤ x ∧ x < buffer + count * size then disk (sector + (x - buffer) / size) ((x - buffer) % size) else mem x

/-- `count` sectors of `size` bytes are taken from memory. -/
def store (size : Nat) (mem : Mem) (sector count buffer : Nat) (disk : Disk) : Disk :=
  fun s j => if sector ≤ s ∧ s < sector + count ∧ j < size then mem (buffer + (s - sector) * size + j) else disk s j

/-- Memory holds what the sectors do. -/
def Holds (size : Nat) (disk : Disk) (mem : Mem) (sector count buffer : Nat) : Prop :=
  ∀ i < count, ∀ j < size, mem (buffer + i * size + j) = disk (sector + i) j

variable {size : Nat} {disk : Disk} {mem : Mem} {sector count buffer : Nat}

theorem load_apply (disk : Disk) (mem : Mem) (sector buffer : Nat) {i j : Nat} (hi : i < count) (hj : j < size) :
    load size disk sector count buffer mem (buffer + i * size + j) = disk (sector + i) j := by
  have hoff : buffer + i * size + j - buffer = j + size * i := by
    rw [Nat.mul_comm size]
    omega
  have hend : (i + 1) * size ≤ count * size := Nat.mul_le_mul_right size hi
  rw [Nat.succ_mul] at hend
  unfold load
  rw [if_pos (by omega), hoff, Nat.add_mul_div_left j i (by omega), Nat.add_mul_mod_self_left, Nat.div_eq_of_lt hj,
    Nat.mod_eq_of_lt hj, Nat.zero_add]

theorem store_apply (disk : Disk) (mem : Mem) (sector buffer : Nat) {i j : Nat} (hi : i < count) (hj : j < size) :
    store size mem sector count buffer disk (sector + i) j = mem (buffer + i * size + j) := by
  unfold store
  rw [if_pos ⟨Nat.le_add_right _ _, by omega, hj⟩, Nat.add_sub_cancel_left]

theorem load_eq_iff : load size disk sector count buffer mem = mem ↔ Holds size disk mem sector count buffer := by
  constructor
  · intro h i hi j hj
    rw [← load_apply disk mem sector buffer hi hj, h]
  · intro h
    funext x
    by_cases hin : buffer ≤ x ∧ x < buffer + count * size
    · have hsize : 0 < size := by
        by_contra hzero
        rw [Nat.eq_zero_of_not_pos hzero, Nat.mul_zero] at hin
        omega
      have hi : (x - buffer) / size < count := (Nat.div_lt_iff_lt_mul hsize).mpr (by omega)
      have hj : (x - buffer) % size < size := Nat.mod_lt _ hsize
      have hx : buffer + (x - buffer) / size * size + (x - buffer) % size = x := by
        rw [Nat.add_assoc, Nat.mul_comm, Nat.div_add_mod]
        omega
      have hload := load_apply disk mem sector buffer hi hj
      rw [← h _ hi _ hj, hx] at hload
      exact hload
    · exact if_neg hin

theorem store_eq_iff : store size mem sector count buffer disk = disk ↔ Holds size disk mem sector count buffer := by
  constructor
  · intro h i hi j hj
    rw [← store_apply disk mem sector buffer hi hj, h]
  · intro h
    funext s j
    by_cases hin : sector ≤ s ∧ s < sector + count ∧ j < size
    · obtain ⟨hle, hlt, hj⟩ := hin
      obtain ⟨i, rfl⟩ := Nat.exists_eq_add_of_le hle
      rw [store_apply disk mem sector buffer (show i < count by omega) hj]
      exact h i (by omega) j hj
    · exact if_neg hin

end Sectors
