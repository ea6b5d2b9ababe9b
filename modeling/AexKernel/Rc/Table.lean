import Mathlib.Algebra.Ring.Nat
import AexKernel.Rc.Array

/- The reference-counted hash table (`rcptable.h`).

   The table has `seg_count` segments, and an id lives in the segment
   `id % seg_count`. A segment is an array of slots that grows one slot at a
   time; a slot is `NULL` or holds an entry, whose id and value are the two parts
   of the value here. Every macro takes the lock of the table and scans one
   segment: `rcptable_set` for the first `NULL` slot, the others for the first
   slot with the id. `seg_count` never changes, so it is a parameter of the
   table. -/
namespace Aex.Rc

variable {α : Type} {n : Nat}

/-- `table` and `sizes`: the slots of every segment. -/
abbrev Table (n : Nat) (α : Type) := Fin n → Array (Nat × α)

/-- The table `rcptable_init` leaves. -/
def tableInit : Table n α := fun _ => []

/-- The slot is not `NULL` and its entry has the id. -/
def holdsId (id : Nat) : Option (Entry (Nat × α)) → Bool
  | none => false
  | some e => e.value.1 == id

/-- The scan of a segment for an id: the first slot that holds it, or the
size. -/
def scanId (seg : Array (Nat × α)) (id : Nat) : Nat := seg.findIdx (holdsId id)

section
variable [NeZero n]

/-- `rcptable_hash`. -/
def hash (n : Nat) [NeZero n] (id : Nat) : Fin n := Fin.ofNat n id

/-- The entry the scan stops at, `none` when it goes through. -/
def lookup (t : Table n α) (id : Nat) : Option (Entry (Nat × α)) :=
  slot (t (hash n id)) (scanId (t (hash n id)) id)

/-- Replace what is in the slot the scan for `id` stops at. -/
def putEntry (t : Table n α) (id : Nat) (o : Option (Entry (Nat × α))) : Table n α :=
  Function.update t (hash n id) ((t (hash n id)).set (scanId (t (hash n id)) id) o)

/-- `rcptable_set`. The size of the segment grows by one slot when none of its
slots is `NULL`. -/
def tableSet (t : Table n α) (id : Nat) (val : α) : Table n α :=
  Function.update t (hash n id) (arrayAdd (t (hash n id)) (id, val)).2

/-- `rcptable_get`: the value returned, `none` for `NULL`, and the table after
it. -/
def tableGet (t : Table n α) (id : Nat) : Option α × Table n α :=
  match lookup t id with
  | none => (none, t)
  | some e =>
    if e.present then (some e.value.2, putEntry t id (some { e with refs := e.refs + 1 })) else (none, t)

/-- `rcptable_unref`. -/
def tableUnref (t : Table n α) (id : Nat) : Table n α :=
  match lookup t id with
  | none => t
  | some e => putEntry t id e.drop

/-- `rcptable_remove`. -/
def tableRemove (t : Table n α) (id : Nat) : Table n α :=
  match lookup t id with
  | none => t
  | some e => putEntry t id (Entry.drop { e with present := false })

/-- `rcptable_refcount`. -/
def tableRefcount (t : Table n α) (id : Nat) : Int :=
  match lookup t id with
  | none => -1
  | some e => e.refs

end

/-! ## The scan -/

theorem scanId_some {seg : Array (Nat × α)} {id : Nat} {e : Entry (Nat × α)}
    (h : slot seg (scanId seg id) = some e) : e.value.1 = id := by
  have hlt : scanId seg id < seg.length := slot_lt h
  have hw : holdsId id seg[scanId seg id] = true := List.findIdx_getElem (w := hlt)
  simp only [slot, List.getElem?_eq_getElem hlt, Option.join_some] at h
  rw [h] at hw
  simpa [holdsId] using hw

theorem scanId_none {seg : Array (Nat × α)} {id i : Nat} {e : Entry (Nat × α)}
    (h : slot seg (scanId seg id) = none) (hi : slot seg i = some e) : e.value.1 ≠ id := by
  intro he
  have hlt : i < seg.length := slot_lt hi
  have hget : seg[i] = some e := by
    simpa only [slot, List.getElem?_eq_getElem hlt, Option.join_some] using hi
  have hholds : ∃ x ∈ seg, holdsId id x = true := by
    refine ⟨some e, ?_, by simp [holdsId, he]⟩
    rw [← hget]
    exact List.getElem_mem hlt
  have hlt' : scanId seg id < seg.length := List.findIdx_lt_length.mpr hholds
  have hw : holdsId id seg[scanId seg id] = true := List.findIdx_getElem (w := hlt')
  have hnone : seg[scanId seg id] = none := by
    simpa only [slot, List.getElem?_eq_getElem hlt', Option.join_some] using h
  rw [hnone] at hw
  cases hw

end Aex.Rc
