import AexKernel.Exec.ElfSafe
import AexKernel.Lib.Writes
import AexKernel.Page.Pgfree
import AexKernel.Task.Spawn

/- The block a new process starts in (`arch/x64/exec.c`): 32 bytes of code, the
   table of the arguments' addresses with a `NULL` behind it, and the arguments.

   `setup_entry_caller` writes the block through a mapping of the kernel, whose
   address space behind `vstart` is smaller than 2 GiB; within it the `int`s that
   count entries and bytes of one argument are exact. The sum that `args_memlen`
   keeps in an `int` is over all arguments and need not be.

   1. The block reads back as the arguments (`setup_entry_caller_decodes`).
   2. `elf_load` makes room for the code and for all but the first argument. The
      block is inside the pages it maps just when the rounding to pages makes up
      for the rest (`entry_caller_inside_iff`).

   `args` is the list of the strings in front of the `NULL`; the code at
   `entry_caller` is a parameter. -/
namespace Aex.Exec
open Page (kptopg)
open Fs (CStr)
open Spawn (int32)
open Strings (Stands)
open Writes

/-! ## The code -/

/-- The loop of `args_count`: `i` entries are passed. -/
def argsCountFrom : List CStr → Nat → Nat
  | [], i => i + 1
  | _ :: rest, i => argsCountFrom rest (i + 1)

/-- `args_count`: the `NULL` is counted. -/
def argsCount (args : List CStr) : Nat := argsCountFrom args 0

/-- An `int` as a `size_t`. -/
def sizeOfInt (i : Int) : Nat := (i % 2^64).toNat

/-- The loop of `args_memlen`. The entry behind the one tested is the one counted,
unless it is the `NULL`. -/
def argsMemlenFrom : List CStr → Int → Int
  | [], len => len
  | [_], len => len
  | _ :: arg :: rest, len => argsMemlenFrom (arg :: rest) (int32 (sizeOfInt len + arg.length + 1 + 8))

def argsMemlen (args : List CStr) : Nat := sizeOfInt (argsMemlenFrom args 0)

def cpuEntryCallerSize : Nat := 32

/-- The loop of `setup_entry_caller`, as its writes: the argument and its `NUL`, and
its address in the table. At the `NULL` the `continue` ends the loop. -/
def setupLoop (procAddr : Nat) : List CStr → Nat → Nat → List Write
  | [], i, _ => [(32 + 8 * i, le 8 0)]
  | arg :: rest, i, offset =>
    (offset, arg ++ [0]) :: (32 + 8 * i, le 8 (procAddr + offset)) ::
      setupLoop procAddr rest (i + 1) (offset + (arg.length + 1))

/-- The writes of `setup_entry_caller`, by their offsets from `addr`. -/
def setupWrites (entryCaller : Nat → Nat) (procAddr : Nat) (args : List CStr) : List Write :=
  (0, (List.range 32).map entryCaller) :: setupLoop procAddr args 0 (32 + argsCount args * 8)

def setupEntryCaller (entryCaller m : Nat → Nat) (addr procAddr : Nat) (args : List CStr) : Nat → Nat :=
  lay m addr (setupWrites entryCaller procAddr args)

/-- The registers of a `thread_context` that `init_entry_caller` sets. -/
structure EntryContext where
  rax : Nat
  rdi : Nat
  rsi : Nat

def initEntryCaller (entry initCodeAddr : Nat) (argCount : Int) : EntryContext :=
  ⟨entry, sizeOfInt (argCount - 1), u64 (initCodeAddr + 32)⟩

/-- The pages `elf_load` allocates and maps for the block. -/
def entryPages (args : List CStr) : Nat := kptopg (u64 (cpuEntryCallerSize + argsMemlen args))

/-! ## Sizes -/

/-- The bytes of the arguments, their `NUL`s and their entries in the table. -/
def argBytes (args : List CStr) : Nat := (args.map fun arg => arg.length + 9).sum

/-- The bytes of the arguments and their `NUL`s. -/
def textBytes (args : List CStr) : Nat := (args.map fun arg => arg.length + 1).sum

/-- The whole block: the code, the `NULL` and the arguments. -/
def blockLen (args : List CStr) : Nat := 40 + argBytes args

theorem argsCountFrom_eq : ∀ (args : List CStr) (i : Nat), argsCountFrom args i = i + args.length + 1 := by
  intro args
  induction args with
  | nil => intro i; rfl
  | cons arg args ih =>
    intro i
    rw [argsCountFrom, ih, List.length_cons]
    omega

theorem argsCount_eq (args : List CStr) : argsCount args = args.length + 1 := by
  rw [argsCount, argsCountFrom_eq, Nat.zero_add]

theorem argBytes_eq (args : List CStr) : argBytes args = 8 * args.length + textBytes args := by
  induction args with
  | nil => rfl
  | cons arg args ih =>
    have hbytes : argBytes (arg :: args) = arg.length + 9 + argBytes args := List.sum_cons
    have htext : textBytes (arg :: args) = arg.length + 1 + textBytes args := List.sum_cons
    rw [hbytes, htext, ih, List.length_cons]
    omega

/-! ## The writes -/

theorem setupLoop_within (procAddr : Nat) : ∀ (args : List CStr) (i offset : Nat),
    ∀ w ∈ setupLoop procAddr args i offset,
      (32 + 8 * i ≤ w.1 ∧ w.stop ≤ 32 + 8 * (i + args.length + 1)) ∨
        (offset ≤ w.1 ∧ w.stop ≤ offset + textBytes args) := by
  intro args
  induction args with
  | nil =>
    intro i offset w hw
    rw [setupLoop, List.mem_singleton] at hw
    rw [hw]
    left
    simp only [Write.stop, length_le, List.length_nil]
    omega
  | cons arg args ih =>
    intro i offset w hw
    have htext : textBytes (arg :: args) = arg.length + 1 + textBytes args := List.sum_cons
    rw [setupLoop, List.mem_cons, List.mem_cons] at hw
    rw [htext]
    rcases hw with rfl | rfl | hw
    · right
      simp only [Write.stop, List.length_append, List.length_singleton]
      omega
    · left
      simp only [Write.stop, length_le, List.length_cons]
      omega
    · rcases ih (i + 1) (offset + (arg.length + 1)) w hw with h | h
      · left
        rw [List.length_cons]
        omega
      · right
        omega

theorem setupLoop_apart (procAddr : Nat) : ∀ (args : List CStr) (i offset : Nat),
    32 + 8 * (i + args.length + 1) ≤ offset → (setupLoop procAddr args i offset).Pairwise Apart := by
  intro args
  induction args with
  | nil => intro i offset _; exact List.pairwise_singleton _ _
  | cons arg args ih =>
    intro i offset hroom
    rw [List.length_cons] at hroom
    have hrest := setupLoop_within procAddr args (i + 1) (offset + (arg.length + 1))
    rw [setupLoop, List.pairwise_cons, List.pairwise_cons]
    refine ⟨?_, ?_, ih (i + 1) _ (by omega)⟩
    · intro w hw
      rw [List.mem_cons] at hw
      simp only [Apart, Write.stop, List.length_append, List.length_singleton]
      rcases hw with rfl | hw
      · right
        simp only [length_le]
        omega
      · rcases hrest w hw with h | h
        · right
          have := h.2
          unfold Write.stop at this
          omega
        · left
          omega
    · intro w hw
      left
      simp only [Write.stop, length_le]
      rcases hrest w hw with h | h <;> omega

theorem setupWrites_apart (entryCaller : Nat → Nat) (procAddr : Nat) (args : List CStr) :
    (setupWrites entryCaller procAddr args).Pairwise Apart := by
  rw [setupWrites, argsCount_eq, List.pairwise_cons]
  refine ⟨?_, setupLoop_apart procAddr args 0 _ (by omega)⟩
  intro w hw
  left
  simp only [Write.stop, List.length_map, List.length_range]
  rcases setupLoop_within procAddr args 0 _ w hw with h | h <;> omega

/-- Where argument `i` starts. -/
def argOffset (args : List CStr) (i : Nat) : Nat := 32 + 8 * (args.length + 1) + textBytes (args.take i)

theorem setupLoop_arg (procAddr : Nat) : ∀ (args : List CStr) (i offset j : Nat) (arg : CStr), args[j]? = some arg →
    (offset + textBytes (args.take j), arg ++ [0]) ∈ setupLoop procAddr args i offset ∧
      (32 + 8 * (i + j), le 8 (procAddr + (offset + textBytes (args.take j)))) ∈ setupLoop procAddr args i offset := by
  intro args
  induction args with
  | nil => intro i offset j arg hj; cases hj
  | cons first args ih =>
    intro i offset j arg hj
    cases j with
    | zero =>
      cases hj
      exact ⟨List.mem_cons_self, List.mem_cons_of_mem _ List.mem_cons_self⟩
    | succ j =>
      have htext : textBytes ((first :: args).take (j + 1)) = first.length + 1 + textBytes (args.take j) := List.sum_cons
      have hrest := ih (i + 1) (offset + (first.length + 1)) j arg hj
      rw [htext, ← Nat.add_assoc offset, show i + (j + 1) = i + 1 + j by omega]
      exact ⟨List.mem_cons_of_mem _ (List.mem_cons_of_mem _ hrest.1),
        List.mem_cons_of_mem _ (List.mem_cons_of_mem _ hrest.2)⟩

theorem setupLoop_null (procAddr : Nat) : ∀ (args : List CStr) (i offset : Nat),
    (32 + 8 * (i + args.length), le 8 0) ∈ setupLoop procAddr args i offset := by
  intro args
  induction args with
  | nil => intro i offset; exact List.mem_singleton.mpr rfl
  | cons arg args ih =>
    intro i offset
    rw [List.length_cons, show i + (args.length + 1) = i + 1 + args.length by omega]
    exact List.mem_cons_of_mem _ (List.mem_cons_of_mem _ (ih (i + 1) _))

/-! ## Reading the block back -/

/-- The block reads back as the arguments: each entry of the table is the address of
a copy of its argument, a `NULL` follows, and the copies overlap neither each other
nor the table nor the code. -/
structure Decodes (entryCaller m : Nat → Nat) (addr procAddr : Nat) (args : List CStr) (off : Nat → Nat) : Prop where
  code : ∀ k < 32, m (addr + k) = entryCaller k
  entry : ∀ i < args.length, loadLE m 8 (addr + (32 + 8 * i)) = u64 (procAddr + off i)
  null : loadLE m 8 (addr + (32 + 8 * args.length)) = 0
  copy : ∀ i arg, args[i]? = some arg → Stands m (addr + off i) (arg ++ [0])
  behind : ∀ i < args.length, 32 + 8 * (args.length + 1) ≤ off i
  apart : ∀ i j arg, i < j → j < args.length → args[i]? = some arg → off i + (arg.length + 1) ≤ off j

/-- `kernel_pmap.vstart`, and the bytes from there to `vend`. -/
def kernelVstart : Nat := 0xFFFFFFFF80100000
def kernelSpace : Nat := 2^64 - kernelVstart

theorem setupEntryCaller_stands (entryCaller m : Nat → Nat) (addr procAddr : Nat) (args : List CStr) {w : Write}
    (hw : w ∈ setupWrites entryCaller procAddr args) :
    Stands (setupEntryCaller entryCaller m addr procAddr args) (addr + w.1) w.2 :=
  lay_stands (setupWrites_apart entryCaller procAddr args) w hw

theorem textBytes_take_succ : ∀ {args : List CStr} {i : Nat} {arg : CStr}, args[i]? = some arg →
    textBytes (args.take (i + 1)) = textBytes (args.take i) + (arg.length + 1) := by
  intro args i arg hi
  obtain ⟨hlt, rfl⟩ := List.getElem?_eq_some_iff.mp hi
  rw [List.take_succ_eq_append_getElem hlt]
  simp only [textBytes, List.map_append, List.sum_append, List.map_cons, List.map_nil, List.sum_cons, List.sum_nil,
    Nat.add_zero]

theorem textBytes_take_mono (args : List CStr) {i j : Nat} (hij : i ≤ j) :
    textBytes (args.take i) ≤ textBytes (args.take j) := by
  have hsplit : args.take j = args.take i ++ (args.take j).drop i := by
    conv_lhs => rw [← List.take_append_drop i (args.take j)]
    rw [List.take_take, Nat.min_eq_left hij]
  rw [hsplit]
  simp only [textBytes, List.map_append, List.sum_append]
  exact Nat.le_add_right _ _

theorem setupEntryCaller_reads (entryCaller m : Nat → Nat) (addr procAddr : Nat) (args : List CStr) :
    Decodes entryCaller (setupEntryCaller entryCaller m addr procAddr args) addr procAddr args (argOffset args) := by
  have hstart : 32 + argsCount args * 8 = 32 + 8 * (args.length + 1) := by
    rw [argsCount_eq, Nat.mul_comm]
  have hloop : ∀ w ∈ setupLoop procAddr args 0 (32 + 8 * (args.length + 1)),
      w ∈ setupWrites entryCaller procAddr args := by
    intro w hw
    rw [← hstart] at hw
    exact List.mem_cons_of_mem _ hw
  refine ⟨?_, ?_, ?_, ?_, ?_, ?_⟩
  · intro k hk
    have hcode := setupEntryCaller_stands entryCaller m addr procAddr args List.mem_cons_self
    have hbyte := getD_of_stands hcode (show k < _ by simpa using hk)
    simpa [List.getD, hk] using hbyte
  · intro i hi
    have harg := setupLoop_arg procAddr args 0 (32 + 8 * (args.length + 1)) i args[i]
      (List.getElem?_eq_getElem hi)
    rw [Nat.zero_add] at harg
    exact loadLE_le (setupEntryCaller_stands entryCaller m addr procAddr args (hloop _ harg.2))
  · have hnull := setupLoop_null procAddr args 0 (32 + 8 * (args.length + 1))
    rw [Nat.zero_add] at hnull
    exact loadLE_le (setupEntryCaller_stands entryCaller m addr procAddr args (hloop _ hnull))
  · intro i arg hi
    have harg := setupLoop_arg procAddr args 0 (32 + 8 * (args.length + 1)) i arg hi
    exact setupEntryCaller_stands entryCaller m addr procAddr args (hloop _ harg.1)
  · intro i _
    exact Nat.le_add_right _ _
  · intro i j arg hij _ hi
    have hmono := textBytes_take_mono args hij
    rw [textBytes_take_succ hi] at hmono
    unfold argOffset
    omega

theorem int32_eq {n : Nat} (h : n < 2^31) : int32 n = n := by
  have hmod : n % 2^32 = n := Nat.mod_eq_of_lt (by omega)
  rw [int32, hmod, if_pos h]

theorem sizeOfInt_nat {n : Nat} (h : n < 2^64) : sizeOfInt n = n := by
  unfold sizeOfInt
  omega

theorem length_le_argBytes (args : List CStr) : 8 * args.length ≤ argBytes args := by
  rw [argBytes_eq]
  exact Nat.le_add_right _ _

/-- In a destination with room for the block the block decodes back to the arguments,
and the thread starts with their number and the address of the table. -/
theorem setup_entry_caller_decodes (entryCaller m : Nat → Nat) (addr procAddr entry initCodeAddr room : Nat)
    (args : List CStr) (hroom : blockLen args ≤ room) (hkernel : room ≤ kernelSpace) :
    (∃ off, Decodes entryCaller (setupEntryCaller entryCaller m addr procAddr args) addr procAddr args off) ∧
      (initEntryCaller entry initCodeAddr (int32 (argsCount args))).rdi = args.length ∧
      (initEntryCaller entry initCodeAddr (int32 (argsCount args))).rsi = u64 (initCodeAddr + 32) := by
  have hcount : args.length + 1 < 2^31 := by
    have hlen := length_le_argBytes args
    unfold blockLen at hroom
    unfold kernelSpace kernelVstart at hkernel
    omega
  refine ⟨⟨argOffset args, setupEntryCaller_reads entryCaller m addr procAddr args⟩, ?_, rfl⟩
  show sizeOfInt (int32 (argsCount args) - 1) = args.length
  have hpred : ((args.length + 1 : Nat) : Int) - 1 = (args.length : Nat) := by omega
  rw [argsCount_eq, int32_eq hcount, hpred]
  exact sizeOfInt_nat (by omega)

/-- Two arguments, the second empty. -/
theorem setup_entry_caller_decodes_two :
    (∃ off, Decodes (fun _ => 0x90) (setupEntryCaller (fun _ => 0x90) (fun _ => 0) 0x5000 0x1000 [[0x61], []])
      0x5000 0x1000 [[0x61], []] off) ∧
      (initEntryCaller 0 0x1000 (int32 (argsCount [[0x61], []]))).rdi = 2 :=
  have h := setup_entry_caller_decodes (fun _ => 0x90) (fun _ => 0) 0x5000 0x1000 0 0x1000 0x1000 [[0x61], []]
    (by decide) (by decide)
  ⟨h.1, h.2.1⟩

/-! ## Room for the block -/

theorem sizeOfInt_int32 (n : Nat) :
    sizeOfInt (int32 n) = if n % 2^32 < 2^31 then n % 2^32 else 2^64 - 2^32 + n % 2^32 := by
  unfold sizeOfInt int32
  split <;> omega

theorem int32_congr {a b : Nat} (h : a % 2^32 = b % 2^32) : int32 a = int32 b := by
  unfold int32
  rw [h]

theorem int32_add (a b : Nat) : int32 (sizeOfInt (int32 a) + b) = int32 (a + b) := by
  apply int32_congr
  rw [sizeOfInt_int32]
  split <;> omega

theorem argsMemlenFrom_eq : ∀ (rest : List CStr) (first : CStr) (n : Nat),
    argsMemlenFrom (first :: rest) (int32 n) = int32 (n + argBytes rest) := by
  intro rest
  induction rest with
  | nil => intro first n; rfl
  | cons arg rest ih =>
    intro first n
    have hbytes : argBytes (arg :: rest) = arg.length + 9 + argBytes rest := List.sum_cons
    rw [argsMemlenFrom, Nat.add_assoc, Nat.add_assoc, int32_add, ih, hbytes, Nat.add_assoc]

theorem argsMemlen_eq (args : List CStr) : argsMemlen args = sizeOfInt (int32 (argBytes args.tail)) := by
  cases args with
  | nil => rfl
  | cons first rest =>
    have hrest := argsMemlenFrom_eq rest first 0
    rw [Nat.zero_add] at hrest
    exact congrArg sizeOfInt hrest

/-- The pages of an address space; a call for more of them does not come back. -/
def addressPages : Nat := 2^36

/-- Every byte that `setup_entry_caller` writes lies inside the pages that
`elf_load` allocates and maps for it. -/
def EntryInside (entryCaller : Nat → Nat) (procAddr : Nat) (args : List CStr) : Prop :=
  entryPages args ≤ addressPages → ∀ w ∈ setupWrites entryCaller procAddr args, w.stop ≤ cpuPageSize * entryPages args

/-- The `int` that `args_memlen` returns is negative, and stays so with the size of
the code and a page added. -/
def NegativeLen (args : List CStr) : Prop :=
  2^31 ≤ argBytes args.tail % 2^32 ∧ argBytes args.tail % 2^32 ≤ 2^32 - 4128

/-- The length fits the `int`, and the whole block, which is longer by the first
argument and the `NULL`, fits the pages that the code and the other arguments take. -/
def RoundedRoom (args : List CStr) : Prop :=
  argBytes args.tail < 2^31 ∧ blockLen args ≤ cpuPageSize * exactPages (32 + argBytes args.tail)

instance (args : List CStr) : Decidable (NegativeLen args) := inferInstanceAs (Decidable (_ ∧ _))

instance (args : List CStr) : Decidable (RoundedRoom args) := inferInstanceAs (Decidable (_ ∧ _))

theorem setupWrites_stop_le (entryCaller : Nat → Nat) (procAddr : Nat) (args : List CStr) :
    ∀ w ∈ setupWrites entryCaller procAddr args, w.stop ≤ blockLen args := by
  intro w hw
  rw [setupWrites, argsCount_eq, List.mem_cons] at hw
  rw [blockLen, argBytes_eq]
  rcases hw with rfl | hw
  · simp only [Write.stop, List.length_map, List.length_range]
    omega
  · rcases setupLoop_within procAddr args 0 _ w hw with h | h <;> omega

theorem setupWrites_last (entryCaller : Nat → Nat) (procAddr : Nat) {args : List CStr} (hne : args ≠ []) :
    ∃ w ∈ setupWrites entryCaller procAddr args, w.stop = blockLen args := by
  have hlast : args.length - 1 < args.length := Nat.sub_lt (List.length_pos_of_ne_nil hne) Nat.one_pos
  have hget := List.getElem?_eq_getElem hlast
  have harg := (setupLoop_arg procAddr args 0 (32 + argsCount args * 8) _ _ hget).1
  have hall := textBytes_take_succ hget
  rw [show args.length - 1 + 1 = args.length by omega, List.take_length] at hall
  refine ⟨_, List.mem_cons_of_mem _ harg, ?_⟩
  rw [blockLen, argBytes_eq, hall, argsCount_eq]
  simp only [Write.stop, List.length_append, List.length_singleton]
  omega

theorem entryPages_small {args : List CStr} (h : argBytes args.tail < 2^31) :
    entryPages args = exactPages (32 + argBytes args.tail) := by
  have hmod : argBytes args.tail % 2^32 = argBytes args.tail := Nat.mod_eq_of_lt (by omega)
  have hlen : argsMemlen args = argBytes args.tail := by
    rw [argsMemlen_eq, sizeOfInt_int32, hmod, if_pos h]
  have hfit : u64 (32 + argBytes args.tail) = 32 + argBytes args.tail := u64_eq (by omega)
  unfold entryPages kptopg exactPages cpuPageSize cpuEntryCallerSize
  rw [hlen, hfit, u64_eq (by omega)]

theorem entryPages_negative {args : List CStr} (h : NegativeLen args) :
    entryPages args = (2^64 - 2^32 + 32 + argBytes args.tail % 2^32 + 4095) / 4096 := by
  have hlen : argsMemlen args = 2^64 - 2^32 + argBytes args.tail % 2^32 := by
    rw [argsMemlen_eq, sizeOfInt_int32, if_neg (by have := h.1; omega)]
  obtain ⟨hlow, hhigh⟩ := h
  have hfit : u64 (32 + (2^64 - 2^32 + argBytes args.tail % 2^32)) = 32 + (2^64 - 2^32 + argBytes args.tail % 2^32) :=
    u64_eq (by omega)
  unfold entryPages kptopg cpuEntryCallerSize
  rw [hlen, hfit, u64_eq (by omega)]
  omega

/-- The pages of a negative length are more than there are, and `kfcalloc` is asked for some. -/
theorem entryPages_many {args : List CStr} (h : NegativeLen args) :
    addressPages < entryPages args ∧ u32 (entryPages args) ≠ 0 := by
  obtain ⟨hlow, hhigh⟩ := h
  rw [entryPages_negative ⟨hlow, hhigh⟩]
  unfold addressPages u32
  omega

theorem entryPages_wrapped {args : List CStr} (hlarge : ¬ argBytes args.tail < 2^31) (hneg : ¬ NegativeLen args) :
    entryPages args ≤ 2^19 + 1 ∧ cpuPageSize * entryPages args < argBytes args.tail := by
  have hlen := argsMemlen_eq args
  rw [sizeOfInt_int32] at hlen
  unfold NegativeLen at hneg
  unfold entryPages kptopg cpuEntryCallerSize cpuPageSize u64
  rw [hlen]
  by_cases hlow : argBytes args.tail % 2^32 < 2^31
  · rw [if_pos hlow]
    omega
  · rw [if_neg hlow]
    omega

theorem argBytes_tail_le (args : List CStr) : argBytes args.tail ≤ argBytes args := by
  cases args with
  | nil => exact Nat.le_refl _
  | cons first rest =>
    have hbytes : argBytes (first :: rest) = first.length + 9 + argBytes rest := List.sum_cons
    rw [hbytes]
    exact Nat.le_add_left _ _

theorem entryPages_le {args : List CStr} (hneg : ¬ NegativeLen args) : entryPages args ≤ 2^19 + 1 := by
  by_cases hsmall : argBytes args.tail < 2^31
  · rw [entryPages_small hsmall]
    unfold exactPages cpuPageSize
    omega
  · exact (entryPages_wrapped hsmall hneg).1

theorem RoundedRoom.inside {args : List CStr} (h : RoundedRoom args) (entryCaller : Nat → Nat) (procAddr : Nat) :
    ∀ w ∈ setupWrites entryCaller procAddr args, w.stop ≤ cpuPageSize * entryPages args := by
  intro w hw
  rw [entryPages_small h.1]
  exact Nat.le_trans (setupWrites_stop_le entryCaller procAddr args w hw) h.2

theorem roundedRoom_of_inside {entryCaller : Nat → Nat} {procAddr : Nat} {args : List CStr} (hneg : ¬ NegativeLen args)
    (hinside : ∀ w ∈ setupWrites entryCaller procAddr args, w.stop ≤ cpuPageSize * entryPages args) :
    RoundedRoom args := by
  cases args with
  | nil => decide
  | cons first rest =>
    obtain ⟨w, hw, hstop⟩ := setupWrites_last entryCaller procAddr (List.cons_ne_nil first rest)
    have hin := hinside w hw
    rw [hstop] at hin
    by_cases hsmall : argBytes (first :: rest).tail < 2^31
    · rw [entryPages_small hsmall] at hin
      exact ⟨hsmall, hin⟩
    · -- the arguments behind the first alone do not fit
      obtain ⟨-, hshort⟩ := entryPages_wrapped hsmall hneg
      have htail := argBytes_tail_le (first :: rest)
      unfold blockLen at hin
      omega

/-- **The block is inside its pages just when rounding makes up for the first
argument.** The one other case is a length that no allocation is made for. -/
theorem entry_caller_inside_iff (entryCaller : Nat → Nat) (procAddr : Nat) (args : List CStr) :
    EntryInside entryCaller procAddr args ↔ RoundedRoom args ∨ NegativeLen args := by
  by_cases hneg : NegativeLen args
  · have hpages := (entryPages_many hneg).1
    exact ⟨fun _ => .inr hneg, fun _ hle => absurd hpages (by omega)⟩
  · rw [or_iff_left hneg]
    constructor
    · intro hinside
      apply roundedRoom_of_inside hneg (hinside ?_)
      have hle := entryPages_le hneg
      unfold addressPages
      omega
    · intro hroom _ w hw
      exact hroom.inside entryCaller procAddr w hw

theorem blockLen_one (arg : CStr) : blockLen [arg] = 49 + arg.length := by
  simp only [blockLen, argBytes, List.map_cons, List.map_nil, List.sum_cons, List.sum_nil]
  omega

/-- One argument of 4,096 bytes: there is one page for the block, which has 4,145. -/
theorem entry_caller_overruns : ¬ EntryInside (fun _ => 0x90) 0x1000 [List.replicate 4096 0x61] := by
  intro hinside
  obtain ⟨w, hw, hstop⟩ := setupWrites_last (fun _ => 0x90) 0x1000 (List.cons_ne_nil (List.replicate 4096 0x61) [])
  have hin := hinside (by decide) w hw
  rw [hstop, blockLen_one, List.length_replicate] at hin
  exact absurd hin (by decide)

end Aex.Exec
