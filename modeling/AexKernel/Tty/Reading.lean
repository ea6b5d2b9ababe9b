import Mathlib.Data.List.Induction
import AexKernel.Lib.Runs
import AexKernel.Dev.Keyboard

/- Reading from a terminal (`append_file`, `remove_file`, `ttyk_open`, `ttyk_close` and
   `ttyk_read` of `ttyk.c`).

   The files that are open on a terminal stand in an array; only the current one may
   read. Any number of threads are in `ttyk_read`, on any terminals; the key events are
   one queue for all of them, with one position (`ttyk_current_ptr`), and a thread that
   passed the tests of `tty_current` and of the current file takes events until there is
   none, whatever becomes current meanwhile and however many bytes it was asked for.

   A file is a number, the address of its `dev_fd_t`. The locked sections and each access
   to another shared variable are one step.

   Recorded beside the state: the queued events, who took which, and the calls that
   returned. -/
namespace Aex.Ttyk
open Runs Aex.Sync Aex.Dev

/-! ## The files of a terminal -/

structure TtykQueue where
  current : Nat
  files : List Nat
  deriving DecidableEq, Repr

/-- After `kzmalloc`. -/
def ttykQueue : TtykQueue := ⟨0, []⟩

def appendFile (queue : TtykQueue) (file : Nat) : TtykQueue := ⟨file, queue.files ++ [file]⟩

/-- The loop of `remove_file` from the index `i`, with `turns` indices left. -/
def removeLoop (file : Nat) : Nat → Nat → Bool → List Nat → Bool × List Nat
  | 0, _, offset, files => (offset, files)
  | turns + 1, i, offset, files =>
    let offset := offset || files[i]? == some file
    if !offset then removeLoop file turns (i + 1) offset files
    else if turns = 0 then (offset, files)
    else removeLoop file turns (i + 1) offset (files.set i (files.getD (i + 1) 0))

/-- `none` is the `kpanic`. Where no file is left, `current` is read from in front of the
array: `before` is what stands there. -/
def removeFile (queue : TtykQueue) (file before : Nat) : Option TtykQueue :=
  let done := removeLoop file queue.files.length 0 false queue.files
  if done.1 then
    let files := done.2.take (queue.files.length - 1)
    some ⟨files.getLastD before, files⟩
  else none

/-- Moving a file one place to the front moves the gap one place to the back. -/
theorem set_eraseIdx_succ {files : List Nat} {i : Nat} (hi : i + 1 < files.length) :
    (files.set i (files.getD (i + 1) 0)).eraseIdx (i + 1) = files.eraseIdx i := by
  have hi' : i < files.length := Nat.lt_of_succ_lt hi
  apply List.ext_getElem?
  intro j
  rw [List.getElem?_eraseIdx, List.getElem?_eraseIdx]
  obtain hlt | rfl | hgt := Nat.lt_trichotomy j i
  · rw [if_pos (by omega), if_pos hlt, List.getElem?_set_ne (by omega)]
  · rw [if_pos (by omega), if_neg (Nat.lt_irrefl j), List.getElem?_set_self hi', List.getD_eq_getElem?_getD,
      List.getElem?_eq_getElem hi]
    rfl
  · rw [if_neg (by omega), if_neg (by omega), List.getElem?_set_ne (by omega)]

theorem removeLoop_found (file : Nat) {turns i : Nat} {files : List Nat} (hlen : i + (turns + 1) = files.length) :
    (removeLoop file (turns + 1) i true files).1 = true ∧
      (removeLoop file (turns + 1) i true files).2.take (files.length - 1) = files.eraseIdx i := by
  induction turns generalizing i files with
  | zero =>
    refine ⟨rfl, ?_⟩
    have hi : i = files.length - 1 := by omega
    show files.take (files.length - 1) = _
    rw [List.eraseIdx_eq_take_drop_succ, List.drop_eq_nil_of_le (by omega), List.append_nil, hi]
  | succ turns ih =>
    have hset : (files.set i (files.getD (i + 1) 0)).length = files.length := List.length_set
    obtain ⟨hdone, htake⟩ := @ih (i + 1) (files.set i (files.getD (i + 1) 0)) (by omega)
    rw [hset, set_eraseIdx_succ (by omega)] at htake
    exact ⟨hdone, htake⟩

theorem removeLoop_find (file : Nat) {turns i : Nat} {files : List Nat} (hlen : i + turns = files.length)
    (hi : i ≤ files.idxOf file) :
    removeLoop file turns i false files =
      if file ∈ files then removeLoop file (files.length - files.idxOf file) (files.idxOf file) true files
      else (false, files) := by
  induction turns generalizing i with
  | zero =>
    have hnone : file ∉ files := fun hmem => by
      have hlt := List.idxOf_lt_length_of_mem hmem
      omega
    rw [if_neg hnone]
    rfl
  | succ turns ih =>
    have hlt : i < files.length := by omega
    by_cases hfile : files[i] = file
    · have hmem : file ∈ files := hfile ▸ List.getElem_mem hlt
      have hidx : files.idxOf file = i := by
        refine Nat.le_antisymm ?_ hi
        by_contra hafter
        have hne := List.not_of_lt_findIdx (Nat.lt_of_not_le hafter)
        rw [hfile, beq_self_eq_true] at hne
        cases hne
      rw [if_pos hmem, hidx, show files.length - i = turns + 1 by omega]
      unfold removeLoop
      rw [List.getElem?_eq_getElem hlt, hfile]
      simp
    · have hnext : i + 1 ≤ files.idxOf file := by
        refine Nat.lt_of_le_of_ne hi fun heq => hfile ?_
        subst heq
        exact List.getElem_idxOf hlt
      have hskip : removeLoop file (turns + 1) i false files = removeLoop file turns (i + 1) false files := by
        have hne : (files[i]? == some file) = false := by
          rw [List.getElem?_eq_getElem hlt]
          simpa using hfile
        rw [removeLoop, hne]
        rfl
      rw [hskip, ih (by omega) hnext]

/-- `remove_file` takes out the first place of the file; it panics where the file is not
there. -/
theorem removeFile_eq (queue : TtykQueue) (file before : Nat) :
    removeFile queue file before =
      if file ∈ queue.files then some ⟨(queue.files.erase file).getLastD before, queue.files.erase file⟩ else none := by
  have hfind := removeLoop_find file (Nat.zero_add queue.files.length) (Nat.zero_le (queue.files.idxOf file))
  unfold removeFile
  dsimp only
  rw [hfind]
  by_cases hmem : file ∈ queue.files
  · have hlt := List.idxOf_lt_length_of_mem hmem
    obtain ⟨turns, hturns⟩ := Nat.exists_eq_add_one_of_ne_zero (n := queue.files.length - queue.files.idxOf file) (by omega)
    obtain ⟨hdone, htake⟩ := @removeLoop_found file turns (queue.files.idxOf file) queue.files (by omega)
    rw [if_pos hmem, if_pos hmem, hturns, if_pos hdone, htake, List.erase_eq_eraseIdx_of_idxOf rfl]
  · rw [if_neg hmem, if_neg hmem]
    rfl

/-- `ttyk_open` and `ttyk_close`, each one locked section. -/
inductive FileCall where
  | opens (file : Nat)
  | closes (file before : Nat)
  deriving DecidableEq, Repr

def fileCall (queue : TtykQueue) : FileCall → Option TtykQueue
  | .opens file => some (appendFile queue file)
  | .closes file before => removeFile queue file before

def fileCalls : TtykQueue → List FileCall → Option TtykQueue
  | queue, [] => some queue
  | queue, call :: calls => (fileCall queue call).bind fun queue => fileCalls queue calls

/-- The files that are open after the calls, in the order they were opened. -/
def stillOpen (calls : List FileCall) : List Nat :=
  calls.foldl (fun files call => match call with
    | .opens file => files ++ [file]
    | .closes file _ => files.erase file) []

theorem fileCalls_append (queue : TtykQueue) (calls more : List FileCall) :
    fileCalls queue (calls ++ more) = (fileCalls queue calls).bind fun queue => fileCalls queue more := by
  induction calls generalizing queue with
  | nil => rfl
  | cons call calls ih =>
    rw [List.cons_append, fileCalls, fileCalls, Option.bind_assoc]
    exact congrArg _ (funext fun queue => ih queue)

theorem stillOpen_opens (calls : List FileCall) (file : Nat) :
    stillOpen (calls ++ [.opens file]) = stillOpen calls ++ [file] := by
  rw [stillOpen, List.foldl_append]
  rfl

theorem stillOpen_closes (calls : List FileCall) (file before : Nat) :
    stillOpen (calls ++ [.closes file before]) = (stillOpen calls).erase file := by
  rw [stillOpen, List.foldl_append]
  rfl

/-- The array holds the open files and the last of them is the current one. -/
def TtykQueue.Holds (queue : TtykQueue) (files : List Nat) : Prop :=
  queue.files = files ∧ ∀ file ∈ files.getLast?, queue.current = file

/-- The calls close open files only. -/
def ClosesOpen (calls : List FileCall) : Prop :=
  ∀ past file before, past ++ [.closes file before] <+: calls → file ∈ stillOpen past

theorem TtykQueue.Holds.opens {queue : TtykQueue} {files : List Nat} (h : queue.Holds files) (file : Nat) :
    (appendFile queue file).Holds (files ++ [file]) := by
  refine ⟨congrArg (· ++ [file]) h.1, fun last hlast => ?_⟩
  rw [List.getLast?_concat, Option.mem_some_iff] at hlast
  exact hlast

theorem TtykQueue.Holds.closes {queue : TtykQueue} {files : List Nat} (h : queue.Holds files) {file : Nat}
    (hfile : file ∈ files) (before : Nat) : ∃ queue', removeFile queue file before = some queue' ∧ queue'.Holds (files.erase file) := by
  rw [removeFile_eq, h.1, if_pos hfile]
  refine ⟨_, rfl, rfl, fun last hlast => ?_⟩
  show (files.erase file).getLastD before = last
  rw [List.getLastD_eq_getLast?, hlast]
  rfl

theorem ClosesOpen.of_append {calls more : List FileCall} (h : ClosesOpen (calls ++ more)) : ClosesOpen calls :=
  fun past file before hpast => h past file before (hpast.trans (List.prefix_append calls more))

theorem ClosesOpen.concat {calls : List FileCall} {call : FileCall} (h : ClosesOpen calls)
    (hlast : ∀ file before, call = .closes file before → file ∈ stillOpen calls) : ClosesOpen (calls ++ [call]) := by
  intro past file before hpast
  obtain heq | hpast := List.prefix_concat_iff.mp hpast
  · obtain ⟨rfl, hcall⟩ := List.append_inj' heq rfl
    exact hlast file before (List.singleton_inj.mp hcall).symm
  · exact h past file before hpast

/-- **The reader of a terminal is the file opened last of those still open.** No run of
opens and closes panics in `remove_file` if and only if it closes open files only; the
array then holds the open files in the order they were opened, and while there are any
the last one is current. -/
theorem ttyk_current_opened_last (calls : List FileCall) :
    ((fileCalls ttykQueue calls).isSome = true ↔ ClosesOpen calls) ∧
      ∀ queue ∈ fileCalls ttykQueue calls, queue.Holds (stillOpen calls) := by
  induction calls using List.reverseRecOn with
  | nil =>
    refine ⟨iff_of_true rfl fun past file before hpast => ?_, fun queue hqueue => ?_⟩
    · exact absurd (List.prefix_nil.mp hpast) (List.append_ne_nil_of_right_ne_nil _ (List.cons_ne_nil _ _))
    · obtain rfl := Option.mem_some_iff.mp hqueue
      exact ⟨rfl, fun _ hlast => by cases hlast⟩
  | append_singleton calls call ih =>
    obtain ⟨hsome, hholds⟩ := ih
    rw [fileCalls_append]
    cases hcalls : fileCalls ttykQueue calls with
    | none =>
      rw [hcalls] at hsome
      refine ⟨iff_of_false Bool.false_ne_true fun h => ?_, fun queue hqueue => by cases hqueue⟩
      exact absurd (hsome.mpr h.of_append) Bool.false_ne_true
    | some queue =>
      rw [hcalls] at hsome
      have h := hholds queue hcalls
      have hclosed : ClosesOpen calls := hsome.mp rfl
      cases call with
      | opens file =>
        refine ⟨iff_of_true rfl (hclosed.concat fun _ _ hcall => by cases hcall), fun queue' hqueue' => ?_⟩
        obtain rfl := Option.mem_some_iff.mp hqueue'
        rw [stillOpen_opens]
        exact h.opens file
      | closes file before =>
        by_cases hfile : file ∈ stillOpen calls
        · obtain ⟨queue', hremove, h'⟩ := h.closes hfile before
          have hrun : ((some queue).bind fun queue => fileCalls queue [.closes file before]) = some queue' := by
            show (removeFile queue file before).bind _ = _
            rw [hremove]
            rfl
          rw [hrun, stillOpen_closes]
          refine ⟨iff_of_true rfl (hclosed.concat fun f b hcall => ?_), fun queue'' hqueue'' => ?_⟩
          · cases hcall
            exact hfile
          · obtain rfl := Option.mem_some_iff.mp hqueue''
            exact h'
        · have hrun : ((some queue).bind fun queue => fileCalls queue [.closes file before]) = none := by
            show (removeFile queue file before).bind _ = _
            rw [removeFile_eq, h.1, if_neg hfile]
            rfl
          rw [hrun]
          refine ⟨iff_of_false Bool.false_ne_true fun hall => hfile ?_, fun queue'' hqueue'' => by cases hqueue''⟩
          exact hall calls file before (List.prefix_refl _)

/-- Three files; the middle one is closed, then the last. -/
example : fileCalls ttykQueue [.opens 0x10, .opens 0x20, .opens 0x30, .closes 0x20 0, .closes 0x30 0] = some ⟨0x10, [0x10]⟩ := by
  decide

/-! ## `ttyk_read` -/

/-- The first 112 entries of each half of `def_keymap`, the plain and the shifted one;
the others are 0. -/
def plainKeymap : List UInt8 := [
  0x00, 0x00, 0x2F, 0x2A, 0x2D, 0x2B, 0x0D, 0x7F, 0x08, 0x09, 0x00, 0x00, 0x00, 0x0D, 0x0E, 0x0F,
  0x00, 0x00, 0x00, 0x00, 0x00, 0x00, 0x00, 0x00, 0x00, 0x00, 0x00, 0x00, 0x00, 0x00, 0x00, 0x00,
  0x20, 0x00, 0x00, 0x00, 0x00, 0x00, 0x00, 0x27, 0x00, 0x00, 0x00, 0x00, 0x2C, 0x2D, 0x2E, 0x2F,
  0x30, 0x31, 0x32, 0x33, 0x34, 0x35, 0x36, 0x37, 0x38, 0x39, 0x00, 0x00, 0x00, 0x3D, 0x00, 0x00,
  0x00, 0x61, 0x62, 0x63, 0x64, 0x65, 0x66, 0x67, 0x68, 0x69, 0x6A, 0x6B, 0x6C, 0x6D, 0x6E, 0x6F,
  0x70, 0x71, 0x72, 0x73, 0x74, 0x75, 0x76, 0x77, 0x78, 0x79, 0x7A, 0x5B, 0x00, 0x5D, 0x00, 0x00,
  0x60, 0x00, 0x00, 0x00, 0x00, 0x00, 0x00, 0x00, 0x00, 0x00, 0x00, 0x00, 0x00, 0x00, 0x00, 0x00]

def shiftKeymap : List UInt8 := [
  0x00, 0x00, 0x2F, 0x2A, 0x2D, 0x2B, 0x0D, 0x7F, 0x08, 0x09, 0x00, 0x00, 0x00, 0x0D, 0x0E, 0x0F,
  0x00, 0x00, 0x00, 0x00, 0x00, 0x00, 0x00, 0x00, 0x00, 0x00, 0x00, 0x00, 0x00, 0x00, 0x00, 0x00,
  0x20, 0x00, 0x00, 0x00, 0x00, 0x00, 0x00, 0x22, 0x00, 0x00, 0x00, 0x00, 0x3C, 0x5F, 0x3E, 0x3F,
  0x29, 0x21, 0x40, 0x23, 0x24, 0x25, 0x5E, 0x26, 0x2A, 0x28, 0x00, 0x00, 0x00, 0x2B, 0x00, 0x00,
  0x00, 0x41, 0x42, 0x43, 0x44, 0x45, 0x46, 0x47, 0x48, 0x49, 0x4A, 0x4B, 0x4C, 0x4D, 0x4E, 0x4F,
  0x50, 0x51, 0x52, 0x53, 0x54, 0x55, 0x56, 0x57, 0x58, 0x59, 0x5A, 0x7B, 0x00, 0x7D, 0x00, 0x00,
  0x7E, 0x00, 0x00, 0x00, 0x00, 0x00, 0x00, 0x00, 0x00, 0x00, 0x00, 0x00, 0x00, 0x00, 0x00, 0x00]

def keymap (k : Nat) : UInt8 := if k < 0x100 then plainKeymap.getD k 0 else shiftKeymap.getD (k - 0x100) 0

/-- The byte that is stored for an event. -/
def charOf (e : KeyEvent) : UInt8 :=
  let k := if e.1 &&& 0x01 != 0 then e.2.toNat + 0x100 else e.2.toNat
  let c := keymap k
  if c = 0x0D then 0x0A else c

/-- The two `cbufm_write` of `append_key_event`, under its spinlock. -/
def queueEvent (c : Cbufm) (e : KeyEvent) : Option Cbufm := (cbufmWrite c [e.1]).bind fun c => cbufmWrite c [e.2]

/-- What `input_kb_get` leaves at `mod` and `k`, and what it returns; `none` is a call
that waits in `cbufm_read`. -/
def inputKbGet (c : Cbufm) (last : Nat) : Option (KeyEvent × Nat) :=
  if cbufmAvailable c last < 2 then some ((0, 0), last)
  else
    match cbufmRead c last 1, cbufmRead c (u64 (last + 1)) 1 with
    | some (.returned [modifiers] _), some (.returned [key] ret) => some ((modifiers, key), ret)
    | _, _ => none

/-- Where a thread stands in `ttyk_read`: before the test of `left` and `event_wait`,
before the tests of `tty_current` and of the current file, and at the label `again`. -/
inductive ReadPlace where
  | out
  | wait
  | tty
  | file
  | again
  deriving DecidableEq, Repr

/-- The variables of a call, what it stored and which events it took. `left` does not
come near the least `int`. -/
structure Reading where
  place : ReadPlace
  internalId : Nat
  file : Nat
  len : Int
  left : Int
  stored : List UInt8
  took : List KeyEvent
  deriving DecidableEq, Repr

def idle : Reading := ⟨.out, 0, 0, 0, 0, [], []⟩

structure ReadReturn where
  thread : Nat
  ret : Int
  call : Reading
  deriving DecidableEq, Repr

structure TtykState where
  cbufm : Cbufm
  ttykCurrentPtr : Nat
  ttyCurrent : Nat
  queues : Nat → TtykQueue
  reading : Nat → Reading
  events : List KeyEvent
  takes : List (Nat × KeyEvent)
  returns : List ReadReturn

def ttykStart (buffer : Nat → UInt8) : TtykState where
  cbufm := cbufmCreate 512 buffer
  ttykCurrentPtr := 0
  ttyCurrent := 0
  queues := fun _ => ttykQueue
  reading := fun _ => idle
  events := []
  takes := []
  returns := []

/-- What can happen: an event is queued; another terminal becomes current; a file of a
terminal is opened or closed; a thread calls `ttyk_read`, or goes on in it, or is
interrupted in its `event_wait`. -/
inductive TtykLabel where
  | key (e : KeyEvent)
  | switchTo (tty : Nat)
  | file (tty : Nat) (call : FileCall)
  | read (t tty file : Nat) (len : Int)
  | goOn (t : Nat)
  | interrupt (t : Nat)
  deriving DecidableEq, Repr

def TtykState.put (s : TtykState) (t : Nat) (r : Reading) : TtykState :=
  { s with reading := Function.update s.reading t r }

def TtykState.leave (s : TtykState) (t : Nat) (ret : Int) : TtykState :=
  { s with returns := s.returns ++ [ReadReturn.mk t ret (s.reading t)] }.put t idle

/-- What a call does with the answer of `input_kb_get`: key 0 sends it back to the start,
another one is stored. `moved` says that an event was taken. -/
def Reading.get (r : Reading) (e : KeyEvent) (moved : Bool) : Reading :=
  let took := if moved then r.took ++ [e] else r.took
  if e.2 = 0 then { r with place := .wait, took := took }
  else { r with left := r.left - 1, stored := r.stored ++ [charOf e], took := took }

/-- `ttyk_current_ptr` is assigned under `ttyk_spinlock`. -/
def TtykState.get (s : TtykState) (t : Nat) (e : KeyEvent) (ret : Nat) : TtykState :=
  let moved := ret != s.ttykCurrentPtr
  { s with ttykCurrentPtr := ret, takes := if moved then s.takes ++ [(t, e)] else s.takes }.put t
    ((s.reading t).get e moved)

def ttykReadStep (t : Nat) (s : TtykState) : Option TtykState :=
  let r := s.reading t
  match r.place with
  | .out => none
  | .wait => if 0 < r.left then some (s.put t { r with place := .tty }) else some (s.leave t r.len)
  | .tty =>
    if r.internalId ≠ s.ttyCurrent then some (s.put t { r with place := .wait })
    else some (s.put t { r with place := .file })
  | .file =>
    if (s.queues r.internalId).current ≠ r.file then some (s.put t { r with place := .wait })
    else some (s.put t { r with place := .again })
  | .again =>
    (inputKbGet s.cbufm s.ttykCurrentPtr).map fun (e, ret) => s.get t e ret

def ttykStep : TtykLabel → TtykState → Option TtykState
  | .key e, s => (queueEvent s.cbufm e).map fun cbufm => { s with cbufm := cbufm, events := s.events ++ [e] }
  | .switchTo tty, s => some { s with ttyCurrent := tty }
  | .file tty call, s =>
    (fileCall (s.queues tty) call).map fun queue => { s with queues := Function.update s.queues tty queue }
  | .read t tty file len, s =>
    if (s.reading t).place = .out then some (s.put t (Reading.mk .wait tty file len len [] [])) else none
  | .goOn t, s => ttykReadStep t s
  | .interrupt t, s =>
    if (s.reading t).place = .wait ∧ 0 < (s.reading t).left then some (s.leave t (-eintr)) else none

/-- The step does not leave 256 or more events that nobody took. -/
def KeptUp (l : TtykLabel) (s : TtykState) : Prop := ∀ s' ∈ ttykStep l s, s'.events.length < s'.takes.length + 256

instance (l : TtykLabel) (s : TtykState) : Decidable (KeptUp l s) :=
  inferInstanceAs (Decidable (∀ s' ∈ ttykStep l s, s'.events.length < s'.takes.length + 256))

/-! ### The events of the queue -/

/-- The reader of the queue has got the first `taken` events, and those after them are
in the buffer. -/
structure Queued (c : Cbufm) (ptr : Nat) (events : List KeyEvent) (taken : Nat) : Prop where
  size : c.size = 512
  place : ptr = 2 * taken % 512
  past : taken ≤ events.length
  near : events.length < taken + 256
  since : c.Since ptr (eventBytes (events.drop taken))

theorem cbufmCreate_queued (buffer : Nat → UInt8) : Queued (cbufmCreate 512 buffer) 0 [] 0 := by
  have hvalid : (cbufmCreate 512 buffer).Valid := ⟨by show 512 < 2^64; omega, by show 0 < 512; omega⟩
  exact ⟨rfl, rfl, Nat.le_refl 0, Nat.zero_lt_succ 255, hvalid.since⟩

theorem Queued.available {c : Cbufm} {ptr taken : Nat} {events : List KeyEvent} (h : Queued c ptr events taken) :
    cbufmAvailable c ptr = 2 * (events.length - taken) := by
  rw [h.since.available, length_eventBytes, List.length_drop]

theorem Queued.queue {c : Cbufm} {ptr taken : Nat} {events : List KeyEvent} (h : Queued c ptr events taken) (e : KeyEvent)
    (hroom : (events ++ [e]).length < taken + 256) :
    ∃ c', queueEvent c e = some c' ∧ Queued c' ptr (events ++ [e]) taken := by
  have htaken := h.past
  have hlength : (eventBytes (events.drop taken)).length = 2 * (events.length - taken) := by
    rw [length_eventBytes, List.length_drop]
  rw [List.length_append, List.length_singleton] at hroom
  obtain ⟨c₁, hfirst, hvalid₁, hsize₁, hsince₁⟩ := cbufmWriteLoop_since h.since.valid (Nat.le_refl [e.1].length)
  obtain ⟨c₂, hsecond, -, hsize₂, hsince₂⟩ := cbufmWriteLoop_since hvalid₁ (Nat.le_refl [e.2].length)
  have hone := hsince₁ ptr _ h.since (by rw [h.size, List.length_singleton]; omega)
  have htwo := hsince₂ ptr _ hone (by
    rw [hsize₁, h.size, List.length_append, List.length_singleton, List.length_singleton]
    omega)
  have hbytes : eventBytes (events.drop taken) ++ [e.1] ++ [e.2] = eventBytes ((events ++ [e]).drop taken) := by
    rw [List.drop_append_of_le_length htaken, eventBytes_append, List.append_assoc]
    rfl
  refine ⟨c₂, ?_, hsize₂.trans (hsize₁.trans h.size), h.place, ?_, ?_, hbytes ▸ htwo⟩
  · show (cbufmWriteLoop [e.1].length c [e.1]).bind _ = _
    rw [hfirst]
    exact hsecond
  · rw [List.length_append]
    omega
  · rw [List.length_append, List.length_singleton]
    exact hroom

theorem Queued.get_none {c : Cbufm} {ptr taken : Nat} {events : List KeyEvent} (h : Queued c ptr events taken)
    (hall : taken = events.length) : inputKbGet c ptr = some ((0, 0), ptr) := by
  unfold inputKbGet
  rw [if_pos (by rw [h.available]; omega)]

theorem Queued.get_some {c : Cbufm} {ptr taken : Nat} {events : List KeyEvent} (h : Queued c ptr events taken)
    {e : KeyEvent} (he : events[taken]? = some e) :
    inputKbGet c ptr = some (e, (ptr + 2) % 512) ∧ Queued c ((ptr + 2) % 512) events (taken + 1) := by
  have hlt := (List.getElem?_eq_some_iff.mp he).1
  have hptr := h.place
  have hnear := h.near
  have hsince := h.since
  rw [eventBytes_drop he] at hsince
  have hfirst := cbufmReadLoop_since 1 [] hsince (Nat.le_refl 1) (by rw [List.length_cons]; omega)
  obtain ⟨-, -, hnext⟩ := hsince.take 1 (by rw [h.size]; omega) (by rw [List.length_cons]; omega)
  -- The position is even, so the one behind it is not around the end.
  rw [h.size, Nat.mod_eq_of_lt (by omega)] at hnext
  have hsecond := cbufmReadLoop_since 1 [] hnext (Nat.le_refl 1) (by rw [List.drop_one, List.tail_cons, List.length_cons]; omega)
  obtain ⟨-, -, hrest⟩ := hsince.take 2 (by rw [h.size]; omega) (by rw [List.length_cons, List.length_cons]; omega)
  rw [h.size] at hsecond hrest
  refine ⟨?_, h.size, by omega, hlt, by omega, hrest⟩
  unfold inputKbGet
  rw [if_neg (by rw [h.available]; omega), u64_eq (by omega)]
  unfold cbufmRead
  rw [hfirst, hsecond]
  rfl

/-- The bytes that are stored for events. -/
def charsOf (took : List KeyEvent) : List UInt8 := (took.filter (·.2 != 0)).map charOf

/-- The events a thread took. -/
def TtykState.takesOf (s : TtykState) (t : Nat) : List KeyEvent := (s.takes.filter (·.1 == t)).map Prod.snd

/-- The events that the calls of a thread that returned took. -/
def TtykState.returnedOf (s : TtykState) (t : Nat) : List KeyEvent :=
  (s.returns.filter (·.thread == t)).flatMap (·.call.took)

/-- All but the last events were stored before `len` was reached: what goes past it was
taken at one go. -/
def OneGo (len : Int) (took : List KeyEvent) : Prop :=
  ∃ before burst, took = before ++ burst ∧ (charsOf before).length < len ∧ ∀ e ∈ burst.dropLast, e.2 ≠ 0

/-- At `again` the go that was begun before `len` was reached is not over. -/
def Going (len : Int) (took : List KeyEvent) : Prop :=
  ∃ before burst, took = before ++ burst ∧ (charsOf before).length < len ∧ ∀ e ∈ burst, e.2 ≠ 0

theorem charsOf_zero (took : List KeyEvent) {e : KeyEvent} (he : e.2 = 0) : charsOf (took ++ [e]) = charsOf took := by
  simp [charsOf, he]

theorem charsOf_concat (took : List KeyEvent) {e : KeyEvent} (he : e.2 ≠ 0) :
    charsOf (took ++ [e]) = charsOf took ++ [charOf e] := by
  simp [charsOf, he]

theorem Going.over {len : Int} {took : List KeyEvent} (h : Going len took) : OneGo len took := by
  obtain ⟨before, burst, rfl, hfew, hburst⟩ := h
  exact ⟨before, burst, rfl, hfew, fun e he => hburst e (List.dropLast_subset burst he)⟩

theorem Going.zero {len : Int} {took : List KeyEvent} (h : Going len took) (e : KeyEvent) : OneGo len (took ++ [e]) := by
  obtain ⟨before, burst, rfl, hfew, hburst⟩ := h
  refine ⟨before, burst ++ [e], List.append_assoc before burst [e], hfew, ?_⟩
  rw [List.dropLast_concat]
  exact hburst

theorem Going.next {len : Int} {took : List KeyEvent} (h : Going len took) {e : KeyEvent} (he : e.2 ≠ 0) :
    Going len (took ++ [e]) := by
  obtain ⟨before, burst, rfl, hfew, hburst⟩ := h
  refine ⟨before, burst ++ [e], List.append_assoc before burst [e], hfew, fun e' he' => ?_⟩
  obtain hmem | hlast := List.mem_append.mp he'
  · exact hburst e' hmem
  · rw [List.mem_singleton.mp hlast]
    exact he

/-- A call has stored the bytes of the events it took, and counts them. -/
structure Reading.Kept (r : Reading) : Prop where
  stored : r.stored = charsOf r.took
  left : r.left = r.len - r.stored.length
  go : match r.place with
    | .out => r.took = []
    | .wait => 0 < r.left ∨ r.len ≤ 0 ∧ r.took = [] ∨ OneGo r.len r.took
    | .tty | .file => 0 < r.left
    | .again => Going r.len r.took

/-- What a call that returned has done. -/
def ReadReturn.Right (x : ReadReturn) : Prop :=
  x.call.stored = charsOf x.call.took ∧
    (x.ret = x.call.len ∧
        (x.call.len ≤ 0 ∧ x.call.took = [] ∨ x.call.len ≤ x.call.stored.length ∧ OneGo x.call.len x.call.took) ∨
      x.ret = -eintr ∧ x.call.stored.length < x.call.len)

theorem idle_kept : idle.Kept := ⟨rfl, rfl, rfl⟩

theorem Reading.get_took (r : Reading) (e : KeyEvent) (moved : Bool) :
    (r.get e moved).took = if moved then r.took ++ [e] else r.took := by
  by_cases he : e.2 = 0 <;> simp [Reading.get, he]

theorem Reading.Kept.get {r : Reading} (h : r.Kept) (hplace : r.place = .again) {e : KeyEvent} {moved : Bool}
    (hstill : moved = false → e.2 = 0) : (r.get e moved).Kept := by
  have hgoing : Going r.len r.took := by
    have hgo := h.go
    rw [hplace] at hgo
    exact hgo
  have hstored := h.stored
  have hleft := h.left
  cases moved with
  | false =>
    unfold Reading.get
    rw [if_pos (hstill rfl)]
    exact ⟨hstored, hleft, .inr (.inr hgoing.over)⟩
  | true =>
    unfold Reading.get
    by_cases he : e.2 = 0
    · rw [if_pos he]
      exact ⟨hstored.trans (charsOf_zero r.took he).symm, hleft, .inr (.inr (hgoing.zero e))⟩
    · rw [if_neg he]
      refine ⟨?_, ?_, ?_⟩
      · show r.stored ++ [charOf e] = charsOf (r.took ++ [e])
        rw [charsOf_concat r.took he, hstored]
      · show r.left - 1 = r.len - ((r.stored ++ [charOf e]).length : Int)
        rw [hleft, List.length_append, List.length_singleton]
        omega
      · show match r.place with
          | .out => r.took ++ [e] = []
          | .wait => 0 < r.left - 1 ∨ r.len ≤ 0 ∧ r.took ++ [e] = [] ∨ OneGo r.len (r.took ++ [e])
          | .tty | .file => 0 < r.left - 1
          | .again => Going r.len (r.took ++ [e])
        rw [hplace]
        exact hgoing.next he

/-! ### Runs -/

/-- The events are taken in order, each by one call, and the calls that returned are
right. -/
structure TtykState.Right (s : TtykState) : Prop where
  queue : Queued s.cbufm s.ttykCurrentPtr s.events s.takes.length
  order : s.takes.map Prod.snd = s.events.take s.takes.length
  whose : ∀ t, s.takesOf t = s.returnedOf t ++ (s.reading t).took
  calls : ∀ t, (s.reading t).Kept
  returns : ∀ x ∈ s.returns, x.Right

@[simp] theorem TtykState.put_self (s : TtykState) (t : Nat) (r : Reading) : (s.put t r).reading t = r := by
  simp [TtykState.put]

theorem TtykState.put_other (s : TtykState) {t u : Nat} (hut : u ≠ t) (r : Reading) :
    (s.put t r).reading u = s.reading u := by
  simp [TtykState.put, hut]

theorem ttykStart_right (buffer : Nat → UInt8) : (ttykStart buffer).Right :=
  ⟨cbufmCreate_queued buffer, rfl, fun _ => rfl, fun _ => idle_kept, fun _ hx => absurd hx (List.not_mem_nil)⟩

theorem TtykState.Right.put {s : TtykState} (h : s.Right) {t : Nat} {r : Reading} (hr : r.Kept)
    (htook : r.took = (s.reading t).took) : (s.put t r).Right := by
  refine ⟨h.queue, h.order, fun u => ?_, fun u => ?_, h.returns⟩
  · have hu := h.whose u
    by_cases hut : u = t
    · subst hut
      rw [TtykState.put_self, htook]
      exact hu
    · rw [s.put_other hut]
      exact hu
  · by_cases hut : u = t
    · subst hut
      rw [TtykState.put_self]
      exact hr
    · rw [s.put_other hut]
      exact h.calls u

theorem TtykState.Right.leave {s : TtykState} (h : s.Right) {t : Nat} {ret : Int}
    (hx : ReadReturn.Right (ReadReturn.mk t ret (s.reading t))) : (s.leave t ret).Right := by
  refine ⟨h.queue, h.order, fun u => ?_, fun u => ?_, fun x hmem => ?_⟩
  · have hu := h.whose u
    show s.takesOf u = ((s.returns ++ [ReadReturn.mk t ret (s.reading t)]).filter (·.thread == u)).flatMap (·.call.took) ++
      ((s.leave t ret).reading u).took
    rw [List.filter_append, List.flatMap_append, hu]
    by_cases hut : u = t
    · subst hut
      rw [TtykState.leave, TtykState.put_self, List.filter_singleton]
      simp [idle, TtykState.returnedOf]
    · have hne : (t == u) = false := beq_false_of_ne (Ne.symm hut)
      rw [TtykState.leave, TtykState.put_other _ hut, List.filter_singleton]
      simp [TtykState.returnedOf, hne]
  · by_cases hut : u = t
    · subst hut
      rw [TtykState.leave, TtykState.put_self]
      exact idle_kept
    · rw [TtykState.leave, TtykState.put_other _ hut]
      exact h.calls u
  · obtain hold | hnew := List.mem_append.mp hmem
    · exact h.returns x hold
    · rw [List.mem_singleton.mp hnew]
      exact hx

theorem TtykState.takesOf_concat (s : TtykState) (t : Nat) (e : KeyEvent) (u : Nat) :
    TtykState.takesOf { s with takes := s.takes ++ [(t, e)] } u = s.takesOf u ++ if u = t then [e] else [] := by
  show ((s.takes ++ [(t, e)]).filter (·.1 == u)).map Prod.snd = _
  rw [List.filter_append, List.map_append, List.filter_singleton]
  by_cases hut : u = t
  · subst hut
    simp [TtykState.takesOf]
  · have hne : (t == u) = false := beq_false_of_ne (Ne.symm hut)
    simp [TtykState.takesOf, hut, hne]

theorem TtykState.Right.get {s : TtykState} (h : s.Right) {t : Nat} (hplace : (s.reading t).place = .again) :
    ∃ e ret, inputKbGet s.cbufm s.ttykCurrentPtr = some (e, ret) ∧ (s.get t e ret).Right := by
  have hpast := h.queue.past
  obtain hall | hlt := Nat.eq_or_lt_of_le hpast
  · refine ⟨(0, 0), s.ttykCurrentPtr, h.queue.get_none hall, ?_⟩
    have hkept : ((s.reading t).get (0, 0) false).Kept := (h.calls t).get hplace fun _ => rfl
    have hsame : s.get t (0, 0) s.ttykCurrentPtr = s.put t ((s.reading t).get (0, 0) false) := by
      simp [TtykState.get]
    rw [hsame]
    exact h.put hkept rfl
  · have he := List.getElem?_eq_getElem hlt
    obtain ⟨hget, hqueue⟩ := h.queue.get_some he
    refine ⟨s.events[s.takes.length], _, hget, ?_⟩
    generalize s.events[s.takes.length] = e at he hget
    have hmoved : ((s.ttykCurrentPtr + 2) % 512 != s.ttykCurrentPtr) = true := by
      have hplace' := h.queue.place
      exact bne_iff_ne.mpr (by omega)
    have hkept : ((s.reading t).get e true).Kept := (h.calls t).get hplace fun hno => absurd hno Bool.true_eq_false.mp
    have htook := Reading.get_took (s.reading t) e true
    unfold TtykState.get
    rw [hmoved]
    refine ⟨?_, ?_, fun u => ?_, fun u => ?_, h.returns⟩
    · show Queued s.cbufm ((s.ttykCurrentPtr + 2) % 512) s.events (s.takes ++ [(t, e)]).length
      rw [List.length_append]
      exact hqueue
    · show (s.takes ++ [(t, e)]).map Prod.snd = s.events.take (s.takes ++ [(t, e)]).length
      rw [List.map_append, h.order, List.length_append, List.length_singleton, List.take_add_one, he]
      rfl
    · have hu := h.whose u
      have htakes := s.takesOf_concat t e u
      by_cases hut : u = t
      · subst hut
        rw [TtykState.put_self, htook, if_pos rfl, ← List.append_assoc]
        rw [if_pos rfl, hu] at htakes
        exact htakes
      · rw [TtykState.put_other _ hut]
        rw [if_neg hut, List.append_nil] at htakes
        exact htakes.trans hu
    · by_cases hut : u = t
      · subst hut
        rw [TtykState.put_self]
        exact hkept
      · rw [TtykState.put_other _ hut]
        exact h.calls u

theorem TtykState.Right.readStep {s s' : TtykState} (h : s.Right) {t : Nat} (hs : ttykReadStep t s = some s') : s'.Right := by
  have hkept := h.calls t
  have hgo := hkept.go
  unfold ttykReadStep at hs
  dsimp only at hs
  cases hplace : (s.reading t).place with
  | out => rw [hplace] at hs; cases hs
  | wait =>
    rw [hplace] at hs hgo
    dsimp only at hs hgo
    split at hs
    · next hleft =>
      cases hs
      exact h.put ⟨hkept.stored, hkept.left, hleft⟩ rfl
    · next hleft =>
      cases hs
      refine h.leave ⟨hkept.stored, .inl ⟨rfl, ?_⟩⟩
      obtain hpos | hnone | hone := hgo
      · exact absurd hpos hleft
      · exact .inl hnone
      · have hcount := hkept.left
        exact .inr ⟨by show (s.reading t).len ≤ (s.reading t).stored.length; omega, hone⟩
  | tty =>
    rw [hplace] at hs hgo
    dsimp only at hs hgo
    split at hs <;> cases hs
    · exact h.put ⟨hkept.stored, hkept.left, .inl hgo⟩ rfl
    · exact h.put ⟨hkept.stored, hkept.left, hgo⟩ rfl
  | file =>
    rw [hplace] at hs hgo
    dsimp only at hs hgo
    split at hs <;> cases hs
    · exact h.put ⟨hkept.stored, hkept.left, .inl hgo⟩ rfl
    · have hcount := hkept.left
      have hstored := hkept.stored
      rw [hstored] at hcount
      refine h.put ⟨hstored, hkept.left, (s.reading t).took, [], (List.append_nil _).symm, ?_, fun _ hmem => by cases hmem⟩ rfl
      show ((charsOf (s.reading t).took).length : Int) < (s.reading t).len
      omega
  | again =>
    rw [hplace] at hs
    obtain ⟨e, ret, hget, hright⟩ := h.get hplace
    dsimp only at hs
    rw [hget] at hs
    cases hs
    exact hright

theorem TtykState.Right.step {l : TtykLabel} {s s' : TtykState} (h : s.Right) (hkeep : KeptUp l s)
    (hs : ttykStep l s = some s') : s'.Right := by
  have hnear := hkeep s' hs
  cases l with
  | key e =>
    obtain ⟨cbufm, hcbufm, rfl⟩ := Option.map_eq_some_iff.mp hs
    obtain ⟨c', hc', hqueue⟩ := h.queue.queue e hnear
    rw [hc'] at hcbufm
    cases hcbufm
    refine ⟨hqueue, ?_, h.whose, h.calls, h.returns⟩
    show s.takes.map Prod.snd = (s.events ++ [e]).take s.takes.length
    rw [List.take_append_of_le_length h.queue.past]
    exact h.order
  | switchTo tty =>
    cases hs
    exact { h with }
  | file tty call =>
    obtain ⟨queue, -, rfl⟩ := Option.map_eq_some_iff.mp hs
    exact { h with }
  | read t tty file len =>
    simp only [ttykStep] at hs
    split at hs
    · next hout =>
      cases hs
      have hgo := (h.calls t).go
      rw [hout] at hgo
      refine h.put ⟨rfl, by show len = len - 0; omega, ?_⟩ hgo.symm
      show 0 < len ∨ len ≤ 0 ∧ [] = [] ∨ _
      obtain hpos | hneg := Int.lt_or_le 0 len
      · exact .inl hpos
      · exact .inr (.inl ⟨hneg, rfl⟩)
    · cases hs
  | goOn t => exact h.readStep hs
  | interrupt t =>
    simp only [ttykStep] at hs
    split at hs
    · next hwait =>
      cases hs
      have hcount := (h.calls t).left
      refine h.leave ⟨(h.calls t).stored, .inr ⟨rfl, ?_⟩⟩
      show ((s.reading t).stored.length : Int) < (s.reading t).len
      omega
    · cases hs

/-- **Every key event is read once, in order, and a call may store more than it was asked
for.** In every run in which the readers keep up: the events taken are the first that
were queued; what a thread took is what its calls took, one after the other; each call
has stored the characters of its events but those of key 0; one that returned `len`
stored at least as many, and those past its buffer were taken at one go; and no thread
stands still at `again`. -/
theorem ttyk_read_in_order {buffer : Nat → UInt8} {tr : List TtykLabel} {s : TtykState}
    (hr : Run ttykStep KeptUp (ttykStart buffer) tr s) :
    s.takes.map Prod.snd = s.events.take s.takes.length ∧
      (∀ t, s.takesOf t = s.returnedOf t ++ (s.reading t).took) ∧
      (∀ t, (s.reading t).stored = charsOf (s.reading t).took) ∧
      (∀ x ∈ s.returns, x.Right) ∧
      ∀ t, (s.reading t).place = .again → (ttykStep (.goOn t) s).isSome = true := by
  have h : s.Right := hr.invariant (fun _ _ _ hkeep hs h => h.step hkeep hs) (ttykStart_right buffer)
  refine ⟨h.order, h.whose, fun t => (h.calls t).stored, h.returns, fun t hplace => ?_⟩
  obtain ⟨e, ret, hget, -⟩ := h.get hplace
  show (ttykReadStep t s).isSome = true
  unfold ttykReadStep
  dsimp only
  rw [hplace]
  dsimp only
  rw [hget]
  rfl

/-- Two readers of two terminals: the first one is asked for one byte and stores two;
the terminal is switched, and the other one gets the third. -/
theorem ttyk_read_in_order_two :
    ∃ s, Run ttykStep KeptUp (ttykStart fun _ => 0xCC)
        [.file 0 (.opens 0x10), .file 1 (.opens 0x20), .read 7 0 0x10 1, .read 8 1 0x20 1, .key (0, 0x41),
         .key (1, 0x42), .goOn 8, .goOn 8, .goOn 7, .goOn 7, .goOn 7, .switchTo 1, .goOn 7, .goOn 7, .goOn 7, .goOn 7,
         .key (0, 0x0D), .goOn 8, .goOn 8, .goOn 8, .goOn 8, .goOn 8, .goOn 8] s ∧
      s.returns.map (fun x => (x.thread, x.ret, x.call.stored)) = [(7, 1, [0x61, 0x42]), (8, 1, [0x0A])] ∧
      s.takes.map Prod.snd = s.events.take s.takes.length := by
  have hr : Run ttykStep KeptUp (ttykStart fun _ => 0xCC)
      [.file 0 (.opens 0x10), .file 1 (.opens 0x20), .read 7 0 0x10 1, .read 8 1 0x20 1, .key (0, 0x41),
       .key (1, 0x42), .goOn 8, .goOn 8, .goOn 7, .goOn 7, .goOn 7, .switchTo 1, .goOn 7, .goOn 7, .goOn 7, .goOn 7,
       .key (0, 0x0D), .goOn 8, .goOn 8, .goOn 8, .goOn 8, .goOn 8, .goOn 8] _ := run_get (by decide +kernel)
  exact ⟨_, hr, by decide +kernel, (ttyk_read_in_order hr).1⟩

end Aex.Ttyk
