import AexKernel.Exec.EntryCaller
import AexKernel.Fs.MountLookup
import AexKernel.Lib.Strings

/- `task_prset_cwd` (`task.c`), for the `syscall_setcwd` of a process.

   The string is checked by `cwd_isvalid`, which asks the driver of a mount whether it
   is a directory, and copied with a `'/'` at its end. `fs_get_mount` hands a path that
   has no `'/'` behind the bytes of the mount on as `"/"`: a relative path, which agrees
   with no mount but the root, and an absolute one that only shares its bytes with a
   mount are taken for the root of that mount.

   `RETURN_IF_ERROR(cwd_isvalid(dir))` is a macro: a check that fails is made a second
   time, and the call returns what that one says.

   What the drivers answer is an input, for the second check too (`again`), and so is the
   memory around the string. A `size_t` put in an `int` keeps its low 32 bits. -/
namespace Aex.Setcwd
open Rc Fs Strings
open Exec (int32_eq sizeOfInt)

def pathLenMax : Int := 2048 - 1

/-- A string of the caller, and the bytes in front of it, where there is memory. -/
structure UserStr where
  bytes : CStr
  nulFree : ∀ b ∈ bytes, b ≠ 0
  front : Nat → Option Nat

/-- `dir[i]`; an `int` made of the length is not above it. -/
def UserStr.read (dir : UserStr) (i : Int) : Option Nat :=
  if 0 ≤ i then some (byteAt dir.bytes i.toNat) else dir.front (-i - 1).toNat

/-- The mounts, and what `mount->fs->finfo` returns and leaves in `finfo.type`, if it
returns. -/
structure Mounted where
  mounts : List DirPath
  finfo : Nat → CStr → Option (Int × FsType)

def fsFinfo (fs : Mounted) (path : CStr) : Option (Int × FsType) :=
  match fsGetMount (mountTable fs.mounts) path with
  | none => none
  | some (mountId, newPath) =>
    if mountId < 0 then some (mountId, .none)
    else match newPath with
      | none => none
      | some newPath => (fs.finfo mountId.toNat newPath).map fun info => (if info.1 < 0 then info.1 else 0, info.2)

def cwdIsvalid (fs : Mounted) (dir : CStr) : Option Int :=
  if pathLenMax < Spawn.int32 dir.length then some (-enametoolong)
  else (fsFinfo fs dir).map fun info =>
    if info.1 < 0 then info.1 else if info.2 ≠ .dir then -enotdir else 0

/-- `processes`, as its lookup finds the entries, of which the working directory is
used. What is in it has a reference. -/
structure Processes where
  entry : Nat → Option (Entry (Option CStr))
  held : ∀ id e, entry id = some e → 1 ≤ e.refs

/-- `process->cwd`: `kmalloc(len + 1)`, the `strcpy` into it and the two bytes written
over its end; `none` when one of these bytes is outside. -/
def storeCwd (block : Nat → Nat) (dir : CStr) (len : Int) : Option CStr :=
  if len < 1 ∨ len < dir.length then none
  else
    let block := strcpy block 0 dir
    let block := Function.update block (len - 1).toNat slash
    let block := Function.update block len.toNat 0
    some (strAt block (len.toNat + 1) 0)

/-- How a call ends: it returns, it reads or writes where it may not, or a driver does
not return. -/
inductive SetCwdEnd where
  | returned (ret : Int) (entry : Nat → Option (Entry (Option CStr)))
  | strays
  | hangs

/-- `task_prset_cwd` from `rcptable_get` on. -/
def prsetCwdChecked (procs : Processes) (block : Nat → Nat) (pid : Int) (dir : CStr) (len : Int) : SetCwdEnd :=
  let id := sizeOfInt pid
  match get (procs.entry id) with
  | (true, some e) => match storeCwd block dir len with
    | none => .strays
    | some cwd => .returned 0 (Function.update procs.entry id (unref (some { e with value := some cwd })))
  | _ => .returned (-enops) procs.entry

def taskPrsetCwd (fs again : Mounted) (procs : Processes) (block : Nat → Nat) (pid : Int) (dir : UserStr) : SetCwdEnd :=
  let len := Spawn.int32 dir.bytes.length
  match dir.read (len - 1) with
  | none => .strays
  | some last =>
    let len := if last ≠ slash then len + 1 else len
    match cwdIsvalid fs dir.bytes with
    | none => .hangs
    | some ret =>
      if ret < 0 then match cwdIsvalid again dir.bytes with
        | none => .hangs
        | some ret => .returned ret procs.entry
      else prsetCwdChecked procs block pid dir.bytes len

/-! ## What the call is for -/

/-- The path with one `'/'` at its end. -/
def asDir (p : AbsPath) : DirPath where
  bytes := if p.bytes.getLast? = some slash then p.bytes else p.bytes ++ [slash]
  nulFree := by
    intro b hb
    split at hb
    · exact p.nulFree b hb
    · obtain hb | hb := List.mem_append.mp hb
      · exact p.nulFree b hb
      · rw [List.mem_singleton.mp hb]
        decide
  absolute := by
    split
    · exact p.absolute
    · rw [List.head?_append, p.absolute]
      rfl
  closed := by
    split
    · next hclosed => exact hclosed
    · exact List.getLast?_concat

/-- The mount the path lies on, the longest and the last of these, has a directory
there. -/
def NamesDir (fs : Mounted) (p : AbsPath) : Prop :=
  ∃ (id : Nat) (m : DirPath), fs.mounts[id]? = some m ∧ m.On p ∧
    (∀ (id' : Nat) (m' : DirPath), fs.mounts[id']? = some m' → m'.On p →
      m'.bytes.length < m.bytes.length ∨ m'.bytes = m.bytes ∧ id' ≤ id) ∧
    ∃ ret, 0 ≤ ret ∧ fs.finfo id (m.remainder p) = some (ret, .dir)

/-- A call that returns zero has stored the directory that the absolute path names, with
one `'/'` at its end; any other returns an error and leaves the processes as they
were. -/
def SetCwdRight (fs : Mounted) (procs : Processes) (pid : Int) (dir : UserStr) : SetCwdEnd → Prop
  | .returned ret entry =>
    ret < 0 ∧ entry = procs.entry ∨
      ret = 0 ∧ ∃ (p : AbsPath) (e : Entry (Option CStr)), p.bytes = dir.bytes ∧ NamesDir fs p ∧
        procs.entry (sizeOfInt pid) = some e ∧
        entry = Function.update procs.entry (sizeOfInt pid) (some { e with value := some (asDir p).bytes })
  | .strays | .hangs => False

/-- The directory the absolute path names is the working directory already. -/
def AlreadyThere (fs : Mounted) (procs : Processes) (pid : Int) (dir : UserStr) : Prop :=
  ∃ (p : AbsPath) (e : Entry (Option CStr)), p.bytes = dir.bytes ∧ NamesDir fs p ∧
    procs.entry (sizeOfInt pid) = some e ∧ e.value = some (asDir p).bytes

/-- The check fails, and fails again when it is made for the value to return; if it
passes then, there is nothing to be changed. -/
def Refused (fs again : Mounted) (procs : Processes) (pid : Int) (dir : UserStr) : Prop :=
  (∃ ret < 0, cwdIsvalid fs dir.bytes = some ret) ∧ ((∃ ret < 0, cwdIsvalid again dir.bytes = some ret) ∨
    cwdIsvalid again dir.bytes = some 0 ∧ AlreadyThere fs procs pid dir)

/-- The string is an absolute path of less than 2 GiB, and no mount path that only
shares its bytes with it is longer than those it lies on, or it names a directory all
the same. -/
def WellNamed (fs : Mounted) (dir : UserStr) : Prop :=
  dir.bytes.length < 2^31 ∧ ∃ p : AbsPath, p.bytes = dir.bytes ∧ (LookalikesShorter fs.mounts p ∨ NamesDir fs p)

/-! ## The copy -/

theorem stands_closed (block : Nat → Nat) (q t : CStr) :
    Stands (Function.update (Function.update (strcpy block 0 (q ++ t)) q.length slash) (q.length + 1) 0) 0
      ((q ++ [slash]) ++ [0]) := by
  have hcopy : Stands (strcpy block 0 (q ++ t)) 0 ((q ++ t) ++ [0]) := strcpy_stands
  rw [List.append_assoc] at hcopy
  have hq := (stands_append.mp hcopy).1
  rw [List.append_assoc]
  refine stands_append.mpr ⟨stands_congr (fun x _ hx => ?_) hq, ?_, ?_, trivial⟩
  · rw [Function.update_of_ne (by omega), Function.update_of_ne (by omega)]
  · rw [Function.update_of_ne (by omega), Nat.zero_add, Function.update_self]
  · rw [Nat.zero_add, Function.update_self]

theorem storeCwd_eq (block : Nat → Nat) {q t : CStr} (ht : t.length ≤ 1) (hfree : ∀ b ∈ q, b ≠ 0) :
    storeCwd block (q ++ t) (q.length + 1 : Nat) = some (q ++ [slash]) := by
  have hroom : ¬ (((q.length + 1 : Nat) : Int) < 1 ∨ ((q.length + 1 : Nat) : Int) < (q ++ t).length) := by
    rw [List.length_append]
    omega
  have hlast : (((q.length + 1 : Nat) : Int) - 1).toNat = q.length := by omega
  have hlen : ((q.length + 1 : Nat) : Int).toNat = q.length + 1 := by omega
  rw [storeCwd, if_neg hroom]
  dsimp only
  rw [hlast, hlen, Option.some.injEq]
  refine strAt_eq (stands_closed block q t) (fun b hb => ?_) ?_
  · obtain hb | hb := List.mem_append.mp hb
    · exact hfree b hb
    · rw [List.mem_singleton.mp hb]
      decide
  · rw [List.length_append, List.length_singleton]
    omega

/-- The length the copy is given for a path. -/
def closedLen (dir : CStr) : Nat := if dir.getLast? = some slash then dir.length else dir.length + 1

theorem storeCwd_asDir (block : Nat → Nat) (p : AbsPath) :
    storeCwd block p.bytes (closedLen p.bytes) = some (asDir p).bytes := by
  unfold closedLen asDir
  by_cases hclosed : p.bytes.getLast? = some slash
  · have hdir : p.bytes.dropLast ++ [slash] = p.bytes := List.dropLast_append_getLast? slash hclosed
    have hlen : p.bytes.length = p.bytes.dropLast.length + 1 := by
      rw [← List.length_singleton (a := slash), ← List.length_append, hdir]
    have hstore := storeCwd_eq block (q := p.bytes.dropLast) (t := [slash]) (Nat.le_refl 1)
      (fun b hb => p.nulFree b (List.mem_of_mem_dropLast hb))
    rw [hdir, ← hlen] at hstore
    simp only [if_pos hclosed]
    exact hstore
  · have hstore := storeCwd_eq block (q := p.bytes) (t := []) (Nat.zero_le 1) p.nulFree
    rw [List.append_nil] at hstore
    simp only [if_neg hclosed]
    exact hstore

/-! ## The check -/

variable {fs : Mounted} {procs : Processes} {block : Nat → Nat} {pid : Int} {dir : UserStr}

theorem cwdIsvalid_passes {path : CStr} {ret : Int} (h : cwdIsvalid fs path = some ret) (hret : ¬ ret < 0) :
    Spawn.int32 path.length ≤ pathLenMax ∧ ∃ (mountId : Int) (newPath : CStr) (got : Int), 0 ≤ mountId ∧ 0 ≤ got ∧
      fsGetMount (mountTable fs.mounts) path = some (mountId, some newPath) ∧
      fs.finfo mountId.toNat newPath = some (got, .dir) := by
  unfold cwdIsvalid at h
  split at h
  · cases h
    exact absurd (by decide) hret
  · next hshort =>
    obtain ⟨info, hinfo, rfl⟩ := Option.map_eq_some_iff.mp h
    have hinfo' : ¬ info.1 < 0 ∧ info.2 = .dir := by
      by_cases hneg : info.1 < 0
      · rw [if_pos hneg] at hret
        exact absurd hneg hret
      · rw [if_neg hneg] at hret
        by_cases hdir : info.2 = .dir
        · exact ⟨hneg, hdir⟩
        · rw [if_pos hdir] at hret
          exact absurd (by decide) hret
    refine ⟨Int.not_lt.mp hshort, ?_⟩
    unfold fsFinfo at hinfo
    split at hinfo
    · cases hinfo
    · next mountId newPath hget =>
      split at hinfo
      · next hid =>
        cases hinfo
        exact absurd hid hinfo'.1
      · next hid =>
        split at hinfo
        · cases hinfo
        · next newPath' =>
          obtain ⟨got, hgot, rfl⟩ := Option.map_eq_some_iff.mp hinfo
          have hpos : ¬ got.1 < 0 := by
            intro hneg
            refine hinfo'.1 ?_
            rw [if_pos hneg]
            exact hneg
          refine ⟨mountId, newPath', got.1, Int.not_lt.mp hid, Int.not_lt.mp hpos, hget, ?_⟩
          rw [hgot, ← hinfo'.2]

theorem cwdIsvalid_zero {path : CStr} {ret : Int} (h : cwdIsvalid fs path = some ret) (hret : ¬ ret < 0) : ret = 0 := by
  unfold cwdIsvalid at h
  split at h
  · cases h
    exact absurd (by decide) hret
  · obtain ⟨info, -, rfl⟩ := Option.map_eq_some_iff.mp h
    split at hret
    · next hneg => exact absurd hneg hret
    · next hneg =>
      rw [if_neg hneg]
      split at hret
      · exact absurd (by decide) hret
      · next hdir => rw [if_neg hdir]

/-- Where no lookalike is longer, the check asks about what the path names. -/
theorem namesDir_of_passes {p : AbsPath} {ret : Int} (hshorter : LookalikesShorter fs.mounts p)
    (h : cwdIsvalid fs p.bytes = some ret) (hret : ¬ ret < 0) : NamesDir fs p := by
  obtain ⟨-, mountId, newPath, got, hid, hgot, hget, hfinfo⟩ := cwdIsvalid_passes h hret
  obtain ⟨hnone, -⟩ | ⟨sel, m, hselected⟩ := fsGetMount_cases fs.mounts p
  · rw [hnone] at hget
    cases hget
  · obtain ⟨-, id, m', hmount, hon, hbest, hrouted⟩ := hselected.routed hshorter
    rw [hrouted] at hget
    cases hget
    exact ⟨id, m', hmount, hon, hbest, got, hgot, hfinfo⟩

/-! ## The call -/

theorem prsetCwdChecked_there {e : Entry (Option CStr)} (he : procs.entry (sizeOfInt pid) = some e)
    (hpresent : e.present = true) (path : CStr) (len : Int) :
    prsetCwdChecked procs block pid path len = match storeCwd block path len with
      | none => .strays
      | some cwd =>
        .returned 0 (Function.update procs.entry (sizeOfInt pid) (some { e with value := some cwd })) := by
  have hrefs := procs.held (sizeOfInt pid) e he
  have hget : get (procs.entry (sizeOfInt pid)) = (true, some { e with refs := e.refs + 1 }) := by
    rw [he]
    exact if_pos hpresent
  have hback : ∀ cwd : CStr, unref (some { e with refs := e.refs + 1, value := some cwd }) =
      some { e with value := some cwd } := by
    intro cwd
    have hne : ¬ e.refs + 1 - 1 = 0 := by omega
    rw [unref, Entry.drop, if_neg hne, Int.add_sub_cancel]
  unfold prsetCwdChecked
  simp only [hget, hback]

theorem prsetCwdChecked_gone (hget : (get (procs.entry (sizeOfInt pid))).1 = false) (path : CStr) (len : Int) :
    prsetCwdChecked procs block pid path len = .returned (-enops) procs.entry := by
  cases hfound : get (procs.entry (sizeOfInt pid)) with
  | mk found e =>
    rw [hfound] at hget
    cases hget
    simp only [prsetCwdChecked, hfound]

/-- The `'/'` at the end of an absolute path is found, and the copy gets the length that
counts it. -/
theorem read_last {p : AbsPath} (hp : p.bytes = dir.bytes) (hshort : dir.bytes.length < 2^31) :
    ∃ last, dir.read (Spawn.int32 dir.bytes.length - 1) = some last ∧
      (if last ≠ slash then Spawn.int32 dir.bytes.length + 1 else Spawn.int32 dir.bytes.length) = (closedLen p.bytes : Nat) := by
  have hne : dir.bytes ≠ [] := by
    intro hnil
    have habsolute := p.absolute
    rw [hp, hnil] at habsolute
    cases habsolute
  have hpos : 0 < dir.bytes.length := List.length_pos_of_ne_nil hne
  have hindex : ((dir.bytes.length : Int) - 1).toNat = dir.bytes.length - 1 := by omega
  have hlast : dir.bytes.getLast? = some (byteAt dir.bytes (dir.bytes.length - 1)) := by
    rw [List.getLast?_eq_getElem?, byteAt_lt (by omega), List.getElem?_eq_getElem (by omega)]
  refine ⟨byteAt dir.bytes (dir.bytes.length - 1), ?_, ?_⟩
  · rw [int32_eq hshort, UserStr.read, if_pos (by omega), hindex]
  · rw [int32_eq hshort, closedLen, hp, hlast]
    by_cases hslash : byteAt dir.bytes (dir.bytes.length - 1) = slash
    · rw [if_neg (fun hnot => hnot hslash), if_pos (congrArg some hslash)]
    · rw [if_pos hslash, if_neg (fun hsome => hslash (Option.some.inj hsome))]
      exact (Int.natCast_succ _).symm

theorem passed_right_iff {e : Entry (Option CStr)} {last : Nat} {ret : Int} (he : procs.entry (sizeOfInt pid) = some e)
    (hpresent : e.present = true) (hread : dir.read (Spawn.int32 dir.bytes.length - 1) = some last)
    (hvalid : cwdIsvalid fs dir.bytes = some ret) (hret : ¬ ret < 0) :
    SetCwdRight fs procs pid dir (prsetCwdChecked procs block pid dir.bytes
      (if last ≠ slash then Spawn.int32 dir.bytes.length + 1 else Spawn.int32 dir.bytes.length)) ↔ WellNamed fs dir := by
  obtain ⟨hlen, -⟩ := cwdIsvalid_passes hvalid hret
  rw [prsetCwdChecked_there he hpresent]
  constructor
  · intro hright
    by_cases hshort : dir.bytes.length < 2^31
    · split at hright
      · exact hright.elim
      · obtain ⟨hneg, -⟩ | ⟨-, p, -, hp, hnames, -⟩ := hright
        · cases hneg
        · exact ⟨hshort, p, hp, .inr hnames⟩
    · -- A length that does not fit is smaller as an `int`, and the copy goes over the block.
      have hover : storeCwd block dir.bytes
          (if last ≠ slash then Spawn.int32 dir.bytes.length + 1 else Spawn.int32 dir.bytes.length) = none := by
        refine if_pos (.inr ?_)
        unfold pathLenMax at hlen
        split <;> omega
      rw [hover] at hright
      exact hright.elim
  · rintro ⟨hshort, p, hp, hnamed⟩
    obtain ⟨last', hread', hcount⟩ := read_last hp hshort
    rw [hread] at hread'
    cases hread'
    have hnames : NamesDir fs p := by
      obtain hshorter | hnames := hnamed
      · exact namesDir_of_passes hshorter (hp ▸ hvalid) hret
      · exact hnames
    have hstore := storeCwd_asDir block p
    rw [← hcount, hp] at hstore
    rw [hstore]
    exact .inr ⟨rfl, p, e, hp, hnames, he, rfl⟩

/-- A call that returns what the second check says: an error, or zero with nothing
stored. -/
theorem again_right_iff {again : Mounted} {ret : Int} (hagain : cwdIsvalid again dir.bytes = some ret) :
    SetCwdRight fs procs pid dir (.returned ret procs.entry) ↔ (∃ ret < 0, cwdIsvalid again dir.bytes = some ret) ∨
      cwdIsvalid again dir.bytes = some 0 ∧ AlreadyThere fs procs pid dir := by
  constructor
  · rintro (⟨hneg, -⟩ | ⟨rfl, p, e, hp, hnames, he, hentry⟩)
    · exact .inl ⟨ret, hneg, hagain⟩
    · refine .inr ⟨hagain, p, e, hp, hnames, he, ?_⟩
      have hsame := congrFun hentry (sizeOfInt pid)
      rw [Function.update_self, he, Option.some.injEq] at hsame
      rw [hsame]
  · rintro (⟨ret', hneg, hret'⟩ | ⟨hzero, p, e, hp, hnames, he, hvalue⟩)
    · rw [hagain] at hret'
      cases hret'
      exact .inl ⟨hneg, rfl⟩
    · rw [hagain] at hzero
      cases hzero
      refine .inr ⟨rfl, p, e, hp, hnames, he, ?_⟩
      rw [← hvalue, ← he, Function.update_eq_self]

/-- **`task_prset_cwd` stores the directory that an absolute path names, or changes
nothing and returns an error, exactly when the check fails both times, or passes and there
is no such process, or the string is such a path and no mount is taken for it that only
shares its bytes.** The byte behind which the `'/'` goes is read in any case, and the
driver has to return. -/
theorem task_prset_cwd_right_iff (fs again : Mounted) (procs : Processes) (block : Nat → Nat) (pid : Int) (dir : UserStr) :
    SetCwdRight fs procs pid dir (taskPrsetCwd fs again procs block pid dir) ↔
      dir.read (Spawn.int32 dir.bytes.length - 1) ≠ none ∧ (Refused fs again procs pid dir ∨
        cwdIsvalid fs dir.bytes = some 0 ∧
          ((get (procs.entry (sizeOfInt pid))).1 = false ∨ WellNamed fs dir)) := by
  cases hread : dir.read (Spawn.int32 dir.bytes.length - 1) with
  | none =>
    simp only [taskPrsetCwd, hread]
    exact ⟨False.elim, fun h => h.1 rfl⟩
  | some last =>
    rw [and_iff_right (Option.some_ne_none last)]
    cases hvalid : cwdIsvalid fs dir.bytes with
    | none =>
      simp only [taskPrsetCwd, hread, hvalid, Refused]
      exact ⟨False.elim, fun h => by obtain ⟨⟨_, _, h⟩, -⟩ | ⟨h, -⟩ := h <;> cases h⟩
    | some ret =>
      by_cases hret : ret < 0
      · have hfirst : ∃ ret' < 0, some ret = some ret' := ⟨ret, hret, rfl⟩
        have hnot : ¬ (some ret = some (0 : Int)) := by
          rintro heq
          cases heq
          exact absurd hret (by decide)
        simp only [taskPrsetCwd, hread, hvalid, if_pos hret, Refused, hfirst, true_and, hnot, false_and, or_false]
        cases hagain : cwdIsvalid again dir.bytes with
        | none =>
          simp only
          exact ⟨False.elim, fun h => by obtain ⟨_, _, h⟩ | ⟨h, -⟩ := h <;> cases h⟩
        | some ret' =>
          simp only
          rw [again_right_iff hagain, hagain]
      · have hzero := cwdIsvalid_zero hvalid hret
        subst hzero
        have hnot : ¬ Refused fs again procs pid dir := by
          rintro ⟨⟨ret', hneg, hret'⟩, -⟩
          rw [hvalid] at hret'
          cases hret'
          exact hret hneg
        simp only [taskPrsetCwd, hread, hvalid, if_neg hret, hnot, false_or, true_and]
        cases hget : (get (procs.entry (sizeOfInt pid))).1 with
        | false =>
          rw [prsetCwdChecked_gone hget]
          exact ⟨fun _ => .inl rfl, fun _ => .inl ⟨by decide, rfl⟩⟩
        | true =>
          obtain ⟨e, he, hpresent, -⟩ := get_true (Prod.ext hget rfl)
          rw [passed_right_iff he hpresent hread hvalid hret]
          exact ⟨.inr, fun h => h.resolve_left Bool.noConfusion⟩

/-- What the boot mounts answer: the root has a directory `/`, and one `/home`. -/
def bootMounted : Mounted where
  mounts := bootMounts
  finfo := fun id path =>
    if id = 0 ∧ (path = cstr "/" ∨ path = cstr "/home") then some (0, .dir)
    else if id = 1 ∧ path = cstr "/" then some (0, .dir)
    else some (-enoent, .none)

/-- Process 1 in `/`. -/
def oneProcess : Processes where
  entry := fun id => if id = 1 then some (Entry.resting (some (cstr "/"))) else none
  held := by
    intro id e he
    split at he <;> cases he
    exact Int.le_refl 1

/-- A string for which the memory in front of it does not matter. -/
def userStr (s : String) (h : ∀ b ∈ cstr s, b ≠ 0) : UserStr := ⟨cstr s, h, fun _ => none⟩

/-- A relative path is taken for the root of the root mount, and stored. -/
theorem setcwd_relative_stored :
    (∃ entry, taskPrsetCwd bootMounted bootMounted oneProcess (fun _ => 0xCC) 1 (userStr "nowhere" (by decide)) = .returned 0 entry ∧
      (entry 1).bind Entry.value = some (cstr "nowhere/")) ∧
    ¬ SetCwdRight bootMounted oneProcess 1 (userStr "nowhere" (by decide))
      (taskPrsetCwd bootMounted bootMounted oneProcess (fun _ => 0xCC) 1 (userStr "nowhere" (by decide))) := by
  obtain ⟨entry, hret, hstored⟩ : ∃ entry,
      taskPrsetCwd bootMounted bootMounted oneProcess (fun _ => 0xCC) 1 (userStr "nowhere" (by decide)) = .returned 0 entry ∧
        (entry 1).bind Entry.value = some (cstr "nowhere/") := ⟨_, rfl, by decide⟩
  refine ⟨⟨entry, hret, hstored⟩, fun hright => ?_⟩
  rw [hret] at hright
  obtain ⟨hneg, -⟩ | ⟨-, p, e, hp, -⟩ := hright
  · cases hneg
  · have habsolute := p.absolute
    rw [hp] at habsolute
    revert habsolute
    decide

-- An absolute path that does not exist is taken for the root of the mount on `/dev/`.
example :
    ∃ entry, taskPrsetCwd bootMounted bootMounted oneProcess (fun _ => 0xCC) 1 (userStr "/devices" (by decide)) = .returned 0 entry ∧
      (entry 1).bind Entry.value = some (cstr "/devices/") := ⟨_, rfl, by decide⟩

end Aex.Setcwd
