import AexKernel.Fs.LayerKept

/- Which operations of an open descriptor are there.

   An entry of `fd.c` calls through the descriptor's `ops`, and the function of
   `fs.c` it finds there calls through the table of the mount's filesystem. Neither
   checks the pointer: `fd.c` prints a warning at most and calls. -/
namespace Aex.Fs
open Runs Rc

/-- Where a call ends up: it returns `-EBADF`, calls through a `NULL` pointer, or
calls the function of a mount's filesystem for one of its handles. -/
inductive Reached where
  | badf
  | null
  | driver (mount ifd : Nat)
  deriving DecidableEq, Repr

/-- `_fs_read`, `_fs_write` and the others. -/
def fsReach (s : FsState) (op : FileOp) (fd : Nat) : Reached :=
  match look s.handles fd with
  | none => .badf
  | some handle => match s.mounts[handle.mount]? with
    | none => .badf
    | some mount => if mount.ops op then .driver handle.mount handle.ifd else .null

/-- `fd_read`, `fd_write` and the others. -/
def fdReach (s : FsState) (op : FileOp) (fd : Nat) : Reached :=
  match look s.fds fd with
  | none => .badf
  | some d => if d.ops op then fsReach s op d.ifd else .null

/-- Whether the mount is of `iso9660`. -/
def FsState.isIso (s : FsState) (m : Nat) : Bool :=
  match s.mounts[m]? with
  | some (.iso9660 _) => true
  | _ => false

/-- The operations a descriptor does not have: a directory cannot be written or
duplicated, and nothing on an `iso9660` mount can be duplicated. -/
def FsState.lacks (s : FsState) (o : Origin) (op : FileOp) : Bool :=
  (o.dir && (op == .write || op == .dup)) || (s.isIso o.mount && op == .dup)

theorem mount_ops {s : FsState} {m : Nat} {mount : Mount} (hm : s.mounts[m]? = some mount) (op : FileOp) :
    mount.ops op = !(s.isIso m && op == .dup) := by
  unfold FsState.isIso
  rw [hm]
  cases mount <;> cases op <;> rfl

theorem descriptor_ops {dir : Bool} {ops : FileOp → Bool} (h : ops = if dir = true then fsOpendirOps else fsOpenOps)
    (op : FileOp) : ops op = !(dir && (op == .write || op == .dup)) := by
  rw [h]
  cases dir <;> cases op <;> rfl

theorem Leads.reach {s : FsState} {fd : Nat} {d : FileDescriptor} {handle : FsHandle} {o : Origin}
    (h : Leads s fd d handle o) (op : FileOp) :
    fdReach s op fd = if s.lacks o op = true then .null else .driver handle.mount handle.ifd := by
  obtain ⟨mount, hm⟩ := h.mount
  have hmount := mount_ops hm op
  have hops := descriptor_ops h.ops op
  rw [← h.same] at hmount
  have hboth : ∀ (a b : Bool) (r : Reached),
      (if (!a) = true then if (!b) = true then r else .null else .null) = if (a || b) = true then .null else r := by
    intro a b r
    cases a <;> cases b <;> rfl
  simp only [fdReach, fsReach, h.descriptor, h.found, hm, hops, hmount, FsState.lacks]
  exact hboth _ _ _

/-- `fd_dup` has no state after it exactly when it calls through a `NULL`
pointer. -/
theorem Chained.fdDup_none {s : FsState} (h : Chained s) (fd : Nat) :
    fdDup s fd = none ↔ fdReach s .dup fd = .null := by
  cases hd : look s.fds fd with
  | none =>
    rw [(fd_unopened hd).1]
    simp [fdReach, hd]
  | some d =>
    obtain ⟨handle, o, hl⟩ := h.leads fd d hd
    obtain ⟨mount, hm⟩ := hl.mount
    have hiso : s.isIso o.mount = true ↔ ∃ data, mount = .iso9660 data := by
      unfold FsState.isIso
      rw [hl.same, hm]
      cases mount <;> simp
    rw [hl.reach]
    cases hdir : o.dir with
    | true =>
      rw [h.fdDup_dir hl hdir]
      simp [FsState.lacks, hdir]
    | false =>
      cases mount with
      | iso9660 data =>
        rw [h.fdDup_iso hl hm]
        simp [FsState.lacks, hdir, hiso.mpr ⟨data, rfl⟩]
      | devfs lhandles =>
        have hnot : s.isIso o.mount = false := by
          cases hi : s.isIso o.mount with
          | false => rfl
          | true =>
            obtain ⟨data, heq⟩ := hiso.mp hi
            cases heq
        have hlacks : ¬ s.lacks o .dup = true := by simp [FsState.lacks, hdir, hnot]
        rw [if_neg hlacks]
        cases hfound : look lhandles handle.ifd with
        | none => simp [h.fdDup_refused hl hm hdir hfound]
        | some lhandle => simp [h.fdDup_eq hl hm hdir hfound]

/-- In every state a run reaches, a call on an open descriptor goes through a `NULL`
pointer exactly when it is one of those the descriptor lacks, and ends up at the
driver of its mount otherwise; and those are the calls of `fd_dup` after which
there is nothing. -/
theorem fd_null_calls {mounts : List Mount} {devs : List Device} {tr : List FsLabel} {s : FsState}
    (hr : Run fsStep anyStep (fsStart mounts devs) tr s) :
    (∀ fd o op, s.origin fd = some o → (fdReach s op fd ≠ .null ↔ s.lacks o op = false)) ∧
    (∀ fd o op, s.origin fd = some o → s.lacks o op = false → ∃ i, fdReach s op fd = .driver o.mount i) ∧
    ∀ fd, fdDup s fd = none ↔ fdReach s .dup fd = .null := by
  have hchained : Chained s := hr.invariant (fun _ _ _ _ hs h => h.step hs) (chained_start mounts devs)
  have hleads : ∀ fd o, s.origin fd = some o → ∃ d handle, Leads s fd d handle o := by
    intro fd o ho
    cases hd : look s.fds fd with
    | none =>
      rw [hchained.unopened fd hd] at ho
      cases ho
    | some d =>
      obtain ⟨handle, o', hl⟩ := hchained.leads fd d hd
      rw [hl.origin] at ho
      cases ho
      exact ⟨d, handle, hl⟩
  refine ⟨fun fd o op ho => ?_, fun fd o op ho hlacks => ?_, hchained.fdDup_none⟩
  · obtain ⟨d, handle, hl⟩ := hleads fd o ho
    rw [hl.reach]
    cases s.lacks o op <;> simp
  · obtain ⟨d, handle, hl⟩ := hleads fd o ho
    rw [hl.reach, hlacks, hl.same]
    exact ⟨handle.ifd, rfl⟩

/-- A device is open and the directory too: the first has every operation, the
second cannot be duplicated. -/
theorem fd_null_calls_devfs : ∃ s, Run fsStep anyStep (fsStart [.devfs []] [{ name := cstr "null", type := .char }])
      [.fsOpen 0 (cstr "/null") noUnset { ret := 0, data := 0 }, .fsOpendir 0 (cstr "/") noUnset] s ∧
    fdReach s .dup 0 ≠ .null ∧ fdDup s 1 = none := by
  have hrun : ∃ s, Run fsStep anyStep (fsStart [.devfs []] [{ name := cstr "null", type := .char }])
        [.fsOpen 0 (cstr "/null") noUnset { ret := 0, data := 0 }, .fsOpendir 0 (cstr "/") noUnset] s ∧
      (s.origin 0 = some { number := 0, mount := 0, dir := false } ∧
        s.lacks { number := 0, mount := 0, dir := false } .dup = false ∧ fdReach s .dup 1 = .null) :=
    run_such (by decide +kernel)
  obtain ⟨s, hr, horigin, hlacks, hnull⟩ := hrun
  obtain ⟨hiff, -, hdup⟩ := fd_null_calls hr
  exact ⟨s, hr, (hiff 0 _ .dup horigin).mpr hlacks, (hdup 1).mpr hnull⟩

/-- The directory is opened and written to. -/
theorem fd_write_null : ∃ s, Run fsStep anyStep (fsStart [.devfs []] []) [.fsOpendir 0 (cstr "/") noUnset] s ∧
    ¬ ∀ fd o op, s.origin fd = some o → fdReach s op fd ≠ .null := by
  have hrun : ∃ s, Run fsStep anyStep (fsStart [.devfs []] []) [.fsOpendir 0 (cstr "/") noUnset] s ∧
      (s.origin 0 = some { number := 0, mount := 0, dir := true } ∧ fdReach s .write 0 = .null) :=
    run_such (by decide +kernel)
  obtain ⟨s, hr, horigin, hnull⟩ := hrun
  exact ⟨s, hr, fun hall => hall 0 _ .write horigin hnull⟩

end Aex.Fs
