import AexKernel.Fs.Layer

/- The descriptors of the filesystem layer between calls.

   Each open descriptor leads to a handle of its own, and through it to a handle of
   a mount. `target` is where it leads; opening, duplicating and closing change it
   at one descriptor. What the calls do to the drivers' tables is left to them. -/
namespace Aex.Fs
open Runs Rc

/-- Where a descriptor leads: the mount, and the id of the handle there. -/
def FsState.target (s : FsState) (fd : Nat) : Option (Nat × Nat) :=
  (look s.fds fd).bind fun d => (look s.handles d.ifd).map fun handle => (handle.mount, handle.ifd)

/-- An open descriptor with its handle and where it is from. -/
structure Leads (s : FsState) (fd : Nat) (d : FileDescriptor) (handle : FsHandle) (o : Origin) : Prop where
  descriptor : look s.fds fd = some d
  found : look s.handles d.ifd = some handle
  origin : s.origin fd = some o
  same : o.mount = handle.mount
  mounted : handle.mount < s.mounts.length
  ops : d.ops = if o.dir = true then fsOpendirOps else fsOpenOps

/-- Nobody is in a call, each descriptor leads somewhere, and no two have one
handle. -/
structure Chained (s : FsState) : Prop where
  fds : Quiet s.fds
  handles : Quiet s.handles
  leads : ∀ fd d, look s.fds fd = some d → ∃ handle o, Leads s fd d handle o
  apart : ∀ fd fd' d d', look s.fds fd = some d → look s.fds fd' = some d' → d.ifd = d'.ifd → fd = fd'
  unopened : ∀ fd, look s.fds fd = none → s.origin fd = none

theorem Leads.target {s : FsState} {fd : Nat} {d : FileDescriptor} {handle : FsHandle} {o : Origin}
    (h : Leads s fd d handle o) : s.target fd = some (handle.mount, handle.ifd) := by
  simp [FsState.target, h.descriptor, h.found]

theorem Leads.mount {s : FsState} {fd : Nat} {d : FileDescriptor} {handle : FsHandle} {o : Origin}
    (h : Leads s fd d handle o) : ∃ mount, s.mounts[handle.mount]? = some mount :=
  ⟨_, List.getElem?_eq_getElem h.mounted⟩

theorem chained_start (mounts : List Mount) (devs : List Device) : Chained (fsStart mounts devs) where
  fds := quiet_nil
  handles := quiet_nil
  leads := fun _ _ h => absurd h.symm (Option.some_ne_none _)
  apart := fun _ _ _ _ h => absurd h.symm (Option.some_ne_none _)
  unopened := fun _ _ => rfl

theorem Chained.congr {s s' : FsState} (h : Chained s) (hfds : s'.fds = s.fds) (hhandles : s'.handles = s.handles)
    (horigin : s'.origin = s.origin) (hmounts : s'.mounts.length = s.mounts.length) : Chained s' := by
  refine ⟨?_, ?_, fun fd d hd => ?_, fun fd fd' d d' hd hd' => ?_, fun fd hd => ?_⟩
  · rw [hfds]
    exact h.fds
  · rw [hhandles]
    exact h.handles
  · rw [hfds] at hd
    obtain ⟨handle, o, hl⟩ := h.leads fd d hd
    refine ⟨handle, o, ?_, ?_, ?_, hl.same, ?_, hl.ops⟩
    · rw [hfds]
      exact hd
    · rw [hhandles]
      exact hl.found
    · rw [horigin]
      exact hl.origin
    · rw [hmounts]
      exact hl.mounted
  · rw [hfds] at hd hd'
    exact h.apart fd fd' d d' hd hd'
  · rw [horigin]
    rw [hfds] at hd
    exact h.unopened fd hd

theorem Chained.driven {s : FsState} (h : Chained s) (m : Nat) (mount : Mount) (events : List DevEvent) :
    Chained (s.driven m mount events) := h.congr rfl rfl rfl List.length_set

theorem mount_driven {s : FsState} {m : Nat} {mount : Mount} (hm : s.mounts[m]? = some mount) (mount' : Mount) (events : List DevEvent)
    (k : Nat) : (s.driven m mount' events).mounts[k]? = if k = m then some mount' else s.mounts[k]? := by
  have hlt : m < s.mounts.length := (List.getElem?_eq_some_iff.mp hm).1
  show (s.mounts.set m mount')[k]? = _
  by_cases hk : k = m
  · rw [if_pos hk, hk, List.getElem?_set_self hlt]
  · rw [if_neg hk, List.getElem?_set_ne (fun heq => hk heq.symm)]

/-! ## A descriptor comes -/

theorem look_attach_fds (s : FsState) (handle : FsHandle) (ops : FileOp → Bool) (o : Option Origin) (j : Nat) :
    look (s.attach handle ops o).fds j =
      if j = firstFree s.fds then some { ifd := firstFree s.handles, ops := ops } else look s.fds j := by
  have hadd := look_add s.fds { ifd := (arrayAdd s.handles handle).1, ops := ops } j
  rw [arrayAdd_fst] at hadd
  show look (arrayAdd s.fds { ifd := (arrayAdd s.handles handle).1, ops := ops }).2 j = _
  rw [arrayAdd_fst]
  exact hadd

theorem look_attach_handles (s : FsState) (handle : FsHandle) (ops : FileOp → Bool) (o : Option Origin) (j : Nat) :
    look (s.attach handle ops o).handles j = if j = firstFree s.handles then some handle else look s.handles j :=
  look_add s.handles handle j

theorem firstFree_ne {α : Type} {a : Rc.Array α} {id : Nat} {v : α} (hv : look a id = some v) : id ≠ firstFree a := by
  rintro rfl
  rw [look_firstFree] at hv
  cases hv

theorem Leads.attach {s : FsState} {fd : Nat} {d : FileDescriptor} {handle : FsHandle} {o : Origin}
    (h : Leads s fd d handle o) (new : FsHandle) (ops : FileOp → Bool) (origin : Option Origin) :
    Leads (s.attach new ops origin) fd d handle o := by
  have hfd := firstFree_ne h.descriptor
  refine ⟨?_, ?_, ?_, h.same, h.mounted, h.ops⟩
  · rw [look_attach_fds, if_neg hfd]
    exact h.descriptor
  · rw [look_attach_handles, if_neg (firstFree_ne h.found)]
    exact h.found
  · show Function.update s.origin (firstFree s.fds) origin fd = some o
    rw [Function.update_of_ne hfd]
    exact h.origin

theorem Chained.attach {s : FsState} (h : Chained s) {new : FsHandle} {ops : FileOp → Bool} {o : Origin}
    (hsame : o.mount = new.mount) (hmounted : new.mount < s.mounts.length)
    (hops : ops = if o.dir = true then fsOpendirOps else fsOpenOps) : Chained (s.attach new ops (some o)) := by
  -- No descriptor there was has the handle that was free.
  have hother : ∀ fd d, look s.fds fd = some d → d.ifd ≠ firstFree s.handles := by
    intro fd d hd
    obtain ⟨handle, o', hl⟩ := h.leads fd d hd
    exact firstFree_ne hl.found
  refine ⟨h.fds.add _, h.handles.add _, fun fd d hd => ?_, fun fd fd' d d' hd hd' heq => ?_, fun fd hd => ?_⟩
  · by_cases hfd : fd = firstFree s.fds
    · subst hfd
      have hd' := hd
      rw [look_attach_fds, if_pos rfl] at hd'
      cases hd'
      refine ⟨new, o, hd, ?_, Function.update_self .., hsame, hmounted, hops⟩
      rw [look_attach_handles, if_pos rfl]
    · rw [look_attach_fds, if_neg hfd] at hd
      obtain ⟨handle, o', hl⟩ := h.leads fd d hd
      exact ⟨handle, o', hl.attach new ops (some o)⟩
  · rw [look_attach_fds] at hd hd'
    split at hd
    · next hfd =>
      cases hd
      split at hd'
      · next hfd' => exact hfd.trans hfd'.symm
      · exact absurd heq.symm (hother fd' d' hd')
    · split at hd'
      · cases hd'
        exact absurd heq (hother fd d hd)
      · exact h.apart fd fd' d d' hd hd' heq
  · rw [look_attach_fds] at hd
    split at hd
    · cases hd
    · next hfd =>
      show Function.update s.origin (firstFree s.fds) (some o) fd = none
      rw [Function.update_of_ne hfd]
      exact h.unopened fd hd

theorem Chained.target_attach {s : FsState} (h : Chained s) (new : FsHandle) (ops : FileOp → Bool)
    (o : Option Origin) :
    (s.attach new ops o).target = Function.update s.target (firstFree s.fds) (some (new.mount, new.ifd)) := by
  funext fd
  by_cases hfd : fd = firstFree s.fds
  · subst hfd
    rw [Function.update_self]
    simp [FsState.target, look_attach_fds, look_attach_handles]
  · rw [Function.update_of_ne hfd]
    cases hd : look s.fds fd with
    | none => simp [FsState.target, look_attach_fds, hfd, hd]
    | some d =>
      obtain ⟨handle, o', hl⟩ := h.leads fd d hd
      rw [hl.target]
      exact (hl.attach new ops o).target

theorem target_free (s : FsState) : s.target (firstFree s.fds) = none := by
  simp [FsState.target, look_firstFree]

/-! ## A descriptor goes -/

/-- The descriptor and its handle are taken out. -/
def FsState.detach (s : FsState) (fd : Nat) (d : FileDescriptor) : FsState :=
  { s with
    fds := s.fds.set fd none
    handles := s.handles.set d.ifd none
    origin := Function.update s.origin fd none }

theorem Leads.detach {s : FsState} {fd fd' : Nat} {d d' : FileDescriptor} {handle handle' : FsHandle} {o o' : Origin}
    (h : Leads s fd d handle o) (hl : Leads s fd' d' handle' o') (hne : fd' ≠ fd) (hapart : d'.ifd ≠ d.ifd) :
    Leads (s.detach fd d) fd' d' handle' o' := by
  refine ⟨?_, ?_, ?_, hl.same, hl.mounted, hl.ops⟩
  · show look (s.fds.set fd none) fd' = some d'
    rw [look_clear h.descriptor, if_neg hne]
    exact hl.descriptor
  · show look (s.handles.set d.ifd none) d'.ifd = some handle'
    rw [look_clear h.found, if_neg hapart]
    exact hl.found
  · show Function.update s.origin fd none fd' = some o'
    rw [Function.update_of_ne hne]
    exact hl.origin

theorem Chained.detach {s : FsState} (h : Chained s) {fd : Nat} {d : FileDescriptor} {handle : FsHandle} {o : Origin}
    (hl : Leads s fd d handle o) : Chained (s.detach fd d) := by
  have hfds : ∀ j, look (s.detach fd d).fds j = if j = fd then none else look s.fds j := look_clear hl.descriptor
  refine ⟨h.fds.set hl.descriptor (.inl rfl), h.handles.set hl.found (.inl rfl), fun fd' d' hd' => ?_,
    fun x y dx dy hx hy heq => ?_, fun fd' hd' => ?_⟩
  · rw [hfds] at hd'
    split at hd'
    · cases hd'
    · next hne =>
      obtain ⟨handle', o', hl'⟩ := h.leads fd' d' hd'
      exact ⟨handle', o', hl.detach hl' hne (fun heq => hne (h.apart fd' fd d' d hd' hl.descriptor heq))⟩
  · rw [hfds] at hx hy
    split at hx
    · cases hx
    · split at hy
      · cases hy
      · exact h.apart x y dx dy hx hy heq
  · show Function.update s.origin fd none fd' = none
    by_cases hne : fd' = fd
    · rw [hne, Function.update_self]
    · rw [Function.update_of_ne hne]
      rw [hfds, if_neg hne] at hd'
      exact h.unopened fd' hd'

theorem Chained.target_detach {s : FsState} (h : Chained s) {fd : Nat} {d : FileDescriptor} {handle : FsHandle}
    {o : Origin} (hl : Leads s fd d handle o) : (s.detach fd d).target = Function.update s.target fd none := by
  have hfds : ∀ j, look (s.detach fd d).fds j = if j = fd then none else look s.fds j := look_clear hl.descriptor
  funext fd'
  by_cases hne : fd' = fd
  · subst hne
    simp [FsState.target, hfds]
  · rw [Function.update_of_ne hne]
    cases hd' : look s.fds fd' with
    | none => simp [FsState.target, hfds, hne, hd']
    | some d' =>
      obtain ⟨handle', o', hl'⟩ := h.leads fd' d' hd'
      rw [hl'.target]
      exact (hl.detach hl' hne (fun heq => hne (h.apart fd' fd d' d hd' hl.descriptor heq))).target

/-! ## The calls -/

theorem Chained.fdClose_eq {s : FsState} (h : Chained s) {fd : Nat} {d : FileDescriptor} {handle : FsHandle}
    {o : Origin} (hl : Leads s fd d handle o) {mount : Mount} (hm : s.mounts[handle.mount]? = some mount) :
    fdClose s fd = some ((mount.close s.devs handle.ifd).1, (s.detach fd d).driven handle.mount
      (mount.close s.devs handle.ifd).2.1 (mount.close s.devs handle.ifd).2.2) := by
  have hclose : d.ops .close = true := by
    rw [hl.ops]
    split <;> rfl
  have hgotFd := arrayGet_slot (h.fds.slot_of_look hl.descriptor) rfl
  have hgot := arrayGet_slot (h.handles.slot_of_look hl.found) rfl
  have hfds := h.fds.get_remove hl.descriptor
  have hhandles := h.handles.get_remove hl.found
  rw [hgotFd] at hfds
  rw [hgot] at hhandles
  simp only [fdClose, hgotFd, fsClose, Entry.resting, hclose, if_true]
  simp only [Entry.resting] at hgot hfds hhandles
  simp only [hgot, hm]
  rw [hfds, hhandles]
  rfl

theorem driven_same {s : FsState} {m : Nat} {mount : Mount} (hm : s.mounts[m]? = some mount) :
    s.driven m mount [] = s := by
  obtain ⟨hlt, hget⟩ := List.getElem?_eq_some_iff.mp hm
  have hset : s.mounts.set m mount = s.mounts := by
    rw [← hget]
    exact List.set_getElem_self hlt
  simp only [FsState.driven, hset, List.append_nil]

theorem Chained.fdDup_eq {s : FsState} (h : Chained s) {fd : Nat} {d : FileDescriptor} {handle : FsHandle}
    {o : Origin} (hl : Leads s fd d handle o) {lhandles : Rc.Array DevLhandle}
    (hm : s.mounts[handle.mount]? = some (.devfs lhandles)) (hdir : o.dir = false) {lhandle : DevLhandle}
    (hfound : look lhandles handle.ifd = some lhandle) :
    fdDup s fd = some ((firstFree s.fds : Int),
      (s.driven handle.mount (.devfs (devfsDup lhandles handle.ifd).2) []).attach handle d.ops (some o)) := by
  have hdup : d.ops .dup = true := by
    rw [hl.ops, hdir]
    rfl
  have hgotFd := arrayGet_slot (h.fds.slot_of_look hl.descriptor) rfl
  have hgot := arrayGet_slot (h.handles.slot_of_look hl.found) rfl
  obtain ⟨hfd, hfds⟩ := h.fds.get_add_unref hl.descriptor { ifd := (arrayAdd s.handles handle).1, ops := d.ops }
  obtain ⟨hnew, hhandles⟩ := h.handles.get_add_unref hl.found handle
  have hret : (devfsDup lhandles handle.ifd).1 = .ok handle.ifd := by
    have hgot' : (arrayGet lhandles handle.ifd).1 = some lhandle := hfound
    unfold devfsDup
    split
    · next heq =>
      rw [heq] at hgot'
      cases hgot'
    · rfl
  rw [hgotFd] at hfd hfds
  rw [hgot] at hnew hhandles
  simp only [Entry.resting] at hgotFd hgot hfd hfds hnew hhandles
  simp only [fdDup, hgotFd, hdup, if_true, fsDup, hgot, hm, Mount.dup, Option.map_some, hret, FsState.driven,
    List.append_nil, hnew, hfd, hhandles, hfds, hl.origin]
  rw [arrayAdd_fst]
  rfl

theorem Chained.fdDup_refused {s : FsState} (h : Chained s) {fd : Nat} {d : FileDescriptor} {handle : FsHandle}
    {o : Origin} (hl : Leads s fd d handle o) {lhandles : Rc.Array DevLhandle}
    (hm : s.mounts[handle.mount]? = some (.devfs lhandles)) (hdir : o.dir = false)
    (hnone : look lhandles handle.ifd = none) : fdDup s fd = some (-ebadf, s) := by
  have hdup : d.ops .dup = true := by
    rw [hl.ops, hdir]
    rfl
  have hgotFd := arrayGet_slot (h.fds.slot_of_look hl.descriptor) rfl
  have hgot := arrayGet_slot (h.handles.slot_of_look hl.found) rfl
  have hfds := h.fds.get_unref hl.descriptor
  have hhandles := h.handles.get_unref hl.found
  have hret : devfsDup lhandles handle.ifd = (.error (-ebadf), lhandles) := by
    have hgot' : (arrayGet lhandles handle.ifd).1 = none := hnone
    unfold devfsDup
    split
    · rfl
    · next heq =>
      rw [heq] at hgot'
      cases hgot'
  have hsame := driven_same hm
  rw [hgotFd] at hfds
  rw [hgot] at hhandles
  simp only [Entry.resting] at hgotFd hgot hfds hhandles
  simp only [FsState.driven, List.append_nil] at hsame
  simp only [fdDup, hgotFd, hdup, if_true, fsDup, hgot, hm, Mount.dup, Option.map_some, hret, FsState.driven,
    List.append_nil, hhandles, hfds]
  exact congrArg (fun s' : FsState => some (-ebadf, s')) hsame

theorem Chained.fdDup_dir {s : FsState} (h : Chained s) {fd : Nat} {d : FileDescriptor} {handle : FsHandle}
    {o : Origin} (hl : Leads s fd d handle o) (hdir : o.dir = true) : fdDup s fd = none := by
  have hdup : ¬ d.ops .dup = true := by
    rw [hl.ops, hdir]
    exact Bool.false_ne_true
  have hgotFd := arrayGet_slot (h.fds.slot_of_look hl.descriptor) rfl
  simp only [Entry.resting] at hgotFd
  simp only [fdDup, hgotFd]
  exact if_neg hdup

/-- `fd_dup` of a descriptor on an `iso9660` mount, whose `fs->dup` is `NULL`. -/
theorem Chained.fdDup_iso {s : FsState} (h : Chained s) {fd : Nat} {d : FileDescriptor} {handle : FsHandle}
    {o : Origin} (hl : Leads s fd d handle o) {data : IsoPrivate}
    (hm : s.mounts[handle.mount]? = some (.iso9660 data)) : fdDup s fd = none := by
  have hgotFd := arrayGet_slot (h.fds.slot_of_look hl.descriptor) rfl
  have hgot := arrayGet_slot (h.handles.slot_of_look hl.found) rfl
  simp only [Entry.resting] at hgotFd hgot
  simp only [fdDup, hgotFd, fsDup, hgot, hm, Mount.dup, Option.map_none, ite_self]

theorem fd_unopened {s : FsState} {fd : Nat} (hd : look s.fds fd = none) :
    fdDup s fd = some (-ebadf, s) ∧ fdClose s fd = some (-ebadf, s) := by
  have hgot : (arrayGet s.fds fd).1 = none := hd
  constructor
  · unfold fdDup
    split
    · rfl
    · next heq =>
      rw [heq] at hgot
      cases hgot
  · unfold fdClose
    split
    · rfl
    · next heq =>
      rw [heq] at hgot
      cases hgot

/-- The driver's part of `fs_open` or `fs_opendir`. -/
inductive Opens (s : FsState) (mount : Mount) (out : Except Int Nat × Mount × List DevEvent) : Bool → Prop
  | file (path : CStr) (unset : IsoUnset) (answer : DevAnswer) (h : mount.open s path unset answer = some out) :
      Opens s mount out false
  | dir (path : CStr) (unset : IsoUnset) (h : mount.opendir s path unset = some out) : Opens s mount out true

/-- On a `devfs` mount it fails and leaves the handles there were, or it adds the
handle of a device that it has opened or that of the directory. -/
theorem Opens.devfs_cases {s : FsState} {lhandles : Rc.Array DevLhandle} {out : Except Int Nat × Mount × List DevEvent}
    {dir : Bool} (hout : Opens s (.devfs lhandles) out dir) (hquiet : Quiet lhandles) :
    (∃ e lhandles', out = (.error e, .devfs lhandles', []) ∧ Quiet lhandles' ∧
      ∀ j v, look lhandles j = some v → look lhandles' j = some v) ∨
    ∃ id lhandles' handle events, out = (.ok id, .devfs lhandles', events) ∧ Added lhandles lhandles' id handle ∧
      handle.devFd.number = s.calls ∧ handle.refs = 1 ∧
      ((dir = false ∧ isChar s.devs handle.id = true ∧ events = [.opened handle.id handle.devFd]) ∨
        (dir = true ∧ handle.id = 0 ∧ events = [])) := by
  cases hout with
  | file path unset answer hopen =>
    simp only [Mount.open, Option.some.injEq] at hopen
    subst hopen
    rcases devfsOpen_spec hquiet s.devs path answer s.calls with ⟨e, heq⟩ | ⟨e, lhandles', id, handle, heq, hadded⟩ |
      ⟨lhandles', id, handle, heq, hadded, hnumber, -, hrefs, hchar⟩
    · rw [heq]
      exact .inl ⟨_, _, rfl, hquiet, fun _ _ hv => hv⟩
    · rw [heq]
      exact .inl ⟨_, _, rfl, hadded.1, hadded.keeps⟩
    · rw [heq]
      exact .inr ⟨_, _, handle, _, rfl, hadded, hnumber, hrefs, .inl ⟨rfl, hchar, rfl⟩⟩
  | dir path unset hopen =>
    simp only [Mount.opendir, Option.some.injEq] at hopen
    subst hopen
    rcases devfsOpendir_spec hquiet path s.calls with ⟨e, heq⟩ |
      ⟨lhandles', id, handle, heq, hadded, hnumber, hzero, hrefs⟩
    · rw [heq]
      exact .inl ⟨_, _, rfl, hquiet, fun _ _ hv => hv⟩
    · rw [heq]
      exact .inr ⟨_, _, handle, _, rfl, hadded, hnumber, hrefs, .inr ⟨rfl, hzero, rfl⟩⟩

theorem Opens.iso_cases {s : FsState} {data : IsoPrivate} {out : Except Int Nat × Mount × List DevEvent} {dir : Bool}
    (hout : Opens s (.iso9660 data) out dir) : ∃ ret data', out = (ret, .iso9660 data', []) := by
  cases hout with
  | file path unset answer hopen =>
    obtain ⟨o, -, rfl⟩ := Option.map_eq_some_iff.mp hopen
    exact ⟨_, _, rfl⟩
  | dir path unset hopen =>
    obtain ⟨o, -, rfl⟩ := Option.map_eq_some_iff.mp hopen
    exact ⟨_, _, rfl⟩

/-- What a call can do. -/
inductive FsCall (s : FsState) : FsLabel → FsState → Prop
  | same (l : FsLabel) : FsCall s l s
  | registered (dev : Device) : FsCall s (.devRegister dev) { s with devs := s.devs ++ [dev] }
  | opened (l : FsLabel) (m : Nat) (mount : Mount) (out : Except Int Nat × Mount × List DevEvent) (dir : Bool)
      (hm : s.mounts[m]? = some mount) (hout : Opens s mount out dir) :
      FsCall s l (s.finish m (if dir = true then fsOpendirOps else fsOpenOps) dir out).2
  | dup (fd : Nat) (d : FileDescriptor) (handle : FsHandle) (o : Origin) (lhandles : Rc.Array DevLhandle)
      (lhandle : DevLhandle) (hl : Leads s fd d handle o) (hm : s.mounts[handle.mount]? = some (.devfs lhandles))
      (hdir : o.dir = false) (hfound : look lhandles handle.ifd = some lhandle) :
      FsCall s (.fdDup fd)
        ((s.driven handle.mount (.devfs (devfsDup lhandles handle.ifd).2) []).attach handle d.ops (some o))
  | close (fd : Nat) (d : FileDescriptor) (handle : FsHandle) (o : Origin) (mount : Mount)
      (hl : Leads s fd d handle o) (hm : s.mounts[handle.mount]? = some mount) :
      FsCall s (.fdClose fd) ((s.detach fd d).driven handle.mount
        (mount.close s.devs handle.ifd).2.1 (mount.close s.devs handle.ifd).2.2)

theorem Chained.call {s s' : FsState} (h : Chained s) {l : FsLabel} (hs : fsStep l s = some s') : FsCall s l s' := by
  cases l with
  | fsOpen m path unset answer =>
    obtain ⟨⟨ret, s₁⟩, hcall, rfl⟩ := Option.map_eq_some_iff.mp hs
    unfold fsOpen at hcall
    split at hcall
    · cases hcall
      exact .same _
    · next mount hm =>
      obtain ⟨out, hopen, hfin⟩ := Option.map_eq_some_iff.mp hcall
      have hcase := FsCall.opened (.fsOpen m path unset answer) m mount out false hm (.file path unset answer hopen)
      rw [if_neg Bool.false_ne_true, hfin] at hcase
      exact hcase
  | fsOpendir m path unset =>
    obtain ⟨⟨ret, s₁⟩, hcall, rfl⟩ := Option.map_eq_some_iff.mp hs
    unfold fsOpendir at hcall
    split at hcall
    · cases hcall
      exact .same _
    · next mount hm =>
      obtain ⟨out, hopen, hfin⟩ := Option.map_eq_some_iff.mp hcall
      have hcase := FsCall.opened (.fsOpendir m path unset) m mount out true hm (.dir path unset hopen)
      rw [if_pos rfl, hfin] at hcase
      exact hcase
  | fdDup fd =>
    obtain ⟨⟨ret, s₁⟩, hcall, rfl⟩ := Option.map_eq_some_iff.mp hs
    cases hd : look s.fds fd with
    | none =>
      rw [(fd_unopened hd).1] at hcall
      cases hcall
      exact .same _
    | some d =>
      obtain ⟨handle, o, hl⟩ := h.leads fd d hd
      cases hdir : o.dir with
      | true =>
        rw [h.fdDup_dir hl hdir] at hcall
        cases hcall
      | false =>
        obtain ⟨mount, hm⟩ := hl.mount
        cases mount with
        | iso9660 data =>
          rw [h.fdDup_iso hl hm] at hcall
          cases hcall
        | devfs lhandles =>
          cases hfound : look lhandles handle.ifd with
          | none =>
            rw [h.fdDup_refused hl hm hdir hfound] at hcall
            cases hcall
            exact .same _
          | some lhandle =>
            rw [h.fdDup_eq hl hm hdir hfound] at hcall
            cases hcall
            exact .dup fd d handle o lhandles lhandle hl hm hdir hfound
  | fdClose fd =>
    obtain ⟨⟨ret, s₁⟩, hcall, rfl⟩ := Option.map_eq_some_iff.mp hs
    cases hd : look s.fds fd with
    | none =>
      rw [(fd_unopened hd).2] at hcall
      cases hcall
      exact .same _
    | some d =>
      obtain ⟨handle, o, hl⟩ := h.leads fd d hd
      obtain ⟨mount, hm⟩ := hl.mount
      rw [h.fdClose_eq hl hm] at hcall
      cases hcall
      exact .close fd d handle o _ hl hm
  | devRegister dev =>
    cases hs
    exact .registered dev

theorem Chained.step {s s' : FsState} (h : Chained s) {l : FsLabel} (hs : fsStep l s = some s') : Chained s' := by
  cases h.call hs with
  | same => exact h
  | registered dev => exact h.congr rfl rfl rfl rfl
  | opened l m mount out dir hm hout =>
    have hlt : m < s.mounts.length := (List.getElem?_eq_some_iff.mp hm).1
    have hdriven := h.driven m out.2.1 out.2.2
    have hnext : Chained { s.driven m out.2.1 out.2.2 with calls := s.calls + 1 } := hdriven.congr rfl rfl rfl rfl
    unfold FsState.finish
    split
    · exact hnext
    · next ifd _ =>
      have hlt' : m < (s.mounts.set m out.2.1).length := by
        rw [List.length_set]
        exact hlt
      exact hnext.attach rfl hlt' rfl
  | dup fd d handle o lhandles lhandle hl hm hdir hfound =>
    have hlt' : handle.mount < (s.mounts.set handle.mount (.devfs (devfsDup lhandles handle.ifd).2)).length := by
      rw [List.length_set]
      exact hl.mounted
    exact (h.driven _ _ _).attach hl.same hlt' hl.ops
  | close fd d handle o mount hl hm => exact (h.detach hl).driven _ _ _

end Aex.Fs
