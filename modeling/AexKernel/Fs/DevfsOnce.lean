import AexKernel.Fs.DevfsSessions
import AexKernel.Fs.LayerKept

/- When each character device is closed.

   The descriptors on the `devfs` mounts share sessions as long as no directory is
   closed while the device with the id 0 is a character device: the handle of a
   directory has that id, and `devfs_close` does not tell it from the handle of a
   device. -/
namespace Aex.Fs
open Runs Rc

/-- The table of a `devfs` mount. -/
def FsState.lhandles (s : FsState) (m : Nat) : Rc.Array DevLhandle :=
  match s.mounts[m]? with
  | some (.devfs lhandles) => lhandles
  | _ => []

/-- A handle of a `devfs` mount. -/
def FsState.dev (s : FsState) (r : Nat × Nat) : Option DevLhandle := look (s.lhandles r.1) r.2

/-- Whether a mount is of `devfs`. -/
def FsState.isDevfs (s : FsState) (m : Nat) : Bool :=
  match s.mounts[m]? with
  | some (.devfs _) => true
  | _ => false

/-- The descriptor is of a directory on a `devfs` mount. -/
def FsState.isDevfsDir (s : FsState) (fd : Nat) : Bool :=
  match s.origin fd with
  | some o => o.dir && s.isDevfs o.mount
  | none => false

/-- No directory on a `devfs` mount is closed while the device with the id 0 is a
character device. -/
def dirClosesNoDevice : FsLabel → FsState → Prop
  | .fdClose fd, s => (s.isDevfsDir fd && isChar s.devs 0) = false
  | _, _ => True

instance (l : FsLabel) (s : FsState) : Decidable (dirClosesNoDevice l s) :=
  match l with
  | .fdClose fd => inferInstanceAs (Decidable ((s.isDevfsDir fd && isChar s.devs 0) = false))
  | .fsOpen _ _ _ _ => inferInstanceAs (Decidable True)
  | .fsOpendir _ _ _ => inferInstanceAs (Decidable True)
  | .fdDup _ => inferInstanceAs (Decidable True)
  | .devRegister _ => inferInstanceAs (Decidable True)

/-- The descriptors lead somewhere, nobody is in a call, and the sessions are
right. -/
structure DevKept (s : FsState) : Prop where
  chained : Chained s
  quiet : ∀ (m : Nat) (lhandles : Rc.Array DevLhandle), s.mounts[m]? = some (.devfs lhandles) → Quiet lhandles
  sessions : Sessions s.target s.origin s.dev (fun r => s.isDevfs r.1 = true) (isChar s.devs) s.calls s.log

theorem devKept_start {mounts : List Mount} (hfresh : ∀ mount ∈ mounts, mount.Fresh) (devs : List Device) :
    DevKept (fsStart mounts devs) := by
  refine ⟨chained_start mounts devs, fun m lhandles hm => ?_, ?_⟩
  · have hnil : lhandles = [] := hfresh _ (List.mem_of_getElem? hm)
    rw [hnil]
    exact quiet_nil
  · exact sessions_nil _ _ _

/-! ## A driver has changed its mount -/

section driven
variable {s : FsState} {m : Nat}

theorem dev_driven {lhandles : Rc.Array DevLhandle} (hm : s.mounts[m]? = some (.devfs lhandles))
    (lhandles' : Rc.Array DevLhandle) (events : List DevEvent) (r : Nat × Nat) :
    (s.driven m (.devfs lhandles') events).dev r = if r.1 = m then look lhandles' r.2 else s.dev r := by
  unfold FsState.dev FsState.lhandles
  rw [mount_driven hm]
  by_cases hr : r.1 = m
  · rw [if_pos hr, if_pos hr]
  · rw [if_neg hr, if_neg hr]

theorem isDevfs_driven {lhandles : Rc.Array DevLhandle} (hm : s.mounts[m]? = some (.devfs lhandles))
    (lhandles' : Rc.Array DevLhandle) (events : List DevEvent) :
    (s.driven m (.devfs lhandles') events).isDevfs = s.isDevfs := by
  funext k
  unfold FsState.isDevfs
  rw [mount_driven hm]
  by_cases hk : k = m
  · rw [if_pos hk, hk, hm]
  · rw [if_neg hk]

theorem dev_driven_iso {data : IsoPrivate} (hm : s.mounts[m]? = some (.iso9660 data)) (data' : IsoPrivate)
    (events : List DevEvent) : (s.driven m (.iso9660 data') events).dev = s.dev := by
  funext r
  unfold FsState.dev FsState.lhandles
  rw [mount_driven hm]
  by_cases hr : r.1 = m
  · rw [if_pos hr, hr, hm]
  · rw [if_neg hr]

theorem isDevfs_driven_iso {data : IsoPrivate} (hm : s.mounts[m]? = some (.iso9660 data)) (data' : IsoPrivate)
    (events : List DevEvent) : (s.driven m (.iso9660 data') events).isDevfs = s.isDevfs := by
  funext k
  unfold FsState.isDevfs
  rw [mount_driven hm]
  by_cases hk : k = m
  · rw [if_pos hk, hk, hm]
  · rw [if_neg hk]

theorem DevKept.quiet_driven (h : DevKept s) {mount : Mount} (hm : s.mounts[m]? = some mount) {mount' : Mount}
    (hquiet : ∀ lhandles, mount' = .devfs lhandles → Quiet lhandles) (events : List DevEvent) :
    ∀ (k : Nat) (lhandles : Rc.Array DevLhandle), (s.driven m mount' events).mounts[k]? = some (.devfs lhandles) → Quiet lhandles := by
  intro k lhandles hk
  rw [mount_driven hm] at hk
  split at hk
  · exact hquiet lhandles (Option.some.inj hk)
  · exact h.quiet k lhandles hk

end driven

theorem isDevfs_of {s : FsState} {m : Nat} {lhandles : Rc.Array DevLhandle} (hm : s.mounts[m]? = some (.devfs lhandles)) :
    s.isDevfs m = true := by
  unfold FsState.isDevfs
  rw [hm]

theorem isDevfs_iso {s : FsState} {m : Nat} {data : IsoPrivate} (hm : s.mounts[m]? = some (.iso9660 data)) :
    ¬ s.isDevfs m = true := by
  unfold FsState.isDevfs
  rw [hm]
  exact Bool.false_ne_true

theorem dev_of {s : FsState} {m : Nat} {lhandles : Rc.Array DevLhandle} (hm : s.mounts[m]? = some (.devfs lhandles))
    (i : Nat) : s.dev (m, i) = look lhandles i := by
  unfold FsState.dev FsState.lhandles
  rw [hm]

theorem DevKept.held_ne {s : FsState} (h : DevKept s) {m id : Nat} {lhandles : Rc.Array DevLhandle}
    (hm : s.mounts[m]? = some (.devfs lhandles)) (hfree : look lhandles id = none) (fd : Nat) :
    s.target fd ≠ some (m, id) := by
  intro hr
  obtain ⟨handle, o, hhandle, -⟩ := h.sessions.entry fd (m, id) hr (isDevfs_of hm)
  rw [dev_of hm, hfree] at hhandle
  cases hhandle

/-! ## The calls -/

theorem DevKept.registered {s : FsState} (h : DevKept s) (dev : Device) :
    DevKept { s with devs := s.devs ++ [dev] } := by
  refine ⟨h.chained.congr rfl rfl rfl rfl, h.quiet, ?_⟩
  refine h.sessions.grow (fun _ _ _ _ => rfl) (fun id hchar => ?_) (Nat.le_refl _)
  show isChar (s.devs ++ [dev]) id = true
  unfold isChar at hchar ⊢
  cases hid : s.devs[id]? with
  | none =>
    rw [hid] at hchar
    cases hchar
  | some d =>
    rw [List.getElem?_append_left (List.getElem?_eq_some_iff.mp hid).1, hid]
    rw [hid] at hchar
    exact hchar

/-- A call on a `devfs` mount that opens nothing, though it may leave a handle. -/
theorem DevKept.failed {s : FsState} (h : DevKept s) {m : Nat} {lhandles lhandles' : Rc.Array DevLhandle}
    (hm : s.mounts[m]? = some (.devfs lhandles)) (hquiet : Quiet lhandles')
    (hlook : ∀ j v, look lhandles j = some v → look lhandles' j = some v) :
    DevKept { s.driven m (.devfs lhandles') [] with calls := s.calls + 1 } := by
  refine ⟨h.chained.congr rfl rfl rfl List.length_set, h.quiet_driven hm (fun _ heq => ?_) [], ?_⟩
  · cases heq
    exact hquiet
  · have hgrow : Sessions s.target s.origin (s.driven m (.devfs lhandles') []).dev (fun r => s.isDevfs r.1 = true)
        (isChar s.devs) (s.calls + 1) s.log := by
      refine h.sessions.grow (fun fd r hr hk => ?_) (fun _ hc => hc) (Nat.le_succ _)
      rw [dev_driven hm]
      split
      · next hrm =>
        obtain ⟨handle, o, hhandle, -⟩ := h.sessions.entry fd r hr hk
        obtain ⟨k, i⟩ := r
        cases hrm
        rw [hhandle]
        rw [dev_of hm] at hhandle
        exact hlook i handle hhandle
      · rfl
    have hlog : (s.driven m (.devfs lhandles') []).log = s.log := List.append_nil _
    have hkind := isDevfs_driven hm lhandles' []
    rw [← hkind, ← hlog] at hgrow
    exact hgrow

theorem DevKept.opened {s : FsState} (h : DevKept s) {m id : Nat} {lhandles lhandles' : Rc.Array DevLhandle}
    {handle : DevLhandle} {dir : Bool} {events : List DevEvent} (hm : s.mounts[m]? = some (.devfs lhandles))
    (hadded : Added lhandles lhandles' id handle) (hnumber : handle.devFd.number = s.calls) (hrefs : handle.refs = 1)
    (hwhat : (dir = false ∧ isChar s.devs handle.id = true ∧ events = [.opened handle.id handle.devFd]) ∨
      (dir = true ∧ handle.id = 0 ∧ events = [])) (ops : FileOp → Bool)
    (hops : ops = if dir = true then fsOpendirOps else fsOpenOps) :
    DevKept ({ s.driven m (.devfs lhandles') events with calls := s.calls + 1 }.attach { mount := m, ifd := id } ops
      (some { number := s.calls, mount := m, dir := dir })) := by
  obtain ⟨hquiet, hfree, hlook⟩ := hadded
  have hdriven : Chained { s.driven m (.devfs lhandles') events with calls := s.calls + 1 } :=
    (h.chained.driven m (.devfs lhandles') events).congr rfl rfl rfl rfl
  have hlt : m < (s.mounts.set m (.devfs lhandles')).length := by
    rw [List.length_set]
    exact (List.getElem?_eq_some_iff.mp hm).1
  refine ⟨hdriven.attach rfl hlt hops, h.quiet_driven hm (fun _ heq => ?_) events, ?_⟩
  · cases heq
    exact hquiet
  · have hunused : s.target (firstFree s.fds) = none ∧ s.origin (firstFree s.fds) = none :=
      ⟨target_free s, h.chained.unopened _ (look_firstFree _)⟩
    have hcome : Sessions (Function.update s.target (firstFree s.fds) (some (m, id)))
        (Function.update s.origin (firstFree s.fds) (some { number := s.calls, mount := m, dir := dir }))
        (s.driven m (.devfs lhandles') events).dev (fun r => s.isDevfs r.1 = true) (isChar s.devs) (s.calls + 1)
        (s.log ++ events) := by
      refine h.sessions.come hunused rfl (fun r hr => ?_) (fun _ fd => h.held_ne hm hfree fd) (fun _ => ?_) ?_
      · rw [dev_driven hm]
        split
        · next hrm =>
          obtain ⟨k, i⟩ := r
          cases hrm
          have hi : i ≠ id := fun heq => hr (by rw [heq])
          rw [dev_of hm, hlook, if_neg hi]
        · rfl
      · refine ⟨handle, ?_, hrefs, hnumber.symm, ?_⟩
        · rw [dev_driven hm, if_pos rfl, hlook, if_pos rfl]
        · rcases hwhat with ⟨hdir, hchar, rfl⟩ | ⟨hdir, hzero, -⟩
          · exact .inl ⟨hdir, List.mem_append_right _ (List.mem_singleton.mpr rfl), hchar⟩
          · exact .inr ⟨hdir, hzero⟩
      · rcases hwhat with ⟨hdir, -, rfl⟩ | ⟨-, -, rfl⟩
        · exact .inr ⟨_, _, rfl, hnumber, hdir, isDevfs_of hm⟩
        · exact .inl (List.append_nil _)
    have hkind := isDevfs_driven hm lhandles' events
    have htarget := hdriven.target_attach { mount := m, ifd := id } ops
      (some { number := s.calls, mount := m, dir := dir })
    rw [← hkind] at hcome
    rw [htarget]
    exact hcome

theorem DevKept.driven_iso {s : FsState} (h : DevKept s) {m : Nat} {data : IsoPrivate}
    (hm : s.mounts[m]? = some (.iso9660 data)) (data' : IsoPrivate) :
    DevKept { s.driven m (.iso9660 data') [] with calls := s.calls + 1 } := by
  refine ⟨h.chained.congr rfl rfl rfl List.length_set, h.quiet_driven hm (fun _ heq => ?_) [], ?_⟩
  · cases heq
  · have hgrow := h.sessions.grow (fun _ _ _ _ => rfl) (fun _ hc => hc) (Nat.le_succ s.calls)
    have hdev := dev_driven_iso hm data' []
    have hkind := isDevfs_driven_iso hm data' []
    have hlog : (s.driven m (.iso9660 data') []).log = s.log := List.append_nil _
    rw [← hkind, ← hlog, ← hdev] at hgrow
    exact hgrow

theorem DevKept.opened_iso {s : FsState} (h : DevKept s) {m : Nat} {data : IsoPrivate}
    (hm : s.mounts[m]? = some (.iso9660 data)) (data' : IsoPrivate) (id : Nat) {dir : Bool} (ops : FileOp → Bool)
    (hops : ops = if dir = true then fsOpendirOps else fsOpenOps) :
    DevKept ({ s.driven m (.iso9660 data') [] with calls := s.calls + 1 }.attach { mount := m, ifd := id } ops
      (some { number := s.calls, mount := m, dir := dir })) := by
  have hdriven := (h.driven_iso hm data').chained
  have hlt : m < (s.mounts.set m (.iso9660 data')).length := by
    rw [List.length_set]
    exact (List.getElem?_eq_some_iff.mp hm).1
  refine ⟨hdriven.attach rfl hlt hops, (h.driven_iso hm data').quiet, ?_⟩
  have hunused : s.target (firstFree s.fds) = none ∧ s.origin (firstFree s.fds) = none :=
    ⟨target_free s, h.chained.unopened _ (look_firstFree _)⟩
  have hnot : ¬ s.isDevfs m = true := isDevfs_iso hm
  have hcome : Sessions (Function.update s.target (firstFree s.fds) (some (m, id)))
      (Function.update s.origin (firstFree s.fds) (some { number := s.calls, mount := m, dir := dir }))
      s.dev (fun r => s.isDevfs r.1 = true) (isChar s.devs) (s.calls + 1) s.log :=
    h.sessions.come hunused rfl (fun _ _ => rfl) (fun hk => absurd hk hnot) (fun hk => absurd hk hnot) (.inl rfl)
  have hdev := dev_driven_iso hm data' []
  have hkind := isDevfs_driven_iso hm data' []
  have hlog : (s.driven m (.iso9660 data') []).log = s.log := List.append_nil _
  have htarget := hdriven.target_attach { mount := m, ifd := id } ops
    (some { number := s.calls, mount := m, dir := dir })
  rw [← hkind, ← hlog, ← hdev] at hcome
  rw [htarget]
  exact hcome

theorem DevKept.finish {s : FsState} (h : DevKept s) {m : Nat} {mount : Mount}
    {out : Except Int Nat × Mount × List DevEvent} {dir : Bool} (hm : s.mounts[m]? = some mount)
    (hout : Opens s mount out dir) :
    DevKept (s.finish m (if dir = true then fsOpendirOps else fsOpenOps) dir out).2 := by
  cases mount with
  | devfs lhandles =>
    rcases hout.devfs_cases (h.quiet m lhandles hm) with ⟨e, lhandles', rfl, hquiet, hlook⟩ |
      ⟨id, lhandles', handle, events, rfl, hadded, hnumber, hrefs, hwhat⟩
    · exact h.failed hm hquiet hlook
    · exact h.opened hm hadded hnumber hrefs hwhat _ rfl
  | iso9660 data =>
    obtain ⟨ret, data', rfl⟩ := hout.iso_cases
    cases ret with
    | error e => exact h.driven_iso hm data'
    | ok id => exact h.opened_iso hm data' id _ rfl

theorem dev_changed {s : FsState} {m id : Nat} {lhandles lhandles' : Rc.Array DevLhandle} {new : Option DevLhandle}
    (hm : s.mounts[m]? = some (.devfs lhandles)) (hchanged : Changed lhandles lhandles' id new)
    (events : List DevEvent) :
    (s.driven m (.devfs lhandles') events).dev (m, id) = new ∧
    ∀ r, r ≠ (m, id) → (s.driven m (.devfs lhandles') events).dev r = s.dev r := by
  constructor
  · rw [dev_driven hm, if_pos rfl, hchanged.2, if_pos rfl]
  · intro r hr
    rw [dev_driven hm]
    split
    · next hrm =>
      obtain ⟨k, i⟩ := r
      cases hrm
      have hi : i ≠ id := fun heq => hr (by rw [heq])
      rw [dev_of hm, hchanged.2, if_neg hi]
    · rfl

theorem DevKept.dup {s : FsState} (h : DevKept s) {fd : Nat} {d : FileDescriptor} {handle : FsHandle} {o : Origin}
    {lhandles : Rc.Array DevLhandle} {lhandle : DevLhandle} (hl : Leads s fd d handle o)
    (hm : s.mounts[handle.mount]? = some (.devfs lhandles)) (hfound : look lhandles handle.ifd = some lhandle) :
    DevKept ((s.driven handle.mount (.devfs (devfsDup lhandles handle.ifd).2) []).attach handle d.ops (some o)) := by
  have hspec := devfsDup_spec (h.quiet _ _ hm) hfound
  obtain ⟨hnew, hother⟩ := dev_changed hm hspec []
  have hdriven := h.chained.driven handle.mount (.devfs (devfsDup lhandles handle.ifd).2) []
  have hlt : handle.mount < (s.mounts.set handle.mount (.devfs (devfsDup lhandles handle.ifd).2)).length := by
    rw [List.length_set]
    exact hl.mounted
  refine ⟨hdriven.attach hl.same hlt hl.ops, h.quiet_driven hm (fun _ heq => ?_) [], ?_⟩
  · cases heq
    exact hspec.1
  · have hunused : s.target (firstFree s.fds) = none ∧ s.origin (firstFree s.fds) = none :=
      ⟨target_free s, h.chained.unopened _ (look_firstFree _)⟩
    have hdup := h.sessions.dup hunused ⟨hl.target, hl.origin⟩ (isDevfs_of hm) ((dev_of hm _).trans hfound) hnew hother
    have hkind := isDevfs_driven hm (devfsDup lhandles handle.ifd).2 []
    have hlog : (s.driven handle.mount (.devfs (devfsDup lhandles handle.ifd).2) []).log = s.log := List.append_nil _
    rw [← hkind, ← hlog] at hdup
    rw [hdriven.target_attach]
    exact hdup

theorem DevKept.close_devfs {s : FsState} (h : DevKept s) {fd : Nat} {d : FileDescriptor} {handle : FsHandle}
    {o : Origin} {lhandles lhandles' : Rc.Array DevLhandle} {new : Option DevLhandle} {events : List DevEvent}
    (hl : Leads s fd d handle o) (hm : s.mounts[handle.mount]? = some (.devfs lhandles))
    (hchanged : Changed lhandles lhandles' handle.ifd new)
    (hsessions : Sessions (Function.update s.target fd none) (Function.update s.origin fd none)
      (s.driven handle.mount (.devfs lhandles') events).dev (fun r => s.isDevfs r.1 = true) (isChar s.devs) s.calls
      (s.log ++ events)) :
    DevKept ((s.detach fd d).driven handle.mount (.devfs lhandles') events) := by
  refine ⟨(h.chained.detach hl).driven _ _ _, h.quiet_driven hm (fun _ heq => ?_) events, ?_⟩
  · cases heq
    exact hchanged.1
  · have hkind := isDevfs_driven hm lhandles' events
    rw [← hkind, ← h.chained.target_detach hl] at hsessions
    exact hsessions

/-- `fd_close` on an `iso9660` mount: no session has the number of the descriptor. -/
theorem DevKept.close_iso {s : FsState} (h : DevKept s) {fd : Nat} {d : FileDescriptor} {handle : FsHandle} {o : Origin}
    {data : IsoPrivate} (hl : Leads s fd d handle o) (hm : s.mounts[handle.mount]? = some (.iso9660 data)) :
    DevKept ((s.detach fd d).driven handle.mount (.iso9660 (isoClose data handle.ifd).2) []) := by
  have hhere : s.target fd = some (handle.mount, handle.ifd) ∧ s.origin fd = some o := ⟨hl.target, hl.origin⟩
  have hnot : ¬ s.isDevfs handle.mount = true := isDevfs_iso hm
  have hdev := dev_driven_iso hm (isoClose data handle.ifd).2 []
  have hkind := isDevfs_driven_iso hm (isoClose data handle.ifd).2 []
  refine ⟨(h.chained.detach hl).driven _ _ _, h.quiet_driven hm (fun _ heq => ?_) [], ?_⟩
  · cases heq
  · have hleave : Sessions (Function.update s.target fd none) (Function.update s.origin fd none) s.dev
        (fun r => s.isDevfs r.1 = true) (isChar s.devs) s.calls s.log := by
      refine h.sessions.leave hhere (fun _ _ => rfl) (fun hk => absurd hk hnot) (.inl ⟨rfl, fun id dfd hin heq => ?_⟩)
      obtain ⟨-, r, hr, hk⟩ := (h.sessions.event id dfd hin).2 fd o hl.origin heq
      rw [hl.target] at hr
      cases hr
      exact absurd hk hnot
    have hlog : (s.driven handle.mount (.iso9660 (isoClose data handle.ifd).2) []).log = s.log := List.append_nil _
    rw [← hkind, ← hlog, ← hdev, ← h.chained.target_detach hl] at hleave
    exact hleave

theorem DevKept.close {s : FsState} (h : DevKept s) {fd : Nat} {d : FileDescriptor} {handle : FsHandle} {o : Origin}
    {mount : Mount} (hl : Leads s fd d handle o) (hm : s.mounts[handle.mount]? = some mount)
    (hsafe : o.dir = true → s.isDevfs o.mount = true → isChar s.devs 0 = false) :
    DevKept ((s.detach fd d).driven handle.mount (mount.close s.devs handle.ifd).2.1
      (mount.close s.devs handle.ifd).2.2) := by
  have hhere : s.target fd = some (handle.mount, handle.ifd) ∧ s.origin fd = some o := ⟨hl.target, hl.origin⟩
  cases mount with
  | iso9660 data => exact h.close_iso hl hm
  | devfs lhandles =>
    have hk : s.isDevfs handle.mount = true := isDevfs_of hm
    obtain ⟨lhandle, o', hlhandle, ho', hknown⟩ := h.sessions.entry fd _ hl.target hk
    rw [hl.origin] at ho'
    cases ho'
    have hfound : look lhandles handle.ifd = some lhandle := (dev_of hm _).symm.trans hlhandle
    have hlast := h.sessions.shared.last (r := (handle.mount, handle.ifd)) hk hl.target
    rw [refsOf_some hlhandle] at hlast
    rcases devfsClose_spec (h.quiet _ _ hm) s.devs hfound with ⟨hmore, lhandles', heq, hchanged⟩ |
      ⟨hone, ret, lhandles', heq, hchanged⟩
    · -- Others lead to the handle.
      obtain ⟨hnew, hother⟩ := dev_changed hm hchanged []
      have hothers : ∃ y, y ≠ fd ∧ s.target y = some (handle.mount, handle.ifd) := by
        by_contra hnone
        have hle := hlast.mpr (fun y hy => Classical.not_not.mp (fun hne => hnone ⟨y, hne, hy⟩))
        omega
      simp only [Mount.close, heq]
      refine h.close_devfs hl hm hchanged (h.sessions.leave hhere hother ?_ ?_)
      · exact fun _ _ => ⟨lhandle, hlhandle, hnew⟩
      · exact .inl ⟨List.append_nil _, fun _ _ _ _ => hothers⟩
    · have halone := hlast.mp hone
      have hnobody : ¬ ∃ y, y ≠ fd ∧ s.target y = some (handle.mount, handle.ifd) := fun ⟨y, hne, hy⟩ => hne (halone y hy)
      obtain ⟨-, hother⟩ := dev_changed hm hchanged
        (if isChar s.devs lhandle.id = true then [.closed lhandle.id lhandle.devFd] else [])
      simp only [Mount.close, heq]
      refine h.close_devfs hl hm hchanged (h.sessions.leave hhere hother (fun _ hy => absurd hy hnobody) ?_)
      obtain ⟨hnum, ⟨hfile, hin, hchar⟩ | ⟨hdir, hzero⟩⟩ := hknown
      · rw [if_pos hchar]
        exact .inr ⟨lhandle, hlhandle, hk, hfile, halone, rfl⟩
      · -- A directory: the device with the id 0 is not asked to close.
        have hchar : ¬ isChar s.devs lhandle.id = true := by
          rw [hzero, hsafe hdir (by rw [hl.same]; exact hk)]
          exact Bool.false_ne_true
        rw [if_neg hchar]
        refine .inl ⟨List.append_nil _, fun id dfd hin heq => ?_⟩
        obtain ⟨hfile, -⟩ := (h.sessions.event id dfd hin).2 fd o hl.origin heq
        rw [hdir] at hfile
        cases hfile

theorem DevKept.step {l : FsLabel} {s s' : FsState} (hc : dirClosesNoDevice l s) (hs : fsStep l s = some s')
    (h : DevKept s) : DevKept s' := by
  cases h.chained.call hs with
  | same => exact h
  | registered dev => exact h.registered dev
  | opened l m mount out dir hm hout => exact h.finish hm hout
  | dup fd d handle o lhandles lhandle hl hm hdir hfound => exact h.dup hl hm hfound
  | close fd d handle o mount hl hm =>
    refine h.close hl hm (fun hdir hdevfs => ?_)
    simp only [dirClosesNoDevice, FsState.isDevfsDir, hl.origin, hdir, hdevfs, Bool.and_self, Bool.true_and] at hc
    exact hc

/-! ## Every run -/

/-- In every run in which no directory is closed while the device with the id 0 is
a character device: whatever device is closed was opened with the same `dev_fd_t`
before and not closed since; and it is closed exactly when no descriptor that is
open comes from that opening. -/
theorem devfs_closed_once {mounts : List Mount} {devs : List Device} {tr : List FsLabel} {s : FsState}
    (hfresh : ∀ mount ∈ mounts, mount.Fresh) (hr : Run fsStep dirClosesNoDevice (fsStart mounts devs) tr s) :
    (∀ pre id dfd post, s.log = pre ++ .closed id dfd :: post → .opened id dfd ∈ pre ∧ .closed id dfd ∉ pre) ∧
    ∀ id dfd, .opened id dfd ∈ s.log →
      (.closed id dfd ∈ s.log ↔ ∀ fd o, s.origin fd = some o → o.number ≠ dfd.number) := by
  have hkept : DevKept s := hr.invariant (fun _ _ _ hc hs h => h.step hc hs) (devKept_start hfresh devs)
  exact ⟨hkept.sessions.paired, hkept.sessions.last⟩

/-- The second device is opened and duplicated; the directory is listed in between,
while the first device is a disk. -/
def dupTrace : List FsLabel :=
  [.fsOpen 0 (cstr "/null") noUnset { ret := 0, data := 5 }, .fdDup 0, .fdClose 0, .fsOpendir 0 (cstr "/") noUnset,
    .fdClose 0, .fdClose 1]

/-- The duplicate keeps the device open. -/
theorem devfs_closed_once_dup : ∃ s, Run fsStep dirClosesNoDevice
      (fsStart [.devfs []] [{ name := cstr "sda", type := .block }, { name := cstr "null", type := .char }]) dupTrace s ∧
    s.log = [.opened 1 { number := 0, data := 5 }, .closed 1 { number := 0, data := 5 }] ∧
    ∀ fd o, s.origin fd = some o → o.number ≠ 0 := by
  have hrun : ∃ s, Run fsStep dirClosesNoDevice
        (fsStart [.devfs []] [{ name := cstr "sda", type := .block }, { name := cstr "null", type := .char }]) dupTrace s ∧
      s.log = [.opened 1 { number := 0, data := 5 }, .closed 1 { number := 0, data := 5 }] :=
    run_such (by decide +kernel)
  obtain ⟨s, hr, hlog⟩ := hrun
  have hfresh : ∀ mount ∈ [Mount.devfs []], mount.Fresh := by
    intro mount hmount
    rw [List.mem_singleton.mp hmount]
    rfl
  obtain ⟨-, hlast⟩ := devfs_closed_once hfresh hr
  refine ⟨s, hr, hlog, (hlast 1 { number := 0, data := 5 } ?_).mp ?_⟩
  · rw [hlog]
    decide
  · rw [hlog]
    decide

/-- A character device has the id 0. The directory is opened and closed, and the
device is asked to close a `dev_fd_t` it has never seen. -/
theorem devfs_dir_closes_device : ∃ s, Run fsStep anyStep
      (fsStart [.devfs []] [{ name := cstr "null", type := .char }])
      [.fsOpendir 0 (cstr "/") noUnset, .fdClose 0] s ∧
    ¬ ∀ pre id dfd post, s.log = pre ++ .closed id dfd :: post → .opened id dfd ∈ pre ∧ .closed id dfd ∉ pre := by
  have hrun : ∃ s, Run fsStep anyStep (fsStart [.devfs []] [{ name := cstr "null", type := .char }])
        [.fsOpendir 0 (cstr "/") noUnset, .fdClose 0] s ∧ s.log = [.closed 0 { number := 0, data := 0 }] :=
    run_such (by decide +kernel)
  obtain ⟨s, hr, hlog⟩ := hrun
  refine ⟨s, hr, fun hall => ?_⟩
  have hopened := (hall [] 0 { number := 0, data := 0 } [] hlog).1
  cases hopened

end Aex.Fs
