import AexKernel.Exec.Elf
import AexKernel.Fs.DevfsOnce

/- The counts of the handles of a `devfs` mount, over every run of the filesystem
   layer.

   The count of a handle some descriptor leads to is the number of descriptors that
   do. Unlike what the devices are told, that needs no condition on the run. The
   calls of a run are those of `Layer.lean`, and reads and seeks, which move the
   position of a handle only. -/
namespace Aex.Fs
open Runs Rc Sharing Exec

/-! ## The counts -/

/-- Every handle of a kind that is held is there, with the number of its holders. -/
structure Backed (hold : Nat → Option (Nat × Nat)) (dev : Nat × Nat → Option DevLhandle) (kind : Nat × Nat → Prop) :
    Prop where
  shared : Shared kind hold (refsOf dev)
  entry : ∀ fd r, hold fd = some r → kind r → ∃ handle, dev r = some handle

section Backed
variable {hold : Nat → Option (Nat × Nat)} {dev dev' : Nat × Nat → Option DevLhandle} {kind : Nat × Nat → Prop}
  {fd : Nat} {r : Nat × Nat}

theorem Backed.pos (h : Backed hold dev kind) (hfd : hold fd = some r) (hk : kind r) {handle : DevLhandle}
    (hr : dev r = some handle) : 1 ≤ handle.refs := by
  have hcount := h.shared.count fd r hk hfd
  rw [refsOf_some hr] at hcount
  have hpos : 0 < {y | hold y = some r}.ncard := (Set.ncard_pos (h.shared.holders_finite r)).mpr ⟨fd, hfd⟩
  omega

theorem Backed.grow (h : Backed hold dev kind)
    (hdev : ∀ fd r handle, hold fd = some r → kind r → dev r = some handle →
      ∃ handle', dev' r = some handle' ∧ handle'.refs = handle.refs) : Backed hold dev' kind := by
  refine ⟨⟨h.shared.finite, ?_⟩, ?_⟩
  · intro fd r hk hfd
    obtain ⟨handle, hr⟩ := h.entry fd r hfd hk
    obtain ⟨handle', hr', hrefs⟩ := hdev fd r handle hfd hk hr
    rw [refsOf_some hr', hrefs, ← refsOf_some hr]
    exact h.shared.count fd r hk hfd
  · intro fd r hfd hk
    obtain ⟨handle, hr⟩ := h.entry fd r hfd hk
    obtain ⟨handle', hr', -⟩ := hdev fd r handle hfd hk hr
    exact ⟨handle', hr'⟩

theorem Backed.come (h : Backed hold dev kind) (hfd : hold fd = none) (hdev : ∀ r', r' ≠ r → dev' r' = dev r')
    (hfree : kind r → ∀ y, hold y ≠ some r) (hnew : kind r → ∃ handle, dev' r = some handle ∧ handle.refs = 1) :
    Backed (Function.update hold fd (some r)) dev' kind := by
  refine ⟨?_, ?_⟩
  · refine h.shared.first hfd hfree (fun hk => ?_) (fun r' hr' _ => refsOf_congr (hdev r' hr'))
    obtain ⟨handle, hhandle, hrefs⟩ := hnew hk
    rw [refsOf_some hhandle, hrefs]
  · intro fd' r' hfd' hk
    by_cases hr' : r' = r
    · subst hr'
      obtain ⟨handle, hhandle, -⟩ := hnew hk
      exact ⟨handle, hhandle⟩
    · have hne : fd' ≠ fd := by
        rintro rfl
        rw [Function.update_self] at hfd'
        exact hr' (Option.some.inj hfd').symm
      rw [Function.update_of_ne hne] at hfd'
      rw [hdev r' hr']
      exact h.entry fd' r' hfd' hk

theorem Backed.join (h : Backed hold dev kind) {fd' : Nat} (hfd : hold fd = none) (hfd' : hold fd' = some r)
    {handle : DevLhandle} (hr : dev r = some handle) (hnew : dev' r = some { handle with refs := handle.refs + 1 })
    (hdev : ∀ r', r' ≠ r → dev' r' = dev r') : Backed (Function.update hold fd (some r)) dev' kind := by
  refine ⟨?_, ?_⟩
  · refine h.shared.join hfd hfd' ?_ (fun r' hr' _ => refsOf_congr (hdev r' hr'))
    rw [refsOf_some hnew, refsOf_some hr]
  · intro x r' hx hk
    by_cases hr' : r' = r
    · subst hr'
      exact ⟨_, hnew⟩
    · have hne : x ≠ fd := by
        rintro rfl
        rw [Function.update_self] at hx
        exact hr' (Option.some.inj hx).symm
      rw [Function.update_of_ne hne] at hx
      rw [hdev r' hr']
      exact h.entry x r' hx hk

/-- A descriptor leaves; if others lead to its handle, the count goes down. -/
theorem Backed.leave (h : Backed hold dev kind) (hfd : hold fd = some r) (hdev : ∀ r', r' ≠ r → dev' r' = dev r')
    (hnew : kind r → (∃ y, y ≠ fd ∧ hold y = some r) →
      ∃ handle, dev r = some handle ∧ dev' r = some { handle with refs := handle.refs - 1 }) :
    Backed (Function.update hold fd none) dev' kind := by
  refine ⟨?_, ?_⟩
  · refine h.shared.leave hfd (fun hk hothers => ?_) (fun r' hr' _ => refsOf_congr (hdev r' hr'))
    obtain ⟨handle, hr, hr'⟩ := hnew hk hothers
    rw [refsOf_some hr, refsOf_some hr']
  · intro x r' hx hk
    have hne : x ≠ fd := by
      rintro rfl
      rw [Function.update_self] at hx
      cases hx
    rw [Function.update_of_ne hne] at hx
    by_cases hr' : r' = r
    · subst hr'
      obtain ⟨handle, -, hr⟩ := hnew hk ⟨x, hne, hx⟩
      exact ⟨_, hr⟩
    · rw [hdev r' hr']
      exact h.entry x r' hx hk

end Backed

/-! ## The tables of the drivers -/

/-- Nobody is in a call on the mount. -/
def Mount.Quiet : Mount → Prop
  | .devfs lhandles => Rc.Quiet lhandles
  | .iso9660 data => Rc.Quiet data.lhandles

/-- The handles of a mount are held through descriptors only as often as they say,
and nobody is in a call. -/
structure Calm (s : FsState) : Prop where
  chained : Chained s
  quiet : ∀ (m : Nat) (mount : Mount), s.mounts[m]? = some mount → mount.Quiet

theorem Calm.driven {s : FsState} (h : Calm s) {m : Nat} {mount mount' : Mount} (hm : s.mounts[m]? = some mount)
    (hquiet : mount'.Quiet) (events : List DevEvent) : Calm (s.driven m mount' events) := by
  refine ⟨h.chained.driven m mount' events, ?_⟩
  intro k mount'' hk
  rw [mount_driven hm] at hk
  split at hk
  · cases hk
    exact hquiet
  · exact h.quiet k mount'' hk

theorem Leads.driven {s : FsState} {fd : Nat} {d : FileDescriptor} {handle : FsHandle} {o : Origin}
    (hl : Leads s fd d handle o) (m : Nat) (mount : Mount) (events : List DevEvent) :
    Leads (s.driven m mount events) fd d handle o where
  descriptor := hl.descriptor
  found := hl.found
  origin := hl.origin
  same := hl.same
  mounted := by
    show handle.mount < (s.mounts.set m mount).length
    rw [List.length_set]
    exact hl.mounted
  ops := hl.ops

theorem isoClose_changed {data : IsoPrivate} (h : Rc.Quiet data.lhandles) {ifd : Nat} {handle : IsoLhandle}
    (hfound : look data.lhandles ifd = some handle) :
    Rc.Quiet (isoClose data ifd).2.lhandles ∧ ∀ j, look (isoClose data ifd).2.lhandles j = if j = ifd then
      (if handle.refs - 1 = 0 then none else some { handle with refs := handle.refs - 1 })
      else look data.lhandles j := by
  have hgot := arrayGet_slot (h.slot_of_look hfound) rfl
  have hwrite := h.get_write hfound { handle with refs := handle.refs - 1 }
  have hremove := h.get_write_remove hfound { handle with refs := handle.refs - 1 }
  rw [hgot] at hwrite hremove
  simp only [Entry.resting] at hgot hwrite hremove
  unfold isoClose
  simp only [hgot]
  split
  · rw [hremove]
    exact ⟨h.set hfound (.inl rfl), look_clear hfound⟩
  · rw [hwrite]
    exact ⟨h.set hfound (.inr ⟨_, rfl⟩), look_write hfound _⟩

theorem isoClose_unopened {data : IsoPrivate} {ifd : Nat} (hnone : look data.lhandles ifd = none) :
    isoClose data ifd = (-ebadf, data) := by
  have hgot : (arrayGet data.lhandles ifd).1 = none := hnone
  unfold isoClose
  split
  · rfl
  · next heq =>
    rw [heq] at hgot
    cases hgot

theorem devfsClose_unopened (devs : List Device) {lhandles : Rc.Array DevLhandle} {ifd : Nat}
    (hnone : look lhandles ifd = none) : devfsClose devs lhandles ifd = (-ebadf, lhandles, []) := by
  have hgot : (arrayGet lhandles ifd).1 = none := hnone
  unfold devfsClose
  split
  · rfl
  · next heq =>
    rw [heq] at hgot
    cases hgot

theorem Mount.Quiet.close {mount : Mount} (h : mount.Quiet) (devs : List Device) (ifd : Nat) :
    (mount.close devs ifd).2.1.Quiet := by
  cases mount with
  | devfs lhandles =>
    have h : Rc.Quiet lhandles := h
    cases hfound : look lhandles ifd with
    | none =>
      simp only [Mount.close, devfsClose_unopened devs hfound]
      exact h
    | some handle =>
      rcases devfsClose_spec h devs hfound with ⟨-, lhandles', heq, hchanged⟩ | ⟨-, ret, lhandles', heq, hchanged⟩
      · simp only [Mount.close, heq]
        exact hchanged.1
      · simp only [Mount.close, heq]
        exact hchanged.1
  | iso9660 data =>
    have h : Rc.Quiet data.lhandles := h
    cases hfound : look data.lhandles ifd with
    | none =>
      simp only [Mount.close, isoClose_unopened hfound]
      exact h
    | some handle => exact (isoClose_changed h hfound).1

theorem isoOpen_cases {data : IsoPrivate} {path : CStr} {unset : IsoUnset} {out : Except Int Nat × IsoPrivate}
    (h : isoOpen data path unset = some out) :
    (∃ e, out = (.error e, data)) ∨ ∃ found, out = data.add (isoFileHandle found) := by
  obtain ⟨ret, -, rfl⟩ := Option.map_eq_some_iff.mp h
  cases ret with
  | error e => exact .inl ⟨e, rfl⟩
  | ok found =>
    simp only
    split
    · exact .inl ⟨_, rfl⟩
    · exact .inr ⟨found, rfl⟩

theorem isoOpendir_cases {data : IsoPrivate} {path : CStr} {unset : IsoUnset} {out : Except Int Nat × IsoPrivate}
    (h : isoOpendir data path unset = some out) :
    (∃ e, out = (.error e, data)) ∨ ∃ found, out = data.add (isoDirHandle data.disc unset found) := by
  obtain ⟨ret, -, rfl⟩ := Option.map_eq_some_iff.mp h
  cases ret with
  | error e => exact .inl ⟨e, rfl⟩
  | ok found =>
    simp only
    split
    · exact .inl ⟨_, rfl⟩
    · exact .inr ⟨found, rfl⟩

/-- Behind `fs_open` and `fs_opendir` the table of the driver is quiet again. -/
theorem Opens.quiet {s : FsState} {mount : Mount} {out : Except Int Nat × Mount × List DevEvent} {dir : Bool}
    (hout : Opens s mount out dir) (h : mount.Quiet) : out.2.1.Quiet := by
  cases mount with
  | devfs lhandles =>
    rcases hout.devfs_cases h with ⟨e, lhandles', rfl, hquiet, -⟩ | ⟨id, lhandles', handle, events, rfl, hadded, -⟩
    · exact hquiet
    · exact hadded.1
  | iso9660 data =>
    have h : Rc.Quiet data.lhandles := h
    cases hout with
    | file path unset answer hopen =>
      obtain ⟨o, ho, rfl⟩ := Option.map_eq_some_iff.mp hopen
      rcases isoOpen_cases ho with ⟨e, rfl⟩ | ⟨found, rfl⟩
      · exact h
      · exact h.add _
    | dir path unset hopen =>
      obtain ⟨o, ho, rfl⟩ := Option.map_eq_some_iff.mp hopen
      rcases isoOpendir_cases ho with ⟨e, rfl⟩ | ⟨found, rfl⟩
      · exact h
      · exact h.add _

theorem Calm.step {s s' : FsState} (h : Calm s) {l : FsLabel} (hs : fsStep l s = some s') : Calm s' := by
  refine ⟨h.chained.step hs, ?_⟩
  cases h.chained.call hs with
  | same => exact h.quiet
  | registered dev => exact h.quiet
  | opened l m mount out dir hm hout =>
    have hdriven := (h.driven hm (hout.quiet (h.quiet m mount hm)) out.2.2).quiet
    unfold FsState.finish
    split
    · exact hdriven
    · exact hdriven
  | dup fd d handle o lhandles lhandle hl hm hdir hfound =>
    have hquiet : Rc.Quiet lhandles := h.quiet _ _ hm
    have hdup : (Mount.devfs (devfsDup lhandles handle.ifd).2).Quiet := (devfsDup_spec hquiet hfound).1
    exact (h.driven hm hdup []).quiet
  | close fd d handle o mount hl hm =>
    exact (h.driven hm ((h.quiet _ _ hm).close s.devs handle.ifd) []).quiet

/-! ## Reads and seeks -/

/-- At most the position of one handle has moved. -/
inductive Moved (ifd : Nat) : Mount → Mount → Prop
  | same (mount : Mount) : Moved ifd mount mount
  | pos (data data' : IsoPrivate) (handle : IsoLhandle) (pos : Nat) (hfound : look data.lhandles ifd = some handle)
      (hquiet : Rc.Quiet data'.lhandles)
      (hlook : ∀ j, look data'.lhandles j = if j = ifd then some { handle with pos := pos } else look data.lhandles j) :
      Moved ifd (.iso9660 data) (.iso9660 data')

theorem Moved.quiet {ifd : Nat} {mount mount' : Mount} (hmoved : Moved ifd mount mount') (h : mount.Quiet) :
    mount'.Quiet := by
  cases hmoved with
  | same => exact h
  | pos data data' handle pos hfound hquiet hlook => exact hquiet

theorem isoMove_moved {data : IsoPrivate} (h : Rc.Quiet data.lhandles) (ifd : Nat) (move : IsoLhandle → Nat) :
    Moved ifd (.iso9660 data) (.iso9660 (isoMove data ifd move)) := by
  cases hfound : look data.lhandles ifd with
  | none =>
    have hgot : (arrayGet data.lhandles ifd).1 = none := hfound
    have hsame : isoMove data ifd move = data := by
      unfold isoMove
      split
      · rfl
      · next heq =>
        rw [heq] at hgot
        cases hgot
    rw [hsame]
    exact .same _
  | some handle =>
    have hgot := arrayGet_slot (h.slot_of_look hfound) rfl
    have hunref := h.get_unref hfound
    have hwrite := h.get_write hfound { handle with pos := move handle }
    rw [hgot] at hunref hwrite
    simp only [Entry.resting] at hgot hunref hwrite
    unfold isoMove
    simp only [hgot]
    split
    · rw [hunref]
      exact .same _
    · refine .pos data _ handle (move handle) hfound ?_ ?_
      · rw [hwrite]
        exact h.set hfound (.inr ⟨_, rfl⟩)
      · rw [hwrite]
        exact look_write hfound _

theorem quiet_get_unref {α : Type} {a : Rc.Array α} (h : Rc.Quiet a) (id : Nat) :
    arrayUnref (arrayGet a id).2 id = a := by
  cases hv : look a id with
  | some v => exact h.get_unref hv
  | none =>
    have hs : slot a id = none := by
      cases hs : slot a id with
      | none => rfl
      | some e =>
        have hlook := look_some.mpr ⟨e, hs, (h id e hs).2, rfl⟩
        rw [hv] at hlook
        cases hlook
    simp only [arrayGet, hs, arrayUnref]

theorem mountRead_moved {mount : Mount} (h : mount.Quiet) (ifd len : Nat) : Moved ifd mount (mountRead mount ifd len) := by
  cases mount with
  | devfs lhandles =>
    have hsame := quiet_get_unref (a := lhandles) h ifd
    simp only [mountRead, hsame]
    exact .same _
  | iso9660 data => exact isoMove_moved h ifd _

theorem mountSeek_moved {mount : Mount} (h : mount.Quiet) (ifd : Nat) (offset : Int) :
    Moved ifd mount (mountSeek mount ifd offset) := by
  cases mount with
  | devfs lhandles => exact .same _
  | iso9660 data => exact isoMove_moved h ifd _

theorem Chained.fdOn_eq {s : FsState} (h : Chained s) {fd : Nat} {d : FileDescriptor} {handle : FsHandle}
    {o : Origin} (hl : Leads s fd d handle o) {mount : Mount} (hm : s.mounts[handle.mount]? = some mount)
    {op : FileOp} (hop : d.ops op = true) (drive : Mount → Nat → Mount) :
    fdOn s op fd drive = some (s.driven handle.mount (drive mount handle.ifd) []) := by
  have hgotFd := arrayGet_slot (h.fds.slot_of_look hl.descriptor) rfl
  have hgot := arrayGet_slot (h.handles.slot_of_look hl.found) rfl
  have hfds := h.fds.get_unref hl.descriptor
  have hhandles := h.handles.get_unref hl.found
  rw [hgotFd] at hfds
  rw [hgot] at hhandles
  simp only [Entry.resting] at hgotFd hgot hfds hhandles
  simp only [fdOn, hgotFd, hop, if_true, fsOn, hgot, hm, FsState.driven, List.append_nil, hhandles, hfds]

/-- `fd_read` or `fd_seek` moves at most the position of the descriptor's handle. -/
theorem Calm.fdOn_cases {s s' : FsState} (h : Calm s) {op : FileOp} (hop : op = .read ∨ op = .seek) {fd : Nat}
    {drive : Mount → Nat → Mount} (hdrive : ∀ mount ifd, mount.Quiet → Moved ifd mount (drive mount ifd))
    (hs : fdOn s op fd drive = some s') :
    s' = s ∨ ∃ d handle o mount mount', Leads s fd d handle o ∧ s.mounts[handle.mount]? = some mount ∧
      Moved handle.ifd mount mount' ∧ s' = s.driven handle.mount mount' [] := by
  cases hd : look s.fds fd with
  | none =>
    have hgot : (arrayGet s.fds fd).1 = none := hd
    unfold fdOn at hs
    split at hs
    · cases hs
      exact .inl rfl
    · next heq =>
      rw [heq] at hgot
      cases hgot
  | some d =>
    obtain ⟨handle, o, hl⟩ := h.chained.leads fd d hd
    obtain ⟨mount, hm⟩ := hl.mount
    have hops : d.ops op = true := by
      rw [hl.ops]
      rcases hop with rfl | rfl
      · split <;> rfl
      · split <;> rfl
    rw [h.chained.fdOn_eq hl hm hops] at hs
    cases hs
    exact .inr ⟨d, handle, o, mount, _, hl, hm, hdrive mount handle.ifd (h.quiet _ _ hm), rfl⟩

/-! ## Every run -/

/-- The counts of the handles of the `devfs` mounts are right. -/
structure Counts (s : FsState) : Prop where
  calm : Calm s
  backed : Backed s.target s.dev (fun r => s.isDevfs r.1 = true)

theorem counts_start {mounts : List Mount} (hfresh : ∀ mount ∈ mounts, mount.Fresh) (devs : List Device) :
    Counts (fsStart mounts devs) := by
  refine ⟨⟨chained_start mounts devs, ?_⟩, ⟨?_, ?_⟩, ?_⟩
  · intro m mount hm
    have hmount := hfresh mount (List.mem_of_getElem? hm)
    cases mount with
    | devfs lhandles =>
      have hnil : lhandles = [] := hmount
      subst hnil
      exact quiet_nil
    | iso9660 data =>
      have hnil : data.lhandles = [] := hmount
      show Rc.Quiet data.lhandles
      rw [hnil]
      exact quiet_nil
  · have hempty : {x | (fsStart mounts devs).target x ≠ none} = ∅ :=
      Set.eq_empty_iff_forall_notMem.mpr fun _ hx => hx rfl
    rw [hempty]
    exact Set.finite_empty
  · intro fd r _ hfd
    exact absurd hfd.symm (Option.some_ne_none _)
  · intro fd r hfd
    exact absurd hfd.symm (Option.some_ne_none _)

theorem Counts.held_ne {s : FsState} (h : Counts s) {m id : Nat} {lhandles : Rc.Array DevLhandle}
    (hm : s.mounts[m]? = some (.devfs lhandles)) (hfree : look lhandles id = none) (fd : Nat) :
    s.target fd ≠ some (m, id) := by
  intro hr
  obtain ⟨handle, hhandle⟩ := h.backed.entry fd (m, id) hr (isDevfs_of hm)
  rw [dev_of hm, hfree] at hhandle
  cases hhandle

theorem Counts.backed_failed {s : FsState} (h : Counts s) {m : Nat} {lhandles lhandles' : Rc.Array DevLhandle}
    (hm : s.mounts[m]? = some (.devfs lhandles)) (hlook : ∀ j v, look lhandles j = some v → look lhandles' j = some v)
    (events : List DevEvent) :
    Backed s.target (s.driven m (.devfs lhandles') events).dev (fun r => s.isDevfs r.1 = true) := by
  refine h.backed.grow ?_
  intro fd r handle _ _ hr
  refine ⟨handle, ?_, rfl⟩
  rw [dev_driven hm]
  split
  · next hrm =>
    obtain ⟨k, i⟩ := r
    cases hrm
    rw [dev_of hm] at hr
    exact hlook i handle hr
  · exact hr

theorem Counts.backed_opened {s : FsState} (h : Counts s) {m id : Nat} {lhandles lhandles' : Rc.Array DevLhandle}
    {handle : DevLhandle} (hm : s.mounts[m]? = some (.devfs lhandles)) (hadded : Added lhandles lhandles' id handle)
    (hrefs : handle.refs = 1) (events : List DevEvent) :
    Backed (Function.update s.target (firstFree s.fds) (some (m, id))) (s.driven m (.devfs lhandles') events).dev
      (fun r => s.isDevfs r.1 = true) := by
  obtain ⟨-, hfree, hlook⟩ := hadded
  refine h.backed.come (target_free s) (fun r hr => ?_) (fun _ fd => h.held_ne hm hfree fd) (fun _ => ?_)
  · rw [dev_driven hm]
    split
    · next hrm =>
      obtain ⟨k, i⟩ := r
      cases hrm
      have hi : i ≠ id := fun heq => hr (by rw [heq])
      rw [dev_of hm, hlook, if_neg hi]
    · rfl
  · refine ⟨handle, ?_, hrefs⟩
    rw [dev_driven hm, if_pos rfl, hlook, if_pos rfl]

/-- The state behind `fs_open` or `fs_opendir`, from what the driver has made of it. -/
theorem Counts.finished {s : FsState} (h : Counts s) {m : Nat}
    {out : Except Int Nat × Mount × List DevEvent} (ops : FileOp → Bool) (dir : Bool)
    (hcalm : Calm (s.finish m ops dir out).2) (hkind : (s.driven m out.2.1 out.2.2).isDevfs = s.isDevfs)
    (herror : ∀ e, out.1 = .error e → Backed s.target (s.driven m out.2.1 out.2.2).dev (fun r => s.isDevfs r.1 = true))
    (hok : ∀ id, out.1 = .ok id → Backed (Function.update s.target (firstFree s.fds) (some (m, id)))
      (s.driven m out.2.1 out.2.2).dev (fun r => s.isDevfs r.1 = true)) : Counts (s.finish m ops dir out).2 := by
  refine ⟨hcalm, ?_⟩
  have hdriven := h.calm.chained.driven m out.2.1 out.2.2
  have hnext : Chained { s.driven m out.2.1 out.2.2 with calls := s.calls + 1 } := hdriven.congr rfl rfl rfl rfl
  unfold FsState.finish
  rw [← hkind] at herror hok
  split
  · next e he => exact herror e he
  · next id he =>
    have htarget := hnext.target_attach { mount := m, ifd := id } ops
      (some { number := s.calls, mount := m, dir := dir })
    rw [htarget]
    exact hok id he

theorem Counts.finish {s : FsState} (h : Counts s) {m : Nat} {mount : Mount}
    {out : Except Int Nat × Mount × List DevEvent} {dir : Bool} (hm : s.mounts[m]? = some mount)
    (hout : Opens s mount out dir)
    (hcalm : Calm (s.finish m (if dir = true then fsOpendirOps else fsOpenOps) dir out).2) :
    Counts (s.finish m (if dir = true then fsOpendirOps else fsOpenOps) dir out).2 := by
  have hquiet := h.calm.quiet m mount hm
  cases mount with
  | devfs lhandles =>
    rcases hout.devfs_cases hquiet with ⟨e, lhandles', rfl, -, hlook⟩ |
      ⟨id, lhandles', handle, events, rfl, hadded, -, hrefs, -⟩
    · refine h.finished _ _ hcalm (isDevfs_driven hm _ _) (fun _ _ => h.backed_failed hm hlook []) ?_
      intro id heq
      cases heq
    · refine h.finished _ _ hcalm (isDevfs_driven hm _ _) ?_ ?_
      · intro e heq
        cases heq
      · intro id' heq
        cases heq
        exact h.backed_opened hm hadded hrefs events
  | iso9660 data =>
    obtain ⟨ret, data', rfl⟩ := hout.iso_cases
    have hdev := dev_driven_iso hm data' []
    have hnot : ¬ s.isDevfs m = true := isDevfs_iso hm
    refine h.finished _ _ hcalm (isDevfs_driven_iso hm _ _) ?_ ?_
    · intro e _
      rw [hdev]
      exact h.backed
    · intro id _
      rw [hdev]
      exact h.backed.come (target_free s) (fun _ _ => rfl) (fun hk => absurd hk hnot) (fun hk => absurd hk hnot)

theorem Counts.dup {s : FsState} (h : Counts s) {fd : Nat} {d : FileDescriptor} {handle : FsHandle} {o : Origin}
    {lhandles : Rc.Array DevLhandle} {lhandle : DevLhandle} (hl : Leads s fd d handle o)
    (hm : s.mounts[handle.mount]? = some (.devfs lhandles)) (hfound : look lhandles handle.ifd = some lhandle) :
    Backed ((s.driven handle.mount (.devfs (devfsDup lhandles handle.ifd).2) []).attach handle d.ops (some o)).target
      (s.driven handle.mount (.devfs (devfsDup lhandles handle.ifd).2) []).dev (fun r => s.isDevfs r.1 = true) := by
  have hspec := devfsDup_spec (h.calm.quiet _ _ hm) hfound
  obtain ⟨hnew, hother⟩ := dev_changed hm hspec []
  have hdriven := h.calm.chained.driven handle.mount (.devfs (devfsDup lhandles handle.ifd).2) []
  rw [hdriven.target_attach]
  exact h.backed.join (target_free s) hl.target ((dev_of hm _).trans hfound) hnew hother

theorem Counts.close {s : FsState} (h : Counts s) {fd : Nat} {d : FileDescriptor} {handle : FsHandle} {o : Origin}
    {mount : Mount} (hl : Leads s fd d handle o) (hm : s.mounts[handle.mount]? = some mount) :
    Backed (Function.update s.target fd none) (s.driven handle.mount (mount.close s.devs handle.ifd).2.1 []).dev
      (fun r => s.isDevfs r.1 = true) := by
  cases mount with
  | iso9660 data =>
    have hnot : ¬ s.isDevfs handle.mount = true := isDevfs_iso hm
    have hdev := dev_driven_iso hm (isoClose data handle.ifd).2 []
    show Backed _ (s.driven handle.mount (.iso9660 (isoClose data handle.ifd).2) []).dev _
    rw [hdev]
    exact h.backed.leave hl.target (fun _ _ => rfl) (fun hk => absurd hk hnot)
  | devfs lhandles =>
    have hk : s.isDevfs handle.mount = true := isDevfs_of hm
    obtain ⟨lhandle, hlhandle⟩ := h.backed.entry fd _ hl.target hk
    have hfound : look lhandles handle.ifd = some lhandle := (dev_of hm _).symm.trans hlhandle
    have hlast := h.backed.shared.last (r := (handle.mount, handle.ifd)) hk hl.target
    rw [refsOf_some hlhandle] at hlast
    rcases devfsClose_spec (h.calm.quiet _ _ hm) s.devs hfound with ⟨-, lhandles', heq, hchanged⟩ |
      ⟨hone, ret, lhandles', heq, hchanged⟩
    · obtain ⟨hnew, hother⟩ := dev_changed hm hchanged []
      simp only [Mount.close, heq]
      exact h.backed.leave hl.target hother (fun _ _ => ⟨lhandle, hlhandle, hnew⟩)
    · obtain ⟨-, hother⟩ := dev_changed hm hchanged []
      have hnobody : ¬ ∃ y, y ≠ fd ∧ s.target y = some (handle.mount, handle.ifd) := by
        rintro ⟨y, hne, hy⟩
        exact hne (hlast.mp hone y hy)
      simp only [Mount.close, heq]
      exact h.backed.leave hl.target hother (fun _ hy => absurd hy hnobody)

theorem Counts.step {l : FsLabel} {s s' : FsState} (h : Counts s) (hs : fsStep l s = some s') : Counts s' := by
  have hcalm := h.calm.step hs
  cases h.calm.chained.call hs with
  | same => exact h
  | registered dev => exact ⟨hcalm, h.backed⟩
  | opened l m mount out dir hm hout => exact h.finish hm hout hcalm
  | dup fd d handle o lhandles lhandle hl hm hdir hfound =>
    refine ⟨hcalm, ?_⟩
    have hbacked := h.dup hl hm hfound
    have hkind := isDevfs_driven hm (devfsDup lhandles handle.ifd).2 []
    rw [← hkind] at hbacked
    exact hbacked
  | close fd d handle o mount hl hm =>
    refine ⟨hcalm, ?_⟩
    have hbacked := h.close hl hm
    have hkind : (s.driven handle.mount (mount.close s.devs handle.ifd).2.1 []).isDevfs = s.isDevfs := by
      cases mount with
      | devfs lhandles => exact isDevfs_driven hm _ _
      | iso9660 data => exact isDevfs_driven_iso hm _ _
    rw [← hkind, ← h.calm.chained.target_detach hl] at hbacked
    exact hbacked

theorem Counts.moved {s : FsState} (h : Counts s) {m ifd : Nat} {mount mount' : Mount} (hm : s.mounts[m]? = some mount)
    (hmoved : Moved ifd mount mount') : Counts (s.driven m mount' []) := by
  have hcalm := h.calm.driven hm (hmoved.quiet (h.calm.quiet m mount hm)) []
  cases hmoved with
  | same =>
    rw [driven_same hm]
    exact h
  | pos data data' handle pos hfound hquiet hlook =>
    refine ⟨hcalm, ?_⟩
    have hdev := dev_driven_iso hm data' []
    have hkind := isDevfs_driven_iso hm data' []
    rw [hdev, hkind]
    exact h.backed

/-- The calls of the layer, and reads and seeks. -/
inductive IoLabel where
  | call (l : FsLabel)
  | read (fd len : Nat)
  | seek (fd offset : Nat)

/-- One call. -/
def ioStep : IoLabel → FsState → Option FsState
  | .call l, s => fsStep l s
  | .read fd len, s => fdRead s fd len
  | .seek fd offset, s => fdSeek s fd offset

theorem Counts.ioStep {l : IoLabel} {s s' : FsState} (h : Counts s) (hs : ioStep l s = some s') : Counts s' := by
  cases l with
  | call l => exact h.step hs
  | read fd len =>
    rcases h.calm.fdOn_cases (.inl rfl) (fun _ ifd hq => mountRead_moved hq ifd len) hs with
      rfl | ⟨d, handle, o, mount, mount', hl, hm, hmoved, rfl⟩
    · exact h
    · exact h.moved hm hmoved
  | seek fd offset =>
    rcases h.calm.fdOn_cases (.inr rfl) (fun _ ifd hq => mountSeek_moved hq ifd _) hs with
      rfl | ⟨d, handle, o, mount, mount', hl, hm, hmoved, rfl⟩
    · exact h
    · exact h.moved hm hmoved

theorem counts_of_run {mounts : List Mount} {devs : List Device} {tr : List IoLabel} {s : FsState}
    (hfresh : ∀ mount ∈ mounts, mount.Fresh) (hr : Run Fs.ioStep anyStep (fsStart mounts devs) tr s) : Counts s :=
  hr.invariant (fun _ _ _ _ hs h => h.ioStep hs) (counts_start hfresh devs)

end Aex.Fs
