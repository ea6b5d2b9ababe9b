import AexKernel.Exec.ElfCloses
import AexKernel.Task.Spawn

/- What `syscall_spawn` leaves when it fails.

   The duplicates are descriptors beside those there were, each with a handle of its
   own and a count more at the driver; what comes between, the image, is opened and
   closed; and the calls of `fd_close` take the duplicates out again, the first
   first. The one thing the call relies on is that 0, 1 and 2 are open: it looks
   through the slots before it knows. -/
namespace Aex.Spawn
open Runs Rc Fs Exec

/-- A duplicate: its number, its descriptor and its handle. -/
structure Dup where
  fd : Nat
  d : FileDescriptor
  handle : FsHandle

/-- The handle of the driver. -/
def Dup.target (x : Dup) : Nat × Nat := (x.handle.mount, x.handle.ifd)

/-- `s` is `s₀` with duplicates open beside it. -/
structure Duped (s₀ s : FsState) (dups : List Dup) : Prop where
  calm : Calm s
  there : ∀ x ∈ dups, look s.fds x.fd = some x.d ∧ look s.handles x.d.ifd = some x.handle
  new : ∀ x ∈ dups, look s₀.fds x.fd = none ∧ look s₀.handles x.d.ifd = none
  once : (dups.map Dup.fd).Nodup
  fds : ∀ j, (∀ x ∈ dups, x.fd ≠ j) → look s.fds j = look s₀.fds j
  handles : ∀ j, (∀ x ∈ dups, x.d.ifd ≠ j) → look s.handles j = look s₀.handles j
  dev : ∀ r, s.dev r = (s₀.dev r).map fun handle =>
    { handle with refs := handle.refs + dups.countP fun x => x.target = r }
  live : ∀ x ∈ dups, ∃ handle, s₀.dev x.target = some handle ∧ 1 ≤ handle.refs
  iso : ∀ r, isoOf s r = isoOf s₀ r

theorem duped_nil {s : FsState} (h : Calm s) : Duped s s [] where
  calm := h
  there := fun _ hx => absurd hx List.not_mem_nil
  new := fun _ hx => absurd hx List.not_mem_nil
  once := List.nodup_nil
  fds := fun _ _ => rfl
  handles := fun _ _ => rfl
  dev := by
    intro r
    cases s.dev r with
    | none => rfl
    | some handle => simp
  live := fun _ hx => absurd hx List.not_mem_nil
  iso := fun _ => rfl

theorem Duped.alike {s₀ s : FsState} (h : Duped s₀ s []) : Alike s₀ s where
  fds := fun fd => h.fds fd fun _ hx => absurd hx List.not_mem_nil
  handles := fun fd => h.handles fd fun _ hx => absurd hx List.not_mem_nil
  dev := by
    intro r
    rw [h.dev]
    cases s₀.dev r with
    | none => rfl
    | some handle => simp
  iso := h.iso

theorem Duped.of_alike {s₀ s s' : FsState} {dups : List Dup} (h : Duped s₀ s dups) (hcalm : Calm s')
    (halike : Alike s s') : Duped s₀ s' dups where
  calm := hcalm
  there := by
    intro x hx
    rw [halike.fds, halike.handles]
    exact h.there x hx
  new := h.new
  once := h.once
  fds := fun j hj => (halike.fds j).trans (h.fds j hj)
  handles := fun j hj => (halike.handles j).trans (h.handles j hj)
  dev := fun r => (halike.dev r).trans (h.dev r)
  live := h.live
  iso := fun r => (halike.iso r).trans (h.iso r)

theorem Duped.perm {s₀ s : FsState} {dups dups' : List Dup} (h : Duped s₀ s dups) (hp : dups.Perm dups') :
    Duped s₀ s dups' where
  calm := h.calm
  there := fun x hx => h.there x (hp.mem_iff.mpr hx)
  new := fun x hx => h.new x (hp.mem_iff.mpr hx)
  once := (hp.map Dup.fd).nodup_iff.mp h.once
  fds := fun j hj => h.fds j fun x hx => hj x (hp.mem_iff.mp hx)
  handles := fun j hj => h.handles j fun x hx => hj x (hp.mem_iff.mp hx)
  dev := by
    intro r
    rw [h.dev, hp.countP_eq]
  live := fun x hx => h.live x (hp.mem_iff.mpr hx)
  iso := h.iso

/-! ## A duplicate comes -/

theorem isDevfs_of_dev {s : FsState} {r : Nat × Nat} {handle : DevLhandle} (h : s.dev r = some handle) :
    ∃ lhandles, s.mounts[r.1]? = some (.devfs lhandles) := by
  unfold FsState.dev FsState.lhandles at h
  split at h
  · next lhandles hm => exact ⟨lhandles, hm⟩
  · cases h

/-- What can be duplicated has a count at its driver that was positive before. -/
theorem Duped.live_of {s₀ s : FsState} {dups : List Dup} (h : Duped s₀ s dups) (hcounts : Counts s₀) {fd : Nat}
    {d : FileDescriptor} {handle : FsHandle} {o : Origin} (hl : Leads s fd d handle o) {lhandle : DevLhandle}
    (hr : s.dev (handle.mount, handle.ifd) = some lhandle) :
    ∃ lhandle₀, s₀.dev (handle.mount, handle.ifd) = some lhandle₀ ∧ 1 ≤ lhandle₀.refs := by
  by_cases hold : ∃ x ∈ dups, x.fd = fd
  · -- a duplicate of a duplicate
    obtain ⟨x, hx, rfl⟩ := hold
    obtain ⟨hfd, hhandle⟩ := h.there x hx
    rw [hl.descriptor] at hfd
    cases hfd
    rw [hl.found] at hhandle
    cases hhandle
    exact h.live x hx
  · have hfd : ∀ x ∈ dups, x.fd ≠ fd := fun x hx heq => hold ⟨x, hx, heq⟩
    have hifd : ∀ x ∈ dups, x.d.ifd ≠ d.ifd := fun x hx heq =>
      hfd x hx (h.calm.chained.apart x.fd fd x.d d (h.there x hx).1 hl.descriptor heq)
    have hd₀ := (h.fds fd hfd).symm.trans hl.descriptor
    have hhandle₀ := (h.handles d.ifd hifd).symm.trans hl.found
    have htarget : s₀.target fd = some (handle.mount, handle.ifd) := by
      simp [FsState.target, hd₀, hhandle₀]
    rw [h.dev] at hr
    obtain ⟨lhandle₀, hr₀, -⟩ := Option.map_eq_some_iff.mp hr
    obtain ⟨lhandles, hm⟩ := isDevfs_of_dev hr₀
    exact ⟨lhandle₀, hr₀, hcounts.backed.pos htarget (isDevfs_of hm) hr₀⟩

theorem Duped.attach {s₀ s : FsState} {dups : List Dup} (h : Duped s₀ s dups) (hcounts : Counts s₀) {fd : Nat}
    {d : FileDescriptor} {handle : FsHandle} {o : Origin} {lhandles : Rc.Array DevLhandle} {lhandle : DevLhandle}
    (hl : Leads s fd d handle o) (hm : s.mounts[handle.mount]? = some (.devfs lhandles))
    (hfound : look lhandles handle.ifd = some lhandle)
    (hcalm : Calm ((s.driven handle.mount (.devfs (devfsDup lhandles handle.ifd).2) []).attach handle d.ops (some o))) :
    Duped s₀ ((s.driven handle.mount (.devfs (devfsDup lhandles handle.ifd).2) []).attach handle d.ops (some o))
      ({ fd := firstFree s.fds, d := { ifd := firstFree s.handles, ops := d.ops }, handle := handle } :: dups) := by
  have hspec := devfsDup_spec (h.calm.quiet _ _ hm) hfound
  obtain ⟨hnew, hother⟩ := dev_changed hm hspec []
  have hdev : s.dev (handle.mount, handle.ifd) = some lhandle := (dev_of hm _).trans hfound
  have hlive := h.live_of hcounts hl hdev
  have hfds := look_attach_fds (s.driven handle.mount (.devfs (devfsDup lhandles handle.ifd).2) []) handle d.ops (some o)
  have hhandles := look_attach_handles (s.driven handle.mount (.devfs (devfsDup lhandles handle.ifd).2) []) handle d.ops
    (some o)
  -- What was free is none of the duplicates' and was free before.
  have hfree : ∀ x ∈ dups, x.fd ≠ firstFree s.fds := fun x hx => firstFree_ne (h.there x hx).1
  have hfree' : ∀ x ∈ dups, x.d.ifd ≠ firstFree s.handles := fun x hx => firstFree_ne (h.there x hx).2
  refine ⟨hcalm, ?_, ?_, ?_, ?_, ?_, ?_, ?_, ?_⟩
  · intro x hx
    rcases List.mem_cons.mp hx with rfl | hx
    · rw [hfds, hhandles]
      exact ⟨if_pos rfl, if_pos rfl⟩
    · rw [hfds, hhandles]
      obtain ⟨hfd, hhandle⟩ := h.there x hx
      exact ⟨(if_neg (hfree x hx)).trans hfd, (if_neg (hfree' x hx)).trans hhandle⟩
  · intro x hx
    rcases List.mem_cons.mp hx with rfl | hx
    · rw [← h.fds _ hfree, ← h.handles _ hfree']
      exact ⟨look_firstFree _, look_firstFree _⟩
    · exact h.new x hx
  · rw [List.map_cons, List.nodup_cons]
    refine ⟨?_, h.once⟩
    intro hmem
    obtain ⟨x, hx, heq⟩ := List.mem_map.mp hmem
    exact hfree x hx heq
  · intro j hj
    have hne : j ≠ firstFree s.fds := fun heq => hj _ List.mem_cons_self heq.symm
    rw [hfds]
    exact (if_neg hne).trans (h.fds j fun x hx => hj x (List.mem_cons_of_mem _ hx))
  · intro j hj
    have hne : j ≠ firstFree s.handles := fun heq => hj _ List.mem_cons_self heq.symm
    rw [hhandles]
    exact (if_neg hne).trans (h.handles j fun x hx => hj x (List.mem_cons_of_mem _ hx))
  · intro r
    show (s.driven handle.mount (.devfs (devfsDup lhandles handle.ifd).2) []).dev r = _
    rw [List.countP_cons]
    by_cases hr : r = (handle.mount, handle.ifd)
    · subst hr
      rw [hnew]
      have hold := hdev
      rw [h.dev] at hold
      obtain ⟨lhandle₀, hr₀, rfl⟩ := Option.map_eq_some_iff.mp hold
      rw [hr₀]
      simp [Dup.target, Int.add_assoc]
    · have hne : ¬ (handle.mount, handle.ifd) = r := fun heq => hr heq.symm
      rw [hother r hr, h.dev]
      simp [Dup.target, hne]
  · intro x hx
    rcases List.mem_cons.mp hx with rfl | hx
    · exact hlive
    · exact h.live x hx
  · intro r
    exact (isoOf_driven_devfs hm _ [] r).trans (h.iso r)

theorem Duped.dup {s₀ s s' : FsState} {dups : List Dup} (h : Duped s₀ s dups) (hcounts : Counts s₀) {fd : Nat}
    {ret : Int} (hs : fdDup s fd = some (ret, s')) :
    (ret < 0 ∧ s' = s) ∨ ∃ x, ret = x.fd ∧ Duped s₀ s' (x :: dups) := by
  have hcalm : Calm s' := h.calm.step (l := .fdDup fd) (by simp only [fsStep, hs, Option.map_some])
  cases hd : look s.fds fd with
  | none =>
    rw [(fd_unopened hd).1] at hs
    cases hs
    exact .inl ⟨by decide, rfl⟩
  | some d =>
    obtain ⟨handle, o, hl⟩ := h.calm.chained.leads fd d hd
    cases hdir : o.dir with
    | true =>
      rw [h.calm.chained.fdDup_dir hl hdir] at hs
      cases hs
    | false =>
      obtain ⟨mount, hm⟩ := hl.mount
      cases mount with
      | iso9660 data =>
        rw [h.calm.chained.fdDup_iso hl hm] at hs
        cases hs
      | devfs lhandles =>
        cases hfound : look lhandles handle.ifd with
        | none =>
          rw [h.calm.chained.fdDup_refused hl hm hdir hfound] at hs
          cases hs
          exact .inl ⟨by decide, rfl⟩
        | some lhandle =>
          rw [h.calm.chained.fdDup_eq hl hm hdir hfound] at hs
          cases hs
          exact .inr ⟨_, rfl, h.attach hcounts hl hm hfound hcalm⟩

/-! ## A duplicate goes -/

/-- Taking out the entry of the first duplicate leaves those of the others beside
what there was. -/
theorem look_without {α : Type} {a a₀ a' : Rc.Array α} (f : Dup → Nat) {x : Dup} {dups : List Dup}
    (h : ∀ j, (∀ y ∈ x :: dups, f y ≠ j) → look a j = look a₀ j)
    (hclear : ∀ j, look a' j = if j = f x then none else look a j) (hnew : look a₀ (f x) = none) :
    ∀ j, (∀ y ∈ dups, f y ≠ j) → look a' j = look a₀ j := by
  intro j hj
  rw [hclear]
  by_cases hjx : j = f x
  · rw [if_pos hjx, hjx, hnew]
  · rw [if_neg hjx]
    apply h
    intro y hy
    rcases List.mem_cons.mp hy with rfl | hy
    · exact fun heq => hjx heq.symm
    · exact hj y hy

theorem Duped.close {s₀ s : FsState} {x : Dup} {dups : List Dup} (h : Duped s₀ s (x :: dups)) :
    ∃ out, fdClose s x.fd = some out ∧ Duped s₀ out.2 dups := by
  obtain ⟨hfd, hhandle⟩ := h.there x List.mem_cons_self
  obtain ⟨handle, o, hl⟩ := h.calm.chained.leads x.fd x.d hfd
  have hsame := hl.found
  rw [hhandle] at hsame
  cases hsame
  obtain ⟨lhandle₀, hr₀, hpos⟩ := h.live x List.mem_cons_self
  have hdev := h.dev x.target
  rw [hr₀, Option.map_some, List.countP_cons, if_pos (decide_eq_true rfl)] at hdev
  obtain ⟨lhandles, hm⟩ := isDevfs_of_dev hdev
  have hm : s.mounts[x.handle.mount]? = some (.devfs lhandles) := hm
  have hfound := (dev_of hm x.handle.ifd).symm.trans hdev
  have hclose := h.calm.chained.fdClose_eq hl hm
  have hcalm : ∀ out, fdClose s x.fd = some out → Calm out.2 := fun out hout =>
    h.calm.step (l := .fdClose x.fd) (by simp only [fsStep, hout, Option.map_some])
  refine ⟨_, hclose, ?_⟩
  have hcalm := hcalm _ hclose
  -- The handle is held by whoever held it before, so the device stays open.
  rcases devfsClose_spec (h.calm.quiet _ _ hm) s.devs hfound with ⟨-, lhandles', heq, hchanged⟩ | ⟨hone, -⟩
  · obtain ⟨hnew, hother⟩ := dev_changed hm hchanged []
    simp only [Mount.close, heq] at hcalm ⊢
    have honce := h.once
    rw [List.map_cons, List.nodup_cons] at honce
    have hne : ∀ y ∈ dups, y.fd ≠ x.fd := fun y hy heq => honce.1 (heq ▸ List.mem_map_of_mem hy)
    have hne' : ∀ y ∈ dups, y.d.ifd ≠ x.d.ifd := fun y hy heq =>
      hne y hy (h.calm.chained.apart y.fd x.fd y.d x.d (h.there y (List.mem_cons_of_mem _ hy)).1 hfd heq)
    have hfds : ∀ j, look (s.fds.set x.fd none) j = if j = x.fd then none else look s.fds j := look_clear hfd
    have hhandles : ∀ j, look (s.handles.set x.d.ifd none) j = if j = x.d.ifd then none else look s.handles j :=
      look_clear hhandle
    obtain ⟨hnewFd, hnewHandle⟩ := h.new x List.mem_cons_self
    refine ⟨hcalm, ?_, fun y hy => h.new y (List.mem_cons_of_mem _ hy), honce.2, ?_, ?_, ?_,
      fun y hy => h.live y (List.mem_cons_of_mem _ hy), ?_⟩
    · intro y hy
      obtain ⟨hyfd, hyhandle⟩ := h.there y (List.mem_cons_of_mem _ hy)
      refine ⟨(hfds y.fd).trans ?_, (hhandles y.d.ifd).trans ?_⟩
      · rw [if_neg (hne y hy)]
        exact hyfd
      · rw [if_neg (hne' y hy)]
        exact hyhandle
    · exact look_without Dup.fd h.fds hfds hnewFd
    · exact look_without (fun y => y.d.ifd) h.handles hhandles hnewHandle
    · intro r
      show (s.driven x.handle.mount (.devfs lhandles') []).dev r = _
      by_cases hr : r = x.target
      · subst hr
        refine hnew.trans ?_
        rw [hr₀]
        simp only [Option.map_some, Option.some.injEq, DevLhandle.mk.injEq, true_and]
        push_cast
        omega
      · rw [hother r hr, h.dev, List.countP_cons]
        have hxr : ¬ x.target = r := fun heq => hr heq.symm
        simp [hxr]
    · intro r
      exact (isoOf_driven_devfs hm lhandles' [] r).trans (h.iso r)
  · simp only at hone
    push_cast at hone
    omega

/-! ## The calls of `fd_dup` and of `fd_close` -/

/-- What `fd_dup` has returned, and the duplicate if there is one. -/
def Made (ret : Int) (x : Option Dup) : Prop := (x = none ∧ ret < 0) ∨ ∃ y, x = some y ∧ ret = y.fd

theorem Duped.dupInt {s₀ s s' : FsState} {dups : List Dup} (h : Duped s₀ s dups) (hcounts : Counts s₀) {fd ret : Int}
    (hs : dupInt s fd = some (ret, s')) : ∃ x, Made ret x ∧ Duped s₀ s' (x.toList ++ dups) := by
  unfold Spawn.dupInt at hs
  split at hs
  · cases hs
    exact ⟨none, .inl ⟨rfl, by decide⟩, h⟩
  · rcases h.dup hcounts hs with ⟨hneg, rfl⟩ | ⟨x, hret, hx⟩
    · exact ⟨none, .inl ⟨rfl, hneg⟩, h⟩
    · exact ⟨some x, .inr ⟨x, rfl, hret⟩, hx⟩

theorem Duped.closeInt {s₀ s : FsState} {x : Option Dup} {dups : List Dup} (h : Duped s₀ s (x.toList ++ dups))
    {ret : Int} (hmade : Made ret x) : ∃ s', closeInt s ret = some s' ∧ Duped s₀ s' dups := by
  rcases hmade with ⟨rfl, hneg⟩ | ⟨y, rfl, rfl⟩
  · refine ⟨s, ?_, h⟩
    unfold Spawn.closeInt
    rw [if_pos hneg]
  · obtain ⟨out, hclose, hout⟩ := Duped.close h
    refine ⟨out.2, ?_, hout⟩
    have hnot : ¬ ((y.fd : Int) < 0) := Int.not_lt.mpr (Int.natCast_nonneg _)
    simp only [Spawn.closeInt, if_neg hnot, Int.toNat_natCast, hclose, Option.map_some]

theorem dups_made {s s' : FsState} (hcounts : Counts s) {fds rets : Int × Int × Int}
    (hs : dups s fds = some (rets, s')) : ∃ x y z, Made rets.1 x ∧ Made rets.2.1 y ∧ Made rets.2.2 z ∧
      Duped s s' (x.toList ++ (y.toList ++ z.toList)) := by
  obtain ⟨stdin, hstdin, hs⟩ := Option.bind_eq_some_iff.mp hs
  obtain ⟨stdout, hstdout, hs⟩ := Option.bind_eq_some_iff.mp hs
  obtain ⟨stderr, hstderr, hrets⟩ := Option.map_eq_some_iff.mp hs
  obtain ⟨x, hx, hdx⟩ := (duped_nil hcounts.calm).dupInt hcounts hstdin
  obtain ⟨y, hy, hdy⟩ := hdx.dupInt hcounts hstdout
  obtain ⟨z, hz, hdz⟩ := hdy.dupInt hcounts hstderr
  cases hrets
  refine ⟨x, y, z, hx, hy, hz, hdz.perm ?_⟩
  rw [List.append_nil]
  calc (z.toList ++ (y.toList ++ x.toList)).Perm (y.toList ++ x.toList ++ z.toList) := List.perm_append_comm
    List.Perm _ (x.toList ++ y.toList ++ z.toList) := List.perm_append_comm.append_right _
    _ = x.toList ++ (y.toList ++ z.toList) := List.append_assoc ..

theorem closes_alike {s₀ s : FsState} {x y z : Option Dup} (h : Duped s₀ s (x.toList ++ (y.toList ++ z.toList)))
    {rets : Int × Int × Int} (hx : Made rets.1 x) (hy : Made rets.2.1 y) (hz : Made rets.2.2 z) :
    ∃ s', closes s rets = some s' ∧ Alike s₀ s' := by
  obtain ⟨s₁, hs₁, h₁⟩ := h.closeInt hx
  obtain ⟨s₂, hs₂, h₂⟩ := h₁.closeInt hy
  rw [← List.append_nil z.toList] at h₂
  obtain ⟨s₃, hs₃, h₃⟩ := h₂.closeInt hz
  refine ⟨s₃, ?_, h₃.alike⟩
  simp only [closes, hs₁, Option.bind_some, hs₂, hs₃]

/-! ## The new process -/

theorem fsFinfo_reg {s : FsState} {volumes : Nat → Volume} {m : Nat} {path : CStr} {unset : IsoUnset}
    (h : fsFinfo s volumes m path unset = some (.ok .reg)) : ∃ data, s.mounts[m]? = some (.iso9660 data) := by
  unfold fsFinfo at h
  split at h
  · cases h
  · unfold devfsFinfo at h
    split at h
    · cases h
    · split at h
      · cases h
      · split at h
        · cases h
        · split at h
          · cases h
          · cases h
          · cases h
  · next data hm => exact ⟨data, hm⟩

theorem taskPricreate_alike {call : SpawnCall} {fds : Int × Int × Int} {cwd : Option Cwd} {s s' : SpawnState}
    {ret : Int} (h : Calm s.fs) (hs : taskPricreate call fds cwd s = some (ret, s')) :
    Calm s'.fs ∧ Alike s.fs s'.fs ∧ s'.caller = s.caller := by
  have hsame : Calm s.fs ∧ Alike s.fs s.fs ∧ s.caller = s.caller := ⟨h, Alike.refl _, rfl⟩
  obtain ⟨finfo, hfinfo, hs⟩ := Option.bind_eq_some_iff.mp hs
  cases finfo with
  | error e =>
    cases hs
    exact hsame
  | ok type =>
    simp only at hs
    split at hs
    · cases hs
      exact hsame
    · split at hs
      · cases hs
        exact hsame
      · next hreg =>
        obtain ⟨failed, -, hs⟩ := Option.bind_eq_some_iff.mp hs
        cases failed with
        | some ret' =>
          cases hs
          exact hsame
        | none =>
          rw [Classical.not_not.mp hreg] at hfinfo
          obtain ⟨data, hm⟩ := fsFinfo_reg hfinfo
          obtain ⟨⟨code, fs⟩, hload, hs⟩ := Option.bind_eq_some_iff.mp hs
          obtain ⟨hcalm, halike⟩ := execLoad_alike h hm hload
          split at hs
          · cases hs
            exact ⟨hcalm, halike, rfl⟩
          · obtain ⟨failed, -, hs⟩ := Option.map_eq_some_iff.mp hs
            cases failed with
            | some ret' =>
              cases hs
              exact ⟨hcalm, halike, rfl⟩
            | none =>
              cases hs
              exact ⟨hcalm, halike, rfl⟩

/-- A call that fails behind the descriptors of the caller leaves the tables as they
were. -/
theorem spawnFrom_alike {call : SpawnCall} {fds : Int × Int × Int} {cwd : Option Cwd} {s s' : SpawnState} {ret : Int}
    (h : Counts s.fs) (hs : spawnFrom call fds cwd s = some (ret, s')) (hneg : ret < 0) :
    Alike s.fs s'.fs ∧ s'.caller = unref s.caller := by
  obtain ⟨⟨rets, fs⟩, hdups, hs⟩ := Option.bind_eq_some_iff.mp hs
  obtain ⟨⟨code, s₁⟩, hcreate, hs⟩ := Option.bind_eq_some_iff.mp hs
  obtain ⟨x, y, z, hx, hy, hz, hduped⟩ := dups_made h hdups
  obtain ⟨hcalm, halike, hcaller⟩ := taskPricreate_alike hduped.calm hcreate
  simp only at hs hcalm halike hcaller
  split at hs
  · obtain ⟨fs', hcloses, hout⟩ := Option.map_eq_some_iff.mp hs
    obtain ⟨s₂, hcloses', halike'⟩ := closes_alike (hduped.of_alike hcalm halike) hx hy hz
    rw [hcloses'] at hcloses
    cases hcloses
    cases hout
    exact ⟨halike', by rw [hcaller]⟩
  · next hnot =>
    cases hs
    exact absurd hneg hnot

/-! ## The descriptors of the caller -/

/-- Every element of the array has the array's own reference. -/
def Counted (fiddies : Rc.Array Int) : Prop := ∀ lfd e, slot fiddies lfd = some e → 1 ≤ e.refs

theorem slot_present {a : Rc.Array Int} {id : Nat} {v : Int} (h : look a id = some v) (hcounted : Counted a) :
    ∃ e, slot a id = some e ∧ e.got.drop = some e := by
  obtain ⟨e, hs, hp, -⟩ := look_some.mp h
  exact ⟨e, hs, drop_got hp (hcounted id e hs)⟩

theorem get_unref_same {a : Rc.Array Int} {id : Nat} {v : Int} (h : look a id = some v) (hcounted : Counted a) :
    arrayUnref (arrayGet a id).2 id = a := by
  obtain ⟨e, hs, hdrop⟩ := slot_present h hcounted
  refine array_ext ?_ ?_
  · rw [length_unref, length_get]
  · intro k
    rw [slot_unref, slot_get, slot_get, if_pos rfl]
    by_cases hk : k = id
    · rw [if_pos hk, hk, hs, Option.map_some, Option.bind_some, hdrop]
    · rw [if_neg hk, if_neg hk]

theorem stdio_eq (a : Rc.Array Int) : stdio a = (look a 0).bind fun stdin => (look a 1).bind fun stdout =>
    (look a 2).map fun stderr => ((stdin, stdout, stderr),
      arrayUnref (arrayUnref (arrayUnref (arrayGet (arrayGet (arrayGet a 0).2 1).2 2).2 0) 1) 2) := by
  have h1 := look_get a 0 1
  have h2 := (look_get (arrayGet a 0).2 1 2).trans (look_get a 0 2)
  rw [← h1, ← h2]
  unfold look stdio
  cases arrayGet a 0 with
  | mk v0 a0 =>
    cases v0 with
    | none => rfl
    | some stdin =>
      simp only [Option.bind_some]
      cases arrayGet a0 1 with
      | mk v1 a1 =>
        cases v1 with
        | none => rfl
        | some stdout =>
          simp only [Option.bind_some]
          cases arrayGet a1 2 with
          | mk v2 a2 =>
            cases v2 with
            | none => rfl
            | some stderr => rfl

/-- The first three descriptors are looked at: a slot is `NULL`, or all is as before. -/
theorem stdio_cases {a : Rc.Array Int} (hcounted : Counted a) :
    (stdio a = none ∧ ¬ ∀ lfd < 3, look a lfd ≠ none) ∨
    ∃ fds, stdio a = some (fds, a) ∧ ∀ lfd < 3, look a lfd ≠ none := by
  rw [stdio_eq]
  cases h0 : look a 0 with
  | none => exact .inl ⟨rfl, fun hall => hall 0 (by decide) h0⟩
  | some stdin =>
    cases h1 : look a 1 with
    | none => exact .inl ⟨rfl, fun hall => hall 1 (by decide) h1⟩
    | some stdout =>
      cases h2 : look a 2 with
      | none => exact .inl ⟨rfl, fun hall => hall 2 (by decide) h2⟩
      | some stderr =>
        refine .inr ⟨(stdin, stdout, stderr), ?_, ?_⟩
        · obtain ⟨e0, hs0, hd0⟩ := slot_present h0 hcounted
          obtain ⟨e1, hs1, hd1⟩ := slot_present h1 hcounted
          obtain ⟨e2, hs2, hd2⟩ := slot_present h2 hcounted
          have hsame : arrayUnref (arrayUnref (arrayUnref (arrayGet (arrayGet (arrayGet a 0).2 1).2 2).2 0) 1) 2 = a := by
            refine array_ext ?_ ?_
            · simp only [length_unref, length_get]
            · intro k
              simp only [slot_unref, slot_get]
              by_cases hk2 : k = 2
              · simp [hk2, hs2, hd2]
              · by_cases hk1 : k = 1
                · simp [hk1, hs1, hd1]
                · by_cases hk0 : k = 0
                  · simp [hk0, hs0, hd0]
                  · simp [hk0, hk1, hk2]
          simp only [Option.bind_some, Option.map_some, hsame]
        · intro lfd hlt
          have hcases : lfd = 0 ∨ lfd = 1 ∨ lfd = 2 := by omega
          rcases hcases with rfl | rfl | rfl
          · rw [h0]
            exact Option.some_ne_none _
          · rw [h1]
            exact Option.some_ne_none _
          · rw [h2]
            exact Option.some_ne_none _

theorem override_same {a : Rc.Array Int} (hcounted : Counted a) (lfd fd : Int) : (override lfd fd a).2 = a := by
  unfold override
  split
  · rfl
  · cases h : look a lfd.toNat with
    | none =>
      have hgot : (arrayGet a lfd.toNat).1 = none := h
      split
      · rfl
      · next heq =>
        rw [heq] at hgot
        cases hgot
    | some v =>
      have hsame := get_unref_same h hcounted
      split
      · rfl
      · next heq =>
        rw [heq] at hsame
        exact hsame

theorem overrides_same {a : Rc.Array Int} (hcounted : Counted a) (options : Option (Int × Int × Int))
    (fds : Int × Int × Int) : (overrides options fds a).2 = a := by
  cases options with
  | none => rfl
  | some lfds =>
    simp only [overrides, override_same hcounted]

/-! ## The call -/

/-- The same descriptors, handles and counts, of the whole kernel and of the caller. -/
structure Undone (s s' : SpawnState) : Prop where
  fs : Alike s.fs s'.fs
  caller : s'.caller = s.caller

/-- The entry of the caller has the table's own reference, and its descriptors have
the array's. -/
def SpawnState.Counted (s : SpawnState) : Prop :=
  ∀ process, s.caller = some process → 1 ≤ process.refs ∧ Spawn.Counted process.value.fiddies

/-- The caller, as long as it is there, has 0, 1 and 2 open. -/
def SpawnState.HasStdio (s : SpawnState) : Prop :=
  ∀ process, s.caller = some process → process.present = true → ∀ lfd < 3, look process.value.fiddies lfd ≠ none

/-- No slot that is `NULL` is dereferenced, and a call that fails leaves nothing. -/
def SpawnSound (call : SpawnCall) (s : SpawnState) : Prop :=
  syscallSpawn call s ≠ .nullSlot ∧ ∀ ret s', syscallSpawn call s = .returned ret s' → ret < 0 → Undone s s'

theorem of_ne_nullSlot (out : Option (Int × SpawnState)) : SpawnEnd.of out ≠ .nullSlot := by
  intro h
  cases out with
  | none => cases h
  | some out => cases h

theorem of_returned {out : Option (Int × SpawnState)} {ret : Int} {s : SpawnState}
    (h : SpawnEnd.of out = .returned ret s) : out = some (ret, s) := by
  cases out with
  | none => cases h
  | some out =>
    cases h
    rfl

theorem syscallSpawn_gone (call : SpawnCall) {s : SpawnState}
    (h : ∀ process, s.caller = some process → ¬ process.present = true) :
    syscallSpawn call s = .returned (-eintr) s := by
  unfold syscallSpawn
  cases hc : s.caller with
  | none => rfl
  | some process => simp only [Rc.get, if_neg (h process hc)]

theorem syscallSpawn_cases (call : SpawnCall) {s : SpawnState} (hcounted : s.Counted) {process : Entry Process}
    (hc : s.caller = some process) (hp : process.present = true) :
    (syscallSpawn call s = .nullSlot ∧ ¬ ∀ lfd < 3, look process.value.fiddies lfd ≠ none) ∨
    ((∀ lfd < 3, look process.value.fiddies lfd ≠ none) ∧ ∃ fds, syscallSpawn call s = .of
      (spawnFrom call fds process.value.cwd { s with caller := some { process with refs := process.refs + 1 } })) := by
  have hfiddies := (hcounted process hc).2
  have hget : Rc.get s.caller = (true, some { process with refs := process.refs + 1 }) := by
    rw [hc]
    simp only [Rc.get, if_pos hp]
  unfold syscallSpawn
  simp only [hget]
  rcases stdio_cases hfiddies with ⟨hnone, hclosed⟩ | ⟨fds, hsome, hopen⟩
  · simp only [hnone]
    exact .inl ⟨trivial, hclosed⟩
  · refine .inr ⟨hopen, (overrides call.options fds process.value.fiddies).1, ?_⟩
    simp only [hsome, overrides_same hfiddies]

/-- **`syscall_spawn` dereferences no slot that is `NULL`, and leaves nothing when it
fails, exactly when the caller has 0, 1 and 2 open.** -/
theorem spawnSound_iff {mounts : List Mount} {devs : List Device} {tr : List IoLabel} {s : SpawnState}
    (hfresh : ∀ mount ∈ mounts, mount.Fresh) (hr : Run ioStep anyStep (fsStart mounts devs) tr s.fs)
    (hcounted : s.Counted) (call : SpawnCall) : SpawnSound call s ↔ s.HasStdio := by
  have hcounts := counts_of_run hfresh hr
  by_cases hgone : ∀ process, s.caller = some process → ¬ process.present = true
  · have heq := syscallSpawn_gone call hgone
    refine ⟨fun _ process hc hp => absurd hp (hgone process hc), fun _ => ⟨?_, ?_⟩⟩
    · rw [heq]
      exact fun h => SpawnEnd.noConfusion h
    · intro ret s' hret _
      rw [heq] at hret
      cases hret
      exact ⟨Alike.refl _, rfl⟩
  · obtain ⟨process, hprocess⟩ := Classical.not_forall.mp hgone
    obtain ⟨hc, hp⟩ := Classical.not_imp.mp hprocess
    have hp : process.present = true := Classical.not_not.mp hp
    have hstdio : s.HasStdio ↔ ∀ lfd < 3, look process.value.fiddies lfd ≠ none := by
      constructor
      · intro h
        exact h process hc hp
      · intro h process' hc' _
        rw [hc] at hc'
        cases hc'
        exact h
    rw [hstdio]
    rcases syscallSpawn_cases call hcounted hc hp with ⟨hnull, hclosed⟩ | ⟨hopen, fds, heq⟩
    · exact ⟨fun h => absurd hnull h.1, fun h => absurd h hclosed⟩
    · refine ⟨fun _ => hopen, fun _ => ⟨?_, ?_⟩⟩
      · rw [heq]
        exact of_ne_nullSlot _
      · intro ret s' hret hneg
        rw [heq] at hret
        have hspawn := of_returned hret
        obtain ⟨halike, hcaller⟩ := spawnFrom_alike
          (s := { s with caller := some { process with refs := process.refs + 1 } }) hcounts hspawn hneg
        refine ⟨halike, ?_⟩
        -- got and given back
        have hrefs := (hcounted process hc).1
        have hne : ¬ process.refs = 0 := by omega
        rw [hcaller, hc]
        simp only [unref, Entry.drop, Int.add_sub_cancel, if_neg hne]

/-- A call for an image that is not there. -/
def missingImage : SpawnCall where
  options := none
  mount := 0
  path := cstr "/none"
  volumes := fun _ => { devId := -1, rootFlags := 0 }
  unset := noUnset
  cwdUnset := noUnset
  cwdAgain := noUnset
  cwdUnset' := noUnset
  cwdAgain' := noUnset
  image :=
    { unset := noUnset
      answer := { ret := 0, data := 0 }
      header :=
        { magicNumber := [], bits := 0, endianiness := 0, isa := 0, progHeaderTablePos := 0, progHdrTblEntrySize := 0,
          progHdrTblEntryAmount := 0 }
      pheaders := []
      memory := true }

/-- A process with the given descriptors, in a kernel with one device open. -/
def spawner (fiddies : Rc.Array Int) (fs : FsState) : SpawnState where
  fs := fs
  caller := some { refs := 1, present := true, value := { fiddies := fiddies, cwd := none } }
  counter := 3
  created := []

/-- The device is 0, 1 and 2 of the caller: it is duplicated three times, the image is
not found, and the duplicates are closed. -/
theorem spawnSound_missing : ∃ fs, Run ioStep anyStep (fsStart [.devfs []] [{ name := cstr "null", type := .char }])
      [.call (.fsOpen 0 (cstr "/null") noUnset { ret := 0, data := 0 })] fs ∧
    SpawnSound missingImage (spawner (List.replicate 3 (some (Entry.resting 0))) fs) ∧
    ∃ s', syscallSpawn missingImage (spawner (List.replicate 3 (some (Entry.resting 0))) fs) = .returned (-enoent) s' := by
  have hfresh : ∀ mount ∈ [Mount.devfs []], mount.Fresh := by
    intro mount hmount
    rw [List.mem_singleton.mp hmount]
    rfl
  have hcounted : ∀ fs, (spawner (List.replicate 3 (some (Entry.resting 0))) fs).Counted := by
    intro fs process hc
    cases hc
    refine ⟨Int.le_refl 1, ?_⟩
    intro lfd e hs
    have hlt := slot_lt hs
    rw [List.length_replicate] at hlt
    simp only [slot, List.getElem?_replicate, if_pos hlt, Option.join_some, Option.some.injEq] at hs
    rw [← hs]
    exact Int.le_refl 1
  have hstdio : ∀ fs, (spawner (List.replicate 3 (some (Entry.resting 0))) fs).HasStdio := by
    intro fs process hc _ lfd hlt
    cases hc
    have hlook : ∀ k < 3, look (List.replicate 3 (some (Entry.resting (0 : Int)))) k = some 0 := by decide
    rw [hlook lfd hlt]
    exact Option.some_ne_none _
  have hrun : Run ioStep anyStep (fsStart [.devfs []] [{ name := cstr "null", type := .char }])
      [.call (.fsOpen 0 (cstr "/null") noUnset { ret := 0, data := 0 })] _ := .cons trivial rfl (.nil _)
  refine ⟨_, hrun, ?_, ?_⟩
  · exact (spawnSound_iff hfresh hrun (hcounted _) missingImage).mpr (hstdio _)
  · exact ⟨_, rfl⟩

/-- The caller has closed 0: the call looks through its slot. -/
theorem spawn_null_slot : ∃ fs, Run ioStep anyStep (fsStart [.devfs []] [{ name := cstr "null", type := .char }])
      [.call (.fsOpen 0 (cstr "/null") noUnset { ret := 0, data := 0 })] fs ∧
    syscallSpawn missingImage (spawner [none, some (Entry.resting 0), some (Entry.resting 0)] fs) = .nullSlot ∧
    ¬ SpawnSound missingImage (spawner [none, some (Entry.resting 0), some (Entry.resting 0)] fs) := by
  refine ⟨_, .cons trivial rfl (.nil _), rfl, ?_⟩
  intro h
  exact h.1 rfl

end Aex.Spawn
