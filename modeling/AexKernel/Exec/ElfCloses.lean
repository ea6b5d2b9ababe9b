import AexKernel.Fs.LayerCounts

/- Behind `elf_load` the tables of the filesystem layer are as they were: the image
   is the only thing it opens, it moves its position only, and every path that
   returns closes it. -/
namespace Aex.Exec
open Rc Fs

/-- A handle of an `iso9660` mount. -/
def isoOf (s : FsState) (r : Nat × Nat) : Option IsoLhandle :=
  match s.mounts[r.1]? with
  | some (.iso9660 data) => look data.lhandles r.2
  | _ => none

/-- The same descriptors and handles are open, with the same counts. -/
structure Alike (s s' : FsState) : Prop where
  fds : ∀ fd, look s'.fds fd = look s.fds fd
  handles : ∀ fd, look s'.handles fd = look s.handles fd
  dev : ∀ r, s'.dev r = s.dev r
  iso : ∀ r, isoOf s' r = isoOf s r

theorem Alike.refl (s : FsState) : Alike s s := ⟨fun _ => rfl, fun _ => rfl, fun _ => rfl, fun _ => rfl⟩

theorem isoOf_driven {s : FsState} {m : Nat} {data : IsoPrivate} (hm : s.mounts[m]? = some (.iso9660 data))
    (data' : IsoPrivate) (events : List DevEvent) (r : Nat × Nat) :
    isoOf (s.driven m (.iso9660 data') events) r = if r.1 = m then look data'.lhandles r.2 else isoOf s r := by
  unfold isoOf
  rw [mount_driven hm]
  by_cases hr : r.1 = m
  · rw [if_pos hr, if_pos hr]
  · rw [if_neg hr, if_neg hr]

theorem isoOf_driven_devfs {s : FsState} {m : Nat} {lhandles : Rc.Array DevLhandle}
    (hm : s.mounts[m]? = some (.devfs lhandles)) (lhandles' : Rc.Array DevLhandle) (events : List DevEvent)
    (r : Nat × Nat) : isoOf (s.driven m (.devfs lhandles') events) r = isoOf s r := by
  unfold isoOf
  rw [mount_driven hm]
  by_cases hr : r.1 = m
  · rw [if_pos hr, hr, hm]
  · rw [if_neg hr]

theorem isoOf_of {s : FsState} {m : Nat} {data : IsoPrivate} (hm : s.mounts[m]? = some (.iso9660 data)) (i : Nat) :
    isoOf s (m, i) = look data.lhandles i := by
  unfold isoOf
  rw [hm]

theorem isoWalk_error {disc : Disc} {unset : IsoUnset} : ∀ {turns : List (CStr × Int)} {found : IsoFound} {e : Int},
    isoWalk disc unset turns found = some (.error e) → e = -enoent := by
  intro turns
  induction turns with
  | nil =>
    intro found e h
    cases h
  | cons t turns ih =>
    intro found e h
    simp only [isoWalk] at h
    split at h
    · cases h
    · split at h
      · cases h
        rfl
      · split at h
        · cases h
        · split at h
          · cases h
            rfl
          · exact ih h

theorem isoOpen_error {data : IsoPrivate} {path : CStr} {unset : IsoUnset} {data' : IsoPrivate} {e : Int}
    (h : isoOpen data path unset = some (.error e, data')) : e < 0 := by
  obtain ⟨ret, hwalk, hret⟩ := Option.map_eq_some_iff.mp h
  cases ret with
  | error e' =>
    cases hret
    obtain ⟨turns, -, hturns⟩ := Option.bind_eq_some_iff.mp hwalk
    rw [isoWalk_error hturns]
    decide
  | ok found =>
    simp only at hret
    split at hret
    · cases hret
      decide
    · cases hret

/-! ## The image is open -/

/-- `s₁` is `s` with a file of an `iso9660` mount open beside it, under `fd`. -/
structure ImageOpen (s s₁ : FsState) (fd : Nat) (d : FileDescriptor) (handle : FsHandle) : Prop where
  calm : Calm s₁
  leads : ∃ o, Leads s₁ fd d handle o
  mount : ∃ data, s₁.mounts[handle.mount]? = some (.iso9660 data)
  fds : ∀ j, look s.fds j = if j = fd then none else look s₁.fds j
  handles : ∀ j, look s.handles j = if j = d.ifd then none else look s₁.handles j
  dev : ∀ r, s.dev r = s₁.dev r
  iso : ∀ r, isoOf s r = if r = (handle.mount, handle.ifd) then none else isoOf s₁ r
  file : ∃ lhandle, isoOf s₁ (handle.mount, handle.ifd) = some lhandle ∧ lhandle.refs = 1

theorem ImageOpen.moved {s s₁ : FsState} {fd : Nat} {d : FileDescriptor} {handle : FsHandle}
    (h : ImageOpen s s₁ fd d handle) {mount mount' : Mount} (hm : s₁.mounts[handle.mount]? = some mount)
    (hmoved : Moved handle.ifd mount mount') : ImageOpen s (s₁.driven handle.mount mount' []) fd d handle := by
  obtain ⟨o, hl⟩ := h.leads
  have hcalm := h.calm.driven hm (hmoved.quiet (h.calm.quiet _ _ hm)) []
  cases hmoved with
  | same =>
    rw [driven_same hm]
    exact h
  | pos data data' lhandle pos hfound hquiet hlook =>
    have hdev := dev_driven_iso hm data' []
    refine ⟨hcalm, ⟨o, hl.driven _ _ _⟩, ⟨data', ?_⟩, h.fds, h.handles, fun r => ?_, fun r => ?_, ?_⟩
    · rw [mount_driven hm, if_pos rfl]
    · rw [hdev]
      exact h.dev r
    · rw [h.iso, isoOf_driven hm]
      by_cases hr : r = (handle.mount, handle.ifd)
      · rw [if_pos hr, if_pos hr]
      · rw [if_neg hr, if_neg hr]
        by_cases hrm : r.1 = handle.mount
        · have hri : r.2 ≠ handle.ifd := fun heq => hr (Prod.ext hrm heq)
          rw [if_pos hrm, hlook, if_neg hri]
          have hof := isoOf_of hm r.2
          rw [← hrm] at hof
          exact hof
        · rw [if_neg hrm]
    · obtain ⟨lhandle', hfile, hrefs⟩ := h.file
      rw [isoOf_of hm, hfound] at hfile
      cases hfile
      refine ⟨{ lhandle with pos := pos }, ?_, hrefs⟩
      rw [isoOf_driven hm, if_pos rfl, hlook, if_pos rfl]

theorem ImageOpen.fdOn {s s₁ s₂ : FsState} {fd : Nat} {d : FileDescriptor} {handle : FsHandle}
    (h : ImageOpen s s₁ fd d handle) {op : FileOp} (hop : op = .read ∨ op = .seek) {drive : Mount → Nat → Mount}
    (hdrive : ∀ mount ifd, mount.Quiet → Moved ifd mount (drive mount ifd)) (hs : fdOn s₁ op fd drive = some s₂) :
    ImageOpen s s₂ fd d handle := by
  obtain ⟨o, hl⟩ := h.leads
  rcases h.calm.fdOn_cases hop hdrive hs with rfl | ⟨d', handle', o', mount, mount', hl', hm, hmoved, rfl⟩
  · exact h
  · have hd := hl'.descriptor
    rw [hl.descriptor] at hd
    cases hd
    have hfound := hl'.found
    rw [hl.found] at hfound
    cases hfound
    exact h.moved hm hmoved

theorem ImageOpen.read {s s₁ s₂ : FsState} {fd len : Nat} {d : FileDescriptor} {handle : FsHandle}
    (h : ImageOpen s s₁ fd d handle) (hs : fdRead s₁ fd len = some s₂) : ImageOpen s s₂ fd d handle :=
  h.fdOn (.inl rfl) (fun _ ifd hq => mountRead_moved hq ifd len) hs

theorem ImageOpen.seek {s s₁ s₂ : FsState} {fd offset : Nat} {d : FileDescriptor} {handle : FsHandle}
    (h : ImageOpen s s₁ fd d handle) (hs : fdSeek s₁ fd offset = some s₂) : ImageOpen s s₂ fd d handle :=
  h.fdOn (.inr rfl) (fun _ ifd hq => mountSeek_moved hq ifd _) hs

theorem ImageOpen.pages {s : FsState} {fd pgFsize : Nat} {d : FileDescriptor} {handle : FsHandle} :
    ∀ {n i remaining : Nat} {s₁ s₂ : FsState}, ImageOpen s s₁ fd d handle →
    elfPages fd pgFsize n i remaining s₁ = some s₂ → ImageOpen s s₂ fd d handle := by
  intro n
  induction n with
  | zero =>
    intro i remaining s₁ s₂ h hs
    cases hs
    exact h
  | succ n ih =>
    intro i remaining s₁ s₂ h hs
    unfold elfPages at hs
    split at hs
    · obtain ⟨s', hread, hrest⟩ := Option.bind_eq_some_iff.mp hs
      exact ih (h.read hread) hrest
    · exact ih h hs

theorem ImageOpen.sections {s : FsState} {fd : Nat} {d : FileDescriptor} {handle : FsHandle}
    {pheaders : List ElfProgramHeader} : ∀ {s₁ s₂ : FsState}, ImageOpen s s₁ fd d handle →
    elfSections fd pheaders s₁ = some s₂ → ImageOpen s s₂ fd d handle := by
  induction pheaders with
  | nil =>
    intro s₁ s₂ h hs
    cases hs
    exact h
  | cons pheader pheaders ih =>
    intro s₁ s₂ h hs
    unfold elfSections at hs
    split at hs
    · exact ih h hs
    · obtain ⟨s', hseek, hs⟩ := Option.bind_eq_some_iff.mp hs
      obtain ⟨s'', hpages, hrest⟩ := Option.bind_eq_some_iff.mp hs
      exact ih ((h.seek hseek).pages hpages) hrest

theorem ImageOpen.closed {s s₁ s₂ : FsState} {fd : Nat} {d : FileDescriptor} {handle : FsHandle}
    (h : ImageOpen s s₁ fd d handle) {ret ret' : Int} (hs : closing fd ret s₁ = some (ret', s₂)) :
    Calm s₂ ∧ Alike s s₂ := by
  obtain ⟨o, hl⟩ := h.leads
  obtain ⟨data, hm⟩ := h.mount
  obtain ⟨lhandle, hfile, hrefs⟩ := h.file
  obtain ⟨out, hclose, hret⟩ := Option.map_eq_some_iff.mp hs
  have hcalm : Calm out.2 := h.calm.step (l := .fdClose fd) (by simp only [fsStep, hclose, Option.map_some])
  cases hret
  refine ⟨hcalm, ?_⟩
  rw [h.calm.chained.fdClose_eq hl hm] at hclose
  cases hclose
  have hquiet : Rc.Quiet data.lhandles := h.calm.quiet _ _ hm
  rw [isoOf_of hm] at hfile
  obtain ⟨-, hlook⟩ := isoClose_changed hquiet hfile
  -- nobody else has the handle, so it goes away
  have hzero : lhandle.refs - 1 = 0 := by omega
  rw [if_pos hzero] at hlook
  refine ⟨fun j => ?_, fun j => ?_, fun r => ?_, fun r => ?_⟩
  · show look (s₁.fds.set fd none) j = look s.fds j
    rw [look_clear hl.descriptor, h.fds]
  · show look (s₁.handles.set d.ifd none) j = look s.handles j
    rw [look_clear hl.found, h.handles]
  · have hdev := dev_driven_iso hm (isoClose data handle.ifd).2 []
    rw [h.dev r, ← hdev]
    rfl
  · have hiso : isoOf (s₁.driven handle.mount (.iso9660 (isoClose data handle.ifd).2) []) r = isoOf s r := by
      rw [isoOf_driven hm, h.iso]
      by_cases hrm : r.1 = handle.mount
      · have hof := isoOf_of hm r.2
        rw [← hrm] at hof
        rw [if_pos hrm, hlook]
        by_cases hri : r.2 = handle.ifd
        · rw [if_pos hri, if_pos (Prod.ext hrm hri)]
        · rw [if_neg hri, if_neg (fun heq => hri (congrArg Prod.snd heq))]
          exact hof.symm
      · rw [if_neg hrm, if_neg (fun heq => hrm (congrArg Prod.fst heq))]
    exact hiso

/-! ## `elf_load` -/

theorem elfLoadFrom_alike {image : ElfImage} {s s₁ s₂ : FsState} {fd : Nat} {d : FileDescriptor} {handle : FsHandle}
    {ret : Int} (h : ImageOpen s s₁ fd d handle) (hs : elfLoadFrom image fd s₁ = some (ret, s₂)) :
    Calm s₂ ∧ Alike s s₂ := by
  obtain ⟨sHeader, hheader, hs⟩ := Option.bind_eq_some_iff.mp hs
  have h₁ := h.read hheader
  split at hs
  · exact h₁.closed hs
  · obtain ⟨sSought, hseek, hs⟩ := Option.bind_eq_some_iff.mp hs
    obtain ⟨sRead, hread, hs⟩ := Option.bind_eq_some_iff.mp hs
    have h₂ := (h₁.seek hseek).read hread
    split at hs
    · exact h₂.closed hs
    · split at hs
      · cases hs
      · obtain ⟨sLoaded, hsections, hclose⟩ := Option.bind_eq_some_iff.mp hs
        exact (h₂.sections hsections).closed hclose

theorem imageOpen_attach {s : FsState} (h : Calm s) {m : Nat} {data : IsoPrivate}
    (hm : s.mounts[m]? = some (.iso9660 data)) (found : IsoFound) :
    ImageOpen s
      ({ s.driven m (.iso9660 (data.add (isoFileHandle found)).2) [] with calls := s.calls + 1 }.attach
        { mount := m, ifd := firstFree data.lhandles } fsOpenOps
        (some { number := s.calls, mount := m, dir := false }))
      (firstFree s.fds) { ifd := firstFree s.handles, ops := fsOpenOps }
      { mount := m, ifd := firstFree data.lhandles } := by
  have hquiet : Rc.Quiet data.lhandles := h.quiet _ _ hm
  have hadded : (Mount.iso9660 (data.add (isoFileHandle found)).2).Quiet := hquiet.add (isoFileHandle found)
  have hdriven : Calm (s.driven m (.iso9660 (data.add (isoFileHandle found)).2) []) := h.driven hm hadded []
  have hlt : m < (s.mounts.set m (.iso9660 (data.add (isoFileHandle found)).2)).length := by
    rw [List.length_set]
    exact (List.getElem?_eq_some_iff.mp hm).1
  have hnext : Chained { s.driven m (.iso9660 (data.add (isoFileHandle found)).2) [] with calls := s.calls + 1 } :=
    hdriven.chained.congr rfl rfl rfl rfl
  have hchained : Chained ({ s.driven m (.iso9660 (data.add (isoFileHandle found)).2) [] with
      calls := s.calls + 1 }.attach { mount := m, ifd := firstFree data.lhandles } fsOpenOps
      (some { number := s.calls, mount := m, dir := false })) := hnext.attach rfl hlt rfl
  have hmount : (s.driven m (.iso9660 (data.add (isoFileHandle found)).2) []).mounts[m]? =
      some (.iso9660 (data.add (isoFileHandle found)).2) := by
    rw [mount_driven hm, if_pos rfl]
  -- the new entries are all in slots that were free
  have hadd := look_add data.lhandles (isoFileHandle found)
  refine ⟨⟨hchained, hdriven.quiet⟩, ⟨{ number := s.calls, mount := m, dir := false }, ?_, ?_, ?_, rfl, hlt, rfl⟩,
    ⟨_, hmount⟩, fun j => ?_, fun j => ?_, fun r => ?_, fun r => ?_, ⟨isoFileHandle found, ?_, rfl⟩⟩
  · rw [look_attach_fds]
    exact if_pos rfl
  · rw [look_attach_handles]
    exact if_pos rfl
  · exact Function.update_self ..
  · rw [look_attach_fds]
    by_cases hj : j = firstFree s.fds
    · rw [if_pos hj, hj, look_firstFree]
    · rw [if_neg hj]
      exact (if_neg hj).symm
  · rw [look_attach_handles]
    by_cases hj : j = firstFree s.handles
    · rw [if_pos hj, hj, look_firstFree]
    · rw [if_neg hj]
      exact (if_neg hj).symm
  · have hdev := dev_driven_iso hm (data.add (isoFileHandle found)).2 []
    rw [← hdev]
    rfl
  · have hiso := isoOf_driven hm (data.add (isoFileHandle found)).2 [] r
    have hlook : look (data.add (isoFileHandle found)).2.lhandles r.2 =
        if r.2 = firstFree data.lhandles then some (isoFileHandle found) else look data.lhandles r.2 := hadd r.2
    show isoOf s r = if r = (m, firstFree data.lhandles) then none else
      isoOf (s.driven m (.iso9660 (data.add (isoFileHandle found)).2) []) r
    rw [hiso, hlook]
    by_cases hrm : r.1 = m
    · have hof := isoOf_of hm r.2
      rw [← hrm] at hof
      have hof : isoOf s r = look data.lhandles r.2 := hof
      by_cases hri : r.2 = firstFree data.lhandles
      · rw [if_pos (Prod.ext hrm hri), hof, hri, look_firstFree]
      · rw [if_neg (fun heq => hri (congrArg Prod.snd heq)), if_pos hrm, if_neg hri, hof]
    · rw [if_neg (fun heq => hrm (congrArg Prod.fst heq)), if_neg hrm]
  · have hlook : look (data.add (isoFileHandle found)).2.lhandles (firstFree data.lhandles) =
        some (isoFileHandle found) := (hadd _).trans (if_pos rfl)
    exact (isoOf_of (s := s.driven m (.iso9660 (data.add (isoFileHandle found)).2) []) hmount _).trans hlook

theorem elfLoad_alike {s s' : FsState} (h : Calm s) {m : Nat} {data : IsoPrivate}
    (hm : s.mounts[m]? = some (.iso9660 data)) {path : CStr} {image : ElfImage} {ret : Int}
    (hs : elfLoad s m path image = some (ret, s')) : Calm s' ∧ Alike s s' := by
  obtain ⟨⟨fd, s₁⟩, hopen, hs⟩ := Option.bind_eq_some_iff.mp hs
  unfold fsOpen at hopen
  rw [hm] at hopen
  obtain ⟨⟨res, mount', events⟩, hmount, hfin⟩ := Option.map_eq_some_iff.mp hopen
  obtain ⟨out, hiso, hout⟩ := Option.map_eq_some_iff.mp hmount
  cases hout
  rcases isoOpen_cases hiso with ⟨e, rfl⟩ | ⟨found, rfl⟩
  · have hneg := isoOpen_error hiso
    cases hfin
    rw [if_pos hneg] at hs
    cases hs
    have hsame := driven_same hm
    simp only
    rw [hsame]
    exact ⟨⟨h.chained.congr rfl rfl rfl rfl, h.quiet⟩, fun _ => rfl, fun _ => rfl, fun _ => rfl, fun _ => rfl⟩
  · cases hfin
    have himage := imageOpen_attach h hm found
    have hnot : ¬ ((firstFree s.fds : Int) < 0) := Int.not_lt.mpr (Int.natCast_nonneg _)
    simp only [if_neg hnot, Int.toNat_natCast] at hs
    rw [← arrayAdd_fst data.lhandles (isoFileHandle found)] at himage
    exact elfLoadFrom_alike himage hs

theorem execLoad_alike {s s' : FsState} (h : Calm s) {m : Nat} {data : IsoPrivate}
    (hm : s.mounts[m]? = some (.iso9660 data)) {path : CStr} {image : ElfImage} {ret : Int}
    (hs : execLoad s m path image = some (ret, s')) : Calm s' ∧ Alike s s' := by
  obtain ⟨out, hload, hout⟩ := Option.map_eq_some_iff.mp hs
  have halike := elfLoad_alike h hm hload
  split at hout
  · cases hout
    exact halike
  · cases hout
    exact halike

end Aex.Exec
