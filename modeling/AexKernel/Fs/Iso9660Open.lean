import AexKernel.Fs.LayerKept
import AexKernel.Lib.Dealing

/- Which handles an `iso9660` mount keeps.

   The handle of a file starts with the count 1 and that of a directory with 0, and
   `iso9660_close` takes out a handle whose count has come to 0. So as long as no
   directory is closed, the table of a mount holds exactly the handles the open
   descriptors lead to; a directory that is closed stays in it. -/
namespace Aex.Fs
open Runs Rc Dealing

/-- The descriptor is of a directory on an `iso9660` mount. -/
def FsState.isIsoDir (s : FsState) (fd : Nat) : Bool :=
  match s.origin fd with
  | none => false
  | some o => match s.mounts[o.mount]? with
    | some (.iso9660 _) => o.dir
    | _ => false

/-- No descriptor of a directory on an `iso9660` mount is closed. -/
def noIsoDirClosed : FsLabel → FsState → Prop
  | .fdClose fd, s => s.isIsoDir fd = false
  | _, _ => True

instance (l : FsLabel) (s : FsState) : Decidable (noIsoDirClosed l s) :=
  match l with
  | .fdClose fd => inferInstanceAs (Decidable (s.isIsoDir fd = false))
  | .fsOpen _ _ _ _ => inferInstanceAs (Decidable True)
  | .fsOpendir _ _ _ => inferInstanceAs (Decidable True)
  | .fdDup _ => inferInstanceAs (Decidable True)
  | .devRegister _ => inferInstanceAs (Decidable True)

/-! ## What each call of the driver does -/

/-- A call that opens something leaves the table as it was, or adds the handle whose
id it returns. -/
inductive IsoOpened (data : IsoPrivate) (dir : Bool) : Except Int Nat → IsoPrivate → Prop
  | failed (e : Int) : IsoOpened data dir (.error e) data
  | added (handle : IsoLhandle) (hrefs : dir = false → handle.refs = 1) :
      IsoOpened data dir (.ok (firstFree data.lhandles)) { data with lhandles := (arrayAdd data.lhandles handle).2 }

theorem IsoOpened.add {data : IsoPrivate} {dir : Bool} (handle : IsoLhandle) (hrefs : dir = false → handle.refs = 1) :
    IsoOpened data dir (data.add handle).1 (data.add handle).2 := by
  have hid : (data.add handle).1 = .ok (firstFree data.lhandles) := congrArg Except.ok (arrayAdd_fst _ _)
  rw [hid]
  exact .added handle hrefs

theorem isoOpen_spec {data : IsoPrivate} {path : CStr} {unset : IsoUnset} {out : Except Int Nat × IsoPrivate}
    (h : isoOpen data path unset = some out) : IsoOpened data false out.1 out.2 := by
  obtain ⟨ret, -, rfl⟩ := Option.map_eq_some_iff.mp h
  cases ret with
  | error e => exact .failed e
  | ok found =>
    simp only
    split
    · exact .failed _
    · exact .add (isoFileHandle found) (fun _ => rfl)

theorem isoOpendir_spec {data : IsoPrivate} {path : CStr} {unset : IsoUnset} {out : Except Int Nat × IsoPrivate}
    (h : isoOpendir data path unset = some out) : IsoOpened data true out.1 out.2 := by
  obtain ⟨ret, -, rfl⟩ := Option.map_eq_some_iff.mp h
  cases ret with
  | error e => exact .failed e
  | ok found =>
    simp only
    split
    · exact .failed _
    · exact .add (isoDirHandle data.disc unset found) (fun hdir => absurd hdir.symm Bool.false_ne_true)

theorem isoClose_file {data : IsoPrivate} (h : Quiet data.lhandles) {ifd : Nat} {handle : IsoLhandle}
    (hfound : look data.lhandles ifd = some handle) (hrefs : handle.refs = 1) :
    (isoClose data ifd).2 = { data with lhandles := data.lhandles.set ifd none } := by
  have hgot := arrayGet_slot (h.slot_of_look hfound) rfl
  have hremove := h.get_write_remove hfound { handle with refs := handle.refs - 1 }
  rw [hgot] at hremove
  simp only [Entry.resting] at hgot hremove
  have hzero : handle.refs - 1 = 0 := by omega
  simp only [isoClose, hgot]
  rw [if_pos hzero, hremove]

/-! ## The table of a mount -/

/-- The handles of a mount are those the descriptors lead to, each from one, and a
file's handle has the count 1. -/
structure IsoTable (target : Nat → Option (Nat × Nat)) (origin : Nat → Option Origin) (m : Nat)
    (data : IsoPrivate) : Prop where
  quiet : Quiet data.lhandles
  present : ∀ i, look data.lhandles i ≠ none ↔ ∃ fd, target fd = some (m, i)
  single : ∀ fd fd' i, target fd = some (m, i) → target fd' = some (m, i) → fd = fd'
  refs : ∀ fd o i handle, target fd = some (m, i) → origin fd = some o → o.dir = false →
    look data.lhandles i = some handle → handle.refs = 1

variable {target : Nat → Option (Nat × Nat)} {origin : Nat → Option Origin} {m fd : Nat} {data : IsoPrivate}

theorem IsoTable.elsewhere (h : IsoTable target origin m data) {new : Option (Nat × Nat)} (o : Option Origin)
    (hold : ∀ i, target fd ≠ some (m, i)) (hnew : ∀ i, new ≠ some (m, i)) :
    IsoTable (Function.update target fd new) (Function.update origin fd o) m data := by
  have hsame : ∀ fd' i, Function.update target fd new fd' = some (m, i) → fd' ≠ fd ∧ target fd' = some (m, i) := by
    intro fd' i hi
    rcases update_some hi with ⟨-, heq⟩ | hi
    · exact absurd heq (hnew i)
    · exact hi
  refine ⟨h.quiet, fun i => ?_, fun x y i hx hy => ?_, fun x ox i handle hx hox hdir hfound => ?_⟩
  · rw [h.present]
    constructor
    · rintro ⟨x, hx⟩
      have hxfd : x ≠ fd := by
        rintro rfl
        exact hold i hx
      exact ⟨x, by rw [Function.update_of_ne hxfd]; exact hx⟩
    · rintro ⟨x, hx⟩
      exact ⟨x, (hsame x i hx).2⟩
  · exact h.single x y i (hsame x i hx).2 (hsame y i hy).2
  · obtain ⟨hxfd, hxi⟩ := hsame x i hx
    rw [Function.update_of_ne hxfd] at hox
    exact h.refs x ox i handle hxi hox hdir hfound

theorem IsoTable.add (h : IsoTable target origin m data) {handle : IsoLhandle} {o : Origin}
    (hfd : target fd = none) (hrefs : o.dir = false → handle.refs = 1) :
    IsoTable (Function.update target fd (some (m, firstFree data.lhandles))) (Function.update origin fd (some o)) m
      { data with lhandles := (arrayAdd data.lhandles handle).2 } := by
  have hlook := look_add data.lhandles handle
  have hnobody : ∀ x, target x ≠ some (m, firstFree data.lhandles) := by
    intro x hx
    exact (h.present _).mpr ⟨x, hx⟩ (look_firstFree _)
  refine ⟨h.quiet.add _, fun i => ?_, fun x y i hx hy => ?_, fun x ox i handle' hx hox hdir hfound => ?_⟩
  · show look (arrayAdd data.lhandles handle).2 i ≠ none ↔ _
    rw [hlook]
    by_cases hi : i = firstFree data.lhandles
    · rw [if_pos hi]
      exact ⟨fun _ => ⟨fd, by rw [Function.update_self, hi]⟩, fun _ => Option.some_ne_none _⟩
    · rw [if_neg hi, h.present]
      constructor
      · rintro ⟨x, hx⟩
        have hxfd : x ≠ fd := by
          rintro rfl
          rw [hfd] at hx
          cases hx
        exact ⟨x, by rw [Function.update_of_ne hxfd]; exact hx⟩
      · rintro ⟨x, hx⟩
        rcases update_some hx with ⟨-, heq⟩ | ⟨-, hx⟩
        · cases heq
          exact absurd rfl hi
        · exact ⟨x, hx⟩
  · rcases update_some hx with ⟨rfl, heq⟩ | ⟨-, hxold⟩
    · cases heq
      rcases update_some hy with ⟨rfl, -⟩ | ⟨-, hyold⟩
      · rfl
      · exact absurd hyold (hnobody y)
    · rcases update_some hy with ⟨-, heq⟩ | ⟨-, hyold⟩
      · cases heq
        exact absurd hxold (hnobody x)
      · exact h.single x y i hxold hyold
  · rw [hlook] at hfound
    rcases update_some hx with ⟨hxfd, heq⟩ | ⟨hxfd, hxold⟩
    · cases heq
      rw [hxfd, Function.update_self] at hox
      cases hox
      rw [if_pos rfl] at hfound
      cases hfound
      exact hrefs hdir
    · rw [Function.update_of_ne hxfd] at hox
      have hi : i ≠ firstFree data.lhandles := by
        rintro rfl
        exact hnobody x hxold
      rw [if_neg hi] at hfound
      exact h.refs x ox i handle' hxold hox hdir hfound

theorem IsoTable.remove (h : IsoTable target origin m data) {i : Nat} (hfd : target fd = some (m, i)) :
    IsoTable (Function.update target fd none) (Function.update origin fd none) m
      { data with lhandles := data.lhandles.set i none } := by
  obtain ⟨handle, hfound⟩ := Option.ne_none_iff_exists'.mp ((h.present i).mpr ⟨fd, hfd⟩)
  have hlook := look_clear hfound
  have hrest : ∀ x j, Function.update target fd none x = some (m, j) → x ≠ fd ∧ target x = some (m, j) ∧ j ≠ i := by
    intro x j hx
    obtain ⟨hxfd, hxold⟩ := update_none_some hx
    refine ⟨hxfd, hxold, ?_⟩
    rintro rfl
    exact hxfd (h.single x fd j hxold hfd)
  refine ⟨h.quiet.set hfound (.inl rfl), fun j => ?_, fun x y j hx hy => ?_, fun x ox j handle' hx hox hdir hj => ?_⟩
  · show look (data.lhandles.set i none) j ≠ none ↔ _
    rw [hlook]
    by_cases hj : j = i
    · rw [if_pos hj]
      refine ⟨fun hne => absurd rfl hne, fun ⟨x, hx⟩ => absurd hj (hrest x j hx).2.2⟩
    · rw [if_neg hj, h.present]
      constructor
      · rintro ⟨x, hx⟩
        have hxfd : x ≠ fd := by
          rintro rfl
          rw [hfd] at hx
          cases hx
          exact hj rfl
        exact ⟨x, by rw [Function.update_of_ne hxfd]; exact hx⟩
      · rintro ⟨x, hx⟩
        exact ⟨x, (hrest x j hx).2.1⟩
  · exact h.single x y j (hrest x j hx).2.1 (hrest y j hy).2.1
  · obtain ⟨hxfd, hxold, hji⟩ := hrest x j hx
    rw [Function.update_of_ne hxfd] at hox
    rw [hlook, if_neg hji] at hj
    exact h.refs x ox j handle' hxold hox hdir hj

/-! ## The calls -/

/-- The descriptors lead somewhere, and the table of each `iso9660` mount is
right. -/
structure IsoKept (s : FsState) : Prop where
  chained : Chained s
  tables : ∀ (m : Nat) (data : IsoPrivate), s.mounts[m]? = some (.iso9660 data) → IsoTable s.target s.origin m data

theorem isoKept_start {mounts : List Mount} (hfresh : ∀ mount ∈ mounts, mount.Fresh) (devs : List Device) :
    IsoKept (fsStart mounts devs) := by
  refine ⟨chained_start mounts devs, fun m data hm => ?_⟩
  have hnil : data.lhandles = [] := hfresh _ (List.mem_of_getElem? hm)
  refine ⟨?_, fun i => ?_, fun _ _ _ h => absurd h.symm (Option.some_ne_none _),
    fun _ _ _ _ h => absurd h.symm (Option.some_ne_none _)⟩
  · rw [hnil]
    exact quiet_nil
  · rw [hnil]
    exact ⟨fun hne => absurd rfl hne, fun ⟨_, h⟩ => absurd h.symm (Option.some_ne_none _)⟩

theorem IsoKept.driven {s : FsState} (h : IsoKept s) {m : Nat} {mount mount' : Mount} (hm : s.mounts[m]? = some mount)
    {target' : Nat → Option (Nat × Nat)} {origin' : Nat → Option Origin} (events : List DevEvent)
    (hother : ∀ k data, k ≠ m → IsoTable s.target s.origin k data → IsoTable target' origin' k data)
    (hself : ∀ data, mount' = .iso9660 data → IsoTable target' origin' m data) :
    ∀ (k : Nat) (data : IsoPrivate), (s.driven m mount' events).mounts[k]? = some (.iso9660 data) →
      IsoTable target' origin' k data := by
  intro k data hk
  rw [mount_driven hm] at hk
  by_cases hkm : k = m
  · rw [if_pos hkm] at hk
    rw [hkm]
    exact hself data (Option.some.inj hk)
  · rw [if_neg hkm] at hk
    exact hother k data hkm (h.tables k data hk)

theorem IsoKept.failed {s : FsState} (h : IsoKept s) {m : Nat} {mount mount' : Mount} (hm : s.mounts[m]? = some mount)
    (hself : ∀ data, mount' = .iso9660 data → mount = .iso9660 data) (events : List DevEvent) :
    IsoKept { s.driven m mount' events with calls := s.calls + 1 } := by
  refine ⟨h.chained.congr rfl rfl rfl List.length_set, h.driven hm events (fun _ _ _ ht => ht) (fun data heq => ?_)⟩
  rw [hself data heq] at hm
  exact h.tables m data hm

theorem IsoKept.attach {s : FsState} (h : IsoKept s) {m id : Nat} {mount mount' : Mount} {ops : FileOp → Bool}
    {o : Origin} (hm : s.mounts[m]? = some mount) (hsame : o.mount = m)
    (hops : ops = if o.dir = true then fsOpendirOps else fsOpenOps) (events : List DevEvent) (calls : Nat)
    (hself : ∀ data, mount' = .iso9660 data → IsoTable (Function.update s.target (firstFree s.fds) (some (m, id)))
      (Function.update s.origin (firstFree s.fds) (some o)) m data) :
    IsoKept ({ s.driven m mount' events with calls := calls }.attach { mount := m, ifd := id } ops (some o)) := by
  have hdriven : Chained { s.driven m mount' events with calls := calls } :=
    h.chained.congr rfl rfl rfl List.length_set
  have hlt : m < (s.mounts.set m mount').length := by
    rw [List.length_set]
    exact (List.getElem?_eq_some_iff.mp hm).1
  refine ⟨hdriven.attach hsame hlt hops, ?_⟩
  have htarget := hdriven.target_attach { mount := m, ifd := id } ops (some o)
  rw [htarget]
  refine h.driven hm events (fun k data hkm ht => ht.elsewhere (some o) (fun i hi => ?_) (fun i hi => ?_)) hself
  · have hfree : s.target (firstFree s.fds) = some (k, i) := hi
    rw [target_free] at hfree
    cases hfree
  · cases hi
    exact hkm rfl

theorem IsoKept.finish {s : FsState} (h : IsoKept s) {m : Nat} {mount : Mount}
    {out : Except Int Nat × Mount × List DevEvent} {dir : Bool} (hm : s.mounts[m]? = some mount)
    (hout : Opens s mount out dir) :
    IsoKept (s.finish m (if dir = true then fsOpendirOps else fsOpenOps) dir out).2 := by
  cases mount with
  | devfs lhandles =>
    have hdevfs : ∃ ret lhandles' events, out = (ret, .devfs lhandles', events) := by
      cases hout with
      | file path unset answer hopen =>
        simp only [Mount.open, Option.some.injEq] at hopen
        exact ⟨_, _, _, hopen.symm⟩
      | dir path unset hopen =>
        simp only [Mount.opendir, Option.some.injEq] at hopen
        exact ⟨_, _, _, hopen.symm⟩
    obtain ⟨ret, lhandles', events, rfl⟩ := hdevfs
    cases ret with
    | error e =>
      refine h.failed hm (fun _ heq => ?_) events
      cases heq
    | ok id =>
      refine h.attach (o := { number := s.calls, mount := m, dir := dir }) hm rfl rfl events _ (fun _ heq => ?_)
      cases heq
  | iso9660 data =>
    have hiso : ∃ ret data', out = (ret, .iso9660 data', []) ∧ IsoOpened data dir ret data' := by
      cases hout with
      | file path unset answer hopen =>
        obtain ⟨o, ho, rfl⟩ := Option.map_eq_some_iff.mp hopen
        exact ⟨_, _, rfl, isoOpen_spec ho⟩
      | dir path unset hopen =>
        obtain ⟨o, ho, rfl⟩ := Option.map_eq_some_iff.mp hopen
        exact ⟨_, _, rfl, isoOpendir_spec ho⟩
    obtain ⟨ret, data', rfl, hopened⟩ := hiso
    cases hopened with
    | failed e =>
      refine h.failed hm (fun _ heq => ?_) []
      cases heq
      rfl
    | added handle hrefs =>
      refine h.attach (o := { number := s.calls, mount := m, dir := dir }) hm rfl rfl [] _ (fun _ heq => ?_)
      cases heq
      exact (h.tables m data hm).add (target_free s) hrefs

theorem IsoKept.close {s : FsState} (h : IsoKept s) {fd : Nat} {d : FileDescriptor} {handle : FsHandle} {o : Origin}
    {mount : Mount} (hl : Leads s fd d handle o) (hm : s.mounts[handle.mount]? = some mount)
    (hsafe : ∀ data, mount = .iso9660 data → o.dir = false) :
    IsoKept ((s.detach fd d).driven handle.mount (mount.close s.devs handle.ifd).2.1
      (mount.close s.devs handle.ifd).2.2) := by
  refine ⟨(h.chained.detach hl).driven _ _ _, ?_⟩
  have htables : ∀ (k : Nat) (data : IsoPrivate), (s.driven handle.mount (mount.close s.devs handle.ifd).2.1
      (mount.close s.devs handle.ifd).2.2).mounts[k]? = some (.iso9660 data) →
      IsoTable (Function.update s.target fd none) (Function.update s.origin fd none) k data := by
    refine h.driven hm _ (fun k data hkm ht => ht.elsewhere none (fun i hi => ?_) (fun i hi => by cases hi)) ?_
    · rw [hl.target] at hi
      cases hi
      exact hkm rfl
    · intro data' heq
      cases mount with
      | devfs lhandles => cases heq
      | iso9660 data =>
        have htable := h.tables _ data hm
        obtain ⟨lhandle, hfound⟩ := Option.ne_none_iff_exists'.mp ((htable.present handle.ifd).mpr ⟨fd, hl.target⟩)
        have hrefs := htable.refs fd o handle.ifd lhandle hl.target hl.origin (hsafe data rfl) hfound
        have hdata : data' = (isoClose data handle.ifd).2 := (Mount.iso9660.inj heq).symm
        rw [hdata, isoClose_file htable.quiet hfound hrefs]
        exact htable.remove hl.target
  rw [← h.chained.target_detach hl] at htables
  exact htables

theorem IsoKept.step {l : FsLabel} {s s' : FsState} (hc : noIsoDirClosed l s) (hs : fsStep l s = some s')
    (h : IsoKept s) : IsoKept s' := by
  cases h.chained.call hs with
  | same => exact h
  | registered dev => exact ⟨h.chained.congr rfl rfl rfl rfl, h.tables⟩
  | opened l m mount out dir hm hout => exact h.finish hm hout
  | dup fd d handle o lhandles lhandle hl hm hdir hfound =>
    exact h.attach hm hl.same hl.ops [] s.calls (fun _ heq => by cases heq)
  | close fd d handle o mount hl hm =>
    refine h.close hl hm (fun data hdata => ?_)
    rw [hdata, ← hl.same] at hm
    simp only [noIsoDirClosed, FsState.isIsoDir, hl.origin, hm] at hc
    exact hc

/-! ## Every run -/

/-- In every run in which no descriptor of a directory on an `iso9660` mount is
closed, the table of each such mount has a handle exactly for each descriptor that
is open on it. -/
theorem iso9660_handles_open {mounts : List Mount} {devs : List Device} {tr : List FsLabel} {s : FsState}
    (hfresh : ∀ mount ∈ mounts, mount.Fresh) (hr : Run fsStep noIsoDirClosed (fsStart mounts devs) tr s)
    {m : Nat} {data : IsoPrivate} (hm : s.mounts[m]? = some (.iso9660 data)) :
    (∀ i, look data.lhandles i ≠ none ↔ ∃! fd, s.target fd = some (m, i)) ∧
    ∀ fd o, s.origin fd = some o → o.mount = m → ∃ i, s.target fd = some (m, i) := by
  have hkept : IsoKept s := hr.invariant (fun _ _ _ hc hs h => h.step hc hs) (isoKept_start hfresh devs)
  have htable := hkept.tables m data hm
  constructor
  · intro i
    rw [htable.present]
    exact ⟨fun ⟨fd, hfd⟩ => ⟨fd, hfd, fun fd' hfd' => htable.single fd' fd i hfd' hfd⟩, fun ⟨fd, hfd, _⟩ => ⟨fd, hfd⟩⟩
  · intro fd o ho hom
    cases hd : look s.fds fd with
    | none =>
      rw [hkept.chained.unopened fd hd] at ho
      cases ho
    | some d =>
      obtain ⟨handle, o', hl⟩ := hkept.chained.leads fd d hd
      rw [hl.origin] at ho
      cases ho
      refine ⟨handle.ifd, ?_⟩
      rw [hl.target, ← hl.same, hom]

/-- A mount whose root directory has a file `A` and a directory `D`. -/
def sampleMount : Mount :=
  .iso9660 {
    disc := fun _ => some sampleBlock
    rootLba := 19
    rootLen := 2048
    lhandles := [] }

def sampleUnset : IsoUnset where
  type := .none
  buffer := fun _ => 0
  fuel := 3

/-- Whether an `iso9660` mount has a handle under an id. -/
def Mount.hasLhandle (i : Nat) : Mount → Bool
  | .iso9660 data => (look data.lhandles i).isSome
  | .devfs _ => false

theorem hasLhandle_iso {i : Nat} {mount : Mount} (h : mount.hasLhandle i = true) :
    ∃ data, mount = .iso9660 data ∧ look data.lhandles i ≠ none := by
  cases mount with
  | devfs lhandles => cases h
  | iso9660 data => exact ⟨data, rfl, Option.isSome_iff_ne_none.mp h⟩

theorem sampleMount_fresh : ∀ mount ∈ [sampleMount], mount.Fresh := by
  intro mount hmount
  rw [List.mem_singleton.mp hmount]
  rfl

/-- A file and a directory are opened and the file is closed: the directory has the
only handle. -/
theorem iso9660_handles_open_closed : ∃ s data, Run fsStep noIsoDirClosed (fsStart [sampleMount] [])
      [.fsOpen 0 (cstr "/A") sampleUnset { ret := 0, data := 0 }, .fsOpendir 0 (cstr "/D") sampleUnset, .fdClose 0] s ∧
    s.mounts[0]? = some (.iso9660 data) ∧ ∃! fd, s.target fd = some (0, 1) := by
  have hrun : ∃ s, Run fsStep noIsoDirClosed (fsStart [sampleMount] [])
        [.fsOpen 0 (cstr "/A") sampleUnset { ret := 0, data := 0 }, .fsOpendir 0 (cstr "/D") sampleUnset, .fdClose 0] s ∧
      (s.mounts[0]?).any (Mount.hasLhandle 1) = true :=
    run_such (by decide +kernel)
  obtain ⟨s, hr, hany⟩ := hrun
  obtain ⟨mount, hm, hhas⟩ := (Option.any_eq_true _ _).mp hany
  obtain ⟨data, rfl, hfound⟩ := hasLhandle_iso hhas
  exact ⟨s, data, hr, hm, ((iso9660_handles_open sampleMount_fresh hr hm).1 1).mp hfound⟩

/-- A directory is opened and closed, and its handle stays. -/
theorem iso9660_dir_stays : ∃ s data, Run fsStep anyStep (fsStart [sampleMount] [])
      [.fsOpendir 0 (cstr "/D") sampleUnset, .fdClose 0] s ∧ s.mounts[0]? = some (.iso9660 data) ∧
    ¬ ∀ i, look data.lhandles i ≠ none ↔ ∃! fd, s.target fd = some (0, i) := by
  have hrun : ∃ s, Run fsStep anyStep (fsStart [sampleMount] [])
        [.fsOpendir 0 (cstr "/D") sampleUnset, .fdClose 0] s ∧
      ((s.mounts[0]?).any (Mount.hasLhandle 0) = true ∧ s.fds.length = 1 ∧ s.target 0 = none) :=
    run_such (by decide +kernel)
  obtain ⟨s, hr, hany, hlen, hzero⟩ := hrun
  obtain ⟨mount, hm, hhas⟩ := (Option.any_eq_true _ _).mp hany
  obtain ⟨data, rfl, hfound⟩ := hasLhandle_iso hhas
  refine ⟨s, data, hr, hm, fun hall => ?_⟩
  obtain ⟨fd, hfd, -⟩ := (hall 0).mp hfound
  obtain ⟨d, hd, -⟩ := Option.bind_eq_some_iff.mp hfd
  obtain ⟨e, he, -, -⟩ := look_some.mp hd
  have hlt : fd < s.fds.length := slot_lt he
  have hfd0 : fd = 0 := by omega
  rw [hfd0, hzero] at hfd
  cases hfd

end Aex.Fs
