import AexKernel.Fs.Layer
import AexKernel.Lib.Dealing
import AexKernel.Lib.Sharing

/- What the open descriptors owe the character devices.

   A session is a successful `open` of a device: it is known by the number of the
   call, shared by the descriptors that come from that call, and over when the
   device's `close` is called with the same `dev_fd_t`. `Sessions` relates who
   leads where, the handles with their counts and the events so far; its rules are
   one for each way the descriptors change. -/
namespace Aex.Fs
open Sharing Dealing

/-- Each close in the log is of something opened before and not closed before. -/
def Paired (log : List DevEvent) : Prop :=
  ∀ pre id dfd post, log = pre ++ .closed id dfd :: post → .opened id dfd ∈ pre ∧ .closed id dfd ∉ pre

theorem concat_split {log pre post : List DevEvent} {e x : DevEvent} (h : log ++ [x] = pre ++ e :: post) :
    (pre = log ∧ e = x) ∨ ∃ post', log = pre ++ e :: post' := by
  cases post using List.reverseRecOn with
  | nil =>
    obtain ⟨hpre, hlast⟩ := List.append_inj' h rfl
    cases hlast
    exact Or.inl ⟨hpre.symm, rfl⟩
  | append_singleton post' y =>
    rw [← List.cons_append, ← List.append_assoc] at h
    exact Or.inr ⟨post', (List.append_inj' h rfl).1⟩

theorem Paired.opened {log : List DevEvent} (h : Paired log) (id : Nat) (dfd : DevFd) :
    Paired (log ++ [.opened id dfd]) := by
  intro pre id' dfd' post heq
  rcases concat_split heq with ⟨-, he⟩ | ⟨post', hlog⟩
  · cases he
  · exact h pre id' dfd' post' hlog

theorem Paired.closed {log : List DevEvent} (h : Paired log) {id : Nat} {dfd : DevFd} (hin : .opened id dfd ∈ log)
    (hnot : .closed id dfd ∉ log) : Paired (log ++ [.closed id dfd]) := by
  intro pre id' dfd' post heq
  rcases concat_split heq with ⟨rfl, he⟩ | ⟨post', hlog⟩
  · cases he
    exact ⟨hin, hnot⟩
  · exact h pre id' dfd' post' hlog

theorem Paired.opened_mem {log : List DevEvent} (h : Paired log) {id : Nat} {dfd : DevFd}
    (hin : .closed id dfd ∈ log) : .opened id dfd ∈ log := by
  obtain ⟨pre, post, heq⟩ := List.append_of_mem hin
  have hpre := (h pre id dfd post heq).1
  rw [heq]
  exact List.mem_append_left _ hpre

/-! ## The sessions -/

/-- Where a descriptor is from and the handle it leads to: a file's device was
opened and is still a character device, and a directory's handle has the id 0. -/
def Known (chars : Nat → Bool) (log : List DevEvent) (handle : DevLhandle) (o : Origin) : Prop :=
  o.number = handle.devFd.number ∧
    ((o.dir = false ∧ .opened handle.id handle.devFd ∈ log ∧ chars handle.id = true) ∨ (o.dir = true ∧ handle.id = 0))

/-- The counts of the handles. -/
def refsOf (dev : Nat × Nat → Option DevLhandle) (r : Nat × Nat) : Int := ((dev r).map DevLhandle.refs).getD 0

/-- `hold` says where the descriptors lead, `origin` where they are from, `dev` what
handles the `devfs` mounts have, `kind` which mounts those are, `chars` which
devices are character devices, and `calls` how many calls have opened something. -/
structure Sessions (hold : Nat → Option (Nat × Nat)) (origin : Nat → Option Origin)
    (dev : Nat × Nat → Option DevLhandle) (kind : Nat × Nat → Prop) (chars : Nat → Bool) (calls : Nat)
    (log : List DevEvent) : Prop where
  shared : Shared kind hold (refsOf dev)
  entry : ∀ fd r, hold fd = some r → kind r → ∃ handle o, dev r = some handle ∧ origin fd = some o ∧
    Known chars log handle o
  same : ∀ fd fd' o o', origin fd = some o → origin fd' = some o' → o.number = o'.number → hold fd = hold fd'
  below : ∀ fd o, origin fd = some o → o.number < calls
  event : ∀ id dfd, .opened id dfd ∈ log → dfd.number < calls ∧ ∀ fd o, origin fd = some o →
    o.number = dfd.number → o.dir = false ∧ ∃ r, hold fd = some r ∧ kind r
  unique : ∀ id id' dfd dfd', .opened id dfd ∈ log → .opened id' dfd' ∈ log → dfd.number = dfd'.number →
    id = id' ∧ dfd = dfd'
  paired : Paired log
  last : ∀ id dfd, .opened id dfd ∈ log →
    (.closed id dfd ∈ log ↔ ∀ fd o, origin fd = some o → o.number ≠ dfd.number)

variable {hold : Nat → Option (Nat × Nat)} {origin : Nat → Option Origin} {dev dev' : Nat × Nat → Option DevLhandle}
  {kind : Nat × Nat → Prop} {chars chars' : Nat → Bool} {calls calls' : Nat} {log log' : List DevEvent}

theorem refsOf_some {r : Nat × Nat} {handle : DevLhandle} (h : dev r = some handle) : refsOf dev r = handle.refs := by
  unfold refsOf
  rw [h]
  rfl

theorem refsOf_congr {r : Nat × Nat} (h : dev' r = dev r) : refsOf dev' r = refsOf dev r := by
  unfold refsOf
  rw [h]

theorem sessions_nil (dev : Nat × Nat → Option DevLhandle) (kind : Nat × Nat → Prop) (chars : Nat → Bool) :
    Sessions (fun _ => none) (fun _ => none) dev kind chars 0 [] where
  shared := ⟨by simp, fun _ _ _ h => absurd h.symm (Option.some_ne_none _)⟩
  entry := fun _ _ h => absurd h.symm (Option.some_ne_none _)
  same := fun _ _ _ _ h => absurd h.symm (Option.some_ne_none _)
  below := fun _ _ h => absurd h.symm (Option.some_ne_none _)
  event := fun _ _ h => absurd h List.not_mem_nil
  unique := fun _ _ _ _ h => absurd h List.not_mem_nil
  paired := fun pre _ _ post h => absurd h (by simp)
  last := fun _ _ h => absurd h List.not_mem_nil

theorem Known.mono {handle : DevLhandle} {o : Origin} (h : Known chars log handle o)
    (hchars : ∀ id, chars id = true → chars' id = true) (hlog : ∀ e ∈ log, e ∈ log') : Known chars' log' handle o := by
  obtain ⟨hnum, ⟨hfile, hin, hchar⟩ | hdir⟩ := h
  · exact ⟨hnum, .inl ⟨hfile, hlog _ hin, hchars _ hchar⟩⟩
  · exact ⟨hnum, .inr hdir⟩

/-- Handles that nobody leads to come or change, calls are made, devices are
registered. -/
theorem Sessions.grow (h : Sessions hold origin dev kind chars calls log)
    (hdev : ∀ fd r, hold fd = some r → kind r → dev' r = dev r) (hchars : ∀ id, chars id = true → chars' id = true)
    (hcalls : calls ≤ calls') : Sessions hold origin dev' kind chars' calls' log := by
  refine ⟨⟨h.shared.finite, fun fd r hk hr => ?_⟩, fun fd r hr hk => ?_, h.same, fun fd o ho => ?_,
    fun id dfd hin => ?_, h.unique, h.paired, h.last⟩
  · rw [refsOf_congr (hdev fd r hr hk)]
    exact h.shared.count fd r hk hr
  · obtain ⟨handle, o, hhandle, ho, hknown⟩ := h.entry fd r hr hk
    refine ⟨handle, o, ?_, ho, hknown.mono hchars (fun _ he => he)⟩
    rw [hdev fd r hr hk]
    exact hhandle
  · exact Nat.lt_of_lt_of_le (h.below fd o ho) hcalls
  · obtain ⟨hlt, hfiles⟩ := h.event id dfd hin
    exact ⟨Nat.lt_of_lt_of_le hlt hcalls, hfiles⟩

/-- After a call that may have opened a device, an opening in the log is an old one,
or has the number of the call. -/
theorem Sessions.opened_cases (h : Sessions hold origin dev kind chars calls log) {file : Prop}
    (hlog : log' = log ∨ ∃ id dfd, log' = log ++ [.opened id dfd] ∧ dfd.number = calls ∧ file) {id : Nat} {dfd : DevFd}
    (hin : .opened id dfd ∈ log') :
    (.opened id dfd ∈ log ∧ dfd.number < calls) ∨ (dfd.number = calls ∧ file ∧ log' = log ++ [.opened id dfd]) := by
  rcases hlog with rfl | ⟨id', dfd', rfl, hnum, hfile⟩
  · exact Or.inl ⟨hin, (h.event id dfd hin).1⟩
  · rcases List.mem_append.mp hin with hin | hin
    · exact Or.inl ⟨hin, (h.event id dfd hin).1⟩
    · cases List.mem_singleton.mp hin
      exact Or.inr ⟨hnum, hfile, rfl⟩

theorem Sessions.last_come (h : Sessions hold origin dev kind chars calls log) {fd : Nat} {o : Origin}
    (hfree : origin fd = none) (ho : o.number = calls) {id : Nat} {dfd : DevFd} (hin : .opened id dfd ∈ log) :
    .closed id dfd ∈ log ↔ ∀ x ox, Function.update origin fd (some o) x = some ox → ox.number ≠ dfd.number := by
  have hlt := (h.event id dfd hin).1
  rw [h.last id dfd hin]
  constructor
  · intro hnone x ox hx
    rcases update_some hx with ⟨-, hox⟩ | ⟨-, hx⟩
    · cases hox
      omega
    · exact hnone x ox hx
  · intro hnone x ox hx
    exact hnone x ox (update_free hfree hx _)

/-- A call has opened something, under a descriptor that was free: if on a `devfs`
mount, then a handle nobody led to. -/
theorem Sessions.come (h : Sessions hold origin dev kind chars calls log) {fd : Nat} {r : Nat × Nat} {o : Origin}
    (hfd : hold fd = none ∧ origin fd = none) (ho : o.number = calls)
    (hdev : ∀ r', r' ≠ r → dev' r' = dev r') (hfree : kind r → ∀ y, hold y ≠ some r)
    (hnew : kind r → ∃ handle, dev' r = some handle ∧ handle.refs = 1 ∧ Known chars log' handle o)
    (hlog : log' = log ∨ ∃ id dfd, log' = log ++ [.opened id dfd] ∧ dfd.number = calls ∧ o.dir = false ∧ kind r) :
    Sessions (Function.update hold fd (some r)) (Function.update origin fd (some o)) dev' kind chars (calls + 1) log' := by
  have hkeep : ∀ e ∈ log, e ∈ log' := by
    intro e he
    rcases hlog with rfl | ⟨id, dfd, rfl, -⟩
    · exact he
    · exact List.mem_append_left _ he
  have hclosed : ∀ id dfd, DevEvent.closed id dfd ∈ log' ↔ DevEvent.closed id dfd ∈ log := by
    intro id dfd
    rcases hlog with rfl | ⟨id', dfd', rfl, -⟩ <;> simp
  have hpaired : Paired log' := by
    rcases hlog with rfl | ⟨id, dfd, rfl, -⟩
    · exact h.paired
    · exact h.paired.opened id dfd
  refine ⟨?_, fun fd' r' hr' hk => ?_, fun x y ox oy hx hy heq => ?_, fun fd' o' ho' => ?_, fun id dfd hin => ?_,
    fun id id' dfd dfd' hin hin' heq => ?_, hpaired, fun id dfd hin => ?_⟩
  · refine h.shared.first hfd.1 hfree (fun hk => ?_) (fun r' hr' _ => refsOf_congr (hdev r' hr'))
    obtain ⟨handle, hhandle, hrefs, -⟩ := hnew hk
    rw [refsOf_some hhandle, hrefs]
  · rcases update_some hr' with ⟨rfl, hrr⟩ | ⟨-, hold'⟩
    · cases hrr
      obtain ⟨handle, hhandle, -, hknown⟩ := hnew hk
      exact ⟨handle, o, hhandle, Function.update_self .., hknown⟩
    · obtain ⟨handle, o', hhandle, ho', hknown⟩ := h.entry fd' r' hold' hk
      have hne : r' ≠ r := by
        rintro rfl
        exact hfree hk fd' hold'
      refine ⟨handle, o', ?_, update_free hfd.2 ho' _, hknown.mono (fun _ hc => hc) hkeep⟩
      rw [hdev r' hne]
      exact hhandle
  · rcases update_some hx with ⟨hxfd, hox⟩ | ⟨hxfd, hxold⟩
    · cases hox
      rcases update_some hy with ⟨hyfd, -⟩ | ⟨-, hyold⟩
      · rw [hxfd, hyfd]
      · exact absurd (h.below y oy hyold) (by omega)
    · rcases update_some hy with ⟨-, hoy⟩ | ⟨hyfd, hyold⟩
      · cases hoy
        exact absurd (h.below x ox hxold) (by omega)
      · rw [Function.update_of_ne hxfd, Function.update_of_ne hyfd]
        exact h.same x y ox oy hxold hyold heq
  · rcases update_some ho' with ⟨-, hoo⟩ | ⟨-, ho'⟩
    · cases hoo
      omega
    · exact Nat.lt_succ_of_lt (h.below fd' o' ho')
  · rcases h.opened_cases hlog hin with ⟨hin, hlt⟩ | ⟨hnum, ⟨hdir, hk⟩, -⟩
    · refine ⟨Nat.lt_succ_of_lt hlt, fun fd' o' ho' heq => ?_⟩
      rcases update_some ho' with ⟨-, hoo⟩ | ⟨hfd', ho'⟩
      · cases hoo
        omega
      · rw [Function.update_of_ne hfd']
        exact (h.event id dfd hin).2 fd' o' ho' heq
    · refine ⟨by omega, fun fd' o' ho' heq => ?_⟩
      rcases update_some ho' with ⟨hfd', hoo⟩ | ⟨-, ho'⟩
      · cases hoo
        exact ⟨hdir, r, by rw [hfd', Function.update_self], hk⟩
      · exact absurd (h.below fd' o' ho') (by omega)
  · rcases h.opened_cases hlog hin with ⟨hold₁, hlt⟩ | ⟨hnum, -, hlog₁⟩
    · rcases h.opened_cases hlog hin' with ⟨hold₂, -⟩ | ⟨hnum', -⟩
      · exact h.unique id id' dfd dfd' hold₁ hold₂ heq
      · omega
    · rcases h.opened_cases hlog hin' with ⟨-, hlt'⟩ | ⟨-, -, hlog₂⟩
      · omega
      · rw [hlog₁] at hlog₂
        cases (List.append_inj' hlog₂ rfl).2
        exact ⟨rfl, rfl⟩
  · rw [hclosed]
    rcases h.opened_cases hlog hin with ⟨hin, -⟩ | ⟨hnum, -⟩
    · exact h.last_come hfd.2 ho hin
    · constructor
      · intro hin
        have hlt := (h.event id dfd (h.paired.opened_mem hin)).1
        omega
      · intro hnone
        exact absurd hnum.symm (ho ▸ hnone fd o (Function.update_self ..))

theorem Sessions.dup (h : Sessions hold origin dev kind chars calls log) {fd fd' : Nat} {r : Nat × Nat} {o : Origin}
    {handle : DevLhandle} (hfd : hold fd = none ∧ origin fd = none) (hfd' : hold fd' = some r ∧ origin fd' = some o)
    (hk : kind r) (hhandle : dev r = some handle) (hnew : dev' r = some { handle with refs := handle.refs + 1 })
    (hdev : ∀ r', r' ≠ r → dev' r' = dev r') :
    Sessions (Function.update hold fd (some r)) (Function.update origin fd (some o)) dev' kind chars calls log := by
  obtain ⟨handle₁, o₁, hhandle₁, ho₁, hknown⟩ := h.entry fd' r hfd'.1 hk
  rw [hhandle] at hhandle₁
  rw [hfd'.2] at ho₁
  cases hhandle₁
  cases ho₁
  -- Whatever the new descriptor's origin says, that of the old one said.
  have horigin : ∀ x ox, Function.update origin fd (some o) x = some ox →
      ∃ y, origin y = some ox ∧ Function.update hold fd (some r) x = hold y := by
    intro x ox hx
    rcases update_some hx with ⟨rfl, hox⟩ | ⟨hxfd, hxold⟩
    · cases hox
      exact ⟨fd', hfd'.2, by rw [Function.update_self, hfd'.1]⟩
    · exact ⟨x, hxold, Function.update_of_ne hxfd ..⟩
  refine ⟨?_, fun x r' hx hk' => ?_, fun x y ox oy hx hy heq => ?_, fun x ox hx => ?_, fun id dfd hin => ?_, h.unique,
    h.paired, fun id dfd hin => ?_⟩
  · refine h.shared.join hfd.1 hfd'.1 ?_ (fun r' hr' _ => refsOf_congr (hdev r' hr'))
    rw [refsOf_some hhandle, refsOf_some hnew]
  · by_cases hxfd : x = fd
    · rw [hxfd, Function.update_self] at hx
      cases hx
      exact ⟨_, o, hnew, by rw [hxfd, Function.update_self], hknown⟩
    · rw [Function.update_of_ne hxfd] at hx ⊢
      obtain ⟨handle', o', hhandle', ho', hknown'⟩ := h.entry x r' hx hk'
      by_cases hr' : r' = r
      · rw [hr', hhandle] at hhandle'
        cases hhandle'
        rw [hr']
        exact ⟨_, o', hnew, ho', hknown'⟩
      · rw [hdev r' hr']
        exact ⟨handle', o', hhandle', ho', hknown'⟩
  · obtain ⟨x', hx', hxhold⟩ := horigin x ox hx
    obtain ⟨y', hy', hyhold⟩ := horigin y oy hy
    rw [hxhold, hyhold]
    exact h.same x' y' ox oy hx' hy' heq
  · obtain ⟨x', hx', -⟩ := horigin x ox hx
    exact h.below x' ox hx'
  · refine ⟨(h.event id dfd hin).1, fun x ox hx heq => ?_⟩
    obtain ⟨x', hx', hxhold⟩ := horigin x ox hx
    rw [hxhold]
    exact (h.event id dfd hin).2 x' ox hx' heq
  · rw [h.last id dfd hin]
    constructor
    · intro hnone x ox hx
      obtain ⟨x', hx', -⟩ := horigin x ox hx
      exact hnone x' ox hx'
    · intro hnone x ox hx
      exact hnone x ox (update_free hfd.2 hx _)

theorem Sessions.number_eq (h : Sessions hold origin dev kind chars calls log) {fd y : Nat} {r : Nat × Nat} {o : Origin}
    (hfd : hold fd = some r ∧ origin fd = some o) (hy : hold y = some r) (hk : kind r) :
    ∃ oy, origin y = some oy ∧ oy.number = o.number := by
  obtain ⟨handle, o₁, hhandle, ho₁, hnum, -⟩ := h.entry fd r hfd.1 hk
  obtain ⟨handle₂, o₂, hhandle₂, ho₂, hnum₂, -⟩ := h.entry y r hy hk
  rw [hhandle] at hhandle₂
  rw [hfd.2] at ho₁
  cases hhandle₂
  cases ho₁
  exact ⟨o₂, ho₂, hnum₂.trans hnum.symm⟩

theorem Sessions.session (h : Sessions hold origin dev kind chars calls log) {fd : Nat} {r : Nat × Nat} {o : Origin}
    (hfd : hold fd = some r ∧ origin fd = some o) {handle : DevLhandle} (hhandle : dev r = some handle) (hk : kind r)
    (hdir : o.dir = false) : .opened handle.id handle.devFd ∈ log ∧ o.number = handle.devFd.number := by
  obtain ⟨handle', o', hhandle', ho', hnum, hcase⟩ := h.entry fd r hfd.1 hk
  rw [hhandle] at hhandle'
  rw [hfd.2] at ho'
  cases hhandle'
  cases ho'
  rcases hcase with hfile | hisdir
  · exact ⟨hfile.2.1, hnum⟩
  · rw [hdir] at hisdir
    cases hisdir.1

/-- A descriptor leaves and its session, if it has one, goes on with another. -/
theorem Sessions.last_stay (h : Sessions hold origin dev kind chars calls log) {fd : Nat} {r : Nat × Nat} {o : Origin}
    (hfd : hold fd = some r ∧ origin fd = some o) {id : Nat} {dfd : DevFd} (hin : .opened id dfd ∈ log)
    (hstay : o.number = dfd.number → ∃ y, y ≠ fd ∧ hold y = some r) :
    .closed id dfd ∈ log ↔ ∀ x ox, Function.update origin fd none x = some ox → ox.number ≠ dfd.number := by
  rw [h.last id dfd hin]
  refine ⟨fun hnone x ox hx => hnone x ox (update_none_some hx).2, fun hnone x ox hx heq => ?_⟩
  by_cases hxfd : x = fd
  · -- Another descriptor of the session is still open.
    rw [hxfd, hfd.2] at hx
    cases hx
    obtain ⟨y, hy, hyr⟩ := hstay heq
    obtain ⟨-, r', hr', hk⟩ := (h.event id dfd hin).2 fd o hfd.2 heq
    rw [hfd.1] at hr'
    cases hr'
    obtain ⟨oy, hoy, hnum⟩ := h.number_eq hfd hyr hk
    exact hnone y oy (by rw [Function.update_of_ne hy]; exact hoy) (hnum.trans heq)
  · exact hnone x ox (by rw [Function.update_of_ne hxfd]; exact hx) heq

theorem Sessions.last_close (h : Sessions hold origin dev kind chars calls log) {fd : Nat} {r : Nat × Nat} {o : Origin}
    (hfd : hold fd = some r ∧ origin fd = some o) {handle : DevLhandle} (hhandle : dev r = some handle) (hk : kind r)
    (hdir : o.dir = false) (halone : ∀ y, hold y = some r → y = fd) {id : Nat} {dfd : DevFd}
    (hin : .opened id dfd ∈ log) :
    .closed id dfd ∈ log ++ [.closed handle.id handle.devFd] ↔
      ∀ x ox, Function.update origin fd none x = some ox → ox.number ≠ dfd.number := by
  obtain ⟨hmem, hnum⟩ := h.session hfd hhandle hk hdir
  by_cases heq : o.number = dfd.number
  · obtain ⟨rfl, rfl⟩ := h.unique id handle.id dfd handle.devFd hin hmem (heq.symm.trans hnum)
    refine ⟨fun _ x ox hx hxeq => ?_, fun _ => List.mem_append_right _ (List.mem_singleton.mpr rfl)⟩
    obtain ⟨hxfd, hxold⟩ := update_none_some hx
    have hxr : hold x = some r := (h.same x fd ox o hxold hfd.2 (hxeq.trans heq.symm)).trans hfd.1
    exact hxfd (halone x hxr)
  · have hother : DevEvent.closed id dfd ∈ log ++ [.closed handle.id handle.devFd] ↔ DevEvent.closed id dfd ∈ log := by
      refine ⟨fun hc => ?_, fun hc => List.mem_append_left _ hc⟩
      rcases List.mem_append.mp hc with hc | hc
      · exact hc
      · cases List.mem_singleton.mp hc
        exact absurd hnum heq
    rw [hother]
    exact h.last_stay hfd hin (fun hsame => absurd hsame heq)

/-- A descriptor is closed. Either others lead to the same handle, or there is no
session to end, and nothing happens; or it was the last one of a session, and the
device is closed. -/
theorem Sessions.leave (h : Sessions hold origin dev kind chars calls log) {fd : Nat} {r : Nat × Nat} {o : Origin}
    (hfd : hold fd = some r ∧ origin fd = some o) (hdev : ∀ r', r' ≠ r → dev' r' = dev r')
    (hrefs : kind r → (∃ y, y ≠ fd ∧ hold y = some r) →
      ∃ handle, dev r = some handle ∧ dev' r = some { handle with refs := handle.refs - 1 })
    (hlog : (log' = log ∧ ∀ id dfd, .opened id dfd ∈ log → o.number = dfd.number → ∃ y, y ≠ fd ∧ hold y = some r) ∨
      ∃ handle, dev r = some handle ∧ kind r ∧ o.dir = false ∧ (∀ y, hold y = some r → y = fd) ∧
        log' = log ++ [.closed handle.id handle.devFd]) :
    Sessions (Function.update hold fd none) (Function.update origin fd none) dev' kind chars calls log' := by
  have hopened : ∀ id dfd, DevEvent.opened id dfd ∈ log' ↔ DevEvent.opened id dfd ∈ log := by
    intro id dfd
    rcases hlog with ⟨rfl, -⟩ | ⟨handle, -, -, -, -, rfl⟩ <;> simp
  have hkeep : ∀ e ∈ log, e ∈ log' := by
    intro e he
    rcases hlog with ⟨rfl, -⟩ | ⟨handle, -, -, -, -, rfl⟩
    · exact he
    · exact List.mem_append_left _ he
  refine ⟨?_, fun x r' hx hk => ?_, fun x y ox oy hx hy heq => ?_, fun x ox hx => ?_, fun id dfd hin => ?_,
    fun id id' dfd dfd' hin hin' heq => ?_, ?_, fun id dfd hin => ?_⟩
  · refine h.shared.leave hfd.1 (fun hk hothers => ?_) (fun r' hr' _ => refsOf_congr (hdev r' hr'))
    obtain ⟨handle, hhandle, hnew⟩ := hrefs hk hothers
    rw [refsOf_some hhandle, refsOf_some hnew]
  · obtain ⟨hxfd, hx⟩ := update_none_some hx
    obtain ⟨handle, o', hhandle, ho', hknown⟩ := h.entry x r' hx hk
    have hknown' : Known chars log' handle o' := hknown.mono (fun _ hc => hc) hkeep
    rw [Function.update_of_ne hxfd]
    by_cases hr' : r' = r
    · subst hr'
      obtain ⟨handle', hhandle', hnew⟩ := hrefs hk ⟨x, hxfd, hx⟩
      rw [hhandle] at hhandle'
      cases hhandle'
      exact ⟨_, o', hnew, ho', hknown'⟩
    · rw [hdev r' hr']
      exact ⟨handle, o', hhandle, ho', hknown'⟩
  · obtain ⟨hxfd, hxold⟩ := update_none_some hx
    obtain ⟨hyfd, hyold⟩ := update_none_some hy
    rw [Function.update_of_ne hxfd, Function.update_of_ne hyfd]
    exact h.same x y ox oy hxold hyold heq
  · exact h.below x ox (update_none_some hx).2
  · rw [hopened] at hin
    refine ⟨(h.event id dfd hin).1, fun x ox hx heq => ?_⟩
    obtain ⟨hxfd, hxold⟩ := update_none_some hx
    rw [Function.update_of_ne hxfd]
    exact (h.event id dfd hin).2 x ox hxold heq
  · rw [hopened] at hin hin'
    exact h.unique id id' dfd dfd' hin hin' heq
  · rcases hlog with ⟨rfl, -⟩ | ⟨handle, hhandle, hk, hdir, -, rfl⟩
    · exact h.paired
    · obtain ⟨hin, hnum⟩ := h.session hfd hhandle hk hdir
      refine h.paired.closed hin (fun hclosed => ?_)
      exact (h.last _ _ hin).mp hclosed fd o hfd.2 hnum
  · rw [hopened] at hin
    rcases hlog with ⟨rfl, hstay⟩ | ⟨handle, hhandle, hk, hdir, halone, rfl⟩
    · exact h.last_stay hfd hin (hstay id dfd hin)
    · exact h.last_close hfd hhandle hk hdir halone hin

end Aex.Fs
