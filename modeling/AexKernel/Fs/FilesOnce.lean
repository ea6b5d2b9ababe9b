import AexKernel.Fs.Files

/- Each descriptor is closed once.

   A descriptor that can be found in `fds` has at most one owner: the entry of
   `fiddies` it was opened under, the thread that has just opened it, or the thread
   that has taken that entry out and is on its way through `fd_close`. `fiddie_lock`
   lets one `fclose` at a time look at an entry and take it out, so no two threads
   come to own the same descriptor; and a slot of `fiddies` is not given out again
   while somebody holds a reference to what was in it. -/
namespace Aex.Fs
open Runs Rc Dealing Ownership

variable {α : Type}

/-- The reference to `fiddies` a thread at this place holds. -/
def FilePlace.lfdToken : FilePlace → Option (Nat × Nat)
  | .ioFd _ lfd q _ | .ioRun _ lfd q _ _ | .ioUnrefFd lfd q _ _ _ | .ioUnref lfd q _ => some (lfd, q)
  | .closeUnref lfd q _ _ => some (lfd, q)
  | _ => none

/-- The reference to `fds` a thread at this place holds. -/
def FilePlace.fdToken : FilePlace → Option (Nat × Nat)
  | .ioRun _ _ _ fd p | .ioUnrefFd _ _ fd p _ | .fdUnref fd p _ => some (fd, p)
  | _ => none

/-- The descriptor a thread at this place owns. -/
def FilePlace.owns : FilePlace → Option Nat
  | .opened fd _ | .closeRelease fd _ => some fd
  | .fdAcquire fd _ _ | .fdGet fd _ _ | .fdUnref fd _ _ | .fdRemove fd _ _ => some fd
  | _ => none

/-- The descriptor passed to a call of `fd_close` in progress, with the number of
the call. -/
def FilePlace.hand : FilePlace → Option (Nat × Nat)
  | .fdAcquire _ p n | .fdGet _ p n | .fdUnref _ p n | .fdRemove _ p n => some (p, n)
  | .fdRelease p n | .fdOp p n => some (p, n)
  | _ => none

/-- The thread holds `fiddie_lock`. -/
def FilePlace.locks : FilePlace → Bool
  | .closeGet _ | .closeFail | .closeUnref _ _ _ _ | .closeRemove _ _ _ _ | .closeRelease _ _ => true
  | _ => false

/-- What a thread knows of the arrays: an owner finds its descriptor, which was not
passed to `fd_close` before, and the entry an `fclose` has found stays there. -/
def FilePlace.Knows (s : FileState α) : FilePlace → Prop
  | .opened fd p | .closeRelease fd p => (∃ d, look s.fds.array fd = some (p, d)) ∧ p ∉ s.passed
  | .fdAcquire fd p _ | .fdGet fd p _ | .fdUnref fd p _ | .fdRemove fd p _ => ∃ d, look s.fds.array fd = some (p, d)
  | .closeUnref lfd q fd p | .closeRemove lfd q fd p => look s.fiddies.array lfd = some (q, fd, p)
  | .fdFail _ => False
  | _ => True

/-- Who owns a descriptor: a thread, or an entry of `fiddies`. -/
def FileState.hold (s : FileState α) : Nat ⊕ Nat → Option Nat
  | .inl t => (s.threads[t]?).bind FilePlace.owns
  | .inr lfd => (look s.fiddies.array lfd).map fun v => v.2.1

/-- The owners, and what was passed to `fd_close`. -/
structure Owned (s : FileState α) : Prop where
  hold : Exclusive s.hold {fd | look s.fds.array fd ≠ none} ∅
  knows : ∀ (t : Nat) (place : FilePlace), s.threads[t]? = some place → place.Knows s
  entry : ∀ lfd v, look s.fiddies.array lfd = some v →
    (∃ d, look s.fds.array v.2.1 = some (v.2.2, d)) ∧ v.2.2 ∉ s.passed
  lock : ∀ (t : Nat) (place : FilePlace), s.threads[t]? = some place → place.locks = true → s.fiddieLock = some t
  numbered : ∀ p ∈ s.passed, p < s.fds.count
  once : s.passed.Nodup

/-- The calls of `fd_close` in progress. -/
def FileState.hand (s : FileState α) (t : Nat) : Option (Nat × Nat) := (s.threads[t]?).bind FilePlace.hand

/-- The counts of both arrays are right, the owners are, and each call of `fd_close`
invokes one close operation. -/
structure FilesKept (s : FileState α) : Prop where
  fds : Held s.fds (s.threads.map FilePlace.fdToken)
  fiddies : Held s.fiddies (s.threads.map FilePlace.lfdToken)
  owned : Owned s
  dealt : Dealt s.passed s.hand s.closed

/-! ## One thread moves -/

theorem bind_set {β γ : Type} (f : β → Option γ) {l : List β} {t : Nat} {b : β} (ht : l[t]? = some b) (b' : β) :
    (fun u : Nat => ((l.set t b')[u]?).bind f) = Function.update (fun u : Nat => (l[u]?).bind f) t (f b') := by
  funext u
  by_cases hu : u = t
  · subst hu
    have hlt := (List.getElem?_eq_some_iff.mp ht).1
    rw [Function.update_self, List.getElem?_set_self hlt]
    rfl
  · have hne : t ≠ u := fun heq => hu heq.symm
    rw [Function.update_of_ne hu, List.getElem?_set_ne hne]

theorem bind_set_same {β γ : Type} (f : β → Option γ) {l : List β} {t : Nat} {b b' : β} (ht : l[t]? = some b)
    (hf : f b' = f b) : (fun u : Nat => ((l.set t b')[u]?).bind f) = fun u : Nat => (l[u]?).bind f := by
  have hself : f b = (l[t]?).bind f := by rw [ht]; rfl
  rw [bind_set f ht, hf, hself]
  exact Function.update_eq_self t _

theorem set_cases {β : Type} {l : List β} {t u : Nat} {b b' : β} (h : (l.set t b')[u]? = some b) :
    (u = t ∧ b = b') ∨ (u ≠ t ∧ l[u]? = some b) := by
  by_cases hu : u = t
  · subst hu
    have hlt : u < (l.set u b').length := (List.getElem?_eq_some_iff.mp h).1
    rw [List.length_set] at hlt
    rw [List.getElem?_set_self hlt] at h
    exact Or.inl ⟨rfl, (Option.some.inj h).symm⟩
  · have hne : t ≠ u := fun heq => hu heq.symm
    rw [List.getElem?_set_ne hne] at h
    exact Or.inr ⟨hu, h⟩

theorem FilePlace.knows_congr {s s' : FileState α} (hfds : ∀ j, look s'.fds.array j = look s.fds.array j)
    (hfiddies : ∀ j, look s'.fiddies.array j = look s.fiddies.array j) (hpassed : s'.passed = s.passed)
    (place : FilePlace) : place.Knows s' ↔ place.Knows s := by
  cases place <;> simp only [FilePlace.Knows, hfds, hfiddies, hpassed]

/-- A step that leaves what is found in the arrays, who owns what and what was
passed as they were. -/
theorem Owned.place {s s' : FileState α} (h : Owned s) {t : Nat} {place place' : FilePlace}
    (ht : s.threads[t]? = some place) (hthreads : s'.threads = s.threads.set t place')
    (hfds : ∀ j, look s'.fds.array j = look s.fds.array j) (hcount : s'.fds.count = s.fds.count)
    (hfiddies : ∀ j, look s'.fiddies.array j = look s.fiddies.array j)
    (hpassed : s'.passed = s.passed) (howns : place'.owns = place.owns) (hknows : place'.Knows s)
    (hheld : ∀ u, u ≠ t → s.fiddieLock = some u → s'.fiddieLock = some u)
    (hlock : place'.locks = true → s'.fiddieLock = some t) : Owned s' := by
  have hsame : (fun u : Nat => (s'.threads[u]?).bind FilePlace.owns) =
      fun u : Nat => (s.threads[u]?).bind FilePlace.owns := by
    rw [hthreads]
    exact bind_set_same _ ht howns
  constructor
  · have hhold : s'.hold = s.hold := by
      funext x
      cases x with
      | inl u => exact congrFun hsame u
      | inr lfd => simp only [FileState.hold, hfiddies]
    rw [hhold]
    simp only [hfds]
    exact h.hold
  · intro u pl hu
    rw [FilePlace.knows_congr hfds hfiddies hpassed]
    rw [hthreads] at hu
    rcases set_cases hu with ⟨-, rfl⟩ | ⟨-, hu⟩
    · exact hknows
    · exact h.knows u pl hu
  · intro lfd v hv
    rw [hfiddies] at hv
    rw [hfds, hpassed]
    exact h.entry lfd v hv
  · intro u pl hu hl
    rw [hthreads] at hu
    rcases set_cases hu with ⟨rfl, rfl⟩ | ⟨hut, hu⟩
    · exact hlock hl
    · exact hheld u hut (h.lock u pl hu hl)
  · rw [hpassed, hcount]
    exact h.numbered
  · rw [hpassed]
    exact h.once

/-- The entry an `fclose` has found. -/
def FilePlace.finds : FilePlace → Option Nat
  | .closeUnref lfd _ _ _ | .closeRemove lfd _ _ _ => some lfd
  | _ => none

/-- What a thread knows stays true while nobody touches what it owns or has
found. -/
theorem FilePlace.Knows.mono {s s' : FileState α} {place : FilePlace} (h : place.Knows s)
    (hfds : ∀ fd, place.owns = some fd → look s'.fds.array fd = look s.fds.array fd)
    (hfiddies : ∀ lfd, place.finds = some lfd → look s'.fiddies.array lfd = look s.fiddies.array lfd)
    (hpassed : ∀ fd v, place.owns = some fd → look s.fds.array fd = some v → v.1 ∉ s.passed → v.1 ∉ s'.passed) :
    place.Knows s' := by
  cases place with
  | opened fd p | closeRelease fd p =>
    obtain ⟨⟨d, hd⟩, hp⟩ := h
    exact ⟨⟨d, (hfds fd rfl).trans hd⟩, hpassed fd (p, d) rfl hd hp⟩
  | fdAcquire fd p n | fdGet fd p n | fdUnref fd p n | fdRemove fd p n =>
    obtain ⟨d, hd⟩ := h
    exact ⟨d, (hfds fd rfl).trans hd⟩
  | closeUnref lfd q fd p | closeRemove lfd q fd p => exact (hfiddies lfd rfl).trans h
  | fdFail n => exact h
  | _ => exact trivial

theorem FilePlace.Knows.found {s : FileState α} {place : FilePlace} (h : place.Knows s) {fd : Nat}
    (howns : place.owns = some fd) : look s.fds.array fd ≠ none := by
  cases place with
  | opened fd' p | closeRelease fd' p =>
    cases howns
    obtain ⟨⟨d, hd⟩, -⟩ := h
    rw [hd]
    exact Option.some_ne_none _
  | fdAcquire fd' p n | fdGet fd' p n | fdUnref fd' p n | fdRemove fd' p n =>
    cases howns
    obtain ⟨d, hd⟩ := h
    rw [hd]
    exact Option.some_ne_none _
  | _ => cases howns

theorem hold_inl {s : FileState α} {t : Nat} {place : FilePlace} (ht : s.threads[t]? = some place) :
    s.hold (.inl t) = place.owns := by
  show (s.threads[t]?).bind FilePlace.owns = place.owns
  rw [ht]
  rfl

theorem hold_set {s s' : FileState α} {t : Nat} {place place' : FilePlace} (ht : s.threads[t]? = some place)
    (hthreads : s'.threads = s.threads.set t place') :
    s'.hold (.inl t) = place'.owns ∧ ∀ u, u ≠ t → s'.hold (.inl u) = s.hold (.inl u) := by
  have hset := bind_set FilePlace.owns ht place'
  constructor
  · show (s'.threads[t]?).bind FilePlace.owns = place'.owns
    rw [hthreads]
    exact (congrFun hset t).trans (Function.update_self ..)
  · intro u hu
    show (s'.threads[u]?).bind FilePlace.owns = _
    rw [hthreads]
    exact (congrFun hset u).trans (Function.update_of_ne hu ..)

theorem Owned.lock_same {s s' : FileState α} (h : Owned s) {t : Nat} {place place' : FilePlace}
    (ht : s.threads[t]? = some place) (hthreads : s'.threads = s.threads.set t place')
    (hsame : s'.fiddieLock = s.fiddieLock) (hlocks : place'.locks = true → place.locks = true) (u : Nat)
    (pl : FilePlace) (hu : s'.threads[u]? = some pl) (hl : pl.locks = true) : s'.fiddieLock = some u := by
  rw [hthreads] at hu
  rw [hsame]
  rcases set_cases hu with ⟨rfl, rfl⟩ | ⟨-, hu⟩
  · exact h.lock u place ht (hlocks hl)
  · exact h.lock u pl hu hl

/-! ## The steps that change who owns what -/

theorem Owned.fsOpen {s s' : FileState α} (h : Owned s) {t fd : Nat} {d : α} (ht : s.threads[t]? = some .opening)
    (hthreads : s'.threads = s.threads.set t (.opened fd s.fds.count)) (hfree : look s.fds.array fd = none)
    (hfds : ∀ j, look s'.fds.array j = if j = fd then some (s.fds.count, d) else look s.fds.array j)
    (hcount : s'.fds.count = s.fds.count + 1)
    (hrest : s'.fiddies = s.fiddies ∧ s'.passed = s.passed ∧ s'.fiddieLock = s.fiddieLock) :
    Owned s' := by
  obtain ⟨hfiddies, hpassed, hlock⟩ := hrest
  obtain ⟨hself, hother⟩ := hold_set ht hthreads
  have hkeep : ∀ j, look s.fds.array j ≠ none → look s'.fds.array j = look s.fds.array j := by
    intro j hj
    rw [hfds, if_neg]
    rintro rfl
    exact hj hfree
  have hnew : look s'.fds.array fd = some (s.fds.count, d) := by rw [hfds, if_pos rfl]
  have hfresh : s.fds.count ∉ s.passed := fun hin => Nat.lt_irrefl _ (h.numbered _ hin)
  -- Whoever owns something owned it before, or is the thread with the new one.
  have hwho : ∀ x r, s'.hold x = some r → (x = .inl t ∧ r = fd) ∨ s.hold x = some r := by
    intro x r hx
    cases x with
    | inl u =>
      by_cases hu : u = t
      · subst hu
        rw [hself] at hx
        exact Or.inl ⟨rfl, (Option.some.inj hx).symm⟩
      · rw [hother u hu] at hx
        exact Or.inr hx
    | inr lfd =>
      simp only [FileState.hold, hfiddies] at hx
      exact Or.inr hx
  constructor
  · refine h.hold.gainOne (fun hlive => hlive hfree) hwho ?_ (fun r hr => ?_)
    · show look s'.fds.array fd ≠ none
      rw [hnew]
      exact Option.some_ne_none _
    · show look s'.fds.array r ≠ none
      rw [hkeep r hr]
      exact hr
  · intro u place hu
    rw [hthreads] at hu
    rcases set_cases hu with ⟨-, rfl⟩ | ⟨-, hu⟩
    · refine ⟨⟨d, hnew⟩, ?_⟩
      rw [hpassed]
      exact hfresh
    · refine (h.knows u place hu).mono (fun r hr => hkeep r ((h.knows u place hu).found hr)) (fun _ _ => ?_) (fun _ _ _ _ hp => ?_)
      · rw [hfiddies]
      · rw [hpassed]
        exact hp
  · intro lfd v hv
    rw [hfiddies] at hv
    obtain ⟨⟨d', hd'⟩, hp⟩ := h.entry lfd v hv
    rw [hpassed]
    refine ⟨⟨d', ?_⟩, hp⟩
    rw [hkeep _ (by rw [hd']; exact Option.some_ne_none _)]
    exact hd'
  · exact h.lock_same ht hthreads hlock (fun hl => absurd hl Bool.false_ne_true)
  · rw [hpassed, hcount]
    exact fun p hp => Nat.lt_succ_of_lt (h.numbered p hp)
  · rw [hpassed]
    exact h.once

/-- The descriptor goes into `fiddies`, under a local number that was free. -/
theorem Owned.fopen {s s' : FileState α} (h : Owned s) {t fd p lfd q : Nat} (ht : s.threads[t]? = some (.opened fd p))
    {ret : Int} (hthreads : s'.threads = s.threads.set t (.returned ret)) (hfree : look s.fiddies.array lfd = none)
    (hfiddies : ∀ j, look s'.fiddies.array j = if j = lfd then some (q, fd, p) else look s.fiddies.array j)
    (hrest : s'.fds = s.fds ∧ s'.passed = s.passed ∧ s'.fiddieLock = s.fiddieLock) :
    Owned s' := by
  obtain ⟨hfds, hpassed, hlock⟩ := hrest
  obtain ⟨hself, hother⟩ := hold_set ht hthreads
  have hmine := h.knows t _ ht
  have hkeep : ∀ j v, look s.fiddies.array j = some v → look s'.fiddies.array j = look s.fiddies.array j := by
    intro j v hj
    rw [hfiddies, if_neg]
    rintro rfl
    rw [hfree] at hj
    cases hj
  constructor
  · rw [hfds]
    refine h.hold.pass (v := .inl t) (w := .inr lfd) (r := fd) (hold_inl ht) hself ?_ (fun x hx hy => ?_)
    · simp [FileState.hold, hfiddies]
    · cases x with
      | inl u => exact hother u (fun hu => hx (by rw [hu]))
      | inr j =>
        have hj : j ≠ lfd := fun hj => hy (by rw [hj])
        simp only [FileState.hold, hfiddies, if_neg hj]
  · intro u place hu
    rw [hthreads] at hu
    rcases set_cases hu with ⟨-, rfl⟩ | ⟨-, hu⟩
    · exact trivial
    · have hknows := h.knows u place hu
      refine hknows.mono (fun _ _ => by rw [hfds]) (fun j hj => ?_) (fun _ _ _ _ hp => by rw [hpassed]; exact hp)
      cases place with
      | closeUnref l q' fd' p' | closeRemove l q' fd' p' =>
        cases hj
        exact hkeep _ _ hknows
      | _ => cases hj
  · intro j v hv
    rw [hfds, hpassed]
    rw [hfiddies] at hv
    split at hv
    · cases hv
      exact hmine
    · exact h.entry j v hv
  · exact h.lock_same ht hthreads hlock (fun hl => absurd hl Bool.false_ne_true)
  · rw [hpassed, hfds]
    exact h.numbered
  · rw [hpassed]
    exact h.once

theorem Owned.alone {s : FileState α} (h : Owned s) {t u : Nat} {place place' : FilePlace}
    (ht : s.threads[t]? = some place) (hl : place.locks = true) (hu : s.threads[u]? = some place')
    (hl' : place'.locks = true) : u = t := by
  have heq := h.lock u place' hu hl'
  rw [h.lock t place ht hl] at heq
  exact (Option.some.inj heq).symm

/-- `fclose` takes the entry out of `fiddies`, and its thread owns the descriptor. -/
theorem Owned.fclose {s s' : FileState α} (h : Owned s) {t fd p lfd q : Nat}
    (ht : s.threads[t]? = some (.closeRemove lfd q fd p)) (hthreads : s'.threads = s.threads.set t (.closeRelease fd p))
    (hfiddies : ∀ j, look s'.fiddies.array j = if j = lfd then none else look s.fiddies.array j)
    (hrest : s'.fds = s.fds ∧ s'.passed = s.passed ∧ s'.fiddieLock = s.fiddieLock) :
    Owned s' := by
  obtain ⟨hfds, hpassed, hlock⟩ := hrest
  obtain ⟨hself, hother⟩ := hold_set ht hthreads
  have hmine : look s.fiddies.array lfd = some (q, fd, p) := h.knows t _ ht
  have hentry := h.entry lfd _ hmine
  constructor
  · rw [hfds]
    refine h.hold.pass (v := .inr lfd) (w := .inl t) (r := fd) ?_ ?_ hself (fun x hx hy => ?_)
    · simp [FileState.hold, hmine]
    · simp [FileState.hold, hfiddies]
    · cases x with
      | inl u => exact hother u (fun hu => hy (by rw [hu]))
      | inr j =>
        have hj : j ≠ lfd := fun hj => hx (by rw [hj])
        simp only [FileState.hold, hfiddies, if_neg hj]
  · intro u place hu
    rw [hthreads] at hu
    rcases set_cases hu with ⟨-, rfl⟩ | ⟨hut, hu⟩
    · refine ⟨?_, ?_⟩
      · rw [hfds]
        exact hentry.1
      · rw [hpassed]
        exact hentry.2
    · -- Another thread that has found an entry would hold the lock too.
      have hfinds : place.finds = none := by
        cases place with
        | closeUnref l q' fd' p' | closeRemove l q' fd' p' => exact absurd (h.alone ht rfl hu rfl) hut
        | _ => rfl
      refine (h.knows u place hu).mono (fun _ _ => by rw [hfds]) (fun j hj => ?_)
        (fun _ _ _ _ hp => by rw [hpassed]; exact hp)
      rw [hfinds] at hj
      cases hj
  · intro j v hv
    rw [hfds, hpassed]
    rw [hfiddies] at hv
    split at hv
    · cases hv
    · exact h.entry j v hv
  · exact h.lock_same ht hthreads hlock (fun _ => rfl)
  · rw [hpassed, hfds]
    exact h.numbered
  · rw [hpassed]
    exact h.once

theorem Owned.pass {s s' : FileState α} (h : Owned s) (hkept : Kept s.fds) {t fd p : Nat}
    (ht : s.threads[t]? = some (.closeRelease fd p))
    (hs' : s' = { s with fiddieLock := none, passed := s.passed ++ [p] }.goto t (.fdAcquire fd p s.passed.length)) :
    Owned s' := by
  obtain ⟨⟨d, hd⟩, hnew⟩ := h.knows t _ ht
  have hthreads : s'.threads = s.threads.set t (.fdAcquire fd p s.passed.length) := by rw [hs']; rfl
  obtain ⟨hself, hother⟩ := hold_set ht hthreads
  have hhold : s'.hold = s.hold := by
    funext x
    cases x with
    | inl u =>
      by_cases hu : u = t
      · rw [hu, hself, hold_inl ht]
        rfl
      · exact hother u hu
    | inr lfd => rw [hs']; rfl
  -- Any other owner has another descriptor.
  have hapart : ∀ x r v, s.hold x = some r → x ≠ .inl t → look s.fds.array r = some v → v.1 ≠ p := by
    intro x r v hx hne hv hvp
    have hr : r = fd := hkept.look_inj hv hd hvp
    rw [hr] at hx
    exact hne (h.hold.single x (.inl t) fd hx (hold_inl ht))
  have hpassed : ∀ x r v, s.hold x = some r → x ≠ .inl t → look s.fds.array r = some v → v.1 ∉ s.passed →
      v.1 ∉ s'.passed := by
    intro x r v hx hne hv hp hin
    rw [hs'] at hin
    rcases List.mem_append.mp hin with hin | hin
    · exact hp hin
    · exact hapart x r v hx hne hv (List.mem_singleton.mp hin)
  constructor
  · rw [hhold, hs']
    exact h.hold
  · intro u place hu
    rw [hthreads] at hu
    rcases set_cases hu with ⟨-, rfl⟩ | ⟨hut, hu⟩
    · refine ⟨d, ?_⟩
      rw [hs']
      exact hd
    · refine (h.knows u place hu).mono (fun _ _ => by rw [hs']; rfl) (fun _ _ => by rw [hs']; rfl) (fun r v hr hv hp => ?_)
      have hx : s.hold (.inl u) = some r := (hold_inl hu).trans hr
      exact hpassed (.inl u) r v hx (fun heq => hut (Sum.inl.inj heq)) hv hp
  · intro lfd v hv
    have hold : look s.fiddies.array lfd = some v := by
      rw [hs'] at hv
      exact hv
    obtain ⟨⟨d', hd'⟩, hp⟩ := h.entry lfd v hold
    have hx : s.hold (.inr lfd) = some v.2.1 := by simp [FileState.hold, hold]
    refine ⟨⟨d', ?_⟩, hpassed (.inr lfd) v.2.1 (v.2.2, d') hx Sum.inr_ne_inl hd' hp⟩
    rw [hs']
    exact hd'
  · intro u place hu hl
    rw [hthreads] at hu
    rcases set_cases hu with ⟨-, rfl⟩ | ⟨hut, hu⟩
    · cases hl
    · exact absurd (h.alone ht rfl hu hl) hut
  · intro r hr
    rw [hs'] at hr ⊢
    rcases List.mem_append.mp hr with hr | hr
    · exact h.numbered r hr
    · rw [List.mem_singleton.mp hr]
      exact (hkept.look hd).2
  · rw [hs']
    show (s.passed ++ [p]).Nodup
    rw [← List.concat_eq_append]
    exact h.once.concat hnew

theorem Owned.fdRemove {s s' : FileState α} (h : Owned s) {t fd p n : Nat} (ht : s.threads[t]? = some (.fdRemove fd p n))
    (hthreads : s'.threads = s.threads.set t (.fdRelease p n))
    (hfds : ∀ j, look s'.fds.array j = if j = fd then none else look s.fds.array j)
    (hcount : s'.fds.count = s.fds.count)
    (hrest : s'.fiddies = s.fiddies ∧ s'.passed = s.passed ∧ s'.fiddieLock = s.fiddieLock) :
    Owned s' := by
  obtain ⟨hfiddies, hpassed, hlock⟩ := hrest
  obtain ⟨hself, hother⟩ := hold_set ht hthreads
  have hmine : s.hold (.inl t) = some fd := hold_inl ht
  have hrest : ∀ x r, s'.hold x = some r → s.hold x = some r ∧ r ≠ fd := by
    intro x r hx
    have hne : x ≠ .inl t := by
      rintro rfl
      rw [hself] at hx
      cases hx
    have hold : s.hold x = some r := by
      cases x with
      | inl u => rwa [hother u (fun hu => hne (by rw [hu]))] at hx
      | inr lfd =>
        simp only [FileState.hold, hfiddies] at hx
        exact hx
    refine ⟨hold, ?_⟩
    rintro rfl
    exact hne (h.hold.single x (.inl t) r hold hmine)
  have hkeep : ∀ x r, s.hold x = some r → x ≠ .inl t → look s'.fds.array r = look s.fds.array r := by
    intro x r hx hne
    rw [hfds, if_neg]
    rintro rfl
    exact hne (h.hold.single x (.inl t) r hx hmine)
  constructor
  · have hless : Exclusive s'.hold _ ∅ := h.hold.mono (fun x r hx => (hrest x r hx).1) (Set.Subset.refl ∅)
    refine hless.release (r := fd) (fun x hx => (hrest x fd hx).2 rfl) (Set.notMem_empty fd) (fun r hr hne => ?_)
    show look s'.fds.array r ≠ none
    rw [hfds, if_neg hne]
    exact hr
  · intro u place hu
    rw [hthreads] at hu
    rcases set_cases hu with ⟨-, rfl⟩ | ⟨hut, hu⟩
    · exact trivial
    · refine (h.knows u place hu).mono (fun r hr => ?_) (fun _ _ => by rw [hfiddies])
        (fun _ _ _ _ hp => by rw [hpassed]; exact hp)
      exact hkeep (.inl u) r ((hold_inl hu).trans hr) (fun heq => hut (Sum.inl.inj heq))
  · intro lfd v hv
    rw [hfiddies] at hv
    have hx : s.hold (.inr lfd) = some v.2.1 := by simp [FileState.hold, hv]
    rw [hkeep (.inr lfd) v.2.1 hx Sum.inr_ne_inl, hpassed]
    exact h.entry lfd v hv
  · exact h.lock_same ht hthreads hlock (fun hl => absurd hl Bool.false_ne_true)
  · rw [hpassed, hcount]
    exact h.numbered
  · rw [hpassed]
    exact h.once

/-! ## Steps of the system -/

theorem map_set_same {β γ : Type} (f : β → γ) {l : List β} {t : Nat} {b b' : β} (ht : l[t]? = some b) (hf : f b' = f b) :
    (l.set t b').map f = l.map f := by
  have hmap : (l.map f)[t]? = some (f b) := by rw [List.getElem?_map, ht]; rfl
  obtain ⟨hlt, hget⟩ := List.getElem?_eq_some_iff.mp hmap
  rw [List.map_set, hf, ← hget]
  exact List.set_getElem_self hlt

theorem hand_set {s s' : FileState α} {t : Nat} {place place' : FilePlace} (ht : s.threads[t]? = some place)
    (hthreads : s'.threads = s.threads.set t place') : s'.hand = Function.update s.hand t place'.hand := by
  have hset := bind_set FilePlace.hand ht place'
  funext u
  show (s'.threads[u]?).bind FilePlace.hand = _
  rw [hthreads]
  exact congrFun hset u

theorem hand_same {s s' : FileState α} {t : Nat} {place place' : FilePlace} (ht : s.threads[t]? = some place)
    (hthreads : s'.threads = s.threads.set t place') (hhand : place'.hand = place.hand) : s'.hand = s.hand := by
  have hset := bind_set_same FilePlace.hand ht hhand
  funext u
  show (s'.threads[u]?).bind FilePlace.hand = _
  rw [hthreads]
  exact congrFun hset u

theorem FilesKept.move {s s' : FileState α} (h : FilesKept s) {t : Nat} {place place' : FilePlace}
    (ht : s.threads[t]? = some place) (hthreads : s'.threads = s.threads.set t place')
    (harrays : s'.fds = s.fds ∧ s'.fiddies = s.fiddies)
    (htokens : place'.lfdToken = place.lfdToken ∧ place'.fdToken = place.fdToken) (howned : Owned s')
    (hdealt : Dealt s'.passed s'.hand s'.closed) : FilesKept s' := by
  obtain ⟨hfds, hfiddies⟩ := harrays
  refine ⟨?_, ?_, howned, hdealt⟩
  · rw [hfds, hthreads, map_set_same _ ht htokens.2]
    exact h.fds
  · rw [hfiddies, hthreads, map_set_same _ ht htokens.1]
    exact h.fiddies

/-- A step without a macro that changes neither what is owned nor what was passed. -/
theorem FilesKept.goto {s s' : FileState α} (h : FilesKept s) {t : Nat} {place place' : FilePlace}
    (ht : s.threads[t]? = some place) (hthreads : s'.threads = s.threads.set t place')
    (hsame : s'.fds = s.fds ∧ s'.fiddies = s.fiddies ∧ s'.passed = s.passed ∧ s'.closed = s.closed)
    (hplace : place'.lfdToken = place.lfdToken ∧ place'.fdToken = place.fdToken ∧ place'.owns = place.owns ∧
      place'.hand = place.hand)
    (hknows : place'.Knows s) (hheld : ∀ u, u ≠ t → s.fiddieLock = some u → s'.fiddieLock = some u)
    (hlock : place'.locks = true → s'.fiddieLock = some t) : FilesKept s' := by
  obtain ⟨hfds, hfiddies, hpassed, hclosed⟩ := hsame
  obtain ⟨hlfd, hfd, howns, hhand⟩ := hplace
  have howned : Owned s' := h.owned.place ht hthreads (fun j => by rw [hfds]) (by rw [hfds]) (fun j => by rw [hfiddies])
    hpassed howns hknows hheld hlock
  refine h.move ht hthreads ⟨hfds, hfiddies⟩ ⟨hlfd, hfd⟩ howned ?_
  rw [hand_same ht hthreads hhand, hpassed, hclosed]
  exact h.dealt

theorem FilesKept.onFiddies {s s' : FileState α} (h : FilesKept s) {op : ArrayOp (Nat × Nat)} {t : Nat}
    {place place' : FilePlace} (ht : s.threads[t]? = some place) (hs : s.onFiddies op t place' = some s')
    (hheld : ∀ a, arrayStep op s.fiddies = some a → Held a ((s.threads.map FilePlace.lfdToken).set t place'.lfdToken))
    (hplace : place'.fdToken = place.fdToken ∧ place'.hand = place.hand) (howned : Owned s') : FilesKept s' := by
  obtain ⟨a, ha, rfl⟩ := Option.map_eq_some_iff.mp hs
  obtain ⟨hfd, hhand⟩ := hplace
  refine ⟨?_, ?_, howned, ?_⟩
  · show Held s.fds ((s.threads.set t place').map FilePlace.fdToken)
    rw [map_set_same _ ht hfd]
    exact h.fds
  · show Held a ((s.threads.set t place').map FilePlace.lfdToken)
    rw [List.map_set]
    exact hheld a ha
  · have hhands : ({ s with fiddies := a }.goto t place').hand = s.hand := hand_same ht rfl hhand
    rw [hhands]
    exact h.dealt

theorem FilesKept.onFds {s s' : FileState α} (h : FilesKept s) {op : ArrayOp α} {t : Nat}
    {place place' : FilePlace} (ht : s.threads[t]? = some place) (hs : s.onFds op t place' = some s')
    (hheld : ∀ a, arrayStep op s.fds = some a → Held a ((s.threads.map FilePlace.fdToken).set t place'.fdToken))
    (hplace : place'.lfdToken = place.lfdToken ∧ place'.hand = place.hand) (howned : Owned s') : FilesKept s' := by
  obtain ⟨a, ha, rfl⟩ := Option.map_eq_some_iff.mp hs
  obtain ⟨hlfd, hhand⟩ := hplace
  refine ⟨?_, ?_, howned, ?_⟩
  · show Held a ((s.threads.set t place').map FilePlace.fdToken)
    rw [List.map_set]
    exact hheld a ha
  · show Held s.fiddies ((s.threads.set t place').map FilePlace.lfdToken)
    rw [map_set_same _ ht hlfd]
    exact h.fiddies
  · have hhands : ({ s with fds := a }.goto t place').hand = s.hand := hand_same ht rfl hhand
    rw [hhands]
    exact h.dealt

theorem FilesKept.getFiddie {s s' : FileState α} (h : FilesKept s) {t lfd : Nat} {place place' : FilePlace}
    (ht : s.threads[t]? = some place) (hs : s.onFiddies (.get lfd) t place' = some s')
    (htoken : place.lfdToken = none ∧ place'.lfdToken = (look s.fiddies.array lfd).map fun v => (lfd, v.1))
    (hplace : place'.fdToken = place.fdToken ∧ place'.owns = place.owns ∧ place'.hand = place.hand)
    (hknows : place'.Knows s) (hlock : place'.locks = true → place.locks = true) : FilesKept s' := by
  obtain ⟨hfd, howns, hhand⟩ := hplace
  have hmap : (s.threads.map FilePlace.lfdToken)[t]? = some none := by rw [List.getElem?_map, ht, ← htoken.1]; rfl
  refine h.onFiddies ht hs (fun a ha => ?_) ⟨hfd, hhand⟩ ?_
  · rw [htoken.2]
    exact h.fiddies.get hmap ha
  · obtain ⟨a, ha, rfl⟩ := Option.map_eq_some_iff.mp hs
    cases ha
    exact h.owned.place ht rfl (fun _ => rfl) rfl (look_get _ _) rfl howns hknows (fun _ _ hu => hu)
      (fun hl => h.owned.lock t place ht (hlock hl))

theorem FilesKept.unrefFiddie {s s' : FileState α} (h : FilesKept s) {t lfd q : Nat} {place place' : FilePlace}
    (ht : s.threads[t]? = some place) (hs : s.onFiddies (.unref lfd q) t place' = some s')
    (htoken : place.lfdToken = some (lfd, q) ∧ place'.lfdToken = none)
    (hplace : place'.fdToken = place.fdToken ∧ place'.owns = place.owns ∧ place'.hand = place.hand)
    (hknows : place'.Knows s) (hlock : place'.locks = true → place.locks = true) : FilesKept s' := by
  obtain ⟨hfd, howns, hhand⟩ := hplace
  have hmap : (s.threads.map FilePlace.lfdToken)[t]? = some (some (lfd, q)) := by
    rw [List.getElem?_map, ht, ← htoken.1]
    rfl
  refine h.onFiddies ht hs (fun a ha => ?_) ⟨hfd, hhand⟩ ?_
  · rw [htoken.2]
    exact h.fiddies.unref hmap ha
  · obtain ⟨a, ha, rfl⟩ := Option.map_eq_some_iff.mp hs
    cases ha
    exact h.owned.place ht rfl (fun _ => rfl) rfl (h.fiddies.kept.look_unref (h.fiddies.mem hmap)) rfl howns hknows
      (fun _ _ hu => hu) (fun hl => h.owned.lock t place ht (hlock hl))

theorem FilesKept.getFd {s s' : FileState α} (h : FilesKept s) {t fd : Nat} {place place' : FilePlace}
    (ht : s.threads[t]? = some place) (hs : s.onFds (.get fd) t place' = some s')
    (htoken : place.fdToken = none ∧ place'.fdToken = (look s.fds.array fd).map fun v => (fd, v.1))
    (hplace : place'.lfdToken = place.lfdToken ∧ place'.owns = place.owns ∧ place'.hand = place.hand)
    (hknows : place'.Knows s) (hlock : place'.locks = false) : FilesKept s' := by
  obtain ⟨hlfd, howns, hhand⟩ := hplace
  have hmap : (s.threads.map FilePlace.fdToken)[t]? = some none := by rw [List.getElem?_map, ht, ← htoken.1]; rfl
  refine h.onFds ht hs (fun a ha => ?_) ⟨hlfd, hhand⟩ ?_
  · rw [htoken.2]
    exact h.fds.get hmap ha
  · obtain ⟨a, ha, rfl⟩ := Option.map_eq_some_iff.mp hs
    cases ha
    exact h.owned.place ht rfl (look_get _ _) rfl (fun _ => rfl) rfl howns hknows (fun _ _ hu => hu)
      (fun hl => absurd (hlock.symm.trans hl) Bool.false_ne_true)

theorem FilesKept.unrefFd {s s' : FileState α} (h : FilesKept s) {t fd p : Nat} {place place' : FilePlace}
    (ht : s.threads[t]? = some place) (hs : s.onFds (.unref fd p) t place' = some s')
    (htoken : place.fdToken = some (fd, p) ∧ place'.fdToken = none)
    (hplace : place'.lfdToken = place.lfdToken ∧ place'.owns = place.owns ∧ place'.hand = place.hand)
    (hknows : place'.Knows s) (hlock : place'.locks = false) : FilesKept s' := by
  obtain ⟨hlfd, howns, hhand⟩ := hplace
  have hmap : (s.threads.map FilePlace.fdToken)[t]? = some (some (fd, p)) := by
    rw [List.getElem?_map, ht, ← htoken.1]
    rfl
  refine h.onFds ht hs (fun a ha => ?_) ⟨hlfd, hhand⟩ ?_
  · rw [htoken.2]
    exact h.fds.unref hmap ha
  · obtain ⟨a, ha, rfl⟩ := Option.map_eq_some_iff.mp hs
    cases ha
    exact h.owned.place ht rfl (h.fds.kept.look_unref (h.fds.mem hmap)) rfl (fun _ => rfl) rfl howns hknows
      (fun _ _ hu => hu) (fun hl => absurd (hlock.symm.trans hl) Bool.false_ne_true)

theorem FilesKept.fsOpen {s s' : FileState α} (h : FilesKept s) {t : Nat} {d : α} (ht : s.threads[t]? = some .opening)
    (hs : s.onFds (.add d) t (.opened (firstFree s.fds.array) s.fds.count) = some s') : FilesKept s' := by
  refine h.onFds ht hs (fun a ha => ?_) ⟨rfl, rfl⟩ ?_
  · rw [← List.map_set, map_set_same _ ht]
    · exact h.fds.add ha
    · rfl
  · obtain ⟨a, ha, rfl⟩ := Option.map_eq_some_iff.mp hs
    cases ha
    exact h.owned.fsOpen ht rfl (look_firstFree _) (look_add _ _) rfl ⟨rfl, rfl, rfl⟩

theorem FilesKept.fopen {s s' : FileState α} (h : FilesKept s) {t fd p : Nat} (ht : s.threads[t]? = some (.opened fd p))
    (hs : s.onFiddies (.add (fd, p)) t (.returned (firstFree s.fiddies.array)) = some s') : FilesKept s' := by
  refine h.onFiddies ht hs (fun a ha => ?_) ⟨rfl, rfl⟩ ?_
  · rw [← List.map_set, map_set_same _ ht]
    · exact h.fiddies.add ha
    · rfl
  · obtain ⟨a, ha, rfl⟩ := Option.map_eq_some_iff.mp hs
    cases ha
    exact h.owned.fopen ht rfl (look_firstFree _) (look_add _ _) ⟨rfl, rfl, rfl⟩

theorem FilesKept.closeRemove {s s' : FileState α} (h : FilesKept s) {t lfd q fd p : Nat}
    (ht : s.threads[t]? = some (.closeRemove lfd q fd p))
    (hs : s.onFiddies (.remove lfd) t (.closeRelease fd p) = some s') : FilesKept s' := by
  have hfound : look s.fiddies.array lfd = some (q, fd, p) := h.owned.knows t _ ht
  refine h.onFiddies ht hs (fun a ha => ?_) ⟨rfl, rfl⟩ ?_
  · rw [← List.map_set, map_set_same _ ht]
    · exact h.fiddies.remove hfound ha
    · rfl
  · obtain ⟨a, ha, rfl⟩ := Option.map_eq_some_iff.mp hs
    cases ha
    exact h.owned.fclose ht rfl (look_remove _ _) ⟨rfl, rfl, rfl⟩

theorem FilesKept.closeRelease {s s' : FileState α} (h : FilesKept s) {t fd p : Nat}
    (ht : s.threads[t]? = some (.closeRelease fd p))
    (hs : fileThreadStep s t (.closeRelease fd p) = some s') : FilesKept s' := by
  cases hs
  have howned := h.owned.pass h.fds.kept ht rfl
  refine h.move ht rfl ⟨rfl, rfl⟩ ⟨rfl, rfl⟩ howned ?_
  have hempty : s.hand t = none := by
    show (s.threads[t]?).bind FilePlace.hand = none
    rw [ht]
    rfl
  have hdealt := h.dealt.deal hempty p
  rw [hand_set ht rfl]
  exact hdealt

theorem FilesKept.fdRemove {s s' : FileState α} (h : FilesKept s) {t fd p n : Nat}
    (ht : s.threads[t]? = some (.fdRemove fd p n)) (hs : s.onFds (.remove fd) t (.fdRelease p n) = some s') :
    FilesKept s' := by
  obtain ⟨d, hfound⟩ := h.owned.knows t _ ht
  refine h.onFds ht hs (fun a ha => ?_) ⟨rfl, rfl⟩ ?_
  · rw [← List.map_set, map_set_same _ ht]
    · exact h.fds.remove hfound ha
    · rfl
  · obtain ⟨a, ha, rfl⟩ := Option.map_eq_some_iff.mp hs
    cases ha
    exact h.owned.fdRemove ht rfl (look_remove _ _) rfl ⟨rfl, rfl, rfl⟩

theorem FilesKept.fdOp {s s' : FileState α} (h : FilesKept s) {t p n : Nat} (ht : s.threads[t]? = some (.fdOp p n))
    {ret : Int} (hs' : s' = { s with closed := s.closed ++ [(p, n)] }.goto t (.returned ret)) : FilesKept s' := by
  have hthreads : s'.threads = s.threads.set t (.returned ret) := by rw [hs']; rfl
  have harrays : s'.fds = s.fds ∧ s'.fiddies = s.fiddies := by rw [hs']; exact ⟨rfl, rfl⟩
  have hrest : s'.passed = s.passed ∧ s'.fiddieLock = s.fiddieLock := by rw [hs']; exact ⟨rfl, rfl⟩
  have howned : Owned s' := h.owned.place ht hthreads (fun j => by rw [harrays.1]) (by rw [harrays.1])
    (fun j => by rw [harrays.2]) hrest.1 rfl trivial (fun u _ hu => by rw [hrest.2]; exact hu)
    (fun hl => absurd hl Bool.false_ne_true)
  refine h.move ht hthreads harrays ⟨rfl, rfl⟩ howned ?_
  have hhand : s.hand t = some (p, n) := by
    show (s.threads[t]?).bind FilePlace.hand = some (p, n)
    rw [ht]
    rfl
  have hdealt := h.dealt.finish hhand
  rw [hand_set ht hthreads, hs']
  exact hdealt

theorem FilesKept.threadStep {s s' : FileState α} (h : FilesKept s) {t : Nat} {place : FilePlace}
    (ht : s.threads[t]? = some place) (hs : fileThreadStep s t place = some s') : FilesKept s' := by
  cases place with
  | returned ret => cases hs
  | opening => cases hs
  | ioRun op lfd q fd p => cases hs
  | fdOp p n => cases hs
  | opened fd p => exact h.fopen ht hs
  | ioGet op lfd =>
    cases hv : look s.fiddies.array lfd with
    | none =>
      simp only [fileThreadStep, hv, ioGot] at hs
      exact h.getFiddie ht hs ⟨rfl, by rw [hv]; rfl⟩ ⟨rfl, rfl, rfl⟩ trivial (fun hl => hl)
    | some v =>
      simp only [fileThreadStep, hv, ioGot] at hs
      exact h.getFiddie ht hs ⟨rfl, by rw [hv]; rfl⟩ ⟨rfl, rfl, rfl⟩ trivial (fun hl => hl)
  | ioFd op lfd q fd =>
    cases hv : look s.fds.array fd with
    | none =>
      simp only [fileThreadStep, hv, ioGotFd] at hs
      exact h.getFd ht hs ⟨rfl, by rw [hv]; rfl⟩ ⟨rfl, rfl, rfl⟩ trivial rfl
    | some v =>
      simp only [fileThreadStep, hv, ioGotFd] at hs
      exact h.getFd ht hs ⟨rfl, by rw [hv]; rfl⟩ ⟨rfl, rfl, rfl⟩ trivial rfl
  | ioUnrefFd lfd q fd p ret => exact h.unrefFd ht hs ⟨rfl, rfl⟩ ⟨rfl, rfl, rfl⟩ trivial rfl
  | ioUnref lfd q ret => exact h.unrefFiddie ht hs ⟨rfl, rfl⟩ ⟨rfl, rfl, rfl⟩ trivial (fun hl => hl)
  | closeAcquire lfd =>
    simp only [fileThreadStep] at hs
    split at hs
    · cases hs
      exact h
    · next hfree =>
      -- Nobody holds the lock, so taking it disturbs nobody.
      cases hs
      refine h.goto ht rfl ⟨rfl, rfl, rfl, rfl⟩ ⟨rfl, rfl, rfl, rfl⟩ trivial (fun u _ hu => ?_) (fun _ => rfl)
      rw [hu] at hfree
      exact absurd rfl hfree
  | closeGet lfd =>
    cases hv : look s.fiddies.array lfd with
    | none =>
      simp only [fileThreadStep, hv, closeGot] at hs
      exact h.getFiddie ht hs ⟨rfl, by rw [hv]; rfl⟩ ⟨rfl, rfl, rfl⟩ trivial (fun _ => rfl)
    | some v =>
      simp only [fileThreadStep, hv, closeGot] at hs
      exact h.getFiddie ht hs ⟨rfl, by rw [hv]; rfl⟩ ⟨rfl, rfl, rfl⟩ hv (fun _ => rfl)
  | closeFail =>
    cases hs
    have hmine := h.owned.lock t _ ht rfl
    refine h.goto ht rfl ⟨rfl, rfl, rfl, rfl⟩ ⟨rfl, rfl, rfl, rfl⟩ trivial (fun u hut hu => ?_)
      (fun hl => absurd hl Bool.false_ne_true)
    rw [hmine] at hu
    exact absurd (Option.some.inj hu).symm hut
  | closeUnref lfd q fd p =>
    have hknows := h.owned.knows t _ ht
    exact h.unrefFiddie ht hs ⟨rfl, rfl⟩ ⟨rfl, rfl, rfl⟩ hknows (fun _ => rfl)
  | closeRemove lfd q fd p => exact h.closeRemove ht hs
  | closeRelease fd p => exact h.closeRelease ht hs
  | fdAcquire fd p n =>
    simp only [fileThreadStep] at hs
    split at hs
    · cases hs
      exact h
    · cases hs
      have hknows := h.owned.knows t _ ht
      exact h.goto ht rfl ⟨rfl, rfl, rfl, rfl⟩ ⟨rfl, rfl, rfl, rfl⟩ hknows (fun _ _ hu => hu)
        (fun hl => absurd hl Bool.false_ne_true)
  | fdGet fd p n =>
    -- The descriptor is still there: only its owner takes it out.
    obtain ⟨d, hfound⟩ := h.owned.knows t _ ht
    simp only [fileThreadStep, hfound, fdGot] at hs
    exact h.getFd ht hs ⟨rfl, by rw [hfound]; rfl⟩ ⟨rfl, rfl, rfl⟩ ⟨d, hfound⟩ rfl
  | fdFail n => exact (h.owned.knows t _ ht).elim
  | fdUnref fd p n =>
    have hknows := h.owned.knows t _ ht
    exact h.unrefFd ht hs ⟨rfl, rfl⟩ ⟨rfl, rfl, rfl⟩ hknows rfl
  | fdRemove fd p n => exact h.fdRemove ht hs
  | fdRelease p n =>
    cases hs
    exact h.goto ht rfl ⟨rfl, rfl, rfl, rfl⟩ ⟨rfl, rfl, rfl, rfl⟩ trivial (fun _ _ hu => hu)
      (fun hl => absurd hl Bool.false_ne_true)

theorem FilesKept.call {s s' : FileState α} (h : FilesKept s) {t : Nat} {place : FilePlace}
    (hs : s.call t place = some s')
    (hplace : place.lfdToken = none ∧ place.fdToken = none ∧ place.owns = none ∧ place.hand = none)
    (hknows : place.Knows s) (hlock : place.locks = false) : FilesKept s' := by
  unfold FileState.call at hs
  split at hs
  · next ret ht =>
    cases hs
    exact h.goto ht rfl ⟨rfl, rfl, rfl, rfl⟩ hplace hknows (fun _ _ hu => hu)
      (fun hl => absurd (hlock.symm.trans hl) Bool.false_ne_true)
  · cases hs

theorem FilesKept.leave {s : FileState α} (h : FilesKept s) {t : Nat} {place : FilePlace}
    (ht : s.threads[t]? = some place)
    (hplace : place.lfdToken = none ∧ place.fdToken = none ∧ place.owns = none ∧ place.hand = none) (ret : Int) :
    FilesKept (s.goto t (.returned ret)) := by
  obtain ⟨hlfd, hfd, howns, hhand⟩ := hplace
  exact h.goto ht rfl ⟨rfl, rfl, rfl, rfl⟩ ⟨hlfd.symm, hfd.symm, howns.symm, hhand.symm⟩ trivial (fun _ _ hu => hu)
    (fun hl => absurd hl Bool.false_ne_true)

theorem FilesKept.step {l : FileLabel α} {s s' : FileState α} (hs : fileStep l s = some s') (h : FilesKept s) :
    FilesKept s' := by
  cases l with
  | fopen t => exact h.call hs ⟨rfl, rfl, rfl, rfl⟩ trivial rfl
  | fread t lfd => exact h.call hs ⟨rfl, rfl, rfl, rfl⟩ trivial rfl
  | fwrite t lfd => exact h.call hs ⟨rfl, rfl, rfl, rfl⟩ trivial rfl
  | fclose t lfd => exact h.call hs ⟨rfl, rfl, rfl, rfl⟩ trivial rfl
  | gone t =>
    simp only [fileStep] at hs
    split at hs
    · next ht =>
      cases hs
      exact h.leave ht ⟨rfl, rfl, rfl, rfl⟩ _
    · next ht =>
      cases hs
      exact h.leave ht ⟨rfl, rfl, rfl, rfl⟩ _
    · next ht =>
      cases hs
      exact h.leave ht ⟨rfl, rfl, rfl, rfl⟩ _
    · cases hs
  | fsOpen t ret =>
    simp only [fileStep] at hs
    split at hs
    · next ht =>
      cases ret with
      | error e =>
        cases hs
        exact h.leave ht ⟨rfl, rfl, rfl, rfl⟩ _
      | ok d => exact h.fsOpen ht hs
    · cases hs
  | result t ret =>
    simp only [fileStep] at hs
    split at hs
    · next ht =>
      cases hs
      exact h.goto ht rfl ⟨rfl, rfl, rfl, rfl⟩ ⟨rfl, rfl, rfl, rfl⟩ trivial (fun _ _ hu => hu)
        (fun hl => absurd hl Bool.false_ne_true)
    · next ht =>
      cases hs
      exact h.fdOp ht rfl
    · cases hs
  | step t =>
    simp only [fileStep] at hs
    split at hs
    · next ht => exact h.threadStep ht hs
    · cases hs

theorem filesKept_start (threads : Nat) : FilesKept (fileStart threads : FileState α) := by
  have hplace : ∀ (t : Nat) (place : FilePlace), (fileStart threads : FileState α).threads[t]? = some place →
      place = .returned 0 := fun t place ht => List.eq_of_mem_replicate (List.mem_of_getElem? ht)
  have hheld : ∀ {β : Type} (f : FilePlace → Option (Nat × Nat)), f (.returned 0) = none →
      Held (arrayInit : ArrayState β) ((fileStart threads : FileState α).threads.map f) := by
    intro β f hf
    refine ⟨kept_init, fun tok => ?_⟩
    simp [fileStart, List.map_replicate, hf, List.count_replicate]
  have hnone : ∀ {β : Type} (f : FilePlace → Option β), f (.returned 0) = none →
      ∀ t : Nat, ((fileStart threads : FileState α).threads[t]?).bind f = none := by
    intro β f hf t
    cases ht : (fileStart threads : FileState α).threads[t]? with
    | none => rfl
    | some place =>
      rw [hplace t place ht]
      exact hf
  have hhold : ∀ x, (fileStart threads : FileState α).hold x = none := by
    intro x
    cases x with
    | inl t => exact hnone _ rfl t
    | inr lfd => rfl
  refine ⟨hheld _ rfl, hheld _ rfl, ⟨⟨?_, ?_, ?_, ?_⟩, ?_, ?_, ?_, ?_, ?_⟩, ?_⟩
  · intro x r hx
    rw [hhold] at hx
    cases hx
  · exact fun r hr => absurd hr (Set.notMem_empty r)
  · intro x y r hx
    rw [hhold] at hx
    cases hx
  · exact fun x r _ => Set.notMem_empty r
  · intro t place ht
    rw [hplace t place ht]
    exact trivial
  · intro lfd v hv
    cases hv
  · intro t place ht hl
    rw [hplace t place ht] at hl
    cases hl
  · intro p hp
    cases hp
  · exact List.nodup_nil
  · have hhand : (fileStart threads : FileState α).hand = fun _ => none := funext (hnone _ rfl)
    rw [hhand]
    exact Dealt.nil

/-! ## Every run -/

/-- A thread that reads or writes through an entry of `fiddies` and has not given
its reference back. -/
def FilePlace.uses (place : FilePlace) (lfd : Nat) : Bool :=
  match place with
  | .ioFd _ l _ _ | .ioRun _ l _ _ _ | .ioUnrefFd l _ _ _ _ | .ioUnref l _ _ => l == lfd
  | _ => false

theorem FilePlace.uses_token {place : FilePlace} {lfd : Nat} (h : place.uses lfd = true) :
    ∃ q, place.lfdToken = some (lfd, q) := by
  cases place with
  | ioFd op l q fd => exact ⟨q, congrArg (fun l => some (l, q)) (eq_of_beq h)⟩
  | ioRun op l q fd p => exact ⟨q, congrArg (fun l => some (l, q)) (eq_of_beq h)⟩
  | ioUnrefFd l q fd p ret => exact ⟨q, congrArg (fun l => some (l, q)) (eq_of_beq h)⟩
  | ioUnref l q ret => exact ⟨q, congrArg (fun l => some (l, q)) (eq_of_beq h)⟩
  | _ => cases h

theorem FilesKept.slot_kept {s : FileState α} (h : FilesKept s) {t lfd : Nat} {place : FilePlace}
    (ht : s.threads[t]? = some place) (huses : place.uses lfd = true) : firstFree s.fiddies.array ≠ lfd := by
  obtain ⟨q, hq⟩ := FilePlace.uses_token huses
  have hmap : (s.threads.map FilePlace.lfdToken)[t]? = some (some (lfd, q)) := by rw [List.getElem?_map, ht, ← hq]; rfl
  have hne := h.fiddies.kept.add_ne (0, 0, 0) (h.fiddies.mem hmap)
  rwa [arrayAdd_fst] at hne

/-- No descriptor has been opened or closed between the two states. -/
structure Untouched (s s' : FileState α) : Prop where
  fds : ∀ j, look s'.fds.array j = look s.fds.array j
  fiddies : ∀ j, look s'.fiddies.array j = look s.fiddies.array j
  passed : s'.passed = s.passed
  closed : s'.closed = s.closed

/-- Each close operation is that of the descriptor passed to the call, so no
descriptor has it invoked twice. -/
theorem FilesKept.closed_nodup {s : FileState α} (h : FilesKept s) : (s.closed.map Prod.fst).Nodup := by
  refine h.dealt.once.of_map.map_on (fun e he e' he' heq => ?_)
  have hwas := h.dealt.was e he
  have hwas' := h.dealt.was e' he'
  rw [← heq] at hwas'
  have hnum : e.2 = e'.2 := (List.getElem?_inj (Dealt.lt hwas) h.owned.once).mp (hwas.trans hwas'.symm)
  exact Prod.ext heq hnum

/-- Whatever the threads do, no descriptor of `fs_open` is passed to `fd_close`
twice, and each call of `fd_close` invokes the close operation of what it was
passed, at most once. An `fclose` that finds its local number not open goes on to
return `-EBADF` and closes nothing; and `fopen` does not return the number of a
slot through which somebody still reads or writes. -/
theorem fclose_once {threads : Nat} {tr : List (FileLabel α)} {s : FileState α}
    (hr : Run fileStep anyStep (fileStart threads) tr s) :
    s.passed.Nodup ∧
    (s.closed.map Prod.snd).Nodup ∧ (s.closed.map Prod.fst).Nodup ∧ (∀ e ∈ s.closed, s.passed[e.2]? = some e.1) ∧
    (∀ t lfd, s.threads[t]? = some (.closeGet lfd) → look s.fiddies.array lfd = none →
      ∃ s', fileStep (.step t) s = some s' ∧ s'.threads = s.threads.set t .closeFail ∧ Untouched s s') ∧
    (∀ t : Nat, s.threads[t]? = some .closeFail →
      ∃ s', fileStep (.step t) s = some s' ∧ s'.threads = s.threads.set t (.returned (-ebadf)) ∧ Untouched s s') ∧
    (∀ (t u lfd fd p : Nat) (place : FilePlace) (s' : FileState α), s.threads[t]? = some place →
      place.uses lfd = true → s.threads[u]? = some (.opened fd p) → fileStep (.step u) s = some s' →
      ∃ lfd' : Nat, s'.threads[u]? = some (.returned lfd') ∧ lfd' ≠ lfd) := by
  have hkept : FilesKept s := hr.invariant (fun _ _ _ _ hs h => h.step hs) (filesKept_start threads)
  refine ⟨hkept.owned.once, hkept.dealt.once, hkept.closed_nodup, hkept.dealt.was, ?_, ?_, ?_⟩
  · intro t lfd ht hnone
    simp only [fileStep, ht, fileThreadStep, hnone, closeGot]
    exact ⟨_, rfl, rfl, fun _ => rfl, look_get _ _, rfl, rfl⟩
  · intro t ht
    simp only [fileStep, ht, fileThreadStep]
    exact ⟨_, rfl, rfl, fun _ => rfl, fun _ => rfl, rfl, rfl⟩
  · intro t u lfd fd p place s' ht huses hu hs
    simp only [fileStep, hu, fileThreadStep] at hs
    obtain ⟨a, -, rfl⟩ := Option.map_eq_some_iff.mp hs
    have hlt : u < s.threads.length := (List.getElem?_eq_some_iff.mp hu).1
    exact ⟨firstFree s.fiddies.array, List.getElem?_set_self hlt, hkept.slot_kept ht huses⟩

/-- One thread opens a file and another begins to read it. While the operation of
the descriptor runs, the first closes the file, tries to close it again, and opens
another one, which gets another slot. -/
def reopenTrace : List (FileLabel Unit) :=
  [.fopen 0, .fsOpen 0 (.ok ()), .step 0, .fread 1 0, .step 1, .step 1] ++
  ([.fclose 0 0] ++ List.replicate 10 (.step 0) ++ [.result 0 0]) ++
  [.fclose 0 0, .step 0, .step 0, .step 0] ++
  [.fopen 0, .fsOpen 0 (.ok ()), .step 0]

/-- The second thread is reading through slot `0` all the while. -/
theorem fclose_once_reopened : ∃ s, Run fileStep anyStep (fileStart 2) reopenTrace s ∧
    (s.threads = [.returned 1, .ioRun .read 0 0 0 0] ∧ s.passed = [0] ∧ s.closed = [(0, 0)]) ∧
    s.passed.Nodup ∧ (s.closed.map Prod.fst).Nodup := by
  have hrun : ∃ s, Run fileStep anyStep (fileStart 2) reopenTrace s ∧
      (s.threads = [.returned 1, .ioRun .read 0 0 0 0] ∧ s.passed = [0] ∧ s.closed = [(0, 0)]) :=
    run_such (by decide +kernel)
  obtain ⟨s, hr, hs⟩ := hrun
  obtain ⟨hpassed, -, hclosed, -⟩ := fclose_once hr
  exact ⟨s, hr, hs, hpassed, hclosed⟩

end Aex.Fs
