import AexKernel.Fs.Iso9660Script

/- What becomes of a `dev_block_read` that fails.

   `iso9660_read`, `iso9660_find`, `iso9660_opendir` and `iso9660_readdir` look at none of
   the results. Whatever a call finds behind a request that failed is old memory, and none
   of the four returns an error for it: a call in which a request fails is never right. -/
namespace Aex.Fs
open Rc Bytes

/-- The log of a call. -/
abbrev IsoLog := List (Script.Entry IsoNote IsoRead IsoAnswer)

/-- The calls that read blocks, with what they are given. -/
inductive IsoCall where
  | read (mem : Mem) (ifd buffer len : Nat)
  | find (unset : IsoUnset) (lba size : Nat) (segment : CStr) (ext : Bool)
  | opendir (path : CStr) (unset : IsoUnset)
  | readdir (fuel ifd : Nat) (dst : FsDentry)

/-- What `iso9660_opendir` returns, as an `int`. -/
def idCode : Except Int Nat → Int
  | .error e => e
  | .ok id => id

/-- The call on a mount: what it returns, and the mount after it. -/
def IsoCall.script (data : IsoPrivate) : IsoCall → IsoScript (Int × IsoPrivate)
  | .read mem ifd buffer len => (readScript data mem ifd buffer len).bind fun out => .done (out.1, out.2.1)
  | .find unset lba size segment ext => (findScript unset lba size segment ext).bind fun found => .done (found.1.code, data)
  | .opendir path unset => (opendirScript data path unset).bind fun out => .done (idCode out.1, out.2)
  | .readdir fuel ifd dst => (readdirScript data fuel ifd dst).bind fun out => .done (out.1, out.2.1)

/-- A request fails. -/
def Fails (l : IsoLog) : Prop := ∃ q c, .asked q (.error c) ∈ l

/-- The next return of a function. -/
def NextReturn (who : IsoFn) (code : Int) (l : IsoLog) : Prop :=
  ∃ l₁ l₂, l = l₁ ++ .told (.returned who code) :: l₂ ∧ ∀ code', .told (.returned who code') ∉ l₁

/-- Where the cursor of a handle is. -/
def cursor (data : IsoPrivate) (id : Nat) : Option Nat := (slot data.lhandles id).map (fun e => e.value.pos)

/-- A request that fails is reported: the function that makes it returns a negative code,
and so does the call, with the cursors where they were. -/
structure Reports (data : IsoPrivate) (l : IsoLog) (r : Option (Int × IsoPrivate)) : Prop where
  function : ∀ l₁ q c l₂, l = l₁ ++ .asked q (.error c) :: l₂ → ∃ code, code < 0 ∧ NextReturn q.who code l₂
  call : Fails l → ∃ code data', r = some (code, data') ∧ code < 0 ∧ ∀ id, cursor data' id = cursor data id

theorem Reports.negative {data : IsoPrivate} {l : IsoLog} {r : Option (Int × IsoPrivate)} (h : Reports data l r)
    {q : IsoRead} {c : Int × List Nat} (hin : .asked q (.error c) ∈ l) : ∃ code, code < 0 ∧ .told (.returned q.who code) ∈ l := by
  obtain ⟨l₁, l₂, rfl⟩ := List.append_of_mem hin
  obtain ⟨code, hneg, m₁, m₂, rfl, -⟩ := h.function l₁ q c l₂ rfl
  exact ⟨code, hneg, by simp⟩

/-! ## What the functions return -/

/-- The log of searches: nothing else asks, and no return is an error. -/
structure Searches (l : IsoLog) : Prop where
  asked : ∀ q a, .asked q a ∈ l → q.who = .find
  returned : ∀ who code, .told (.returned who code) ∈ l → 0 ≤ code

theorem Searches.nil : Searches [] := ⟨fun _ _ hin => (List.not_mem_nil hin).elim, fun _ _ hin => (List.not_mem_nil hin).elim⟩

theorem Searches.append {l₁ l₂ : IsoLog} (h₁ : Searches l₁) (h₂ : Searches l₂) : Searches (l₁ ++ l₂) := by
  refine ⟨fun q a hin => ?_, fun who code hin => ?_⟩
  · rcases List.mem_append.mp hin with hin | hin
    · exact h₁.asked q a hin
    · exact h₂.asked q a hin
  · rcases List.mem_append.mp hin with hin | hin
    · exact h₁.returned who code hin
    · exact h₂.returned who code hin

section Find
variable {lba size : Nat} {segment : CStr} {ext : Bool} {l : IsoLog}

theorem dentryType_code (m : Mem) (a : Nat) : 0 ≤ (dentryType m a).code := by
  unfold dentryType
  split
  · decide
  · decide

theorem lookAt_run {α : Type} {addrs : List Nat} {next : IsoScript α} {r : Option α} (h : Script.Run (lookAt addrs next) l r) :
    ∃ l', Script.Run next l' r ∧ l = addrs.map (fun a => .told (.look a)) ++ l' := by
  obtain ⟨l', hrun, rfl⟩ := Script.Run.of_tellAll h
  exact ⟨l', hrun, by rw [List.map_map]; rfl⟩

theorem ret_run {α : Type} {who : IsoFn} {code : Int} {a : α} {r : Option α} (h : Script.Run (ret who code a) l r) :
    l = [.told (.returned who code)] ∧ r = some a := by
  cases h with
  | tell h =>
    cases h
    exact ⟨rfl, rfl⟩

theorem fetch_run {α : Type} {who : IsoFn} {offset pos : Nat} {buffer : Mem} {next : Mem → IsoScript α} {r : Option α}
    (h : Script.Run (fetch who lba offset pos buffer next) l r) :
    ∃ buffer' l', Script.Run (next buffer') l' r := by
  cases h with
  | ask a h => exact ⟨_, _, h⟩

theorem findLoopScript_code : ∀ {fuel progress offset : Nat} {buffer : Mem} {l : IsoLog} {found : IsoFound},
    Script.Run (findLoopScript lba size segment ext fuel progress offset buffer) l (some found) → 0 ≤ found.1.code := by
  intro fuel
  induction fuel with
  | zero =>
    intro progress offset buffer l found h
    cases h
  | succ fuel ih =>
    intro progress offset buffer l found h
    have hnext : ∀ {l : IsoLog}, Script.Run (nextBlockScript lba size progress buffer
        (findLoopScript lba size segment ext fuel (u32 (progress + isoBlock)) 0)) l (some found) → 0 ≤ found.1.code := by
      intro l h
      obtain ⟨buffer', l', h⟩ := fetch_run h
      split at h
      · cases h
        exact Int.le_refl 0
      · exact ih h
    unfold findLoopScript at h
    split at h
    · cases h
      exact Int.le_refl 0
    obtain ⟨l', h, -⟩ := lookAt_run h
    split at h
    · exact hnext h
    obtain ⟨l'', h, -⟩ := lookAt_run h
    split at h
    · obtain ⟨l₃, h, -⟩ := lookAt_run h
      cases h
      exact dentryType_code buffer offset
    split at h
    · exact hnext h
    · exact ih h

theorem findScript_run {unset : IsoUnset} {r : Option IsoFound} (h : Script.Run (findScript unset lba size segment ext) l r) :
    Searches l := by
  have hsearch : (fetch .find lba 0 (u32 (lba * isoBlock)) unset.buffer fun buffer =>
      findLoopScript lba size segment ext unset.fuel 0 0 buffer).Always (fun q => q.who = .find) (fun e => ∃ a, e = .look a) :=
    ⟨rfl, fun _ => findLoopScript_always (fun _ _ => rfl) (fun a => ⟨a, rfl⟩) _ _ _ _⟩
  have hquiet : ∀ {l : IsoLog} {r : Option IsoFound}, Script.Run (fetch .find lba 0 (u32 (lba * isoBlock)) unset.buffer fun buffer =>
      findLoopScript lba size segment ext unset.fuel 0 0 buffer) l r → Searches l := by
    intro l r h
    obtain ⟨hasked, htold⟩ := h.always hsearch
    refine ⟨hasked, fun who code hin => ?_⟩
    obtain ⟨a, heq⟩ := htold _ hin
    cases heq
  rcases Script.Run.of_bind h with ⟨h₁, -⟩ | ⟨found, l₁, l₂, h₁, h₂, rfl⟩
  · exact hquiet h₁
  · have hcode : 0 ≤ found.1.code := by
      obtain ⟨buffer', l', h'⟩ := fetch_run h₁
      exact findLoopScript_code h'
    obtain ⟨rfl, -⟩ := ret_run h₂
    refine (hquiet h₁).append ⟨fun q a hin => ?_, fun who code hin => ?_⟩
    · cases List.mem_singleton.mp hin
    · cases List.mem_singleton.mp hin
      exact hcode

theorem walkScript_run {unset : IsoUnset} : ∀ {turns : List (CStr × Int)} {found : IsoFound} {l : IsoLog}
    {r : Option (Except Int IsoFound)},
    Script.Run (walkScript unset turns found) l r → Searches l := by
  intro turns
  induction turns with
  | nil =>
    intro found l r h
    cases h
    exact .nil
  | cons turn turns ih =>
    obtain ⟨segment, left⟩ := turn
    rintro ⟨type, dir, size⟩ l r h
    rcases Script.Run.of_bind h with ⟨h₁, -⟩ | ⟨found, l₁, l₂, h₁, h₂, rfl⟩
    · exact findScript_run h₁
    · refine (findScript_run h₁).append ?_
      split at h₂
      · cases h₂
        exact .nil
      split at h₂
      · cases h₂
        exact .nil
      split at h₂
      · cases h₂
        exact .nil
      · exact ih h₂

theorem rootWalkScript_run {data : IsoPrivate} {path : CStr} {unset : IsoUnset} {l : IsoLog} {r : Option (Except Int IsoFound)}
    (h : Script.Run (rootWalkScript data path unset) l r) : Searches l := by
  unfold rootWalkScript at h
  split at h
  · cases h
    exact .nil
  · exact walkScript_run h

end Find

/-- No error that `iso9660_opendir` returns is that of a request that has failed. -/
theorem opendirScript_run {data : IsoPrivate} {path : CStr} {unset : IsoUnset} {l : IsoLog}
    {r : Option (Except Int Nat × IsoPrivate)}
    (h : Script.Run (opendirScript data path unset) l r) {q : IsoRead} {a : IsoAnswer} (hasked : .asked q a ∈ l) {code : Int}
    (hreturned : .told (.returned q.who code) ∈ l) : 0 ≤ code := by
  rcases Script.Run.of_bind h with ⟨h₁, -⟩ | ⟨out, l₁, l₂, h₁, h₂, rfl⟩
  · exact (rootWalkScript_run h₁).returned _ _ hreturned
  have hwalk := rootWalkScript_run h₁
  -- Without a request of its own, the returns of the searches are what counts.
  have hfailed : ∀ e, l₂ = [.told (.returned .opendir e)] → 0 ≤ code := by
    rintro e rfl
    rcases List.mem_append.mp hreturned with hin | hin
    · exact hwalk.returned _ _ hin
    · have hwho : q.who = .find := by
        rcases List.mem_append.mp hasked with hq | hq
        · exact hwalk.asked q a hq
        · cases List.mem_singleton.mp hq
      rw [hwho] at hin
      cases List.mem_singleton.mp hin
  cases out with
  | error e => exact hfailed e (ret_run h₂).1
  | ok found =>
    dsimp only at h₂
    split at h₂
    · exact hfailed _ (ret_run h₂).1
    · cases h₂ with
      | ask b h₂ =>
        obtain ⟨rfl, -⟩ := ret_run h₂
        rcases List.mem_append.mp hreturned with hin | hin
        · exact hwalk.returned _ _ hin
        · rcases List.mem_cons.mp hin with heq | hin
          · cases heq
          · have heq := List.mem_singleton.mp hin
            rw [Script.Entry.told.injEq, IsoNote.returned.injEq] at heq
            rw [heq.2]
            exact Int.natCast_nonneg _

/-! ## Where the cursor goes -/

section Cursor
variable {data : IsoPrivate} {ifd : Nat} {l : IsoLog}

/-- A handle that is got, changed and given back has its cursor where it was only if the
change left it there. -/
theorem cursor_write {handle handle' : IsoLhandle} {lhandles : Rc.Array IsoLhandle}
    (hget : arrayGet data.lhandles ifd = (some handle, lhandles))
    (hsame : cursor { data with lhandles := arrayUnref (arrayWrite lhandles ifd handle') ifd } ifd = cursor data ifd) :
    handle'.pos = handle.pos := by
  rcases arrayGet_cases data.lhandles ifd with ⟨-, hnone⟩ | ⟨e, hslot, -, hsome⟩
  · rw [hnone] at hget
    cases hget
  · rw [hsome] at hget
    cases hget
    unfold cursor at hsame
    dsimp only at hsame
    rw [arrayWrite_set hslot, arrayUnref_set hslot, slot_set_self hslot, hslot] at hsame
    rcases drop_cases { e with refs := e.refs + 1, value := handle' } with ⟨-, hdrop⟩ | ⟨-, hdrop⟩
    · rw [hdrop] at hsame
      cases hsame
    · rw [hdrop] at hsame
      exact Option.some.inj hsame

/-- A listing that reads a block ends with an entry, or behind where it began. -/
theorem readdirLoopScript_run : ∀ {fuel : Nat} {handle : IsoLhandle} {dst : FsDentry} {l : IsoLog}
    {out : Int × IsoLhandle × FsDentry},
    Script.Run (readdirLoopScript fuel handle dst) l (some out) →
    out.1 = 0 ∨ out.1 = -1 ∧ out.2.1.size = handle.size ∧ handle.size ≤ out.2.1.pos := by
  intro fuel
  induction fuel with
  | zero =>
    intro handle dst l out h
    cases h
  | succ fuel ih =>
    intro handle dst l out h
    have hlist : ∀ {filled : IsoLhandle} {l : IsoLog}, filled.size = handle.size →
        Script.Run (listScript filled dst (readdirLoopScript fuel)) l (some out) →
        out.1 = 0 ∨ out.1 = -1 ∧ out.2.1.size = handle.size ∧ handle.size ≤ out.2.1.pos := by
      intro filled l hsize h
      obtain ⟨l', h, -⟩ := lookAt_run h
      split at h
      · dsimp only at h
        split at h
        · next hend =>
          cases h
          rw [← hsize]
          exact .inr ⟨rfl, rfl, hend⟩
        · have hrest := ih h
          rw [← hsize]
          exact hrest
      · obtain ⟨l'', h, -⟩ := lookAt_run h
        cases h
        exact .inl rfl
    unfold readdirLoopScript at h
    split at h
    · next hend =>
      cases h
      exact .inr ⟨rfl, rfl, hend⟩
    split at h
    · cases h with
      | ask a h =>
        refine hlist ?_ h
        unfold IsoLhandle.fill
        split
        · rfl
        · rfl
    · exact hlist rfl h

theorem readdirScript_run {fuel : Nat} {dst : FsDentry} {out : Int × IsoPrivate × FsDentry}
    (h : Script.Run (readdirScript data fuel ifd dst) l (some out)) {q : IsoRead} {a : IsoAnswer} (hasked : .asked q a ∈ l)
    (hneg : out.1 < 0) : cursor out.2.1 ifd ≠ cursor data ifd := by
  unfold readdirScript at h
  split at h
  · obtain ⟨rfl, -⟩ := ret_run h
    cases List.mem_singleton.mp hasked
  next handle lhandles hget =>
  split at h
  · obtain ⟨rfl, -⟩ := ret_run h
    cases List.mem_singleton.mp hasked
  rcases Script.Run.of_bind h with ⟨-, hnone⟩ | ⟨last, l₁, l₂, h₁, h₂, rfl⟩
  · cases hnone
  obtain ⟨rfl, hout⟩ := ret_run h₂
  obtain rfl := Option.some.inj hout
  have hloop : .asked q a ∈ l₁ := by
    rcases List.mem_append.mp hasked with hin | hin
    · exact hin
    · cases List.mem_singleton.mp hin
  intro hsame
  have hpos := cursor_write hget hsame
  have hbegan : handle.pos < handle.size := by
    by_contra hend
    cases fuel with
    | zero => cases h₁
    | succ fuel =>
      unfold readdirLoopScript at h₁
      rw [if_pos (Nat.not_lt.mp hend)] at h₁
      cases h₁
      cases hloop
  rcases readdirLoopScript_run h₁ with hzero | ⟨-, -, hend⟩
  · exact absurd hneg (by rw [hzero]; exact Int.lt_irrefl 0)
  · omega

theorem readScript_run {mem : Mem} {buffer len : Nat} {out : Int × IsoPrivate × Mem}
    (h : Script.Run (readScript data mem ifd buffer len) l (some out)) {q : IsoRead} {a : IsoAnswer} (hasked : .asked q a ∈ l) :
    cursor out.2.1 ifd ≠ cursor data ifd := by
  unfold readScript at h
  split at h
  · obtain ⟨rfl, -⟩ := ret_run h
    cases List.mem_singleton.mp hasked
  next handle lhandles hget =>
  split at h
  · obtain ⟨rfl, -⟩ := ret_run h
    cases List.mem_singleton.mp hasked
  dsimp only at h
  split at h
  · obtain ⟨rfl, -⟩ := ret_run h
    cases List.mem_singleton.mp hasked
  next hlen =>
  cases h with
  | ask b h =>
    obtain ⟨-, hout⟩ := ret_run h
    obtain rfl := Option.some.inj hout
    intro hsame
    have hpos := cursor_write hget hsame
    unfold IsoLhandle.advance IsoLhandle.actualLen int32 at hpos
    unfold IsoLhandle.actualLen int32 at hlen
    dsimp only at hpos
    omega

end Cursor

/-! ## Calls -/

/-- Whatever the mount, the call and the requests that fail: a call is right about its
failures exactly when there are none. -/
theorem iso9660_reports_iff {data : IsoPrivate} {call : IsoCall} {l : IsoLog} {r : Option (Int × IsoPrivate)}
    (h : Script.Run (call.script data) l r) : Reports data l r ↔ ¬ Fails l := by
  constructor
  · rintro hr ⟨q, c, hin⟩
    obtain ⟨code, data', rfl, hneg, hsame⟩ := hr.call ⟨q, c, hin⟩
    obtain ⟨code', hneg', hreturned⟩ := hr.negative hin
    cases call with
    | read mem ifd buffer len =>
      rcases Script.Run.of_bind h with ⟨-, hnone⟩ | ⟨out, l₁, l₂, h₁, h₂, rfl⟩
      · cases hnone
      · cases h₂
        rw [List.append_nil] at hin
        exact readScript_run h₁ hin (hsame ifd)
    | find unset lba size segment ext =>
      rcases Script.Run.of_bind h with ⟨-, hnone⟩ | ⟨found, l₁, l₂, h₁, h₂, rfl⟩
      · cases hnone
      · cases h₂
        rw [List.append_nil] at hreturned
        have hpos := (findScript_run h₁).returned _ _ hreturned
        omega
    | opendir path unset =>
      rcases Script.Run.of_bind h with ⟨-, hnone⟩ | ⟨out, l₁, l₂, h₁, h₂, rfl⟩
      · cases hnone
      · cases h₂
        rw [List.append_nil] at hin hreturned
        have hpos := opendirScript_run h₁ hin hreturned
        omega
    | readdir fuel ifd dst =>
      rcases Script.Run.of_bind h with ⟨-, hnone⟩ | ⟨out, l₁, l₂, h₁, h₂, rfl⟩
      · cases hnone
      · cases h₂
        rw [List.append_nil] at hin
        exact readdirScript_run h₁ hin hneg (hsame ifd)
  · intro hnone
    refine ⟨fun l₁ q c l₂ heq => absurd ⟨q, c, ?_⟩ hnone, fun hfails => absurd hfails hnone⟩
    rw [heq]
    simp

/-- A mount of the sample directory, at the start of its listing, with its block in a
buffer. -/
def listedMount (disc : Disc) : IsoPrivate where
  disc := disc
  rootLba := 18
  rootLen := 2048
  lhandles := [some (Entry.resting { isoFileHandle (.dir, 18, 2048) with blockRead := 0xFFFFFFFF, buffer := sampleBlock }),
    some (Entry.resting (isoFileHandle (.reg, 20, 2048)))]

/-- An entry of a directory that can be read. -/
theorem iso9660_reports_sample : ∃ l r, Script.Run ((IsoCall.readdir 2 0 { type := .none, name := [] }).script
    (listedMount fun _ => some sampleBlock)) l r ∧ Reports (listedMount fun _ => some sampleBlock) l r := by
  obtain ⟨l, hrun, hasked, -⟩ := Script.run_result (discAnswer (fun _ => some sampleBlock) (-1))
    ((IsoCall.readdir 2 0 { type := .none, name := [] }).script (listedMount fun _ => some sampleBlock))
  refine ⟨l, _, hrun, (iso9660_reports_iff hrun).mpr ?_⟩
  rintro ⟨q, c, hin⟩
  cases hasked q _ hin

/-- What old memory holds. -/
def staleUnset : IsoUnset where
  type := .none
  buffer := sampleBlock
  fuel := 4

/-- On a disc that cannot be read the search finds a file in old memory, a directory
is opened, an entry is listed, and a read returns its length. -/
theorem iso9660_reports_nothing :
    (findScript staleUnset 18 2048 (cstr "A") false).result (discAnswer (fun _ => none) (-1)) = some (.reg, 20, 2048) ∧
    ((opendirScript (listedMount fun _ => none) (cstr "/D") staleUnset).result (discAnswer (fun _ => none) (-1))).map
      (fun out => idCode out.1) = some 2 ∧
    ((readdirScript (listedMount fun _ => none) 2 0 { type := .none, name := [] }).result (discAnswer (fun _ => none) (-1))).map
      (fun out => out.1) = some 0 ∧
    ((readScript (listedMount fun _ => none) (fun _ => 0) 1 0 100).result (discAnswer (fun _ => none) (-1))).map
      (fun out => out.1) = some 100 ∧
    ∃ call l r, Script.Run (IsoCall.script (listedMount fun _ => none) call) l r ∧ ¬ Reports (listedMount fun _ => none) l r := by
  refine ⟨by decide, by decide, by decide, by decide, .find staleUnset 18 2048 (cstr "A") false, ?_⟩
  obtain ⟨l, hrun, hasked, -⟩ := Script.run_result (discAnswer (fun _ => none) (-1))
    ((IsoCall.find staleUnset 18 2048 (cstr "A") false).script (listedMount fun _ => none))
  refine ⟨l, _, hrun, fun hr => ?_⟩
  -- The search asks first of all, and the call returns `FS_TYPE_REG`.
  have hfails : Fails l := by
    cases hrun with
    | ask a h =>
      have ha := hasked _ a List.mem_cons_self
      exact ⟨_, (-1, []), by rw [ha]; exact List.mem_cons_self⟩
  obtain ⟨code, data', hresult, hneg, -⟩ := hr.call hfails
  have hcode : ((IsoCall.find staleUnset 18 2048 (cstr "A") false).script (listedMount fun _ => none)).result
      (discAnswer (fun _ => none) (-1)) = some (1, listedMount fun _ => none) := by
    show (Script.bind _ _).result _ = _
    rw [Script.result_bind, findScript_result]
    rfl
  rw [hcode] at hresult
  cases hresult
  exact absurd hneg (by decide)

end Aex.Fs
