import AexKernel.Fs.Iso9660Failures
import AexKernel.Fs.Iso9660Mount

/- Where the functions of the iso9660 driver look for an extent.

   `lba * BLOCK_SIZE` is written in five places, and in `iso9660_read` alone is it computed
   in 64 bits. The search keeps 32 bits of the product and adds its progress to it in 64;
   `iso9660_readdir` keeps 32 bits of the sum. -/
namespace Aex.Fs

/-- The logs of the five functions. -/
inductive IsoLogged : IsoLog → Prop
  | mount {l : IsoLog} {r : Option (Except Int IsoVolume)} (h : Script.Run mountScript l r) : IsoLogged l
  | call {data : IsoPrivate} {call : IsoCall} {l : IsoLog} {r : Option (Int × IsoPrivate)} (h : Script.Run (call.script data) l r) :
      IsoLogged l

/-- The position is that of the offset in the extent. -/
def IsoRead.Exact (q : IsoRead) : Prop := q.pos = q.lba * isoBlock + q.offset

/-- The position that each function computes. -/
def IsoRead.Placed (q : IsoRead) : Prop :=
  match q.who with
  | .mount => q.offset = 0 ∧ (q.pos = u32 (q.lba * isoBlock) ∨ q.pos = q.lba * isoBlock)
  | .find => q.pos = u32 (q.lba * isoBlock) + q.offset
  | .opendir => q.offset = 0 ∧ q.pos = u32 (q.lba * isoBlock)
  | .readdir => q.pos = u32 (q.lba * isoBlock + q.offset)
  | .read => q.pos = u64 (q.lba * isoBlock + q.offset)

/-! ## The position of every request -/

theorem ret_placed {α : Type} (who : IsoFn) (code : Int) (a : α) : (ret who code a).Always IsoRead.Placed (fun _ => True) :=
  ⟨trivial, trivial⟩

theorem findScript_placed (unset : IsoUnset) (lba size : Nat) (segment : CStr) (ext : Bool) :
    (findScript unset lba size segment ext).Always IsoRead.Placed (fun _ => True) := by
  refine Script.Always.bind ⟨rfl, fun answer => ?_⟩ (fun found => ret_placed _ _ _)
  exact findLoopScript_always (fun _ _ => rfl) (fun _ => trivial) _ _ _ _

theorem walkScript_placed (unset : IsoUnset) : ∀ (turns : List (CStr × Int)) (found : IsoFound),
    (walkScript unset turns found).Always IsoRead.Placed (fun _ => True) := by
  intro turns
  induction turns with
  | nil => intro found; trivial
  | cons turn turns ih =>
    obtain ⟨segment, left⟩ := turn
    rintro ⟨type, dir, size⟩
    refine (findScript_placed unset dir size segment false).bind (fun found => ?_)
    split
    · trivial
    split
    · trivial
    split
    · trivial
    · exact ih found

theorem rootWalkScript_placed (data : IsoPrivate) (path : CStr) (unset : IsoUnset) :
    (rootWalkScript data path unset).Always IsoRead.Placed (fun _ => True) := by
  unfold rootWalkScript
  split
  · trivial
  · exact walkScript_placed unset _ _

theorem opendirScript_placed (data : IsoPrivate) (path : CStr) (unset : IsoUnset) :
    (opendirScript data path unset).Always IsoRead.Placed (fun _ => True) := by
  refine (rootWalkScript_placed data path unset).bind (fun out => ?_)
  cases out with
  | error e => exact ret_placed _ _ _
  | ok found =>
    dsimp only
    split
    · exact ret_placed _ _ _
    · exact ⟨⟨rfl, rfl⟩, fun answer => ret_placed _ _ _⟩

theorem readdirLoopScript_placed : ∀ (fuel : Nat) (handle : IsoLhandle) (dst : FsDentry),
    (readdirLoopScript fuel handle dst).Always IsoRead.Placed (fun _ => True) := by
  intro fuel
  induction fuel with
  | zero => intros; trivial
  | succ fuel ih =>
    intro handle dst
    have hlist : ∀ filled : IsoLhandle,
        (listScript filled dst (readdirLoopScript fuel)).Always IsoRead.Placed (fun _ => True) := by
      intro filled
      refine always_lookAt (fun _ => trivial) _ ?_
      split
      · dsimp only
        split
        · trivial
        · exact ih _ _
      · exact always_lookAt (fun _ => trivial) _ trivial
    unfold readdirLoopScript
    split
    · trivial
    split
    · exact ⟨rfl, fun answer => hlist _⟩
    · exact hlist handle

theorem readdirScript_placed (data : IsoPrivate) (fuel ifd : Nat) (dst : FsDentry) :
    (readdirScript data fuel ifd dst).Always IsoRead.Placed (fun _ => True) := by
  unfold readdirScript
  split
  · exact ret_placed _ _ _
  · split
    · exact ret_placed _ _ _
    · exact (readdirLoopScript_placed fuel _ dst).bind (fun out => ret_placed _ _ _)

theorem readScript_placed (data : IsoPrivate) (mem : Bytes.Mem) (ifd buffer len : Nat) :
    (readScript data mem ifd buffer len).Always IsoRead.Placed (fun _ => True) := by
  unfold readScript
  split
  · exact ret_placed _ _ _
  · split
    · exact ret_placed _ _ _
    · dsimp only
      generalize Int.toNat _ = k
      split
      · exact ret_placed _ _ _
      · exact ⟨rfl, fun answer => ret_placed _ _ _⟩

theorem mountLoopScript_placed : ∀ (fuel offset : Nat) (complete : Bool) (pvd : Bytes.Mem),
    (mountLoopScript fuel offset complete pvd).Always IsoRead.Placed (fun _ => True) := by
  intro fuel
  induction fuel with
  | zero => intros; trivial
  | succ fuel ih =>
    intro offset complete pvd
    unfold mountLoopScript
    split
    · trivial
    refine ⟨⟨rfl, .inr ?_⟩, fun answer => ?_⟩
    · show (64 + offset * 4) * 512 = (16 + offset) * 2048
      omega
    · cases answer with
      | error e => trivial
      | ok bytes =>
        dsimp only
        split
        · trivial
        split
        · exact ih _ _ _
        · exact ih _ _ _

theorem mountScript_placed : mountScript.Always IsoRead.Placed (fun _ => True) := by
  refine (mountLoopScript_placed _ _ _ _).bind (fun out => ?_)
  rcases out with e | ⟨complete, pvd⟩
  · exact ret_placed _ _ _
  · dsimp only
    split
    · exact ret_placed _ _ _
    · refine ⟨⟨rfl, .inl rfl⟩, fun answer => ?_⟩
      cases answer with
      | error e => exact ret_placed _ _ _
      | ok bytes => exact ret_placed _ _ _

theorem IsoLogged.placed {l : IsoLog} (h : IsoLogged l) {q : IsoRead} {a : IsoAnswer} (hin : .asked q a ∈ l) :
    q.Placed := by
  cases h with
  | mount h => exact (h.always mountScript_placed).1 q a hin
  | @call data call _ _ h =>
    have hcall : (call.script data).Always IsoRead.Placed (fun _ => True) := by
      cases call with
      | read mem ifd buffer len => exact (readScript_placed data mem ifd buffer len).bind (fun _ => trivial)
      | find unset lba size segment ext => exact (findScript_placed unset lba size segment ext).bind (fun _ => trivial)
      | opendir path unset => exact (opendirScript_placed data path unset).bind (fun _ => trivial)
      | readdir fuel ifd dst => exact (readdirScript_placed data fuel ifd dst).bind (fun _ => trivial)
    exact (h.always hcall).1 q a hin

/-! ## Where it is exact -/

theorem IsoRead.Placed.exact {q : IsoRead} (h : q.Placed) (hsmall : q.lba * isoBlock + q.offset < 2^32) : q.Exact := by
  have hproduct : u32 (q.lba * isoBlock) = q.lba * isoBlock := u32_eq (by omega)
  unfold IsoRead.Exact
  unfold IsoRead.Placed at h
  split at h
  · obtain ⟨hzero, hpos | hpos⟩ := h
    · rw [hpos, hproduct, hzero, Nat.add_zero]
    · rw [hpos, hzero, Nat.add_zero]
  · rw [h, hproduct]
  · rw [h.2, hproduct, h.1, Nat.add_zero]
  · rw [h, u32_eq hsmall]
  · rw [h, u64_eq (by omega)]

theorem IsoRead.Placed.exact_read {q : IsoRead} (h : q.Placed) (hwho : q.who = .read) (hlba : q.lba < 2^32)
    (hoffset : q.offset < 2^32) : q.Exact := by
  have hblock : isoBlock = 2048 := rfl
  unfold IsoRead.Placed at h
  rw [hwho] at h
  exact h.trans (u64_eq (by rw [hblock]; omega))

theorem logged_ask {α : Type} {data : IsoPrivate} {call : IsoCall} {s : IsoScript α} {f : α → IsoScript (Int × IsoPrivate)}
    {q : IsoRead} {next : IsoAnswer → IsoScript α} (hcall : call.script data = s.bind f) (hs : s = .ask q next) :
    ∃ l a, IsoLogged l ∧ .asked q a ∈ l := by
  obtain ⟨l, hrun, -, -⟩ := Script.run_result (deviceAnswer fun _ => 1) (call.script data)
  have hlogged : IsoLogged l := .call hrun
  rw [hcall, hs] at hrun
  cases hrun with
  | ask a hrest => exact ⟨_, a, hlogged, List.mem_cons_self⟩

theorem readdirScript_asks {data : IsoPrivate} {ifd : Nat} {handle : IsoLhandle} {lhandles : Rc.Array IsoLhandle}
    (hget : Rc.arrayGet data.lhandles ifd = (some handle, lhandles)) (htype : handle.type = .dir) (hpos : handle.pos < handle.size)
    (hblock : handle.pos / isoBlock ≠ handle.blockRead) (dst : FsDentry) : ∃ next, readdirScript data 1 ifd dst =
      .ask
        { who := .readdir, lba := handle.start, offset := handle.pos, pos := u32 (handle.start * isoBlock + handle.pos), len := isoBlock }
        next := by
  unfold readdirScript
  rw [hget]
  dsimp only
  rw [if_neg (not_not_intro htype)]
  unfold readdirLoopScript
  rw [if_neg (Nat.not_le.mpr hpos), if_pos hblock]
  exact ⟨_, rfl⟩

theorem readScript_asks {data : IsoPrivate} {ifd : Nat} {handle : IsoLhandle} {lhandles : Rc.Array IsoLhandle}
    (hget : Rc.arrayGet data.lhandles ifd = (some handle, lhandles)) (htype : handle.type ≠ .dir) {len k : Nat}
    (hlen : (handle.actualLen len % 2^64).toNat = k) (hk : k ≠ 0) (mem : Bytes.Mem) (buffer : Nat) : ∃ next,
      readScript data mem ifd buffer len =
        .ask { who := .read, lba := handle.start, offset := handle.pos, pos := u64 (handle.start * isoBlock + handle.pos), len := k }
          next := by
  unfold readScript
  rw [hget]
  dsimp only
  rw [if_neg htype, hlen, if_neg hk]
  exact ⟨_, rfl⟩

/-- A handle of a directory at a position, with no block in its buffer. -/
def listedHandle (lba size pos : Nat) : IsoLhandle where
  start := lba
  size := size
  pos := pos
  blockRead := 0xFFFFFFFF
  buffer := fun _ => 0
  refs := 0
  type := .dir

/-- A mount with a directory and a file open in the same extent. -/
def listedAt (lba size pos : Nat) : IsoPrivate where
  disc := fun _ => none
  rootLba := 18
  rootLen := 2048
  lhandles := [some (Rc.Entry.resting (listedHandle lba size pos)), some (Rc.Entry.resting (isoFileHandle (.reg, lba, size)))]

theorem listedAt_asks {lba size pos : Nat} (hpos : pos < size) (hsize : size < 2^32) : ∃ l a, IsoLogged l ∧
    .asked { who := .readdir, lba := lba, offset := pos, pos := u32 (lba * isoBlock + pos), len := isoBlock } a ∈ l := by
  have hblock : isoBlock = 2048 := rfl
  have hfresh : pos / isoBlock ≠ 0xFFFFFFFF := by
    rw [hblock]
    omega
  have hslot : Rc.slot (listedAt lba size pos).lhandles 0 = some (Rc.Entry.resting (listedHandle lba size pos)) := rfl
  obtain ⟨next, hask⟩ := readdirScript_asks (Rc.arrayGet_slot hslot rfl) rfl hpos hfresh { type := .none, name := [] }
  have hcall : (IsoCall.readdir 1 0 { type := .none, name := [] }).script (listedAt lba size pos) =
      (readdirScript (listedAt lba size pos) 1 0 { type := .none, name := [] }).bind fun out => .done (out.1, out.2.1) := rfl
  exact logged_ask hcall hask

/-- All five functions pass the exact position of an offset in an extent, in every run,
exactly when the position is below 4 GiB. -/
theorem iso9660_positions_exact_iff {lba offset size : Nat} (hoffset : offset < size) (hsize : size < 2^32) :
    (∀ l q a, IsoLogged l → .asked q a ∈ l → q.lba = lba → q.offset = offset → q.Exact) ↔ lba * isoBlock + offset < 2^32 := by
  constructor
  · intro hexact
    obtain ⟨l, a, hlogged, hin⟩ := @listedAt_asks lba size offset hoffset hsize
    have hpos : u32 (lba * isoBlock + offset) = lba * isoBlock + offset := hexact l _ a hlogged hin rfl rfl
    rw [← hpos]
    exact Nat.mod_lt _ (by decide)
  · rintro hsmall l q a hlogged hin rfl rfl
    exact (hlogged.placed hin).exact hsmall

/-- In the root directory of a small disc. -/
theorem iso9660_positions_exact_root :
    100 < 2048 ∧ ∀ l q a, IsoLogged l → .asked q a ∈ l → q.lba = 18 → q.offset = 100 → q.Exact := by
  have hoffset : 100 < 2048 := by decide
  exact ⟨hoffset, (iso9660_positions_exact_iff hoffset (by decide)).mpr (by decide)⟩

/-- At LBA 2097152 a listing asks for the start of the disc. The read of a file asks for
the place 4 GiB behind it. -/
theorem iso9660_positions_wrap :
    (∃ l a, IsoLogged l ∧ .asked { who := .readdir, lba := 2097152, offset := 0, pos := 0, len := isoBlock } a ∈ l) ∧
    (∃ l a, IsoLogged l ∧ .asked { who := .read, lba := 2097152, offset := 0, pos := 4294967296, len := 100 } a ∈ l) ∧
    ¬ IsoRead.Exact { who := .readdir, lba := 2097152, offset := 0, pos := 0, len := isoBlock } := by
  refine ⟨@listedAt_asks 2097152 2048 0 (by decide) (by decide), ?_, by unfold IsoRead.Exact; decide⟩
  have hslot : Rc.slot (listedAt 2097152 2048 0).lhandles 1 = some (Rc.Entry.resting (isoFileHandle (.reg, 2097152, 2048))) := rfl
  have hlen : ((isoFileHandle (.reg, 2097152, 2048)).actualLen 100 % 2^64).toNat = 100 := by decide
  obtain ⟨next, hask⟩ := readScript_asks (Rc.arrayGet_slot hslot rfl) FsType.noConfusion hlen (by decide) (fun _ => 0) 0
  have hcall : (IsoCall.read (fun _ => 0) 1 0 100).script (listedAt 2097152 2048 0) =
      (readScript (listedAt 2097152 2048 0) (fun _ => 0) 1 0 100).bind fun out => .done (out.1, out.2.1) := rfl
  exact logged_ask hcall hask

end Aex.Fs
