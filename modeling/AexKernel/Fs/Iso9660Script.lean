import AexKernel.Fs.Iso9660Cursor
import AexKernel.Lib.Script

/- The iso9660 driver call by call: which `dev_block_read` it makes, which bytes of a
   block it looks at, and what each of its functions returns.

   The scripts follow `iso9660.c` with every request and every look in its place. With a
   disc that answers the requests they are the functions of `Iso9660` and
   `Iso9660Cursor` (`findScript_result` and what comes after it). -/
namespace Aex.Fs
open Rc Bytes

/-- The functions that call `dev_block_read`. -/
inductive IsoFn where
  | mount
  | find
  | opendir
  | readdir
  | read
  deriving DecidableEq, Repr

/-- A call of `dev_block_read`: who makes it, the extent and the offset in it that it is
made for, and the position and the length that it is given. -/
structure IsoRead where
  who : IsoFn
  lba : Nat
  offset : Nat
  pos : Nat
  len : Nat
  deriving DecidableEq, Repr

/-- A byte of the block buffer is looked at, or a function returns. -/
inductive IsoNote where
  | look (addr : Nat)
  | returned (who : IsoFn) (code : Int)
  deriving DecidableEq, Repr

/-- A request fails with a code after it has delivered some bytes, or delivers those from
its position on. -/
abbrev IsoAnswer := Except (Int × List Nat) Mem

/-- What the request puts into the buffer; `none` where that stays as it is. -/
def delivered (answer : IsoAnswer) (buffer : Mem) : Option Mem :=
  match answer with
  | .ok bytes => some bytes
  | .error (_, []) => none
  | .error (_, part) => some fun k => (part[k]?).getD (buffer k)

abbrev IsoScript (α : Type) := Script IsoNote IsoRead IsoAnswer α

/-- The value of an enumerator. -/
def FsType.code : FsType → Int
  | .none => 0x0000
  | .reg => 0x0001
  | .dir => 0x0002
  | .char => 0x0004
  | .block => 0x0008
  | .net => 0x0010
  | .other value => value

/-- `dev_block_read(dev, buffer, pos, BLOCK_SIZE)`, whose result the caller does not look
at. -/
def fetch {α : Type} (who : IsoFn) (lba offset pos : Nat) (buffer : Mem) (next : Mem → IsoScript α) : IsoScript α :=
  .ask { who := who, lba := lba, offset := offset, pos := pos, len := isoBlock }
    fun answer => next (readBlock (fun _ => delivered answer buffer) pos buffer)

/-- The function returns. -/
def ret {α : Type} (who : IsoFn) (code : Int) (a : α) : IsoScript α := .tell (.returned who code) (.done a)

/-- The bytes of some addresses. -/
def lookAt {α : Type} (addrs : List Nat) (next : IsoScript α) : IsoScript α := next.tellAll (addrs.map .look)

/-- What is looked at for a name behind `filename_len`: `snprintf` looks at each byte that
it copies and at the one behind them. -/
def nameLooks (size : Nat) (m : Mem) (a : Nat) : List Nat :=
  if m (a + 33) = 0 then []
  else if m (a + 33) = 1 then []
  else (List.range ((cstrAt m (a + 33) (min size (dentryFilenameLen m a + 1) - 1)).length + 1)).map (fun j => a + 33 + j)

/-- The fields of a record that has been found; all of them for `dentry_ext`. -/
def fieldLooks (ext : Bool) (a : Nat) : List Nat :=
  (List.range 4).map (fun j => a + 2 + j) ++ (List.range 4).map (fun j => a + 10 + j) ++
    (if ext then (List.range 33).map (fun j => a + j) else []) ++ [a + 25]

/-! ## The search -/

/-- Both places at which the loop of `iso9660_find` goes on to the next block. -/
def nextBlockScript (lba size progress : Nat) (buffer : Mem) (again : Mem → IsoScript IsoFound) : IsoScript IsoFound :=
  fetch .find lba (u32 (progress + isoBlock)) (u32 (lba * isoBlock) + u32 (progress + isoBlock)) buffer fun buffer =>
    if size ≤ u32 (progress + isoBlock) then .done (.none, lba, size) else again buffer

/-- The loop of `iso9660_find`. -/
def findLoopScript (lba size : Nat) (segment : CStr) (ext : Bool) : Nat → Nat → Nat → Mem → IsoScript IsoFound
  | 0, _, _, _ => .stuck
  | fuel + 1, progress, offset, buffer =>
    if size ≤ progress then .done (.none, lba, size)
    else lookAt [offset] <|
      if dentryLen buffer offset = 0 then
        nextBlockScript lba size progress buffer (findLoopScript lba size segment ext fuel (u32 (progress + isoBlock)) 0)
      else lookAt ((offset + 32) :: (offset + 33) :: nameLooks 256 buffer offset) <|
        if dentryName 256 buffer offset = segment then
          lookAt (fieldLooks ext offset) <|
            .done (dentryType buffer offset, dentryDataLba buffer offset, dentryDataLen buffer offset)
        else if isoBlock ≤ u16 (offset + dentryLen buffer offset) then
          nextBlockScript lba size progress buffer (findLoopScript lba size segment ext fuel (u32 (progress + isoBlock)) 0)
        else findLoopScript lba size segment ext fuel progress (u16 (offset + dentryLen buffer offset)) buffer

/-- `iso9660_find`. -/
def findScript (unset : IsoUnset) (lba size : Nat) (segment : CStr) (ext : Bool) : IsoScript IsoFound :=
  (fetch .find lba 0 (u32 (lba * isoBlock)) unset.buffer fun buffer =>
    findLoopScript lba size segment ext unset.fuel 0 0 buffer).bind fun found => ret .find found.1.code found

/-- The loop over the segments of a path. -/
def walkScript (unset : IsoUnset) : List (CStr × Int) → IsoFound → IsoScript (Except Int IsoFound)
  | [], found => .done (.ok found)
  | (segment, left) :: turns, (_, dir, size) =>
    (findScript unset dir size segment false).bind fun found =>
      if found.1 = .none then .done (.error (-enoent))
      else if left = 0 then .done (.ok found)
      else if found.1 ≠ .dir then .done (.error (-enoent))
      else walkScript unset turns found

/-! ## The calls -/

/-- The loop in `iso9660_open` and `iso9660_opendir`, from the root directory. -/
def rootWalkScript (data : IsoPrivate) (path : CStr) (unset : IsoUnset) : IsoScript (Except Int IsoFound) :=
  match pathWalk path with
  | none => .stuck
  | some turns => walkScript unset turns (unset.type, data.rootLba, data.rootLen)

/-- `iso9660_opendir`. -/
def opendirScript (data : IsoPrivate) (path : CStr) (unset : IsoUnset) : IsoScript (Except Int Nat × IsoPrivate) :=
  (rootWalkScript data path unset).bind fun out => match out with
    | .error e => ret .opendir e (.error e, data)
    | .ok found =>
      if found.1 ≠ .dir then ret .opendir (-enotdir) (.error (-enotdir), data)
      else
        .ask { who := .opendir, lba := found.2.1, offset := 0, pos := u32 (found.2.1 * isoBlock), len := isoBlock } fun answer =>
          let added := data.add (isoDirHandle (fun _ => delivered answer unset.buffer) unset found)
          ret .opendir (firstFree data.lhandles) added

/-- What `iso9660_readdir` does with the buffer at hand. -/
def listScript (filled : IsoLhandle) (dst : FsDentry) (again : IsoLhandle → FsDentry → IsoScript (Int × IsoLhandle × FsDentry)) :
    IsoScript (Int × IsoLhandle × FsDentry) :=
  let offset := filled.pos % isoBlock
  let dst := { dst with type := dentryType filled.buffer offset }
  lookAt [offset + 25, offset] <|
    if dentryLen filled.buffer offset = 0 then
      let skipped := { filled with pos := u32 (filled.pos + (isoBlock - offset)) }
      if skipped.size ≤ skipped.pos then .done (-1, skipped, dst) else again skipped dst
    else lookAt ((offset + 32) :: (offset + 33) :: nameLooks 255 filled.buffer offset) <|
      .done (0, { filled with pos := u32 (filled.pos + dentryLen filled.buffer offset) },
        { dst with name := dentryName 255 filled.buffer offset })

/-- The loop of `iso9660_readdir`. -/
def readdirLoopScript : Nat → IsoLhandle → FsDentry → IsoScript (Int × IsoLhandle × FsDentry)
  | 0, _, _ => .stuck
  | fuel + 1, handle, dst =>
    if handle.size ≤ handle.pos then .done (-1, handle, dst)
    else if handle.pos / isoBlock ≠ handle.blockRead then
      .ask { who := .readdir, lba := handle.start, offset := handle.pos, pos := u32 (handle.start * isoBlock + handle.pos), len := isoBlock }
        fun answer => listScript (handle.fill (fun _ => delivered answer handle.buffer)) dst (readdirLoopScript fuel)
    else listScript handle dst (readdirLoopScript fuel)

/-- `iso9660_readdir`. -/
def readdirScript (data : IsoPrivate) (fuel ifd : Nat) (dst : FsDentry) : IsoScript (Int × IsoPrivate × FsDentry) :=
  match arrayGet data.lhandles ifd with
  | (none, _) => ret .readdir (-ebadf) (-ebadf, data, dst)
  | (some handle, lhandles) =>
    if handle.type ≠ .dir then
      ret .readdir (-ebadf) (-ebadf, { data with lhandles := arrayUnref lhandles ifd }, dst)
    else (readdirLoopScript fuel handle dst).bind fun out =>
      ret .readdir out.1 (out.1, { data with lhandles := arrayUnref (arrayWrite lhandles ifd out.2.1) ifd }, out.2.2)

/-- `iso9660_read`. A request for no bytes is not made: it is where `dev_block_read`
returns. -/
def readScript (data : IsoPrivate) (mem : Mem) (ifd buffer len : Nat) : IsoScript (Int × IsoPrivate × Mem) :=
  match arrayGet data.lhandles ifd with
  | (none, _) => ret .read (-ebadf) (-ebadf, data, mem)
  | (some handle, lhandles) =>
    if handle.type = .dir then ret .read (-ebadf) (-ebadf, { data with lhandles := arrayUnref lhandles ifd }, mem)
    else
      let n := handle.actualLen len
      let pos := u64 (handle.start * isoBlock + handle.pos)
      let left := { data with lhandles := arrayUnref (arrayWrite lhandles ifd (handle.advance n)) ifd }
      if (n % 2^64).toNat = 0 then ret .read n (n, left, mem)
      else
        .ask { who := .read, lba := handle.start, offset := handle.pos, pos := pos, len := (n % 2^64).toNat } fun answer =>
          ret .read n (n, left, readDisc (fun _ => delivered answer fun k => mem (buffer + k)) pos mem buffer (n % 2^64).toNat)

/-! ## Every request -/

section Always
variable {ok : IsoRead → Prop} {fine : IsoNote → Prop} {lba size : Nat} {segment : CStr} {ext : Bool}

theorem always_lookAt {α : Type} {next : IsoScript α} (hfine : ∀ a, fine (.look a)) (addrs : List Nat)
    (h : next.Always ok fine) : (lookAt addrs next).Always ok fine := by
  refine (Script.always_tellAll _).mpr ⟨fun e he => ?_, h⟩
  obtain ⟨a, -, rfl⟩ := List.mem_map.mp he
  exact hfine a

/-- The loop of the search asks for blocks of its extent, and does not return. -/
theorem findLoopScript_always
    (hok : ∀ offset < 2^32, ok { who := .find, lba := lba, offset := offset, pos := u32 (lba * isoBlock) + offset, len := isoBlock })
    (hfine : ∀ a, fine (.look a)) : ∀ (fuel progress offset : Nat) (buffer : Mem),
    (findLoopScript lba size segment ext fuel progress offset buffer).Always ok fine := by
  intro fuel
  induction fuel with
  | zero => intros; trivial
  | succ fuel ih =>
    intro progress offset buffer
    have hnext : (nextBlockScript lba size progress buffer
        (findLoopScript lba size segment ext fuel (u32 (progress + isoBlock)) 0)).Always ok fine := by
      refine ⟨hok _ (Nat.mod_lt _ (by decide)), fun answer => ?_⟩
      dsimp only
      split
      · trivial
      · exact ih _ _ _
    unfold findLoopScript
    split
    · trivial
    refine always_lookAt hfine _ ?_
    split
    · exact hnext
    refine always_lookAt hfine _ ?_
    split
    · exact always_lookAt hfine _ trivial
    split
    · exact hnext
    · exact ih _ _ _

end Always

/-! ## With a disc -/

/-- The answers of a disc, with the code of a request that fails and delivers nothing. -/
def discAnswer (disc : Disc) (code : Int) (q : IsoRead) : IsoAnswer :=
  match disc q.pos with
  | none => .error (code, [])
  | some bytes => .ok bytes

/-- The answers of a device all of whose blocks can be read. -/
def deviceAnswer (device : Nat → Nat) (q : IsoRead) : IsoAnswer := .ok (fun k => device (q.pos + k))

section Disc
variable {α : Type} {disc : Disc} {code : Int}

theorem discAnswer_delivered (disc : Disc) (code : Int) (q : IsoRead) (buffer : Mem) :
    delivered (discAnswer disc code q) buffer = disc q.pos := by
  unfold discAnswer
  cases disc q.pos with
  | none => rfl
  | some bytes => rfl

theorem fetch_result (who : IsoFn) (lba offset pos : Nat) (buffer : Mem) (next : Mem → IsoScript α) :
    (fetch who lba offset pos buffer next).result (discAnswer disc code) =
      (next (readBlock disc pos buffer)).result (discAnswer disc code) := by
  show (next (readBlock (fun _ => delivered (discAnswer disc code _) buffer) pos buffer)).result _ = _
  rw [discAnswer_delivered]
  rfl

theorem lookAt_result {answer : IsoRead → IsoAnswer} (addrs : List Nat) (next : IsoScript α) :
    (lookAt addrs next).result answer = next.result answer := Script.result_tellAll _

theorem findLoopScript_result (lba size : Nat) (segment : CStr) (ext : Bool) : ∀ (fuel progress offset : Nat) (buffer : Mem),
    (findLoopScript lba size segment ext fuel progress offset buffer).result (discAnswer disc code) =
      isoFindLoop disc (u32 (lba * isoBlock)) lba size segment fuel progress offset buffer := by
  intro fuel
  induction fuel with
  | zero => intros; rfl
  | succ fuel ih =>
    intro progress offset buffer
    unfold findLoopScript isoFindLoop nextBlockScript
    simp only [apply_ite (Script.result _), lookAt_result, fetch_result, ih]
    rfl

theorem findScript_result (unset : IsoUnset) (lba size : Nat) (segment : CStr) (ext : Bool) :
    (findScript unset lba size segment ext).result (discAnswer disc code) =
      isoFind disc unset.buffer unset.fuel lba size segment := by
  unfold findScript isoFind
  rw [Script.result_bind, fetch_result, findLoopScript_result]
  cases isoFindLoop disc (u32 (lba * isoBlock)) lba size segment unset.fuel 0 0 (readBlock disc (u32 (lba * isoBlock)) unset.buffer) with
  | none => rfl
  | some found => rfl

theorem walkScript_result (unset : IsoUnset) : ∀ (turns : List (CStr × Int)) (found : IsoFound),
    (walkScript unset turns found).result (discAnswer disc code) = isoWalk disc unset turns found := by
  intro turns
  induction turns with
  | nil => intro found; rfl
  | cons turn turns ih =>
    obtain ⟨segment, left⟩ := turn
    rintro ⟨type, dir, size⟩
    unfold walkScript isoWalk
    rw [Script.result_bind, findScript_result]
    cases isoFind disc unset.buffer unset.fuel dir size segment with
    | none => rfl
    | some found =>
      obtain ⟨type', dir', size'⟩ := found
      dsimp only [Option.bind]
      rw [apply_ite (Script.result _), apply_ite (Script.result _), apply_ite (Script.result _), ih]
      rfl

theorem rootWalkScript_result (data : IsoPrivate) (path : CStr) (unset : IsoUnset) :
    (rootWalkScript data path unset).result (discAnswer disc code) =
      (pathWalk path).bind fun turns => isoWalk disc unset turns (unset.type, data.rootLba, data.rootLen) := by
  unfold rootWalkScript
  cases pathWalk path with
  | none => rfl
  | some turns => exact walkScript_result unset turns _

theorem opendirScript_result (data : IsoPrivate) (path : CStr) (unset : IsoUnset) :
    (opendirScript data path unset).result (discAnswer data.disc code) = isoOpendir data path unset := by
  unfold opendirScript isoOpendir IsoPrivate.walk
  rw [Script.result_bind, rootWalkScript_result]
  cases (pathWalk path).bind fun turns => isoWalk data.disc unset turns (unset.type, data.rootLba, data.rootLen) with
  | none => rfl
  | some out =>
    cases out with
    | error e => rfl
    | ok found =>
      dsimp only [Option.bind, Option.map]
      by_cases hdir : found.1 ≠ .dir
      · rw [if_pos hdir, if_pos hdir]
        rfl
      · rw [if_neg hdir, if_neg hdir]
        show some (data.add (isoDirHandle (fun _ => delivered (discAnswer data.disc code _) unset.buffer) unset found)) = _
        rw [discAnswer_delivered]
        rfl

theorem readdirLoopScript_result : ∀ (fuel : Nat) (handle : IsoLhandle) (dst : FsDentry),
    (readdirLoopScript fuel handle dst).result (discAnswer disc code) = isoReaddirLoop disc fuel handle dst := by
  intro fuel
  induction fuel with
  | zero => intros; rfl
  | succ fuel ih =>
    intro handle dst
    have hlist : ∀ filled : IsoLhandle, (listScript filled dst (readdirLoopScript fuel)).result (discAnswer disc code) =
        let dst := { dst with type := dentryType filled.buffer (filled.pos % isoBlock) }
        if dentryLen filled.buffer (filled.pos % isoBlock) = 0 then
          let skipped := { filled with pos := u32 (filled.pos + (isoBlock - filled.pos % isoBlock)) }
          if skipped.size ≤ skipped.pos then some (-1, skipped, dst) else isoReaddirLoop disc fuel skipped dst
        else
          some (0, { filled with pos := u32 (filled.pos + dentryLen filled.buffer (filled.pos % isoBlock)) },
            { dst with name := dentryName 255 filled.buffer (filled.pos % isoBlock) }) := by
      intro filled
      unfold listScript
      simp only [apply_ite (Script.result _), lookAt_result, ih]
      rfl
    unfold readdirLoopScript isoReaddirLoop
    by_cases hend : handle.size ≤ handle.pos
    · rw [if_pos hend, if_pos hend]
      rfl
    rw [if_neg hend, if_neg hend]
    by_cases hfill : handle.pos / isoBlock ≠ handle.blockRead
    · rw [if_pos hfill]
      have hread : ∀ q : IsoRead, q.pos = u32 (handle.start * isoBlock + handle.pos) →
          handle.fill (fun _ => delivered (discAnswer disc code q) handle.buffer) = handle.fill disc := by
        intro q hq
        unfold IsoLhandle.fill readBlock
        rw [discAnswer_delivered, hq]
      show (listScript _ dst (readdirLoopScript fuel)).result _ = _
      rw [hread _ rfl, hlist]
    · have hkept : handle.fill disc = handle := if_neg hfill
      rw [if_neg hfill, hkept, hlist]

theorem readdirScript_result (data : IsoPrivate) (fuel ifd : Nat) (dst : FsDentry) :
    (readdirScript data fuel ifd dst).result (discAnswer data.disc code) = isoReaddir data fuel ifd dst := by
  unfold readdirScript isoReaddir
  rcases arrayGet data.lhandles ifd with ⟨_ | handle, lhandles⟩
  · rfl
  dsimp only
  by_cases htype : handle.type ≠ .dir
  · rw [if_pos htype, if_pos htype]
    rfl
  · rw [if_neg htype, if_neg htype, Script.result_bind, readdirLoopScript_result]
    cases isoReaddirLoop data.disc fuel handle dst with
    | none => rfl
    | some out => rfl

theorem readScript_result (data : IsoPrivate) (mem : Mem) (ifd buffer len : Nat) :
    (readScript data mem ifd buffer len).result (discAnswer data.disc code) = some (isoRead data mem ifd buffer len) := by
  unfold readScript isoRead
  rcases arrayGet data.lhandles ifd with ⟨_ | handle, lhandles⟩
  · rfl
  dsimp only
  by_cases htype : handle.type = .dir
  · rw [if_pos htype, if_pos htype]
    rfl
  rw [if_neg htype, if_neg htype]
  by_cases hlen : (handle.actualLen len % 2^64).toNat = 0
  · rw [if_pos hlen, hlen]
    have hmem : readDisc data.disc (u64 (handle.start * isoBlock + handle.pos)) mem buffer 0 = mem := by
      unfold readDisc
      cases data.disc (u64 (handle.start * isoBlock + handle.pos)) with
      | none => rfl
      | some bytes =>
        funext k
        exact if_neg (by omega)
    rw [hmem]
    rfl
  · rw [if_neg hlen]
    show some (_, _, readDisc (fun _ => delivered (discAnswer data.disc code _) _) _ _ _ _) = _
    rw [discAnswer_delivered]
    rfl

end Disc

end Aex.Fs
