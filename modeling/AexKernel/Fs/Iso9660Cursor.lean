import AexKernel.Fs.Iso9660
import AexKernel.Lib.Cursor
import AexKernel.Lib.Lockstep

/- Reading an iso9660 file: `iso9660_read`, `iso9660_seek` and `iso9660_ioctl`.

   `size` and `pos` are `uint32_t`, what a seek computes with is `int64_t`, and the
   length of a read is an `int`. Below 2 GiB all three agree, and an open file is a
   cursor over its bytes. -/
namespace Aex.Fs
open Rc Bytes Seeking

/-- A value kept in a 32-bit `int`. -/
def int32 (n : Int) : Int := (n + 2^31) % 2^32 - 2^31

/-- A value kept in an `int64_t`. -/
def int64 (n : Int) : Int := (n + 2^63) % 2^64 - 2^63

theorem int32_eq {n : Int} (hle : -2^31 ≤ n) (hlt : n < 2^31) : int32 n = n := by
  unfold int32
  omega

theorem int64_eq {n : Int} (hle : -2^63 ≤ n) (hlt : n < 2^63) : int64 n = n := by
  unfold int64
  omega

/-- `dev_block_read(dev, buffer, pos, len)` into the memory of the caller. -/
def readDisc (disc : Disc) (pos : Nat) (mem : Mem) (buffer len : Nat) : Mem :=
  match disc pos with
  | none => mem
  | some bytes => fun k => if buffer ≤ k ∧ k < buffer + len then bytes (k - buffer) else mem k

/-- `int actual_len = min(handle->size - handle->pos, (size_t) len)`. -/
def IsoLhandle.actualLen (handle : IsoLhandle) (len : Nat) : Int := int32 (min (sub32 handle.size handle.pos) len : Nat)

/-- `handle->pos += n`. -/
def IsoLhandle.advance (handle : IsoLhandle) (n : Int) : IsoLhandle :=
  { handle with pos := ((handle.pos + n) % 2^32).toNat }

/-- `iso9660_read`. -/
def isoRead (data : IsoPrivate) (mem : Mem) (ifd buffer len : Nat) : Int × IsoPrivate × Mem :=
  match arrayGet data.lhandles ifd with
  | (none, _) => (-ebadf, data, mem)
  | (some handle, lhandles) =>
    if handle.type = .dir then (-ebadf, { data with lhandles := arrayUnref lhandles ifd }, mem)
    else
      let n := handle.actualLen len
      (n, { data with lhandles := arrayUnref (arrayWrite lhandles ifd (handle.advance n)) ifd },
        readDisc data.disc (u64 (handle.start * isoBlock + handle.pos)) mem buffer (n % 2^64).toNat)

/-- `new_pos`, behind the `switch` of `iso9660_seek`. -/
def IsoLhandle.newPos (handle : IsoLhandle) (offset mode : Int) : Int :=
  if mode = 0 then offset
  else if mode = 1 then int64 (int32 handle.pos + offset)
  else if mode = 2 then int64 (int32 handle.size + offset)
  else 0

/-- `handle->pos = min(max(new_pos, 0), handle->size)`. -/
def IsoLhandle.seek (handle : IsoLhandle) (newPos : Int) : IsoLhandle :=
  { handle with pos := (min (max newPos 0) handle.size).toNat }

/-- `iso9660_seek`. -/
def isoSeek (data : IsoPrivate) (ifd : Nat) (offset mode : Int) : Int × IsoPrivate :=
  match arrayGet data.lhandles ifd with
  | (none, _) => (-ebadf, data)
  | (some handle, lhandles) =>
    if handle.type = .dir then (-ebadf, { data with lhandles := arrayUnref lhandles ifd })
    else
      (0, { data with lhandles := arrayUnref (arrayWrite lhandles ifd (handle.seek (handle.newPos offset mode))) ifd })

def ioctlBytesAvailable : Int := 0x71

/-- `iso9660_ioctl`, with `*ioctl_data`. -/
def isoIoctl (data : IsoPrivate) (ifd : Nat) (code ioctlData : Int) : Int × IsoPrivate × Int :=
  if code ≠ ioctlBytesAvailable then (-enosys, data, ioctlData)
  else match arrayGet data.lhandles ifd with
    | (none, _) => (-ebadf, data, ioctlData)
    | (some handle, lhandles) =>
      (0, { data with lhandles := arrayUnref lhandles ifd }, sub32 handle.size handle.pos)

/-! ## On a handle in use -/

section Calls
variable {data : IsoPrivate} {ifd : Nat} {e : Entry IsoLhandle}

/-- The mount with another handle in the slot of this entry. -/
def IsoPrivate.put (data : IsoPrivate) (ifd : Nat) (e : Entry IsoLhandle) (handle : IsoLhandle) : IsoPrivate :=
  { data with lhandles := data.lhandles.set ifd (some { e with value := handle }) }

theorem isoRead_file (hslot : slot data.lhandles ifd = some e) (hpresent : e.present = true) (hrefs : 1 ≤ e.refs)
    (htype : e.value.type ≠ .dir) (mem : Mem) (buffer len : Nat) :
    isoRead data mem ifd buffer len =
      (e.value.actualLen len, data.put ifd e (e.value.advance (e.value.actualLen len)),
        readDisc data.disc (u64 (e.value.start * isoBlock + e.value.pos)) mem buffer (e.value.actualLen len % 2^64).toNat) := by
  have hwrite := slot_get_write hslot hpresent hrefs (e.value.advance (e.value.actualLen len))
  rw [arrayGet_slot hslot hpresent] at hwrite
  unfold isoRead IsoPrivate.put
  rw [arrayGet_slot hslot hpresent]
  dsimp only
  rw [if_neg htype, hwrite]

theorem isoSeek_file (hslot : slot data.lhandles ifd = some e) (hpresent : e.present = true) (hrefs : 1 ≤ e.refs)
    (htype : e.value.type ≠ .dir) (offset mode : Int) :
    isoSeek data ifd offset mode = (0, data.put ifd e (e.value.seek (e.value.newPos offset mode))) := by
  have hwrite := slot_get_write hslot hpresent hrefs (e.value.seek (e.value.newPos offset mode))
  rw [arrayGet_slot hslot hpresent] at hwrite
  unfold isoSeek IsoPrivate.put
  rw [arrayGet_slot hslot hpresent]
  dsimp only
  rw [if_neg htype, hwrite]

theorem isoIoctl_file (hslot : slot data.lhandles ifd = some e) (hpresent : e.present = true) (hrefs : 1 ≤ e.refs)
    (ioctlData : Int) :
    isoIoctl data ifd ioctlBytesAvailable ioctlData = (0, data, (sub32 e.value.size e.value.pos : Int)) := by
  have hunref := slot_get_unref hslot hpresent hrefs
  rw [arrayGet_slot hslot hpresent] at hunref
  unfold isoIoctl
  rw [if_neg (by simp), arrayGet_slot hslot hpresent]
  dsimp only
  rw [hunref]

end Calls

/-! ## A cursor over the bytes of the file -/

/-- What the position of a seek counts from. -/
def seekBase (size pos : Nat) (mode : Int) : Nat := if mode = 1 then pos else if mode = 2 then size else 0

/-- The position a seek asks for. A mode that is none of the three asks for the start. -/
def requested (size pos : Nat) (offset mode : Int) : Int :=
  if mode = 0 ∨ mode = 1 ∨ mode = 2 then seekBase size pos mode + offset else 0

/-- A call on an open file. -/
inductive FileCall where
  | read (buffer len : Nat)
  | seek (offset : {n : Int // -2^62 < n ∧ n < 2^62}) (mode : Int)
  | available (ioctlData : Int)

/-- What it returns, and what it leaves in `*ioctl_data`. -/
inductive FileAnswer where
  | returned (ret : Int)
  | available (ret bytes : Int)
  deriving DecidableEq, Repr

/-- The call on the handle. -/
def FileCall.result (ifd : Nat) (call : FileCall) (s : IsoPrivate × Mem) : Except Empty ((IsoPrivate × Mem) × FileAnswer) :=
  match call with
  | .read buffer len =>
    let out := isoRead s.1 s.2 ifd buffer len
    .ok (out.2, .returned out.1)
  | .seek offset mode =>
    let out := isoSeek s.1 ifd offset mode
    .ok ((out.2, s.2), .returned out.1)
  | .available ioctlData =>
    let out := isoIoctl s.1 ifd ioctlBytesAvailable ioctlData
    .ok ((out.2.1, s.2), .available out.1 out.2.2)

/-- The call on a cursor over the bytes of the file. -/
def FileCall.spec {size : Nat} (file : Nat → Nat) (call : FileCall) (s : Cursor size × Mem) :
    Except Empty ((Cursor size × Mem) × FileAnswer) :=
  match call with
  | .read buffer len =>
    .ok ((s.1.advance len, fun k => if buffer ≤ k ∧ k < buffer + s.1.count len then file (s.1.pos + (k - buffer)) else s.2 k),
      .returned (s.1.count len))
  | .seek offset mode => .ok ((clamp size (requested size s.1.pos offset mode), s.2), .returned 0)
  | .available _ => .ok (s, .available 0 s.1.left)

/-- Every read of the device delivers what it holds. -/
def Delivers (disc : Disc) (device : Nat → Nat) : Prop := ∀ pos, disc pos = some (fun k => device (pos + k))

/-- A slot that holds an open file with its cursor in it. -/
structure OpenFile (lhandles : Rc.Array IsoLhandle) (ifd start size : Nat) (e : Entry IsoLhandle) : Prop where
  found : slot lhandles ifd = some e
  present : e.present = true
  refs : 1 ≤ e.refs
  type : e.value.type ≠ .dir
  begins : e.value.start = start
  length : e.value.size = size
  pos : e.value.pos ≤ size

/-- The cursor of the handle, with the memory of the caller. -/
def fileView (ifd size : Nat) (s : IsoPrivate × Mem) : Cursor size × Mem :=
  (clamp size (((slot s.1.lhandles ifd).map (fun e => e.value.pos)).getD 0 : Nat), s.2)

/-- The handle stays an open file on the same disc. -/
def Serving (disc : Disc) (ifd start size : Nat) (s : IsoPrivate × Mem) : Prop :=
  s.1.disc = disc ∧ ∃ e, OpenFile s.1.lhandles ifd start size e

section Cursor
variable {data : IsoPrivate} {ifd start size : Nat} {e : Entry IsoLhandle}

theorem OpenFile.put (h : OpenFile data.lhandles ifd start size e) {n : Nat} (hn : n ≤ size) :
    OpenFile (data.put ifd e { e.value with pos := n }).lhandles ifd start size { e with value := { e.value with pos := n } } where
  found := slot_set_self h.found _
  present := h.present
  refs := h.refs
  type := h.type
  begins := h.begins
  length := h.length
  pos := hn

theorem OpenFile.view (h : OpenFile data.lhandles ifd start size e) (mem : Mem) :
    fileView ifd size (data, mem) = (⟨e.value.pos, h.pos⟩, mem) := by
  unfold fileView
  rw [h.found]
  exact congrArg (fun c => (c, mem)) (clamp_cursor ⟨e.value.pos, h.pos⟩)

theorem OpenFile.actualLen (h : OpenFile data.lhandles ifd start size e) (hsize : size < 2^31) (len : Nat) :
    e.value.actualLen len = (Cursor.count ⟨e.value.pos, h.pos⟩ len : Nat) := by
  have hpos := h.pos
  unfold IsoLhandle.actualLen Cursor.count Cursor.left
  rw [h.length, sub32_eq (by omega) hpos, int32_eq (by omega) (by omega), Nat.min_comm]

theorem OpenFile.advance (h : OpenFile data.lhandles ifd start size e) (hsize : size < 2^31) (len : Nat) :
    e.value.advance (e.value.actualLen len) =
      { e.value with pos := (Cursor.advance ⟨e.value.pos, h.pos⟩ len).pos } := by
  have hle := (Cursor.advance ⟨e.value.pos, h.pos⟩ len).le
  have hsum : (Cursor.advance ⟨e.value.pos, h.pos⟩ len).pos = e.value.pos + Cursor.count ⟨e.value.pos, h.pos⟩ len := rfl
  unfold IsoLhandle.advance
  rw [h.actualLen hsize, ← Int.natCast_add, ← hsum, Int.emod_eq_of_lt (by omega) (by omega)]
  rfl

/-- Below 2 GiB, and with an offset that is not near the limits, a seek computes the
position asked for. -/
theorem OpenFile.newPos (h : OpenFile data.lhandles ifd start size e) (hsize : size < 2^31) {offset : Int}
    (hoffset : -2^62 < offset ∧ offset < 2^62) (mode : Int) :
    e.value.newPos offset mode = requested size e.value.pos offset mode := by
  have hpos := h.pos
  unfold IsoLhandle.newPos requested seekBase
  by_cases hset : mode = 0
  · subst hset
    simp
  by_cases hcur : mode = 1
  · subst hcur
    simp only [if_neg hset, if_true, true_or, or_true]
    rw [int32_eq (by omega) (by omega), int64_eq (by omega) (by omega)]
  by_cases hend : mode = 2
  · subst hend
    simp only [if_neg hset, if_neg hcur, if_true, or_true]
    rw [h.length, int32_eq (by omega) (by omega), int64_eq (by omega) (by omega)]
  · simp only [hset, hcur, hend, or_self, if_false]

theorem OpenFile.seek (h : OpenFile data.lhandles ifd start size e) (hsize : size < 2^31) {offset : Int}
    (hoffset : -2^62 < offset ∧ offset < 2^62) (mode : Int) :
    e.value.seek (e.value.newPos offset mode) =
      { e.value with pos := (clamp size (requested size e.value.pos offset mode)).pos } := by
  have hclamp : (min (max (requested size e.value.pos offset mode) 0) (e.value.size : Int)).toNat =
      (clamp size (requested size e.value.pos offset mode)).pos := by
    rw [h.length]
    rfl
  unfold IsoLhandle.seek
  rw [h.newPos hsize hoffset, hclamp]

variable {disc : Disc} {device : Nat → Nat}

theorem readDisc_file (hdisc : Delivers disc device) {pos : Nat} (hfits : start * isoBlock + pos < 2^64) (mem : Mem)
    (buffer len : Nat) : readDisc disc (u64 (start * isoBlock + pos)) mem buffer len =
      fun k => if buffer ≤ k ∧ k < buffer + len then device (start * isoBlock + (pos + (k - buffer))) else mem k := by
  unfold readDisc
  rw [u64_eq hfits, hdisc]
  funext k
  dsimp only
  rw [Nat.add_assoc]

theorem FileCall.commutes (hdisc : Delivers disc device) (hstart : start < 2^32) (hsize : size < 2^31) :
    Lockstep.Commutes (FileCall.result ifd) (FileCall.spec (fun k => device (start * isoBlock + k))) (fileView ifd size)
      (Serving disc ifd start size) := by
  rintro call ⟨data, mem⟩ ⟨hsame, e, h⟩
  have hblock : isoBlock = 2048 := rfl
  have hpos := h.pos
  rw [h.view]
  cases call with
  | read buffer len =>
    have hcount : Cursor.count ⟨e.value.pos, h.pos⟩ len < 2^64 := by
      unfold Cursor.count Cursor.left
      dsimp only
      omega
    have hlen : (e.value.actualLen len % 2^64).toNat = Cursor.count ⟨e.value.pos, h.pos⟩ len := by
      rw [h.actualLen hsize]
      omega
    have hfits : start * isoBlock + e.value.pos < 2^64 := by rw [hblock]; omega
    have hmem := readDisc_file hdisc hfits mem buffer (Cursor.count ⟨e.value.pos, h.pos⟩ len)
    have hopen := h.put (Cursor.advance ⟨e.value.pos, h.pos⟩ len).le
    simp only [FileCall.result, FileCall.spec, isoRead_file h.found h.present h.refs h.type]
    rw [hlen, h.advance hsize, h.actualLen hsize, h.begins, show data.disc = disc from hsame, hmem]
    refine ⟨?_, ?_⟩
    · show Except.ok (fileView ifd size _, _) = _
      rw [hopen.view]
    · intro s' a hok
      cases hok
      exact ⟨hsame, _, hopen⟩
  | seek offset mode =>
    have hopen := h.put (clamp size (requested size e.value.pos offset mode)).le
    simp only [FileCall.result, FileCall.spec, isoSeek_file h.found h.present h.refs h.type]
    rw [h.seek hsize offset.2]
    refine ⟨?_, ?_⟩
    · show Except.ok (fileView ifd size _, _) = _
      rw [hopen.view]
    · intro s' a hok
      cases hok
      exact ⟨hsame, _, hopen⟩
  | available ioctlData =>
    have hleft : sub32 e.value.size e.value.pos = Cursor.left ⟨e.value.pos, h.pos⟩ := by
      rw [h.length, sub32_eq (by omega) hpos]
      rfl
    simp only [FileCall.result, FileCall.spec, isoIoctl_file h.found h.present h.refs]
    rw [hleft]
    refine ⟨?_, ?_⟩
    · show Except.ok (fileView ifd size _, _) = _
      rw [h.view]
    · intro s' a hok
      cases hok
      exact ⟨hsame, _, h⟩

/-- Over any list of calls an open file of less than 2 GiB answers as a cursor over its
bytes does, and the cursor stays in it. -/
theorem iso9660_file_cursor (hdisc : Delivers disc device) (hstart : start < 2^32) (hsize : size < 2^31)
    {s : IsoPrivate × Mem} (h : Serving disc ifd start size s) (calls : List FileCall) :
    (Lockstep.runCalls (FileCall.result ifd) calls s).map (fun r => (fileView ifd size r.1, r.2)) =
        Lockstep.runCalls (FileCall.spec (fun k => device (start * isoBlock + k))) calls (fileView ifd size s) ∧
      ∀ s' answers, Lockstep.runCalls (FileCall.result ifd) calls s = .ok (s', answers) → Serving disc ifd start size s' :=
  Lockstep.runCalls_commutes (FileCall.commutes hdisc hstart hsize) calls s h

theorem isoOpen_serving {data' : IsoPrivate} {path : CStr} {unset : IsoUnset} {id : Nat}
    (h : isoOpen data path unset = some (.ok id, data')) (mem : Mem) :
    ∃ start size, Serving data.disc id start size (data', mem) := by
  obtain ⟨ret, -, heq⟩ := Option.map_eq_some_iff.mp h
  cases ret with
  | error e => cases heq
  | ok found =>
    dsimp only at heq
    by_cases hdir : found.1 = .dir
    · rw [if_pos hdir] at heq
      cases heq
    · rw [if_neg hdir] at heq
      cases heq
      refine ⟨found.2.1, found.2.2, rfl, { refs := 1, present := true, value := isoFileHandle found }, ?_, rfl, Int.le_refl 1, hdir,
        rfl, rfl, Nat.zero_le _⟩
      show slot (arrayAdd data.lhandles (isoFileHandle found)).2 (arrayAdd data.lhandles (isoFileHandle found)).1 = _
      rw [slot_arrayAdd, arrayAdd_fst, if_pos rfl]

/-! ## Seeks of any size -/

/-- A seek sets the position asked for, and the read after it is given what there is. -/
structure SeeksRight (data : IsoPrivate) (ifd : Nat) (e : Entry IsoLhandle) (offset mode : Int) : Prop where
  sets : ∃ e', slot (isoSeek data ifd offset mode).2.lhandles ifd = some e' ∧
    e'.value.pos = (clamp e.value.size (requested e.value.size e.value.pos offset mode)).pos
  reads : ∀ mem buffer len, len < 2^64 → (isoRead (isoSeek data ifd offset mode).2 mem ifd buffer len).1 =
    (min len (e.value.size - (clamp e.value.size (requested e.value.size e.value.pos offset mode)).pos) : Nat)

/-- The sum of the base and the offset stays right although the base is made an
`int32_t` and the sum an `int64_t`. -/
def SumFits (size base : Nat) (offset : Int) : Prop :=
  base < 2^31 ∧ base + offset < 2^63 ∨
    2^31 ≤ base ∧ (base + offset ≤ 0 ∧ -2^63 ≤ base + offset - 2^32 ∨ 2^32 + size ≤ base + offset)

/-- The seek computes the position asked for, and less than 2 GiB lie behind it. -/
def SeekFits (size pos : Nat) (offset mode : Int) : Prop :=
  SumFits size (seekBase size pos mode) offset ∧ size - (clamp size (requested size pos offset mode)).pos < 2^31

instance (size pos : Nat) (offset mode : Int) : Decidable (SeekFits size pos offset mode) := by
  unfold SeekFits SumFits
  infer_instance

theorem seekBase_le {pos : Nat} (hpos : pos ≤ size) (mode : Int) : seekBase size pos mode ≤ size := by
  unfold seekBase
  split
  · exact hpos
  · split
    · exact Nat.le_refl size
    · exact Nat.zero_le size

theorem newPos_mode (handle : IsoLhandle) {offset mode : Int} (hmode : mode = 0 ∨ mode = 1 ∨ mode = 2)
    (hoffset : -2^63 ≤ offset ∧ offset < 2^63) :
    handle.newPos offset mode = int64 (int32 (seekBase handle.size handle.pos mode) + offset) := by
  rcases hmode with rfl | rfl | rfl
  · have hzero : int32 ((0 : Nat) : Int) + offset = offset := by
      rw [int32_eq (by decide) (by decide)]
      simp
    show offset = int64 (int32 ((0 : Nat) : Int) + offset)
    rw [hzero, int64_eq hoffset.1 hoffset.2]
  · simp [IsoLhandle.newPos, seekBase]
  · simp [IsoLhandle.newPos, seekBase]

theorem clamp_sum_iff {base : Nat} (hbase : base ≤ size) (hsize : size < 2^32) {offset : Int}
    (hoffset : -2^63 ≤ offset ∧ offset < 2^63) :
    clamp size (int64 (int32 base + offset)) = clamp size (base + offset) ↔ SumFits size base offset := by
  by_cases hzero : size = 0
  · have hbase' : base = 0 := by omega
    subst hzero hbase'
    refine ⟨fun _ => .inl ⟨by decide, by omega⟩, fun _ => ?_⟩
    have hone : ∀ c d : Cursor 0, c = d := by
      intro c d
      have hc := c.le
      have hd := d.le
      exact Cursor.ext (by omega)
    exact hone _ _
  · rw [clamp_eq_iff hzero]
    unfold SumFits int64 int32
    omega

/-- Whatever the size, a seek sets the position asked for, and the read after it returns
what there is, exactly when the sum stays right and less than 2 GiB are left. -/
theorem iso9660_seek_right_iff (hslot : slot data.lhandles ifd = some e) (hpresent : e.present = true) (hrefs : 1 ≤ e.refs)
    (htype : e.value.type ≠ .dir) (hsize : e.value.size < 2^32) (hpos : e.value.pos ≤ e.value.size) {offset mode : Int}
    (hoffset : -2^63 ≤ offset ∧ offset < 2^63) (hmode : mode = 0 ∨ mode = 1 ∨ mode = 2) :
    SeeksRight data ifd e offset mode ↔ SeekFits e.value.size e.value.pos offset mode := by
  have hbase := seekBase_le hpos mode
  have hreq : requested e.value.size e.value.pos offset mode = seekBase e.value.size e.value.pos mode + offset := if_pos hmode
  have hsum := clamp_sum_iff hbase hsize hoffset
  rw [← newPos_mode e.value hmode hoffset, ← hreq] at hsum
  have hslot' : slot (data.put ifd e (e.value.seek (e.value.newPos offset mode))).lhandles ifd =
      some { e with value := e.value.seek (e.value.newPos offset mode) } := slot_set_self hslot _
  have hleft := (clamp e.value.size (requested e.value.size e.value.pos offset mode)).le
  -- What the read is given behind the position asked for.
  have hread : clamp e.value.size (e.value.newPos offset mode) =
      clamp e.value.size (requested e.value.size e.value.pos offset mode) →
      ∀ mem buffer len, (isoRead (isoSeek data ifd offset mode).2 mem ifd buffer len).1 = int32
        (min (e.value.size - (clamp e.value.size (requested e.value.size e.value.pos offset mode)).pos) len : Nat) := by
    intro heq mem buffer len
    rw [isoSeek_file hslot hpresent hrefs htype, isoRead_file hslot' hpresent hrefs htype]
    have hsame : (e.value.seek (e.value.newPos offset mode)).pos =
        (clamp e.value.size (requested e.value.size e.value.pos offset mode)).pos := congrArg Cursor.pos heq
    have hsub : sub32 (e.value.seek (e.value.newPos offset mode)).size (e.value.seek (e.value.newPos offset mode)).pos =
        e.value.size - (clamp e.value.size (requested e.value.size e.value.pos offset mode)).pos := by
      rw [hsame]
      exact sub32_eq hsize hleft
    show int32 _ = _
    rw [hsub]
  constructor
  · rintro ⟨⟨e', hfound, hsets⟩, hreads⟩
    rw [isoSeek_file hslot hpresent hrefs htype] at hfound
    have he' : e' = { e with value := e.value.seek (e.value.newPos offset mode) } :=
      Option.some.inj (hfound.symm.trans hslot')
    rw [he'] at hsets
    have heq : clamp e.value.size (e.value.newPos offset mode) =
        clamp e.value.size (requested e.value.size e.value.pos offset mode) := Cursor.ext hsets
    refine ⟨hsum.mp heq, ?_⟩
    -- A read of all that is left.
    have hall := hreads (fun _ => 0) 0 e.value.size (by omega)
    rw [hread heq] at hall
    unfold int32 at hall
    omega
  · rintro ⟨hfits, hless⟩
    have heq := hsum.mpr hfits
    refine ⟨⟨{ e with value := e.value.seek (e.value.newPos offset mode) }, ?_, congrArg Cursor.pos heq⟩,
      fun mem buffer len _ => ?_⟩
    · rw [isoSeek_file hslot hpresent hrefs htype]
      exact hslot'
    · rw [hread heq, int32_eq (by omega) (by omega), Nat.min_comm]

end Cursor

/-- A mount with one open file. -/
def oneFile (disc : Disc) (size pos : Nat) : IsoPrivate where
  disc := disc
  rootLba := 18
  rootLen := 2048
  lhandles := [some (Entry.resting { isoFileHandle (.reg, 20, size) with pos := pos })]

/-- A device whose bytes count up. -/
def countingDevice (k : Nat) : Nat := k % 256

theorem oneFile_serving (disc : Disc) {size pos : Nat} (h : pos ≤ size) (mem : Mem) :
    Serving disc 0 20 size (oneFile disc size pos, mem) :=
  ⟨rfl, _, rfl, rfl, Int.le_refl 1, FsType.noConfusion, rfl, rfl, h⟩

theorem oneFile_view {disc : Disc} {size pos : Nat} (h : pos ≤ size) {mem : Mem} :
    fileView 0 size (oneFile disc size pos, mem) = (⟨pos, h⟩, mem) :=
  congrArg (fun c => (c, mem)) (clamp_cursor ⟨pos, h⟩)

/-- The last four bytes of a file of a hundred. -/
theorem iso9660_file_cursor_tail : ∃ s', Lockstep.runCalls (FileCall.result 0)
      [.seek ⟨-4, by decide⟩ 2, .available 0, .read 0x1000 10, .read 0x1000 10]
      (oneFile (fun pos => some (fun k => countingDevice (pos + k))) 100 0, fun _ => 0) =
        .ok (s', [.returned 0, .available 0 4, .returned 4, .returned 0]) ∧
    Serving (fun pos => some (fun k => countingDevice (pos + k))) 0 20 100 s' := by
  have hdisc : Delivers (fun pos => some (fun k => countingDevice (pos + k))) countingDevice := fun _ => rfl
  have hserving := oneFile_serving (fun pos => some (fun k => countingDevice (pos + k))) (Nat.zero_le 100) (fun _ => 0)
  obtain ⟨hsame, hkept⟩ := iso9660_file_cursor hdisc (by decide) (by decide) hserving
    [.seek ⟨-4, by decide⟩ 2, .available 0, .read 0x1000 10, .read 0x1000 10]
  cases hrun : Lockstep.runCalls (FileCall.result 0) [.seek ⟨-4, by decide⟩ 2, .available 0, .read 0x1000 10, .read 0x1000 10]
      (oneFile (fun pos => some (fun k => countingDevice (pos + k))) 100 0, fun _ => 0) with
  | error e => exact e.elim
  | ok r =>
    rw [hrun, oneFile_view (Nat.zero_le 100)] at hsame
    have hanswers := congrArg (Except.map Prod.snd) hsame
    have hr : r.2 = [.returned 0, .available 0 4, .returned 4, .returned 0] := Except.ok.inj hanswers
    exact ⟨r.1, by rw [← hr], hkept _ _ hrun⟩

/-- To the end of a file of a hundred bytes. -/
theorem iso9660_seek_right_end : SeeksRight (oneFile (fun _ => none) 100 30) 0
    (Entry.resting { isoFileHandle (.reg, 20, 100) with pos := 30 }) 0 2 :=
  (iso9660_seek_right_iff rfl rfl (Int.le_refl 1) (by decide) (by decide) (by decide) (by decide) (by decide)).mpr (by decide)

/-- From 2 GiB on, a seek by nothing goes to the start; and at the start of a file of 2
GiB, a read of all of it returns a negative count. -/
theorem iso9660_seek_far :
    ((slot (isoSeek (oneFile (fun _ => none) 3000000000 2147483648) 0 0 1).2.lhandles 0).map (fun e => e.value.pos)) = some 0 ∧
    (isoRead (isoSeek (oneFile (fun _ => none) 2147483648 5) 0 0 0).2 (fun _ => 0) 0 0x1000 2147483648).1 = -2147483648 ∧
    ((slot (isoSeek (oneFile (fun _ => none) 10 1) 0 (2^63 - 1) 1).2.lhandles 0).map (fun e => e.value.pos)) = some 0 ∧
    ¬ SeeksRight (oneFile (fun _ => none) 3000000000 2147483648) 0
      (Entry.resting { isoFileHandle (.reg, 20, 3000000000) with pos := 2147483648 }) 0 1 := by
  refine ⟨by decide, by decide, by decide, ?_⟩
  rintro ⟨⟨e', hslot, hsets⟩, -⟩
  cases hslot
  revert hsets
  decide

end Aex.Fs
