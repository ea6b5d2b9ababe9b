import AexKernel.Mem.MultibootPieces
import AexKernel.Mem.MultibootTaken

/- The bitmaps that the scan leaves behind.

   Three things decide whether they are right. The frames for one piece must be one run
   of memory; their number comes from `usable / 8` bytes, without the 24 of the header;
   and of these frames only those behind the header's are cleared
   (`memInitFrames_right_iff`).

   A bitmap is taken to be memory of its own. One that does not fit is not followed into
   the frames behind it; such a scan is not right whatever happens there. -/
namespace Aex.Mem

/-! ## The bitmaps that are left -/

/-- The scan, and the frames of the kernel image. -/
def memInitFrames (map : MemoryMap) (ram : Nat → Words.Bitmap 32) (system : Nat) : Except Kpanic Scan := do
  let s ← memInitScan map ram system
  let (frames, _) ← kfcalloc s.frames system
  return { s with frames := frames }

/-- The words of the bitmap for so many frames. -/
def bitmapWords (usable : Nat) : Nat := (usable + 31) / 32

/-- Header and bitmap of every piece but the first fit in the frames taken for them,
which lie one behind another; and the frames that are marked are those of the image, of
headers and of bitmaps. -/
structure Scan.BitmapsRight (system : Nat) (s : Scan) : Prop where
  fits : ∀ k, 0 < k → k < s.frames.pieces.length → Consecutive (framesOf s.taken k) ∧
    pieceHeader + 4 * bitmapWords (pieceAt s.frames.pieces k).usable ≤ pageSize * (framesOf s.taken k).length
  marked : ∀ k < s.frames.pieces.length, ∀ i < (pieceAt s.frames.pieces k).usable,
    (Words.get (pieceAt s.frames.pieces k).bitmap i = true ↔ usableSum (s.frames.pieces.take k) + i < system + s.taken.length)

/-- The pieces of the map, with no frame marked. -/
def MemoryMap.frames (map : MemoryMap) : Frames where
  pieces := (map.layout map.runs).map (fun shape => ⟨shape.1, shape.2, fun _ => 0⟩)
  framesPossible := runFrames map.runs
  framesUsed := 0

/-- How many frames are taken for the pieces before that at `k`. -/
def framesBefore (pieces : List Piece) : Nat → Nat
  | 0 => 0
  | k + 1 => framesBefore pieces k + if k = 0 then 0 else framesFor (pieceAt pieces k).usable

/-- The bitmap ends in a frame that is not taken: the length is without the header and
without a last byte that is not full. -/
def Tight (usable : Nat) : Prop := ∃ n, 0 < n ∧ 8 * pageSize * n < usable + 8 * pieceHeader ∧ usable < 8 * pageSize * n + 8

/-- No bitmap is tight, the ids of the frames for one piece have no seam, and behind a
header memory is clear but for the bits of ids that are taken. -/
structure MemoryMap.BitmapsClean (map : MemoryMap) (ram : Nat → Words.Bitmap 32) (system : Nat) : Prop where
  sizes : ∀ k, 0 < k → k < map.frames.pieces.length → ¬ Tight (pieceAt map.frames.pieces k).usable
  seams : ∀ k, 0 < k → k < map.frames.pieces.length → ∀ t, t + 1 < framesFor (pieceAt map.frames.pieces k).usable →
    ¬ map.frames.Seam (system + framesBefore map.frames.pieces k + t)
  clear : ∀ k, 0 < k → k < map.frames.pieces.length →
    ∀ header, kfpaddrof map.frames (system + framesBefore map.frames.pieces k) = .ok header →
    ∀ i < (pieceAt map.frames.pieces k).usable, i < rootBits → Words.get (ram header) i = true →
      usableSum (map.frames.pieces.take k) + i < system + framesBefore map.frames.pieces map.frames.pieces.length

theorem fits_iff_not_tight (usable : Nat) :
    pieceHeader + 4 * bitmapWords usable ≤ pageSize * framesFor usable ↔ ¬ Tight usable := by
  unfold bitmapWords framesFor bitmapPages Tight pieceHeader pageSize
  constructor
  · rintro hfits ⟨n, hn, hlow, hhigh⟩
    omega
  · intro hroomy
    by_contra hover
    exact hroomy ⟨1 + ((usable / 8 + (0x1000 - 1)) / 0x1000 - 1), by omega, by omega, by omega⟩

section Left

variable {map : MemoryMap} {ram : Nat → Words.Bitmap 32} {system : Nat} {s : Scan} {fr : Frames}

theorem MemoryMap.frames_shapes (map : MemoryMap) : map.frames.pieces.map Piece.shape = map.layout map.runs := by
  unfold MemoryMap.frames
  rw [List.map_map]
  exact List.map_id _

theorem framesBefore_shape {pieces pieces' : List Piece} (h : pieces'.map Piece.shape = pieces.map Piece.shape) :
    ∀ k, framesBefore pieces' k = framesBefore pieces k := by
  intro k
  induction k with
  | zero => rfl
  | succ k ih =>
    have husable : (pieceAt pieces' k).usable = (pieceAt pieces k).usable := congrArg Prod.snd (pieceAt_shape h k)
    unfold framesBefore
    rw [ih, husable]

/-- The pieces are those of the map. -/
structure Scan.Laid (map : MemoryMap) (s : Scan) : Prop where
  shapes : s.frames.pieces.map Piece.shape = map.frames.pieces.map Piece.shape
  possible : s.frames.framesPossible = map.frames.framesPossible

theorem Scan.Laid.length (h : s.Laid map) : s.frames.pieces.length = map.frames.pieces.length :=
  length_shape h.shapes

theorem Scan.Laid.usable (h : s.Laid map) (k : Nat) : (pieceAt s.frames.pieces k).usable = (pieceAt map.frames.pieces k).usable :=
  congrArg Prod.snd (pieceAt_shape h.shapes k)

theorem scan_laid (hrun : memInitScan map ram system = .ok s) : s.Laid map := by
  rcases scan_found map ram system with ⟨s', hrun', hshapes, hpossible⟩ | ⟨⟨p, herror⟩, -⟩
  · rw [hrun] at hrun'
    cases hrun'
    exact ⟨hshapes.trans map.frames_shapes.symm, hpossible⟩
  · rw [hrun] at herror
    cases herror

theorem Scan.Laid.image {amount id : Nat} (h : s.Laid map) (hrun : kfcalloc s.frames amount = .ok (fr, id)) :
    Scan.Laid map { s with frames := fr } := by
  obtain ⟨-, -, hshapes, hpossible⟩ := kfcalloc_remarked hrun
  exact ⟨hshapes.trans h.shapes, hpossible.trans h.possible⟩

theorem Held.before_eq (h : Held ram system s) (hclosed : s.Closed) : ∀ k ≤ s.frames.pieces.length,
    takenBefore s.taken k = framesBefore s.frames.pieces k := by
  intro k
  induction k with
  | zero => exact fun _ => takenBefore_zero s.taken
  | succ k ih =>
    intro hk
    unfold framesBefore
    rw [takenBefore_succ, ih (Nat.le_of_succ_le hk)]
    by_cases hroot : k = 0
    · have hnone : framesOf s.taken k = [] := framesOf_none (fun r hr => by have howner := (h.owners r hr).1; omega)
      rw [hnone, if_pos hroot]
      rfl
    · rw [if_neg hroot, hclosed k (Nat.pos_of_ne_zero hroot) (by unfold Scan.top; omega)]

theorem Held.taken_length (h : Held ram system s) (hclosed : s.Closed) (hlaid : s.Laid map) :
    s.taken.length = framesBefore map.frames.pieces map.frames.pieces.length := by
  rw [← framesBefore_shape hlaid.shapes, ← hlaid.length, ← h.before_eq hclosed _ (Nat.le_refl _), takenBefore_all]
  intro r hr
  have howner := (h.owners r hr).2
  have hsome := h.some
  unfold Scan.top at howner
  omega

theorem Held.consecutive_iff (h : Held ram system s) : (∀ k, Consecutive (framesOf s.taken k)) ↔
    ∀ k, 0 < k → k < s.frames.pieces.length → Consecutive (framesOf s.taken k) := by
  constructor
  · exact fun hall k _ _ => hall k
  · intro hall k
    by_cases hin : 0 < k ∧ k < s.frames.pieces.length
    · exact hall k hin.1 hin.2
    · have hnone : framesOf s.taken k = [] := by
        apply framesOf_none
        intro r hr
        have howner := h.owners r hr
        have hsome := h.some
        unfold Scan.top at howner
        omega
      rw [hnone]
      intro t a hget
      cases hget

theorem Held.frames_length (h : Held ram system s) (hclosed : s.Closed) (hlaid : s.Laid map) {k : Nat} (hk : 0 < k)
    (hlt : k < map.frames.pieces.length) : (framesOf s.taken k).length = framesFor (pieceAt map.frames.pieces k).usable := by
  have hlen := hlaid.length
  have hsome := h.some
  rw [hclosed k hk (by unfold Scan.top; omega), hlaid.usable]

/-- The frames for a piece have the ids behind those for the pieces before it. -/
theorem Held.span (h : Held ram system s) (hclosed : s.Closed) (hlaid : s.Laid map) {k : Nat}
    (hlt : k < map.frames.pieces.length) :
    map.frames.Span (system + framesBefore map.frames.pieces k) (framesOf s.taken k) := by
  have hlen := hlaid.length
  intro t a hget
  rw [← kfpaddrof_shape hlaid.shapes hlaid.possible, ← framesBefore_shape hlaid.shapes, ← h.before_eq hclosed k (by omega)]
  exact h.numbered k t a hget

theorem Held.header_addr (h : Held ram system s) (hclosed : s.Closed) (hlaid : s.Laid map) {k : Nat} (hk : 0 < k)
    (hlt : k < map.frames.pieces.length) :
    kfpaddrof map.frames (system + framesBefore map.frames.pieces k) = .ok (headerAt s.taken k) := by
  have hsome := h.frames_length hclosed hlaid hk hlt
  have hfirst := h.span hclosed hlaid hlt 0
  unfold headerAt
  cases hof : framesOf s.taken k with
  | nil =>
    rw [hof] at hsome
    unfold framesFor at hsome
    rw [List.length_nil] at hsome
    omega
  | cons a rest =>
    rw [hof] at hfirst
    exact hfirst a rfl

theorem allocated_frame (hc : usableSum fr.pieces ≤ fr.framesPossible) {k i : Nat} (hk : k < fr.pieces.length)
    (hi : i < (pieceAt fr.pieces k).usable) :
    fr.allocated (usableSum (fr.pieces.take k) + i) = Words.get (pieceAt fr.pieces k).bitmap i := by
  unfold Frames.allocated
  rw [locate_frame hc hk hi]

/-- Before the image is placed, no frame that is marked has one of its ids. -/
theorem Held.allocated_ge (h : Held ram system s) (hcons : ∀ k, Consecutive (framesOf s.taken k)) {id : Nat}
    (hmarked : s.frames.allocated id = true) : system ≤ id := by
  unfold Frames.allocated at hmarked
  split at hmarked
  · cases hmarked
  · next k i hl =>
    obtain ⟨hk, hi, hid⟩ := locate_split hl
    rcases (h.bits hcons k hk i).mp hmarked with ⟨-, hlow, -⟩ | ⟨hpos, -⟩
    · omega
    · -- the image has less frames than the first piece
      have hkernel := h.kernel (by unfold Scan.top; omega)
      have hless := take_le_of_lt hpos hk hkernel
      omega

theorem kfcalloc_image {amount id : Nat} (hc : usableSum s.frames.pieces ≤ s.frames.framesPossible)
    (hfree : ∀ j, s.frames.allocated j = true → amount ≤ j) (hrun : kfcalloc s.frames amount = .ok (fr, id)) : id = 0 := by
  obtain ⟨hrunFree, -⟩ := kfcalloc_remarked hrun
  by_cases hz : amount = 0
  · unfold kfcalloc at hrun
    rw [if_pos hz] at hrun
    cases hrun
    rfl
  · have hin : 0 + amount ≤ usableSum s.frames.pieces := by
      obtain ⟨-, addr, ha⟩ := kfisfree_true (hrunFree (id + (amount - 1)) (by omega) (by omega))
      obtain ⟨k, i, hl, -⟩ := kfpaddrof_found ha
      have hlt := locate_lt hl
      omega
    obtain ⟨fr', t, hrun', ht⟩ := kfcalloc_serves hc hz hin (by
      intro j _ hj
      show (!s.frames.allocated j) = true
      cases hbit : s.frames.allocated j with
      | false => rfl
      | true =>
        have hge := hfree j hbit
        omega)
    rw [hrun] at hrun'
    cases hrun'
    exact Nat.le_zero.mp ht

theorem Held.marked (h : Held ram system s) (hcons : ∀ k, Consecutive (framesOf s.taken k)) {id : Nat}
    (hc : usableSum s.frames.pieces ≤ s.frames.framesPossible) (hrun : kfcalloc s.frames system = .ok (fr, id)) {k i : Nat}
    (hk : k < s.frames.pieces.length) (hi : i < (pieceAt s.frames.pieces k).usable) :
    Words.get (pieceAt fr.pieces k).bitmap i = true ↔
      usableSum (s.frames.pieces.take k) + i < system + s.taken.length ∨ leftOver ram s.taken k i := by
  obtain ⟨-, hmarks, hshapes, hpossible⟩ := kfcalloc_remarked hrun
  have hzero := kfcalloc_image hc (fun j hj => h.allocated_ge hcons hj) hrun
  subst hzero
  have hlen : fr.pieces.length = s.frames.pieces.length := length_shape hshapes
  have husable : (pieceAt fr.pieces k).usable = (pieceAt s.frames.pieces k).usable := congrArg Prod.snd (pieceAt_shape hshapes k)
  have hafter := @allocated_frame fr (by rw [usableSum_shape hshapes, hpossible]; exact hc) k i (by omega) (by omega)
  rw [take_shape hshapes] at hafter
  rw [← hafter, hmarks.allocated, allocated_frame hc hk hi, h.bits hcons k hk i]
  constructor
  · rintro (⟨-, himage⟩ | ⟨-, -, htaken⟩ | hleft)
    · exact .inl (by omega)
    · exact .inl htaken
    · exact .inr hleft
  · rintro (hid | hleft)
    · by_cases himage : usableSum (s.frames.pieces.take k) + i < system
      · exact .inl ⟨Nat.zero_le _, by omega⟩
      · exact .inr (.inl ⟨hi, by omega, hid⟩)
    · exact .inr (.inr hleft)

/-- Where the bitmap has room, memory is left in the page of the header alone. -/
theorem leftOver_iff {taken : List (Nat × Nat)} {k i usable : Nat} (hk : 0 < k) (hi : i < usable) (hroomy : ¬ Tight usable)
    (hlen : (framesOf taken k).length = framesFor usable) :
    leftOver ram taken k i ↔ i < rootBits ∧ Words.get (ram (headerAt taken k)) i = true := by
  have hfits := (fits_iff_not_tight usable).mpr hroomy
  have hsize : rootBits = 32576 := by decide
  have hpage : 8 * pageSize = 32768 := by decide
  have hpages : 0 < framesFor usable := Nat.lt_of_lt_of_le Nat.one_pos (Nat.le_add_right 1 _)
  have hend : i < rootBits + 8 * pageSize * (framesFor usable - 1) := by
    rw [hsize, hpage]
    unfold bitmapWords pieceHeader pageSize at hfits
    omega
  unfold leftOver
  rw [hlen]
  constructor
  · rintro ⟨-, hbit, hout⟩
    exact ⟨by omega, hbit⟩
  · rintro ⟨hlow, hbit⟩
    exact ⟨hk, hbit, by omega⟩

theorem Scan.Laid.counted (h : s.Laid map) : usableSum s.frames.pieces ≤ s.frames.framesPossible := by
  have hshapes : s.shapes = map.layout map.runs := h.shapes.trans map.frames_shapes
  rw [usableSum_shapes, hshapes, h.possible]
  show _ ≤ runFrames map.runs
  by_cases hnone : map.runs = []
  · rw [hnone]
    exact Nat.zero_le _
  · have hsum : ((map.layout map.runs).map Prod.snd).sum + map.runs.length ≤ runFrames map.runs + 1 :=
      layout_sum (runsBelow_ok map map.bound).pos hnone
    have hpos := List.length_pos_iff.mpr hnone
    omega

theorem layout_starts : ∀ {runs : List (Nat × Nat)}, (∀ run ∈ runs, map.grid run.1 < 2^64) →
    ∀ shape ∈ map.layout runs, shape.1 < 2^64 := by
  intro runs
  induction runs with
  | nil =>
    intro _ shape hshape
    rw [List.mem_singleton.mp hshape]
    exact Nat.two_pow_pos 64
  | cons run earlier ih =>
    intro hruns shape hshape
    have hrun := hruns run List.mem_cons_self
    cases earlier with
    | nil =>
      rw [List.mem_singleton.mp hshape]
      exact hrun
    | cons run' rest =>
      rw [layout_cons map run (List.cons_ne_nil _ _)] at hshape
      rcases List.mem_append.mp hshape with hbefore | hlast
      · exact ih (fun r hr => hruns r (List.mem_cons_of_mem _ hr)) shape hbefore
      · rw [List.mem_singleton.mp hlast]
        exact hrun

theorem MemoryMap.frames_starts (map : MemoryMap) : ∀ p ∈ map.frames.pieces, p.start < 2^64 := by
  intro p hp
  obtain ⟨shape, hshape, rfl⟩ := List.mem_map.mp hp
  apply layout_starts _ shape hshape
  intro run hrun
  have hpos := (runsBelow_ok map map.bound).pos run hrun
  have hf := (inRuns_iff map run.1).mp ⟨run, hrun, Nat.le_refl _, by omega⟩
  obtain ⟨e, he, -, hlt⟩ := foundIn_covers hf
  have hspace := map.inSpace e (MemoryMap.mem_regions.mp he).1
  omega

theorem Held.fits_iff (h : Held ram system s) (hclosed : s.Closed) (hlaid : s.Laid map) {k : Nat} (hk : 0 < k)
    (hlt : k < map.frames.pieces.length) :
    (Consecutive (framesOf s.taken k) ∧
      pieceHeader + 4 * bitmapWords (pieceAt map.frames.pieces k).usable ≤ pageSize * (framesOf s.taken k).length) ↔
    (∀ t, t + 1 < framesFor (pieceAt map.frames.pieces k).usable →
      ¬ map.frames.Seam (system + framesBefore map.frames.pieces k + t)) ∧ ¬ Tight (pieceAt map.frames.pieces k).usable := by
  rw [(h.span hclosed hlaid hlt).consecutive_iff map.frames_starts, h.frames_length hclosed hlaid hk hlt, fits_iff_not_tight]

end Left

/-- Where the machine starts, its bitmaps are right exactly when no bitmap is tight, no
frames for one piece have a seam between them, and memory behind the headers was clear. -/
theorem memInitFrames_right_iff (map : MemoryMap) (ram : Nat → Words.Bitmap 32) (system : Nat) (s : Scan)
    (hrun : memInitFrames map ram system = .ok s) : s.BitmapsRight system ↔ map.BitmapsClean ram system := by
  obtain ⟨s₀, hscan, hrun⟩ := bind_ok hrun
  obtain ⟨⟨fr, id⟩, himage, hrun⟩ := bind_ok hrun
  cases hrun
  obtain ⟨h, hclosed⟩ := scan_held hscan
  have hlaid := scan_laid hscan
  have hlaid' := hlaid.image himage
  have hlen := hlaid.length
  have hlen' := hlaid'.length
  have htotal := h.taken_length hclosed hlaid
  have hbits : (∀ k, Consecutive (framesOf s₀.taken k)) → ∀ k < map.frames.pieces.length,
      ∀ i < (pieceAt map.frames.pieces k).usable, (Words.get (pieceAt fr.pieces k).bitmap i = true ↔
        usableSum (map.frames.pieces.take k) + i < system + s₀.taken.length ∨ leftOver ram s₀.taken k i) := by
    intro hcons k hlt i hi
    rw [← take_shape hlaid.shapes]
    exact h.marked hcons hlaid.counted himage (by omega) (by rw [hlaid.usable]; exact hi)
  constructor
  · intro hright
    have hfits : ∀ k, 0 < k → k < map.frames.pieces.length → _ := fun k hk hlt =>
      (h.fits_iff hclosed hlaid hk hlt).mp (by
        rw [← hlaid'.usable]
        exact hright.fits k hk (by rw [hlen']; exact hlt))
    have hcons := h.consecutive_iff.mpr (fun k hk hlt => (hright.fits k hk (by rw [hlen', ← hlen]; exact hlt)).1)
    refine ⟨fun k hk hlt => (hfits k hk hlt).2, fun k hk hlt => (hfits k hk hlt).1, ?_⟩
    intro k hk hlt header hat i hi hlow hbit
    rw [h.header_addr hclosed hlaid hk hlt] at hat
    cases hat
    -- a bit that was left is set, so its frame must be one of those taken
    have hleft := (leftOver_iff hk hi (hfits k hk hlt).2 (h.frames_length hclosed hlaid hk hlt)).mpr ⟨hlow, hbit⟩
    have hset := (hbits hcons k hlt i hi).mpr (.inr hleft)
    rw [← htotal, ← take_shape hlaid'.shapes]
    exact (hright.marked k (by rw [hlen']; exact hlt) i (by rw [hlaid'.usable]; exact hi)).mp hset
  · intro hclean
    have hfits : ∀ k, 0 < k → k < map.frames.pieces.length → _ := fun k hk hlt =>
      (h.fits_iff hclosed hlaid hk hlt).mpr ⟨hclean.seams k hk hlt, hclean.sizes k hk hlt⟩
    have hcons := h.consecutive_iff.mpr (fun k hk hlt => (hfits k hk (by omega)).1)
    refine ⟨?_, ?_⟩
    · intro k hk hlt
      rw [hlaid'.usable]
      exact hfits k hk (by rw [← hlen']; exact hlt)
    · intro k hlt i hi
      rw [hlen'] at hlt
      rw [hlaid'.usable] at hi
      rw [take_shape hlaid'.shapes]
      show Words.get (pieceAt fr.pieces k).bitmap i = true ↔ _
      rw [hbits hcons k hlt i hi]
      constructor
      · rintro (hid | hleft)
        · exact hid
        · have hk := hleft.1
          obtain ⟨hlow, hbit⟩ := (leftOver_iff hk hi (hclean.sizes k hk hlt) (h.frames_length hclosed hlaid hk hlt)).mp hleft
          have hclear := hclean.clear k hk hlt _ (h.header_addr hclosed hlaid hk hlt) i hi hlow hbit
          rw [← htotal] at hclear
          exact hclear
      · exact .inl

theorem twoRegions_pieces : twoRegions.frames.pieces = [⟨0x100000, 2, fun _ => 0⟩, ⟨0x103000, 1, fun _ => 0⟩] := by
  have hlayout : twoRegions.layout twoRegions.runs = [(0x100000, 2), (0x103000, 1)] := by
    obtain ⟨s, hrun, hshapes⟩ : ∃ s, memInitScan twoRegions (fun _ _ => 0) 1 = .ok s ∧
        s.shapes = [(0x100000, 2), (0x103000, 1)] := ⟨_, rfl, rfl⟩
    rw [← twoRegions.frames_shapes, ← (scan_laid hrun).shapes]
    exact hshapes
  unfold MemoryMap.frames
  rw [hlayout]
  rfl

/-- Where memory is clear. -/
theorem memInitFrames_right_twoRegions : ∃ s, memInitFrames twoRegions (fun _ _ => 0) 1 = .ok s ∧ s.BitmapsRight 1 := by
  obtain ⟨s, hrun⟩ : ∃ s, memInitFrames twoRegions (fun _ _ => 0) 1 = .ok s := ⟨_, rfl⟩
  refine ⟨s, hrun, (memInitFrames_right_iff twoRegions (fun _ _ => 0) 1 s hrun).mpr ?_⟩
  have hone : ∀ k, 0 < k → k < twoRegions.frames.pieces.length → (pieceAt twoRegions.frames.pieces k).usable = 1 := by
    rw [twoRegions_pieces]
    intro k hk hlt
    have hlt' : k < 2 := hlt
    obtain rfl : k = 1 := by omega
    rfl
  refine ⟨?_, ?_, ?_⟩
  · rintro k hk hlt ⟨n, hn, hlow, -⟩
    rw [hone k hk hlt] at hlow
    unfold pageSize pieceHeader at hlow
    omega
  · intro k hk hlt t ht
    rw [hone k hk hlt] at ht
    have hframes : framesFor 1 = 1 := rfl
    omega
  · intro k _ _ header _ i _ _ hbit
    have hclear : Words.get (fun _ => 0 : Words.Bitmap 32) i = false := BitVec.getLsbD_zero
    rw [hclear] at hbit
    cases hbit

/-- Where the bits of memory are set, the frame of the second piece is marked, which
nobody has taken. -/
theorem twoRegions_marked : ∃ s, memInitFrames twoRegions (fun _ _ => 0xFFFFFFFF) 1 = .ok s ∧
    s.frames.pieces.map Piece.shape = [(0x100000, 2), (0x103000, 1)] ∧ 1 + s.taken.length = 2 ∧
    Words.get (pieceAt s.frames.pieces 1).bitmap 0 = true ∧ ¬ s.BitmapsRight 1 := by
  obtain ⟨s, hrun, hshapes, htaken, hset⟩ : ∃ s, memInitFrames twoRegions (fun _ _ => 0xFFFFFFFF) 1 = .ok s ∧
      s.frames.pieces.map Piece.shape = [(0x100000, 2), (0x103000, 1)] ∧ 1 + s.taken.length = 2 ∧
      Words.get (pieceAt s.frames.pieces 1).bitmap 0 = true := ⟨_, rfl, rfl, rfl, rfl⟩
  refine ⟨s, hrun, hshapes, htaken, hset, ?_⟩
  intro hright
  have hlen : s.frames.pieces.length = 2 := by
    rw [← List.length_map Piece.shape, hshapes]
    rfl
  have husable : (pieceAt s.frames.pieces 1).usable = 1 := by
    have hat := @pieceAt_shape [⟨0x100000, 2, fun _ => 0⟩, ⟨0x103000, 1, fun _ => 0⟩] s.frames.pieces hshapes 1
    exact congrArg Prod.snd hat
  have hbefore : usableSum (s.frames.pieces.take 1) = 2 :=
    @take_shape [⟨0x100000, 2, fun _ => 0⟩, ⟨0x103000, 1, fun _ => 0⟩] s.frames.pieces hshapes 1
  have hreserved := (hright.marked 1 (by omega) 0 (by omega)).mp hset
  omega

end Aex.Mem
