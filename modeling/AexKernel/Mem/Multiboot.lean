import Mathlib.Data.List.MinMax
import AexKernel.Mem.InOrder

/- Finding memory (`mem_init_multiboot`).

   The scan goes through the memory map with one cursor, `frame_current`, which starts
   at the first available region at or above 1 MiB and moves a frame at a time. A frame
   behind the last one lengthens the current piece; a frame anywhere else, or behind a
   full `memfr_alloc_piece0`, starts a new piece, whose header goes into a frame that
   `kfalloc` hands out. So all frames lie on one grid (`MemoryMap.grid`), and those that
   are found are the points of the grid inside the regions (`MemoryMap.FrameAt`); where
   the regions are not in order, those that the cursor has not passed.

   What is proved here: whatever one step of the cursor keeps, the scan keeps
   (`scan_rule`), and the pieces are the runs of these frames (`scan_found`), where
   every piece but the first lacks the last frame of its run.

   The entries are those between `mmap_addr` and `mmap_addr + mmap_length`. `usable` is
   32 bits wide and wraps. The counters of frames are not cut: all frames are fewer than
   2^52, and those for headers and bitmaps come near 2^32 only with more memory than a
   processor can address. -/
namespace Aex.Mem

/-! ## The memory map -/

/-- `multiboot_memory_map_t`. -/
structure MmapEntry where
  addr : Nat
  len : Nat
  type : Nat
  deriving DecidableEq, Repr

def multibootMemoryAvailable : Nat := 1

/-- The entries that the scan does not pass over. -/
def MmapEntry.available (e : MmapEntry) : Prop := e.type = multibootMemoryAvailable ∧ 0x100000 ≤ e.addr

instance (e : MmapEntry) : Decidable e.available := inferInstanceAs (Decidable (_ ∧ _))

/-- The address is in the region. -/
def MmapEntry.covers (e : MmapEntry) (addr : Nat) : Prop := e.addr ≤ addr ∧ addr < e.addr + e.len

instance MmapEntry.decidableCovers (e : MmapEntry) (addr : Nat) : Decidable (e.covers addr) := inferInstanceAs (Decidable (_ ∧ _))

/-- A memory map, in any order. Its entries end at least a frame below the end of the
address space, so the cursor does not wrap. -/
structure MemoryMap where
  entries : List MmapEntry
  inSpace : ∀ e ∈ entries, e.addr + e.len + pageSize ≤ 2^64

/-! ## The scan -/

/-- `sizeof(memfr_alloc_piece_t)`. -/
def pieceHeader : Nat := 24

/-- `sizeof(memfr_alloc_piece0.bitmap) * 8`: the bitmap ends where its frame ends. -/
def rootBits : Nat := (pageSize - pieceHeader) / 4 * 4 * 8

/-- The locals and globals of the scan. The current piece is the last of the list.
`taken` are the frames of `kfalloc` so far, each with the position of the piece that it
was taken for; their number is `frame_pieces_amount`. -/
structure Scan where
  frames : Frames
  frameCurrent : Nat
  frameLast : Nat
  taken : List (Nat × Nat)

/-- `memfr_alloc_piece0` as it is linked in, its bitmap cleared. -/
def Scan.start : Scan :=
  { frames := { pieces := [⟨0, 0, fun _ => 0⟩], framesPossible := 0, framesUsed := 0 }
    frameCurrent := 0, frameLast := 0, taken := [] }

def Scan.piece (s : Scan) : Piece := pieceAt s.frames.pieces (s.frames.pieces.length - 1)

/-- `piece == &memfr_alloc_piece0`. -/
def Scan.onRoot (s : Scan) : Prop := s.frames.pieces.length = 1

instance (s : Scan) : Decidable s.onRoot := inferInstanceAs (Decidable (_ = _))

/-- The current piece is changed. -/
def Scan.change (s : Scan) (f : Piece → Piece) : Scan :=
  { s with frames := { s.frames with pieces := s.frames.pieces.modify (s.frames.pieces.length - 1) f } }

/-- `kfalloc(system_frame_amount + frame_pieces_amount++)`, for the piece at `k`. -/
def Scan.takeFrame (system k : Nat) (s : Scan) : Except Kpanic (Scan × Nat) := do
  let (frames, ptr) ← kfalloc s.frames (system + s.taken.length)
  return ({ s with frames := frames, taken := s.taken ++ [(k, ptr)] }, ptr)

/-- The frames taken for the piece at `k`: the first holds its header. -/
def framesOf (taken : List (Nat × Nat)) (k : Nat) : List Nat := (taken.filter (fun r => decide (r.1 = k))).map Prod.snd

def headerAt (taken : List (Nat × Nat)) (k : Nat) : Nat := (framesOf taken k).headD 0

/-- `memset(ptr, 0, MEM_FRAME_SIZE)`: what it does to a bitmap behind a header. -/
def clearFrame (header ptr : Nat) (bitmap : Words.Bitmap 32) : Words.Bitmap 32 := fun w =>
  if ptr ≤ header + pieceHeader + 4 * w ∧ header + pieceHeader + 4 * w < ptr + pageSize then 0 else bitmap w

/-- `len / CPU_PAGE_SIZE`. -/
def bitmapPages (usable : Nat) : Nat := (usable / 8 + (pageSize - 1)) / pageSize

/-- The loop that takes the frames of a bitmap behind that of the header. -/
def Scan.bitmapFrames (system : Nat) : Nat → Scan → Except Kpanic Scan
  | 0, s => .ok s
  | n + 1, s => do
    let k := s.frames.pieces.length - 1
    let (s, ptr) ← s.takeFrame system k
    bitmapFrames system n (s.change (fun p => { p with bitmap := clearFrame (headerAt s.taken k) ptr p.bitmap }))

/-- A new piece at `frame_current`. Its bitmap is what memory holds behind the header. -/
def Scan.newPiece (ram : Nat → Words.Bitmap 32) (system : Nat) (s : Scan) : Except Kpanic Scan := do
  let s ← (if s.onRoot then .ok s else s.bitmapFrames system (bitmapPages s.piece.usable - 1))
  let (s, ptr) ← s.takeFrame system s.frames.pieces.length
  return { s with frames := { s.frames with pieces := s.frames.pieces ++ [⟨s.frameCurrent, 0, ram ptr⟩] } }

/-- The first frame is where `memfr_alloc_piece0` starts. -/
def Scan.settle (s : Scan) : Scan :=
  if s.piece.start = 0 then
    { s.change (fun p => { p with start := s.frameCurrent }) with frameLast := s.frameCurrent }
  else s

/-- `piece->usable++`. -/
def Scan.lengthen (s : Scan) : Scan := s.change (fun p => { p with usable := u32 (p.usable + 1) })

/-- The frame at `frame_current` lengthens the current piece, or starts a new one. -/
def Scan.place (ram : Nat → Words.Bitmap 32) (system : Nat) (s : Scan) : Except Kpanic Scan :=
  if ¬ (s.onRoot ∧ s.piece.usable = rootBits) ∧ s.frameCurrent = s.frameLast then
    .ok s.lengthen
  else s.newPiece ram system

/-- What is done at one frame. -/
def Scan.visit (ram : Nat → Words.Bitmap 32) (system : Nat) (s : Scan) : Except Kpanic Scan := do
  let s ← s.settle.place ram system
  -- skip:
  let current := s.frameCurrent + pageSize
  return { s with
    frames := { s.frames with framesPossible := s.frames.framesPossible + 1 }
    frameCurrent := current, frameLast := current }

/-- The loop that moves the cursor to a region; the fuel is more than its rounds. -/
def Scan.advance (addr : Nat) : Nat → Scan → Scan
  | 0, s => s
  | fuel + 1, s =>
    if s.frameCurrent < addr then advance addr fuel { s with frameCurrent := s.frameCurrent + pageSize } else s

/-- The loop over the frames of a region; the fuel is more than its rounds. -/
def Scan.scanRegion (ram : Nat → Words.Bitmap 32) (system stop : Nat) : Nat → Scan → Except Kpanic Scan
  | 0, s => .ok s
  | fuel + 1, s =>
    if s.frameCurrent < stop then do
      let s ← s.visit ram system
      scanRegion ram system stop fuel s
    else .ok s

/-- What is done for one entry. -/
def Scan.scanEntry (ram : Nat → Words.Bitmap 32) (system : Nat) (s : Scan) (e : MmapEntry) : Except Kpanic Scan :=
  if e.available then
    let s := if s.frameCurrent = 0 then { s with frameCurrent := e.addr } else s
    let s := s.advance e.addr (e.addr - s.frameCurrent)
    s.scanRegion ram system (e.addr + e.len) (e.addr + e.len - s.frameCurrent)
  else .ok s

/-- The scan of `mem_init_multiboot`, and the frames of the last bitmap. `ram` is what
memory holds: the words behind a header at an address. -/
def memInitScan (map : MemoryMap) (ram : Nat → Words.Bitmap 32) (system : Nat) : Except Kpanic Scan := do
  let s ← map.entries.foldlM (fun s e => s.scanEntry ram system e) Scan.start
  if 0 < s.piece.usable ∧ ¬ s.onRoot then s.bitmapFrames system (bitmapPages s.piece.usable - 1) else .ok s

/-! ## The grid -/

/-- The regions that the scan looks at. -/
def MemoryMap.regions (map : MemoryMap) : List MmapEntry := map.entries.filter (fun e => decide e.available)

/-- Where the cursor starts. -/
def MemoryMap.origin (map : MemoryMap) : Nat := (map.regions.head?.map MmapEntry.addr).getD 0

/-- The addresses that the cursor runs through. -/
def MemoryMap.grid (map : MemoryMap) (n : Nat) : Nat := map.origin + n * pageSize

/-- One of the regions covers the address, and those before it end at or below it: the
cursor does not go back. -/
def foundIn : List MmapEntry → Nat → Prop
  | [], _ => False
  | e :: rest, addr => e.covers addr ∨ e.addr + e.len ≤ addr ∧ foundIn rest addr

instance decidableFoundIn : ∀ (es : List MmapEntry) (addr : Nat), Decidable (foundIn es addr)
  | [], _ => inferInstanceAs (Decidable False)
  | e :: rest, addr =>
    have : Decidable (foundIn rest addr) := decidableFoundIn rest addr
    inferInstanceAs (Decidable (e.covers addr ∨ e.addr + e.len ≤ addr ∧ foundIn rest addr))

/-- A frame is found at point `n` of the grid. -/
def MemoryMap.FrameAt (map : MemoryMap) (n : Nat) : Prop := foundIn map.regions (map.grid n)

instance (map : MemoryMap) (n : Nat) : Decidable (map.FrameAt n) := decidableFoundIn map.regions (map.grid n)

/-- No region goes beyond it, so neither does a point with a frame. -/
def MemoryMap.bound (map : MemoryMap) : Nat := (map.entries.map (fun e => e.addr + e.len)).foldr max 0

section Grid

variable {map : MemoryMap}

theorem MemoryMap.grid_succ (map : MemoryMap) (n : Nat) : map.grid (n + 1) = map.grid n + pageSize := by
  unfold MemoryMap.grid
  rw [Nat.succ_mul, Nat.add_assoc]

theorem MemoryMap.grid_le {n m : Nat} (h : n ≤ m) : map.grid n ≤ map.grid m :=
  Nat.add_le_add_left (Nat.mul_le_mul_right _ h) _

theorem MemoryMap.grid_inj {n m : Nat} (h : map.grid n = map.grid m) : n = m := by
  unfold MemoryMap.grid pageSize at h
  omega

theorem MemoryMap.mem_regions {e : MmapEntry} : e ∈ map.regions ↔ e ∈ map.entries ∧ e.available := by
  unfold MemoryMap.regions
  rw [List.mem_filter, decide_eq_true_iff]

theorem foundIn_covers {addr : Nat} : ∀ {es : List MmapEntry}, foundIn es addr → ∃ e ∈ es, e.covers addr := by
  intro es
  induction es with
  | nil => exact False.elim
  | cons e rest ih =>
    rintro (hcov | ⟨-, hrest⟩)
    · exact ⟨e, List.mem_cons_self, hcov⟩
    · obtain ⟨e', hmem, hcov⟩ := ih hrest
      exact ⟨e', List.mem_cons_of_mem e hmem, hcov⟩

theorem MemoryMap.origin_high {e : MmapEntry} (h : e ∈ map.regions) : 0x100000 ≤ map.origin := by
  unfold MemoryMap.origin
  cases hr : map.regions with
  | nil =>
    rw [hr] at h
    cases h
  | cons e' rest =>
    have hmem : e' ∈ map.regions := by
      rw [hr]
      exact List.mem_cons_self
    exact (MemoryMap.mem_regions.mp hmem).2.2

end Grid

/-! ## What the scan keeps -/

/-- A step leaves a state with `I`, or panics where `E`. -/
def Outcome (I : Scan → Prop) (E : Prop) (r : Except Kpanic Scan) : Prop := (∃ s, r = .ok s ∧ I s) ∨ (∃ p, r = .error p) ∧ E

section Rule

variable {map : MemoryMap} {ram : Nat → Words.Bitmap 32} {system : Nat}
variable {I : Nat → Scan → Prop} {E : Nat → Prop}

/-- What each move of the cursor keeps: `I m` holds before point `m` of the grid, and a
panic before it gives `E m`. -/
structure Sweeps (map : MemoryMap) (ram : Nat → Words.Bitmap 32) (system : Nat) (I : Nat → Scan → Prop) (E : Nat → Prop) :
    Prop where
  current : ∀ m s, I m s → s.frameCurrent = map.grid m
  jump : ∀ m m' s, m ≤ m' → (∀ n, m ≤ n → n < m' → ¬ map.FrameAt n) → I m s →
    I m' { s with frameCurrent := map.grid m' }
  visit : ∀ m s, map.FrameAt m → I m s → Outcome (I (m + 1)) (E (m + 1)) (s.visit ram system)
  later : ∀ m m', m ≤ m' → E m → E m'

theorem advance_grid (addr : Nat) : ∀ (fuel m : Nat) (s : Scan), s.frameCurrent = map.grid m → addr - map.grid m ≤ fuel →
    ∃ m', m ≤ m' ∧ s.advance addr fuel = { s with frameCurrent := map.grid m' } ∧ addr ≤ map.grid m' ∧
      ∀ n, m ≤ n → n < m' → map.grid n < addr := by
  intro fuel
  induction fuel with
  | zero =>
    intro m s hs hfuel
    refine ⟨m, Nat.le_refl m, ?_, by omega, fun n hn hn' => by omega⟩
    rw [← hs]
    rfl
  | succ fuel ih =>
    intro m s hs hfuel
    unfold Scan.advance
    by_cases hlt : s.frameCurrent < addr
    · rw [if_pos hlt]
      have hnext := map.grid_succ m
      have hpos : 0 < pageSize := by decide
      obtain ⟨m', hm', heq, haddr, hbefore⟩ := ih (m + 1) { s with frameCurrent := s.frameCurrent + pageSize }
        (by rw [hnext, ← hs]) (by omega)
      refine ⟨m', by omega, heq, haddr, ?_⟩
      intro n hn hn'
      by_cases hself : n = m
      · rw [hself, ← hs]
        exact hlt
      · exact hbefore n (by omega) hn'
    · rw [if_neg hlt]
      refine ⟨m, Nat.le_refl m, ?_, by omega, fun n hn hn' => by omega⟩
      rw [← hs]

theorem Sweeps.region (h : Sweeps map ram system I E) (stop : Nat) : ∀ (fuel m : Nat) (s : Scan), I m s →
    stop - map.grid m ≤ fuel → (∀ n, m ≤ n → map.grid n < stop → map.FrameAt n) →
    ∃ m', m ≤ m' ∧ stop ≤ map.grid m' ∧ Outcome (I m') (E m') (s.scanRegion ram system stop fuel) := by
  intro fuel
  induction fuel with
  | zero =>
    intro m s hs hfuel _
    exact ⟨m, Nat.le_refl m, by omega, .inl ⟨s, rfl, hs⟩⟩
  | succ fuel ih =>
    intro m s hs hfuel hframes
    have hcur := h.current m s hs
    unfold Scan.scanRegion
    by_cases hlt : s.frameCurrent < stop
    · rw [if_pos hlt]
      have hnext := map.grid_succ m
      have hpos : 0 < pageSize := by decide
      rcases h.visit m s (hframes m (Nat.le_refl m) (by omega)) hs with ⟨s', hvisit, hs'⟩ | ⟨⟨p, hvisit⟩, hE⟩
      · rw [hvisit]
        obtain ⟨m', hm', hstop, hout⟩ := ih (m + 1) s' hs' (by omega) (fun n hn => hframes n (by omega))
        exact ⟨m', by omega, hstop, hout⟩
      · rw [hvisit]
        -- after a panic nothing is visited; the frames behind change nothing about it
        refine ⟨m + 1 + stop, by omega, ?_, .inr ⟨⟨p, rfl⟩, h.later _ _ (by omega) hE⟩⟩
        unfold MemoryMap.grid pageSize
        omega
    · rw [if_neg hlt]
      exact ⟨m, Nat.le_refl m, by omega, .inl ⟨s, rfl, hs⟩⟩

theorem MemoryMap.frames_end (map : MemoryMap) : ∀ n, map.bound ≤ n → ¬ map.FrameAt n := by
  intro n hn hf
  obtain ⟨e, he, -, hlt⟩ := foundIn_covers hf
  have hend : e.addr + e.len ≤ map.bound :=
    List.le_max_of_le' 0 (List.mem_map.mpr ⟨e, (MemoryMap.mem_regions.mp he).1, rfl⟩) (Nat.le_refl _)
  unfold MemoryMap.grid pageSize at hlt
  omega

theorem Sweeps.entries (h : Sweeps map ram system I E) (hgrid : 0 < map.grid 0) : ∀ (es : List MmapEntry) (m : Nat) (s : Scan),
    I m s → (∀ n, m ≤ n → (map.FrameAt n ↔ foundIn (es.filter (fun e => decide e.available)) (map.grid n))) →
    ∃ m', m ≤ m' ∧ (∀ n, m' ≤ n → ¬ map.FrameAt n) ∧
      Outcome (I m') (E m') (es.foldlM (fun s e => s.scanEntry ram system e) s) := by
  intro es
  induction es with
  | nil =>
    intro m s hs hframes
    exact ⟨m, Nat.le_refl m, fun n hn => (hframes n hn).mp, .inl ⟨s, rfl, hs⟩⟩
  | cons e es ih =>
    intro m s hs hframes
    rw [List.foldlM_cons]
    by_cases hav : e.available
    swap
    · -- an entry that is passed over
      have hskip : s.scanEntry ram system e = .ok s := if_neg hav
      rw [hskip]
      rw [List.filter_cons, if_neg (by rw [decide_eq_true_iff]; exact hav)] at hframes
      exact ih m s hs hframes
    · have hcur := h.current m s hs
      rw [List.filter_cons, if_pos (decide_eq_true hav)] at hframes
      have hlow : map.grid 0 ≤ map.grid m := MemoryMap.grid_le (Nat.zero_le m)
      obtain ⟨m₁, hm₁, hadv, haddr, hbefore⟩ := @advance_grid map e.addr (e.addr - s.frameCurrent) m s hcur
        (by rw [hcur])
      -- nothing is found on the way to the region
      have hjump := h.jump m m₁ s hm₁ (by
        intro n hn hn' hf
        have hlt := hbefore n hn hn'
        rcases (hframes n hn).mp hf with ⟨hge, -⟩ | ⟨hend, -⟩
        · omega
        · omega) hs
      have hentry : s.scanEntry ram system e =
          Scan.scanRegion ram system (e.addr + e.len) (e.addr + e.len - map.grid m₁) { s with frameCurrent := map.grid m₁ } := by
        unfold Scan.scanEntry
        rw [if_pos hav, if_neg (by omega)]
        simp only [hadv]
      rw [hentry]
      obtain ⟨m₂, hm₂, hstop, hout⟩ := h.region (e.addr + e.len) _ m₁ _ hjump (Nat.le_refl _) (by
        intro n hn hlt
        have hge : map.grid m₁ ≤ map.grid n := MemoryMap.grid_le hn
        exact (hframes n (by omega)).mpr (.inl ⟨by omega, hlt⟩))
      rcases hout with ⟨s₂, hrun, hs₂⟩ | ⟨⟨p, hrun⟩, hE⟩
      · rw [hrun]
        obtain ⟨m', hm', hnone, hfinal⟩ := ih m₂ s₂ hs₂ (by
          intro n hn
          rw [hframes n (by omega)]
          have hge : map.grid m₂ ≤ map.grid n := MemoryMap.grid_le hn
          constructor
          · rintro (⟨-, hlt⟩ | ⟨-, hrest⟩)
            · omega
            · exact hrest
          · exact fun hrest => .inr ⟨by omega, hrest⟩)
        exact ⟨m', by omega, hnone, hfinal⟩
      · rw [hrun]
        exact ⟨m₂ + map.bound, by omega, fun n hn => map.frames_end n (by omega), .inr ⟨⟨p, rfl⟩, h.later _ _ (by omega) hE⟩⟩

theorem scan_none (hnone : map.regions = []) :
    map.entries.foldlM (fun s e => s.scanEntry ram system e) Scan.start = .ok Scan.start := by
  have hskip : ∀ e ∈ map.entries, ¬ e.available := by
    intro e he hav
    have hmem : e ∈ map.regions := MemoryMap.mem_regions.mpr ⟨he, hav⟩
    rw [hnone] at hmem
    cases hmem
  generalize map.entries = es at hskip
  induction es with
  | nil => rfl
  | cons e es ih =>
    have hentry : Scan.start.scanEntry ram system e = .ok Scan.start := if_neg (hskip e List.mem_cons_self)
    rw [List.foldlM_cons, hentry]
    exact ih (fun e' he' => hskip e' (List.mem_cons_of_mem e he'))

theorem scan_first (hsome : map.regions ≠ []) :
    map.entries.foldlM (fun s e => s.scanEntry ram system e) Scan.start =
      map.entries.foldlM (fun s e => s.scanEntry ram system e) { Scan.start with frameCurrent := map.origin } := by
  have hhigh : 0 < map.origin := by
    obtain ⟨e, he⟩ := List.exists_mem_of_ne_nil _ hsome
    have := MemoryMap.origin_high he
    omega
  have horigin : map.origin = ((map.entries.filter (fun e => decide e.available)).head?.map MmapEntry.addr).getD 0 := rfl
  have hsome' : map.entries.filter (fun e => decide e.available) ≠ [] := hsome
  generalize map.origin = origin at *
  generalize map.entries = es at *
  clear hsome
  induction es with
  | nil => exact absurd rfl hsome'
  | cons e es ih =>
    rw [List.foldlM_cons, List.foldlM_cons]
    by_cases hav : e.available
    · have hdec : decide e.available = true := decide_eq_true hav
      rw [List.filter_cons, if_pos hdec] at horigin
      have haddr : origin = e.addr := horigin
      have hentry : Scan.start.scanEntry ram system e =
          Scan.scanEntry ram system { Scan.start with frameCurrent := origin } e := by
        unfold Scan.scanEntry
        rw [if_pos hav, if_pos hav, if_pos (show Scan.start.frameCurrent = 0 from rfl), if_neg (by
          show ¬ origin = 0
          omega), haddr]
      rw [hentry]
    · have hdec : ¬ decide e.available = true := by
        rw [decide_eq_true_iff]
        exact hav
      rw [List.filter_cons, if_neg hdec] at horigin hsome'
      have hentry : ∀ s : Scan, s.scanEntry ram system e = .ok s := fun s => if_neg hav
      rw [hentry, hentry]
      exact ih hsome' horigin

theorem scan_rule (h : Sweeps map ram system I E) (hsome : map.regions ≠ [])
    (hstart : I 0 { Scan.start with frameCurrent := map.origin }) : ∃ m, (∀ n, m ≤ n → ¬ map.FrameAt n) ∧
    Outcome (I m) (E m) (map.entries.foldlM (fun s e => s.scanEntry ram system e) Scan.start) := by
  have hgrid : 0 < map.grid 0 := by
    obtain ⟨e, he⟩ := List.exists_mem_of_ne_nil _ hsome
    have := MemoryMap.origin_high he
    unfold MemoryMap.grid
    omega
  rw [scan_first hsome]
  obtain ⟨m, -, hnone, hout⟩ := h.entries hgrid map.entries 0 _ hstart (fun n _ => Iff.rfl)
  exact ⟨m, hnone, hout⟩

end Rule

/-! ## The pieces that are found -/

/-- The runs of frames below a point of the grid, the last run first: where a run
starts and how long it is. A run that fills `memfr_alloc_piece0` ends there. -/
def addFrame (n : Nat) : List (Nat × Nat) → List (Nat × Nat)
  | [] => [(n, 1)]
  | (first, count) :: earlier =>
    if first + count = n ∧ ¬ (earlier = [] ∧ count = rootBits) then (first, count + 1) :: earlier
    else (n, 1) :: (first, count) :: earlier

def MemoryMap.runsBelow (map : MemoryMap) : Nat → List (Nat × Nat)
  | 0 => []
  | m + 1 => if map.FrameAt m then addFrame m (map.runsBelow m) else map.runsBelow m

/-- All runs. -/
def MemoryMap.runs (map : MemoryMap) : List (Nat × Nat) := map.runsBelow map.bound

/-- `start` and `usable` of the pieces for some runs: every piece but the first lacks
one frame of its run. -/
def MemoryMap.layout (map : MemoryMap) : List (Nat × Nat) → List (Nat × Nat)
  | [] => [(0, 0)]
  | [run] => [(map.grid run.1, run.2)]
  | run :: earlier => map.layout earlier ++ [(map.grid run.1, u32 (run.2 - 1))]

/-- How many frames some runs have. -/
def runFrames (runs : List (Nat × Nat)) : Nat := (runs.map Prod.snd).sum

section Found

variable {map : MemoryMap} {ram : Nat → Words.Bitmap 32} {system m : Nat} {s s' : Scan}

/-- The run is followed by point `n`, and may grow. -/
def Grows (n : Nat) (run : Nat × Nat) (earlier : List (Nat × Nat)) : Prop :=
  run.1 + run.2 = n ∧ ¬ (earlier = [] ∧ run.2 = rootBits)

theorem addFrame_grow {n : Nat} {run : Nat × Nat} {earlier : List (Nat × Nat)} (h : Grows n run earlier) :
    addFrame n (run :: earlier) = (run.1, run.2 + 1) :: earlier := if_pos h

theorem addFrame_new {n : Nat} {run : Nat × Nat} {earlier : List (Nat × Nat)} (h : ¬ Grows n run earlier) :
    addFrame n (run :: earlier) = (n, 1) :: run :: earlier := if_neg h

/-- The runs below a point, as the steps of the cursor need them: none is empty, and
the first is not longer than the root's bitmap. -/
structure RunsOk (runs : List (Nat × Nat)) : Prop where
  pos : ∀ run ∈ runs, 0 < run.2
  root : ∀ run, runs = [run] → run.2 ≤ rootBits

theorem RunsOk.add {runs : List (Nat × Nat)} (h : RunsOk runs) (n : Nat) : RunsOk (addFrame n runs) := by
  cases runs with
  | nil =>
    refine ⟨?_, ?_⟩
    · intro run hrun
      rw [List.mem_singleton.mp hrun]
      exact Nat.one_pos
    · intro run hrun
      have heq : (n, 1) = run := List.head_eq_of_cons_eq hrun
      have hone : 1 ≤ rootBits := by decide
      rw [← heq]
      exact hone
  | cons run earlier =>
    by_cases hgrow : Grows n run earlier
    · rw [addFrame_grow hgrow]
      refine ⟨?_, ?_⟩
      · intro run' hrun
        rcases List.mem_cons.mp hrun with rfl | hmem
        · exact Nat.succ_pos run.2
        · exact h.pos run' (List.mem_cons_of_mem _ hmem)
      · intro run' hrun
        obtain ⟨rfl, hnil⟩ := List.cons.inj hrun
        have hle := h.root run (by rw [hnil])
        have hne : run.2 ≠ rootBits := fun heq => hgrow.2 ⟨hnil, heq⟩
        exact Nat.lt_of_le_of_ne hle hne
    · rw [addFrame_new hgrow]
      refine ⟨?_, ?_⟩
      · intro run' hrun
        rcases List.mem_cons.mp hrun with rfl | hmem
        · exact Nat.one_pos
        · exact h.pos run' hmem
      · intro run' hrun
        cases (List.cons.inj hrun).2

theorem runsBelow_ok (map : MemoryMap) : ∀ m, RunsOk (map.runsBelow m) := by
  intro m
  induction m with
  | zero =>
    refine ⟨?_, ?_⟩
    · intro run hrun
      cases hrun
    · intro run hrun
      cases hrun
  | succ m ih =>
    unfold MemoryMap.runsBelow
    split
    · exact ih.add m
    · exact ih

theorem runsBelow_found (h : map.FrameAt m) : map.runsBelow (m + 1) = addFrame m (map.runsBelow m) := if_pos h

theorem runsBelow_jump {m' : Nat} (hm : m ≤ m') (hnone : ∀ n, m ≤ n → n < m' → ¬ map.FrameAt n) :
    map.runsBelow m' = map.runsBelow m := by
  induction m', hm using Nat.le_induction with
  | base => rfl
  | succ k hk ih =>
    have hstep : map.runsBelow (k + 1) = map.runsBelow k := if_neg (hnone k hk (Nat.lt_succ_self k))
    rw [hstep]
    exact ih (fun n hn hn' => hnone n hn (by omega))

theorem addFrame_length (n : Nat) (runs : List (Nat × Nat)) : runs.length ≤ (addFrame n runs).length := by
  cases runs with
  | nil => exact Nat.zero_le _
  | cons run earlier =>
    by_cases hgrow : Grows n run earlier
    · rw [addFrame_grow hgrow]
      exact Nat.le_refl _
    · rw [addFrame_new hgrow]
      exact Nat.le_succ _

theorem runsBelow_length {m' : Nat} (hm : m ≤ m') : (map.runsBelow m).length ≤ (map.runsBelow m').length := by
  induction m', hm using Nat.le_induction with
  | base => exact Nat.le_refl _
  | succ k hk ih =>
    apply Nat.le_trans ih
    by_cases hf : map.FrameAt k
    · rw [runsBelow_found hf]
      exact addFrame_length k _
    · have hsame : map.runsBelow (k + 1) = map.runsBelow k := if_neg hf
      rw [hsame]

theorem runFrames_add (n : Nat) (runs : List (Nat × Nat)) : runFrames (addFrame n runs) = runFrames runs + 1 := by
  cases runs with
  | nil => rfl
  | cons run earlier =>
    unfold runFrames
    by_cases hgrow : Grows n run earlier
    · rw [addFrame_grow hgrow, List.map_cons, List.map_cons, List.sum_cons, List.sum_cons]
      omega
    · rw [addFrame_new hgrow, List.map_cons, List.sum_cons, Nat.add_comm]

theorem layout_cons (map : MemoryMap) (run : Nat × Nat) {earlier : List (Nat × Nat)} (h : earlier ≠ []) :
    map.layout (run :: earlier) = map.layout earlier ++ [(map.grid run.1, u32 (run.2 - 1))] := by
  cases earlier with
  | nil => exact absurd rfl h
  | cons run' rest => rfl

/-- The current piece of some runs, and the pieces before it. -/
def MemoryMap.topShape (map : MemoryMap) (run : Nat × Nat) (earlier : List (Nat × Nat)) : Nat × Nat :=
  (map.grid run.1, if earlier = [] then run.2 else u32 (run.2 - 1))

def MemoryMap.layoutBelow (map : MemoryMap) (earlier : List (Nat × Nat)) : List (Nat × Nat) :=
  if earlier = [] then [] else map.layout earlier

theorem layout_top (map : MemoryMap) (run : Nat × Nat) (earlier : List (Nat × Nat)) :
    map.layout (run :: earlier) = map.layoutBelow earlier ++ [map.topShape run earlier] := by
  unfold MemoryMap.layoutBelow MemoryMap.topShape
  cases earlier with
  | nil => rfl
  | cons run' rest => rfl

theorem layout_length (map : MemoryMap) : ∀ {runs : List (Nat × Nat)}, runs ≠ [] → (map.layout runs).length = runs.length := by
  intro runs
  induction runs with
  | nil => intro h; exact absurd rfl h
  | cons run earlier ih =>
    intro _
    cases earlier with
    | nil => rfl
    | cons run' rest =>
      rw [layout_cons map run (List.cons_ne_nil _ _), List.length_append, ih (List.cons_ne_nil _ _)]
      rfl

theorem topShape_full (map : MemoryMap) (run : Nat × Nat) (earlier : List (Nat × Nat)) :
    (map.layoutBelow earlier = [] ∧ (map.topShape run earlier).2 = rootBits) ↔ (earlier = [] ∧ run.2 = rootBits) := by
  unfold MemoryMap.layoutBelow MemoryMap.topShape
  cases earlier with
  | nil => simp
  | cons run' rest =>
    have hne : map.layout (run' :: rest) ≠ [] := by
      rw [← List.length_pos_iff, layout_length map (List.cons_ne_nil _ _)]
      exact Nat.succ_pos _
    simp [hne]

theorem topShape_grow {run : Nat × Nat} {earlier : List (Nat × Nat)} (hpos : 0 < run.2)
    (hroot : earlier = [] → run.2 ≤ rootBits) (hgrow : Grows m run earlier) :
    map.topShape (run.1, run.2 + 1) earlier = ((map.topShape run earlier).1, u32 ((map.topShape run earlier).2 + 1)) := by
  unfold MemoryMap.topShape
  by_cases hnil : earlier = []
  · have hne : run.2 ≠ rootBits := fun heq => hgrow.2 ⟨hnil, heq⟩
    have hle := hroot hnil
    have hsmall : rootBits < 2^32 := by decide
    rw [if_pos hnil, if_pos hnil, u32_eq (by omega)]
  · rw [if_neg hnil, if_neg hnil]
    have hwrap : u32 (run.2 + 1 - 1) = u32 (u32 (run.2 - 1) + 1) := by
      unfold u32
      omega
    rw [hwrap]

/-! ## One frame -/

/-- `start` and `usable` of the pieces. -/
def Scan.shapes (s : Scan) : List (Nat × Nat) := s.frames.pieces.map Piece.shape

/-- Only bitmaps, `frames_used` and the frames taken may differ. -/
structure Scan.Alike (s s' : Scan) : Prop where
  shapes : s'.shapes = s.shapes
  possible : s'.frames.framesPossible = s.frames.framesPossible
  current : s'.frameCurrent = s.frameCurrent
  last : s'.frameLast = s.frameLast

theorem Scan.Alike.trans {s'' : Scan} (h : s.Alike s') (h' : s'.Alike s'') : s.Alike s'' :=
  ⟨h'.shapes.trans h.shapes, h'.possible.trans h.possible, h'.current.trans h.current, h'.last.trans h.last⟩

theorem modify_last {α : Type} (f : α → α) (a : α) : ∀ pre : List α, (pre ++ [a]).modify ((pre ++ [a]).length - 1) f = pre ++ [f a] := by
  intro pre
  induction pre with
  | nil => rfl
  | cons b pre ih =>
    have hlen : (b :: pre ++ [a]).length - 1 = (pre ++ [a]).length - 1 + 1 := by
      simp only [List.cons_append, List.length_cons, List.length_append, List.length_nil]
      omega
    rw [hlen, List.cons_append, List.modify_succ_cons, ih]
    rfl

theorem Scan.split {before : List (Nat × Nat)} {shape : Nat × Nat} (h : s.shapes = before ++ [shape]) :
    ∃ pre p, s.frames.pieces = pre ++ [p] ∧ pre.map Piece.shape = before ∧ p.shape = shape ∧ s.piece = p := by
  obtain ⟨pre, l, hpieces, hpre, hl⟩ := List.map_eq_append_iff.mp h
  obtain ⟨p, rfl, hp⟩ := List.map_eq_singleton_iff.mp hl
  refine ⟨pre, p, hpieces, hpre, hp, ?_⟩
  unfold Scan.piece
  rw [hpieces, List.length_append, List.length_singleton, Nat.add_sub_cancel]
  simp [pieceAt]

theorem Scan.change_pieces {pre : List Piece} {p : Piece} (h : s.frames.pieces = pre ++ [p]) (f : Piece → Piece) :
    (s.change f).frames.pieces = pre ++ [f p] := by
  show s.frames.pieces.modify (s.frames.pieces.length - 1) f = _
  rw [h]
  exact modify_last f p pre

theorem Scan.change_alike (s : Scan) {f : Piece → Piece} (hf : ∀ p, (f p).shape = p.shape) : s.Alike (s.change f) := by
  refine ⟨?_, rfl, rfl, rfl⟩
  exact shape_modify s.frames.pieces _ hf

theorem takeFrame_alike {k ptr : Nat} (hrun : s.takeFrame system k = .ok (s', ptr)) : s.Alike s' := by
  obtain ⟨⟨fr, addr⟩, halloc, hrun⟩ := bind_ok hrun
  cases hrun
  obtain ⟨-, hshape, hpossible⟩ := memfrAllocInternal_remarked halloc
  exact ⟨hshape, hpossible, rfl, rfl⟩

theorem bitmapFrames_alike : ∀ {n : Nat} {s s' : Scan}, s.bitmapFrames system n = .ok s' → s.Alike s' := by
  intro n
  induction n with
  | zero =>
    intro s s' hrun
    cases hrun
    exact ⟨rfl, rfl, rfl, rfl⟩
  | succ n ih =>
    intro s s' hrun
    obtain ⟨⟨s₁, ptr⟩, htake, hrun⟩ := bind_ok hrun
    have hclear := s₁.change_alike (fun p => show
      Piece.shape { p with bitmap := clearFrame (headerAt s₁.taken (s.frames.pieces.length - 1)) ptr p.bitmap } = p.shape
      from rfl)
    exact (takeFrame_alike htake).trans (hclear.trans (ih hrun))

theorem newPiece_found (hrun : s.newPiece ram system = .ok s') :
    s'.shapes = s.shapes ++ [(s.frameCurrent, 0)] ∧ s'.frames.framesPossible = s.frames.framesPossible ∧
      s'.frameCurrent = s.frameCurrent := by
  obtain ⟨s₁, hfirst, hrun⟩ := bind_ok hrun
  obtain ⟨⟨s₂, ptr⟩, htake, hrun⟩ := bind_ok hrun
  cases hrun
  have h₁ : s.Alike s₁ := by
    split at hfirst
    · cases hfirst
      exact ⟨rfl, rfl, rfl, rfl⟩
    · exact bitmapFrames_alike hfirst
  have h₂ := h₁.trans (takeFrame_alike htake)
  refine ⟨?_, h₂.possible, h₂.current⟩
  show (s₂.frames.pieces ++ [_]).map Piece.shape = _
  rw [List.map_append, ← h₂.shapes, ← h₂.current]
  rfl

/-- Before point `m` of the grid the pieces are laid out as the runs below it, all of
their frames are counted, and the cursor knows where the last run ends. -/
structure Found (map : MemoryMap) (m : Nat) (s : Scan) : Prop where
  current : s.frameCurrent = map.grid m
  shapes : s.shapes = map.layout (map.runsBelow m)
  possible : s.frames.framesPossible = runFrames (map.runsBelow m)
  last : ∀ run earlier, map.runsBelow m = run :: earlier → s.frameLast = map.grid (run.1 + run.2)

theorem addFrame_ends {n : Nat} {runs : List (Nat × Nat)} {run : Nat × Nat} {earlier : List (Nat × Nat)}
    (h : addFrame n runs = run :: earlier) : run.1 + run.2 = n + 1 := by
  cases runs with
  | nil =>
    have heq : (n, 1) = run := List.head_eq_of_cons_eq h
    rw [← heq]
  | cons run' rest =>
    by_cases hgrow : Grows n run' rest
    · rw [addFrame_grow hgrow] at h
      have heq := List.head_eq_of_cons_eq h
      rw [← heq, ← hgrow.1]
      exact (Nat.add_assoc _ _ _).symm
    · rw [addFrame_new hgrow] at h
      have heq := List.head_eq_of_cons_eq h
      rw [← heq]

section Place

variable {before : List (Nat × Nat)} {shape : Nat × Nat}

theorem Scan.onRoot_iff (h : s.shapes = before ++ [shape]) : s.onRoot ↔ before = [] := by
  have hlen : s.frames.pieces.length = before.length + 1 := by
    have hmap := congrArg List.length h
    rw [List.length_append, List.length_singleton] at hmap
    exact (List.length_map _).symm.trans hmap
  unfold Scan.onRoot
  rw [hlen, ← List.length_eq_zero_iff]
  omega

theorem Scan.piece_shape (h : s.shapes = before ++ [shape]) : s.piece.shape = shape := by
  obtain ⟨pre, p, -, -, hp, hpiece⟩ := Scan.split h
  rw [hpiece]
  exact hp

theorem Scan.change_shapes (h : s.shapes = before ++ [shape]) {f : Piece → Piece} {shape' : Nat × Nat}
    (hf : ∀ p, p.shape = shape → (f p).shape = shape') : (s.change f).shapes = before ++ [shape'] := by
  obtain ⟨pre, p, hpieces, hpre, hp, -⟩ := Scan.split h
  unfold Scan.shapes
  rw [Scan.change_pieces hpieces, List.map_append, hpre, List.map_singleton, hf p hp]

theorem place_grow (h : s.shapes = before ++ [shape]) (hroom : ¬ (before = [] ∧ shape.2 = rootBits))
    (hlast : s.frameCurrent = s.frameLast) : s.place ram system = .ok s.lengthen ∧
    s.lengthen.shapes = before ++ [(shape.1, u32 (shape.2 + 1))] := by
  have husable : s.piece.usable = shape.2 := congrArg Prod.snd (Scan.piece_shape h)
  refine ⟨?_, ?_⟩
  · apply if_pos
    rw [Scan.onRoot_iff h, husable]
    exact ⟨hroom, hlast⟩
  · apply Scan.change_shapes h
    rintro p rfl
    rfl

/-- A frame that starts a new piece, if the frame for its header can be had. -/
theorem place_new (h : s.shapes = before ++ [shape])
    (hnew : ¬ (¬ (before = [] ∧ shape.2 = rootBits) ∧ s.frameCurrent = s.frameLast)) :
    s.place ram system = s.newPiece ram system := by
  have husable : s.piece.usable = shape.2 := congrArg Prod.snd (Scan.piece_shape h)
  apply if_neg
  rw [Scan.onRoot_iff h, husable]
  exact hnew

end Place

theorem visit_placed (hf : map.FrameAt m) (hcurrent : s.frameCurrent = map.grid m)
    (hpossible : s.frames.framesPossible = runFrames (map.runsBelow m)) (hsettle : s.settle.place ram system = .ok s')
    (hshapes : s'.shapes = map.layout (map.runsBelow (m + 1))) (hsame : s'.frames.framesPossible = s.frames.framesPossible)
    (hcur : s'.frameCurrent = s.frameCurrent) : ∃ s'', s.visit ram system = .ok s'' ∧ Found map (m + 1) s'' := by
  have hnext := map.grid_succ m
  unfold Scan.visit
  rw [hsettle]
  refine ⟨_, rfl, ?_, hshapes, ?_, ?_⟩
  · show s'.frameCurrent + pageSize = _
    rw [hnext, hcur, hcurrent]
  · show s'.frames.framesPossible + 1 = _
    rw [hsame, hpossible, runsBelow_found hf, runFrames_add]
  · intro run earlier hruns
    rw [runsBelow_found hf] at hruns
    show s'.frameCurrent + pageSize = _
    rw [addFrame_ends hruns, hnext, hcur, hcurrent]

theorem place_cases (hm : Found map m s) (hf : map.FrameAt m) :
    (s.settle.place ram system = .ok s.settle.lengthen ∧ (map.runsBelow (m + 1)).tail = (map.runsBelow m).tail ∧
      s.settle.lengthen.shapes = map.layout (map.runsBelow (m + 1))) ∨
    (s.settle = s ∧ s.settle.place ram system = s.newPiece ram system ∧ map.runsBelow m ≠ [] ∧
      map.runsBelow (m + 1) = (m, 1) :: map.runsBelow m) := by
  have hhigh : 0x100000 ≤ map.origin := by
    obtain ⟨e, he, -⟩ := foundIn_covers hf
    exact MemoryMap.origin_high he
  have hshapes := hm.shapes
  have hruns' := runsBelow_found hf
  cases hruns : map.runsBelow m with
  | nil =>
    -- the first frame of all
    left
    rw [hruns] at hshapes hruns'
    have hone : s.shapes = [] ++ [(0, 0)] := hshapes
    have hstart : s.piece.start = 0 := congrArg Prod.fst (Scan.piece_shape hone)
    have hsettle : s.settle =
        { s.change (fun p => { p with start := s.frameCurrent }) with frameLast := s.frameCurrent } := if_pos hstart
    have hset : s.settle.shapes = [] ++ [(map.grid m, 0)] := by
      rw [hsettle, ← hm.current]
      apply Scan.change_shapes hone
      intro p hp
      have husable : p.usable = 0 := congrArg Prod.snd hp
      show (s.frameCurrent, p.usable) = _
      rw [husable]
    have hroom : ¬ (([] : List (Nat × Nat)) = [] ∧ (map.grid m, 0).2 = rootBits) := by
      have hzero : 0 ≠ rootBits := by decide
      exact fun hfull => hzero hfull.2
    have hbehind : s.settle.frameCurrent = s.settle.frameLast := by
      rw [hsettle]
      rfl
    obtain ⟨hplace, hs'⟩ := @place_grow ram system s.settle [] (map.grid m, 0) hset hroom hbehind
    refine ⟨hplace, ?_, ?_⟩
    · rw [hruns']
      rfl
    · rw [hs', hruns']
      rfl
  | cons run earlier =>
    rw [hruns] at hshapes hruns'
    have hlast := hm.last run earlier hruns
    have hok := runsBelow_ok map m
    rw [hruns] at hok
    have hpos := hok.pos run List.mem_cons_self
    have hsplit := hshapes.trans (layout_top map run earlier)
    have hsettle : s.settle = s := by
      apply if_neg
      have hfst : s.piece.start = map.grid run.1 := congrArg Prod.fst (Scan.piece_shape hsplit)
      rw [hfst]
      unfold MemoryMap.grid
      omega
    -- the cursor is behind the last frame just when the run goes on
    have hgoes : (¬ (map.layoutBelow earlier = [] ∧ (map.topShape run earlier).2 = rootBits) ∧ s.frameCurrent = s.frameLast) ↔
        Grows m run earlier := by
      rw [topShape_full, hm.current, hlast, and_comm]
      unfold Grows
      constructor
      · rintro ⟨hend, hroom⟩
        exact ⟨(MemoryMap.grid_inj hend).symm, hroom⟩
      · rintro ⟨rfl, hroom⟩
        exact ⟨rfl, hroom⟩
    rw [hsettle]
    by_cases hgrow : Grows m run earlier
    · left
      rw [addFrame_grow hgrow] at hruns'
      obtain ⟨hroom, hbehind⟩ := hgoes.mpr hgrow
      obtain ⟨hplace, hs'⟩ := @place_grow ram system s _ _ hsplit hroom hbehind
      refine ⟨hplace, ?_, ?_⟩
      · rw [hruns']
        rfl
      · rw [hs', hruns', layout_top, topShape_grow hpos (fun hnil => hok.root run (by rw [hnil])) hgrow]
    · right
      rw [addFrame_new hgrow] at hruns'
      exact ⟨rfl, place_new hsplit (fun h => hgrow (hgoes.mp h)), List.cons_ne_nil _ _, hruns'⟩

theorem settle_same (s : Scan) : s.settle.frames.framesPossible = s.frames.framesPossible ∧
    s.settle.frameCurrent = s.frameCurrent ∧ s.settle.taken = s.taken := by
  unfold Scan.settle
  split
  · exact ⟨rfl, rfl, rfl⟩
  · exact ⟨rfl, rfl, rfl⟩

theorem visit_found (hm : Found map m s) (hf : map.FrameAt m) :
    Outcome (Found map (m + 1)) (2 ≤ (map.runsBelow (m + 1)).length) (s.visit ram system) := by
  obtain ⟨hpossible, hcur, -⟩ := settle_same s
  rcases @place_cases map ram system m s hm hf with ⟨hplace, -, hshapes⟩ | ⟨-, hplace, hne, hruns⟩
  · exact .inl (visit_placed hf hm.current hm.possible hplace hshapes hpossible hcur)
  · cases hnew : s.newPiece ram system with
    | error p =>
      right
      refine ⟨⟨p, ?_⟩, ?_⟩
      · unfold Scan.visit
        rw [hplace, hnew]
        rfl
      · have hpos := List.length_pos_iff.mpr hne
        rw [hruns, List.length_cons]
        omega
    | ok s' =>
      obtain ⟨hs', hpossible', hcur'⟩ := newPiece_found hnew
      refine .inl (visit_placed hf hm.current hm.possible (hplace.trans hnew) ?_ hpossible' hcur')
      rw [hs', hm.shapes, hruns, layout_cons map (m, 1) hne, hm.current]
      rfl

theorem found_sweeps (map : MemoryMap) (ram : Nat → Words.Bitmap 32) (system : Nat) :
    Sweeps map ram system (Found map) (fun m => 2 ≤ (map.runsBelow m).length) where
  current _ _ hm := hm.current
  jump m m' s hle hnone hm := by
    have hruns := runsBelow_jump hle hnone
    refine ⟨rfl, ?_, ?_, ?_⟩
    · rw [hruns]
      exact hm.shapes
    · rw [hruns]
      exact hm.possible
    · rw [hruns]
      exact hm.last
  visit _ _ hf hm := visit_found hm hf
  later _ _ hle htwo := Nat.le_trans htwo (runsBelow_length hle)

theorem found_start (map : MemoryMap) : Found map 0 { Scan.start with frameCurrent := map.origin } := by
  refine ⟨?_, rfl, rfl, fun run earlier h => by cases h⟩
  unfold MemoryMap.grid
  rw [Nat.zero_mul, Nat.add_zero]

theorem runsBelow_end (h : ∀ n, m ≤ n → ¬ map.FrameAt n) : map.runsBelow m = map.runs := by
  unfold MemoryMap.runs
  rcases Nat.le_total m map.bound with hle | hle
  · exact (runsBelow_jump hle (fun n hn _ => h n hn)).symm
  · exact runsBelow_jump hle (fun n hn _ => map.frames_end n hn)

theorem finish_found (hshapes : s.shapes = map.layout map.runs) (hpossible : s.frames.framesPossible = runFrames map.runs) :
    Outcome (fun s => s.shapes = map.layout map.runs ∧ s.frames.framesPossible = runFrames map.runs)
      (2 ≤ map.runs.length)
      (if 0 < s.piece.usable ∧ ¬ s.onRoot then s.bitmapFrames system (bitmapPages s.piece.usable - 1) else .ok s) := by
  by_cases hlast : 0 < s.piece.usable ∧ ¬ s.onRoot
  · rw [if_pos hlast]
    cases hrun : s.bitmapFrames system (bitmapPages s.piece.usable - 1) with
    | ok s' =>
      have halike := bitmapFrames_alike hrun
      exact .inl ⟨s', rfl, halike.shapes.trans hshapes, halike.possible.trans hpossible⟩
    | error p =>
      refine .inr ⟨⟨p, rfl⟩, ?_⟩
      -- a piece behind the root comes from a second run
      have hlen : s.frames.pieces.length = (map.layout map.runs).length := by
        rw [← hshapes]
        exact (List.length_map _).symm
      have hroot := hlast.2
      unfold Scan.onRoot at hroot
      cases hruns : map.runs with
      | nil =>
        rw [hruns] at hlen
        exact absurd hlen hroot
      | cons run earlier =>
        rw [hruns, layout_length map (List.cons_ne_nil _ _), List.length_cons] at hlen
        rw [List.length_cons]
        omega
  · rw [if_neg hlast]
    exact .inl ⟨s, rfl, hshapes, hpossible⟩

theorem scan_found (map : MemoryMap) (ram : Nat → Words.Bitmap 32) (system : Nat) :
    Outcome (fun s => s.shapes = map.layout map.runs ∧ s.frames.framesPossible = runFrames map.runs)
      (2 ≤ map.runs.length) (memInitScan map ram system) := by
  unfold memInitScan
  by_cases hsome : map.regions = []
  · have hnone : ∀ n, 0 ≤ n → ¬ map.FrameAt n := by
      intro n _ hf
      obtain ⟨e, he, -⟩ := foundIn_covers hf
      rw [hsome] at he
      cases he
    have hruns : map.runs = [] := (runsBelow_end hnone).symm
    rw [scan_none hsome]
    have hfinish := @finish_found map system Scan.start (by rw [hruns]; rfl) (by rw [hruns]; rfl)
    exact hfinish
  · obtain ⟨m, hend, hout⟩ := scan_rule (found_sweeps map ram system) hsome (found_start map)
    have hruns := runsBelow_end hend
    rcases hout with ⟨s, hrun, hs⟩ | ⟨⟨p, hrun⟩, htwo⟩
    · rw [hrun]
      have hfinish := @finish_found map system s (hruns ▸ hs.shapes) (hruns ▸ hs.possible)
      exact hfinish
    · rw [hrun]
      refine .inr ⟨⟨p, rfl⟩, ?_⟩
      rw [← hruns]
      exact htwo

end Found

end Aex.Mem
