import AexKernel.Mem.BitmapFrames

/- What the scan keeps of the frames that it takes.

   A piece takes its header's frame when it starts, and the other frames of its bitmap
   when it ends. `Held` says which ids these have and which bits are set, while the
   pieces grow; `scan_held` is what is left of it where the scan is over. A frame that
   is cleared holds none of the marks: the ids taken for a piece end before the piece,
   or so little behind its start that their bits are in the frame of its header. -/
namespace Aex.Mem

/-! ## What the scan keeps -/

/-- How many frames a piece takes for its header and its bitmap. -/
def framesFor (usable : Nat) : Nat := 1 + (bitmapPages usable - 1)

/-- The position of the current piece. -/
def Scan.top (s : Scan) : Nat := s.frames.pieces.length - 1

/-- What memory held where the bitmap of the piece at `k` is. Only the pages behind that
of its header have been cleared. -/
def leftOver (ram : Nat → Words.Bitmap 32) (taken : List (Nat × Nat)) (k i : Nat) : Prop :=
  0 < k ∧ Words.get (ram (headerAt taken k)) i = true ∧
    ¬ (rootBits ≤ i ∧ i < rootBits + 8 * pageSize * ((framesOf taken k).length - 1))

/-- Every piece but the first and the current one has its frames. The ids of the frames
taken end before the current piece, or not far inside it while its own frames are
taken. And where frames are consecutive, the marks are those of these ids. -/
structure Held (ram : Nat → Words.Bitmap 32) (system : Nat) (s : Scan) : Prop where
  some : 0 < s.frames.pieces.length
  owners : ∀ r ∈ s.taken, 0 < r.1 ∧ r.1 ≤ s.top
  numbered : Numbered system s.frames s.taken
  closed : ∀ k, 0 < k → k < s.top → (framesOf s.taken k).length = framesFor (pieceAt s.frames.pieces k).usable
  room : 0 < s.top → ∃ t, (framesOf s.taken s.top).length = t + 1 ∧
    system + s.taken.length ≤ usableSum (s.frames.pieces.take s.top) + t
  kernel : 0 < s.top → system < (pieceAt s.frames.pieces 0).usable
  bits : (∀ k, Consecutive (framesOf s.taken k)) →
    BitsAre s.frames.pieces system (system + s.taken.length) (leftOver ram s.taken)

/-- The current piece has a frame for its header alone. -/
def Scan.Open (s : Scan) : Prop := 0 < s.top → (framesOf s.taken s.top).length = 1

section Held

variable {map : MemoryMap} {ram : Nat → Words.Bitmap 32} {system m : Nat} {s s' : Scan}

theorem Held.taken_nil (h : Held ram system s) (hroot : s.top = 0) : s.taken = [] := by
  cases htaken : s.taken with
  | nil => rfl
  | cons r rest =>
    have howner := h.owners r (by rw [htaken]; exact List.mem_cons_self)
    omega

theorem Scan.top_append {pre : List Piece} {p : Piece} (h : s.frames.pieces = pre ++ [p]) : s.top = pre.length := by
  unfold Scan.top
  rw [h, List.length_append, List.length_singleton, Nat.add_sub_cancel]

theorem Held.last {pre : List Piece} {p p' : Piece} (h : Held ram system s) (hone : s.Open) (hpieces : s.frames.pieces = pre ++ [p])
    (hpieces' : s'.frames.pieces = pre ++ [p']) (hbitmap : p'.bitmap = p.bitmap) (htaken : s'.taken = s.taken)
    (hle : s.frames.framesPossible ≤ s'.frames.framesPossible) : Held ram system s' ∧ s'.Open := by
  have htop := Scan.top_append hpieces
  have htop' : s'.top = s.top := (Scan.top_append hpieces').trans htop.symm
  have htake : ∀ q : Piece, (pre ++ [q]).take pre.length = pre := fun q => List.take_left
  have hbelow : s.top = 0 ∨ system + s.taken.length ≤ usableSum pre := by
    by_cases hroot : s.top = 0
    · exact .inl hroot
    · obtain ⟨t, ht, hroom⟩ := h.room (Nat.pos_of_ne_zero hroot)
      rw [hone (Nat.pos_of_ne_zero hroot)] at ht
      rw [hpieces, htop, htake] at hroom
      exact .inr (by omega)
  have hat : ∀ k < s.top, pieceAt s'.frames.pieces k = pieceAt s.frames.pieces k := by
    intro k hk
    rw [hpieces, hpieces', pieceAt_append (by omega), pieceAt_append (by omega)]
  refine ⟨⟨?_, ?_, ?_, ?_, ?_, ?_, ?_⟩, ?_⟩
  · rw [hpieces', List.length_append]
    exact Nat.succ_pos _
  · rw [htaken, htop']
    exact h.owners
  · rw [htaken]
    apply h.numbered.mono
    intro id a hlow hhigh ha
    rcases hbelow with hroot | hbelow
    · rw [h.taken_nil hroot] at hhigh
      exact absurd hlow (Nat.not_le_of_lt hhigh)
    · exact kfpaddrof_prefix hpieces hpieces' hle (by omega) ha
  · rw [htaken, htop']
    intro k hk hkt
    rw [hat k hkt]
    exact h.closed k hk hkt
  · rw [htaken, htop', hpieces', htop, htake]
    have hroom := h.room
    rw [hpieces, htop, htake] at hroom
    exact hroom
  · rw [htop']
    intro hpos
    rw [hat 0 hpos]
    exact h.kernel hpos
  · rw [htaken, hpieces']
    intro hcons
    have hbits := h.bits hcons
    rw [hpieces] at hbits
    apply hbits.last hbitmap
    rcases hbelow with hroot | hbelow
    · rw [h.taken_nil hroot]
      exact .inl (Nat.le_refl _)
    · exact .inr hbelow
  · unfold Scan.Open
    rw [htaken, htop']
    exact hone

theorem takeFrame_ok {k ptr : Nat} (hrun : s.takeFrame system k = .ok (s', ptr)) :
    ∃ k' i, locate s.frames.framesPossible s.frames.pieces (system + s.taken.length) = some (k', i) ∧
      s'.frames.pieces = mark s.frames.pieces k' i true ∧ s'.frames.framesPossible = s.frames.framesPossible ∧
      s'.frameCurrent = s.frameCurrent ∧ s'.taken = s.taken ++ [(k, ptr)] ∧
      kfpaddrof s.frames (system + s.taken.length) = .ok ptr := by
  obtain ⟨⟨fr, addr⟩, halloc, hrun⟩ := bind_ok hrun
  cases hrun
  unfold kfalloc memfrAllocInternal at halloc
  unfold kfpaddrof
  cases hl : locate s.frames.framesPossible s.frames.pieces (system + s.taken.length) with
  | none =>
    rw [hl] at halloc
    cases halloc
  | some r =>
    obtain ⟨k', i⟩ := r
    rw [hl] at halloc
    cases halloc
    exact ⟨k', i, rfl, rfl, rfl, rfl, rfl, rfl⟩

theorem wordIn_page (header t i : Nat) : wordIn header (header + pageSize * (t + 1)) i ↔
    rootBits + 8 * pageSize * t ≤ i ∧ i < rootBits + 8 * pageSize * (t + 1) := by
  have hsize : rootBits = 32576 := by decide
  have hpage : 8 * pageSize = 32768 := by decide
  unfold wordIn
  rw [hsize, hpage]
  unfold pieceHeader pageSize
  omega

theorem consecutive_before {taken : List (Nat × Nat)} {k ptr : Nat} (h : ∀ k', Consecutive (framesOf (taken ++ [(k, ptr)]) k')) :
    ∀ k', Consecutive (framesOf taken k') := by
  intro k'
  have hthis := h k'
  by_cases hk : k' = k
  · rw [hk, framesOf_same] at hthis
    rw [hk]
    exact hthis.of_append
  · rw [framesOf_other taken ptr (Ne.symm hk)] at hthis
    exact hthis

/-- A page of the bitmap of a piece, behind those that it already has: what is cleared is
what was left over there. -/
theorem BitsAre.page {pieces : List Piece} {lo hi k t ptr : Nat} {taken : List (Nat × Nat)}
    (h : BitsAre pieces lo hi (leftOver ram taken)) (hk : k < pieces.length) (ht : (framesOf taken k).length = t + 1)
    (hroom : hi ≤ usableSum (pieces.take k) + (t + 1)) (hcons : Consecutive (framesOf (taken ++ [(k, ptr)]) k)) :
    BitsAre (pieces.modify k (fun p => { p with bitmap := clearFrame (headerAt (taken ++ [(k, ptr)]) k) ptr p.bitmap })) lo hi
      (leftOver ram (taken ++ [(k, ptr)])) := by
  have hof : framesOf (taken ++ [(k, ptr)]) k = framesOf taken k ++ [ptr] := framesOf_same taken k ptr
  have hlen : (framesOf (taken ++ [(k, ptr)]) k).length = t + 1 + 1 := by
    rw [hof, List.length_append, List.length_singleton, ht]
  have hheader : headerAt (taken ++ [(k, ptr)]) k = headerAt taken k := by
    unfold headerAt
    rw [hof]
    cases hxs : framesOf taken k with
    | nil =>
      rw [hxs] at ht
      cases ht
    | cons a rest => rfl
  have haddr : ptr = headerAt taken k + pageSize * (t + 1) := by
    have hlast := hcons (t + 1) ptr (by rw [hof, ← ht, List.getElem?_concat_length])
    rw [hlast, ← hheader]
    rfl
  apply h.clear hk
  · intro i hi' hin
    rw [hheader, haddr, wordIn_page] at hin
    have hsmall : t + 1 ≤ rootBits + 8 * pageSize * t := by
      have hpage : 8 * pageSize = 32768 := by decide
      have hsize : rootBits = 32576 := by decide
      rw [hpage, hsize]
      omega
    omega
  · intro k' _ hk' i
    unfold leftOver headerAt
    rw [framesOf_other taken ptr (Ne.symm hk')]
  · intro i
    unfold leftOver
    rw [hheader, hlen, ht, haddr, wordIn_page, Nat.add_sub_cancel, Nat.add_sub_cancel]
    have hmore : 8 * pageSize * t ≤ 8 * pageSize * (t + 1) := Nat.mul_le_mul_left _ (Nat.le_succ t)
    constructor
    · rintro ⟨hpos, hbit, hout⟩
      exact ⟨⟨hpos, hbit, by omega⟩, by omega⟩
    · rintro ⟨⟨hpos, hbit, hout⟩, hword⟩
      exact ⟨hpos, hbit, by omega⟩

theorem Held.bitmapFrame {s₁ : Scan} {ptr : Nat} (h : Held ram system s) (hroot : 0 < s.top)
    (htake : s.takeFrame system s.top = .ok (s₁, ptr)) :
    Held ram system (s₁.change (fun p => { p with bitmap := clearFrame (headerAt s₁.taken s.top) ptr p.bitmap })) ∧
      (framesOf s₁.taken s.top).length = (framesOf s.taken s.top).length + 1 := by
  obtain ⟨k', i, hl, hmark, hpossible, -, htaken, hptr⟩ := takeFrame_ok htake
  obtain ⟨t, ht, hroom⟩ := h.room hroot
  have hof : framesOf s₁.taken s.top = framesOf s.taken s.top ++ [ptr] := by
    rw [htaken]
    exact framesOf_same s.taken s.top ptr
  have hother : ∀ k, k ≠ s.top → framesOf s₁.taken k = framesOf s.taken k := by
    intro k hk
    rw [htaken]
    exact framesOf_other s.taken ptr hk.symm
  have hlen : (framesOf s₁.taken s.top).length = (framesOf s.taken s.top).length + 1 := by
    rw [hof, List.length_append, List.length_singleton]
  have hall : s₁.taken.length = s.taken.length + 1 := by
    rw [htaken, List.length_append, List.length_singleton]
  obtain ⟨f, hf⟩ : ∃ f : Piece → Piece, f = fun p => { p with bitmap := clearFrame (headerAt s₁.taken s.top) ptr p.bitmap } := ⟨_, rfl⟩
  have hshapes : (s₁.change f).frames.pieces.map Piece.shape = s.frames.pieces.map Piece.shape := by
    have hclear := s₁.change_alike (show ∀ p, (f p).shape = p.shape by rw [hf]; exact fun p => rfl)
    exact ((takeFrame_alike htake).trans hclear).shapes
  have hlength : (s₁.change f).frames.pieces.length = s.frames.pieces.length := length_shape hshapes
  have htop : (s₁.change f).top = s.top := by
    unfold Scan.top
    rw [hlength]
  have husable : ∀ k, (pieceAt (s₁.change f).frames.pieces k).usable = (pieceAt s.frames.pieces k).usable :=
    fun k => congrArg Prod.snd (pieceAt_shape hshapes k)
  rw [← hf]
  refine ⟨⟨?_, ?_, ?_, ?_, ?_, ?_, ?_⟩, hlen⟩
  · rw [hlength]
    exact h.some
  · show ∀ r ∈ s₁.taken, _
    rw [htaken, htop]
    intro r hr
    rcases List.mem_append.mp hr with hold | hnew
    · exact h.owners r hold
    · rw [List.mem_singleton.mp hnew]
      exact ⟨hroot, Nat.le_refl _⟩
  · show Numbered system (s₁.change f).frames s₁.taken
    rw [htaken]
    apply (h.numbered.snoc (fun r hr => (h.owners r hr).2) hptr).mono
    intro id a _ _ ha
    rw [kfpaddrof_shape hshapes hpossible]
    exact ha
  · rw [htop]
    intro k hk hkt
    show (framesOf s₁.taken k).length = _
    rw [husable, hother k (Nat.ne_of_lt hkt)]
    exact h.closed k hk hkt
  · rw [htop, take_shape hshapes]
    intro _
    refine ⟨t + 1, ?_, ?_⟩
    · show (framesOf s₁.taken s.top).length = _
      rw [hlen, ht]
    · show system + s₁.taken.length ≤ _
      omega
  · rw [htop, husable]
    exact h.kernel
  · show (∀ k, Consecutive (framesOf s₁.taken k)) → BitsAre _ system (system + s₁.taken.length) (leftOver ram s₁.taken)
    intro hcons
    rw [htaken] at hcons
    have hmarked := (h.bits (consecutive_before hcons)).mark hl (Nat.le_add_right _ _)
    have hlast : s₁.frames.pieces.length - 1 = s.top := by
      rw [hmark]
      unfold Mem.mark Scan.top
      rw [List.length_modify]
    have hlt : s.top < (mark s.frames.pieces k' i true).length := by
      rw [← hmark, ← hlast]
      have hsome := h.some
      unfold Scan.top at hroot
      rw [hmark]
      unfold Mem.mark
      rw [List.length_modify]
      omega
    rw [hall, ← Nat.add_assoc]
    show BitsAre (s₁.frames.pieces.modify (s₁.frames.pieces.length - 1) f) _ _ _
    rw [hlast, hmark, hf, htaken]
    apply hmarked.page hlt ht _ (hcons s.top)
    rw [take_shape (shape_mark s.frames.pieces k' i true)]
    omega

/-- Every piece but the first has all its frames. -/
def Scan.Closed (s : Scan) : Prop :=
  ∀ k, 0 < k → k ≤ s.top → (framesOf s.taken k).length = framesFor (pieceAt s.frames.pieces k).usable

theorem Scan.Alike.top (h : s.Alike s') : s'.top = s.top := by
  unfold Scan.top
  rw [length_shape h.shapes]

theorem Held.bitmapFrames : ∀ {n : Nat} {s s' : Scan}, Held ram system s → 0 < s.top → s.bitmapFrames system n = .ok s' →
    Held ram system s' ∧ (framesOf s'.taken s.top).length = (framesOf s.taken s.top).length + n := by
  intro n
  induction n with
  | zero =>
    intro s s' h _ hrun
    cases hrun
    exact ⟨h, rfl⟩
  | succ n ih =>
    intro s s' h hroot hrun
    obtain ⟨⟨s₁, ptr⟩, htake, hrun⟩ := bind_ok hrun
    obtain ⟨h₁, hlen⟩ := h.bitmapFrame hroot htake
    have hclear := s₁.change_alike (fun p => show
      Piece.shape { p with bitmap := clearFrame (headerAt s₁.taken s.top) ptr p.bitmap } = p.shape from rfl)
    have htop := ((takeFrame_alike htake).trans hclear).top
    obtain ⟨h', hmore⟩ := ih h₁ (by rw [htop]; exact hroot) hrun
    refine ⟨h', ?_⟩
    rw [htop] at hmore
    have hmore' : (framesOf s'.taken s.top).length = (framesOf s₁.taken s.top).length + n := hmore
    omega

theorem Held.close (h : Held ram system s) (hone : s.Open) (hroot : 0 < s.top)
    (hrun : s.bitmapFrames system (bitmapPages s.piece.usable - 1) = .ok s') : Held ram system s' ∧ s'.Closed := by
  obtain ⟨h', hlen⟩ := h.bitmapFrames hroot hrun
  have halike := bitmapFrames_alike hrun
  refine ⟨h', ?_⟩
  intro k hk hle
  by_cases hself : k = s'.top
  · have husable : (pieceAt s'.frames.pieces s.top).usable = s.piece.usable :=
      congrArg Prod.snd (pieceAt_shape halike.shapes s.top)
    rw [hself, halike.top, hlen, hone hroot, husable]
    rfl
  · exact h'.closed k hk (Nat.lt_of_le_of_ne hle hself)

theorem Held.header {s₁ : Scan} {ptr : Nat} (h : Held ram system s) (hclosed : s.Closed)
    (htake : s.takeFrame system s.frames.pieces.length = .ok (s₁, ptr))
    (hpieces : s'.frames.pieces = s₁.frames.pieces ++ [⟨s₁.frameCurrent, 0, ram ptr⟩])
    (hpossible : s'.frames.framesPossible = s₁.frames.framesPossible) (htaken : s'.taken = s₁.taken) :
    Held ram system s' ∧ s'.Open := by
  obtain ⟨k', i, hl, hmark, hpossible₁, -, htaken₁, hptr⟩ := takeFrame_ok htake
  have hin := locate_lt hl
  have hshapes := (takeFrame_alike htake).shapes
  unfold Scan.shapes at hshapes
  have hlength : s₁.frames.pieces.length = s.frames.pieces.length := length_shape hshapes
  have hlen : s.frames.pieces.length = s.top + 1 := by
    have hsome := h.some
    unfold Scan.top
    omega
  have htop : s'.top = s.top + 1 := by
    rw [Scan.top_append hpieces, hlength, hlen]
  have hbelow : ∀ r ∈ s.taken, r.1 ≠ s.top + 1 := by
    intro r hr
    have howner := (h.owners r hr).2
    omega
  rw [htaken₁, hlen] at htaken
  have hof : framesOf s'.taken (s.top + 1) = [ptr] := by
    rw [htaken, framesOf_same, framesOf_none hbelow]
    rfl
  have hother : ∀ k, k ≠ s.top + 1 → framesOf s'.taken k = framesOf s.taken k := by
    intro k hk
    rw [htaken]
    exact framesOf_other s.taken ptr hk.symm
  have hall : s'.taken.length = s.taken.length + 1 := by
    rw [htaken, List.length_append, List.length_singleton]
  have husable : ∀ k, k ≤ s.top → (pieceAt s'.frames.pieces k).usable = (pieceAt s.frames.pieces k).usable := by
    intro k hk
    rw [hpieces, pieceAt_append (by omega)]
    exact congrArg Prod.snd (pieceAt_shape hshapes k)
  have hopen : s'.Open := by
    intro _
    rw [htop, hof]
    rfl
  refine ⟨⟨?_, ?_, ?_, ?_, ?_, ?_, ?_⟩, hopen⟩
  · rw [hpieces, List.length_append]
    exact Nat.succ_pos _
  · rw [htaken, htop]
    intro r hr
    rcases List.mem_append.mp hr with hold | hnew
    · have howner := h.owners r hold
      omega
    · rw [List.mem_singleton.mp hnew]
      exact ⟨Nat.succ_pos _, Nat.le_refl _⟩
  · rw [htaken]
    apply (h.numbered.snoc (fun r hr => Nat.le_succ_of_le (h.owners r hr).2) hptr).mono
    rw [← htaken, hall]
    intro id a _ hid ha
    rw [← kfpaddrof_shape hshapes hpossible₁] at ha
    apply kfpaddrof_prefix (List.append_nil _).symm hpieces (Nat.le_of_eq hpossible.symm) _ ha
    rw [usableSum_shape hshapes]
    omega
  · rw [htop]
    intro k hk hkt
    rw [hother k (Nat.ne_of_lt hkt), husable k (Nat.le_of_lt_succ hkt)]
    exact hclosed k hk (Nat.le_of_lt_succ hkt)
  · rw [htop, hof, hall, hpieces, ← hlen, ← hlength, List.take_left, usableSum_shape hshapes]
    intro _
    exact ⟨0, rfl, hin⟩
  · rw [husable 0 (Nat.zero_le _)]
    intro _
    by_cases hroot : s.top = 0
    · -- the first header lies in the only piece
      rw [hroot] at hlen
      obtain ⟨p, hp⟩ := List.length_eq_one_iff.mp hlen
      rw [h.taken_nil hroot, hp] at hin
      rw [hp]
      exact hin
    · exact h.kernel (Nat.pos_of_ne_zero hroot)
  · rw [hpieces, hall, ← Nat.add_assoc]
    intro hcons
    have hcons₀ : ∀ k, Consecutive (framesOf (s.taken ++ [(s.top + 1, ptr)]) k) := by
      rw [← htaken]
      exact hcons
    have hmarked := (h.bits (consecutive_before hcons₀)).mark hl (Nat.le_add_right _ _)
    rw [← hmark] at hmarked
    apply (hmarked.congr _).append rfl
    · intro k
      rw [hlength, hlen]
      unfold leftOver headerAt
      rw [hof]
      show 0 < s.top + 1 ∧ Words.get (ram ptr) k = true ∧ ¬ (rootBits ≤ k ∧ k < rootBits + 0) ↔ _
      constructor
      · exact fun hbit => hbit.2.1
      · exact fun hbit => ⟨Nat.succ_pos _, hbit, by omega⟩
    · intro k hk i
      unfold leftOver headerAt
      rw [hother k (by omega)]

theorem Held.newPiece (h : Held ram system s) (hone : s.Open) (hrun : s.newPiece ram system = .ok s') :
    Held ram system s' ∧ s'.Open := by
  obtain ⟨s₁, hfirst, hrun⟩ := bind_ok hrun
  obtain ⟨⟨s₂, ptr⟩, htake, hrun⟩ := bind_ok hrun
  cases hrun
  obtain ⟨h₁, hclosed⟩ : Held ram system s₁ ∧ s₁.Closed := by
    by_cases hroot : s.onRoot
    · rw [if_pos hroot] at hfirst
      cases hfirst
      refine ⟨h, ?_⟩
      intro k hk hle
      unfold Scan.top at hle
      rw [show s.frames.pieces.length = 1 from hroot] at hle
      omega
    · rw [if_neg hroot] at hfirst
      apply h.close hone _ hfirst
      have hsome := h.some
      unfold Scan.onRoot at hroot
      unfold Scan.top
      omega
  exact h₁.header hclosed htake rfl rfl rfl

theorem lengthen_pieces (h : 0 < s.frames.pieces.length) : ∃ pre p p', s.frames.pieces = pre ++ [p] ∧
    s.settle.lengthen.frames.pieces = pre ++ [p'] ∧ p'.bitmap = p.bitmap := by
  have hsplit := (List.dropLast_append_getLast (List.length_pos_iff.mp h)).symm
  generalize s.frames.pieces.dropLast = pre at hsplit
  generalize s.frames.pieces.getLast _ = p at hsplit
  obtain ⟨p₁, hsettle, hbitmap⟩ : ∃ p₁, s.settle.frames.pieces = pre ++ [p₁] ∧ p₁.bitmap = p.bitmap := by
    unfold Scan.settle
    split
    · exact ⟨_, Scan.change_pieces hsplit _, rfl⟩
    · exact ⟨p, hsplit, rfl⟩
  exact ⟨pre, p, _, hsplit, Scan.change_pieces hsettle _, hbitmap⟩

theorem Held.visit (hm : Found map m s) (hf : map.FrameAt m) (h : Held ram system s) (hone : s.Open)
    (hrun : s.visit ram system = .ok s') : Held ram system s' ∧ s'.Open := by
  obtain ⟨s₁, hplaced, hrun⟩ := bind_ok hrun
  cases hrun
  rcases @place_cases map ram system m s hm hf with ⟨hplace, -, -⟩ | ⟨-, hplace, -, -⟩
  · rw [hplace] at hplaced
    cases hplaced
    obtain ⟨pre, p, p', hpieces, hpieces', hbitmap⟩ := lengthen_pieces h.some
    obtain ⟨hpossible, -, htaken⟩ := settle_same s
    refine h.last hone hpieces ?_ hbitmap htaken ?_
    · exact hpieces'
    · show s.frames.framesPossible ≤ s.settle.frames.framesPossible + 1
      omega
  · rw [hplace] at hplaced
    obtain ⟨h₁, hone₁⟩ := h.newPiece hone hplaced
    have hsplit := (List.dropLast_append_getLast (List.length_pos_iff.mp h₁.some)).symm
    exact h₁.last hone₁ hsplit hsplit rfl rfl (Nat.le_succ _)

theorem held_sweeps (map : MemoryMap) (ram : Nat → Words.Bitmap 32) (system : Nat) :
    Sweeps map ram system (fun m s => Found map m s ∧ Held ram system s ∧ s.Open) (fun _ => True) where
  current _ _ h := h.1.current
  jump m m' s hle hnone h :=
    ⟨(found_sweeps map ram system).jump m m' s hle hnone h.1,
      ⟨h.2.1.some, h.2.1.owners, h.2.1.numbered, h.2.1.closed, h.2.1.room, h.2.1.kernel, h.2.1.bits⟩, h.2.2⟩
  visit m s hf h := by
    rcases @visit_found map ram system m s h.1 hf with ⟨s', hrun, hfound⟩ | ⟨herror, -⟩
    · exact .inl ⟨s', hrun, hfound, h.2.1.visit h.1 hf h.2.2 hrun⟩
    · exact .inr ⟨herror, trivial⟩
  later _ _ _ _ := trivial

theorem held_start (ram : Nat → Words.Bitmap 32) (system cursor : Nat) :
    Held ram system { Scan.start with frameCurrent := cursor } ∧ Scan.Open { Scan.start with frameCurrent := cursor } := by
  have hroot : Scan.top { Scan.start with frameCurrent := cursor } = 0 := rfl
  refine ⟨⟨?_, ?_, ?_, ?_, ?_, ?_, ?_⟩, ?_⟩
  · exact Nat.one_pos
  · intro r hr
    cases hr
  · intro k t a hget
    cases hget
  · rw [hroot]
    intro k hk hlt
    exact absurd hlt (Nat.not_lt_zero k)
  · rw [hroot]
    exact fun hpos => absurd hpos (Nat.lt_irrefl 0)
  · rw [hroot]
    exact fun hpos => absurd hpos (Nat.lt_irrefl 0)
  · intro _ k hk i
    have hzero : k = 0 := Nat.lt_one_iff.mp hk
    subst hzero
    have hclear : Words.get (pieceAt (Scan.start.frames.pieces) 0).bitmap i = false := by
      show ((0 : BitVec 32)).getLsbD (i % 32) = false
      exact BitVec.getLsbD_zero
    constructor
    · intro hbit
      rw [show Words.get _ i = false from hclear] at hbit
      cases hbit
    · rintro (⟨hin, -⟩ | ⟨hpos, -⟩)
      · exact absurd hin (Nat.not_lt_zero i)
      · exact absurd hpos (Nat.lt_irrefl 0)
  · intro hpos
    rw [hroot] at hpos
    exact absurd hpos (Nat.lt_irrefl 0)

theorem scan_held (hrun : memInitScan map ram system = .ok s) : Held ram system s ∧ s.Closed := by
  obtain ⟨s₁, hfold, hlast⟩ := bind_ok hrun
  obtain ⟨h, hone⟩ : Held ram system s₁ ∧ s₁.Open := by
    by_cases hsome : map.regions = []
    · rw [scan_none hsome] at hfold
      cases hfold
      exact held_start ram system 0
    · have hstart : Found map 0 { Scan.start with frameCurrent := map.origin } := found_start map
      obtain ⟨m, -, hout⟩ := scan_rule (held_sweeps map ram system) hsome ⟨hstart, held_start ram system map.origin⟩
      rcases hout with ⟨s₂, hrun₂, h₂⟩ | ⟨⟨p, herror⟩, -⟩
      · rw [hfold] at hrun₂
        cases hrun₂
        exact h₂.2
      · rw [hfold] at herror
        cases herror
  by_cases hbitmap : 0 < s₁.piece.usable ∧ ¬ s₁.onRoot
  · rw [if_pos hbitmap] at hlast
    apply h.close hone _ hlast
    have hsome := h.some
    have hroot := hbitmap.2
    unfold Scan.onRoot at hroot
    unfold Scan.top
    omega
  · rw [if_neg hbitmap] at hlast
    cases hlast
    refine ⟨h, ?_⟩
    intro k hk hle
    by_cases hself : k = s.top
    · -- the frame of the header is all that an empty piece takes
      have hempty : (pieceAt s.frames.pieces s.top).usable = 0 := by
        by_contra hpos
        apply hbitmap
        refine ⟨Nat.pos_of_ne_zero hpos, ?_⟩
        intro hroot
        unfold Scan.top at hself
        rw [show s.frames.pieces.length = 1 from hroot] at hself
        omega
      rw [hself, hempty, hone (by omega)]
      rfl
    · exact h.closed k hk (Nat.lt_of_le_of_ne hle hself)

end Held

end Aex.Mem
