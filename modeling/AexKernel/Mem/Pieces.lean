import AexKernel.Mem.Frame

/- The frame allocator on a machine whose memory is in any number of pieces.

   `Pieces` carries what never changes about such a machine: where the pieces are
   and how many frames they have. Marking a frame moves none of it, so
   `kfindexof` and `kfpaddrof` answer the same before and after any call, and each
   call is described by which ids it marks. -/
namespace Aex.Mem

/-- The pieces lie apart, and none of them below 1 MiB. -/
structure Frames.Pieced (fr : Frames) : Prop where
  disjoint : fr.Disjoint
  high : ∀ p ∈ fr.pieces, 0x100000 ≤ p.start

/-- Where a piece is, and how many frames it has. -/
def Piece.shape (p : Piece) : Nat × Nat := (p.start, p.usable)

section Shape

variable {pieces pieces' : List Piece}

theorem shape_modify (pieces : List Piece) (k : Nat) {f : Piece → Piece} (hf : ∀ p, (f p).shape = p.shape) :
    (pieces.modify k f).map Piece.shape = pieces.map Piece.shape := by
  apply List.ext_getElem?
  intro j
  rw [List.getElem?_map, List.getElem?_map, List.getElem?_modify]
  by_cases hj : k = j
  · cases pieces[j]? with
    | none => simp
    | some p => simp [hj, hf]
  · simp [hj]

theorem shape_mark (pieces : List Piece) (k i : Nat) (v : Bool) :
    (mark pieces k i v).map Piece.shape = pieces.map Piece.shape :=
  shape_modify pieces k (fun _ => rfl)

theorem length_shape (h : pieces'.map Piece.shape = pieces.map Piece.shape) : pieces'.length = pieces.length := by
  rw [← List.length_map Piece.shape, h, List.length_map]

theorem shape_induction {P : List Piece → List Piece → Prop} (hnil : P [] [])
    (hcons : ∀ p p' rest rest', p'.start = p.start → p'.usable = p.usable → P rest' rest → P (p' :: rest') (p :: rest)) :
    ∀ {pieces pieces' : List Piece}, pieces'.map Piece.shape = pieces.map Piece.shape → P pieces' pieces := by
  intro pieces
  induction pieces with
  | nil =>
    intro pieces' h
    rw [List.map_nil, List.map_eq_nil_iff] at h
    rw [h]
    exact hnil
  | cons p rest ih =>
    intro pieces' h
    cases pieces' with
    | nil => cases h
    | cons p' rest' =>
      obtain ⟨hp, hrest⟩ := List.cons.inj h
      exact hcons p p' rest rest' (congrArg Prod.fst hp) (congrArg Prod.snd hp) (ih hrest)

theorem usableSum_shape (h : pieces'.map Piece.shape = pieces.map Piece.shape) : usableSum pieces' = usableSum pieces := by
  refine shape_induction (P := fun l' l => usableSum l' = usableSum l) rfl ?_ h
  intro p p' rest rest' _ husable ih
  simp only [usableSum]
  rw [ih, husable]

theorem forall_shape {P : Nat × Nat → Prop} (h : pieces'.map Piece.shape = pieces.map Piece.shape)
    (hp : ∀ p ∈ pieces, P p.shape) : ∀ p ∈ pieces', P p.shape := by
  rw [← List.forall_mem_map, h, List.forall_mem_map]
  exact hp

theorem Frames.Pieced.of_shape {fr fr' : Frames} (h : fr.Pieced) (hs : fr'.pieces.map Piece.shape = fr.pieces.map Piece.shape)
    (hp : fr'.framesPossible = fr.framesPossible) : fr'.Pieced := by
  refine ⟨⟨?_, ?_, ?_, ?_, ?_⟩, ?_⟩
  · exact forall_shape (P := fun x => x.1 % pageSize = 0) hs h.disjoint.aligned
  · exact forall_shape (P := fun x => x.2 * pageSize < 2^32) hs h.disjoint.short
  · exact forall_shape (P := fun x => x.1 + x.2 * pageSize < 2^64) hs h.disjoint.inSpace
  · have hpair : ∀ l : List Piece, l.Pairwise (fun p q =>
        p.start + p.usable * pageSize ≤ q.start ∨ q.start + q.usable * pageSize ≤ p.start) ↔
        (l.map Piece.shape).Pairwise (fun x y => x.1 + x.2 * pageSize ≤ y.1 ∨ y.1 + y.2 * pageSize ≤ x.1) := by
      intro l
      rw [List.pairwise_map]
      rfl
    rw [hpair, hs, ← hpair]
    exact h.disjoint.apart
  · rw [usableSum_shape hs, hp]
    exact h.disjoint.counted
  · exact forall_shape (P := fun x => 0x100000 ≤ x.1) hs h.high

theorem find_shape (addr : Nat) (h : pieces'.map Piece.shape = pieces.map Piece.shape) :
    (pieces'.find? (fun p => p.holds addr)).map Piece.start = (pieces.find? (fun p => p.holds addr)).map Piece.start := by
  refine shape_induction (P := fun l' l =>
    (l'.find? (fun p => p.holds addr)).map Piece.start = (l.find? (fun p => p.holds addr)).map Piece.start) rfl ?_ h
  intro p p' rest rest' hstart husable ih
  have hholds : p'.holds addr = p.holds addr := by
    unfold Piece.holds
    rw [hstart, husable]
  rw [List.find?_cons, List.find?_cons, hholds]
  cases p.holds addr with
  | true => exact congrArg some hstart
  | false => exact ih

theorem kfindexof_shape {fr fr' : Frames} (hs : fr'.pieces.map Piece.shape = fr.pieces.map Piece.shape) (addr : Nat) :
    kfindexof fr' addr = kfindexof fr addr := by
  have hstart := find_shape addr hs
  unfold kfindexof
  cases hf : fr.pieces.find? (fun p => p.holds addr) with
  | none =>
    rw [hf, Option.map_none, Option.map_eq_none_iff] at hstart
    rw [hstart]
  | some p =>
    rw [hf, Option.map_some, Option.map_eq_some_iff] at hstart
    obtain ⟨p', hp', heq⟩ := hstart
    rw [hp']
    simp only [heq]

end Shape

/-- No piece has moved, and `now` says which ids are marked. -/
structure Remarked (fr fr' : Frames) (now : Nat → Prop) : Prop where
  pieced : fr.Pieced → fr'.Pieced
  index : ∀ addr, kfindexof fr' addr = kfindexof fr addr
  paddr : ∀ id, kfpaddrof fr' id = kfpaddrof fr id
  allocated : ∀ id, fr'.allocated id = true ↔ now id

section Remarked

variable {fr fr' : Frames} {id : Nat}

theorem remarked_mark {k i : Nat} (hl : locate fr.framesPossible fr.pieces id = some (k, i)) (v : Bool) (used : Nat) :
    Remarked fr { fr with pieces := mark fr.pieces k i v, framesUsed := used }
      (fun j => if j = id then v = true else fr.allocated j = true) := by
  have hs := shape_mark fr.pieces k i v
  refine ⟨fun h => h.of_shape hs rfl, kfindexof_shape hs, ?_, ?_⟩
  · intro j
    simp only [kfpaddrof, locate_mark]
    split
    · rfl
    · next k' i' hl' =>
      rw [pieceAt_mark (locate_split hl).1]
      split
      · next hk => rw [hk]; rfl
      · rfl
  · intro j
    cases hj : locate fr.framesPossible fr.pieces j with
    | none =>
      have hne : j ≠ id := by
        rintro rfl
        rw [hl] at hj
        cases hj
      have hnone : ∀ pieces, pieces = mark fr.pieces k i v → Frames.allocated ⟨pieces, fr.framesPossible, used⟩ j = false := by
        rintro pieces rfl
        simp only [Frames.allocated, locate_mark, hj]
      have hold : fr.allocated j = false := by simp only [Frames.allocated, hj]
      rw [hnone _ rfl, if_neg hne, hold]
    | some r =>
      rw [allocated_mark v used hl ⟨r, hj⟩]
      split <;> exact Iff.rfl

theorem Remarked.congr {now now' : Nat → Prop} (h : Remarked fr fr' now) (heq : ∀ j, now j ↔ now' j) :
    Remarked fr fr' now' :=
  ⟨h.pieced, h.index, h.paddr, fun j => (h.allocated j).trans (heq j)⟩

theorem Remarked.refl (fr : Frames) : Remarked fr fr (fun j => fr.allocated j = true) :=
  ⟨id, fun _ => rfl, fun _ => rfl, fun _ => Iff.rfl⟩

theorem Remarked.trans {fr'' : Frames} {now now' : Nat → Prop} (h : Remarked fr fr' now) (h' : Remarked fr' fr'' now') :
    Remarked fr fr'' now' :=
  ⟨fun hp => h'.pieced (h.pieced hp), fun addr => (h'.index addr).trans (h.index addr),
    fun id => (h'.paddr id).trans (h.paddr id), h'.allocated⟩

theorem kffree_remarked (hrun : kffree fr id = .ok fr') :
    Remarked fr fr' (fun j => fr.allocated j = true ∧ j ≠ id) := by
  unfold kffree at hrun
  split at hrun
  · cases hrun
  · next k i hl =>
    cases hrun
    apply (remarked_mark hl false _).congr
    intro j
    by_cases hj : j = id
    · simp [hj]
    · simp [hj]

theorem kfcallocScan_one : ∀ {n i s : Nat}, kfcallocScan fr 1 n i none 0 = .ok s → kfisfree fr s = .ok true := by
  intro n
  induction n with
  | zero => intro i s hrun; cases hrun
  | succ n ih =>
    intro i s hrun
    unfold kfcallocScan at hrun
    obtain ⟨free, hfree, hrun⟩ := bind_ok hrun
    cases free with
    | false => exact ih hrun
    | true =>
      cases hrun
      exact hfree

theorem kfcalloc_one (hrun : kfcalloc fr 1 = .ok (fr', id)) :
    fr.allocated id = false ∧ Remarked fr fr' (fun j => j = id ∨ fr.allocated j = true) := by
  unfold kfcalloc at hrun
  rw [if_neg (by decide)] at hrun
  obtain ⟨s, hscan, hrun⟩ := bind_ok hrun
  obtain ⟨fr₁, hall, hrun⟩ := bind_ok hrun
  cases hrun
  have hfree := kfcallocScan_one hscan
  unfold kfisfree at hfree
  unfold allocRun at hall
  obtain ⟨⟨fr₂, addr⟩, hone, hall⟩ := bind_ok hall
  cases hall
  unfold memfrAllocInternal at hone
  cases hl : locate fr.framesPossible fr.pieces id with
  | none => rw [hl] at hfree; cases hfree
  | some r =>
    obtain ⟨k, i⟩ := r
    rw [hl] at hfree hone
    cases hone
    refine ⟨?_, ?_⟩
    · unfold Frames.allocated
      rw [hl]
      simpa using hfree
    · apply (remarked_mark hl true _).congr
      intro j
      by_cases hj : j = id
      · simp [hj]
      · simp [hj]

theorem kfpaddrof_located (h : fr.Disjoint) {addr : Nat} (hrun : kfpaddrof fr id = .ok addr) :
    ∃ k i, locate fr.framesPossible fr.pieces id = some (k, i) ∧
      addr = (pieceAt fr.pieces k).start + i * pageSize := by
  unfold kfpaddrof at hrun
  split at hrun
  · cases hrun
  · next k i hl =>
    cases hrun
    obtain ⟨hk, hi, -⟩ := locate_split hl
    have hm : pieceAt fr.pieces k ∈ fr.pieces := pieceAt_mem hk
    exact ⟨k, i, hl, addr_eq (h.short _ hm) (h.inSpace _ hm) hi⟩

theorem Frames.Disjoint.pieceAt_apart (h : fr.Disjoint) {k k' : Nat} (hlt : k < k') (hk' : k' < fr.pieces.length) :
    (pieceAt fr.pieces k).start + (pieceAt fr.pieces k).usable * pageSize ≤ (pieceAt fr.pieces k').start ∨
      (pieceAt fr.pieces k').start + (pieceAt fr.pieces k').usable * pageSize ≤ (pieceAt fr.pieces k).start := by
  have hk : k < fr.pieces.length := Nat.lt_trans hlt hk'
  rw [pieceAt_getElem hk, pieceAt_getElem hk']
  exact List.pairwise_iff_getElem.mp h.apart k k' hk hk' hlt

theorem kfpaddrof_inj (h : fr.Disjoint) {id' a a' : Nat} (ha : kfpaddrof fr id = .ok a) (ha' : kfpaddrof fr id' = .ok a')
    (hpage : a / pageSize = a' / pageSize) : id = id' := by
  obtain ⟨k, i, hl, rfl⟩ := kfpaddrof_located h ha
  obtain ⟨k', i', hl', rfl⟩ := kfpaddrof_located h ha'
  obtain ⟨hk, hi, hid⟩ := locate_split hl
  obtain ⟨hk', hi', hid'⟩ := locate_split hl'
  have hstart := h.aligned _ (pieceAt_mem hk)
  have hstart' := h.aligned _ (pieceAt_mem hk')
  unfold pageSize at hpage hstart hstart'
  rcases Nat.lt_trichotomy k k' with hlt | rfl | hgt
  · have hapart := h.pieceAt_apart hlt hk'
    unfold pageSize at hapart
    omega
  · have hsame : i = i' := by omega
    rw [hid, hid', hsame]
  · have hapart := h.pieceAt_apart hgt hk
    unfold pageSize at hapart
    omega

end Remarked

/-! ## The machine -/

/-- The allocator of a machine with any number of pieces. -/
def Pieces : Type := { fr : Frames // fr.Pieced }

/-- `kfcalloc(1)`. -/
def Pieces.kfcallocOne (fr : Pieces) : Except Kpanic (Pieces × Nat) :=
  match h : Mem.kfcalloc fr.1 1 with
  | .error p => .error p
  | .ok (fr', id) => .ok (⟨fr', (kfcalloc_one h).2.pieced fr.2⟩, id)

def Pieces.kffree (fr : Pieces) (id : Nat) : Except Kpanic Pieces :=
  match h : Mem.kffree fr.1 id with
  | .error p => .error p
  | .ok fr' => .ok ⟨fr', (kffree_remarked h).pieced fr.2⟩

/-- `kfpaddrof` and `kfindexof`. -/
def Pieces.kfpaddrof (fr : Pieces) (id : Nat) : Except Kpanic Nat := Mem.kfpaddrof fr.1 id

def Pieces.kfindexof (fr : Pieces) (addr : Nat) : Except Kpanic Nat := Mem.kfindexof fr.1 addr

/-- Whether frame `id` is marked allocated. -/
def Pieces.allocated (fr : Pieces) (id : Nat) : Bool := fr.1.allocated id

/-- The page is not that of a free frame. -/
def Pieces.inUse (fr : Pieces) (p : Nat) : Prop :=
  ∀ id addr, fr.kfpaddrof id = .ok addr → addr / pageSize = p → fr.allocated id = true

section Pieces

variable {fr fr' : Pieces} {id addr : Nat}

theorem Pieces.kfcallocOne_spec (hrun : fr.kfcallocOne = .ok (fr', id)) :
    fr.allocated id = false ∧ Remarked fr.1 fr'.1 (fun j => j = id ∨ fr.1.allocated j = true) := by
  unfold Pieces.kfcallocOne at hrun
  split at hrun
  · cases hrun
  · next fr₁ id₁ hk =>
    cases hrun
    exact kfcalloc_one hk

theorem Pieces.kffree_spec (hrun : fr.kffree id = .ok fr') :
    Remarked fr.1 fr'.1 (fun j => fr.1.allocated j = true ∧ j ≠ id) := by
  unfold Pieces.kffree at hrun
  split at hrun
  · cases hrun
  · next fr₁ hk =>
    cases hrun
    exact kffree_remarked hk

theorem usable_le_sum : ∀ {pieces : List Piece} {p : Piece}, p ∈ pieces → p.usable ≤ usableSum pieces := by
  intro pieces
  induction pieces with
  | nil => intro p hp; cases hp
  | cons q rest ih =>
    intro p hp
    simp only [usableSum]
    rcases List.mem_cons.mp hp with rfl | hp
    · omega
    · have := ih hp
      omega

theorem Pieces.kffree_kfindexof (hi : fr.kfindexof addr = .ok id) : ∃ fr', fr.kffree id = .ok fr' := by
  -- the index in the piece is below the number of frames of all pieces
  have hlt : id < usableSum fr.1.pieces := by
    unfold Pieces.kfindexof Mem.kfindexof at hi
    split at hi
    · cases hi
    · next p hp =>
      cases hi
      have hmem := List.mem_of_find?_eq_some hp
      have hholds := List.find?_some hp
      rw [holds_iff (fr.2.disjoint.short p hmem) (fr.2.disjoint.inSpace p hmem)] at hholds
      have hindex : (addr - p.start) / pageSize < p.usable := by
        unfold pageSize at *
        omega
      have hle := usable_le_sum hmem
      have hu : u32 ((addr - p.start) / pageSize) ≤ (addr - p.start) / pageSize := Nat.mod_le _ _
      omega
  obtain ⟨fr', hfree⟩ := kffree_of_lt hlt fr.2.disjoint.counted
  unfold Pieces.kffree
  split
  · next p hk => rw [hfree] at hk; cases hk
  · exact ⟨_, rfl⟩

theorem Pieces.kfindexof_zero (fr : Pieces) : fr.kfindexof 0 = .error .indexof := by
  have hnone : fr.1.pieces.find? (fun p => p.holds 0) = none := by
    rw [List.find?_eq_none]
    intro p hp hholds
    have hhigh := fr.2.high p hp
    simp only [Piece.holds, Bool.and_eq_true, decide_eq_true_eq] at hholds
    omega
  unfold Pieces.kfindexof Mem.kfindexof
  rw [hnone]

theorem Pieces.inUse_kfcallocOne (hrun : fr.kfcallocOne = .ok (fr', id)) (hp : fr.kfpaddrof id = .ok addr) :
    addr % pageSize = 0 ∧ ¬ fr.inUse (addr / pageSize) ∧ ∀ p, fr'.inUse p ↔ p = addr / pageSize ∨ fr.inUse p := by
  obtain ⟨hfree, hmarks⟩ := Pieces.kfcallocOne_spec hrun
  have hpaddr : ∀ j, fr'.kfpaddrof j = fr.kfpaddrof j := hmarks.paddr
  refine ⟨?_, ?_, ?_⟩
  · obtain ⟨k, i, hl, rfl⟩ := kfpaddrof_located fr.2.disjoint hp
    have halign := fr.2.disjoint.aligned _ (pieceAt_mem (locate_split hl).1)
    unfold pageSize at *
    omega
  · intro huse
    have hmarked := huse id addr hp rfl
    rw [hfree] at hmarked
    cases hmarked
  · intro p
    constructor
    · intro huse
      by_cases hself : p = addr / pageSize
      · exact .inl hself
      · right
        intro j a ha hpage
        have hnow := huse j a ((hpaddr j).trans ha) hpage
        rcases (hmarks.allocated j).mp hnow with rfl | hold
        · -- the frame that was taken has the page that was taken
          rw [hp] at ha
          cases ha
          exact absurd hpage.symm hself
        · exact hold
    · intro huse j a ha hpage
      rw [hpaddr j] at ha
      apply (hmarks.allocated j).mpr
      rcases huse with rfl | huse
      · exact .inl (kfpaddrof_inj fr.2.disjoint ha hp hpage)
      · exact .inr (huse j a ha hpage)

end Pieces

end Aex.Mem
