import AexKernel.Lib.IdSet
import AexKernel.Lib.Lockstep
import AexKernel.Mem.InOrder

/- The frame allocator as a set of ids.

   Whatever the pieces are, and wherever a run of ids crosses from one of their
   bitmaps to the next, `kfalloc`, `kffree`, `kfisfree` and `kfcalloc` do to the
   bitmaps what the operations of `IdSet` do to a set of ids, with the same answers
   and the same refusals, and `frames_used` is the size of the set. -/
namespace Aex.Mem

/-- The ids marked allocated. -/
def Frames.ids (fr : Frames) : Finset Nat := (Finset.range fr.framesPossible).filter (fun id => fr.allocated id = true)

/-- The set that the bitmaps stand for. -/
def Frames.idSet (fr : Frames) : IdSet where
  size := fr.framesPossible
  ids := fr.ids
  below _ hid := Finset.mem_range.mp (Finset.mem_filter.mp hid).1

/-- The pieces have `frames_possible` frames, and `frames_used` counts the marked
ones. -/
structure Frames.Counted (fr : Frames) : Prop where
  sum : usableSum fr.pieces = fr.framesPossible
  small : fr.framesPossible < 2^32
  used : fr.framesUsed = fr.ids.card

/-- A call that takes an id or looks for one. -/
inductive FrameCall where
  | kfalloc (id : Nat)
  | kffree (id : Nat)
  | kfisfree (id : Nat)
  | kfcalloc (amount : Nat)
  deriving DecidableEq, Repr

/-- What a call returns; the address that `kfalloc` returns is that of `kfpaddrof`. -/
inductive FrameAnswer where
  | done
  | free (b : Bool)
  | start (id : Nat)
  deriving DecidableEq, Repr

/-- The call on the pieces. -/
def FrameCall.result : FrameCall → Frames → Except Kpanic (Frames × FrameAnswer)
  | .kfalloc id, fr => (Mem.kfalloc fr id).map (fun r => (r.1, .done))
  | .kffree id, fr => (Mem.kffree fr id).map (fun fr' => (fr', .done))
  | .kfisfree id, fr => (Mem.kfisfree fr id).map (fun b => (fr, .free b))
  | .kfcalloc amount, fr => (Mem.kfcalloc fr amount).map (fun r => (r.1, .start r.2))

/-- A refusal is a panic. -/
def orPanic {α : Type} (p : Kpanic) : Option α → Except Kpanic α
  | none => .error p
  | some a => .ok a

/-- The call on the set. -/
def FrameCall.spec : FrameCall → IdSet → Except Kpanic (IdSet × FrameAnswer)
  | .kfalloc id, s => orPanic .allocFrame ((s.take id).map (fun t => (t, .done)))
  | .kffree id, s => orPanic .unallocFrame ((s.give id).map (fun t => (t, .done)))
  | .kfisfree id, s => orPanic .unallocFrame ((s.isFree id).map (fun b => (s, .free b)))
  | .kfcalloc amount, s =>
    if amount = 0 then .ok (s, .start 0)
    else orPanic .contiguousFrames ((s.takeRun amount).map (fun r => (r.1, .start r.2)))

section FrameSet

variable {fr fr' : Frames} {id : Nat}

theorem mem_ids : id ∈ fr.ids ↔ id < fr.framesPossible ∧ fr.allocated id = true := by
  unfold Frames.ids
  rw [Finset.mem_filter, Finset.mem_range]

theorem Frames.Counted.locate_cases (h : fr.Counted) (id : Nat) :
    (id < fr.framesPossible ∧ ∃ k i, locate fr.framesPossible fr.pieces id = some (k, i)) ∨
      (fr.framesPossible ≤ id ∧ locate fr.framesPossible fr.pieces id = none) := by
  have hsum := h.sum
  cases hl : locate fr.framesPossible fr.pieces id with
  | some r =>
    obtain ⟨k, i⟩ := r
    have hlt := locate_lt hl
    exact .inl ⟨by omega, k, i, rfl⟩
  | none =>
    right
    refine ⟨?_, rfl⟩
    apply Nat.le_of_not_lt
    intro hlt
    obtain ⟨k, i, hsome⟩ := locate_of_lt (show id < usableSum fr.pieces by omega) (show _ ≤ fr.framesPossible by omega)
    rw [hl] at hsome
    cases hsome

theorem allocated_located {k i : Nat} (hl : locate fr.framesPossible fr.pieces id = some (k, i)) :
    Words.get (pieceAt fr.pieces k).bitmap i = fr.allocated id := by
  unfold Frames.allocated
  rw [hl]

theorem ids_of_remarked {now : Nat → Prop} (hm : Remarked fr fr' now) (hpossible : fr'.framesPossible = fr.framesPossible)
    {ids : Finset Nat} (hids : ∀ j, j ∈ ids ↔ j < fr.framesPossible ∧ now j) : fr'.ids = ids := by
  apply Finset.ext
  intro j
  rw [mem_ids, hids, hpossible, hm.allocated j]

theorem Frames.Counted.of_shape (h : fr.Counted) (hshape : fr'.pieces.map Piece.shape = fr.pieces.map Piece.shape)
    (hpossible : fr'.framesPossible = fr.framesPossible) (hused : fr'.framesUsed = fr'.ids.card) : fr'.Counted := by
  refine ⟨?_, ?_, hused⟩
  · rw [usableSum_shape hshape, hpossible]
    exact h.sum
  · rw [hpossible]
    exact h.small

theorem ids_card_le (fr : Frames) : fr.ids.card ≤ fr.framesPossible := by
  have hle := Finset.card_filter_le (Finset.range fr.framesPossible) (fun id => fr.allocated id = true)
  rw [Finset.card_range] at hle
  exact hle

/-! ## One frame -/

/-- Marking a frame puts its id in the set; the counter moves if it was not there. -/
theorem memfrAllocInternal_set (h : fr.Counted) (hid : id < fr.framesPossible) :
    ∃ fr' addr, memfrAllocInternal fr id = .ok (fr', addr) ∧ fr'.Counted ∧ fr'.framesPossible = fr.framesPossible ∧
      fr'.ids = insert id fr.ids := by
  rcases h.locate_cases id with ⟨-, k, i, hl⟩ | ⟨hge, -⟩
  swap
  · omega
  obtain ⟨fr', addr, hrun, hused⟩ : ∃ fr' addr, memfrAllocInternal fr id = .ok (fr', addr) ∧
      fr'.framesUsed = if fr.allocated id then fr.framesUsed else u64 (fr.framesUsed + 1) := by
    unfold memfrAllocInternal
    rw [hl]
    refine ⟨_, _, rfl, ?_⟩
    simp only [allocated_located hl]
  obtain ⟨hmark, hshape, hpossible⟩ := memfrAllocInternal_remarked hrun
  have hids : fr'.ids = insert id fr.ids := by
    apply ids_of_remarked hmark hpossible
    intro j
    rw [Finset.mem_insert, mem_ids]
    constructor
    · rintro (rfl | hj)
      · exact ⟨hid, .inl rfl⟩
      · exact ⟨hj.1, .inr hj.2⟩
    · rintro ⟨hj, rfl | ha⟩
      · exact .inl rfl
      · exact .inr ⟨hj, ha⟩
  refine ⟨fr', addr, hrun, h.of_shape hshape hpossible ?_, hpossible, hids⟩
  have hcard := ids_card_le fr
  have hsmall := h.small
  have hold := h.used
  rw [hused, hids]
  cases ha : fr.allocated id with
  | true =>
    have hin : id ∈ fr.ids := mem_ids.mpr ⟨hid, ha⟩
    rw [Finset.insert_eq_self.mpr hin]
    exact hold
  | false =>
    have hout : id ∉ fr.ids := by
      intro hin
      rw [(mem_ids.mp hin).2] at ha
      cases ha
    rw [Finset.card_insert_of_notMem hout, ← hold]
    exact u64_eq (by omega)

theorem kffree_set (h : fr.Counted) (hid : id < fr.framesPossible) :
    ∃ fr', kffree fr id = .ok fr' ∧ fr'.Counted ∧ fr'.framesPossible = fr.framesPossible ∧ fr'.ids = fr.ids.erase id := by
  rcases h.locate_cases id with ⟨-, k, i, hl⟩ | ⟨hge, -⟩
  swap
  · omega
  obtain ⟨fr', hrun, hused⟩ : ∃ fr', kffree fr id = .ok fr' ∧
      fr'.framesUsed = if fr.allocated id then u64 (fr.framesUsed + (2^64 - 1)) else fr.framesUsed := by
    unfold kffree
    rw [hl]
    refine ⟨_, rfl, ?_⟩
    simp only [allocated_located hl]
  obtain ⟨hshape, hpossible⟩ := kffree_shape hrun
  have hids : fr'.ids = fr.ids.erase id := by
    apply ids_of_remarked (kffree_remarked hrun) hpossible
    intro j
    rw [Finset.mem_erase, mem_ids]
    constructor
    · intro hj
      exact ⟨hj.2.1, hj.2.2, hj.1⟩
    · intro hj
      exact ⟨hj.2.2, hj.1, hj.2.1⟩
  refine ⟨fr', hrun, h.of_shape hshape hpossible ?_, hpossible, hids⟩
  have hcard := ids_card_le fr
  have hsmall := h.small
  have hold := h.used
  rw [hused, hids]
  cases ha : fr.allocated id with
  | true =>
    have hin : id ∈ fr.ids := mem_ids.mpr ⟨hid, ha⟩
    have hpos : 0 < fr.ids.card := Finset.card_pos.mpr ⟨id, hin⟩
    rw [Finset.card_erase_of_mem hin, ← hold]
    simp only [if_true]
    unfold u64
    omega
  | false =>
    have hout : id ∉ fr.ids := by
      intro hin
      rw [(mem_ids.mp hin).2] at ha
      cases ha
    rw [Finset.erase_eq_self.mpr hout]
    exact hold

/-! ## Runs of frames -/

theorem allocRun_set : ∀ (n : Nat) {fr : Frames} {id : Nat}, fr.Counted → id + n ≤ fr.framesPossible →
    ∃ fr', allocRun fr id n = .ok fr' ∧ fr'.Counted ∧ fr'.framesPossible = fr.framesPossible ∧
      fr'.ids = fr.ids ∪ Finset.Ico id (id + n) := by
  intro n
  induction n with
  | zero =>
    intro fr id h _
    refine ⟨fr, rfl, h, rfl, ?_⟩
    rw [Nat.add_zero, Finset.Ico_self, Finset.union_empty]
  | succ n ih =>
    intro fr id h hin
    obtain ⟨fr₁, addr, hone, h₁, hp₁, hids₁⟩ := memfrAllocInternal_set h (show id < fr.framesPossible by omega)
    obtain ⟨fr', hrest, h', hp', hids'⟩ := ih h₁ (show id + 1 + n ≤ fr₁.framesPossible by omega)
    refine ⟨fr', ?_, h', hp'.trans hp₁, ?_⟩
    · unfold allocRun
      rw [hone]
      exact hrest
    · rw [hids', hids₁]
      apply Finset.ext
      intro j
      rw [Finset.mem_union, Finset.mem_union, Finset.mem_insert, Finset.mem_Ico, Finset.mem_Ico]
      by_cases hj : j = id
      · simp only [hj, true_or, true_iff]
        exact .inr ⟨Nat.le_refl _, by omega⟩
      · simp only [hj, false_or]
        constructor
        · rintro (ha | hr)
          · exact .inl ha
          · exact .inr (by omega)
        · rintro (ha | hr)
          · exact .inl ha
          · exact .inr (by omega)

theorem freeRun_iff (amount t : Nat) : fr.idSet.FreeRun amount t ↔
    t + amount ≤ fr.framesPossible ∧ FirstFit.Fits (fun j => !fr.allocated j) amount t := by
  unfold IdSet.FreeRun FirstFit.Fits
  show (t + amount ≤ fr.framesPossible ∧ ∀ i < amount, t + i ∉ fr.ids) ↔ _
  constructor
  · intro ⟨hin, hfree⟩
    refine ⟨hin, ?_⟩
    intro j hj hj'
    have hout := hfree (j - t) (by omega)
    rw [Nat.add_sub_cancel' hj, mem_ids] at hout
    show (!fr.allocated j) = true
    rw [Bool.not_eq_true', ← Bool.not_eq_true]
    exact fun ha => hout ⟨by omega, ha⟩
  · intro ⟨hin, hfits⟩
    refine ⟨hin, ?_⟩
    intro i hi hmem
    have hfree : (!fr.allocated (t + i)) = true := hfits (t + i) (by omega) (by omega)
    rw [(mem_ids.mp hmem).2] at hfree
    cases hfree

theorem kfcallocScan_set (h : fr.Counted) {amount : Nat} (hpos : amount ≠ 0) :
    kfcallocScan fr amount fr.framesPossible 0 none 0 = orPanic .contiguousFrames (fr.idSet.leastRun amount) := by
  have hsum := h.sum
  have hspec := @FirstFit.scan_spec (fun j => !fr.allocated j) amount fr.framesPossible 0 0 none rfl
    (Nat.pos_of_ne_zero hpos) (fun j _ hj => absurd hj (Nat.not_lt_zero j)) (fun t ht => absurd ht (Nat.not_lt_zero t))
  rw [Nat.zero_add] at hspec
  rw [kfcallocScan_eq amount fr.framesPossible 0 0 none (Nat.zero_le _) (by omega), Nat.sub_zero, Nat.min_eq_left (by omega),
    if_pos (by omega)]
  cases hfound : FirstFit.scan (fun j => !fr.allocated j) amount fr.framesPossible 0 none 0 with
  | none =>
    have hnone : fr.idSet.leastRun amount = none := by
      rw [IdSet.leastRun_eq_none_iff]
      intro t hrun
      obtain ⟨hin, hfits⟩ := (freeRun_iff amount t).mp hrun
      exact hspec.2 hfound t hin hfits
    rw [hnone]
    rfl
  | some s =>
    obtain ⟨hend, hfits, hleast⟩ := hspec.1 s hfound
    have hsome : fr.idSet.leastRun amount = some s := by
      rw [IdSet.leastRun_eq_some_iff]
      refine ⟨(freeRun_iff amount s).mpr ⟨hend, hfits⟩, ?_⟩
      intro t ht hrun
      exact hleast t ht ((freeRun_iff amount t).mp hrun).2
    rw [hsome]
    rfl

/-! ## Calls -/

theorem FrameCall.result_set (call : FrameCall) (h : fr.Counted) :
    (call.result fr).map (fun r => (r.1.idSet, r.2)) = call.spec fr.idSet ∧
      ∀ fr' a, call.result fr = .ok (fr', a) → fr'.Counted := by
  cases call with
  | kfalloc id =>
    rcases h.locate_cases id with ⟨hid, -⟩ | ⟨hge, hl⟩
    · obtain ⟨fr', addr, hrun, h', hp, hids⟩ := memfrAllocInternal_set h hid
      have hset : fr.idSet.take id = some fr'.idSet := by
        unfold IdSet.take
        rw [dif_pos (show id < fr.idSet.size from hid), Option.some.injEq, IdSet.ext_iff]
        exact ⟨hp.symm, hids.symm⟩
      simp only [FrameCall.result, FrameCall.spec, Mem.kfalloc, hrun, hset]
      refine ⟨rfl, ?_⟩
      intro fr'' a hok
      cases hok
      exact h'
    · have hset : fr.idSet.take id = none := dif_neg (Nat.not_lt.mpr hge)
      simp only [FrameCall.result, FrameCall.spec, Mem.kfalloc, memfrAllocInternal, hl, hset]
      refine ⟨rfl, ?_⟩
      intro fr'' a hok
      cases hok
  | kffree id =>
    rcases h.locate_cases id with ⟨hid, -⟩ | ⟨hge, hl⟩
    · obtain ⟨fr', hrun, h', hp, hids⟩ := kffree_set h hid
      have hset : fr.idSet.give id = some fr'.idSet := by
        unfold IdSet.give
        rw [if_pos (show id < fr.idSet.size from hid), Option.some.injEq, IdSet.ext_iff]
        exact ⟨hp.symm, hids.symm⟩
      simp only [FrameCall.result, FrameCall.spec, hrun, hset]
      refine ⟨rfl, ?_⟩
      intro fr'' a hok
      cases hok
      exact h'
    · have hset : fr.idSet.give id = none := if_neg (Nat.not_lt.mpr hge)
      simp only [FrameCall.result, FrameCall.spec, Mem.kffree, hl, hset]
      refine ⟨rfl, ?_⟩
      intro fr'' a hok
      cases hok
  | kfisfree id =>
    rcases h.locate_cases id with ⟨hid, k, i, hl⟩ | ⟨hge, hl⟩
    · have hset : fr.idSet.isFree id = some (!fr.allocated id) := by
        unfold IdSet.isFree
        rw [if_pos (show id < fr.idSet.size from hid), Option.some.injEq]
        have hmem : decide (id ∈ fr.idSet.ids) = fr.allocated id := by
          rw [Bool.eq_iff_iff, decide_eq_true_iff]
          exact mem_ids.trans ⟨fun hin => hin.2, fun ha => ⟨hid, ha⟩⟩
        rw [decide_not, hmem]
      simp only [FrameCall.result, FrameCall.spec, Mem.kfisfree, hl, hset, allocated_located hl]
      refine ⟨rfl, ?_⟩
      intro fr'' a hok
      cases hok
      exact h
    · have hset : fr.idSet.isFree id = none := if_neg (Nat.not_lt.mpr hge)
      simp only [FrameCall.result, FrameCall.spec, Mem.kfisfree, hl, hset]
      refine ⟨rfl, ?_⟩
      intro fr'' a hok
      cases hok
  | kfcalloc amount =>
    by_cases hz : amount = 0
    · simp only [FrameCall.result, FrameCall.spec, Mem.kfcalloc, if_pos hz]
      refine ⟨rfl, ?_⟩
      intro fr'' a hok
      cases hok
      exact h
    · have hscan := kfcallocScan_set h hz
      simp only [FrameCall.result, FrameCall.spec, Mem.kfcalloc, if_neg hz, hscan]
      cases hfound : fr.idSet.leastRun amount with
      | none =>
        rw [IdSet.takeRun_none hfound]
        refine ⟨rfl, ?_⟩
        intro fr'' a hok
        cases hok
      | some s =>
        have hin : s + amount ≤ fr.framesPossible := (IdSet.leastRun_eq_some_iff.mp hfound).1.1
        obtain ⟨fr', hrun, h', hp, hids⟩ := allocRun_set amount h hin
        obtain ⟨t, htake, hsize, htids⟩ := IdSet.takeRun_some hfound
        have ht : t = fr'.idSet := by
          rw [IdSet.ext_iff]
          exact ⟨hsize.trans hp.symm, htids.trans hids.symm⟩
        rw [htake, ht]
        simp only [orPanic, bind, Except.bind, hrun]
        refine ⟨rfl, ?_⟩
        intro fr'' a hok
        cases hok
        exact h'

end FrameSet

/-- Over any list of calls the pieces answer as the set of allocated ids does, and
`frames_used` is the number of its members. -/
theorem frames_refine_set (fr : Frames) (h : fr.Counted) (calls : List FrameCall) :
    (Lockstep.runCalls FrameCall.result calls fr).map (fun r => (r.1.idSet, r.2)) =
        Lockstep.runCalls FrameCall.spec calls fr.idSet ∧
      ∀ fr' answers, Lockstep.runCalls FrameCall.result calls fr = .ok (fr', answers) → fr'.Counted :=
  Lockstep.runCalls_commutes (fun call _ hc => call.result_set hc) calls fr h

theorem twoPieces_counted : twoPieces.Counted := ⟨by decide, by decide, by decide⟩

/-- A frame taken twice, and one given back twice. -/
theorem frames_refine_set_twoPieces : ∃ fr', Lockstep.runCalls FrameCall.result
      [.kfcalloc 1, .kfalloc 0, .kffree 1, .kffree 1, .kfisfree 1] twoPieces =
        .ok (fr', [.start 0, .done, .done, .done, .free true]) ∧ fr'.framesUsed = 1 ∧ fr'.Counted := by
  obtain ⟨fr', hrun, hused⟩ : ∃ fr', Lockstep.runCalls FrameCall.result
      [.kfcalloc 1, .kfalloc 0, .kffree 1, .kffree 1, .kfisfree 1] twoPieces =
        .ok (fr', [.start 0, .done, .done, .done, .free true]) ∧ fr'.framesUsed = 1 := ⟨_, rfl, rfl⟩
  exact ⟨fr', hrun, hused, (frames_refine_set twoPieces twoPieces_counted _).2 _ _ hrun⟩

end Aex.Mem
