import AexKernel.Mem.InOrder
import AexKernel.Page.Pgfree

/- The calls on pages over any frame allocator: the bodies are those of
   `Page/Alloc.lean`, where the machine has one piece (`kpvallocOn_onePiece` and
   its neighbours), and `kp_dispose_map` is added.

   What a caller knows of the allocator is the contract `RunLawful`. It is kept by
   the allocator of a machine with any number of pieces in order
   (`orderedOps_lawful`). -/
namespace Aex.Page

open Mem (Ordered)

variable {A : Type}

/-- The frame allocator: `run` is `kfpaddrof(kfcalloc(amount))`. -/
structure RunOps (A : Type) extends FrameOps A where
  run : A → Nat → Except Kpanic (Nat × A)

/-- The contract of an allocator. A page is taken when its frame is allocated, and
in use unless its frame is free; `room` says how many free frames are in a row. -/
structure RunLawful (ops : RunOps A) (taken inUse room : A → Nat → Prop) : Prop where
  law : Lawful ops.toFrameSource taken
  one : ∀ a, ops.alloc a = ops.run a 1
  taken_inUse : ∀ a p, taken a p → inUse a p
  unused : ∀ a addr a', ops.alloc a = .ok (addr, a') → ¬ inUse a (pageOf addr)
  aligned : ∀ a n addr a', ops.run a n = .ok (addr, a') → n ≠ 0 → addr % 0x1000 = 0 ∧ addr + n * 0x1000 ≤ 2^64
  fresh : ∀ a n addr a', ops.run a n = .ok (addr, a') → n ≠ 0 → ∀ i < n, ¬ taken a (pageOf addr + i) ∧
    inUse a' (pageOf addr + i)
  stays : ∀ a n addr a', ops.run a n = .ok (addr, a') → n ≠ 0 → (∀ p, taken a p → taken a' p) ∧
    ∀ p, inUse a p → inUse a' p
  less : ∀ a n m, room a (n + m) → room a n
  serves : ∀ a n m, m ≠ 0 → room a (n + m) → ∃ addr a', ops.run a m = .ok (addr, a') ∧ room a' n
  frees : ∀ a addr a', ops.alloc a = .ok (addr, a') → ∃ id a'', ops.indexof a' addr = .ok id ∧ ops.free a' id = .ok a''

/-- What a caller relies on that takes one frame at a time: `room` frames are served
one by one. -/
structure Serving (src : FrameSource A) (room : A → Nat → Prop) : Prop where
  less : ∀ a n m, room a (n + m) → room a n
  serves : ∀ a n, room a (n + 1) → ∃ addr a', src.alloc a = .ok (addr, a') ∧ room a' n

theorem RunLawful.serving {ops : RunOps A} {taken inUse room : A → Nat → Prop} (law : RunLawful ops taken inUse room) :
    Serving ops.toFrameSource room := by
  refine ⟨law.less, ?_⟩
  intro a n hroom
  rw [law.one]
  exact law.serves a n 1 one_ne_zero hroom

section Calls

variable (ops : RunOps A)

/-- The table of `vstart`, made when there is none. -/
def startTableOn (s : PageState A) (map : Pagemap) : Except Kpanic (PageState A × Pagemap) :=
  match findTable s.pg map.vstart map.rootDir with
  | (pg, none) => .ok ({ s with pg := pg }, map)
  | (pg, some _) => mempgFindTableEnsure ops.toFrameSource map.vstart { s with pg := pg } map

/-- `mempg_find_contiguous`: the address found, `none` while the search goes on. -/
def mempgFindContiguousOn (fuel amount : Nat) (s : PageState A) (map : Pagemap) :
    Except Kpanic (Option (Nat × PageState A × Pagemap)) := do
  if amount = 0 then return some (0, s, map)
  let (s, map) ← startTableOn ops s map
  match findContiguousLoop map.rootDir amount fuel s.pg (ptIndex map.vstart) map.vstart map.vstart 0 with
  | none => return none
  | some (pg, start) => return some (start, { s with pg := pg }, map)

/-- The loop of `kpcalloc` and `kpmap`. -/
def assignRangeOn (flags : Nat) : Nat → Nat → Nat → PageState A → Pagemap → Except Kpanic (PageState A × Pagemap)
  | 0, _, _, s, map => .ok (s, map)
  | n + 1, virt, phys, s, map => do
    let (s, map) ← mempgAssign ops.toFrameSource virt phys flags s map
    assignRangeOn flags n (u64 (virt + 0x1000)) (u64 (phys + 0x1000)) s map

/-- `kpcalloc`. -/
def kpcallocOn (fuel amount flags : Nat) (s : PageState A) (map : Pagemap) :
    Except Kpanic (Option (Nat × PageState A × Pagemap)) := do
  if amount = 0 then return some (0, s, map)
  let flags := flags &&& 0x0FFF
  let (phys, frames) ← ops.run s.frames (u32 amount)
  match ← mempgFindContiguousOn ops fuel amount { s with frames := frames } map with
  | none => return none
  | some (start, s, map) =>
    let (s, map) ← assignRangeOn ops flags amount start phys s map
    return some (start, s, { map with framesUsed := u64 (map.framesUsed + amount) })

/-- The loop of `kpvalloc`. -/
def kpvallocLoopOn (flags : Nat) : Nat → Nat → PageState A → Pagemap → Except Kpanic (PageState A × Pagemap)
  | 0, _, s, map => .ok (s, map)
  | n + 1, virt, s, map => do
    let (phys, frames) ← ops.alloc s.frames
    let (s, map) ← mempgAssign ops.toFrameSource virt phys flags { s with frames := frames } map
    kpvallocLoopOn flags n (u64 (virt + 0x1000)) s map

/-- `kpvalloc`. -/
def kpvallocOn (amount virt flags : Nat) (s : PageState A) (map : Pagemap) :
    Except Kpanic (Nat × PageState A × Pagemap) := do
  if amount = 0 then return (0, s, map)
  let (s, map) ← kpvallocLoopOn ops (flags &&& 0x0FFF) amount virt s map
  return (virt, s, { map with framesUsed := u64 (map.framesUsed + amount) })

/-- `kpmap`. -/
def kpmapOn (fuel amount phys flags : Nat) (s : PageState A) (map : Pagemap) :
    Except Kpanic (Option (Nat × PageState A × Pagemap)) := do
  let flags := flags &&& 0x0FFF
  let offset := phys % 0x1000
  let amount := kpmapPages amount phys
  match ← mempgFindContiguousOn ops fuel amount s map with
  | none => return none
  | some (start, s, map) =>
    let (s, map) ← assignRangeOn ops (flags ||| pageNophys) amount start (phys - offset) s map
    return some (u64 (start + offset), s, { map with mapFramesUsed := u64 (map.mapFramesUsed + amount) })

/-- `kffree(kfindexof(addr))`. -/
def freeAt (addr : Nat) (a : A) : Except Kpanic A := do
  let id ← ops.indexof a addr
  ops.free a id

/-- A loop of `_mempg_dispose_dir`: over the entries of a table that are present. -/
def disposeEntries (mem : Nat → Nat → Nat) (page n : Nat) (dispose : Nat → A → Except Kpanic A) (a : A) :
    Except Kpanic A :=
  (List.range n).foldlM (fun a i =>
    if mem page i &&& pagePresent = 0 then .ok a else dispose (maskPage (mem page i)) a) a

/-- `_mempg_dispose_dir`: the tables are freed, and behind them the root. -/
def mempgDisposeDir (mem : Nat → Nat → Nat) (addr : Nat) (a : A) : Except Kpanic A := do
  let disposePd pd a := do
    let a ← disposeEntries mem (pageOf pd) 512 (freeAt ops) a
    freeAt ops pd a
  let disposePdp pdp a := do
    let a ← disposeEntries mem (pageOf pdp) 512 disposePd a
    freeAt ops pdp a
  let a ← disposeEntries mem (pageOf addr) 510 disposePdp a
  freeAt ops addr a

def kpDisposeMap (s : PageState A) (map : Pagemap) : Except Kpanic (PageState A) := do
  let frames ← mempgDisposeDir ops s.pg.mem map.rootDir s.frames
  return { s with frames := frames }

end Calls

/-! ## One piece -/

/-- The allocator of a machine with one piece. -/
def onePieceRuns : RunOps Mem.OnePiece where
  toFrameOps := onePieceOps
  run fr n := do
    let (fr, id) ← fr.kfcalloc n
    let addr ← fr.kfpaddrof id
    return (addr, fr)

theorem assignRangeOn_onePiece (flags : Nat) : ∀ (n virt phys : Nat) (s : Memory) (map : Pagemap),
    assignRangeOn onePieceRuns flags n virt phys s map = assignRange flags n virt phys s map := by
  intro n
  induction n with
  | zero => intro virt phys s map; rfl
  | succ n ih =>
    intro virt phys s map
    unfold assignRangeOn assignRange
    simp only [ih]
    rfl

theorem mempgFindContiguousOn_onePiece (fuel amount : Nat) (s : Memory) (map : Pagemap) :
    mempgFindContiguousOn onePieceRuns fuel amount s map = mempgFindContiguous fuel amount s map := by
  unfold mempgFindContiguousOn mempgFindContiguous
  rfl

theorem kpvallocLoopOn_onePiece (flags : Nat) : ∀ (n virt : Nat) (s : Memory) (map : Pagemap),
    kpvallocLoopOn onePieceRuns flags n virt s map = kpvallocLoop flags n virt s map := by
  intro n
  induction n with
  | zero => intro virt s map; rfl
  | succ n ih =>
    intro virt s map
    unfold kpvallocLoopOn kpvallocLoop
    simp only [ih]
    rfl

theorem kpvallocOn_onePiece (amount virt flags : Nat) (s : Memory) (map : Pagemap) :
    kpvallocOn onePieceRuns amount virt flags s map = kpvalloc amount virt flags s map := by
  unfold kpvallocOn kpvalloc
  simp only [kpvallocLoopOn_onePiece]

theorem kpmapOn_onePiece (fuel amount phys flags : Nat) (s : Memory) (map : Pagemap) :
    kpmapOn onePieceRuns fuel amount phys flags s map = kpmap fuel amount phys flags s map := by
  unfold kpmapOn kpmap
  simp only [assignRangeOn_onePiece, mempgFindContiguousOn_onePiece]
  congr 1
  funext found
  cases found with
  | none => rfl
  | some r => rfl

theorem kpcallocOn_onePiece (fuel amount flags : Nat) (s : Memory) (map : Pagemap) :
    kpcallocOn onePieceRuns fuel amount flags s map = kpcalloc fuel amount flags s map := by
  unfold kpcallocOn kpcalloc
  have hrun : ∀ (fr : Mem.OnePiece) (n : Nat), onePieceRuns.run fr n =
      (do let (fr, id) ← fr.kfcalloc n; let addr ← fr.kfpaddrof id; return (addr, fr)) := fun _ _ => rfl
  simp only [assignRangeOn_onePiece, mempgFindContiguousOn_onePiece, hrun, bind_assoc, pure_bind]
  congr 2
  funext taken
  congr 1
  funext phys
  congr 1
  funext found
  cases found with
  | none => rfl
  | some r => rfl

/-! ## Pieces in order -/

/-- The allocator of a machine whose pieces lie in order. -/
def orderedOps : RunOps Ordered where
  alloc fr := fr.run 1
  indexof := Ordered.kfindexof
  free := Ordered.kffree
  run := Ordered.run

theorem orderedOps_lawful : RunLawful orderedOps Ordered.taken Ordered.inUse Ordered.room where
  law := by
    refine ⟨fun fr addr fr' h => (Ordered.run_pages one_ne_zero h).1, fun fr addr fr' h => ?_,
      fun fr addr fr' h => (Ordered.run_one h).2⟩
    intro htaken
    exact (Ordered.run_one h).1 (Ordered.taken_inUse htaken)
  one _ := rfl
  taken_inUse _ _ h := Ordered.taken_inUse h
  unused _ _ _ h := (Ordered.run_one h).1
  aligned _ _ _ _ h hn := ⟨(Ordered.run_pages hn h).1, (Ordered.run_pages hn h).2.1⟩
  fresh _ _ _ _ h hn := (Ordered.run_pages hn h).2.2.1
  stays _ _ _ _ h hn := (Ordered.run_pages hn h).2.2.2
  less _ _ _ h := Ordered.room_less h
  serves _ _ _ hm h := Ordered.run_serves hm h
  frees _ _ _ h := Ordered.run_frees h

end Aex.Page
