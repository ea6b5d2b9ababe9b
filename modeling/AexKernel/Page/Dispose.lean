import AexKernel.Lib.Postorder
import AexKernel.Page.Calls

/- `_mempg_dispose_dir` with its window.

   The three loops read the tables through one window: the two outer ones aim it
   before each entry, since a table below has been aimed at in the meantime, and the
   inner one reads on through it. Freeing a frame does not write to it, so the loops
   free what `mempgDisposeDir` frees, which reads memory (`disposeDirAimed_follows`); and
   this is the tables in postorder, each once (`mempgDisposeDir_eq`).

   `logged` is an allocator that also keeps a list of the ids it has freed. -/
namespace Aex.Page

open Radix (postorder behindEntry)
open Mem (OnePiece pageSize)

variable {A : Type}

/-- A loop over the entries of a table that are present, at which the window is aimed
before each of them. -/
def aimedEntries (addr n : Nat) (dispose : Nat → Paging × A → Except Kpanic (Paging × A)) (st : Paging × A) :
    Except Kpanic (Paging × A) :=
  (List.range n).foldlM (fun st i =>
    let pg := st.1.aimAt addr
    if pg.read i &&& pagePresent = 0 then .ok (pg, st.2) else dispose (maskPage (pg.read i)) (pg, st.2)) st

section Source

variable (ops : RunOps A)

/-- The innermost loop: the tables of a page directory, through the window as it is. -/
def disposePts (pg : Paging) (a : A) : Except Kpanic A :=
  (List.range 512).foldlM (fun a pdi =>
    if pg.read pdi &&& pagePresent = 0 then .ok a else freeAt ops (maskPage (pg.read pdi)) a) a

/-- `_mempg_dispose_dir`, with the window. -/
def disposeDirAimed (addr : Nat) (st : Paging × A) : Except Kpanic (Paging × A) := do
  let disposePd pd st := do
    let pg := Paging.aimAt st.1 pd
    let a ← disposePts ops pg st.2
    let a ← freeAt ops pd a
    return (pg, a)
  let disposePdp pdp st := do
    let (pg, a) ← aimedEntries pdp 512 disposePd st
    let a ← freeAt ops pdp a
    return (pg, a)
  let (pg, a) ← aimedEntries addr 510 disposePdp st
  let a ← freeAt ops addr a
  return (pg, a)

/-- `kp_dispose_map`, with the window. -/
def kpDisposeMapAimed (s : PageState A) (map : Pagemap) : Except Kpanic (PageState A) := do
  let (pg, frames) ← disposeDirAimed ops map.rootDir (s.pg, s.frames)
  return ⟨pg, frames⟩

end Source

/-- An allocator that keeps a list of the ids it has freed. -/
def logged (ops : RunOps A) : RunOps (A × List Nat) where
  alloc a := do
    let (addr, a') ← ops.alloc a.1
    return (addr, a', a.2)
  indexof a addr := ops.indexof a.1 addr
  free a id := do
    let a' ← ops.free a.1 id
    return (a', a.2 ++ [id])
  run a n := do
    let (addr, a') ← ops.run a.1 n
    return (addr, a', a.2)

/-! ## The window -/

/-- A loop with the window does what one on memory does, and memory stays. -/
def Follows (mem : Nat → Nat → Nat) (aimed : Paging × A → Except Kpanic (Paging × A)) (plain : A → Except Kpanic A) : Prop :=
  ∀ st, st.1.mem = mem → ∃ pg : Paging, pg.mem = mem ∧ aimed st = (plain st.2).map (fun a => (pg, a))

section Window

variable {ops : RunOps A} {mem : Nat → Nat → Nat}

theorem Follows.bind {aimed : Paging × A → Except Kpanic (Paging × A)} {plain : A → Except Kpanic A}
    (h : Follows mem aimed plain) (f : A → Except Kpanic A) :
    Follows mem (fun st => do let (pg, a) ← aimed st; let a ← f a; return (pg, a)) (fun a => plain a >>= f) := by
  intro st hst
  obtain ⟨pg, hpg, heq⟩ := h st hst
  refine ⟨pg, hpg, ?_⟩
  simp only [heq]
  cases plain st.2 with
  | error p => rfl
  | ok a =>
    show (f a >>= fun a => pure (pg, a)) = (f a).map (fun a => (pg, a))
    cases f a with
    | error p => rfl
    | ok a' => rfl

theorem aimedEntries_follows (addr n : Nat) {dispose : Nat → Paging × A → Except Kpanic (Paging × A)}
    {plain : Nat → A → Except Kpanic A} (hdispose : ∀ t, Follows mem (dispose t) (plain t)) :
    Follows mem (aimedEntries addr n dispose) (disposeEntries mem (pageOf addr) n plain) := by
  unfold aimedEntries disposeEntries
  induction List.range n with
  | nil =>
    intro st hst
    exact ⟨st.1, hst, rfl⟩
  | cons i rest ih =>
    intro st hst
    have hread : (st.1.aimAt addr).read i = mem (pageOf addr) i := by
      rw [← hst]
      rfl
    simp only [List.foldlM_cons, hread]
    by_cases habs : mem (pageOf addr) i &&& pagePresent = 0
    · simp only [if_pos habs]
      exact ih (st.1.aimAt addr, st.2) hst
    · simp only [if_neg habs]
      obtain ⟨pg, hpg, heq⟩ := hdispose (maskPage (mem (pageOf addr) i)) (st.1.aimAt addr, st.2) hst
      rw [heq]
      cases plain (maskPage (mem (pageOf addr) i)) st.2 with
      | error p => exact ⟨pg, hpg, rfl⟩
      | ok a => exact ih (pg, a) hpg

theorem disposeDirAimed_follows (addr : Nat) :
    Follows mem (disposeDirAimed ops addr) (mempgDisposeDir ops mem addr) := by
  have hpd : ∀ pd, Follows mem (fun st => do
      let a ← disposePts ops (Paging.aimAt st.1 pd) st.2
      let a ← freeAt ops pd a
      return (Paging.aimAt st.1 pd, a))
      (fun a => disposeEntries mem (pageOf pd) 512 (freeAt ops) a >>= freeAt ops pd) := by
    intro pd st hst
    refine ⟨st.1.aimAt pd, hst, ?_⟩
    have hpts : disposePts ops (Paging.aimAt st.1 pd) st.2 = disposeEntries mem (pageOf pd) 512 (freeAt ops) st.2 := by
      rw [← hst]
      rfl
    simp only [hpts]
    cases disposeEntries mem (pageOf pd) 512 (freeAt ops) st.2 with
    | error p => rfl
    | ok a =>
      show (freeAt ops pd a >>= fun a => pure (st.1.aimAt pd, a)) = (freeAt ops pd a).map (fun a => (st.1.aimAt pd, a))
      cases freeAt ops pd a with
      | error p => rfl
      | ok a' => rfl
  have hpdp := fun pdp => (aimedEntries_follows pdp 512 hpd).bind (freeAt ops pdp)
  exact (aimedEntries_follows addr 510 hpdp).bind (freeAt ops addr)

end Window

/-! ## The tables in postorder -/

/-- The entries that the loops look at: the last two of the root are left out. -/
def dirWidth (d : Nat) : Nat := if d = 2 then 510 else 512

/-- The frames of some pages are freed. -/
def freePages (ops : RunOps A) (pages : List Nat) (a : A) : Except Kpanic A :=
  pages.foldlM (fun a p => freeAt ops (p * 0x1000) a) a

section Postorder

variable {ops : RunOps A} {mem : Nat → Nat → Nat}

theorem freePages_append (ops : RunOps A) (ps qs : List Nat) (a : A) :
    freePages ops (ps ++ qs) a = freePages ops ps a >>= freePages ops qs := List.foldlM_append

theorem freePages_singleton (ops : RunOps A) (p : Nat) (a : A) : freePages ops [p] a = freeAt ops (p * 0x1000) a := by
  unfold freePages
  rw [List.foldlM_cons]
  simp only [List.foldlM_nil]
  exact bind_pure _

theorem disposeEntries_eq {dispose : Nat → A → Except Kpanic A} {sub : Nat → List (List Nat × Nat)}
    (hdispose : ∀ t a, dispose (t * 0x1000) a = freePages ops ((sub t).map Prod.snd) a) (t n : Nat) (a : A) :
    disposeEntries mem t n dispose a =
      freePages ops (((List.range n).flatMap (fun i => behindEntry sub i (entryChild (mem t i)))).map Prod.snd) a := by
  unfold disposeEntries
  induction List.range n generalizing a with
  | nil => rfl
  | cons i rest ih =>
    rw [List.foldlM_cons, List.flatMap_cons, List.map_append, freePages_append]
    by_cases habs : mem t i &&& pagePresent = 0
    · have hnone : entryChild (mem t i) = none := if_pos habs
      rw [if_pos habs, hnone]
      exact ih a
    · have hchild : entryChild (mem t i) = some (pageOf (mem t i)) := if_neg habs
      have hmask : maskPage (mem t i) = pageOf (mem t i) * 0x1000 := rfl
      have hbehind : (behindEntry sub i (some (pageOf (mem t i)))).map Prod.snd = (sub (pageOf (mem t i))).map Prod.snd := by
        show ((sub (pageOf (mem t i))).map (fun n => (i :: n.1, n.2))).map Prod.snd = _
        rw [List.map_map]
        rfl
      rw [if_neg habs, hchild, hbehind, hmask, hdispose]
      congr 1
      funext a'
      exact ih a'

theorem pageOf_mul (t : Nat) : pageOf (t * 0x1000) = t := Nat.mul_div_cancel t (by decide)

theorem disposeTable_eq {dispose : Nat → A → Except Kpanic A} {d : Nat}
    (hdispose : ∀ t a, dispose (t * 0x1000) a = freePages ops ((postorder entryChild mem dirWidth d t).map Prod.snd) a)
    (t : Nat) (a : A) : (disposeEntries mem (pageOf (t * 0x1000)) (dirWidth d) dispose a >>= freeAt ops (t * 0x1000)) =
      freePages ops ((postorder entryChild mem dirWidth (d + 1) t).map Prod.snd) a := by
  rw [pageOf_mul, disposeEntries_eq hdispose]
  show _ = freePages ops ((_ ++ [([], t)]).map Prod.snd) a
  rw [List.map_append, freePages_append]
  congr 1
  funext a'
  exact (freePages_singleton ops t a').symm

theorem mempgDisposeDir_eq (ops : RunOps A) (mem : Nat → Nat → Nat) (r : Nat) (a : A) :
    mempgDisposeDir ops mem (r * 0x1000) a =
      freePages ops ((postorder entryChild mem dirWidth 3 r).map Prod.snd) a := by
  have hpt : ∀ t a, freeAt ops (t * 0x1000) a = freePages ops ((postorder entryChild mem dirWidth 0 t).map Prod.snd) a :=
    fun t a => (freePages_singleton ops t a).symm
  have hpd : ∀ t a, (disposeEntries mem (pageOf (t * 0x1000)) (dirWidth 0) (freeAt ops) a >>= freeAt ops (t * 0x1000)) =
      freePages ops ((postorder entryChild mem dirWidth 1 t).map Prod.snd) a := fun t a => disposeTable_eq hpt t a
  have hpdp := fun t a => @disposeTable_eq A ops mem (fun pd a =>
    disposeEntries mem (pageOf pd) (dirWidth 0) (freeAt ops) a >>= freeAt ops pd) 1 hpd t a
  have hroot := fun t a => @disposeTable_eq A ops mem (fun pdp a =>
    disposeEntries mem (pageOf pdp) (dirWidth 1) (fun pd a =>
      disposeEntries mem (pageOf pd) (dirWidth 0) (freeAt ops) a >>= freeAt ops pd) a >>= freeAt ops pdp) 2 hpdp t a
  have hlast : dirWidth 0 = 512 := rfl
  have hmiddle : dirWidth 1 = 512 := rfl
  have hfirst : dirWidth 2 = 510 := rfl
  rw [← hroot, hlast, hmiddle, hfirst]
  rfl

end Postorder

/-! ## One piece -/

theorem freePages_logged : ∀ (pages : List Nat) (fr : OnePiece) (log : List Nat), pages.Nodup →
    (∀ p ∈ pages, p ∈ fr.marked) → ∃ fr' ids, freePages (logged onePieceRuns) pages (fr, log) = .ok (fr', log ++ ids) ∧
      freePages onePieceRuns pages fr = .ok fr' ∧ ids.map fr.page = pages ∧
      ∀ q, q ∈ fr'.marked ↔ q ∈ fr.marked ∧ q ∉ pages := by
  intro pages
  induction pages with
  | nil =>
    intro fr log _ _
    refine ⟨fr, [], ?_, rfl, rfl, ?_⟩
    · rw [List.append_nil]
      rfl
    · intro q
      exact ⟨fun hq => ⟨hq, List.not_mem_nil⟩, fun hq => hq.1⟩
  | cons p rest ih =>
    intro fr log hnodup hmarked
    obtain ⟨hp, hrest⟩ := List.nodup_cons.mp hnodup
    obtain ⟨id, fr₁, hindex, hfree, hpage, hpages, hmarks⟩ := OnePiece.kffree_page (hmarked p List.mem_cons_self)
    have hone : freeAt onePieceRuns (p * 0x1000) fr = .ok fr₁ := by
      have hindex' : onePieceRuns.indexof fr (p * 0x1000) = .ok id := hindex
      have hfree' : onePieceRuns.free fr id = .ok fr₁ := hfree
      unfold freeAt
      rw [hindex']
      exact hfree'
    have hlog : freeAt (logged onePieceRuns) (p * 0x1000) (fr, log) = .ok (fr₁, log ++ [id]) := by
      have hindex' : (logged onePieceRuns).indexof (fr, log) (p * 0x1000) = .ok id := hindex
      have hfree' : (logged onePieceRuns).free (fr, log) id = .ok (fr₁, log ++ [id]) := by
        show (onePieceRuns.free fr id >>= fun a' => pure (a', log ++ [id])) = _
        have hfree'' : onePieceRuns.free fr id = .ok fr₁ := hfree
        rw [hfree'']
        rfl
      unfold freeAt
      rw [hindex']
      exact hfree'
    -- the others are marked still
    have hstill : ∀ q ∈ rest, q ∈ fr₁.marked := by
      intro q hq
      refine (hmarks q).mpr ⟨hmarked q (List.mem_cons_of_mem p hq), ?_⟩
      rintro rfl
      exact hp hq
    obtain ⟨fr', ids, hloop, hplain, hids, hleft⟩ := ih fr₁ (log ++ [id]) hrest hstill
    refine ⟨fr', id :: ids, ?_, ?_, ?_, ?_⟩
    · unfold freePages at hloop ⊢
      rw [List.foldlM_cons, hlog]
      show List.foldlM _ (fr₁, log ++ [id]) rest = _
      rw [hloop, List.append_assoc]
      rfl
    · unfold freePages at hplain ⊢
      rw [List.foldlM_cons, hone]
      exact hplain
    · rw [List.map_cons, hpage, ← hids]
      congr 1
      apply List.map_congr_left
      intro j _
      exact (hpages j).symm
    · intro q
      rw [hleft q, hmarks q, List.mem_cons, not_or, and_assoc]

end Aex.Page
