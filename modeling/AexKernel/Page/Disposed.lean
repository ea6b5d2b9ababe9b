import AexKernel.Page.Rooted

/- What `kp_dispose_map` releases, for every pagemap that calls have made.

   The machine has one piece of memory, and its pagemaps come from `kp_create_map`
   and from `kpvalloc`, `kpcalloc`, `kpmap`, `kpfree` and `kppaddrof` on addresses
   below 2^47. `Rooted` is kept along such runs (`DirCall.step_sound`), and where it
   holds the tables in postorder are the tables of the pagemap, all marked, no two
   in one frame. So the loops free each of them once and nothing else
   (`kpDisposeMap_releases`).

   The frame of `PDPT1` belongs to the kernel's image, which `mem_init_multiboot`
   has marked before there is any pagemap. -/
namespace Aex.Page

open Radix (Within postorder)
open Mem (OnePiece)

/-! ## Runs with `kppaddrof` -/

/-- The calls that make and change pagemaps. -/
inductive DirCall where
  | call (c : PageCall)
  | kppaddrof (k virt : Nat)
  deriving DecidableEq, Repr

def DirCall.result (pdpt1 : Nat) (m : Machine) : DirCall → Option (Nat × Machine)
  | .call c => c.result pdpt1 m
  | .kppaddrof k virt =>
    m.on k (fun s map => (Page.kppaddrof frameSource virt s map).map (fun r => some (virt, r.2)))

def DirCall.step (pdpt1 : Nat) (call : DirCall) (m : Machine) : Option Machine := (call.result pdpt1 m).map Prod.snd

/-- How many pages a call touches. -/
def DirCall.pages : DirCall → Nat
  | .call c => c.pages
  | .kppaddrof _ _ => 1

/-- The pages a call touches lie below 2^47: the caller's, or those that
`mempg_find_contiguous` has found. -/
def LowCall (pdpt1 : Nat) (call : DirCall) (m : Machine) : Prop :=
  ∀ r ∈ call.result pdpt1 m, maskPage r.1 + call.pages * 0x1000 ≤ 2^47

instance (pdpt1 : Nat) (call : DirCall) (m : Machine) : Decidable (LowCall pdpt1 call m) :=
  inferInstanceAs (Decidable (∀ r ∈ _, _))

/-- The trees are rooted, with the frame of `PDPT1` apart, and every pagemap has a
root at the start of a page and is searched from its first page. -/
structure Machine.Sound (pdpt1 : Nat) (m : Machine) : Prop where
  rooted : Rooted m.root pdpt1 {pageOf pdpt1} m.mem
  start : ∀ map ∈ m.maps, map.vstart = 0
  aligned : ∀ map ∈ m.maps, map.rootDir % 0x1000 = 0

section Runs

variable {pdpt1 : Nat} {m m' : Machine}

theorem Machine.Sound.set {k : Nat} {map map' : Pagemap} {s' : Memory} (h : m.Sound pdpt1) (hk : m.maps[k]? = some map)
    (h' : Rooted m.root pdpt1 {pageOf pdpt1} s') (hkept : Kept map map') : Machine.Sound pdpt1 ⟨s', m.maps.set k map'⟩ := by
  have hmem : map ∈ m.maps := List.mem_of_getElem? hk
  obtain ⟨hroot, hvstart⟩ := hkept
  refine ⟨?_, ?_, ?_⟩
  · rw [Machine.root_set hk hroot]
    exact h'
  · intro map₁ hset
    rcases List.mem_or_eq_of_mem_set hset with hold | rfl
    · exact h.start map₁ hold
    · rw [hvstart]
      exact h.start map hmem
  · intro map₁ hset
    rcases List.mem_or_eq_of_mem_set hset with hold | rfl
    · exact h.aligned map₁ hold
    · rw [hroot]
      exact h.aligned map hmem

theorem kpCreateMap_aligned {s s' : Memory} {map : Pagemap} (hrun : kpCreateMap frameSource pdpt1 s = .ok (s', map)) :
    map.rootDir % 0x1000 = 0 := by
  obtain ⟨addr, frames, halloc, rfl, rfl⟩ := kpCreateMap_ok hrun
  exact (frameSource_alloc halloc).1

theorem Machine.Sound.created {s' : Memory} {map : Pagemap} (h : m.Sound pdpt1)
    (hrun : kpCreateMap frameSource pdpt1 m.mem = .ok (s', map)) : Machine.Sound pdpt1 ⟨s', m.maps ++ [map]⟩ := by
  have hc : Created False m.root frameInUse m.maps.length map m.mem s' :=
    kpCreateMap_spec frameSource_lawful h.rooted.isolated.apart (fun hk => hk.elim) (fun hk => hk.elim) hrun
  refine ⟨?_, ?_, ?_⟩
  · rw [Machine.root_append]
    exact h.rooted.created hc (kpCreateMap_new hrun).1
  · intro map₁ hmem
    rcases List.mem_append.mp hmem with hold | hnew
    · exact h.start map₁ hold
    · rw [List.mem_singleton.mp hnew]
      exact hc.start
  · intro map₁ hmem
    rcases List.mem_append.mp hmem with hold | hnew
    · exact h.aligned map₁ hold
    · rw [List.mem_singleton.mp hnew]
      exact kpCreateMap_aligned hrun

theorem DirCall.step_sound {call : DirCall} (hlow : LowCall pdpt1 call m) (hstep : call.step pdpt1 m = some m')
    (h : m.Sound pdpt1) : m'.Sound pdpt1 := by
  obtain ⟨⟨virt, m''⟩, hres, rfl⟩ := Option.map_eq_some_iff.mp hstep
  have hv := hlow _ hres
  have hP := rooted_steady m.root pdpt1
  cases call with
  | call c =>
    by_cases hnew : c = .kpCreateMap
    · subst hnew
      simp only [DirCall.result, PageCall.result] at hres
      split at hres
      · next s' map hrun =>
        cases hres
        exact h.created hrun
      · cases hres
    · obtain ⟨k, map, s', map', hk, rfl, h', hkept⟩ := hP.result h.rooted h.start hnew hres hv (by
        rintro k fuel amount flags rfl
        simp only [DirCall.result, PageCall.result] at hres
        obtain ⟨map, s', map', hk, hr, hrun, -⟩ := Machine.on_some hres
        exact kpcalloc_amount h.rooted.isolated hr (h.start map (List.mem_of_getElem? hk)) hrun hv)
      exact h.set hk h' hkept
  | kppaddrof k virt' =>
    simp only [DirCall.result] at hres
    obtain ⟨map, s', map', hk, hr, hrun, rfl⟩ := Machine.on_some hres
    cases hone : Page.kppaddrof frameSource virt' m.mem map with
    | error p => rw [hone] at hrun; cases hrun
    | ok r =>
      obtain ⟨addr, s₁, map₁⟩ := r
      rw [hone] at hrun
      cases hrun
      have hvirt : virt < 2^47 := by
        have hpages : maskPage virt + 1 * 0x1000 ≤ 2^47 := hv
        unfold maskPage at hpages
        omega
      obtain ⟨hens, -⟩ := kppaddrof_ok hone
      obtain ⟨-, -, hkept⟩ := kppaddrof_spec frameSource_lawful hvirt h.rooted.isolated.apart hr hone
      exact h.set hk (hP.ensured h.rooted hr hvirt hens) hkept

theorem Machine.sound_of_no_maps (h : m.maps = []) (hker : pageOf pdpt1 ∈ m.mem.frames.marked) : m.Sound pdpt1 := by
  have hok := Machine.ok_of_no_maps h
  have hroot := Machine.root_none h
  -- no page is used, so the frame of `PDPT1` can be set aside
  have hspare : Isolated m.root {pageOf pdpt1} m.mem := by
    refine ⟨hok.isolated.apart, ⟨hok.isolated.owned.live_of_hold, ?_, hok.isolated.owned.single, ?_⟩, hok.isolated.valid⟩
    · intro p hp
      rw [Set.mem_singleton_iff.mp hp]
      exact hker
    · intro u p hu
      cases u with
      | table k σ =>
        have ht := (usedPage_table hu).2
        simp only [tableAt, Radix.page, hroot, Option.bind_none] at ht
        cases ht
      | leaf k σ j =>
        have ht := (usedPage_leaf hu).2
        simp only [entryAt, Radix.entry, Radix.page, hroot, Option.bind_none] at ht
        cases ht
  refine ⟨⟨hspare, ?_, ?_⟩, hok.start, ?_⟩
  · intro k σ a _ ht
    simp only [tableAt, Radix.page, hroot, Option.bind_none] at ht
    cases ht
  · intro k r hr
    rw [hroot k] at hr
    cases hr
  · intro map hmem
    rw [h] at hmem
    cases hmem

end Runs

/-! ## Disposing -/

section Dispose

variable {root : Nat → Option Nat} {pdpt1 k : Nat} {spare : Set Nat} {s : Memory} {map : Pagemap}

/-- The pages of the tables that `_mempg_dispose_dir` finds, in its order. -/
def dirPages (mem : Nat → Nat → Nat) (map : Pagemap) : List Nat :=
  (postorder entryChild mem dirWidth 3 (pageOf map.rootDir)).map Prod.snd

theorem userPath_within : ∀ {σ : List Nat}, Within dirWidth 3 σ → userPath σ
  | [], _ => userPath_nil
  | [i], h => by
    have hi : i < 510 := h.1
    exact ⟨by simp, by simp; omega⟩
  | [i, j], h => by
    have hi : i < 510 := h.1
    exact ⟨by simp, by simp; omega⟩
  | [i, j, l], h => by
    have hi : i < 510 := h.1
    exact ⟨by simp, by simp; omega⟩
  | _ :: _ :: _ :: _ :: _, h => h.2.2.2.elim

theorem tableAt_walk {mem : Nat → Nat → Nat} {page : Nat} (hr : root k = some page) (σ : List Nat) :
    tableAt mem root k σ = Radix.walk entryChild mem page σ := by
  simp only [tableAt, Radix.page, hr, Option.bind_some]

theorem Rooted.mem_dirPages (h : Rooted root pdpt1 spare s) (hr : root k = some (pageOf map.rootDir)) (p : Nat) :
    p ∈ dirPages s.pg.mem map ↔ ∃ σ, usedPage s.pg.mem root (.table k σ) = some p := by
  constructor
  · intro hp
    obtain ⟨⟨σ, q⟩, hmem, rfl⟩ := List.mem_map.mp hp
    obtain ⟨hσ, ht⟩ := Radix.mem_postorder.mp hmem
    exact ⟨σ, (if_pos (userPath_within hσ)).trans ((tableAt_walk hr σ).trans ht)⟩
  · rintro ⟨σ, hu⟩
    obtain ⟨hσ, ht⟩ := usedPage_table hu
    have hwithin := h.within k σ p hσ ht
    exact List.mem_map.mpr ⟨(σ, p), Radix.mem_postorder.mpr ⟨hwithin, (tableAt_walk hr σ).symm.trans ht⟩, rfl⟩

theorem Rooted.dirPages_nodup (h : Rooted root pdpt1 spare s) (hr : root k = some (pageOf map.rootDir)) :
    (dirPages s.pg.mem map).Nodup := by
  apply Radix.postorder_nodup
  intro σ τ p hσ hτ ht ht'
  exact (h.isolated.apart.unshared k σ k τ p (userPath_within hσ) (.inl (userPath_within hτ))
    ((tableAt_walk hr σ).trans ht) ((tableAt_walk hr τ).trans ht')).2

/-- `kp_dispose_map` frees the frames of these pages one by one, and writes nothing. -/
theorem kpDisposeMapAimed_frees (halign : map.rootDir % 0x1000 = 0) (hnodup : (dirPages s.pg.mem map).Nodup)
    (hmarked : ∀ p ∈ dirPages s.pg.mem map, p ∈ s.frames.marked) : ∃ s' pg ids,
    kpDisposeMapAimed onePieceRuns s map = .ok s' ∧
      kpDisposeMapAimed (logged onePieceRuns) ⟨s.pg, (s.frames, [])⟩ map = .ok ⟨pg, (s'.frames, ids)⟩ ∧
      ids.map s.frames.page = dirPages s.pg.mem map ∧ s'.pg.mem = s.pg.mem ∧
      ∀ q, q ∈ s'.frames.marked ↔ q ∈ s.frames.marked ∧ q ∉ dirPages s.pg.mem map := by
  obtain ⟨fr', ids, hlogged, hplain, hids, hleft⟩ := freePages_logged (dirPages s.pg.mem map) s.frames [] hnodup hmarked
  have hroot : pageOf map.rootDir * 0x1000 = map.rootDir := by
    unfold pageOf
    omega
  have hdispose : ∀ {A : Type} (ops : RunOps A) (a : A),
      mempgDisposeDir ops s.pg.mem map.rootDir a = freePages ops (dirPages s.pg.mem map) a := by
    intro A ops a
    have heq := mempgDisposeDir_eq ops s.pg.mem (pageOf map.rootDir) a
    rw [hroot] at heq
    exact heq
  obtain ⟨pg₁, hmem₁, hrun₁⟩ := @disposeDirAimed_follows _ onePieceRuns s.pg.mem map.rootDir (s.pg, s.frames) rfl
  obtain ⟨pg₂, -, hrun₂⟩ := @disposeDirAimed_follows _ (logged onePieceRuns) s.pg.mem map.rootDir (s.pg, (s.frames, [])) rfl
  refine ⟨⟨pg₁, fr'⟩, pg₂, ids, ?_, ?_, hids, hmem₁, hleft⟩
  · unfold kpDisposeMapAimed
    rw [hrun₁, hdispose, hplain]
    rfl
  · unfold kpDisposeMapAimed
    rw [hrun₂, hdispose, hlogged]
    rfl

end Dispose

/-- What disposing of pagemap `k` does, given the pages of the frames it frees: they
are its tables, each freed once, and neither frames of leaf entries nor of another
pagemap nor that of `PDPT1`; the other frames stay marked, and memory as it was,
entry 511 of the root included. -/
structure Disposed (pdpt1 : Nat) (m : Machine) (k : Nat) (map : Pagemap) (released : List Nat) (s' : Memory) : Prop where
  once : released.Nodup
  tables : ∀ p, p ∈ released ↔ ∃ σ, m.uses (.table k σ) = some p
  leaves : ∀ k' σ j p, m.uses (.leaf k' σ j) = some p → p ∉ released
  others : ∀ u p, u.pagemap ≠ k → m.uses u = some p → p ∉ released
  pdpt : pageOf pdpt1 ∉ released
  marked : ∀ p, p ∈ s'.frames.marked ↔ p ∈ m.mem.frames.marked ∧ p ∉ released
  shared : m.mem.pg.mem (pageOf map.rootDir) 511 = pdpt1 ||| pageWrite ||| pagePresent
  memory : s'.pg.mem = m.mem.pg.mem

theorem Machine.Sound.disposed {pdpt1 k : Nat} {m : Machine} {map : Pagemap} (h : m.Sound pdpt1)
    (hk : m.maps[k]? = some map) : ∃ s' pg ids,
    kpDisposeMapAimed onePieceRuns m.mem map = .ok s' ∧
      kpDisposeMapAimed (logged onePieceRuns) ⟨m.mem.pg, (m.mem.frames, [])⟩ map = .ok ⟨pg, (s'.frames, ids)⟩ ∧
      Disposed pdpt1 m k map (ids.map m.mem.frames.page) s' := by
  have hr : m.root k = some (pageOf map.rootDir) := by
    unfold Machine.root
    rw [hk]
    rfl
  have hown := h.rooted.isolated.owned
  have htables := h.rooted.mem_dirPages hr
  have hmarked : ∀ p ∈ dirPages m.mem.pg.mem map, p ∈ m.mem.frames.marked := by
    intro p hp
    obtain ⟨σ, hu⟩ := (htables p).mp hp
    exact hown.live_of_hold _ p hu
  obtain ⟨s', pg, ids, hplain, hlogged, hids, hmem, hleft⟩ := kpDisposeMapAimed_frees
    (h.aligned map (List.mem_of_getElem? hk)) (h.rooted.dirPages_nodup hr) hmarked
  refine ⟨s', pg, ids, hplain, hlogged, ?_⟩
  rw [hids]
  refine ⟨h.rooted.dirPages_nodup hr, htables, ?_, ?_, ?_, hleft, ?_, hmem⟩
  · intro k' σ j p hu hp
    obtain ⟨τ, ht⟩ := (htables p).mp hp
    cases hown.single _ _ p hu ht
  · intro u p hne hu hp
    obtain ⟨τ, ht⟩ := (htables p).mp hp
    apply hne
    rw [hown.single _ _ p hu ht]
    rfl
  · intro hp
    obtain ⟨τ, ht⟩ := (htables _).mp hp
    exact hown.unheld _ _ ht rfl
  · have hslot := h.rooted.shared k _ hr
    have hroot : tableAt m.mem.pg.mem m.root k [] = some (pageOf map.rootDir) := by
      simp only [tableAt, Radix.page, hr, Option.bind_some]
      rfl
    rw [entryAt, Radix.entry_of_page 0 hroot] at hslot
    exact hslot

/-- In every run of calls on addresses below 2^47, disposing of a pagemap frees its
root and its tables, each once, and no other frame. -/
theorem kpDisposeMap_releases (pdpt1 : Nat) (m₀ m : Machine) (calls : List DirCall) (hnone : m₀.maps = [])
    (hker : pageOf pdpt1 ∈ m₀.mem.frames.marked) (hrun : Runs.Run (DirCall.step pdpt1) (LowCall pdpt1) m₀ calls m)
    (k : Nat) (map : Pagemap) (hk : m.maps[k]? = some map) : ∃ s' pg ids,
    kpDisposeMapAimed onePieceRuns m.mem map = .ok s' ∧
      kpDisposeMapAimed (logged onePieceRuns) ⟨m.mem.pg, (m.mem.frames, [])⟩ map = .ok ⟨pg, (s'.frames, ids)⟩ ∧
      Disposed pdpt1 m k map (ids.map m.mem.frames.page) s' := by
  have hsound : m.Sound pdpt1 := by
    apply hrun.invariant (P := Machine.Sound pdpt1) _ (Machine.sound_of_no_maps hnone hker)
    intro call s s' hlow hstep h
    exact DirCall.step_sound hlow hstep h
  exact hsound.disposed hk

/-- A machine with 16 frames from 1 MiB on, the first of which holds `PDPT1`. -/
def kernelMachine : Machine where
  mem :=
    { pg := ⟨fun _ _ => 0, 0⟩
      frames :=
        { val := { pieces := [⟨0x100000, 16, fun w => if w = 0 then 1 else 0⟩], framesPossible := 16, framesUsed := 1 }
          property := ⟨rfl, by decide, by decide, by decide, by decide, rfl⟩ } }
  maps := []

/-- Two pagemaps get pages, and the first has an address looked up under a table of
its own. -/
def lookedUp : List DirCall :=
  [.call .kpCreateMap, .call .kpCreateMap, .call (.kpvalloc 0 1 0x1000 2), .call (.kpvalloc 1 1 0x1000 2),
    .call (.kpcalloc 0 4 1 2), .call (.kpfree 0 0x1000 1), .call (.kpmap 1 4 1 0x5123 2), .kppaddrof 0 0x200123]

theorem lookedUp_runs : ((Runs.exec (DirCall.step 0x100000) (LowCall 0x100000) kernelMachine lookedUp).any
    (fun m => decide (m.maps[0]?.isSome = true))) = true := by
  decide

theorem kpDisposeMap_releases_lookedUp : ∃ m map, kernelMachine.maps = [] ∧
    pageOf 0x100000 ∈ kernelMachine.mem.frames.marked ∧
    Runs.Run (DirCall.step 0x100000) (LowCall 0x100000) kernelMachine lookedUp m ∧ m.maps[0]? = some map ∧
    ∃ s' pg ids, kpDisposeMapAimed onePieceRuns m.mem map = .ok s' ∧
      kpDisposeMapAimed (logged onePieceRuns) ⟨m.mem.pg, (m.mem.frames, [])⟩ map = .ok ⟨pg, (s'.frames, ids)⟩ ∧
      Disposed 0x100000 m 0 map (ids.map m.mem.frames.page) s' := by
  obtain ⟨m, hrun, hsome⟩ := Runs.run_such lookedUp_runs
  obtain ⟨map, hk⟩ := Option.isSome_iff_exists.mp hsome
  have hker : pageOf 0x100000 ∈ kernelMachine.mem.frames.marked := ⟨0, by decide, by decide, by decide⟩
  exact ⟨m, map, rfl, hker, hrun, hk, kpDisposeMap_releases 0x100000 kernelMachine m lookedUp rfl hker hrun 0 map hk⟩

end Aex.Page
