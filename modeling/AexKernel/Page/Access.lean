import AexKernel.Lib.WordBytes
import AexKernel.Page.Window

/- Memory as a virtual address reaches it.

   The processor follows the tables of a pagemap down to the page of an address
   (`mappedPage`), byte by byte. Tables and data are pages of one memory, so a store
   could write to a table. It does not where its address is mapped to a page of
   data: then the tables, and with them all mappings, stay as they are
   (`Laid.written`). -/
namespace Aex.Page

open Radix (Separated)
open WordBytes (getByte putByte)

variable {A : Type}

/-- The page of memory an address is mapped to. -/
def mappedPage (mem : Nat → Nat → Nat) (rootDir virt : Nat) : Option Nat :=
  Radix.walk entryChild mem (pageOf rootDir) (tablePath virt ++ [ptIndex virt])

/-- The byte at an address. -/
def loadByte (mem : Nat → Nat → Nat) (rootDir virt : Nat) : Option Nat :=
  (mappedPage mem rootDir virt).map fun p => getByte (mem p) (virt % 0x1000)

/-- Memory with a byte of page `p` replaced. -/
def putPage (mem : Nat → Nat → Nat) (p o b : Nat) : Nat → Nat → Nat :=
  fun p' => if p' = p then putByte (mem p) o b else mem p'

/-- Bytes written from an address on, `none` when one of them is not mapped. -/
def storeBytes (rootDir : Nat) : Nat → List Nat → Paging → Option Paging
  | _, [], pg => some pg
  | virt, b :: bytes, pg =>
    match mappedPage pg.mem rootDir virt with
    | none => none
    | some p => storeBytes rootDir (u64 (virt + 1)) bytes { pg with mem := putPage pg.mem p (virt % 0x1000) b }

theorem mappedPage_leaf {mem : Nat → Nat → Nat} {root : Nat → Option Nat} {k rootDir : Nat}
    (hr : root k = some (pageOf rootDir)) (virt : Nat) :
    mappedPage mem rootDir virt = entryChild (leafAt mem root k (selected virt 0)) := by
  have htable : tableAt mem root k (tablePath virt) = Radix.walk entryChild mem (pageOf rootDir) (tablePath virt) := by
    rw [tableAt, Radix.page, hr]
    rfl
  unfold mappedPage
  rw [Radix.walk_append, ← htable, tablePath_selected]
  cases ht : tableAt mem root k (vpnPath (selected virt 0)) with
  | none =>
    rw [leafAt_none ht]
    rfl
  | some t =>
    rw [leafAt_some ht, ptIndex_selected]
    show (entryChild _).bind some = _
    exact Option.bind_fun_some _

/-! ## Pages of data change -/

/-- As `Became`, where the pages of data are now `data` and those of `same` are as
they were. -/
structure Changed (W : Setting A) (data same : Set Nat) (now : Nat → Nat → Nat) (s s' : PageState A) : Prop where
  laid : Laid W data s'
  leaves : ∀ k v, W.Seen k v → W.leaf s' k v = now k v
  same : ∀ p ∈ same, s'.pg.mem p = s.pg.mem p
  outside : ∀ k σ j, W.nodes.own k σ → σ.length < 3 → ¬ W.nodes.node k (σ ++ [j]) →
    entryAt s'.pg.mem W.root k σ j = entryAt s.pg.mem W.root k σ j
  tables : ∀ k σ t, W.nodes.node k σ → tableAt s.pg.mem W.root k σ = some t → tableAt s'.pg.mem W.root k σ = some t
  taken : ∀ p, W.taken s.frames p → W.taken s'.frames p
  inUse : ∀ p, W.inUse s.frames p → W.inUse s'.frames p

section Changes

variable {W : Setting A} {data data' same same' : Set Nat} {now now' : Nat → Nat → Nat} {s s' s'' : PageState A}
variable {k : Nat} {mem : Nat → Nat → Nat}

theorem Became.changed (h : Became W data now s s') : Changed W data data now s s' :=
  ⟨h.laid, h.leaves, h.data, h.outside, h.tables, h.taken, h.inUse⟩

theorem Changed.trans (h : Changed W data same now s s') (h' : Changed W data' same' now' s' s'') :
    Changed W data' (same ∩ same') now' s s'' := by
  refine ⟨h'.laid, h'.leaves, ?_, ?_, fun k σ t hn ht => h'.tables k σ t hn (h.tables k σ t hn ht),
    fun p hp => h'.taken p (h.taken p hp), fun p hp => h'.inUse p (h.inUse p hp)⟩
  · intro p hp
    rw [h'.same p hp.2, h.same p hp.1]
  · intro k σ j ho hlen hn
    rw [h'.outside k σ j ho hlen hn, h.outside k σ j ho hlen hn]

theorem Changed.mono (h : Changed W data same now s s') (hle : same' ⊆ same)
    (heq : ∀ k v, W.Seen k v → now k v = now' k v) : Changed W data same' now' s s' := by
  refine ⟨h.laid, ?_, fun p hp => h.same p (hle hp), h.outside, h.tables, h.taken, h.inUse⟩
  intro k v hv
  rw [h.leaves k v hv, heq k v hv]

theorem Laid.tableAt_written (h : Laid W data s) (hsame : ∀ p, p ∉ data → mem p = s.pg.mem p) {σ : List Nat}
    (hn : W.nodes.node k σ) : tableAt mem W.root k σ = tableAt s.pg.mem W.root k σ := by
  apply Radix.page_congr
  rintro ρ i τ t rfl ht
  have hρ : W.nodes.node k ρ := W.nodes.node_of_append k (i :: τ) ρ hn
  have htable : t ∉ data := fun hd => h.table_ne hρ ht hd rfl
  rw [hsame t htable]

theorem Laid.entryAt_written (h : Laid W data s) (hsame : ∀ p, p ∉ data → mem p = s.pg.mem p) {σ : List Nat}
    (hn : W.nodes.node k σ) (j : Nat) : entryAt mem W.root k σ j = entryAt s.pg.mem W.root k σ j := by
  apply Radix.entry_congr (h.tableAt_written hsame hn)
  intro t ht
  have htable : t ∉ data := fun hd => h.table_ne hn ht hd rfl
  rw [hsame t htable]

theorem Laid.written (h : Laid W data s) (mem : Nat → Nat → Nat) {page : Set Nat} (hdata : page ⊆ data)
    (hsame : ∀ p, p ∉ page → mem p = s.pg.mem p) (aim : Nat) :
    Changed W data (data \ page) (W.leaf s) s ⟨⟨mem, aim⟩, s.frames⟩ := by
  have hall : ∀ p, p ∉ data → mem p = s.pg.mem p := fun p hp => hsame p (fun hd => hp (hdata hd))
  refine ⟨⟨?_, h.held, ?_⟩, ?_, fun p hp => hsame p hp.2, ?_,
    fun k σ _ hn ht => (h.tableAt_written hall hn).trans ht, fun _ hp => hp, fun _ hp => hp⟩
  · exact h.apart.of_pages (fun k σ hn => h.tableAt_written hall hn) (fun _ hp => hp)
  · intro k σ j hn hlen
    have hold := h.upper k σ j hn hlen
    rwa [← h.entryAt_written hall hn j] at hold
  · intro k v hv
    exact h.entryAt_written hall hv.2 (v % 512)
  · intro k σ j ho _ _
    exact h.entryAt_written hall (.inl ho) j

end Changes

/-! ## A window on pages of data -/

/-- The `n` pages from `b` on are mapped to pages of data. -/
structure Shown (W : Setting A) (data : Set Nat) (s : PageState A) (k b n : Nat) (page : Nat → Nat) : Prop where
  seen : ∀ i < n, W.Seen k ((b + i) % 2^36)
  leads : ∀ i < n, entryChild (W.leaf s k ((b + i) % 2^36)) = some (page i)
  data : ∀ i < n, page i ∈ data

/-- Memory with bytes laid over the pages of a window, from offset `o` on. -/
def layBytes (page : Nat → Nat) : Nat → List Nat → (Nat → Nat → Nat) → Nat → Nat → Nat
  | _, [], mem => mem
  | o, b :: bytes, mem => layBytes page (o + 1) bytes (putPage mem (page (o / 0x1000)) (o % 0x1000) b)

section Shown

variable {W : Setting A} {data : Set Nat} {k b n rootDir : Nat} {page : Nat → Nat}

theorem putPage_other (mem : Nat → Nat → Nat) {p p' : Nat} (o b : Nat) (h : p' ≠ p) : putPage mem p o b p' = mem p' :=
  if_neg h

theorem putPage_self (mem : Nat → Nat → Nat) (p o b : Nat) : putPage mem p o b p = putByte (mem p) o b := if_pos rfl

theorem storeBytes_shown (hr : W.root k = some (pageOf rootDir)) : ∀ (bytes : List Nat) (o : Nat) (s : PageState A),
    Laid W data s → Shown W data s k b n page → o + bytes.length ≤ n * 0x1000 →
    storeBytes rootDir (u64 (b * 0x1000 + o)) bytes s.pg = some ⟨layBytes page o bytes s.pg.mem, s.pg.aim⟩ := by
  intro bytes
  induction bytes with
  | nil => intro o s _ _ _; rfl
  | cons byte bytes ih =>
    intro o s h hw hlen
    rw [List.length_cons] at hlen
    have hin : o / 0x1000 < n := by omega
    have hsel : selected (u64 (b * 0x1000 + o)) 0 = (b + o / 0x1000) % 2^36 := by
      unfold selected u64
      omega
    have hoff : u64 (b * 0x1000 + o) % 0x1000 = o % 0x1000 := by
      unfold u64
      omega
    have hnext : u64 (u64 (b * 0x1000 + o) + 1) = u64 (b * 0x1000 + (o + 1)) := by
      unfold u64
      omega
    have htrans : mappedPage s.pg.mem rootDir (u64 (b * 0x1000 + o)) = some (page (o / 0x1000)) := by
      rw [mappedPage_leaf hr, hsel]
      exact hw.leads _ hin
    have hchanged := h.written (putPage s.pg.mem (page (o / 0x1000)) (o % 0x1000) byte)
      (Set.singleton_subset_iff.mpr (hw.data _ hin)) (fun p hp => putPage_other _ _ _ hp) s.pg.aim
    have hshown : Shown W data ⟨⟨putPage s.pg.mem (page (o / 0x1000)) (o % 0x1000) byte, s.pg.aim⟩, s.frames⟩ k b n
        page := by
      refine ⟨hw.seen, ?_, hw.data⟩
      intro i hi
      rw [hchanged.leaves k _ (hw.seen i hi)]
      exact hw.leads i hi
    unfold storeBytes
    rw [htrans, hoff, hnext]
    exact ih (o + 1) _ hchanged.laid hshown (by omega)

theorem layBytes_other {p : Nat} (hp : ∀ i < n, p ≠ page i) : ∀ (bytes : List Nat) (o : Nat) (mem : Nat → Nat → Nat),
    o + bytes.length ≤ n * 0x1000 → layBytes page o bytes mem p = mem p := by
  intro bytes
  induction bytes with
  | nil => intro o mem _; rfl
  | cons byte bytes ih =>
    intro o mem hlen
    rw [List.length_cons] at hlen
    unfold layBytes
    rw [ih _ _ (by omega), putPage_other _ _ _ (hp _ (by omega))]

theorem layBytes_page (x : Nat) : ∀ (bytes : List Nat) (o : Nat) (mem : Nat → Nat → Nat), o + bytes.length ≤ 0x1000 →
    getByte (layBytes page o bytes mem (page 0)) x =
      if o ≤ x ∧ x < o + bytes.length then bytes.getD (x - o) 0 % 256 else getByte (mem (page 0)) x := by
  intro bytes
  induction bytes with
  | nil =>
    intro o mem _
    rw [if_neg (by simp only [List.length_nil]; omega)]
    rfl
  | cons byte bytes ih =>
    intro o mem hlen
    rw [List.length_cons] at hlen ⊢
    have hfirst : o / 0x1000 = 0 := by omega
    have hoff : o % 0x1000 = o := by omega
    unfold layBytes
    rw [ih _ _ (by omega), hfirst, hoff, putPage_self, WordBytes.getByte_putByte]
    by_cases hx : x = o
    · rw [if_neg (by omega), if_pos hx, if_pos (by omega), hx, Nat.sub_self, List.getD_cons_zero]
    · rw [if_neg hx]
      by_cases hin : o + 1 ≤ x ∧ x < o + 1 + bytes.length
      · rw [if_pos hin, if_pos (by omega), show x - o = x - (o + 1) + 1 by omega, List.getD_cons_succ]
      · rw [if_neg hin, if_neg (by omega)]

end Shown

end Aex.Page
