import AexKernel.Mem.PoolChain
import AexKernel.Mem.PoolInvariant

/- Which calls of `_kmalloc` are served, and with what.

   1. `kmalloc_one_pool_iff`: a new pool is meant to serve the call it is created for.
      It is never searched, since the step to it ends at a `NULL`; and between
      1,044,337 bytes and `DEFAULT_POOL_SIZE` it would not have the pieces, because
      what the header and the bitmap take of a default pool is not counted.
   2. `kmalloc_payload_iff`: the block handed out has room for the size, unless
      rounding the size up wraps around. -/
namespace Aex.Mem

/-! ## The search along the chain -/

def PoolEvent.isCreate : PoolEvent → Bool
  | .create _ => true
  | _ => false

/-- The pools appended. -/
def created (log : List PoolEvent) : Nat := log.countP PoolEvent.isCreate

/-- The locks taken after the events. -/
def takenAfter : List Nat → List PoolEvent → List Nat
  | taken, [] => taken
  | taken, .acquire i :: es => takenAfter (i :: taken) es
  | taken, .release i :: es => takenAfter (taken.filter fun k => decide (k ≠ i)) es
  | taken, _ :: es => takenAfter taken es

/-- No lock is acquired that is taken. -/
def LocksFree : List Nat → List PoolEvent → Prop
  | _, [] => True
  | taken, .acquire i :: es => i ∉ taken ∧ LocksFree (i :: taken) es
  | taken, .release i :: es => LocksFree (taken.filter fun k => decide (k ≠ i)) es
  | taken, _ :: es => LocksFree taken es

/-- The loop ends with a run of pieces, at most one pool appended, and no lock waited
for that nobody gives back. -/
def FoundWithOne (taken : List Nat) (turn : PoolTurn) : Prop :=
  ∃ c i first, turn = .done c i first ∧ created c.log ≤ 1 ∧ LocksFree taken c.log

/-- Pool `j` has a run of the pieces. -/
def HasRun (pools : List Pool) (pieces j : Nat) : Prop := ∃ pool, pools[j]? = some pool ∧ findSpace pool pieces ≠ none

theorem created_logged (c : Chain) {e : PoolEvent} (he : e.isCreate = false) : created (c.logged e).log = created c.log := by
  simp [created, Chain.logged, List.countP_append, he]

theorem not_foundWithOne_fault (taken : List Nat) (c : Chain) : ¬ FoundWithOne taken (.fault c) := by
  rintro ⟨_, _, _, h, -⟩
  cases h

theorem locksFree_append (es' : List PoolEvent) : ∀ (es : List PoolEvent) (taken : List Nat),
    LocksFree taken (es ++ es') ↔ LocksFree taken es ∧ LocksFree (takenAfter taken es) es' := by
  intro es
  induction es with
  | nil => intro taken; simp [LocksFree, takenAfter]
  | cons e es ih =>
    intro taken
    cases e with
    | acquire i => simp only [List.cons_append, LocksFree, takenAfter, ih, and_assoc]
    | _ => exact ih _

theorem takenAfter_append (es' : List PoolEvent) : ∀ (es : List PoolEvent) (taken : List Nat),
    takenAfter taken (es ++ es') = takenAfter (takenAfter taken es) es' := by
  intro es
  induction es with
  | nil => intro taken; rfl
  | cons e es ih => intro taken; cases e <;> exact ih _

/-- The lock of pool `i` has been let go, and that of the pool behind the next one taken. -/
def Chain.stepped (c : Chain) (i : Nat) : Chain := (c.logged (.release i)).logged (.acquire (i + 2))

theorem stepped_log (c : Chain) (i : Nat) : (c.stepped i).log = c.log ++ [.release i, .acquire (i + 2)] := by
  simp [Chain.stepped, Chain.logged]

/-- The step to the next pool finds its lock free just when no earlier call has left it
taken, since the call itself has come no further. -/
theorem stepped_free {taken : List Nat} {c : Chain} {i : Nat}
    (hbehind : ∀ k, i + 2 ≤ k → (k ∈ takenAfter taken c.log ↔ k ∈ taken)) :
    (LocksFree taken (c.stepped i).log ↔ LocksFree taken c.log ∧ i + 2 ∉ taken) ∧
      ∀ k, i + 3 ≤ k → (k ∈ takenAfter taken (c.stepped i).log ↔ k ∈ taken) := by
  rw [stepped_log, locksFree_append, takenAfter_append]
  constructor
  · have hfree : LocksFree (takenAfter taken c.log) [.release i, .acquire (i + 2)] ↔ i + 2 ∉ taken := by
      simp [LocksFree, hbehind (i + 2) (Nat.le_refl _)]
    rw [hfree]
  · intro k hk
    have hne : k ≠ i ∧ k ≠ i + 2 := by omega
    simp [takenAfter, hne.1, hne.2, hbehind k (by omega)]

section Search

variable (size : Nat) {pieces : Nat} (base : Nat → Nat) {c : Chain} {i : Nat}

theorem setPieces_found {pool : Pool} {first : Nat} (hpieces : pieces ≠ 0) (hsmall : pool.pieces < 2^32)
    (hfind : findSpace pool pieces = some first) : ∃ bitmap, setPieces pool.bitmap first pieces true = .ok bitmap := by
  obtain ⟨hin, hfits, -⟩ := (findSpace_spec pool hpieces).1 first hfind
  have hbits : ∀ j, first ≤ j → j < first + pieces → Words.get pool.bitmap j = !true := by
    intro j hlow hhigh
    have hclear := hfits j hlow hhigh
    simpa using hclear
  obtain ⟨bitmap, hok, -⟩ := setPieces_spec true (by omega) hbits
  exact ⟨bitmap, hok⟩

theorem searchPool_none {pool : Pool} (hpool : c.pools[i]? = some pool) (hfind : findSpace pool pieces = none) :
    searchPool pieces c i = .next (c.logged (.findSpace i)) i := by
  simp only [searchPool, hpool, hfind]

theorem searchPool_found (taken : List Nat) {pool : Pool} (hpieces : pieces ≠ 0) (hsmall : pool.pieces < 2^32)
    (hpool : c.pools[i]? = some pool) (hfind : findSpace pool pieces ≠ none) (hnew : created c.log ≤ 1) :
    FoundWithOne taken (searchPool pieces c i) ↔ LocksFree taken c.log := by
  obtain ⟨first, hfirst⟩ := Option.ne_none_iff_exists'.mp hfind
  obtain ⟨bitmap, hok⟩ := setPieces_found hpieces hsmall hfirst
  have hlog : LocksFree taken ((c.logged (.findSpace i)).logged (.setPieces i)).log ↔ LocksFree taken c.log := by
    simp [Chain.logged, locksFree_append, LocksFree]
  simp only [searchPool, hpool, hfirst, hok]
  constructor
  · rintro ⟨_, _, _, hdone, -, hfree⟩
    cases hdone
    exact hlog.mp hfree
  · intro hfree
    refine ⟨_, i, first, rfl, ?_, hlog.mpr hfree⟩
    show created ((c.logged (.findSpace i)).logged (.setPieces i)).log ≤ 1
    rw [created_logged _ rfl, created_logged _ rfl]
    exact hnew

/-- The turn that leaves pool `i`, where there is a pool behind the next one. -/
theorem nextPool_inside (hlen : i + 2 < c.pools.length) : nextPool size pieces base c i = searchPool pieces (c.stepped i) (i + 1) := by
  have happend : appendPool size base c i = c := if_pos (by omega)
  unfold nextPool
  rw [happend]
  exact if_pos hlen

theorem nextPool_end (hin : i < c.pools.length) (hlen : ¬ i + 2 < c.pools.length) :
    ∃ c', nextPool size pieces base c i = .fault c' := by
  have hshort : ¬ i + 2 < (appendPool size base c i).pools.length := by
    unfold appendPool
    split
    · exact hlen
    · simp only [List.length_append, List.length_singleton]
      omega
  exact ⟨_, if_neg hshort⟩

/-- Behind pool `i` the loop finds the first pool with a run, up to the last but one, if
the locks it takes on the way are free. -/
theorem kmallocLoop_found (taken : List Nat) (hpieces : pieces ≠ 0) : ∀ (n : Nat) (c : Chain) (i : Nat),
    i < c.pools.length → c.pools.length - i ≤ n → (∀ pool ∈ c.pools, pool.pieces < 2^32) → created c.log = 0 →
    (∀ k, i + 2 ≤ k → (k ∈ takenAfter taken c.log ↔ k ∈ taken)) →
    (FoundWithOne taken (kmallocLoop size pieces base n c i true) ↔ LocksFree taken c.log ∧
      ∃ j, i < j ∧ j + 1 < c.pools.length ∧ HasRun c.pools pieces j ∧ ∀ k, i + 2 ≤ k → k ≤ j + 1 → k ∉ taken) := by
  intro n
  induction n with
  | zero => intro c i hin hn; omega
  | succ n ih =>
    intro c i hin hn hsmall hnew hbehind
    have hturn : kmallocTurn size pieces base c i true = nextPool size pieces base c i := by
      simp [kmallocTurn, List.getElem?_eq_getElem hin]
    by_cases hlen : i + 2 < c.pools.length
    · have hin' : i + 1 < c.pools.length := by omega
      have hpool : (c.stepped i).pools[i + 1]? = some c.pools[i + 1] := List.getElem?_eq_getElem hin'
      have hnew' : created (c.stepped i).log = 0 := by
        rw [Chain.stepped, created_logged _ rfl, created_logged _ rfl]
        exact hnew
      obtain ⟨hfree, hbehind'⟩ := stepped_free hbehind
      rw [nextPool_inside size base hlen] at hturn
      by_cases hfind : findSpace c.pools[i + 1] pieces = none
      · have hlog : LocksFree taken ((c.stepped i).logged (.findSpace (i + 1))).log ↔ LocksFree taken (c.stepped i).log := by
          simp [Chain.logged, locksFree_append, LocksFree]
        have htaken : takenAfter taken ((c.stepped i).logged (.findSpace (i + 1))).log =
            takenAfter taken (c.stepped i).log := by
          simp [Chain.logged, takenAfter_append, takenAfter]
        have hrest := ih ((c.stepped i).logged (.findSpace (i + 1))) (i + 1) hin'
          (by show c.pools.length - (i + 1) ≤ n; omega) hsmall (by rw [created_logged _ rfl]; exact hnew')
          (by rw [htaken]; exact hbehind')
        rw [kmallocLoop, hturn, searchPool_none hpool hfind]
        refine hrest.trans ?_
        rw [hlog, hfree]
        constructor
        · rintro ⟨⟨hbefore, hnext⟩, j, hij, hjlen, hrun, hlocks⟩
          refine ⟨hbefore, j, by omega, hjlen, hrun, ?_⟩
          intro k hk hkj
          by_cases hki : k = i + 2
          · rw [hki]
            exact hnext
          · exact hlocks k (by omega) hkj
        · rintro ⟨hbefore, j, hij, hjlen, hrun, hlocks⟩
          have hne : j ≠ i + 1 := by
            rintro rfl
            obtain ⟨pool, hget, hsome⟩ := hrun
            have hget' : c.pools[i + 1]? = some c.pools[i + 1] := hpool
            rw [hget'] at hget
            cases hget
            exact hsome hfind
          exact ⟨⟨hbefore, hlocks (i + 2) (Nat.le_refl _) (by omega)⟩, j, by omega, hjlen, hrun,
            fun k hk hkj => hlocks k (by omega) hkj⟩
      · have hfound := searchPool_found taken hpieces (hsmall _ (List.getElem_mem hin')) hpool hfind
          (by rw [hnew']; decide)
        have hloop : kmallocLoop size pieces base (n + 1) c i true = searchPool pieces (c.stepped i) (i + 1) := by
          obtain ⟨first, hfirst⟩ := Option.ne_none_iff_exists'.mp hfind
          obtain ⟨bitmap, hok⟩ := setPieces_found hpieces (hsmall _ (List.getElem_mem hin')) hfirst
          rw [kmallocLoop, hturn]
          simp only [searchPool, hpool, hfirst, hok]
        rw [hloop, hfound, hfree]
        constructor
        · rintro ⟨hbefore, hnext⟩
          refine ⟨hbefore, i + 1, Nat.lt_succ_self i, hlen, ⟨_, hpool, hfind⟩, ?_⟩
          intro k hk hkj
          have hki : k = i + 2 := by omega
          rw [hki]
          exact hnext
        · rintro ⟨hbefore, j, hij, -, -, hlocks⟩
          exact ⟨hbefore, hlocks (i + 2) (Nat.le_refl _) (by omega)⟩
    · obtain ⟨c', hfault⟩ := nextPool_end size base hin hlen
      rw [kmallocLoop, hturn, hfault]
      refine ⟨fun h => absurd h (not_foundWithOne_fault taken c'), ?_⟩
      rintro ⟨-, j, hij, hjlen, -⟩
      omega

end Search

/-- The first pool serves the call, or one behind it that is not the last has a run; and
no lock on the way there has been left taken. -/
def ServedEarly (taken : List Nat) (pools : List Pool) (pieces : Nat) : Prop :=
  0 ∉ taken ∧ ((∃ pool, pools[0]? = some pool ∧ Serves pool pieces) ∨
    ∃ j, 0 < j ∧ j + 1 < pools.length ∧ HasRun pools pieces j ∧ ∀ k, 2 ≤ k → k ≤ j + 1 → k ∉ taken)

theorem kmallocSearch_found {turns : Nat} (size : Nat) (base : Nat → Nat) {pools : List Pool} (mem : Bytes.Mem)
    (taken : List Nat) (hne : pools ≠ []) (hturns : pools.length < turns) (hsmall : ∀ pool ∈ pools, pool.pieces < 2^32) :
    FoundWithOne taken (kmallocSearch turns size base pools mem) ↔ ServedEarly taken pools (kmallocPieces size) := by
  have hpieces : kmallocPieces size ≠ 0 := Nat.succ_ne_zero _
  obtain ⟨n, rfl⟩ : ∃ n, turns = n + 1 := ⟨turns - 1, by omega⟩
  obtain ⟨pool, rest, rfl⟩ := List.exists_cons_of_ne_nil hne
  have hin : 0 < (pool :: rest).length := Nat.succ_pos _
  have hfirst : LocksFree taken [.acquire 0] ↔ 0 ∉ taken := by simp [LocksFree]
  have hbehind : ∀ k, 0 + 2 ≤ k → (k ∈ takenAfter taken [.acquire 0] ↔ k ∈ taken) := by
    intro k hk
    have hne : k ≠ 0 := by omega
    simp [takenAfter, hne]
  unfold kmallocSearch ServedEarly
  by_cases hfew : pool.freePieces < kmallocPieces size
  · -- the first pool is left as it is left after a search of it
    have hturn : kmallocTurn (ceilToAlignment size) (kmallocPieces size) base ⟨pool :: rest, mem, [.acquire 0]⟩ 0 false =
        kmallocTurn (ceilToAlignment size) (kmallocPieces size) base ⟨pool :: rest, mem, [.acquire 0]⟩ 0 true := by
      simp [kmallocTurn, hfew]
    have hloop := kmallocLoop_found (ceilToAlignment size) base taken hpieces (n + 1)
      ⟨pool :: rest, mem, [.acquire 0]⟩ 0 hin (by show (pool :: rest).length - 0 ≤ n + 1; omega) hsmall rfl hbehind
    rw [kmallocLoop, ← hturn] at hloop
    rw [kmallocLoop]
    refine hloop.trans ((and_congr_left' hfirst).trans (and_congr_right' ⟨.inr, ?_⟩))
    rintro (⟨pool', hget, hserve⟩ | hrun)
    · cases hget
      exact absurd hserve.1 (Nat.not_le.mpr hfew)
    · exact hrun
  · have hturn : kmallocTurn (ceilToAlignment size) (kmallocPieces size) base ⟨pool :: rest, mem, [.acquire 0]⟩ 0 false =
        searchPool (kmallocPieces size) ⟨pool :: rest, mem, [.acquire 0]⟩ 0 := by
      simp [kmallocTurn, hfew]
    by_cases hfind : findSpace pool (kmallocPieces size) = none
    · have hlog : LocksFree taken [.acquire 0, .findSpace 0] ↔ 0 ∉ taken := by simp [LocksFree]
      have hloop := kmallocLoop_found (ceilToAlignment size) base taken hpieces n
        ⟨pool :: rest, mem, [.acquire 0, .findSpace 0]⟩ 0 hin
        (by show (pool :: rest).length - 0 ≤ n; omega) hsmall rfl hbehind
      rw [kmallocLoop, hturn, searchPool_none (c := ⟨pool :: rest, mem, [.acquire 0]⟩) rfl hfind]
      refine hloop.trans ((and_congr_left' hlog).trans (and_congr_right' ⟨.inr, ?_⟩))
      rintro (⟨pool', hget, hserve⟩ | hrun)
      · cases hget
        exact absurd hfind hserve.2
      · exact hrun
    · have hfound := searchPool_found (c := ⟨pool :: rest, mem, [.acquire 0]⟩) (i := 0) taken hpieces
        (hsmall pool List.mem_cons_self) rfl hfind (by show created [.acquire 0] ≤ 1; decide)
      have hloop : kmallocLoop (ceilToAlignment size) (kmallocPieces size) base (n + 1)
          ⟨pool :: rest, mem, [.acquire 0]⟩ 0 false = searchPool (kmallocPieces size) ⟨pool :: rest, mem, [.acquire 0]⟩ 0 := by
        obtain ⟨first, hsome⟩ := Option.ne_none_iff_exists'.mp hfind
        obtain ⟨bitmap, hok⟩ := setPieces_found hpieces (hsmall pool List.mem_cons_self) hsome
        rw [kmallocLoop, hturn]
        simp only [searchPool, List.getElem?_cons_zero, hsome, hok]
      rw [hloop, hfound, hfirst]
      exact ⟨fun h => ⟨h, .inl ⟨pool, rfl, Nat.le_of_not_lt hfew, hfind⟩⟩, fun h => h.1⟩

/-! ## The size of a new pool -/

/-- The pool that `_kmalloc` creates for a size has a run of the pieces it needs,
whatever the memory held. -/
def NewPoolFits (size : Nat) : Prop :=
  ∀ (base : Nat) (mem : Bytes.Mem), base % 0x1000 = 0 →
    base + 0x1000 * pagesOf (newPoolSize (ceilToAlignment size)) ≤ 2^64 → (∀ x, mem x < 2^8) →
    ∃ first, first + kmallocPieces size ≤ (kmpoolCreate (newPoolSize (ceilToAlignment size)) base mem).1.pieces ∧
      FirstFit.Fits (fun i => !Words.get (kmpoolCreate (newPoolSize (ceilToAlignment size)) base mem).1.bitmap i)
        (kmallocPieces size) first

/-- A default pool has 65,272 pieces that are surely free, enough for 1,044,336 bytes;
from `DEFAULT_POOL_SIZE` on the pool is twice the size. -/
def GoodRequest (size : Nat) : Prop := size ≤ 1044336 ∨ defaultPoolSize < size

section NewPool

variable {size : Nat}

theorem ceilToAlignment_eq (h : size < 2^32) : ceilToAlignment size = (size + 15) / 16 * 16 := by
  unfold ceilToAlignment pieceSize
  rw [u64_eq (by omega)]

theorem kmallocPieces_eq (h : size < 2^32) : kmallocPieces size = (size + 15) / 16 + 1 := by
  unfold kmallocPieces
  rw [ceilToAlignment_eq h]
  unfold pieceSize
  omega

theorem kmpoolPieces_default : kmpoolPieces defaultPoolSize = 65276 := by
  have heq := kmpoolPieces_eq (show defaultPoolSize < 2^36 by decide)
  have hbitmap : bitmapPieces defaultPoolSize = 512 := by decide
  have hpages : pagesOf defaultPoolSize = 257 := by decide
  rw [hbitmap, hpages] at heq
  generalize kmpoolPieces defaultPoolSize = pieces at heq ⊢
  omega

theorem newPoolFits_of_room (h : kmallocPieces size ≤ kmpoolPieces (newPoolSize (ceilToAlignment size)) / 8 * 8) :
    NewPoolFits size := by
  intro base mem _ _ hmem
  refine ⟨0, ?_, ?_⟩
  · show 0 + kmallocPieces size ≤ kmpoolPieces _
    omega
  · intro j _ hj
    have hclear := cleared_bit base hmem (show j < kmpoolPieces (newPoolSize (ceilToAlignment size)) / 8 * 8 by omega)
    simp only [hclear, Bool.not_false]

theorem newPoolFits_of_good (hsize : size < 2^32) (hgood : GoodRequest size) : NewPoolFits size := by
  apply newPoolFits_of_room
  have hceil := ceilToAlignment_eq hsize
  rw [kmallocPieces_eq hsize]
  rcases hgood with hsmall | hlarge
  · have hdefault : newPoolSize (ceilToAlignment size) = defaultPoolSize := by
      apply if_neg
      rw [hceil]
      unfold defaultPoolSize
      omega
    rw [hdefault, kmpoolPieces_default]
    omega
  · have htwice : newPoolSize (ceilToAlignment size) = (size + 15) / 16 * 16 * 2 := by
      unfold defaultPoolSize at hlarge
      have hover : defaultPoolSize < ceilToAlignment size := by
        rw [hceil]
        unfold defaultPoolSize
        omega
      unfold newPoolSize
      rw [if_pos hover, hceil, u64_eq (by omega)]
    have heq := kmpoolPieces_eq (show (size + 15) / 16 * 16 * 2 < 2^36 by omega)
    rw [htwice]
    unfold bitmapPieces pagesOf at heq
    unfold defaultPoolSize at hlarge
    omega

/-- In memory full of ones the last four pieces of a default pool are not free. -/
theorem not_newPoolFits (hlow : 1044336 < size) (hhigh : size ≤ defaultPoolSize) : ¬ NewPoolFits size := by
  intro hfits
  unfold defaultPoolSize at hhigh
  have hsize : size < 2^32 := by omega
  have hdefault : newPoolSize (ceilToAlignment size) = defaultPoolSize := by
    apply if_neg
    rw [ceilToAlignment_eq hsize]
    unfold defaultPoolSize
    omega
  have hfit : 0 + 0x1000 * pagesOf defaultPoolSize ≤ 2^64 := by decide
  obtain ⟨first, hin, hrun⟩ := hfits 0 filled rfl (by rw [hdefault]; exact hfit) filled_byte
  rw [hdefault] at hin hrun
  have hin' : first + kmallocPieces size ≤ kmpoolPieces defaultPoolSize := hin
  rw [kmpoolPieces_default, kmallocPieces_eq hsize] at hin'
  have hset := filled_bit (show defaultPoolSize < 2^36 by decide) rfl hfit (by decide)
    (show _ ≤ 65272 by rw [kmpoolPieces_default]) (by rw [kmpoolPieces_default]; decide)
  have hclear := hrun 65272 (by omega) (by rw [kmallocPieces_eq hsize]; omega)
  simp only [hset, Bool.not_true] at hclear
  cases hclear

end NewPool

/-- The search creates at most one pool and ends with a run of pieces, and a pool of
the size it chooses has such a run. -/
def OnePoolServes (turns size : Nat) (base : Nat → Nat) (taken : List Nat) (pools : List Pool) (mem : Bytes.Mem) : Prop :=
  NewPoolFits size ∧ (size ≠ 0 → FoundWithOne taken (kmallocSearch turns size base pools mem))

/-- **One new pool is enough just outside the gap below `DEFAULT_POOL_SIZE`, and for a
call that a pool before the last one serves whose way there is not locked.** -/
theorem kmalloc_one_pool_iff {turns size : Nat} {base : Nat → Nat} {taken : List Nat} {pools : List Pool}
    {mem : Bytes.Mem} (hsize : size < 2^32) (hne : pools ≠ []) (hturns : pools.length < turns)
    (hsmall : ∀ pool ∈ pools, pool.pieces < 2^32) :
    OnePoolServes turns size base taken pools mem ↔
      GoodRequest size ∧ (size = 0 ∨ ServedEarly taken pools (kmallocPieces size)) := by
  have hfits : NewPoolFits size ↔ GoodRequest size := by
    refine ⟨?_, newPoolFits_of_good hsize⟩
    intro h
    by_contra hgap
    unfold GoodRequest at hgap
    exact not_newPoolFits (by omega) (by omega) h
  have hfound := kmallocSearch_found size base mem taken hne hturns hsmall
  unfold OnePoolServes
  rw [hfits, hfound, ne_eq, or_iff_not_imp_left]

/-- A pool of four pieces, all of them free. -/
def fourFree : Pool := ⟨4, 4, 0x1000, fun _ => 0⟩

theorem kmalloc_one_pool_fresh : OnePoolServes 4 1 (fun _ => 0x200000) [3] [fullPool, fourFree, fourFree] fun _ => 0 :=
  (kmalloc_one_pool_iff (by decide) (by decide) (by decide) (by decide)).mpr
    ⟨.inl (by decide), .inr ⟨by decide, .inr ⟨1, by decide, by decide, ⟨fourFree, rfl, by decide⟩, by
      intro k hk hkj
      have hk2 : k = 2 := by omega
      rw [hk2]
      decide⟩⟩⟩

-- A call that the second pool serves returns with the lock of the third one taken.
example : takenAfter [] (kmallocChain 4 1 (fun _ => 0x200000) [fullPool, fourFree, fourFree] fun _ => 0).log = [2] := rfl

/-- A megabyte needs 65,537 pieces, and the pool created for it has 65,276. -/
theorem kmalloc_one_pool_megabyte : ¬ OnePoolServes 2 0x100000 (fun _ => 0x200000) [] [fullPool] fun _ => 0 :=
  fun h => not_newPoolFits (by decide) (by decide) h.1

/-! ## The payload -/

section Payload

variable (size pieces : Nat) (base : Nat → Nat)

/-- The pools of `c'` are those of `c` with pieces of pool `k` marked from `first` on. -/
structure MarkedIn (pieces : Nat) (c c' : Chain) (k first : Nat) (pool pool' : Pool) : Prop where
  found : c.pools[k]? = some pool
  run : findSpace pool pieces = some first
  marked : c'.pools[k]? = some pool'
  start : pool'.start = pool.start
  pieces : pool'.pieces = pool.pieces

theorem searchPool_done {pieces : Nat} {c c' : Chain} {i k first : Nat} (h : searchPool pieces c i = .done c' k first) :
    ∃ pool pool', MarkedIn pieces c c' k first pool pool' := by
  unfold searchPool at h
  split at h
  · cases h
  · next pool hpool =>
    split at h
    · cases h
    · next first' hfind =>
      split at h
      · cases h
      · next bitmap hset =>
        cases h
        refine ⟨pool, { pool with bitmap := bitmap, freePieces := u32 (pool.freePieces + (2^32 - pieces)) },
          hpool, hfind, ?_, rfl, rfl⟩
        exact List.getElem?_set_self (List.getElem?_eq_some_iff.mp hpool).1

theorem searchPool_next {pieces : Nat} {c c' : Chain} {i k : Nat} (h : searchPool pieces c i = .next c' k) : c'.pools = c.pools := by
  unfold searchPool at h
  split at h
  · cases h
  · split at h
    · cases h
      rfl
    · split at h <;> cases h

/-- The step to the next pool searches a pool that was in the chain, or ends at `NULL`. -/
theorem nextPool_cases {c : Chain} {i : Nat} (hin : i < c.pools.length) :
    (∃ c₁, c₁.pools = c.pools ∧ nextPool size pieces base c i = searchPool pieces c₁ (i + 1)) ∨
      ∃ c₁, nextPool size pieces base c i = .fault c₁ := by
  by_cases hlen : i + 2 < c.pools.length
  · exact .inl ⟨(c.logged (.release i)).logged (.acquire (i + 2)), rfl, nextPool_inside size base hlen⟩
  · exact .inr (nextPool_end size base hin hlen)

theorem kmallocTurn_cases (c : Chain) (i : Nat) (failed : Bool) :
    (∃ c₁ k, c₁.pools = c.pools ∧ kmallocTurn size pieces base c i failed = searchPool pieces c₁ k) ∨
      ∃ c₁, kmallocTurn size pieces base c i failed = .fault c₁ := by
  unfold kmallocTurn
  split
  · exact .inr ⟨c, rfl⟩
  · next pool hpool =>
    split
    · obtain ⟨hin, -⟩ := List.getElem?_eq_some_iff.mp hpool
      rcases nextPool_cases size pieces base hin with ⟨c₁, hsame, hnext⟩ | hfault
      · exact .inl ⟨c₁, i + 1, hsame, hnext⟩
      · exact .inr hfault
    · exact .inl ⟨c, i, rfl, rfl⟩

theorem kmallocLoop_done {size pieces : Nat} {base : Nat → Nat} : ∀ (n : Nat) {c c' : Chain} {i k first : Nat} {failed : Bool},
    kmallocLoop size pieces base n c i failed = .done c' k first →
    ∃ pool pool', MarkedIn pieces c c' k first pool pool' := by
  intro n
  induction n with
  | zero => intro c c' i k first failed h; cases h
  | succ n ih =>
    intro c c' i k first failed h
    rw [kmallocLoop] at h
    rcases kmallocTurn_cases size pieces base c i failed with
      ⟨c₁, k₁, hsame, hturn⟩ | ⟨c₁, hturn⟩
    · rw [hturn] at h
      split at h
      · next c₂ i₂ hnext =>
        obtain ⟨pool, pool', hmarked⟩ := ih h
        refine ⟨pool, pool', ?_, hmarked.run, hmarked.marked, hmarked.start, hmarked.pieces⟩
        rw [← hsame, ← searchPool_next hnext]
        exact hmarked.found
      · obtain ⟨pool, pool', hmarked⟩ := searchPool_done h
        refine ⟨pool, pool', ?_, hmarked.run, hmarked.marked, hmarked.start, hmarked.pieces⟩
        rw [← hsame]
        exact hmarked.found
    · rw [hturn] at h
      cases h

theorem kmallocChain_returned {size : Nat} {base : Nat → Nat} {turns addr : Nat} {pools : List Pool} {mem : Bytes.Mem} {c : Chain} (hsize : size ≠ 0)
    (hvalid : ∀ pool ∈ pools, pool.Valid) (hrun : kmallocChain turns size base pools mem = .returned addr c) :
    ∃ pool' first, pool' ∈ c.pools ∧ first + kmallocPieces size ≤ pool'.pieces ∧
      addr = pool'.start + (first + 1) * pieceSize ∧ blockPieces c.mem (blockOf addr) = kmallocPieces size - 1 := by
  unfold kmallocChain at hrun
  rw [if_neg hsize] at hrun
  cases hsearch : kmallocSearch turns size base pools mem with
  | next c₁ i => rw [hsearch] at hrun; cases hrun
  | fault c₁ => rw [hsearch] at hrun; cases hrun
  | panic p c₁ => rw [hsearch] at hrun; cases hrun
  | done c₁ k first =>
    rw [hsearch] at hrun
    obtain ⟨pool, pool', hmarked⟩ := kmallocLoop_done turns hsearch
    have hpieces : kmallocPieces size ≠ 0 := Nat.succ_ne_zero _
    obtain ⟨hin, -, -⟩ := (findSpace_spec pool hpieces).1 first hmarked.run
    have hsmall := (hvalid pool (List.mem_of_getElem? hmarked.found)).small
    simp only [kmallocBlock, hmarked.marked] at hrun
    split at hrun
    · cases hrun
      refine ⟨pool', first, List.mem_of_getElem? hmarked.marked, by rw [hmarked.pieces]; exact hin, rfl, ?_⟩
      exact (blockPieces_writeHeader _ _ _ _).trans (u32_eq (by omega))
    · cases hrun

end Payload

/-- The payload the header records has room for the size and lies in the data area of
a pool. -/
def PayloadHeld (size addr : Nat) (c : Chain) : Prop :=
  size ≤ pieceSize * blockPieces c.mem (blockOf addr) ∧
    ∃ pool ∈ c.pools, pool.start ≤ addr ∧
      addr + pieceSize * blockPieces c.mem (blockOf addr) ≤ pool.start + pieceSize * pool.pieces

/-- **A block has room for what was asked for just when rounding up does not wrap.** -/
theorem kmalloc_payload_iff {turns size addr : Nat} {base : Nat → Nat} {pools : List Pool} {mem : Bytes.Mem} {c : Chain}
    (hsize : 0 < size) (hword : size < 2^64) (hvalid : ∀ pool ∈ pools, pool.Valid)
    (hrun : kmallocChain turns size base pools mem = .returned addr c) :
    PayloadHeld size addr c ↔ size ≤ 2^64 - 16 := by
  obtain ⟨pool, first, hpool, hin, haddr, hheader⟩ := kmallocChain_returned (Nat.pos_iff_ne_zero.mp hsize) hvalid hrun
  have hround : kmallocPieces size - 1 = u64 (size + 15) / 16 := by
    show u64 (size + 15) / 16 * 16 / 16 + 1 - 1 = u64 (size + 15) / 16
    omega
  unfold PayloadHeld
  rw [hheader, hround]
  unfold pieceSize at haddr ⊢
  constructor
  · rintro ⟨hroom, -⟩
    by_contra hwrap
    unfold u64 at hroom
    omega
  · intro hfit
    have hexact : u64 (size + 15) = size + 15 := u64_eq (by omega)
    rw [hexact] at hround ⊢
    refine ⟨by omega, pool, hpool, by omega, ?_⟩
    omega

theorem fourFree_valid : ∀ pool ∈ [fourFree], pool.Valid := by
  intro pool hpool
  rw [List.mem_singleton.mp hpool]
  exact ⟨by decide, by decide, by decide⟩

theorem kmalloc_payload_byte : ∃ addr c,
    kmallocChain 1 1 (fun _ => 0x200000) [fourFree] (fun _ => 0) = .returned addr c ∧ PayloadHeld 1 addr c := by
  obtain ⟨addr, c, hrun⟩ : ∃ addr c, kmallocChain 1 1 (fun _ => 0x200000) [fourFree] (fun _ => 0) = .returned addr c :=
    ⟨_, _, rfl⟩
  exact ⟨addr, c, hrun, (kmalloc_payload_iff (by decide) (by decide) fourFree_valid hrun).mpr (by decide)⟩

/-- The largest size is rounded up to zero, and gets a block without a payload. -/
theorem kmalloc_payload_wraps : ∃ addr c,
    kmallocChain 1 (2^64 - 1) (fun _ => 0x200000) [fourFree] (fun _ => 0) = .returned addr c ∧
      ¬ PayloadHeld (2^64 - 1) addr c := by
  obtain ⟨addr, c, hrun⟩ : ∃ addr c,
      kmallocChain 1 (2^64 - 1) (fun _ => 0x200000) [fourFree] (fun _ => 0) = .returned addr c := ⟨_, _, rfl⟩
  refine ⟨addr, c, hrun, ?_⟩
  rintro ⟨hroom, -⟩
  obtain ⟨pool, first, -, -, -, hheader⟩ := kmallocChain_returned (by decide) fourFree_valid hrun
  rw [hheader] at hroom
  exact absurd hroom (by decide)

end Aex.Mem
