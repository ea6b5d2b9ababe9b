import AexKernel.Mem.PoolCreate

/- `_kmalloc` over a chain of pools, with the locks it takes.

   The loop searches the pool it was given and goes on to the next one when there
   are too few pieces, or no run of them; at the end of the chain it appends a new
   pool. It lets go of the lock of the pool it leaves, and after the step to the
   next pool it takes the lock of `pool->next`: not of the pool it is going to
   search, and at the end of the chain, also right behind a pool just appended,
   through a `NULL` pointer. So only the first pool is searched under its own lock
   (`kmalloc_locks_iff`).

   A pool is named by its place in the chain. What a call does to pools and their
   locks is logged in order; a lock that another thread holds is waited for. A read
   through `NULL` ends the call. -/
namespace Aex.Mem

/-- What a call does to the pools, by their places. -/
inductive PoolEvent where
  | acquire (i : Nat)
  | release (i : Nat)
  | findSpace (i : Nat)
  | setPieces (i : Nat)
  | create (size : Nat)
  | nullNext
  deriving DecidableEq, Repr

/-- The pools from the one given to `_kmalloc` on, memory, and the log of the call. -/
structure Chain where
  pools : List Pool
  mem : Bytes.Mem
  log : List PoolEvent

def Chain.logged (c : Chain) (e : PoolEvent) : Chain := { c with log := c.log ++ [e] }

def defaultPoolSize : Nat := 0x1000 * 256

/-- The size of a new pool, for a size that is rounded up already. -/
def newPoolSize (size : Nat) : Nat := if defaultPoolSize < size then u64 (size * 2) else defaultPoolSize

/-- How a turn of the loop ends: at the next turn with `starting_piece` at -1, at the
`break`, in a read through `NULL`, or in a `kpanic`. The number is the place of
`pool`. -/
inductive PoolTurn where
  | next (c : Chain) (pool : Nat)
  | done (c : Chain) (pool first : Nat)
  | fault (c : Chain)
  | panic (p : Kpanic) (c : Chain)

/-- `pool->next = kmpool_create(...)` if there is no next pool; `base` is where
`kpalloc` puts a pool. -/
def appendPool (size : Nat) (base : Nat → Nat) (c : Chain) (pool : Nat) : Chain :=
  if pool + 1 < c.pools.length then c
  else
    let (new, mem) := kmpoolCreate (newPoolSize size) (base c.pools.length) c.mem
    { pools := c.pools ++ [new], mem := mem, log := c.log ++ [.create (newPoolSize size)] }

/-- The part of a turn from `find_space` on. -/
def searchPool (pieces : Nat) (c : Chain) (i : Nat) : PoolTurn :=
  match c.pools[i]? with
  | none => .fault c
  | some pool =>
    match findSpace pool pieces with
    | none => .next (c.logged (.findSpace i)) i
    | some first =>
      match setPieces pool.bitmap first pieces true with
      | .error p => .panic p ((c.logged (.findSpace i)).logged (.setPieces i))
      | .ok bitmap =>
        let pool := { pool with bitmap := bitmap, freePieces := u32 (pool.freePieces + (2^32 - pieces)) }
        .done { (c.logged (.findSpace i)).logged (.setPieces i) with pools := c.pools.set i pool } i first

/-- The step to the next pool, and the search of it. -/
def nextPool (size pieces : Nat) (base : Nat → Nat) (c : Chain) (i : Nat) : PoolTurn :=
  let c := (appendPool size base c i).logged (.release i)
  if i + 2 < c.pools.length then searchPool pieces (c.logged (.acquire (i + 2))) (i + 1)
  else .fault (c.logged .nullNext)

/-- A turn of the loop. -/
def kmallocTurn (size pieces : Nat) (base : Nat → Nat) (c : Chain) (i : Nat) (failed : Bool) : PoolTurn :=
  match c.pools[i]? with
  | none => .fault c
  | some pool => if pool.freePieces < pieces ∨ failed then nextPool size pieces base c i else searchPool pieces c i

/-- The loop, for a number of turns; `next` where it is still going on. -/
def kmallocLoop (size pieces : Nat) (base : Nat → Nat) : Nat → Chain → Nat → Bool → PoolTurn
  | 0, c, i, _ => .next c i
  | n + 1, c, i, failed =>
    match kmallocTurn size pieces base c i failed with
    | .next c i => kmallocLoop size pieces base n c i true
    | turn => turn

/-- How a call ends. -/
inductive KmallocEnd where
  | returned (addr : Nat) (c : Chain)
  | fault (c : Chain)
  | panic (p : Kpanic) (c : Chain)
  | running (c : Chain)

/-- What follows the loop. -/
def kmallocBlock (pieces : Nat) (c : Chain) (i first : Nat) : KmallocEnd :=
  match c.pools[i]? with
  | none => .fault c
  | some pool =>
    let addr := pool.start + (first + 1) * pieceSize
    if Bytes.blank c.mem (blockOf addr) (pieces * pieceSize) then
      .returned addr { c.logged (.release i) with mem := writeHeader c.mem (blockOf addr) first (pieces - 1) }
    else .panic .notBlank (c.logged (.release i))

/-- The number of pieces for a size: those of the payload and one for the header. -/
def kmallocPieces (size : Nat) : Nat := ceilToAlignment size / pieceSize + 1

/-- The loop of a call, from the first pool with its lock taken. -/
def kmallocSearch (turns size : Nat) (base : Nat → Nat) (pools : List Pool) (mem : Bytes.Mem) : PoolTurn :=
  kmallocLoop (ceilToAlignment size) (kmallocPieces size) base turns ⟨pools, mem, [.acquire 0]⟩ 0 false

/-- `_kmalloc` on a chain. -/
def kmallocChain (turns size : Nat) (base : Nat → Nat) (pools : List Pool) (mem : Bytes.Mem) : KmallocEnd :=
  if size = 0 then .returned 0 ⟨pools, mem, []⟩
  else match kmallocSearch turns size base pools mem with
    | .next c _ => .running c
    | .done c i first => kmallocBlock (kmallocPieces size) c i first
    | .fault c => .fault c
    | .panic p c => .panic p c

/-- The log of a turn, and of a call. -/
def PoolTurn.log : PoolTurn → List PoolEvent
  | .next c _ => c.log
  | .done c _ _ => c.log
  | .fault c => c.log
  | .panic _ c => c.log

def KmallocEnd.log : KmallocEnd → List PoolEvent
  | .returned _ c => c.log
  | .fault c => c.log
  | .panic _ c => c.log
  | .running c => c.log

/-! ## The locks -/

/-- The locks held after the events. -/
def heldAfter : List Nat → List PoolEvent → List Nat
  | held, [] => held
  | held, .acquire i :: es => heldAfter (i :: held) es
  | held, .release i :: es => heldAfter (held.erase i) es
  | held, _ :: es => heldAfter held es

/-- A pool is searched and changed under its own lock and no other, and no `NULL`
pointer is followed. -/
def WellLocked : List Nat → List PoolEvent → Prop
  | _, [] => True
  | held, .acquire i :: es => WellLocked (i :: held) es
  | held, .release i :: es => WellLocked (held.erase i) es
  | held, .findSpace i :: es => held = [i] ∧ WellLocked held es
  | held, .setPieces i :: es => held = [i] ∧ WellLocked held es
  | held, .create _ :: es => WellLocked held es
  | _, .nullNext :: _ => False

theorem wellLocked_append : ∀ (es es' : List PoolEvent) (held : List Nat),
    WellLocked held (es ++ es') ↔ WellLocked held es ∧ WellLocked (heldAfter held es) es' := by
  intro es
  induction es with
  | nil =>
    intro es' held
    simp [WellLocked, heldAfter]
  | cons e es ih =>
    intro es' held
    cases e with
    | acquire i => exact ih es' _
    | release i => exact ih es' _
    | create size => exact ih es' _
    | findSpace i =>
      simp only [List.cons_append, WellLocked, heldAfter, ih, and_assoc]
    | setPieces i =>
      simp only [List.cons_append, WellLocked, heldAfter, ih, and_assoc]
    | nullNext => simp [WellLocked]

/-- The locks are held as they should be along the call, and none when it returns. -/
def LocksHeld (e : KmallocEnd) : Prop :=
  WellLocked [] e.log ∧ ∀ addr c, e = .returned addr c → heldAfter [] c.log = []

/-- The first pool has enough free pieces, and a run of them. -/
def Serves (pool : Pool) (pieces : Nat) : Prop := pieces ≤ pool.freePieces ∧ findSpace pool pieces ≠ none

instance (pool : Pool) (pieces : Nat) : Decidable (Serves pool pieces) := inferInstanceAs (Decidable (_ ∧ _))

section Log

variable (size pieces : Nat) (base : Nat → Nat)

theorem searchPool_log {c : Chain} {i : Nat} {pool : Pool} (hpool : c.pools[i]? = some pool) :
    ∃ es, (searchPool pieces c i).log = c.log ++ .findSpace i :: es := by
  unfold searchPool
  rw [hpool]
  simp only
  split
  · exact ⟨[], rfl⟩
  · split
    · exact ⟨[.setPieces i], by simp [PoolTurn.log, Chain.logged]⟩
    · exact ⟨[.setPieces i], by simp [PoolTurn.log, Chain.logged]⟩

theorem appendPool_log (c : Chain) (i : Nat) : ∃ new, (appendPool size base c i).log = c.log ++ new ∧
    ∀ held, WellLocked held new ∧ heldAfter held new = held := by
  unfold appendPool
  split
  · exact ⟨[], by simp, fun held => ⟨trivial, rfl⟩⟩
  · exact ⟨[.create (newPoolSize size)], rfl, fun held => ⟨trivial, rfl⟩⟩

/-- The step to the next pool goes wrong in every case: it ends at a `NULL`, or the
pool is searched under the lock of the one behind it. -/
theorem nextPool_log {c : Chain} {i : Nat} (hheld : heldAfter [] c.log = [i]) :
    ¬ WellLocked [] (nextPool size pieces base c i).log := by
  obtain ⟨new, hnew, hkeep⟩ := appendPool_log size base c i
  intro hwell
  unfold nextPool at hwell
  simp only at hwell
  split at hwell
  · next hlen =>
    obtain ⟨pool, hpool⟩ : ∃ pool, (((appendPool size base c i).logged (.release i)).logged
        (.acquire (i + 2))).pools[i + 1]? = some pool := by
      refine ⟨_, List.getElem?_eq_getElem ?_⟩
      have hlen' : i + 2 < (appendPool size base c i).pools.length := hlen
      show i + 1 < (appendPool size base c i).pools.length
      omega
    obtain ⟨es, hes⟩ := searchPool_log pieces hpool
    rw [hes] at hwell
    simp only [Chain.logged, hnew, List.append_assoc, List.cons_append, List.nil_append] at hwell
    rw [wellLocked_append, hheld, wellLocked_append, (hkeep [i]).2] at hwell
    have hsearch := hwell.2.2
    simp only [WellLocked, List.erase_cons_head] at hsearch
    have heq := List.cons.inj hsearch.1
    omega
  · simp only [PoolTurn.log, Chain.logged, hnew, List.append_assoc, List.cons_append, List.nil_append] at hwell
    rw [wellLocked_append, hheld, wellLocked_append, (hkeep [i]).2] at hwell
    exact hwell.2.2

theorem searchPool_grows (c : Chain) (i : Nat) : ∃ es, (searchPool pieces c i).log = c.log ++ es := by
  cases hpool : c.pools[i]? with
  | none =>
    refine ⟨[], ?_⟩
    unfold searchPool
    rw [hpool, List.append_nil]
    rfl
  | some pool =>
    obtain ⟨es, hes⟩ := searchPool_log pieces hpool
    exact ⟨_, hes⟩

theorem nextPool_grows (c : Chain) (i : Nat) : ∃ es, (nextPool size pieces base c i).log = c.log ++ es := by
  obtain ⟨new, hnew, -⟩ := appendPool_log size base c i
  unfold nextPool
  simp only
  split
  · obtain ⟨es, hes⟩ := searchPool_grows pieces
      (((appendPool size base c i).logged (.release i)).logged (.acquire (i + 2))) (i + 1)
    refine ⟨new ++ [.release i, .acquire (i + 2)] ++ es, ?_⟩
    rw [hes]
    simp [Chain.logged, hnew]
  · exact ⟨new ++ [.release i, .nullNext], by simp [PoolTurn.log, Chain.logged, hnew]⟩

theorem kmallocTurn_grows (c : Chain) (i : Nat) (failed : Bool) :
    ∃ es, (kmallocTurn size pieces base c i failed).log = c.log ++ es := by
  unfold kmallocTurn
  split
  · exact ⟨[], (List.append_nil _).symm⟩
  · split
    · exact nextPool_grows size pieces base c i
    · exact searchPool_grows pieces c i

theorem kmallocLoop_grows : ∀ (n : Nat) (c : Chain) (i : Nat) (failed : Bool),
    ∃ es, (kmallocLoop size pieces base n c i failed).log = c.log ++ es := by
  intro n
  induction n with
  | zero => intro c i failed; exact ⟨[], (List.append_nil _).symm⟩
  | succ n ih =>
    intro c i failed
    obtain ⟨es, hes⟩ := kmallocTurn_grows size pieces base c i failed
    unfold kmallocLoop
    split
    · next c' i' hturn =>
      rw [hturn] at hes
      obtain ⟨es', hes'⟩ := ih c' i' true
      have hlog : c'.log = c.log ++ es := hes
      exact ⟨es ++ es', by rw [hes', hlog, List.append_assoc]⟩
    · exact ⟨es, hes⟩

theorem kmallocLoop_turn_grows (n : Nat) (c : Chain) (i : Nat) (failed : Bool) :
    ∃ es, (kmallocLoop size pieces base (n + 1) c i failed).log = (kmallocTurn size pieces base c i failed).log ++ es := by
  unfold kmallocLoop
  split
  · next c' i' hturn =>
    rw [hturn]
    exact kmallocLoop_grows size pieces base n c' i' true
  · exact ⟨[], (List.append_nil _).symm⟩

theorem kmallocChain_grows (turns : Nat) (pools : List Pool) (mem : Bytes.Mem) (hsize : size ≠ 0) :
    ∃ es, (kmallocChain turns size base pools mem).log = (kmallocSearch turns size base pools mem).log ++ es := by
  unfold kmallocChain
  rw [if_neg hsize]
  cases kmallocSearch turns size base pools mem with
  | next c i => exact ⟨[], (List.append_nil _).symm⟩
  | fault c => exact ⟨[], (List.append_nil _).symm⟩
  | panic p c => exact ⟨[], (List.append_nil _).symm⟩
  | done c i first =>
    simp only [kmallocBlock]
    split
    · exact ⟨[], (List.append_nil _).symm⟩
    · split
      · exact ⟨[.release i], rfl⟩
      · exact ⟨[.release i], rfl⟩

end Log

theorem not_locksHeld {turns size : Nat} {base : Nat → Nat} {pool : Pool} {rest : List Pool} {mem : Bytes.Mem}
    (hsize : size ≠ 0) (hserve : ¬ Serves pool (kmallocPieces size)) :
    ¬ LocksHeld (kmallocChain (turns + 2) size base (pool :: rest) mem) := by
  rintro ⟨hwell, -⟩
  obtain ⟨es, hes⟩ := kmallocChain_grows size base (turns + 2) (pool :: rest) mem hsize
  rw [hes, wellLocked_append] at hwell
  have hloop := hwell.1
  unfold kmallocSearch at hloop
  by_cases hfew : pool.freePieces < kmallocPieces size
  · -- the first turn leaves the pool
    obtain ⟨es', hes'⟩ := kmallocLoop_turn_grows (ceilToAlignment size) (kmallocPieces size)
      base (turns + 1) ⟨pool :: rest, mem, [.acquire 0]⟩ 0 false
    have hturn : kmallocTurn (ceilToAlignment size) (kmallocPieces size) base ⟨pool :: rest, mem, [.acquire 0]⟩ 0 false =
        nextPool (ceilToAlignment size) (kmallocPieces size) base ⟨pool :: rest, mem, [.acquire 0]⟩ 0 :=
      if_pos (.inl hfew)
    rw [hes', wellLocked_append, hturn] at hloop
    exact nextPool_log _ _ _ rfl hloop.1
  · -- the first turn finds no run, and the second one leaves the pool
    have hnone : findSpace pool (kmallocPieces size) = none := by
      by_contra hsome
      exact hserve ⟨Nat.le_of_not_lt hfew, hsome⟩
    have hturn : kmallocTurn (ceilToAlignment size) (kmallocPieces size) base ⟨pool :: rest, mem, [.acquire 0]⟩ 0 false =
        .next ⟨pool :: rest, mem, [.acquire 0, .findSpace 0]⟩ 0 := by
      simp [kmallocTurn, searchPool, hfew, hnone, Chain.logged]
    have hloop' : kmallocLoop (ceilToAlignment size) (kmallocPieces size) base (turns + 1 + 1)
        ⟨pool :: rest, mem, [.acquire 0]⟩ 0 false =
        kmallocLoop (ceilToAlignment size) (kmallocPieces size) base (turns + 1)
          ⟨pool :: rest, mem, [.acquire 0, .findSpace 0]⟩ 0 true := by
      rw [kmallocLoop, hturn]
    rw [hloop'] at hloop
    obtain ⟨es', hes'⟩ := kmallocLoop_turn_grows (ceilToAlignment size) (kmallocPieces size)
      base turns ⟨pool :: rest, mem, [.acquire 0, .findSpace 0]⟩ 0 true
    have hmove : kmallocTurn (ceilToAlignment size) (kmallocPieces size) base
        ⟨pool :: rest, mem, [.acquire 0, .findSpace 0]⟩ 0 true =
        nextPool (ceilToAlignment size) (kmallocPieces size) base ⟨pool :: rest, mem, [.acquire 0, .findSpace 0]⟩ 0 :=
      if_pos (.inr rfl)
    rw [hes', wellLocked_append, hmove] at hloop
    exact nextPool_log _ _ _ rfl hloop.1

theorem locksHeld_of_serves {turns size : Nat} {base : Nat → Nat} {pool : Pool} {rest : List Pool} {mem : Bytes.Mem}
    (hsize : size ≠ 0) (hserve : Serves pool (kmallocPieces size)) :
    LocksHeld (kmallocChain (turns + 1) size base (pool :: rest) mem) := by
  obtain ⟨henough, hfind⟩ := hserve
  obtain ⟨first, hfirst⟩ := Option.ne_none_iff_exists'.mp hfind
  have hfew : ¬ pool.freePieces < kmallocPieces size := Nat.not_lt.mpr henough
  have hturn : kmallocTurn (ceilToAlignment size) (kmallocPieces size) base ⟨pool :: rest, mem, [.acquire 0]⟩ 0 false =
      searchPool (kmallocPieces size) ⟨pool :: rest, mem, [.acquire 0]⟩ 0 := by
    simp [kmallocTurn, hfew]
  unfold LocksHeld kmallocChain kmallocSearch
  rw [if_neg hsize, kmallocLoop, hturn]
  unfold searchPool
  simp only [List.getElem?_cons_zero, hfirst]
  cases setPieces pool.bitmap first (kmallocPieces size) true with
  | error p =>
    refine ⟨?_, fun addr c h => by cases h⟩
    exact ⟨rfl, rfl, trivial⟩
  | ok bitmap =>
    simp only [kmallocBlock, List.set_cons_zero, List.getElem?_cons_zero]
    split
    · refine ⟨⟨rfl, rfl, trivial⟩, ?_⟩
      intro addr c h
      cases h
      rfl
    · exact ⟨⟨rfl, rfl, trivial⟩, fun addr c h => by cases h⟩

/-- **The locks are right just when the first pool serves the call.** -/
theorem kmalloc_locks_iff (turns size : Nat) (base : Nat → Nat) (pool : Pool) (rest : List Pool) (mem : Bytes.Mem) :
    LocksHeld (kmallocChain (turns + 2) size base (pool :: rest) mem) ↔ size = 0 ∨ Serves pool (kmallocPieces size) := by
  by_cases hsize : size = 0
  · refine ⟨fun _ => .inl hsize, fun _ => ?_⟩
    unfold LocksHeld kmallocChain
    rw [if_pos hsize]
    refine ⟨trivial, ?_⟩
    intro addr c h
    cases h
    rfl
  · rw [or_iff_right hsize]
    refine ⟨?_, fun hserve => locksHeld_of_serves hsize hserve⟩
    intro hlocks
    by_contra hserve
    exact not_locksHeld hsize hserve hlocks

/-- A pool of four pieces, all of them taken. -/
def fullPool : Pool := ⟨4, 0, 0x1000, fun _ => 15#32⟩

/-- With the one pool full, the first byte asked for is looked for behind a `NULL`. -/
theorem kmalloc_locks_full : ¬ LocksHeld (kmallocChain 2 1 (fun _ => 0x200000) [fullPool] fun _ => 0) :=
  not_locksHeld (by decide) (by decide)

end Aex.Mem
