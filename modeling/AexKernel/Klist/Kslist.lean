import AexKernel.Klist.Calls
import AexKernel.Lib.Linked
import AexKernel.Str.Ntoa

/- Lists with names (`kernel/kslist.c`).

   `kslist_set` looks for an entry of the hash and name and, where there is none, puts
   a new one at the end. Its `prev` stays NULL, so that a second entry is written
   through NULL; and the length of the name it copies is that of the name in the new
   entry, which is empty, so that only hashes tell names apart. `kslist_refines_iff`
   says for which sequences of calls the list is a map all the same. -/
namespace Aex.Klist
open Bindings Mem

/-- A name of fewer than 32 characters. -/
structure KsName where
  bytes : List Nat
  nulFree : ∀ c ∈ bytes, c ≠ 0
  short : bytes.length < 32
  deriving DecidableEq

/-- `kslist_entry_t`. -/
structure KslistEntry where
  hash : BitVec 32
  name : List Nat
  data : Option Nat
  next : Option KernelAddr
  deriving DecidableEq

/-- A `kslist_t`, the blocks of the heap with those in use, the variables of the
callers that iterate, and the answers so far. -/
structure KslistState where
  count : Nat
  first : Option KernelAddr
  entries : KernelAddr → KslistEntry
  live : List KernelAddr
  vars : Nat → Option KernelAddr
  answers : List (Answer Nat)

/-- How a call ends that does not return: it writes through NULL, or it goes on for
ever. -/
inductive Halt where
  | nullWrite
  | endless
  deriving DecidableEq

/-- One turn of `kslist_hash`, for a `char` that is signed. -/
def hashTurn (ret : BitVec 32) (c : Int) : BitVec 32 :=
  let ret := ret + BitVec.ofInt 32 c
  let ret := ret + BitVec.ofInt 32 (c * 2^6)
  let ret := ret + BitVec.ofInt 32 (c.tmod 11 * 100)
  let ret := ret * 3#32
  (ret <<< 11) ||| (ret >>> (32 - 11))

/-- The loop of `kslist_hash`: it goes to the next character before it reads one. -/
def hashLoop (ret : BitVec 32) : List Nat → BitVec 32
  | [] => ret
  | _ :: string => hashLoop (hashTurn ret (Str.charValue (string.headD 0))) string

def kslistHash (name : KsName) : BitVec 32 := hashLoop 0#32 name.bytes

def strlen (string : List Nat) : Nat := (string.takeWhile (· ≠ 0)).length

def memcmp (a b : List Nat) : Nat → Int
  | 0 => 0
  | size + 1 =>
    if a.headD 0 < b.headD 0 then -1
    else if b.headD 0 < a.headD 0 then 1
    else memcmp a.tail b.tail size

/-- `kslist_init`, with any memory. -/
def kslistInit (entries : KernelAddr → KslistEntry) : KslistState where
  count := 0
  first := none
  entries := entries
  live := []
  vars := fun _ => none
  answers := []

/-- The test of an entry, for the hash and the name. -/
def KslistEntry.isFor (entry : KslistEntry) (name : KsName) : Bool :=
  entry.hash = kslistHash name ∧ memcmp entry.name name.bytes (strlen entry.name) = 0

/-- The loop of `kslist_set` and of `kslist_get`: the entry, if there is one. -/
def findLoop (s : KslistState) (name : KsName) : Nat → Option KernelAddr → Except Halt (Option KernelAddr)
  | _, none => .ok none
  | 0, some _ => .error .endless
  | fuel + 1, some entry =>
    if (s.entries entry).isFor name then .ok (some entry) else findLoop s name fuel (s.entries entry).next

/-- `kfree` fills the block with zeros. -/
def blankEntry : KslistEntry := { hash := 0, name := List.replicate 32 0, data := none, next := none }

def KslistState.write (s : KslistState) (entry : KernelAddr) (e : KslistEntry) : KslistState :=
  { s with entries := Function.update s.entries entry e }

/-- What is written to the block of a new entry; `name_len` is read from the block. -/
def KslistEntry.fill (entry : KslistEntry) (name : KsName) (ptr : Nat) : KslistEntry :=
  let nameLen := strlen entry.name
  let nameLen := if 31 < nameLen then 31 else nameLen
  { hash := kslistHash name
    name := (List.range nameLen).map (fun i => name.bytes.getD i 0) ++ 0 :: entry.name.drop (nameLen + 1)
    data := some ptr
    next := none }

/-- `kslist_set`. Nothing is assigned to `prev` after its declaration. -/
def kslistSet (s : KslistState) (name : KsName) (ptr : Option Nat) (block : KernelAddr) :
    Except Halt (Bool × KslistState) := do
  let prev : Option KernelAddr := none
  match ← findLoop s name s.live.length s.first, ptr with
  | some entry, none =>
    let next := (s.entries entry).next
    let s := match prev with
      | none => { s with first := next }
      | some prev => s.write prev { s.entries prev with next := next }
    return (true, { s.write entry blankEntry with live := s.live.erase entry })
  | some entry, some ptr => return (true, s.write entry { s.entries entry with data := some ptr })
  | none, none => return (false, s)
  | none, some ptr =>
    let s := { s with live := block :: s.live }
    match s.first, prev with
    | none, _ => return (false, { s.write block ((s.entries block).fill name ptr) with first := some block })
    | some _, some prev =>
      return (false, (s.write prev { s.entries prev with next := some block }).write block ((s.entries block).fill name ptr))
    | some _, none => throw .nullWrite

def kslistGet (s : KslistState) (name : KsName) : Except Halt (Option Nat) :=
  (findLoop s name s.live.length s.first).map fun entry => entry.bind fun entry => (s.entries entry).data

/-- `kslist_iter`: the variable behind `entry`, and what is returned. -/
def kslistIter (s : KslistState) (entry : Option KernelAddr) : Option KernelAddr × Option Nat :=
  let entry := match entry with
    | none => s.first
    | some entry => (s.entries entry).next
  (entry, entry.bind fun entry => (s.entries entry).data)

/-- One call. -/
def kslistCall (s : KslistState) : ListCall KsName → Except Halt KslistState
  | .set name ptr block =>
    (kslistSet s name ptr block).map fun (was, s) => { s with answers := s.answers ++ [.was was] }
  | .get name => (kslistGet s name).map fun ptr => { s with answers := s.answers ++ [.value ptr] }
  | .start var => .ok { s with vars := Function.update s.vars var none }
  | .iter var =>
    let (entry, ptr) := kslistIter s (s.vars var)
    .ok { s with vars := Function.update s.vars var entry, answers := s.answers ++ [.value ptr] }

/-- A sequence of calls. -/
def kslistCalls (s : KslistState) (calls : List (ListCall KsName)) : Except Halt KslistState := calls.foldlM kslistCall s

/-- The heap gives a block that is not in use and filled with zeros. -/
def ServedName (s : KslistState) : ListCall KsName → Prop
  | .set _ _ block => block ∉ s.live ∧ s.entries block = blankEntry
  | _ => True

/-- The heap does so at every call of a sequence. -/
def ServedNames (s : KslistState) : List (ListCall KsName) → Prop
  | [] => True
  | call :: calls => ServedName s call ∧ ∀ s', kslistCall s call = .ok s' → ServedNames s' calls

/-- All calls return, and answer as the map does. -/
def Refines (s : KslistState) (t : State KsName Nat) (calls : List (ListCall KsName)) : Prop :=
  ∃ s', kslistCalls s calls = .ok s' ∧ List.Forall₂ Kept (t.calls (calls.map ListCall.spec)).answers s'.answers

/-- A name is bound while no other one is; and what is asked about a name is asked
while no other name of its hash is bound. -/
def CallAdmitted (t : State KsName Nat) : ListCall KsName → Prop
  | .set name (some _) _ => ∀ m, (t.map m).isSome = true → m = name
  | .set name none _ | .get name => ∀ m, (t.map m).isSome = true → kslistHash m = kslistHash name → m = name
  | .start _ | .iter _ => True

def Admitted (t : State KsName Nat) : List (ListCall KsName) → Prop
  | [] => True
  | call :: calls => CallAdmitted t call ∧ Admitted (t.call call.spec) calls

/-! ## One entry -/

/-- The entry of a list, and the name it is for. -/
structure Holding where
  addr : KernelAddr
  name : KsName
  ptr : Nat

/-- What is in its block: no name. -/
def Holding.stored (b : Holding) : KslistEntry :=
  { hash := kslistHash b.name, name := blankEntry.name, data := some b.ptr, next := none }

/-- Where the variable of an iteration points. -/
def PointsTo (b : Option Holding) : Cursor KsName → Option KernelAddr → Prop
  | .start, entry => entry = none
  | .at name, entry => ∃ x, b = some x ∧ entry = some x.addr ∧ x.name = name
  | .lost, _ => True

/-- The list has one entry at most. -/
structure Single (s : KslistState) (t : State KsName Nat) (b : Option Holding) : Prop where
  first : s.first = b.map Holding.addr
  live : s.live = (b.map Holding.addr).toList
  stored : ∀ x, b = some x → s.entries x.addr = x.stored
  order : t.order = (b.map Holding.name).toList
  map : ∀ name, t.map name = b.bind fun x => if x.name = name then some x.ptr else none
  points : ∀ c, PointsTo b (t.cursors c) (s.vars c)
  answers : List.Forall₂ Kept t.answers s.answers

variable {s s' : KslistState} {t : State KsName Nat} {b : Option Holding}

theorem strlen_blank : strlen blankEntry.name = 0 := by decide

theorem fill_blank (x : Holding) : blankEntry.fill x.name x.ptr = x.stored := by
  simp only [KslistEntry.fill, strlen_blank]
  rfl

theorem stored_isFor (x : Holding) (name : KsName) : x.stored.isFor name = decide (kslistHash x.name = kslistHash name) := by
  simp only [KslistEntry.isFor, Holding.stored, strlen_blank, memcmp, and_true]

theorem Single.find (h : Single s t b) (name : KsName) : findLoop s name s.live.length s.first =
    .ok (b.bind fun x => if kslistHash x.name = kslistHash name then some x.addr else none) := by
  cases b with
  | none =>
    rw [h.first]
    cases s.live.length <;> rfl
  | some x =>
    have hlive : s.live.length = 1 := by rw [h.live]; rfl
    have hstored := h.stored x rfl
    have hnext : (s.entries x.addr).next = none := by rw [hstored]; rfl
    rw [hlive, h.first]
    simp only [Option.map_some, findLoop, hstored, stored_isFor, decide_eq_true_eq, Option.bind_some]
    split
    · rfl
    · rw [← hstored, hnext]
      rfl

theorem Single.bound_iff (h : Single s t b) (name : KsName) : (t.map name).isSome = true ↔ ∃ x, b = some x ∧ x.name = name := by
  rw [h.map]
  cases b with
  | none => simp
  | some x => simp

theorem Single.answered (h : Single s t b) {answer : Answer Nat} {promised : Option (Answer Nat)} (hkept : Kept promised answer) :
    Single { s with answers := s.answers ++ [answer] } { t with answers := t.answers ++ [promised] } b where
  first := h.first
  live := h.live
  stored := h.stored
  order := h.order
  map := h.map
  points := h.points
  answers := kept_append h.answers hkept

theorem Single.insert (h : Single s t none) (x : Holding) :
    Single { s.write x.addr x.stored with first := some x.addr, live := x.addr :: s.live } (t.set x.name (some x.ptr)) (some x) where
  first := rfl
  live := by
    rw [h.live]
    rfl
  stored := by
    intro y hy
    cases hy
    exact Function.update_self _ _ _
  order := by
    rw [State.set, h.order]
    rfl
  map := by
    intro name
    by_cases hname : name = x.name
    · rw [hname, State.set_self, Option.bind_some, if_pos rfl]
    · rw [State.set_other t hname, h.map, Option.bind_some, if_neg (Ne.symm hname)]
      rfl
  points := by
    intro c
    have hpoints := h.points c
    change PointsTo (some x) (t.cursors c) (s.vars c)
    cases hc : t.cursors c with
    | start =>
      rw [hc] at hpoints
      exact hpoints
    | «at» name =>
      rw [hc] at hpoints
      obtain ⟨y, hy, _⟩ := hpoints
      cases hy
    | lost => trivial
  answers := h.answers

theorem Single.replace {x : Holding} (h : Single s t (some x)) (ptr : Nat) :
    Single (s.write x.addr { s.entries x.addr with data := some ptr }) (t.set x.name (some ptr)) (some { x with ptr := ptr }) where
  first := h.first
  live := h.live
  stored := by
    intro y hy
    cases hy
    refine Eq.trans (Function.update_self _ _ _) ?_
    rw [h.stored x rfl]
    rfl
  order := by
    have hin : x.name ∈ t.order := by
      rw [h.order]
      exact List.mem_singleton_self x.name
    rw [State.set, if_pos hin]
    exact h.order
  map := by
    intro name
    by_cases hname : name = x.name
    · rw [hname, State.set_self, Option.bind_some, if_pos rfl]
    · rw [State.set_other t hname, h.map, Option.bind_some, Option.bind_some, if_neg (Ne.symm hname), if_neg (Ne.symm hname)]
  points := by
    intro c
    have hpoints := h.points c
    change PointsTo (some { x with ptr := ptr }) (t.cursors c) (s.vars c)
    cases hc : t.cursors c with
    | start =>
      rw [hc] at hpoints
      exact hpoints
    | «at» name =>
      rw [hc] at hpoints
      obtain ⟨y, hy, hentry, hname⟩ := hpoints
      cases hy
      exact ⟨_, rfl, hentry, hname⟩
    | lost => trivial
  answers := h.answers

theorem Single.remove {x : Holding} (h : Single s t (some x)) :
    Single { s.write x.addr blankEntry with first := none, live := s.live.erase x.addr } (t.set x.name none) none where
  first := rfl
  live := by
    rw [h.live]
    exact List.erase_cons_head x.addr []
  stored := fun _ hy => by cases hy
  order := by
    rw [State.set, h.order]
    exact List.erase_cons_head x.name []
  map := by
    intro name
    by_cases hname : name = x.name
    · rw [hname, State.set_self]
      rfl
    · rw [State.set_other t hname, h.map, Option.bind_some, if_neg (Ne.symm hname)]
      rfl
  points := by
    intro c
    have hpoints := h.points c
    change PointsTo none (lose t.cursors x.name c) (s.vars c)
    unfold lose
    split
    · trivial
    · next hkept =>
      cases hc : t.cursors c with
      | start =>
        rw [hc] at hpoints
        exact hpoints
      | «at» name =>
        rw [hc] at hpoints
        obtain ⟨y, hy, _, hname⟩ := hpoints
        cases hy
        exact absurd (hname ▸ hc) hkept
      | lost => trivial
  answers := h.answers

theorem Single.missed (h : Single s t b) {name : KsName} (hnot : ∀ x, b = some x → x.name ≠ name) : Single s (t.set name none) b where
  first := h.first
  live := h.live
  stored := h.stored
  order := by
    have hout : name ∉ t.order := by
      rw [h.order]
      cases b with
      | none => exact List.not_mem_nil
      | some x => exact fun hin => hnot x rfl (List.mem_singleton.mp hin).symm
    rw [State.set, List.erase_of_not_mem hout]
    exact h.order
  map := by
    intro name'
    by_cases hname : name' = name
    · rw [hname, State.set_self]
      cases b with
      | none => rfl
      | some x => rw [Option.bind_some, if_neg (hnot x rfl)]
    · rw [State.set_other t hname, h.map]
  points := by
    intro c
    have hpoints := h.points c
    change PointsTo b (lose t.cursors name c) (s.vars c)
    unfold lose
    split
    · trivial
    · exact hpoints
  answers := h.answers

/-! ## Calls -/

theorem Single.find_bound {x : Holding} (h : Single s t (some x)) :
    findLoop s x.name s.live.length s.first = .ok (some x.addr) := by
  rw [h.find, Option.bind_some, if_pos rfl]

theorem Single.find_unbound (h : Single s t b) {name : KsName}
    (hnot : ∀ x, b = some x → kslistHash x.name ≠ kslistHash name) :
    findLoop s name s.live.length s.first = .ok none := by
  rw [h.find]
  cases b with
  | none => rfl
  | some x => rw [Option.bind_some, if_neg (hnot x rfl)]

theorem Single.get (h : Single s t b) {name : KsName}
    (hok : ∀ m, (t.map m).isSome = true → kslistHash m = kslistHash name → m = name) : kslistGet s name = .ok (t.map name) := by
  unfold kslistGet
  cases b with
  | none =>
    rw [h.find_unbound nofun, h.map]
    rfl
  | some x =>
    by_cases hx : x.name = name
    · subst hx
      rw [h.find_bound, h.map, Option.bind_some, if_pos rfl]
      simp only [Except.map, Option.bind_some, h.stored x rfl]
      rfl
    · have hhash : kslistHash x.name ≠ kslistHash name := fun heq => hx (hok x.name ((h.bound_iff x.name).mpr ⟨x, rfl, rfl⟩) heq)
      rw [h.find_unbound (by rintro _ ⟨⟩; exact hhash), h.map, Option.bind_some, if_neg hx]
      rfl

theorem Single.iter (h : Single s t b) (c : Nat) : Single { s with
    vars := Function.update s.vars c (kslistIter s (s.vars c)).1
    answers := s.answers ++ [.value (kslistIter s (s.vars c)).2] } (t.call (.iter c)) b := by
  have hmove : ∀ {cursor : Cursor KsName} {entry : Option KernelAddr}, PointsTo b cursor entry → ∀ c',
      PointsTo b (Function.update t.cursors c cursor c') (Function.update s.vars c entry c') := by
    intro cursor entry hcursor c'
    by_cases hc : c' = c
    · rw [hc, Function.update_self, Function.update_self]
      exact hcursor
    · rw [Function.update_of_ne hc, Function.update_of_ne hc]
      exact h.points c'
  have hpoints := h.points c
  simp only [State.call]
  cases hc : t.cursors c with
  | start =>
    rw [hc] at hpoints
    have hvar : s.vars c = none := hpoints
    have hiter : kslistIter s (s.vars c) = (b.map Holding.addr, b.map Holding.ptr) := by
      rw [hvar, kslistIter, h.first]
      cases b with
      | none => rfl
      | some x => simp [h.stored x rfl, Holding.stored]
    have hhead : t.order.head? = b.map Holding.name := by
      rw [h.order]
      cases b <;> rfl
    simp only [hiter, hhead]
    cases b with
    | none => exact ⟨h.first, h.live, h.stored, h.order, h.map, hmove rfl, (h.answered (kept_same _)).answers⟩
    | some x =>
      have hvalue : t.map x.name = some x.ptr := by rw [h.map, Option.bind_some, if_pos rfl]
      refine ⟨h.first, h.live, h.stored, h.order, h.map, hmove ⟨x, rfl, rfl, rfl⟩, (h.answered ?_).answers⟩
      rw [hvalue]
      exact kept_same _
  | «at» name =>
    rw [hc] at hpoints
    obtain ⟨x, hx, hvar, rfl⟩ := hpoints
    have hiter : kslistIter s (s.vars c) = (none, none) := by
      rw [hvar, kslistIter, h.stored x hx]
      rfl
    have hnext : next t.order x.name = none := by
      rw [h.order, hx]
      simp [next]
    simp only [hiter, hnext]
    exact ⟨h.first, h.live, h.stored, h.order, h.map, hmove rfl, (h.answered (kept_same _)).answers⟩
  | lost =>
    refine ⟨h.first, h.live, h.stored, h.order, h.map, fun c' => ?_,
      (h.answered fun _ hnone => absurd hnone (Option.some_ne_none _).symm).answers⟩
    have hlost := @hmove .lost (kslistIter s (s.vars c)).1 trivial c'
    rwa [← hc, Function.update_eq_self] at hlost

section Set

variable {name : KsName} {entry block : KernelAddr} {ptr : Nat}

theorem kslistSet_remove (hfind : findLoop s name s.live.length s.first = .ok (some entry)) :
    kslistSet s name none block = .ok (true, { s.write entry blankEntry with
      first := (s.entries entry).next
      live := s.live.erase entry }) := by
  simp only [kslistSet, hfind]
  rfl

theorem kslistSet_replace (hfind : findLoop s name s.live.length s.first = .ok (some entry)) :
    kslistSet s name (some ptr) block = .ok (true, s.write entry { s.entries entry with data := some ptr }) := by
  simp only [kslistSet, hfind]
  rfl

theorem kslistSet_missed (hfind : findLoop s name s.live.length s.first = .ok none) :
    kslistSet s name none block = .ok (false, s) := by
  simp only [kslistSet, hfind]
  rfl

theorem kslistSet_insert (hfind : findLoop s name s.live.length s.first = .ok none) (hfirst : s.first = none) :
    kslistSet s name (some ptr) block = .ok (false, { s.write block ((s.entries block).fill name ptr) with
      first := some block
      live := block :: s.live }) := by
  rw [kslistSet, hfind]
  simp only [hfirst]
  rfl

theorem kslistSet_second (hfind : findLoop s name s.live.length s.first = .ok none) (hfirst : s.first = some entry) :
    kslistSet s name (some ptr) block = .error .nullWrite := by
  rw [kslistSet, hfind]
  simp only [hfirst]
  rfl

end Set

theorem Single.set_bound {x : Holding} (h : Single s t (some x)) (ptr : Option Nat) (block : KernelAddr) :
    ∃ s' b', kslistSet s x.name ptr block = .ok (true, s') ∧ Single s' (t.set x.name ptr) b' := by
  cases ptr with
  | none =>
    refine ⟨_, none, kslistSet_remove h.find_bound, ?_⟩
    rw [h.stored x rfl]
    exact h.remove
  | some ptr => exact ⟨_, _, kslistSet_replace h.find_bound, h.replace ptr⟩

theorem Single.set_unbound (h : Single s t b) {name : KsName} (hnot : ∀ x, b = some x → x.name ≠ name) {ptr : Option Nat}
    {block : KernelAddr} (hserved : ServedName s (.set name ptr block)) (hok : CallAdmitted t (.set name ptr block)) :
    ∃ s' b', kslistSet s name ptr block = .ok (false, s') ∧ Single s' (t.set name ptr) b' := by
  cases ptr with
  | none =>
    have hhash : ∀ x, b = some x → kslistHash x.name ≠ kslistHash name :=
      fun x hx heq => hnot x hx (hok x.name ((h.bound_iff x.name).mpr ⟨x, hx, rfl⟩) heq)
    exact ⟨s, b, kslistSet_missed (h.find_unbound hhash), h.missed hnot⟩
  | some ptr =>
    have hempty : b = none := by
      cases b with
      | none => rfl
      | some x => exact absurd (hok x.name ((h.bound_iff x.name).mpr ⟨x, rfl, rfl⟩)) (hnot x rfl)
    subst hempty
    refine ⟨_, some { addr := block, name := name, ptr := ptr }, kslistSet_insert (h.find_unbound nofun) h.first, ?_⟩
    rw [hserved.2, fill_blank { addr := block, name := name, ptr := ptr }]
    exact h.insert { addr := block, name := name, ptr := ptr }

theorem Single.call (h : Single s t b) {call : ListCall KsName} (hserved : ServedName s call) (hok : CallAdmitted t call) :
    ∃ s' b', kslistCall s call = .ok s' ∧ Single s' (t.call call.spec) b' := by
  cases call with
  | set name ptr block =>
    obtain ⟨s', b', hset, hsingle⟩ : ∃ s' b', kslistSet s name ptr block = .ok ((t.map name).isSome, s') ∧
        Single s' (t.set name ptr) b' := by
      by_cases hbound : ∃ x, b = some x ∧ x.name = name
      · rw [(h.bound_iff name).mpr hbound]
        obtain ⟨x, rfl, rfl⟩ := hbound
        exact h.set_bound ptr block
      · have hunbound := hbound
        rw [← h.bound_iff, Bool.not_eq_true] at hunbound
        rw [hunbound]
        exact h.set_unbound (fun x hx hname => hbound ⟨x, hx, hname⟩) hserved hok
    refine ⟨_, b', by simp only [kslistCall, hset, Except.map]; rfl, ?_⟩
    have hanswers : (t.set name ptr).answers = t.answers := by cases ptr <;> rfl
    have hdone := hsingle.answered (kept_same (.was (t.map name).isSome))
    rw [hanswers] at hdone
    exact hdone
  | get name =>
    refine ⟨_, b, by simp only [kslistCall, h.get hok, Except.map], h.answered (kept_same _)⟩
  | start var =>
    refine ⟨_, b, rfl, h.first, h.live, h.stored, h.order, h.map, fun c => ?_, h.answers⟩
    change PointsTo b (Function.update t.cursors var .start c) (Function.update s.vars var none c)
    by_cases hc : c = var
    · rw [hc, Function.update_self, Function.update_self]
      rfl
    · rw [Function.update_of_ne hc, Function.update_of_ne hc]
      exact h.points c
  | iter var => exact ⟨_, b, rfl, h.iter var⟩

/-! ## Sequences of calls -/

/-- The call halts, or its answer is not that of the map. -/
def Mistaken (s : KslistState) (t : State KsName Nat) (call : ListCall KsName) : Prop :=
  (∃ halt, kslistCall s call = .error halt) ∨
    ∃ s' promised given, kslistCall s call = .ok s' ∧ promised ≠ given ∧
      (t.call call.spec).answers = t.answers ++ [some promised] ∧ s'.answers = s.answers ++ [given]

theorem Single.mistaken (h : Single s t b) {call : ListCall KsName} (hno : ¬ CallAdmitted t call) : Mistaken s t call := by
  -- the name that the call is not for
  have hother : ∀ {name m : KsName}, (t.map m).isSome = true → m ≠ name →
      ∃ x, b = some x ∧ x.name = m ∧ t.map name = none := by
    intro name m hm hne
    obtain ⟨x, rfl, rfl⟩ := (h.bound_iff m).mp hm
    exact ⟨x, rfl, rfl, by rw [h.map, Option.bind_some, if_neg hne]⟩
  cases call with
  | set name ptr block =>
    cases ptr with
    | none =>
      simp only [CallAdmitted, not_forall] at hno
      obtain ⟨m, hm, hhash, hne⟩ := hno
      obtain ⟨x, rfl, rfl, hunbound⟩ := hother hm hne
      have hfind : findLoop s name s.live.length s.first = .ok (some x.addr) := by
        rw [h.find, Option.bind_some, if_pos hhash]
      refine .inr ⟨_, .was false, .was true, by simp only [kslistCall, kslistSet_remove hfind, Except.map]; rfl, (fun h => by cases h), ?_, rfl⟩
      simp only [ListCall.spec, State.call, hunbound]
      rfl
    | some ptr =>
      simp only [CallAdmitted, not_forall] at hno
      obtain ⟨m, hm, hne⟩ := hno
      obtain ⟨x, rfl, rfl, hunbound⟩ := hother hm hne
      by_cases hhash : kslistHash x.name = kslistHash name
      · have hfind : findLoop s name s.live.length s.first = .ok (some x.addr) := by
          rw [h.find, Option.bind_some, if_pos hhash]
        refine .inr ⟨_, .was false, .was true, by simp only [kslistCall, kslistSet_replace hfind, Except.map]; rfl, (fun h => by cases h), ?_, rfl⟩
        simp only [ListCall.spec, State.call, hunbound]
        rfl
      · have hfind : findLoop s name s.live.length s.first = .ok none := by
          rw [h.find, Option.bind_some, if_neg hhash]
        exact .inl ⟨.nullWrite, by simp only [kslistCall, kslistSet_second hfind h.first, Except.map]⟩
  | get name =>
    simp only [CallAdmitted, not_forall] at hno
    obtain ⟨m, hm, hhash, hne⟩ := hno
    obtain ⟨x, rfl, rfl, hunbound⟩ := hother hm hne
    have hget : kslistGet s name = .ok (some x.ptr) := by
      rw [kslistGet, h.find, Option.bind_some, if_pos hhash]
      simp only [Except.map, Option.bind_some, h.stored x rfl]
      rfl
    refine .inr ⟨_, .value none, .value (some x.ptr), by simp only [kslistCall, hget, Except.map]; rfl, (fun h => by cases h), ?_, rfl⟩
    simp only [ListCall.spec, State.call, hunbound]
  | start var => exact absurd trivial hno
  | iter var => exact absurd trivial hno

theorem kslistSet_answers {name : KsName} {ptr : Option Nat} {block : KernelAddr} {was : Bool}
    (h : kslistSet s name ptr block = .ok (was, s')) : s'.answers = s.answers := by
  cases hfind : findLoop s name s.live.length s.first with
  | error halt =>
    rw [kslistSet, hfind] at h
    cases h
  | ok entry =>
    cases entry with
    | some entry =>
      cases ptr with
      | none =>
        rw [kslistSet_remove hfind] at h
        cases h
        rfl
      | some ptr =>
        rw [kslistSet_replace hfind] at h
        cases h
        rfl
    | none =>
      cases ptr with
      | none =>
        rw [kslistSet_missed hfind] at h
        cases h
        rfl
      | some ptr =>
        cases hfirst : s.first with
        | none =>
          rw [kslistSet_insert hfind hfirst] at h
          cases h
          rfl
        | some first =>
          rw [kslistSet_second hfind hfirst] at h
          cases h

theorem kslistCall_answers {call : ListCall KsName} (h : kslistCall s call = .ok s') : ∃ more, s'.answers = s.answers ++ more := by
  cases call with
  | set name ptr block =>
    cases hset : kslistSet s name ptr block with
    | error halt =>
      rw [kslistCall, hset] at h
      cases h
    | ok done =>
      rw [kslistCall, hset] at h
      cases h
      exact ⟨_, congrArg (· ++ _) (kslistSet_answers hset)⟩
  | get name =>
    cases hget : kslistGet s name with
    | error halt =>
      rw [kslistCall, hget] at h
      cases h
    | ok ptr =>
      rw [kslistCall, hget] at h
      cases h
      exact ⟨_, rfl⟩
  | start var =>
    cases h
    exact ⟨[], (List.append_nil _).symm⟩
  | iter var =>
    cases h
    exact ⟨_, rfl⟩

theorem kslistCalls_cons (s : KslistState) (call : ListCall KsName) (calls : List (ListCall KsName)) :
    kslistCalls s (call :: calls) = kslistCall s call >>= fun s => kslistCalls s calls := List.foldlM_cons

theorem kslistCalls_answers : ∀ {calls : List (ListCall KsName)} {s : KslistState}, kslistCalls s calls = .ok s' →
    ∃ more, s'.answers = s.answers ++ more := by
  intro calls
  induction calls with
  | nil =>
    intro s h
    cases h
    exact ⟨[], (List.append_nil _).symm⟩
  | cons call calls ih =>
    intro s h
    rw [kslistCalls_cons] at h
    cases hcall : kslistCall s call with
    | error halt =>
      rw [hcall] at h
      cases h
    | ok s₁ =>
      rw [hcall] at h
      obtain ⟨more, hmore⟩ := kslistCall_answers hcall
      obtain ⟨rest, hrest⟩ := ih h
      exact ⟨more ++ rest, by rw [hrest, hmore, List.append_assoc]⟩

theorem Single.not_refines (h : Single s t b) {call : ListCall KsName} (hmistaken : Mistaken s t call)
    (calls : List (ListCall KsName)) : ¬ Refines s t (call :: calls) := by
  rintro ⟨s', hcalls, hkept⟩
  rw [kslistCalls_cons] at hcalls
  rcases hmistaken with ⟨halt, hcall⟩ | ⟨s₁, promised, given, hcall, hne, hpromised, hgiven⟩
  · rw [hcall] at hcalls
    cases hcalls
  · rw [hcall] at hcalls
    obtain ⟨more, hmore⟩ := kslistCalls_answers hcalls
    obtain ⟨rest, hrest⟩ := (t.call call.spec).calls_answers (calls.map ListCall.spec)
    have hlen : t.answers.length = s.answers.length := h.answers.length_eq
    have hpromises : (t.calls ((call :: calls).map ListCall.spec)).answers = t.answers ++ some promised :: rest := by
      rw [List.map_cons]
      exact hrest.trans (by rw [hpromised, List.append_assoc, List.singleton_append])
    rw [hpromises, hmore, hgiven, List.append_assoc, List.singleton_append] at hkept
    exact hne (kept_middle hlen hkept promised rfl).symm

/-- The calls answer as a map does exactly if a name is bound only while no other is,
and asked about only while no other of its hash is bound. -/
theorem Single.refines_iff : ∀ {calls : List (ListCall KsName)} {s : KslistState} {t : State KsName Nat} {b : Option Holding},
    Single s t b → ServedNames s calls → (Refines s t calls ↔ Admitted t calls) := by
  intro calls
  induction calls with
  | nil =>
    intro s t b h _
    exact ⟨fun _ => trivial, fun _ => ⟨s, rfl, h.answers⟩⟩
  | cons call calls ih =>
    intro s t b h hserved
    by_cases hok : CallAdmitted t call
    · obtain ⟨s', b', hcall, h'⟩ := h.call hserved.1 hok
      have hrest := ih h' (hserved.2 s' hcall)
      have hstep : Refines s t (call :: calls) ↔ Refines s' (t.call call.spec) calls := by
        unfold Refines
        rw [kslistCalls_cons, hcall]
        rfl
      rw [hstep, hrest]
      exact ⟨fun hadmitted => ⟨hok, hadmitted⟩, fun hadmitted => hadmitted.2⟩
    · exact ⟨fun hrefines => absurd hrefines (h.not_refines (h.mistaken hok) calls), fun hadmitted => absurd hadmitted.1 hok⟩

theorem kslistInit_single (entries : KernelAddr → KslistEntry) : Single (kslistInit entries) empty none where
  first := rfl
  live := rfl
  stored := nofun
  order := rfl
  map := fun _ => rfl
  points := fun _ => rfl
  answers := .nil

/-- A `kslist` is a map from names to pointers exactly for the sequences of calls that
bind a name only while no other is bound, and ask about a name or unbind it only while
no other name of its hash is. -/
theorem kslist_refines_iff (entries : KernelAddr → KslistEntry) {calls : List (ListCall KsName)}
    (hserved : ServedNames (kslistInit entries) calls) :
    Refines (kslistInit entries) empty calls ↔ Admitted empty calls := (kslistInit_single entries).refines_iff hserved

/-- An executor is registered, another asked for, and after the first is taken away the
other is registered and found. -/
theorem kslist_refines_iff_elf : ∃ elf bin s', elf.bytes = "elf".toList.map Char.toNat ∧ bin.bytes = "bin".toList.map Char.toNat ∧
    kslistCalls (kslistInit fun _ => blankEntry)
      [.set elf (some 7) ⟨0, by decide⟩, .get bin, .iter 0, .set elf none ⟨1, by decide⟩,
       .set bin (some 2) ⟨1, by decide⟩, .get bin, .get elf] = .ok s' ∧
    s'.answers = [.was false, .value none, .value (some 7), .was true, .was false, .value (some 2), .value none] := by
  let elf : KsName := ⟨"elf".toList.map Char.toNat, by decide, by decide⟩
  let bin : KsName := ⟨"bin".toList.map Char.toNat, by decide, by decide⟩
  let calls : List (ListCall KsName) := [.set elf (some 7) ⟨0, by decide⟩, .get bin, .iter 0, .set elf none ⟨1, by decide⟩,
    .set bin (some 2) ⟨1, by decide⟩, .get bin, .get elf]
  have hserved : ServedNames (kslistInit fun _ => blankEntry) calls := by
    refine ⟨⟨List.not_mem_nil, rfl⟩, fun _ h => ?_⟩
    cases h
    refine ⟨trivial, fun _ h => ?_⟩
    cases h
    refine ⟨trivial, fun _ h => ?_⟩
    cases h
    refine ⟨⟨by decide, rfl⟩, fun _ h => ?_⟩
    cases h
    refine ⟨⟨by decide, rfl⟩, fun _ h => ?_⟩
    cases h
    exact ⟨trivial, fun _ _ => ⟨trivial, fun _ _ => trivial⟩⟩
  have hone : ∀ {f : KsName → Option Nat} {k m : KsName} {v : Option Nat}, (∀ m, m ≠ k → f m = none) →
      (Function.update f k v m).isSome = true → m = k := fun hnone hm => by
    by_contra hne
    rw [Function.update_of_ne hne, hnone _ hne] at hm
    cases hm
  have hempty : ∀ m, m ≠ elf → (empty : State KsName Nat).map m = none := fun _ _ => rfl
  have hgone : ∀ m, Function.update (Function.update (empty : State KsName Nat).map elf (some 7)) elf none m = none := fun m => by
    by_cases hm : m = elf
    · rw [hm, Function.update_self]
    · rw [Function.update_of_ne hm, Function.update_of_ne hm]
      rfl
  have hadmitted : Admitted empty calls := by
    refine ⟨nofun, fun m hm hhash => ?_, trivial, fun m hm _ => hone hempty hm, fun m hm => ?_, fun m hm _ => ?_,
      fun m hm hhash => ?_, trivial⟩
    · rw [hone hempty hm] at hhash
      exact absurd hhash (by decide)
    · exact absurd ((congrArg Option.isSome (hgone m)).symm.trans hm) Bool.false_ne_true
    · exact hone (fun m _ => hgone m) hm
    · rw [hone (fun m _ => hgone m) hm] at hhash
      exact absurd hhash (by decide)
  obtain ⟨s', hcalls, hkept⟩ := (kslist_refines_iff _ hserved).mpr hadmitted
  refine ⟨elf, bin, s', rfl, rfl, hcalls, ?_⟩
  cases hcalls
  rfl

/-- The second name faults; and of two names of one hash the second is taken for the
first. -/
theorem kslist_set_second_faults :
    ¬ Refines (kslistInit fun _ => blankEntry) empty
      [.set ⟨"elf".toList.map Char.toNat, by decide, by decide⟩ (some 1) ⟨0, by decide⟩,
       .set ⟨"bin".toList.map Char.toNat, by decide, by decide⟩ (some 2) ⟨1, by decide⟩] ∧
    ¬ Refines (kslistInit fun _ => blankEntry) empty
      [.set ⟨"ab".toList.map Char.toNat, by decide, by decide⟩ (some 1) ⟨0, by decide⟩,
       .get ⟨"cb".toList.map Char.toNat, by decide, by decide⟩] := by
  constructor
  · rintro ⟨s', hcalls, _⟩
    have hfault : kslistCalls (kslistInit fun _ => blankEntry)
        [.set ⟨"elf".toList.map Char.toNat, by decide, by decide⟩ (some 1) ⟨0, by decide⟩,
         .set ⟨"bin".toList.map Char.toNat, by decide, by decide⟩ (some 2) ⟨1, by decide⟩] = .error .nullWrite := by rfl
    rw [hfault] at hcalls
    cases hcalls
  · rintro ⟨s', hcalls, hkept⟩
    have hanswers : (kslistCalls (kslistInit fun _ => blankEntry)
        [.set ⟨"ab".toList.map Char.toNat, by decide, by decide⟩ (some 1) ⟨0, by decide⟩,
         .get ⟨"cb".toList.map Char.toNat, by decide, by decide⟩]).map KslistState.answers =
        .ok [.was false, .value (some 1)] := by rfl
    rw [hcalls] at hanswers
    have hgiven : s'.answers = [.was false, .value (some 1)] := Except.ok.inj hanswers
    rw [hgiven] at hkept
    have hvalue := @kept_middle [some (.was false)] [] (some (.value none)) (.value (some 1)) [] [.was false] rfl hkept
    cases hvalue (.value none) rfl

end Aex.Klist
