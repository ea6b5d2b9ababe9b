import AexKernel.Dev.BlockBursts
import AexKernel.Rc.Quiet

/- What `dev_block_read`, `dev_block_init` and `dev_block_release` take and give back:
   the reference to the device in `dev_array`, and the bouncer.

   `BlockRead` has what a read delivers. Here the device is got from the array, an
   initialization that a read finds necessary is made, and every way out is followed. A
   request that fails leaves `dev_block_read` with the reference. -/
namespace Aex.Dev
open Rc Bytes

/-- `dev_array`, whether the device that the requests of an id go to is initialized, and
how many buffers are allocated. -/
structure BlkState where
  devArray : Rc.Array DevEntry
  initialized : Bool
  buffers : Nat

/-- `size_t _id = id`. -/
def arrayId (id : Int) : Nat := (id % 2^64).toNat

def devBlockUnref (s : BlkState) (devId : Int) : BlkState :=
  { s with devArray := arrayUnref s.devArray (arrayId devId) }

/-- `dev_block_get`. -/
def blockGet (s : BlkState) (devId : Int) : Option DevEntry × BlkState :=
  match arrayGet s.devArray (arrayId devId) with
  | (none, devArray) => (none, { s with devArray := devArray })
  | (some dev, devArray) =>
    if dev.isBlock then (some dev, { s with devArray := devArray })
    else (none, devBlockUnref { s with devArray := devArray } devId)

/-- `dev_block_init`, where the worker sets `response`. -/
def devBlockInit (response : Int) (s : BlkState) (devId : Int) : Int × BlkState :=
  match blockGet s devId with
  | (none, s) => (-enodev, s)
  | (some _, s) =>
    if s.initialized then (-eperm, devBlockUnref s devId)
    else (response, devBlockUnref { s with initialized := decide (0 ≤ response) } devId)

/-- `dev_block_release`, where the worker sets `response`. -/
def devBlockRelease (response : Int) (s : BlkState) (devId : Int) : Int × BlkState :=
  match blockGet s devId with
  | (none, s) => (-enodev, s)
  | (some _, s) =>
    if s.initialized = false then (-eperm, devBlockUnref s devId)
    else (response, devBlockUnref { s with initialized := decide (response < 0) } devId)

/-- What a call of `dev_block_read` leaves. -/
structure Kept where
  ret : Int
  state : BlkState
  mem : Mem

/-- The ways out of the loop. `CLEANUP` frees the bouncer on both. -/
def Kept.ofLoop (s : BlkState) (devId : Int) (out : Int × ReadState) : Kept :=
  if out.1 < 0 then { ret := out.1, state := { s with buffers := s.buffers - 1 }, mem := out.2.mem }
  else { ret := 0, state := { devBlockUnref s devId with buffers := s.buffers - 1 }, mem := out.2.mem }

/-- `dev_block_read`. `initResponse` is what the worker answers to the request of a
nested `dev_block_init`. -/
def devBlockReadKept (io : BlockIo) (initResponse : Int) (fuel : Nat) (s : BlkState) (mem heap : Mem) (devId : Int)
    (buffer pos len : Nat) : Option Kept :=
  if len = 0 then some { ret := 0, state := s, mem := mem }
  else match blockGet s devId with
    | (none, s) => some { ret := -enodev, state := s, mem := mem }
    | (some dev, s) =>
      let s := if s.initialized = false then (devBlockInit initResponse s devId).2 else s
      if dev.device.hasRead = false then some { ret := -enosys, state := devBlockUnref s devId, mem := mem }
      else
        let start := readStart dev.device mem heap buffer (dev.position pos) len
        (readLoop dev.device io len (bouncerSize dev.device start.sectorCount) fuel start).map
          (Kept.ofLoop { s with buffers := s.buffers + 1 } devId)

/-! ## References -/

/-- The entries in use are held by the array. -/
def Held (a : Rc.Array DevEntry) : Prop := ∀ id e, slot a id = some e → 1 ≤ e.refs

/-- The state with one more reference to the entry. -/
def BlkState.got (s : BlkState) (devId : Int) : BlkState :=
  { s with devArray := (arrayGet s.devArray (arrayId devId)).2 }

section Refs
variable {s : BlkState} {devId : Int} {dev : DevEntry}

theorem unref_got (h : Held s.devArray) {e : Entry DevEntry} (he : slot s.devArray (arrayId devId) = some e)
    (hpresent : e.present = true) : devBlockUnref (s.got devId) devId = s := by
  have hback := slot_get_unref he hpresent (h _ e he)
  unfold devBlockUnref BlkState.got
  rw [hback]

theorem held_got (h : Held s.devArray) (devId : Int) : Held (s.got devId).devArray := by
  intro id e he
  unfold BlkState.got at he
  rcases arrayGet_cases s.devArray (arrayId devId) with ⟨-, hget⟩ | ⟨e', hslot, -, hget⟩
  · rw [hget] at he
    exact h id e he
  · rw [hget, slot_set (slot_lt hslot)] at he
    split at he
    · cases he
      have hold := h _ e' hslot
      show 1 ≤ e'.refs + 1
      omega
    · exact h id e he

/-- A failed `dev_block_get` changes nothing, and one that succeeds takes a reference,
which can be given back. -/
theorem blockGet_cases (h : Held s.devArray) (devId : Int) :
    blockGet s devId = (none, s) ∨
      ∃ dev, blockGet s devId = (some dev, s.got devId) ∧ devBlockUnref (s.got devId) devId = s ∧
        (s.got devId).devArray ≠ s.devArray := by
  unfold blockGet
  rcases arrayGet_cases s.devArray (arrayId devId) with ⟨-, hget⟩ | ⟨e, hslot, hpresent, hget⟩
  · left
    rw [hget]
  · have hunref := unref_got h hslot hpresent
    have hgot : { s with devArray := s.devArray.set (arrayId devId) (some { e with refs := e.refs + 1 }) } = s.got devId := by
      unfold BlkState.got
      rw [hget]
    rw [hget]
    dsimp only
    rw [hgot]
    by_cases hblock : e.value.isBlock = true
    · right
      rw [if_pos hblock]
      refine ⟨_, rfl, hunref, ?_⟩
      intro heq
      have hslot' : slot (s.got devId).devArray (arrayId devId) = some { e with refs := e.refs + 1 } := by
        rw [← hgot]
        exact slot_set_self hslot _
      rw [heq, hslot, Option.some.injEq] at hslot'
      have hrefs : e.refs = e.refs + 1 := congrArg Entry.refs hslot'
      omega
    · left
      rw [if_neg hblock, hunref]

theorem devBlockInit_keeps (h : Held s.devArray) (response : Int) (devId : Int) :
    (devBlockInit response s devId).2.devArray = s.devArray ∧ (devBlockInit response s devId).2.buffers = s.buffers := by
  unfold devBlockInit
  rcases blockGet_cases h devId with hget | ⟨dev, hget, hunref, -⟩
  · rw [hget]
    exact ⟨rfl, rfl⟩
  · rw [hget]
    dsimp only
    split
    · rw [hunref]
      exact ⟨rfl, rfl⟩
    · have harray : (devBlockUnref (s.got devId) devId).devArray = s.devArray := by rw [hunref]
      exact ⟨harray, rfl⟩

theorem devBlockRelease_keeps (h : Held s.devArray) (response : Int) (devId : Int) :
    (devBlockRelease response s devId).2.devArray = s.devArray ∧ (devBlockRelease response s devId).2.buffers = s.buffers := by
  unfold devBlockRelease
  rcases blockGet_cases h devId with hget | ⟨dev, hget, hunref, -⟩
  · rw [hget]
    exact ⟨rfl, rfl⟩
  · rw [hget]
    dsimp only
    split
    · rw [hunref]
      exact ⟨rfl, rfl⟩
    · have harray : (devBlockUnref (s.got devId) devId).devArray = s.devArray := by rw [hunref]
      exact ⟨harray, rfl⟩

end Refs

/-! ## Requests -/

/-- Request `k` of a call is made, if none before it has failed. -/
def Asked (blk : DevBlock) (total k : Nat) : Prop := 2^16 ≤ total ∨ k * blk.limit < total

section Loop
variable {blk : DevBlock} {io : BlockIo} {responses : Nat → Int} {len size total : Nat} {s t : ReadState}

theorem Asked.of_le {j k : Nat} (hle : j ≤ k) (h : Asked blk total k) : Asked blk total j := by
  rcases h with hmany | hless
  · exact .inl hmany
  · exact .inr (Nat.lt_of_le_of_lt (Nat.mul_le_mul_right _ hle) hless)

/-- What is left, by the number of requests made. -/
structure SectorsLeft (blk : DevBlock) (total : Nat) (t : ReadState) : Prop where
  small : t.sectorCount < 2^32
  left : 2^16 ≤ total ∧ 2^16 ≤ t.sectorCount ∨ total < 2^16 ∧ t.sectorCount = total - t.request * blk.limit

theorem SectorsLeft.asked_iff (h : SectorsLeft blk total t) : Asked blk total t.request ↔ t.sectorCount ≠ 0 := by
  unfold Asked
  rcases h.left with ⟨hmany, hleft⟩ | ⟨hsmall, hleft⟩
  · omega
  · omega

theorem SectorsLeft.start (htotal : total < 2^32) (hcount : s.sectorCount = total) (hrequest : s.request = 0) :
    SectorsLeft blk total s := by
  refine ⟨by omega, ?_⟩
  rw [hcount, hrequest, Nat.zero_mul]
  omega

theorem readBurst_request (s : ReadState) : (readBurst blk io len size s).2.request = s.request + 1 := by
  unfold readBurst
  dsimp only
  split
  · rfl
  · rfl

theorem readBurst_ret (hio : ∀ k sector count bouncer, (io k sector count bouncer).1 = responses k) (s : ReadState) :
    (readBurst blk io len size s).1 = responses s.request := by
  unfold readBurst
  dsimp only
  split
  · exact hio _ _ _ _
  · exact hio _ _ _ _

theorem SectorsLeft.step {t' : ReadState} (h : SectorsLeft blk total t) (hstep : burstStep blk io len size t = some t') :
    SectorsLeft blk total t' := by
  obtain ⟨-, hret, rfl⟩ := burstStep_some hstep
  have hcount := readBurst_count h.small hret
  have hle := burstCount_le_count blk t.sectorCount
  have hsmall := h.small
  refine ⟨by omega, ?_⟩
  rw [readBurst_request, hcount]
  rcases h.left with ⟨hmany, hleft⟩ | ⟨hfew, hleft⟩
  · exact .inl ⟨hmany, by omega⟩
  · right
    rw [burstCount_eq blk (by omega), Nat.succ_mul]
    exact ⟨hfew, by omega⟩

theorem SectorsLeft.reaches (hio : ∀ k sector count bouncer, (io k sector count bouncer).1 = responses k)
    (h : SectorsLeft blk total s) (hrequest : s.request = 0) : ∀ {k : Nat}, Asked blk total k → (∀ j < k, 0 ≤ responses j) →
    ∃ t, Machine.Reaches (burstStep blk io len size) s t ∧ t.request = k ∧ t.sectorCount ≠ 0 := by
  intro k
  induction k with
  | zero =>
    intro hasked _
    rw [← hrequest, h.asked_iff] at hasked
    exact ⟨s, .refl s, hrequest, hasked⟩
  | succ k ih =>
    intro hasked hfine
    obtain ⟨t, hreach, hk, hcount⟩ := ih (hasked.of_le (Nat.le_succ k)) (fun j hj => hfine j (by omega))
    have hret : ¬ (readBurst blk io len size t).1 < 0 := by
      rw [readBurst_ret hio, hk]
      exact Int.not_lt.mpr (hfine k (Nat.lt_succ_self k))
    have hstep : burstStep blk io len size t = some (readBurst blk io len size t).2 := by
      unfold burstStep
      rw [if_neg hcount]
      exact if_neg hret
    have hnext : (readBurst blk io len size t).2.request = k + 1 := by rw [readBurst_request, hk]
    have hcounted : SectorsLeft blk total (readBurst blk io len size t).2 :=
      (hreach.invariant (fun _ _ hs ht => ht.step hs) h).step hstep
    rw [← hnext, hcounted.asked_iff] at hasked
    exact ⟨_, hreach.trans (.head hstep (.refl _)), hnext, hasked⟩

theorem readLoop_failed : ∀ {fuel : Nat} {s : ReadState} {out : Int × ReadState}, readLoop blk io len size fuel s = some out →
    out.1 < 0 → ∃ t, Machine.Reaches (burstStep blk io len size) s t ∧ t.sectorCount ≠ 0 ∧
      (readBurst blk io len size t).1 < 0 := by
  intro fuel
  induction fuel with
  | zero => intro s out h _; cases h
  | succ fuel ih =>
    intro s out h hneg
    unfold readLoop at h
    split at h
    · cases h
      exact absurd hneg (Int.lt_irrefl 0)
    · next hcount =>
      dsimp only at h
      split at h
      · next hret => exact ⟨s, .refl s, hcount, hret⟩
      · next hret =>
        obtain ⟨t, hreach, ht⟩ := ih h hneg
        have hstep : burstStep blk io len size s = some (readBurst blk io len size s).2 := by
          unfold burstStep
          rw [if_neg hcount]
          exact if_neg hret
        exact ⟨t, .head hstep hreach, ht⟩

end Loop

/-! ## Calls -/

/-- An initialization that the call makes fails. -/
def InitFails (initResponse : Int) (s : BlkState) (devId : Int) (len : Nat) : Prop :=
  len ≠ 0 ∧ ∃ dev, (blockGet s devId).1 = some dev ∧ s.initialized = false ∧ initResponse < 0

/-- A request that the call makes fails. -/
def RequestFails (io : BlockIo) (s : BlkState) (mem heap : Mem) (devId : Int) (buffer pos len : Nat) : Prop :=
  len ≠ 0 ∧ ∃ dev, (blockGet s devId).1 = some dev ∧ dev.device.hasRead = true ∧
    ∃ t, Loops dev.device io len (readStart dev.device mem heap buffer (dev.position pos) len) t ∧ t.sectorCount ≠ 0 ∧
      (readBurst dev.device io len (bouncerSize dev.device (sectorTotal dev.device (dev.position pos) len)) t).1 < 0

/-- The call gives back what it takes on every way out, and a failure is reported. -/
structure ReadKeeps (io : BlockIo) (initResponse : Int) (s : BlkState) (mem heap : Mem) (devId : Int) (buffer pos len : Nat) :
    Prop where
  refs : ∀ fuel out, devBlockReadKept io initResponse fuel s mem heap devId buffer pos len = some out →
    out.state.devArray = s.devArray
  buffers : ∀ fuel out, devBlockReadKept io initResponse fuel s mem heap devId buffer pos len = some out →
    out.state.buffers = s.buffers
  reports : InitFails initResponse s devId len ∨ RequestFails io s mem heap devId buffer pos len →
    ∃ fuel out, devBlockReadKept io initResponse fuel s mem heap devId buffer pos len = some out ∧ out.ret < 0

/-- No request of the call fails, nor the initialization before them. -/
def NothingFails (responses : Nat → Int) (initResponse : Int) (s : BlkState) (devId : Int) (pos len : Nat) : Prop :=
  ∀ dev, (blockGet s devId).1 = some dev → len ≠ 0 → dev.device.hasRead = true →
    (s.initialized = true ∨ 0 ≤ initResponse) ∧
      ∀ k, Asked dev.device (sectorTotal dev.device (dev.position pos) len) k → 0 ≤ responses k

section Call
variable {s : BlkState} {devId : Int} {dev : DevEntry} {io : BlockIo} {initResponse : Int} {mem heap : Mem}
  {buffer pos len : Nat}

/-- The state in which a call comes to its loop. -/
def BlkState.ready (s : BlkState) (initResponse : Int) (devId : Int) : BlkState :=
  if s.initialized = false then (devBlockInit initResponse (s.got devId) devId).2 else s.got devId

theorem ready_keeps (h : Held s.devArray) (initResponse : Int) (devId : Int) :
    (s.ready initResponse devId).devArray = (s.got devId).devArray ∧ (s.ready initResponse devId).buffers = s.buffers := by
  unfold BlkState.ready
  split
  · exact devBlockInit_keeps (held_got h devId) initResponse devId
  · exact ⟨rfl, rfl⟩

theorem devBlockReadKept_found (hget : blockGet s devId = (some dev, s.got devId)) (hlen : len ≠ 0) (fuel : Nat) :
    devBlockReadKept io initResponse fuel s mem heap devId buffer pos len =
      if dev.device.hasRead = false then
        some { ret := -enosys, state := devBlockUnref (s.ready initResponse devId) devId, mem := mem }
      else
        (readLoop dev.device io len (bouncerSize dev.device (sectorTotal dev.device (dev.position pos) len)) fuel
          (readStart dev.device mem heap buffer (dev.position pos) len)).map
          (Kept.ofLoop { s.ready initResponse devId with buffers := (s.ready initResponse devId).buffers + 1 } devId) := by
  unfold devBlockReadKept
  rw [if_neg hlen, hget]
  rfl

theorem ready_unref (h : Held s.devArray) (hunref : devBlockUnref (s.got devId) devId = s) (initResponse : Int) :
    (devBlockUnref (s.ready initResponse devId) devId).devArray = s.devArray := by
  obtain ⟨harray, -⟩ := ready_keeps h initResponse devId
  have hgot : (devBlockUnref (s.got devId) devId).devArray = s.devArray := by rw [hunref]
  unfold devBlockUnref at hgot ⊢
  rw [← hgot, harray]

theorem ofLoop_state (h : Held s.devArray) (hunref : devBlockUnref (s.got devId) devId = s) (initResponse : Int)
    (out : Int × ReadState) :
    let s' := s.ready initResponse devId
    let left := (Kept.ofLoop { s' with buffers := s'.buffers + 1 } devId out).state
    left.buffers = s.buffers ∧ (0 ≤ out.1 → left.devArray = s.devArray) ∧
      (out.1 < 0 → left.devArray = (s.got devId).devArray) := by
  obtain ⟨harray, hbuffers⟩ := ready_keeps h initResponse devId
  intro s' left
  have hleft : left = (Kept.ofLoop { s' with buffers := s'.buffers + 1 } devId out).state := rfl
  unfold Kept.ofLoop at hleft
  split at hleft
  · next hneg =>
    rw [hleft]
    exact ⟨hbuffers, fun hpos => absurd hneg (Int.not_lt.mpr hpos), fun _ => harray⟩
  · next hpos =>
    rw [hleft]
    exact ⟨hbuffers, fun _ => ready_unref h hunref initResponse, fun hneg => absurd hneg hpos⟩

theorem ofLoop_ret (s : BlkState) (devId : Int) (out : Int × ReadState) : (Kept.ofLoop s devId out).ret < 0 ↔ out.1 < 0 := by
  unfold Kept.ofLoop
  split
  · next hneg => exact Iff.rfl
  · next hpos => exact ⟨fun hzero => absurd hzero (Int.lt_irrefl 0), fun hneg => absurd hneg hpos⟩

/-- A call that keeps to it has no request that fails, nor a failed initialization. -/
theorem ReadKeeps.nothing (hk : ReadKeeps io initResponse s mem heap devId buffer pos len) (h : Held s.devArray)
    {responses : Nat → Int} (hio : ∀ k sector count bouncer, (io k sector count bouncer).1 = responses k) :
    NothingFails responses initResponse s devId pos len := by
  intro dev hsome hlen hread
  rcases blockGet_cases h devId with hget | ⟨dev', hget, hunref, hmore⟩
  · rw [hget] at hsome
    cases hsome
  rw [hget, Option.some.injEq] at hsome
  have hdev : dev = dev' := hsome.symm
  subst hdev
  -- A call that returns an error has kept the reference.
  have hleak : ∀ fuel out, devBlockReadKept io initResponse fuel s mem heap devId buffer pos len = some out → ¬ out.ret < 0 := by
    intro fuel out hcall hneg
    have hrefs := hk.refs fuel out hcall
    rw [devBlockReadKept_found hget hlen, if_neg (by rw [hread]; exact Bool.noConfusion)] at hcall
    obtain ⟨r, -, rfl⟩ := Option.map_eq_some_iff.mp hcall
    rw [ofLoop_ret] at hneg
    obtain ⟨-, -, hkept⟩ := ofLoop_state h hunref initResponse r
    exact hmore ((hkept hneg).symm.trans hrefs)
  have hquiet : ∀ P : Prop, (P → InitFails initResponse s devId len ∨ RequestFails io s mem heap devId buffer pos len) → ¬ P := by
    intro P hP hp
    obtain ⟨fuel, out, hcall, hneg⟩ := hk.reports (hP hp)
    exact hleak fuel out hcall hneg
  have hfound : (blockGet s devId).1 = some dev := by rw [hget]
  constructor
  · by_contra hfails
    refine hquiet _ (fun hf : ¬ (s.initialized = true ∨ 0 ≤ initResponse) => .inl ⟨hlen, dev, hfound, ?_, ?_⟩) hfails
    · exact Bool.eq_false_iff.mpr (fun hinit => hf (.inl hinit))
    · exact Int.not_le.mp (fun hpos => hf (.inr hpos))
  · -- Otherwise the first request that fails is made.
    intro k
    induction k using Nat.strongRecOn with
    | ind k ih =>
      intro hasked
      by_contra hneg
      have hstart : SectorsLeft dev.device (sectorTotal dev.device (dev.position pos) len)
          (readStart dev.device mem heap buffer (dev.position pos) len) :=
        .start (Nat.mod_lt _ (by decide)) rfl rfl
      have hreached : ∃ t, Loops dev.device io len (readStart dev.device mem heap buffer (dev.position pos) len) t ∧
          t.request = k ∧ t.sectorCount ≠ 0 :=
        hstart.reaches hio rfl hasked (fun j hj => ih j hj (hasked.of_le (Nat.le_of_lt hj)))
      obtain ⟨t, hreach, hrequest, hcount⟩ := hreached
      refine hquiet _ (fun hn : ¬ 0 ≤ responses k => .inr ⟨hlen, dev, hfound, hread, t, hreach, hcount, ?_⟩) hneg
      rw [readBurst_ret hio, hrequest]
      exact Int.not_le.mp hn

theorem ReadKeeps.of_call {o : Kept}
    (hcall : ∀ fuel, devBlockReadKept io initResponse fuel s mem heap devId buffer pos len = some o)
    (hrefs : o.state.devArray = s.devArray) (hbuffers : o.state.buffers = s.buffers)
    (hreports : InitFails initResponse s devId len ∨ RequestFails io s mem heap devId buffer pos len → o.ret < 0) :
    ReadKeeps io initResponse s mem heap devId buffer pos len := by
  have hout : ∀ fuel out, devBlockReadKept io initResponse fuel s mem heap devId buffer pos len = some out → o = out := by
    intro fuel out h
    rw [hcall] at h
    exact Option.some.inj h
  refine ⟨fun fuel out h => ?_, fun fuel out h => ?_, fun h => ⟨0, o, hcall 0, hreports h⟩⟩
  · rw [← hout fuel out h]
    exact hrefs
  · rw [← hout fuel out h]
    exact hbuffers

theorem ReadKeeps.of_loop (h : Held s.devArray) (hget : blockGet s devId = (some dev, s.got devId))
    (hunref : devBlockUnref (s.got devId) devId = s) (hlen : len ≠ 0) (hread : dev.device.hasRead = true)
    (hinit : s.initialized = true ∨ 0 ≤ initResponse) (hfine : ∀ t,
      Loops dev.device io len (readStart dev.device mem heap buffer (dev.position pos) len) t → t.sectorCount ≠ 0 →
        ¬ (readBurst dev.device io len (bouncerSize dev.device (sectorTotal dev.device (dev.position pos) len)) t).1 < 0) :
    ReadKeeps io initResponse s mem heap devId buffer pos len := by
  have hloop : ∀ fuel out, devBlockReadKept io initResponse fuel s mem heap devId buffer pos len = some out →
      out.state.devArray = s.devArray ∧ out.state.buffers = s.buffers := by
    intro fuel out hcall
    rw [devBlockReadKept_found hget hlen, if_neg (by rw [hread]; exact Bool.noConfusion)] at hcall
    obtain ⟨r, hr, rfl⟩ := Option.map_eq_some_iff.mp hcall
    have hpos : 0 ≤ r.1 := by
      by_contra hneg
      obtain ⟨t, ht, hcount, hfails⟩ := readLoop_failed hr (Int.not_le.mp hneg)
      exact hfine t ht hcount hfails
    obtain ⟨hbuffers, hkept, -⟩ := ofLoop_state h hunref initResponse r
    exact ⟨hkept hpos, hbuffers⟩
  refine ⟨fun fuel out hout => (hloop fuel out hout).1, fun fuel out hout => (hloop fuel out hout).2, ?_⟩
  rintro (⟨-, dev', hsome, hnot, hneg⟩ | ⟨-, dev', hsome, -, t, ht, hcount, hfails⟩)
  · rcases hinit with hinit | hinit
    · rw [hinit] at hnot
      cases hnot
    · omega
  · rw [hget, Option.some.injEq] at hsome
    subst hsome
    exact absurd hfails (hfine t ht hcount)

theorem NothingFails.keeps {responses : Nat → Int} (hn : NothingFails responses initResponse s devId pos len) (h : Held s.devArray)
    (hio : ∀ k sector count bouncer, (io k sector count bouncer).1 = responses k) :
    ReadKeeps io initResponse s mem heap devId buffer pos len := by
  by_cases hlen : len = 0
  · refine .of_call (o := { ret := 0, state := s, mem := mem }) (fun fuel => if_pos hlen) rfl rfl ?_
    rintro (⟨hne, -⟩ | ⟨hne, -⟩)
    · exact absurd hlen hne
    · exact absurd hlen hne
  rcases blockGet_cases h devId with hget | ⟨dev, hget, hunref, -⟩
  · refine .of_call (o := { ret := -enodev, state := s, mem := mem }) (fun fuel => ?_) rfl rfl (fun _ => ?_)
    · unfold devBlockReadKept
      rw [if_neg hlen, hget]
    · show -enodev < 0
      decide
  by_cases hread : dev.device.hasRead = true
  · have hfound : (blockGet s devId).1 = some dev := by rw [hget]
    obtain ⟨hinit, hrequests⟩ := hn dev hfound hlen hread
    refine .of_loop h hget hunref hlen hread hinit (fun t ht hcount => ?_)
    have hstart : SectorsLeft dev.device (sectorTotal dev.device (dev.position pos) len)
        (readStart dev.device mem heap buffer (dev.position pos) len) :=
      .start (Nat.mod_lt _ (by decide)) rfl rfl
    have hcounted := ht.invariant (fun _ _ hs hc => hc.step hs) hstart
    rw [readBurst_ret hio]
    exact Int.not_lt.mpr (hrequests _ (hcounted.asked_iff.mpr hcount))
  · obtain ⟨harray, hbuffers⟩ := ready_keeps h initResponse devId
    refine .of_call (o := { ret := -enosys, state := devBlockUnref (s.ready initResponse devId) devId, mem := mem })
      (fun fuel => ?_) ?_ hbuffers (fun _ => ?_)
    · rw [devBlockReadKept_found hget hlen, if_pos (Bool.eq_false_iff.mpr hread)]
    · exact ready_unref h hunref initResponse
    · show -enosys < 0
      decide

/-- `dev_block_read` gives back its reference and its bouncer on every way out, and
reports every failure, exactly when nothing fails; `dev_block_init` and
`dev_block_release` always give back what they take. -/
theorem dev_block_keeps_iff (h : Held s.devArray) {responses : Nat → Int}
    (hio : ∀ k sector count bouncer, (io k sector count bouncer).1 = responses k) (response : Int) :
    (ReadKeeps io initResponse s mem heap devId buffer pos len ∧
      ((devBlockInit response s devId).2.devArray = s.devArray ∧ (devBlockInit response s devId).2.buffers = s.buffers) ∧
      (devBlockRelease response s devId).2.devArray = s.devArray ∧ (devBlockRelease response s devId).2.buffers = s.buffers) ↔
    NothingFails responses initResponse s devId pos len := by
  constructor
  · rintro ⟨hk, -⟩
    exact hk.nothing h hio
  · exact fun hn => ⟨hn.keeps h hio, devBlockInit_keeps h response devId, devBlockRelease_keeps h response devId⟩

theorem devBlockReadKept_read (io : BlockIo) (initResponse : Int) (fuel : Nat) (s : BlkState) (mem heap : Mem) (devId : Int)
    (buffer pos len : Nat) :
    (devBlockReadKept io initResponse fuel s mem heap devId buffer pos len).map (fun out => (out.ret, out.mem)) =
      (devBlockRead (fun id => (arrayGet s.devArray (arrayId id)).1) io fuel mem heap devId buffer pos len).map
        (fun r => (r.ret, r.mem)) := by
  have hget : devBlockGet (fun id => (arrayGet s.devArray (arrayId id)).1) devId = (blockGet s devId).1 := by
    unfold devBlockGet blockGet
    beta_reduce
    rcases arrayGet s.devArray (arrayId devId) with ⟨_ | dev, devArray⟩
    · rfl
    · dsimp only
      by_cases hblock : dev.isBlock = true
      · rw [if_pos hblock, if_pos hblock]
      · rw [if_neg hblock, if_neg hblock]
  unfold devBlockReadKept devBlockRead
  by_cases hlen : len = 0
  · rw [if_pos hlen, if_pos hlen]
    rfl
  rw [if_neg hlen, if_neg hlen, hget]
  rcases blockGet s devId with ⟨_ | dev, s'⟩
  · rfl
  dsimp only
  by_cases hread : dev.device.hasRead = false
  · rw [if_pos hread, if_pos hread]
    rfl
  · rw [if_neg hread, if_neg hread, Option.map_map, Option.map_map]
    congr 1
    funext out
    simp only [Function.comp, Kept.ofLoop, readReturn]
    split
    · rfl
    · rfl

end Call

/-- A kernel with one disk. -/
def oneDisk (initialized : Bool) : BlkState where
  devArray := [some (Entry.resting wholeDisk)]
  initialized := initialized
  buffers := 0

theorem oneDisk_held (initialized : Bool) : Held (oneDisk initialized).devArray := by
  intro id e he
  have hlt : id < 1 := slot_lt he
  obtain rfl : id = 0 := by omega
  cases he
  exact Int.le_refl 1

/-- Three sectors of it, read without a failure. -/
theorem dev_block_keeps_three : ReadKeeps quietIo 0 (oneDisk true) (fun _ => 0) (fun _ => 0) 0 0 0 1200 := by
  have hio : ∀ k sector count bouncer, (quietIo k sector count bouncer).1 = (fun _ : Nat => (0 : Int)) k := fun _ _ _ _ => rfl
  have hone : (ReadKeeps quietIo 0 (oneDisk true) (fun _ => 0) (fun _ => 0) 0 0 0 1200 ∧
      ((devBlockInit 0 (oneDisk true) 0).2.devArray = (oneDisk true).devArray ∧
        (devBlockInit 0 (oneDisk true) 0).2.buffers = (oneDisk true).buffers) ∧
      (devBlockRelease 0 (oneDisk true) 0).2.devArray = (oneDisk true).devArray ∧
        (devBlockRelease 0 (oneDisk true) 0).2.buffers = (oneDisk true).buffers) ↔
      NothingFails (fun _ => 0) 0 (oneDisk true) 0 0 1200 :=
    dev_block_keeps_iff (oneDisk_held true) hio 0
  exact (hone.mpr (fun _ _ _ _ => ⟨.inl rfl, fun _ _ => Int.le_refl 0⟩)).1

/-- Requests that fail. -/
def brokenIo : BlockIo := fun _ _ _ bouncer => (-1, bouncer)

/-- A read whose request fails keeps its reference; and one whose initialization fails,
with requests that succeed, returns 0. -/
theorem dev_block_read_leaks :
    (∃ out, devBlockReadKept brokenIo 0 2 (oneDisk true) (fun _ => 0) (fun _ => 0) 0 0 0 1200 = some out ∧
      out.ret = -1 ∧ (slot out.state.devArray 0).map Entry.refs = some 2) ∧
    (∃ out, devBlockReadKept quietIo (-1) 2 (oneDisk false) (fun _ => 0) (fun _ => 0) 0 0 0 1200 = some out ∧ out.ret = 0) ∧
    ¬ ReadKeeps brokenIo 0 (oneDisk true) (fun _ => 0) (fun _ => 0) 0 0 0 1200 := by
  refine ⟨⟨_, rfl, by decide, by decide⟩, ⟨_, rfl, by decide⟩, fun hk => ?_⟩
  have hrefs := congrArg (fun a => (slot a 0).map Entry.refs) (hk.refs 2 _ rfl)
  revert hrefs
  decide

end Aex.Dev
