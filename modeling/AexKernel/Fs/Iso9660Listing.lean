import AexKernel.Fs.Iso9660Inside

/- Where `iso9660_readdir` looks in the buffer of its handle, and whether each call ends.

   The listing goes by a byte position. It reads the type of what it finds before it knows
   whether there is a record, and the block that it reads begins at the position that it
   has come to, which need not be the start of a block. -/
namespace Aex.Fs
open Rc Bytes

/-- What the listing has read at a position in the directory. -/
def listedBlock (device : Nat → Nat) (lba readAt : Nat) : Mem := deviceBlock device (u32 (lba * isoBlock + readAt))

/-- The positions a listing comes to, with those at which it has read the block that it
looks at there. -/
inductive Stop (device : Nat → Nat) (lba size : Nat) : Nat → Nat → Prop
  | first (h : 0 < size) : Stop device lba size 0 0
  | skip {pos readAt : Nat} (h : Stop device lba size pos readAt) (hzero : listedBlock device lba readAt (pos % isoBlock) = 0)
      (hlt : pos + (isoBlock - pos % isoBlock) < size) :
      Stop device lba size (pos + (isoBlock - pos % isoBlock)) (pos + (isoBlock - pos % isoBlock))
  | record {pos readAt : Nat} (h : Stop device lba size pos readAt) (hlen : listedBlock device lba readAt (pos % isoBlock) ≠ 0)
      (hlt : pos + listedBlock device lba readAt (pos % isoBlock) < size) :
      Stop device lba size (pos + listedBlock device lba readAt (pos % isoBlock))
        (if (pos + listedBlock device lba readAt (pos % isoBlock)) / isoBlock = pos / isoBlock then readAt
          else pos + listedBlock device lba readAt (pos % isoBlock))

/-- At each of them the flags lie in the block, and a record fits. -/
def ListFits (device : Nat → Nat) (lba size : Nat) : Prop :=
  ∀ pos readAt, Stop device lba size pos readAt → pos % isoBlock + 25 < isoBlock ∧
    (listedBlock device lba readAt (pos % isoBlock) ≠ 0 → RecordFits 255 (listedBlock device lba readAt) (pos % isoBlock))

/-- The handle is at such a position: its buffer holds what was read there, or the next
read is made there. -/
structure AtStop (device : Nat → Nat) (lba : Nat) (handle : IsoLhandle) (readAt : Nat) : Prop where
  held : handle.pos / isoBlock = handle.blockRead → HoldsBlock device (u32 (lba * isoBlock + readAt)) handle.buffer
  fresh : handle.pos / isoBlock ≠ handle.blockRead → readAt = handle.pos

/-- A handle in the course of a listing. -/
structure InListing (device : Nat → Nat) (lba size : Nat) (handle : IsoLhandle) : Prop where
  type : handle.type = .dir
  begins : handle.start = lba
  length : handle.size = size
  stop : handle.pos < size → ∃ readAt, Stop device lba size handle.pos readAt ∧ AtStop device lba handle readAt

/-! ## One call -/

section Loop
variable {device : Nat → Nat} {lba size : Nat} {handle : IsoLhandle} {readAt : Nat}

/-- The answers of the device, as a disc. -/
def deviceDisc (device : Nat → Nat) : Disc := fun pos => some (deviceBlock device pos)

theorem fill_pos (disc : Disc) (handle : IsoLhandle) : (handle.fill disc).pos = handle.pos := by
  unfold IsoLhandle.fill
  split
  · rfl
  · rfl

theorem fill_size (disc : Disc) (handle : IsoLhandle) : (handle.fill disc).size = handle.size := by
  unfold IsoLhandle.fill
  split
  · rfl
  · rfl

theorem fill_start (disc : Disc) (handle : IsoLhandle) : (handle.fill disc).start = handle.start := by
  unfold IsoLhandle.fill
  split
  · rfl
  · rfl

theorem fill_blockRead (disc : Disc) (handle : IsoLhandle) : (handle.fill disc).blockRead = handle.pos / isoBlock := by
  unfold IsoLhandle.fill
  split
  · rfl
  · next h => exact (not_not.mp h).symm

theorem fill_type (disc : Disc) (handle : IsoLhandle) : (handle.fill disc).type = handle.type := by
  unfold IsoLhandle.fill
  split
  · rfl
  · rfl

theorem AtStop.fill (h : AtStop device lba handle readAt) (hstart : handle.start = lba) :
    HoldsBlock device (u32 (lba * isoBlock + readAt)) (handle.fill (deviceDisc device)).buffer := by
  unfold IsoLhandle.fill
  split
  · next hne =>
    rw [h.fresh hne, hstart]
    exact readBlock_holds device _ handle.buffer
  · next heq => exact h.held (not_not.mp heq)

theorem readdirLoop_turn (fuel : Nat) (handle : IsoLhandle) (dst : FsDentry) (hmore : handle.pos < handle.size) :
    (readdirLoopScript (fuel + 1) handle dst).result (deviceAnswer device) =
        (listScript (handle.fill (deviceDisc device)) dst (readdirLoopScript fuel)).result (deviceAnswer device) ∧
      ∀ e, (readdirLoopScript (fuel + 1) handle dst).Tells (deviceAnswer device) e ↔
        (listScript (handle.fill (deviceDisc device)) dst (readdirLoopScript fuel)).Tells (deviceAnswer device) e := by
  have hread : ∀ q : IsoRead, q.pos = u32 (handle.start * isoBlock + handle.pos) →
      handle.fill (fun _ => delivered (deviceAnswer device q) handle.buffer) = handle.fill (deviceDisc device) := by
    intro q hq
    unfold IsoLhandle.fill readBlock deviceAnswer deviceDisc deviceBlock
    rw [hq]
    rfl
  unfold readdirLoopScript
  rw [if_neg (Nat.not_le.mpr hmore)]
  split
  · refine ⟨?_, fun e => ?_⟩
    · show (listScript _ dst _).result _ = _
      rw [hread _ rfl]
    · show (listScript _ dst _).Tells _ e ↔ _
      rw [hread _ rfl]
  · next hkept =>
    have hfill : handle.fill (deviceDisc device) = handle := if_neg hkept
    rw [hfill]
    exact ⟨rfl, fun _ => Iff.rfl⟩

/-- The handle behind the rest of a block that is not used. -/
def IsoLhandle.skipped (filled : IsoLhandle) : IsoLhandle :=
  { filled with pos := u32 (filled.pos + (isoBlock - filled.pos % isoBlock)) }

/-- The handle behind a record. -/
def IsoLhandle.passed (filled : IsoLhandle) : IsoLhandle :=
  { filled with pos := u32 (filled.pos + dentryLen filled.buffer (filled.pos % isoBlock)) }

theorem AtStop.byte (h : AtStop device lba handle readAt) (hstart : handle.start = lba) :
    dentryLen (handle.fill (deviceDisc device)).buffer (handle.pos % isoBlock) =
      listedBlock device lba readAt (handle.pos % isoBlock) :=
  h.fill hstart _ (Nat.mod_lt _ (by decide))

theorem skipped_pos (disc : Disc) (hpos : handle.pos < size) (hsize : size ≤ 2^32 - isoBlock) :
    (handle.fill disc).skipped.pos = handle.pos + (isoBlock - handle.pos % isoBlock) := by
  have hblock : isoBlock = 2048 := rfl
  unfold IsoLhandle.skipped
  rw [fill_pos]
  exact u32_eq (by omega)

theorem AtStop.passed_pos (hbytes : ∀ k, device k < 2^8) (h : AtStop device lba handle readAt) (hstart : handle.start = lba)
    (hpos : handle.pos < size) (hsize : size ≤ 2^32 - isoBlock) :
    (handle.fill (deviceDisc device)).passed.pos = handle.pos + listedBlock device lba readAt (handle.pos % isoBlock) := by
  have hblock : isoBlock = 2048 := rfl
  have hsmall : listedBlock device lba readAt (handle.pos % isoBlock) < 2^8 := hbytes _
  unfold IsoLhandle.passed
  rw [fill_pos, h.byte hstart]
  exact u32_eq (by omega)

theorem atStop_skip (device : Nat → Nat) (lba : Nat) (hpos : handle.pos < size) (hsize : size ≤ 2^32 - isoBlock) :
    AtStop device lba (handle.fill (deviceDisc device)).skipped (handle.pos + (isoBlock - handle.pos % isoBlock)) := by
  have hblock : isoBlock = 2048 := rfl
  have hread : (handle.fill (deviceDisc device)).skipped.blockRead = handle.pos / isoBlock := fill_blockRead _ _
  have hskip := skipped_pos (deviceDisc device) hpos hsize
  refine ⟨fun heq => ?_, fun _ => hskip.symm⟩
  rw [hskip, hread, hblock] at heq
  omega

theorem AtStop.pass (hbytes : ∀ k, device k < 2^8) (h : AtStop device lba handle readAt) (hstart : handle.start = lba)
    (hpos : handle.pos < size) (hsize : size ≤ 2^32 - isoBlock) :
    AtStop device lba (handle.fill (deviceDisc device)).passed
      (if (handle.pos + listedBlock device lba readAt (handle.pos % isoBlock)) / isoBlock = handle.pos / isoBlock then readAt
        else handle.pos + listedBlock device lba readAt (handle.pos % isoBlock)) := by
  have hread : (handle.fill (deviceDisc device)).passed.blockRead = handle.pos / isoBlock := fill_blockRead _ _
  have hpass := h.passed_pos hbytes hstart hpos hsize
  refine ⟨fun heq => ?_, fun hne => ?_⟩
  · rw [hpass, hread] at heq
    rw [if_pos heq]
    exact h.fill hstart
  · rw [hpass, hread] at hne
    rw [if_neg hne, hpass]

theorem InListing.skip (h : InListing device lba size handle) (hsize : size ≤ 2^32 - isoBlock) (hpos : handle.pos < size)
    (hzero : dentryLen (handle.fill (deviceDisc device)).buffer (handle.pos % isoBlock) = 0) :
    InListing device lba size (handle.fill (deviceDisc device)).skipped := by
  obtain ⟨readAt, hstop, hat⟩ := h.stop hpos
  have hskip := skipped_pos (deviceDisc device) hpos hsize
  rw [hat.byte h.begins] at hzero
  refine ⟨(fill_type _ _).trans h.type, (fill_start _ _).trans h.begins, (fill_size _ _).trans h.length, fun hlt => ?_⟩
  refine ⟨_, ?_, atStop_skip device lba hpos hsize⟩
  rw [hskip] at hlt ⊢
  exact hstop.skip hzero hlt

theorem InListing.pass (hbytes : ∀ k, device k < 2^8) (h : InListing device lba size handle) (hsize : size ≤ 2^32 - isoBlock)
    (hpos : handle.pos < size) (hlen : dentryLen (handle.fill (deviceDisc device)).buffer (handle.pos % isoBlock) ≠ 0) :
    InListing device lba size (handle.fill (deviceDisc device)).passed := by
  obtain ⟨readAt, hstop, hat⟩ := h.stop hpos
  have hpass := hat.passed_pos hbytes h.begins hpos hsize
  rw [hat.byte h.begins] at hlen
  refine ⟨(fill_type _ _).trans h.type, (fill_start _ _).trans h.begins, (fill_size _ _).trans h.length, fun hlt => ?_⟩
  refine ⟨_, ?_, hat.pass hbytes h.begins hpos hsize⟩
  rw [hpass] at hlt ⊢
  exact hstop.record hlen hlt

theorem readdirLoop_tells {fuel : Nat} {dst : FsDentry} (hmore : handle.pos < handle.size) {x : Nat} :
    (readdirLoopScript (fuel + 1) handle dst).Tells (deviceAnswer device) (.look x) ↔
      x ∈ [handle.pos % isoBlock + 25, handle.pos % isoBlock] ∨
      (dentryLen (handle.fill (deviceDisc device)).buffer (handle.pos % isoBlock) = 0 ∧
        ¬ handle.size ≤ (handle.fill (deviceDisc device)).skipped.pos ∧
        (readdirLoopScript fuel (handle.fill (deviceDisc device)).skipped
          { dst with type := dentryType (handle.fill (deviceDisc device)).buffer (handle.pos % isoBlock) }).Tells
            (deviceAnswer device) (.look x)) ∨
      (dentryLen (handle.fill (deviceDisc device)).buffer (handle.pos % isoBlock) ≠ 0 ∧
        x ∈ (handle.pos % isoBlock + 32) :: (handle.pos % isoBlock + 33) ::
          nameLooks 255 (handle.fill (deviceDisc device)).buffer (handle.pos % isoBlock)) := by
  rw [(readdirLoop_turn fuel handle dst hmore).2, ← fill_size (deviceDisc device) handle, ← fill_pos (deviceDisc device) handle]
  generalize handle.fill (deviceDisc device) = filled
  unfold listScript
  rw [lookAt_tells]
  refine or_congr_right ?_
  split
  · next hzero =>
    show (if filled.size ≤ filled.skipped.pos then Script.done _ else readdirLoopScript fuel filled.skipped _).Tells _ _ ↔ _
    split
    · next hend =>
      refine ⟨False.elim, ?_⟩
      rintro (⟨-, hnext, -⟩ | ⟨hlen, -⟩)
      · exact hnext hend
      · exact hlen hzero
    · next hnext =>
      refine ⟨fun h => .inl ⟨hzero, hnext, h⟩, ?_⟩
      rintro (⟨-, -, h⟩ | ⟨hlen, -⟩)
      · exact h
      · exact absurd hzero hlen
  · next hlen =>
    rw [lookAt_tells]
    refine ⟨fun h => .inr ⟨hlen, h.resolve_right False.elim⟩, ?_⟩
    rintro (⟨hzero, -⟩ | ⟨-, hx⟩)
    · exact absurd hzero hlen
    · exact .inl hx

theorem readdirLoop_result {fuel : Nat} {dst : FsDentry} (hmore : handle.pos < handle.size) :
    (readdirLoopScript (fuel + 1) handle dst).result (deviceAnswer device) =
      let dst := { dst with type := dentryType (handle.fill (deviceDisc device)).buffer (handle.pos % isoBlock) }
      if dentryLen (handle.fill (deviceDisc device)).buffer (handle.pos % isoBlock) = 0 then
        if handle.size ≤ (handle.fill (deviceDisc device)).skipped.pos then some (-1, (handle.fill (deviceDisc device)).skipped, dst)
        else (readdirLoopScript fuel (handle.fill (deviceDisc device)).skipped dst).result (deviceAnswer device)
      else
        some (0, (handle.fill (deviceDisc device)).passed,
          { dst with name := dentryName 255 (handle.fill (deviceDisc device)).buffer (handle.pos % isoBlock) }) := by
  rw [(readdirLoop_turn fuel handle dst hmore).1, ← fill_size (deviceDisc device) handle, ← fill_pos (deviceDisc device) handle]
  unfold listScript
  simp only [apply_ite (Script.result _), lookAt_result]
  rfl

theorem InListing.next (hbytes : ∀ k, device k < 2^8) (hsize : size ≤ 2^32 - isoBlock) : ∀ {fuel : Nat} {handle : IsoLhandle}
    {dst : FsDentry} {out : Int × IsoLhandle × FsDentry}, InListing device lba size handle →
      (readdirLoopScript fuel handle dst).result (deviceAnswer device) = some out → InListing device lba size out.2.1 := by
  intro fuel
  induction fuel with
  | zero =>
    intro handle dst out _ hrun
    cases hrun
  | succ fuel ih =>
    intro handle dst out h hrun
    by_cases hmore : handle.pos < handle.size
    · rw [readdirLoop_result hmore] at hrun
      rw [h.length] at hmore
      dsimp only at hrun
      split at hrun
      · next hzero =>
        have hskip := h.skip hsize hmore hzero
        split at hrun
        · cases hrun
          exact hskip
        · exact ih hskip hrun
      · next hlen =>
        cases hrun
        exact h.pass hbytes hsize hmore hlen
    · unfold readdirLoopScript at hrun
      rw [if_pos (Nat.not_lt.mp hmore)] at hrun
      cases hrun
      exact h

theorem InListing.ends (hsize : size ≤ 2^32 - isoBlock) : ∀ {fuel : Nat} {handle : IsoLhandle} (dst : FsDentry),
    InListing device lba size handle → size - handle.pos < fuel →
      (readdirLoopScript fuel handle dst).result (deviceAnswer device) ≠ none := by
  have hblock : isoBlock = 2048 := rfl
  intro fuel
  induction fuel with
  | zero =>
    intro handle dst _ hfuel
    omega
  | succ fuel ih =>
    intro handle dst h hfuel
    by_cases hmore : handle.pos < handle.size
    · rw [readdirLoop_result hmore]
      rw [h.length] at hmore
      dsimp only
      split
      · next hzero =>
        have hskip := skipped_pos (deviceDisc device) hmore hsize
        have hin : handle.pos % isoBlock < isoBlock := Nat.mod_lt _ (by decide)
        split
        · exact Option.some_ne_none _
        · refine ih _ (h.skip hsize hmore hzero) ?_
          rw [hskip]
          omega
      · exact Option.some_ne_none _
    · unfold readdirLoopScript
      rw [if_pos (Nat.not_lt.mp hmore)]
      exact Option.some_ne_none _

theorem InListing.inside (hfits : ListFits device lba size) (hsize : size ≤ 2^32 - isoBlock) : ∀ {fuel : Nat} {handle : IsoLhandle}
    {dst : FsDentry} {x : Nat}, InListing device lba size handle →
      (readdirLoopScript fuel handle dst).Tells (deviceAnswer device) (.look x) → x < isoBlock := by
  intro fuel
  induction fuel with
  | zero =>
    intro handle dst x _ hx
    exact hx.elim
  | succ fuel ih =>
    intro handle dst x h hx
    by_cases hmore : handle.pos < handle.size
    · rw [readdirLoop_tells hmore] at hx
      rw [h.length] at hmore
      obtain ⟨readAt, hstop, hat⟩ := h.stop hmore
      obtain ⟨hflags, hrecord⟩ := hfits _ _ hstop
      rcases hx with hx | ⟨hzero, -, hx⟩ | ⟨hlen, hx⟩
      · rcases List.mem_cons.mp hx with rfl | hx
        · exact hflags
        · rw [List.mem_singleton.mp hx]
          exact Nat.mod_lt _ (by decide)
      · exact ih (h.skip hsize hmore hzero) hx
      · rw [hat.byte h.begins] at hlen
        have hfit := (hrecord hlen).congr (hat.fill h.begins)
        exact recordFits_iff.mpr hfit x hx
    · unfold readdirLoopScript at hx
      rw [if_pos (Nat.not_lt.mp hmore)] at hx
      exact hx.elim

end Loop

/-! ## Every stop is come to -/

/-- The handles that a listing of the directory goes through, call by call. -/
inductive Lists (device : Nat → Nat) (lba size : Nat) : IsoLhandle → Prop
  | opened (disc : Disc) (unset : IsoUnset) : Lists device lba size (isoDirHandle disc unset (.dir, lba, size))
  | call {fuel : Nat} {handle : IsoLhandle} {dst : FsDentry} {out : Int × IsoLhandle × FsDentry} (h : Lists device lba size handle)
      (hcall : (readdirLoopScript fuel handle dst).result (deviceAnswer device) = some out) : Lists device lba size out.2.1

section Calls
variable {device : Nat → Nat} {lba size : Nat}

theorem isoDirHandle_atStop (disc : Disc) (unset : IsoUnset) (device : Nat → Nat) (lba size : Nat) :
    AtStop device lba (isoDirHandle disc unset (.dir, lba, size)) 0 :=
  ⟨fun heq => absurd heq (show ¬ 0 / isoBlock = 0xFFFFFFFF by decide), fun _ => rfl⟩

theorem Lists.listing (hbytes : ∀ k, device k < 2^8) (hsize : size ≤ 2^32 - isoBlock) {handle : IsoLhandle}
    (h : Lists device lba size handle) : InListing device lba size handle := by
  induction h with
  | opened disc unset =>
    exact ⟨rfl, rfl, rfl, fun hlt => ⟨0, .first hlt, isoDirHandle_atStop disc unset device lba size⟩⟩
  | call _ hcall ih => exact ih.next hbytes hsize hcall

/-- In some call of a listing the loop comes to this handle: what it looks at and ends
with from there on, the call does. -/
def Visits (device : Nat → Nat) (lba size : Nat) (handle : IsoLhandle) (dst : FsDentry) : Prop :=
  ∃ handle₀ dst₀, Lists device lba size handle₀ ∧ ∀ fuel, ∃ fuel',
    (∀ x, (readdirLoopScript fuel handle dst).Tells (deviceAnswer device) (.look x) →
      (readdirLoopScript fuel' handle₀ dst₀).Tells (deviceAnswer device) (.look x)) ∧
    ∀ out, (readdirLoopScript fuel handle dst).result (deviceAnswer device) = some out →
      (readdirLoopScript fuel' handle₀ dst₀).result (deviceAnswer device) = some out

theorem Lists.visits {handle : IsoLhandle} (h : Lists device lba size handle) (dst : FsDentry) : Visits device lba size handle dst :=
  ⟨handle, dst, h, fun fuel => ⟨fuel, fun _ hx => hx, fun _ hout => hout⟩⟩

theorem Visits.skip {handle : IsoLhandle} {dst : FsDentry} (h : Visits device lba size handle dst) (hmore : handle.pos < handle.size)
    (hzero : dentryLen (handle.fill (deviceDisc device)).buffer (handle.pos % isoBlock) = 0)
    (hnext : ¬ handle.size ≤ (handle.fill (deviceDisc device)).skipped.pos) :
    Visits device lba size (handle.fill (deviceDisc device)).skipped
      { dst with type := dentryType (handle.fill (deviceDisc device)).buffer (handle.pos % isoBlock) } := by
  obtain ⟨handle₀, dst₀, hlists, hvisit⟩ := h
  refine ⟨handle₀, dst₀, hlists, fun fuel => ?_⟩
  obtain ⟨fuel', htells, hresult⟩ := hvisit (fuel + 1)
  refine ⟨fuel', fun x hx => htells x ?_, fun out hout => hresult out ?_⟩
  · rw [readdirLoop_tells hmore]
    exact .inr (.inl ⟨hzero, hnext, hx⟩)
  · rw [readdirLoop_result hmore]
    dsimp only
    rw [if_pos hzero, if_neg hnext]
    exact hout

theorem Visits.pass {handle : IsoLhandle} {dst : FsDentry} (h : Visits device lba size handle dst) (hmore : handle.pos < handle.size)
    (hlen : dentryLen (handle.fill (deviceDisc device)).buffer (handle.pos % isoBlock) ≠ 0) (dst' : FsDentry) :
    Visits device lba size (handle.fill (deviceDisc device)).passed dst' := by
  obtain ⟨handle₀, dst₀, hlists, hvisit⟩ := h
  obtain ⟨fuel', -, hresult⟩ := hvisit 1
  have hcall := hresult _ (by rw [readdirLoop_result hmore]; exact if_neg hlen)
  exact (hlists.call hcall).visits dst'

theorem Stop.visited (hbytes : ∀ k, device k < 2^8) (hsize : size ≤ 2^32 - isoBlock) {pos readAt : Nat}
    (h : Stop device lba size pos readAt) : pos < size ∧ ∃ handle dst, handle.pos = pos ∧ handle.start = lba ∧ handle.size = size ∧
      AtStop device lba handle readAt ∧ Visits device lba size handle dst := by
  induction h with
  | first hpos =>
    have hopened := @Lists.opened device lba size (deviceDisc device) { type := .none, buffer := fun _ => 0, fuel := 0 }
    exact ⟨hpos, _, { type := .none, name := [] }, rfl, rfl, rfl, isoDirHandle_atStop _ _ _ _ _, hopened.visits _⟩
  | @skip pos readAt hstop hzero hlt ih =>
    obtain ⟨hpos, handle, dst, rfl, hstart, hsize', hat, hvisits⟩ := ih
    have hmore : handle.pos < handle.size := by rw [hsize']; exact hpos
    have hskip := skipped_pos (deviceDisc device) hpos hsize
    rw [← hat.byte hstart] at hzero
    have hnext : ¬ handle.size ≤ (handle.fill (deviceDisc device)).skipped.pos := by
      rw [hskip, hsize']
      exact Nat.not_le.mpr hlt
    exact ⟨hlt, _, _, hskip, (fill_start _ _).trans hstart, (fill_size _ _).trans hsize', atStop_skip device lba hpos hsize,
      hvisits.skip hmore hzero hnext⟩
  | @record pos readAt hstop hlen hlt ih =>
    obtain ⟨hpos, handle, dst, rfl, hstart, hsize', hat, hvisits⟩ := ih
    have hmore : handle.pos < handle.size := by rw [hsize']; exact hpos
    have hpass := hat.passed_pos hbytes hstart hpos hsize
    rw [← hat.byte hstart] at hlen
    exact ⟨hlt, _, dst, hpass, (fill_start _ _).trans hstart, (fill_size _ _).trans hsize', hat.pass hbytes hstart hpos hsize,
      hvisits.pass hmore hlen dst⟩

/-- Where every look of every call is inside the block, the directory fits. -/
theorem listFits_of_inside (hbytes : ∀ k, device k < 2^8) (hsize : size ≤ 2^32 - isoBlock)
    (hinside : ∀ handle, Lists device lba size handle → ∀ dst fuel x,
      (readdirLoopScript fuel handle dst).Tells (deviceAnswer device) (.look x) → x < isoBlock) : ListFits device lba size := by
  intro pos readAt hstop
  obtain ⟨hpos, handle, dst, rfl, hstart, hsize', hat, handle₀, dst₀, hlists, hvisit⟩ := hstop.visited hbytes hsize
  have hmore : handle.pos < handle.size := by rw [hsize']; exact hpos
  obtain ⟨fuel', htells, -⟩ := hvisit 1
  have hlook : ∀ x, (readdirLoopScript 1 handle dst).Tells (deviceAnswer device) (.look x) → x < isoBlock :=
    fun x hx => hinside handle₀ hlists dst₀ fuel' x (htells x hx)
  refine ⟨hlook _ ((readdirLoop_tells hmore).mpr (.inl List.mem_cons_self)), fun hlen => ?_⟩
  have hlen' := hlen
  rw [← hat.byte hstart] at hlen'
  refine RecordFits.congr (fun k hk => (hat.fill hstart k hk).symm) (recordFits_iff.mp (fun x hx => ?_))
  exact hlook x ((readdirLoop_tells hmore).mpr (.inr (.inr ⟨hlen', hx⟩)))

end Calls

/-! ## Calls on a mount -/

/-- The mounts that a listing goes through: the directory has been opened, and calls of
`iso9660_readdir` have returned. -/
inductive ListsAt (device : Nat → Nat) (ifd lba size : Nat) : IsoPrivate → Prop
  | opened {data : IsoPrivate} {e : Entry IsoLhandle} (hslot : slot data.lhandles ifd = some e) (hpresent : e.present = true)
      (hrefs : 1 ≤ e.refs) (disc : Disc) (unset : IsoUnset) (hhandle : e.value = isoDirHandle disc unset (.dir, lba, size)) :
      ListsAt device ifd lba size data
  | call {data : IsoPrivate} {fuel : Nat} {dst : FsDentry} {out : Int × IsoPrivate × FsDentry} (h : ListsAt device ifd lba size data)
      (hcall : (readdirScript data fuel ifd dst).result (deviceAnswer device) = some out) : ListsAt device ifd lba size out.2.1

/-- However far a directory has been listed, the next call ends, and looks at bytes of the
block in its buffer. -/
def ReaddirSafe (device : Nat → Nat) (lba size : Nat) : Prop :=
  ∀ ifd data, ListsAt device ifd lba size data → ∀ dst,
    (∃ fuel, (readdirScript data fuel ifd dst).result (deviceAnswer device) ≠ none) ∧
      ∀ fuel x, (readdirScript data fuel ifd dst).Tells (deviceAnswer device) (.look x) → x < isoBlock

section Mount
variable {device : Nat → Nat} {ifd lba size : Nat} {data : IsoPrivate} {e : Entry IsoLhandle}

theorem readdirScript_slot (hslot : slot data.lhandles ifd = some e) (hpresent : e.present = true) (hrefs : 1 ≤ e.refs)
    (htype : e.value.type = .dir) (fuel : Nat) (dst : FsDentry) :
    readdirScript data fuel ifd dst =
      (readdirLoopScript fuel e.value dst).bind fun out => ret .readdir out.1 (out.1, data.put ifd e out.2.1, out.2.2) := by
  have hwrite : ∀ handle, arrayUnref (arrayWrite (arrayGet data.lhandles ifd).2 ifd handle) ifd =
      data.lhandles.set ifd (some { e with value := handle }) := slot_get_write hslot hpresent hrefs
  rw [arrayGet_slot hslot hpresent] at hwrite
  unfold readdirScript IsoPrivate.put
  rw [arrayGet_slot hslot hpresent]
  dsimp only
  rw [if_neg (not_not_intro htype)]
  congr 1
  funext out
  rw [hwrite]

theorem readdirScript_slot_result (hslot : slot data.lhandles ifd = some e) (hpresent : e.present = true) (hrefs : 1 ≤ e.refs)
    (htype : e.value.type = .dir) (fuel : Nat) (dst : FsDentry) :
    (readdirScript data fuel ifd dst).result (deviceAnswer device) =
      ((readdirLoopScript fuel e.value dst).result (deviceAnswer device)).map fun out =>
        (out.1, data.put ifd e out.2.1, out.2.2) := by
  rw [readdirScript_slot hslot hpresent hrefs htype, Script.result_bind]
  cases (readdirLoopScript fuel e.value dst).result (deviceAnswer device) with
  | none => rfl
  | some out => rfl

theorem readdirScript_slot_tells (hslot : slot data.lhandles ifd = some e) (hpresent : e.present = true) (hrefs : 1 ≤ e.refs)
    (htype : e.value.type = .dir) (fuel : Nat) (dst : FsDentry) (x : Nat) :
    (readdirScript data fuel ifd dst).Tells (deviceAnswer device) (.look x) ↔
      (readdirLoopScript fuel e.value dst).Tells (deviceAnswer device) (.look x) := by
  rw [readdirScript_slot hslot hpresent hrefs htype, Script.tells_bind]
  exact ⟨fun h => h.elim id (fun ⟨out, _, hret⟩ => absurd hret (ret_tells _ _ _)), .inl⟩

theorem ListsAt.handle (hbytes : ∀ k, device k < 2^8) (hsize : size ≤ 2^32 - isoBlock) (h : ListsAt device ifd lba size data) :
    ∃ e, slot data.lhandles ifd = some e ∧ e.present = true ∧ 1 ≤ e.refs ∧ Lists device lba size e.value := by
  induction h with
  | opened hslot hpresent hrefs disc unset hhandle =>
    refine ⟨_, hslot, hpresent, hrefs, ?_⟩
    rw [hhandle]
    exact .opened disc unset
  | @call data fuel dst out h hcall ih =>
    obtain ⟨e, hslot, hpresent, hrefs, hlists⟩ := ih
    rw [readdirScript_slot_result hslot hpresent hrefs (hlists.listing hbytes hsize).type] at hcall
    obtain ⟨out', hout, rfl⟩ := Option.map_eq_some_iff.mp hcall
    exact ⟨_, slot_set_self hslot _, hpresent, hrefs, hlists.call hout⟩

theorem Lists.mount (hbytes : ∀ k, device k < 2^8) (hsize : size ≤ 2^32 - isoBlock) {handle : IsoLhandle}
    (h : Lists device lba size handle) : ∃ data e, ListsAt device 0 lba size data ∧ slot data.lhandles 0 = some e ∧
      e.present = true ∧ 1 ≤ e.refs ∧ e.value = handle := by
  induction h with
  | opened disc unset =>
    let e := Entry.resting (isoDirHandle disc unset (.dir, lba, size))
    have hslot : slot [some e] 0 = some e := rfl
    exact ⟨{ disc := disc, rootLba := lba, rootLen := size, lhandles := [some e] },
      _, .opened hslot rfl (Int.le_refl 1) disc unset rfl, hslot, rfl, Int.le_refl 1, rfl⟩
  | @call fuel handle dst out h hcall ih =>
    obtain ⟨data, e, hlisting, hslot, hpresent, hrefs, rfl⟩ := ih
    have hresult : (readdirScript data fuel 0 dst).result (deviceAnswer device) = _ :=
      readdirScript_slot_result hslot hpresent hrefs (h.listing hbytes hsize).type fuel dst
    rw [hcall] at hresult
    exact ⟨_, _, hlisting.call hresult, slot_set_self hslot _, hpresent, hrefs, rfl⟩

theorem readdirSafe_iff (hbytes : ∀ k, device k < 2^8) (hsize : size ≤ 2^32 - isoBlock) :
    ReaddirSafe device lba size ↔ ListFits device lba size := by
  constructor
  · intro h
    refine listFits_of_inside hbytes hsize (fun handle hlists dst fuel x hx => ?_)
    obtain ⟨data, e, hlisting, hslot, hpresent, hrefs, rfl⟩ := hlists.mount hbytes hsize
    refine (h 0 data hlisting dst).2 fuel x ?_
    rw [readdirScript_slot_tells hslot hpresent hrefs (hlists.listing hbytes hsize).type]
    exact hx
  · intro hfits ifd data hlisting dst
    obtain ⟨e, hslot, hpresent, hrefs, hlists⟩ := hlisting.handle hbytes hsize
    have hstands := hlists.listing hbytes hsize
    refine ⟨⟨size + 1, ?_⟩, fun fuel x hx => ?_⟩
    · rw [readdirScript_slot_result hslot hpresent hrefs hstands.type]
      have hends := hstands.ends hsize dst (show size - e.value.pos < size + 1 by omega)
      rw [Ne, Option.map_eq_none_iff]
      exact hends
    · rw [readdirScript_slot_tells hslot hpresent hrefs hstands.type] at hx
      exact hstands.inside hfits hsize hx

/-- On a disc with any contents every search of a directory and every listing of it end,
and look at bytes of their block alone, exactly when the directory ends a block before 4
GiB and everything that they come to in it fits. -/
theorem iso9660_inside_iff (hbytes : ∀ k, device k < 2^8) (hsize : size < 2^32) :
    (FindSafe device lba size ∧ ReaddirSafe device lba size) ↔
      size ≤ 2^32 - isoBlock ∧ BlocksFit device lba size ∧ ListFits device lba size := by
  rw [findSafe_iff hbytes hsize]
  constructor
  · rintro ⟨⟨hends, hblocks⟩, hlist⟩
    exact ⟨hends, hblocks, (readdirSafe_iff hbytes hends).mp hlist⟩
  · rintro ⟨hends, hblocks, hlist⟩
    exact ⟨⟨hends, hblocks⟩, (readdirSafe_iff hbytes hends).mpr hlist⟩

end Mount

/-- A disc of which each block is the sample block. -/
def sampleDevice (k : Nat) : Nat := sampleBlock (k % 2048)

theorem sampleDevice_byte (k : Nat) : sampleDevice k < 2^8 := by
  have hbytes : ∀ b ∈ sampleRecord 20 0 65 ++ sampleRecord 21 2 68, b < 2^8 := by decide
  unfold sampleDevice sampleBlock
  cases hget : (sampleRecord 20 0 65 ++ sampleRecord 21 2 68)[k % 2048]? with
  | none => decide
  | some b => exact hbytes b (List.mem_of_getElem? hget)

theorem sampleDevice_comes {a : Nat} (h : Comes (deviceBlock sampleDevice (u32 (18 * isoBlock))) a) : a = 0 ∨ a = 34 ∨ a = 68 := by
  induction h with
  | first => exact .inl rfl
  | next h hlen hlt ih =>
    rcases ih with rfl | rfl | rfl
    · exact .inr (.inl rfl)
    · exact .inr (.inr rfl)
    · exact absurd rfl hlen

theorem sampleDevice_stop {pos readAt : Nat} (h : Stop sampleDevice 18 2048 pos readAt) :
    readAt = 0 ∧ (pos = 0 ∨ pos = 34 ∨ pos = 68) := by
  induction h with
  | first h => exact ⟨rfl, .inl rfl⟩
  | skip h hzero hlt ih =>
    obtain ⟨rfl, rfl | rfl | rfl⟩ := ih
    · exact absurd hzero (by decide)
    · exact absurd hzero (by decide)
    · exact absurd hlt (by decide)
  | record h hlen hlt ih =>
    obtain ⟨rfl, rfl | rfl | rfl⟩ := ih
    · exact ⟨rfl, .inr (.inl rfl)⟩
    · exact ⟨rfl, .inr (.inr rfl)⟩
    · exact absurd rfl hlen

/-- The sample directory is searched and listed inside its block. -/
theorem iso9660_inside_sample : FindSafe sampleDevice 18 2048 ∧ ReaddirSafe sampleDevice 18 2048 := by
  refine (iso9660_inside_iff sampleDevice_byte (by decide)).mpr ⟨by decide, fun b hb a hcomes hlen => ?_, fun pos readAt hstop => ?_⟩
  · obtain rfl : b = 0 := by
      have hblock : isoBlock = 2048 := rfl
      rw [hblock] at hb
      omega
    rcases sampleDevice_comes hcomes with rfl | rfl | rfl
    · exact ⟨by decide, .inr ⟨1, by decide, .inr (by decide)⟩⟩
    · exact ⟨by decide, .inr ⟨1, by decide, .inr (by decide)⟩⟩
    · exact absurd rfl hlen
  · obtain ⟨rfl, rfl | rfl | rfl⟩ := sampleDevice_stop hstop
    · exact ⟨by decide, fun _ => ⟨by decide, .inr ⟨1, by decide, .inr (by decide)⟩⟩⟩
    · exact ⟨by decide, fun _ => ⟨by decide, .inr ⟨1, by decide, .inr (by decide)⟩⟩⟩
    · exact ⟨by decide, fun hlen => absurd rfl hlen⟩

/-- Records of 255 bytes, eight to a block. What is left of it is not used, or looks like
another record. -/
def longRecords (last k : Nat) : Nat := if k % 2048 % 255 = 0 then (if k % 2048 < 2040 then 255 else last) else 1

theorem longRecords_byte {last : Nat} (h : last < 2^8) (k : Nat) : longRecords last k < 2^8 := by
  unfold longRecords
  split
  · split
    · decide
    · exact h
  · decide

theorem longRecords_eight (last : Nat) {i : Nat} (hi : i < 8) : longRecords last (36864 + 255 * i) = 255 := by
  have hmod : (2048 * 18 + 255 * i) % 2048 = 255 * i := by
    rw [Nat.mul_add_mod]
    exact Nat.mod_eq_of_lt (by omega)
  show longRecords last (2048 * 18 + 255 * i) = 255
  unfold longRecords
  rw [hmod, if_pos (Nat.mul_mod_right 255 i), if_pos (by omega)]

theorem longRecords_comes (last : Nat) : ∀ {i : Nat}, i ≤ 8 → Comes (deviceBlock (longRecords last) 36864) (255 * i) := by
  have hblock : isoBlock = 2048 := rfl
  intro i
  induction i with
  | zero => exact fun _ => .first
  | succ i ih =>
    intro hi
    have hlen : deviceBlock (longRecords last) 36864 (255 * i) = 255 := longRecords_eight last hi
    have hnext := Comes.next (ih (Nat.le_of_lt hi)) (by rw [hlen]; decide) (by rw [hlen]; omega)
    rw [hlen] at hnext
    exact hnext

theorem longRecords_stop (last : Nat) : ∀ {i : Nat}, i ≤ 8 → Stop (longRecords last) 18 2048 (255 * i) 0 := by
  have hblock : isoBlock = 2048 := rfl
  intro i
  induction i with
  | zero => exact fun _ => .first (by decide)
  | succ i ih =>
    intro hi
    have hlen : listedBlock (longRecords last) 18 0 (255 * i % isoBlock) = 255 := by
      rw [Nat.mod_eq_of_lt (by omega)]
      exact longRecords_eight last hi
    have hnext := Stop.record (ih (Nat.le_of_lt hi)) (by rw [hlen]; decide) (by rw [hlen]; omega)
    rw [hlen, if_pos (by rw [Nat.div_eq_of_lt (by omega), Nat.div_eq_of_lt (by omega)])] at hnext
    exact hnext

/-- In a directory of `2^32 - 1` bytes a search does not end. A record that begins eight
bytes before the end of a block is looked at behind it, and so are the flags of what is
not used there. -/
theorem iso9660_inside_fails :
    (∀ unset ext, (findScript unset 18 4294967295 (cstr ";") ext).result (deviceAnswer fun _ => 0) = none) ∧
    ¬ FindSafe (longRecords 255) 18 2048 ∧ ¬ ReaddirSafe (longRecords 0) 18 2048 := by
  refine ⟨fun unset ext => ?_, fun h => ?_, fun h => ?_⟩
  · rw [findScript_device]
    exact findLoopScript_endless (by decide) (by decide) rfl
  · obtain ⟨-, hblocks⟩ := (findSafe_iff (longRecords_byte (by decide)) (by decide)).mp h
    have hfits := hblocks 0 (by decide) 2040 (longRecords_comes 255 (Nat.le_refl 8)) (by decide)
    exact absurd hfits.1 (by decide)
  · have hfits := (readdirSafe_iff (longRecords_byte (by decide)) (by decide)).mp h
    exact absurd (hfits 2040 0 (longRecords_stop 0 (Nat.le_refl 8))).1 (by decide)

end Aex.Fs
