import AexKernel.Lib.Held
import AexKernel.Dev.Keyboard
import AexKernel.Task.Spawn

/- The keyboard from the bytes of its interrupts to the events (`ps2kb_irq` of `ps2.c`,
   `append_key_event`, `input_kb_press`, `input_kb_release` and `input_loop` of
   `input.c`).

   A run is a list of bytes the interrupt reads and of turns of `input_loop`, each of
   which runs to its end. Above it stands what the bytes tell (`Told`): the keys that
   went down and up, where a key that is held does not go down again, and the turns.
   `kb_follows_keys` gives all variables and all that was done with the keys from what
   was told, so that the bytes a keyboard repeats for a held key are without effect.

   A modifier and a key of `input.c` are one bit each, whatever the number of scan codes
   that are translated to them. `kb_bits_right` says when such a bit is wrong. -/
namespace Aex.Dev
open Held Aex.Spawn

def inputShiftFlag : UInt8 := 0x01

/-- The first 160 entries of the table; the others are 0. -/
def translation : List UInt8 := [
  0x00, 0x72, 0x00, 0x6E, 0x6C, 0x6A, 0x6B, 0x75, 0x00, 0x73, 0x71, 0x6F, 0x6D, 0x09, 0x60, 0x00,
  0x00, 0x17, 0x0E, 0x00, 0x15, 0x51, 0x31, 0x00, 0x00, 0x00, 0x5A, 0x53, 0x41, 0x57, 0x32, 0x00,
  0x00, 0x43, 0x58, 0x44, 0x45, 0x34, 0x33, 0x00, 0x00, 0x20, 0x56, 0x46, 0x54, 0x52, 0x35, 0x00,
  0x00, 0x4E, 0x42, 0x48, 0x47, 0x59, 0x36, 0x00, 0x00, 0x00, 0x4D, 0x4A, 0x55, 0x37, 0x38, 0x00,
  0x00, 0x2C, 0x4B, 0x49, 0x4F, 0x30, 0x39, 0x00, 0x00, 0x2E, 0x2F, 0x4C, 0x3B, 0x50, 0x2D, 0x00,
  0x00, 0x00, 0x27, 0x00, 0x5B, 0x3D, 0x00, 0x00, 0x1C, 0x0F, 0x0D, 0x5D, 0x00, 0x5C, 0x00, 0x00,
  0x00, 0x00, 0x00, 0x00, 0x00, 0x00, 0x08, 0x00, 0x00, 0x6B, 0x00, 0x6E, 0x71, 0x00, 0x00, 0x00,
  0x6A, 0x07, 0x6C, 0x6F, 0x70, 0x72, 0x1B, 0x01, 0x74, 0x05, 0x6D, 0x04, 0x03, 0x73, 0x68, 0x00,
  0x00, 0x00, 0x00, 0x00, 0x00, 0x00, 0x00, 0x00, 0x00, 0x00, 0x00, 0x00, 0x00, 0x00, 0x00, 0x00,
  0x00, 0x00, 0x00, 0x00, 0x00, 0x00, 0x00, 0x00, 0x00, 0x00, 0x00, 0x00, 0x00, 0x00, 0x00, 0x00]

def translate (scancode : UInt8) : UInt8 := translation.getD scancode.toNat 0

/-- What `append_key_event` does with a key: the event is queued, or the key is given to
`sys_funckey` or to `sys_sysrq`. -/
inductive KeyAct where
  | queue (e : KeyEvent)
  | funckey (key : UInt8)
  | sysrq (key : UInt8)
  deriving DecidableEq, Repr

/-- The variables of `ps2.c` and `input.c`, and what was done with keys so far. -/
structure Kb where
  release : Bool
  pressed : UInt8 → Bool
  lastCmdByte : UInt8
  pressedKeys : UInt8 → Bool
  prscnt : Nat
  inputFlags : UInt8
  sysrq : Bool
  acts : List KeyAct

def kbBoot : Kb where
  release := false
  pressed := fun _ => false
  lastCmdByte := 0
  pressedKeys := fun _ => false
  prscnt := 0
  inputFlags := 0
  sysrq := false
  acts := []

def Kb.appendKeyEvent (s : Kb) (key : UInt8) : Kb :=
  if s.sysrq then { s with sysrq := false, acts := s.acts ++ [.sysrq key] }
  else if key = 0x75 && chordHeld s.inputFlags then { s with sysrq := true }
  else if 0x6A ≤ key && key ≤ 0x71 && chordHeld s.inputFlags then { s with acts := s.acts ++ [.funckey key] }
  else { s with acts := s.acts ++ [.queue (s.inputFlags, key)] }

def Kb.inputKbPress (s : Kb) (key : UInt8) : Kb :=
  if key = 0x0E ∨ key = 0x0F then { s with inputFlags := s.inputFlags ||| inputShiftFlag }
  else if key = 0x17 then { s with inputFlags := s.inputFlags ||| inputAltFlag }
  else if key = 0x18 then { s with inputFlags := s.inputFlags ||| (inputAltFlag ||| inputControlFlag) }
  else if key = 0x15 ∨ key = 0x1B then { s with inputFlags := s.inputFlags ||| inputControlFlag }
  else
    let s := if s.pressedKeys key then s else s.appendKeyEvent key
    { s with prscnt := 0, pressedKeys := Function.update s.pressedKeys key true }

def Kb.inputKbRelease (s : Kb) (key : UInt8) : Kb :=
  if key = 0x0E ∨ key = 0x0F then { s with inputFlags := s.inputFlags &&& ~~~inputShiftFlag }
  else if key = 0x17 then { s with inputFlags := s.inputFlags &&& ~~~inputAltFlag }
  else if key = 0x18 then { s with inputFlags := s.inputFlags &&& ~~~(inputAltFlag ||| inputControlFlag) }
  else if key = 0x15 ∨ key = 0x1B then { s with inputFlags := s.inputFlags &&& ~~~inputControlFlag }
  else { s with prscnt := 0, pressedKeys := Function.update s.pressedKeys key false }

def Kb.ps2kbIrq (s : Kb) (scancode : UInt8) : Kb :=
  if 0xFA ≤ scancode then { s with lastCmdByte := scancode }
  else if scancode = 0xE0 then s
  else if scancode = 0xF0 then { s with release := true }
  else if s.release then
    let s := { s with pressed := Function.update s.pressed scancode false }
    { s.inputKbRelease (translate scancode) with release := false }
  else if s.pressed scancode then s
  else { s with pressed := Function.update s.pressed scancode true }.inputKbPress (translate scancode)

/-- `append_key_event` for each pressed key of those. -/
def Kb.appendPressed : Kb → List UInt8 → Kb
  | s, [] => s
  | s, key :: keys => (if s.pressedKeys key then s.appendKeyEvent key else s).appendPressed keys

def allKeys : List UInt8 := (List.range 256).map UInt8.ofNat

/-- One turn of `input_loop`: the counter is an `int`. -/
def Kb.inputLoop (s : Kb) : Kb :=
  let s := { s with prscnt := u32 (s.prscnt + 1) }
  if int32 s.prscnt < 10 then s else s.appendPressed allKeys

inductive KbInput where
  | byte (scancode : UInt8)
  | turn
  deriving DecidableEq, Repr

def kbInput (s : Kb) : KbInput → Kb
  | .byte scancode => s.ps2kbIrq scancode
  | .turn => s.inputLoop

def kbRun (inputs : List KbInput) : Kb := inputs.foldl kbInput kbBoot

/-! ## What the bytes tell -/

/-- A key went down or up, or a turn of `input_loop`. -/
inductive Told where
  | move (m : Move UInt8)
  | turn
  deriving DecidableEq, Repr

/-- The moves of what was told, the latest first. -/
def movesOf (told : List Told) : List (Move UInt8) :=
  told.filterMap fun
    | .move m => some m
    | .turn => none

/-- Whether the byte 0xF0 was read and no scan code since, and what was told, the latest
first. -/
structure Decoder where
  release : Bool
  told : List Told
  deriving DecidableEq, Repr

/-- The byte is a scan code. -/
def isScancode (byte : UInt8) : Bool := byte < 0xFA && byte != 0xE0 && byte != 0xF0

def Decoder.next (d : Decoder) : KbInput → Decoder
  | .turn => { d with told := .turn :: d.told }
  | .byte byte =>
    if byte = 0xF0 then { d with release := true }
    else if !isScancode byte || !d.release && held (movesOf d.told) byte then d
    else { release := false, told := .move ⟨byte, !d.release⟩ :: d.told }

def decode (inputs : List KbInput) : Decoder := inputs.foldl Decoder.next ⟨false, []⟩

/-- The flags that a key stands for. -/
def modifierFlags (key : UInt8) : UInt8 :=
  if key = 0x0E ∨ key = 0x0F then inputShiftFlag
  else if key = 0x17 then inputAltFlag
  else if key = 0x18 then inputAltFlag ||| inputControlFlag
  else if key = 0x15 ∨ key = 0x1B then inputControlFlag
  else 0

/-- What `input.c` keeps one bit for. -/
inductive KbBit where
  | shift
  | control
  | alt
  | key (k : UInt8)
  deriving DecidableEq, Repr

/-- The bit is for the key. -/
def KbBit.ofKey : KbBit → UInt8 → Bool
  | .shift, code => modifierFlags code &&& inputShiftFlag != 0
  | .control, code => modifierFlags code &&& inputControlFlag != 0
  | .alt, code => modifierFlags code &&& inputAltFlag != 0
  | .key k, code => modifierFlags code == 0 && code == k

/-- The bit is for the scan code. -/
def KbBit.of (bit : KbBit) (scancode : UInt8) : Bool := bit.ofKey (translate scancode)

/-- The bit as it should be after these moves, the last of a scan code it is for. -/
def KbBit.told (bit : KbBit) (told : List Told) : Bool := latest bit.of (movesOf told)

def Kb.bit (s : Kb) : KbBit → Bool
  | .shift => s.inputFlags &&& inputShiftFlag != 0
  | .control => s.inputFlags &&& inputControlFlag != 0
  | .alt => s.inputFlags &&& inputAltFlag != 0
  | .key k => s.pressedKeys k

def flagsOf (shift control alt : Bool) : UInt8 :=
  (if shift then inputShiftFlag else 0) ||| (if control then inputControlFlag else 0) ||| (if alt then inputAltFlag else 0)

def flagsTold (told : List Told) : UInt8 :=
  flagsOf (KbBit.shift.told told) (KbBit.control.told told) (KbBit.alt.told told)

/-- The turns since a key that is no modifier went down or up. -/
def quietTurns : List Told → Nat
  | [] => 0
  | .turn :: told => quietTurns told + 1
  | .move m :: told => if modifierFlags (translate m.key) = 0 then 0 else quietTurns told

/-- The strikes of keys, with the modifiers, the first one first: a key that is no
modifier goes down; and from the tenth quiet turn on every key that is down strikes
again at each. -/
def strikes : List Told → List KeyEvent
  | [] => []
  | .turn :: told =>
    strikes told ++
      if int32 (quietTurns told + 1) < 10 then []
      else (allKeys.filter fun k => (KbBit.key k).told told).map fun k => (flagsTold told, k)
  | .move m :: told =>
    let key := translate m.key
    strikes told ++
      if m.down && modifierFlags key == 0 && !(KbBit.key key).told told then [(flagsTold told, key)] else []

/-- What is done with a strike after the ones before: the state is `sysrq`. -/
def answer (before : Bool × List KeyAct) (e : KeyEvent) : Bool × List KeyAct :=
  if before.1 then (false, before.2 ++ [.sysrq e.2])
  else if e.2 = 0x75 && chordHeld e.1 then (true, before.2)
  else if 0x6A ≤ e.2 && e.2 ≤ 0x71 && chordHeld e.1 then (false, before.2 ++ [.funckey e.2])
  else (false, before.2 ++ [.queue e])

def answers (events : List KeyEvent) : Bool × List KeyAct := events.foldl answer (false, [])

theorem modifierFlags_cases (key : UInt8) : modifierFlags key ∈ [0, 1, 2, 4, 6] := by
  unfold modifierFlags
  split_ifs <;> decide

/-! ## `append_key_event` -/

section
variable (s : Kb) (key : UInt8)

/-- `append_key_event` changes `sysrq` only, and does what is done with the strike. -/
theorem Kb.appendKeyEvent_eq :
    s.appendKeyEvent key =
      { s with sysrq := (answer (s.sysrq, s.acts) (s.inputFlags, key)).1
               acts := (answer (s.sysrq, s.acts) (s.inputFlags, key)).2 } := by
  unfold Kb.appendKeyEvent answer
  split
  · rfl
  · next hsysrq =>
    have hoff : s.sysrq = false := by simpa using hsysrq
    split
    · rfl
    · split
      · rw [← hoff]
      · rw [← hoff]

theorem Kb.inputKbPress_eq :
    s.inputKbPress key =
      if modifierFlags key = 0 then
        let struck := (if s.pressedKeys key then [] else [(s.inputFlags, key)]).foldl answer (s.sysrq, s.acts)
        { s with sysrq := struck.1
                 acts := struck.2
                 prscnt := 0
                 pressedKeys := Function.update s.pressedKeys key true }
      else { s with inputFlags := s.inputFlags ||| modifierFlags key } := by
  by_cases hkey : s.pressedKeys key = true <;>
    unfold Kb.inputKbPress modifierFlags <;>
    split_ifs <;> simp_all [inputShiftFlag, inputAltFlag, inputControlFlag, Kb.appendKeyEvent_eq]

theorem Kb.inputKbRelease_eq :
    s.inputKbRelease key =
      if modifierFlags key = 0 then { s with prscnt := 0, pressedKeys := Function.update s.pressedKeys key false }
      else { s with inputFlags := s.inputFlags &&& ~~~modifierFlags key } := by
  unfold Kb.inputKbRelease modifierFlags
  split_ifs <;> simp_all [inputShiftFlag, inputAltFlag, inputControlFlag]

end

theorem Kb.appendPressed_eq (s : Kb) (keys : List UInt8) :
    s.appendPressed keys =
      { s with sysrq := (((keys.filter s.pressedKeys).map fun k => (s.inputFlags, k)).foldl answer (s.sysrq, s.acts)).1
               acts := (((keys.filter s.pressedKeys).map fun k => (s.inputFlags, k)).foldl answer (s.sysrq, s.acts)).2 } := by
  induction keys generalizing s with
  | nil => rfl
  | cons key keys ih =>
    rw [Kb.appendPressed, ih]
    by_cases hkey : s.pressedKeys key = true
    · rw [if_pos hkey, Kb.appendKeyEvent_eq, List.filter_cons_of_pos hkey]
      rfl
    · rw [if_neg hkey, List.filter_cons_of_neg hkey]

/-! ## One move -/

theorem KbBit.told_move (bit : KbBit) (m : Move UInt8) (told : List Told) :
    bit.told (.move m :: told) = if bit.of m.key then m.down else bit.told told := rfl

theorem KbBit.told_turn (bit : KbBit) (told : List Told) : bit.told (.turn :: told) = bit.told told := rfl

/-- Setting or clearing the flags of a key is the same as setting or clearing the bits it is for. -/
theorem flagsOf_move (flags : UInt8) (hflags : flags ∈ [(0 : UInt8), 1, 2, 4, 6]) (down shift control alt : Bool) :
    (if down then flagsOf shift control alt ||| flags else flagsOf shift control alt &&& ~~~flags) =
      flagsOf (if flags &&& inputShiftFlag != 0 then down else shift)
        (if flags &&& inputControlFlag != 0 then down else control)
        (if flags &&& inputAltFlag != 0 then down else alt) := by
  simp only [List.mem_cons, List.not_mem_nil, or_false] at hflags
  obtain rfl | rfl | rfl | rfl | rfl := hflags <;> cases down <;> cases shift <;> cases control <;> cases alt <;> rfl

theorem flagsTold_move (m : Move UInt8) (told : List Told) :
    flagsTold (.move m :: told) =
      if m.down then flagsTold told ||| modifierFlags (translate m.key)
      else flagsTold told &&& ~~~modifierFlags (translate m.key) :=
  (flagsOf_move _ (modifierFlags_cases _) m.down _ _ _).symm

theorem flagsTold_turn (told : List Told) : flagsTold (.turn :: told) = flagsTold told := rfl

theorem KbBit.key_modifier {m : Move UInt8} (hm : modifierFlags (translate m.key) ≠ 0) (k : UInt8) (told : List Told) :
    (KbBit.key k).told (.move m :: told) = (KbBit.key k).told told := by
  rw [KbBit.told_move, if_neg]
  simp [KbBit.of, KbBit.ofKey, hm]

theorem KbBit.key_plain {m : Move UInt8} (hm : modifierFlags (translate m.key) = 0) (told : List Told) :
    (fun k => (KbBit.key k).told (.move m :: told)) =
      Function.update (fun k => (KbBit.key k).told told) (translate m.key) m.down := by
  funext k
  rw [KbBit.told_move]
  by_cases hk : k = translate m.key
  · subst hk
    simp [KbBit.of, KbBit.ofKey, hm]
  · rw [Function.update_of_ne hk]
    simp [KbBit.of, KbBit.ofKey, Ne.symm hk]

theorem held_moves (m : Move UInt8) (told : List Told) :
    held (movesOf (.move m :: told)) = Function.update (held (movesOf told)) m.key m.down := by
  funext k
  show held (m :: movesOf told) k = _
  by_cases hk : k = m.key
  · subst hk
    rw [held_self, Function.update_self]
  · rw [held_other (Ne.symm hk), Function.update_of_ne hk]

/-! ## A run -/

/-- The variables are those of what was told. -/
structure Kb.Follows (s : Kb) (d : Decoder) : Prop where
  release : s.release = d.release
  pressed : s.pressed = held (movesOf d.told)
  keys : s.pressedKeys = fun k => (KbBit.key k).told d.told
  flags : s.inputFlags = flagsTold d.told
  prscnt : s.prscnt = u32 (quietTurns d.told)
  acts : (s.sysrq, s.acts) = answers (strikes d.told)

theorem int32_u32 (n : Nat) : int32 (u32 n) = int32 n := by
  unfold int32 u32
  rw [Nat.mod_mod]

theorem answers_append (events more : List KeyEvent) : answers (events ++ more) = more.foldl answer (answers events) :=
  List.foldl_append

theorem kbBoot_follows : kbBoot.Follows ⟨false, []⟩ := ⟨rfl, rfl, rfl, rfl, rfl, rfl⟩

theorem strikes_up (scancode : UInt8) (told : List Told) : strikes (.move ⟨scancode, false⟩ :: told) = strikes told := by
  simp [strikes]

theorem strikes_modifier {m : Move UInt8} (hm : modifierFlags (translate m.key) ≠ 0) (told : List Told) :
    strikes (.move m :: told) = strikes told := by
  simp [strikes, hm]

theorem strikes_plain {scancode : UInt8} (hm : modifierFlags (translate scancode) = 0) (told : List Told) :
    strikes (.move ⟨scancode, true⟩ :: told) =
      strikes told ++
        if (KbBit.key (translate scancode)).told told then [] else [(flagsTold told, translate scancode)] := by
  by_cases hkey : (KbBit.key (translate scancode)).told told = true <;> simp [strikes, hm, hkey]

theorem quietTurns_move (m : Move UInt8) (told : List Told) :
    quietTurns (.move m :: told) = if modifierFlags (translate m.key) = 0 then 0 else quietTurns told := rfl

theorem Kb.Follows.down {s : Kb} {d : Decoder} (h : s.Follows d) (hrelease : d.release = false) (scancode : UInt8) :
    ({ s with pressed := Function.update s.pressed scancode true }.inputKbPress (translate scancode)).Follows
      ⟨false, .move ⟨scancode, true⟩ :: d.told⟩ := by
  have hpressed : Function.update s.pressed scancode true = held (movesOf (.move ⟨scancode, true⟩ :: d.told)) := by
    rw [h.pressed, held_moves]
  have hflags : flagsTold (.move ⟨scancode, true⟩ :: d.told) = s.inputFlags ||| modifierFlags (translate scancode) := by
    rw [flagsTold_move, if_pos rfl, h.flags]
  rw [Kb.inputKbPress_eq]
  by_cases hm : modifierFlags (translate scancode) = 0
  · rw [if_pos hm]
    refine ⟨h.release.trans hrelease, hpressed, ?_, ?_, ?_, ?_⟩
    · rw [KbBit.key_plain (m := ⟨scancode, true⟩) hm, ← h.keys]
    · rw [hflags, hm, UInt8.or_zero]
    · rw [quietTurns_move, if_pos hm]
      rfl
    · rw [strikes_plain hm, answers_append, ← h.acts, ← h.flags, ← congrFun h.keys]
  · rw [if_neg hm]
    refine ⟨h.release.trans hrelease, hpressed, ?_, hflags.symm, ?_, ?_⟩
    · funext k
      rw [KbBit.key_modifier (m := ⟨scancode, true⟩) hm]
      exact congrFun h.keys k
    · rw [quietTurns_move, if_neg hm]
      exact h.prscnt
    · rw [strikes_modifier (m := ⟨scancode, true⟩) hm]
      exact h.acts

theorem Kb.Follows.up {s : Kb} {d : Decoder} (h : s.Follows d) (scancode : UInt8) :
    Kb.Follows
      { { s with pressed := Function.update s.pressed scancode false }.inputKbRelease (translate scancode) with
        release := false }
      ⟨false, .move ⟨scancode, false⟩ :: d.told⟩ := by
  have hpressed : Function.update s.pressed scancode false = held (movesOf (.move ⟨scancode, false⟩ :: d.told)) := by
    rw [h.pressed, held_moves]
  have hflags : flagsTold (.move ⟨scancode, false⟩ :: d.told) = s.inputFlags &&& ~~~modifierFlags (translate scancode) := by
    rw [flagsTold_move, if_neg Bool.false_ne_true, h.flags]
  have hacts := h.acts
  rw [← strikes_up scancode] at hacts
  rw [Kb.inputKbRelease_eq]
  by_cases hm : modifierFlags (translate scancode) = 0
  · rw [if_pos hm]
    refine ⟨rfl, hpressed, ?_, ?_, ?_, hacts⟩
    · rw [KbBit.key_plain (m := ⟨scancode, false⟩) hm, ← h.keys]
    · rw [hflags, hm]
      simp
    · rw [quietTurns_move, if_pos hm]
      rfl
  · rw [if_neg hm]
    refine ⟨rfl, hpressed, ?_, hflags.symm, ?_, hacts⟩
    · funext k
      rw [KbBit.key_modifier (m := ⟨scancode, false⟩) hm]
      exact congrFun h.keys k
    · rw [quietTurns_move, if_neg hm]
      exact h.prscnt

theorem strikes_turn (told : List Told) :
    strikes (.turn :: told) =
      strikes told ++
        if int32 (quietTurns told + 1) < 10 then []
        else (allKeys.filter fun k => (KbBit.key k).told told).map fun k => (flagsTold told, k) := rfl

theorem quietTurns_turn (told : List Told) : quietTurns (.turn :: told) = quietTurns told + 1 := rfl

theorem Kb.Follows.turn {s : Kb} {d : Decoder} (h : s.Follows d) :
    s.inputLoop.Follows { d with told := .turn :: d.told } := by
  have hcount : u32 (s.prscnt + 1) = u32 (quietTurns d.told + 1) := by
    rw [h.prscnt]
    unfold u32
    rw [Nat.mod_add_mod]
  have hacts : answers (strikes (.turn :: d.told)) =
      if int32 (quietTurns d.told + 1) < 10 then (s.sysrq, s.acts)
      else ((allKeys.filter s.pressedKeys).map fun k => (s.inputFlags, k)).foldl answer (s.sysrq, s.acts) := by
    rw [strikes_turn, answers_append, ← h.acts, ← h.keys, ← h.flags]
    split <;> rfl
  unfold Kb.inputLoop
  dsimp only
  rw [hcount, int32_u32]
  split
  · next hfew =>
    rw [if_pos hfew] at hacts
    exact ⟨h.release, h.pressed, h.keys, h.flags, rfl, hacts.symm⟩
  · next hmany =>
    rw [if_neg hmany] at hacts
    rw [Kb.appendPressed_eq]
    exact ⟨h.release, h.pressed, h.keys, h.flags, rfl, hacts.symm⟩

theorem Decoder.next_scancode {byte : UInt8} (hcode : isScancode byte = true) (d : Decoder) :
    d.next (.byte byte) =
      if !d.release && held (movesOf d.told) byte then d
      else { release := false, told := .move ⟨byte, !d.release⟩ :: d.told } := by
  have hF0 : byte ≠ 0xF0 := by
    rintro rfl
    exact absurd hcode (by decide)
  simp only [Decoder.next, if_neg hF0, hcode, Bool.not_true, Bool.false_or]

theorem Kb.Follows.byte {s : Kb} {d : Decoder} (h : s.Follows d) (byte : UInt8) :
    (s.ps2kbIrq byte).Follows (d.next (.byte byte)) := by
  have hpressed := congrFun h.pressed byte
  unfold Kb.ps2kbIrq
  split
  · next hFA =>
    have hnext : d.next (.byte byte) = d := by
      have hF0 : byte ≠ 0xF0 := by
        rintro rfl
        exact absurd hFA (by decide)
      simp [Decoder.next, isScancode, hF0, hFA]
    rw [hnext]
    exact { h with }
  · next hFA =>
    have hlt : byte < 0xFA := by simpa using hFA
    split
    · next hE0 =>
      subst hE0
      exact h
    · next hE0 =>
      split
      · next hF0 =>
        subst hF0
        exact { h with release := rfl }
      · next hF0 =>
        have hcode : isScancode byte = true := by simp [isScancode, hlt, hE0, hF0]
        rw [Decoder.next_scancode hcode]
        split
        · next hrelease =>
          have hd : d.release = true := h.release ▸ hrelease
          rw [hd]
          exact h.up byte
        · next hrelease =>
          have hd : d.release = false := by rw [← h.release, Bool.eq_false_iff]; exact hrelease
          rw [hd, hpressed]
          cases hheld : held (movesOf d.told) byte with
          | true => exact h
          | false => exact h.down hd byte

theorem Kb.Follows.next {s : Kb} {d : Decoder} (h : s.Follows d) (input : KbInput) :
    (kbInput s input).Follows (d.next input) := by
  cases input with
  | byte byte => exact h.byte byte
  | turn => exact h.turn

theorem kbRun_append (inputs : List KbInput) (input : KbInput) :
    kbRun (inputs ++ [input]) = kbInput (kbRun inputs) input := by
  rw [kbRun, List.foldl_append]
  rfl

theorem decode_append (inputs : List KbInput) (input : KbInput) :
    decode (inputs ++ [input]) = (decode inputs).next input := by
  rw [decode, List.foldl_append]
  rfl

theorem kbRun_follows (inputs : List KbInput) : (kbRun inputs).Follows (decode inputs) := by
  induction inputs using List.reverseRecOn with
  | nil => exact kbBoot_follows
  | append_singleton inputs input ih =>
    rw [kbRun_append, decode_append]
    exact ih.next input

theorem flagsOf_bits : ∀ shift control alt : Bool,
    (flagsOf shift control alt &&& inputShiftFlag != 0) = shift ∧
      (flagsOf shift control alt &&& inputControlFlag != 0) = control ∧
      (flagsOf shift control alt &&& inputAltFlag != 0) = alt := by
  decide

theorem Kb.Follows.bit {s : Kb} {d : Decoder} (h : s.Follows d) (bit : KbBit) : s.bit bit = bit.told d.told := by
  obtain ⟨hshift, hcontrol, halt⟩ :=
    flagsOf_bits (KbBit.shift.told d.told) (KbBit.control.told d.told) (KbBit.alt.told d.told)
  cases bit with
  | shift => rw [Kb.bit, h.flags, flagsTold, hshift]
  | control => rw [Kb.bit, h.flags, flagsTold, hcontrol]
  | alt => rw [Kb.bit, h.flags, flagsTold, halt]
  | key k => exact congrFun h.keys k

/-- **The keyboard follows the keys.** After any bytes and turns, a scan code is pressed
if its key is held, a key of `input.c` is down or up and each flag set or clear as the
latest move of the scan codes it is for, and everything queued or given to `sys_funckey`
and `sys_sysrq` is what is done with the strikes, in their order. -/
theorem kb_follows_keys (inputs : List KbInput) :
    (kbRun inputs).pressed = held (movesOf (decode inputs).told) ∧
      (∀ bit, (kbRun inputs).bit bit = bit.told (decode inputs).told) ∧
      (kbRun inputs).prscnt = u32 (quietTurns (decode inputs).told) ∧
      ((kbRun inputs).sysrq, (kbRun inputs).acts) = answers (strikes (decode inputs).told) :=
  have h := kbRun_follows inputs
  ⟨h.pressed, h.bit, h.prscnt, h.acts⟩

/-- Control, Alt and F12, then S with its repeats; then A, held for eleven turns. -/
example : (kbRun ([.byte 0x14, .byte 0x11, .byte 0x07, .byte 0x1B, .byte 0x1B, .byte 0xF0, .byte 0x14, .byte 0xF0,
    .byte 0x11, .byte 0xF0, .byte 0x1B, .byte 0xF0, .byte 0x07, .byte 0x1C] ++ List.replicate 11 .turn)).acts =
    [.sysrq 0x53, .queue (0, 0x41), .queue (0, 0x41), .queue (0, 0x41)] := by
  decide +kernel

/-! ## When a bit is right -/

/-- The input is the release of a scan code the bit is for, while another one is pressed. -/
def Kb.Crosses (s : Kb) (bit : KbBit) : KbInput → Prop
  | .byte byte =>
    isScancode byte = true ∧ s.release = true ∧ bit.of byte = true ∧ ∃ sc, sc ≠ byte ∧ bit.of sc = true ∧ s.pressed sc = true
  | .turn => False

/-- The bit tells whether a key it is for is held. -/
def Kb.Right (s : Kb) (bit : KbBit) : Prop := s.bit bit = true ↔ ∃ sc, bit.of sc = true ∧ s.pressed sc = true

theorem movesOf_next (d : Decoder) (input : KbInput) :
    movesOf (d.next input).told = movesOf d.told ∨
      ∃ byte, input = .byte byte ∧ isScancode byte = true ∧
        movesOf (d.next input).told = ⟨byte, !d.release⟩ :: movesOf d.told := by
  cases input with
  | turn => exact .inl rfl
  | byte byte =>
    by_cases hcode : isScancode byte = true
    · rw [Decoder.next_scancode hcode]
      split
      · exact .inl rfl
      · exact .inr ⟨byte, rfl, hcode, rfl⟩
    · by_cases hF0 : byte = 0xF0
      · subst hF0
        exact .inl rfl
      · exact .inl (by simp [Decoder.next, hF0, hcode])

theorem Kb.Follows.right_iff {s : Kb} {d : Decoder} (h : s.Follows d) (bit : KbBit) :
    s.Right bit ↔
      (latest bit.of (movesOf d.told) = true ↔ ∃ sc, bit.of sc = true ∧ held (movesOf d.told) sc = true) := by
  unfold Kb.Right
  rw [h.bit, h.pressed]
  rfl

/-- A bit that was right is right after an input if and only if that does not cross. -/
theorem Kb.Follows.right_next {s : Kb} {d : Decoder} (h : s.Follows d) {bit : KbBit} (hright : s.Right bit)
    (input : KbInput) : (kbInput s input).Right bit ↔ ¬ s.Crosses bit input := by
  have hbefore := (h.right_iff bit).mp hright
  rw [(h.next input).right_iff bit]
  obtain hsame | ⟨byte, rfl, hcode, hmove⟩ := movesOf_next d input
  · rw [hsame]
    refine iff_of_true hbefore fun hcross => ?_
    -- A release is a move.
    cases input with
    | turn => exact hcross
    | byte byte =>
      obtain ⟨hcode, hrelease, -⟩ := hcross
      rw [Decoder.next_scancode hcode, ← h.release, hrelease] at hsame
      exact List.cons_ne_self _ _ hsame
  · have hcross : s.Crosses bit (.byte byte) ↔ Crossing bit.of (movesOf (d.next (.byte byte)).told) := by
      rw [hmove]
      simp only [Kb.Crosses, Crossing, hcode, h.release, h.pressed, true_and, Bool.not_eq_false']
      tauto
    rw [hcross]
    constructor
    · intro hafter hcross
      obtain ⟨hlost, hheld⟩ := hcross.lost
      rw [hafter.mpr hheld] at hlost
      cases hlost
    · intro hno
      rw [hmove] at hno ⊢
      exact held_latest_cons hno hbefore

theorem kbBoot_right (bit : KbBit) : kbBoot.Right bit := by
  refine iff_of_false ?_ fun ⟨_, _, hpressed⟩ => Bool.false_ne_true hpressed
  cases bit with
  | shift | control | alt => decide
  | key k => exact Bool.false_ne_true

/-- **One bit for several keys.** The bit of a modifier or of a key tells in every state
of a run whether a key it is for is held if and only if no such key is released while
another one is held; and where it is set it is never wrong. -/
theorem kb_bits_right (bit : KbBit) (inputs : List KbInput) :
    ((∀ n, n ≤ inputs.length → (kbRun (inputs.take n)).Right bit) ↔
        ∀ n (hn : n < inputs.length), ¬ (kbRun (inputs.take n)).Crosses bit inputs[n]) ∧
      ((kbRun inputs).bit bit = true → ∃ sc, bit.of sc = true ∧ (kbRun inputs).pressed sc = true) := by
  refine ⟨⟨fun hright n hn => ?_, fun hno n => ?_⟩, fun hset => ?_⟩
  · have hafter := hright (n + 1) hn
    rw [List.take_succ_eq_append_getElem hn, kbRun_append] at hafter
    exact ((kbRun_follows _).right_next (hright n (Nat.le_of_lt hn)) _).mp hafter
  · induction n with
    | zero => exact fun _ => kbBoot_right bit
    | succ n ih =>
      intro hn
      rw [List.take_succ_eq_append_getElem hn, kbRun_append]
      exact ((kbRun_follows _).right_next (ih (Nat.le_of_lt hn)) _).mpr (hno n hn)
  · have h := kbRun_follows inputs
    rw [h.bit] at hset
    obtain ⟨sc, hof, hheld⟩ := held_of_latest hset
    exact ⟨sc, hof, by rw [h.pressed]; exact hheld⟩

/-- The Escape key is translated to the key 0x1B, one of Control: Control is held, and
Escape, which goes down and up, clears its flag. -/
example : ¬ (kbRun [.byte 0x14, .byte 0x76, .byte 0xF0, .byte 0x76]).Right .control := by
  intro hright
  exact absurd (hright.mpr ⟨0x14, by decide, by decide⟩) (by decide)

end Aex.Dev
