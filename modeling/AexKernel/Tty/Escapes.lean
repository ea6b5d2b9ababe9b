import AexKernel.Tty.Bounds

/- The arrays of the escape-sequence machine (`ttyk.c`): `buffer` of `_tty_write`,
   which is kept between the calls and shared by all terminals, and `arg_buf` and
   `args` of `interpret_ansi`.

   Each access is recorded with its index, also one behind the end of its array;
   what is recorded after such a one is what the code does with arrays that are long
   enough. -/
namespace Aex.Screen

/-- An access to one of the arrays. -/
inductive ArrayAccess where
  | buffer (i : Nat)
  | argBuf (i : Nat)
  | args (i : Nat)
  deriving DecidableEq, Repr

/-- It is in its array. -/
def ArrayAccess.InBounds : ArrayAccess → Prop
  | buffer i => i < 24
  | argBuf i => i < 8
  | args i => i < 6

instance (a : ArrayAccess) : Decidable a.InBounds :=
  match a with
  | .buffer i => inferInstanceAs (Decidable (i < 24))
  | .argBuf i => inferInstanceAs (Decidable (i < 8))
  | .args i => inferInstanceAs (Decidable (i < 6))

/-- What separates arguments. -/
def separates (c : UInt8) : Bool := decide (58 ≤ c) && decide (c ≤ 63)

/-- The accesses of `atoi`, to what is in `arg_buf` and a `NUL` behind it. -/
def atoiAccesses (run : List UInt8) : List ArrayAccess :=
  (List.range ((run.takeWhile (· ≠ 0)).length + 1)).map .argBuf

/-- The loop of `interpret_ansi` with `n` turns left: `run` is what is in `arg_buf`
up to `ptr`. -/
def interpretLoop (buffer : Nat → UInt8) (offset : Nat) : Nat → Nat → List UInt8 → Nat → List ArrayAccess
  | 0, _, _, _ => []
  | n + 1, i, run, arg =>
    let c := buffer i
    .buffer i ::
      if separates c = true ∨ i = offset then
        if run = [] then interpretLoop buffer offset n (i + 1) [] arg
        else .argBuf run.length :: atoiAccesses run ++ .args arg :: interpretLoop buffer offset n (i + 1) [] (arg + 1)
      else .argBuf run.length :: interpretLoop buffer offset n (i + 1) (run ++ [c]) arg

/-- What the `switch` of `interpret_ansi` reads. -/
def finalAccesses (final : UInt8) : List ArrayAccess :=
  if final = 109 ∨ final = 74 then [.args 0] else if final = 72 then [.args 0, .args 1] else []

/-- The accesses of `interpret_ansi`. -/
def interpretAccesses (buffer : Nat → UInt8) (offset : Nat) : List ArrayAccess :=
  .buffer 0 :: .buffer offset :: (List.range 6).map .args ++ interpretLoop buffer offset offset 1 [] 0 ++
    finalAccesses (buffer offset)

/-- `state`, `offset` and `buffer` of `_tty_write`. -/
structure EscapeMachine where
  state : Nat
  offset : Nat
  buffer : Nat → UInt8

/-- They are static, and zeros at boot. -/
def escapeStart : EscapeMachine where
  state := 0
  offset := 0
  buffer := fun _ => 0

/-- `buffer[offset++] = c`. -/
def EscapeMachine.push (m : EscapeMachine) (c : UInt8) : EscapeMachine :=
  { m with buffer := Function.update m.buffer m.offset c, offset := m.offset + 1 }

/-- `_tty_write`, less what it does to the terminal: the machine and the accesses. -/
def EscapeMachine.byte (m : EscapeMachine) (c : UInt8) : EscapeMachine × List ArrayAccess :=
  match m.state with
  | 0 => (if c = 27 then { m with state := 1 } else m, [])
  | 1 => if 64 ≤ c ∧ c ≤ 95 then ({ m.push c with state := 2 }, [.buffer m.offset]) else ({ m with state := 0 }, [])
  | 2 =>
    let pushed := m.push c
    if 64 ≤ c ∧ c ≤ 126 then
      ({ pushed with state := 0, offset := 0 }, .buffer m.offset :: interpretAccesses pushed.buffer (pushed.offset - 1))
    else if 22 < pushed.offset then ({ pushed with state := 0, offset := 0 }, [.buffer m.offset])
    else (pushed, [.buffer m.offset])
  | _ => (m, [])

/-- The loop of `ttyk_write`. -/
def EscapeMachine.bytes (m : EscapeMachine) : List UInt8 → EscapeMachine × List ArrayAccess
  | [] => (m, [])
  | c :: cs => (((m.byte c).1.bytes cs).1, (m.byte c).2 ++ ((m.byte c).1.bytes cs).2)

/-- Calls of `ttyk_write` for any terminals: all their accesses. -/
def EscapeMachine.calls (m : EscapeMachine) : List (Vid × List UInt8) → List ArrayAccess
  | [] => []
  | call :: calls => (m.bytes call.2).2 ++ (m.bytes call.2).1.calls calls

/-! ## The arguments of a sequence -/

/-- What stands between the separators of a sequence, behind its first byte and before
its last. -/
def arguments (sequence : List UInt8) : List (List UInt8) := sequence.tail.dropLast.splitOnP separates

/-- At most seven bytes each, and at most six, less those there are already, that are
not empty. -/
def ShortFrom (arg : Nat) (parts : List (List UInt8)) : Prop :=
  (∀ part ∈ parts, part.length ≤ 7) ∧ parts.countP (· ≠ []) ≤ 6 - arg

instance (arg : Nat) (parts : List (List UInt8)) : Decidable (ShortFrom arg parts) := inferInstanceAs (Decidable (_ ∧ _))

/-- The arguments of a sequence fit. -/
def ShortArguments (sequence : List UInt8) : Prop := ShortFrom 0 (arguments sequence)

instance (sequence : List UInt8) : Decidable (ShortArguments sequence) :=
  inferInstanceAs (Decidable (ShortFrom 0 (arguments sequence)))

@[simp] theorem shortFrom_nil_cons (arg : Nat) (parts : List (List UInt8)) :
    ShortFrom arg ([] :: parts) ↔ ShortFrom arg parts := by
  simp [ShortFrom]

theorem shortFrom_cons {run : List UInt8} (hrun : run ≠ []) (arg : Nat) (parts : List (List UInt8)) :
    ShortFrom arg (run :: parts) ↔ run.length ≤ 7 ∧ arg < 6 ∧ ShortFrom (arg + 1) parts := by
  have hcount : (run :: parts).countP (· ≠ []) = parts.countP (· ≠ []) + 1 := by simp [hrun]
  have hleft : parts.countP (· ≠ []) + 1 ≤ 6 - arg ↔ arg < 6 ∧ parts.countP (· ≠ []) ≤ 6 - (arg + 1) := by omega
  rw [ShortFrom, ShortFrom, hcount, List.forall_mem_cons, hleft]
  exact ⟨fun ⟨⟨hlen, hall⟩, harg, h⟩ => ⟨hlen, harg, hall, h⟩, fun ⟨hlen, harg, hall, h⟩ => ⟨⟨hlen, hall⟩, harg, h⟩⟩

/-- The arguments of what is left of a sequence, where `run` has been read of the
first. -/
def argumentsFrom (run rest : List UInt8) : List (List UInt8) :=
  (rest.dropLast.splitOnP separates).modifyHead (run ++ ·)

theorem argumentsFrom_nil (rest : List UInt8) : argumentsFrom [] rest = rest.dropLast.splitOnP separates := by
  simp only [argumentsFrom, List.nil_append]
  exact congrFun List.modifyHead_id _

theorem argumentsFrom_final (run : List UInt8) (c : UInt8) : argumentsFrom run [c] = [run] := by
  simp [argumentsFrom]

theorem argumentsFrom_separator {rest : List UInt8} {c : UInt8} (hrest : rest ≠ []) (hc : separates c = true)
    (run : List UInt8) : argumentsFrom run (c :: rest) = run :: argumentsFrom [] rest := by
  rw [argumentsFrom_nil, argumentsFrom, List.dropLast_cons_of_ne_nil hrest, List.splitOnP_cons_eq_if_modifyHead, if_pos hc,
    List.modifyHead_cons, List.append_nil]

theorem argumentsFrom_byte {rest : List UInt8} {c : UInt8} (hrest : rest ≠ []) (hc : ¬ separates c = true)
    (run : List UInt8) : argumentsFrom run (c :: rest) = argumentsFrom (run ++ [c]) rest := by
  have hfun : (run ++ ·) ∘ List.cons c = ((run ++ [c]) ++ ·) := by
    funext part
    simp
  rw [argumentsFrom, List.dropLast_cons_of_ne_nil hrest, List.splitOnP_cons_eq_if_modifyHead, if_neg hc,
    List.modifyHead_modifyHead, hfun, argumentsFrom]

theorem run_length_le {arg : Nat} {run rest : List UInt8} (h : ShortFrom arg (argumentsFrom run rest)) : run.length ≤ 7 := by
  obtain ⟨first, others, hsplit⟩ := List.exists_cons_of_ne_nil (List.splitOnP_ne_nil separates rest.dropLast)
  have hfirst : run ++ first ∈ argumentsFrom run rest := by
    rw [argumentsFrom, hsplit]
    exact List.mem_cons_self
  have hlen := h.1 _ hfirst
  rw [List.length_append] at hlen
  omega

theorem separates_iff (c : UInt8) : separates c = true ↔ 58 ≤ c ∧ c ≤ 63 := by
  simp [separates]

theorem shortFrom_turn {rest : List UInt8} (c : UInt8) (run : List UInt8) (arg : Nat) :
    ShortFrom arg (argumentsFrom run (c :: rest)) ↔
      if separates c = true ∨ rest = [] then
        if run = [] then rest = [] ∨ ShortFrom arg (argumentsFrom [] rest)
        else run.length ≤ 7 ∧ arg < 6 ∧ (rest = [] ∨ ShortFrom (arg + 1) (argumentsFrom [] rest))
      else run.length ≤ 7 ∧ ShortFrom arg (argumentsFrom (run ++ [c]) rest) := by
  by_cases hlast : rest = []
  · subst hlast
    rw [if_pos (.inr rfl), argumentsFrom_final]
    by_cases hrun : run = []
    · simp [hrun, ShortFrom]
    · rw [if_neg hrun, shortFrom_cons hrun]
      simp [ShortFrom]
  · by_cases hc : separates c = true
    · rw [if_pos (.inl hc), argumentsFrom_separator hlast hc]
      by_cases hrun : run = []
      · simp [hrun, hlast]
      · rw [if_neg hrun, shortFrom_cons hrun]
        simp only [hlast, false_or]
    · rw [if_neg (not_or_intro hc hlast), argumentsFrom_byte hlast hc]
      refine ⟨fun h => ⟨?_, h⟩, And.right⟩
      have hlen := run_length_le h
      rw [List.length_append] at hlen
      omega

theorem ansiArgs_isSome_iff {rest : List UInt8} (run : List UInt8) (args : List Nat) :
    (ansiArgs rest run args).isSome = true ↔ rest = [] ∨ ShortFrom args.length (argumentsFrom run rest) := by
  induction rest generalizing run args with
  | nil => simp [ansiArgs]
  | cons c rest ih =>
    simp only [reduceCtorEq, false_or, shortFrom_turn, ansiArgs, ← separates_iff]
    by_cases hend : separates c = true ∨ rest = []
    · rw [if_pos hend, if_pos hend]
      by_cases hrun : run = []
      · rw [if_pos hrun, if_pos hrun]
        exact ih [] args
      · rw [if_neg hrun, if_neg hrun]
        by_cases hfull : 8 ≤ run.length ∨ 6 ≤ args.length
        · rw [if_pos hfull]
          simp only [Option.isSome_none, Bool.false_eq_true, false_iff]
          omega
        · rw [if_neg hfull, ih, List.length_append, List.length_singleton]
          have hrun' : run.length ≤ 7 := by omega
          have hargs : args.length < 6 := by omega
          simp [hrun', hargs]
    · rw [if_neg hend, if_neg hend, ih]
      have hlast : rest ≠ [] := fun hnil => hend (.inr hnil)
      simp only [hlast, false_or]
      refine ⟨fun h => ⟨?_, h⟩, And.right⟩
      have hlen := run_length_le h
      rw [List.length_append] at hlen
      omega

theorem interpretAnsi_isSome_iff (current : Bool) (t : Tty) (sequence : List UInt8) :
    (interpretAnsi current t sequence).isSome = true ↔ ShortArguments sequence := by
  rw [interpretAnsi, Option.isSome_map, ansiArgs_isSome_iff, ShortArguments, arguments, ← argumentsFrom_nil]
  refine ⟨fun h => h.elim (fun hnil => ?_) id, .inr⟩
  rw [hnil]
  decide

/-- `ttyk_write` goes on exactly if those of all sequences it completes do. -/
theorem ttyBytes_isSome_iff (current : Bool) (p : Parser) (t : Tty) (bytes : List UInt8) :
    (ttyBytes current (p, t) bytes).isSome = true ↔ ∀ sequence ∈ sequences p bytes, ShortArguments sequence := by
  induction bytes generalizing p t with
  | nil => simp [ttyBytes, sequences]
  | cons c bytes ih =>
    rw [ttyBytes, sequences, List.forall_mem_append]
    cases hfed : (p.feed c).2 with
    | none =>
      obtain ⟨t', ht'⟩ : ∃ t', ttyByte current (p, t) c = some ((p.feed c).1, t') := by
        cases p <;> simp [ttyByte, hfed]
      rw [ht', Option.bind_some, ih]
      simp
    | some sequence =>
      have hbyte : ttyByte current (p, t) c = (interpretAnsi current t sequence).map fun t => ((p.feed c).1, t) := by
        cases p <;> simp [ttyByte, hfed]
      have hshort := interpretAnsi_isSome_iff current t sequence
      rw [hbyte]
      cases hinterpret : interpretAnsi current t sequence with
      | none =>
        rw [hinterpret, Option.isSome_none] at hshort
        simp only [Option.map_none, Option.bind_none, Option.isSome_none, Option.toList_some, List.forall_mem_singleton]
        exact ⟨fun h => absurd h Bool.false_ne_true, fun h => absurd (hshort.mpr h.1) Bool.false_ne_true⟩
      | some t' =>
        rw [hinterpret, Option.isSome_some] at hshort
        rw [Option.map_some, Option.bind_some, ih]
        simp [hshort.mp rfl]

theorem atoi_inBounds {run : List UInt8} (hrun : run.length ≤ 7) : ∀ a ∈ atoiAccesses run, a.InBounds := by
  intro a ha
  obtain ⟨i, hi, rfl⟩ := List.mem_map.mp ha
  have hle : (run.takeWhile (· ≠ 0)).length ≤ run.length := (List.takeWhile_prefix _).length_le
  rw [List.mem_range] at hi
  show i < 8
  omega

theorem interpretLoop_inBounds_iff {buffer : Nat → UInt8} {offset n i : Nat} (hoffset : offset + 1 = i + n)
    (hsize : i + n ≤ 24) (run : List UInt8) (arg : Nat) :
    (∀ a ∈ interpretLoop buffer offset n i run arg, a.InBounds) ↔
      n = 0 ∨ ShortFrom arg (argumentsFrom run ((List.range' i n).map buffer)) := by
  induction n generalizing i run arg with
  | zero => simp [interpretLoop]
  | succ n ih =>
    have hi : (ArrayAccess.buffer i).InBounds := by
      show i < 24
      omega
    have hlast : (List.range' (i + 1) n).map buffer = [] ↔ n = 0 := by simp
    have hend : i = offset ↔ n = 0 := by omega
    have hrest := ih (i := i + 1) (by omega) (by omega)
    rw [List.range'_succ, List.map_cons, shortFrom_turn, interpretLoop, List.forall_mem_cons]
    simp only [hi, true_and, Nat.add_eq_zero_iff, Nat.one_ne_zero, and_false, false_or, hlast, hend]
    by_cases hc : separates (buffer i) = true ∨ n = 0
    · rw [if_pos hc, if_pos hc]
      by_cases hrun : run = []
      · rw [if_pos hrun, if_pos hrun]
        exact hrest [] arg
      · rw [if_neg hrun, if_neg hrun, List.cons_append, List.forall_mem_cons, List.forall_mem_append, List.forall_mem_cons, hrest]
        constructor
        · rintro ⟨hlen, -, harg, h⟩
          exact ⟨Nat.le_of_lt_succ hlen, harg, h⟩
        · rintro ⟨hlen, harg, h⟩
          exact ⟨Nat.lt_succ_of_le hlen, atoi_inBounds hlen, harg, h⟩
    · rw [if_neg hc, if_neg hc, List.forall_mem_cons, hrest]
      have hn : n ≠ 0 := fun hzero => hc (.inr hzero)
      simp only [hn, false_or]
      exact and_congr_left fun _ => Nat.lt_succ_iff

/-- The accesses of `interpret_ansi`, for a sequence that fits in `buffer`. -/
theorem interpretAccesses_inBounds_iff {buffer : Nat → UInt8} {offset : Nat} (hpos : 0 < offset) (hsize : offset < 24) :
    (∀ a ∈ interpretAccesses buffer offset, a.InBounds) ↔ ShortArguments ((List.range (offset + 1)).map buffer) := by
  have htail : ((List.range (offset + 1)).map buffer).tail = (List.range' 1 offset).map buffer := by
    rw [List.range_eq_range', List.range'_succ]
    rfl
  have hfirst : (ArrayAccess.buffer 0).InBounds := by decide
  have hlast : (ArrayAccess.buffer offset).InBounds := hsize
  have hcleared : ∀ a ∈ (List.range 6).map ArrayAccess.args, a.InBounds := by
    intro a ha
    obtain ⟨i, hi, rfl⟩ := List.mem_map.mp ha
    exact List.mem_range.mp hi
  have hfinal : ∀ a ∈ finalAccesses (buffer offset), a.InBounds := by
    intro a ha
    have hargs : a = .args 0 ∨ a = .args 1 := by
      rw [finalAccesses] at ha
      split at ha
      · exact .inl (List.mem_singleton.mp ha)
      · split at ha
        · simpa using ha
        · cases ha
    rcases hargs with rfl | rfl
    · show 0 < 6
      decide
    · show 1 < 6
      decide
  rw [ShortArguments, arguments, htail, ← argumentsFrom_nil]
  simp only [interpretAccesses, List.cons_append, List.forall_mem_cons, List.forall_mem_append, hfirst, hlast]
  rw [interpretLoop_inBounds_iff (by omega) (by omega)]
  simp only [true_and, Nat.ne_of_gt hpos, false_or]
  exact ⟨fun h => h.1.2, fun h => ⟨⟨hcleared, h⟩, hfinal⟩⟩

/-! ## The machine -/

/-- The machine stands where the parser does. -/
def EscapeMachine.Shows (m : EscapeMachine) : Parser → Prop
  | .ground => m.state = 0 ∧ m.offset = 0
  | .escape => m.state = 1 ∧ m.offset = 0
  | .sequence bytes => m.state = 2 ∧ 0 < m.offset ∧ m.offset ≤ 22 ∧ bytes = (List.range m.offset).map m.buffer

theorem EscapeMachine.push_bytes (m : EscapeMachine) (c : UInt8) :
    (List.range (m.push c).offset).map (m.push c).buffer = (List.range m.offset).map m.buffer ++ [c] := by
  have hold : (List.range m.offset).map (Function.update m.buffer m.offset c) = (List.range m.offset).map m.buffer := by
    apply List.map_congr_left
    intro i hi
    exact Function.update_of_ne (Nat.ne_of_lt (List.mem_range.mp hi)) ..
  show (List.range (m.offset + 1)).map (Function.update m.buffer m.offset c) = _
  rw [List.range_succ, List.map_append, hold, List.map_singleton, Function.update_self]

/-- A byte takes the machine where it takes the parser, and stays in the arrays unless
it completes a sequence whose arguments are too long. -/
theorem EscapeMachine.Shows.byte {m : EscapeMachine} {p : Parser} (h : m.Shows p) (c : UInt8) :
    (m.byte c).1.Shows (p.feed c).1 ∧
      ((∀ a ∈ (m.byte c).2, a.InBounds) ↔ ∀ sequence ∈ (p.feed c).2, ShortArguments sequence) := by
  cases p with
  | ground =>
    obtain ⟨hstate, hoffset⟩ := h
    by_cases hc : c = 27
    · simp [EscapeMachine.byte, hstate, Parser.feed, hc, EscapeMachine.Shows, hoffset]
    · simp [EscapeMachine.byte, hstate, Parser.feed, hc, EscapeMachine.Shows, hoffset]
  | escape =>
    obtain ⟨hstate, hoffset⟩ := h
    by_cases hc : 64 ≤ c ∧ c ≤ 95
    · have hbytes := m.push_bytes c
      rw [hoffset] at hbytes
      have hin : (ArrayAccess.buffer 0).InBounds := by decide
      simp only [EscapeMachine.byte, hstate, Parser.feed, if_pos hc, EscapeMachine.Shows]
      refine ⟨⟨trivial, ?_, ?_, hbytes.symm⟩, ?_⟩
      · show 0 < m.offset + 1
        omega
      · show m.offset + 1 ≤ 22
        omega
      · simp [hoffset, hin]
    · simp [EscapeMachine.byte, hstate, Parser.feed, hc, EscapeMachine.Shows, hoffset]
  | sequence bytes =>
    obtain ⟨hstate, hpos, hle, rfl⟩ := h
    have hbytes := m.push_bytes c
    have hlen : ((List.range m.offset).map m.buffer ++ [c]).length = m.offset + 1 := by simp
    have hin : (ArrayAccess.buffer m.offset).InBounds := by
      show m.offset < 24
      omega
    by_cases hc : 64 ≤ c ∧ c ≤ 126
    · have hinterpret : (∀ a ∈ interpretAccesses (m.push c).buffer m.offset, a.InBounds) ↔
          ShortArguments ((List.range m.offset).map m.buffer ++ [c]) := by
        rw [← hbytes]
        exact interpretAccesses_inBounds_iff hpos (by omega)
      simp only [EscapeMachine.byte, hstate, Parser.feed, if_pos hc, EscapeMachine.Shows]
      refine ⟨⟨trivial, trivial⟩, ?_⟩
      rw [List.forall_mem_cons]
      simp only [hin, true_and, Option.mem_def, Option.some.injEq, forall_eq']
      exact hinterpret
    · by_cases hfull : 22 < m.offset + 1
      · simp [EscapeMachine.byte, hstate, Parser.feed, hc, EscapeMachine.Shows, EscapeMachine.push, hfull, hin]
      · simp only [EscapeMachine.byte, hstate, Parser.feed, if_neg hc, hlen, EscapeMachine.push, if_neg hfull,
          EscapeMachine.Shows]
        refine ⟨⟨trivial, by omega, by omega, hbytes.symm⟩, ?_⟩
        simp [hin]

theorem EscapeMachine.Shows.bytes {m : EscapeMachine} {p : Parser} (h : m.Shows p) (cs : List UInt8) :
    (∀ a ∈ (m.bytes cs).2, a.InBounds) ↔ ∀ sequence ∈ sequences p cs, ShortArguments sequence := by
  induction cs generalizing m p with
  | nil => simp [EscapeMachine.bytes, sequences]
  | cons c cs ih =>
    obtain ⟨hshows, haccesses⟩ := h.byte c
    rw [EscapeMachine.bytes, sequences, List.forall_mem_append, List.forall_mem_append, ih hshows, haccesses]
    simp only [Option.mem_toList, Option.mem_def]

theorem EscapeMachine.bytes_append (m : EscapeMachine) (cs cs' : List UInt8) :
    (m.bytes (cs ++ cs')).2 = (m.bytes cs).2 ++ ((m.bytes cs).1.bytes cs').2 := by
  induction cs generalizing m with
  | nil => rfl
  | cons c cs ih => rw [List.cons_append, EscapeMachine.bytes, EscapeMachine.bytes, ih, List.append_assoc]

theorem EscapeMachine.calls_eq (m : EscapeMachine) (calls : List (Vid × List UInt8)) :
    m.calls calls = (m.bytes (calls.flatMap Prod.snd)).2 := by
  induction calls generalizing m with
  | nil => rfl
  | cons call calls ih => rw [EscapeMachine.calls, List.flatMap_cons, EscapeMachine.bytes_append, ih]

/-- **All accesses are in bounds exactly if no sequence written has an argument of more
than seven bytes or more than six arguments.** The index into `buffer` always is. -/
theorem ttyk_arrays_in_bounds_iff (calls : List (Vid × List UInt8)) :
    (∀ a ∈ escapeStart.calls calls, a.InBounds) ↔
      ∀ sequence ∈ sequences .ground (calls.flatMap Prod.snd), ShortArguments sequence := by
  have hstart : escapeStart.Shows .ground := ⟨rfl, rfl⟩
  rw [EscapeMachine.calls_eq]
  exact hstart.bytes _

/-- A sequence with an argument of eight digits, in two calls. -/
theorem ttyk_arg_buf_overrun :
    ¬ ∀ a ∈ escapeStart.calls [(0, [27, 91, 49, 50, 51, 52]), (0, [53, 54, 55, 56, 109])], a.InBounds := by
  intro h
  exact absurd (h (.argBuf 8) (by decide)) (Nat.lt_irrefl 8)

end Aex.Screen
