import AexKernel.Fs.Path
import AexKernel.Klist.Klist

/- The names of devices (`dev_name_inc` of `dev/name.c`): the `@` of a pattern stands for a
   letter that goes up with every call. The letter of a pattern is kept on the heap, behind
   an entry of the list `dev_incrementations`, and a call looks for it there.

   What a call answers is a matter of how often there was one for its pattern before
   (`IncrHolds.inc`). The letter is a `char`: the names begin again behind 256 of them. -/
namespace Aex.Dev
open Klist Mem Runs Bindings
open Intrusive (Linked)
open Aex.Fs (CStr cstr)

/-- A pattern; `memcpy` takes eight bytes of it, and the string ends in them. -/
@[ext]
structure Pattern where
  bytes : CStr
  nulFree : ∀ b ∈ bytes, b ≠ 0
  short : bytes.length < 8

instance : DecidableEq Pattern := fun _ _ => decidable_of_iff _ Pattern.ext_iff.symm

/-- `dev_incr_t`. -/
structure DevIncr where
  pattern : Pattern
  c : Nat

/-- `dev_incrementations`, what the pointers in it are to, those from `kmalloc`, and the
buffers in the order they were filled. -/
structure IncrState where
  list : KlistState
  entries : Nat → DevIncr
  made : List Nat
  filled : List CStr

/-- After `dev_init`. -/
def incrStart (memory : KernelAddr → KlistEntry) (entries : Nat → DevIncr) : IncrState where
  list := klistInit memory
  entries := entries
  made := []
  filled := []

/-- The first loop of `dev_name_inc`. -/
def findIncr (s : IncrState) (pattern : Pattern) : Nat → Option KernelAddr → Option (Option Nat)
  | 0, _ => none
  | fuel + 1, klistEntry => match klistIter s.list klistEntry with
    | (_, none) => some none
    | (klistEntry, some entry) =>
      if (s.entries entry).pattern = pattern then some (some entry) else findIncr s pattern fuel klistEntry

/-- What the second loop writes, with the `NUL` behind it. -/
def incName (pattern : Pattern) (c : Nat) : CStr := pattern.bytes.map (fun b => if b = '@'.toNat then c else b) ++ [0]

/-- A call, with the blocks its two `kmalloc` would give. -/
structure IncCall where
  pattern : Pattern
  block : KernelAddr
  entry : Nat

/-- `dev_name_inc`. -/
def devNameInc (call : IncCall) (s : IncrState) : Option (CStr × IncrState) :=
  (findIncr s call.pattern (s.list.live.length + 1) none).bind fun
    | none =>
      (klistSet s.list (BitVec.ofNat 64 (s.list.count + 1)) (some call.entry) call.block).map fun (_, list) =>
        (incName call.pattern 'a'.toNat,
          { s with
            list := list
            entries := Function.update s.entries call.entry { pattern := call.pattern, c := 'a'.toNat }
            made := call.entry :: s.made })
    | some entry =>
      let incr := s.entries entry
      let incr := { incr with c := (incr.c + 1) % 2^8 }
      some (incName call.pattern incr.c, { s with entries := Function.update s.entries entry incr })

/-- A call in a run. -/
def incStep (call : IncCall) (s : IncrState) : Option IncrState :=
  (devNameInc call s).map fun (name, s) => { s with filled := s.filled ++ [name] }

/-- The heap gives no block that is in use. -/
def IncServed (call : IncCall) (s : IncrState) : Prop := call.block ∉ s.list.live ∧ call.entry ∉ s.made

instance (call : IncCall) (s : IncrState) : Decidable (IncServed call s) := inferInstanceAs (Decidable (_ ∧ _))

/-! ## What is kept -/

/-- The letter after so many calls. -/
def letter (calls : Nat) : Nat := ('a'.toNat + (calls - 1)) % 2^8

/-- The list has an entry for each pattern there was a call for, whose letter counts the
calls. -/
structure IncrHolds (calls : List Pattern) (nodes : List KernelAddr) (entries : List Nat) (s : IncrState) : Prop where
  chain : ∃ t, Chain s.list nodes t
  index : nodes.map s.list.index = (List.range' 1 nodes.length).map (BitVec.ofNat 64)
  data : nodes.map s.list.data = entries.map some
  made : s.made.Perm entries
  nodup : entries.Nodup
  distinct : (entries.map fun e => (s.entries e).pattern).Nodup
  patterns : ∀ pattern, pattern ∈ entries.map (fun e => (s.entries e).pattern) ↔ pattern ∈ calls
  letters : ∀ e ∈ entries, (s.entries e).c = letter (calls.count (s.entries e).pattern)

variable {calls : List Pattern} {nodes : List KernelAddr} {entries : List Nat} {s s' : IncrState}

/-- The loop ends at the entry of the pattern, or behind the last one. -/
theorem findIncr_eq (s : IncrState) (pattern : Pattern) : ∀ {nodes : List KernelAddr} {entries : List Nat} {fuel : Nat}
    {klistEntry : Option KernelAddr}, Linked s.list.next (klistIter s.list klistEntry).1 nodes →
    nodes.map s.list.data = entries.map some → nodes.length < fuel →
    findIncr s pattern fuel klistEntry = some (entries.find? fun e => (s.entries e).pattern = pattern) := by
  intro nodes
  induction nodes with
  | nil =>
    intro entries fuel klistEntry h hdata hfuel
    have hnil : entries = [] := by simpa using hdata.symm
    cases fuel with
    | zero => exact absurd hfuel (Nat.not_lt_zero _)
    | succ fuel =>
      rw [findIncr, klistIter_eq h.head, hnil]
      rfl
  | cons n nodes ih =>
    intro entries fuel klistEntry h hdata hfuel
    cases entries with
    | nil => cases hdata
    | cons e entries =>
      obtain ⟨hn, hdata⟩ := List.cons.inj hdata
      have hiter := klistIter_eq h.head
      rw [hiter] at h
      cases fuel with
      | zero => exact absurd hfuel (Nat.not_lt_zero _)
      | succ fuel =>
        have hrest := @ih entries fuel (some n) (Linked.rest h) hdata (Nat.lt_of_succ_lt_succ hfuel)
        rw [findIncr, hiter, List.head?_cons, Option.bind_some, hn, List.find?_cons]
        by_cases heq : (s.entries e).pattern = pattern
        · simp [heq]
        · simp [heq, hrest]

theorem letter_succ (n : Nat) (h : 0 < n) : (letter n + 1) % 2^8 = letter (n + 1) := by
  unfold letter
  omega

/-- The loop looks through all of them. -/
theorem IncrHolds.find (h : IncrHolds calls nodes entries s) (pattern : Pattern) :
    findIncr s pattern (s.list.live.length + 1) none = some (entries.find? fun e => (s.entries e).pattern = pattern) := by
  obtain ⟨t, hchain⟩ := h.chain
  have hfuel : nodes.length < s.list.live.length + 1 := by
    rw [hchain.live.length_eq]
    exact Nat.lt_succ_self _
  exact findIncr_eq s pattern hchain.linked h.data hfuel

/-- A letter goes up. -/
theorem IncrHolds.again (h : IncrHolds calls nodes entries s) {e : Nat} (he : e ∈ entries) {pattern : Pattern}
    (hpattern : (s.entries e).pattern = pattern) :
    IncrHolds (calls ++ [pattern]) nodes entries
      { s with entries := Function.update s.entries e { pattern := pattern, c := letter (calls.count pattern + 1) } } := by
  have hsame : ∀ e', (Function.update s.entries e { pattern := pattern, c := letter (calls.count pattern + 1) } e').pattern =
      (s.entries e').pattern := by
    intro e'
    by_cases heq : e' = e
    · rw [heq, Function.update_self, hpattern]
    · rw [Function.update_of_ne heq]
  refine ⟨h.chain, h.index, h.data, h.made, h.nodup, ?_, fun p => ?_, fun e' he' => ?_⟩
  · simpa only [hsame] using h.distinct
  · have hcalled : pattern ∈ calls := (h.patterns pattern).mp (List.mem_map.mpr ⟨e, he, hpattern⟩)
    simp only [hsame, List.mem_append, List.mem_singleton]
    rw [h.patterns p]
    exact ⟨.inl, fun hor => hor.elim id fun heq => heq ▸ hcalled⟩
  · simp only [hsame]
    by_cases heq : e' = e
    · rw [heq, Function.update_self, hpattern, List.count_append, List.count_singleton_self]
    · have hother : (s.entries e').pattern ≠ pattern := fun hp =>
        heq (List.inj_on_of_nodup_map h.distinct he' he (hp.trans hpattern.symm))
      rw [Function.update_of_ne heq, h.letters e' he', List.count_append, List.count_singleton,
        if_neg (fun hbeq => hother (beq_iff_eq.mp hbeq).symm), Nat.add_zero]

/-- The index a new entry gets is in the list nowhere. -/
theorem IncrHolds.index_new (h : IncrHolds calls nodes entries s) :
    ∀ n ∈ nodes, s.list.index n ≠ BitVec.ofNat 64 (nodes.length + 1) := by
  obtain ⟨t, hchain⟩ := h.chain
  have hlt := hchain.length_lt
  intro n hn heq
  have hmem : s.list.index n ∈ nodes.map s.list.index := List.mem_map_of_mem hn
  rw [h.index, heq] at hmem
  obtain ⟨i, hi, hsame⟩ := List.mem_map.mp hmem
  have hnat := congrArg BitVec.toNat hsame
  rw [BitVec.toNat_ofNat, BitVec.toNat_ofNat] at hnat
  rw [List.mem_range'_1] at hi
  omega

/-- A pattern that is new gets an entry behind the others. -/
theorem IncrHolds.new (h : IncrHolds calls nodes entries s) {call : IncCall} (hserved : IncServed call s)
    (hnew : call.pattern ∉ calls) : ∃ list,
    klistSet s.list (BitVec.ofNat 64 (s.list.count + 1)) (some call.entry) call.block = some (false, list) ∧
    IncrHolds (calls ++ [call.pattern]) (nodes ++ [call.block]) (entries ++ [call.entry])
      { s with
        list := list
        entries := Function.update s.entries call.entry { pattern := call.pattern, c := 'a'.toNat }
        made := call.entry :: s.made } := by
  obtain ⟨t, hchain⟩ := h.chain
  obtain ⟨hblock, hentry⟩ := hserved
  have hentry' : call.entry ∉ entries := fun hin => hentry (h.made.mem_iff.mpr hin)
  have hindex := h.index_new
  rw [hchain.count]
  obtain ⟨list, hset, hchain', hleft⟩ := hchain.insert call.entry hblock hindex
  have hkept : ∀ n ∈ nodes, list.index n = s.list.index n := fun n hn => (hleft.kept n hn (.inl (hindex n hn))).2
  have hunbound : BitVec.ofNat 64 (nodes.length + 1) ∉ t.order := by
    rw [hchain.order]
    exact fun hin => (List.mem_map.mp hin).elim fun n hn => hindex n hn.1 hn.2
  -- the new one is the last
  have hlast : list.index call.block = BitVec.ofNat 64 (nodes.length + 1) := by
    have horder := hchain'.order
    rw [State.set, if_neg hunbound, hchain.order, List.map_append, List.map_congr_left hkept] at horder
    exact (List.singleton_inj.mp (List.append_cancel_left horder)).symm
  have hdata : ∀ n ∈ nodes, list.data n = s.list.data n := by
    intro n hn
    rw [← hchain'.data n (List.mem_append_left _ hn), hkept n hn, State.set_other t (hindex n hn), hchain.data n hn]
  have hdataLast : list.data call.block = some call.entry := by
    rw [← hchain'.data call.block (List.mem_append_right _ List.mem_cons_self), hlast, State.set_self]
  have hother : ∀ e ∈ entries,
      Function.update s.entries call.entry { pattern := call.pattern, c := 'a'.toNat } e = s.entries e :=
    fun e he => Function.update_of_ne (fun heq : e = call.entry => hentry' (heq ▸ he)) _ _
  have hpatterns : (entries ++ [call.entry]).map (fun e =>
      (Function.update s.entries call.entry { pattern := call.pattern, c := 'a'.toNat } e).pattern) =
        entries.map (fun e => (s.entries e).pattern) ++ [call.pattern] := by
    rw [List.map_append, List.map_congr_left fun e he => congrArg DevIncr.pattern (hother e he), List.map_singleton,
      Function.update_self]
  refine ⟨list, hset, ⟨_, hchain'⟩, ?_, ?_, ?_, ?_, ?_, fun p => ?_, fun e he => ?_⟩
  · rw [List.map_append, List.map_congr_left hkept, h.index, List.map_singleton, hlast, List.length_append,
      List.length_singleton, ← List.range'_append_1, List.map_append, Nat.add_comm 1 nodes.length]
    rfl
  · rw [List.map_append, List.map_congr_left hdata, h.data, List.map_singleton, hdataLast, List.map_append,
      List.map_singleton]
  · exact (h.made.cons call.entry).trans (List.perm_append_singleton call.entry entries).symm
  · rw [← List.concat_eq_append]
    exact List.Nodup.concat hentry' h.nodup
  · rw [hpatterns, ← List.concat_eq_append]
    exact List.Nodup.concat (fun hin => hnew ((h.patterns _).mp hin)) h.distinct
  · rw [hpatterns, List.mem_append, List.mem_append, h.patterns p]
  · rcases List.mem_append.mp he with he | he
    · have hne : (s.entries e).pattern ≠ call.pattern := fun heq =>
        hnew ((h.patterns _).mp (List.mem_map.mpr ⟨e, he, heq⟩))
      simp only [hother e he]
      rw [h.letters e he, List.count_append, List.count_singleton, if_neg (fun hbeq => hne (beq_iff_eq.mp hbeq).symm),
        Nat.add_zero]
    · rw [List.mem_singleton.mp he]
      simp only [Function.update_self]
      rw [List.count_append, List.count_eq_zero_of_not_mem hnew, List.count_singleton_self]
      rfl

/-- A call answers the letter of how many there were for its pattern. -/
theorem IncrHolds.inc (h : IncrHolds calls nodes entries s) {call : IncCall} (hserved : IncServed call s) :
    ∃ s' nodes' entries',
      devNameInc call s = some (incName call.pattern (letter (calls.count call.pattern + 1)), s') ∧
      IncrHolds (calls ++ [call.pattern]) nodes' entries' s' ∧ s'.filled = s.filled := by
  have hfind := h.find call.pattern
  unfold devNameInc
  rw [hfind]
  cases hentry : entries.find? fun e => (s.entries e).pattern = call.pattern with
  | none =>
    have hnew : call.pattern ∉ calls := by
      rw [← h.patterns, List.mem_map]
      rintro ⟨e, he, heq⟩
      exact List.find?_eq_none.mp hentry e he (decide_eq_true heq)
    obtain ⟨list, hset, hholds⟩ := h.new hserved hnew
    refine ⟨_, _, _, ?_, hholds, rfl⟩
    rw [Option.bind_some, hset, List.count_eq_zero_of_not_mem hnew]
    rfl
  | some e =>
    have he := List.mem_of_find?_eq_some hentry
    have hpattern : (s.entries e).pattern = call.pattern := by simpa using List.find?_some hentry
    have hcount : 0 < calls.count call.pattern :=
      List.count_pos_iff.mpr ((h.patterns _).mp (List.mem_map.mpr ⟨e, he, hpattern⟩))
    have hc : ((s.entries e).c + 1) % 2^8 = letter (calls.count call.pattern + 1) := by
      rw [h.letters e he, hpattern, letter_succ _ hcount]
    refine ⟨_, nodes, entries, ?_, h.again he hpattern, rfl⟩
    simp only [Option.bind_some, hc, hpattern]

/-! ## Runs -/

/-- The names that calls behind others are answered. -/
def namesAfter (before : List Pattern) : List Pattern → List CStr
  | [] => []
  | pattern :: patterns =>
    incName pattern (letter (before.count pattern + 1)) :: namesAfter (before ++ [pattern]) patterns

theorem namesAfter_getElem? : ∀ (patterns before : List Pattern) (i : Nat), (namesAfter before patterns)[i]? =
    patterns[i]?.map fun pattern => incName pattern (letter ((before ++ patterns.take i).count pattern + 1)) := by
  intro patterns
  induction patterns with
  | nil => exact fun _ _ => rfl
  | cons pattern patterns ih =>
    intro before i
    cases i with
    | zero => simp [namesAfter]
    | succ i => simp [namesAfter, ih, List.append_assoc]

theorem run_names {tr : List IncCall} (hr : Run incStep IncServed s tr s') (h : IncrHolds calls nodes entries s) :
    ∃ nodes' entries', IncrHolds (calls ++ tr.map IncCall.pattern) nodes' entries' s' ∧
      s'.filled = s.filled ++ namesAfter calls (tr.map IncCall.pattern) := by
  induction hr generalizing calls nodes entries with
  | nil s => exact ⟨nodes, entries, by rwa [List.map_nil, List.append_nil], (List.append_nil _).symm⟩
  | @cons s s₁ s' call tr hserved hstep _ ih =>
    obtain ⟨s₂, nodes', entries', hcall, h₂, hfilled⟩ := h.inc hserved
    rw [incStep, hcall] at hstep
    cases hstep
    obtain ⟨nodes'', entries'', h', hnames⟩ :=
      ih ⟨h₂.chain, h₂.index, h₂.data, h₂.made, h₂.nodup, h₂.distinct, h₂.patterns, h₂.letters⟩
    refine ⟨nodes'', entries'', ?_, ?_⟩
    · rwa [List.map_cons, List.append_cons]
    · rw [hnames, List.map_cons, namesAfter, List.append_cons s.filled, ← hfilled]

theorem incrStart_holds (memory : KernelAddr → KlistEntry) (memory' : Nat → DevIncr) :
    IncrHolds [] [] [] (incrStart memory memory') where
  chain := ⟨empty, (klistInit_holds memory).chain⟩
  index := rfl
  data := rfl
  made := .nil
  nodup := .nil
  distinct := .nil
  patterns := fun _ => iff_of_false List.not_mem_nil List.not_mem_nil
  letters := fun _ he => absurd he List.not_mem_nil

/-! ## The names -/

/-- What a buffer says, up to the first `NUL`. -/
def said (buffer : CStr) : CStr := buffer.takeWhile (· ≠ 0)

/-- Where there is an `@`, the letter is told by the name. -/
theorem said_inj {c c' : Nat} : ∀ {bytes : CStr}, (∀ b ∈ bytes, b ≠ 0) → '@'.toNat ∈ bytes →
    said (bytes.map (fun b => if b = '@'.toNat then c else b) ++ [0]) =
      said (bytes.map (fun b => if b = '@'.toNat then c' else b) ++ [0]) → c = c' := by
  intro bytes
  induction bytes with
  | nil => exact fun _ hin => absurd hin List.not_mem_nil
  | cons b bytes ih =>
    intro hnul hin hsaid
    rw [List.map_cons, List.map_cons, List.cons_append, List.cons_append, said, said, List.takeWhile_cons,
      List.takeWhile_cons] at hsaid
    by_cases hb : b = '@'.toNat
    · rw [if_pos hb, if_pos hb] at hsaid
      -- a letter that is NUL ends the name
      by_cases hc : c = 0
      · by_cases hc' : c' = 0
        · rw [hc, hc']
        · simp [hc, hc'] at hsaid
      · by_cases hc' : c' = 0
        · simp [hc, hc'] at hsaid
        · simp only [ne_eq, hc, hc', not_false_eq_true, decide_true, if_true] at hsaid
          exact (List.cons.inj hsaid).1
    · have hrest : '@'.toNat ∈ bytes := (List.mem_cons.mp hin).resolve_left (Ne.symm hb)
      have hb0 : b ≠ 0 := hnul b List.mem_cons_self
      simp only [if_neg hb, ne_eq, hb0, not_false_eq_true, decide_true, if_true] at hsaid
      exact ih (fun b hb => hnul b (List.mem_cons_of_mem _ hb)) hrest (List.cons.inj hsaid).2

theorem letter_eq_iff {n m : Nat} (hle : n ≤ m) : letter (n + 1) = letter (m + 1) ↔ 256 ∣ m - n := by
  unfold letter
  omega

section Run

variable {memory : KernelAddr → KlistEntry} {memory' : Nat → DevIncr} {tr : List IncCall}

/-- The call after `i` others answers the letter of those for its pattern. -/
theorem filled_getElem? (hr : Run incStep IncServed (incrStart memory memory') tr s) (i : Nat) : s.filled[i]? =
    tr[i]?.map fun call =>
      incName call.pattern (letter (((tr.take i).map IncCall.pattern).count call.pattern + 1)) := by
  obtain ⟨_, _, -, hfilled⟩ := run_names hr (incrStart_holds memory memory')
  rw [hfilled, show (incrStart memory memory').filled = [] from rfl, List.nil_append, namesAfter_getElem?,
    List.getElem?_map, Option.map_map, List.nil_append, List.map_take]
  rfl

/-- No call of `dev_name_inc` is stuck, and what it answers is its pattern with the letter of
how many calls there were for the pattern before, whatever others were called for. Two
calls for a pattern with an `@` are answered the same name exactly where a multiple of 256
calls for it lies between them. -/
theorem dev_names (hr : Run incStep IncServed (incrStart memory memory') tr s) :
    (∀ call, IncServed call s → (incStep call s).isSome = true) ∧
      (∀ i, s.filled[i]? = tr[i]?.map fun call =>
        incName call.pattern (letter (((tr.take i).map IncCall.pattern).count call.pattern + 1))) ∧
      ∀ i j pattern name name', i ≤ j → tr[i]?.map IncCall.pattern = some pattern →
        tr[j]?.map IncCall.pattern = some pattern → '@'.toNat ∈ pattern.bytes →
        s.filled[i]? = some name → s.filled[j]? = some name' →
        (said name = said name' ↔ 256 ∣ (((tr.take j).drop i).map IncCall.pattern).count pattern) := by
  refine ⟨fun call hserved => ?_, filled_getElem? hr, ?_⟩
  · obtain ⟨_, _, h, -⟩ := run_names hr (incrStart_holds memory memory')
    obtain ⟨s', _, _, hcall, -⟩ := h.inc hserved
    rw [incStep, hcall]
    rfl
  · intro i j pattern name name' hij hi hj hat hname hname'
    obtain ⟨call, hcall, rfl⟩ := Option.map_eq_some_iff.mp hi
    obtain ⟨call', hcall', hsame⟩ := Option.map_eq_some_iff.mp hj
    rw [filled_getElem? hr, hcall, Option.map_some, Option.some.injEq] at hname
    rw [filled_getElem? hr, hcall', Option.map_some, Option.some.injEq, hsame] at hname'
    have hcount : ((tr.take j).map IncCall.pattern).count call.pattern =
        ((tr.take i).map IncCall.pattern).count call.pattern +
          (((tr.take j).drop i).map IncCall.pattern).count call.pattern := by
      have hsplit := List.take_append_drop i (tr.take j)
      rw [List.take_take, Nat.min_eq_left hij] at hsplit
      rw [← List.count_append, ← List.map_append, hsplit]
    have hle := Nat.le.intro hcount.symm
    rw [← Nat.add_sub_cancel_left (((tr.take i).map IncCall.pattern).count call.pattern)
      ((((tr.take j).drop i).map IncCall.pattern).count call.pattern), ← hcount, ← letter_eq_iff hle, ← hname, ← hname']
    constructor
    · exact fun hsaid => said_inj call.pattern.nulFree hat hsaid
    · intro hletter
      rw [hletter]

end Run

theorem sr_nulFree : ∀ b ∈ cstr "sr@", b ≠ 0 := by decide

theorem sr_short : (cstr "sr@").length < 8 := by decide

def srPattern : Pattern := ⟨cstr "sr@", sr_nulFree, sr_short⟩

theorem sd_nulFree : ∀ b ∈ cstr "sd@", b ≠ 0 := by decide

theorem sd_short : (cstr "sd@").length < 8 := by decide

def sdPattern : Pattern := ⟨cstr "sd@", sd_nulFree, sd_short⟩

/-- Two drives for discs, and another one between them. -/
def driveCalls : List IncCall := [⟨srPattern, 0, 7⟩, ⟨sdPattern, 1, 8⟩, ⟨srPattern, 2, 9⟩]

theorem dev_names_drives : ∃ s,
    Run incStep IncServed (incrStart (fun _ => ⟨0, none, none⟩) fun _ => ⟨srPattern, 0⟩) driveCalls s ∧
      s.filled.map said = [cstr "sra", cstr "sda", cstr "srb"] ∧
      ∀ name name', s.filled[0]? = some name → s.filled[2]? = some name' → said name ≠ said name' := by
  obtain ⟨s, hr, hnames⟩ : ∃ s,
      Run incStep IncServed (incrStart (fun _ => ⟨0, none, none⟩) fun _ => ⟨srPattern, 0⟩) driveCalls s ∧
        s.filled.map said = [cstr "sra", cstr "sda", cstr "srb"] := run_such (by decide +kernel)
  refine ⟨s, hr, hnames, fun name name' hname hname' heq => ?_⟩
  have hdvd := ((dev_names hr).2.2 0 2 srPattern name name' (by decide) rfl rfl (by decide) hname hname').mp heq
  revert hdvd
  decide

end Aex.Dev
