import AexKernel.Lib.Bytes
import AexKernel.Lib.Numerals
import AexKernel.Lib.Strings

/- Numbers and their text (`kernel/string.c`). `itoa` and its family write a numeral:
   the digits come from the lowest up and are turned round in place, and the remainder
   of a negative value is taken from the mirrored half of the dictionary. `atoi` and its
   family read one, in the width of the type they return.

     1. `ntoaCommon_stands`, `untoaCommon_stands`: what is written, and that nothing
        else is.
     2. `atonCommon_numeral`, `uatonCommon_numeral`: what is read of a numeral.
     3. `ntoa_aton_exact`: both for all six types. -/
namespace Aex.Str

open Bytes (Mem)
open Numerals Strings

def ntoaDictionary : List Nat :=
  "zyxwvutsrqponmlkjihgfedcba9876543210123456789abcdefghijklmnopqrstuvwxyz".toList.map Char.toNat

/-- `NTOA_DICTIONARY[i]`. -/
def ntoaChar (i : Int) : Nat := ntoaDictionary.getD i.toNat 0

/-- The digits, from the lowest up; the value has fewer of them than the fuel. -/
def digitLoop (base : Int) : Nat → Int → Mem → Nat → Mem × Nat
  | 0, _, m, ptr => (m, ptr)
  | fuel + 1, value, m, ptr =>
    let m := Function.update m ptr (ntoaChar (35 + value.tmod base))
    let value := value.tdiv base
    if value ≠ 0 then digitLoop base fuel value m (ptr + 1) else (m, ptr + 1)

/-- The digits are turned round, from both ends inwards. -/
def swapLoop : Nat → Mem → Nat → Nat → Mem
  | 0, m, _, _ => m
  | fuel + 1, m, low, ptr =>
    if low < ptr then
      swapLoop fuel (Function.update (Function.update m low (m ptr)) ptr (m low)) (low + 1) (ptr - 1)
    else m

/-- `UNTOA_COMMON` behind the test of the base; `NTOA_COMMON` has the same behind
the sign. -/
def writeDigits (value base : Int) (m : Mem) (low : Nat) : Mem :=
  let (m, ptr) := digitLoop base (value.natAbs + 1) value m low
  swapLoop (ptr - low) (Function.update m ptr 0) low (ptr - 1)

/-- `NTOA_COMMON`: the string returned and the memory. -/
def ntoaCommon (value : Int) (m : Mem) (str : Nat) (base : Int) : Nat × Mem :=
  if base < 2 ∨ 36 < base then (str, Function.update m str 0)
  else if value < 0 ∧ base = 10 then (str, writeDigits value base (Function.update m str '-'.toNat) (str + 1))
  else (str, writeDigits value base m str)

def untoaCommon (value : Nat) (m : Mem) (str : Nat) (base : Int) : Nat × Mem :=
  if base < 2 ∨ 36 < base then (str, Function.update m str 0)
  else (str, writeDigits value base m str)

def itoa (value : BitVec 32) (m : Mem) (str : Nat) (base : Int) : Nat × Mem := ntoaCommon value.toInt m str base

def ltoa (value : BitVec 64) (m : Mem) (str : Nat) (base : Int) : Nat × Mem := ntoaCommon value.toInt m str base

def htoa (value : BitVec 16) (m : Mem) (str : Nat) (base : Int) : Nat × Mem := ntoaCommon value.toInt m str base

def uitoa (value : BitVec 32) (m : Mem) (str : Nat) (base : Int) : Nat × Mem := untoaCommon value.toNat m str base

def ultoa (value : BitVec 64) (m : Mem) (str : Nat) (base : Int) : Nat × Mem := untoaCommon value.toNat m str base

def uhtoa (value : BitVec 16) (m : Mem) (str : Nat) (base : Int) : Nat × Mem := untoaCommon value.toNat m str base

/-- A `char` is signed. -/
def charValue (c : Nat) : Int := if c < 128 then c else c - 256

/-- The loop of the readers, over the characters before the `NUL`. -/
def readDigits {w : Nat} (res : BitVec w) (str : List Nat) : BitVec w :=
  str.foldl (fun res c => res * 10#w + BitVec.ofInt w (charValue c) - BitVec.ofNat w '0'.toNat) res

def atonCommon (w : Nat) (str : List Nat) : BitVec w :=
  if str.head? = some '-'.toNat then BitVec.ofInt w (-1) * readDigits 0#w str.tail
  else BitVec.ofInt w 1 * readDigits 0#w str

def uatonCommon (w : Nat) (str : List Nat) : BitVec w := readDigits 0#w str

def atoi (str : List Nat) : BitVec 32 := atonCommon 32 str

def atol (str : List Nat) : BitVec 64 := atonCommon 64 str

def atoh (str : List Nat) : BitVec 16 := atonCommon 16 str

def atoui (str : List Nat) : BitVec 32 := uatonCommon 32 str

def atoul (str : List Nat) : BitVec 64 := uatonCommon 64 str

def atouh (str : List Nat) : BitVec 16 := uatonCommon 16 str

/-! ## Writing -/

/-- A digit stands in the dictionary behind the middle, and mirrored before it. -/
theorem ntoaChar_digit : ∀ d : Nat, d < 36 → ntoaChar (35 + d) = digit d ∧ ntoaChar (35 + -(d : Int)) = digit d := by decide

variable {base : Nat}

theorem digitLoop_stands (hb : 2 ≤ base) (hb' : base ≤ 36) {s : Int} (hs : s = 1 ∨ s = -1) : ∀ {fuel n ptr : Nat} {m : Mem},
    n < fuel → ∃ m', digitLoop base fuel (s * n) m ptr = (m', ptr + (lowFirst base n).length) ∧
      Stands m' ptr ((lowFirst base n).map digit) ∧
      ∀ x, x < ptr ∨ ptr + (lowFirst base n).length ≤ x → m' x = m x := by
  intro fuel
  induction fuel with
  | zero =>
    intro n _ _ hn
    cases hn
  | succ fuel ih =>
    intro n ptr m hn
    have hmod : (s * n).tmod base = s * (n % base : Nat) := by
      obtain rfl | rfl := hs
      · rw [Int.one_mul, Int.one_mul, Int.ofNat_tmod]
      · rw [Int.neg_one_mul, Int.neg_one_mul, Int.neg_tmod, Int.ofNat_tmod]
    have hdiv : (s * n).tdiv base = s * (n / base : Nat) := by
      obtain rfl | rfl := hs
      · rw [Int.one_mul, Int.one_mul, Int.ofNat_tdiv]
      · rw [Int.neg_one_mul, Int.neg_one_mul, Int.neg_tdiv, Int.ofNat_tdiv]
    have hchar : ntoaChar (35 + s * (n % base : Nat)) = digit (n % base) := by
      have hd := ntoaChar_digit (n % base) (Nat.lt_of_lt_of_le (Nat.mod_lt n (by omega)) hb')
      obtain rfl | rfl := hs
      · rw [Int.one_mul]
        exact hd.1
      · rw [Int.neg_one_mul]
        exact hd.2
    have hzero : s * (n / base : Nat) = 0 ↔ n / base = 0 := by
      obtain rfl | rfl := hs
      · rw [Int.one_mul, Int.natCast_eq_zero]
      · rw [Int.neg_one_mul, Int.neg_eq_zero, Int.natCast_eq_zero]
    rw [lowFirst_step hb n]
    simp only [digitLoop, hmod, hdiv, hchar]
    by_cases hlast : n / base = 0
    · rw [if_neg (not_not.mpr (hzero.mpr hlast)), if_pos hlast]
      refine ⟨_, rfl, ⟨Function.update_self _ _ _, trivial⟩, fun x hx => ?_⟩
      rw [List.length_singleton] at hx
      exact Function.update_of_ne (by omega) _ _
    · have hless : n / base < fuel := by
        have hlt := Nat.div_lt_self (n := n) (by
          by_contra hz
          exact hlast (by rw [show n = 0 by omega, Nat.zero_div])) hb
        omega
      obtain ⟨m', hloop, hstands, hframe⟩ := @ih (n / base) (ptr + 1) (Function.update m ptr (digit (n % base))) hless
      rw [if_pos (mt hzero.mp hlast), if_neg hlast, hloop]
      refine ⟨m', ?_, ⟨?_, hstands⟩, fun x hx => ?_⟩
      · rw [List.length_cons]
        congr 1
        omega
      · rw [hframe ptr (by omega), Function.update_self]
      · rw [List.length_cons] at hx
        rw [hframe x (by omega), Function.update_of_ne (by omega)]

theorem swapLoop_apply : ∀ {fuel low ptr : Nat} {m : Mem}, ptr ≤ low + fuel → ∀ x,
    swapLoop fuel m low ptr x = if low ≤ x ∧ x ≤ ptr then m (low + ptr - x) else m x := by
  intro fuel
  induction fuel with
  | zero =>
    intro low ptr m hfuel x
    simp only [swapLoop]
    split
    · congr 1
      omega
    · rfl
  | succ fuel ih =>
    intro low ptr m hfuel x
    simp only [swapLoop]
    by_cases hlt : low < ptr
    · rw [if_pos hlt, ih (by omega)]
      -- the ends are changed for each other, and what is between them turned round
      by_cases hin : low + 1 ≤ x ∧ x ≤ ptr - 1
      · rw [if_pos hin, if_pos (by omega), Function.update_of_ne (by omega), Function.update_of_ne (by omega)]
        congr 1
        omega
      · rw [if_neg hin]
        by_cases hptr : x = ptr
        · subst hptr
          rw [Function.update_self, if_pos (by omega)]
          congr 1
          omega
        · rw [Function.update_of_ne hptr]
          by_cases hlow : x = low
          · subst hlow
            rw [Function.update_self, if_pos (by omega)]
            congr 1
            omega
          · rw [Function.update_of_ne hlow, if_neg (by omega)]
    · rw [if_neg hlt]
      split
      · congr 1
        omega
      · rfl

/-- The numeral of `n`, and its string. -/
def numText (base n : Nat) : List Nat := (numeral base n).map digit

/-- With the sign of a negative value. -/
def signedText (base : Nat) (value : Int) : List Nat :=
  if value < 0 then '-'.toNat :: numText base value.natAbs else numText base value.natAbs

/-- No leading zeros, the digits of the base, and '0' for zero. -/
structure Canonical (base n : Nat) (text : List Nat) : Prop where
  digits : ∃ ds, text = ds.map digit ∧ (∀ d ∈ ds, d < base) ∧ value base ds = n
  zero : n = 0 → text = ['0'.toNat]
  leading : n ≠ 0 → text.head? ≠ some '0'.toNat

/-- What a writer left: a string at `str`, which it returns, and the other bytes as
they were. -/
structure Writes (r : Nat × Mem) (m : Mem) (str : Nat) (text : List Nat) : Prop where
  returned : r.1 = str
  nulFree : ∀ c ∈ text, c ≠ 0
  stands : Stands r.2 str (text ++ [0])
  others : ∀ x, x < str ∨ str + text.length < x → r.2 x = m x

theorem numText_canonical (hb : 2 ≤ base) (n : Nat) : Canonical base n (numText base n) where
  digits := ⟨numeral base n, rfl, fun d hd => numeral_lt hb hd, value_numeral base n⟩
  zero := by
    rintro rfl
    rfl
  leading := by
    intro hn hhead
    rw [numText, List.head?_map] at hhead
    obtain ⟨d, hd, hzero⟩ := Option.map_eq_some_iff.mp hhead
    rw [(digit_eq_zero_iff d).mp hzero] at hd
    exact numeral_head hn hd

theorem numText_nulFree (base n : Nat) : ∀ c ∈ numText base n, c ≠ 0 := by
  intro c hc
  obtain ⟨d, _, rfl⟩ := List.mem_map.mp hc
  exact digit_ne_zero d

theorem signedText_nulFree (base : Nat) (value : Int) : ∀ c ∈ signedText base value, c ≠ 0 := by
  intro c hc
  unfold signedText at hc
  split at hc
  · rcases List.mem_cons.mp hc with rfl | hc
    · decide
    · exact numText_nulFree base _ c hc
  · exact numText_nulFree base _ c hc

theorem writeDigits_stands (hb : 2 ≤ base) (hb' : base ≤ 36) {s : Int} (hs : s = 1 ∨ s = -1) (n : Nat) (m : Mem) (low : Nat) :
    Stands (writeDigits (s * n) base m low) low (numText base n ++ [0]) ∧
      ∀ x, x < low ∨ low + (numText base n).length < x → writeDigits (s * n) base m low x = m x := by
  have habs : (s * n).natAbs = n := by
    obtain rfl | rfl := hs
    · rw [Int.one_mul, Int.natAbs_natCast]
    · rw [Int.neg_one_mul, Int.natAbs_neg, Int.natAbs_natCast]
  obtain ⟨m', hloop, hstands, hframe⟩ := @digitLoop_stands base hb hb' s hs (n + 1) n low m (Nat.lt_succ_self n)
  have htext : numText base n = ((lowFirst base n).map digit).reverse := List.map_reverse
  have hpos : 0 < (lowFirst base n).length := by
    rw [lowFirst_step hb]
    exact Nat.zero_lt_succ _
  unfold writeDigits
  rw [habs, hloop, htext]
  simp only
  generalize hds : (lowFirst base n).map digit = ds at hstands
  have hlen : (lowFirst base n).length = ds.length := by rw [← hds, List.length_map]
  rw [hlen] at hframe hpos ⊢
  have happly := fun x => @swapLoop_apply (low + ds.length - low) low (low + ds.length - 1)
    (Function.update m' (low + ds.length) 0) (by omega) x
  constructor
  · rw [stands_append]
    refine ⟨stands_iff_getElem.mpr fun i hi => ?_, ?_, trivial⟩
    · rw [List.length_reverse] at hi
      have hget := stands_iff_getElem.mp hstands (ds.length - 1 - i) (by omega)
      rw [happly, if_pos (by omega), Function.update_of_ne (by omega), List.getElem_reverse, ← hget]
      congr 1
      omega
    · rw [List.length_reverse, happly, if_neg (by omega), Function.update_self]
  · intro x hx
    rw [List.length_reverse] at hx
    rw [happly, if_neg (by omega), Function.update_of_ne (by omega), hframe x (by omega)]

theorem untoaCommon_stands (hb : 2 ≤ base) (hb' : base ≤ 36) (value : Nat) (m : Mem) (str : Nat) :
    Writes (untoaCommon value m str base) m str (numText base value) := by
  have hdigits := writeDigits_stands hb hb' (.inl rfl) value m str
  rw [Int.one_mul] at hdigits
  unfold untoaCommon
  rw [if_neg (by omega)]
  exact ⟨rfl, numText_nulFree base value, hdigits.1, hdigits.2⟩

theorem ntoaCommon_stands (value : Int) (m : Mem) (str : Nat) :
    Writes (ntoaCommon value m str 10) m str (signedText 10 value) := by
  unfold ntoaCommon
  rw [if_neg (by decide)]
  by_cases hneg : value < 0
  · have hdigits := @writeDigits_stands 10 (by decide) (by decide) (-1) (.inr rfl) value.natAbs
      (Function.update m str '-'.toNat) (str + 1)
    rw [show -1 * (value.natAbs : Int) = value by omega] at hdigits
    have htext : signedText 10 value = '-'.toNat :: numText 10 value.natAbs := if_pos hneg
    rw [if_pos ⟨hneg, rfl⟩, htext]
    refine ⟨rfl, htext ▸ signedText_nulFree 10 value, ⟨?_, hdigits.1⟩, fun x hx => ?_⟩
    · exact (hdigits.2 str (.inl (Nat.lt_succ_self str))).trans (Function.update_self _ _ _)
    · rw [List.length_cons] at hx
      exact (hdigits.2 x (by omega)).trans (Function.update_of_ne (by omega) _ _)
  · have hdigits := @writeDigits_stands 10 (by decide) (by decide) 1 (.inl rfl) value.natAbs m str
    rw [show 1 * (value.natAbs : Int) = value by omega] at hdigits
    have htext : signedText 10 value = numText 10 value.natAbs := if_neg hneg
    rw [if_neg (fun h => hneg h.1), htext]
    exact ⟨rfl, numText_nulFree 10 _, hdigits.1, hdigits.2⟩

/-! ## Reading -/

theorem readDigits_map {w : Nat} : ∀ {ds : List Nat} {k : Nat}, (∀ d ∈ ds, d < 10) →
    readDigits (BitVec.ofNat w k) (ds.map digit) = BitVec.ofNat w (ds.foldl (fun res d => res * 10 + d) k) := by
  intro ds
  induction ds with
  | nil => intro k _; rfl
  | cons d ds ih =>
    intro k hds
    have hd : d < 10 := hds d List.mem_cons_self
    have hchar : charValue (digit d) = ((d + '0'.toNat : Nat) : Int) := by
      have hfig : digit d = '0'.toNat + d := if_pos hd
      unfold charValue
      rw [hfig, Nat.add_comm, if_pos (Nat.lt_of_lt_of_le (Nat.add_lt_add_right hd _) (by decide))]
    have hstep : BitVec.ofNat w k * 10#w + BitVec.ofInt w (charValue (digit d)) - BitVec.ofNat w '0'.toNat =
        BitVec.ofNat w (k * 10 + d) := by
      rw [hchar, BitVec.ofInt_natCast, BitVec.ofNat_add, ← BitVec.add_assoc, BitVec.add_sub_cancel, BitVec.ofNat_add,
        BitVec.ofNat_mul]
    rw [List.map_cons, List.foldl_cons, ← ih (fun d' hd' => hds d' (List.mem_cons_of_mem d hd'))]
    unfold readDigits
    rw [List.foldl_cons, hstep]

theorem readDigits_numText (w n : Nat) : readDigits 0#w (numText 10 n) = BitVec.ofNat w n := by
  rw [numText, readDigits_map (fun d hd => numeral_lt (by decide) hd)]
  exact congrArg (BitVec.ofNat w) (value_numeral 10 n)

theorem uatonCommon_numText (w : Nat) (v : BitVec w) : uatonCommon w (numText 10 v.toNat) = v := by
  rw [uatonCommon, readDigits_numText, BitVec.ofNat_toNat, BitVec.setWidth_eq]

theorem numText_head (n : Nat) : (numText 10 n).head? ≠ some '-'.toNat := by
  intro hhead
  obtain ⟨d, _, heq⟩ := List.mem_map.mp (List.mem_of_head? hhead)
  unfold digit at heq
  split at heq
  · simp at heq
    omega
  · simp at heq
    omega

theorem atonCommon_signedText (w : Nat) (v : BitVec w) : atonCommon w (signedText 10 v.toInt) = v := by
  unfold atonCommon signedText
  by_cases hneg : v.toInt < 0
  · rw [if_pos hneg, if_pos List.head?_cons, List.tail_cons, readDigits_numText, ← BitVec.ofInt_natCast, ← BitVec.ofInt_mul,
      show -1 * (v.toInt.natAbs : Int) = v.toInt by omega, BitVec.ofInt_toInt]
  · rw [if_neg hneg, if_neg (numText_head _), readDigits_numText, ← BitVec.ofInt_natCast, ← BitVec.ofInt_mul,
      show 1 * (v.toInt.natAbs : Int) = v.toInt by omega, BitVec.ofInt_toInt]

/-- The writers of unsigned values write the canonical numeral in every base, those of
signed values the numeral with its sign in base 10, and every reader inverts the writer
of its type. -/
theorem ntoa_aton_exact :
    (∀ base n : Nat, 2 ≤ base → Canonical base n (numText base n)) ∧
    (∀ base : Nat, 2 ≤ base → base ≤ 36 → ∀ m str,
      (∀ v, Writes (uitoa v m str base) m str (numText base v.toNat)) ∧
      (∀ v, Writes (ultoa v m str base) m str (numText base v.toNat)) ∧
      ∀ v, Writes (uhtoa v m str base) m str (numText base v.toNat)) ∧
    (∀ m str,
      (∀ v, Writes (itoa v m str 10) m str (signedText 10 v.toInt)) ∧
      (∀ v, Writes (ltoa v m str 10) m str (signedText 10 v.toInt)) ∧
      ∀ v, Writes (htoa v m str 10) m str (signedText 10 v.toInt)) ∧
    ((∀ v, atoi (signedText 10 v.toInt) = v) ∧ (∀ v, atol (signedText 10 v.toInt) = v) ∧
      ∀ v, atoh (signedText 10 v.toInt) = v) ∧
    (∀ v, atoui (numText 10 v.toNat) = v) ∧ (∀ v, atoul (numText 10 v.toNat) = v) ∧
      ∀ v, atouh (numText 10 v.toNat) = v := by
  refine ⟨fun base n hb => numText_canonical hb n, ?_, ?_, ?_, ?_⟩
  · intro base hb hb' m str
    exact ⟨fun v => untoaCommon_stands hb hb' v.toNat m str, fun v => untoaCommon_stands hb hb' v.toNat m str,
      fun v => untoaCommon_stands hb hb' v.toNat m str⟩
  · intro m str
    exact ⟨fun v => ntoaCommon_stands v.toInt m str, fun v => ntoaCommon_stands v.toInt m str,
      fun v => ntoaCommon_stands v.toInt m str⟩
  · exact ⟨atonCommon_signedText 32, atonCommon_signedText 64, atonCommon_signedText 16⟩
  · exact ⟨uatonCommon_numText 32, uatonCommon_numText 64, uatonCommon_numText 16⟩

/-- The minimum of `int`, written and read. -/
theorem ntoa_aton_exact_min : signedText 10 (0x80000000#32).toInt = "-2147483648".toList.map Char.toNat ∧
    Writes (itoa 0x80000000#32 (fun _ => 0) 0 10) (fun _ => 0) 0 (signedText 10 (0x80000000#32).toInt) ∧
    atoi (signedText 10 (0x80000000#32).toInt) = 0x80000000#32 ∧
    Writes (uitoa 255#32 (fun _ => 0) 0 (36 : Nat)) (fun _ => 0) 0 (numText 36 (255#32).toNat) := by
  obtain ⟨_, hunsigned, hsigned, hread, _⟩ := ntoa_aton_exact
  refine ⟨by decide, (hsigned (fun _ => 0) 0).1 _, hread.1 _, (hunsigned 36 (by decide) (by decide) (fun _ => 0) 0).1 _⟩

end Aex.Str
