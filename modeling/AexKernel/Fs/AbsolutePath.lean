import Mathlib.Data.List.Induction
import Mathlib.Data.List.TakeWhile
import AexKernel.Lib.Strings
import AexKernel.Fs.Path

/- `fs_to_absolute_path` of `fs.c`.

   The text is built in a buffer of blank memory. `".."` moves `ptr` back to the
   last `'/'` at or before it, so a second one in a row finds `ptr` on a `'/'`
   already and deletes nothing. The text behind `ptr` stays in the buffer until
   something is written over it, and a string the walk has written nothing of is
   empty. -/
namespace Aex.Fs

open Strings

/-! ## The model -/

/-- `_path` as its bytes, and `ptr` as an index into it. -/
structure Canon where
  buf : Nat → Nat
  ptr : Nat

/-- `".."`. -/
def dotdot : CStr := cstr ".."

/-- `"."`. -/
def dot : CStr := cstr "."

/-- `while (*ptr != '/' && ptr != _path) --ptr`. -/
def backUp (buf : Nat → Nat) : Nat → Nat
  | 0 => 0
  | ptr + 1 => if buf (ptr + 1) = slash then ptr + 1 else backUp buf ptr

/-- The body of the walk. -/
def canonTurn (c : Canon) (segment : CStr) : Canon :=
  if segment = dotdot then { c with ptr := backUp c.buf c.ptr }
  else if segment = dot then c
  else
    { buf := strcpy (Function.update c.buf c.ptr slash) (c.ptr + 1) segment, ptr := c.ptr + 1 + segment.length }

/-- `path`: the local path itself when it is absolute or there is no base, else what
`snprintf` makes of the two, which counts the bytes of each in an `int`
(`joinPath_printed`). -/
def joinPath (localPath : CStr) (base : Option CStr) : Option CStr :=
  match base with
  | none => some localPath
  | some base =>
    if localPath.head? = some slash then some localPath
    else if base.length < 2^31 ∧ localPath.length < 2^31 then some (base ++ localPath) else none

/-- `_path` after the walk. The memory of `kmalloc` is blank. -/
def canonWalk (path : CStr) : Option Canon :=
  (pathWalk path).map fun turns => (turns.map Prod.fst).foldl canonTurn { buf := fun _ => 0, ptr := 0 }

/-- `fs_to_absolute_path`: the string at `_path`, which has room for
`strlen(path) + 1` bytes. -/
def fsToAbsolutePath (localPath : CStr) (base : Option CStr) : Option CStr :=
  (joinPath localPath base).bind fun path => (canonWalk path).map fun c =>
    let buf := if path.getLast? = some slash then Function.update (Function.update c.buf c.ptr slash) (c.ptr + 1) 0
      else c.buf
    strAt buf (path.length + 1) 0

/-! ## What the call is for -/

/-- The local path when it is absolute or there is no base, else base and local path. -/
def fullPath (localPath : CStr) (base : Option CStr) : CStr :=
  match base with
  | none => localPath
  | some base => if localPath.head? = some slash then localPath else base ++ localPath

/-- An `int` counts the bytes of either part, where they are put together. -/
def Joins (localPath base : CStr) : Prop :=
  localPath.head? = some slash ∨ base.length < 2^31 ∧ localPath.length < 2^31

instance (localPath base : CStr) : Decidable (Joins localPath base) := inferInstanceAs (Decidable (_ ∨ _))

/-- The segments of a path that are not empty. -/
def segments (path : CStr) : List CStr := (path.splitOn slash).filter fun s => !s.isEmpty

/-- `"."` is dropped, and `".."` deletes the last segment kept. -/
def resolveTurn (kept : List CStr) (segment : CStr) : List CStr :=
  if segment = dotdot then kept.dropLast else if segment = dot then kept else kept ++ [segment]

/-- The segments kept. -/
def resolve (segs : List CStr) : List CStr := segs.foldl resolveTurn []

/-- The canonical form of an absolute path. -/
def canonical (path : CStr) : CStr :=
  slash :: [slash].intercalate (resolve (segments path)) ++
    if path.getLast? = some slash ∧ resolve (segments path) ≠ [] then [slash] else []

/-- The last segment that is not `"."`. -/
def lastReal (segs : List CStr) : Option CStr := (segs.filter fun s => decide (s ≠ dot)).getLast?

/-- A `".."` right behind another one, but for `"."` between them, has nothing to
delete. -/
def BacksApart (segs : List CStr) : Prop :=
  ∀ before after, segs = before ++ dotdot :: after → lastReal before = some dotdot → resolve before = []

/-- The last segment that is not `"."` is there and names something. -/
def EndsNamed (segs : List CStr) : Prop := ∃ s, lastReal segs = some s ∧ s ≠ dotdot

/-! ## The segments of the walk -/

theorem segments_slash (p : CStr) : segments (slash :: p) = segments p := by
  unfold segments
  rw [show slash :: p = [] ++ slash :: p from rfl, List.splitOn_append_cons_self_of_not_mem List.not_mem_nil]
  rfl

theorem segments_dropWhile (p : CStr) : segments (p.dropWhile (· == slash)) = segments p := by
  induction p with
  | nil => rfl
  | cons b p ih =>
    by_cases hb : b = slash
    · rw [hb, segments_slash, ← ih]
      rfl
    · rw [List.dropWhile_cons_of_neg (by simpa using hb)]

theorem segments_append {s rest : CStr} (hs : slash ∉ s) (hne : s ≠ []) (hrest : rest = [] ∨ rest.head? = some slash) :
    segments (s ++ rest) = s :: segments rest := by
  have hkeep : (!s.isEmpty) = true := by simpa using hne
  rcases hrest with rfl | hrest
  · unfold segments
    rw [List.append_nil, List.splitOn_eq_singleton hs, List.filter_cons, if_pos hkeep]
    rfl
  · obtain ⟨t, rfl⟩ : ∃ t, rest = slash :: t := by
      cases rest with
      | nil => cases hrest
      | cons b t =>
        cases hrest
        exact ⟨t, rfl⟩
    rw [segments_slash]
    unfold segments
    rw [List.splitOn_append_cons_self_of_not_mem hs, List.filter_cons, if_pos hkeep]

/-- The rest of a path: slashes, or slashes, a segment and what is behind it. -/
theorem rest_cases (rest : CStr) :
    ((∀ b ∈ rest, b = slash) ∧ segments rest = []) ∨
    ∃ slashes s rest', rest = slashes ++ (s ++ rest') ∧ (∀ b ∈ slashes, b = slash) ∧ s ≠ [] ∧ slash ∉ s ∧
      (rest' = [] ∨ rest'.head? = some slash) ∧ segments rest = s :: segments rest' := by
  have hsplit : rest.takeWhile (· == slash) ++ rest.dropWhile (· == slash) = rest := List.takeWhile_append_dropWhile
  have hslashes : ∀ b ∈ rest.takeWhile (· == slash), b = slash := fun b hb => by simpa using List.mem_takeWhile_imp hb
  have hdrop := segments_dropWhile rest
  cases hbehind : rest.dropWhile (· == slash) with
  | nil =>
    left
    rw [hbehind] at hsplit hdrop
    rw [List.append_nil] at hsplit
    exact ⟨hsplit ▸ hslashes, hdrop.symm⟩
  | cons b q =>
    right
    have hb : b ≠ slash := by
      have hnot := List.head?_dropWhile_not (· == slash) rest
      rw [hbehind] at hnot
      simpa using hnot
    have hcut : (b :: q).takeWhile (· != slash) ++ (b :: q).dropWhile (· != slash) = b :: q :=
      List.takeWhile_append_dropWhile
    have hne : (b :: q).takeWhile (· != slash) ≠ [] := by
      rw [List.takeWhile_cons_of_pos (by simpa using hb)]
      exact List.cons_ne_nil _ _
    have hslash : slash ∉ (b :: q).takeWhile (· != slash) := fun hin => absurd (List.mem_takeWhile_imp hin) (by simp)
    have hfront : (b :: q).dropWhile (· != slash) = [] ∨ ((b :: q).dropWhile (· != slash)).head? = some slash := by
      have hnot := List.head?_dropWhile_not (· != slash) (b :: q)
      cases hd : (b :: q).dropWhile (· != slash) with
      | nil => exact .inl rfl
      | cons c t =>
        rw [hd] at hnot
        right
        simpa using hnot
    refine ⟨_, _, _, ?_, hslashes, hne, hslash, hfront, ?_⟩
    · rw [hcut, ← hbehind, hsplit]
    · rw [← hdrop, hbehind, ← segments_append hslash hne hfront, hcut]

theorem takeWhile_slashes {slashes rest : CStr} (hslashes : ∀ b ∈ slashes, b = slash) (hrest : rest.head? ≠ some slash) :
    (slashes ++ rest).takeWhile (· == slash) = slashes := by
  rw [List.takeWhile_append_of_pos fun b hb => by simpa using hslashes b hb]
  cases rest with
  | nil => exact List.append_nil slashes
  | cons b rest => rw [List.takeWhile_cons_of_neg (by simpa using hrest), List.append_nil]

theorem dropWhile_slashes {slashes rest : CStr} (hslashes : ∀ b ∈ slashes, b = slash) (hrest : rest.head? ≠ some slash) :
    (slashes ++ rest).dropWhile (· == slash) = rest := by
  rw [List.dropWhile_append_of_pos fun b hb => by simpa using hslashes b hb]
  cases rest with
  | nil => rfl
  | cons b rest => exact List.dropWhile_cons_of_neg (by simpa using hrest)

theorem takeWhile_segment {s rest : CStr} (hs : slash ∉ s) (hrest : rest = [] ∨ rest.head? = some slash) :
    (s ++ rest).takeWhile (· != slash) = s := by
  have hs' : ∀ b ∈ s, (b != slash) = true := by
    intro b hb
    have hne : b ≠ slash := fun h => hs (h ▸ hb)
    simpa using hne
  rw [List.takeWhile_append_of_pos hs']
  rcases hrest with rfl | hrest
  · exact List.append_nil s
  · cases rest with
    | nil => cases hrest
    | cons b rest =>
      cases hrest
      rw [List.takeWhile_cons_of_neg (by simp), List.append_nil]

theorem head_segment {s : CStr} (hne : s ≠ []) (hs : slash ∉ s) (rest : CStr) : (s ++ rest).head? ≠ some slash := by
  cases s with
  | nil => exact absurd rfl hne
  | cons b s =>
    rw [List.cons_append, List.head?_cons]
    exact fun h => hs (Option.some.inj h ▸ List.mem_cons_self)

/-- What one turn finds: nothing in a path of slashes, else the first segment
with what is left behind it, a `'/'` in front. -/
theorem pathTurn_cases (p : CStr) :
    (pathTurn p = none ∧ segments p = []) ∨
    (∃ s rest, pathTurn p = some (s, rest) ∧ segments p = s :: segments rest ∧ slash ∉ s ∧ s ≠ [] ∧
      (rest = [] ∨ rest.head? = some slash) ∧ s.length + rest.length + (if p.head? = some slash then 1 else 0) ≤ p.length ∧
      ∀ b ∈ s ++ rest, b ∈ p) := by
  rcases rest_cases p with ⟨hslashes, hsegs⟩ | ⟨slashes, s, rest, rfl, hslashes, hne, hs, hfront, hsegs⟩
  · left
    have hdrop : p.dropWhile (· == slash) = [] := by
      simpa using @dropWhile_slashes p [] hslashes (by simp)
    refine ⟨?_, hsegs⟩
    unfold pathTurn
    rw [hdrop]
    rfl
  · right
    have hhead := head_segment hne hs rest
    have hsome : s.isEmpty = false := List.isEmpty_eq_false_iff.mpr hne
    refine ⟨s, rest, ?_, hsegs, hs, hne, hfront, ?_, fun b hb => List.mem_append_right slashes hb⟩
    · simp only [pathTurn, dropWhile_slashes hslashes hhead, takeWhile_segment hs hfront, hsome, Bool.false_and,
        Bool.false_eq_true, if_false, List.drop_left]
    · rw [List.length_append, List.length_append]
      -- a `'/'` in front is not part of what is left
      cases slashes with
      | nil =>
        rw [List.nil_append, if_neg hhead]
        omega
      | cons b slashes =>
        rw [List.length_cons]
        split <;> omega

theorem pathTurns_eq : ∀ (fuel : Nat) (p : CStr), p.length < fuel → pathTurns fuel p = segments p := by
  intro fuel
  induction fuel with
  | zero => intro p h; cases h
  | succ fuel ih =>
    intro p hfuel
    unfold pathTurns
    rcases pathTurn_cases p with ⟨hturn, hsegs⟩ | ⟨s, rest, hturn, hsegs, -, hne, -, hlen, -⟩
    · rw [hturn, hsegs]
    · have hpos : 0 < s.length := List.length_pos_iff.mpr hne
      rw [hturn, hsegs]
      simp only
      rw [ih rest (by omega)]

/-- What the walk hands to its body on an absolute path: the segments, with the number of
those that follow. -/
theorem pathWalk_eq {path : CStr} (habs : path.head? = some slash) : pathWalk path = if Walkable (segments path) then
    some ((segments path).mapIdx fun k s => (s.take 255, ((segments path).length : Int) - (k + 1))) else none := by
  obtain ⟨p, rfl⟩ : ∃ p, path = slash :: p := by
    cases path with
    | nil => cases habs
    | cons b p =>
      cases habs
      exact ⟨p, rfl⟩
  unfold pathWalk pathCountSegments
  rw [List.drop_one, List.tail_cons, pathTurns_eq _ p (by rw [List.length_cons]; omega), pathTurns_eq _ _ (Nat.lt_succ_self _),
    segments_slash]

theorem pathWalk_segments {path : CStr} (habs : path.head? = some slash) (hwalk : Walkable (segments path)) :
    ∃ turns, pathWalk path = some turns ∧ turns.map Prod.fst = (segments path).map (List.take 255) := by
  refine ⟨_, by rw [pathWalk_eq habs, if_pos hwalk], ?_⟩
  apply List.ext_getElem?
  intro i
  simp only [List.getElem?_map, List.getElem?_mapIdx, Option.map_map]
  rfl

/-- The text of segments, a `'/'` in front of each. -/
def text (segs : List CStr) : CStr := segs.flatMap (slash :: ·)

/-- The segments of a path are made of its bytes without the `'/'`, none is empty,
and their text is not longer than the path. -/
theorem segments_facts : ∀ (n : Nat) (p : CStr), p.length ≤ n →
    (∀ s ∈ segments p, s ≠ [] ∧ slash ∉ s ∧ ∀ b ∈ s, b ∈ p) ∧
    (text (segments p)).length + (if p.head? = some slash then 1 else 0) ≤ p.length + 1 := by
  intro n
  -- on the length, since the rest of the path gets shorter with every segment
  induction n with
  | zero =>
    intro p hp
    have hnil : p = [] := List.length_eq_zero_iff.mp (Nat.le_zero.mp hp)
    rw [hnil]
    exact ⟨by decide, by decide⟩
  | succ n ih =>
    intro p hp
    rcases pathTurn_cases p with ⟨-, hsegs⟩ | ⟨s, rest, -, hsegs, hslash, hne, hfront, hlen, hmem⟩
    · rw [hsegs]
      refine ⟨fun s hs => absurd hs List.not_mem_nil, ?_⟩
      have hite : (if p.head? = some slash then 1 else 0) ≤ 1 := by split <;> omega
      simp only [text, List.flatMap_nil, List.length_nil]
      omega
    · have hpos : 0 < s.length := List.length_pos_iff.mpr hne
      obtain ⟨hsegs', htext⟩ := ih rest (by omega)
      rw [hsegs]
      refine ⟨?_, ?_⟩
      · intro t ht
        rcases List.mem_cons.mp ht with rfl | ht
        · exact ⟨hne, hslash, fun b hb => hmem b (List.mem_append_left _ hb)⟩
        · obtain ⟨htne, htslash, htmem⟩ := hsegs' t ht
          exact ⟨htne, htslash, fun b hb => hmem b (List.mem_append_right _ (htmem b hb))⟩
      · have hcons : (text (s :: segments rest)).length = 1 + s.length + (text (segments rest)).length := by
          simp only [text, List.flatMap_cons, List.length_append, List.length_cons]
          omega
        rw [hcons]
        rcases hfront with rfl | hfront
        · have hnil : (text (segments [])).length = 0 := by decide
          rw [hnil]
          omega
        · rw [if_pos hfront] at htext
          omega

/-! ## The text in the buffer -/

/-- The segments kept, and the one `ptr` has gone back over. -/
structure KeptSegs where
  kept : List CStr
  passed : Option CStr

/-- What is kept, and what was gone over last. -/
def KeptSegs.all (k : KeptSegs) : List CStr := k.kept ++ k.passed.toList

/-- What a turn of the walk does to them. -/
def KeptSegs.turn (k : KeptSegs) (segment : CStr) : KeptSegs :=
  if segment = dotdot then
    match k.passed with
    | some _ => k
    | none => { kept := k.kept.dropLast, passed := k.kept.getLast? }
  else if segment = dot then k
  else { kept := k.kept ++ [segment], passed := none }

/-- The buffer holds the text, the segment gone over included, with `ptr` behind
what is kept. -/
structure Shows (c : Canon) (k : KeptSegs) : Prop where
  stands : Stands c.buf 0 (text k.all ++ [0])
  ptr : c.ptr = (text k.kept).length
  plain : ∀ s ∈ k.kept, slash ∉ s

theorem text_append (a b : List CStr) : text (a ++ b) = text a ++ text b := List.flatMap_append

theorem text_singleton (s : CStr) : text [s] = slash :: s := by simp [text]

theorem backUp_eq {buf : Nat → Nat} {q : Nat} (hq : q = 0 ∨ buf q = slash) : ∀ p, q ≤ p →
    (∀ j, q < j → j ≤ p → buf j ≠ slash) → backUp buf p = q := by
  intro p
  induction p with
  | zero =>
    intro hle _
    rw [Nat.le_zero.mp hle]
    rfl
  | succ p ih =>
    intro hle hnone
    by_cases hqp : q = p + 1
    · rcases hq with hq | hq
      · omega
      · rw [backUp, ← hqp, if_pos hq]
    · rw [backUp, if_neg (hnone (p + 1) (by omega) (Nat.le_refl _))]
      exact ih (by omega) (fun j hj hj' => hnone j hj (by omega))

theorem stands_ne {m : Nat → Nat} {v : Nat} : ∀ {t : List Nat} {a : Nat}, Stands m a t → v ∉ t →
    ∀ j, a ≤ j → j < a + t.length → m j ≠ v := by
  intro t
  induction t with
  | nil =>
    intro a _ _ j hj hj'
    rw [List.length_nil] at hj'
    omega
  | cons b t ih =>
    rintro a ⟨hb, ht⟩ hv j hj hj'
    rw [List.length_cons] at hj'
    rw [List.mem_cons, not_or] at hv
    by_cases hja : j = a
    · rw [hja, hb]
      exact fun h => hv.1 h.symm
    · exact ih ht hv.2 j (by omega) (by omega)

theorem Shows.back {c : Canon} {k : KeptSegs} (h : Shows c k) :
    Shows { c with ptr := backUp c.buf c.ptr } (k.turn dotdot) := by
  obtain ⟨kept, passed⟩ := k
  have hptr : c.ptr = (text kept).length := h.ptr
  have hst := h.stands
  unfold KeptSegs.turn
  rw [if_pos rfl]
  cases passed with
  | some x =>
    -- `ptr` is on the `'/'` of the segment gone over before
    have hslash : c.buf c.ptr = slash := by
      simp only [KeptSegs.all, Option.toList_some, text_append, text_singleton, List.append_assoc, stands_append,
        Nat.zero_add] at hst
      rw [hptr]
      exact hst.2.1.1
    have hstay : backUp c.buf c.ptr = c.ptr := backUp_eq (Or.inr hslash) _ (Nat.le_refl _) (by omega)
    simp only [hstay]
    exact h
  | none =>
    have hplain := h.plain
    simp only [KeptSegs.all, Option.toList_none, List.append_nil] at hst
    rcases List.eq_nil_or_concat kept with rfl | ⟨front, x, rfl⟩
    · have hzero : c.ptr = 0 := hptr
      refine ⟨hst, ?_, by simp⟩
      simp only [hzero]
      rfl
    · rw [List.concat_eq_append] at hst hptr hplain
      rw [List.concat_eq_append]
      simp only [List.dropLast_concat, List.getLast?_concat]
      have hback : backUp c.buf c.ptr = (text front).length := by
        simp only [text_append, text_singleton, List.append_assoc, stands_append, Nat.zero_add] at hst
        rw [text_append, text_singleton, List.length_append] at hptr
        apply backUp_eq (Or.inr hst.2.1.1) _ (by omega)
        intro j hj hj'
        have hrest : Stands c.buf ((text front).length + 1) (x ++ [0]) := stands_append.mpr ⟨hst.2.1.2, by
          have hnul := hst.2.2
          rw [List.length_cons] at hnul
          rw [show (text front).length + 1 + x.length = (text front).length + (x.length + 1) by omega]
          exact hnul⟩
        apply stands_ne hrest
        · have hx := hplain x (by simp)
          simp only [List.mem_append, List.mem_singleton, not_or]
          exact ⟨hx, by decide⟩
        · omega
        · rw [List.length_append, List.length_singleton]
          rw [List.length_cons] at hptr
          omega
      refine ⟨hst, hback, ?_⟩
      intro s hs
      exact hplain s (List.mem_append_left _ hs)

theorem Shows.write {c : Canon} {k : KeptSegs} (h : Shows c k) {s : CStr} (hs : slash ∉ s) :
    Shows { buf := strcpy (Function.update c.buf c.ptr slash) (c.ptr + 1) s, ptr := c.ptr + 1 + s.length }
      { kept := k.kept ++ [s], passed := none } := by
  have hst := h.stands
  rw [KeptSegs.all, text_append, List.append_assoc, stands_append] at hst
  refine ⟨?_, ?_, ?_⟩
  · simp only [KeptSegs.all, Option.toList_none, List.append_nil]
    rw [text_append, text_singleton, List.append_assoc, stands_append, Nat.zero_add]
    refine ⟨?_, ?_⟩
    · -- what is kept lies below `ptr`
      apply stands_congr _ hst.1
      intro x _ hx
      rw [Nat.zero_add, ← h.ptr] at hx
      rw [strcpy_below (by omega), Function.update_of_ne (by omega)]
    · rw [← h.ptr]
      refine ⟨?_, strcpy_stands⟩
      rw [strcpy_below (Nat.lt_succ_self _), Function.update_self]
  · simp only
    rw [text_append, text_singleton, List.length_append, ← h.ptr, List.length_cons]
    omega
  · intro t ht
    rcases List.mem_append.mp ht with ht | ht
    · exact h.plain t ht
    · rw [List.mem_singleton.mp ht]
      exact hs

theorem Shows.turn {c : Canon} {k : KeptSegs} (h : Shows c k) {s : CStr} (hs : slash ∉ s) :
    Shows (canonTurn c s) (k.turn s) := by
  by_cases hback : s = dotdot
  · rw [hback, canonTurn, if_pos rfl]
    exact h.back
  · by_cases hdot : s = dot
    · rw [canonTurn, KeptSegs.turn, if_neg hback, if_neg hback, if_pos hdot, if_pos hdot]
      exact h
    · rw [canonTurn, KeptSegs.turn, if_neg hback, if_neg hback, if_neg hdot, if_neg hdot]
      exact h.write hs

theorem Shows.turns {segs : List CStr} : ∀ {c : Canon} {k : KeptSegs}, Shows c k → (∀ s ∈ segs, slash ∉ s) →
    Shows (segs.foldl canonTurn c) (segs.foldl KeptSegs.turn k) := by
  induction segs with
  | nil => intro c k h _; exact h
  | cons s segs ih =>
    intro c k h hs
    exact ih (h.turn (hs s List.mem_cons_self)) (fun t ht => hs t (List.mem_cons_of_mem s ht))

theorem KeptSegs.all_turn (k : KeptSegs) (s : CStr) : (k.turn s).all = k.all ∨ (k.turn s).all = k.kept ++ [s] := by
  obtain ⟨kept, passed⟩ := k
  unfold KeptSegs.turn
  by_cases hback : s = dotdot
  · left
    rw [if_pos hback]
    cases passed with
    | some x => rfl
    | none =>
      simp only [KeptSegs.all, Option.toList_none, List.append_nil]
      rcases List.eq_nil_or_concat kept with rfl | ⟨front, x, rfl⟩
      · rfl
      · rw [List.concat_eq_append, List.dropLast_concat, List.getLast?_concat]
        rfl
  · rw [if_neg hback]
    by_cases hdot : s = dot
    · left
      rw [if_pos hdot]
    · right
      rw [if_neg hdot]
      exact List.append_nil _

/-- What is kept or gone over is of the segments walked, and its text not longer
than theirs. -/
theorem KeptSegs.turns_bound (segs : List CStr) :
    (∀ s ∈ (segs.foldl KeptSegs.turn ⟨[], none⟩).all, s ∈ segs) ∧
    (text (segs.foldl KeptSegs.turn ⟨[], none⟩).all).length ≤ (text segs).length := by
  induction segs using List.reverseRecOn with
  | nil => simp [KeptSegs.all]
  | append_singleton segs s ih =>
    obtain ⟨hmem, hlen⟩ := ih
    rw [List.foldl_append, List.foldl_cons, List.foldl_nil]
    generalize segs.foldl KeptSegs.turn ⟨[], none⟩ = k at hmem hlen
    have htext : (text (segs ++ [s])).length = (text segs).length + (text [s]).length := by
      rw [text_append, List.length_append]
    rcases k.all_turn s with hall | hall
    · rw [hall, htext]
      exact ⟨fun t ht => List.mem_append_left _ (hmem t ht), Nat.le_add_right_of_le hlen⟩
    · rw [hall, htext]
      refine ⟨?_, ?_⟩
      · intro t ht
        rcases List.mem_append.mp ht with ht | ht
        · exact List.mem_append_left _ (hmem t (List.mem_append_left _ ht))
        · exact List.mem_append_right _ ht
      · rw [KeptSegs.all, text_append, List.length_append] at hlen
        rw [text_append, List.length_append]
        omega

/-! ## What is kept and what should be -/

theorem lastReal_append (segs : List CStr) (s : CStr) :
    lastReal (segs ++ [s]) = if s = dot then lastReal segs else some s := by
  unfold lastReal
  by_cases hs : s = dot
  · simp [List.filter_append, hs]
  · simp [List.filter_append, hs]

theorem resolve_append (segs : List CStr) (s : CStr) : resolve (segs ++ [s]) = resolveTurn (resolve segs) s := by
  simp [resolve, List.foldl_append]

theorem resolve_mem (segs : List CStr) : ∀ s ∈ resolve segs, s ∈ segs := by
  induction segs using List.reverseRecOn with
  | nil => intro s hs; exact hs
  | append_singleton segs t ih =>
    intro s hs
    rw [resolve_append, resolveTurn] at hs
    split at hs
    · exact List.mem_append_left _ (ih s ((List.dropLast_sublist _).subset hs))
    · split at hs
      · exact List.mem_append_left _ (ih s hs)
      · rcases List.mem_append.mp hs with hs | hs
        · exact List.mem_append_left _ (ih s hs)
        · exact List.mem_append_right _ hs

theorem backsApart_append (segs : List CStr) (s : CStr) :
    BacksApart (segs ++ [s]) ↔
      BacksApart segs ∧ (s = dotdot → lastReal segs = some dotdot → resolve segs = []) := by
  constructor
  · intro h
    refine ⟨?_, ?_⟩
    · intro before after heq
      exact h before (after ++ [s]) (by rw [heq, List.append_assoc, List.cons_append])
    · intro hs
      exact h segs [] (by rw [hs])
  · rintro ⟨h, hlast⟩ before after heq
    rcases List.eq_nil_or_concat after with rfl | ⟨front, x, rfl⟩
    · obtain ⟨rfl, hs⟩ := List.append_inj' heq rfl
      exact hlast (List.cons.inj hs).1
    · rw [List.concat_eq_append, ← List.cons_append, ← List.append_assoc] at heq
      exact h before front (List.append_inj' heq rfl).1

/-- The segments kept beside those that should be. They are the same until a
`".."` deletes nothing that should have deleted, and from then on there are more
of them. -/
structure Tracks (segs : List CStr) (k : KeptSegs) : Prop where
  named : k.passed = none ∧ k.kept ≠ [] ↔ EndsNamed segs
  back : k.passed ≠ none → lastReal segs = some dotdot
  left : EndsNamed segs → resolve segs ≠ []
  more : k.kept = resolve segs ∨ (resolve segs).length < k.kept.length
  same : k.kept = resolve segs ↔ BacksApart segs

theorem tracks_nil : Tracks [] ⟨[], none⟩ := by
  have hnot : ¬ EndsNamed [] := by
    rintro ⟨s, hs, -⟩
    cases hs
  refine ⟨⟨fun h => absurd rfl h.2, fun h => absurd h hnot⟩, fun h => absurd rfl h, fun h => absurd h hnot,
    Or.inl rfl, ⟨fun _ => ?_, fun _ => rfl⟩⟩
  intro before after heq
  cases before with
  | nil => cases heq
  | cons b before => cases heq

/-- Behind a `".."` the path ends in no name, so what is left to say is what is kept. -/
theorem tracks_back {segs : List CStr} {k : KeptSegs} (hnamed : ¬ (k.passed = none ∧ k.kept ≠ []))
    (hmore : k.kept = (resolve segs).dropLast ∨ (resolve segs).dropLast.length < k.kept.length)
    (hsame : k.kept = (resolve segs).dropLast ↔ BacksApart (segs ++ [dotdot])) : Tracks (segs ++ [dotdot]) k := by
  have hlast : lastReal (segs ++ [dotdot]) = some dotdot := by
    rw [lastReal_append, if_neg (by decide)]
  have hnot : ¬ EndsNamed (segs ++ [dotdot]) := by
    rintro ⟨s, hs, hne⟩
    rw [hlast] at hs
    exact hne (Option.some.inj hs).symm
  have hresolve : resolve (segs ++ [dotdot]) = (resolve segs).dropLast := by
    rw [resolve_append, resolveTurn, if_pos rfl]
  rw [← hresolve] at hmore hsame
  exact ⟨⟨fun h => absurd h hnamed, fun h => absurd h hnot⟩, fun _ => hlast, fun h => absurd h hnot, hmore, hsame⟩

/-- A `".."` right behind another one deletes nothing, so nothing may be left to
delete. -/
theorem Tracks.back_stuck {segs kept : List CStr} {x : CStr} (h : Tracks segs ⟨kept, some x⟩) :
    Tracks (segs ++ [dotdot]) ⟨kept, some x⟩ := by
  have hmore : kept = resolve segs ∨ (resolve segs).length < kept.length := h.more
  have hsame : kept = resolve segs ↔ BacksApart segs := h.same
  have hprev : lastReal segs = some dotdot := h.back (by simp)
  apply tracks_back
  · exact fun hn => absurd hn.1 (by simp)
  · rcases hmore with heq | hlt
    · cases hS : resolve segs with
      | nil => exact Or.inl (by rw [heq, hS]; rfl)
      | cons y S =>
        right
        simp only [heq, hS, List.length_dropLast, List.length_cons]
        omega
    · right
      simp only [List.length_dropLast]
      omega
  · rw [backsApart_append]
    constructor
    · intro hkept
      have heq : kept = (resolve segs).dropLast := hkept
      have hlen : kept.length = (resolve segs).length - 1 := by rw [heq, List.length_dropLast]
      have hnil : resolve segs = [] := by
        rcases hmore with heq' | hlt
        · rw [heq'] at hlen
          exact List.length_eq_zero_iff.mp (by omega)
        · omega
      rw [hnil] at heq
      exact ⟨hsame.mp (by rw [heq, hnil]; rfl), fun _ _ => hnil⟩
    · rintro ⟨hapart, hnil⟩
      rw [hsame.mpr hapart, hnil rfl hprev]
      rfl

theorem Tracks.back_empty {segs : List CStr} (h : Tracks segs ⟨[], none⟩) :
    Tracks (segs ++ [dotdot]) ⟨[], none⟩ := by
  have hnil : resolve segs = [] := by
    rcases h.more with heq | hlt
    · exact heq.symm
    · exact absurd hlt (Nat.not_lt_zero _)
  apply tracks_back
  · simp
  · left
    rw [hnil]
    rfl
  · rw [backsApart_append, hnil]
    simp only [List.dropLast_nil, true_iff]
    exact ⟨h.same.mp hnil.symm, fun _ _ => trivial⟩

theorem Tracks.back_delete {segs kept : List CStr} (h : Tracks segs ⟨kept, none⟩) (hne : kept ≠ []) :
    Tracks (segs ++ [dotdot]) ⟨kept.dropLast, kept.getLast?⟩ := by
  have hmore : kept = resolve segs ∨ (resolve segs).length < kept.length := h.more
  have hsame : kept = resolve segs ↔ BacksApart segs := h.same
  have hnamed : EndsNamed segs := h.named.mp ⟨rfl, hne⟩
  have hpos : 0 < (resolve segs).length := List.length_pos_iff.mpr (h.left hnamed)
  have hkpos : 0 < kept.length := List.length_pos_iff.mpr hne
  apply tracks_back
  · rintro ⟨hnone, -⟩
    rw [List.getLast?_eq_none_iff] at hnone
    exact hne hnone
  · rcases hmore with heq | hlt
    · exact Or.inl (by rw [heq])
    · right
      simp only [List.length_dropLast]
      omega
  · rw [backsApart_append]
    constructor
    · intro heq
      have hlen := congrArg List.length heq
      simp only [List.length_dropLast] at hlen
      refine ⟨hsame.mp ?_, ?_⟩
      · rcases hmore with heq' | hlt
        · exact heq'
        · omega
      · intro _ hprev
        obtain ⟨s, hs, hback⟩ := hnamed
        rw [hprev] at hs
        exact absurd (Option.some.inj hs).symm hback
    · rintro ⟨hapart, -⟩
      simp only [hsame.mpr hapart]

theorem Tracks.back_turn {segs : List CStr} {k : KeptSegs} (h : Tracks segs k) :
    Tracks (segs ++ [dotdot]) (k.turn dotdot) := by
  obtain ⟨kept, passed⟩ := k
  unfold KeptSegs.turn
  rw [if_pos rfl]
  cases passed with
  | some x => exact h.back_stuck
  | none =>
    by_cases hempty : kept = []
    · rw [hempty] at h ⊢
      exact h.back_empty
    · exact h.back_delete hempty

theorem Tracks.dot_turn {segs : List CStr} {k : KeptSegs} (h : Tracks segs k) : Tracks (segs ++ [dot]) (k.turn dot) := by
  have hlast : lastReal (segs ++ [dot]) = lastReal segs := by rw [lastReal_append, if_pos rfl]
  have hresolve : resolve (segs ++ [dot]) = resolve segs := by
    rw [resolve_append, resolveTurn, if_neg (by decide), if_pos rfl]
  have hnamed : EndsNamed (segs ++ [dot]) ↔ EndsNamed segs := by
    unfold EndsNamed
    rw [hlast]
  have happart : BacksApart (segs ++ [dot]) ↔ BacksApart segs := by
    rw [backsApart_append]
    exact ⟨fun h => h.1, fun h => ⟨h, fun hs => absurd hs (by decide)⟩⟩
  rw [KeptSegs.turn, if_neg (by decide), if_pos rfl]
  refine ⟨?_, ?_, ?_, ?_, ?_⟩
  · rw [hnamed]
    exact h.named
  · rw [hlast]
    exact h.back
  · rw [hnamed, hresolve]
    exact h.left
  · rw [hresolve]
    exact h.more
  · rw [hresolve, happart]
    exact h.same

theorem Tracks.name_turn {segs : List CStr} {k : KeptSegs} (h : Tracks segs k) {s : CStr} (hback : s ≠ dotdot)
    (hdot : s ≠ dot) : Tracks (segs ++ [s]) (k.turn s) := by
  have hresolve : resolve (segs ++ [s]) = resolve segs ++ [s] := by
    rw [resolve_append, resolveTurn, if_neg hback, if_neg hdot]
  have hnamed : EndsNamed (segs ++ [s]) := ⟨s, by rw [lastReal_append, if_neg hdot], hback⟩
  have happart : BacksApart (segs ++ [s]) ↔ BacksApart segs := by
    rw [backsApart_append]
    exact ⟨fun h => h.1, fun h => ⟨h, fun hs => absurd hs hback⟩⟩
  rw [KeptSegs.turn, if_neg hback, if_neg hdot]
  refine ⟨⟨fun _ => hnamed, fun _ => ⟨rfl, by simp⟩⟩, fun hn => absurd rfl hn, ?_, ?_, ?_⟩
  · intro _
    rw [hresolve]
    simp
  · rw [hresolve]
    rcases h.more with heq | hlt
    · exact Or.inl (by rw [heq])
    · right
      simp only [List.length_append, List.length_singleton]
      omega
  · rw [hresolve, happart, ← h.same]
    exact List.append_left_inj [s]

theorem tracks_turns (segs : List CStr) : Tracks segs (segs.foldl KeptSegs.turn ⟨[], none⟩) := by
  induction segs using List.reverseRecOn with
  | nil => exact tracks_nil
  | append_singleton segs s ih =>
    rw [List.foldl_append, List.foldl_cons, List.foldl_nil]
    by_cases hback : s = dotdot
    · rw [hback]
      exact ih.back_turn
    · by_cases hdot : s = dot
      · rw [hdot]
        exact ih.dot_turn
      · exact ih.name_turn hback hdot

/-! ## The room a segment has -/

/-- The segments cut to the room there is for one. -/
def KeptSegs.cut (k : KeptSegs) : KeptSegs := { kept := k.kept.map (List.take 255), passed := k.passed.map (List.take 255) }

theorem take_eq_short {s t : CStr} (ht : t.length < 255) : s.take 255 = t ↔ s = t := by
  constructor
  · intro h
    have hlen := congrArg List.length h
    rw [List.length_take] at hlen
    rw [← h, List.take_of_length_le (by omega)]
  · intro h
    rw [h, List.take_of_length_le (by omega)]

theorem KeptSegs.cut_turn (k : KeptSegs) (s : CStr) : (k.turn s).cut = k.cut.turn (s.take 255) := by
  have hdd : s.take 255 = dotdot ↔ s = dotdot := take_eq_short (by decide)
  have hd : s.take 255 = dot ↔ s = dot := take_eq_short (by decide)
  unfold KeptSegs.turn
  by_cases hback : s = dotdot
  · rw [if_pos hback, if_pos (hdd.mpr hback)]
    obtain ⟨kept, passed⟩ := k
    cases passed with
    | some x => rfl
    | none => simp [KeptSegs.cut, List.getLast?_map]
  · rw [if_neg hback, if_neg (fun h => hback (hdd.mp h))]
    by_cases hdot : s = dot
    · rw [if_pos hdot, if_pos (hd.mpr hdot)]
    · rw [if_neg hdot, if_neg (fun h => hdot (hd.mp h))]
      simp [KeptSegs.cut]

theorem KeptSegs.cut_turns (segs : List CStr) : ∀ k : KeptSegs,
    (segs.map (List.take 255)).foldl KeptSegs.turn k.cut = (segs.foldl KeptSegs.turn k).cut := by
  induction segs with
  | nil => intro k; rfl
  | cons s segs ih =>
    intro k
    rw [List.map_cons, List.foldl_cons, List.foldl_cons, ← k.cut_turn s]
    exact ih _

/-! ## The string returned -/

theorem splitOn_text : ∀ {segs : List CStr}, (∀ s ∈ segs, slash ∉ s) → segs ≠ [] →
    (text segs).splitOn slash = [] :: segs := by
  intro segs
  induction segs with
  | nil => intro _ h; exact absurd rfl h
  | cons s segs ih =>
    intro hs _
    have hslash : slash ∉ s := hs s List.mem_cons_self
    have hfirst : (text (s :: segs)).splitOn slash = [] :: (s ++ text segs).splitOn slash :=
      List.splitOn_append_cons_self_of_not_mem List.not_mem_nil (s ++ text segs)
    rw [hfirst]
    cases segs with
    | nil =>
      rw [show text [] = [] from rfl, List.append_nil, List.splitOn_eq_singleton hslash]
    | cons t segs =>
      have htail := ih (fun u hu => hs u (List.mem_cons_of_mem s hu)) (List.cons_ne_nil _ _)
      have hnext : (text (t :: segs)).splitOn slash = [] :: (t ++ text segs).splitOn slash :=
        List.splitOn_append_cons_self_of_not_mem List.not_mem_nil (t ++ text segs)
      rw [hnext] at htail
      have hsplit : (s ++ text (t :: segs)).splitOn slash = s :: (t ++ text segs).splitOn slash :=
        List.splitOn_append_cons_self_of_not_mem hslash (t ++ text segs)
      rw [hsplit, (List.cons.inj htail).2]

theorem text_inj {a b : List CStr} (ha : ∀ s ∈ a, slash ∉ s) (hb : ∀ s ∈ b, slash ∉ s) :
    text a = text b ↔ a = b := by
  constructor
  · intro h
    have hnil : ∀ {l : List CStr}, text l = [] → l = [] := by
      intro l hl
      cases l with
      | nil => rfl
      | cons s l => cases hl
    by_cases hae : a = []
    · rw [hae] at h ⊢
      exact (hnil h.symm).symm
    · by_cases hbe : b = []
      · rw [hbe] at h ⊢
        exact hnil h
      · have hsplit := congrArg (List.splitOn slash) h
        rw [splitOn_text ha hae, splitOn_text hb hbe] at hsplit
        exact (List.cons.inj hsplit).2
  · intro h
    rw [h]

theorem intercalate_text : ∀ {segs : List CStr}, segs ≠ [] → slash :: [slash].intercalate segs = text segs := by
  intro segs
  induction segs with
  | nil => intro h; exact absurd rfl h
  | cons s segs ih =>
    intro _
    cases segs with
    | nil => simp [text]
    | cons t segs =>
      have hrest := ih (List.cons_ne_nil t segs)
      rw [List.intercalate_cons_cons]
      simp only [text, List.flatMap_cons, List.cons_append, List.append_assoc, List.nil_append] at hrest ⊢
      rw [hrest]

theorem canonical_eq (path : CStr) :
    canonical path =
      if path.getLast? = some slash then text (resolve (segments path)) ++ [slash]
      else if resolve (segments path) = [] then [slash] else text (resolve (segments path)) := by
  unfold canonical
  by_cases hnil : resolve (segments path) = []
  · rw [hnil]
    by_cases hend : path.getLast? = some slash
    · simp [text]
    · simp [hend]
  · rw [intercalate_text hnil]
    by_cases hend : path.getLast? = some slash
    · simp [hend, hnil]
    · simp [hend, hnil]

theorem segments_concat_slash (p : CStr) : segments (p ++ [slash]) = segments p := by
  unfold segments
  rw [List.splitOn_append_cons_self, List.filter_append, List.splitOn_nil]
  simp

theorem text_segments_room {path : CStr} (habs : path.head? = some slash) :
    (text (segments path)).length + (if path.getLast? = some slash then 1 else 0) ≤ path.length := by
  have hroom : ∀ {p : CStr}, p.head? = some slash → (text (segments p)).length ≤ p.length := by
    intro p hp
    have hfacts := (segments_facts p.length p (Nat.le_refl _)).2
    rw [if_pos hp] at hfacts
    omega
  by_cases hend : path.getLast? = some slash
  · rw [if_pos hend]
    obtain ⟨p, rfl⟩ : ∃ p, path = p ++ [slash] :=
      ⟨path.dropLast, (List.dropLast_append_getLast? slash hend).symm⟩
    rw [segments_concat_slash, List.length_append, List.length_singleton]
    cases p with
    | nil => decide
    | cons b p =>
      have hp : (b :: p).head? = some slash := by simpa using habs
      exact Nat.succ_le_succ (hroom hp)
  · rw [if_neg hend]
    exact hroom habs

/-- What the walk of a path leaves. -/
def walked (path : CStr) : KeptSegs := (segments path).foldl KeptSegs.turn ⟨[], none⟩

theorem canonWalk_shows {path : CStr} (habs : path.head? = some slash) (hwalk : Walkable (segments path)) :
    ∃ c, canonWalk path = some c ∧ Shows c (walked path).cut := by
  have hfacts := (segments_facts path.length path (Nat.le_refl _)).1
  have hstart : Shows { buf := fun _ => 0, ptr := 0 } (KeptSegs.cut ⟨[], none⟩) :=
    ⟨⟨rfl, trivial⟩, rfl, fun s hs => absurd hs List.not_mem_nil⟩
  have hplain : ∀ s ∈ (segments path).map (List.take 255), slash ∉ s := by
    intro s hs
    obtain ⟨t, ht, rfl⟩ := List.mem_map.mp hs
    exact fun hin => (hfacts t ht).2.1 (List.mem_of_mem_take hin)
  obtain ⟨turns, hturns, hsegs⟩ := pathWalk_segments habs hwalk
  have hend := hstart.turns hplain
  rw [KeptSegs.cut_turns, ← hsegs] at hend
  exact ⟨_, by rw [canonWalk, hturns, Option.map_some], hend⟩

/-- What the walk shows is text of the path: no `NUL` in it, and room for it. -/
theorem walked_text {path : CStr} (habs : path.head? = some slash) (hfree : ∀ b ∈ path, b ≠ 0) :
    (∀ b ∈ text (walked path).cut.all, b ≠ 0) ∧
    (text (walked path).cut.all).length + (if path.getLast? = some slash then 1 else 0) ≤ path.length ∧
    ∀ s ∈ (walked path).cut.all, s ≠ [] ∧ slash ∉ s := by
  have hfacts := (segments_facts path.length path (Nat.le_refl _)).1
  have hroom := text_segments_room habs
  obtain ⟨hmem, hlen⟩ := KeptSegs.turns_bound ((segments path).map (List.take 255))
  have hcut : ((segments path).map (List.take 255)).foldl KeptSegs.turn ⟨[], none⟩ = (walked path).cut :=
    KeptSegs.cut_turns (segments path) ⟨[], none⟩
  rw [hcut] at hmem hlen
  -- cutting a segment does not make the text longer
  have hshort : (text ((segments path).map (List.take 255))).length ≤ (text (segments path)).length := by
    generalize segments path = segs
    induction segs with
    | nil => exact Nat.le_refl _
    | cons s segs ih =>
      simp only [text, List.map_cons, List.flatMap_cons, List.length_append, List.length_cons, List.length_take] at ih ⊢
      omega
  have hof : ∀ s ∈ (walked path).cut.all, ∃ t ∈ segments path, s = t.take 255 := by
    intro s hs
    obtain ⟨t, ht, rfl⟩ := List.mem_map.mp (hmem s hs)
    exact ⟨t, ht, rfl⟩
  refine ⟨?_, by omega, ?_⟩
  · intro b hb
    obtain ⟨s, hs, hbs⟩ := List.mem_flatMap.mp hb
    obtain ⟨t, ht, rfl⟩ := hof s hs
    rcases List.mem_cons.mp hbs with rfl | hbs
    · decide
    · exact hfree b ((hfacts t ht).2.2 b (List.mem_of_mem_take hbs))
  · intro s hs
    obtain ⟨t, ht, rfl⟩ := hof s hs
    refine ⟨?_, fun hin => (hfacts t ht).2.1 (List.mem_of_mem_take hin)⟩
    intro hnil
    rw [List.take_eq_nil_iff] at hnil
    rcases hnil with hnil | hnil
    · cases hnil
    · exact (hfacts t ht).1 hnil

theorem fsToAbsolutePath_eq {localPath : CStr} {base : Option CStr} {path : CStr} (hpath : joinPath localPath base = some path)
    (habs : path.head? = some slash) (hfree : ∀ b ∈ path, b ≠ 0) (hwalk : Walkable (segments path)) :
    fsToAbsolutePath localPath base =
      some (if path.getLast? = some slash then text (walked path).cut.kept ++ [slash] else text (walked path).cut.all) := by
  obtain ⟨c, hc, hshows⟩ := canonWalk_shows habs hwalk
  obtain ⟨hnul, hroom, -⟩ := walked_text habs hfree
  simp only [fsToAbsolutePath, hpath, hc, Option.bind_some, Option.map_some, Option.some.injEq]
  by_cases hend : path.getLast? = some slash
  · rw [if_pos hend, if_pos hend]
    rw [if_pos hend] at hroom
    -- the `'/'` and the `NUL` at the end are written at `ptr`
    have hst := hshows.stands
    rw [KeptSegs.all, text_append] at hst hnul hroom
    rw [List.append_assoc, stands_append] at hst
    apply strAt_eq
    · rw [List.append_assoc, stands_append, Nat.zero_add, ← hshows.ptr]
      refine ⟨?_, ?_, ?_, trivial⟩
      · apply stands_congr _ hst.1
        intro x _ hx
        rw [Nat.zero_add, ← hshows.ptr] at hx
        rw [Function.update_of_ne (by omega), Function.update_of_ne (by omega)]
      · rw [Function.update_of_ne (by omega), Function.update_self]
      · exact Function.update_self _ _ _
    · intro b hb
      rcases List.mem_append.mp hb with hb | hb
      · exact hnul b (List.mem_append_left _ hb)
      · rw [List.mem_singleton.mp hb]
        decide
    · rw [List.length_append, List.length_singleton]
      rw [List.length_append] at hroom
      omega
  · rw [if_neg hend, if_neg hend]
    rw [if_neg hend] at hroom
    exact strAt_eq hshows.stands hnul (by omega)

theorem cut_kept_iff (path : CStr) :
    (walked path).cut.kept = resolve (segments path) ↔
      BacksApart (segments path) ∧ ∀ s ∈ resolve (segments path), s.length ≤ 255 := by
  have htracks := tracks_turns (segments path)
  have hcut : (walked path).cut.kept = (walked path).kept.map (List.take 255) := rfl
  rw [← htracks.same, hcut]
  have hfits : ∀ l : List CStr, l.map (List.take 255) = l ↔ ∀ s ∈ l, s.length ≤ 255 := by
    intro l
    have hself : l.map (List.take 255) = l ↔ ∀ s ∈ l, s.take 255 = id s := by
      conv_lhs => rhs; rw [← List.map_id l]
      exact List.map_inj_left
    rw [hself]
    constructor
    · intro h s hs
      have hlen := congrArg List.length (h s hs)
      rw [List.length_take, id] at hlen
      omega
    · intro h s hs
      exact List.take_of_length_le (h s hs)
  constructor
  · intro h
    -- what is kept is never shorter, so equal lengths mean the same segments
    have hsame : (walked path).kept = resolve (segments path) := by
      rcases htracks.more with heq | hlt
      · exact heq
      · have hlen := congrArg List.length h
        rw [List.length_map] at hlen
        exact absurd hlt (by rw [← hlen]; exact Nat.lt_irrefl _)
    rw [hsame] at h
    exact ⟨hsame, (hfits _).mp h⟩
  · rintro ⟨hsame, hshort⟩
    have hk : (walked path).kept = resolve (segments path) := hsame
    rw [hk]
    exact (hfits _).mpr hshort

theorem fullPath_absolute (base : DirPath) (localPath : CStr) :
    (fullPath localPath (some base.bytes)).head? = some slash := by
  unfold fullPath
  by_cases h : localPath.head? = some slash
  · simp only [if_pos h]
    exact h
  · simp only [if_neg h]
    rw [List.head?_append, base.absolute]
    rfl

theorem fullPath_nulFree (base : DirPath) {localPath : CStr} (hlocal : ∀ b ∈ localPath, b ≠ 0) :
    ∀ b ∈ fullPath localPath (some base.bytes), b ≠ 0 := by
  unfold fullPath
  by_cases h : localPath.head? = some slash
  · simp only [if_pos h]
    exact hlocal
  · simp only [if_neg h]
    intro b hb
    rcases List.mem_append.mp hb with hb | hb
    · exact base.nulFree b hb
    · exact hlocal b hb

theorem joinPath_eq (base : DirPath) (localPath : CStr) :
    joinPath localPath (some base.bytes) =
      if Joins localPath base.bytes then some (fullPath localPath (some base.bytes)) else none := by
  by_cases habs : localPath.head? = some slash
  · have hjoins : Joins localPath base.bytes := .inl habs
    simp only [joinPath, fullPath, if_pos habs, if_pos hjoins]
  · have hiff : Joins localPath base.bytes ↔ base.bytes.length < 2^31 ∧ localPath.length < 2^31 := or_iff_right habs
    simp only [joinPath, fullPath, if_neg habs]
    exact (if_congr hiff rfl rfl).symm

theorem fsToAbsolutePath_some {base : DirPath} {localPath path : CStr}
    (h : fsToAbsolutePath localPath (some base.bytes) = some path) :
    Joins localPath base.bytes ∧ Walkable (segments (fullPath localPath (some base.bytes))) := by
  obtain ⟨joined, hjoined, h⟩ := Option.bind_eq_some_iff.mp h
  obtain ⟨c, hc, -⟩ := Option.map_eq_some_iff.mp h
  obtain ⟨turns, hturns, -⟩ := Option.map_eq_some_iff.mp hc
  rw [joinPath_eq] at hjoined
  split at hjoined
  · next hjoins =>
    cases hjoined
    rw [pathWalk_eq (fullPath_absolute base localPath)] at hturns
    split at hturns
    · next hwalk => exact ⟨hjoins, hwalk⟩
    · cases hturns
  · cases hjoined

/-- A working directory. -/
def homeBase : DirPath := { bytes := cstr "/home/", nulFree := by decide, absolute := rfl, closed := rfl }

end Aex.Fs
