import Mathlib.Data.List.Induction
import AexKernel.Kernel
import AexKernel.Fs.Path
import AexKernel.Rc.Foreach
import AexKernel.Rc.Quiet

/- Which mount a path goes to (`fs_get_mount` of `fs.c`).

   Mounts are only ever added, so the table has no holes, and `fs_mount` gives
   every path a `'/'` at its end. `fs_get_mount` compares the bytes of a mount
   path but that last one and keeps the last of the longest that agree. It does
   not look at what follows those bytes in the path, so `/devices` goes to a
   mount on `/dev/`. Lengths are those of strings the kernel holds, for which an
   `int` has room. -/
namespace Aex.Fs

open Aex.Rc

/-- A byte of a string, its `NUL` included. -/
def byteAt (s : CStr) (i : Nat) : Nat := s.getD i 0

/-- `memcmp`: `size` bytes from `i` on are still to be compared. -/
def memcmp (a b : Nat → Nat) : Nat → Nat → Int
  | 0, _ => 0
  | size + 1, i => if a i < b i then -1 else if b i < a i then 1 else memcmp a b size (i + 1)

/-- `sel_id` and `spec_len`. -/
structure Selection where
  selId : Int
  specLen : Nat
  deriving DecidableEq, Repr

/-- The body of the loop; a `NULL` from `rcparray_get` would be followed. The
reference `rcparray_get` takes is given back at the end of the body. -/
def getMountTurn (mounts : Rc.Array DirPath) (path : CStr) (mntId : Nat) : Option Selection → Option Selection
  | none => none
  | some c => match (arrayGet mounts mntId).1 with
    | none => none
    | some mount =>
      let pathLen := mount.bytes.length - 1
      if memcmp (byteAt mount.bytes) (byteAt path) pathLen 0 = 0 ∧ c.specLen ≤ pathLen then
        some { selId := mntId, specLen := pathLen }
      else some c

/-- `fs_get_mount`: the code returned and `*new_path` where it is set. -/
def fsGetMount (mounts : Rc.Array DirPath) (path : CStr) : Option (Int × Option CStr) :=
  match foreach mounts (getMountTurn mounts path) (mounts.length + 1) 0 (some { selId := -enoent, specLen := 0 }) with
  | none => none
  | some none => none
  | some (some c) =>
    if c.selId < 0 then some (c.selId, none)
    else if byteAt path c.specLen ≠ slash then some (c.selId, some (cstr "/"))
    else some (c.selId, some (path.drop c.specLen))

/-- The table after `fs_mount` has added the mounts in this order. -/
def mountTable (mounts : List DirPath) : Rc.Array DirPath :=
  mounts.foldl (fun a mount => (arrayAdd a mount).2) []

/-! ## What the call is for -/

/-- The mount path is a prefix of the path component by component. -/
def DirPath.On (m : DirPath) (p : AbsPath) : Prop := m.bytes <+: p.bytes ∨ p.bytes ++ [slash] = m.bytes

/-- What is left of the path from the final `'/'` of the mount path on. -/
def DirPath.remainder (m : DirPath) (p : AbsPath) : CStr :=
  if p.bytes.drop (m.bytes.length - 1) = [] then cstr "/" else p.bytes.drop (m.bytes.length - 1)

/-- The longest mount path the path lies on is selected, the one added last among
equal ones, and `*new_path` is the remainder. -/
def Routed (mounts : List DirPath) (p : AbsPath) : Prop :=
  ∃ (id : Nat) (m : DirPath), mounts[id]? = some m ∧ m.On p ∧
    (∀ (id' : Nat) (m' : DirPath), mounts[id']? = some m' → m'.On p →
      m'.bytes.length < m.bytes.length ∨ m'.bytes = m.bytes ∧ id' ≤ id) ∧
    fsGetMount (mountTable mounts) p.bytes = some ((id : Int), some (m.remainder p))

/-- The path has all bytes of the mount path but its last `'/'`. -/
def DirPath.Shares (m : DirPath) (p : AbsPath) : Prop := m.bytes.dropLast <+: p.bytes

/-- A mount path that only shares its bytes with the path is shorter than one the
path lies on. -/
def LookalikesShorter (mounts : List DirPath) (p : AbsPath) : Prop :=
  ∀ m ∈ mounts, m.Shares p → ¬ m.On p → ∃ m' ∈ mounts, m'.On p ∧ m.bytes.length < m'.bytes.length

/-! ## The comparison -/

theorem memcmp_eq_zero {a b : Nat → Nat} : ∀ (size i : Nat),
    memcmp a b size i = 0 ↔ ∀ j, i ≤ j → j < i + size → a j = b j := by
  intro size
  induction size with
  | zero =>
    intro i
    simp only [memcmp, true_iff]
    intro j hj hj'
    omega
  | succ size ih =>
    intro i
    simp only [memcmp]
    rcases Nat.lt_trichotomy (a i) (b i) with hlt | heq | hgt
    · rw [if_pos hlt]
      constructor
      · intro h
        cases h
      · intro h
        have hi := h i (Nat.le_refl i) (by omega)
        omega
    · rw [if_neg (by omega), if_neg (by omega), ih (i + 1)]
      constructor
      · intro h j hj hj'
        by_cases hji : j = i
        · rw [hji]
          exact heq
        · exact h j (by omega) (by omega)
      · intro h j hj hj'
        exact h j (by omega) (by omega)
    · rw [if_neg (by omega), if_pos hgt]
      constructor
      · intro h
        cases h
      · intro h
        have hi := h i (Nat.le_refl i) (by omega)
        omega

theorem byteAt_lt {s : CStr} {i : Nat} (h : i < s.length) : byteAt s i = s[i] := by
  simp [byteAt, List.getD, h]

theorem byteAt_ge {s : CStr} {i : Nat} (h : s.length ≤ i) : byteAt s i = 0 := by
  simp [byteAt, List.getD, h]

/-- The comparison ends at the `NUL` of the shorter string, which no byte of the
other one equals. -/
theorem memcmp_take {m p : CStr} (hm : ∀ b ∈ m, b ≠ 0) {n : Nat} (hn : n ≤ m.length) :
    memcmp (byteAt m) (byteAt p) n 0 = 0 ↔ m.take n <+: p := by
  rw [memcmp_eq_zero, List.prefix_iff_getElem]
  constructor
  · intro h
    have hle : n ≤ p.length := by
      apply Nat.le_of_not_lt
      intro hlt
      have hp := h p.length (Nat.zero_le _) (by omega)
      rw [byteAt_ge (Nat.le_refl _), byteAt_lt (by omega)] at hp
      exact hm _ (List.getElem_mem _) hp
    refine ⟨by rw [List.length_take]; omega, ?_⟩
    intro j hj
    rw [List.length_take] at hj
    have hb := h j (Nat.zero_le _) (by omega)
    rw [byteAt_lt (by omega), byteAt_lt (by omega)] at hb
    rw [List.getElem_take]
    exact hb
  · rintro ⟨hlen, h⟩ j - hj
    rw [List.length_take] at hlen
    have hb := h j (by rw [List.length_take]; omega)
    rw [List.getElem_take] at hb
    rw [byteAt_lt (by omega), byteAt_lt (by omega)]
    exact hb

theorem DirPath.shares_iff (m : DirPath) (p : AbsPath) :
    memcmp (byteAt m.bytes) (byteAt p.bytes) (m.bytes.length - 1) 0 = 0 ↔ m.Shares p := by
  rw [memcmp_take m.nulFree (Nat.sub_le _ _), DirPath.Shares, List.dropLast_eq_take]

/-! ## Mount paths and the paths on them -/

section Paths

variable {m m' : DirPath} {p : AbsPath}

theorem DirPath.bytes_eq (m : DirPath) : m.bytes = m.bytes.dropLast ++ [slash] :=
  (List.dropLast_append_getLast? slash m.closed).symm

theorem DirPath.length_pos (m : DirPath) : 0 < m.bytes.length := by
  rw [m.bytes_eq, List.length_append, List.length_singleton]
  omega

/-- The path lies on the mount path when it goes on with a `'/'` behind what they
share, or ends there. -/
theorem DirPath.on_iff (m : DirPath) (p : AbsPath) :
    m.On p ↔ m.Shares p ∧
      (p.bytes.drop (m.bytes.length - 1) = [] ∨ byteAt p.bytes (m.bytes.length - 1) = slash) := by
  have hlen : m.bytes.dropLast.length = m.bytes.length - 1 := List.length_dropLast
  constructor
  · rintro (⟨t, ht⟩ | h)
    · rw [m.bytes_eq, List.append_assoc] at ht
      refine ⟨⟨_, ht⟩, Or.inr ?_⟩
      rw [← ht, ← hlen]
      simp [byteAt, List.getD]
    · have hp : p.bytes = m.bytes.dropLast := by rw [← h, List.dropLast_concat]
      refine ⟨⟨[], ?_⟩, Or.inl ?_⟩
      · rw [List.append_nil, hp]
      · rw [List.drop_eq_nil_iff, hp, hlen]
  · rintro ⟨⟨t, ht⟩, h | h⟩
    · have hdrop : t = [] := by
        rw [← ht, ← hlen, List.drop_left] at h
        exact h
      rw [hdrop, List.append_nil] at ht
      right
      rw [← ht]
      exact m.bytes_eq.symm
    · cases t with
      | nil =>
        rw [← ht, ← hlen, List.append_nil, byteAt_ge (Nat.le_refl _)] at h
        exact absurd h (by decide)
      | cons b t =>
        have hb : b = slash := by
          rw [← ht, ← hlen] at h
          simpa [byteAt, List.getD] using h
        left
        refine ⟨t, ?_⟩
        rw [m.bytes_eq, List.append_assoc, ← ht, hb]
        rfl

/-- Two mount paths of one length that share their bytes with one path are
equal. -/
theorem DirPath.bytes_eq_of_length (h : m.Shares p) (h' : m'.Shares p) (hlen : m.bytes.length = m'.bytes.length) :
    m.bytes = m'.bytes := by
  have hdrop : m.bytes.dropLast = m'.bytes.dropLast := by
    rw [List.prefix_iff_eq_take.mp h, List.prefix_iff_eq_take.mp h', List.length_dropLast, List.length_dropLast, hlen]
  rw [m.bytes_eq, m'.bytes_eq, hdrop]

theorem DirPath.on_congr (h : m.bytes = m'.bytes) : m.On p ↔ m'.On p := by
  unfold DirPath.On
  rw [h]

end Paths

/-! ## The loop -/

theorem mountTable_eq (mounts : List DirPath) :
    mountTable mounts = mounts.map (fun m => some (Entry.resting m)) := by
  unfold mountTable
  induction mounts using List.reverseRecOn with
  | nil => rfl
  | append_singleton mounts m ih =>
    rw [List.foldl_append, ih, List.map_append, List.foldl_cons, List.foldl_nil, arrayAdd_full]
    rfl

theorem mountTable_length (mounts : List DirPath) : (mountTable mounts).length = mounts.length := by
  rw [mountTable_eq, List.length_map]

theorem mountTable_slot (mounts : List DirPath) (id : Nat) :
    slot (mountTable mounts) id = mounts[id]?.map Entry.resting := by
  rw [mountTable_eq, slot, List.getElem?_map]
  cases mounts[id]? with
  | none => rfl
  | some m => rfl

theorem mountTable_get (mounts : List DirPath) (id : Nat) : (arrayGet (mountTable mounts) id).1 = mounts[id]? := by
  unfold arrayGet
  rw [mountTable_slot]
  cases mounts[id]? with
  | none => rfl
  | some m => rfl

theorem mountTable_test (mounts : List DirPath) (id : Nat) :
    foreachTest (mountTable mounts) id = true ↔ id < mounts.length := by
  rw [foreachTest_iff]
  constructor
  · rintro ⟨j, hj, hp⟩
    have hlt := present_lt hp
    rw [mountTable_length] at hlt
    omega
  · intro hlt
    refine ⟨id, Nat.le_refl id, present_iff.mpr ⟨Entry.resting mounts[id], ?_, rfl⟩⟩
    rw [mountTable_slot, List.getElem?_eq_getElem hlt]
    rfl

/-- After the ids below `k`: the last of the longest mounts that share their bytes
with the path, if there is one. -/
def Best (mounts : List DirPath) (p : AbsPath) (k : Nat) (c : Selection) : Prop :=
  (c = { selId := -enoent, specLen := 0 } ∧ ∀ (id : Nat) (m : DirPath), id < k → mounts[id]? = some m → ¬ m.Shares p) ∨
  ∃ (id : Nat) (m : DirPath), mounts[id]? = some m ∧ m.Shares p ∧ c = { selId := id, specLen := m.bytes.length - 1 } ∧
    ∀ (id' : Nat) (m' : DirPath), id' < k → mounts[id']? = some m' → m'.Shares p →
      m'.bytes.length < m.bytes.length ∨ m'.bytes.length = m.bytes.length ∧ id' ≤ id

theorem getMountTurn_best {mounts : List DirPath} {p : AbsPath} {k : Nat} (hk : k < mounts.length) {c : Selection}
    (h : Best mounts p k c) : ∃ c', getMountTurn (mountTable mounts) p.bytes k (some c) = some c' ∧
      Best mounts p (k + 1) c' := by
  have hm : mounts[k]? = some mounts[k] := List.getElem?_eq_getElem hk
  have hlast : ∀ {id : Nat} {m : DirPath}, id < k + 1 → mounts[id]? = some m → ¬ id < k → id = k ∧ m = mounts[k] := by
    intro id m hid hget hnot
    have hidk : id = k := by omega
    rw [hidk, hm] at hget
    exact ⟨hidk, (Option.some.inj hget).symm⟩
  simp only [getMountTurn, mountTable_get, hm]
  by_cases hshares : (mounts[k]).Shares p
  · by_cases hlong : c.specLen ≤ (mounts[k]).bytes.length - 1
    · -- the mount at hand is at least as long as what was selected before
      rw [if_pos ⟨((mounts[k]).shares_iff p).mpr hshares, hlong⟩]
      refine ⟨_, rfl, Or.inr ⟨k, mounts[k], hm, hshares, rfl, ?_⟩⟩
      intro id' m' hid' hget' hshares'
      by_cases hidk : id' < k
      · rcases h with ⟨-, hnone⟩ | ⟨id, m, -, -, rfl, hbest⟩
        · exact absurd hshares' (hnone id' m' hidk hget')
        · have hpos := (mounts[k]).length_pos
          have hpos' := m.length_pos
          have hcmp := hbest id' m' hidk hget' hshares'
          simp only at hlong
          omega
      · obtain ⟨rfl, rfl⟩ := hlast hid' hget' hidk
        exact Or.inr ⟨rfl, Nat.le_refl _⟩
    -- a shorter one does not replace what was selected
    · rw [if_neg (fun hand => hlong hand.2)]
      refine ⟨_, rfl, ?_⟩
      rcases h with ⟨rfl, -⟩ | ⟨id, m, hget, hs, rfl, hbest⟩
      · exact absurd (Nat.zero_le _) hlong
      · refine Or.inr ⟨id, m, hget, hs, rfl, ?_⟩
        intro id' m' hid' hget' hshares'
        by_cases hidk : id' < k
        · exact hbest id' m' hidk hget' hshares'
        · obtain ⟨rfl, rfl⟩ := hlast hid' hget' hidk
          simp only at hlong
          omega
  · rw [if_neg (fun hand => hshares (((mounts[k]).shares_iff p).mp hand.1))]
    refine ⟨_, rfl, ?_⟩
    rcases h with ⟨rfl, hnone⟩ | ⟨id, m, hget, hs, rfl, hbest⟩
    · refine Or.inl ⟨rfl, ?_⟩
      intro id' m' hid' hget'
      by_cases hidk : id' < k
      · exact hnone id' m' hidk hget'
      · obtain ⟨rfl, rfl⟩ := hlast hid' hget' hidk
        exact hshares
    · refine Or.inr ⟨id, m, hget, hs, rfl, ?_⟩
      intro id' m' hid' hget' hshares'
      by_cases hidk : id' < k
      · exact hbest id' m' hidk hget' hshares'
      · obtain ⟨rfl, rfl⟩ := hlast hid' hget' hidk
        exact absurd hshares' hshares

theorem getMountTurns_best (mounts : List DirPath) (p : AbsPath) : ∀ k ≤ mounts.length,
    ∃ c, (List.range k).foldl (fun s id => getMountTurn (mountTable mounts) p.bytes id s)
      (some { selId := -enoent, specLen := 0 }) = some c ∧ Best mounts p k c := by
  intro k
  induction k with
  | zero =>
    intro _
    exact ⟨_, rfl, Or.inl ⟨rfl, fun id m hid => absurd hid (Nat.not_lt_zero id)⟩⟩
  | succ k ih =>
    intro hk
    obtain ⟨c, hrun, hbest⟩ := ih (Nat.le_of_succ_le hk)
    obtain ⟨c', hturn, hbest'⟩ := getMountTurn_best hk hbest
    refine ⟨c', ?_, hbest'⟩
    rw [List.range_succ, List.foldl_append, hrun]
    exact hturn

theorem getMountLoop_best (mounts : List DirPath) (p : AbsPath) :
    ∃ c, foreach (mountTable mounts) (getMountTurn (mountTable mounts) p.bytes) ((mountTable mounts).length + 1) 0
      (some { selId := -enoent, specLen := 0 }) = some (some c) ∧ Best mounts p mounts.length c := by
  obtain ⟨c, hrun, hbest⟩ := getMountTurns_best mounts p mounts.length (Nat.le_refl _)
  have htest := mountTable_test mounts
  obtain ⟨t, ht⟩ := foreach_ends htest (getMountTurn (mountTable mounts) p.bytes) mounts.length 0
    (some { selId := -enoent, specLen := 0 }) (Nat.sub_zero _)
  have hfold := foreach_eq htest _ _ 0 _ t (Nat.zero_le _) ht
  rw [Nat.sub_zero, ← List.range_eq_range', hrun] at hfold
  rw [mountTable_length, ht, hfold]
  exact ⟨c, rfl, hbest⟩

/-! ## What the call returns -/

/-- The mount is the last of the longest that share their bytes with the path, and what
`fs_get_mount` returns is that mount and what it takes for the remainder. -/
structure Selected (mounts : List DirPath) (p : AbsPath) (id : Nat) (m : DirPath) : Prop where
  mount : mounts[id]? = some m
  shares : m.Shares p
  best : ∀ (id' : Nat) (m' : DirPath), mounts[id']? = some m' → m'.Shares p →
    m'.bytes.length < m.bytes.length ∨ m'.bytes.length = m.bytes.length ∧ id' ≤ id
  ret : fsGetMount (mountTable mounts) p.bytes = some ((id : Int), some
    (if byteAt p.bytes (m.bytes.length - 1) ≠ slash then cstr "/" else p.bytes.drop (m.bytes.length - 1)))

/-- `fs_get_mount` returns the last of the longest mounts that share their bytes with
the path, or an error when none does. -/
theorem fsGetMount_cases (mounts : List DirPath) (p : AbsPath) :
    (fsGetMount (mountTable mounts) p.bytes = some (-enoent, none) ∧ ∀ m ∈ mounts, ¬ m.Shares p) ∨
      ∃ (id : Nat) (m : DirPath), Selected mounts p id m := by
  obtain ⟨c, hrun, hbest⟩ := getMountLoop_best mounts p
  have hlt : ∀ {id : Nat} {m : DirPath}, mounts[id]? = some m → id < mounts.length := by
    intro id m hget
    exact (List.getElem?_eq_some_iff.mp hget).1
  rcases hbest with ⟨rfl, hnone⟩ | ⟨id, m, hget, hshares, rfl, hbest⟩
  · refine Or.inl ⟨?_, fun m hm => ?_⟩
    · unfold fsGetMount
      rw [hrun]
      rfl
    · obtain ⟨id, hget⟩ := List.mem_iff_getElem?.mp hm
      exact hnone id m (hlt hget) hget
  · refine Or.inr ⟨id, m, hget, hshares, fun id' m' hget' => hbest id' m' (hlt hget') hget', ?_⟩
    have hid : ¬ (id : Int) < 0 := by omega
    unfold fsGetMount
    rw [hrun]
    simp only [if_neg hid]
    split
    · rfl
    · rfl

/-- With the root mounted `fs_get_mount` returns the last of the longest mounts
that share their bytes with the path. -/
theorem fsGetMount_spec {mounts : List DirPath} (hroot : ∃ m ∈ mounts, m.bytes = cstr "/") (p : AbsPath) :
    ∃ (id : Nat) (m : DirPath), Selected mounts p id m := by
  rcases fsGetMount_cases mounts p with ⟨-, hnone⟩ | hselected
  · obtain ⟨m, hm, hbytes⟩ := hroot
    refine absurd ?_ (hnone m hm)
    rw [DirPath.Shares, hbytes]
    exact List.nil_prefix
  · exact hselected

theorem remainder_eq {m : DirPath} {p : AbsPath} (h : m.On p) :
    (if byteAt p.bytes (m.bytes.length - 1) ≠ slash then cstr "/" else p.bytes.drop (m.bytes.length - 1)) =
      m.remainder p := by
  unfold DirPath.remainder
  obtain ⟨-, hend | hslash⟩ := (m.on_iff p).mp h
  · have hbyte : byteAt p.bytes (m.bytes.length - 1) = 0 := byteAt_ge (List.drop_eq_nil_iff.mp hend)
    rw [if_pos (by rw [hbyte]; decide), if_pos hend]
  · have hne : p.bytes.drop (m.bytes.length - 1) ≠ [] := by
      intro hend
      rw [byteAt_ge (List.drop_eq_nil_iff.mp hend)] at hslash
      exact absurd hslash (by decide)
    rw [if_neg (fun hbyte => hbyte hslash), if_neg hne]

theorem on_shares {m : DirPath} {p : AbsPath} (h : m.On p) : m.Shares p := ((m.on_iff p).mp h).1

/-- Where no mount path that only shares its bytes with the path is longer, what is
selected is the mount the path lies on. -/
theorem Selected.routed {mounts : List DirPath} {p : AbsPath} {sel : Nat} {m : DirPath} (h : Selected mounts p sel m)
    (hshorter : LookalikesShorter mounts p) : m.On p ∧ Routed mounts p := by
  have hon : m.On p := by
    by_contra hoff
    obtain ⟨a, ha, hona, hlt⟩ := hshorter m (List.mem_of_getElem? h.mount) h.shares hoff
    obtain ⟨i, hi⟩ := List.mem_iff_getElem?.mp ha
    have hcmp := h.best i a hi (on_shares hona)
    omega
  refine ⟨hon, sel, m, h.mount, hon, ?_, ?_⟩
  · intro id' m' hget' hon'
    rcases h.best id' m' hget' (on_shares hon') with hlt | ⟨heq, hle⟩
    · exact Or.inl hlt
    · exact Or.inr ⟨DirPath.bytes_eq_of_length (on_shares hon') h.shares heq, hle⟩
  · rw [h.ret, remainder_eq hon]

/-- **A path goes to the mount it lies on exactly when every mount path that only
shares its bytes with it is shorter than one it lies on.** -/
theorem fsGetMount_routed_iff {mounts : List DirPath} (hroot : ∃ m ∈ mounts, m.bytes = cstr "/") (p : AbsPath) :
    Routed mounts p ↔ LookalikesShorter mounts p := by
  obtain ⟨sel, m, h⟩ := fsGetMount_spec hroot p
  constructor
  · rintro ⟨id, m', hget', hon', -, hret'⟩ a ha hshares' hoff
    -- what is selected is both the longest that shares and on the path
    rw [h.ret] at hret'
    have hid : sel = id := by
      have := congrArg (fun r => r.map Prod.fst) hret'
      simp only [Option.map_some, Option.some.injEq] at this
      omega
    have hget := h.mount
    rw [hid, hget'] at hget
    obtain rfl : m' = m := Option.some.inj hget
    obtain ⟨i, hi⟩ := List.mem_iff_getElem?.mp ha
    refine ⟨m', List.mem_of_getElem? hget', hon', ?_⟩
    rcases h.best i a hi hshares' with hlt | ⟨heq, -⟩
    · exact hlt
    · exact absurd ((DirPath.on_congr (DirPath.bytes_eq_of_length hshares' h.shares heq)).mpr hon') hoff
  · intro hshorter
    exact (h.routed hshorter).2

/-- The mounts of the boot: the root and `devfs`. -/
def bootMounts : List DirPath :=
  [{ bytes := cstr "/", nulFree := by decide, absolute := rfl, closed := rfl },
   { bytes := cstr "/dev/", nulFree := by decide, absolute := rfl, closed := rfl }]

/-- A path on `devfs` goes there although the root shares its bytes too. -/
theorem fsGetMount_routed_dev : LookalikesShorter bootMounts ⟨cstr "/dev/tty0", by decide, rfl⟩ ∧
    Routed bootMounts ⟨cstr "/dev/tty0", by decide, rfl⟩ := by
  have hshorter : LookalikesShorter bootMounts ⟨cstr "/dev/tty0", by decide, rfl⟩ := by
    intro m hm _ hoff
    simp only [bootMounts, List.mem_cons, List.not_mem_nil, or_false] at hm
    rcases hm with rfl | rfl
    · exact absurd (Or.inl (by decide)) hoff
    · exact absurd (Or.inl (by decide)) hoff
  exact ⟨hshorter, (fsGetMount_routed_iff ⟨_, List.mem_cons_self, rfl⟩ _).mpr hshorter⟩

/-- `/devices` goes to the mount on `/dev/`, on which it does not lie. -/
theorem fsGetMount_devices_to_dev :
    fsGetMount (mountTable bootMounts) (cstr "/devices") = some (1, some (cstr "/")) ∧
    ¬ Routed bootMounts ⟨cstr "/devices", by decide, rfl⟩ := by
  have hret : fsGetMount (mountTable bootMounts) (cstr "/devices") = some (1, some (cstr "/")) := by decide
  refine ⟨hret, ?_⟩
  rintro ⟨id, m, hget, hon, -, hret'⟩
  rw [hret] at hret'
  have hid : id = 1 := by
    have hfst := congrArg (fun r => r.map Prod.fst) hret'
    simp only [Option.map_some, Option.some.injEq] at hfst
    omega
  rw [hid] at hget
  cases hget
  rcases hon with hon | hon
  · exact absurd hon (by decide)
  · exact absurd hon (by decide)

end Aex.Fs
