import AexKernel.Fs.Devfs
import AexKernel.Fs.MountLookup
import AexKernel.Fs.PathWalk
import AexKernel.Lib.Runs
import AexKernel.Rc.Alive

/- Mounting (`fs_mount`, `fs_finfo` and `fs_register` of `fs.c`), on top of the lookup of
   `MountLookup.lean`.

   The place of a mount has to be there in what is mounted already, so that the first one
   can only be `/`, and with it no path is without a mount any more. What the filesystems
   keep is outside: their `mount` and `finfo` are functions on it. A filesystem whose name
   is not the one asked for keeps the reference the loop took.

   A path is absolute, and an `int` has room for its length. -/
namespace Aex.Mounts
open Rc Runs Str
open Aex.Fs

variable {σ : Type}

/-- `mount_t`; `fs` is the id of the filesystem. -/
structure Mount where
  path : DirPath
  devId : Int
  privateData : Nat
  fs : Nat

/-- `filesystem_t`, as far as it is used here. `mount` gets the device and the private data
there are so far, and leaves its own. -/
structure Filesystem (σ : Type) where
  name : CStr
  mount : Int → Nat → σ → Int × Nat × σ
  finfo : Mount → CStr → σ → Int × σ

structure MountState (σ : Type) where
  filesystems : Rc.Array (Filesystem σ)
  mounts : Rc.Array Mount
  world : σ

def fsRegister (fs : Filesystem σ) (s : MountState σ) : MountState σ :=
  { s with filesystems := (arrayAdd s.filesystems fs).2 }

/-- What `fs_get_mount` reads of the mounts. -/
def MountState.paths (s : MountState σ) : Rc.Array DirPath :=
  s.mounts.map (Option.map fun e => { refs := e.refs, present := e.present, value := e.value.path })

/-- `fs_finfo`. The reference to the mount is given back. -/
def fsFinfo (s : MountState σ) (path : CStr) : Option (Int × MountState σ) :=
  (fsGetMount s.paths path).bind fun (mountId, newPath) =>
    newPath.elim (some (mountId, s)) fun newPath =>
      (arrayGet s.mounts mountId.toNat).1.bind fun mount =>
        (slot s.filesystems mount.fs).map fun e =>
          let (ret, world) := e.value.finfo mount newPath s.world
          (if ret < 0 then ret else 0, { s with world := world })

/-- A call of `fs_mount`, with the devices there are. -/
structure MountCall where
  devs : List Device
  dev : Option CStr
  path : AbsPath
  fsname : Option CStr

/-- `dev_id`; `none` where there is no such device. -/
def MountCall.devId (c : MountCall) : Option Int :=
  c.dev.elim (some (-1)) fun dev => (devName2id c.devs dev).map Int.ofNat

/-- `fsname == NULL || strcmp(fs->name, fsname) == 0`. -/
def MountCall.fits (c : MountCall) (fs : Filesystem σ) : Bool := c.fsname.all fun fsname => fs.name == fsname

/-- The loop of `fs_mount` from `fsId` on: the filesystem that took it with the private data
it left. `ret` is an error as long as there is none. -/
def mountLoop (c : MountCall) (devId : Int) :
    Nat → Nat → Nat → MountState σ → Option (Option (Nat × Nat) × MountState σ)
  | 0, _, _, _ => none
  | fuel + 1, fsId, privateData, s =>
    if foreachTest s.filesystems fsId then
      match arrayGet s.filesystems fsId with
      | (none, _) => none
      | (some fs, filesystems) =>
        if c.fits fs then
          let (ret, privateData, world) := fs.mount devId privateData s.world
          let s := { s with filesystems := arrayUnref filesystems fsId, world := world }
          if ret < 0 then mountLoop c devId fuel (fsId + 1) privateData s else some (some (fsId, privateData), s)
        else mountLoop c devId fuel (fsId + 1) privateData { s with filesystems := filesystems }
    else some (none, s)

theorem closed_append (bytes : CStr) : (bytes ++ [slash]).getLast? = some slash := List.getLast?_concat

theorem nulFree_append {bytes : CStr} (h : ∀ b ∈ bytes, b ≠ 0) : ∀ b ∈ bytes ++ [slash], b ≠ 0 := by
  intro b hb
  rcases List.mem_append.mp hb with hb | hb
  · exact h b hb
  · rw [List.mem_singleton.mp hb]
    decide

theorem absolute_append {bytes : CStr} (h : bytes.head? = some slash) : (bytes ++ [slash]).head? = some slash := by
  rw [List.head?_append, h]
  rfl

/-- `mount.path`, as the two calls of `snprintf` print it (`mountPath_printed`). -/
def mountPath (path : AbsPath) : DirPath :=
  if h : path.bytes.getLast? = some slash then { path with closed := h }
  else
    { bytes := path.bytes ++ [slash]
      nulFree := nulFree_append path.nulFree
      absolute := absolute_append path.absolute
      closed := closed_append path.bytes }

def fsMount (c : MountCall) (s : MountState σ) : Option (Int × MountState σ) :=
  c.devId.elim (some (-enodev, s)) fun devId =>
    (if c.path.bytes = cstr "/" then some (0, s) else fsFinfo s c.path.bytes).bind fun (fcode, s) =>
      if fcode < 0 then some (fcode, s)
      else
        (mountLoop c devId (s.filesystems.length + 1) 0 0 s).map fun (found, s) =>
          found.elim (-enoent, s) fun (fs, privateData) =>
            let mount := { path := mountPath c.path, devId := devId, privateData := privateData, fs := fs }
            let (id, mounts) := arrayAdd s.mounts mount
            (Int.ofNat id, { s with mounts := mounts })

/-- A call in a run. -/
def mountStep (c : MountCall) (s : MountState σ) : Option (MountState σ) := (fsMount c s).map Prod.snd

/-- After the filesystems are registered. -/
def fsStart (fss : List (Filesystem σ)) (world : σ) : MountState σ :=
  fss.foldl (fun s fs => fsRegister fs s) { filesystems := [], mounts := [], world := world }

/-! ## Where something is mounted -/

theorem other_slash : slash ≠ '%'.toNat ∧ slash ≠ 0 := by decide

theorem slash_format : cstr "%s/" = formatText [.directive stringDirective, .char slash other_slash] := by decide

theorem mountPath_bytes (path : AbsPath) : (mountPath path).bytes =
    if path.bytes.getLast? = some slash then path.bytes else path.bytes ++ [slash] := by
  unfold mountPath
  split
  · rfl
  · rfl

theorem mountPath_printed (path : AbsPath) (hshort : path.bytes.length < 2^31 - 1) (stack : Bytes.Mem) (dst : Int) :
    Prints (snprintf stack dst (path.bytes.length + 2) (cstr (if path.bytes.getLast? = some slash then "%s" else "%s/"))
        [.str ⟨path.bytes, path.nulFree, Nat.lt_trans hshort (by decide)⟩])
      dst (path.bytes.length + 2) (mountPath path).bytes := by
  rw [mountPath_bytes]
  split
  · rw [string_format]
    have hexpansion : expansion [⟨path.bytes, 0, ' '.toNat⟩] = path.bytes := by simp [expansion, Field.padded]
    have hprints := (snprintf_prints_iff (string_fields ⟨path.bytes, path.nulFree, Nat.lt_trans hshort (by decide)⟩) stack dst
      (Nat.le_add_left 1 (path.bytes.length + 1))).mpr
    rw [hexpansion] at hprints
    exact hprints ⟨by omega, fun hover => absurd hover.1 (Nat.lt_irrefl 0), trivial⟩
  · rw [slash_format]
    have hfields : fieldsOf [.directive stringDirective, .char slash other_slash]
        [.str ⟨path.bytes, path.nulFree, Nat.lt_trans hshort (by decide)⟩] =
          some [⟨path.bytes, 0, ' '.toNat⟩, ⟨[slash], 0, ' '.toNat⟩] := rfl
    have hexpansion : expansion [⟨path.bytes, 0, ' '.toNat⟩, ⟨[slash], 0, ' '.toNat⟩] = path.bytes ++ [slash] := by
      simp [expansion, Field.padded]
    have hprints := (snprintf_prints_iff hfields stack dst (Nat.le_add_left 1 (path.bytes.length + 1))).mpr
    rw [hexpansion] at hprints
    refine hprints ⟨?_, fun hover => absurd hover.1 (Nat.lt_irrefl 0), fun hover => absurd hover.1 (Nat.lt_irrefl 0), trivial⟩
    rw [List.length_append, List.length_singleton]
    omega

/-! ## The filesystems -/

/-- The filesystems registered, each with a reference at least. -/
structure Registered (fss : List (Filesystem σ)) (a : Rc.Array (Filesystem σ)) : Prop where
  length : a.length = fss.length
  slots : ∀ id fs, fss[id]? = some fs →
    ∃ refs : Int, 1 ≤ refs ∧ slot a id = some { refs := refs, present := true, value := fs }

section Registered

variable {fss : List (Filesystem σ)} {a : Rc.Array (Filesystem σ)} {id : Nat} {fs : Filesystem σ}

theorem Registered.present_iff (h : Registered fss a) (id : Nat) : present a id = true ↔ id < fss.length := by
  rw [Rc.present_iff]
  constructor
  · rintro ⟨e, he, -⟩
    exact h.length ▸ slot_lt he
  · intro hlt
    obtain ⟨refs, -, hslot⟩ := h.slots id fss[id] (List.getElem?_eq_getElem hlt)
    exact ⟨_, hslot, rfl⟩

theorem Registered.test_iff (h : Registered fss a) (id : Nat) : foreachTest a id = true ↔ id < fss.length := by
  rw [foreachTest_iff]
  constructor
  · rintro ⟨j, hj, hpresent⟩
    exact Nat.lt_of_le_of_lt hj ((h.present_iff j).mp hpresent)
  · exact fun hlt => ⟨id, Nat.le_refl id, (h.present_iff id).mpr hlt⟩

theorem Registered.get (h : Registered fss a) (hfs : fss[id]? = some fs) :
    ∃ a', arrayGet a id = (some fs, a') ∧ Registered fss a' ∧ arrayUnref a' id = a := by
  obtain ⟨refs, hrefs, hslot⟩ := h.slots id fs hfs
  refine ⟨_, arrayGet_slot hslot rfl, ⟨?_, fun j fs' hj => ?_⟩, unref_taken hslot hrefs⟩
  · rw [List.length_set, h.length]
  · rw [slot_set (slot_lt hslot)]
    split
    · next heq =>
      rw [heq, hfs] at hj
      cases hj
      exact ⟨refs + 1, by omega, rfl⟩
    · exact h.slots j fs' hj

theorem Registered.add (h : Registered fss a) (fs : Filesystem σ) : Registered (fss ++ [fs]) (arrayAdd a fs).2 := by
  have hfree : firstFree a = a.length := by
    apply Nat.le_antisymm (firstFree_le a)
    by_contra hlt
    have hin : firstFree a < fss.length := by
      rw [← h.length]
      omega
    obtain ⟨refs, -, hslot⟩ := h.slots _ _ (List.getElem?_eq_getElem hin)
    rw [slot_firstFree] at hslot
    cases hslot
  have hadd : (arrayAdd a fs).2 = a ++ [some { refs := 1, present := true, value := fs }] := by simp [arrayAdd, hfree]
  refine ⟨?_, fun id fs' hid => ?_⟩
  · rw [hadd, List.length_append, List.length_append, h.length]
    rfl
  · rw [slot_arrayAdd]
    by_cases heq : id = firstFree a
    · rw [if_pos heq]
      have hlast : (fss ++ [fs])[fss.length]? = some fs := by simp
      rw [heq, hfree, h.length, hlast] at hid
      cases hid
      exact ⟨1, Int.le_refl 1, rfl⟩
    · rw [if_neg heq]
      apply h.slots
      rw [← hid, List.getElem?_append_left]
      have hlt := (List.getElem?_eq_some_iff.mp hid).1
      rw [List.length_append, List.length_singleton, ← h.length] at hlt
      rw [← h.length]
      omega

end Registered

/-- The first filesystem from `id` on that fits and takes the device, and what those asked
leave. -/
def takenBy (c : MountCall) (devId : Int) : List (Filesystem σ) → Nat → Nat → σ → Option (Nat × Nat) × σ
  | [], _, _, world => (none, world)
  | fs :: fss, id, privateData, world =>
    if c.fits fs then
      let (ret, privateData, world) := fs.mount devId privateData world
      if ret < 0 then takenBy c devId fss (id + 1) privateData world else (some (id, privateData), world)
    else takenBy c devId fss (id + 1) privateData world

theorem takenBy_lt {c : MountCall} {devId : Int} {fss : List (Filesystem σ)} {id data k data' : Nat} {world : σ}
    (h : (takenBy c devId fss id data world).1 = some (k, data')) : id ≤ k ∧ k < id + fss.length := by
  induction fss generalizing id data world with
  | nil => cases h
  | cons fs fss ih =>
    rw [List.length_cons]
    unfold takenBy at h
    split at h
    · dsimp only at h
      split at h
      · have hlater := ih h
        omega
      · cases h
        omega
    · have hlater := ih h
      omega

theorem mountLoop_eq (c : MountCall) (devId : Int) {fss : List (Filesystem σ)} :
    ∀ {fuel id data : Nat} {s : MountState σ},
    Registered fss s.filesystems → id ≤ fss.length → fss.length - id < fuel →
    ∃ a, Registered fss a ∧ mountLoop c devId fuel id data s =
      some ((takenBy c devId (fss.drop id) id data s.world).1,
        { s with filesystems := a, world := (takenBy c devId (fss.drop id) id data s.world).2 }) := by
  intro fuel
  induction fuel with
  | zero => exact fun _ _ hfuel => absurd hfuel (Nat.not_lt_zero _)
  | succ fuel ih =>
    intro id data s h hid hfuel
    unfold mountLoop
    by_cases hlt : id < fss.length
    · rw [if_pos ((h.test_iff id).mpr hlt), List.drop_eq_getElem_cons hlt, takenBy]
      obtain ⟨a, hget, hregistered, hback⟩ := h.get (List.getElem?_eq_getElem hlt)
      simp only [hget, hback]
      by_cases hfits : c.fits fss[id] = true
      · simp only [if_pos hfits]
        by_cases herror : (fss[id].mount devId data s.world).1 < 0
        · simp only [if_pos herror]
          exact ih (s := { s with world := (fss[id].mount devId data s.world).2.2 }) h (by omega) (by omega)
        · simp only [if_neg herror]
          exact ⟨s.filesystems, h, rfl⟩
      · simp only [if_neg hfits]
        exact ih (s := { s with filesystems := a }) hregistered (by omega) (by omega)
    · rw [if_neg (fun htest => hlt ((h.test_iff id).mp htest)), List.drop_eq_nil_of_le (by omega)]
      exact ⟨s.filesystems, h, rfl⟩

/-! ## The mounts -/

/-- The mounts there are; the first one is at `/`. -/
structure Mounted (fss : List (Filesystem σ)) (mounts : List Mount) (s : MountState σ) : Prop where
  filesystems : Registered fss s.filesystems
  table : s.mounts = mounts.map fun m => some (Entry.resting m)
  root : ∀ m, mounts.head? = some m → m.path.bytes = cstr "/"
  known : ∀ m ∈ mounts, m.fs < fss.length

section Mounted

variable {fss : List (Filesystem σ)} {mounts : List Mount} {s : MountState σ}

theorem Mounted.paths (h : Mounted fss mounts s) : s.paths = mountTable (mounts.map Mount.path) := by
  rw [MountState.paths, h.table, mountTable_eq, List.map_map, List.map_map]
  rfl

theorem Mounted.rooted (h : Mounted fss mounts s) (hsome : mounts ≠ []) :
    ∃ m ∈ mounts.map Mount.path, m.bytes = cstr "/" := by
  cases mounts with
  | nil => exact absurd rfl hsome
  | cons m mounts => exact ⟨m.path, List.mem_cons_self, h.root m rfl⟩

theorem Mounted.setWorld (h : Mounted fss mounts s) (world : σ) : Mounted fss mounts { s with world := world } :=
  { h with }

/-- What `fs_finfo` answers: the filesystem of the mount selected is asked for the rest of
the path. -/
def Asked (fss : List (Filesystem σ)) (mounts : List Mount) (p : AbsPath) (w : σ) (answer : Int × σ) : Prop :=
  ∃ id m fs, mounts[id]? = some m ∧ Selected (mounts.map Mount.path) p id m.path ∧ fss[m.fs]? = some fs ∧
    answer = fs.finfo m (if byteAt p.bytes (m.path.bytes.length - 1) ≠ slash then cstr "/"
      else p.bytes.drop (m.path.bytes.length - 1)) w

theorem Mounted.finfo_none (h : Mounted fss [] s) (p : AbsPath) : fsFinfo s p.bytes = some (-enoent, s) := by
  unfold fsFinfo
  rw [h.paths]
  rcases fsGetMount_cases [] p with ⟨hget, -⟩ | ⟨id, m, hselected⟩
  · rw [List.map_nil, hget]
    rfl
  · cases hselected.mount

theorem Mounted.asked (h : Mounted fss mounts s) (hsome : mounts ≠ []) (p : AbsPath) (w : σ) :
    ∃ answer, Asked fss mounts p w answer := by
  obtain ⟨id, path, hselected⟩ := fsGetMount_spec (h.rooted hsome) p
  have hmount := hselected.mount
  rw [List.getElem?_map] at hmount
  obtain ⟨m, hm, rfl⟩ := Option.map_eq_some_iff.mp hmount
  have hfs := h.known m (List.mem_of_getElem? hm)
  exact ⟨_, id, m, fss[m.fs], hm, hselected, List.getElem?_eq_getElem hfs, rfl⟩

theorem Mounted.finfo (h : Mounted fss mounts s) {p : AbsPath} {answer : Int × σ} (hasked : Asked fss mounts p s.world answer) :
    fsFinfo s p.bytes = some (if answer.1 < 0 then answer.1 else 0, { s with world := answer.2 }) := by
  obtain ⟨id, m, fs, hm, hselected, hfs, rfl⟩ := hasked
  have hmslot : slot s.mounts id = some (Entry.resting m) := by
    rw [h.table, slot, List.getElem?_map, hm]
    rfl
  obtain ⟨refs, -, hslot⟩ := h.filesystems.slots m.fs fs hfs
  unfold fsFinfo
  rw [h.paths, hselected.ret]
  simp only [Option.bind_some, Option.elim_some, Int.toNat_natCast]
  rw [arrayGet_slot hmslot rfl]
  simp only [Option.bind_some]
  rw [show (Entry.resting m).value = m from rfl, hslot]
  rfl

end Mounted

/-! ## A call -/

section Call

variable (fss : List (Filesystem σ)) (mounts : List Mount) (c : MountCall)

/-- The place asked for is there; `w'` is left when that is known. -/
def PlaceFound (w w' : σ) : Prop :=
  c.path.bytes = cstr "/" ∧ w' = w ∨
    c.path.bytes ≠ cstr "/" ∧ ∃ answer, Asked fss mounts c.path w answer ∧ 0 ≤ answer.1 ∧ w' = answer.2

/-- The place is there and the device too, and a filesystem takes it: the mount `m`. -/
structure Takes (w : σ) (m : Mount) (w' : σ) : Prop where
  dev : c.devId = some m.devId
  path : m.path = mountPath c.path
  found : ∃ w₁, PlaceFound fss mounts c w w₁ ∧ takenBy c m.devId fss 0 0 w₁ = (some (m.fs, m.privateData), w')

/-- Why there is no mount, and what is answered. -/
inductive Refuses (w : σ) : Int → σ → Prop
  | noDevice (hdev : c.devId = none) : Refuses w (-enodev) w
  | noMount (hpath : c.path.bytes ≠ cstr "/") (hnone : mounts = []) : Refuses w (-enoent) w
  | noPlace {answer : Int × σ} (hpath : c.path.bytes ≠ cstr "/") (hasked : Asked fss mounts c.path w answer)
      (herror : answer.1 < 0) : Refuses w answer.1 answer.2
  | noneTakes {devId : Int} {w₁ w' : σ} (hdev : c.devId = some devId) (hfound : PlaceFound fss mounts c w w₁)
      (hnone : takenBy c devId fss 0 0 w₁ = (none, w')) : Refuses w (-enoent) w'

end Call

section Call

variable {fss : List (Filesystem σ)} {mounts : List Mount} {c : MountCall} {s : MountState σ}

theorem Refuses.error {w w' : σ} {ret : Int} (h : Refuses fss mounts c w ret w') : ret < 0 := by
  cases h with
  | noDevice => decide
  | noMount => decide
  | noPlace _ _ herror => exact herror
  | noneTakes => decide

theorem PlaceFound.root {w w' : σ} (h : PlaceFound fss mounts c w w') (hnone : mounts = []) : c.path.bytes = cstr "/" := by
  rcases h with ⟨hpath, -⟩ | ⟨-, answer, ⟨id, m, fs, hm, -⟩, -⟩
  · exact hpath
  · rw [hnone] at hm
    cases hm

theorem mountPath_root {path : AbsPath} (h : path.bytes = cstr "/") : (mountPath path).bytes = cstr "/" := by
  rw [mountPath_bytes, h]
  rfl

theorem Mounted.append {w w' : σ} {m : Mount} {a : Rc.Array (Filesystem σ)} (h : Mounted fss mounts s)
    (ht : Takes fss mounts c w m w') (ha : Registered fss a) :
    Mounted fss (mounts ++ [m]) { filesystems := a, mounts := (arrayAdd s.mounts m).2, world := w' } := by
  obtain ⟨w₁, hfound, htaken⟩ := ht.found
  refine ⟨ha, ?_, ?_, ?_⟩
  · rw [h.table, arrayAdd_full, List.map_append]
    rfl
  · intro m' hm'
    cases mounts with
    | nil =>
      cases hm'
      rw [ht.path]
      exact mountPath_root (hfound.root rfl)
    | cons m₀ mounts => exact h.root m' hm'
  · intro m' hm'
    rcases List.mem_append.mp hm' with hm' | hm'
    · exact h.known m' hm'
    · have hlt := (takenBy_lt (congrArg Prod.fst htaken)).2
      rw [List.mem_singleton.mp hm']
      omega

theorem fsMount_found {devId : Int} {w : σ} (h : Mounted fss mounts s) (hdev : c.devId = some devId)
    (hfound : PlaceFound fss mounts c s.world w) :
    fsMount c s = (mountLoop c devId (s.filesystems.length + 1) 0 0 { s with world := w }).map fun (found, s) =>
      found.elim (-enoent, s) fun (fs, privateData) =>
        let mount := { path := mountPath c.path, devId := devId, privateData := privateData, fs := fs }
        let (id, mounts) := arrayAdd s.mounts mount
        (Int.ofNat id, { s with mounts := mounts }) := by
  unfold fsMount
  rw [hdev, Option.elim_some]
  rcases hfound with ⟨hpath, rfl⟩ | ⟨hpath, answer, hasked, hok, rfl⟩
  · rw [if_pos hpath]
    rfl
  · rw [if_neg hpath, h.finfo hasked, if_neg (Int.not_lt.mpr hok)]
    rfl

/-- `fs_mount` adds the mount at the end, or leaves the mounts as they are. -/
theorem fsMount_spec (h : Mounted fss mounts s) (c : MountCall) :
    (∃ m s', Takes fss mounts c s.world m s'.world ∧ fsMount c s = some (Int.ofNat mounts.length, s') ∧
        Mounted fss (mounts ++ [m]) s') ∨
      ∃ ret s', Refuses fss mounts c s.world ret s'.world ∧ fsMount c s = some (ret, s') ∧ Mounted fss mounts s' := by
  cases hdev : c.devId with
  | none =>
    refine .inr ⟨-enodev, s, .noDevice hdev, ?_, h⟩
    rw [fsMount, hdev]
    rfl
  | some devId =>
    by_cases hfound : ∃ w, PlaceFound fss mounts c s.world w
    · obtain ⟨w, hfound⟩ := hfound
      have hfuel : fss.length - 0 < s.filesystems.length + 1 := by
        rw [h.filesystems.length]
        omega
      obtain ⟨a, ha, hloop⟩ := @mountLoop_eq _ c devId fss _ 0 0 { s with world := w } h.filesystems (Nat.zero_le _) hfuel
      rw [fsMount_found h hdev hfound, hloop, List.drop_zero]
      -- whether one takes it
      cases htaken : takenBy c devId fss 0 0 w with
      | mk found w' =>
        cases found with
        | none =>
          exact .inr ⟨-enoent, { s with filesystems := a, world := w' }, .noneTakes hdev hfound htaken, rfl,
            { h with filesystems := ha }⟩
        | some found =>
          obtain ⟨fs, privateData⟩ := found
          have htakes : Takes fss mounts c s.world ⟨mountPath c.path, devId, privateData, fs⟩ w' :=
            ⟨hdev, rfl, w, hfound, htaken⟩
          refine .inl ⟨_, _, htakes, ?_, h.append htakes ha⟩
          simp only [Option.map_some, Option.elim_some, h.table, arrayAdd_full]
    · have hpath : c.path.bytes ≠ cstr "/" := fun hpath => hfound ⟨s.world, .inl ⟨hpath, rfl⟩⟩
      by_cases hnone : mounts = []
      · subst hnone
        refine .inr ⟨-enoent, s, .noMount hpath rfl, ?_, h⟩
        rw [fsMount, hdev, Option.elim_some, if_neg hpath, h.finfo_none]
        rfl
      · obtain ⟨answer, hasked⟩ := h.asked hnone c.path s.world
        have herror : answer.1 < 0 := by
          by_contra hok
          exact hfound ⟨answer.2, .inr ⟨hpath, answer, hasked, Int.not_lt.mp hok, rfl⟩⟩
        refine .inr ⟨answer.1, { s with world := answer.2 }, .noPlace hpath hasked herror, ?_, h.setWorld answer.2⟩
        rw [fsMount, hdev, Option.elim_some, if_neg hpath, h.finfo hasked, if_pos herror, Option.bind_some]
        exact if_pos herror

end Call

/-! ## Runs -/

/-- What calls of `fs_mount` come to: the mounts in the order they were made, and what the
filesystems keep. -/
inductive Mountings (fss : List (Filesystem σ)) (w : σ) : List MountCall → List Mount → σ → Prop
  | start : Mountings fss w [] [] w
  | takes {calls : List MountCall} {mounts : List Mount} {c : MountCall} {m : Mount} {w₁ w₂ : σ}
      (h : Mountings fss w calls mounts w₁) (ht : Takes fss mounts c w₁ m w₂) :
      Mountings fss w (calls ++ [c]) (mounts ++ [m]) w₂
  | refuses {calls : List MountCall} {mounts : List Mount} {c : MountCall} {ret : Int} {w₁ w₂ : σ}
      (h : Mountings fss w calls mounts w₁) (hr : Refuses fss mounts c w₁ ret w₂) :
      Mountings fss w (calls ++ [c]) mounts w₂

section Run

variable {fss : List (Filesystem σ)} {w : σ} {s s' : MountState σ} {calls tr : List MountCall}

/-- The mounts are those of the calls so far. -/
def Holds (fss : List (Filesystem σ)) (w : σ) (calls : List MountCall) (s : MountState σ) : Prop :=
  ∃ mounts, Mountings fss w calls mounts s.world ∧ Mounted fss mounts s

theorem mountStep_holds {c : MountCall} (h : Holds fss w calls s) (hs : mountStep c s = some s') :
    Holds fss w (calls ++ [c]) s' := by
  obtain ⟨mounts, hmountings, hmounted⟩ := h
  rcases fsMount_spec hmounted c with ⟨m, t, htakes, hcall, hmounted'⟩ | ⟨ret, t, hrefuses, hcall, hmounted'⟩
  · rw [mountStep, hcall] at hs
    cases hs
    exact ⟨mounts ++ [m], .takes hmountings htakes, hmounted'⟩
  · rw [mountStep, hcall] at hs
    cases hs
    exact ⟨mounts, .refuses hmountings hrefuses, hmounted'⟩

theorem run_holds (hr : Run mountStep anyStep s tr s') (h : Holds fss w calls s) : Holds fss w (calls ++ tr) s' := by
  induction hr generalizing calls with
  | nil => rwa [List.append_nil]
  | cons _ hs _ ih =>
    rw [List.append_cons]
    exact ih (mountStep_holds h hs)

theorem fsStart_registered (fss : List (Filesystem σ)) (w : σ) :
    Registered fss (fsStart fss w).filesystems ∧ (fsStart fss w).mounts = [] ∧ (fsStart fss w).world = w := by
  induction fss using List.reverseRecOn with
  | nil => exact ⟨⟨rfl, fun id fs hid => by cases hid⟩, rfl, rfl⟩
  | append_singleton fss fs ih =>
    rw [fsStart, List.foldl_append]
    exact ⟨ih.1.add fs, ih.2⟩

theorem fsStart_holds (fss : List (Filesystem σ)) (w : σ) : Holds fss w [] (fsStart fss w) := by
  obtain ⟨hregistered, hmounts, hworld⟩ := fsStart_registered fss w
  refine ⟨[], ?_, hregistered, hmounts, fun m hm => ?_, fun m hm => ?_⟩
  · rw [hworld]
    exact .start
  · cases hm
  · cases hm

/-- A mount just made gets every path it shares its bytes with, unless a longer one does. -/
def Covers (mounts : List Mount) (m : Mount) : Prop :=
  ∀ p : AbsPath, m.path.Shares p → (∀ m' ∈ mounts, m'.path.Shares p → m'.path.bytes.length ≤ m.path.bytes.length) →
    Selected ((mounts ++ [m]).map Mount.path) p mounts.length m.path

theorem covers_last {fss : List (Filesystem σ)} {mounts : List Mount} {m : Mount} {s : MountState σ}
    (h : Mounted fss (mounts ++ [m]) s) : Covers mounts m := by
  intro p hshares hlongest
  obtain ⟨id, path, hselected⟩ := fsGetMount_spec (h.rooted (by simp)) p
  have hlast : ((mounts ++ [m]).map Mount.path)[mounts.length]? = some m.path := by simp
  have hbest := hselected.best mounts.length m.path hlast hshares
  have hid : id = mounts.length := by
    have hlt := (List.getElem?_eq_some_iff.mp hselected.mount).1
    simp only [List.length_map, List.length_append, List.length_singleton] at hlt
    -- an earlier one would be longer
    by_contra hne
    have hmount := hselected.mount
    rw [List.getElem?_map, List.getElem?_append_left (by omega)] at hmount
    obtain ⟨m', hm', rfl⟩ := Option.map_eq_some_iff.mp hmount
    have hle := hlongest m' (List.mem_of_getElem? hm') hselected.shares
    omega
  have hpath := hselected.mount
  rw [hid, hlast] at hpath
  cases hpath
  rwa [hid] at hselected

/-- Whatever is mounted, the mounts are the ones that the calls made, in their order; none
is possible before the one at `/`, and with it the mount selected for a path is asked. The
next call adds a mount at the end, of which it answers the number, or answers an error and
leaves the mounts as they are. A new mount gets every path it shares its bytes with, unless
a longer one does. -/
theorem fs_mounts (hr : Run mountStep anyStep (fsStart fss w) tr s) :
    ∃ mounts, Mountings fss w tr mounts s.world ∧ s.mounts = mounts.map (fun m => some (Entry.resting m)) ∧
      (∀ m, mounts.head? = some m → m.path.bytes = cstr "/") ∧
      (∀ p : AbsPath, if mounts = [] then fsFinfo s p.bytes = some (-enoent, s) else
        ∃ answer, Asked fss mounts p s.world answer ∧
          fsFinfo s p.bytes = some (if answer.1 < 0 then answer.1 else 0, { s with world := answer.2 })) ∧
      ∀ c, (∃ m s', Takes fss mounts c s.world m s'.world ∧ fsMount c s = some (Int.ofNat mounts.length, s') ∧
          s'.mounts = (mounts ++ [m]).map (fun m => some (Entry.resting m)) ∧ Covers mounts m) ∨
        ∃ ret s', Refuses fss mounts c s.world ret s'.world ∧ ret < 0 ∧ fsMount c s = some (ret, s') ∧
          s'.mounts = s.mounts := by
  obtain ⟨mounts, hmountings, h⟩ := run_holds hr (fsStart_holds fss w)
  refine ⟨mounts, hmountings, h.table, h.root, fun p => ?_, fun c => ?_⟩
  · by_cases hnone : mounts = []
    · subst hnone
      exact h.finfo_none p
    · rw [if_neg hnone]
      obtain ⟨answer, hasked⟩ := h.asked hnone p s.world
      exact ⟨answer, hasked, h.finfo hasked⟩
  · rcases fsMount_spec h c with ⟨m, s', htakes, hcall, h'⟩ | ⟨ret, s', hrefuses, hcall, h'⟩
    · exact .inl ⟨m, s', htakes, hcall, h'.table, covers_last h'⟩
    · exact .inr ⟨ret, s', hrefuses, hrefuses.error, hcall, h'.table.trans h.table.symm⟩

end Run

/-- One filesystem for what is on a device and one for the devices; both count how often
they are asked. -/
def mountFss : List (Filesystem Nat) :=
  [{ name := cstr "iso9660"
     mount := fun devId _ asked => (if devId < 0 then -1 else 0, asked + 1, asked + 1)
     finfo := fun _ path asked => (if path = cstr "/dev/" then 0 else -enoent, asked + 1) },
   { name := cstr "devfs"
     mount := fun devId _ asked => (if devId = -1 then 0 else -1, asked + 1, asked + 1)
     finfo := fun _ _ asked => (-enoent, asked + 1) }]

theorem slash_nulFree : ∀ b ∈ cstr "/", b ≠ 0 := by decide

theorem slash_absolute : (cstr "/").head? = some slash := rfl

theorem dev_nulFree : ∀ b ∈ cstr "/dev/", b ≠ 0 := by decide

theorem dev_absolute : (cstr "/dev/").head? = some slash := rfl

def devCall : MountCall := ⟨[], none, ⟨cstr "/dev/", dev_nulFree, dev_absolute⟩, some (cstr "devfs")⟩

/-- The first call comes too early. -/
def mountCalls : List MountCall :=
  [devCall, ⟨[⟨cstr "srd0", .block⟩], some (cstr "srd0"), ⟨cstr "/", slash_nulFree, slash_absolute⟩, none⟩, devCall]

theorem fs_mounts_two : ∃ s mounts, Run mountStep anyStep (fsStart mountFss 0) mountCalls s ∧
    Mountings mountFss 0 mountCalls mounts s.world ∧ s.mounts = mounts.map (fun m => some (Entry.resting m)) ∧
    s.mounts.map (Option.map fun e => (e.value.path.bytes, e.value.devId, e.value.fs)) =
      [some (cstr "/", 0, 0), some (cstr "/dev/", -1, 1)] := by
  obtain ⟨s, hr, htwo⟩ : ∃ s, Run mountStep anyStep (fsStart mountFss 0) mountCalls s ∧
      s.mounts.map (Option.map fun e => (e.value.path.bytes, e.value.devId, e.value.fs)) =
        [some (cstr "/", 0, 0), some (cstr "/dev/", -1, 1)] := run_such (by decide +kernel)
  obtain ⟨mounts, hmountings, htable, -⟩ := fs_mounts hr
  exact ⟨s, mounts, hr, hmountings, htable, htwo⟩

end Aex.Mounts
