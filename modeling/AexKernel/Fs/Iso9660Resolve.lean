import AexKernel.Fs.AbsolutePath
import AexKernel.Fs.Iso9660

/- The three calls of the iso9660 driver that resolve a path: `iso9660_open`,
   `iso9660_opendir` and `iso9660_finfo`.

   All three walk the same way, and none of them returns where the walk of the path
   does not end. `iso9660_finfo` starts from the record of the root
   directory, the other two from a `type` that only a turn of the walk sets, so
   on a path without segments they answer by a value nobody has set. -/
namespace Aex.Fs

/-- `finfo_t`. -/
structure Finfo where
  devId : Int
  type : FsType
  size : Nat
  blockSize : Nat
  blockCount : Nat
  deriving DecidableEq

/-- The root record of the volume descriptor: its flags as a type, `data_lba` and
`data_len`. -/
def IsoPrivate.root (data : IsoPrivate) (rootFlags : Nat) : IsoFound :=
  (if rootFlags.testBit 1 then .dir else .reg, data.rootLba, data.rootLen)

/-- `iso9660_finfo`. `dentry` is the record found last, at first that of the root;
the type and the length are read off it. -/
def isoFinfo (data : IsoPrivate) (devId : Int) (rootFlags : Nat) (path : CStr) (unset : IsoUnset) :
    Option (Except Int Finfo) :=
  ((pathWalk path).bind fun turns => isoWalk data.disc unset turns (data.root rootFlags)).map fun ret => ret.map fun dentry =>
    { devId := devId, type := dentry.1, size := dentry.2.2, blockSize := isoBlock,
      blockCount := u32 (dentry.2.2 + isoBlock - 1) / isoBlock }

/-- What the three calls return together where they end: the same paths are not
there, and `iso9660_finfo` says which of the other two succeeds. -/
structure Resolved (opened opendired : Except Int Nat) (finfo : Except Int Finfo) : Prop where
  openEnoent : opened = .error (-enoent) ↔ finfo = .error (-enoent)
  opendirEnoent : opendired = .error (-enoent) ↔ finfo = .error (-enoent)
  dir : ∀ info, finfo = .ok info → info.type = .dir → opened = .error (-eisdir) ∧ ∃ ifd, opendired = .ok ifd
  reg : ∀ info, finfo = .ok info → info.type = .reg → (∃ ifd, opened = .ok ifd) ∧ opendired = .error (-enotdir)

/-- The three calls, made from one state, agree whatever their own `type` holds at
first: none of them ends, or all three do and fit together. -/
def ResolversAgree (data : IsoPrivate) (devId : Int) (rootFlags : Nat) (path : CStr) : Prop :=
  ∀ (unset : IsoUnset) (openType opendirType : FsType),
    (isoOpen data path { unset with type := openType } = none ∧
      isoOpendir data path { unset with type := opendirType } = none ∧
      isoFinfo data devId rootFlags path unset = none) ∨
    ∃ o d f, isoOpen data path { unset with type := openType } = some o ∧
      isoOpendir data path { unset with type := opendirType } = some d ∧
      isoFinfo data devId rootFlags path unset = some f ∧ Resolved o.1 d.1 f

/-! ## Paths without segments -/

theorem segments_eq_nil_iff (p : CStr) : segments p = [] ↔ ∀ b ∈ p, b = slash := by
  induction p with
  | nil => exact ⟨fun _ b hb => absurd hb List.not_mem_nil, fun _ => rfl⟩
  | cons b p ih =>
    by_cases hb : b = slash
    · rw [hb, segments_slash, ih]
      simp
    · have hturn : pathTurn (b :: p) ≠ none := by
        unfold pathTurn
        rw [List.dropWhile_cons_of_neg (by simpa using hb)]
        simp
      rcases pathTurn_cases (b :: p) with ⟨hnone, -⟩ | ⟨s, rest, -, hsegs, -⟩
      · exact absurd hnone hturn
      · rw [hsegs]
        constructor
        · intro h
          cases h
        · intro h
          exact absurd (h b List.mem_cons_self) hb

theorem pathWalk_slashes {p : AbsPath} (h : ∀ b ∈ p.bytes, b = slash) : pathWalk p.bytes = some [] := by
  rw [pathWalk_eq p.absolute, (segments_eq_nil_iff p.bytes).mpr h]
  rfl

theorem pathWalk_ne_nil {p : AbsPath} {turns : List (CStr × Int)} (hturns : pathWalk p.bytes = some turns)
    (h : ¬ ∀ b ∈ p.bytes, b = slash) : turns ≠ [] := by
  rintro rfl
  rw [pathWalk_eq p.absolute] at hturns
  split at hturns
  · have hnil := congrArg List.length (Option.some.inj hturns)
    rw [List.length_mapIdx] at hnil
    exact h ((segments_eq_nil_iff p.bytes).mp (List.length_eq_zero_iff.mp hnil))
  · cases hturns

/-! ## The walk -/

theorem isoFindLoop_type {disc : Disc} {start lba size : Nat} {segment : CStr} : ∀ {fuel progress offset : Nat}
    {buffer : Bytes.Mem} {found : IsoFound}, isoFindLoop disc start lba size segment fuel progress offset buffer = some found →
    found.1 ≠ .none → found.1 = .dir ∨ found.1 = .reg := by
  intro fuel
  induction fuel with
  | zero => intro _ _ _ _ h; cases h
  | succ fuel ih =>
    intro progress offset buffer found h hne
    unfold isoFindLoop at h
    by_cases hover : size ≤ progress
    · rw [if_pos hover] at h
      cases h
      exact absurd rfl hne
    rw [if_neg hover] at h
    by_cases hend : dentryLen buffer offset = 0
    · rw [if_pos hend] at h
      split at h
      · cases h
        exact absurd rfl hne
      · exact ih h hne
    rw [if_neg hend] at h
    -- a record with the name is the only way to a type
    by_cases hname : dentryName 256 buffer offset = segment
    · rw [if_pos hname] at h
      cases h
      simp only [dentryType]
      split
      · exact Or.inl rfl
      · exact Or.inr rfl
    rw [if_neg hname] at h
    split at h
    · split at h
      · cases h
        exact absurd rfl hne
      · exact ih h hne
    · exact ih h hne

theorem isoWalk_start {disc : Disc} {unset unset' : IsoUnset} (hbuffer : unset'.buffer = unset.buffer)
    (hfuel : unset'.fuel = unset.fuel) : ∀ {turns : List (CStr × Int)} (type type' : FsType) (dir size : Nat),
    turns ≠ [] → isoWalk disc unset' turns (type', dir, size) = isoWalk disc unset turns (type, dir, size) := by
  intro turns
  induction turns with
  | nil => intro _ _ _ _ h; exact absurd rfl h
  | cons t turns ih =>
    intro type type' dir size _
    simp only [isoWalk, hbuffer, hfuel]
    cases isoFind disc unset.buffer unset.fuel dir size t.1 with
    | none => rfl
    | some found =>
      obtain ⟨ftype, fdir, fsize⟩ := found
      simp only
      by_cases hlast : turns = []
      · rw [hlast]
        rfl
      · rw [ih ftype ftype fdir fsize hlast]

/-- A walk fails with one code, and leads to a file or a directory if it starts
from one. -/
theorem isoWalk_ends {disc : Disc} {unset : IsoUnset} : ∀ {turns : List (CStr × Int)} {found : IsoFound}
    {ret : Except Int IsoFound}, isoWalk disc unset turns found = some ret → (found.1 = .dir ∨ found.1 = .reg) →
    ret = .error (-enoent) ∨ ∃ last, ret = .ok last ∧ (last.1 = .dir ∨ last.1 = .reg) := by
  intro turns
  induction turns with
  | nil =>
    intro found ret h hfound
    cases h
    exact Or.inr ⟨found, rfl, hfound⟩
  | cons t turns ih =>
    intro found ret h _
    simp only [isoWalk] at h
    cases hfind : isoFind disc unset.buffer unset.fuel found.2.1 found.2.2 t.1 with
    | none =>
      rw [hfind] at h
      cases h
    | some next =>
      obtain ⟨ftype, fdir, fsize⟩ := next
      rw [hfind] at h
      simp only at h
      by_cases hnone : ftype = .none
      · rw [if_pos hnone] at h
        exact Or.inl (Option.some.inj h).symm
      have htype := isoFindLoop_type hfind hnone
      rw [if_neg hnone] at h
      by_cases hleft : t.2 = 0
      · rw [if_pos hleft] at h
        exact Or.inr ⟨_, (Option.some.inj h).symm, htype⟩
      rw [if_neg hleft] at h
      by_cases hdir : ftype ≠ .dir
      · rw [if_pos hdir] at h
        exact Or.inl (Option.some.inj h).symm
      · rw [if_neg hdir] at h
        exact ih h htype

theorem root_type (data : IsoPrivate) (rootFlags : Nat) :
    (data.root rootFlags).1 = .dir ∨ (data.root rootFlags).1 = .reg := by
  simp only [IsoPrivate.root]
  split
  · exact Or.inl rfl
  · exact Or.inr rfl

/-! ## The three calls -/

theorem resolved_of_walk {data : IsoPrivate} {devId : Int} {path : CStr} {rootFlags : Nat}
    {unset openUnset opendirUnset : IsoUnset}
    (hopen : data.walk path openUnset =
      (pathWalk path).bind fun turns => isoWalk data.disc unset turns (data.root rootFlags))
    (hopendir : data.walk path opendirUnset =
      (pathWalk path).bind fun turns => isoWalk data.disc unset turns (data.root rootFlags)) :
    (isoOpen data path openUnset = none ∧ isoOpendir data path opendirUnset = none ∧
      isoFinfo data devId rootFlags path unset = none) ∨
    ∃ o d f, isoOpen data path openUnset = some o ∧ isoOpendir data path opendirUnset = some d ∧
      isoFinfo data devId rootFlags path unset = some f ∧ Resolved o.1 d.1 f := by
  unfold isoOpen isoOpendir isoFinfo
  rw [hopen, hopendir]
  cases hret : (pathWalk path).bind fun turns => isoWalk data.disc unset turns (data.root rootFlags) with
  | none => exact Or.inl ⟨rfl, rfl, rfl⟩
  | some ret =>
    obtain ⟨turns, -, hwalk⟩ := Option.bind_eq_some_iff.mp hret
    right
    refine ⟨_, _, _, rfl, rfl, rfl, ?_⟩
    rcases isoWalk_ends hwalk (root_type data rootFlags) with rfl | ⟨last, rfl, htype | htype⟩
    · refine ⟨by simp [Except.map], by simp [Except.map], ?_, ?_⟩
      · intro info h
        cases h
      · intro info h
        cases h
    -- a directory: `iso9660_opendir` succeeds, `iso9660_open` does not
    · have hdir : last.1 = FsType.dir := htype
      simp only [if_pos hdir]
      refine ⟨?_, ?_, ?_, ?_⟩
      · simp [Except.map, enoent, eisdir]
      · simp [Except.map, hdir, IsoPrivate.add]
      · intro info _ _
        exact ⟨rfl, _, by simp [hdir, IsoPrivate.add]; rfl⟩
      · intro info h hreg
        cases h
        exact absurd (hdir.symm.trans hreg) (by decide)
    · have hdir : last.1 ≠ FsType.dir := by
        rw [htype]
        decide
      simp only [if_neg hdir, if_pos hdir]
      refine ⟨?_, ?_, ?_, ?_⟩
      · simp [Except.map, IsoPrivate.add]
      · simp [Except.map, enoent, enotdir]
      · intro info h hinfo
        cases h
        exact absurd hinfo hdir
      · intro info _ _
        exact ⟨⟨_, rfl⟩, rfl⟩

/-- **The three calls agree on exactly the paths that have a segment.** -/
theorem resolversAgree_iff (data : IsoPrivate) (devId : Int) (rootFlags : Nat) (path : AbsPath) :
    ResolversAgree data devId rootFlags path.bytes ↔ ∃ b ∈ path.bytes, b ≠ slash := by
  constructor
  · intro hagree
    by_contra hnone
    have hwalk : pathWalk path.bytes = some [] := by
      apply pathWalk_slashes
      intro b hb
      by_contra hne
      exact hnone ⟨b, hb, hne⟩
    have hopen : ∀ unset, data.walk path.bytes unset = some (.ok (unset.type, data.rootLba, data.rootLen)) := by
      intro unset
      unfold IsoPrivate.walk
      rw [hwalk]
      rfl
    have hfinfo : ∀ unset, (pathWalk path.bytes).bind (fun turns => isoWalk data.disc unset turns (data.root rootFlags)) =
        some (.ok (data.root rootFlags)) := by
      intro unset
      rw [hwalk]
      rfl
    -- a file for `iso9660_open` and a directory for `iso9660_opendir`
    have hcalls := hagree ⟨.none, fun _ => 0, 0⟩ .reg .dir
    simp only [isoOpen, isoOpendir, isoFinfo, hopen, hfinfo, Option.map_some, Option.some.injEq, reduceCtorEq,
      false_and, false_or] at hcalls
    obtain ⟨o, d, f, rfl, rfl, rfl, hres⟩ := hcalls
    rcases root_type data rootFlags with hroot | hroot
    · have hbad := (hres.dir _ rfl hroot).1
      rw [if_neg (by decide)] at hbad
      cases hbad
    · have hbad := (hres.reg _ rfl hroot).2
      rw [if_neg (by decide)] at hbad
      cases hbad
  · rintro ⟨b, hb, hne⟩ unset openType opendirType
    have hsame : ∀ type, data.walk path.bytes { unset with type := type } =
        (pathWalk path.bytes).bind fun turns => isoWalk data.disc unset turns (data.root rootFlags) := by
      intro type
      unfold IsoPrivate.walk
      cases hturns : pathWalk path.bytes with
      | none => rfl
      | some turns =>
        apply isoWalk_start
        · rfl
        · rfl
        · exact pathWalk_ne_nil hturns fun h => hne (h b hb)
    exact resolved_of_walk (hsame openType) (hsame opendirType)

/-- A volume whose root is an empty directory. -/
def emptyVolume : IsoPrivate where
  disc := fun _ => none
  rootLba := 20
  rootLen := 0
  lhandles := []

/-- `iso9660_finfo` says that `/` is a directory, and `iso9660_open` makes a handle
for it where its `type` happens to hold another value. -/
theorem isoOpen_root_as_file :
    (isoFinfo emptyVolume 0 2 (cstr "/") ⟨.none, fun _ => 0, 1⟩).map (·.map Finfo.type) = some (.ok .dir) ∧
    (isoOpen emptyVolume (cstr "/") ⟨.other 1234, fun _ => 0, 1⟩).map Prod.fst = some (.ok 0) ∧
    ¬ ResolversAgree emptyVolume 0 2 (cstr "/") := by
  refine ⟨rfl, rfl, ?_⟩
  intro hagree
  rcases hagree ⟨.none, fun _ => 0, 1⟩ (.other 1234) .dir with ⟨hnone, -⟩ | ⟨o, d, f, ho, -, hf, hres⟩
  · cases hnone
  · cases ho
    cases hf
    have hbad := (hres.dir _ rfl rfl).1
    cases hbad

end Aex.Fs
