import AexKernel.Fs.Iso9660Script
import AexKernel.Lib.Ends

/- Mounting an iso9660 volume: `iso9660_mount`.

   The volume descriptors from sector 16 on are read one by one until one of type 255
   ends them. `memcmp` compares the identifier of each with `CD001` last of all, where
   both outcomes go on with the next descriptor: nothing depends on an identifier. -/
namespace Aex.Fs
open Bytes Ends

/-- `iso9660_mount`'s copy of a descriptor. -/
def pvdCopy (bytes : Mem) : Mem := fun k => if k < isoBlock then bytes k else 0

/-- `type` of an `iso9660_vdesc`. -/
def vdescType (m : Mem) : Nat := m 0

/-- `identifier` of an `iso9660_vdesc`. -/
def vdescIdentifier (m : Mem) : CStr := (List.range 5).map (fun k => m (1 + k))

/-- `root.data_lba` of an `iso9660_primary_volume_desc`. -/
def pvdRootLba (m : Mem) : Nat := dentryDataLba m 156

/-- `root.data_len`. -/
def pvdRootLen (m : Mem) : Nat := dentryDataLen m 156

/-- The loop over the volume descriptors, with `complete` and `*pvd`. -/
def mountLoopScript : Nat → Nat → Bool → Mem → IsoScript (Except Int (Bool × Mem))
  | 0, _, _, _ => .stuck
  | fuel + 1, offset, complete, pvd =>
    if 24 < offset then .done (.error (-1))
    else
      .ask { who := .mount, lba := 16 + offset, offset := 0, pos := (64 + offset * 4) * 512, len := isoBlock } fun answer =>
        match answer with
        | .error (e, _) => .done (.error e)
        | .ok bytes =>
          let complete := if vdescType bytes = 1 then true else complete
          let pvd := if vdescType bytes = 1 then pvdCopy bytes else pvd
          if vdescType bytes = 255 then .done (.ok (complete, pvd))
          else if vdescIdentifier bytes ≠ cstr "CD001" then mountLoopScript fuel (offset + 1) complete pvd
          else mountLoopScript fuel (offset + 1) complete pvd

/-- `pvd` and `root_lba` of the private data. -/
structure IsoVolume where
  pvd : Mem
  rootLba : Nat

/-- The mount of a volume, before anything is opened. -/
def IsoVolume.mounted (volume : IsoVolume) (disc : Disc) : IsoPrivate where
  disc := disc
  rootLba := volume.rootLba
  rootLen := pvdRootLen volume.pvd
  lhandles := []

/-- `iso9660_mount`: the private data of a mount that succeeds. -/
def mountScript : IsoScript (Except Int IsoVolume) :=
  (mountLoopScript 26 0 false (fun _ => 0)).bind fun out => match out with
    | .error e => ret .mount e (.error e)
    | .ok (complete, pvd) =>
      if complete = false then ret .mount (-1) (.error (-1))
      else
        .ask { who := .mount, lba := pvdRootLba pvd, offset := 0, pos := u32 (pvdRootLba pvd * isoBlock), len := isoBlock } fun answer =>
          match answer with
          | .error (e, _) => ret .mount e (.error e)
          | .ok _ => ret .mount 0 (.ok { pvd := pvd, rootLba := pvdRootLba pvd })

/-! ## What a volume is -/

/-- Descriptor `k` of a disc whose blocks can be read. -/
def vdescAt (device : Nat → Nat) (k : Nat) : Mem := pvdCopy (fun j => device ((64 + k * 4) * 512 + j))

/-- A descriptor with the identifier. -/
def Named (m : Mem) : Prop := vdescIdentifier m = cstr "CD001"

/-- The volume of a disc: of the descriptors with the identifier, the last of type 1
before the first of type 255, which is among the first 25. -/
def IsVolume (d : Nat → Mem) (pvd : Mem) : Prop :=
  ∃ t p, First (fun k => vdescType (d k) = 255 ∧ Named (d k)) 25 t ∧ Last (fun k => vdescType (d k) = 1 ∧ Named (d k)) t p ∧
    pvd = d p

theorem IsVolume.congr {d d' : Nat → Mem} (h : ∀ k < 25, Named (d k) ∨ Named (d' k) → d k = d' k) {pvd : Mem}
    (hd : IsVolume d pvd) : IsVolume d' pvd := by
  obtain ⟨t, p, ht, hp, rfl⟩ := hd
  have hlt : t < 25 := ht.below
  have hpt : p < t := hp.below
  have hdt := h t hlt (.inl ht.here.2)
  have hdp := h p (by omega) (.inl hp.here.2)
  refine ⟨t, p, ⟨hlt, ?_, fun k hk hend => ?_⟩, ⟨hpt, ?_, fun k hk hk' hvol => ?_⟩, hdp⟩
  · rw [← hdt]
    exact ht.here
  · rw [← h k (by omega) (.inr hend.2)] at hend
    exact ht.before k hk hend
  · rw [← hdp]
    exact hp.here
  · rw [← h k (by omega) (.inr hvol.2)] at hvol
    exact hp.after k hk hk' hvol

theorem IsVolume.unique {d : Nat → Mem} {pvd pvd' : Mem} (h : IsVolume d pvd) (h' : IsVolume d pvd') : pvd = pvd' := by
  obtain ⟨t, p, ht, hp, rfl⟩ := h
  obtain ⟨t', p', ht', hp', rfl⟩ := h'
  obtain rfl := ht.unique ht'
  rw [hp.unique hp']

/-- What the driver is to do with a disc. -/
def MountsRight (device : Nat → Nat) : Prop :=
  ∀ pvd, (∃ volume, mountScript.result (deviceAnswer device) = some (.ok volume) ∧ volume.pvd = pvd) ↔
    IsVolume (vdescAt device) pvd

/-- The first descriptor of type 255 and the last of type 1 before it are those that
count: the latter has the identifier; and so has the former, or the first of type 255
that has it ends the same volume. -/
def Identified (d : Nat → Mem) : Prop :=
  ∀ t, First (fun k => vdescType (d k) = 255) 25 t →
    (∀ p, Last (fun k => vdescType (d k) = 1) t p → Named (d p)) ∧
    (Named (d t) ∨
      (∀ p, Last (fun k => vdescType (d k) = 1) t p → ∃ t', First (fun k => vdescType (d k) = 255 ∧ Named (d k)) 25 t') ∧
      ∀ t' p', First (fun k => vdescType (d k) = 255 ∧ Named (d k)) 25 t' →
        Last (fun k => vdescType (d k) = 1 ∧ Named (d k)) t' p' → ∃ p, Last (fun k => vdescType (d k) = 1) t p ∧ d p' = d p)

/-! ## What the loop finds -/

section Mount
variable {device : Nat → Nat}

/-- What `complete` and `*pvd` say before descriptor `n`. -/
def Seen (d : Nat → Mem) (n : Nat) (complete : Bool) (pvd : Mem) : Prop :=
  complete = false ∧ (∀ k < n, vdescType (d k) ≠ 1) ∨ complete = true ∧ ∃ p, Last (fun k => vdescType (d k) = 1) n p ∧ pvd = d p

theorem Seen.next {d : Nat → Mem} {n : Nat} {complete : Bool} {pvd : Mem} (h : Seen d n complete pvd) :
    Seen d (n + 1) (if vdescType (d n) = 1 then true else complete) (if vdescType (d n) = 1 then d n else pvd) := by
  by_cases hone : vdescType (d n) = 1
  · rw [if_pos hone, if_pos hone]
    exact .inr ⟨rfl, n, ⟨Nat.lt_succ_self n, hone, fun k hk hk' => by omega⟩, rfl⟩
  rw [if_neg hone, if_neg hone]
  have hlast : ∀ k, k < n + 1 → ¬ k < n → vdescType (d k) ≠ 1 := by
    intro k hk hk'
    obtain rfl : k = n := by omega
    exact hone
  rcases h with ⟨hc, hnone⟩ | ⟨hc, p, hp, hpvd⟩
  · refine .inl ⟨hc, fun k hk => ?_⟩
    by_cases hk' : k < n
    · exact hnone k hk'
    · exact hlast k hk hk'
  · refine .inr ⟨hc, p, ⟨Nat.lt_succ_of_lt hp.below, hp.here, fun k hpk hk => ?_⟩, hpvd⟩
    by_cases hk' : k < n
    · exact hp.after k hpk hk'
    · exact hlast k hk hk'

theorem mountLoopScript_turn {offset : Nat} (hle : ¬ 24 < offset) (fuel : Nat) (complete : Bool) (pvd : Mem) :
    (mountLoopScript (fuel + 1) offset complete pvd).result (deviceAnswer device) =
      if vdescType (vdescAt device offset) = 255 then
        some (.ok (if vdescType (vdescAt device offset) = 1 then true else complete,
          if vdescType (vdescAt device offset) = 1 then vdescAt device offset else pvd))
      else
        (mountLoopScript fuel (offset + 1) (if vdescType (vdescAt device offset) = 1 then true else complete)
          (if vdescType (vdescAt device offset) = 1 then vdescAt device offset else pvd)).result (deviceAnswer device) := by
  conv_lhs => unfold mountLoopScript
  rw [if_neg hle]
  show (if vdescType (vdescAt device offset) = 255 then Script.done _ else _).result _ = _
  rw [ite_self, apply_ite (Script.result _)]
  rfl

/-- The loop ends at the first descriptor of type 255, or behind the last descriptor
that it reads. -/
theorem mountLoop_spec : ∀ {fuel offset : Nat} {complete : Bool} {pvd : Mem}, offset + fuel = 26 → offset ≤ 25 →
    (∀ k < offset, vdescType (vdescAt device k) ≠ 255) → Seen (vdescAt device) offset complete pvd →
    (∃ t c m, First (fun k => vdescType (vdescAt device k) = 255) 25 t ∧ Seen (vdescAt device) t c m ∧
      (mountLoopScript fuel offset complete pvd).result (deviceAnswer device) = some (.ok (c, m))) ∨
    (∀ t < 25, vdescType (vdescAt device t) ≠ 255) ∧
      (mountLoopScript fuel offset complete pvd).result (deviceAnswer device) = some (.error (-1)) := by
  intro fuel
  induction fuel with
  | zero =>
    intro offset complete pvd hfuel hle
    omega
  | succ fuel ih =>
    intro offset complete pvd hfuel hle hbefore hseen
    by_cases hmany : 24 < offset
    · right
      refine ⟨fun t ht => hbefore t (by omega), ?_⟩
      unfold mountLoopScript
      rw [if_pos hmany]
      rfl
    rw [mountLoopScript_turn hmany]
    by_cases hend : vdescType (vdescAt device offset) = 255
    · left
      have hone : vdescType (vdescAt device offset) ≠ 1 := by omega
      rw [if_pos hend, if_neg hone, if_neg hone]
      exact ⟨offset, complete, pvd, ⟨by omega, hend, hbefore⟩, hseen, rfl⟩
    · rw [if_neg hend]
      refine ih (by omega) (by omega) (fun k hk => ?_) hseen.next
      by_cases hk' : k < offset
      · exact hbefore k hk'
      · obtain rfl : k = offset := by omega
        exact hend

/-- The call stores the last descriptor of type 1 before the first of type 255, whatever
their identifiers are, and fails where there is none. -/
theorem mountScript_spec (device : Nat → Nat) :
    (∃ t p, First (fun k => vdescType (vdescAt device k) = 255) 25 t ∧ Last (fun k => vdescType (vdescAt device k) = 1) t p ∧
      mountScript.result (deviceAnswer device) = some (.ok { pvd := vdescAt device p, rootLba := pvdRootLba (vdescAt device p) })) ∨
    (∀ t p, First (fun k => vdescType (vdescAt device k) = 255) 25 t → ¬ Last (fun k => vdescType (vdescAt device k) = 1) t p) ∧
      mountScript.result (deviceAnswer device) = some (.error (-1)) := by
  have hstart : Seen (vdescAt device) 0 false (fun _ => 0) := .inl ⟨rfl, fun k hk => absurd hk (Nat.not_lt_zero k)⟩
  unfold mountScript
  rw [Script.result_bind]
  rcases mountLoop_spec (show 0 + 26 = 26 from rfl) (Nat.zero_le 25) (fun k hk => absurd hk (Nat.not_lt_zero k)) hstart with
    ⟨t, c, m, ht, hseen, hloop⟩ | ⟨hnone, hloop⟩
  · rw [hloop]
    rcases hseen with ⟨rfl, hno⟩ | ⟨rfl, p, hp, rfl⟩
    · right
      refine ⟨fun t' p ht' hp => ?_, rfl⟩
      rw [ht'.unique ht] at hp
      exact hno p hp.below hp.here
    · left
      exact ⟨t, p, ht, hp, rfl⟩
  · rw [hloop]
    right
    exact ⟨fun t p ht _ => hnone t ht.below ht.here, rfl⟩

/-- A mount succeeds, and with the volume of the disc, exactly when identifiers make no
difference to where the descriptors of type 1 and 255 lie. -/
theorem iso9660_mount_right_iff (device : Nat → Nat) : MountsRight device ↔ Identified (vdescAt device) := by
  have hspec := mountScript_spec device
  constructor
  · intro hright t ht
    rcases hspec with ⟨t₀, p₀, ht₀, hp₀, hok⟩ | ⟨hnone, herr⟩
    · obtain rfl := ht.unique ht₀
      obtain ⟨t', p', ht', hp', heq⟩ := (hright (vdescAt device p₀)).mp ⟨_, hok, rfl⟩
      refine ⟨fun p hp => ?_, .inr ⟨fun _ _ => ⟨t', ht'⟩, fun t'' p'' ht'' hp'' => ⟨p₀, hp₀, ?_⟩⟩⟩
      · obtain rfl := hp.unique hp₀
        rw [heq]
        exact hp'.here.2
      · obtain rfl := ht''.unique ht'
        obtain rfl := hp''.unique hp'
        exact heq.symm
    · refine ⟨fun p hp => absurd hp (hnone t p ht), .inr ⟨fun p hp => absurd hp (hnone t p ht), fun t' p' ht' hp' => ?_⟩⟩
      obtain ⟨volume, hok, -⟩ := (hright (vdescAt device p')).mpr ⟨t', p', ht', hp', rfl⟩
      rw [herr] at hok
      cases hok
  · intro hid pvd
    rcases hspec with ⟨t, p, ht, hp, hok⟩ | ⟨hnone, herr⟩
    · obtain ⟨hnamed, hend⟩ := hid t ht
      have hvolume : IsVolume (vdescAt device) (vdescAt device p) := by
        rcases hend with hend | ⟨hended, hsame⟩
        · exact ⟨t, p, ht.strengthen ⟨ht.here, hend⟩ (fun _ h => h.1), hp.strengthen ⟨hp.here, hnamed p hp⟩ (fun _ h => h.1), rfl⟩
        · obtain ⟨t', ht'⟩ := hended p hp
          have hle := ht.le ht' (fun h => h.1)
          have hlt : p < t' := Nat.lt_of_lt_of_le hp.below hle
          obtain ⟨p', hp'⟩ : ∃ p', Last (fun k => vdescType (vdescAt device k) = 1 ∧ Named (vdescAt device k)) t' p' :=
            Last.exists hlt ⟨hp.here, hnamed p hp⟩
          obtain ⟨p₂, hp₂, heq⟩ := hsame t' p' ht' hp'
          obtain rfl := hp₂.unique hp
          exact ⟨t', p', ht', hp', heq.symm⟩
      constructor
      · rintro ⟨volume, hresult, rfl⟩
        rw [hok] at hresult
        cases hresult
        exact hvolume
      · intro hpvd
        exact ⟨_, hok, hvolume.unique hpvd⟩
    · refine ⟨fun ⟨volume, hresult, _⟩ => ?_, fun ⟨t', p', ht', hp', _⟩ => ?_⟩
      · rw [herr] at hresult
        cases hresult
      -- A volume of the disc would lead to a descriptor of type 1 before the one that ends.
      · exfalso
        obtain ⟨t, ht, -⟩ : ∃ t, First (fun k => vdescType (vdescAt device k) = 255) 25 t ∧ t ≤ t' :=
          First.exists ht'.below ht'.here.1
        obtain ⟨-, hend | ⟨-, hsame⟩⟩ := hid t ht
        · obtain rfl := ht'.unique (ht.strengthen ⟨ht.here, hend⟩ (fun _ h => h.1))
          obtain ⟨p, hp⟩ : ∃ p, Last (fun k => vdescType (vdescAt device k) = 1) t' p := Last.exists hp'.below hp'.here.1
          exact hnone t' p ht hp
        · obtain ⟨p, hp, -⟩ := hsame t' p' ht' hp'
          exact hnone t p ht hp

end Mount

/-- A device with the descriptors of a volume: each a type and an identifier, in sectors
of 2048 bytes from sector 16 on. -/
def descriptorDevice (descriptors : List (Nat × String)) (pos : Nat) : Nat :=
  match descriptors[pos / 2048 - 16]? with
  | none => 0
  | some (type, identifier) => (type :: cstr identifier)[pos % 2048]?.getD 0

/-- A disc with a volume, a descriptor of another type and an end is mounted as it should
be. -/
theorem iso9660_mount_right_volume : MountsRight (descriptorDevice [(1, "CD001"), (2, "CD001"), (255, "CD001")]) := by
  refine (iso9660_mount_right_iff _).mpr (fun t ht => ?_)
  have htwo : t = 2 := by
    have hle : t ≤ 2 := by
      by_contra hlt
      exact ht.before 2 (by omega) (by decide)
    have hhere := ht.here
    obtain rfl | rfl | rfl : t = 0 ∨ t = 1 ∨ t = 2 := by omega
    · exact absurd hhere (by decide)
    · exact absurd hhere (by decide)
    · rfl
  subst htwo
  refine ⟨fun p hp => ?_, .inl (by unfold Named; decide)⟩
  obtain rfl | rfl : p = 0 ∨ p = 1 := by
    have := hp.below
    omega
  · unfold Named
    decide
  · exact absurd hp.here (by decide)

/-- Two descriptors with no identifier at all are mounted. -/
theorem iso9660_mount_unnamed :
    ((mountScript.result (deviceAnswer (descriptorDevice [(1, ""), (255, "")]))).map Except.isOk = some true) ∧
    ¬ MountsRight (descriptorDevice [(1, ""), (255, "")]) := by
  have hok : (mountScript.result (deviceAnswer (descriptorDevice [(1, ""), (255, "")]))).map Except.isOk = some true := by decide
  refine ⟨hok, fun hright => ?_⟩
  obtain ⟨out, hout, hisOk⟩ := Option.map_eq_some_iff.mp hok
  cases out with
  | error e => cases hisOk
  | ok volume =>
    obtain ⟨t, p, ht, -, -⟩ := (hright volume.pvd).mp ⟨volume, hout, rfl⟩
    have hnone : ∀ k < 25, ¬ Named (vdescAt (descriptorDevice [(1, ""), (255, "")]) k) := by
      unfold Named
      decide
    exact hnone t ht.below ht.here.2

end Aex.Fs
