import Mathlib.Data.Nat.Bitwise
import PermissionUsage.Package.Services
/-!
# What decides sensitivity

Whether the use of a group by a package is user sensitive follows from the permissions of the group
that the package requests, each with the flags at its place: which ones there are, not where they
stand or what stands between them.

* `flagsSensitive_iff`: the flags of a requested permission are looked at bit by bit.
* `PackageInfo.mem_requestedOf_iff`: what a package requests of a group.
* `Services.isSensitive_iff`: something of it makes the use sensitive.
* `Services.sensitivity_decided`: so nothing else that the services know has a say.
-/

namespace PermissionUsage

/-! ## Bits -/

/-- Masking with a flag of one bit leaves the flag if the bit is set. -/
theorem and_flag_eq {bits flag : UInt32} {bit : Nat} (h : flag.toNat = 1 <<< bit) :
    bits &&& flag = if bits.toNat.testBit bit then flag else 0 := by
  rw [← UInt32.toNat_inj, UInt32.toNat_and, h, Nat.one_shiftLeft, Nat.and_two_pow]
  cases bits.toNat.testBit bit with
  | true => rw [if_pos rfl, h, Nat.one_shiftLeft, Bool.toNat_true, Nat.one_mul]
  | false => rw [if_neg Bool.false_ne_true, Bool.toNat_false, Nat.zero_mul, UInt32.toNat_zero]

/-- A flag of one bit is not empty. -/
theorem flag_ne_zero {flag : UInt32} {bit : Nat} (h : flag.toNat = 1 <<< bit) : flag ≠ 0 := by
  rintro rfl
  rw [Nat.one_shiftLeft] at h
  exact (Nat.two_pow_pos bit).ne h

/-- Whether a flag is set is whether its bit is. -/
theorem PermissionFlags.contains_eq (flags : PermissionFlags) {flag : PermissionFlags} {bit : Nat}
    (h : flag.bits.toNat = 1 <<< bit) : flags.contains flag = flags.bits.toNat.testBit bit := by
  have hne := flag_ne_zero h
  rw [contains, and_flag_eq h]
  cases flags.bits.toNat.testBit bit with
  | true => exact decide_eq_true ⟨rfl, hne⟩
  | false => exact decide_eq_false fun hflag => hne hflag.1.symm

/-- A permission is granted if the second bit is set. -/
theorem RequestedFlags.isGranted_eq (flags : RequestedFlags) :
    flags.isGranted = flags.bits.toNat.testBit 1 := by
  have hbit : granted.bits.toNat = 1 <<< 1 := rfl
  rw [isGranted, and_flag_eq hbit]
  cases flags.bits.toNat.testBit 1 <;> rfl

/-- The flags of a requested permission make the use of its group user sensitive: bit 8 does if the
permission is granted and not revoked for compatibility, else bit 9. -/
def MarksSensitive (requested : RequestedFlags) (flags : PermissionFlags) : Prop :=
  if requested.bits.toNat.testBit 1 ∧ ¬flags.bits.toNat.testBit 3 then flags.bits.toNat.testBit 8
  else flags.bits.toNat.testBit 9

/-- The flags decide by three bits and by whether the permission is granted. -/
theorem flagsSensitive_iff {requested : RequestedFlags} {flags : PermissionFlags} :
    Services.flagsSensitive requested flags = true ↔ MarksSensitive requested flags := by
  have hrevoked : flags.contains .revokedCompat = flags.bits.toNat.testBit 3 :=
    flags.contains_eq rfl
  have hgranted : flags.contains .sensitiveWhenGranted = flags.bits.toNat.testBit 8 :=
    flags.contains_eq rfl
  have hdenied : flags.contains .sensitiveWhenDenied = flags.bits.toNat.testBit 9 :=
    flags.contains_eq rfl
  unfold Services.flagsSensitive MarksSensitive
  rw [requested.isGranted_eq, hrevoked, hgranted, hdenied]
  cases requested.bits.toNat.testBit 1 <;> cases flags.bits.toNat.testBit 3 <;> simp

/-! ## Requests -/

namespace PackageInfo

variable {info other : PackageInfo} {group : PermissionGroup}

/-- The permissions of a group that a package requests, each with the flags at its index. -/
def requestedOf (info : PackageInfo) (group : PermissionGroup) : List (String × RequestedFlags) :=
  (info.requestedPermissions.zipIdx.map fun entry => (entry.1, info.flagsAt entry.2)).filter
    (Permission.group? ·.1 = some group)

/-- A requested permission goes with the flags at its own index. -/
theorem mem_requestedOf_iff {permission : String} {flags : RequestedFlags} :
    (permission, flags) ∈ info.requestedOf group ↔ Permission.group? permission = some group ∧
      ∃ index : Nat, info.requestedPermissions[index]? = some permission ∧
        info.flagsAt index = flags := by
  unfold requestedOf
  rw [List.mem_filter, decide_eq_true_eq, and_comm, List.mem_map]
  refine and_congr_right fun _ => ⟨?_, ?_⟩
  · rintro ⟨entry, hentry, heq⟩
    obtain ⟨rfl, rfl⟩ := Prod.mk.inj heq
    exact ⟨entry.2, List.mem_zipIdx_iff_getElem?.1 hentry, rfl⟩
  · rintro ⟨index, hpermission, rfl⟩
    exact ⟨(permission, index), List.mem_zipIdx_iff_getElem?.2 hpermission, rfl⟩

/-- If there are flags for every requested permission, they go by pairs. -/
theorem requestedOf_eq_zip (group : PermissionGroup)
    (lengths : info.requestedPermissions.length = info.requestedFlags.length) :
    info.requestedOf group = (info.requestedPermissions.zip info.requestedFlags).filter
      (Permission.group? ·.1 = some group) := by
  refine congrArg (List.filter _) (List.ext_getElem (by simp [lengths]) fun index h h' => ?_)
  have hflags : index < info.requestedFlags.length := by
    rw [List.length_zip] at h'
    omega
  simp [flagsAt, hflags]

/-- Two packages are both part of the system or both not, and they request the same permissions of a
group with the same flags. They may do so in another order and more than once, and all that they
request of other groups may differ. -/
structure SameOf (info other : PackageInfo) (group : PermissionGroup) : Prop where
  isSystem : info.isSystem = other.isSystem
  requested : ∀ entry, entry ∈ info.requestedOf group ↔ entry ∈ other.requestedOf group

/-- One package requests what the other does, permissions and flags in step, in another order. -/
structure Reordered (info other : PackageInfo) : Prop where
  isSystem : info.isSystem = other.isSystem
  lengths : info.requestedPermissions.length = info.requestedFlags.length
  lengths' : other.requestedPermissions.length = other.requestedFlags.length
  requested : (info.requestedPermissions.zip info.requestedFlags).Perm
    (other.requestedPermissions.zip other.requestedFlags)

/-- The order in which permissions are requested has no say, if the flags move along. -/
theorem Reordered.sameOf (h : info.Reordered other) (group : PermissionGroup) :
    info.SameOf other group := by
  refine ⟨h.isSystem, fun entry => ?_⟩
  rw [requestedOf_eq_zip group h.lengths, requestedOf_eq_zip group h.lengths']
  exact (h.requested.filter _).mem_iff

end PackageInfo

/-! ## Sensitivity -/

namespace Services

variable {services other : Services} {group : PermissionGroup} {owner : PackageUser}

/-- A permission of the group that the package requests is marked as sensitive. -/
def RequestsSensitive (services : Services) (group : PermissionGroup) (owner : PackageUser)
    (info : PackageInfo) : Prop :=
  ∃ (index : Nat) (permission : String), info.requestedPermissions[index]? = some permission ∧
    Permission.group? permission = some group ∧
    MarksSensitive (info.flagsAt index) (services.permissionFlags permission owner)

/-- A package is user sensitive by one of its entries for the group. -/
theorem requestsSensitive_iff {info : PackageInfo} :
    services.RequestsSensitive group owner info ↔ ∃ entry ∈ info.requestedOf group,
      MarksSensitive entry.2 (services.permissionFlags entry.1 owner) := by
  constructor
  · rintro ⟨index, permission, hpermission, hgroup, hmarks⟩
    exact ⟨_, PackageInfo.mem_requestedOf_iff.2 ⟨hgroup, index, hpermission, rfl⟩, hmarks⟩
  · rintro ⟨⟨permission, flags⟩, hentry, hmarks⟩
    obtain ⟨hgroup, index, hpermission, rfl⟩ := PackageInfo.mem_requestedOf_iff.1 hentry
    exact ⟨index, permission, hpermission, hgroup, hmarks⟩

/-- The walk over what a package requests finds such a permission if there is one. -/
theorem any_requested_iff {info : PackageInfo} :
    (info.requestedPermissions.zipIdx.any fun entry =>
      Permission.group? entry.1 = some group &&
        flagsSensitive (info.flagsAt entry.2) (services.permissionFlags entry.1 owner)) = true ↔
      services.RequestsSensitive group owner info := by
  rw [List.any_eq_true]
  constructor
  · rintro ⟨entry, hentry, hmarks⟩
    rw [Bool.and_eq_true, decide_eq_true_eq, flagsSensitive_iff] at hmarks
    exact ⟨entry.2, entry.1, List.mem_zipIdx_iff_getElem?.1 hentry, hmarks⟩
  · rintro ⟨index, permission, hpermission, hmarks⟩
    refine ⟨(permission, index), List.mem_zipIdx_iff_getElem?.2 hpermission, ?_⟩
    rwa [Bool.and_eq_true, decide_eq_true_eq, flagsSensitive_iff]

/-- What is computed is what the services say. -/
theorem isSensitive_iff : services.isSensitive group owner = true ↔
    ¬(owner.packageName = telecomPackage ∧ (group = .camera ∨ group = .microphone)) ∧
      ∃ info, services.packageInfo owner = some info ∧
        (info.isSystem = false ∨ services.RequestsSensitive group owner info) := by
  have hcalls : (!isCallPlumbing owner.packageName group) = true ↔
      ¬(owner.packageName = telecomPackage ∧ (group = .camera ∨ group = .microphone)) := by
    rw [isCallPlumbing, Bool.not_eq_true', decide_eq_false_iff_not]
  rw [isSensitive, Bool.and_eq_true, hcalls, Option.any_eq_true]
  refine and_congr_right fun _ => exists_congr fun info => and_congr_right fun _ => ?_
  rw [Bool.or_eq_true, Bool.not_eq_true']
  exact or_congr_right any_requested_iff

/-- Both know the package or neither does, they say the same of what it requests of the group, and
they have the same flags for its permissions of the group. All else may differ. -/
structure KnowSame (services other : Services) (group : PermissionGroup) (owner : PackageUser) :
    Prop where
  info : Option.Rel (PackageInfo.SameOf · · group) (services.packageInfo owner)
    (other.packageInfo owner)
  flags : ∀ permission, Permission.group? permission = some group →
    services.permissionFlags permission owner = other.permissionFlags permission owner

namespace KnowSame

theorem symm (h : services.KnowSame other group owner) : other.KnowSame services group owner where
  info := by
    have hinfo := h.info
    generalize services.packageInfo owner = info, other.packageInfo owner = info' at hinfo ⊢
    cases hinfo with
    | none => exact .none
    | some hsame => exact .some ⟨hsame.isSystem.symm, fun entry => (hsame.requested entry).symm⟩
  flags permission hgroup := (h.flags permission hgroup).symm

/-- Services that know the same agree in one direction, and so in both. -/
theorem isSensitive_of_isSensitive (h : services.KnowSame other group owner)
    (sensitive : services.isSensitive group owner = true) :
    other.isSensitive group owner = true := by
  obtain ⟨hcalls, info, hinfo, hmarked⟩ := isSensitive_iff.1 sensitive
  have hknown := h.info
  rw [hinfo] at hknown
  generalize hother : other.packageInfo owner = found at hknown
  cases hknown with
  | @some _ info' hsame =>
    refine isSensitive_iff.2 ⟨hcalls, info', hother, ?_⟩
    rw [← hsame.isSystem]
    refine hmarked.imp id fun hmarked => ?_
    obtain ⟨entry, hentry, hmarks⟩ := requestsSensitive_iff.1 hmarked
    have hgroup := (PackageInfo.mem_requestedOf_iff.1 hentry).1
    rw [h.flags entry.1 hgroup] at hmarks
    exact requestsSensitive_iff.2 ⟨entry, (hsame.requested entry).1 hentry, hmarks⟩

theorem isSensitive_eq (h : services.KnowSame other group owner) :
    services.isSensitive group owner = other.isSensitive group owner :=
  Bool.eq_iff_iff.2 ⟨h.isSensitive_of_isSensitive, h.symm.isSensitive_of_isSensitive⟩

end KnowSame

/-- **What decides sensitivity.** The use of a group is user sensitive if it is not that of the
camera or the microphone by the telecom package, and the package is installed, and is not part of
the system or requests a permission of the group, at any index, whose flags say so. So it stays the
same if the package requests its permissions in another order, and if nothing changes that is known
of its permissions of the group. -/
theorem sensitivity_decided (services : Services) (group : PermissionGroup) (owner : PackageUser) :
    (services.isSensitive group owner = true ↔
      ¬(owner.packageName = telecomPackage ∧ (group = .camera ∨ group = .microphone)) ∧
        ∃ info, services.packageInfo owner = some info ∧
          (info.isSystem = false ∨ ∃ (index : Nat) (permission : String),
            info.requestedPermissions[index]? = some permission ∧
            Permission.group? permission = some group ∧
            MarksSensitive (info.flagsAt index) (services.permissionFlags permission owner))) ∧
    (∀ (other : Services) (info reordered : PackageInfo), info.Reordered reordered →
      services.packageInfo owner = some info → other.packageInfo owner = some reordered →
      (∀ permission,
        services.permissionFlags permission owner = other.permissionFlags permission owner) →
      services.isSensitive group owner = other.isSensitive group owner) ∧
    ∀ other : Services, services.KnowSame other group owner →
      services.isSensitive group owner = other.isSensitive group owner := by
  refine ⟨isSensitive_iff, fun other info reordered hreordered hinfo hother hflags => ?_,
    fun other same => same.isSensitive_eq⟩
  have hknown : Option.Rel (PackageInfo.SameOf · · group) (services.packageInfo owner)
      (other.packageInfo owner) := by
    rw [hinfo, hother]
    exact .some (hreordered.sameOf group)
  exact KnowSame.isSensitive_eq ⟨hknown, fun permission _ => hflags permission⟩

/-! ### A permission that is requested twice

A part of the system requests the precise location twice, granted once, and its flags say that a
denied use is user sensitive. Then it is requested in another order, and then other groups and other
users change.
-/

namespace RequestedTwice

def scanner : PackageUser := ⟨"com.example.scanner", 0⟩

def info : PackageInfo where
  packageName := "com.example.scanner"
  requestedPermissions :=
    [Permission.accessFineLocation, Permission.camera, Permission.accessFineLocation]
  requestedFlags := [.granted, .granted, {}]
  isSystem := true

def reordered : PackageInfo where
  packageName := "com.example.scanner"
  requestedPermissions :=
    [Permission.accessFineLocation, Permission.accessFineLocation, Permission.camera]
  requestedFlags := [{}, .granted, .granted]
  isSystem := true

/-- The microphone is requested in place of the camera, and the flags end early. -/
def changed : PackageInfo where
  packageName := "com.example.scanner"
  requestedPermissions :=
    [Permission.accessFineLocation, Permission.recordAudio, Permission.accessFineLocation]
  requestedFlags := [.granted, {}]
  isSystem := true

def knowing (info : PackageInfo) (permissionFlags : String → PackageUser → PermissionFlags) :
    Services where
  profiles := [0]
  isQuiet _ := false
  showsWhenQuiet _ := false
  isExempted _ := false
  packageInfo owner := if owner.packageName = info.packageName then some info else none
  attribution _ := none
  permissionFlags := permissionFlags

def flags (permission : String) (_ : PackageUser) : PermissionFlags :=
  if permission = Permission.accessFineLocation then .sensitiveWhenDenied else {}

/-- The flags after those of the camera and of all other users have changed. -/
def changedFlags (permission : String) (owner : PackageUser) : PermissionFlags :=
  if permission = Permission.camera ∨ owner ≠ scanner then .sensitiveWhenGranted
  else flags permission owner

end RequestedTwice

open RequestedTwice in
/-- A permission that is requested twice, granted once. -/
theorem sensitivity_decided_of_requestedTwice :
    (knowing info flags).isSensitive .location scanner = true ∧
      (knowing reordered flags).isSensitive .location scanner = true ∧
      (knowing changed changedFlags).isSensitive .location scanner = true := by
  obtain ⟨hdecided, hreordered, hchanged⟩ :=
    sensitivity_decided (knowing info flags) .location scanner
  have hinfo : (knowing info flags).packageInfo scanner = some info := rfl
  have hsensitive : (knowing info flags).isSensitive .location scanner = true :=
    hdecided.2 ⟨by decide +kernel, info, hinfo, .inr ⟨2, Permission.accessFineLocation, rfl,
      by decide +kernel, rfl⟩⟩
  have hperm : info.Reordered reordered := ⟨rfl, rfl, rfl, by decide +kernel⟩
  have hsame : info.requestedOf .location = changed.requestedOf .location := by decide +kernel
  have hflags : ∀ permission, Permission.group? permission = some .location →
      flags permission scanner = changedFlags permission scanner := by
    intro permission hgroup
    have hcamera : permission ≠ Permission.camera := by
      rintro rfl
      exact absurd hgroup (by decide +kernel)
    simp [changedFlags, hcamera]
  refine ⟨hsensitive, ?_, ?_⟩
  · rw [← hreordered (knowing reordered flags) info reordered hperm rfl rfl fun _ => rfl]
    exact hsensitive
  · rw [← hchanged (knowing changed changedFlags)
      ⟨.some ⟨rfl, fun entry => by rw [hsame]⟩, hflags⟩]
    exact hsensitive

end Services

end PermissionUsage
