import PermissionUsage.Access.Cluster
import PermissionUsage.Proofs.Checked
/-!
# Where accesses end

An access ends in two ways: `endExclusive` is the first instant after it and `lastCovered` the start
of the last minute that it covers. Both come from one exact integer, `Access.stop`, so that the two
never disagree: wherever they exist, they are one minute apart, for instantaneous and continuous
accesses alike.

`AllFit` says of a list of accesses that no arithmetic on it leaves the 64-bit range, `AllCovered`
only that each of them has a last minute. The time of an access can be rounded unless it lies before
the first whole minute (`exists_truncated_iff`).
-/

namespace PermissionUsage

namespace Access

/-- The first instant after the access, as an exact integer. -/
def stop (access : Access) : Int :=
  access.time.toInt + if access.isContinuous then access.duration.toInt else 60000

/-- The start of the last minute that the access covers, as an exact integer. -/
def lastMinute (access : Access) : Int := access.stop - 60000

/-- The first instant after an access is its exact stop, if that fits. -/
theorem endExclusive_eq_ok_iff {access : Access} {t : Millis} :
    access.endExclusive = .ok t ↔ t.toInt = access.stop := by
  unfold endExclusive stop
  split
  · exact Millis.add_eq_ok_iff
  · exact Millis.add_eq_ok_iff

theorem exists_endExclusive {access : Access} (fits : Millis.Fits access.stop) :
    ∃ t, access.endExclusive = .ok t := by
  unfold endExclusive
  unfold stop at fits
  split
  · next h => rw [if_pos h] at fits; exact Millis.exists_add_eq_ok_iff.2 fits
  · next h => rw [if_neg h] at fits; exact Millis.exists_add_eq_ok_iff.2 fits

/-- The start of the last minute is the exact one. -/
theorem toInt_of_lastCovered {access : Access} {t : Millis} (h : access.lastCovered = .ok t) :
    t.toInt = access.lastMinute := by
  unfold lastCovered at h
  unfold lastMinute stop
  split at h
  · next hcontinuous =>
    obtain ⟨stop, hstop, h⟩ := bind_eq_ok_iff.1 h
    rw [if_pos hcontinuous, Millis.sub_eq_ok_iff.1 h, Millis.add_eq_ok_iff.1 hstop]
    rfl
  · next hinstant =>
    -- an instantaneous access covers its own minute only
    obtain rfl := Except.ok.inj h
    rw [if_neg hinstant]
    omega

/-- The last minute is computed by way of the stop, so both have to fit. -/
theorem exists_lastCovered {access : Access} (hstop : Millis.Fits access.stop)
    (hlast : Millis.Fits access.lastMinute) : ∃ t, access.lastCovered = .ok t := by
  unfold lastMinute at hlast
  unfold stop at hstop hlast
  unfold lastCovered
  -- only the end of a continuous access is computed
  split
  · next h =>
    rw [if_pos h] at hstop hlast
    obtain ⟨stop, hadd⟩ := Millis.exists_add_eq_ok_iff.2 hstop
    rw [← Millis.add_eq_ok_iff.1 hadd] at hlast
    obtain ⟨last, hsub⟩ := Millis.exists_sub_eq_ok_iff (b := Millis.oneMinute).2 hlast
    exact ⟨last, bind_eq_ok_iff.2 ⟨stop, hadd, hsub⟩⟩
  · exact ⟨access.time, rfl⟩

/-- If the access is continuous, it lasts a minute at least, as the history keeps it. -/
def KeepsMinute (access : Access) : Prop :=
  0 < access.duration.toInt → 60000 ≤ access.duration.toInt

instance (access : Access) : Decidable access.KeepsMinute := inferInstanceAs (Decidable (_ → _))

/-- An access that keeps its minute does not end before its last minute starts. -/
theorem KeepsMinute.time_le_lastMinute {access : Access} (minute : access.KeepsMinute) :
    access.time.toInt ≤ access.lastMinute := by
  unfold lastMinute stop
  split
  · next hcontinuous =>
    have hminute := minute (of_decide_eq_true hcontinuous)
    omega
  · omega

/-- The first whole minute that fits 64 bits. -/
def firstMinute : Int := -9223372036854720000

/-- Rounding fails only in the first minute that 64 bits can name, whose start they cannot. -/
theorem exists_truncated_iff {access : Access} :
    (∃ whole, access.truncated = .ok whole) ↔ firstMinute ≤ access.time.toInt := by
  have hrest : (Int64.ofInt (access.time.toInt % 60000)).toInt = access.time.toInt % 60000 :=
    Int64.toInt_ofInt_of_le (by omega) (by omega)
  have hround : (∃ time, access.time.sub (Int64.ofInt (access.time.toInt % 60000)) = .ok time) ↔
      firstMinute ≤ access.time.toInt := by
    have hmin := access.time.le_toInt
    have hmax := access.time.toInt_lt
    rw [Millis.exists_sub_eq_ok_iff, hrest]
    unfold Millis.Fits firstMinute
    omega
  rw [← hround]
  constructor
  · rintro ⟨whole, hwhole⟩
    obtain ⟨time, htime, -⟩ := bind_eq_ok_iff.1 hwhole
    exact ⟨time, htime⟩
  · rintro ⟨time, htime⟩
    exact ⟨_, bind_eq_ok_iff.2 ⟨time, htime, rfl⟩⟩

/-- No arithmetic on some accesses leaves the 64-bit range: neither an end, nor the distance from
the start of one access to the end of another. -/
def AllFit (accesses : List Access) : Prop :=
  ∀ a ∈ accesses, Millis.Fits a.stop ∧ Millis.Fits a.lastMinute ∧
    ∀ b ∈ accesses, Millis.Fits (a.stop - b.time.toInt)

instance (accesses : List Access) : Decidable (AllFit accesses) :=
  inferInstanceAs (Decidable (∀ a ∈ accesses, _ ∧ _ ∧ ∀ b ∈ accesses, _))

/-- Fewer accesses fit as well. -/
theorem AllFit.mono {accesses part : List Access} (fit : AllFit accesses)
    (h : ∀ a ∈ part, a ∈ accesses) : AllFit part := by
  intro a ha
  obtain ⟨hstop, hlast, hspan⟩ := fit a (h a ha)
  exact ⟨hstop, hlast, fun b hb => hspan b (h b hb)⟩

/-- Every access has a last minute that it covers: none lies outside the 64-bit range. -/
def AllCovered (accesses : List Access) : Prop := ∀ a ∈ accesses, ∃ t, a.lastCovered = .ok t

/-- Accesses that fit have a last minute each. -/
theorem AllFit.allCovered {accesses : List Access} (fit : AllFit accesses) : AllCovered accesses :=
  fun a ha => exists_lastCovered (fit a ha).1 (fit a ha).2.1

end Access

namespace Clustering

/-- The end of a cluster that its next access is measured against is the latest last minute. -/
theorem max?_of_coveredUntil {cluster : List Access} {covered : Option Millis}
    (h : coveredUntil cluster = .ok covered) :
    (cluster.map Access.lastMinute).max? = covered.map Int64.toInt := by
  unfold coveredUntil at h
  obtain ⟨ends, hends, h⟩ := bind_eq_ok_iff.1 h
  rw [← map_eq_map_of_mapM (fun _ _ => Access.toInt_of_lastCovered) hends]
  cases ends with
  | nil =>
    obtain rfl := Except.ok.inj h
    rfl
  | cons first rest =>
    obtain rfl := Except.ok.inj h
    exact Millis.max?_map_toInt first rest

/-- The end of a cluster is the last minute of one of its accesses. -/
theorem exists_lastCovered_of_coveredUntil {cluster : List Access} {covered : Millis}
    (h : coveredUntil cluster = .ok (some covered)) :
    ∃ a ∈ cluster, a.lastCovered = .ok covered := by
  have hmem : covered.toInt ∈ cluster.map Access.lastMinute :=
    List.max?_mem (max?_of_coveredUntil h)
  obtain ⟨a, ha, hlast⟩ := List.mem_map.1 hmem
  obtain ⟨ends, hends, -⟩ := bind_eq_ok_iff.1 h
  obtain ⟨t, -, ht⟩ := exists_mem_of_forall₂ (mapM_eq_ok_iff.1 hends).flip a ha
  have heq : t = covered := Int64.toInt_inj.1 ((Access.toInt_of_lastCovered ht).trans hlast)
  exact ⟨a, ha, heq ▸ ht⟩

/-- A cluster of accesses that have a last minute has a last minute. -/
theorem exists_coveredUntil {cluster : List Access} (hcovered : Access.AllCovered cluster) :
    ∃ covered, coveredUntil cluster = .ok covered := by
  obtain ⟨ends, hends⟩ : ∃ ends, cluster.mapM Access.lastCovered = .ok ends :=
    exists_mapM_eq_ok hcovered
  unfold coveredUntil
  rw [hends]
  cases ends with
  | nil => exact ⟨none, rfl⟩
  | cons first rest => exact ⟨some (Millis.latest first rest), rfl⟩

end Clustering

end PermissionUsage
