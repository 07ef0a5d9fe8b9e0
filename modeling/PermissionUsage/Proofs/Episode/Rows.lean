import PermissionUsage.Proofs.LastUse.Shown
/-!
# The rows of the usage details

The rows of the usage details are the listed episodes, newest first. Sorting them is stable: rows
with the same start stand as their episodes do (`filter_mergeSort_of_ties`), and leaving episodes
out leaves rows out and does nothing else (`sublist_mergeSort_of_sublist`). So a view that is
narrowed, to a window that starts later or by hiding system usage, loses rows and never reorders
the others: `DetailsView.rows_narrow`.
-/

namespace PermissionUsage

/-! ## Stable sorting -/

section StableSort

variable {α : Type} {le : α → α → Bool} (trans : ∀ a b c, le a b → le b c → le a c)
  (total : ∀ a b, le a b || le b a)
include trans total

/-- An element that comes in front of a list is sorted in right behind the elements that have to
stand before it. -/
theorem mergeSort_cons_eq (a : α) (l : List α) :
    (a :: l).mergeSort le =
      (l.mergeSort le).filter (!le a ·) ++ a :: (l.mergeSort le).filter (le a ·) := by
  obtain ⟨before, after, hcons, hrest, hbefore⟩ := List.mergeSort_cons trans total a l
  have hsorted := List.pairwise_mergeSort trans total (a :: l)
  rw [hcons] at hsorted
  have hafter : ∀ b ∈ after, le a b = true :=
    (List.pairwise_cons.1 (List.pairwise_append.1 hsorted).2.1).1
  have hfront : (before ++ after).filter (!le a ·) = before := by
    rw [List.filter_append, List.filter_eq_self.2 hbefore, List.filter_eq_nil_iff.2 (by simpa),
      List.append_nil]
  have hback : (before ++ after).filter (le a ·) = after := by
    rw [List.filter_append, List.filter_eq_self.2 hafter,
      List.filter_eq_nil_iff.2 (by simpa using hbefore), List.nil_append]
  rw [hcons, hrest, hfront, hback]

/-- Leaving elements out of a list leaves them out of the sorted list. -/
theorem sublist_mergeSort_of_sublist {l l' : List α} (h : l'.Sublist l) :
    (l'.mergeSort le).Sublist (l.mergeSort le) := by
  induction h with
  | slnil => exact .refl _
  | @cons l' l a _ ih =>
    obtain ⟨before, after, hcons, hrest, -⟩ := List.mergeSort_cons trans total a l
    rw [hrest] at ih
    rw [hcons]
    exact ih.trans ((List.sublist_cons_self a after).append_left before)
  | cons_cons a _ ih =>
    rw [mergeSort_cons_eq trans total, mergeSort_cons_eq trans total]
    exact (ih.filter _).append ((ih.filter _).cons_cons a)

/-- Elements that may stand in either order keep the one that they have. -/
theorem filter_mergeSort_of_ties {p : α → Bool} (ties : ∀ a b, p a → p b → le a b)
    (l : List α) : (l.mergeSort le).filter p = l.filter p := by
  have hties : (l.filter p).Pairwise (le · ·) :=
    List.pairwise_of_forall_mem_list fun a ha b hb =>
      ties a b (List.mem_filter.1 ha).2 (List.mem_filter.1 hb).2
  have hsublist : (l.filter p).Sublist (l.mergeSort le) :=
    List.sublist_mergeSort trans total hties List.filter_sublist
  have hfilter := hsublist.filter p
  rw [List.filter_filter] at hfilter
  simp only [Bool.and_self] at hfilter
  exact (hfilter.eq_of_length ((List.mergeSort_perm l le).filter p).length_eq.symm).symm

end StableSort

/-! ## Rows -/

namespace DetailsView

/-- The order of the rows: the first one starts no earlier than the second. -/
def newestFirst (row next : EpisodeRow) : Bool := next.start.toInt ≤ row.start.toInt

/-- The order of rows is transitive. -/
theorem newestFirst_trans (a b c : EpisodeRow) (hab : newestFirst a b) (hbc : newestFirst b c) :
    newestFirst a c := by
  simp only [newestFirst, decide_eq_true_eq] at *
  omega

/-- Of two rows one comes first; both do if they start together. -/
theorem newestFirst_total (a b : EpisodeRow) : newestFirst a b || newestFirst b a := by
  simp only [newestFirst, Bool.or_eq_true, decide_eq_true_eq]
  omega

/-- The rows of a page: one for each listed episode, newest first, and those with the same start in
the order of their episodes. -/
structure Lists (episodes : List Episode) (group : PermissionGroup) (toggles : Toggles)
    (features : Features) (start : Millis) (rows : List EpisodeRow) : Prop where
  perm : rows.Perm ((episodes.filter (·.isListed toggles start)).map (·.row group features))
  inOrder : rows.Pairwise fun row next => next.start.toInt ≤ row.start.toInt
  ties : ∀ t, rows.filter (·.start = t) =
    ((episodes.filter (·.isListed toggles start)).filter (·.start = t)).map (·.row group features)

section Narrow

variable (episodes : List Episode) (group : PermissionGroup) (features : Features)

/-- **The rows are a stable sort of the listed episodes.** -/
theorem lists_rows (toggles : Toggles) (start : Millis) :
    Lists episodes group toggles features start
      (rows episodes group toggles features start) where
  perm := List.mergeSort_perm _ _
  inOrder := by
    apply (List.pairwise_mergeSort newestFirst_trans newestFirst_total _).imp
    intro row next h
    exact of_decide_eq_true h
  ties t := by
    have hties : ∀ a b : EpisodeRow, decide (a.start = t) → decide (b.start = t) →
        newestFirst a b := by
      simp only [newestFirst, decide_eq_true_eq]
      rintro a b rfl hb
      rw [hb]
    show (List.mergeSort _ newestFirst).filter _ = _
    rw [filter_mergeSort_of_ties newestFirst_trans newestFirst_total hties, List.filter_map]
    rfl

/-- A view that starts no earlier, and shows system usage only if the other does, loses rows. -/
theorem rows_sublist {wide narrow : Toggles} {start start' : Millis}
    (hstart : start.toInt ≤ start'.toInt)
    (hsystem : narrow.showSystem = true → wide.showSystem = true) :
    (rows episodes group narrow features start').Sublist
      (rows episodes group wide features start) := by
  apply sublist_mergeSort_of_sublist newestFirst_trans newestFirst_total
  apply List.Sublist.map
  apply List.monotone_filter_right
  intro episode hlisted
  simp only [Episode.isListed, decide_eq_true_eq] at hlisted ⊢
  obtain ⟨hfinish, hshown⟩ := hlisted
  exact ⟨by omega, hshown.imp_left hsystem⟩

/-- **Narrowing the usage details only removes rows.** At any time and for any toggles, if the
start of the window does not overflow, the page has one row for each listed episode, newest first,
rows with the same start in the order of their episodes, and it tells whether any episode, listed or
not, is not user sensitive. Of two such pages, the rows of one whose window starts no earlier and
which shows system usage only if the other does are some of the rows of the other, in their order.
-/
theorem rows_narrow {wide narrow : Toggles} {now now' start start' : Millis}
    (hwide : windowStart features wide.showSevenDays now = .ok start)
    (hnarrow : windowStart features narrow.showSevenDays now' = .ok start') :
    ∃ rows rows' containsSystemUsages,
      ofTimeline (.success episodes) group wide features now =
        .ok (.success rows containsSystemUsages) ∧
      ofTimeline (.success episodes) group narrow features now' =
        .ok (.success rows' containsSystemUsages) ∧
      (containsSystemUsages = true ↔ ∃ episode ∈ episodes, episode.isSensitive = false) ∧
      Lists episodes group wide features start rows ∧
      Lists episodes group narrow features start' rows' ∧
      (start.toInt ≤ start'.toInt → (narrow.showSystem = true → wide.showSystem = true) →
        rows'.Sublist rows) := by
  refine ⟨_, _, _, ofTimeline_success_eq hwide, ofTimeline_success_eq hnarrow, ?_,
    lists_rows episodes group features wide start,
    lists_rows episodes group features narrow start', rows_sublist episodes group features⟩
  simp

end Narrow

/-! ### A week and the day after

Three apps start to use the camera in the same minute, one of them part of the system, and one has
used it days before.
-/

namespace WeekAndDay

def used (packageName : String) (start finish : Millis) (isSensitive : Bool) : Episode where
  owner := ⟨packageName, 0⟩
  ops := .ofList [Op.camera]
  start
  finish
  duration := finish - start + 60000
  isSensitive

def episodes : List Episode :=
  [used "com.example.scanner" 300000000 300060000 true,
    used "com.example.camera" 799980000 799980000 true,
    used "com.android.systemui" 799980000 800040000 false,
    used "com.example.scanner" 799980000 800100000 true]

def week : Toggles := { showSystem := true, showSevenDays := true }

def day : Toggles := {}

end WeekAndDay

open WeekAndDay in
/-- Four episodes of a week, two of them of the last day. -/
theorem rows_narrow_of_weekAndDay :
    windowStart {} week.showSevenDays 864000000 = .ok 259200000 ∧
      windowStart {} day.showSevenDays 864060000 = .ok 777660000 ∧
      ∃ rows rows',
        ofTimeline (.success episodes) .camera week {} 864000000 = .ok (.success rows true) ∧
        ofTimeline (.success episodes) .camera day {} 864060000 = .ok (.success rows' true) ∧
        rows.length = 4 ∧ rows'.length = 2 ∧ rows'.Sublist rows := by
  have hweek : windowStart {} week.showSevenDays 864000000 = .ok 259200000 := rfl
  have hday : windowStart {} day.showSevenDays 864060000 = .ok 777660000 := rfl
  obtain ⟨rows, rows', containsSystemUsages, hwide, hnarrow, hsystem, hlists, hlists', hsublist⟩ :=
    rows_narrow episodes .camera {} hweek hday
  have htrue : containsSystemUsages = true := hsystem.2 (by decide)
  rw [htrue] at hwide hnarrow
  refine ⟨hweek, hday, rows, rows', hwide, hnarrow, ?_, ?_, hsublist (by decide) nofun⟩
  · rw [hlists.perm.length_eq]
    decide +kernel
  · rw [hlists'.perm.length_eq]
    decide +kernel

end DetailsView

end PermissionUsage
