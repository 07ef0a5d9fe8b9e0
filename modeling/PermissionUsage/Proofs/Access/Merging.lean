import PermissionUsage.Access.Source
import PermissionUsage.Proofs.Keyed
/-!
# Merging by owner

A merged list has at most one item for each owner, so that it is known by what is found in it for an
owner.

* `firstSeen_mergeAll`: the owners stand in the order in which they are first seen.
* `find?_mergeAll`: the item of an owner is joined from all items of that owner, in their order.
* `filter_mergeAll`: so what a merged list has of an owner follows from that owner's items alone.
* `loadMerged_eq_ok`: a load from a source that refuses only what it does not know merges all that
  it is answered.
-/

namespace PermissionUsage

/-! ## Merging -/

section Merging

variable {α κ : Type} [DecidableEq κ] {key : α → κ} {join : α → α → α}

theorem mergeAll_append (merged items more : List α) :
    mergeAll key join merged (items ++ more) =
      mergeAll key join (mergeAll key join merged items) more :=
  List.foldl_append

/-- The last item is merged into what the others were merged into. -/
theorem mergeAll_concat (merged items : List α) (item : α) :
    mergeAll key join merged (items ++ [item]) =
      mergeItem key join item (mergeAll key join merged items) :=
  mergeAll_append ..

/-- The items of one key, joined in their order. -/
def joined (join : α → α → α) : List α → Option α
  | [] => none
  | first :: rest => some (rest.foldl join first)

/-- One more item is joined to those that are joined already, or is the first. -/
theorem joined_concat (items : List α) (item : α) :
    joined join (items ++ [item]) = some ((joined join items).elim item (join · item)) := by
  cases items with
  | nil => rfl
  | cons first rest =>
    show some ((rest ++ [item]).foldl join first) = _
    rw [List.foldl_append]
    rfl

variable (keeps : ∀ a b, key (join a b) = key a)
include keeps

/-- An item that is added keeps the keys, or its key comes last. -/
theorem map_key_mergeItem (item : α) (merged : List α) :
    (mergeItem key join item merged).map key =
      if key item ∈ merged.map key then merged.map key
      else merged.map key ++ [key item] := by
  induction merged with
  | nil => rfl
  | cons first rest ih =>
    rw [mergeItem]
    by_cases h : key first = key item
    · simp [h, keeps]
    · have hne : key item ≠ key first := Ne.symm h
      rw [if_neg h, List.map_cons, List.map_cons, ih]
      by_cases hmem : key item ∈ rest.map key
      · rw [if_pos hmem, if_pos (List.mem_cons_of_mem _ hmem)]
      · rw [if_neg hmem, if_neg fun h => (List.mem_cons.1 h).elim hne hmem]
        rfl

/-- The keys of a merged list stand in the order in which they are first seen. -/
theorem firstSeen_mergeAll [BEq κ] [LawfulBEq κ] (items : List α) :
    FirstSeen (items.map key) ((mergeAll key join [] items).map key) := by
  induction items using List.reverseRecOn with
  | nil => exact .nil
  | append_singleton items item ih =>
    rw [mergeAll_concat, map_key_mergeItem keeps, List.map_append, List.map_singleton]
    split
    · next hseen => exact ih.concat_of_mem ((ih.mem _).1 hseen)
    · next hnew => exact ih.concat_of_notMem (mt (ih.mem _).2 hnew)

/-- A merged list has no key twice. -/
theorem nodup_mergeAll (items : List α) : ((mergeAll key join [] items).map key).Nodup :=
  (firstSeen_mergeAll keeps items).nodup

/-- Adding an item changes what is found for its key and for no other. -/
theorem find?_mergeItem (item : α) (merged : List α) (k : κ) :
    (mergeItem key join item merged).find? (key · = k) =
      if key item = k then some ((merged.find? (key · = k)).elim item (join · item))
      else merged.find? (key · = k) := by
  induction merged with
  | nil =>
    rw [mergeItem, List.find?_cons]
    by_cases h : key item = k <;> simp [h]
  | cons first rest ih =>
    rw [mergeItem]
    by_cases hfirst : key first = key item
    · rw [if_pos hfirst, List.find?_cons, List.find?_cons, keeps]
      by_cases h : key item = k
      · simp [hfirst, h]
      · simp [hfirst, h]
    · rw [if_neg hfirst, List.find?_cons, List.find?_cons, ih]
      by_cases h : key first = k
      · -- the first item stays in front, and the added one is of another key
        have hne : key item ≠ k := fun heq => hfirst (h.trans heq.symm)
        simp [h, hne]
      · simp [h]

/-- In a merged list the items of one key are joined in their order. -/
theorem find?_mergeAll (items : List α) (k : κ) :
    (mergeAll key join [] items).find? (key · = k) =
      joined join (items.filter (key · = k)) := by
  induction items using List.reverseRecOn with
  | nil => rfl
  | append_singleton items item ih =>
    rw [mergeAll_concat, find?_mergeItem keeps, ih, List.filter_append, List.filter_singleton]
    by_cases h : key item = k
    · rw [if_pos h, decide_eq_true h, cond_true, joined_concat]
    · rw [if_neg h, decide_eq_false h, cond_false, List.append_nil]

/-- A merged list has one item for a key, or none, and it follows from that key's items alone. -/
theorem filter_mergeAll (items : List α) (k : κ) :
    (mergeAll key join [] items).filter (key · = k) =
      (joined join (items.filter (key · = k))).toList := by
  rw [filter_eq_toList_find? (nodup_mergeAll keeps items), find?_mergeAll keeps]

/-- An item of a merged list is joined from the items of its key. -/
theorem joined_of_mem_mergeAll {items : List α} {item : α}
    (h : item ∈ mergeAll key join [] items) :
    joined join (items.filter (key · = key item)) = some item := by
  rw [← find?_mergeAll keeps]
  exact find?_of_mem (nodup_mergeAll keeps items) h

end Merging

/-! ## Contents of items -/

section Contents

variable {α β : Type} {join : α → α → α} {contents : α → List β} {withContents : α → List β → α}

/-- An item that another one is joined to has the contents of both, and stays as it is
otherwise. -/
structure AddsUp (join : α → α → α) (contents : α → List β) (withContents : α → List β → α) :
    Prop where
  withContents_contents : ∀ a, withContents a (contents a) = a
  contents_withContents : ∀ a l, contents (withContents a l) = l
  withContents_twice : ∀ a l l', withContents (withContents a l) l' = withContents a l'
  join_eq : ∀ a b, join a b = withContents a (contents a ++ contents b)

/-- Joined items are the first one, with the contents of all in their order. -/
theorem AddsUp.joined_cons (h : AddsUp join contents withContents) (first : α) (rest : List α) :
    joined join (first :: rest) =
      some (withContents first ((first :: rest).flatMap contents)) := by
  show some (rest.foldl join first) = _
  induction rest generalizing first with
  | nil => rw [List.flatMap_singleton, h.withContents_contents]; rfl
  | cons next rest ih =>
    rw [List.foldl_cons, ih, h.join_eq, List.flatMap_cons, h.contents_withContents,
      h.withContents_twice, List.append_assoc]
    rfl

end Contents

/-- The accesses of batches, each with its owner. -/
def Batch.rows (batch : Batch) : List (PackageUser × Access) :=
  batch.accesses.map (batch.owner, ·)

/-- Joined batches have the accesses of both. -/
theorem Batch.addsUp : AddsUp Batch.join Batch.accesses Batch.withAccesses :=
  ⟨fun _ => rfl, fun _ _ => rfl, fun _ _ _ => rfl, fun _ _ => rfl⟩

/-- Joined last uses have the uses of both. -/
theorem LastUses.addsUp :
    AddsUp LastUses.join LastUses.uses fun first uses => { first with uses } :=
  ⟨fun _ => rfl, fun _ _ => rfl, fun _ _ _ => rfl, fun _ _ => rfl⟩

/-! ## Loading -/

/-- What a read adds to a load: a refusal adds nothing. -/
def answered {β : Type} : Except SourceError (List β) → List β
  | .ok found => found
  | .error _ => []

/-- Adds last uses one after another. -/
def mergeLastUses (merged uses : List LastUses) : List LastUses :=
  mergeAll LastUses.owner LastUses.join merged uses

/-- A load that keeps more than what it merges comes to the same. -/
theorem map_loadMerged {α γ δ : Type} {kind : LoadKind} {read : String → Except SourceError α}
    {takeIn : γ → α → γ} {takeIn' : δ → α → δ} {f : γ → δ}
    (h : ∀ merged answer, f (takeIn merged answer) = takeIn' (f merged) answer) (merged : γ)
    (ops : List String) :
    (loadMerged kind read takeIn merged ops).map f =
      loadMerged kind read takeIn' (f merged) ops := by
  induction ops generalizing merged with
  | nil => rfl
  | cons op rest ih =>
    rw [loadMerged, loadMerged]
    cases read op with
    | ok answer =>
      exact (ih _).trans (congrArg (loadMerged kind read takeIn' · rest) (h merged answer))
    | error cause =>
      cases cause with
      | unknownOp => exact ih merged
      | unavailable => rfl

namespace AccessSource

variable (source : AccessSource) (ops : List String)

/-- The index of positions has no say in what is loaded: each item is joined to the one of its
owner. -/
theorem loadAccesses_eq (start stop : Millis) :
    source.loadAccesses ops start stop =
      loadMerged .accesses (source.accesses · start stop) mergeBatches [] ops :=
  map_loadMerged Merged.items_addAll .empty ops

theorem loadLastUses_eq :
    source.loadLastUses ops = loadMerged .lastUses source.lastUses mergeLastUses [] ops :=
  map_loadMerged Merged.items_addAll .empty ops

end AccessSource

/-- A load merges all that it is answered, if the source refuses only what it does not know. -/
theorem loadMerged_eq_ok {α : Type} {kind : LoadKind}
    {read : String → Except SourceError (List α)} {owner : α → PackageUser} {join : α → α → α}
    {ops : List String}
    (known : ∀ op ∈ ops, ∀ cause, read op = .error cause → ∃ o, cause = .unknownOp o)
    (merged : List α) :
    loadMerged kind read (mergeAll owner join) merged ops =
      .ok (mergeAll owner join merged (ops.flatMap fun op => answered (read op))) := by
  induction ops generalizing merged with
  | nil => rfl
  | cons op rest ih =>
    obtain ⟨hop, hrest⟩ := List.forall_mem_cons.1 known
    rw [loadMerged, List.flatMap_cons]
    cases hread : read op with
    | ok found =>
      rw [mergeAll_append]
      exact ih hrest _
    | error cause =>
      obtain ⟨o, rfl⟩ := hop cause hread
      exact ih hrest merged

/-- A load that has a result has merged all that it was answered. -/
theorem eq_of_loadMerged {α : Type} {kind : LoadKind}
    {read : String → Except SourceError (List α)} {owner : α → PackageUser} {join : α → α → α}
    {ops : List String} {merged found : List α}
    (h : loadMerged kind read (mergeAll owner join) merged ops = .ok found) :
    found = mergeAll owner join merged (ops.flatMap fun op => answered (read op)) := by
  induction ops generalizing merged with
  | nil => exact (Except.ok.inj h).symm
  | cons op rest ih =>
    rw [loadMerged] at h
    rw [List.flatMap_cons, mergeAll_append]
    cases hread : read op with
    | ok answer =>
      rw [hread] at h
      exact ih h
    | error cause =>
      rw [hread] at h
      cases cause with
      | unknownOp => exact ih h
      | unavailable => cases h

/-- A load from a source that answers about every op it knows merges what it finds for those. -/
theorem loadMerged_of_known {α : Type} {kind : LoadKind}
    {read : String → Except SourceError (List α)} {owner : α → PackageUser} {join : α → α → α}
    {isUnknown : String → Bool} {found : String → List α}
    (hread : ∀ op, read op = if isUnknown op then .error (.unknownOp op) else .ok (found op))
    (merged : List α) (ops : List String) :
    loadMerged kind read (mergeAll owner join) merged ops =
      .ok (mergeAll owner join merged (ops.flatMap fun op =>
        if isUnknown op then [] else found op)) := by
  have hanswered : ∀ op, answered (read op) = if isUnknown op then [] else found op := by
    intro op
    rw [hread]
    cases isUnknown op <;> rfl
  have hknown : ∀ op ∈ ops, ∀ cause, read op = .error cause → ∃ o, cause = .unknownOp o := by
    intro op _ cause h
    rw [hread] at h
    split at h
    · exact ⟨op, (Except.error.inj h).symm⟩
    · cases h
  rw [← funext hanswered]
  exact loadMerged_eq_ok hknown merged

end PermissionUsage
