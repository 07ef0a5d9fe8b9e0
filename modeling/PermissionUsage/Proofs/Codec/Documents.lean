import PermissionUsage.Codec.Document
import PermissionUsage.Proofs.Codec.Variants
/-!
# Documents lose nothing

Every value of a type that is exchanged as a document is read back from its compact text.

The codecs of all types but one are lawful without a condition. The counts of a dashboard view are
numbers of any size here, and a document has room for 64 bits.
-/

namespace PermissionUsage

open LawfulCodec

section

variable {α : Type} [Codec α]

/-- A value is read from the compact text of whatever its type decodes to it. -/
theorem ofText?_compact_of_decode {json : Json} {a : α} (hdecode : decode json = some a)
    (hnames : json.HasWrittenNames) : ofText? json.compact = some a := by
  rw [ofText?, Json.parse?_compact _ hnames, Option.bind_some, hdecode]

/-- Every value of the type is read back from its compact text. -/
def IsReadBack (α : Type) [Codec α] : Prop := ∀ a : α, ofText? (toText a) = some a

theorem isReadBack_of_lawful [LawfulCodec α] : IsReadBack α :=
  fun a => ofText?_compact_of_decode (decode_encode a) (hasWrittenNames_encode a)

end

/-- **Documents lose nothing.** Every document of every type gives back the value that it was
written for. An attribution has maps without an order of their own: it is read back from its members
in any order. -/
theorem documents_are_read_back :
    (∀ view : DashboardView, view.CountsFit → ofText? (toText view) = some view) ∧
    (∀ (info : Attribution) json, info.IsWrittenAs json → ofText? json.compact = some info) ∧
    IsReadBack Access ∧ IsReadBack Batch ∧ IsReadBack Episode ∧ IsReadBack TimelineState ∧
    IsReadBack OpUse ∧ IsReadBack LastUses ∧ IsReadBack GroupUse ∧ IsReadBack DashboardState ∧
    IsReadBack PermissionGroup ∧ IsReadBack PermissionFlags ∧ IsReadBack RequestedFlags ∧
    IsReadBack PackageInfo ∧ IsReadBack Attribution ∧
    IsReadBack Toggles ∧ IsReadBack Features ∧ IsReadBack Logging ∧ IsReadBack Settings ∧
    IsReadBack EpisodeRow ∧ IsReadBack DetailsView ∧
    IsReadBack ChangeKind ∧ IsReadBack ChangeEvent ∧ IsReadBack ScopesLink := by
  have hview : ∀ view : DashboardView, view.CountsFit → ofText? (toText view) = some view :=
    fun view fits =>
      ofText?_compact_of_decode (DashboardView.decode_encode fits) view.hasWrittenNames_encode
  refine ⟨hview, fun info json h => ofText?_compact_of_decode h.decode_eq h.hasWrittenNames, ?_⟩
  -- the codecs of the others are lawful
  repeat refine ⟨isReadBack_of_lawful, ?_⟩
  exact isReadBack_of_lawful

/-- A dashboard view with the greatest count that a document has room for. -/
theorem greatest_count_is_read_back :
    let counts : OrderedMap PermissionGroup Nat := .ofList [(.camera, 18446744073709551615)]
    let view : DashboardView := .success true counts
    view.CountsFit ∧ ofText? (toText view) = some view ∧
      toText view = "\x7b\"state\":\"success\",\"containsSystemAppUsage\":true,\"usageCounts\":" ++
        "\x7b\"android.permission-group.CAMERA\":18446744073709551615\x7d\x7d" := by
  intro counts view
  have hfits : view.CountsFit := by
    have hlist : counts.toList = [(.camera, 18446744073709551615)] := by
      decide +kernel
    show ∀ e ∈ counts.toList, e.2 < UInt64.size
    rw [hlist]
    decide
  obtain ⟨hview, -⟩ := documents_are_read_back
  exact ⟨hfits, hview view hfits, by decide +kernel⟩

end PermissionUsage
