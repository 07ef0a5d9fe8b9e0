import PermissionUsage.Access.Basic
import PermissionUsage.Access.Merge
/-!
# Accesses by attribution label

Accesses of a package that shows its attributions are split by label before they are clustered, so
that accesses under different labels never share a row.
-/

namespace PermissionUsage

/-- Accesses under one label; having no label counts as one. -/
structure LabelGroup where
  label : Option String
  accesses : List Access

def LabelGroup.join (first next : LabelGroup) : LabelGroup :=
  { first with accesses := first.accesses ++ next.accesses }

/-- Groups accesses by label. An access joins the group of its label; the first one under a label
begins a group, behind the others. -/
def Attribution.group (info : Attribution) (accesses : List Access) : List LabelGroup :=
  accesses.foldl (fun groups access =>
    mergeItem LabelGroup.label LabelGroup.join ⟨info.labelOf access.tag, [access]⟩ groups) []

/-- One batch for each label. A batch whose package does not group by label stays as it is. -/
def Batch.byLabel (batch : Batch) : Option Attribution → List Batch
  | none => [batch]
  | some info =>
    if info.groupsByLabel then
      (info.group batch.accesses).map fun group =>
        { batch with accesses := group.accesses, label := group.label }
    else [batch]

end PermissionUsage
