import PermissionUsage.Package.Basic
/-!
# Changes

Notifications of the platform that something changed which computed usage may depend on, and the
filters that say who wants to hear of which changes.
-/

namespace PermissionUsage

inductive ChangeKind where
  | opChanged
  | opNoted
  | opActiveChanged
  | packageChanged
  | permissionsChanged
  deriving DecidableEq, Repr

def ChangeKind.all : List ChangeKind :=
  [opChanged, opNoted, opActiveChanged, packageChanged, permissionsChanged]

def ChangeKind.name : ChangeKind → String
  | opChanged => "opChanged"
  | opNoted => "opNoted"
  | opActiveChanged => "opActiveChanged"
  | packageChanged => "packageChanged"
  | permissionsChanged => "permissionsChanged"

/-- A change that the platform notifies of. -/
inductive ChangeEvent where
  | opChanged (op : String) (owner : PackageUser)
  | opNoted (op : String) (owner : PackageUser)
  | opActiveChanged (op : String) (owner : PackageUser) (active : Bool)
  /-- A package was installed, updated or removed. -/
  | packageChanged (owner : PackageUser)
  | permissionsChanged (owner : PackageUser)
  deriving DecidableEq, Repr

namespace ChangeEvent

def kind : ChangeEvent → ChangeKind
  | opChanged .. => .opChanged
  | opNoted .. => .opNoted
  | opActiveChanged .. => .opActiveChanged
  | packageChanged _ => .packageChanged
  | permissionsChanged _ => .permissionsChanged

/-- The op that a change is about, if it is about one. -/
def op? : ChangeEvent → Option String
  | opChanged op _ => some op
  | opNoted op _ => some op
  | opActiveChanged op _ _ => some op
  | packageChanged _ => none
  | permissionsChanged _ => none

end ChangeEvent

/-- Which changes a listener hears of: some kinds and, of the changes that are about an op, those of
some ops only, if ops are given. -/
structure ListenerFilter where
  kinds : List ChangeKind := ChangeKind.all
  ops : Option (List String) := none
  deriving DecidableEq, Repr

namespace ListenerFilter

/-- Every kind of change, the changes of ops limited to the ones given. -/
def watching (ops : List String) : ListenerFilter := { ops := some ops }

def accepts (filter : ListenerFilter) (event : ChangeEvent) : Bool :=
  filter.kinds.contains event.kind &&
    match event.op?, filter.ops with
    | some op, some ops => ops.contains op
    | _, _ => true

end ListenerFilter

end PermissionUsage
