/-!
# Permission groups

The platform's permission groups, their names and their order. Three of them, the *dashboard
groups*, have a usage history. `ofName?_eq_some_iff` says that reading a name inverts writing it.
-/

namespace PermissionUsage

inductive PermissionGroup where
  | activityRecognition
  | calendar
  | callLog
  | camera
  | contacts
  | location
  | microphone
  | nearbyDevices
  | notifications
  | phone
  | readMediaAural
  | readMediaVisual
  | sensors
  | sms
  | storage
  deriving DecidableEq, Repr

namespace PermissionGroup

/-- Groups are ordered as they are listed. -/
instance : Ord PermissionGroup := ⟨compareOn (·.ctorIdx)⟩

instance : Std.TransOrd PermissionGroup :=
  inferInstanceAs (Std.TransCmp (compareOn (PermissionGroup.ctorIdx ·)))

instance : Std.LawfulEqOrd PermissionGroup where
  eq_of_compare {a b} h := by
    have h : compare a.ctorIdx b.ctorIdx = .eq := h
    have h : a.ctorIdx = b.ctorIdx := Std.LawfulEqOrd.eq_of_compare h
    cases a <;> cases b <;> first | rfl | cases h

def all : List PermissionGroup :=
  [activityRecognition, calendar, callLog, camera, contacts, location, microphone, nearbyDevices,
    notifications, phone, readMediaAural, readMediaVisual, sensors, sms, storage]

/-- No group is missing in the list of all groups. -/
theorem mem_all (group : PermissionGroup) : group ∈ all := by
  cases group <;> simp [all]

/-- The groups shown on the privacy dashboard: the ones with a usage history. -/
def dashboard : List PermissionGroup := [camera, location, microphone]

def name : PermissionGroup → String
  | activityRecognition => "android.permission-group.ACTIVITY_RECOGNITION"
  | calendar => "android.permission-group.CALENDAR"
  | callLog => "android.permission-group.CALL_LOG"
  | camera => "android.permission-group.CAMERA"
  | contacts => "android.permission-group.CONTACTS"
  | location => "android.permission-group.LOCATION"
  | microphone => "android.permission-group.MICROPHONE"
  | nearbyDevices => "android.permission-group.NEARBY_DEVICES"
  | notifications => "android.permission-group.NOTIFICATIONS"
  | phone => "android.permission-group.PHONE"
  | readMediaAural => "android.permission-group.READ_MEDIA_AURAL"
  | readMediaVisual => "android.permission-group.READ_MEDIA_VISUAL"
  | sensors => "android.permission-group.SENSORS"
  | sms => "android.permission-group.SMS"
  | storage => "android.permission-group.STORAGE"

def ofName? (text : String) : Option PermissionGroup := all.find? (·.name = text)

/-- Groups have different names. -/
theorem ofName?_name (group : PermissionGroup) : ofName? group.name = some group := by
  cases group <;> decide

/-- A group is read from its own name and from no other text. -/
theorem ofName?_eq_some_iff {text : String} {group : PermissionGroup} :
    ofName? text = some group ↔ text = group.name := by
  constructor
  · intro h
    have h := List.find?_some (p := fun g : PermissionGroup => decide (g.name = text)) h
    exact (of_decide_eq_true h).symm
  · rintro rfl
    exact ofName?_name group

end PermissionGroup

/-- Why a request for a group's usage history is refused. -/
inductive GroupError where
  | unknown (name : String)
  | noHistory (group : PermissionGroup)
  deriving DecidableEq, Repr

def GroupError.message : GroupError → String
  | .unknown name => s!"unknown permission group '{name}'"
  | .noHistory group => s!"permission group {group.name} has no usage history"

def PermissionGroup.parse (text : String) : Except GroupError PermissionGroup :=
  match ofName? text with
  | some group => .ok group
  | none => .error (.unknown text)

end PermissionUsage
