import PermissionUsage.Group.Basic
import PermissionUsage.Settings.Basic
/-!
# Ops and permissions of a group

Which permissions belong to a group, which op records the use of a permission, and which ops make
up the history of a group. `groupOfOp` reads the same relation from the other side:
`groupOfOp_of_mem_historyOps` says that every op of a group's history belongs to that group.
-/

namespace PermissionUsage

/-! ## Names of ops -/

namespace Op

def camera : String := "android:camera"
def phoneCallCamera : String := "android:phone_call_camera"
def recordAudio : String := "android:record_audio"
def phoneCallMicrophone : String := "android:phone_call_microphone"
def receiveAmbientTriggerAudio : String := "android:receive_ambient_trigger_audio"
def coarseLocation : String := "android:coarse_location"
def fineLocation : String := "android:fine_location"
def emergencyLocation : String := "android:emergency_location"

end Op

/-! ## Permissions -/

namespace Permission

def camera : String := "android.permission.CAMERA"
def recordAudio : String := "android.permission.RECORD_AUDIO"
def accessFineLocation : String := "android.permission.ACCESS_FINE_LOCATION"
def accessCoarseLocation : String := "android.permission.ACCESS_COARSE_LOCATION"
def locationBypass : String := "android.permission.LOCATION_BYPASS"

/-- The runtime permissions of the platform, each with its group. -/
def table : List (String × PermissionGroup) := [
  ("android.permission.READ_CONTACTS", .contacts),
  ("android.permission.WRITE_CONTACTS", .contacts),
  ("android.permission.GET_ACCOUNTS", .contacts),
  ("android.permission.READ_CALENDAR", .calendar),
  ("android.permission.WRITE_CALENDAR", .calendar),
  ("android.permission.SEND_SMS", .sms),
  ("android.permission.RECEIVE_SMS", .sms),
  ("android.permission.READ_SMS", .sms),
  ("android.permission.RECEIVE_MMS", .sms),
  ("android.permission.RECEIVE_WAP_PUSH", .sms),
  ("android.permission.READ_CELL_BROADCASTS", .sms),
  ("android.permission.READ_EXTERNAL_STORAGE", .storage),
  ("android.permission.WRITE_EXTERNAL_STORAGE", .storage),
  ("android.permission.READ_MEDIA_AUDIO", .readMediaAural),
  ("android.permission.READ_MEDIA_IMAGES", .readMediaVisual),
  ("android.permission.READ_MEDIA_VIDEO", .readMediaVisual),
  ("android.permission.ACCESS_MEDIA_LOCATION", .readMediaVisual),
  (accessFineLocation, .location),
  (accessCoarseLocation, .location),
  ("android.permission.ACCESS_BACKGROUND_LOCATION", .location),
  ("android.permission.BLUETOOTH_ADVERTISE", .nearbyDevices),
  ("android.permission.BLUETOOTH_CONNECT", .nearbyDevices),
  ("android.permission.BLUETOOTH_SCAN", .nearbyDevices),
  ("android.permission.UWB_RANGING", .nearbyDevices),
  ("android.permission.NEARBY_WIFI_DEVICES", .nearbyDevices),
  ("android.permission.READ_CALL_LOG", .callLog),
  ("android.permission.WRITE_CALL_LOG", .callLog),
  ("android.permission.PROCESS_OUTGOING_CALLS", .callLog),
  ("android.permission.READ_PHONE_STATE", .phone),
  ("android.permission.READ_PHONE_NUMBERS", .phone),
  ("android.permission.CALL_PHONE", .phone),
  ("android.permission.ADD_VOICEMAIL", .phone),
  ("android.permission.USE_SIP", .phone),
  ("android.permission.ANSWER_PHONE_CALLS", .phone),
  ("android.permission.ACCEPT_HANDOVER", .phone),
  (recordAudio, .microphone),
  ("android.permission.RECORD_BACKGROUND_AUDIO", .microphone),
  ("android.permission.ACTIVITY_RECOGNITION", .activityRecognition),
  (camera, .camera),
  ("android.permission.BACKGROUND_CAMERA", .camera),
  ("android.permission.BODY_SENSORS", .sensors),
  ("android.permission.BODY_SENSORS_BACKGROUND", .sensors),
  ("android.permission.POST_NOTIFICATIONS", .notifications)]

def group? (permission : String) : Option PermissionGroup := table.lookup permission

/-- The group under which holding a permission counts for the usage history: the bypass permission
counts as a location permission, though it belongs to no group. -/
def usageGroup? (permission : String) : Option PermissionGroup :=
  if permission = locationBypass then some .location else group? permission

/-- The op that records the use of a permission. -/
def op? (permission : String) : Option String :=
  if permission = camera then some Op.camera
  else if permission = recordAudio then some Op.recordAudio
  else if permission = accessFineLocation then some Op.fineLocation
  else if permission = accessCoarseLocation then some Op.coarseLocation
  else none

end Permission

namespace PermissionGroup

def permissions (group : PermissionGroup) : List String :=
  (Permission.table.filter (·.2 = group)).map (·.1)

/-- The ops of a group that no permission stands for. -/
def extraOps (features : Features) : PermissionGroup → List String
  | .microphone => [Op.phoneCallMicrophone, Op.receiveAmbientTriggerAudio]
  | .camera => [Op.phoneCallCamera]
  | .location => if features.locationBypass then [Op.emergencyLocation] else []
  | _ => []

/-- The ops whose history makes up the timeline of a group: the ops of its permissions, then the
ones without a permission. -/
def historyOps (group : PermissionGroup) (features : Features) :
    Except GroupError (List String) :=
  if group ∈ dashboard then
    .ok (group.permissions.filterMap Permission.op? ++ extraOps features group)
  else .error (.noHistory group)

end PermissionGroup

def dashboardOps (features : Features) : List String :=
  PermissionGroup.dashboard.flatMap fun group =>
    match group.historyOps features with
    | .ok ops => ops
    | .error _ => []

/-- The group whose timeline shows an op. -/
def groupOfOp (op : String) : Option PermissionGroup :=
  if op ∈ [Op.camera, Op.phoneCallCamera] then some .camera
  else if op ∈ [Op.recordAudio, Op.phoneCallMicrophone, Op.receiveAmbientTriggerAudio] then
    some .microphone
  else if op ∈ [Op.coarseLocation, Op.fineLocation, Op.emergencyLocation] then some .location
  else none

/-- The ops of the three dashboard groups, spelled out. -/
theorem historyOps_camera (features : Features) :
    PermissionGroup.camera.historyOps features = .ok [Op.camera, Op.phoneCallCamera] := by
  rfl

/-- The ops of the microphone, whatever features are on. -/
theorem historyOps_microphone (features : Features) :
    PermissionGroup.microphone.historyOps features =
      .ok [Op.recordAudio, Op.phoneCallMicrophone, Op.receiveAmbientTriggerAudio] := by
  rfl

/-- The ops of location. Emergency location is read with the location bypass only. -/
theorem historyOps_location (features : Features) :
    PermissionGroup.location.historyOps features =
      .ok ([Op.fineLocation, Op.coarseLocation] ++
        if features.locationBypass then [Op.emergencyLocation] else []) := by
  rfl

/-- An op in the history of a group is counted for that group, so that no op tells of two groups. -/
theorem groupOfOp_of_mem_historyOps {group : PermissionGroup} {features : Features}
    {ops : List String} {op : String} (h : group.historyOps features = .ok ops) (hop : op ∈ ops) :
    groupOfOp op = some group := by
  have hgroup : group ∈ PermissionGroup.dashboard := by
    by_cases hg : group ∈ PermissionGroup.dashboard
    · exact hg
    · simp [PermissionGroup.historyOps, hg] at h
  simp only [PermissionGroup.dashboard, List.mem_cons, List.not_mem_nil, or_false] at hgroup
  rcases hgroup with rfl | rfl | rfl
  · obtain rfl := Except.ok.inj ((historyOps_camera features).symm.trans h)
    revert op; decide
  · obtain rfl := Except.ok.inj ((historyOps_location features).symm.trans h)
    cases hb : features.locationBypass <;> simp only [hb] at hop <;> revert op <;> decide
  · obtain rfl := Except.ok.inj ((historyOps_microphone features).symm.trans h)
    revert op; decide

end PermissionUsage
