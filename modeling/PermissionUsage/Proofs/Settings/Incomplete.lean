import PermissionUsage.Proofs.Codec.Edited
/-!
# Incomplete settings

A document of settings may lack sections and fields, have them in any order and hold members that
are not known. What is missing has its default, and nothing else is different.

* `Toggles.decode_edited`, `Features.decode_edited`, `Logging.decode_edited`: a section is read with
  the defaults of the fields that are missing.
* `Settings.decode_incomplete`: settings are read with those of the sections that are missing.
* `SettingsStore.ofFile_incomplete`: a store opens with them on any text of the document.
-/

namespace PermissionUsage

/-! ## Sections -/

section Sections

variable {keeps : String → Bool} {json : Json}

/-- The toggles with the default for each field that is not kept. -/
def Toggles.keeping (keeps : String → Bool) (toggles : Toggles) : Toggles where
  showSystem := if keeps "showSystem" then toggles.showSystem else false
  showSevenDays := if keeps "show7Days" then toggles.showSevenDays else false

def Features.keeping (keeps : String → Bool) (features : Features) : Features where
  locationBypass := if keeps "locationBypassEnabled" then features.locationBypass else false
  sevenDayToggle := if keeps "sevenDayToggleEnabled" then features.sevenDayToggle else true
  handheld := if keeps "handheld" then features.handheld else true

def Logging.keeping (keeps : String → Bool) (logging : Logging) : Logging where
  level := if keeps "level" then logging.level else "info"

/-- Toggles are read with defaults in the place of the deleted ones. -/
theorem Toggles.decode_edited {toggles : Toggles}
    (h : Json.EditOf keeps (fun _ => Eq) (encode toggles) json) :
    decode json = some (toggles.keeping keeps) := by
  obtain ⟨read, hread, hfields⟩ := Json.EditOf.exists_fieldsOrFewer? h (by simp)
  -- something is read of each field, whether it was kept or not
  obtain _ | ⟨showSystem, _ | ⟨showSevenDays, _ | _⟩⟩ := hfields
  simp only [List.map_cons, List.map_nil] at hread
  show Option.bind _ _ = _
  simp only [hread, Option.bind_some, showSystem.orDefault_encode, showSevenDays.orDefault_encode]
  rfl

/-- Edited features have their defaults where members were deleted. -/
theorem Features.decode_edited {features : Features}
    (h : Json.EditOf keeps (fun _ => Eq) (encode features) json) :
    decode json = some (features.keeping keeps) := by
  obtain ⟨read, hread, hfields⟩ := Json.EditOf.exists_fieldsOrFewer? h (by simp)
  obtain _ | ⟨locationBypass, _ | ⟨sevenDayToggle, _ | ⟨handheld, _ | _⟩⟩⟩ := hfields
  simp only [List.map_cons, List.map_nil] at hread
  show Option.bind _ _ = _
  simp only [hread, Option.bind_some, locationBypass.orDefault_encode,
    sevenDayToggle.orDefault_encode, handheld.orDefault_encode]
  rfl

/-- Edited logging settings too, of which there is the level only. -/
theorem Logging.decode_edited {logging : Logging}
    (h : Json.EditOf keeps (fun _ => Eq) (encode logging) json) :
    decode json = some (logging.keeping keeps) := by
  obtain ⟨read, hread, hfields⟩ := Json.EditOf.exists_fieldsOrFewer? h (by simp)
  obtain _ | ⟨level, _ | _⟩ := hfields
  simp only [List.map_cons, List.map_nil] at hread
  show Option.bind _ _ = _
  simp only [hread, Option.bind_some, level.orDefault_encode]
  rfl

end Sections

/-! ## All settings -/

namespace Settings

/-- Which members of a document of settings are kept: sections, and the fields of each section. -/
structure Kept where
  sections : String → Bool
  fields : String → String → Bool

/-- The settings with the defaults for all that is not kept. -/
def keeping (kept : Kept) (settings : Settings) : Settings where
  toggles :=
    if kept.sections "toggles" then settings.toggles.keeping (kept.fields "toggles")
    else { showSystem := false, showSevenDays := false }
  features :=
    if kept.sections "features" then settings.features.keeping (kept.fields "features")
    else { locationBypass := false, sevenDayToggle := true, handheld := true }
  logging :=
    if kept.sections "logging" then settings.logging.keeping (kept.fields "logging")
    else { level := "info" }

/-- A document of settings with members deleted, moved and inserted, among the sections as well as
in each of them. -/
def IsIncomplete (kept : Kept) (settings : Settings) (json : Json) : Prop :=
  Json.EditOf kept.sections (fun name => Json.EditOf (kept.fields name) fun _ => Eq)
    (encode settings) json

variable {kept : Kept} {settings : Settings} {json : Json}

/-- Settings are read with defaults where whole parts or single fields were deleted. -/
theorem decode_incomplete (h : settings.IsIncomplete kept json) :
    decode json = some (settings.keeping kept) := by
  obtain ⟨read, hread, hfields⟩ := Json.EditOf.exists_fieldsOrFewer? h (by simp)
  obtain _ | ⟨toggles, _ | ⟨features, _ | ⟨logging, _ | _⟩⟩⟩ := hfields
  simp only [List.map_cons, List.map_nil] at hread
  show Option.bind _ _ = _
  simp only [hread, Option.bind_some, toggles.orDefault {} fun _ => Toggles.decode_edited,
    features.orDefault {} fun _ => Features.decode_edited,
    logging.orDefault {} fun _ => Logging.decode_edited]
  rfl

/-- The same holds of any text of such a document, however it is spelled. -/
theorem ofFileText?_incomplete {text : String} (h : settings.IsIncomplete kept json)
    (htext : json.IsTextOf text) : ofFileText? text = some (settings.keeping kept) := by
  rw [ofFileText?, Json.parse?_of_isTextOf htext, Option.bind_some, decode_incomplete h]

end Settings

/-- **What is missing has its default.** On any text of an incomplete document of settings a store
opens, and its settings are those of the document with the defaults for all that was deleted. -/
theorem SettingsStore.ofFile_incomplete {kept : Settings.Kept} {settings : Settings} {json : Json}
    {text : String} (h : settings.IsIncomplete kept json) (htext : json.IsTextOf text)
    {file : SettingsFile} (hfile : file.content = .text text) :
    SettingsStore.ofFile file = .ok { settings := settings.keeping kept, file } := by
  unfold ofFile
  rw [hfile]
  show Except.ok _ = _
  rw [Settings.ofFileText?_incomplete h htext, Option.getD_some]

/-! ### Settings without their features and one of the toggles -/

namespace Settings.Shortened

open Json (EditOf)

def original : Settings where
  toggles := { showSystem := true, showSevenDays := true }
  features := { locationBypass := true, sevenDayToggle := false, handheld := false }
  logging := { level := "debug" }

def kept : Kept where
  sections name := name ≠ "features"
  fields _ name := name ≠ "showSystem"

def showSevenDays : Json.Name × Json := ({ text := some "show7Days" }, .bool true)

def level : Json.Name × Json := ({ text := some "level" }, .text "debug")

def color : Json.Name × Json := ({ text := some "color" }, .bool true)

def toggles : Json.Name × Json := ({ text := some "toggles" }, .obj [showSevenDays])

def logging : Json.Name × Json := ({ text := some "logging" }, .obj [color, level])

def note : Json.Name × Json := ({ text := some "note" }, .arr [.real true, .null])

/-- What is left of the settings, the last section first, and two members that are not known. -/
def document : Json := .obj [note, logging, toggles]

def text : String :=
  "\x7b\n  \"note\": [\n    0.5,\n    null\n  ],\n" ++
    "  \"logging\": \x7b\n    \"color\": true,\n    \"level\": \"debug\"\n  \x7d,\n" ++
    "  \"toggles\": \x7b\n    \"show7Days\": true\n  \x7d\n\x7d"

theorem isTextOf_text : document.IsTextOf text := by
  have hnames : document.HasWrittenNames :=
    ⟨rfl, ⟨trivial, trivial, trivial⟩, rfl, ⟨rfl, trivial, rfl, trivial, trivial⟩,
      rfl, ⟨rfl, trivial, trivial⟩, trivial⟩
  have htext : String.ofList (document.prettyChars 0) = text := by decide +kernel
  rw [← htext]
  exact (Json.spells_prettyChars 0 document hnames).isTextOf

/-- The document is the original one, with members deleted, moved and inserted. -/
theorem isIncomplete_document : original.IsIncomplete kept document := by
  have htoggles : EditOf (kept.fields "toggles") (fun _ => Eq) (encode original.toggles)
      (.obj [showSevenDays]) :=
    .obj rfl (.cons ⟨rfl, rfl⟩ .nil) (List.forall_mem_nil _) (.refl ([showSevenDays] ++ []))
  have hlevel : [color, level].Perm ([level] ++ [color]) := List.reverse_perm [level, color]
  have hlogging : EditOf (kept.fields "logging") (fun _ => Eq) (encode original.logging)
      (.obj [color, level]) :=
    .obj rfl (.cons ⟨rfl, rfl⟩ .nil) (List.forall_mem_singleton.2 ⟨"color", rfl, by decide⟩) hlevel
  have hsections : [note, logging, toggles].Perm ([toggles, logging] ++ [note]) :=
    List.reverse_perm [toggles, logging, note]
  exact .obj rfl (.cons ⟨rfl, htoggles⟩ (.cons ⟨rfl, hlogging⟩ .nil))
    (List.forall_mem_singleton.2 ⟨"note", rfl, by decide⟩) hsections

end Settings.Shortened

open Settings.Shortened in
/-- A file with one field deleted, one inserted and the parts in another order. -/
theorem SettingsStore.ofFile_incomplete_of_shortened :
    original.IsIncomplete kept document ∧ document.IsTextOf text ∧
      SettingsStore.ofFile { path := "settings.json", content := .text text } = .ok {
        settings := {
          toggles := { showSystem := false, showSevenDays := true }
          features := { locationBypass := false, sevenDayToggle := true, handheld := true }
          logging := { level := "debug" } }
        file := { path := "settings.json", content := .text text } } :=
  ⟨isIncomplete_document, isTextOf_text,
    SettingsStore.ofFile_incomplete isIncomplete_document isTextOf_text rfl⟩

end PermissionUsage
