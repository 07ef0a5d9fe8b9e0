import PermissionUsage.Group.Basic
/-!
# Links to scopes

Some permission pages carry a link to a screen where access is limited to chosen files or contacts.
-/

namespace PermissionUsage

/-- A link shown on the page of a permission group. -/
inductive ScopesLink where
  | storageScopes
  | contactScopes
  deriving DecidableEq, Repr

namespace ScopesLink

/-- Every link, in the order in which a page looks for one. -/
def all : List ScopesLink := [storageScopes, contactScopes]

/-- The contacts apps of the system, for which contacts are not limited. -/
def contactsApps : List String := ["com.android.contacts", "com.google.android.contacts"]

/-- The page of a group of a package carries the link. -/
def isVisible (group : PermissionGroup) (packageName : String) : ScopesLink → Bool
  | storageScopes => [.storage, .readMediaAural, .readMediaVisual].contains group
  | contactScopes => group = .contacts ∧ packageName ∉ contactsApps

/-- The link on the page of a group of a package, if there is one. -/
def find? (group : PermissionGroup) (packageName : String) : Option ScopesLink :=
  all.find? (isVisible group packageName)

def settingsText : ScopesLink → String
  | storageScopes => "Storage Scopes"
  | contactScopes => "Contact Scopes"

def buttonText (link : ScopesLink) : String := "Setup " ++ link.settingsText

/-- What is put after the text of a denied permission while scopes are in use. -/
def deniedSuffix (link : ScopesLink) (inUse : Bool) : Option String :=
  if inUse then some s!" (+ {link.settingsText})" else none

/-- Allowing the permission is blocked while scopes are in use. -/
def blocksAllow (inUse : Bool) : ScopesLink → Bool
  | storageScopes => false
  | contactScopes => inUse

/-- What a user is told when allowing is blocked. -/
def blockedMessage : ScopesLink → Option String
  | storageScopes => none
  | contactScopes => some "Turn off Contact Scopes before allowing the Contacts permission."

end ScopesLink

end PermissionUsage
