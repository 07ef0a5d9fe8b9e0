import PermissionUsage.Platform
/-!
# Processes

A process is a computation during which the platform may change. It looks at the platform again and
again, and every look finds the platform as it is then. A look answers one question, so that
whatever is asked in two looks may be answered by two platforms.
-/

namespace PermissionUsage

/-- A computation that has ended, or that goes on with what its next look at the platform finds. A
read takes time before it looks, any other look does not. -/
inductive Process (α : Type) where
  | ended (outcome : α)
  | look (isRead : Bool) (next : Platform → Process α)

namespace Process

variable {α β : Type}

def bind (process : Process α) (f : α → Process β) : Process β :=
  match process with
  | ended a => f a
  | look isRead next => look isRead fun platform => (next platform).bind f

instance : Monad Process where
  pure := ended
  bind := bind

def lookup (question : Platform → α) : Process α :=
  look false fun platform => ended (question platform)

/-- Asks a question after the wait of a read. -/
def read (question : Platform → α) : Process α :=
  look true fun platform => ended (question platform)

/-- One process after another, for each element of a list. -/
def forEach (f : α → Process β) : List α → Process (List β)
  | [] => return []
  | a :: rest => do
    let b ← f a
    let others ← forEach f rest
    return b :: others

def filter (keep : α → Process Bool) : List α → Process (List α)
  | [] => return []
  | a :: rest => do
    let kept ← keep a
    let others ← filter keep rest
    return if kept then a :: others else others

/-- Some element of a list meets a condition. Those after the first one are not asked about. -/
def any (condition : α → Process Bool) : List α → Process Bool
  | [] => return false
  | a :: rest => do
    if ← condition a then return true
    any condition rest

end Process

end PermissionUsage
