import Reeva.Licensing.LicenseService

/-!
# The setting service

The requests of `SettingService` that change settings, statement by statement. The settings keep the
key pair of the licences, among others.
-/

open Interleaving ReadCommitted

namespace Reeva.Licensing

namespace SettingService

/-- `/^[A-Za-z][A-Za-z0-9._-]{0,99}$/.test(key)` -/
def isSettingKey (key : String) : Bool :=
  match key.toList with
  | [] => false
  | c :: cs =>
    c.isAlpha && cs.length ≤ 99 &&
      cs.all fun c => c.isAlphanum || c = '.' || c = '_' || c = '-'

/-- The key that `validate` lets through. -/
def validateKey : Input → Except String String
  | some (.str key) =>
    if isSettingKey key then .ok key
    else .error "Setting key must start with a letter and contain at most 100 safe characters."
  | _ => .error "Setting key must start with a letter and contain at most 100 safe characters."

/-- The value that `validate` and `updateSetting` let through. -/
def validateValue : Input → Except String String
  | some (.str value) =>
    if 2000 < Js.length value then
      .error "Setting value must be text and 2,000 characters or fewer."
    else .ok value
  | _ => .error "Setting value must be text and 2,000 characters or fewer."

/-- `createSetting` -/
def createSetting (key value : Input) : Program Setting := do
  let key ← orThrow (validateKey key)
  let value ← orThrow (validateValue value)
  refuse (key = "appName") "Manage software product names from Software settings."
  let existing ← select (·.setting key)
  refuse (existing.isSome = true) ("Setting key \"" ++ key ++ "\" already exists.")
  let id ← call .randomUuid
  let row : Setting := { id, key, value := some value, deletedAt := none }
  let _ ← exec (.insertSetting row)
  return row

/-- `Setting.findOrFail(id)` -/
def findSetting (id : Id) : Program Setting := do
  match ← select fun t => t.settings.find? fun s => s.id = id && s.deletedAt.isNone with
  | some setting => return setting
  | none => raise "Row not found"

/-- `updateSetting` -/
def updateSetting (id : Id) (value : Input) : Program Setting := do
  let value ← orThrow (validateValue value)
  let setting ← findSetting id
  refuse (setting.key = "appName") "Manage software product names from Software settings."
  let updated := { setting with value := some value }
  let _ ← exec (.saveSetting setting updated)
  return updated

/-- `deleteSetting` -/
def deleteSetting (id : Id) : Program Setting := do
  let setting ← findSetting id
  refuse (setting.key = "appName")
    "The legacy appName setting is retained for migration history."
  let now : ℤ ← call .now
  let deleted := { setting with deletedAt := some now }
  let _ ← exec (.saveSetting setting deleted)
  return deleted

end SettingService

end Reeva.Licensing
