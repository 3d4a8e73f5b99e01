import Damaru.Common.Utils

/-!
# ApkService

The published version of the app: a table of its own, which an upload empties
before it stores the one row that is to be published.
-/

namespace Damaru

open Async

structure Apk where
  version : Int
  force : Bool
  link : String
  deriving DecidableEq, Repr

/-- The table, whose key is the version. -/
structure ApkTable where
  rows : List Apk
  keys : (rows.map Apk.version).Nodup

@[ext] theorem ApkTable.ext' {t t' : ApkTable} (h : t.rows = t'.rows) : t = t' := by
  cases t
  cases t'
  cases h
  rfl

/-- What the configuration holds for the service. -/
structure ApkConfig where
  APK_PATH : Option String
  SCREENSHOT_URL : Option String

abbrev ApkSvc := Prog Unit ApkTable Rejection

/-- A number that an `integer` column holds. -/
def isInt4 (n : Int) : Bool := -2147483648 ≤ n && n ≤ 2147483647

namespace ApkRepository

/-- `find({ order: { version: 'DESC' }, take: 1 })`. -/
def findLatest : ApkSvc (List Apk) :=
  Prog.op fun _ t => (.ok ((t.rows.mergeSort fun a b => b.version ≤ a.version).take 1), t)

/-- `delete({})`. -/
def deleteAll : ApkSvc Unit := Prog.op fun _ _ => (.ok (), ⟨[], List.nodup_nil⟩)

/-- Inserts a row; `none` stands for a version that is `NaN`, which the column
does not take. -/
def insert (version : Option Int) (force : Bool) (link : String) : ApkSvc Unit :=
  Prog.op fun _ t =>
    match version with
    | none => (.error .query, t)
    | some n =>
      if h : isInt4 n = true ∧ ((t.rows ++ [(⟨n, force, link⟩ : Apk)]).map Apk.version).Nodup then
        (.ok (), ⟨t.rows ++ [(⟨n, force, link⟩ : Apk)], h.2⟩)
      else (.error .query, t)

end ApkRepository

namespace ApkService

def getApkPath (config : ApkConfig) : String := config.APK_PATH.getD "undefined"

def getApkDownloadLink (config : ApkConfig) : String :=
  config.SCREENSHOT_URL.getD "undefined" ++ "/apks/download"

def getLatestApkPath (config : ApkConfig) : ApkSvc Apk := do
  let version ← ApkRepository.findLatest
  match version with
  | apk :: _ => return { apk with link := getApkPath config ++ "/" ++ apk.link }
  | [] => throw (.http .BAD_REQUEST "No APK found!")

/-- `v.toString()`. -/
def textOf : JsVal → Except Rejection String
  | none => .error (.typeError "Cannot read properties of undefined (reading 'toString')")
  | some .null => .error (cannotRead "toString")
  | some j => if j.hasText then .ok j.toText else .error (.typeError "toString is not a function")

/-- Publishes the uploaded file, if there is one, in place of all versions. -/
def uploadApk (version force : JsVal) (file : Bool) : ApkSvc String := do
  if !file then throw (.http .BAD_REQUEST "No file uploaded!")
  let fileName := "damaru.apk"
  ApkRepository.deleteAll
  let version ← Prog.ofExcept (textOf version)
  let force ← Prog.ofExcept (textOf force)
  ApkRepository.insert (parseInt version) (decide (force = "true")) fileName
  return "APK uploaded successfully"

end ApkService

end Damaru
