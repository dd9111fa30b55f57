import Mathlib.Data.List.Infix
import Reeva.Release.Manifest

/-!
# Slugs and file names

The text functions of the product and artifact services: the slug of a product name, the safe part of
a file name, the file name of a release and its extension.
-/

namespace Reeva

/-- `s.replace(/[^…]+/g, '-')`: every run of characters outside of the class becomes one hyphen. -/
def replaceRuns (keep : Char → Bool) : (inRun : Bool) → List Char → List Char
  | _, [] => []
  | inRun, c :: cs =>
    if keep c then c :: replaceRuns keep false cs
    else if inRun then replaceRuns keep true cs
    else '-' :: replaceRuns keep true cs

/-- Removes the hyphens at the end. -/
def dropTrailingHyphens (cs : List Char) : List Char :=
  (cs.reverse.dropWhile (· = '-')).reverse

/-- `MAX_SLUG_LENGTH` -/
def maxSlugLength : ℕ := 80

/-- A character of `[a-z0-9]`. -/
def isSlugChar (c : Char) : Bool := c.isDigit || ('a' ≤ c && c ≤ 'z')

/-- A character of `[A-Za-z0-9._-]`. -/
def isFileChar (c : Char) : Bool :=
  c.isDigit || ('a' ≤ c && c ≤ 'z') || ('A' ≤ c && c ≤ 'Z') || c = '.' || c = '_' || c = '-'

/-- `/^[0-9a-f]{8}-[0-9a-f]{4}-[1-8][0-9a-f]{3}-[89ab][0-9a-f]{3}-[0-9a-f]{12}$/i` -/
def isUuid (s : String) : Bool :=
  let hex (c : Char) := c.isDigit || ('a' ≤ c && c ≤ 'f') || ('A' ≤ c && c ≤ 'F')
  let cs := s.toList
  cs.length == 36 &&
    (cs.zipIdx.all fun (c, n) =>
      if n = 8 ∨ n = 13 ∨ n = 18 ∨ n = 23 then c = '-'
      else if n = 14 then '1' ≤ c && c ≤ '8'
      else if n = 19 then ['8', '9', 'a', 'b', 'A', 'B'].contains c
      else hex c)

/-- `s.includes(t)` -/
def includes (s t : String) : Bool := decide (t.toList <:+: s.toList)

/-- `s.split('.').pop()` -/
def fileExtension (s : String) : String :=
  String.ofList (s.toList.reverse.takeWhile (· ≠ '.')).reverse

/-- `a || b` of strings. -/
def orElse (a b : String) : String := if a = "" then b else a

variable (node : Node)

/-- `createSafeSlug` -/
def createSafeSlug (name : String) : String :=
  let marked := (node.normalizeNfkd name).toList.filter fun c => !node.isMark c
  let lower := node.toLowerCase (String.ofList marked)
  let hyphenated := Js.strip (· = '-') (replaceRuns isSlugChar false lower.toList)
  orElse (String.ofList (dropTrailingHyphens (hyphenated.take maxSlugLength))) "software"

/-- The slug that is tried with a numeric suffix. -/
def suffixedSlug (baseSlug : String) (suffix : ℕ) : String :=
  let suffixText := '-' :: (toString suffix).toList
  String.ofList
    (dropTrailingHyphens (baseSlug.toList.take (maxSlugLength - suffixText.length)) ++ suffixText)

/-- `safeFilePart` -/
def safeFilePart (value : String) : String :=
  let safe := replaceRuns isFileChar false (node.normalizeNfkd value).toList
  orElse (String.ofList ((Js.strip (· = '-') safe).take 100)) "release"

/-- `buildFileName` -/
def buildFileName (softwareName platformName architectureName : String) (version : Version)
    (extension : String) : String :=
  let codename :=
    match version.codename with
    | some codename => if codename = "" then "" else "-" ++ safeFilePart node codename
    | none => ""
  safeFilePart node softwareName ++ "_" ++ safeFilePart node platformName ++ "_" ++
    safeFilePart node architectureName ++ "_v" ++ version.number ++ codename ++ "." ++
    safeFilePart node extension

end Reeva
