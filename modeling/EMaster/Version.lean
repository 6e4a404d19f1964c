import EMaster.Text

/-!
# Release versions

Versions of the gateway: three numbers, optionally a prerelease; build metadata is
accepted and ignored. Prerelease identifiers compare as in semantic versioning, with
numeric ones read by a function that stops at the largest machine integer.
-/

set_option autoImplicit false

namespace EMaster

structure Version where
  (major minor patch : ℕ)
  prerelease : Text
  deriving DecidableEq

namespace Version

variable (text : Text)

def readNumber : Option (ℕ×Text) :=
  let digits := text.takeWhile Char.isDigit
  if digits = [] ∨ 1000000000 < Text.digitsValue digits then none
  else some (Text.digitsValue digits,text.dropWhile Char.isDigit)

def skipDot : Text → Option Text
  | '.' :: rest => some rest
  | _ => none

def skipLetter : Text → Text
  | 'v' :: rest => rest
  | 'V' :: rest => rest
  | text => text

/-- The prerelease and what follows it; a prerelease ends at the build metadata. -/
def readPrerelease : Text → Text×Text
  | '-' :: rest => (rest.takeWhile (· ≠ '+'),rest.dropWhile (· ≠ '+'))
  | text => ([],text)

def endsHere : Bool := text.head? = some '+' || text.all Text.isSpace

def parse : Option Version := do
  let (major,afterMajor) ← readNumber (skipLetter (text.dropWhile Text.isSpace))
  let (minor,afterMinor) ← readNumber (← skipDot afterMajor)
  let (patch,afterPatch) ← readNumber (← skipDot afterMinor)
  let (prerelease,rest) := readPrerelease afterPatch
  if endsHere rest then some ⟨major,minor,patch,prerelease⟩ else none

def isNumericIdentifier : Bool := text ≠ [] && text.all Char.isDigit

def strtoll (digits : Text) : ℕ := min (Text.digitsValue digits) (2^63-1)

def orderOf {α : Type} [LT α] [DecidableLT α] (a b : α) : Ordering := if a < b then .lt else .gt

def compareIdentifiers : List Text → List Text → Ordering
  | [], [] => .eq
  | [], _::_ => .lt
  | _::_, [] => .gt
  | a::as, b::bs =>
    if isNumericIdentifier a && isNumericIdentifier b then
      if strtoll a = strtoll b then compareIdentifiers as bs
      else orderOf (strtoll a) (strtoll b)
    else if isNumericIdentifier a then .lt
    else if isNumericIdentifier b then .gt
    else if a = b then compareIdentifiers as bs
    else orderOf a b

def comparePrerelease (a b : Text) : Ordering :=
  if a = [] ∧ b = [] then .eq
  else if a = [] then .gt
  else if b = [] then .lt
  else compareIdentifiers (List.splitOn '.' a) (List.splitOn '.' b)

def compare (a b : Version) : Ordering :=
  if a.major ≠ b.major then orderOf a.major b.major
  else if a.minor ≠ b.minor then orderOf a.minor b.minor
  else if a.patch ≠ b.patch then orderOf a.patch b.patch
  else comparePrerelease a.prerelease b.prerelease

end Version

def isNewer (candidate current : Text) : Bool :=
  match Version.parse candidate, Version.parse current with
  | some c, some now => c.compare now = .gt
  | _, _ => false

example : isNewer "1.2.10" "v1.2.9" = true ∧
    isNewer "1.2.0-rc.1" "1.2.0" = false := by decide

end EMaster
