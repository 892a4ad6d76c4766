import Mathlib.Algebra.GroupWithZero.Nat
import Mathlib.Data.List.DropRight
import Mathlib.Data.List.Infix
import Mathlib.Tactic.Common

/-!
# Strings as the scanners read them

Every scanner of the repository walks a JavaScript string one code unit at a time and
only ever compares a unit with ASCII characters or with the white space class `\s`.
A string is therefore a list of characters here; `Char` covers every unit that is not
half of a surrogate pair, and a pair is one ordinary character.

`Host` collects what the code takes from the running process: the platform name and the
Unicode lower-casing table of the engine. Nothing below assumes anything about it.
-/

namespace OpenClaw

open List

/-- A JavaScript string. -/
abbrev Str := List Char

instance lawfulBEqStr : @LawfulBEq (List Char) List.instBEq := inferInstance

instance coeString : Coe String (List Char) := ⟨String.toList⟩

/-- `process.platform`. -/
inductive NodePlatform where
  | aix | android | cygwin | darwin | freebsd | haiku | linux | netbsd | openbsd | sunos | win32
deriving DecidableEq

/-- What the modelled functions read from the process they run in. -/
structure Host where
  platform : NodePlatform
  /-- `String.prototype.toLowerCase`. -/
  toLowerCase : Str → Str

/-- A Linux process on ASCII text, for evaluation. -/
def Host.asciiLinux : Host := ⟨.linux, List.map Char.toLower⟩

/-! ## White space -/

variable (c : Char)

/-- The class `\s`, which is also what `trim` removes. -/
def isSpace : Bool :=
  let n := c.toNat
  (9 ≤ n && n ≤ 13) || n = 32 || n = 160 || n = 5760 || (8192 ≤ n && n ≤ 8202) ||
    n = 8232 || n = 8233 || n = 8239 || n = 8287 || n = 12288 || n = 65279

variable (s : Str)

def trimStart : Str := s.dropWhile isSpace

def trimEnd : Str := s.rdropWhile isSpace

/-- `String.prototype.trim`. -/
def trim : Str := trimEnd (trimStart s)

theorem trim_subset : trim s ⊆ s := by
  intro c hc
  have hstart : c ∈ trimStart s := ( rdropWhile_prefix isSpace (trimStart s)).subset hc
  exact (dropWhile_suffix isSpace).subset hstart

theorem trim_trim : trim (trim s) = trim s := by
  have hstart : trim s <+: trimStart s := rdropWhile_prefix isSpace (trimStart s)
  have hstart : trimStart (trim s) = trim s := by
    rw [trimStart, dropWhile_eq_self_iff]
    intro hpos
    rw [hstart.getElem hpos]
    exact dropWhile_get_zero_not isSpace s _
  show trimEnd (trimStart (trim s)) = trim s
  rw [hstart]
  exact rdropWhile_idempotent _ _

/-- A string where it counts as true. -/
def nonEmptyText? : Option Str := if s = [] then none else some s

variable (value : Option Str)

def normalizeOptionalString : Option Str :=
  value.bind fun value => nonEmptyText? (trim value)

theorem normalizeOptionalString_idem :
    normalizeOptionalString (normalizeOptionalString value) = normalizeOptionalString value := by
  cases value with
  | none => rfl
  | some s =>
    by_cases hblank : trim s = []
    · have hnone : normalizeOptionalString (some s) = none := if_pos hblank
      rw [hnone]
      rfl
    · have hsome : normalizeOptionalString (some s) = some (trim s) := if_neg hblank
      rw [hsome]
      show (if trim (trim s) = [] then none else some (trim (trim s))) = _
      rw [trim_trim, if_neg hblank]

/-- `normalizeLowercaseStringOrEmpty` on a string. -/
def normalizeLowercaseStringOrEmpty (host : Host) (s : Str) : Str :=
  if trim s = [] then [] else host.toLowerCase (trim s)

/-- `s.length`, in code units. -/
def jsLength : ℕ := (s.map fun c => if c.toNat < 65536 then 1 else 2).sum

/-! ## Searching -/

/-- `s.startsWith(p)`. -/
def startsWith (s p : Str) : Bool := p.isPrefixOf s

/-- `s.endsWith(p)`. -/
def endsWith (s p : Str) : Bool := p.isSuffixOf s

/-- The part of `s` before the first `c` (all of `s` when there is none):
`s.split(c, 1)[0]`. -/
def beforeChar : Str := s.takeWhile (· != c)

/-- `s.slice(s.indexOf(c) + 1)`, with `none` for an index of `-1`. -/
def afterChar? : Option Str :=
  match s.dropWhile (· != c) with
  | [] => none
  | _ :: rest => some rest

/-! ## Joining -/

/-- `parts.join(sep)`. -/
def joinWith (sep : Str) (parts : List Str) : Str := List.intercalate sep parts

end OpenClaw
