import OpenClaw.Config.EnvRefs

/-!
# Environment references in a configuration

`parseEnvTokenAt`, `substituteString` and `resolveConfigEnvVars` of `env-substitution.ts` without
the `onMissing` option. A scanner that jumps to the end of a token is written with the number of
characters it still has to skip.
-/

namespace OpenClaw

open Json

/-! ## Tokens -/

def isEnvVarNameStart (c : Char) : Bool := c.isUpper || c = '_'

/-- `ENV_VAR_NAME_PATTERN`. -/
def isEnvVarName : Str → Bool
  | [] => false
  | c :: name => isEnvVarNameStart c && name.all fun c => isEnvVarNameStart c || c.isDigit

/-- `value.slice(start, value.indexOf("}", start))` where it is a name. -/
def envVarName? (rest : Str) : Option Str :=
  let name := rest.takeWhile (· ≠ '}')
  if '}' ∈ rest && isEnvVarName name then some name else none

inductive EnvToken where
  | escaped (name : Str)
  | substitution (name : Str)
deriving DecidableEq

/-- The token that a text begins with. -/
def parseEnvTokenAt : Str → Option EnvToken
  | '$' :: '$' :: '{' :: rest => (envVarName? rest).map .escaped
  | '$' :: '{' :: rest => (envVarName? rest).map .substitution
  | _ => none

/-- `${name}`. -/
def placeholder (name : Str) : Str := '$' :: '{' :: (name ++ ['}'])

/-! ## Substitution -/

structure MissingEnvVarError where
  varName : Str
  configPath : Str
deriving DecidableEq

variable (env : Str → Option Str)

/-- A variable that is set to the empty string counts as missing. -/
def envValue (name : Str) : Option Str := (env name).filter (· ≠ [])

def substituteFrom (env : Str → Option Str) (configPath : Str) :
    Nat → Str → Except MissingEnvVarError Str
  | _, [] => .ok []
  | skip + 1, _ :: rest => substituteFrom env configPath skip rest
  | 0, c :: rest =>
    match parseEnvTokenAt (c :: rest) with
    | some (.escaped name) =>
      (substituteFrom env configPath (name.length + 3) rest).map (placeholder name ++ ·)
    | some (.substitution name) =>
      match envValue env name with
      | none => .error ⟨name, configPath⟩
      | some value => (substituteFrom env configPath (name.length + 2) rest).map (value ++ ·)
    | none => (substituteFrom env configPath 0 rest).map (c :: ·)

def substituteString (configPath : Str) (value : Str) : Except MissingEnvVarError Str :=
  if '$' ∈ value then substituteFrom env configPath 0 value else .ok value

mutual

def substituteAny (env : Str → Option Str) : Json → Str → Except MissingEnvVarError Json
  | .string value, path => (substituteString env path value).map .string
  | .array items, path => (substituteItems env items path 0).map .array
  | .object entries, path => (substituteEntries env entries path).map .object
  | value, _ => .ok value

def substituteItems (env : Str → Option Str) :
    List Json → Str → Nat → Except MissingEnvVarError (List Json)
  | [], _, _ => .ok []
  | item :: items, path, index => do
    let resolved ← substituteAny env item (childPath path (.index index))
    let rest ← substituteItems env items path (index + 1)
    return resolved :: rest

def substituteEntries (env : Str → Option Str) :
    List (Str × Json) → Str → Except MissingEnvVarError (List (Str × Json))
  | [], _ => .ok []
  | (key, value) :: entries, path => do
    let resolved ← substituteAny env value (childPath path (.key key))
    let rest ← substituteEntries env entries path
    return (key, resolved) :: rest

end

def resolveConfigEnvVars (value : Json) : Except MissingEnvVarError Json :=
  substituteAny env value []

/-! ## Where there is no reference -/

/-- `ENV_VAR_PATTERN.test`. -/
def hasEnvVarRef : Str → Bool
  | '$' :: '{' :: rest => (envVarName? rest).isSome || hasEnvVarRef ('{' :: rest)
  | _ :: rest => hasEnvVarRef rest
  | [] => false

variable {env : Str → Option Str}

theorem hasEnvVarRef_of_rest {c : Char} {rest : Str} (h : hasEnvVarRef rest = true) :
    hasEnvVarRef (c :: rest) = true := by
  unfold hasEnvVarRef
  split
  · rename_i heq
    cases heq
    rw [h, Bool.or_true]
  · rename_i heq
    cases heq
    exact h
  · rename_i heq
    cases heq

theorem hasEnvVarRef_of_token {value : Str} {token : EnvToken}
    (h : parseEnvTokenAt value = some token) : hasEnvVarRef value = true := by
  unfold parseEnvTokenAt at h
  split at h
  · rename_i rest
    obtain ⟨name, hname, _⟩ := Option.map_eq_some_iff.mp h
    apply hasEnvVarRef_of_rest
    rw [hasEnvVarRef, hname]
    rfl
  · rename_i rest _
    obtain ⟨name, hname, _⟩ := Option.map_eq_some_iff.mp h
    rw [hasEnvVarRef, hname]
    rfl
  · cases h

theorem dollar_mem_of_hasEnvVarRef {value : Str} (h : hasEnvVarRef value = true) : '$' ∈ value := by
  induction value with
  | nil => cases h
  | cons c rest ih =>
    unfold hasEnvVarRef at h
    split at h
    · rename_i heq
      cases heq
      exact List.mem_cons_self
    · rename_i heq
      cases heq
      exact List.mem_cons_of_mem _ (ih h)
    · cases h

/-- A string without a reference is left as it is. -/
theorem substituteFrom_of_not_hasEnvVarRef {value : Str} (h : hasEnvVarRef value = false)
    (path : Str) : substituteFrom env path 0 value = .ok value := by
  induction value with
  | nil => rfl
  | cons c rest ih =>
    have htoken : parseEnvTokenAt (c :: rest) = none := by
      cases htoken : parseEnvTokenAt (c :: rest) with
      | none => rfl
      | some token =>
        rw [hasEnvVarRef_of_token htoken] at h
        cases h
    have hrest : hasEnvVarRef rest = false := by
      cases hrest : hasEnvVarRef rest with
      | false => rfl
      | true =>
        rw [hasEnvVarRef_of_rest hrest] at h
        cases h
    rw [substituteFrom, htoken, ih hrest]
    rfl

theorem substituteString_of_not_hasEnvVarRef {value : Str} (h : hasEnvVarRef value = false)
    (path : Str) : substituteString env path value = .ok value := by
  unfold substituteString
  split_ifs
  · exact substituteFrom_of_not_hasEnvVarRef h path
  · rfl

end OpenClaw
