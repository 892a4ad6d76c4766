import OpenClaw.Text.Basic

/-!
# JSON values

What a gateway method receives as `unknown` was parsed from JSON. A missing property is
`none`. A number is given by the text `String(value)` prints for it, which is all the
modelled functions use of one.
-/

namespace OpenClaw

inductive Json where
  | null
  | bool (value : Bool)
  | number (text : Str)
  | string (value : Str)
  | array (items : List Json)
  | object (entries : List (Str × Json))

def isBlockedObjectKey (key : Str) : Bool :=
  decide (key ∈ (["__proto__".toList, "prototype".toList, "constructor".toList] : List Str))

namespace Json

/-! ## Objects -/

/-- `asNullableRecord`. -/
def entries? : Json → Option (List (Str × Json))
  | .object entries => some entries
  | _ => none

variable (entries : List (Str × Json))

variable (key : Str)

/-- `entries[key]`. -/
def lookup : Option Json :=
  (entries.find? (·.1 = key)).map (·.2)

/-- `delete entries[key]`. -/
def erase : List (Str × Json) :=
  entries.filter (·.1 ≠ key)

variable (value : Json)

/-- `entries[key] = value`. -/
def insert : List (Str × Json) :=
  if entries.any (·.1 = key) then
    entries.map fun entry => if entry.1 = key then (key, value) else entry
  else entries ++ [(key, value)]

/-- `value[key]` for a value that may not be an object. -/
def get? (key : Str) : Option Json :=
  value.entries?.bind (lookup · key)

theorem lookup_insert : lookup (insert entries key value) key = some value := by
  unfold insert
  split
  · rename_i hany
    induction entries with
    | nil => simp at hany
    | cons entry rest ih =>
      by_cases hkey : entry.1 = key
      · simp [lookup, hkey]
      · have hrest : rest.any (·.1 = key) = true := by simpa [hkey] using hany
        simpa [lookup, hkey] using ih hrest
  · rename_i hany
    have hnone : entries.find? (·.1 = key) = none := by
      rw [List.find?_eq_none]
      intro entry hentry hkey
      exact hany (List.any_eq_true.mpr ⟨entry, hentry, hkey⟩)
    simp [lookup, List.find?_append, hnone]

theorem lookup_insert_of_ne {key key' : Str} (value : Json)
    (hne : key' ≠ key) : lookup (insert entries key value) key' = lookup entries key' := by
  unfold insert
  split
  · clear * - hne
    induction entries with
    | nil => rfl
    | cons entry rest ih =>
      by_cases hkey : entry.1 = key
      · simpa [lookup, hkey, hne.symm] using ih
      · by_cases hkey' : entry.1 = key'
        · simp [lookup, hkey', hne]
        · simpa [lookup, hkey, hkey'] using ih
  · simp [lookup, List.find?_append, hne.symm]

theorem lookup_erase : lookup (erase entries key) key = none := by
  unfold lookup erase
  rw [Option.map_eq_none_iff, List.find?_eq_none]
  intro entry hentry hkey
  have hne := (List.mem_filter.mp hentry).2
  simp at hne hkey
  exact hne hkey

theorem lookup_erase_of_ne {key key' : Str} (hne : key' ≠ key) :
    lookup (erase entries key) key' = lookup entries key' := by
  induction entries with
  | nil => rfl
  | cons entry rest ih =>
    unfold lookup erase at ih ⊢
    rw [List.filter_cons]
    by_cases hkey : entry.1 = key
    · have hother : ¬ key = key' := fun heq => hne heq.symm
      simpa [hkey, hother] using ih
    · rw [if_pos (by simpa using hkey)]
      by_cases hfound : entry.1 = key'
      · simp [hfound]
      · simpa [hfound] using ih

theorem lookup_append (entries entries' : List (Str × Json)) (key : Str) :
    lookup (entries ++ entries') key = (lookup entries key).or (lookup entries' key) := by
  unfold lookup
  rw [List.find?_append, Option.map_or]

theorem lookup_singleton (key key' : Str) (value : Json) :
    lookup [(key, value)] key' = if key = key' then some value else none := by
  unfold lookup
  by_cases hkey : key = key'
  · simp [hkey]
  · simp [hkey]

/-! ## Conversions -/

mutual

/-- `String(value)`. -/
def toJsString : Json → Str
  | .null => "null"
  | .bool true => "true"
  | .bool false => "false"
  | .number text => text
  | .string value => value
  | .array items => joinWith "," (elementStrings items)
  | .object _ => "[object Object]"

/-- The texts that `Array.prototype.join` puts between the commas. -/
def elementStrings : List Json → List Str
  | [] => []
  | .null :: rest => [] :: elementStrings rest
  | item :: rest => toJsString item :: elementStrings rest

end

/-- A string array as a value. -/
def ofStrings (items : List Str) : Json := .array (items.map .string)

/-- `string | null` as a value. -/
def ofNullable : Option Str → Json
  | some value => .string value
  | none => .null

/-! ## Texts -/

/-- A unit of a string in JSON text. -/
def quoteChar (c : Char) : Str :=
  if c = '"' then ['\\', '"']
  else if c = '\\' then ['\\', '\\']
  else if c = '\x08' then ['\\', 'b']
  else if c = '\t' then ['\\', 't']
  else if c = '\n' then ['\\', 'n']
  else if c = '\x0c' then ['\\', 'f']
  else if c = '\r' then ['\\', 'r']
  else if c.toNat < 32 then
    ['\\', 'u', '0', '0', Nat.digitChar (c.toNat / 16), Nat.digitChar (c.toNat % 16)]
  else [c]

def quote (value : Str) : Str := '"' :: value.flatMap quoteChar ++ ['"']

mutual

/-- `JSON.stringify(value)`. -/
def stringify : Json → Str
  | .null => "null"
  | .bool true => "true"
  | .bool false => "false"
  | .number text => text
  | .string value => quote value
  | .array items => '[' :: joinWith "," (stringifyItems items) ++ [']']
  | .object entries => '\x7b' :: joinWith "," (stringifyEntries entries) ++ ['\x7d']

def stringifyItems : List Json → List Str
  | [] => []
  | item :: rest => stringify item :: stringifyItems rest

def stringifyEntries : List (Str × Json) → List Str
  | [] => []
  | (key, value) :: rest => (quote key ++ ':' :: stringify value) :: stringifyEntries rest

end

/-! ## Equality -/

mutual

/-- The equality of the texts of two values. -/
def same : Json → Json → Bool
  | .null, .null => true
  | .bool x, .bool y => x == y
  | .number x, .number y => x == y
  | .string x, .string y => x == y
  | .array xs, .array ys => sameItems xs ys
  | .object xs, .object ys => sameEntries xs ys
  | _, _ => false

def sameItems : List Json → List Json → Bool
  | [], [] => true
  | x :: xs, y :: ys => same x y && sameItems xs ys
  | _, _ => false

def sameEntries : List (Str × Json) → List (Str × Json) → Bool
  | [], [] => true
  | (key, x) :: xs, (key', y) :: ys => key == key' && same x y && sameEntries xs ys
  | _, _ => false

end

mutual

theorem eq_of_same : ∀ {x y : Json}, same x y = true → x = y
  | .null, y, h => by cases y <;> simp_all [same]
  | .bool _, y, h => by cases y <;> simp_all [same]
  | .number _, y, h => by cases y <;> simp_all [same]
  | .string _, y, h => by cases y <;> simp_all [same]
  | .array xs, .array ys, h => by
    rw [same] at h
    rw [eq_of_sameItems h]
  | .object xs, .object ys, h => by
    rw [same] at h
    rw [eq_of_sameEntries h]
  | .array _, .null, h | .array _, .bool _, h | .array _, .number _, h | .array _, .string _, h
  | .array _, .object _, h | .object _, .null, h | .object _, .bool _, h | .object _, .number _, h
  | .object _, .string _, h | .object _, .array _, h => by simp [same] at h

theorem eq_of_sameItems : ∀ {xs ys : List Json}, sameItems xs ys = true → xs = ys
  | [], [], _ => rfl
  | [], _ :: _, h | _ :: _, [], h => by simp [sameItems] at h
  | x :: xs, y :: ys, h => by
    rw [sameItems, Bool.and_eq_true] at h
    rw [eq_of_same h.1, eq_of_sameItems h.2]

theorem eq_of_sameEntries : ∀ {xs ys : List (Str × Json)}, sameEntries xs ys = true → xs = ys
  | [], [], _ => rfl
  | [], _ :: _, h | _ :: _, [], h => by simp [sameEntries] at h
  | (key, x) :: xs, (key', y) :: ys, h => by
    rw [sameEntries, Bool.and_eq_true, Bool.and_eq_true, beq_iff_eq] at h
    rw [h.1.1, eq_of_same h.1.2, eq_of_sameEntries h.2]

end

end Json

/-! ## String coercion -/

/-- `normalizeNullableString` and `normalizeNonEmptyString` on an unknown value. -/
def normalizeNullableString : Option Json → Option Str
  | some (.string value) => if trim value = [] then none else some (trim value)
  | _ => none

/-- The same on a value whose type is `string | null | undefined`. -/
def normalizeNonEmptyString (value : Option Str) : Option Str :=
  normalizeNullableString (value.map .string)

end OpenClaw
