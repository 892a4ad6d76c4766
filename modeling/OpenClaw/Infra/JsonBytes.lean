import OpenClaw.Chunking.Fences
import OpenClaw.Text.Number

/-!
# The bounded size of a JSON text

`boundedJsonUtf8Bytes` of `json-utf8-bytes.ts` counts the bytes of `JSON.stringify(value)` without
building the text, and gives up at a limit. An array or an object has an identity here, since the
count keeps the set of those it stands in.
-/

namespace OpenClaw

open List

/-! ## Bytes of a text -/

variable (unit : UInt16)

def isHighSurrogate : Bool := 0xD800 ≤ unit && unit < 0xDC00

def isLowSurrogate : Bool := 0xDC00 ≤ unit && unit < 0xE000

def unitBytes : ℕ := if unit < 0x80 then 1 else if unit < 0x800 then 2 else 3

/-- `Buffer.byteLength(text, "utf8")`: half a pair is written as U+FFFD. -/
def byteLength : Units → ℕ
  | [] => 0
  | [unit] => unitBytes unit
  | unit :: low :: rest =>
    if isHighSurrogate unit && isLowSurrogate low then 4 + byteLength rest
    else unitBytes unit + byteLength (low :: rest)

variable {unit low : UInt16} {text rest : Units}

theorem byteLength_cons (h : isHighSurrogate unit = false) (rest : Units) :
    byteLength (unit :: rest) = unitBytes unit + byteLength rest := by
  cases rest with
  | nil => rfl
  | cons low rest => rw [byteLength, h, Bool.false_and, if_neg Bool.false_ne_true]

/-- Text that begins with no second half of a pair is read by itself. -/
theorem byteLength_append (h : isLowSurrogate low = false) (text rest : Units) :
    byteLength (text ++ low :: rest) = byteLength text + byteLength (low :: rest) := by
  fun_induction byteLength text with
  | case1 => exact (Nat.zero_add _).symm
  | case2 unit =>
    show byteLength (unit :: low :: rest) = _
    rw [byteLength, h, Bool.and_false, if_neg Bool.false_ne_true]
  | case3 unit next text hpair ih =>
    rw [cons_append, cons_append, byteLength, if_pos hpair, ih, Nat.add_assoc]
  | case4 unit next text hpair ih =>
    rw [cons_append, cons_append, byteLength, if_neg hpair, Nat.add_assoc]
    exact congrArg _ ih

theorem one_le_unitBytes (unit : UInt16) : 1 ≤ unitBytes unit := by
  unfold unitBytes
  split_ifs <;> omega

theorem length_add_le_byteLength (h : ∀ unit ∈ text, isHighSurrogate unit = false) (rest : Units) :
    text.length + byteLength rest ≤ byteLength (text ++ rest) := by
  induction text with
  | nil => exact (Nat.zero_add _).le
  | cons unit text ih =>
    have hrest := ih fun other hmem => h other (mem_cons_of_mem _ hmem)
    have hpos := one_le_unitBytes unit
    rw [cons_append, byteLength_cons (h unit mem_cons_self), length_cons]
    omega

/-! ## `JSON.stringify` of a string -/

def hexDigit (n : ℕ) : UInt16 := UInt16.ofNat (if n < 10 then 48 + n else 87 + n)

variable (unit)

/-- `\uXXXX`. -/
def unicodeEscape : Units :=
  [92, 117, hexDigit (unit.toNat / 4096 % 16), hexDigit (unit.toNat / 256 % 16),
    hexDigit (unit.toNat / 16 % 16), hexDigit (unit.toNat % 16)]

def quoteUnit : Units :=
  if unit = 34 then [92, 34]
  else if unit = 92 then [92, 92]
  else if unit = 8 then [92, 98]
  else if unit = 9 then [92, 116]
  else if unit = 10 then [92, 110]
  else if unit = 12 then [92, 102]
  else if unit = 13 then [92, 114]
  else if unit < 32 then unicodeEscape unit
  else [unit]

/-- A unit that begins no pair. -/
def quoteAlone : Units :=
  if isHighSurrogate unit || isLowSurrogate unit then unicodeEscape unit else quoteUnit unit

variable {unit}

def quoteUnits : Units → Units
  | [] => []
  | [unit] => quoteAlone unit
  | unit :: low :: rest =>
    if isHighSurrogate unit && isLowSurrogate low then unit :: low :: quoteUnits rest
    else quoteAlone unit ++ quoteUnits (low :: rest)

variable (value : Units)

def quoteJsonString : Units := 34 :: quoteUnits value ++ [34]

theorem isHighSurrogate_unicodeEscape : ∀ other ∈ unicodeEscape unit,
    isHighSurrogate other = false := by
  have hdigit : ∀ n < 16, isHighSurrogate (hexDigit n) = false := by decide
  intro other hmem
  simp only [unicodeEscape, mem_cons, not_mem_nil, or_false] at hmem
  rcases hmem with rfl | rfl | rfl | rfl | rfl | rfl
  · decide
  · decide
  all_goals exact hdigit _ (Nat.mod_lt _ (by decide))

/-- No half of a pair is left, and a unit is written as one unit at least. -/
theorem quoteAlone_spec (unit : UInt16) : 1 ≤ (quoteAlone unit).length ∧
    ∀ other ∈ quoteAlone unit, isHighSurrogate other = false := by
  unfold quoteAlone quoteUnit
  split_ifs with h
  case neg =>
    rw [Bool.not_eq_true, Bool.or_eq_false_iff] at h
    exact ⟨le_rfl, by simpa using h.1⟩
  all_goals first
    | exact ⟨by decide, forall_mem_cons.mpr ⟨rfl, forall_mem_cons.mpr ⟨rfl, nofun⟩⟩⟩
    | exact ⟨Nat.le_add_left _ _, isHighSurrogate_unicodeEscape⟩

theorem length_le_byteLength_quoteUnits : value.length ≤ byteLength (quoteUnits value) := by
  fun_induction quoteUnits value with
  | case1 => exact Nat.zero_le _
  | case2 unit =>
    obtain ⟨hpos, hhigh⟩ := quoteAlone_spec unit
    have hle := length_add_le_byteLength hhigh []
    rw [append_nil] at hle
    exact le_trans hpos (le_trans (Nat.le_add_right _ _) hle)
  | case3 unit low rest hpair ih =>
    rw [byteLength, if_pos hpair, length_cons, length_cons]
    omega
  | case4 unit low rest hpair ih =>
    obtain ⟨hpos, hhigh⟩ := quoteAlone_spec unit
    have hle := length_add_le_byteLength hhigh (quoteUnits (low :: rest))
    rw [length_cons]
    omega

/-- The text between two units of a byte. -/
theorem byteLength_bracketed {opening closing : UInt16}
    (hopening : isHighSurrogate opening = false ∧ unitBytes opening = 1)
    (hclosing : isLowSurrogate closing = false ∧ unitBytes closing = 1) (text : Units) :
    byteLength (opening :: text ++ [closing]) = 1 + (byteLength text + 1) := by
  rw [cons_append, byteLength_cons hopening.1, byteLength_append hclosing.1, byteLength,
    hopening.2, hclosing.2]

/-- A unit takes a byte at least, and so do the quotes. -/
theorem length_le_byteLength_quoteJsonString :
    value.length + 2 ≤ byteLength (quoteJsonString value) := by
  have hle := length_le_byteLength_quoteUnits value
  rw [quoteJsonString, byteLength_bracketed (by decide) (by decide)]
  omega

/-! ## Values -/

inductive JsValue where
  | null
  | boolean (value : Bool)
  | number (value : JsNumber)
  | string (value : Units)
  | undefined
  | function
  | array (id : ℕ) (items : List JsValue)
  | object (id : ℕ) (fields : List (Units × JsValue))

namespace JsValue

/-- The fields that neither `JSON.stringify` nor the count writes. -/
def isSkipped : JsValue → Bool
  | undefined | function => true
  | _ => false

variable (numbers : ℚ → Units)

/-- `numbers`: what `String(n)` gives for the finite numbers. -/
def numberText : JsNumber → Units
  | .finite value => numbers value
  | _ => units "null"

mutual

/-- `JSON.stringify(value)`, which is `null` for what an array holds and a text cannot. -/
def stringify : JsValue → Units
  | null => units "null"
  | boolean value => units (if value then "true" else "false")
  | number value => numberText numbers value
  | string value => quoteJsonString value
  | undefined | function => units "null"
  | array _ items => 91 :: [44].intercalate (stringifyItems items) ++ [93]
  | object _ fields => 123 :: [44].intercalate (stringifyFields fields) ++ [125]

def stringifyItems : List JsValue → List Units
  | [] => []
  | item :: items => stringify item :: stringifyItems items

def stringifyFields : List (Units × JsValue) → List Units
  | [] => []
  | (key, field) :: fields =>
    if field.isSkipped then stringifyFields fields
    else (quoteJsonString key ++ 58 :: stringify field) :: stringifyFields fields

end

mutual

/-- Nothing stands within itself, nor within one of the values `seen`. -/
def Acyclic (seen : List ℕ) : JsValue → Prop
  | array id items => id ∉ seen ∧ AcyclicItems (id :: seen) items
  | object id fields => id ∉ seen ∧ AcyclicFields (id :: seen) fields
  | _ => True

def AcyclicItems (seen : List ℕ) : List JsValue → Prop
  | [] => True
  | item :: items => Acyclic seen item ∧ AcyclicItems seen items

def AcyclicFields (seen : List ℕ) : List (Units × JsValue) → Prop
  | [] => True
  | (_, field) :: fields => Acyclic seen field ∧ AcyclicFields seen fields

end

/-! ## The count -/

/-- A count that goes on, or the one at which an exception is thrown. -/
abbrev Count := Except ℕ ℕ

variable (maxBytes : ℕ)

def add (amount bytes : ℕ) : Count :=
  if maxBytes < bytes + amount then .error (bytes + amount) else .ok (bytes + amount)

/-- The comma in front of what is not the first. -/
def addComma (later : Bool) (bytes : ℕ) : Count := if later then add maxBytes 1 bytes else .ok bytes

def jsonStringByteLengthUpToLimit (remainingBytes : ℕ) : ℕ :=
  if remainingBytes < value.length + 2 then remainingBytes + 1
  else byteLength (quoteJsonString value)

mutual

def visit (seen : List ℕ) (inArray : Bool) (bytes : ℕ) : JsValue → Count
  | null => add maxBytes 4 bytes
  | string value =>
    add maxBytes (jsonStringByteLengthUpToLimit value (maxBytes - bytes)) bytes
  | number value => add maxBytes (byteLength (numberText numbers value)) bytes
  | boolean value => add maxBytes (if value then 4 else 5) bytes
  | undefined | function => if inArray then add maxBytes 4 bytes else .ok bytes
  | array id items =>
    if id ∈ seen then .error bytes
    else do
      let opened ← add maxBytes 1 bytes
      let bytes ← visitItems (id :: seen) false opened items
      add maxBytes 1 bytes
  | object id fields =>
    if id ∈ seen then .error bytes
    else do
      let opened ← add maxBytes 1 bytes
      let bytes ← visitFields (id :: seen) false opened fields
      add maxBytes 1 bytes

/-- The items from an index on; `later`: it is not the first one. -/
def visitItems (seen : List ℕ) (later : Bool) (bytes : ℕ) : List JsValue → Count
  | [] => .ok bytes
  | item :: items => do
    let bytes ← addComma maxBytes later bytes
    let bytes ← visit seen true bytes item
    visitItems seen true bytes items

def visitFields (seen : List ℕ) (wroteField : Bool) (bytes : ℕ) : List (Units × JsValue) → Count
  | [] => .ok bytes
  | (key, field) :: fields =>
    if field.isSkipped then visitFields seen wroteField bytes fields
    else do
      let bytes ← addComma maxBytes wroteField bytes
      let bytes ← add maxBytes (jsonStringByteLengthUpToLimit key (maxBytes - bytes)) bytes
      let bytes ← add maxBytes 1 bytes
      let bytes ← visit seen false bytes field
      visitFields seen true bytes fields

end

end JsValue

structure BoundedJsonUtf8Bytes where
  bytes : ℕ
  complete : Bool
deriving DecidableEq

def boundedJsonUtf8Bytes (numbers : ℚ → Units) (value : JsValue) (maxBytes : ℕ) :
    BoundedJsonUtf8Bytes :=
  match value.visit numbers maxBytes [] false 0 with
  | .ok bytes => ⟨bytes, true⟩
  | .error bytes => ⟨max bytes (maxBytes + 1), false⟩

namespace JsValue

variable {numbers : ℚ → Units} {maxBytes : ℕ}

/-! ## What the count adds up to -/

/-- The count goes on with `amount` more bytes, unless this is over the limit. -/
def Counts (maxBytes bytes amount : ℕ) (count : Count) : Prop :=
  if bytes + amount ≤ maxBytes then count = .ok (bytes + amount) else ∃ at', count = .error at'

theorem counts_add (bytes amount : ℕ) : Counts maxBytes bytes amount (add maxBytes amount bytes) := by
  unfold Counts add
  split_ifs
  · omega
  · rfl
  · exact ⟨_, rfl⟩
  · omega

theorem counts_zero {bytes : ℕ} (h : bytes ≤ maxBytes) : Counts maxBytes bytes 0 (.ok bytes) := by
  rw [Counts, if_pos (by omega)]
  rfl

theorem Counts.bind {bytes amount amount' : ℕ} {count : Count} {next : ℕ → Count}
    (h : Counts maxBytes bytes amount count) (hnext : bytes + amount ≤ maxBytes →
      Counts maxBytes (bytes + amount) amount' (next (bytes + amount))) :
    Counts maxBytes bytes (amount + amount') (count >>= next) := by
  unfold Counts at h ⊢
  by_cases hfits : bytes + amount ≤ maxBytes
  · rw [if_pos hfits] at h
    have hrest := hnext hfits
    rw [h, ← Nat.add_assoc]
    exact hrest
  · rw [if_neg hfits] at h
    obtain ⟨last, rfl⟩ := h
    rw [if_neg (by omega)]
    exact ⟨last, rfl⟩

/-- The shortcut for a long string ends the count as its text would. -/
theorem counts_string (value : Units) {bytes : ℕ} (h : bytes ≤ maxBytes) :
    Counts maxBytes bytes (byteLength (quoteJsonString value))
      (add maxBytes (jsonStringByteLengthUpToLimit value (maxBytes - bytes)) bytes) := by
  unfold jsonStringByteLengthUpToLimit
  split_ifs with hlong
  · have hle := length_le_byteLength_quoteJsonString value
    rw [Counts, if_neg (by omega), add, if_pos (by omega)]
    exact ⟨_, rfl⟩
  · exact counts_add _ _

variable (later : Bool)

/-- Texts with a comma between them, and one in front where others came `later`. -/
def joined (texts : List Units) : Units :=
  if later then texts.flatMap (44 :: ·) else [44].intercalate texts

theorem joined_nil : joined later [] = [] := by
  cases later <;> rfl

theorem joined_cons (text : Units) (texts : List Units) :
    joined later (text :: texts) = (if later then [44] else []) ++ text ++ joined true texts := by
  have hjoin : [44].intercalate (text :: texts) = text ++ joined true texts := by
    induction texts generalizing text with
    | nil => simp [joined]
    | cons next texts ih =>
      rw [intercalate_cons_cons, ih next]
      simp [joined]
  cases later with
  | false => exact hjoin
  | true => rfl

theorem byteLength_joined (text : Units) (texts : List Units) :
    byteLength (joined later (text :: texts)) =
      (if later then 1 else 0) + (byteLength text + byteLength (joined true texts)) := by
  have hrest : byteLength (text ++ joined true texts) =
      byteLength text + byteLength (joined true texts) := by
    cases texts with
    | nil => simp [joined_nil, byteLength]
    | cons next texts =>
      rw [joined_cons]
      exact byteLength_append (by decide) _ _
  rw [joined_cons, append_assoc]
  cases later with
  | false => exact hrest.trans (Nat.zero_add _).symm
  | true =>
    have hcomma : byteLength (44 :: (text ++ joined true texts)) = _ :=
      byteLength_cons (by decide) _
    rw [hrest] at hcomma
    exact hcomma

theorem counts_comma {bytes : ℕ} (h : bytes ≤ maxBytes) :
    Counts maxBytes bytes (if later then 1 else 0)
      (addComma maxBytes later bytes) := by
  cases later with
  | false => exact counts_zero h
  | true => exact counts_add bytes 1

/-- What stands between the brackets of an array or an object. -/
theorem counts_bracketed {opening closing : UInt16} {bytes : ℕ} (text : Units)
    (hopening : isHighSurrogate opening = false ∧ unitBytes opening = 1)
    (hclosing : isLowSurrogate closing = false ∧ unitBytes closing = 1) {inner : ℕ → Count}
    (h : ∀ opened ≤ maxBytes, Counts maxBytes opened (byteLength text) (inner opened)) :
    Counts maxBytes bytes (byteLength (opening :: text ++ [closing]))
      (add maxBytes 1 bytes >>= fun opened => inner opened >>= fun bytes => add maxBytes 1 bytes) := by
  rw [byteLength_bracketed hopening hclosing]
  refine (counts_add bytes 1).bind fun hle => ?_
  exact (h _ hle).bind fun _ => counts_add _ 1

mutual

/-- The induction is on the value: a count within the limit goes on by the bytes of the text. -/
theorem counts_visit : ∀ (value : JsValue) {seen : List ℕ} {inArray : Bool} {bytes : ℕ},
    Acyclic seen value → (inArray = true ∨ value.isSkipped = false) → bytes ≤ maxBytes →
      Counts maxBytes bytes (byteLength (stringify numbers value))
        (visit numbers maxBytes seen inArray bytes value)
  | null, _, _, bytes, _, _, _ => counts_add bytes 4
  | boolean true, _, _, bytes, _, _, _ => counts_add bytes 4
  | boolean false, _, _, bytes, _, _, _ => counts_add bytes 5
  | number _, _, _, bytes, _, _, _ => counts_add bytes _
  | string value, _, _, _, _, _, hle => counts_string value hle
  | undefined, _, _, bytes, _, hskip, _ => by
    rw [visit, if_pos (hskip.resolve_right (by decide))]
    exact counts_add bytes 4
  | function, _, _, bytes, _, hskip, _ => by
    rw [visit, if_pos (hskip.resolve_right (by decide))]
    exact counts_add bytes 4
  | array id items, seen, _, bytes, hacyclic, _, _ => by
    rw [Acyclic] at hacyclic
    rw [visit, if_neg hacyclic.1]
    refine counts_bracketed (joined false (stringifyItems numbers items)) ?_ ?_
      fun opened hle => counts_visitItems items hacyclic.2 hle
    all_goals decide
  | object id fields, seen, _, bytes, hacyclic, _, _ => by
    rw [Acyclic] at hacyclic
    rw [visit, if_neg hacyclic.1]
    refine counts_bracketed (joined false (stringifyFields numbers fields)) ?_ ?_
      fun opened hle => counts_visitFields fields hacyclic.2 hle
    all_goals decide

theorem counts_visitItems : ∀ (items : List JsValue) {seen : List ℕ} {later : Bool} {bytes : ℕ},
    AcyclicItems seen items → bytes ≤ maxBytes →
      Counts maxBytes bytes (byteLength (joined later (stringifyItems numbers items)))
        (visitItems numbers maxBytes seen later bytes items)
  | [], _, later, _, _, hle => by
    rw [stringifyItems, joined_nil]
    exact counts_zero hle
  | item :: items, seen, later, bytes, hacyclic, hle => by
    rw [stringifyItems, byteLength_joined, visitItems]
    refine (counts_comma later hle).bind fun hle => ?_
    refine (counts_visit item hacyclic.1 (.inl rfl) hle).bind fun hle => ?_
    exact counts_visitItems items hacyclic.2 hle

theorem counts_visitFields : ∀ (fields : List (Units × JsValue)) {seen : List ℕ}
    {wroteField : Bool} {bytes : ℕ}, AcyclicFields seen fields → bytes ≤ maxBytes →
      Counts maxBytes bytes (byteLength (joined wroteField (stringifyFields numbers fields)))
        (visitFields numbers maxBytes seen wroteField bytes fields)
  | [], _, wroteField, _, _, hle => by
    rw [stringifyFields, joined_nil]
    exact counts_zero hle
  | (key, field) :: fields, seen, wroteField, bytes, hacyclic, hle => by
    rw [stringifyFields, visitFields]
    split_ifs with hskip
    · exact counts_visitFields fields hacyclic.2 hle
    · have hmember : byteLength (quoteJsonString key ++ 58 :: stringify numbers field) =
          byteLength (quoteJsonString key) + (1 + byteLength (stringify numbers field)) := by
        rw [byteLength_append (by decide), byteLength_cons (by decide)]
        rfl
      rw [byteLength_joined, hmember, Nat.add_assoc, Nat.add_assoc]
      refine (counts_comma wroteField hle).bind fun hle => ?_
      refine (counts_string key hle).bind fun hle => ?_
      refine (counts_add _ 1).bind fun hle => ?_
      refine (counts_visit field hacyclic.1 (.inr (Bool.not_eq_true _ ▸ hskip)) hle).bind
        fun hle => ?_
      exact counts_visitFields fields hacyclic.2 hle

end

end JsValue

/-- The count is that of the text where the text is within the limit, and over the limit
elsewhere. -/
theorem boundedJsonUtf8Bytes_exact (numbers : ℚ → Units) (value : JsValue) (maxBytes : ℕ)
    (hvalue : value.isSkipped = false) (hacyclic : value.Acyclic []) :
    let result := boundedJsonUtf8Bytes numbers value maxBytes
    let length := byteLength (value.stringify numbers)
    (result.complete = true ↔ length ≤ maxBytes) ∧ (length ≤ maxBytes → result.bytes = length) ∧
      (maxBytes < length → maxBytes < result.bytes) := by
  have hcounts : JsValue.Counts maxBytes 0 (byteLength (value.stringify numbers))
      (value.visit numbers maxBytes [] false 0) :=
    JsValue.counts_visit value hacyclic (.inr hvalue) (Nat.zero_le maxBytes)
  intro result length
  unfold JsValue.Counts at hcounts
  rw [Nat.zero_add] at hcounts
  by_cases hle : length ≤ maxBytes
  · rw [if_pos hle] at hcounts
    have hresult : result = ⟨length, true⟩ := by
      show boundedJsonUtf8Bytes numbers value maxBytes = _
      rw [boundedJsonUtf8Bytes, hcounts]
    rw [hresult]
    exact ⟨iff_of_true rfl hle, fun _ => rfl, fun hlt => absurd hlt (by omega)⟩
  · rw [if_neg hle] at hcounts
    obtain ⟨bytes, hthrown⟩ := hcounts
    have hresult : result = ⟨max bytes (maxBytes + 1), false⟩ := by
      show boundedJsonUtf8Bytes numbers value maxBytes = _
      rw [boundedJsonUtf8Bytes, hthrown]
    rw [hresult]
    refine ⟨iff_of_false Bool.false_ne_true hle, fun hle' => absurd hle' hle, fun _ => ?_⟩
    exact lt_of_lt_of_le (Nat.lt_succ_self _) (le_max_right _ _)

/-- Digits for `1`, and `0` otherwise. -/
def oneDigit (n : ℚ) : Units := if n = 1 then units "1" else units "0"

/-- An array that holds one object twice: `[{"a":1},{"a":1},null]`. -/
def sharedObject : JsValue :=
  .array 0 [.object 1 [(units "a", .number (.finite 1)), (units "b", .undefined)],
    .object 1 [(units "a", .number (.finite 1)), (units "b", .undefined)], .function]

theorem boundedJsonUtf8Bytes_exact_shared :
    (boundedJsonUtf8Bytes oneDigit sharedObject 22).bytes = 22 ∧
      (boundedJsonUtf8Bytes oneDigit sharedObject 21).complete ≠ true := by
  have hacyclic : sharedObject.Acyclic [] := by
    simp [sharedObject, JsValue.Acyclic, JsValue.AcyclicItems, JsValue.AcyclicFields]
  have hlength : byteLength (sharedObject.stringify oneDigit) = 22 := by decide +kernel
  have hfits := boundedJsonUtf8Bytes_exact oneDigit sharedObject 22 rfl hacyclic
  have hover := boundedJsonUtf8Bytes_exact oneDigit sharedObject 21 rfl hacyclic
  rw [hlength] at hfits hover
  exact ⟨hfits.2.1 le_rfl, fun hcomplete => absurd (hover.1.mp hcomplete) (by decide)⟩

end OpenClaw
