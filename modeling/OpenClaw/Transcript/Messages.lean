import OpenClaw.Config.Value

/-!
# Messages of a transcript

A message is the parsed value as it stands in the session file, so whatever is not looked at is
kept. What is no object has no role.
-/

namespace OpenClaw

open Json

/-- `value[key]` where it is a string. -/
def stringField? (value : Json) (key : Str) : Option Str :=
  match value.get? key with
  | some (.string text) => some text
  | _ => none

/-- `{ ...value, [key]: text }`. -/
def withStringField (value : Json) (key text : Str) : Json :=
  match value with
  | .object entries => .object (insert entries key (.string text))
  | _ => .object [(key, .string text)]

variable (msg : Json)

def messageRole : Option Str := stringField? msg "role".toList

def isAssistant : Bool := messageRole msg = some "assistant".toList

def isToolResult : Bool := messageRole msg = some "toolResult".toList

/-! ## Tool calls -/

structure ToolCallLike where
  id : Str
  name : Option Str
deriving DecidableEq

/-- `TOOL_CALL_TYPES`. -/
def toolCallTypes : List Str := ["toolCall".toList, "toolUse".toList, "functionCall".toList]

/-- The call in a block of an assistant message. -/
def toolCallOfBlock? (block : Json) : Option ToolCallLike :=
  match stringField? block "id".toList, stringField? block "type".toList with
  | some id, some type =>
    if id ≠ [] ∧ type ∈ toolCallTypes then some ⟨id, stringField? block "name".toList⟩ else none
  | _, _ => none

def extractToolCallsFromAssistant : List ToolCallLike :=
  match msg.get? "content".toList with
  | some (.array blocks) => blocks.filterMap toolCallOfBlock?
  | _ => []

def assistantHasToolCalls : Bool :=
  isAssistant msg && !(extractToolCallsFromAssistant msg).isEmpty

def extractToolResultId : Option Str :=
  ((stringField? msg "toolCallId".toList).filter (· ≠ [])).or
    ((stringField? msg "toolUseId".toList).filter (· ≠ []))

/-! ## Fields -/

theorem get?_withStringField {value : Json} (h : value.isObject = true) (key text : Str) :
    (withStringField value key text).get? key = some (.string text) := by
  obtain ⟨entries, rfl⟩ := isObject_iff.mp h
  exact lookup_insert entries key _

theorem get?_withStringField_of_ne {value : Json} (h : value.isObject = true) {key key' : Str}
    (hne : key' ≠ key) (text : Str) : (withStringField value key text).get? key' = value.get? key' := by
  obtain ⟨entries, rfl⟩ := isObject_iff.mp h
  exact lookup_insert_of_ne entries _ hne

theorem isObject_of_stringField? {value : Json} {key text : Str}
    (h : stringField? value key = some text) : value.isObject = true := by
  cases value with
  | object entries => rfl
  | _ => cases h

theorem stringField?_withStringField {value : Json} (h : value.isObject = true) (key text : Str) :
    stringField? (withStringField value key text) key = some text := by
  rw [stringField?, get?_withStringField h]

theorem stringField?_withStringField_of_ne {value : Json} (h : value.isObject = true)
    {key key' : Str} (hne : key' ≠ key) (text : Str) :
    stringField? (withStringField value key text) key' = stringField? value key' := by
  rw [stringField?, get?_withStringField_of_ne h hne, stringField?]

theorem not_isToolResult_of_isAssistant {msg : Json} (h : isAssistant msg = true) :
    isToolResult msg = false := by
  have hrole := of_decide_eq_true h
  rw [isToolResult, hrole]
  rfl

theorem not_assistantHasToolCalls_of_isToolResult {msg : Json} (h : isToolResult msg = true) :
    assistantHasToolCalls msg = false := by
  cases hassistant : isAssistant msg with
  | false => rw [assistantHasToolCalls, hassistant, Bool.false_and]
  | true =>
    rw [not_isToolResult_of_isAssistant hassistant] at h
    cases h

end OpenClaw
