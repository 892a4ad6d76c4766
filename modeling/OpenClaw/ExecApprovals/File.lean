import OpenClaw.Lib.Keyed
import OpenClaw.Text.Json

/-!
# The exec approvals file

The data of `exec-approvals.ts`: the policy of every agent and the allowlist of commands it
may run. The file is written by several programs and edited by hand, so a field that ought to
hold one of three words may hold anything, and an allowlist may hold bare patterns or
entries without one.
-/

namespace OpenClaw

/-! ## Policies -/

inductive ExecSecurity where
  | deny | allowlist | full
deriving DecidableEq

inductive ExecAsk where
  | off | onMiss | always
deriving DecidableEq

/-- The value of a policy field in a parsed file; `other` is neither a string nor `null`. -/
inductive PolicyField where
  | unset
  | text (value : Str)
  | other (value : Json)

/-- `value === "deny" || …` on a trimmed value. -/
def execSecurity? (value : Str) : Option ExecSecurity :=
  if value = ("deny" : Str) then some .deny
  else if value = ("allowlist" : Str) then some .allowlist
  else if value = ("full" : Str) then some .full
  else none

def execAsk? (value : Str) : Option ExecAsk :=
  if value = ("off" : Str) then some .off
  else if value = ("on-miss" : Str) then some .onMiss
  else if value = ("always" : Str) then some .always
  else none

def ExecSecurity.text : ExecSecurity → Str
  | deny => "deny"
  | allowlist => "allowlist"
  | full => "full"

def ExecAsk.text : ExecAsk → Str
  | off => "off"
  | onMiss => "on-miss"
  | always => "always"

/-! ## Allowlists -/

/-- An entry with a pattern. The only source the code writes is `"allow-always"`. -/
structure ExecAllowlistEntry where
  id : Option Str
  pattern : Str
  source : Option Str
  commandText : Option Str
  argPattern : Option Str
  lastUsedAt : Option ℕ
  lastUsedCommand : Option Str
  lastResolvedPath : Option Str
deriving DecidableEq

/-- What an element of an allowlist can be in a parsed file: an entry, a bare pattern of the
older format, or anything else. -/
inductive AllowlistItem where
  | entry (value : ExecAllowlistEntry)
  | text (value : Str)
  | invalid (value : Json)

/-- The entry of an item, when it is one. -/
def AllowlistItem.entry? : AllowlistItem → Option ExecAllowlistEntry
  | .entry value => some value
  | _ => none

def allowAlways : Str := "allow-always"

/-! ## Agents -/

/-- The `allowlist` of an agent is `none` when it is missing or no array. -/
structure ExecApprovalsAgent where
  security : PolicyField
  ask : PolicyField
  askFallback : PolicyField
  autoAllowSkills : Option Bool
  allowlist : Option (List AllowlistItem)

/-- The agent `{}`. -/
def ExecApprovalsAgent.empty : ExecApprovalsAgent := ⟨.unset, .unset, .unset, none, none⟩

structure ExecApprovalsDefaults where
  security : PolicyField
  ask : PolicyField
  askFallback : PolicyField
  autoAllowSkills : Option Bool

structure ExecApprovalsSocket where
  path : Option Str
  token : Option Str
deriving DecidableEq

/-- The agents of a file in the order of its record. -/
abbrev ExecApprovalsAgents := Keyed (Str × ExecApprovalsAgent) Prod.fst

structure ExecApprovalsFile where
  socket : ExecApprovalsSocket
  defaults : ExecApprovalsDefaults
  agents : ExecApprovalsAgents

def defaultAgentId : Str := "main"

/-- The older name of the default agent. -/
def legacyAgentId : Str := "default"

/-- `file.agents?.[key] ?? {}`. -/
def ExecApprovalsFile.agent (file : ExecApprovalsFile) (key : Str) : ExecApprovalsAgent :=
  ((file.agents.find key).map Prod.snd).getD .empty

end OpenClaw
