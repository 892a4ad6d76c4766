import OpenClaw.Config.EnvSubstitution

/-!
# Writing environment references back

`restoreEnvVarRefs` of `env-preserve.ts` walks the new configuration beside the parsed one and
puts a template back where it still resolves to the new string. A string that looks like a
reference and does not stand where its template stood is read as a reference the next time.
-/

namespace OpenClaw

open Json List Option

/-! ## The restorer -/

/-- The name in `$${name}`. -/
def escapedName? : Str → Option Str
  | '$' :: '$' :: '{' :: start => envVarName? start
  | _ => none

/-- The name in `${name}`. -/
def substitutedName? : Str → Option Str
  | '$' :: '{' :: start => envVarName? start
  | _ => none

def tryResolveFrom (env : Str → Option Str) : Nat → Str → Option Str
  | _, [] => some []
  | skip + 1, _ :: rest => tryResolveFrom env skip rest
  | 0, c :: rest =>
    match escapedName? (c :: rest) with
    | some name => (tryResolveFrom env (name.length + 3) rest).map (placeholder name ++ ·)
    | none =>
      match substitutedName? (c :: rest) with
      | some name =>
        (envValue env name).bind fun value =>
          (tryResolveFrom env (name.length + 2) rest).map (value ++ ·)
      | none => (tryResolveFrom env 0 rest).map (c :: ·)

def tryResolveString (env : Str → Option Str) (template : Str) : Option Str :=
  tryResolveFrom env 0 template

mutual

/-- There is nothing to restore from a parsed `null`. -/
def restoreEnvVarRefs (env : Str → Option Str) : Json → Json → Json
  | .string incoming, .string parsed =>
    if hasEnvVarRef parsed then
      if tryResolveString env parsed = some incoming then .string parsed else .string incoming
    else .string incoming
  | .array incoming, .array parsed => .array (restoreArrayRefs env incoming parsed)
  | .object incoming, .object parsed => .object (restoreObjectRefs env incoming parsed)
  | incoming, _ => incoming

def restoreArrayRefs (env : Str → Option Str) : List Json → List Json → List Json
  | item :: incoming, value :: parsed =>
    restoreEnvVarRefs env item value :: restoreArrayRefs env incoming parsed
  | incoming, [] => incoming
  | [], _ => []

/-- A method of the prototype is nothing to restore from either. -/
def restoreObjectRefs (env : Str → Option Str) :
    List (Str × Json) → List (Str × Json) → List (Str × Json)
  | [], _ => []
  | (key, value) :: incoming, parsed =>
    (key,
      match lookup parsed key with
      | some parsedValue => restoreEnvVarRefs env value parsedValue
      | none => value) :: restoreObjectRefs env incoming parsed

end

variable {env : Str → Option Str}

/-! ## The two scanners agree -/

theorem parseEnvTokenAt_eq (text : Str) : parseEnvTokenAt text = match escapedName? text with
    | some name => some (.escaped name)
    | none => (substitutedName? text).map .substitution := by
  unfold parseEnvTokenAt
  split
  · rename_i start
    rw [escapedName?, substitutedName?]
    · cases envVarName? start <;> rfl
    · intro start' heq
      cases heq
  · rw [escapedName?, substitutedName?]
    intro start heq
    cases heq
  · rename_i hescaped hsubstituted
    rw [escapedName?, substitutedName?]
    · rfl
    · exact hsubstituted
    · exact hescaped

theorem toOption_map (result : Except MissingEnvVarError Str) (f : Str → Str) :
    (result.map f).toOption = result.toOption.map f := by
  cases result <;> rfl

theorem tryResolveFrom_eq (path : Str) (skip : Nat) (template : Str) :
    tryResolveFrom env skip template = (substituteFrom env path skip template).toOption := by
  induction template generalizing skip with
  | nil => cases skip <;> rfl
  | cons c rest ih =>
    cases skip with
    | succ skip => exact ih skip
    | zero =>
      rw [tryResolveFrom, substituteFrom, parseEnvTokenAt_eq]
      cases escapedName? (c :: rest) with
      | some name =>
        dsimp only
        rw [ih, toOption_map]
      | none =>
        cases substitutedName? (c :: rest) with
        | some name =>
          dsimp only [map_some]
          cases envValue env name with
          | none => rfl
          | some value =>
            dsimp only [bind_some]
            rw [ih, toOption_map]
        | none =>
          dsimp only [map_none]
          rw [ih, toOption_map]

theorem tryResolveString_eq_some_iff {template value : Str} (path : Str) :
    tryResolveString env template = some value ↔
      substituteString env path template = .ok value := by
  have hfrom : substituteString env path template = substituteFrom env path 0 template := by
    unfold substituteString
    split_ifs with hdollar
    · rfl
    · refine (substituteFrom_of_not_hasEnvVarRef ?_ path).symm
      cases href : hasEnvVarRef template with
      | false => rfl
      | true => exact absurd (dollar_mem_of_hasEnvVarRef href) hdollar
  rw [tryResolveString, tryResolveFrom_eq path, hfrom]
  cases substituteFrom env path 0 template with
  | error error => simp [Except.toOption]
  | ok resolved => simp [Except.toOption]

/-! ## One step into the restored value -/

/-- `restoreEnvVarRefs` where the parsed value may be missing. -/
def restoreFrom (env : Str → Option Str) (incoming : Json) : Option Json → Json
  | some parsed => restoreEnvVarRefs env incoming parsed
  | none => incoming

theorem restoreArrayRefs_eq (incoming parsed : List Json) : restoreArrayRefs env incoming parsed =
      incoming.mapIdx fun index item => restoreFrom env item parsed[index]? := by
  induction incoming generalizing parsed with
  | nil => cases parsed <;> rfl
  | cons item incoming ih =>
    cases parsed with
    | nil =>
      rw [restoreArrayRefs]
      simp [restoreFrom, mapIdx_eq_zipIdx_map]
    | cons value parsed =>
      rw [restoreArrayRefs, ih, mapIdx_cons]
      simp [restoreFrom]

theorem restoreFrom_array (items : List Json) (parsed : Option Json) :
    restoreFrom env (.array items) parsed = .array (items.mapIdx fun index item =>
      restoreFrom env item (parsed.bind (·.child (.index index)))) := by
  have hnone : items = items.mapIdx fun _ item => restoreFrom env item none := by
    simp [restoreFrom, mapIdx_eq_zipIdx_map]
  cases parsed with
  | none => exact congrArg Json.array hnone
  | some value =>
    cases value with
    | array values =>
      rw [restoreFrom, restoreEnvVarRefs, restoreArrayRefs_eq]
      rfl
    | _ => exact congrArg Json.array hnone

theorem restoreObjectRefs_eq (incoming parsed : List (Str × Json)) :
    restoreObjectRefs env incoming parsed =
      incoming.map fun entry => (entry.1, restoreFrom env entry.2 (lookup parsed entry.1)) := by
  induction incoming with
  | nil => rfl
  | cons entry incoming ih =>
    rw [restoreObjectRefs, ih, map_cons]
    cases lookup parsed entry.1 <;> rfl

theorem restoreFrom_object (entries : List (Str × Json)) (parsed : Option Json) :
    restoreFrom env (.object entries) parsed = .object (entries.map fun entry =>
      (entry.1, restoreFrom env entry.2 (parsed.bind (·.child (.key entry.1))))) := by
  have hnone : entries = entries.map fun entry => (entry.1, restoreFrom env entry.2 none) := by
    simp [restoreFrom]
  cases parsed with
  | none => exact congrArg Json.object hnone
  | some value =>
    cases value with
    | object values =>
      rw [restoreFrom, restoreEnvVarRefs, restoreObjectRefs_eq]
      rfl
    | _ => exact congrArg Json.object hnone

/-! ## Reading the restored value -/

theorem substituteItems_eq_ok_iff (f : Nat → Json → Json) (items : List Json) (path : Str)
    (index : Nat) : substituteItems env (items.mapIdx f) path index = .ok items ↔
      ∀ offset item, items[offset]? = some item →
        substituteAny env (f offset item) (childPath path (.index (index + offset))) = .ok item := by
  induction items generalizing f index with
  | nil => simp [substituteItems]
  | cons item items ih =>
    have hshift : ∀ offset, index + (offset + 1) = index + 1 + offset := by
      intro offset
      omega
    have hall : (∀ offset item', (item :: items)[offset]? = some item' →
        substituteAny env (f offset item') (childPath path (.index (index + offset))) = .ok item') ↔
        substituteAny env (f 0 item) (childPath path (.index index)) = .ok item ∧
          substituteItems env (items.mapIdx fun offset => f (offset + 1)) path (index + 1) =
            .ok items := by
      rw [ih]
      constructor
      · intro h
        refine ⟨h 0 item rfl, fun offset item' hitem => ?_⟩
        rw [← hshift]
        exact h (offset + 1) item' hitem
      · rintro ⟨hfirst, hrest⟩ offset item' hitem
        cases offset with
        | zero =>
          cases hitem
          exact hfirst
        | succ offset =>
          rw [hshift]
          exact hrest offset item' hitem
    rw [hall, mapIdx_cons, substituteItems]
    cases substituteAny env (f 0 item) (childPath path (.index index)) with
    | error error => simp [bind, Except.bind]
    | ok resolved =>
      cases substituteItems env (items.mapIdx fun offset => f (offset + 1)) path (index + 1) with
      | error error => simp [bind, Except.bind]
      | ok rest => simp [bind, Except.bind, pure, Except.pure]

theorem substituteEntries_eq_ok_iff (f : Str × Json → Json) (entries : List (Str × Json))
    (path : Str) :
    substituteEntries env (entries.map fun entry => (entry.1, f entry)) path = .ok entries ↔
      ∀ entry ∈ entries,
        substituteAny env (f entry) (childPath path (.key entry.1)) = .ok entry.2 := by
  induction entries with
  | nil => simp [substituteEntries]
  | cons entry entries ih =>
    rw [forall_mem_cons, ← ih, map_cons, substituteEntries]
    cases substituteAny env (f entry) (childPath path (.key entry.1)) with
    | error error => simp [bind, Except.bind]
    | ok resolved =>
      cases substituteEntries env (entries.map fun entry => (entry.1, f entry)) path with
      | error error => simp [bind, Except.bind]
      | ok rest => simp [bind, Except.bind, pure, Except.pure, Prod.ext_iff]

/-- Every string with a reference resolves to itself, or stands where the parsed value has a
string that resolves to it. -/
def ReadsBack (env : Str → Option Str) (incoming : Json) (parsed : Option Json) : Prop :=
  ∀ place s, incoming.atPlace place = some (.string s) → hasEnvVarRef s = true →
    tryResolveString env s = some s ∨
      ∃ template, parsed.bind (·.atPlace place) = some (.string template) ∧
        tryResolveString env template = some s

theorem readsBack_iff_child {incoming : Json} (parsed : Option Json)
    (h : ∀ s, incoming ≠ .string s) : ReadsBack env incoming parsed ↔
      ∀ step value, incoming.child step = some value →
        ReadsBack env value (parsed.bind (·.child step)) := by
  have hbind : ∀ step place, parsed.bind (·.atPlace (step :: place)) =
      (parsed.bind (·.child step)).bind (·.atPlace place) := by
    intro step place
    cases parsed <;> rfl
  constructor
  · intro hreads step value hvalue place s hs
    rw [← hbind]
    apply hreads (step :: place)
    rw [atPlace_cons, hvalue]
    exact hs
  · intro hreads place s hs
    cases place with
    | nil => exact absurd (some.inj hs) (h s)
    | cons step place =>
      obtain ⟨value, hvalue, hrest⟩ := Option.bind_eq_some_iff.mp hs
      rw [hbind]
      exact hreads step value hvalue place s hrest

theorem substituteAny_restoreFrom_string (incoming : Str) (parsed : Option Json) (path : Str) :
    substituteAny env (restoreFrom env (.string incoming) parsed) path = .ok (.string incoming) ↔
      ReadsBack env (.string incoming) parsed := by
  have hok : ∀ value, substituteAny env (.string value) path = .ok (.string incoming) ↔
      tryResolveString env value = some incoming := by
    intro value
    rw [tryResolveString_eq_some_iff path, substituteAny]
    cases substituteString env path value <;> simp [Except.map]
  have hreads : ReadsBack env (.string incoming) parsed ↔
      (hasEnvVarRef incoming = true → tryResolveString env incoming = some incoming ∨
        ∃ template, parsed = some (.string template) ∧
          tryResolveString env template = some incoming) := by
    constructor
    · intro hreads href
      have hroot := hreads [] incoming rfl href
      cases parsed with
      | none => exact hroot
      | some value => exact hroot
    · intro hroot place s hs href
      cases place with
      | nil =>
        cases hs
        cases parsed with
        | none => exact hroot href
        | some value => exact hroot href
      | cons step place => cases step <;> cases hs
  have hplain : hasEnvVarRef incoming = false → tryResolveString env incoming = some incoming := by
    intro href
    exact (tryResolveString_eq_some_iff path).mpr (substituteString_of_not_hasEnvVarRef href path)
  rw [hreads]
  by_cases hrestored : ∃ template, parsed = some (.string template) ∧
      hasEnvVarRef template = true ∧ tryResolveString env template = some incoming
  · obtain ⟨template, rfl, href, hresolves⟩ := hrestored
    rw [restoreFrom, restoreEnvVarRefs, if_pos href, if_pos hresolves, hok]
    exact ⟨fun _ _ => .inr ⟨template, rfl, hresolves⟩, fun _ => hresolves⟩
  · have hkept : restoreFrom env (.string incoming) parsed = .string incoming := by
      cases parsed with
      | none => rfl
      | some value =>
        cases value with
        | string template =>
          rw [restoreFrom, restoreEnvVarRefs]
          split_ifs with href hresolves
          · exact absurd ⟨template, rfl, href, hresolves⟩ hrestored
          · rfl
          · rfl
        | _ => rfl
    rw [hkept, hok]
    constructor
    · intro hresolves _
      exact .inl hresolves
    · intro h
      cases href : hasEnvVarRef incoming with
      | false => exact hplain href
      | true =>
        rcases h href with hresolves | ⟨template, rfl, hresolves⟩
        · exact hresolves
        · -- the template has no reference, so it is the string itself
          cases htemplate : hasEnvVarRef template with
          | true => exact absurd ⟨template, rfl, htemplate, hresolves⟩ hrestored
          | false =>
            have hsame := (tryResolveString_eq_some_iff path).mpr
              (@substituteString_of_not_hasEnvVarRef env _ htemplate path)
            rw [hresolves] at hsame
            rw [← some.inj hsame] at hresolves
            exact hresolves

/-- The restored value reads back as the new one exactly if its strings do. -/
theorem substituteAny_restoreFrom_iff {incoming : Json} (parsed : Option Json) (path : Str)
    (hincoming : incoming.isDocument = true) :
    substituteAny env (restoreFrom env incoming parsed) path = .ok incoming ↔
      ReadsBack env incoming parsed := by
  induction incoming using inductionOn generalizing parsed path with
  | leaf incoming harray hobject =>
    by_cases hstring : ∃ s, incoming = .string s
    · obtain ⟨s, rfl⟩ := hstring
      exact substituteAny_restoreFrom_string s parsed path
    · have hleft : substituteAny env (restoreFrom env incoming parsed) path = .ok incoming := by
        cases incoming with
        | array items => exact absurd rfl (harray items)
        | object entries => exact absurd rfl (hobject entries)
        | string s => exact absurd ⟨s, rfl⟩ hstring
        | _ => cases parsed <;> rfl
      refine iff_of_true hleft ((readsBack_iff_child parsed fun s heq => hstring ⟨s, heq⟩).mpr ?_)
      intro step value hvalue
      rcases child_eq_some hvalue with ⟨entries, _, rfl, _⟩ | ⟨items, _, rfl, _⟩
      · exact absurd rfl (hobject entries)
      · exact absurd rfl (harray items)
  | array items ih =>
    have hok : ∀ result : Except MissingEnvVarError (List Json),
        result.map Json.array = .ok (.array items) ↔ result = .ok items := by
      intro result
      cases result <;> simp [Except.map]
    rw [restoreFrom_array, substituteAny, hok, substituteItems_eq_ok_iff,
      readsBack_iff_child parsed (by simp)]
    have hitems := isDocument_array_iff.mp hincoming
    constructor
    · intro h step value hvalue
      cases step with
      | key key => cases hvalue
      | index index =>
        have hmem := mem_of_getElem? hvalue
        exact (ih value hmem _ _ (hitems value hmem)).mp (h index value hvalue)
    · intro h index item hitem
      have hmem := mem_of_getElem? hitem
      exact (ih item hmem _ _ (hitems item hmem)).mpr (h (.index index) item hitem)
  | object entries ih =>
    have hok : ∀ result : Except MissingEnvVarError (List (Str × Json)),
        result.map Json.object = .ok (.object entries) ↔ result = .ok entries := by
      intro result
      cases result <;> simp [Except.map]
    rw [restoreFrom_object, substituteAny, hok, substituteEntries_eq_ok_iff,
      readsBack_iff_child parsed (by simp)]
    obtain ⟨hnodup, hentries⟩ := isDocument_object_iff.mp hincoming
    constructor
    · intro h step value hvalue
      cases step with
      | index index => cases hvalue
      | key key =>
        have hmem := mem_of_lookup hvalue
        exact (ih _ hmem _ _ (hentries _ hmem).2).mp (h _ hmem)
    · intro h entry hmem
      exact (ih entry hmem _ _ (hentries entry hmem).2).mpr
        (h (.key entry.1) entry.2 (lookup_of_mem hnodup hmem))

/-! ## The result -/

/-- What is written reads back as the new configuration exactly if every string with a reference
in it resolves to itself or stands where the parsed file has a string that resolves to it. -/
theorem resolveConfigEnvVars_restoreEnvVarRefs_iff {incoming : Json} (parsed : Json)
    (hincoming : incoming.isDocument = true) :
    resolveConfigEnvVars env (restoreEnvVarRefs env incoming parsed) = .ok incoming ↔
      ReadsBack env incoming (some parsed) :=
  substituteAny_restoreFrom_iff (some parsed) [] hincoming

/-- A new port beside an escaped placeholder. -/
theorem resolveConfigEnvVars_restoreEnvVarRefs_iff_port :
    let env := fun name => if name = "A".toList then some "1".toList else none
    let incoming := Json.object [("text".toList, .string "${A}".toList),
      ("port".toList, .number "2".toList)]
    let parsed := Json.object [("text".toList, .string "$${A}".toList),
      ("port".toList, .number "1".toList)]
    resolveConfigEnvVars env (restoreEnvVarRefs env incoming parsed) = .ok incoming ↔
      ReadsBack env incoming (some parsed) :=
  resolveConfigEnvVars_restoreEnvVarRefs_iff _ (by decide)

/-- The first of two elements is deleted, and the escape of the second is lost. -/
theorem exists_escape_lost :
    let env := fun name => if name = "A".toList then some "1".toList else none
    let parsed := Json.array [.string "x".toList, .string "$${A}".toList]
    resolveConfigEnvVars env parsed = .ok (.array [.string "x".toList, .string "${A}".toList]) ∧
      resolveConfigEnvVars env (restoreEnvVarRefs env (.array [.string "${A}".toList]) parsed) ≠
        .ok (.array [.string "${A}".toList]) := by
  intro env parsed
  refine ⟨rfl, ?_⟩
  have hread : resolveConfigEnvVars env
      (restoreEnvVarRefs env (.array [.string "${A}".toList]) parsed) =
        .ok (.array [.string "1".toList]) := rfl
  rw [hread]
  intro heq
  cases heq

end OpenClaw
