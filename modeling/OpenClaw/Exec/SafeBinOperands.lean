import OpenClaw.Exec.SafeBinKeepsOut

/-!
# The operands of a validated safe bin

The validator goes along with the program over the whole list. The count it checks leaves the
empty operands out, so an upper limit is kept only as long as there are none; and an option that
the profile takes for an abbreviation lets a denied option or a path through as its value.
-/

namespace OpenClaw

open List Option OptionGrammar

variable {profile : SafeBinProfile} {grammar : OptionGrammar}

/-! ## The whole list -/

/-- The operands that the validator counts. -/
def counted (texts : List Str) : List Str := texts.filter fun text => text ≠ [] ∧ text ≠ ("-" : Str)

theorem operands_append (items others : List CommandItem) :
    operands (items ++ others) = operands items ++ operands others := filterMap_append

theorem operands_map_operand (texts : List Str) : operands (texts.map .operand) = texts := by
  unfold operands
  rw [filterMap_map]
  exact filterMap_some

theorem counted_cons (text : Str) (texts : List Str) :
    counted (text :: texts) = counted [text] ++ counted texts := by
  unfold counted
  rw [← filter_append, singleton_append]

theorem counted_singleton {text : Str} (hne : text ≠ []) (hstdin : text ≠ ("-" : Str)) :
    counted [text] = [text] := by
  have hcounted : decide (text ≠ [] ∧ text ≠ ("-" : Str)) = true := decide_eq_true ⟨hne, hstdin⟩
  exact filter_cons_of_pos hcounted

variable {positional result : List Str} {items : List CommandItem}

/-- A token that is taken as an operand. -/
theorem consumePositionalToken_eq_some {token : Str}
    (h : consumePositionalToken token positional = some result) :
    FreeText token ∧ result = positional ++ [token] := by
  unfold consumePositionalToken at h
  by_cases hsafe : isSafeLiteralToken token = true
  · rw [if_pos hsafe] at h
    exact ⟨freeText_of_isSafeLiteralToken hsafe, (some.inj h).symm⟩
  · rw [if_neg hsafe] at h
    exact nomatch h

theorem collectRest_eq_some {rest : List Str} (h : collectRest rest positional = some result) :
    (∀ text ∈ rest, FreeText text) ∧ result = positional ++ counted rest := by
  induction rest generalizing positional with
  | nil =>
    rw [← some.inj h]
    simp [counted]
  | cons token rest ih =>
    rw [collectRest] at h
    by_cases hskip : token = [] ∨ token = ("-" : Str)
    · rw [if_pos hskip] at h
      obtain ⟨hfree, hresult⟩ := ih h
      have hcounted : counted [token] = [] := by
        rcases hskip with rfl | rfl <;> rfl
      have htoken : FreeText token := by
        apply freeText_of_isSafeLiteralToken
        rw [isSafeLiteralToken, if_pos hskip]
      refine ⟨forall_mem_cons.mpr ⟨htoken, hfree⟩, ?_⟩
      rw [counted_cons, hcounted]
      exact hresult
    · rw [if_neg hskip] at h
      cases hconsume : consumePositionalToken token positional with
      | none =>
        rw [hconsume] at h
        exact nomatch h
      | some taken =>
        rw [hconsume] at h
        obtain ⟨hfree, hresult⟩ := ih h
        obtain ⟨htoken, htaken⟩ := consumePositionalToken_eq_some hconsume
        have hcounted : counted [token] = [token] :=
          counted_singleton (fun hempty => hskip (.inl hempty)) fun hstdin => hskip (.inr hstdin)
        refine ⟨forall_mem_cons.mpr ⟨htoken, hfree⟩, ?_⟩
        rw [counted_cons, hcounted, hresult, htaken, append_assoc]

/-- What the program reads in an accepted list: kept items, and the operands counted. -/
def ReadsAs (profile : SafeBinProfile) (positional result : List Str)
    (items : List CommandItem) : Prop :=
  (∀ item ∈ items, ItemKept profile item) ∧ result = positional ++ counted (operands items)

theorem ReadsAs.append {others : List CommandItem} (hitems : ∀ item ∈ items, ItemKept profile item)
    (h : ReadsAs profile (positional ++ counted (operands items)) result others) :
    ReadsAs profile positional result (items ++ others) := by
  constructor
  · intro item hitem
    rcases mem_append.mp hitem with hitem | hitem
    · exact hitems item hitem
    · exact h.1 item hitem
  · have hresult := h.2
    rw [operands_append]
    unfold counted at hresult ⊢
    rw [filter_append, ← append_assoc]
    exact hresult

theorem ReadsAs.cons_operand {text : Str} (htext : FreeText text)
    (h : ReadsAs profile (positional ++ counted [text]) result items) :
    ReadsAs profile positional result (.operand text :: items) := by
  have hone : ∀ item ∈ [CommandItem.operand text], ItemKept profile item := by
    intro item hitem
    rw [mem_singleton.mp hitem]
    exact htext
  exact ReadsAs.append hone h

/-- Items without operands in front leave the count as it is. -/
theorem ReadsAs.append_options {others : List CommandItem}
    (hitems : ∀ item ∈ items, ItemKept profile item) (hoperands : operands items = [])
    (h : ReadsAs profile positional result others) :
    ReadsAs profile positional result (items ++ others) := by
  apply ReadsAs.append hitems
  rw [hoperands]
  simpa [counted] using h

/-- The validator and the program go over a clear list together. -/
theorem readsAs_of_collectLoop (hderived : profile.Derived) (hfits : FitsProfile grammar profile)
    (n : ℕ) {args : List Str} (hn : args.length ≤ n) (hclear : ClearFor profile grammar args)
    (h : collectLoop profile args positional = some result)
    (hparse : grammar.parse args = some items) : ReadsAs profile positional result items := by
  induction n generalizing args positional items with
  | zero =>
    rw [length_eq_zero_iff.mp (Nat.le_zero.mp hn)] at h hparse
    rw [← some.inj h, ← some.inj hparse]
    exact ⟨by simp, by simp [counted, operands]⟩
  | succ n ih =>
    cases args with
    | nil =>
      rw [← some.inj h, ← some.inj hparse]
      exact ⟨by simp, by simp [counted, operands]⟩
    | cons arg rest =>
      have hrest : rest.length ≤ n := Nat.le_of_succ_le_succ hn
      have hbehind : ClearFor profile grammar rest :=
        fun arg harg => hclear arg (mem_cons_of_mem _ harg)
      -- an operand for the program: it is skipped, or counted
      have hoperand : ∀ {positional : List Str}, arg.head? ≠ some '-' ∨ arg = ['-'] →
          FreeText arg → collectLoop profile rest (positional ++ counted [arg]) = some result →
          ReadsAs profile positional result items := by
        intro positional harg hfree hloop
        rw [grammar.parse_operand harg] at hparse
        obtain ⟨behind, hbehind_items, rfl⟩ := Option.map_eq_some_iff.mp hparse
        exact ReadsAs.cons_operand hfree (ih hrest hbehind hloop hbehind_items)
      -- an option: the program reads it as the validator does
      have hoption : IsOption arg → arg ≠ ['-', '-'] →
          ReadsAs profile positional result items := by
        intro harg hne
        cases hread : grammar.readArg arg with
        | none =>
          rw [parse_cons_none hne hread] at hparse
          cases hparse
        | some reading =>
          obtain ⟨own, pending⟩ := reading
          have hagrees : ∀ {consumed : Consumed},
              consumeOption profile rest.head? (parseExecArgvToken arg) = some consumed →
              AgreesWith profile rest.head? consumed (own, pending) := fun hconsume =>
            agreesWith_option hderived hfits (hclear arg (mem_cons_self ..)) hconsume hread
          rcases collectLoop_option hderived harg h with
            ⟨hconsume, hloop⟩ | ⟨value, others, hsplit, hconsume, hloop⟩
          · cases pending with
            | some flag => exact (hagrees hconsume).elim
            | none =>
              obtain ⟨hown, hoperands⟩ := hagrees hconsume
              rw [parse_cons_own hne hread] at hparse
              obtain ⟨behind, hbehind_items, rfl⟩ := Option.map_eq_some_iff.mp hparse
              exact ReadsAs.append_options hown hoperands (ih hrest hbehind hloop hbehind_items)
          · cases pending with
            | none => exact (hagrees hconsume).elim
            | some flag =>
              obtain ⟨hown, hoperands, hdenied, value', hvalue', hsafe⟩ := hagrees hconsume
              rw [hsplit] at hvalue' hrest hbehind
              rw [hsplit, parse_cons_value hne hread] at hparse
              obtain ⟨behind, hbehind_items, rfl⟩ := Option.map_eq_some_iff.mp hparse
              have hothers : others.length ≤ n := by
                rw [length_cons] at hrest
                omega
              have hvalue : value' = value := (some.inj hvalue').symm
              rw [hvalue] at hsafe
              have hflag : ItemKept profile (.option flag (some value)) := by
                refine ⟨hdenied, ?_⟩
                intro text htext
                rw [← some.inj htext]
                exact freeText_of_isSafeLiteralToken hsafe
              have hclear_others : ClearFor profile grammar others :=
                fun arg harg => hbehind arg (mem_cons_of_mem _ harg)
              have hreads := ih hothers hclear_others hloop hbehind_items
              have hone : ∀ item ∈ [CommandItem.option flag (some value)],
                  ItemKept profile item := by
                intro item hitem
                rw [mem_singleton.mp hitem]
                exact hflag
              exact ReadsAs.append_options hown hoperands (ReadsAs.append_options hone rfl hreads)
      have hkind := argKind arg
      cases hkind with
      | empty =>
        have hloop : collectLoop profile rest positional = some result := h
        apply hoperand (.inl (by simp)) ⟨rfl, rfl, by decide⟩
        simpa [counted] using hloop
      | stdin =>
        have hloop : collectLoop profile rest positional = some result := h
        apply hoperand (.inr rfl) ⟨by decide, by decide, by decide⟩
        simpa [counted] using hloop
      | terminator =>
        rw [parse_terminator] at hparse
        have hcollect : collectRest rest positional = some result := h
        obtain ⟨hfree, hresult⟩ := collectRest_eq_some hcollect
        rw [← some.inj hparse]
        refine ⟨?_, ?_⟩
        · intro item hitem
          obtain ⟨text, htext, rfl⟩ := mem_map.mp hitem
          exact hfree text htext
        · rw [operands_map_operand]
          exact hresult
      | @operand c text hc =>
        have hhead : (c :: text).head? ≠ some '-' := by simpa using hc
        rw [collectLoop, parseExecArgvToken_operand hc] at h
        dsimp only at h
        cases hconsume : consumePositionalToken (c :: text) positional with
        | none =>
          rw [hconsume] at h
          cases h
        | some taken =>
          rw [hconsume] at h
          obtain ⟨hfree, htaken⟩ := consumePositionalToken_eq_some hconsume
          have hcounted : counted [c :: text] = [c :: text] := by
            have hstdin : c :: text ≠ ("-" : Str) := by
              rintro heq
              exact hc (List.cons.inj heq).1
            exact counted_singleton (by simp) hstdin
          apply hoperand (.inl hhead) hfree
          rw [hcounted, ← htaken]
          exact h
      | @long c text =>
        exact hoption (.inl ⟨_, _, parseExecArgvToken_long c text⟩) (by simp)
      | @cluster c text hc =>
        exact hoption (.inr ⟨_, _, parseExecArgvToken_cluster hc text⟩) (by simp [hc])

end OpenClaw
