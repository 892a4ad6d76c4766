import OpenClaw.Lib.Keyed

/-!
# Remembered answers

A memo keeps answers under their keys. When it has more than its limit it forgets all but
the last one. Whatever is true of each answer when it is remembered is true of each answer
that is found later, whatever was forgotten in between.
-/

/-- Answers under keys, in the order in which the keys came. -/
abbrev Memo (κ β : Type*) := Keyed (κ × β) Prod.fst

namespace Memo

variable {κ β : Type*} [DecidableEq κ] {P Q : κ → β → Prop} {m : Memo κ β} {k : κ} {b : β}

def get (m : Memo κ β) (k : κ) : Option β := (m.find k).map Prod.snd

/-- Sets an answer, and clears the memo around it when the limit is passed. -/
def remember (limit : ℕ) (m : Memo κ β) (k : κ) (b : β) : Memo κ β :=
  if limit < (m.set (k, b)).entries.length then Keyed.set .empty (k, b) else m.set (k, b)

/-- A relation between keys and answers that all answers of the memo satisfy. -/
def Sound (P : κ → β → Prop) (m : Memo κ β) : Prop := ∀ e ∈ m.entries, P e.1 e.2

omit [DecidableEq κ] in
theorem sound_empty : Sound P (.empty : Memo κ β) := fun _ he => absurd he List.not_mem_nil

theorem Sound.get (h : Sound P m) (hget : m.get k = some b) : P k b := by
  obtain ⟨e, he, rfl⟩ := Option.map_eq_some_iff.mp hget
  obtain ⟨hmem, rfl⟩ := Keyed.find_eq_some_iff.mp he
  exact h e hmem

omit [DecidableEq κ] in
theorem Sound.mono (h : Sound P m) (himp : ∀ k b, P k b → Q k b) : Sound Q m :=
  fun e he => himp _ _ (h e he)

theorem Sound.set (h : Sound P m) (hb : P k b) : Sound P (Keyed.set m (k, b)) := by
  intro e he
  rcases Keyed.mem_set.mp he with rfl | ⟨hold, -⟩
  · exact hb
  · exact h e hold

theorem Sound.remember (h : Sound P m) (hb : P k b) (limit : ℕ) :
    Sound P (m.remember limit k b) := by
  unfold Memo.remember
  split_ifs
  · exact sound_empty.set hb
  · exact h.set hb

end Memo
