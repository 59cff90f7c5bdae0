import Mathlib.Data.List.Basic

/-! Texts that come in pieces: greedy scanning from left to right, and items that join with
their neighbours. -/

open List

namespace VllmAmpere

section greedy

variable {χ τ : Type} (next : List χ → List τ × Nat)

/-- What a scan puts out: at each position `next` gives the outputs there and how many letters
it takes besides the first. -/
def greedy : Nat → List χ → List τ
  | _, [] => []
  | skip + 1, _ :: rest => greedy skip rest
  | 0, c :: rest => (next (c :: rest)).1 ++ greedy (next (c :: rest)).2 rest

theorem greedy_skip (skip : Nat) (text : List χ) :
    greedy next skip text = greedy next 0 (text.drop skip) := by
  induction skip generalizing text with
  | zero => rfl
  | succ skip ih =>
    cases text with
    | nil => rfl
    | cons c rest => rw [greedy, ih, drop_succ_cons]

theorem greedy_cons (c : χ) (rest : List χ) : greedy next 0 (c :: rest) =
    (next (c :: rest)).1 ++ greedy next 0 (rest.drop (next (c :: rest)).2) := by
  rw [greedy, greedy_skip]

theorem greedy_letters (letter : χ → τ) (text rest : List χ)
    (plain : ∀ i < text.length, ∃ c, text[i]? = some c ∧
    next (text.drop i ++ rest) = ([letter c], 0)) :
    greedy next 0 (text ++ rest) = text.map letter ++ greedy next 0 rest := by
  induction text with
  | nil => rfl
  | cons c text ih =>
    obtain ⟨_, here, first⟩ := plain 0 (Nat.zero_lt_succ _)
    cases here
    rw [drop_zero, cons_append] at first
    rw [cons_append, greedy_cons, first, drop_zero, ih fun i lt => ?_]
    · rfl
    · have ⟨d, there, later⟩ := plain (i + 1) (Nat.succ_lt_succ lt)
      exact ⟨d, there, later⟩

end greedy

section mergeRuns

variable {α : Type} (join : α → α → Option α)

def mergeRuns : List α → List α
  | [] => []
  | a :: rest =>
    match mergeRuns rest with
    | [] => [a]
    | b :: more =>
      match join a b with
      | some c => c :: more
      | none => a :: b :: more

theorem mergeRuns_cons (a : α) {rest rest' : List α} (h : mergeRuns join rest = mergeRuns join rest') :
    mergeRuns join (a :: rest) = mergeRuns join (a :: rest') := by
  rw [mergeRuns, mergeRuns, h]

theorem mergeRuns_spell (spell : α → List α) (items : List α)
    (spelled : ∀ a ∈ items, ∀ rest, mergeRuns join (spell a ++ rest) = mergeRuns join (a :: rest)) :
    mergeRuns join (items.flatMap spell) = mergeRuns join items := by
  induction items with
  | nil => rfl
  | cons a rest ih =>
    rw [flatMap_cons, spelled a mem_cons_self]
    exact mergeRuns_cons join a (ih fun b mem => spelled b (mem_cons_of_mem a mem))

end mergeRuns

end VllmAmpere
