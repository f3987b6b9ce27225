import Mathlib.Data.List.Basic

/-!
# Runs

The longest run of elements at the front of a list that pass a test, and what is behind it, where
the element that ends the run is known.
-/

namespace RatLang

variable {α : Type} {p : α → Bool}

theorem takeWhile_run {w rest : List α} (inside : ∀ c ∈ w, p c)
    (stops : ∀ d ∈ rest.head?, ¬p d) : (w ++ rest).takeWhile p = w := by
  rw [List.takeWhile_append_of_pos inside]
  cases rest with
  | nil => rw [List.takeWhile_nil, List.append_nil]
  | cons d more => rw [List.takeWhile_cons_of_neg (stops d rfl), List.append_nil]

theorem dropWhile_run {w rest : List α} (inside : ∀ c ∈ w, p c)
    (stops : ∀ d ∈ rest.head?, ¬p d) : (w ++ rest).dropWhile p = rest := by
  rw [List.dropWhile_append_of_pos inside]
  cases rest with
  | nil => rfl
  | cons d more => rw [List.dropWhile_cons_of_neg (stops d rfl)]

theorem takeWhile_stop {c : α} (stops : ¬p c) (w rest : List α) :
    (w ++ c :: rest).takeWhile p = w.takeWhile p := by
  induction w with
  | nil => exact List.takeWhile_cons_of_neg stops
  | cons d w ih => by_cases inside : p d <;> simp [inside, ih]

theorem dropWhile_stop {c : α} (stops : ¬p c) (w rest : List α) :
    (w ++ c :: rest).dropWhile p = w.dropWhile p ++ c :: rest := by
  induction w with
  | nil => exact List.dropWhile_cons_of_neg stops
  | cons d w ih => by_cases inside : p d <;> simp [inside, ih]

end RatLang
