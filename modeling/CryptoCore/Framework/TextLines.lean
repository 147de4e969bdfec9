import Mathlib.Data.List.Basic

/-!
# Lines of a text

A text cut at its separators. A separator ends a line, so that there is no empty line behind the
last one, and the last line may lack it.

This is how a program reads lines from a stream: it takes everything up to the next separator, drops
the separator, and stops when nothing is left. `lines_of_ne_nil` is one step of that loop, and
`length_drop_dropWhile_lt` the reason why the loop ends. A text of one separator is one empty line,
and the empty text has no line at all.

The separator is a parameter and belongs to no line. Other characters that end lines, such as a
carriage return in front of the separator, stay in the line, and are for the user to remove.
-/

namespace TextLines

variable {α : Type*} [DecidableEq α]

/-- The lines of a text, without their separators. -/
def lines (separator : α) : List α → List (List α)
  | [] => []
  | c :: rest =>
      if c = separator then [] :: lines separator rest
      else match lines separator rest with
        | [] => [[c]]
        | line :: later => (c :: line) :: later

@[simp] lemma lines_nil (separator : α) : lines separator [] = [] := rfl

@[simp] lemma lines_eq_nil_iff {separator : α} {text : List α} :
    lines separator text = [] ↔ text = [] := by
  cases text with
  | nil => exact iff_of_true rfl rfl
  | cons c rest =>
      refine iff_of_false ?_ nofun
      rw [lines]
      split
      · exact nofun
      · split <;> exact nofun

/-- The first line, up to the first separator, and the lines behind it. -/
lemma lines_of_ne_nil (separator : α) {text : List α} (h : text ≠ []) :
    lines separator text = text.takeWhile (· != separator) ::
      lines separator ((text.dropWhile (· != separator)).drop 1) := by
  induction text with
  | nil => exact absurd rfl h
  | cons c rest ih =>
      rw [lines]
      by_cases hc : c = separator
      · have hstop : (c != separator) = false := bne_eq_false_iff_eq.mpr hc
        rw [if_pos hc, List.takeWhile_cons, List.dropWhile_cons, hstop]
        rfl
      · have hgo : (c != separator) = true := bne_iff_ne.mpr hc
        rw [if_neg hc, List.takeWhile_cons, List.dropWhile_cons, hgo, if_pos rfl, if_pos rfl]
        cases rest with
        | nil => rfl
        | cons d rest => rw [ih (List.cons_ne_nil d rest)]

/-- The text behind the first line is shorter. -/
lemma length_drop_dropWhile_lt (separator : α) {text : List α} (h : text ≠ []) :
    ((text.dropWhile (· != separator)).drop 1).length < text.length := by
  have hle := (List.dropWhile_sublist (l := text) (· != separator)).length_le
  have hpos := List.length_pos_iff.mpr h
  rw [List.length_drop]
  omega

end TextLines
