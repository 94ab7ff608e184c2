/-!
# Splitting text

The pieces of a text between the occurrences of a character, as strings.

Principal results
* `intercalate_pieces` — the pieces, with the character between neighbours, are the text;
* `length_splitOn` — there is one piece more than there are cuts.
-/

namespace PureContracts.Text

/-- The pieces of a text between the occurrences of `mark`. -/
def pieces (mark : Char) (text : String) : List String :=
  (text.toList.splitOn mark).map String.ofList

theorem map_toList_pieces (mark : Char) (text : String) :
    (pieces mark text).map String.toList = text.toList.splitOn mark := by
  rw [pieces, List.map_map]
  exact (List.map_congr_left fun piece _ => String.toList_ofList).trans (List.map_id _)

/-- The pieces, with the character between neighbours, are the text. -/
theorem intercalate_pieces (mark : Char) (text : String) :
    List.intercalate [mark] ((pieces mark text).map String.toList) = text.toList := by
  rw [map_toList_pieces, List.intercalate_splitOn]

/-- There is one piece more than there are cuts. -/
theorem length_splitOn (mark : Char) (text : List Char) :
    (text.splitOn mark).length = text.count mark + 1 := by
  induction text with
  | nil => rfl
  | cons c rest ih =>
    rw [List.splitOn_cons_eq_if_modifyHead]
    by_cases h : c = mark
    · simp [h, ih]
    · simp [h, ih, List.length_modifyHead]

end PureContracts.Text
