/-!
# Quoted words

The scanner keeps the quotes of a quoted word.  Where a type name is expected they are taken off
again, as `strip_quotes` does: one in front, and one behind of what is left.

Principal results
* `unquoted_quoted` — a word in quotes loses exactly them;
* `unquoted_of_plain` — a word without quotes stays as it is;
* `mem_of_mem_unquoted` — taking the quotes off brings no character in.
-/

namespace PureContracts.Text

/-- Takes a quote off the front. -/
def dropOpeningQuote : List Char → List Char
  | '"' :: rest => rest
  | text => text

/-- Takes a quote off the end. -/
def dropClosingQuote (text : List Char) : List Char :=
  if text.getLast? = some '"' then text.dropLast else text

/-- The text without one opening and one closing quote. -/
def unquoted (text : String) : String :=
  String.ofList (dropClosingQuote (dropOpeningQuote text.toList))

theorem unquoted_quoted (text : List Char) :
    unquoted (String.ofList ('"' :: text ++ ['"'])) = String.ofList text := by
  simp [unquoted, dropOpeningQuote, dropClosingQuote]

theorem unquoted_of_plain {text : String} (h : '"' ∉ text.toList) : unquoted text = text := by
  have hopen : dropOpeningQuote text.toList = text.toList := by
    unfold dropOpeningQuote
    split
    · next heq => rw [heq] at h; simp at h
    · rfl
  have hclose : dropClosingQuote text.toList = text.toList := by
    unfold dropClosingQuote
    rw [if_neg]
    exact fun hlast => h (List.mem_of_getLast? hlast)
  rw [unquoted, hopen, hclose, String.ofList_toList]

theorem mem_of_mem_dropOpeningQuote {text : List Char} {c : Char}
    (h : c ∈ dropOpeningQuote text) : c ∈ text := by
  unfold dropOpeningQuote at h
  split at h
  · exact List.mem_cons_of_mem _ h
  · exact h

theorem mem_of_mem_dropClosingQuote {text : List Char} {c : Char}
    (h : c ∈ dropClosingQuote text) : c ∈ text := by
  unfold dropClosingQuote at h
  split at h
  · exact (List.dropLast_sublist _).subset h
  · exact h

/-- Taking the quotes off brings no character in. -/
theorem mem_of_mem_unquoted {text : String} {c : Char} (h : c ∈ (unquoted text).toList) :
    c ∈ text.toList := by
  rw [unquoted, String.toList_ofList] at h
  exact mem_of_mem_dropOpeningQuote (mem_of_mem_dropClosingQuote h)

end PureContracts.Text
