import PureContracts.Text.Split

/-!
# Taking joined text apart again

A text that was put together from pieces can be taken apart at a mark that occurs in none of them.
Every printer of the library keeps to that, so what it wrote can be read off its text.

Principal results
* `eq_of_map_eq` — a list is known by the images of its members, when each member is;
* `cut_unique` — a list is cut at the first occurrence of a mark in one way only;
* `length_intercalate` — a joined text is as long as its pieces and the separators between them;
* `count_intercalate` — how often a mark occurs that joins pieces without it;
* `intercalate_inj` — joined pieces can be told apart, but for one empty piece from none;
* `intercalate_flatMap` — groups of pieces that are joined, and then joined again, are joined
  pieces.
-/

namespace PureContracts.Text

/-- A list is known by the images of its members, when each member is known by its image. -/
theorem eq_of_map_eq {α β : Type} {f : α → β} {first second : List α}
    (hinj : ∀ a ∈ first, ∀ b ∈ second, f a = f b → a = b) (h : first.map f = second.map f) :
    first = second := by
  induction first generalizing second with
  | nil => simpa [eq_comm] using h
  | cons a first ih =>
    cases second with
    | nil => cases h
    | cons b second =>
      rw [List.map_cons, List.map_cons, List.cons.injEq] at h
      have hhead : a = b := hinj a List.mem_cons_self b List.mem_cons_self h.1
      have htail : first = second := by
        refine ih (fun c hc d hd => ?_) h.2
        exact hinj c (List.mem_cons_of_mem a hc) d (List.mem_cons_of_mem b hd)
      rw [hhead, htail]

/-- A list is cut at the first occurrence of a mark in one way only. -/
theorem cut_unique {α : Type} {mark : α} {first second later rest : List α}
    (hfirst : mark ∉ first) (hsecond : mark ∉ second)
    (h : first ++ mark :: later = second ++ mark :: rest) : first = second ∧ later = rest := by
  induction first generalizing second with
  | nil =>
    cases second with
    | nil => simpa using h
    | cons c second =>
      rw [List.nil_append, List.cons_append, List.cons.injEq] at h
      exact absurd (h.1 ▸ List.mem_cons_self) hsecond
  | cons c first ih =>
    cases second with
    | nil =>
      rw [List.nil_append, List.cons_append, List.cons.injEq] at h
      exact absurd (h.1 ▸ List.mem_cons_self) hfirst
    | cons d second =>
      rw [List.cons_append, List.cons_append, List.cons.injEq] at h
      rw [List.mem_cons, not_or] at hfirst hsecond
      obtain ⟨rfl, rfl⟩ := ih hfirst.2 hsecond.2 h.2
      exact ⟨by rw [h.1], rfl⟩

/-- A joined text is as long as its pieces and the separators between them. -/
theorem length_intercalate (separator : List Char) (pieces : List (List Char)) :
    (List.intercalate separator pieces).length =
      (pieces.length - 1) * separator.length + pieces.flatten.length := by
  induction pieces with
  | nil => simp
  | cons piece rest ih =>
    cases rest with
    | nil => simp
    | cons next rest =>
      rw [List.intercalate_cons_cons, List.length_append, List.length_append, ih]
      simp only [List.flatten_cons, List.length_append, List.length_cons, Nat.add_sub_cancel,
        Nat.succ_mul]
      omega

theorem notMem_intercalate {separator : List Char} {pieces : List (List Char)} {c : Char}
    (hseparator : c ∉ separator) (h : ∀ piece ∈ pieces, c ∉ piece) :
    c ∉ List.intercalate separator pieces := by
  induction pieces with
  | nil => simp
  | cons piece rest ih =>
    rw [List.forall_mem_cons] at h
    cases rest with
    | nil => rw [List.intercalate_singleton]; exact h.1
    | cons next rest =>
      rw [List.intercalate_cons_cons, List.mem_append, List.mem_append, not_or, not_or]
      exact ⟨⟨h.1, hseparator⟩, ih h.2⟩

/-- With one more separator behind the last piece there is one behind each piece. -/
theorem intercalate_append_separator {separator : List Char} {pieces : List (List Char)}
    (hne : pieces ≠ []) :
    List.intercalate separator pieces ++ separator =
      pieces.flatMap fun piece => piece ++ separator := by
  induction pieces with
  | nil => exact absurd rfl hne
  | cons piece rest ih =>
    cases rest with
    | nil => simp
    | cons next rest =>
      rw [List.intercalate_cons_cons, List.append_assoc, ih (List.cons_ne_nil _ _)]
      rfl

/-- A mark that occurs in no piece occurs between neighbours only. -/
theorem count_intercalate {mark : Char} {pieces : List (List Char)}
    (h : ∀ piece ∈ pieces, mark ∉ piece) :
    (List.intercalate [mark] pieces).count mark = pieces.length - 1 := by
  by_cases hne : pieces = []
  · rw [hne]
    rfl
  · have hlength := length_splitOn mark (List.intercalate [mark] pieces)
    rw [List.splitOn_intercalate mark h hne] at hlength
    omega

/-- Joined pieces can be told apart, but for one empty piece from none. -/
theorem intercalate_inj {mark : Char} {first second : List (List Char)}
    (hfirst : ∀ piece ∈ first, mark ∉ piece) (hsecond : ∀ piece ∈ second, mark ∉ piece)
    (hfirst_ne : first ≠ [[]]) (hsecond_ne : second ≠ [[]])
    (h : List.intercalate [mark] first = List.intercalate [mark] second) : first = second := by
  have hsplit := congrArg (List.splitOn mark) h
  by_cases hnil : first = []
  · by_cases hnil' : second = []
    · rw [hnil, hnil']
    · rw [hnil, List.splitOn_intercalate mark hsecond hnil'] at hsplit
      exact absurd hsplit.symm hsecond_ne
  · rw [List.splitOn_intercalate mark hfirst hnil] at hsplit
    by_cases hnil' : second = []
    · rw [hnil'] at hsplit
      exact absurd hsplit hfirst_ne
    · rw [List.splitOn_intercalate mark hsecond hnil'] at hsplit
      exact hsplit

/-! ## Groups of pieces -/

theorem intercalate_append {separator : List Char} {first second : List (List Char)}
    (hfirst : first ≠ []) (hsecond : second ≠ []) :
    List.intercalate separator (first ++ second) =
      List.intercalate separator first ++ separator ++ List.intercalate separator second := by
  induction first with
  | nil => exact absurd rfl hfirst
  | cons piece rest ih =>
    cases rest with
    | nil =>
      obtain ⟨next, more, rfl⟩ := List.exists_cons_of_ne_nil hsecond
      rw [List.singleton_append, List.intercalate_cons_cons, List.intercalate_singleton]
    | cons next rest =>
      simp only [List.cons_append, List.intercalate_cons_cons, List.append_assoc] at ih ⊢
      rw [ih (List.cons_ne_nil _ _)]

/-- Groups of pieces that are joined, and then joined again, are joined pieces. -/
theorem intercalate_flatMap {α : Type} {separator : List Char} {group : α → List (List Char)}
    (hgroup : ∀ a, group a ≠ []) (items : List α) :
    List.intercalate separator (items.flatMap group) =
      List.intercalate separator (items.map fun a => List.intercalate separator (group a)) := by
  induction items with
  | nil => rfl
  | cons a rest ih =>
    cases rest with
    | nil => simp
    | cons b rest =>
      have hrest : (b :: rest).flatMap group ≠ [] := by simp [hgroup b]
      rw [List.flatMap_cons, intercalate_append (hgroup a) hrest, ih]
      exact (List.intercalate_cons_of_ne_nil (by simp)).symm

end PureContracts.Text
