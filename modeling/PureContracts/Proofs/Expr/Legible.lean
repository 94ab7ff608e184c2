import PureContracts.Expr.Render
import PureContracts.Proofs.Text.Balance
import PureContracts.Proofs.Text.Separation

/-!
# Expressions can be read off their text

The text of an expression is a word, a group in parentheses, or a list in brackets behind a stem.
Which of them it is, and where its parts begin and end, shows as soon as brackets are counted: the
last group of brackets starts at one place only, and a blank, comma or colon separates the parts of
that group unless it stands deeper inside.

* `punctuation`, `IsWord`, `IsType` — the texts that an expression may hold.
* `Legible` — expressions that hold such texts only.
* `Solid` — texts with blanks, commas and colons inside brackets only.
* `Shape` — the text of an expression with its outermost parts told apart.

Principal results
* `Shape.Sound.chars_inj` — a text has one shape;
* `Legible.sound` — the parts of a legible expression are kept apart by its text;
* `legible_render_injective` — legible expressions with one text are equal.
-/

namespace PureContracts.Expr

open Text

/-! ## Legible expressions -/

/-- The characters that the printer puts around words. -/
def punctuation : List Char := [' ', '(', ')', '[', ']', '\x7b', '\x7d', ',', ':']

/-- A text that is not empty and holds no punctuation. -/
structure IsWord (text : String) : Prop where
  ne_empty : text ≠ ""
  plain : ∀ c ∈ text.toList, c ∉ punctuation

theorem isWord_iff {text : String} :
    IsWord text ↔ text ≠ "" ∧ text.toList.all (· ∉ punctuation) = true := by
  rw [List.all_eq_true]
  constructor
  · exact fun h => ⟨h.ne_empty, fun c hc => decide_eq_true (h.plain c hc)⟩
  · exact fun h => ⟨h.1, fun c hc => of_decide_eq_true (h.2 c hc)⟩

instance (text : String) : Decidable (IsWord text) := decidable_of_iff _ isWord_iff.symm

/-- The characters of words, with square brackets that are balanced. -/
inductive IsType : List Char → Prop where
  | nil : IsType []
  | plain {c : Char} {rest : List Char} : c ∉ punctuation → IsType rest → IsType (c :: rest)
  | bracketed {inner rest : List Char} :
      IsType inner → IsType rest → IsType ('[' :: (inner ++ ']' :: rest))

/-- An expression in which literals and operators are words, and element types are made of words
and balanced square brackets. -/
inductive Legible : Expr → Prop where
  | literal {source : String} : IsWord source → Legible (.literal source)
  | unary {operator : String} {operand : Expr} :
      IsWord operator → Legible operand → Legible (.unary operator operand)
  | binary {left right : Expr} {operator : String} :
      Legible left → IsWord operator → Legible right → Legible (.binary left operator right)
  | conditional {condition whenTrue whenFalse : Expr} :
      Legible condition → Legible whenTrue → Legible whenFalse →
      Legible (.conditional condition whenTrue whenFalse)
  | sequence {elementType : String} {elements : List Expr} :
      IsType elementType.toList → (∀ element ∈ elements, Legible element) →
      Legible (.sequence elementType elements)
  | slice {whole : Expr} {low high : Option Expr} :
      Legible whole → (∀ bound ∈ low, Legible bound) → (∀ bound ∈ high, Legible bound) →
      Legible (.slice whole low high)
  | call {callee : Expr} {arguments : List Expr} :
      Legible callee → (∀ argument ∈ arguments, Legible argument) →
      Legible (.call callee arguments)

/-! ## Solid texts -/

/-- Opening brackets weigh one, closing brackets minus one. -/
def bracketWeight (c : Char) : Int :=
  if c = '(' ∨ c = '[' ∨ c = '\x7b' then 1
  else if c = ')' ∨ c = ']' ∨ c = '\x7d' then -1
  else 0

/-- The punctuation that separates. -/
def separators : List Char := [' ', ',', ':']

theorem bracketWeight_plain {c : Char} (h : c ∉ punctuation) : bracketWeight c = 0 := by
  simp only [punctuation, List.mem_cons, List.not_mem_nil, or_false, not_or] at h
  simp [bracketWeight, h]

theorem bracketWeight_separator {mark : Char} (h : mark ∈ separators) : bracketWeight mark = 0 := by
  simp only [separators, List.mem_cons, List.not_mem_nil, or_false] at h
  rcases h with rfl | rfl | rfl <;> rfl

theorem separator_mem_punctuation {mark : Char} (h : mark ∈ separators) : mark ∈ punctuation := by
  simp only [separators, List.mem_cons, List.not_mem_nil, or_false] at h
  rcases h with rfl | rfl | rfl <;> decide

/-- A text that is not empty and has blanks, commas and colons inside brackets only. -/
structure Solid (text : List Char) : Prop where
  ne_nil : text ≠ []
  sealed : ∀ mark ∈ separators, Sealed bracketWeight mark text

theorem Solid.balanced {text : List Char} (h : Solid text) : Balanced bracketWeight text :=
  (h.sealed ' ' (by decide)).toBalanced

theorem sealed_of_plain {text : List Char} (h : ∀ c ∈ text, c ∉ punctuation) :
    ∀ mark ∈ separators, Sealed bracketWeight mark text := by
  intro mark hmark
  apply sealed_of_notMem
  · exact balanced_of_weightless fun c hc => bracketWeight_plain (h c hc)
  · intro hmem
    exact h mark hmem (separator_mem_punctuation hmark)

theorem solid_of_plain {text : List Char} (hne : text ≠ []) (h : ∀ c ∈ text, c ∉ punctuation) :
    Solid text :=
  ⟨hne, sealed_of_plain h⟩

theorem IsWord.solid {text : String} (h : IsWord text) : Solid text.toList := by
  refine solid_of_plain ?_ h.plain
  intro hnil
  exact h.ne_empty (String.toList_eq_nil_iff.mp hnil)

/-- Brackets around a balanced text, behind nothing or a solid text, make a solid text. -/
theorem solid_enclose {stem inner : List Char} {opening closing : Char}
    (hstem : ∀ mark ∈ separators, Sealed bracketWeight mark stem)
    (hinner : Balanced bracketWeight inner) (hopening : bracketWeight opening = 1)
    (hclosing : bracketWeight closing = -1) : Solid (stem ++ opening :: (inner ++ [closing])) := by
  refine ⟨by simp, ?_⟩
  intro mark hmark
  have hgroup := hinner.sealed_enclose hopening hclosing (bracketWeight_separator hmark)
  exact (hstem mark hmark).append hgroup

theorem IsType.sealed {text : List Char} (h : IsType text) :
    ∀ mark ∈ separators, Sealed bracketWeight mark text := by
  induction h with
  | nil => exact sealed_of_plain (by simp)
  | @plain c rest hc _ ih =>
    intro mark hmark
    have hfirst : Sealed bracketWeight mark [c] := sealed_of_plain (by simpa using hc) mark hmark
    exact hfirst.append (ih mark hmark)
  | @bracketed inner rest _ _ ihinner ihrest =>
    intro mark hmark
    have hinner := (ihinner ' ' (by decide)).toBalanced
    have hgroup : Sealed bracketWeight mark ('[' :: (inner ++ [']'])) :=
      hinner.sealed_enclose rfl rfl (bracketWeight_separator hmark)
    have happended := hgroup.append (ihrest mark hmark)
    simpa using happended

/-! ## Shapes -/

/-- The text of an expression with its outermost parts told apart. -/
inductive Shape where
  | word (text : List Char)
  /-- Parts with blanks between them, in parentheses. -/
  | group (parts : List (List Char))
  /-- Items with commas between them, in brackets behind a stem. -/
  | listing (stem : List Char) (opening closing : Char) (items : List (List Char))

/-- The characters of a shape. -/
def Shape.chars : Shape → List Char
  | .word text => text
  | .group parts => '(' :: (List.intercalate [' '] parts ++ [')'])
  | .listing stem opening closing items =>
    stem ++ opening :: (List.intercalate comma items ++ [closing])

/-- The shape of an expression. -/
def shape : Expr → Shape
  | .literal source => .word source.toList
  | .unary operator operand => .group [operator.toList, operand.chars]
  | .binary left operator right => .group [left.chars, operator.toList, right.chars]
  | .conditional condition whenTrue whenFalse =>
    .group [condition.chars, ['?'], whenTrue.chars, [':'], whenFalse.chars]
  | .sequence elementType elements =>
    .listing ("seq".toList ++ '[' :: (elementType.toList ++ [']'])) '\x7b' '\x7d'
      (elements.map chars)
  | .slice whole low high =>
    .group [whole.chars ++ '[' :: (charsBound low ++ ':' :: charsBound high ++ [']'])]
  | .call callee arguments => .listing callee.chars '(' ')' (arguments.map chars)

theorem chars_shape (expr : Expr) : expr.shape.chars = expr.chars := by
  cases expr <;> simp [shape, Shape.chars, chars, charsAll_eq_map, List.intercalate_cons_cons]

/-- A shape whose parts are kept apart by its text. -/
inductive Shape.Sound : Shape → Prop where
  | word {text : List Char} : text ≠ [] → (∀ c ∈ text, c ∉ punctuation) → Sound (.word text)
  | group {parts : List (List Char)} :
      parts ≠ [] → (∀ part ∈ parts, Sealed bracketWeight ' ' part) → Sound (.group parts)
  | listing {stem : List Char} {opening closing : Char} {items : List (List Char)} :
      Solid stem → bracketWeight opening = 1 → bracketWeight closing = -1 →
      (∀ item ∈ items, Solid item) → Sound (.listing stem opening closing items)

theorem balanced_group {parts : List (List Char)}
    (h : ∀ part ∈ parts, Sealed bracketWeight ' ' part) :
    Balanced bracketWeight (List.intercalate [' '] parts) :=
  .intercalate (balanced_of_weightless (by simp [bracketWeight])) fun part hpart =>
    (h part hpart).toBalanced

theorem balanced_listing {items : List (List Char)} (h : ∀ item ∈ items, Solid item) :
    Balanced bracketWeight (List.intercalate comma items) :=
  .intercalate (balanced_of_weightless (by simp [comma, bracketWeight])) fun item hitem =>
    (h item hitem).balanced

theorem Shape.Sound.solid {shape : Shape} (h : shape.Sound) : Solid shape.chars := by
  cases h with
  | word hne hplain => exact solid_of_plain hne hplain
  | group _ hparts =>
    have hnil : ∀ mark ∈ separators, Sealed bracketWeight mark [] := sealed_of_plain (by simp)
    exact solid_enclose hnil (balanced_group hparts) rfl rfl
  | listing hstem hopening hclosing hitems =>
    exact solid_enclose hstem.sealed (balanced_listing hitems) hopening hclosing

/-! ## A text has one shape -/

/-- The group of brackets that a text ends in is known by the text. -/
theorem enclosed_unique {stem other inner inside : List Char} {opening closing start stop : Char}
    (hopening : bracketWeight opening = 1) (hstart : bracketWeight start = 1)
    (hinner : Balanced bracketWeight inner) (hinside : Balanced bracketWeight inside)
    (h : stem ++ opening :: (inner ++ [closing]) = other ++ start :: (inside ++ [stop])) :
    stem = other ∧ opening = start ∧ closing = stop ∧ inner = inside := by
  rw [← List.cons_append, ← List.append_assoc, ← List.cons_append, ← List.append_assoc] at h
  obtain ⟨hgroup, hlast⟩ := List.append_inj' h rfl
  obtain ⟨hstem, hfirst, hbetween⟩ := lastGroup_unique hopening hstart hinner hinside hgroup
  exact ⟨hstem, hfirst, List.singleton_inj.mp hlast, hbetween⟩

/-- A word is no text that ends in a closing bracket. -/
theorem plain_ne_enclosed {text stem inner : List Char} {opening closing : Char}
    (h : ∀ c ∈ text, c ∉ punctuation) (hclosing : bracketWeight closing = -1) :
    text ≠ stem ++ opening :: (inner ++ [closing]) := by
  rintro rfl
  have hplain := bracketWeight_plain (h closing (by simp))
  omega

theorem items_eq_of_intercalate_eq {first second : List (List Char)}
    (hfirst : ∀ item ∈ first, Solid item) (hsecond : ∀ item ∈ second, Solid item)
    (h : List.intercalate comma first = List.intercalate comma second) : first = second := by
  have hnil : ∀ {items : List (List Char)}, (∀ item ∈ items, Solid item) →
      List.intercalate comma items = [] → items = [] := by
    intro items hitems hjoined
    match items, hitems, hjoined with
    | [], _, _ => rfl
    | [item], hitems, hjoined =>
      rw [List.intercalate_singleton] at hjoined
      exact absurd hjoined (hitems item (by simp)).ne_nil
    | item :: next :: rest, _, hjoined => simp [List.intercalate_cons_cons, comma] at hjoined
  by_cases hempty : first = []
  · rw [hempty, List.intercalate_nil] at h
    rw [hempty, hnil hsecond h.symm]
  · have hempty' : second ≠ [] := by
      rintro rfl
      exact hempty (hnil hfirst h)
    exact Sealed.intercalate_inj (fun item hitem => (hfirst item hitem).sealed ',' (by decide))
      (fun item hitem => (hsecond item hitem).sealed ',' (by decide)) hempty hempty' h

/-- A group is a listing behind nothing, as far as its brackets go. -/
theorem Shape.chars_group (parts : List (List Char)) :
    (Shape.group parts).chars = [] ++ '(' :: (List.intercalate [' '] parts ++ [')']) := rfl

/-- **A text has one shape.** -/
theorem Shape.Sound.chars_inj {first second : Shape} (hfirst : first.Sound)
    (hsecond : second.Sound) (h : first.chars = second.chars) : first = second := by
  cases hfirst with
  | word _ hplain =>
    cases hsecond with
    | word _ _ => exact congrArg Shape.word h
    | group _ _ =>
      rw [chars_group] at h
      exact absurd h (plain_ne_enclosed hplain rfl)
    | listing _ _ hclosing _ => exact absurd h (plain_ne_enclosed hplain hclosing)
  | group hne hparts =>
    have hbalanced := balanced_group hparts
    rw [chars_group] at h
    cases hsecond with
    | word _ hplain => exact absurd h.symm (plain_ne_enclosed hplain rfl)
    | group hne' hparts' =>
      rw [chars_group] at h
      obtain ⟨-, -, -, hinner⟩ := enclosed_unique rfl rfl hbalanced (balanced_group hparts') h
      rw [Sealed.intercalate_inj hparts hparts' hne hne' hinner]
    | listing hstem hopening _ hitems =>
      obtain ⟨hnil, -⟩ := enclosed_unique rfl hopening hbalanced (balanced_listing hitems) h
      exact absurd hnil.symm hstem.ne_nil
  | listing hstem hopening hclosing hitems =>
    have hbalanced := balanced_listing hitems
    cases hsecond with
    | word _ hplain => exact absurd h.symm (plain_ne_enclosed hplain hclosing)
    | group _ hparts =>
      rw [chars_group] at h
      obtain ⟨hnil, -⟩ := enclosed_unique hopening rfl hbalanced (balanced_group hparts) h
      exact absurd hnil hstem.ne_nil
    | listing _ hopening' _ hitems' =>
      obtain ⟨rfl, rfl, rfl, hinner⟩ := enclosed_unique hopening hopening' hbalanced
        (balanced_listing hitems') h
      rw [items_eq_of_intercalate_eq hitems hitems' hinner]

/-! ## Legible expressions have sound shapes -/

theorem sealed_charsBound {bound : Option Expr} (h : ∀ expr ∈ bound, Solid expr.chars) :
    ∀ mark ∈ separators, Sealed bracketWeight mark (charsBound bound) := by
  cases bound with
  | none => exact sealed_of_plain (by simp [charsBound])
  | some expr => exact (h expr rfl).sealed

/-- The two bounds of a slice, with the colon between them, are balanced. -/
theorem balanced_bounds {low high : Option Expr} (hlow : ∀ expr ∈ low, Solid expr.chars)
    (hhigh : ∀ expr ∈ high, Solid expr.chars) :
    Balanced bracketWeight (charsBound low ++ ':' :: charsBound high) := by
  have hcolon : Balanced bracketWeight [':'] := balanced_of_weightless (by simp [bracketWeight])
  have hlow' := (sealed_charsBound hlow ' ' (by decide)).toBalanced
  have hhigh' := (sealed_charsBound hhigh ' ' (by decide)).toBalanced
  simpa using hlow'.append (hcolon.append hhigh')

/-- **The parts of a legible expression are kept apart by its text.** -/
theorem Legible.sound {expr : Expr} (h : expr.Legible) : expr.shape.Sound := by
  -- The induction needs the parts to be solid, and a sound shape has a solid text.
  have hsolid : ∀ {part : Expr}, part.shape.Sound → Solid part.chars := by
    intro part hpart
    rw [← chars_shape]
    exact hpart.solid
  have hpart : ∀ {part : Expr}, part.shape.Sound → Sealed bracketWeight ' ' part.chars :=
    fun hsound => (hsolid hsound).sealed ' ' (by decide)
  have hsign : ∀ sign : Char, sign = '?' ∨ sign = ':' → Sealed bracketWeight ' ' [sign] := by
    rintro sign (rfl | rfl) <;>
      exact sealed_of_notMem (balanced_of_weightless (by simp [bracketWeight])) (by decide)
  induction h with
  | literal hsource => exact .word hsource.solid.ne_nil hsource.plain
  | unary hoperator _ ih =>
    refine .group (by simp) ?_
    simp only [List.forall_mem_cons, List.not_mem_nil, false_implies, implies_true, and_true]
    exact ⟨hoperator.solid.sealed ' ' (by decide), hpart ih⟩
  | binary _ hoperator _ ihleft ihright =>
    refine .group (by simp) ?_
    simp only [List.forall_mem_cons, List.not_mem_nil, false_implies, implies_true, and_true]
    exact ⟨hpart ihleft, hoperator.solid.sealed ' ' (by decide), hpart ihright⟩
  | conditional _ _ _ ihcondition ihtrue ihfalse =>
    refine .group (by simp) ?_
    simp only [List.forall_mem_cons, List.not_mem_nil, false_implies, implies_true, and_true]
    exact ⟨hpart ihcondition, hsign '?' (.inl rfl), hpart ihtrue, hsign ':' (.inr rfl),
      hpart ihfalse⟩
  | sequence htype _ ih =>
    have hinner := (htype.sealed ' ' (by decide)).toBalanced
    have hstem : Solid ("seq".toList ++ '[' :: (_ ++ [']'])) :=
      solid_enclose (sealed_of_plain (by simp [punctuation])) hinner rfl rfl
    refine .listing hstem rfl rfl ?_
    intro item hitem
    obtain ⟨element, helement, rfl⟩ := List.mem_map.mp hitem
    exact hsolid (ih element helement)
  | slice _ _ _ ihwhole ihlow ihhigh =>
    have hbounds := balanced_bounds (fun bound hbound => hsolid (ihlow bound hbound))
      (fun bound hbound => hsolid (ihhigh bound hbound))
    have hsliced : Solid (_ ++ '[' :: (_ ++ [']'])) :=
      solid_enclose (hsolid ihwhole).sealed hbounds rfl rfl
    refine .group (by simp) ?_
    simpa using hsliced.sealed ' ' (by decide)
  | call _ _ ihcallee ih =>
    refine .listing (hsolid ihcallee) rfl rfl ?_
    intro item hitem
    obtain ⟨argument, hargument, rfl⟩ := List.mem_map.mp hitem
    exact hsolid (ih argument hargument)

theorem Legible.solid {expr : Expr} (h : expr.Legible) : Solid expr.chars := by
  rw [← chars_shape]
  exact h.sound.solid

/-! ## Reading an expression off its text -/

theorem shape_eq_of_chars_eq {first second : Expr} (hfirst : first.Legible)
    (hsecond : second.Legible) (h : first.chars = second.chars) : first.shape = second.shape := by
  apply hfirst.sound.chars_inj hsecond.sound
  rw [chars_shape, chars_shape, h]

theorem bound_eq_of_charsBound_eq {first second : Option Expr}
    (hfirst : ∀ expr ∈ first, expr.Legible) (hsecond : ∀ expr ∈ second, expr.Legible)
    (hinj : ∀ expr ∈ first, ∀ other ∈ second, expr.chars = other.chars → expr = other)
    (h : charsBound first = charsBound second) : first = second := by
  cases first with
  | none =>
    cases second with
    | none => rfl
    | some other => exact absurd h.symm (hsecond other rfl).solid.ne_nil
  | some expr =>
    cases second with
    | none => exact absurd h (hfirst expr rfl).solid.ne_nil
    | some other => rw [hinj expr rfl other rfl h]

/-- The bounds of a slice and what it is taken of can be read off its part. -/
theorem slice_parts_unique {whole other : List Char} {low high low' high' : Option Expr}
    (hlow : ∀ expr ∈ low, expr.Legible) (hhigh : ∀ expr ∈ high, expr.Legible)
    (hlow' : ∀ expr ∈ low', expr.Legible) (hhigh' : ∀ expr ∈ high', expr.Legible)
    (h : whole ++ '[' :: (charsBound low ++ ':' :: charsBound high ++ [']']) =
      other ++ '[' :: (charsBound low' ++ ':' :: charsBound high' ++ [']'])) :
    whole = other ∧ charsBound low = charsBound low' ∧ charsBound high = charsBound high' := by
  have hsolid : ∀ {bound : Option Expr}, (∀ expr ∈ bound, expr.Legible) →
      ∀ expr ∈ bound, Solid expr.chars := fun hbound expr hexpr => (hbound expr hexpr).solid
  have hbalanced := balanced_bounds (hsolid hlow) (hsolid hhigh)
  have hbalanced' := balanced_bounds (hsolid hlow') (hsolid hhigh')
  obtain ⟨hwhole, -, -, hbounds⟩ := enclosed_unique rfl rfl hbalanced hbalanced' h
  have hcut := Sealed.cut_unique (sealed_charsBound (hsolid hlow) ':' (by decide))
    (sealed_charsBound (hsolid hlow') ':' (by decide)) hbounds
  exact ⟨hwhole, hcut.1, hcut.2⟩

/-- **Legible expressions with the same characters are equal.** -/
theorem Legible.eq_of_chars_eq {first second : Expr} (hfirst : first.Legible)
    (hsecond : second.Legible) (h : first.chars = second.chars) : first = second := by
  -- Of two expressions with one shape, both are built alike and their parts have the same texts.
  induction hfirst generalizing second with
  | literal hsource =>
    have hshape := shape_eq_of_chars_eq (.literal hsource) hsecond h
    cases hsecond with
    | literal _ =>
      rw [shape, shape, Shape.word.injEq, String.toList_inj] at hshape
      rw [hshape]
    | _ => cases hshape
  | unary hoperator hoperand ih =>
    have hshape := shape_eq_of_chars_eq (.unary hoperator hoperand) hsecond h
    cases hsecond with
    | unary _ hoperand' =>
      simp only [shape, Shape.group.injEq, List.cons.injEq, and_true, String.toList_inj] at hshape
      obtain ⟨rfl, htext⟩ := hshape
      rw [ih hoperand' htext]
    | _ => simp [shape] at hshape
  | binary hleft hoperator hright ihleft ihright =>
    have hshape := shape_eq_of_chars_eq (.binary hleft hoperator hright) hsecond h
    cases hsecond with
    | binary hleft' _ hright' =>
      simp only [shape, Shape.group.injEq, List.cons.injEq, and_true, String.toList_inj] at hshape
      obtain ⟨hlefts, rfl, hrights⟩ := hshape
      rw [ihleft hleft' hlefts, ihright hright' hrights]
    | _ => simp [shape] at hshape
  | conditional hcondition htrue hfalse ihcondition ihtrue ihfalse =>
    have hshape := shape_eq_of_chars_eq (.conditional hcondition htrue hfalse) hsecond h
    cases hsecond with
    | conditional hcondition' htrue' hfalse' =>
      simp only [shape, Shape.group.injEq, List.cons.injEq, and_true, true_and] at hshape
      obtain ⟨hconditions, htrues, hfalses⟩ := hshape
      rw [ihcondition hcondition' hconditions, ihtrue htrue' htrues, ihfalse hfalse' hfalses]
    | _ => simp [shape] at hshape
  | sequence htype helements ih =>
    have hshape := shape_eq_of_chars_eq (.sequence htype helements) hsecond h
    cases hsecond with
    | sequence _ helements' =>
      simp only [shape, Shape.listing.injEq, true_and] at hshape
      obtain ⟨hstem, hitems⟩ := hshape
      have htypes := List.append_cancel_right (List.cons.inj (List.append_cancel_left hstem)).2
      have helements_eq := eq_of_map_eq (fun element helement other hother =>
        ih element helement (helements' other hother)) hitems
      rw [String.toList_inj.mp htypes, helements_eq]
    | _ => simp [shape] at hshape
  | slice hwhole hlow hhigh ihwhole ihlow ihhigh =>
    have hshape := shape_eq_of_chars_eq (.slice hwhole hlow hhigh) hsecond h
    cases hsecond with
    | slice hwhole' hlow' hhigh' =>
      simp only [shape, Shape.group.injEq, List.cons.injEq, and_true] at hshape
      obtain ⟨hwholes, hlows, hhighs⟩ := slice_parts_unique hlow hhigh hlow' hhigh' hshape
      have hlow_eq := bound_eq_of_charsBound_eq hlow hlow' (fun bound hbound other hother =>
        ihlow bound hbound (hlow' other hother)) hlows
      have hhigh_eq := bound_eq_of_charsBound_eq hhigh hhigh' (fun bound hbound other hother =>
        ihhigh bound hbound (hhigh' other hother)) hhighs
      rw [ihwhole hwhole' hwholes, hlow_eq, hhigh_eq]
    | _ => simp [shape] at hshape
  | call hcallee harguments ihcallee ih =>
    have hshape := shape_eq_of_chars_eq (.call hcallee harguments) hsecond h
    cases hsecond with
    | call hcallee' harguments' =>
      simp only [shape, Shape.listing.injEq, true_and] at hshape
      obtain ⟨hcallees, hitems⟩ := hshape
      have harguments_eq := eq_of_map_eq (fun argument hargument other hother =>
        ih argument hargument (harguments' other hother)) hitems
      rw [ihcallee hcallee' hcallees, harguments_eq]
    | _ => simp [shape] at hshape

/-- **Legible expressions with one text are equal.** -/
theorem legible_render_injective {first second : Expr} (hfirst : first.Legible)
    (hsecond : second.Legible) (h : first.render = second.render) : first = second :=
  hfirst.eq_of_chars_eq hsecond (String.ofList_inj.mp h)

/-- A slice of the literal `seq`, whose text goes on like that of a sequence.  Its only bound calls
a sequence of an element type in square brackets. -/
def sliceOfSeq : Expr :=
  .slice (.literal "seq") none
    (some (.call (.sequence "[]int" [.literal "?"]) [.unary "-" (.literal "1"), .literal "x"]))

theorem legible_sliceOfSeq : sliceOfSeq.Legible := by
  have htype : IsType "[]int".toList :=
    .bracketed .nil (.plain (by decide) (.plain (by decide) (.plain (by decide) .nil)))
  have hcall : Legible (.call (.sequence "[]int" [.literal "?"])
      [.unary "-" (.literal "1"), .literal "x"]) := by
    refine .call (.sequence htype ?_) ?_
    · simpa using Legible.literal (by decide)
    · simpa using And.intro (Legible.unary (by decide) (.literal (by decide)))
        (Legible.literal (by decide))
  refine .slice (.literal (by decide)) ?_ ?_
  · simp
  · simpa using hcall

/-- The test for emptiness has the text of the comparison that it stands for, and is that
comparison. -/
theorem legible_render_injective_slice :
    (isEmpty sliceOfSeq).Legible ∧
      (isEmpty sliceOfSeq).render = "(len((seq[:seq[[]int]\x7b?\x7d((- 1), x)])) == 0)" ∧
      isEmpty sliceOfSeq =
        .binary (.call (.literal "len") [sliceOfSeq]) "==" (.literal "0") := by
  have hlegible : (isEmpty sliceOfSeq).Legible := by
    refine .binary (.call (.literal (by decide)) ?_) (by decide) (.literal (by decide))
    simpa using legible_sliceOfSeq
  exact ⟨hlegible, by decide +kernel, legible_render_injective hlegible hlegible rfl⟩

end PureContracts.Expr
