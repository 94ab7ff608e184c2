import Mathlib.Data.List.Basic
import PureContracts.Json.View
import PureContracts.Proofs.Text.Separation

/-!
# JSON text is read in one way only

Every piece of a JSON text says by itself where it ends: a word or a string by its last character,
an array or an object by the bracket that comes in place of a further comma.  What follows the text
of a value therefore never changes which value it is, and neither the style of the text nor the
level at which it is written matters.

* `SelfDelimiting` — a value is known by any text that starts with its own.
* `unescaped` — reads a character of a string back.
* `Style.IsBlank` — styles that put nothing but blanks at line breaks.

Principal results
* `unescaped_escaped` — escaping a character can be undone;
* `bracketed_unique` — so can writing items in brackets, when each item delimits itself;
* `write_selfDelimiting` — every value delimits itself, in every style with blank line breaks;
* `definitionsJson_lossless` — the JSON text of functions and of expressions always exists and
  determines them.
-/

namespace PureContracts

namespace Json

/-- A value is known by any text that starts with its own, and so is what follows. -/
def SelfDelimiting {α : Type} (text : α → List Char) (a : α) : Prop :=
  ∀ b rest later, text a ++ rest = text b ++ later → a = b ∧ rest = later

/-! ## Strings -/

/-- The value of a hexadecimal digit. -/
def hexValue (c : Char) : Nat := if c.toNat < 58 then c.toNat - 48 else c.toNat - 87

theorem hexValue_digitChar : ∀ digit < 16, hexValue (Nat.digitChar digit) = digit := by decide

/-- Reads a character of a string back, and what follows it. -/
def unescaped : List Char → Option (Char × List Char)
  | [] => none
  | '\\' :: 'b' :: rest => some ('\x08', rest)
  | '\\' :: 'f' :: rest => some ('\x0c', rest)
  | '\\' :: 'n' :: rest => some ('\n', rest)
  | '\\' :: 'r' :: rest => some ('\r', rest)
  | '\\' :: 't' :: rest => some ('\t', rest)
  | '\\' :: 'u' :: '0' :: '0' :: high :: low :: rest =>
    some (Char.ofNat (16 * hexValue high + hexValue low), rest)
  | '\\' :: c :: rest => some (c, rest)
  | c :: rest => some (c, rest)

/-- The characters that are escaped by a letter or by themselves. -/
def shortEscapes : List Char := ['"', '\\', '\x08', '\x0c', '\n', '\r', '\t']

/-- **Escaping a character can be undone.** -/
theorem unescaped_escaped (c : Char) (rest : List Char) :
    unescaped (escaped c ++ rest) = some (c, rest) := by
  by_cases hshort : c ∈ shortEscapes
  · simp only [shortEscapes, List.mem_cons, List.not_mem_nil, or_false] at hshort
    rcases hshort with rfl | rfl | rfl | rfl | rfl | rfl | rfl <;> rfl
  · simp only [shortEscapes, List.mem_cons, List.not_mem_nil, or_false, not_or] at hshort
    by_cases hcontrol : c.toNat < 32
    · have hhigh := hexValue_digitChar (c.toNat / 16) (by omega)
      have hlow := hexValue_digitChar (c.toNat % 16) (by omega)
      have hcode : 16 * (c.toNat / 16) + c.toNat % 16 = c.toNat := Nat.div_add_mod _ 16
      simp [escaped, hshort, hcontrol, unescaped, hhigh, hlow, hcode, Char.ofNat_toNat]
    · have hplain : escaped c = [c] := by simp [escaped, hshort, hcontrol]
      rw [hplain, List.singleton_append]
      unfold unescaped
      split <;> simp_all

theorem escaped_selfDelimiting (c : Char) : SelfDelimiting escaped c := by
  intro d rest later h
  have hread := congrArg unescaped h
  rw [unescaped_escaped, unescaped_escaped, Option.some.injEq, Prod.mk.injEq] at hread
  exact hread

/-- No character is written as something that starts like the end of a string. -/
theorem escaped_ne_quote (c : Char) (rest later : List Char) :
    escaped c ++ rest ≠ '"' :: later := by
  intro h
  have hread := congrArg unescaped h
  rw [unescaped_escaped] at hread
  cases hread
  cases h

theorem escapedAll_unique {first second : List Char} {rest later : List Char}
    (h : first.flatMap escaped ++ '"' :: rest = second.flatMap escaped ++ '"' :: later) :
    first = second ∧ rest = later := by
  induction first generalizing second with
  | nil =>
    cases second with
    | nil => simpa using h
    | cons d second =>
      rw [List.flatMap_cons, List.append_assoc] at h
      exact absurd h.symm (escaped_ne_quote d _ _)
  | cons c first ih =>
    cases second with
    | nil =>
      rw [List.flatMap_cons, List.append_assoc] at h
      exact absurd h (escaped_ne_quote c _ _)
    | cons d second =>
      rw [List.flatMap_cons, List.flatMap_cons, List.append_assoc, List.append_assoc] at h
      obtain ⟨rfl, hrest⟩ := escaped_selfDelimiting c d _ _ h
      obtain ⟨rfl, hlater⟩ := ih hrest
      exact ⟨rfl, hlater⟩

theorem quoted_selfDelimiting (text : String) : SelfDelimiting quoted text := by
  intro other rest later h
  simp only [quoted, List.cons_append, List.append_assoc, List.nil_append] at h
  obtain ⟨htext, hrest⟩ := escapedAll_unique (List.cons.inj h).2
  exact ⟨String.toList_inj.mp htext, hrest⟩

/-! ## Lists of items -/

/-- A style that puts nothing but blanks at line breaks. -/
def Style.IsBlank (style : Style) : Prop := ∀ level, ∀ c ∈ style.lineBreak level, c = '\n' ∨ c = ' '

theorem isBlank_compact : Style.compact.IsBlank := by
  intro level c hc
  cases hc

theorem isBlank_indented : Style.indented.IsBlank := by
  intro level c hc
  rcases List.mem_cons.mp hc with rfl | hc
  · exact .inl rfl
  · exact .inr (List.eq_of_mem_replicate hc)

/-- With a line break in front, a text starts with a blank or as it did. -/
theorem Style.IsBlank.head_ne {style : Style} (hstyle : style.IsBlank) (level : Nat)
    {c first : Char} {text rest : List Char} (hc : c ≠ '\n' ∧ c ≠ ' ') (hfirst : first ≠ c) :
    style.lineBreak level ++ first :: text ≠ c :: rest := by
  intro h
  cases hbreak : style.lineBreak level with
  | nil =>
    rw [hbreak, List.nil_append, List.cons.injEq] at h
    exact hfirst h.1
  | cons blank more =>
    rw [hbreak, List.cons_append, List.cons.injEq] at h
    have hblank := hstyle level blank (by rw [hbreak]; exact List.mem_cons_self)
    rw [h.1] at hblank
    exact hblank.elim hc.1 hc.2

section

variable {α : Type} {text : α → List Char}

/-- Items with commas between them are known by their text, when something else than a comma
follows. -/
theorem intercalate_unique {separator : List Char} {first second : List α} {rest later : List Char}
    (hitems : ∀ item ∈ first, SelfDelimiting text item) (hne : first ≠ []) (hne' : second ≠ [])
    (hrest : ∀ more, rest ≠ ',' :: more) (hlater : ∀ more, later ≠ ',' :: more)
    (h : List.intercalate (',' :: separator) (first.map text) ++ rest =
      List.intercalate (',' :: separator) (second.map text) ++ later) :
    first = second ∧ rest = later := by
  induction first generalizing second with
  | nil => exact absurd rfl hne
  | cons a first ih =>
    rw [List.forall_mem_cons] at hitems
    obtain ⟨ha, hitems⟩ := hitems
    cases second with
    | nil => exact absurd rfl hne'
    | cons b second =>
      cases first with
      | nil =>
        cases second with
        | nil =>
          simp only [List.map_cons, List.map_nil, List.intercalate_singleton] at h
          obtain ⟨rfl, hend⟩ := ha b rest later h
          exact ⟨rfl, hend⟩
        | cons b' second =>
          simp only [List.map_cons, List.map_nil, List.intercalate_singleton,
            List.intercalate_cons_cons, List.append_assoc, List.cons_append] at h
          exact absurd (ha b _ _ h).2 (hrest _)
      | cons a' first =>
        cases second with
        | nil =>
          simp only [List.map_cons, List.map_nil, List.intercalate_singleton,
            List.intercalate_cons_cons, List.append_assoc, List.cons_append] at h
          exact absurd (ha b _ _ h).2.symm (hlater _)
        | cons b' second =>
          simp only [List.map_cons, List.intercalate_cons_cons, List.append_assoc,
            List.cons_append] at h
          obtain ⟨rfl, hmore⟩ := ha b _ _ h
          have hmore := List.append_cancel_left (List.cons.inj hmore).2
          obtain ⟨hlists, hend⟩ := ih hitems (List.cons_ne_nil _ _) (List.cons_ne_nil _ _) hmore
          exact ⟨by rw [hlists], hend⟩

theorem bracketed_nil (style : Style) (level : Nat) (opening closing : Char) :
    bracketed style level opening closing [] = [opening, closing] := rfl

theorem bracketed_cons (style : Style) (level : Nat) (opening closing : Char) (item : α)
    (items : List α) :
    bracketed style level opening closing ((item :: items).map text) =
      opening :: (style.lineBreak (level + 1) ++
        (List.intercalate (',' :: style.lineBreak (level + 1)) ((item :: items).map text) ++
          (style.lineBreak level ++ [closing]))) := by
  simp [bracketed]

/-- Items do not start with the bracket that closes them. -/
theorem items_ne_closing {style : Style} (hstyle : style.IsBlank) {level : Nat} {closing : Char}
    (hclosing : closing ≠ '\n' ∧ closing ≠ ' ')
    (hstart : ∀ item, ∃ c more, text item = c :: more ∧ c ≠ closing) (item : α) (items : List α)
    (separator behind rest : List Char) :
    style.lineBreak level ++ (List.intercalate separator ((item :: items).map text) ++ behind) ≠
      closing :: rest := by
  obtain ⟨c, more, hitem, hc⟩ := hstart item
  cases items with
  | nil =>
    rw [List.map_cons, List.map_nil, List.intercalate_singleton, hitem]
    exact hstyle.head_ne level hclosing hc
  | cons next items =>
    rw [List.map_cons, List.map_cons, List.intercalate_cons_cons, hitem]
    exact hstyle.head_ne level hclosing hc

/-- **Writing items in brackets can be undone**, when each item delimits itself and starts with
something else than the closing bracket. -/
theorem bracketed_unique {style : Style} (hstyle : style.IsBlank) {level : Nat}
    {opening closing : Char} (hclosing : closing = ']' ∨ closing = '\x7d')
    (hstart : ∀ item, ∃ c more, text item = c :: more ∧ c ≠ closing) {first second : List α}
    {rest later : List Char} (hitems : ∀ item ∈ first, SelfDelimiting text item)
    (h : bracketed style level opening closing (first.map text) ++ rest =
      bracketed style level opening closing (second.map text) ++ later) :
    first = second ∧ rest = later := by
  have hblank : closing ≠ '\n' ∧ closing ≠ ' ' := by rcases hclosing with rfl | rfl <;> decide
  have hcomma : closing ≠ ',' := by rcases hclosing with rfl | rfl <;> decide
  have hend : ∀ tail more, style.lineBreak level ++ closing :: tail ≠ ',' :: more :=
    fun tail more => hstyle.head_ne level (by decide) hcomma
  cases first with
  | nil =>
    cases second with
    | nil => simpa [bracketed] using h
    | cons b second =>
      simp only [bracketed_cons, List.map_nil, bracketed_nil, List.cons_append, List.append_assoc,
        List.cons.injEq, true_and] at h
      exact absurd h.symm (items_ne_closing hstyle hblank hstart b second _ _ _)
  | cons a first =>
    cases second with
    | nil =>
      simp only [bracketed_cons, List.map_nil, bracketed_nil, List.cons_append, List.append_assoc,
        List.cons.injEq, true_and] at h
      exact absurd h (items_ne_closing hstyle hblank hstart a first _ _ _)
    | cons b second =>
      simp only [bracketed_cons, List.cons_append, List.append_assoc, List.cons.injEq, true_and,
        List.append_cancel_left_eq, List.nil_append] at h
      obtain ⟨hlists, hrest⟩ := intercalate_unique hitems (List.cons_ne_nil _ _)
        (List.cons_ne_nil _ _) (hend rest) (hend later) h
      exact ⟨hlists, (List.cons.inj (List.append_cancel_left hrest)).2⟩

end

/-! ## Values -/

theorem writeItems_eq_map (style : Style) (level : Nat) (items : List Json) :
    writeItems style level items = items.map (write style level) := by
  induction items with
  | nil => rfl
  | cons item rest ih => rw [writeItems, ih, List.map_cons]

theorem writeFields_eq_map (style : Style) (level : Nat) (fields : List (String × Json)) :
    writeFields style level fields = fields.map (writeField style level) := by
  induction fields with
  | nil => rfl
  | cons field rest ih => rw [writeFields, ih, List.map_cons]

theorem write_array (style : Style) (level : Nat) (items : List Json) :
    write style level (.array items) =
      bracketed style level '[' ']' (items.map (write style (level + 1))) := by
  rw [← writeItems_eq_map]
  rfl

theorem write_object (style : Style) (level : Nat) (fields : List (String × Json)) :
    write style level (.object fields) =
      bracketed style level '\x7b' '\x7d' (fields.map (writeField style (level + 1))) := by
  rw [← writeFields_eq_map]
  rfl

/-- The first character of the text of a value. -/
def firstChar : Json → Char
  | .null => 'n'
  | .bool true => 't'
  | .bool false => 'f'
  | .string _ => '"'
  | .array _ => '['
  | .object _ => '\x7b'

theorem bracketed_eq_cons (style : Style) (level : Nat) (opening closing : Char)
    (pieces : List (List Char)) :
    ∃ more, bracketed style level opening closing pieces = opening :: more := by
  cases pieces <;> exact ⟨_, rfl⟩

theorem write_eq_cons (style : Style) (level : Nat) (value : Json) :
    ∃ more, write style level value = value.firstChar :: more := by
  cases value with
  | null => exact ⟨_, rfl⟩
  | bool value => cases value <;> exact ⟨_, rfl⟩
  | string text => exact ⟨_, rfl⟩
  | array items => exact bracketed_eq_cons _ _ _ _ _
  | object fields => exact bracketed_eq_cons _ _ _ _ _

theorem write_start_ne_bracket (style : Style) (level : Nat) (value : Json) :
    ∃ c more, write style level value = c :: more ∧ c ≠ ']' := by
  obtain ⟨more, hmore⟩ := write_eq_cons style level value
  refine ⟨_, more, hmore, ?_⟩
  unfold firstChar
  split <;> decide

/-- Values with texts that start alike are of one kind. -/
theorem firstChar_eq_of_write_eq {style : Style} {level : Nat} {value other : Json}
    {rest later : List Char}
    (h : write style level value ++ rest = write style level other ++ later) :
    value.firstChar = other.firstChar := by
  obtain ⟨more, hmore⟩ := write_eq_cons style level value
  obtain ⟨more', hmore'⟩ := write_eq_cons style level other
  rw [hmore, hmore', List.cons_append, List.cons_append, List.cons.injEq] at h
  exact h.1

theorem writeField_selfDelimiting {style : Style} {level : Nat} {field : String × Json}
    (hvalue : SelfDelimiting (write style level) field.2) :
    SelfDelimiting (writeField style level) field := by
  obtain ⟨key, value⟩ := field
  rintro ⟨key', value'⟩ rest later h
  simp only [writeField, List.append_assoc] at h
  obtain ⟨rfl, hrest⟩ := quoted_selfDelimiting key key' _ _ h
  obtain ⟨rfl, hlater⟩ := hvalue value' rest later (List.append_cancel_left hrest)
  exact ⟨rfl, hlater⟩

/-- **Every value delimits itself**, in every style with blank line breaks. -/
theorem write_selfDelimiting {style : Style} (hstyle : style.IsBlank) (value : Json) (level : Nat) :
    SelfDelimiting (write style level) value := by
  -- The first character leaves only one kind of value for the other side.
  induction value generalizing level with
  | null =>
    intro other rest later h
    have hkind := firstChar_eq_of_write_eq h
    rcases other with _ | ⟨_ | _⟩ | _ | _ | _ <;> cases hkind
    exact ⟨rfl, List.append_cancel_left h⟩
  | bool value =>
    intro other rest later h
    have hkind := firstChar_eq_of_write_eq h
    cases value <;> rcases other with _ | ⟨_ | _⟩ | _ | _ | _ <;> cases hkind
    · exact ⟨rfl, List.append_cancel_left h⟩
    · exact ⟨rfl, List.append_cancel_left h⟩
  | string text =>
    intro other rest later h
    have hkind := firstChar_eq_of_write_eq h
    rcases other with _ | ⟨_ | _⟩ | text' | _ | _ <;> cases hkind
    obtain ⟨rfl, hrest⟩ := quoted_selfDelimiting text text' rest later h
    exact ⟨rfl, hrest⟩
  | array items ih =>
    intro other rest later h
    have hkind := firstChar_eq_of_write_eq h
    rcases other with _ | ⟨_ | _⟩ | _ | items' | _ <;> cases hkind
    rw [write_array, write_array] at h
    obtain ⟨rfl, hrest⟩ := bracketed_unique hstyle (.inl rfl)
      (write_start_ne_bracket style (level + 1)) (fun item hitem => ih item hitem (level + 1)) h
    exact ⟨rfl, hrest⟩
  | object fields ih =>
    intro other rest later h
    have hkind := firstChar_eq_of_write_eq h
    rcases other with _ | ⟨_ | _⟩ | _ | _ | fields' <;> cases hkind
    rw [write_object, write_object] at h
    have hstart : ∀ field, ∃ c more,
        writeField style (level + 1) field = c :: more ∧ c ≠ '\x7d' := by
      rintro ⟨key, value⟩
      exact ⟨'"', _, rfl, by decide⟩
    obtain ⟨rfl, hrest⟩ := bracketed_unique hstyle (.inr rfl) hstart
      (fun field hfield => writeField_selfDelimiting (ih field hfield (level + 1))) h
    exact ⟨rfl, hrest⟩

theorem write_injective {style : Style} (hstyle : style.IsBlank) (level : Nat) :
    Function.Injective (write style level) := by
  intro value other h
  exact (write_selfDelimiting hstyle value level other [] [] (by rw [h])).1

theorem compact_injective : Function.Injective compact := fun _ _ h =>
  write_injective isBlank_compact 0 (String.ofList_inj.mp h)

theorem indented_injective : Function.Injective indented := fun _ _ h =>
  write_injective isBlank_indented 0 (String.ofList_inj.mp h)

end Json

/-! ## Views -/

theorem Expr.jsonNode_inj {kind kind' : String} {parts parts' : List (String × Json)} :
    jsonNode kind parts = jsonNode kind' parts' ↔ kind = kind' ∧ parts = parts' := by
  simp [jsonNode]

/-- A bound is known by its view, when the expression that it is made of is. -/
theorem Expr.eq_of_toJsonBound_eq {first second : Option Expr}
    (hinj : ∀ expr ∈ first, ∀ other : Expr, expr.toJson = other.toJson → expr = other)
    (h : toJsonBound first = toJsonBound second) : first = second := by
  -- No expression is shown as `null`.
  have hnull : ∀ expr : Expr, expr.toJson ≠ .null := by
    intro expr hexpr
    cases expr <;> cases hexpr
  cases first with
  | none =>
    cases second with
    | none => rfl
    | some other => exact absurd h.symm (hnull other)
  | some expr =>
    cases second with
    | none => exact absurd h (hnull expr)
    | some other => rw [hinj expr rfl other h]

/-- **The view of an expression determines it.** -/
theorem Expr.toJson_injective : Function.Injective toJson := by
  -- The kind leaves one constructor for the other side; its parts are compared one by one.
  intro first
  induction first with
  | literal source =>
    intro second h
    cases second with
    | literal source' =>
      simp only [toJson, jsonNode_inj, List.cons.injEq, Prod.mk.injEq, true_and, and_true,
        Json.string.injEq] at h
      rw [h]
    | _ => simp [toJson, jsonNode_inj] at h
  | unary operator operand ih =>
    intro second h
    cases second with
    | unary operator' operand' =>
      simp only [toJson, jsonNode_inj, List.cons.injEq, Prod.mk.injEq, true_and, and_true,
        Json.string.injEq] at h
      obtain ⟨hoperand, hoperator⟩ := h
      rw [ih hoperand, hoperator]
    | _ => simp [toJson, jsonNode_inj] at h
  | binary left operator right ihleft ihright =>
    intro second h
    cases second with
    | binary left' operator' right' =>
      simp only [toJson, jsonNode_inj, List.cons.injEq, Prod.mk.injEq, true_and, and_true,
        Json.string.injEq] at h
      obtain ⟨hleft, hright, hoperator⟩ := h
      rw [ihleft hleft, ihright hright, hoperator]
    | _ => simp [toJson, jsonNode_inj] at h
  | conditional condition whenTrue whenFalse ihcondition ihtrue ihfalse =>
    intro second h
    cases second with
    | conditional condition' whenTrue' whenFalse' =>
      simp only [toJson, jsonNode_inj, List.cons.injEq, Prod.mk.injEq, true_and, and_true] at h
      obtain ⟨hcondition, htrue, hfalse⟩ := h
      rw [ihcondition hcondition, ihtrue htrue, ihfalse hfalse]
    | _ => simp [toJson, jsonNode_inj] at h
  | sequence elementType elements ih =>
    intro second h
    cases second with
    | sequence elementType' elements' =>
      simp only [toJson, jsonNode_inj, List.cons.injEq, Prod.mk.injEq, true_and, and_true,
        Json.string.injEq, Json.array.injEq, toJsonAll_eq_map] at h
      obtain ⟨htype, helements⟩ := h
      rw [htype, Text.eq_of_map_eq (fun element helement other _ heq => ih element helement heq)
        helements]
    | _ => simp [toJson, jsonNode_inj] at h
  | slice whole low high ihwhole ihlow ihhigh =>
    intro second h
    cases second with
    | slice whole' low' high' =>
      simp only [toJson, jsonNode_inj, List.cons.injEq, Prod.mk.injEq, true_and, and_true] at h
      obtain ⟨hwhole, hlow, hhigh⟩ := h
      rw [ihwhole hwhole, eq_of_toJsonBound_eq ihlow hlow, eq_of_toJsonBound_eq ihhigh hhigh]
    | _ => simp [toJson, jsonNode_inj] at h
  | call callee arguments ihcallee ih =>
    intro second h
    cases second with
    | call callee' arguments' =>
      simp only [toJson, jsonNode_inj, List.cons.injEq, Prod.mk.injEq, true_and, and_true,
        Json.array.injEq, toJsonAll_eq_map] at h
      obtain ⟨hcallee, harguments⟩ := h
      rw [ihcallee hcallee, Text.eq_of_map_eq
        (fun argument hargument other _ heq => ih argument hargument heq) harguments]
    | _ => simp [toJson, jsonNode_inj] at h

theorem Expr.toJsonAll_injective : Function.Injective toJsonAll := by
  intro first second h
  rw [toJsonAll_eq_map, toJsonAll_eq_map] at h
  exact toJson_injective.list_map h

theorem Param.toJson_injective : Function.Injective toJson := by
  rintro ⟨name, type⟩ ⟨name', type'⟩ h
  simpa [toJson] using h

theorem PureFunction.toJson_injective : Function.Injective toJson := by
  rintro ⟨name, params, returnType, result, requires, preserves, ensures⟩
    ⟨name', params', returnType', result', requires', preserves', ensures'⟩ h
  simp only [toJson, Json.object.injEq, List.cons.injEq, Prod.mk.injEq, true_and, and_true,
    Json.string.injEq, Json.array.injEq] at h
  obtain ⟨hname, hparams, htype, hresult, hrequires, hpreserves, hensures⟩ := h
  rw [hname, Param.toJson_injective.list_map hparams, htype, Expr.toJson_injective hresult,
    Expr.toJsonAll_injective hrequires, Expr.toJsonAll_injective hpreserves,
    Expr.toJsonAll_injective hensures]

/-- **The JSON text of functions always exists and determines them**, and the compact text of an
expression determines it. -/
theorem definitionsJson_lossless :
    (∀ functions, ∃ text, definitionsJson functions = .ok text) ∧
      Function.Injective definitionsJson ∧
      Function.Injective fun expr : Expr => expr.toJson.compact := by
  refine ⟨fun functions => ⟨_, rfl⟩, ?_, Json.compact_injective.comp Expr.toJson_injective⟩
  intro functions others h
  have harray := Json.indented_injective (Except.ok.inj h)
  exact PureFunction.toJson_injective.list_map (Json.array.inj harray)

end PureContracts
