import PureContracts.Form.Read
import PureContracts.Proofs.Source.Lexical

/-!
# Why reading fails

Whether a token sequence can be read, and what is said when it cannot, depends on its parentheses
alone.  `faultFrom` is the reader without its forms: of every open node only the place of its
parenthesis is left.

Principal results
* `readFrom_eq_error_iff` — reading fails exactly with the fault of the parentheses;
* `faultFrom_filter` — words have no part in it;
* `faultFrom_append_of_read` — behind tokens that can be read on their own, faults are as at the
  start.
-/

namespace PureContracts

/-- The place that a fault names. -/
def ReadFault.place? : ReadFault → Option Position
  | .strayClosing place | .tooDeep _ place | .unclosed place => some place
  | .described _ => none

namespace Form

/-- The fault that reading on ends with, inside nodes that were opened at the given places,
innermost first. -/
def faultFrom (limit : Nat) (opened : List Position) : List Token → Option ReadFault
  | [] => opened.head?.map .unclosed
  | token :: rest =>
    match token.lexeme with
    | .opening =>
      if limit ≤ opened.length then some (.tooDeep limit token.span.start)
      else faultFrom limit (token.span.start :: opened) rest
    | .closing =>
      match opened with
      | [] => some (.strayClosing token.span.start)
      | _ :: outer => faultFrom limit outer rest
    | .word _ => faultFrom limit opened rest

section

variable {limit : Nat} {tokens : List Token}

/-- **Reading fails exactly with the fault of the parentheses.** -/
theorem readFrom_eq_error_iff {frames : List Frame} {recent : List Form} {e : Error} :
    readFrom limit frames recent tokens = .error e ↔
      ∃ fault, faultFrom limit (frames.map (·.opened)) tokens = some fault ∧
        e = .unreadable fault := by
  induction tokens generalizing frames recent with
  | nil =>
    cases frames with
    | nil => simp [readFrom, faultFrom]
    | cons frame outer => simp [readFrom, faultFrom, eq_comm]
  | cons token rest ih =>
    obtain ⟨lexeme, span⟩ := token
    cases lexeme with
    | opening =>
      simp only [readFrom, faultFrom, List.length_map]
      by_cases hdeep : limit ≤ frames.length
      · simp [hdeep, eq_comm]
      · simp only [hdeep, if_false]
        exact ih
    | closing =>
      cases frames with
      | nil => simp [readFrom, faultFrom, eq_comm]
      | cons frame outer => exact ih
    | word text => exact ih

theorem readTokens_eq_error_iff {e : Error} :
    readTokens limit tokens = .error e ↔
      ∃ fault, faultFrom limit [] tokens = some fault ∧ e = .unreadable fault :=
  readFrom_eq_error_iff

theorem exists_readTokens_eq_ok (h : faultFrom limit [] tokens = none) :
    ∃ forms, readTokens limit tokens = .ok forms := by
  cases hread : readTokens limit tokens with
  | ok forms => exact ⟨forms, rfl⟩
  | error e =>
    obtain ⟨fault, hfault, -⟩ := readTokens_eq_error_iff.mp hread
    rw [h] at hfault
    cases hfault

/-- **Words have no part in the faults of a token sequence.** -/
theorem faultFrom_filter (opened : List Position) :
    faultFrom limit opened (tokens.filter Source.isParen) = faultFrom limit opened tokens := by
  induction tokens generalizing opened with
  | nil => rfl
  | cons token rest ih =>
    obtain ⟨lexeme, span⟩ := token
    cases lexeme with
    | opening =>
      rw [List.filter_cons_of_pos rfl]
      simp only [faultFrom, ih]
    | closing =>
      rw [List.filter_cons_of_pos rfl]
      cases opened with
      | nil => rfl
      | cons place outer => exact ih outer
    | word text => exact ih opened

/-- **Behind tokens that can be read on their own, faults are as at the start.** -/
theorem faultFrom_append_of_read {opened : List Position}
    (h : faultFrom limit opened tokens = none) (later : List Token) :
    faultFrom limit opened (tokens ++ later) = faultFrom limit [] later := by
  induction tokens generalizing opened with
  | nil =>
    cases opened with
    | nil => rfl
    | cons place outer => cases h
  | cons token rest ih =>
    obtain ⟨lexeme, span⟩ := token
    cases lexeme with
    | opening =>
      simp only [faultFrom, List.cons_append] at h ⊢
      split at h
      · cases h
      · rename_i hroom
        rw [if_neg hroom]
        exact ih h
    | closing =>
      cases opened with
      | nil => cases h
      | cons place outer => exact ih h
    | word text => exact ih h

/-- Every fault of the parentheses names a place. -/
theorem faultFrom_place? {opened : List Position} {fault : ReadFault}
    (h : faultFrom limit opened tokens = some fault) : ∃ place, fault.place? = some place := by
  induction tokens generalizing opened with
  | nil =>
    cases opened with
    | nil => cases h
    | cons place outer =>
      cases h
      exact ⟨place, rfl⟩
  | cons token rest ih =>
    obtain ⟨lexeme, span⟩ := token
    cases lexeme with
    | opening =>
      simp only [faultFrom] at h
      split at h
      · cases h
        exact ⟨span.start, rfl⟩
      · exact ih h
    | closing =>
      cases opened with
      | nil =>
        cases h
        exact ⟨span.start, rfl⟩
      | cons place outer => exact ih h
    | word text => exact ih h

end

end Form

end PureContracts
