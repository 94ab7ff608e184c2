import PureContracts.Proofs.Form.Fault
import PureContracts.Proofs.Source.Parentheses

/-!
# Read errors name the right parenthesis

A text is read with a stack of open nodes, and reading ends at a parenthesis that does not fit, or
at the end with the parenthesis on top of the stack.  Neither the stack nor the scanner is needed to
say which parenthesis that is: it is enough to count along the parentheses of the text.

* `Offends` — a parenthesis that closes nothing, or opens one level too many.
* `Inoffensive` — parentheses none of which offends.

Principal results
* `faultFrom_of_inoffensive` — behind parentheses that do not offend, the reader holds exactly those
  without a partner;
* `read_fails_at_the_paren_to_blame` — which parenthesis a read error names, and where it places it.
-/

namespace PureContracts.Form

open Source (Paren parens nesting Unclosed IsLastUnmatched)

/-- A parenthesis that closes where nothing is open, or opens where the limit is reached. -/
def Offends (seen : List Paren) (paren : Paren) : Prop :=
  paren.opens = false ∧ nesting seen = 0 ∨ paren.opens = true ∧ nesting seen = nestingLimit

/-- None of the parentheses offends. -/
def Inoffensive (all : List Paren) : Prop :=
  ∀ seen paren later, all = seen ++ paren :: later → ¬ Offends seen paren

theorem inoffensive_nil : Inoffensive [] := by
  intro seen paren later h
  simp at h

theorem inoffensive_concat {all : List Paren} {last : Paren} :
    Inoffensive (all ++ [last]) ↔ Inoffensive all ∧ ¬ Offends all last := by
  constructor
  · intro h
    refine ⟨?_, h all last [] rfl⟩
    rintro seen paren later rfl
    exact h seen paren (later ++ [last]) (by simp)
  · rintro ⟨hall, hlast⟩ seen paren later h
    rcases List.eq_nil_or_concat' later with rfl | ⟨later, other, rfl⟩
    · obtain ⟨rfl, hparen⟩ := List.append_inj' h rfl
      cases hparen
      exact hlast
    · rw [← List.cons_append, ← List.append_assoc] at h
      obtain ⟨rfl, -⟩ := List.append_inj' h rfl
      exact hall seen paren later rfl

theorem exists_first_offence {all : List Paren} (h : ¬ Inoffensive all) :
    ∃ seen paren later, all = seen ++ paren :: later ∧ Inoffensive seen ∧ Offends seen paren := by
  induction all using List.reverseRecOn with
  | nil => exact absurd inoffensive_nil h
  | append_singleton all last ih =>
    by_cases hall : Inoffensive all
    · rw [inoffensive_concat, not_and, not_not] at h
      exact ⟨all, last, [], rfl, hall, h hall⟩
    · obtain ⟨seen, paren, later, rfl, hseen, hparen⟩ := ih hall
      exact ⟨seen, paren, later ++ [last], by simp, hseen, hparen⟩

/-! ## The reader on parentheses -/

theorem faultFrom_opening {limit : Nat} {opened : List Position} {paren : Paren}
    (hopens : paren.opens = true) (rest : List Token) :
    faultFrom limit opened (paren.token :: rest) =
      if limit ≤ opened.length then some (.tooDeep limit paren.position)
      else faultFrom limit (paren.position :: opened) rest := by
  rw [Paren.token, hopens]
  rfl

theorem faultFrom_closing {limit : Nat} {outer : List Position} {place : Position} {paren : Paren}
    (hopens : paren.opens = false) (rest : List Token) :
    faultFrom limit (place :: outer) (paren.token :: rest) = faultFrom limit outer rest := by
  rw [Paren.token, hopens]
  rfl

theorem faultFrom_stray {limit : Nat} {paren : Paren} (hopens : paren.opens = false)
    (rest : List Token) :
    faultFrom limit [] (paren.token :: rest) = some (.strayClosing paren.position) := by
  rw [Paren.token, hopens]
  rfl

/-- **Behind parentheses that do not offend, the reader holds exactly those without a partner.** -/
theorem faultFrom_of_inoffensive {all : List Paren} (h : Inoffensive all) :
    ∃ opened, Unclosed all opened ∧ opened.length ≤ nestingLimit ∧
      ∀ later, faultFrom nestingLimit [] ((all ++ later).map Paren.token) =
        faultFrom nestingLimit (opened.map Paren.position) (later.map Paren.token) := by
  induction all using List.reverseRecOn with
  | nil => exact ⟨[], .none Source.balanced_nil, Nat.zero_le _, fun _ => rfl⟩
  | append_singleton all paren ih =>
    obtain ⟨hall, hparen⟩ := inoffensive_concat.mp h
    obtain ⟨opened, hunclosed, hbound, hrun⟩ := ih hall
    have hnesting := hunclosed.nesting_eq
    cases hopens : paren.opens with
    | true =>
      have hroom : ¬ nestingLimit ≤ (opened.map Paren.position).length := by
        intro hfull
        rw [List.length_map] at hfull
        exact hparen (.inr ⟨hopens, by omega⟩)
      refine ⟨paren :: opened, hunclosed.opening hopens, ?_, fun later => ?_⟩
      · rw [List.length_map] at hroom
        rw [List.length_cons]
        omega
      · rw [List.append_assoc, hrun, List.singleton_append, List.map_cons,
          faultFrom_opening hopens, if_neg hroom, List.map_cons]
    | false =>
      cases opened with
      | nil => exact absurd (.inl ⟨hopens, by simpa using hnesting⟩) hparen
      | cons innermost outer =>
        refine ⟨outer, hunclosed.closing hopens, ?_, fun later => ?_⟩
        · rw [List.length_cons] at hbound
          omega
        · rw [List.append_assoc, hrun, List.singleton_append, List.map_cons, List.map_cons,
            faultFrom_closing hopens]

/-- The fault of a parenthesis that offends. -/
def offence (paren : Paren) : ReadFault :=
  if paren.opens then .tooDeep nestingLimit paren.position else .strayClosing paren.position

theorem faultFrom_of_offends {seen later : List Paren} {paren : Paren} (hseen : Inoffensive seen)
    (hparen : Offends seen paren) :
    faultFrom nestingLimit [] ((seen ++ paren :: later).map Paren.token) =
      some (offence paren) := by
  obtain ⟨opened, hunclosed, -, hrun⟩ := faultFrom_of_inoffensive hseen
  have hnesting := hunclosed.nesting_eq
  rw [hrun, List.map_cons, offence]
  rcases hparen with ⟨hopens, hzero⟩ | ⟨hopens, hlimit⟩
  · have hempty : opened = [] := List.eq_nil_of_length_eq_zero (by omega)
    rw [hempty, List.map_nil, faultFrom_stray hopens, hopens]
    rfl
  · have hfull : nestingLimit ≤ (opened.map Paren.position).length := by
      rw [List.length_map]
      omega
    rw [faultFrom_opening hopens, if_pos hfull, hopens]
    rfl

/-! ## Texts -/

theorem faultFrom_parens (text : String) :
    faultFrom nestingLimit [] ((parens text).map Paren.token) =
      faultFrom nestingLimit [] (Source.tokens text) := by
  have houtside : false = true ↔ Source.InComment [] := by simp [Source.InComment, Source.lastLine]
  have hparens := (Source.scans_tokens text).parens [] rfl houtside
  rw [parens, ← hparens, faultFrom_filter]

theorem read_of_fault {text : String} {fault : ReadFault}
    (h : faultFrom nestingLimit [] ((parens text).map Paren.token) = some fault) :
    read text = .error (.unreadable fault) := by
  rw [faultFrom_parens] at h
  exact readTokens_eq_error_iff.mpr ⟨fault, h, rfl⟩

/-- **Which parenthesis a read error names, and where it places it.**  Reading fails at the first
parenthesis that offends; when none does and some stay open, at the last one without a partner; and
otherwise it succeeds. -/
theorem read_fails_at_the_paren_to_blame (text : String) :
    (¬ Inoffensive (parens text) →
      ∃ seen paren later, parens text = seen ++ paren :: later ∧ Inoffensive seen ∧
        Offends seen paren ∧
        ∃ fault, read text = .error (.unreadable fault) ∧
          fault.text =
            if paren.opens then "nesting deeper than 128 levels at " ++ paren.place
            else "mismatched ) at " ++ paren.place) ∧
    (Inoffensive (parens text) → 0 < nesting (parens text) →
      ∃ paren, IsLastUnmatched paren (parens text) ∧
        ∃ fault, read text = .error (.unreadable fault) ∧
          fault.text = "mismatched ( at " ++ paren.place ++ ", unterminated at end of input") ∧
    (Inoffensive (parens text) → nesting (parens text) ≤ 0 → ∃ forms, read text = .ok forms) := by
  refine ⟨?_, ?_, ?_⟩
  · intro h
    obtain ⟨seen, paren, later, hall, hseen, hparen⟩ := exists_first_offence h
    refine ⟨seen, paren, later, hall, hseen, hparen, offence paren, read_of_fault ?_, ?_⟩
    · rw [hall]
      exact faultFrom_of_offends hseen hparen
    · rw [offence, ← paren.render_position]
      cases paren.opens <;> rfl
  · intro h hopen
    obtain ⟨opened, hunclosed, -, hrun⟩ := faultFrom_of_inoffensive h
    have hnesting := hunclosed.nesting_eq
    cases opened with
    | nil =>
      rw [List.length_nil] at hnesting
      omega
    | cons innermost outer =>
      refine ⟨innermost, hunclosed.last, .unclosed innermost.position, read_of_fault ?_, ?_⟩
      · have hend := hrun []
        rw [List.append_nil] at hend
        exact hend
      · rw [← innermost.render_position]
        rfl
  · intro h hclosed
    obtain ⟨opened, hunclosed, -, hrun⟩ := faultFrom_of_inoffensive h
    have hnesting := hunclosed.nesting_eq
    have hempty : opened = [] := List.eq_nil_of_length_eq_zero (by omega)
    have hend := hrun []
    rw [List.append_nil, hempty, faultFrom_parens] at hend
    exact exists_readTokens_eq_ok hend

/-- Of `(a ; )` above ` (b` both opening parentheses are unmatched, and the second is named. -/
theorem read_fails_at_the_paren_to_blame_comment :
    Inoffensive (parens "(a ; )\n (b") ∧ 0 < nesting (parens "(a ; )\n (b") ∧
      ∃ paren, IsLastUnmatched paren (parens "(a ; )\n (b") ∧
        ∃ fault, read "(a ; )\n (b" = .error (.unreadable fault) ∧
          fault.text = "mismatched ( at " ++ paren.place ++ ", unterminated at end of input" := by
  have hparens : parens "(a ; )\n (b" =
      [] ++ [⟨true, []⟩] ++ [⟨true, "(a ; )\n ".toList⟩] := by decide
  have hinoffensive : Inoffensive (parens "(a ; )\n (b") := by
    rw [hparens, inoffensive_concat, inoffensive_concat]
    exact ⟨⟨inoffensive_nil, by unfold Offends; decide⟩, by unfold Offends; decide⟩
  have hopen : 0 < nesting (parens "(a ; )\n (b") := by decide
  exact ⟨hinoffensive, hopen,
    (read_fails_at_the_paren_to_blame "(a ; )\n (b").2.1 hinoffensive hopen⟩

end PureContracts.Form
