import PureContracts.Form.Read

/-!
# Reading is the inverse of spelling

The grammar of forms is given by `Form.lexemes`: a word spells itself, and a node spells its
children between a pair of parentheses.  The reader knows nothing of that recursion.  It walks over
the tokens once, with a stack of open nodes, and this file shows that the two agree.

* `consumed` — the lexemes that led to a state of the reader.
* `Fits` — the invariant on nesting: wherever a form was put down, it and the nodes open around it
  stay within the limit.

Principal results
* `readFrom_sound` — whatever is read spells the tokens and stays within the limit;
* `readFrom_lexemes` — the tokens of a form that fits are read as that form, wherever they stand;
* `readTokens_accepts_exactly_spellings` — a token sequence reads as some forms exactly when it
  spells them and none of them is nested too deep.

The places of tokens never matter for the forms; only the messages show them.
-/

namespace PureContracts.Form

/-! ## Depth of several forms -/

theorem depthAll_le_iff {forms : List Form} {bound : Nat} :
    depthAll forms ≤ bound ↔ ∀ form ∈ forms, form.depth ≤ bound := by
  induction forms with
  | nil => simp [depthAll]
  | cons form rest ih => rw [depthAll, Nat.max_le, ih, List.forall_mem_cons]

theorem depthAll_reverse (forms : List Form) : depthAll forms.reverse = depthAll forms := by
  apply Nat.le_antisymm
  · rw [depthAll_le_iff]
    intro form hform
    exact depthAll_le_iff.mp (Nat.le_refl _) form (List.mem_reverse.mp hform)
  · rw [depthAll_le_iff]
    intro form hform
    exact depthAll_le_iff.mp (Nat.le_refl _) form (List.mem_reverse.mpr hform)

/-! ## States of the reader -/

/-- The lexemes that led inside the open nodes `frames` and behind the forms `recent`. -/
def consumed : List Frame → List Form → List Lexeme
  | [], recent => lexemesAll recent.reverse
  | frame :: outer, recent =>
    consumed outer frame.before ++ .opening :: lexemesAll recent.reverse

theorem consumed_open (opened : Position) (frames : List Frame) (recent : List Form) :
    consumed (⟨opened, recent⟩ :: frames) [] = consumed frames recent ++ [.opening] := rfl

theorem consumed_cons (frames : List Frame) (form : Form) (recent : List Form) :
    consumed frames (form :: recent) = consumed frames recent ++ form.lexemes := by
  cases frames <;> simp [consumed, lexemesAll_append, lexemesAll]

theorem consumed_close (frame : Frame) (outer : List Frame) (recent : List Form) :
    consumed outer (.node recent.reverse :: frame.before) =
      consumed (frame :: outer) recent ++ [.closing] := by
  rw [consumed_cons, consumed, lexemes]
  simp

/-- The forms in front of each open node fit under the limit, inside the nodes open around them. -/
def FramesFit (limit : Nat) : List Frame → Prop
  | [] => True
  | frame :: outer => outer.length + depthAll frame.before ≤ limit ∧ FramesFit limit outer

/-- Everything that was read fits under the limit at its place. -/
structure Fits (limit : Nat) (frames : List Frame) (recent : List Form) : Prop where
  recent_le : frames.length + depthAll recent ≤ limit
  frames_fit : FramesFit limit frames

namespace Fits

variable {limit : Nat} {frames : List Frame} {recent : List Form}

theorem start : Fits limit [] [] := ⟨Nat.zero_le limit, trivial⟩

theorem opening (h : Fits limit frames recent) (hroom : frames.length < limit)
    (opened : Position) : Fits limit (⟨opened, recent⟩ :: frames) [] :=
  ⟨hroom, h.recent_le, h.frames_fit⟩

theorem word (h : Fits limit frames recent) (text : String) :
    Fits limit frames (.atom text :: recent) := by
  refine ⟨?_, h.frames_fit⟩
  have hle := h.recent_le
  rw [depthAll, depth, Nat.zero_max]
  exact hle

theorem closing {frame : Frame} (h : Fits limit (frame :: frames) recent) :
    Fits limit frames (.node recent.reverse :: frame.before) := by
  obtain ⟨hrecent, hbefore, houter⟩ := h
  refine ⟨?_, houter⟩
  rw [depthAll, depth, depthAll_reverse]
  rw [List.length_cons] at hrecent
  omega

end Fits

/-! ## What is read was spelled -/

/-- **Whatever is read spells the tokens and stays within the limit.** -/
theorem readFrom_sound {limit : Nat} {tokens : List Token} :
    ∀ {frames : List Frame} {recent forms : List Form}, Fits limit frames recent →
      readFrom limit frames recent tokens = .ok forms →
      lexemesAll forms = consumed frames recent ++ tokens.map Token.lexeme ∧
        depthAll forms ≤ limit := by
  induction tokens with
  | nil =>
    intro frames recent forms hfits h
    cases frames with
    | nil =>
      cases h
      have hle := hfits.recent_le
      rw [List.length_nil, Nat.zero_add] at hle
      rw [depthAll_reverse, consumed, List.map_nil, List.append_nil]
      exact ⟨rfl, hle⟩
    | cons frame outer => cases h
  | cons token rest ih =>
    intro frames recent forms hfits h
    obtain ⟨lexeme, span⟩ := token
    -- Each kind of token leads to a state that has consumed one lexeme more and still fits.
    rw [List.map_cons, List.append_cons]
    cases lexeme with
    | opening =>
      simp only [readFrom] at h
      split at h
      · cases h
      · rename_i hroom
        rw [← consumed_open span.start]
        exact ih (hfits.opening (by omega) span.start) h
    | closing =>
      cases frames with
      | nil => cases h
      | cons frame outer =>
        rw [← consumed_close]
        exact ih hfits.closing h
    | word text =>
      rw [← lexemes, ← consumed_cons]
      exact ih (hfits.word text) h

/-! ## What is spelled is read -/

/-- The tokens of a form are read as that form, wherever they stand and whatever follows. -/
def ReadAnywhere (limit : Nat) (form : Form) : Prop :=
  ∀ (frames : List Frame) (recent : List Form) (spelled rest : List Token),
    spelled.map Token.lexeme = form.lexemes → frames.length + form.depth ≤ limit →
    readFrom limit frames recent (spelled ++ rest) = readFrom limit frames (form :: recent) rest

theorem readFrom_lexemesAll {limit : Nat} {forms : List Form}
    (hforms : ∀ form ∈ forms, ReadAnywhere limit form) :
    ∀ (frames : List Frame) (recent : List Form) (spelled rest : List Token),
      spelled.map Token.lexeme = lexemesAll forms → frames.length + depthAll forms ≤ limit →
      readFrom limit frames recent (spelled ++ rest) =
        readFrom limit frames (forms.reverse ++ recent) rest := by
  induction forms with
  | nil =>
    intro frames recent spelled rest hspelled _
    rw [lexemesAll, List.map_eq_nil_iff] at hspelled
    rw [hspelled]
    rfl
  | cons form others ih =>
    intro frames recent spelled rest hspelled hdepth
    rw [lexemesAll, List.map_eq_append_iff] at hspelled
    obtain ⟨first, later, rfl, hfirst, hlater⟩ := hspelled
    rw [depthAll] at hdepth
    rw [List.append_assoc, hforms form List.mem_cons_self frames recent first _ hfirst (by omega),
      ih (fun other hother => hforms other (List.mem_cons_of_mem form hother)) frames _ later rest
        hlater (by omega)]
    simp

/-- **The tokens of a form that fits are read as that form, wherever they stand.** -/
theorem readFrom_lexemes (limit : Nat) (form : Form) : ReadAnywhere limit form := by
  induction form with
  | atom text =>
    intro frames recent spelled rest hspelled _
    rw [lexemes, List.map_eq_singleton_iff] at hspelled
    obtain ⟨⟨lexeme, span⟩, rfl, rfl⟩ := hspelled
    rfl
  | node children ih =>
    intro frames recent spelled rest hspelled hdepth
    rw [lexemes, List.map_eq_cons_iff] at hspelled
    obtain ⟨⟨_, opened⟩, inner, rfl, rfl, hinner⟩ := hspelled
    rw [List.map_eq_append_iff] at hinner
    obtain ⟨inside, last, rfl, hinside, hlast⟩ := hinner
    rw [List.map_eq_singleton_iff] at hlast
    obtain ⟨⟨_, closed⟩, rfl, rfl⟩ := hlast
    rw [depth] at hdepth
    simp only [List.cons_append, List.append_assoc, readFrom]
    rw [if_neg (by omega), readFrom_lexemesAll ih _ _ inside _ hinside (by simp; omega)]
    simp [readFrom]

/-! ## The reader and the grammar -/

theorem readTokens_eq_ok_iff {limit : Nat} {tokens : List Token} {forms : List Form} :
    readTokens limit tokens = .ok forms ↔
      tokens.map Token.lexeme = lexemesAll forms ∧ depthAll forms ≤ limit := by
  constructor
  · intro h
    obtain ⟨hlexemes, hdepth⟩ := readFrom_sound Fits.start h
    exact ⟨hlexemes.symm, hdepth⟩
  · rintro ⟨hlexemes, hdepth⟩
    have hread := readFrom_lexemesAll (fun form _ => readFrom_lexemes limit form) [] [] tokens
      [] hlexemes (by simpa using hdepth)
    rw [List.append_nil, List.append_nil] at hread
    rw [readTokens, hread, readFrom, List.reverse_reverse]

/-- **A token sequence reads as some forms exactly when it spells them and none of them is nested
too deep.** -/
theorem readTokens_accepts_exactly_spellings (tokens : List Token) (forms : List Form) :
    readTokens nestingLimit tokens = .ok forms ↔
      tokens.map Token.lexeme = lexemesAll forms ∧ ∀ form ∈ forms, form.depth ≤ nestingLimit := by
  rw [readTokens_eq_ok_iff, depthAll_le_iff]

end PureContracts.Form
