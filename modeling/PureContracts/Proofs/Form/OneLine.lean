import PureContracts.Form.Layout
import PureContracts.Proofs.Text.Separation

/-!
# Which nodes are broken

The printer works from the inside out: a node is broken when a child was, or when the finished texts
of its children are wide together, line breaks and indentation of broken children included.  Seen
from outside all of that comes to one question about the node alone: how long it is on one line.

* `Form.flat` — the text of a form on one line.
* `Form.IsWide` — the nodes that are too long for one line.  A word is never broken, however long.

Principal results
* `breaks_iff_isWide` — the decision of a node, from the decisions of its children;
* `layout_broken_iff`, `layout_of_narrow`, `layout_of_wide` — exactly the wide nodes are broken, and
  every other form is written on one line;
* `layout_meets_width_rule` — the layout of every form by its length on one line.
-/

namespace PureContracts

namespace Form

/-! ## One line -/

mutual

/-- The text of a form on one line. -/
def flat : Form → List Char
  | .atom text => text.toList
  | .node children => '(' :: (List.intercalate [' '] (flatAll children) ++ [')'])

/-- The texts of some forms, each on one line. -/
def flatAll : List Form → List (List Char)
  | [] => []
  | form :: rest => form.flat :: flatAll rest

end

theorem flatAll_eq_map (forms : List Form) : flatAll forms = forms.map flat := by
  induction forms with
  | nil => rfl
  | cons form rest ih => rw [flatAll, ih, List.map_cons]

theorem length_flat_node (children : List Form) :
    (flat (.node children)).length =
      (children.length - 1) + (children.map flat).flatten.length + 2 := by
  rw [flat, List.length_cons, List.length_append, Text.length_intercalate, flatAll_eq_map]
  simp

/-- A node is longer than each of its children, by its parentheses at least. -/
theorem length_flat_child {children : List Form} {child : Form} (h : child ∈ children) :
    child.flat.length + 2 ≤ (flat (.node children)).length := by
  have hchild := (List.sublist_flatten_of_mem (List.mem_map_of_mem (f := flat) h)).length_le
  rw [length_flat_node]
  omega

/-- The nodes that are too long for one line: those of 32 characters or more. -/
def IsWide : Form → Prop
  | .atom _ => False
  | .node children => 32 ≤ (flat (.node children)).length

/-- A node around a wide form is wide. -/
theorem IsWide.outward {children : List Form} {child : Form} (h : child.IsWide)
    (hchild : child ∈ children) : IsWide (.node children) := by
  have hlength := length_flat_child hchild
  cases child with
  | atom text => cases h
  | node inner =>
    simp only [IsWide] at h ⊢
    omega

/-! ## The decision of a node -/

/-- Blocks that hold the texts of the children on one line are as wide as the node, less its
parentheses. -/
theorem length_flat_of_blocks {children : List Form} {blocks : List Block}
    (h : blocks.map (·.text) = children.map flat) :
    (flat (.node children)).length = Block.width blocks + 2 := by
  have hlength : blocks.length = children.length := by simpa using congrArg List.length h
  rw [length_flat_node, Block.width, h, hlength]

theorem map_text_layout {indent : Nat} {children : List Form}
    (h : ∀ child ∈ children, (layout indent child).text = child.flat) :
    (children.map (layout indent)).map (·.text) = children.map flat := by
  rw [List.map_map]
  exact List.map_congr_left h

/-- **A node is broken exactly when it is wide**, if that holds of its children and the others among
them are written on one line. -/
theorem breaks_iff_isWide {indent : Nat} {children : List Form}
    (hbroken : ∀ child ∈ children, (layout indent child).broken = true ↔ child.IsWide)
    (htext : ∀ child ∈ children, ¬ child.IsWide → (layout indent child).text = child.flat) :
    Block.breaks (children.map (layout indent)) = true ↔ IsWide (.node children) := by
  by_cases hinner : ∃ child ∈ children, child.IsWide
  · -- One broken child is enough, and it alone makes the node too long.
    obtain ⟨child, hchild, hwide⟩ := hinner
    refine iff_of_true ?_ (hwide.outward hchild)
    rw [Block.breaks, Bool.or_eq_true, List.any_map, List.any_eq_true]
    exact .inl ⟨child, hchild, (hbroken child hchild).mpr hwide⟩
  · -- Without one the widths that the printer adds up are those of the one-line texts.
    have hnarrow : ∀ child ∈ children, ¬ child.IsWide :=
      fun child hchild hwide => hinner ⟨child, hchild, hwide⟩
    have hnone : (children.map (layout indent)).any (·.broken) = false := by
      rw [List.any_map, List.any_eq_false]
      exact fun child hchild h => hnarrow child hchild ((hbroken child hchild).mp h)
    have htexts : (children.map (layout indent)).map (·.text) = children.map flat :=
      map_text_layout fun child hchild => htext child hchild (hnarrow child hchild)
    rw [Block.breaks, hnone, Bool.false_or, decide_eq_true_iff, IsWide,
      length_flat_of_blocks htexts, breakWidth]
    omega

theorem layout_node (indent : Nat) (children : List Form) :
    layout indent (.node children) = Block.enclose indent (children.map (layout (indent + 1))) := by
  rw [layout, layoutAll_eq_map]

/-- The two halves of the rule go through the induction together: what a node decides depends on how
its children decided and on what they wrote. -/
theorem layout_decided (form : Form) (indent : Nat) :
    ((layout indent form).broken = true ↔ form.IsWide) ∧
      (¬ form.IsWide → (layout indent form).text = form.flat) := by
  induction form generalizing indent with
  | atom text =>
    rw [layout, flat]
    exact ⟨iff_of_false Bool.false_ne_true id, fun _ => rfl⟩
  | node children ih =>
    have hbroken : ∀ child ∈ children, (layout (indent + 1) child).broken = true ↔ child.IsWide :=
      fun child hchild => (ih child hchild (indent + 1)).1
    have htext : ∀ child ∈ children, ¬ child.IsWide →
        (layout (indent + 1) child).text = child.flat :=
      fun child hchild => (ih child hchild (indent + 1)).2
    have hbreaks := breaks_iff_isWide hbroken htext
    rw [layout_node, Block.enclose]
    refine ⟨hbreaks, fun hnarrow => ?_⟩
    have hwhole : Block.breaks (children.map (layout (indent + 1))) = false := by
      rw [← Bool.not_eq_true, hbreaks]
      exact hnarrow
    have htexts : (children.map (layout (indent + 1))).map (·.text) = children.map flat :=
      map_text_layout fun child hchild =>
        htext child hchild fun hwide => hnarrow (hwide.outward hchild)
    rw [hwhole, htexts, flat, flatAll_eq_map]
    rfl

/-- Exactly the wide nodes are broken. -/
theorem layout_broken_iff (form : Form) (indent : Nat) :
    (layout indent form).broken = true ↔ form.IsWide :=
  (layout_decided form indent).1

/-- Every other form is written on one line. -/
theorem layout_of_narrow {form : Form} (h : ¬ form.IsWide) (indent : Nat) :
    layout indent form = ⟨form.flat, false⟩ := by
  have htext := (layout_decided form indent).2 h
  have hbroken : (layout indent form).broken = false := by
    rw [← Bool.not_eq_true, layout_broken_iff]
    exact h
  rw [← htext, ← hbroken]

/-- A wide node is written with one child a line. -/
theorem layout_of_wide {children : List Form} (h : IsWide (.node children)) (indent : Nat) :
    layout indent (.node children) =
      ⟨'(' :: (List.intercalate ('\n' :: List.replicate (2 * indent) ' ')
        (children.map fun child => (layout (indent + 1) child).text) ++ [')']), true⟩ := by
  have hbreaks : Block.breaks (children.map (layout (indent + 1))) = true := by
    have hbroken := (layout_broken_iff (.node children) indent).mpr h
    rwa [layout_node] at hbroken
  rw [layout_node, Block.enclose, hbreaks, List.map_map]
  rfl

/-! ## The rule -/

/-- **The layout of every form is decided by its own length on one line**, at every indentation.
Words and empty nodes stay as they are; any other node stays on one line up to 31 characters, and is
written with one child a line from 32 characters on. -/
theorem layout_meets_width_rule (indent : Nat) :
    (∀ text, layout indent (.atom text) = ⟨flat (.atom text), false⟩) ∧
    layout indent (.node []) = ⟨flat (.node []), false⟩ ∧
    (∀ children, children ≠ [] →
      ((flat (.node children)).length ≤ 31 →
        layout indent (.node children) = ⟨flat (.node children), false⟩) ∧
      (¬ (flat (.node children)).length ≤ 31 →
        layout indent (.node children) =
          ⟨'(' :: (List.intercalate ('\n' :: List.replicate (2 * indent) ' ')
            (children.map fun child => (layout (indent + 1) child).text) ++ [')']), true⟩)) ∧
    ∀ children, (layout indent (.node children)).broken = true ↔
      32 ≤ (flat (.node children)).length := by
  refine ⟨fun text => layout_of_narrow id indent, ?_, ?_,
    fun children => layout_broken_iff _ indent⟩
  · exact layout_of_narrow (Nat.not_le.mpr (by decide)) indent
  · intro children _
    constructor
    · intro hshort
      have hnarrow : ¬ IsWide (.node children) := Nat.not_le.mpr (Nat.lt_succ_of_le hshort)
      exact layout_of_narrow hnarrow indent
    · intro hlong
      have hwide : IsWide (.node children) := Nat.lt_of_not_le hlong
      exact layout_of_wide hwide indent

/-- At the limit: with one letter more the inner node is broken, although a single child leaves
nothing to be put on a further line, and the outer node with it. -/
theorem layout_meets_width_rule_limit :
    (flat (.node [.atom "aaaaaaaaaaaaaaaaaaaaaaaaaaaaa"])).length = 31 ∧
    layout 1 (.node [.atom "aaaaaaaaaaaaaaaaaaaaaaaaaaaaa"]) =
      ⟨"(aaaaaaaaaaaaaaaaaaaaaaaaaaaaa)".toList, false⟩ ∧
    (flat (.node [.node [.atom "aaaaaaaaaaaaaaaaaaaaaaaaaaaaaa"], .atom "b"])).length = 36 ∧
    layout 1 (.node [.node [.atom "aaaaaaaaaaaaaaaaaaaaaaaaaaaaaa"], .atom "b"]) =
      ⟨"((aaaaaaaaaaaaaaaaaaaaaaaaaaaaaa)\n  b)".toList, true⟩ := by
  have hrule := (layout_meets_width_rule 1).2.2.1
  refine ⟨by decide, ?_, by decide, ?_⟩
  · exact (hrule _ (List.cons_ne_nil _ _)).1 (by decide)
  · exact (hrule _ (List.cons_ne_nil _ _)).2 (by decide)

end Form

end PureContracts
