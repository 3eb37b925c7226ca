import Mathlib.Data.List.Permutation
import Mathlib.Logic.Relation
import AdminConsole.Proofs.Tree.Nesting

/-!
Rows above and below each other. In the rows of a tree, however they are folded, parents are unique,
come first, stand one level higher and have the rows that hang from them among their children.
-/

namespace AdminConsole.Node

/-- The parent of a row is the row whose key it refers to. -/
def HasParent (rows : List Node) (row parent : Node) : Prop :=
  parent ∈ rows ∧ row.parentRef = some parent.key

/-- A row hangs below its parent and below all that its parent hangs below. -/
def Below (rows : List Node) : Node → Node → Prop := Relation.TransGen (HasParent rows)

/-- What flags cannot change about the rows of a tree. -/
structure IsListing (rows : List Node) : Prop where
  nodup : (rows.map key).Nodup
  nested : Nested rows
  attached : ∀ row ∈ rows, ∀ parent, HasParent rows row parent →
    row.flagged false ∈ parent.childRows

variable {rows : List Node} {row parent above x root : Node}

@[simp] theorem flagged_self (row : Node) : row.flagged row.expanded = row := by
  cases row
  rfl

theorem IsListing.eq_of_key (h : IsListing rows) (hrow : row ∈ rows) (hx : x ∈ rows)
    (hkey : row.key = x.key) : row = x :=
  List.inj_on_of_nodup_map h.nodup hrow hx hkey

theorem isListing_flatten (root : Node) : IsListing (flatten root) := by
  refine ⟨flatten_nodup root, flatten_nested root, ?_⟩
  intro row hrow parent ⟨hparent, href⟩
  obtain ⟨before, after, hsplit⟩ := List.append_of_mem hrow
  rcases flatten_arises hsplit with ⟨_, rfl⟩ | ⟨above, other, between, rfl, hchild, _⟩
  · cases href
  · rw [parentRef_childRows hchild, Option.some.injEq] at href
    have hother : other ∈ flatten root := by simp [hsplit]
    obtain rfl := List.inj_on_of_nodup_map (flatten_nodup root) hother hparent href
    rwa [← flatten_folded hrow, flagged_self]

theorem Refolded.exists_row {a b : List Node} (h : Refolded a b) (hrow : row ∈ b) :
    ∃ other ∈ a, other.flagged false = row.flagged false := by
  have hmem : row.flagged false ∈ a.map (flagged false) := by
    rw [← h]
    exact List.mem_map_of_mem hrow
  exact List.mem_map.mp hmem

theorem Refolded.isListing {a b : List Node} (h : Refolded a b) (ha : IsListing a) :
    IsListing b := by
  refine ⟨h.keys ▸ ha.nodup, h.nested ha.nested, ?_⟩
  intro row hrow parent ⟨hparent, href⟩
  obtain ⟨row', hrow', hsame⟩ := h.exists_row hrow
  obtain ⟨parent', hparent', hsame'⟩ := h.exists_row hparent
  have href' : (row'.flagged false).parentRef = (row.flagged false).parentRef := by rw [hsame]
  have hkey : (parent'.flagged false).key = (parent.flagged false).key := by rw [hsame']
  have hchildren : (parent'.flagged false).childRows = (parent.flagged false).childRows := by
    rw [hsame']
  rw [← hsame]
  refine hchildren ▸ ha.attached row' hrow' parent' ⟨hparent', ?_⟩
  calc row'.parentRef = row.parentRef := href'
    _ = some parent.key := href
    _ = some parent'.key := congrArg some hkey.symm

theorem Refolded.listing (h : Refolded (flatten root) rows) : IsListing rows :=
  h.isListing (isListing_flatten root)

section Listing

variable (h : IsListing rows)
include h

theorem IsListing.level (hrow : row ∈ rows) (hparent : HasParent rows row parent) :
    row.level = parent.level + 1 := by
  have hlevel : (row.flagged false).level = parent.level + 1 :=
    level_childRows (h.attached row hrow parent hparent)
  exact hlevel

/-- A parent lists the rows that refer to it among its children. -/
theorem IsListing.exists_child (hrow : row ∈ rows) (hparent : HasParent rows row parent) :
    ∃ child ∈ parent.childList, child.key = row.key := by
  obtain ⟨child, hchild, hplaced⟩ := List.mem_map.mp (h.attached row hrow parent hparent)
  exact ⟨child, hchild, by rw [← placed_key, hplaced, flagged_key]⟩

theorem IsListing.hasChildren (hrow : row ∈ rows) (hparent : HasParent rows row parent) :
    parent.hasChildren = true := by
  obtain ⟨child, hchild, _⟩ := h.exists_child hrow hparent
  simpa [Node.hasChildren] using List.ne_nil_of_mem hchild

theorem IsListing.exists_parent (hrow : row ∈ rows) {p : String} (hp : row.parentRef = some p) :
    ∃ parent, HasParent rows row parent ∧ parent.key = p := by
  obtain ⟨parent, hparent, rfl⟩ := List.mem_map.mp (h.nested.parent row hrow p hp)
  exact ⟨parent, ⟨hparent, hp⟩, rfl⟩

end Listing

theorem Below.mem (h : Below rows row above) : above ∈ rows := by
  cases h with
  | single hparent => exact hparent.1
  | tail _ hparent => exact hparent.1

theorem Below.level (hlisting : IsListing rows) (hrow : row ∈ rows) (h : Below rows row above) :
    above.level < row.level := by
  induction h with
  | single hparent =>
    have hlevel := hlisting.level hrow hparent
    omega
  | tail hbelow hparent ih =>
    have hlevel := hlisting.level (Below.mem hbelow) hparent
    omega

theorem Below.ne (hlisting : IsListing rows) (hrow : row ∈ rows) (h : Below rows row above) :
    row ≠ above := by
  rintro rfl
  exact Int.lt_irrefl _ (h.level hlisting hrow)

/-- What stands above some row is the parent of some row. -/
theorem Below.exists_child (hrow : row ∈ rows) (h : Below rows row above) :
    ∃ child ∈ rows, HasParent rows child above := by
  cases h with
  | single hparent => exact ⟨row, hrow, hparent⟩
  | tail hbelow hparent => exact ⟨_, Below.mem hbelow, hparent⟩

/-- What is above a row is its parent or above its parent. -/
theorem forall_above_iff {P : Node → Prop} : (∀ above, Below rows row above → P above) ↔
    ∀ parent, HasParent rows row parent → P parent ∧ ∀ above, Below rows parent above → P above := by
  constructor
  · intro h parent hparent
    exact ⟨h parent (.single hparent), fun above habove => h above (.head hparent habove)⟩
  · intro h above habove
    obtain ⟨parent, hparent, hrest⟩ := Relation.TransGen.head'_iff.mp habove
    obtain ⟨hself, hfurther⟩ := h parent hparent
    rcases Relation.reflTransGen_iff_eq_or_transGen.mp hrest with rfl | hrest
    · exact hself
    · exact hfurther above hrest

/-- Rows with new flags. -/
def reflag (flags : Node → Bool) (rows : List Node) : List Node :=
  rows.map fun row => row.flagged (flags row)

section Reflag

variable {flags : Node → Bool} {b : Bool}

theorem refolded_reflag (flags : Node → Bool) (rows : List Node) :
    Refolded rows (reflag flags rows) := by
  simp [Refolded, reflag]

theorem hasParent_reflag : HasParent (reflag flags rows) (row.flagged b) parent ↔
    ∃ other, HasParent rows row other ∧ parent = other.flagged (flags other) := by
  constructor
  · rintro ⟨hmem, href⟩
    obtain ⟨other, hother, rfl⟩ := List.mem_map.mp hmem
    exact ⟨other, ⟨hother, href⟩, rfl⟩
  · rintro ⟨other, ⟨hother, href⟩, rfl⟩
    exact ⟨List.mem_map_of_mem hother, href⟩

theorem below_reflag : Below (reflag flags rows) (row.flagged b) above ↔
    ∃ other, Below rows row other ∧ above = other.flagged (flags other) := by
  constructor
  · intro h
    induction h with
    | single hparent =>
      obtain ⟨other, hother, rfl⟩ := hasParent_reflag.mp hparent
      exact ⟨other, .single hother, rfl⟩
    | tail _ hparent ih =>
      obtain ⟨middle, hmiddle, rfl⟩ := ih
      obtain ⟨other, hother, rfl⟩ := hasParent_reflag.mp hparent
      exact ⟨other, .tail hmiddle hother, rfl⟩
  · rintro ⟨other, hbelow, rfl⟩
    induction hbelow with
    | single hparent => exact .single (hasParent_reflag.mpr ⟨_, hparent, rfl⟩)
    | tail _ hparent ih => exact .tail ih (hasParent_reflag.mpr ⟨_, hparent, rfl⟩)

theorem filter_reflag (p : Node → Bool) : (reflag flags rows).filter p =
    reflag flags (rows.filter fun row => p (row.flagged (flags row))) :=
  List.filter_map

theorem expandAll_eq_reflag (rows : List Node) :
    expandAll rows = reflag (fun row => row.hasChildren || row.expanded) rows := by
  refine List.map_congr_left fun row _ => ?_
  cases hchildren : row.hasChildren with
  | true => simp [opened, flagged, hchildren]
  | false => simp [opened, hchildren]

end Reflag

def branch (code : String) (children : List Node) : Node :=
  { Node.ofEntries [("code", .text code)] with children := some children }

/-- The code S stands in two places, below the root with a child and below B. -/
def crossed : Node :=
  branch "R" [branch "S" [branch "T" []], branch "A" [branch "B" [branch "S" []]]]

def crossedA : Node := ((branch "A" [branch "B" [branch "S" []]]).placed 1 (some "R")).opened

def crossedB : Node := ((branch "B" [branch "S" []]).placed 2 (some "A")).opened

theorem mem_crossed : crossedA ∈ expandAll (flatten crossed) ∧
    crossedB ∈ expandAll (flatten crossed) := by
  have ha : rowOf? (expandAll (flatten crossed)) "A" = some crossedA := by cbv
  have hb : rowOf? (expandAll (flatten crossed)) "B" = some crossedB := by cbv
  exact ⟨rowOf?_mem ha, rowOf?_mem hb⟩

end AdminConsole.Node
