import AdminConsole.Proofs.Resolve.LevelByLevel
import AdminConsole.Proofs.Tree.Forest

/-!
What a view lists. The rows of a view are those of its roots. A code is asked for where it occurs
at the least depth, but a row is made where it occurs first in pre-order; the children of a code
can get lost between the two.
-/

namespace AdminConsole

open Node

namespace Node

def HasCode (n : Node) : Prop := ∃ code, n.record.code = some code ∧ code ≠ ""

theorem key_of_code {n : Node} {code : String} (h : n.record.code = some code) (hne : code ≠ "") :
    n.key = code := by
  simp [key, Record.key, h, hne]

end Node

namespace View

variable {roots : List Node} {report : Report}

theorem rows_of_root (report : Report) {root : Node} (h : root ∈ roots) :
    ∃ other ∈ roots, other.key = root.key ∧
      Entries.get? root.key (ofRoots roots report).rows = some (flatten other) := by
  obtain ⟨hmem, hkey⟩ := lastKeyed_mem h
  exact ⟨lastKeyed roots root, hmem, hkey, get?_flattenForest h⟩

/-- Every row of a view is the row of a root whose rows are all in the view. -/
theorem mem_allRows {row : Node} (h : row ∈ (ofRoots roots report).allRows) :
    ∃ root ∈ roots, row ∈ flatten root ∧
      ∀ other ∈ flatten root, other ∈ (ofRoots roots report).allRows := by
  obtain ⟨root, hmem, hrow⟩ := List.mem_flatMap.mp h
  have hroot : root ∈ roots := hmem
  obtain ⟨other, hother, _, hrows⟩ := rows_of_root report hroot
  rw [hrows] at hrow
  refine ⟨other, hother, hrow, fun r hr => List.mem_flatMap.mpr ⟨root, hroot, ?_⟩⟩
  rw [hrows]
  exact hr

theorem root_mem_allRows {root : Node} (h : root ∈ roots) :
    root.key ∈ (ofRoots roots report).allRows.map key := by
  obtain ⟨other, _, hkey, hrows⟩ := rows_of_root report h
  obtain ⟨row, hrow, heq⟩ := List.mem_map.mp (flatten_root other)
  refine List.mem_map.mpr ⟨row, List.mem_flatMap.mpr ⟨root, h, ?_⟩, heq.trans hkey⟩
  rw [hrows]
  exact hrow

end View

namespace Resolve

section

variable {σ : Type} {t : Tuning} {met : List String} {frontier roots : List Node}
  {levels : List (List Asked)} {before after : Ledger σ} {d : Nat} {n : Node}

theorem Expanded.opens (h : Expanded t met frontier roots levels before after)
    (hn : n ∈ atDepth d roots) {child : Node} (hchild : child ∈ n.childList) :
    ∃ code, n.record.code = some code ∧ Opens met roots d code := by
  by_contra hnone
  have hleaf := h.closed d n hn fun code hcode hopen => hnone ⟨code, hcode, hopen⟩
  rw [childList, hleaf] at hchild
  cases hchild

theorem Expanded.children_eq (h : Expanded t met frontier roots levels before after) {code : String}
    (hopen : Opens met roots d code) {n' : Node} (hn : n ∈ atDepth d roots)
    (hn' : n' ∈ atDepth d roots) (hcode : n.record.code = some code)
    (hcode' : n'.record.code = some code) : n.children = n'.children := by
  obtain ⟨s, children, _, _, hnodes⟩ := h.opened d code hopen
  rw [hnodes n hn hcode, hnodes n' hn' hcode']

end

/-- A row that stands for a node with children has the same children, or stands below the node. -/
theorem Expanded.row {σ : Type} {t : Tuning} {frontier roots : List Node}
    {levels : List (List Asked)} {before after : Ledger σ} {d : Nat} {n child root row : Node}
    (h : Expanded t [] frontier roots levels before after)
    (hcoded : ∀ d, ∀ n ∈ atDepth d roots, HasCode n) (hn : n ∈ atDepth d roots)
    (hchild : child ∈ n.childList) (hroot : root ∈ roots) (hrow : row ∈ flatten root)
    (hkey : row.key = n.key) : child ∈ row.childList ∨ (d : Int) < row.level := by
  obtain ⟨code, hcode, hopen⟩ := h.opens hn hchild
  obtain ⟨e, m, hm, hlevel, hrecord, hchildren⟩ := flatten_node hrow
  have hm : m ∈ atDepth e roots :=
    atDepth_mono (fun r hr => List.mem_singleton.mp hr ▸ hroot) e m hm
  obtain ⟨code', hcode', hne⟩ := hcoded e m hm
  have hsame : code' = code := by
    have hmkey : m.key = row.key := by simp only [Node.key, hrecord]
    rw [← key_of_code hcode' hne, hmkey, hkey, key_of_code hcode hopen.nonempty]
  subst hsame
  rcases Nat.lt_trichotomy e d with hlt | heq | hgt
  · exact absurd hcode' (hopen.first e hlt m hm)
  · subst heq
    left
    rwa [childList, hchildren, h.children_eq hopen hm hn hcode' hcode]
  · right
    omega

theorem resolve_of_load {σ : Type} {t : Tuning} {source : Source σ} {depth : Nat} {parent : String}
    {s : σ} {manner : Manner σ} {v : View} {ledger : Ledger σ}
    (h : load t source depth parent s manner = (.ok v, ledger)) :
    ∃ roots, resolve t source depth parent s manner = (.ok roots, ledger) ∧
      v = .ofRoots roots ledger.report := by
  unfold load at h
  split at h
  · rename_i roots ledger' hresolve
    cases h
    exact ⟨roots, hresolve, rfl⟩
  · cases h

/-- A view has a row for every code of its forest exactly if no children get lost where a row
stands below another node with its key: the children of that node have rows anyway. -/
theorem load_lists_codes {σ : Type} {t : Tuning} {source : Source σ} {depth : Nat} {parent : String}
    {s : σ} {manner : Manner σ} {v : View} {ledger : Ledger σ} (hwire : Wire source s)
    (h : load t source depth parent s manner = (.ok v, ledger))
    (hcoded : ∀ d, ∀ n ∈ atDepth d v.roots, HasCode n) :
    (∀ d, ∀ n ∈ atDepth d v.roots, n.key ∈ v.allRows.map key) ↔
      ∀ row ∈ v.allRows, ∀ d, ∀ n ∈ atDepth d v.roots, n.key = row.key → (d : Int) < row.level →
        ∀ child ∈ n.childList, child.key ∈ v.allRows.map key := by
  constructor
  · intro hall row _ d n hn _ _ child hchild
    exact hall (d + 1) child (mem_atDepth_succ.mpr ⟨n, hn, hchild⟩)
  · intro hlow
    obtain ⟨roots, hresolve, rfl⟩ := resolve_of_load h
    obtain ⟨_, levels, records, between, _, hexpanded⟩ := resolve_expanded hwire hresolve
    intro d
    -- The row of a parent lists the children, unless it stands deeper than the node that has them.
    induction d with
    | zero => exact fun n hn => View.root_mem_allRows hn
    | succ d ih =>
      intro n hn
      obtain ⟨p, hp, hchild⟩ := mem_atDepth_succ.mp hn
      obtain ⟨row, hrow, hkey⟩ := List.mem_map.mp (ih p hp)
      obtain ⟨root, hroot, hmem, hsub⟩ := View.mem_allRows hrow
      rcases hexpanded.row hcoded hp hchild hroot hmem hkey with hsame | hbelow
      · obtain ⟨r, hr, hkey⟩ := List.mem_map.mp (flatten_children hmem n hsame)
        exact List.mem_map.mpr ⟨r, hsub r hr, hkey⟩
      · exact hlow row hrow d p hp hkey.symm hbelow n hchild

theorem load_tangled : (load twice Script.source 4 "0" tangled .inSequence).1 =
    .ok (.ofRoots untangled ⟨5, 1, []⟩) := by
  cbv

theorem load_lists_codes_tangled : ∃ v,
    (load twice Script.source 4 "0" tangled .inSequence).1 = .ok v ∧
    v.allRows.map key = ["R", "A", "B", "S"] ∧
    ((∀ d, ∀ n ∈ atDepth d v.roots, n.key ∈ v.allRows.map key) ↔
      ∀ row ∈ v.allRows, ∀ d, ∀ n ∈ atDepth d v.roots, n.key = row.key → (d : Int) < row.level →
        ∀ child ∈ n.childList, child.key ∈ v.allRows.map key) := by
  have hwire : Wire Script.source tangled :=
    wire_script (by simp [Script.IsWire, tangled, brings, busy, Records.IsWire])
  refine ⟨_, load_tangled, by cbv, load_lists_codes hwire (Prod.ext load_tangled rfl) ?_⟩
  intro d n hn
  rcases d with _ | _ | _ | d <;>
    simp [View.ofRoots, untangled, atDepth, childList, coded, someChildren] at hn
  · rcases hn with rfl | rfl <;> exact ⟨_, rfl, by decide⟩
  · rcases hn with rfl | rfl <;> exact ⟨_, rfl, by decide⟩
  · rcases hn with rfl | rfl <;> exact ⟨_, rfl, by decide⟩
  · simp [atDepth_nil] at hn

/-- A code below two others, one of them above the other. -/
def overtaken : Script :=
  [("0", [brings ["R"]]), ("R", [brings ["A", "B"]]), ("A", [brings ["B"]]), ("B", [brings ["X"]])]

/-- The record of a node that was attached has no row. -/
theorem load_loses_code : ∃ v,
    (load twice Script.source overtaken.depth "0" overtaken .inSequence).1 = .ok v ∧
    ∃ n ∈ atDepth 2 v.roots, n.key = "X" ∧ v.allRows.map key = ["R", "A", "B"] := by
  refine ⟨.ofRoots [coded "R" [coded "A" [coded "B" []], coded "B" [coded "X" []]]] ⟨5, 0, []⟩,
    by cbv, coded "X" [], ?_, rfl, by cbv⟩
  simp [View.ofRoots, atDepth, childList, coded, someChildren]

end Resolve

end AdminConsole
