import AdminConsole.Proofs.Tree.Escapes

/-!
Views in colour. Each mark of a style is an escape sequence of its own or nothing, and it stands where
no sequence that a name, a path, a code or a reason has begun could go on. So every view says the same
in every style, once the escape sequences are taken out.
-/

namespace AdminConsole

open Style

/-- A style whose marks are escape sequences or nothing. -/
structure Style.Marked (style : Style) : Prop where
  reset : IsMark style.reset
  bold : IsMark style.bold
  dim : IsMark style.dim
  red : IsMark style.red

theorem Style.marked_plain : plain.Marked := ⟨.inl rfl, .inl rfl, .inl rfl, .inl rfl⟩

theorem Style.marked_colored : colored.Marked where
  reset := .inr ⟨['0'], List.all_eq_true.mp rfl, rfl⟩
  bold := .inr ⟨['1'], List.all_eq_true.mp rfl, rfl⟩
  dim := .inr ⟨['2'], List.all_eq_true.mp rfl, rfl⟩
  red := .inr ⟨['9', '1'], List.all_eq_true.mp rfl, rfl⟩

namespace View

/-! ### Views without escape sequences -/

/-- A row as it is shown when its own texts are stripped. -/
def bareLine (indent : Int) (row : Node) : String :=
  "  " ++ String.ofList (List.replicate (indent * row.level).toNat ' ') ++ marker row ++
    strip (label row) ++ " " ++ "[" ++ strip row.key ++ "]" ++
    if row.record.path.isPresent then "  " ++ strip row.record.path.plain else ""

def bareFailure (failure : String × String) : String :=
  "  " ++ "[!] children of " ++ strip failure.1 ++ " unavailable: " ++ strip failure.2

/-- How many roots and records a view has. -/
def counts (v : View) : String :=
  toString v.roots.length ++ " root(s), " ++ toString v.allRows.length ++ " record(s)"

/-- The lines of a view in a style. -/
def lines (style : Style) (v : View) : List String :=
  ["\n" ++ style.bold ++ bar ++ style.reset, "  " ++ style.bold ++ v.counts ++ style.reset,
      style.bold ++ bar ++ style.reset] ++
    (if v.allRows.isEmpty then [] else [renderRows style v.allRows 2]) ++
    v.report.sortedFailures.map (failureLine style) ++ [bar ++ "\n"]

/-- The lines of a view when each of its texts is stripped by itself. -/
def bareLines (v : View) : List String :=
  ["\n" ++ bar, "  " ++ v.counts, bar] ++
    (if v.allRows.isEmpty then []
      else ["\n".intercalate ((Node.visible v.allRows).map (bareLine 2))]) ++
    v.report.sortedFailures.map bareFailure ++ [bar ++ "\n"]

variable {style : Style}

/-! ### Texts that hold no escape character -/

theorem unescaped_toString (n : Nat) : '\x1b' ∉ (toString n).toList := by
  rw [Nat.toString_eq_repr, Nat.toList_repr]
  intro hmem
  have hdigit := Nat.isDigit_of_mem_toDigits (by decide) (by decide) hmem
  exact absurd hdigit (by decide)

theorem unescaped_counts (v : View) : '\x1b' ∉ v.counts.toList := by
  simp only [counts, String.toList_append, List.mem_append, not_or]
  exact ⟨⟨⟨unescaped_toString _, by decide⟩, unescaped_toString _⟩, by decide⟩

theorem unescaped_bar : '\x1b' ∉ bar.toList := by
  rw [bar, String.toList_ofList]
  intro hmem
  exact absurd (List.eq_of_mem_replicate hmem) (by decide)

theorem unescaped_marker (row : Node) : '\x1b' ∉ (marker row).toList := by
  unfold marker
  split
  · split <;> decide
  · decide

theorem unescaped_margin (indent : Int) (row : Node) :
    '\x1b' ∉ ("  " ++ String.ofList (List.replicate (indent * row.level).toNat ' ') ++
      marker row).toList := by
  simp only [String.toList_append, String.toList_ofList, List.mem_append, not_or]
  refine ⟨⟨by decide, fun hmem => ?_⟩, unescaped_marker row⟩
  exact absurd (List.eq_of_mem_replicate hmem) (by decide)

theorem strip_unescaped {s : String} (h : '\x1b' ∉ s.toList) : strip s = s := by
  have hkeep := strip_keep h ""
  rwa [String.append_empty, show strip "" = "" from rfl, String.append_empty] at hkeep

/-! ### Lines -/

/-- A text between two marks. -/
theorem strip_marked {before after : String} (hbefore : IsMark before) (hafter : IsMark after)
    (s : String) : strip (before ++ s ++ after) = strip s := by
  rw [hafter.append_strip, hbefore.strip_append]

theorem strip_label (h : style.Marked) (row : Node) :
    strip (if row.level = 0 then style.bold ++ label row ++ style.reset else label row) =
      strip (label row) := by
  split
  · exact strip_marked h.bold h.reset _
  · rfl

theorem strip_path (h : style.Marked) (row : Node) :
    strip (if row.record.path.isPresent then
        "  " ++ style.dim ++ row.record.path.plain ++ style.reset else "") =
      if row.record.path.isPresent then "  " ++ strip row.record.path.plain else "" := by
  split
  · rw [h.reset.append_strip, String.append_assoc, strip_keep (by decide), h.dim.strip_append]
  · rfl

theorem separates_space : Separates " " := ⟨⟨' ', [], rfl, rfl⟩, by decide⟩

theorem separates_bracket : Separates "]" := ⟨⟨']', [], rfl, rfl⟩, by decide⟩

theorem separates_newline : Separates "\n" := ⟨⟨'\n', [], rfl, rfl⟩, by decide⟩

theorem separates_unavailable : Separates " unavailable: " :=
  ⟨⟨' ', "unavailable: ".toList, rfl, rfl⟩, by decide⟩

theorem strip_line (h : style.Marked) (indent : Int) (row : Node) :
    strip (line style indent row) = bareLine indent row := by
  have hmargin := unescaped_margin indent row
  have hlabel := strip_label h row
  have hpath := strip_path h row
  simp only [line, bareLine]
  generalize "  " ++ String.ofList _ ++ marker row = margin at hmargin ⊢
  generalize (if row.level = 0 then _ else _) = shown at hlabel ⊢
  generalize (if row.record.path.isPresent = true then _ ++ style.reset else _) = path at hpath ⊢
  have hkey : strip (style.dim ++ ("[" ++ (row.key ++ ("]" ++ (style.reset ++ path))))) =
      "[" ++ (strip row.key ++ ("]" ++ strip path)) := by
    rw [h.dim.strip_append, strip_keep (by decide), separates_bracket.strip, h.reset.strip_append]
  calc strip (margin ++ shown ++ " " ++ style.dim ++ "[" ++ row.key ++ "]" ++ style.reset ++ path)
      = strip (margin ++ (shown ++ (" " ++ (style.dim ++ ("[" ++ (row.key ++
          ("]" ++ (style.reset ++ path)))))))) := by simp only [String.append_assoc]
    _ = margin ++ (strip shown ++ (" " ++ ("[" ++ (strip row.key ++ ("]" ++ strip path))))) := by
        rw [strip_keep hmargin, separates_space.strip, hkey]
    _ = margin ++ strip (label row) ++ " " ++ "[" ++ strip row.key ++ "]" ++ _ := by
        rw [hlabel, hpath]
        simp only [String.append_assoc]

theorem strip_renderRows (h : style.Marked) (rows : List Node) (indent : Int) :
    strip (renderRows style rows indent) =
      "\n".intercalate ((Node.visible rows).map (bareLine indent)) := by
  rw [renderRows]
  induction Node.visible rows with
  | nil => rfl
  | cons row rest ih =>
    cases rest with
    | nil => exact strip_line h indent row
    | cons next rest =>
      simp only [List.map_cons, String.intercalate_cons_cons] at ih ⊢
      rw [String.append_assoc, separates_newline.strip, ih, strip_line h, String.append_assoc]

theorem strip_failureLine (h : style.Marked) (failure : String × String) :
    strip (failureLine style failure) = bareFailure failure := by
  rw [failureLine, h.reset.append_strip]
  simp only [String.append_assoc]
  rw [strip_keep (by decide), h.red.strip_append, strip_keep (by decide),
    separates_unavailable.strip, bareFailure]
  simp only [String.append_assoc]

theorem strip_heading (h : style.Marked) {margin s : String} (hmargin : '\x1b' ∉ margin.toList)
    (hs : '\x1b' ∉ s.toList) :
    strip (margin ++ style.bold ++ s ++ style.reset) = margin ++ s := by
  rw [h.reset.append_strip, String.append_assoc, strip_keep hmargin, h.bold.strip_append,
    strip_unescaped hs]

/-! ### Whole views -/

theorem strip_lines (h : style.Marked) (v : View) :
    (lines style v).map strip = v.bareLines := by
  have hbar : strip (style.bold ++ bar ++ style.reset) = bar := by
    rw [strip_marked h.bold h.reset, strip_unescaped unescaped_bar]
  have hend : strip (bar ++ "\n") = bar ++ "\n" := by
    rw [strip_keep unescaped_bar]
    rfl
  have hfailures : (v.report.sortedFailures.map (failureLine style)).map strip =
      v.report.sortedFailures.map bareFailure := by
    rw [List.map_map]
    exact List.map_congr_left fun failure _ => strip_failureLine h failure
  simp only [lines, bareLines, List.map_append, List.map_cons, List.map_nil,
    strip_heading h (show '\x1b' ∉ "\n".toList by decide) unescaped_bar,
    strip_heading h (show '\x1b' ∉ "  ".toList by decide) (unescaped_counts v), hbar, hend, hfailures]
  split
  · rfl
  · rw [List.map_singleton, strip_renderRows h]

/-- A text of lines is stripped line by line. -/
theorem strip_join (ls : List String) :
    strip (String.join (ls.map (· ++ "\n"))) = String.join ((ls.map strip).map (· ++ "\n")) := by
  induction ls with
  | nil => rfl
  | cons l ls ih =>
    simp only [List.map_cons, String.join_cons, String.append_assoc] at ih ⊢
    rw [separates_newline.strip, ih]

theorem render_eq (style : Style) (v : View) :
    v.render style = String.join ((lines style v).map (· ++ "\n")) := by
  simp only [render, lines, counts, String.append_assoc]

theorem strip_render (h : style.Marked) (v : View) :
    strip (v.render style) = String.join (v.bareLines.map (· ++ "\n")) := by
  rw [render_eq, strip_join, strip_lines h]

/-- Colour only adds escape sequences: without them, a view is the same text in colour and in plain
style, whatever escape characters its names, paths, codes and reasons hold and whichever rows are
folded. -/
theorem strip_render_colored (v : View) :
    strip (v.render .colored) = strip (v.render .plain) := by
  rw [strip_render marked_colored, strip_render marked_plain]

end View

end AdminConsole
