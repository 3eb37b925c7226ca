import AdminConsole.Proofs.Resolve.Books
import AdminConsole.Proofs.Resolve.InSequence
import AdminConsole.Proofs.Resolve.Wire
import AdminConsole.Proofs.Tree.Rows

/-!
The forest that a pass builds. A code is opened at the depth where it occurs first: the nodes with
it at that depth get the records of the one query for it, and every other node with it is a leaf.
-/

namespace AdminConsole

namespace Resolve

open Node

theorem LevelSettled.delivers {σ : Type} {t : Tuning} {source : Source σ} {place : Nat}
    {codes : List String} {settled : List Settled} {made : List Asked} {before after : Ledger σ}
    {P : Node → Prop} (h : LevelSettled t source place codes settled made before after)
    (hdelivers : Delivers source before.source P) : ∀ s ∈ settled, ∀ n ∈ s.nodes, P n := by
  intro s hs n hn
  obtain ⟨i, hi⟩ := List.mem_iff_getElem?.mp hs
  have hlt : i < codes.length := h.length_eq ▸ (List.getElem?_eq_some_iff.mp hi).1
  have hsettles := h.settles i codes[i] s (List.getElem?_eq_getElem hlt) hi
  cases s with
  | error e => cases hn
  | ok nodes =>
    exact hdelivers made _ h.answers _ (mem_outcomesFor.mp hsettles.mem_ok) nodes rfl n hn

theorem LevelSettled.delivers_flatten {σ : Type} {t : Tuning} {source : Source σ} {place : Nat}
    {codes : List String} {settled : List Settled} {made : List Asked} {before after : Ledger σ}
    {P : Node → Prop} (h : LevelSettled t source place codes settled made before after)
    (hdelivers : Delivers source before.source P) :
    ∀ n ∈ (settled.map Settled.nodes).flatten, P n := by
  intro n hn
  obtain ⟨_, hnodes, hn⟩ := List.mem_flatten.mp hn
  obtain ⟨s, hs, rfl⟩ := List.mem_map.mp hnodes
  exact h.delivers hdelivers s hs n hn

/-- A code is opened at a depth of a forest if it occurs there, is not empty, was not met before
and does not occur above. -/
structure Opens (met : List String) (roots : List Node) (d : Nat) (code : String) : Prop where
  nonempty : code ≠ ""
  fresh : code ∉ met
  occurs : ∃ n ∈ atDepth d roots, n.record.code = some code
  first : ∀ e < d, ∀ n ∈ atDepth e roots, n.record.code ≠ some code

theorem mem_freshCodes {met : List String} {ns : List Node} {code : String} :
    code ∈ freshCodes met ns ↔
      code ≠ "" ∧ code ∉ met ∧ ∃ n ∈ ns, n.record.code = some code := by
  induction ns generalizing met with
  | nil => simp [freshCodes]
  | cons n rest ih =>
    unfold freshCodes
    split
    · rename_i hcode
      simp [ih, hcode]
    · rename_i own hcode
      split
      · rename_i hmet
        rw [ih]
        simp only [List.mem_cons, exists_eq_or_imp, hcode, Option.some.injEq]
        constructor
        · intro hmem
          obtain ⟨hne, hfresh, hrest⟩ := hmem
          exact ⟨hne, hfresh, .inr hrest⟩
        · intro hmem
          rcases hmem with ⟨hne, hfresh, rfl | hrest⟩
          · rcases hmet with h | h
            · exact absurd h hne
            · exact absurd h hfresh
          · exact ⟨hne, hfresh, hrest⟩
      · rename_i hmet
        rw [not_or] at hmet
        simp only [List.mem_cons, ih, exists_eq_or_imp, hcode, Option.some.injEq, not_or]
        constructor
        · intro hmem
          rcases hmem with rfl | ⟨hne, ⟨_, hfresh⟩, hrest⟩
          · exact ⟨hmet.1, hmet.2, .inl rfl⟩
          · exact ⟨hne, hfresh, .inr hrest⟩
        · intro hmem
          rcases hmem with ⟨hne, hfresh, heq | hrest⟩
          · exact .inl heq.symm
          · by_cases heq : code = own
            · exact .inl heq
            · exact .inr ⟨hne, ⟨heq, hfresh⟩, hrest⟩

theorem nodup_freshCodes (met : List String) (ns : List Node) : (freshCodes met ns).Nodup := by
  induction ns generalizing met with
  | nil => exact .nil
  | cons n rest ih =>
    unfold freshCodes
    split
    · exact ih met
    · split
      · exact ih met
      · refine List.nodup_cons.mpr ⟨?_, ih _⟩
        intro hmem
        exact (mem_freshCodes.mp hmem).2.1 List.mem_cons_self

/-- Pieces of a list that looks like the given lists look like them. -/
theorem regroup_leaf {pieces : List (List Node)} {nodes : List Node}
    (h : nodes.map leaf = pieces.flatten) :
    (regroup pieces nodes).map (List.map leaf) = pieces ∧ (regroup pieces nodes).flatten = nodes := by
  induction pieces generalizing nodes with
  | nil => simpa [regroup] using h
  | cons piece pieces ih =>
    rw [List.flatten_cons] at h
    have hdrop : (nodes.drop piece.length).map leaf = pieces.flatten := by
      rw [List.map_drop, h, List.drop_left]
    have htake : (nodes.take piece.length).map leaf = piece := by
      rw [List.map_take, h, List.take_left]
    obtain ⟨hmap, hflatten⟩ := ih hdrop
    constructor
    · rw [regroup, List.map_cons, htake, hmap]
    · rw [regroup, List.flatten_cons, hflatten, List.take_append_drop]

theorem get?_zip {codes : List String} {groups : List (List Node)} (hnodup : codes.Nodup) {i : Nat}
    {code : String} {group : List Node} (hcode : codes[i]? = some code)
    (hgroup : groups[i]? = some group) : Entries.get? code (codes.zip groups) = some group := by
  induction codes generalizing groups i with
  | nil => simp at hcode
  | cons first codes ih =>
    obtain ⟨hfirst, hrest⟩ := List.nodup_cons.mp hnodup
    cases groups with
    | nil => simp at hgroup
    | cons head groups =>
      cases i with
      | zero =>
        cases hcode
        cases hgroup
        simp [Entries.get?]
      | succ i =>
        rw [List.getElem?_cons_succ] at hcode hgroup
        have hne : first ≠ code := fun h => hfirst (h ▸ List.mem_of_getElem? hcode)
        rw [List.zip_cons_cons, Entries.get?, if_neg hne]
        exact ih hrest hcode hgroup

theorem get?_zip_of_not_mem {codes : List String} {code : String} (h : code ∉ codes)
    (groups : List (List Node)) : Entries.get? code (codes.zip groups) = none := by
  induction codes generalizing groups with
  | nil => rfl
  | cons first codes ih =>
    rw [List.mem_cons, not_or] at h
    cases groups with
    | nil => rfl
    | cons head groups =>
      rw [List.zip_cons_cons, Entries.get?, if_neg (Ne.symm h.1)]
      exact ih h.2 groups

@[simp] theorem attach_record (found : Entries (List Node)) (n : Node) :
    (attach found n).record = n.record := by
  unfold attach
  split <;> rfl

theorem attach_leaf (found : Entries (List Node)) (n : Node) :
    (attach found n).leaf = n.leaf := by
  unfold attach
  split <;> rfl

theorem attach_children {found : Entries (List Node)} {n : Node} {code : String}
    {group : List Node} (hn : n.children = none) (hcode : n.record.code = some code)
    (hgroup : Entries.get? code found = some group) :
    (attach found n).children = someChildren group := by
  unfold attach
  rw [hcode, Option.bind_some, hgroup]
  cases group with
  | nil => exact hn
  | cons => rfl

theorem attach_children_none {found : Entries (List Node)} {n : Node} (hn : n.children = none)
    (h : ∀ code, n.record.code = some code → Entries.get? code found = none) :
    (attach found n).children = none := by
  unfold attach
  cases hcode : n.record.code with
  | none => exact hn
  | some code =>
    rw [Option.bind_some, h code hcode]
    exact hn

theorem childList_of_someChildren {n : Node} {group : List Node}
    (h : n.children = someChildren group) : n.childList = group := by
  rw [childList, h]
  cases group <;> rfl

/-- The level below a frontier that was attached to it. -/
theorem mem_childList_attach (met : List String) {frontier below : List Node}
    {found : List (List Node)} (hleaves : ∀ n ∈ frontier, n.children = none)
    (hlength : found.length = (freshCodes met frontier).length)
    (hbelow : below.map leaf = found.flatten) (child : Node) :
    child ∈ (frontier.map (attach ((freshCodes met frontier).zip (regroup found below)))).flatMap
      childList ↔ child ∈ below := by
  obtain ⟨hmap, hflatten⟩ := regroup_leaf hbelow
  have hgroups : (regroup found below).length = (freshCodes met frontier).length := by
    rw [← hlength, ← congrArg List.length hmap, List.length_map]
  generalize regroup found below = groups at hflatten hgroups
  subst hflatten
  have hnodup := nodup_freshCodes met frontier
  simp only [List.mem_flatMap, List.mem_map, exists_exists_and_eq_and, List.mem_flatten]
  constructor
  · intro hmem
    obtain ⟨n, hn, hchild⟩ := hmem
    by_cases hopen : ∃ code ∈ freshCodes met frontier, n.record.code = some code
    · obtain ⟨code, hmem, hcode⟩ := hopen
      obtain ⟨i, hi⟩ := List.mem_iff_getElem?.mp hmem
      have hlt : i < groups.length := hgroups ▸ (List.getElem?_eq_some_iff.mp hi).1
      have hget := get?_zip hnodup hi (List.getElem?_eq_getElem hlt)
      rw [childList_of_someChildren (attach_children (hleaves n hn) hcode hget)] at hchild
      exact ⟨groups[i], List.getElem_mem hlt, hchild⟩
    · have hnone : (attach ((freshCodes met frontier).zip groups) n).children = none := by
        apply attach_children_none (hleaves n hn)
        intro code hcode
        exact get?_zip_of_not_mem (fun hmem => hopen ⟨code, hmem, hcode⟩) groups
      rw [childList, hnone] at hchild
      cases hchild
  · intro hmem
    obtain ⟨group, hgroup, hchild⟩ := hmem
    obtain ⟨i, hi⟩ := List.mem_iff_getElem?.mp hgroup
    have hlt : i < (freshCodes met frontier).length :=
      hgroups ▸ (List.getElem?_eq_some_iff.mp hi).1
    obtain ⟨_, _, n, hn, hcode⟩ := mem_freshCodes.mp (List.getElem_mem hlt)
    have hget := get?_zip hnodup (List.getElem?_eq_getElem hlt) hi
    refine ⟨n, hn, ?_⟩
    rw [childList_of_someChildren (attach_children (hleaves n hn) hcode hget)]
    exact hchild

theorem opens_zero {met : List String} {frontier : List Node} {found : Entries (List Node)}
    {code : String} :
    Opens met (frontier.map (attach found)) 0 code ↔ code ∈ freshCodes met frontier := by
  rw [mem_freshCodes]
  constructor
  · intro hopens
    obtain ⟨hne, hfresh, hoccurs, _⟩ := hopens
    exact ⟨hne, hfresh, by simpa [atDepth] using hoccurs⟩
  · intro hmem
    obtain ⟨hne, hfresh, hoccurs⟩ := hmem
    exact ⟨hne, hfresh, by simpa [atDepth] using hoccurs, fun e he => absurd he (Nat.not_lt_zero e)⟩

/-- Below the top, a code is opened where it is opened with the codes of the top met. -/
theorem opens_succ {met codes : List String} {roots below : List Node}
    (hcodes : ∀ code, Opens met roots 0 code ↔ code ∈ codes)
    (hbelow : ∀ n, n ∈ roots.flatMap childList ↔ n ∈ below) (d : Nat) (code : String) :
    Opens met roots (d + 1) code ↔ Opens (codes ++ met) below d code := by
  have hmem := fun e => mem_atDepth_congr hbelow e
  constructor
  · intro hopens
    obtain ⟨hne, hfresh, ⟨n, hn, hcode⟩, hfirst⟩ := hopens
    refine ⟨hne, ?_, ⟨n, (hmem d n).mp hn, hcode⟩, ?_⟩
    · rw [List.mem_append, not_or]
      refine ⟨fun hopen => ?_, hfresh⟩
      obtain ⟨n', hn', hcode'⟩ := ((hcodes code).mpr hopen).occurs
      exact hfirst 0 (Nat.succ_pos d) n' hn' hcode'
    · intro e he n' hn'
      exact hfirst (e + 1) (Nat.succ_lt_succ he) n' ((hmem e n').mpr hn')
  · intro hopens
    obtain ⟨hne, hfresh, ⟨n, hn, hcode⟩, hfirst⟩ := hopens
    rw [List.mem_append, not_or] at hfresh
    refine ⟨hne, hfresh.2, ⟨n, (hmem d n).mpr hn, hcode⟩, ?_⟩
    intro e he n' hn' hcode'
    cases e with
    | zero =>
      exact hfresh.1 ((hcodes code).mp
        ⟨hne, hfresh.2, ⟨n', hn', hcode'⟩, fun e he => absurd he (Nat.not_lt_zero e)⟩)
    | succ e => exact hfirst e (Nat.lt_of_succ_lt_succ he) n' ((hmem e n').mp hn') hcode'

def Fails (t : Tuning) (met : List String) (roots : List Node) (levels : List (List Asked))
    (code : String) (e : FetchError) : Prop :=
  ∃ d, Opens met roots d code ∧ Settles t (outcomesFor code (levels.getD d [])) (.error e)

section Fails

variable {t : Tuning} {met codes : List String} {roots below : List Node} {made : List Asked}
  {levels : List (List Asked)} {code : String}

theorem not_fails_of_met (h : code ∈ met) (e : FetchError) : ¬ Fails t met roots levels code e := by
  intro hfails
  obtain ⟨d, hopen, _⟩ := hfails
  exact hopen.fresh h

/-- A code that is opened at the top fails if its query does there. -/
theorem fails_top {s : Settled} (hcodes : ∀ code, Opens met roots 0 code ↔ code ∈ codes)
    (hdeep : ∀ d code, Opens met roots (d + 1) code ↔ Opens (codes ++ met) below d code)
    (hcode : code ∈ codes) (hsettles : Settles t (outcomesFor code made) s) (e : FetchError) :
    Fails t met roots (made :: levels) code e ↔ s = .error e := by
  constructor
  · intro hfails
    obtain ⟨d, hopen, hfailed⟩ := hfails
    cases d with
    | zero => exact hsettles.unique hfailed
    | succ d => exact absurd (List.mem_append_left met hcode) ((hdeep d code).mp hopen).fresh
  · intro hs
    subst hs
    exact ⟨0, (hcodes code).mpr hcode, hsettles⟩

theorem fails_succ (hcodes : ∀ code, Opens met roots 0 code ↔ code ∈ codes)
    (hdeep : ∀ d code, Opens met roots (d + 1) code ↔ Opens (codes ++ met) below d code)
    (hcode : code ∉ codes) (e : FetchError) :
    Fails t met roots (made :: levels) code e ↔ Fails t (codes ++ met) below levels code e := by
  constructor
  · intro hfails
    obtain ⟨d, hopen, hsettles⟩ := hfails
    cases d with
    | zero => exact absurd ((hcodes code).mp hopen) hcode
    | succ d => exact ⟨d, (hdeep d code).mp hopen, hsettles⟩
  · intro hfails
    obtain ⟨d, hopen, hsettles⟩ := hfails
    exact ⟨d + 1, (hdeep d code).mpr hopen, hsettles⟩

end Fails

/-- The query and the group of nodes of a code of a level. -/
theorem LevelSettled.group {σ : Type} {t : Tuning} {source : Source σ} {codes : List String}
    {settled : List Settled} {made : List Asked} {before after : Ledger σ}
    {groups : List (List Node)} (h : LevelSettled t source 0 codes settled made before after)
    (hmap : groups.map (fun group => group.map leaf) = settled.map Settled.nodes) {code : String}
    (hcode : code ∈ codes) : ∃ (i : Nat) (s : Settled) (group : List Node),
      codes[i]? = some code ∧ settled[i]? = some s ∧ groups[i]? = some group ∧
        group.map leaf = s.nodes := by
  obtain ⟨i, s, hi, hs⟩ := h.query hcode
  have hgroup := congrArg (fun pieces => pieces[i]?) hmap
  simp only [List.getElem?_map, hs, Option.map_some, Option.map_eq_some_iff] at hgroup
  obtain ⟨group, hget, hgroup⟩ := hgroup
  exact ⟨i, s, group, hi, hs, hget, hgroup⟩

/-- What was built on a frontier, given the codes met above it: the requests of each level, and
the books before and after. -/
structure Expanded {σ : Type} (t : Tuning) (met : List String) (frontier roots : List Node)
    (levels : List (List Asked)) (before after : Ledger σ) : Prop where
  log : after.log = before.log ++ levels.flatten
  leaves : roots.map leaf = frontier
  closed : ∀ d, ∀ n ∈ atDepth d roots,
    (∀ code, n.record.code = some code → ¬ Opens met roots d code) → n.children = none
  opened : ∀ d code, Opens met roots d code → ∃ s children,
    Settles t (outcomesFor code (levels.getD d [])) s ∧ children.map leaf = s.nodes ∧
      ∀ n ∈ atDepth d roots, n.record.code = some code → n.children = someChildren children
  asked : ∀ d, ∀ a ∈ levels.getD d [], Opens met roots d a.code
  failed : ∀ code message, Entries.get? code after.report.failed = some message ↔
    (∃ e, Fails t met roots levels code e ∧ e.message = message) ∨
    ((∀ e, ¬ Fails t met roots levels code e) ∧
      Entries.get? code before.report.failed = some message)

theorem Expanded.refl {σ : Type} {t : Tuning} {met : List String} {frontier : List Node}
    (ledger : Ledger σ) (hleaves : ∀ n ∈ frontier, n.children = none)
    (hfresh : freshCodes met frontier = []) :
    Expanded t met frontier frontier [] ledger ledger := by
  have hnone : frontier.flatMap childList = [] := by
    rw [List.flatMap_eq_nil_iff]
    intro n hn
    rw [childList, hleaves n hn]
    rfl
  have hdeep : ∀ d, atDepth (d + 1) frontier = [] := by
    intro d
    rw [atDepth, hnone, atDepth_nil]
  have hopens : ∀ d code, ¬ Opens met frontier d code := by
    intro d code hopens
    obtain ⟨hne, hmet, ⟨n, hn, hcode⟩, _⟩ := hopens
    cases d with
    | zero =>
      have hmem : code ∈ freshCodes met frontier := mem_freshCodes.mpr ⟨hne, hmet, n, hn, hcode⟩
      rw [hfresh] at hmem
      cases hmem
    | succ d =>
      rw [hdeep] at hn
      cases hn
  refine ⟨by simp, ?_, ?_, fun d code hopen => absurd hopen (hopens d code), by simp, ?_⟩
  · exact (List.map_congr_left fun n hn => leaf_of_children (hleaves n hn)).trans
      (List.map_id frontier)
  · intro d n hn _
    cases d with
    | zero => exact hleaves n hn
    | succ d =>
      rw [hdeep] at hn
      cases hn
  · intro code message
    simp [Fails, hopens]

theorem Expanded.level {σ : Type} {t : Tuning} {source : Source σ} {met : List String}
    {frontier below : List Node} {settled : List Settled} {made : List Asked}
    {levels : List (List Asked)} {before between after : Ledger σ}
    (hleaves : ∀ n ∈ frontier, n.children = none)
    (hlevel : LevelSettled t source 0 (freshCodes met frontier) settled made before between)
    (hbelow : Expanded t (freshCodes met frontier ++ met) (settled.map Settled.nodes).flatten below
      levels between after) :
    Expanded t met frontier (frontier.map (attach
      ((freshCodes met frontier).zip (regroup (settled.map Settled.nodes) below))))
      (made :: levels) before after := by
  obtain ⟨hmap, _⟩ := regroup_leaf hbelow.leaves
  have hnodup := nodup_freshCodes met frontier
  have hchild := mem_childList_attach met hleaves (by simp [hlevel.length_eq]) hbelow.leaves
  generalize hgroups : regroup (settled.map Settled.nodes) below = groups at hmap hchild ⊢
  have htop : ∀ code, Opens met (frontier.map (attach ((freshCodes met frontier).zip groups))) 0 code ↔
      code ∈ freshCodes met frontier := fun code => opens_zero
  have hdeep := opens_succ htop hchild
  refine ⟨?_, ?_, ?_, ?_, ?_, ?_⟩
  · rw [hbelow.log, hlevel.log, List.flatten_cons, List.append_assoc]
  · rw [List.map_map]
    refine (List.map_congr_left fun n hn => ?_).trans (List.map_id frontier)
    exact (attach_leaf _ n).trans (leaf_of_children (hleaves n hn))
  · intro d n hn hclosed
    cases d with
    | zero =>
      obtain ⟨n, hmem, rfl⟩ := List.mem_map.mp hn
      apply attach_children_none (hleaves n hmem)
      intro code hcode
      apply get?_zip_of_not_mem
      exact fun hopen => hclosed code (by simpa using hcode) ((htop code).mpr hopen)
    | succ d =>
      apply hbelow.closed d n ((mem_atDepth_congr hchild d n).mp hn)
      exact fun code hcode hopen => hclosed code hcode ((hdeep d code).mpr hopen)
  · intro d code hopen
    cases d with
    | zero =>
      obtain ⟨i, s, group, hi, hs, hget, hgroup⟩ := hlevel.group hmap ((htop code).mp hopen)
      refine ⟨s, group, hlevel.settles i code s hi hs, hgroup, ?_⟩
      intro n hn hcode
      obtain ⟨n, hmem, rfl⟩ := List.mem_map.mp hn
      rw [attach_record] at hcode
      exact attach_children (hleaves n hmem) hcode (get?_zip hnodup hi hget)
    | succ d =>
      obtain ⟨s, children, hsettles, hchildren, hnodes⟩ :=
        hbelow.opened d code ((hdeep d code).mp hopen)
      refine ⟨s, children, hsettles, hchildren, ?_⟩
      intro n hn hcode
      exact hnodes n ((mem_atDepth_congr hchild d n).mp hn) hcode
  · intro d a ha
    cases d with
    | zero => exact (htop a.code).mpr (hlevel.asked a ha)
    | succ d => exact (hdeep d a.code).mpr (hbelow.asked d a ha)
  · intro code message
    rw [hbelow.failed code message]
    by_cases hcode : code ∈ freshCodes met frontier
    · obtain ⟨i, s, _, hi, hs, _, _⟩ := hlevel.group hmap hcode
      have hnone : ∀ e, ¬ Fails t (freshCodes met frontier ++ met) below levels code e :=
        not_fails_of_met (List.mem_append_left met hcode)
      simp only [fails_top htop hdeep hcode (hlevel.settles i code s hi hs), hnone,
        hlevel.failed i code s hi hs]
      cases s <;> simp
    · simp only [fails_succ htop hdeep hcode, hlevel.kept code hcode]

/-- How the nodes of a frontier are resolved: nothing is opened, or a level is settled and the nodes
found are resolved in turn, or something ends the pass. -/
inductive Descent {S : Type} (gather : Gather S) :
    Nat → List String → List Node → S → Except Halt (List Node) → S → Prop where
  | done {depth met frontier state} : freshCodes met frontier = [] →
    Descent gather depth met frontier state (.ok frontier) state
  | tooDeep {met frontier state} : freshCodes met frontier ≠ [] →
    Descent gather 0 met frontier state (.error .tooDeep) state
  | stopped {depth met frontier state stop after} : freshCodes met frontier ≠ [] →
    gather (freshCodes met frontier) state = (.error stop, after) →
    Descent gather (depth + 1) met frontier state (.error (.stopped stop)) after
  | halted {depth met frontier state settled between halt after} : freshCodes met frontier ≠ [] →
    gather (freshCodes met frontier) state = (.ok settled, between) →
    Descent gather depth (freshCodes met frontier ++ met) (settled.map Settled.nodes).flatten
      between (.error halt) after →
    Descent gather (depth + 1) met frontier state (.error halt) after
  | level {depth met frontier state settled between below after} : freshCodes met frontier ≠ [] →
    gather (freshCodes met frontier) state = (.ok settled, between) →
    Descent gather depth (freshCodes met frontier ++ met) (settled.map Settled.nodes).flatten
      between (.ok below) after →
    Descent gather (depth + 1) met frontier state (.ok (frontier.map (attach
      ((freshCodes met frontier).zip (regroup (settled.map Settled.nodes) below))))) after

theorem expand_descent {S : Type} (gather : Gather S) (depth : Nat) (met : List String)
    (frontier : List Node) (state : S) :
    Descent gather depth met frontier state (expand gather depth met frontier state).1
      (expand gather depth met frontier state).2 := by
  induction depth generalizing met frontier state with
  | zero =>
    unfold expand
    split
    · rename_i hfresh
      exact .done hfresh
    · rename_i hfresh _
      exact .tooDeep (by simp [hfresh])
    · rename_i heq
      cases heq
  | succ depth ih =>
    unfold expand
    split
    · rename_i hfresh
      exact .done hfresh
    · rename_i heq
      cases heq
    · rename_i hfresh heq
      cases heq
      rw [← hfresh]
      have hopened : freshCodes met frontier ≠ [] := by simp [hfresh]
      split
      · rename_i hstopped
        exact .stopped hopened hstopped
      · rename_i settled between hsettled
        have hbelow := ih (freshCodes met frontier ++ met) (settled.map Settled.nodes).flatten between
        dsimp only
        split
        · rename_i heq
          rw [heq] at hbelow
          exact .halted hopened hsettled hbelow
        · rename_i heq
          rw [heq] at hbelow
          exact .level hopened hsettled hbelow

def Settling {σ S : Type} (t : Tuning) (source : Source σ) (ledger : S → Ledger σ)
    (gather : Gather S) : Prop :=
  ∀ codes state settled state', codes.Nodup → gather codes state = (.ok settled, state') →
    ∃ made, LevelSettled t source 0 codes settled made (ledger state) (ledger state')

section

variable {σ S : Type} {t : Tuning} {source : Source σ} {ledger : S → Ledger σ} {gather : Gather S}

theorem settling_inSequence (t : Tuning) (source : Source σ) :
    Settling t source Pass.ledger (inSequence t source) :=
  fun _ _ _ _ hnodup h => settleFrom_settled hnodup h

theorem settling_onSchedule (t : Tuning) (source : Source σ) (cancelAt : Option Binary64)
    (order : Order σ) : Settling t source Timeline.ledger (onSchedule t source cancelAt order) :=
  fun _ _ _ _ hnodup h => onSchedule_settled hnodup h

theorem Descent.expanded (hgather : Settling t source ledger gather) {depth : Nat}
    {met : List String} {frontier roots : List Node} {state state' : S}
    (h : Descent gather depth met frontier state (.ok roots) state')
    (hwire : Wire source (ledger state).source) (hleaves : ∀ n ∈ frontier, n.children = none) :
    ∃ levels, Expanded t met frontier roots levels (ledger state) (ledger state') := by
  generalize hresult : Except.ok roots = result at h
  induction h generalizing roots with
  | done hfresh =>
    cases hresult
    exact ⟨[], .refl _ hleaves hfresh⟩
  | tooDeep => cases hresult
  | stopped => cases hresult
  | halted => cases hresult
  | level _ hsettled _ ih =>
    cases hresult
    obtain ⟨made, hlevel⟩ := hgather _ _ _ _ (nodup_freshCodes _ _) hsettled
    have hdown := hlevel.delivers_flatten hwire
    obtain ⟨levels, hlevels⟩ := ih (hwire.after hlevel.answers) hdown rfl
    exact ⟨made :: levels, .level hleaves hlevel hlevels⟩

theorem forest_spec (hgather : Settling t source ledger gather) {depth : Nat} {parent : String}
    {roots : List Node} {state state' : S} (hwire : Wire source (ledger state).source)
    (h : forest gather depth parent state = (.ok roots, state')) :
    ∃ first levels records between,
      LevelSettled t source 0 [parent] [.ok records] first (ledger state) between ∧
        Expanded t [] records roots levels between (ledger state') := by
  unfold forest at h
  split at h
  · cases h
  · rename_i settled between hsettled
    obtain ⟨first, hfirst⟩ := hgather _ _ _ _ (by simp) hsettled
    split at h
    · have hlength := hfirst.length_eq
      simp at hlength
    · cases h
    · rename_i records rest
      obtain rfl : rest = [] := by simpa using hfirst.length_eq
      have hleaves := hfirst.delivers hwire (.ok records) List.mem_cons_self
      have hdescent := expand_descent gather depth [] records between
      rw [h] at hdescent
      obtain ⟨levels, hlevels⟩ :=
        hdescent.expanded hgather (hwire.after hfirst.answers) hleaves
      exact ⟨first, levels, records, _, hfirst, hlevels⟩

end

theorem resolve_expanded {σ : Type} {t : Tuning} {source : Source σ} {depth : Nat}
    {parent : String} {s : σ} {manner : Manner σ} {roots : List Node} {ledger : Ledger σ}
    (hwire : Wire source s) (h : resolve t source depth parent s manner = (.ok roots, ledger)) :
    ∃ first levels records between,
      LevelSettled t source 0 [parent] [.ok records] first ⟨s, [], .empty⟩ between ∧
        Expanded t [] records roots levels between ledger := by
  cases manner with
  | inSequence =>
    simp only [resolve, Prod.mk.injEq] at h
    obtain ⟨hroots, rfl⟩ := h
    refine forest_spec (settling_inSequence t source) ?_ (Prod.ext hroots rfl)
    exact hwire
  | onSchedule cancelAt order =>
    simp only [resolve, Prod.mk.injEq] at h
    obtain ⟨hroots, rfl⟩ := h
    refine forest_spec (settling_onSchedule t source cancelAt order) ?_ (Prod.ext hroots rfl)
    exact hwire

end Resolve

end AdminConsole
