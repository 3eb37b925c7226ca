import AdminConsole.Proofs.Resolve.Queries

/-!
Sources of wire records. A record that was read from an answer has no children of its own; only a
source inside the process could hand out nodes with children.
-/

namespace AdminConsole

def Records.IsWire : Records → Prop
  | .value _ => True
  | .items given => ∀ n, .node n ∈ given → n.children = none

theorem Records.wire_nodesOfItems {parent : Option String} {items : List Item} {nodes : List Node}
    (hwire : ∀ n, .node n ∈ items → n.children = none)
    (h : nodesOfItems parent items = .ok nodes) : ∀ n ∈ nodes, n.children = none := by
  induction items generalizing nodes with
  | nil =>
    cases h
    simp
  | cons item rest ih =>
    have hrest := @ih
    cases hitem : nodeOf parent item with
    | error e =>
      rw [nodesOfItems, hitem] at h
      cases h
    | ok first =>
      cases htail : nodesOfItems parent rest with
      | error e =>
        rw [nodesOfItems, hitem, htail] at h
        cases h
      | ok tail =>
        rw [nodesOfItems, hitem, htail] at h
        cases h
        intro n hn
        rcases List.mem_cons.mp hn with rfl | hn
        · cases item with
          | node given =>
            cases hitem
            exact hwire n List.mem_cons_self
          | value v =>
            cases v with
            | object entries =>
              cases hitem
              rfl
            | _ => cases hitem
        · exact ih (fun n hmem => hwire n (List.mem_cons_of_mem _ hmem)) htail n hn

theorem Records.IsWire.nodes {parent : Option String} {records : Records} {nodes : List Node}
    (hwire : records.IsWire) (h : records.nodes parent = .ok nodes) :
    ∀ n ∈ nodes, n.children = none := by
  cases records with
  | items given => exact wire_nodesOfItems hwire h
  | value v =>
    simp only [Records.nodes] at h
    split at h
    · exact wire_nodesOfItems (by simp) h
    · cases h

/-- The error of a refused answer names the parent; the nodes of an accepted one do not. -/
theorem Records.nodes_parent {records : Records} {parent : Option String} {nodes : List Node}
    (h : records.nodes parent = .ok nodes) (other : Option String) :
    records.nodes other = .ok nodes := by
  have hitems : ∀ items nodes, nodesOfItems parent items = .ok nodes →
      nodesOfItems other items = .ok nodes := by
    intro items
    induction items with
    | nil => exact fun _ h => h
    | cons item rest ih =>
      intro nodes h
      have hitem : ∀ n, nodeOf parent item = .ok n → nodeOf other item = .ok n := by
        intro n hn
        cases item with
        | node => exact hn
        | value v => cases v with
        | object entries => exact hn
        | _ => cases hn
      cases hfirst : nodeOf parent item with
      | error e =>
        rw [nodesOfItems, hfirst] at h
        cases h
      | ok first =>
        cases htail : nodesOfItems parent rest with
        | error e =>
          rw [nodesOfItems, hfirst, htail] at h
          cases h
        | ok tail =>
          rw [nodesOfItems, hfirst, htail] at h
          rw [nodesOfItems, hitem first hfirst, ih tail htail]
          exact h
  cases records with
  | items given => exact hitems given nodes h
  | value v =>
    simp only [Records.nodes] at h ⊢
    split at h
    · exact hitems _ nodes h
    · cases h

/-- Scripts whose records all give nodes of a kind. -/
def Script.Gives (P : Node → Prop) (script : Script) : Prop :=
  ∀ entry ∈ script, ∀ r ∈ entry.2, ∀ records, r.result = .ok records →
    ∀ parent nodes, records.nodes parent = .ok nodes → ∀ n ∈ nodes, P n

def Script.IsWire (script : Script) : Prop :=
  ∀ entry ∈ script, ∀ r ∈ entry.2, ∀ records, r.result = .ok records → records.IsWire

namespace Resolve

variable {σ : Type} {source : Source σ} {s s' : σ} {P : Node → Prop}

/-- From a state on, a source answers with nodes of a kind. -/
def Delivers (source : Source σ) (s : σ) (P : Node → Prop) : Prop :=
  ∀ made s', Answers source s made s' → ∀ a ∈ made, ∀ nodes, a.outcome = .ok nodes →
    ∀ n ∈ nodes, P n

def Wire (source : Source σ) (s : σ) : Prop := Delivers source s fun n => n.children = none

theorem Delivers.after {made : List Asked} (h : Delivers source s P)
    (hanswers : Answers source s made s') : Delivers source s' P := by
  intro more s'' hmore a ha
  exact h (made ++ more) s'' (hanswers.append hmore) a (List.mem_append_right made ha)

theorem Delivers.mono {Q : Node → Prop} (h : Delivers source s P) (himp : ∀ n, P n → Q n) :
    Delivers source s Q :=
  fun made s' hanswers a ha nodes hok n hn => himp n (h made s' hanswers a ha nodes hok n hn)

/-- A source delivers nodes of a kind as long as its state is good for them. -/
theorem delivers_of_invariant (good : σ → Prop) (hs : good s)
    (hkept : ∀ code s, good s → good (source code s).2)
    (hgives : ∀ code s nodes, good s → (source code s).1.outcome = .ok nodes →
      ∀ n ∈ nodes, P n) : Delivers source s P := by
  intro made s' h
  suffices good s' ∧ ∀ a ∈ made, ∀ nodes, a.outcome = .ok nodes → ∀ n ∈ nodes, P n from this.2
  induction h with
  | nil => exact ⟨hs, by simp⟩
  | snoc code _ ih =>
    refine ⟨hkept code _ ih.1, fun a ha nodes hok => ?_⟩
    rcases List.mem_append.mp ha with ha | ha
    · exact ih.2 a ha nodes hok
    · obtain rfl := List.mem_singleton.mp ha
      exact hgives code _ nodes ih.1 hok

theorem delivers_script {script : Script} (h : script.Gives P) :
    Delivers Script.source script P := by
  refine delivers_of_invariant (Script.Gives P) h (fun code s hs => ?_) fun code s nodes hs hok => ?_
  · simp only [Script.source, Script.next]
    split
    · rename_i first second rest hget
      intro entry hentry r hr
      rcases Entries.mem_put hentry with hentry | rfl
      · exact hs entry hentry r hr
      · exact hs _ (Entries.mem_of_get? hget) r (List.mem_cons_of_mem _ hr)
    · exact hs
    · exact hs
  · have hreply : ∀ r ∈ (Script.next code s).1, ∀ records, r.result = .ok records →
        ∀ parent nodes, records.nodes parent = .ok nodes → ∀ n ∈ nodes, P n := by
      intro r hr
      simp only [Script.next] at hr
      split at hr
      · rename_i hget
        cases hr
        exact hs _ (Entries.mem_of_get? hget) _ List.mem_cons_self
      · rename_i hget
        cases hr
        exact hs _ (Entries.mem_of_get? hget) _ List.mem_cons_self
      · cases hr
    simp only [Script.source] at hok
    generalize (Script.next code s).1 = reaction at hreply hok
    cases reaction with
    | none =>
      cases hok
      simp
    | some r =>
      obtain ⟨delay, result⟩ := r
      cases result with
      | error failure => cases hok
      | ok records =>
        simp only [Script.replyOf] at hok
        cases hnodes : records.nodes (some code) with
        | error e =>
          rw [hnodes] at hok
          cases hok
        | ok given =>
          rw [hnodes] at hok
          cases hok
          exact hreply _ rfl records rfl (some code) _ hnodes

theorem wire_script {script : Script} (h : script.IsWire) : Wire Script.source script := by
  apply delivers_script
  intro entry hentry r hr records hrecords parent nodes hnodes
  exact (h entry hentry r hr records hrecords).nodes hnodes

end Resolve

end AdminConsole
