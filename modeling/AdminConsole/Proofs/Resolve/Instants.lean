import AdminConsole.Resolve.Progress

/-!
The order of instants. Numbers are ordered, the two zeros alike, and what is no number has no place
among them. So an instant that comes no earlier than some other one is a number.
-/

namespace AdminConsole

namespace Binary64

instance : LE Binary64 := ⟨fun x y => x.isNan = false ∧ y.isNan = false ∧ y.lt x = false⟩

variable {x y z : Binary64}

theorem le_refl (h : x.isNan = false) : x ≤ x := ⟨h, h, Resolve.Binary64.lt_irrefl x⟩

theorem le_right (h : x ≤ y) : y ≤ y := le_refl h.2.1

theorem le_trans (h : x ≤ y) (h' : y ≤ z) : x ≤ z := by
  obtain ⟨hx, hy, hxy⟩ := h
  obtain ⟨_, hz, hyz⟩ := h'
  refine ⟨hx, hz, ?_⟩
  cases x with
  | nan => cases hx
  | infinite s =>
    cases y <;> cases z <;> cases s <;> simp_all [lt, isNan]
  | finite s m hm =>
    cases y <;> cases z <;> simp_all [lt, isNan]
    omega

theorem lt_asymm (h : x.lt y = true) : y.lt x = false := by
  cases x <;> cases y <;> simp_all [lt]
  omega

theorem le_of_lt (h : x.lt y = true) : x ≤ y := by
  refine ⟨?_, ?_, lt_asymm h⟩
  · cases x <;> first | rfl | cases h
  · cases y <;> first | rfl | (cases x <;> cases h)

theorem lt_of_le_of_lt (h : x ≤ y) (h' : y.lt z = true) : x.lt z = true := by
  obtain ⟨hx, _, hxy⟩ := h
  cases x with
  | nan => cases hx
  | infinite s => cases y <;> cases z <;> cases s <;> simp_all [lt]
  | finite s m hm =>
    cases y <;> cases z <;> simp_all [lt]
    omega

theorem le_latest_left (h : x ≤ x) (y : Binary64) : x ≤ x.latest y := by
  unfold latest
  split
  · rename_i hlt
    exact le_of_lt hlt
  · exact h

theorem le_infinite (h : x ≤ x) : x ≤ .infinite false := by
  refine ⟨h.1, rfl, ?_⟩
  cases x <;> simp_all [lt]

end Binary64

namespace Resolve

theorem le_instantAfter {now : Binary64} (h : now ≤ now) (seconds : Number) :
    now ≤ instantAfter now seconds := by
  unfold instantAfter
  split
  · exact Binary64.le_latest_left h _
  · exact Binary64.le_infinite h

/-- The instant after a pause, if there is one. -/
def afterPause (now : Binary64) : Option Number → Binary64
  | none => now
  | some seconds => instantAfter now seconds

theorem le_afterPause {now : Binary64} (h : now ≤ now) (pause : Option Number) :
    now ≤ afterPause now pause := by
  cases pause with
  | none => exact h
  | some seconds => exact le_instantAfter h seconds

end Resolve

end AdminConsole
