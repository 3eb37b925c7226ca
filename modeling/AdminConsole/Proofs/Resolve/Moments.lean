import AdminConsole.Proofs.Resolve.Expansion

/-!
The moments of a pass. A pass goes through rounds, one for each level that it asks for, and each
round begins in the state in which the one before it was left. A round on schedule goes through
moments, one for each step of its level. What holds where a round begins and is kept by every step
holds at all moments of the pass.
-/

namespace AdminConsole.Resolve

section Rounds

variable {S : Type} {gather : Gather S}

/-- A round: the codes of a level, the state before, what the queries came to, the state after. -/
structure Round (S : Type) where
  codes : List String
  before : S
  outcome : Except Stop (List Settled)
  after : S

/-- The rounds in which the nodes of a frontier are resolved. -/
def roundsBelow (gather : Gather S) (depth : Nat) (met : List String) (frontier : List Node)
    (state : S) : List (Round S) :=
  match freshCodes met frontier, depth with
  | [], _ => []
  | _ :: _, 0 => []
  | code :: codes, depth + 1 =>
    match gather (code :: codes) state with
    | (.error stop, after) => [⟨code :: codes, state, .error stop, after⟩]
    | (.ok settled, after) =>
      ⟨code :: codes, state, .ok settled, after⟩ ::
        roundsBelow gather depth (code :: codes ++ met) (settled.map Settled.nodes).flatten after

/-- The rounds in which a forest is resolved, that of its roots first. -/
def rounds (gather : Gather S) (depth : Nat) (parent : String) (state : S) : List (Round S) :=
  match gather [parent] state with
  | (.error stop, after) => [⟨[parent], state, .error stop, after⟩]
  | (.ok settled, after) =>
    ⟨[parent], state, .ok settled, after⟩ ::
      match settled with
      | .ok roots :: _ => roundsBelow gather depth [] roots after
      | _ => []

/-- Rounds that lead from one state to another. Only the last of them may have been stopped. -/
inductive Linked (gather : Gather S) : S → List (Round S) → S → Prop where
  | none {state} : Linked gather state [] state
  | settled {codes state settled between rest last} : codes.Nodup →
    gather codes state = (.ok settled, between) → Linked gather between rest last →
    Linked gather state (⟨codes, state, .ok settled, between⟩ :: rest) last
  | stopped {codes state stop last} : codes.Nodup → gather codes state = (.error stop, last) →
    Linked gather state [⟨codes, state, .error stop, last⟩] last

theorem linked_roundsBelow (depth : Nat) (met : List String) (frontier : List Node) (state : S) :
    Linked gather state (roundsBelow gather depth met frontier state)
      (expand gather depth met frontier state).2 := by
  have hnodup := nodup_freshCodes met frontier
  induction depth generalizing met frontier state with
  | zero =>
    unfold roundsBelow expand
    cases freshCodes met frontier <;> exact .none
  | succ depth ih =>
    unfold roundsBelow expand
    cases hfresh : freshCodes met frontier with
    | nil => exact .none
    | cons code codes =>
      rw [hfresh] at hnodup
      dsimp only
      cases hgather : gather (code :: codes) state with
      | mk outcome between =>
        cases outcome with
        | error stop => exact .stopped hnodup hgather
        | ok settled =>
          have hbelow := ih (code :: codes ++ met) (settled.map Settled.nodes).flatten between
            (nodup_freshCodes _ _)
          dsimp only
          generalize expand gather depth _ _ between = run at hbelow
          obtain ⟨_ | below, after⟩ := run <;> exact .settled hnodup hgather hbelow

/-- The rounds of a pass lead from its start to its end. -/
theorem linked_rounds (depth : Nat) (parent : String) (state : S) :
    Linked gather state (rounds gather depth parent state) (forest gather depth parent state).2 := by
  have hnodup : [parent].Nodup := List.nodup_singleton parent
  unfold rounds forest
  cases hgather : gather [parent] state with
  | mk outcome between =>
    cases outcome with
    | error stop => exact .stopped hnodup hgather
    | ok settled =>
      rcases settled with _ | ⟨_ | roots, rest⟩
      · exact .settled hnodup hgather .none
      · exact .settled hnodup hgather .none
      · exact .settled hnodup hgather (linked_roundsBelow depth [] roots between)

theorem expand_of_stopped {r : Round S} {stop : Stop} (hstop : r.outcome = .error stop)
    {depth : Nat} {met : List String} {frontier : List Node} {state : S}
    (hr : r ∈ roundsBelow gather depth met frontier state) :
    (expand gather depth met frontier state).1 = .error (.stopped stop) := by
  induction depth generalizing met frontier state with
  | zero =>
    unfold roundsBelow at hr
    cases hfresh : freshCodes met frontier <;> simp [hfresh] at hr
  | succ depth ih =>
    unfold roundsBelow at hr
    unfold expand
    cases hfresh : freshCodes met frontier with
    | nil => simp [hfresh] at hr
    | cons code codes =>
      simp only [hfresh] at hr ⊢
      cases hgather : gather (code :: codes) state with
      | mk outcome between =>
        rw [hgather] at hr
        cases outcome with
        | error stop' =>
          obtain rfl := List.mem_singleton.mp hr
          cases hstop
          rfl
        | ok settled =>
          rcases List.mem_cons.mp hr with rfl | hr
          · cases hstop
          · have hbelow := ih hr
            dsimp only
            generalize expand gather depth _ _ between = run at hbelow
            obtain ⟨result, after⟩ := run
            cases hbelow
            rfl

theorem rounds_ne_nil (gather : Gather S) (depth : Nat) (parent : String) (state : S) :
    rounds gather depth parent state ≠ [] := by
  unfold rounds
  split <;> simp

/-- A pass comes to no forest once a round was stopped. -/
theorem forest_of_stopped {r : Round S} {stop : Stop} (hstop : r.outcome = .error stop)
    {depth : Nat} {parent : String} {state : S} (hr : r ∈ rounds gather depth parent state) :
    (forest gather depth parent state).1 = .error (.stopped stop) := by
  unfold rounds at hr
  unfold forest
  cases hgather : gather [parent] state with
  | mk outcome between =>
    rw [hgather] at hr
    cases outcome with
    | error stop' =>
      obtain rfl := List.mem_singleton.mp hr
      cases hstop
      rfl
    | ok settled =>
      rcases List.mem_cons.mp hr with rfl | hr
      · cases hstop
      · rcases settled with _ | ⟨_ | roots, rest⟩
        · cases hr
        · cases hr
        · exact expand_of_stopped hstop hr

theorem exists_roundsBelow {code : String} {codes : List String} {met : List String}
    {frontier : List Node} (hfresh : freshCodes met frontier = code :: codes)
    (gather : Gather S) (depth : Nat) (state : S) :
    ∃ r ∈ roundsBelow gather (depth + 1) met frontier state,
      r.codes = code :: codes ∧ r.before = state := by
  unfold roundsBelow
  simp only [hfresh]
  cases gather (code :: codes) state with
  | mk outcome after => cases outcome <;> exact ⟨_, List.mem_cons_self, rfl, rfl⟩

theorem exists_rounds (gather : Gather S) (depth : Nat) (parent : String) (state : S) :
    ∃ r ∈ rounds gather depth parent state, r.codes = [parent] ∧ r.before = state := by
  unfold rounds
  cases gather [parent] state with
  | mk outcome after => cases outcome <;> exact ⟨_, List.mem_cons_self, rfl, rfl⟩

/-- Two passes are at one in the beginning of a round that they settle differently. -/
def Diverge (gather gather' : Gather S) (rs rs' : List (Round S)) : Prop :=
  ∃ r ∈ rs, ∃ r' ∈ rs', r'.codes = r.codes ∧ r'.before = r.before ∧
    gather' r.codes r.before ≠ gather r.codes r.before

theorem Diverge.cons {gather gather' : Gather S} {rs rs' : List (Round S)} (r : Round S)
    (h : Diverge gather gather' rs rs') : Diverge gather gather' (r :: rs) (r :: rs') := by
  obtain ⟨r₁, hr₁, r₂, hr₂, h⟩ := h
  exact ⟨r₁, List.mem_cons_of_mem r hr₁, r₂, List.mem_cons_of_mem r hr₂, h⟩

theorem expand_diverge (gather gather' : Gather S) (depth : Nat) (met : List String)
    (frontier : List Node) (state : S) :
    roundsBelow gather' depth met frontier state = roundsBelow gather depth met frontier state ∧
        expand gather' depth met frontier state = expand gather depth met frontier state ∨
      Diverge gather gather' (roundsBelow gather depth met frontier state)
        (roundsBelow gather' depth met frontier state) := by
  induction depth generalizing met frontier state with
  | zero =>
    left
    unfold roundsBelow expand
    cases freshCodes met frontier <;> exact ⟨rfl, rfl⟩
  | succ depth ih =>
    cases hfresh : freshCodes met frontier with
    | nil =>
      left
      unfold roundsBelow expand
      simp only [hfresh, and_self]
    | cons code codes =>
      by_cases hsame : gather' (code :: codes) state = gather (code :: codes) state
      · unfold roundsBelow expand
        simp only [hfresh, hsame]
        cases gather (code :: codes) state with
        | mk outcome after =>
          cases outcome with
          | error stop => exact .inl ⟨rfl, rfl⟩
          | ok settled =>
            rcases ih (code :: codes ++ met) (settled.map Settled.nodes).flatten after with
              ⟨hrounds, hexpand⟩ | hdiverge
            · exact .inl ⟨by dsimp only; rw [hrounds], by dsimp only; rw [hexpand]⟩
            · exact .inr (hdiverge.cons _)
      · obtain ⟨r, hr, hcodes, hbefore⟩ := exists_roundsBelow hfresh gather depth state
        obtain ⟨r', hr', hcodes', hbefore'⟩ := exists_roundsBelow hfresh gather' depth state
        refine .inr ⟨r, hr, r', hr', hcodes'.trans hcodes.symm, hbefore'.trans hbefore.symm, ?_⟩
        rwa [hcodes, hbefore]

/-- Two passes are the same, or there is a first round that they settle differently. -/
theorem forest_diverge (gather gather' : Gather S) (depth : Nat) (parent : String) (state : S) :
    rounds gather' depth parent state = rounds gather depth parent state ∧
        forest gather' depth parent state = forest gather depth parent state ∨
      Diverge gather gather' (rounds gather depth parent state)
        (rounds gather' depth parent state) := by
  by_cases hsame : gather' [parent] state = gather [parent] state
  · unfold rounds forest
    rw [hsame]
    cases gather [parent] state with
    | mk outcome after =>
      cases outcome with
      | error stop => exact .inl ⟨rfl, rfl⟩
      | ok settled =>
        rcases settled with _ | ⟨_ | roots, rest⟩
        · exact .inl ⟨rfl, rfl⟩
        · exact .inl ⟨rfl, rfl⟩
        · rcases expand_diverge gather gather' depth [] roots after with
            ⟨hrounds, hexpand⟩ | hdiverge
          · exact .inl ⟨by dsimp only; rw [hrounds], hexpand⟩
          · exact .inr (hdiverge.cons _)
  · obtain ⟨r, hr, hcodes, hbefore⟩ := exists_rounds gather depth parent state
    obtain ⟨r', hr', hcodes', hbefore'⟩ := exists_rounds gather' depth parent state
    refine .inr ⟨r, hr, r', hr', hcodes'.trans hcodes.symm, hbefore'.trans hbefore.symm, ?_⟩
    rwa [hcodes, hbefore]

namespace Linked

variable {state last : S} {rs : List (Round S)}

theorem gathered (h : Linked gather state rs last) {r : Round S} (hr : r ∈ rs) :
    r.codes.Nodup ∧ gather r.codes r.before = (r.outcome, r.after) := by
  induction h with
  | none => cases hr
  | settled hnodup hgather _ ih =>
    rcases List.mem_cons.mp hr with rfl | hr
    · exact ⟨hnodup, hgather⟩
    · exact ih hr
  | stopped hnodup hgather =>
    obtain rfl := List.mem_singleton.mp hr
    exact ⟨hnodup, hgather⟩

/-- What a settled round keeps holds wherever a round begins. -/
theorem before {P : S → Prop} (h : Linked gather state rs last) (hstate : P state)
    (hkept : ∀ codes state settled after, codes.Nodup → P state →
      gather codes state = (.ok settled, after) → P after) : ∀ r ∈ rs, P r.before := by
  induction h with
  | none => simp
  | settled hnodup hgather _ ih =>
    intro r hr
    rcases List.mem_cons.mp hr with rfl | hr
    · exact hstate
    · exact ih (hkept _ _ _ _ hnodup hstate hgather) r hr
  | stopped =>
    intro r hr
    obtain rfl := List.mem_singleton.mp hr
    exact hstate

/-- What every round leaves behind holds where the last round ends. -/
theorem after {P Q : S → Prop} (h : Linked gather state rs last) (hstate : P state)
    (hkept : ∀ codes state settled after, codes.Nodup → P state →
      gather codes state = (.ok settled, after) → P after)
    (hleft : ∀ codes state outcome after, codes.Nodup → P state →
      gather codes state = (outcome, after) → Q after) (hne : rs ≠ []) : Q last := by
  induction h with
  | none => exact absurd rfl hne
  | @settled codes state settled between rest last hnodup hgather hrest ih =>
    cases rest with
    | nil =>
      cases hrest
      exact hleft _ _ _ _ hnodup hstate hgather
    | cons r rest => exact ih (hkept _ _ _ _ hnodup hstate hgather) (by simp)
  | stopped hnodup hgather => exact hleft _ _ _ _ hnodup hstate hgather

/-- The pass ends where a round that was stopped was left. -/
theorem after_of_stopped (h : Linked gather state rs last) {r : Round S} {stop : Stop}
    (hr : r ∈ rs) (hstop : r.outcome = .error stop) : r.after = last := by
  induction h with
  | none => cases hr
  | settled _ _ _ ih =>
    rcases List.mem_cons.mp hr with rfl | hr
    · cases hstop
    · exact ih hr
  | stopped =>
    obtain rfl := List.mem_singleton.mp hr
    rfl

end Linked

end Rounds

variable {σ : Type} {t : Tuning} {source : Source σ} {cancelAt : Option Binary64} {order : Order σ}

namespace Level

/-- The levels that a run goes through. -/
inductive Reaches (t : Tuning) (source : Source σ) (cancelAt : Option Binary64) (order : Order σ)
    (l : Level σ) : Level σ → Prop where
  | start : Reaches t source cancelAt order l l
  | step {m m' : Level σ} : Reaches t source cancelAt order l m → m.results? = none →
    m.step t source cancelAt order = .ok m' → Reaches t source cancelAt order l m'

/-- How a run ends at a level: it has all results, or a fault is due, or nothing is due before the
pass is cancelled. -/
inductive Last (cancelAt : Option Binary64) (m : Level σ) :
    Except Stop (List Settled) × Timeline σ → Prop where
  | settled {results : List Settled} : m.results? = some results →
    Last cancelAt m (.ok results, m.line)
  | aborted {fault : Fault} : m.results? = none → .abort fault ∈ m.ready →
    Last cancelAt m (.error (.fault fault), m.line.cancelOpen)
  | cancelled {instant till : Binary64} : m.results? = none → m.ready = [] →
    cancelAt = some instant → earliest m.timers = some till → till.lt instant = false →
    Last cancelAt m (.error .cancelled,
      Timeline.cancelOpen { m.line with now := m.line.now.latest instant })

variable {l m m' : Level σ}

theorem Reaches.head (hresults : l.results? = none) (hstep : l.step t source cancelAt order = .ok m)
    (h : m.Reaches t source cancelAt order m') : l.Reaches t source cancelAt order m' := by
  induction h with
  | start => exact .step .start hresults hstep
  | step _ hresults hstep ih => exact ih.step hresults hstep

theorem Reaches.run_eq (h : l.Reaches t source cancelAt order m) :
    l.run t source cancelAt order = m.run t source cancelAt order := by
  induction h with
  | start => rfl
  | step _ hresults hstep ih => rw [ih, run_of_ok hresults hstep]

theorem Reaches.keeps {P : Level σ → Prop} (h : l.Reaches t source cancelAt order m) (hl : P l)
    (hstep : ∀ m m', P m → m.step t source cancelAt order = .ok m' → P m') : P m := by
  induction h with
  | start => exact hl
  | step _ _ hm ih => exact hstep _ _ ih hm

theorem abort_of_happen {event : Event} {fault : Fault}
    (h : happen t source l event = .error fault) : event = .abort fault := by
  cases event with
  | abort fault' =>
    cases h
    rfl
  | _ => simp only [happen] at h; grind

/-- How a step ends the pass: with a fault that is due, or because it would wait too long. There is
always something to wait for. -/
theorem Orderly.last_of_error {slots : Nat} {stop : Stop} {line : Timeline σ} (hslots : 0 < slots)
    (horderly : l.Orderly slots []) (hresults : l.results? = none)
    (h : l.step t source cancelAt order = .error (stop, line)) :
    l.Last cancelAt (.error stop, line) := by
  unfold Level.step at h
  split at h
  · rename_i event held hpick
    split at h
    · cases h
    · rename_i fault hhappen
      cases h
      obtain rfl := abort_of_happen hhappen
      have hline := (pick_kept hpick).2
      simp only [Level.pick, Option.map_eq_some_iff, Prod.mk.injEq] at hpick
      obtain ⟨_, hget, rfl, _⟩ := hpick
      rw [Level.cancelled, hline]
      exact .aborted hresults (List.mem_of_getElem? hget)
  · rename_i hpick
    have hready := ready_of_pick_none hpick
    unfold Level.wait at h
    split at h
    · rename_i hnone
      obtain ⟨l', hwait⟩ := horderly.wait_ok hslots hready hresults
      simp [Level.wait, hnone] at hwait
    · rename_i till htill
      split at h
      · cases h
      · rename_i instant
        split at h <;> cases h
        rename_i hlt
        exact .cancelled hresults hready rfl htill (by simpa using hlt)

/-- A run comes to an end. -/
theorem Orderly.run_last {slots : Nat} (horderly : l.Orderly slots []) (hslots : 0 < slots) :
    ∃ m, l.Reaches t source cancelAt order m ∧ m.Last cancelAt (l.run t source cancelAt order) := by
  induction l using run.induct t source cancelAt order with
  | case1 l results hresults =>
    rw [run_of_results hresults]
    exact ⟨l, .start, .settled hresults⟩
  | case2 l hresults stop line hstep =>
    rw [run_of_error hresults hstep]
    exact ⟨l, .start, horderly.last_of_error hslots hresults hstep⟩
  | case3 l hresults l' hstep ih =>
    rw [run_of_ok hresults hstep]
    obtain ⟨m, hreaches, hlast⟩ := ih (horderly.step hstep)
    exact ⟨m, hreaches.head hresults hstep, hlast⟩

end Level

/-- A pass on schedule: its result and what it left behind. -/
abbrev timedPass (t : Tuning) (source : Source σ) (cancelAt : Option Binary64) (order : Order σ)
    (depth : Nat) (parent : String) (s : σ) : Except Halt (List Node) × Timeline σ :=
  forest (onSchedule t source cancelAt order) depth parent (Timeline.start s)

abbrev timedRounds (t : Tuning) (source : Source σ) (cancelAt : Option Binary64) (order : Order σ)
    (depth : Nat) (parent : String) (s : σ) : List (Round (Timeline σ)) :=
  rounds (onSchedule t source cancelAt order) depth parent (Timeline.start s)

theorem linked_timedRounds (t : Tuning) (source : Source σ) (cancelAt : Option Binary64)
    (order : Order σ) (depth : Nat) (parent : String) (s : σ) :
    Linked (onSchedule t source cancelAt order) (Timeline.start s)
      (timedRounds t source cancelAt order depth parent s)
      (timedPass t source cancelAt order depth parent s).2 :=
  linked_rounds depth parent (Timeline.start s)

/-- A level that a pass on schedule goes through, between two steps. -/
def Moment (t : Tuning) (source : Source σ) (cancelAt : Option Binary64) (order : Order σ)
    (depth : Nat) (parent : String) (s : σ) (m : Level σ) : Prop :=
  ∃ r ∈ timedRounds t source cancelAt order depth parent s,
    (Level.ofCodes t r.codes r.before).Reaches t source cancelAt order m

/-- The moments of the level below the roots. -/
theorem moment_below {depth : Nat} {parent code : String} {codes : List String} {s : σ}
    {roots : List Node} {rest : List Settled} {line : Timeline σ} {m : Level σ}
    (hroots : onSchedule t source cancelAt order [parent] (Timeline.start s) =
      (.ok (.ok roots :: rest), line))
    (hfresh : freshCodes [] roots = code :: codes)
    (hreaches : (Level.ofCodes t (code :: codes) line).Reaches t source cancelAt order m) :
    Moment t source cancelAt order (depth + 1) parent s m := by
  obtain ⟨r, hr, hcodes, hbefore⟩ :=
    exists_roundsBelow hfresh (onSchedule t source cancelAt order) depth line
  refine ⟨r, ?_, hcodes ▸ hbefore ▸ hreaches⟩
  simp only [timedRounds, rounds, hroots]
  exact List.mem_cons_of_mem _ hr

end AdminConsole.Resolve
