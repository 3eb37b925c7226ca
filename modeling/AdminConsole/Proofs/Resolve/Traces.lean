import AdminConsole.Proofs.Resolve.Completion
import AdminConsole.Proofs.Resolve.Repetition

/-!
The requests of a whole pass, in the order they were begun, as the source answered them. Whatever
comes of the pass, each request was answered in the state that the request before it had left. The
first one asks for the code that the pass begins with, and none follows it if its answer ends the
pass at once.
-/

namespace AdminConsole.Resolve

namespace Answers

variable {σ : Type} {source : Source σ} {s s₁ s₂ : σ} {made rest : List Asked} {a : Asked}

/-- The codes that a source is asked for determine where it ends up. -/
theorem unique (h₁ : Answers source s made s₁) (h₂ : Answers source s made s₂) : s₁ = s₂ := by
  induction h₁ generalizing s₂ with
  | nil =>
    generalize hmade : ([] : List Asked) = made at h₂
    cases h₂ with
    | nil => rfl
    | snoc => simp at hmade
  | @snoc made s₁ code _ ih =>
    generalize hmade : made ++ [⟨code, (source code s₁).1.outcome⟩] = all at h₂
    cases h₂ with
    | nil => simp at hmade
    | @snoc made' s₂ code' h₂ =>
      obtain ⟨rfl, hlast⟩ := List.append_inj' hmade rfl
      obtain rfl : code = code' := congrArg Asked.code (List.singleton_inj.mp hlast)
      rw [ih h₂]

/-- What every request keeps, all of them keep. -/
theorem kept {P : σ → Prop} (h : Answers source s made s₁) (hs : P s)
    (hkept : ∀ code s, P s → P (source code s).2) : P s₁ := by
  induction h with
  | nil => exact hs
  | snoc code _ ih => exact hkept code _ ih

theorem outcome_first (h : Answers source s (a :: rest) s₁) :
    a.outcome = (source a.code s).1.outcome := by
  generalize hmade : a :: rest = made at h
  induction h generalizing rest with
  | nil => cases hmade
  | @snoc made s' code h ih =>
    cases made with
    | nil =>
      cases hmade
      rw [h.unique .nil]
    | cons first made =>
      cases hmade
      exact ih rfl

end Answers

/-! ### Levels -/

/-- Ways to settle levels in which every request is answered in the state that the request before it
had left, whatever comes of the level. -/
def Answering {σ S : Type} (source : Source σ) (ledger : S → Ledger σ) (gather : Gather S) : Prop :=
  ∀ codes state, codes.Nodup → ∃ made, (ledger (gather codes state).2).log = (ledger state).log ++ made ∧
    Answers source (ledger state).source made (ledger (gather codes state).2).source

/-- Ways to settle levels in which a query that has a level to itself makes a request. -/
def Starting {σ S : Type} (ledger : S → Ledger σ) (gather : Gather S) : Prop :=
  ∀ code state, (ledger (gather [code] state).2).log ≠ (ledger state).log

section InSequence

variable {σ : Type} {t : Tuning} {source : Source σ}

theorem settleFrom_answers (place : Nat) (codes : List String) (p : Pass σ) :
    ∃ made, (settleFrom t source place codes p).2.ledger.log = p.ledger.log ++ made ∧
      Answers source p.ledger.source made (settleFrom t source place codes p).2.ledger.source := by
  induction codes generalizing place p with
  | nil => exact ⟨[], (List.append_nil _).symm, .nil⟩
  | cons code codes ih =>
    obtain ⟨outcomes, hends, _⟩ := settle_spec t source place code p
    have hlog := hends.log
    have hanswers := hends.answers
    rcases settleFrom_cons t source place code codes p with hend | hend
    · rw [hend]
      exact ⟨_, hlog, hanswers⟩
    · obtain ⟨made, hmade, hrest⟩ := ih (place + 1) (settle t source place code p).2
      rw [hend]
      refine ⟨outcomes.map (Asked.mk code) ++ made, ?_, hanswers.append hrest⟩
      rw [hmade, hlog, List.append_assoc]

theorem Breaks.ne_nil {outcomes : List (Except Fault (List Node))} {fault : Fault}
    (h : Breaks t 0 outcomes fault) : outcomes ≠ [] := by
  cases h with
  | place hpause => cases hpause
  | pause => simp
  | fault => simp

theorem starting_inSequence (t : Tuning) (source : Source σ) :
    Starting Pass.ledger (inSequence t source) := by
  intro code p
  obtain ⟨outcomes, hends, _⟩ := settle_spec t source 0 code p
  have hne : outcomes ≠ [] := by
    cases hresult : (settle t source 0 code p).1 with
    | ok s => exact (hends.settled s hresult).1.ne_nil
    | error stop =>
      obtain ⟨fault, _, hbreaks⟩ := hends.broken stop hresult
      exact hbreaks.ne_nil
  have hlog : (inSequence t source [code] p).2.ledger.log =
      p.ledger.log ++ outcomes.map (Asked.mk code) := by
    rw [← hends.log, inSequence]
    rcases settleFrom_cons t source 0 code [] p with hend | hend
    · rw [hend]
    · rw [hend, settleFrom]
  rw [hlog]
  simpa using hne

theorem answering_inSequence (t : Tuning) (source : Source σ) :
    Answering source Pass.ledger (inSequence t source) :=
  fun codes p _ => settleFrom_answers 0 codes p

end InSequence

section OnSchedule

variable {σ : Type} {t : Tuning} {source : Source σ} {cancelAt : Option Binary64} {order : Order σ}
  {codes : List String} {before : Ledger σ} {l : Level σ} {slots : Nat}

theorem run_answers (hnodup : codes.Nodup) {made : List Asked}
    (h : Accounted t source codes before made l.tasks l.line.ledger) (horderly : l.Orderly slots []) :
    ∃ made, (l.run t source cancelAt order).2.ledger.log = before.log ++ made ∧
      Answers source before.source made (l.run t source cancelAt order).2.ledger.source := by
  obtain ⟨m, ⟨-, made', h'⟩, hlast⟩ := Level.run_keeps
    (P := fun m => m.Orderly slots [] ∧
      ∃ made, Accounted t source codes before made m.tasks m.line.ledger)
    ⟨horderly, made, h⟩ fun m m' ⟨horderly, made, h⟩ hstep =>
      ⟨horderly.step hstep, h.step hnodup horderly hstep⟩
  rw [hlast]
  exact ⟨made', h'.log, h'.answers⟩

theorem answering_onSchedule (t : Tuning) (source : Source σ) (cancelAt : Option Binary64)
    (order : Order σ) : Answering source Timeline.ledger (onSchedule t source cancelAt order) :=
  fun codes line hnodup => run_answers hnodup (.ofCodes t source codes line) (.ofCodes t codes line)

theorem run_log (horderly : l.Orderly slots []) :
    l.line.ledger.log <+: (l.run t source cancelAt order).2.ledger.log := by
  obtain ⟨m, ⟨-, hprefix⟩, hlast⟩ := Level.run_keeps
    (P := fun m => m.Orderly slots [] ∧ l.line.ledger.log <+: m.line.ledger.log)
    ⟨horderly, List.prefix_rfl⟩ fun m m' ⟨horderly, hprefix⟩ hstep => by
      refine ⟨horderly.step hstep, ?_⟩
      rcases log_step horderly hstep with hlog | ⟨_, _, _, _, _, hlog⟩
      · rwa [hlog]
      · rw [hlog]
        exact hprefix.trans (List.prefix_append _ _)
  rwa [hlast]

theorem step_single {e : Event} {l' : Level σ} (hready : l.ready = [e])
    (h : Level.happen t source { l with ready := [] } e = .ok l') :
    l.step t source cancelAt order = .ok l' := by
  have hpick : l.pick order = some (e, { l with ready := [] }) := by
    simp [Level.pick, hready, Nat.mod_one]
  rw [Level.step, hpick]
  dsimp only
  rw [h]

/-- The only task of a level begins, takes a slot and makes its request before the clock moves. -/
theorem starting_onSchedule (t : Tuning) (source : Source σ) (cancelAt : Option Binary64)
    (order : Order σ) : Starting Timeline.ledger (onSchedule t source cancelAt order) := by
  intro code line
  have hwaiting : (Level.ofCodes t [code] line).step t source cancelAt order =
      .ok ⟨line, [⟨code, 0, .waiting⟩], t.maxConcurrency, [], [.ask 0], []⟩ := step_single rfl rfl
  have hslot : (⟨line, [⟨code, 0, .waiting⟩], t.maxConcurrency, [], [.ask 0], []⟩ : Level σ).step t
      source cancelAt order =
        .ok ⟨line, [⟨code, 0, .waiting⟩], t.maxConcurrency - 1, [], [.enter 0], []⟩ := by
    apply step_single rfl
    simp [Level.happen, Level.ask, Level.next, t.concurrency_pos]
  have hentered : (⟨line, [⟨code, 0, .waiting⟩], t.maxConcurrency - 1, [], [.enter 0], []⟩ :
      Level σ).step t source cancelAt order = .ok (Level.enter source
        ⟨line, [⟨code, 0, .waiting⟩], t.maxConcurrency - 1, [], [], []⟩ 0 ⟨code, 0, .waiting⟩) :=
    step_single rfl rfl
  have horderly := (((Level.Orderly.ofCodes t [code] line).step hwaiting).step hslot).step hentered
  rw [onSchedule, Level.run_of_ok rfl hwaiting, Level.run_of_ok rfl hslot,
    Level.run_of_ok rfl hentered]
  -- The request stands in the log now, and no later step takes it out.
  intro hsame
  have hlog := @run_log σ t source cancelAt order _ _ horderly
  rw [hsame, Level.ledger_enter] at hlog
  have hlength := hlog.length_le
  rw [List.length_append] at hlength
  exact Nat.not_succ_le_self _ hlength

end OnSchedule

/-! ### Passes -/

/-- Outcomes that no query survives: a fault that does not concern the query alone. -/
def Spoils (outcome : Except Fault (List Node)) : Prop :=
  ∃ fault, outcome = .error fault ∧ ∀ e, fault ≠ .fetch e

theorem judge_of_spoils {outcome : Except Fault (List Node)} (h : Spoils outcome) (t : Tuning)
    (failures : Nat) : ∃ fault, t.judge failures outcome = .broken fault := by
  obtain ⟨fault, rfl, hother⟩ := h
  exact ⟨fault, judge_of_fault hother failures⟩

theorem Settles.not_spoils {t : Tuning} {outcomes : List (Except Fault (List Node))} {s : Settled}
    (h : Settles t outcomes s) : ∀ outcome ∈ outcomes, ¬ Spoils outcome := by
  obtain ⟨earlier, last, rfl, hretried, hjudge⟩ := h
  intro outcome hmem hspoils
  rcases List.mem_append.mp hmem with hearlier | hlast
  · obtain ⟨k, hk⟩ := List.mem_iff_getElem?.mp hearlier
    obtain ⟨fault, hbroken⟩ := judge_of_spoils hspoils t k
    have hagain := (hretried k outcome hk).1
    rw [hbroken] at hagain
    cases hagain
  · obtain rfl := List.mem_singleton.mp hlast
    obtain ⟨fault, hbroken⟩ := judge_of_spoils hspoils t earlier.length
    rw [hbroken] at hjudge
    cases hjudge

/-- If the first request of a query is spoiled there is no other. -/
theorem OneQuery.alone {t : Tuning} {outcome : Except Fault (List Node)}
    {later : List (Except Fault (List Node))} (h : OneQuery t (outcome :: later))
    (hspoils : Spoils outcome) : later = [] := by
  by_contra hne
  obtain ⟨fault, hbroken⟩ := judge_of_spoils hspoils t 0
  have hagain := (h 0 outcome (by rw [List.dropLast_cons_of_ne_nil hne]; rfl)).1
  rw [hbroken] at hagain
  cases hagain

theorem LevelSettled.not_spoils {σ : Type} {t : Tuning} {source : Source σ} {place : Nat}
    {codes : List String} {settled : List Settled} {made : List Asked} {before after : Ledger σ}
    (h : LevelSettled t source place codes settled made before after) :
    ∀ a ∈ made, ¬ Spoils a.outcome := by
  intro a ha
  obtain ⟨i, s, hi, hs⟩ := h.query (h.asked a ha)
  exact (h.settles i a.code s hi hs).not_spoils a.outcome (mem_outcomesFor.mpr ha)

section

variable {σ S : Type} {t : Tuning} {source : Source σ} {ledger : S → Ledger σ} {gather : Gather S}
  {state state' : S}

theorem Descent.answers (hsettling : Settling t source ledger gather)
    (hanswering : Answering source ledger gather) {depth : Nat} {met : List String}
    {frontier : List Node} {result : Except Halt (List Node)}
    (h : Descent gather depth met frontier state result state') :
    ∃ made, (ledger state').log = (ledger state).log ++ made ∧
      Answers source (ledger state).source made (ledger state').source ∧
        ((∃ roots, result = .ok roots) → ∀ a ∈ made, ¬ Spoils a.outcome) := by
  induction h with
  | done => exact ⟨[], (List.append_nil _).symm, .nil, by simp⟩
  | tooDeep => exact ⟨[], (List.append_nil _).symm, .nil, by simp⟩
  | @stopped _ met frontier state _ _ _ hstopped =>
    obtain ⟨made, hlog, hanswers⟩ := hanswering _ state (nodup_freshCodes met frontier)
    rw [hstopped] at hlog hanswers
    exact ⟨made, hlog, hanswers, by simp⟩
  | halted _ hsettled _ ih =>
    obtain ⟨made, hlevel⟩ := hsettling _ _ _ _ (nodup_freshCodes _ _) hsettled
    obtain ⟨more, hmore, hbelow, _⟩ := ih
    refine ⟨made ++ more, ?_, hlevel.answers.append hbelow, by simp⟩
    rw [hmore, hlevel.log, List.append_assoc]
  | @level _ _ _ _ _ _ below _ _ hsettled _ ih =>
    obtain ⟨made, hlevel⟩ := hsettling _ _ _ _ (nodup_freshCodes _ _) hsettled
    obtain ⟨more, hmore, hbelow, hclean⟩ := ih
    refine ⟨made ++ more, ?_, hlevel.answers.append hbelow, fun _ a ha => ?_⟩
    · rw [hmore, hlevel.log, List.append_assoc]
    · rcases List.mem_append.mp ha with ha | ha
      · exact hlevel.not_spoils a ha
      · exact hclean ⟨below, rfl⟩ a ha

/-- What a pass leaves behind: the requests as the source answered them, of which the first asks for
the code that the pass begins with. -/
structure Traced (source : Source σ) (parent : String) (before after : σ) (log : List Asked)
    (found : Bool) : Prop where
  answers : Answers source before log after
  first : ∃ outcome rest, log = ⟨parent, outcome⟩ :: rest ∧ (Spoils outcome → rest = [])
  clean : found = true → ∀ a ∈ log, ¬ Spoils a.outcome

/-- The query for the code that a pass begins with makes a request, and no other one after a request
that was spoiled. -/
theorem root_asked (hsparing : Sparing t ledger gather) (hanswering : Answering source ledger gather)
    (hstarting : Starting ledger gather) (parent : String) (state : S) :
    ∃ outcome rest, (ledger (gather [parent] state).2).log =
        (ledger state).log ++ ⟨parent, outcome⟩ :: rest ∧
      Answers source (ledger state).source (⟨parent, outcome⟩ :: rest)
        (ledger (gather [parent] state).2).source ∧ (Spoils outcome → rest = []) := by
  obtain ⟨made, hlog, hanswers⟩ := hanswering [parent] state (by simp)
  obtain ⟨made', hlog', hown, honce⟩ := hsparing [parent] state (by simp)
  rw [hlog] at hlog'
  obtain rfl := List.append_cancel_left hlog'
  have hne : made ≠ [] := by
    rintro rfl
    exact hstarting parent state (by rw [hlog, List.append_nil])
  obtain ⟨⟨code, outcome⟩, rest, rfl⟩ := List.exists_cons_of_ne_nil hne
  obtain rfl : code = parent := List.mem_singleton.mp (hown _ List.mem_cons_self)
  refine ⟨outcome, rest, hlog, hanswers, fun hspoils => ?_⟩
  have honce := honce code
  rw [outcomesFor_cons_self] at honce
  have hnone := honce.alone hspoils
  apply List.eq_nil_iff_forall_not_mem.mpr
  intro a ha
  have hcode : a.code = code := List.mem_singleton.mp (hown a (List.mem_cons_of_mem _ ha))
  exact outcomesFor_ne_nil.mpr ⟨a, ha, hcode⟩ hnone

theorem forest_traced (hsettling : Settling t source ledger gather)
    (hsparing : Sparing t ledger gather) (hanswering : Answering source ledger gather)
    (hstarting : Starting ledger gather) (depth : Nat) (parent : String)
    (hstart : (ledger state).log = []) :
    Traced source parent (ledger state).source (ledger (forest gather depth parent state).2).source
      (ledger (forest gather depth parent state).2).log (forest gather depth parent state).1.isOk := by
  obtain ⟨outcome, rest, hlog, hanswers, hfirst⟩ :=
    root_asked hsparing hanswering hstarting parent state
  rw [hstart, List.nil_append] at hlog
  rw [← hlog] at hanswers
  unfold forest
  generalize hrun : gather [parent] state = run at hlog hanswers
  obtain ⟨result, between⟩ := run
  cases result with
  | error stop => exact ⟨hanswers, ⟨outcome, rest, hlog, hfirst⟩, nofun⟩
  | ok settled =>
    obtain ⟨made, hlevel⟩ := hsettling _ _ _ _ (by simp) hrun
    obtain rfl : (ledger between).log = made := by rw [hlevel.log, hstart, List.nil_append]
    have hclean := hlevel.not_spoils
    match settled with
    | [] => exact ⟨hanswers, ⟨outcome, rest, hlog, hfirst⟩, fun _ => hclean⟩
    | .error e :: _ => exact ⟨hanswers, ⟨outcome, rest, hlog, hfirst⟩, nofun⟩
    | .ok records :: _ =>
      dsimp only
      obtain ⟨more, hmore, hbelow, hcleanBelow⟩ :=
        (expand_descent gather depth [] records between).answers hsettling hanswering
      refine ⟨?_, ⟨outcome, rest ++ more, ?_, fun hspoils => ?_⟩, fun hfound a ha => ?_⟩
      · rw [hmore]
        exact hanswers.append hbelow
      · rw [hmore, hlog, List.cons_append]
      · rw [hlog] at hclean
        exact absurd hspoils (hclean _ List.mem_cons_self)
      · rw [hmore] at ha
        rcases List.mem_append.mp ha with ha | ha
        · exact hclean a ha
        · refine hcleanBelow ?_ a ha
          generalize (expand gather depth [] records between).1 = result at hfound
          cases result with
          | ok roots => exact ⟨roots, rfl⟩
          | error halt => cases hfound

end

theorem resolve_traced {σ : Type} (t : Tuning) (source : Source σ) (depth : Nat) (parent : String)
    (s : σ) (manner : Manner σ) :
    let pass := resolve t source depth parent s manner
    Traced source parent s pass.2.source pass.2.log pass.1.isOk := by
  cases manner with
  | inSequence =>
    have hstart : (Pass.start s).ledger.log = [] := rfl
    exact forest_traced (settling_inSequence t source) (sparing_inSequence t source)
      (answering_inSequence t source) (starting_inSequence t source) depth parent hstart
  | onSchedule cancelAt order =>
    have hstart : (Timeline.start s).ledger.log = [] := rfl
    exact forest_traced (settling_onSchedule t source cancelAt order)
      (sparing_onSchedule t source cancelAt order) (answering_onSchedule t source cancelAt order)
      (starting_onSchedule t source cancelAt order) depth parent hstart

theorem load_traced {σ : Type} (t : Tuning) (source : Source σ) (depth : Nat) (parent : String)
    (s : σ) (manner : Manner σ) :
    let pass := load t source depth parent s manner
    Traced source parent s pass.2.source pass.2.log pass.1.isOk := by
  have htraced := resolve_traced t source depth parent s manner
  unfold load
  generalize resolve t source depth parent s manner = pass at htraced
  obtain ⟨_ | _, _⟩ := pass
  · exact htraced
  · exact htraced

end AdminConsole.Resolve
