import AdminConsole.Proofs.Resolve.LevelByLevel
import AdminConsole.Proofs.Resolve.Moments

/-!
How often a pass asks for a code. The requests for a code that is met on the way are those of one
query, whatever comes of the pass: a code is opened once. The code that the pass begins with is not
among those that were met, so a record that has it leads to a second query, and to no third one.
-/

namespace AdminConsole

namespace Resolve

section

variable {t : Tuning} {outcomes earlier : List (Except Fault (List Node))}

/-- Requests of one query at most: each of them but the last was repeated. -/
def OneQuery (t : Tuning) (outcomes : List (Except Fault (List Node))) : Prop :=
  Retried t outcomes.dropLast

theorem oneQuery_nil (t : Tuning) : OneQuery t [] := retried_nil t

theorem oneQuery_snoc (h : Retried t earlier) (last : Except Fault (List Node)) :
    OneQuery t (earlier ++ [last]) := by
  rwa [OneQuery, List.dropLast_concat]

theorem Settles.oneQuery {s : Settled} (h : Settles t outcomes s) : OneQuery t outcomes := by
  obtain ⟨earlier, last, rfl, hretried, _⟩ := h
  exact oneQuery_snoc hretried last

/-- A query at the first place of its level is never broken by the pause before it. -/
theorem Breaks.oneQuery {fault : Fault} (h : Breaks t 0 outcomes fault) : OneQuery t outcomes := by
  cases h with
  | place hpause => cases hpause
  | pause hretried _ _ => exact oneQuery_snoc hretried _
  | fault hretried _ => exact oneQuery_snoc hretried _

theorem Repeats.not_ok {failures : Nat} {outcome : Except Fault (List Node)}
    (h : Repeats t failures outcome) : outcome.isOk = false := by
  cases outcome with
  | error fault => rfl
  | ok nodes => cases h.1

theorem OneQuery.length_le (h : OneQuery t outcomes) : outcomes.length ≤ t.maxAttempts := by
  have hpos := t.attempts_pos
  have hlength : outcomes.dropLast.length = outcomes.length - 1 := List.length_dropLast
  by_cases hshort : outcomes.length ≤ 1
  · omega
  · have hlast : outcomes.length - 2 < outcomes.dropLast.length := by omega
    have hleft := Tuning.attempts_left (h _ _ (List.getElem?_eq_getElem hlast)).1
    omega

theorem OneQuery.countP_isOk_le (h : OneQuery t outcomes) : outcomes.countP Except.isOk ≤ 1 := by
  have hearlier : outcomes.dropLast.countP Except.isOk = 0 := by
    rw [List.countP_eq_zero]
    intro outcome hmem
    obtain ⟨k, hk⟩ := List.mem_iff_getElem?.mp hmem
    simp [(h k outcome hk).not_ok]
  cases hlast : outcomes.getLast? with
  | none =>
    rw [List.getLast?_eq_none_iff] at hlast
    simp [hlast]
  | some last =>
    rw [← List.dropLast_append_getLast? last hlast, List.countP_append, hearlier, Nat.zero_add]
    exact List.countP_le_length

/-- After a request that found something a query makes no other. -/
theorem OneQuery.ok_last {nodes : List Node} {later : List (Except Fault (List Node))}
    (h : OneQuery t (earlier ++ .ok nodes :: later)) : later = [] := by
  by_contra hne
  have hget : (earlier ++ .ok nodes :: later).dropLast[earlier.length]? = some (.ok nodes) := by
    have hpos := List.length_pos_iff.mpr hne
    rw [List.getElem?_dropLast, if_pos]
    · simp
    · simp only [List.length_append, List.length_cons]
      omega
  have hok := (h _ _ hget).not_ok
  cases hok

end

/-- Requests for some codes, and requests for other ones. -/
theorem oneQuery_append {t : Tuning} {codes : List String} {a b : List Asked}
    (ha : ∀ x ∈ a, x.code ∈ codes) (hb : ∀ x ∈ b, x.code ∉ codes)
    (honce : ∀ code, OneQuery t (outcomesFor code a))
    (honce' : ∀ code, OneQuery t (outcomesFor code b)) (code : String) :
    OneQuery t (outcomesFor code (a ++ b)) := by
  rw [outcomesFor_append]
  by_cases hcode : code ∈ codes
  · have hnone : outcomesFor code b = [] :=
      outcomesFor_eq_nil fun x hx (heq : x.code = code) => hb x hx (heq ▸ hcode)
    rw [hnone, List.append_nil]
    exact honce code
  · have hnone : outcomesFor code a = [] :=
      outcomesFor_eq_nil fun x hx (heq : x.code = code) => hcode (heq ▸ ha x hx)
    rw [hnone, List.nil_append]
    exact honce' code

/-- Ways to settle levels in which, whatever comes of a level, each of its codes is asked for by
one query at most and nothing else is asked for. -/
def Sparing {σ S : Type} (t : Tuning) (ledger : S → Ledger σ) (gather : Gather S) : Prop :=
  ∀ codes state, codes.Nodup → ∃ made,
    (ledger (gather codes state).2).log = (ledger state).log ++ made ∧
      (∀ a ∈ made, a.code ∈ codes) ∧ ∀ code, OneQuery t (outcomesFor code made)

/-- What is known of a level that was settled sparingly. -/
theorem Sparing.settled {σ S : Type} {t : Tuning} {source : Source σ} {ledger : S → Ledger σ}
    {gather : Gather S} {codes : List String} {state state' : S} {settled : List Settled}
    (h : Sparing t ledger gather) (hgather : Settling t source ledger gather)
    (hnodup : codes.Nodup) (hrun : gather codes state = (.ok settled, state')) :
    ∃ made, LevelSettled t source 0 codes settled made (ledger state) (ledger state') ∧
      ∀ code, OneQuery t (outcomesFor code made) := by
  obtain ⟨made, hlevel⟩ := hgather _ _ _ _ hnodup hrun
  obtain ⟨made', hlog, _, honce⟩ := h codes state hnodup
  rw [hrun, hlevel.log] at hlog
  rw [← List.append_cancel_left hlog] at honce
  exact ⟨made, hlevel, honce⟩

section InSequence

variable {σ : Type} {t : Tuning} {source : Source σ}

theorem attempt_asks (t : Tuning) (source : Source σ) (code : String) (p : Pass σ) :
    ∃ outcomes, (attempt t source code 0 p).2.ledger.log =
      p.ledger.log ++ outcomes.map (Asked.mk code) ∧ OneQuery t outcomes := by
  obtain ⟨outcomes, hends⟩ := attempt_spec t source 0 code 0 p (retried_nil t) rfl
  refine ⟨outcomes, hends.log, ?_⟩
  cases hresult : (attempt t source code 0 p).1 with
  | ok s => exact (hends.settled s hresult).1.oneQuery
  | error stop =>
    obtain ⟨fault, _, hbreaks⟩ := hends.broken stop hresult
    exact hbreaks.oneQuery

theorem settle_asks (t : Tuning) (source : Source σ) (place : Nat) (code : String) (p : Pass σ) :
    ∃ outcomes, (settle t source place code p).2.ledger.log =
      p.ledger.log ++ outcomes.map (Asked.mk code) ∧ OneQuery t outcomes := by
  rw [settle_eq]
  cases t.pauseAt place with
  | error cause => exact ⟨[], by simp, oneQuery_nil t⟩
  | ok seconds => simpa [Pass.ledger] using attempt_asks t source code (p.pause seconds)

theorem settleFrom_asks {codes : List String} (hnodup : codes.Nodup) (place : Nat) (p : Pass σ) :
    ∃ made, (settleFrom t source place codes p).2.ledger.log = p.ledger.log ++ made ∧
      (∀ a ∈ made, a.code ∈ codes) ∧ ∀ code, OneQuery t (outcomesFor code made) := by
  induction codes generalizing place p with
  | nil => exact ⟨[], by simp [settleFrom], by simp, fun _ => oneQuery_nil t⟩
  | cons code codes ih =>
    obtain ⟨hfresh, hrest⟩ := List.nodup_cons.mp hnodup
    obtain ⟨outcomes, hlog, hquery⟩ := settle_asks t source place code p
    have hown : ∀ a ∈ outcomes.map (Asked.mk code), a.code = code := by
      intro a ha
      obtain ⟨_, _, rfl⟩ := List.mem_map.mp ha
      rfl
    have hqueries : ∀ other, OneQuery t (outcomesFor other (outcomes.map (Asked.mk code))) := by
      intro other
      by_cases hother : other = code
      · rwa [hother, outcomesFor_map_self]
      · rw [outcomesFor_eq_nil fun a ha heq => hother (heq.symm.trans (hown a ha))]
        exact oneQuery_nil t
    rcases settleFrom_cons t source place code codes p with hend | hend
    · rw [hend]
      exact ⟨_, hlog, fun a ha => List.mem_cons.mpr (.inl (hown a ha)), hqueries⟩
    · obtain ⟨made, hmade, hasked, honce⟩ := ih hrest (place + 1) (settle t source place code p).2
      refine ⟨outcomes.map (Asked.mk code) ++ made, ?_, ?_, ?_⟩
      · rw [hend, hmade, hlog, List.append_assoc]
      · intro a ha
        rcases List.mem_append.mp ha with ha | ha
        · exact List.mem_cons.mpr (.inl (hown a ha))
        · exact List.mem_cons_of_mem code (hasked a ha)
      · exact oneQuery_append (fun a ha => List.mem_singleton.mpr (hown a ha))
          (fun a ha hcode => hfresh (List.mem_singleton.mp hcode ▸ hasked a ha)) hqueries honce

theorem sparing_inSequence (t : Tuning) (source : Source σ) :
    Sparing t Pass.ledger (inSequence t source) :=
  fun _ p hnodup => settleFrom_asks hnodup 0 p

end InSequence

section OnSchedule

variable {σ : Type} {t : Tuning} {source : Source σ} {cancelAt : Option Binary64} {order : Order σ}
  {codes : List String} {before : Ledger σ} {l l' : Level σ} {slots : Nat}

theorem log_proceed {i : Nat} {task : Task} (verdict : Verdict) (l : Level σ) :
    (l.proceed t i task verdict).line.ledger.log = l.line.ledger.log := by
  unfold Level.proceed
  split
  · rfl
  · rw [Level.ledger_paused]
    rfl
  · rfl

/-- An event leads to no request, or to one for a task that was waiting. -/
theorem log_happen {e : Event} (horderly : l.Orderly slots [e])
    (h : Level.happen t source l e = .ok l') : l'.line.ledger.log = l.line.ledger.log ∨
      ∃ (i : Nat) (task : Task) (outcome : Except Fault (List Node)), l.tasks[i]? = some task ∧
        task.phase = .waiting ∧
        l'.line.ledger.log = l.line.ledger.log ++ [⟨task.code, outcome⟩] := by
  cases e with
  | begin i =>
    simp only [Level.happen] at h
    split at h <;> cases h
    · exact .inl (by rw [Level.ledger_paused])
    · exact .inl rfl
  | ask i =>
    cases h
    exact .inl (by rw [Level.ledger_ask])
  | enter i =>
    simp only [Level.happen] at h
    split at h <;> cases h
    · rename_i task htask
      refine .inr ⟨i, task, (source task.code l.line.source).1.outcome, htask,
        horderly.waiting htask, ?_⟩
      rw [Level.ledger_enter]
      rfl
    · exact .inl rfl
  | answer i =>
    simp only [Level.happen] at h
    split at h
    · split at h <;> cases h
      · rename_i call reply _
        have hlog := congrArg Ledger.log (Level.ledger_hangUp (l := l) call reply)
        exact .inl ((log_proceed _ _).trans hlog)
      · exact .inl rfl
    · cases h
      exact .inl rfl
  | report fault =>
    cases h
    exact .inl rfl
  | abort fault => cases h

theorem log_step (horderly : l.Orderly slots []) (h : l.step t source cancelAt order = .ok l') :
    l'.line.ledger.log = l.line.ledger.log ∨
      ∃ (i : Nat) (task : Task) (outcome : Except Fault (List Node)), l.tasks[i]? = some task ∧
        task.phase = .waiting ∧
        l'.line.ledger.log = l.line.ledger.log ++ [⟨task.code, outcome⟩] := by
  rcases Level.step_ok h with ⟨e, held, hpick, hhappen⟩ | ⟨_, till, _, _, rfl⟩
  · obtain ⟨htasks, hline⟩ := Level.pick_kept hpick
    rw [← htasks, ← hline]
    exact log_happen (horderly.pick hpick) hhappen
  · exact .inl rfl

/-- The requests of each query stay those of one query: what a task asks for after its first
request is asked for because the requests before were repeated. -/
theorem oneQuery_step {made : List Asked} (hnodup : codes.Nodup) (horderly : l.Orderly slots [])
    (h : Accounted t source codes before made l.tasks l.line.ledger)
    (honce : ∀ code, OneQuery t (outcomesFor code made))
    (hstep : l.step t source cancelAt order = .ok l') :
    ∃ made', Accounted t source codes before made' l'.tasks l'.line.ledger ∧
      ∀ code, OneQuery t (outcomesFor code made') := by
  obtain ⟨made', h'⟩ := h.step hnodup horderly hstep
  refine ⟨made', h', ?_⟩
  rcases log_step horderly hstep with hlog | ⟨i, task, outcome, htask, hphase, hlog⟩
  · rw [h.log, h'.log] at hlog
    rwa [List.append_cancel_left hlog]
  · rw [h.log, h'.log, List.append_assoc] at hlog
    rw [List.append_cancel_left hlog]
    intro code
    rw [outcomesFor_append]
    by_cases hcode : task.code = code
    · subst hcode
      have hstanding := h.standing i task htask
      rw [hphase] at hstanding
      generalize outcomesFor task.code made = outcomes at hstanding
      generalize task.failures = failures at hstanding
      cases hstanding with
      | waiting _ hretried =>
        rw [outcomesFor_cons_self]
        exact oneQuery_snoc hretried outcome
    · rw [outcomesFor_cons_of_ne hcode, outcomesFor_nil, List.append_nil]
      exact honce code

theorem run_asks (hnodup : codes.Nodup) {made : List Asked}
    (h : Accounted t source codes before made l.tasks l.line.ledger) (horderly : l.Orderly slots [])
    (honce : ∀ code, OneQuery t (outcomesFor code made)) :
    ∃ made, (l.run t source cancelAt order).2.ledger.log = before.log ++ made ∧
      (∀ a ∈ made, a.code ∈ codes) ∧ ∀ code, OneQuery t (outcomesFor code made) := by
  obtain ⟨m, ⟨-, made', h', honce'⟩, hlast⟩ := Level.run_keeps
    (P := fun m => m.Orderly slots [] ∧ ∃ made,
      Accounted t source codes before made m.tasks m.line.ledger ∧
        ∀ code, OneQuery t (outcomesFor code made))
    ⟨horderly, made, h, honce⟩ fun m m' ⟨horderly, made, h, honce⟩ hstep =>
      ⟨horderly.step hstep, oneQuery_step hnodup horderly h honce hstep⟩
  rw [hlast]
  exact ⟨made', h'.log, h'.asked, honce'⟩

theorem sparing_onSchedule (t : Tuning) (source : Source σ) (cancelAt : Option Binary64)
    (order : Order σ) : Sparing t Timeline.ledger (onSchedule t source cancelAt order) :=
  fun codes line hnodup => run_asks hnodup (.ofCodes t source codes line) (.ofCodes t codes line)
    fun _ => oneQuery_nil t

end OnSchedule

/-- Some request brought a record with a code. -/
def Brings (code : String) (log : List Asked) : Prop :=
  ∃ a ∈ log, ∃ nodes, a.outcome = .ok nodes ∧ ∃ n ∈ nodes, n.record.code = some code

theorem brings_append {code : String} {a b : List Asked} :
    Brings code (a ++ b) ↔ Brings code a ∨ Brings code b := by
  simp only [Brings, List.mem_append, or_and_right, exists_or]

/-- The nodes that a settled level found are those that its requests brought. -/
theorem LevelSettled.brings_iff {σ : Type} {t : Tuning} {source : Source σ} {codes : List String}
    {settled : List Settled} {made : List Asked} {before after : Ledger σ}
    (h : LevelSettled t source 0 codes settled made before after) (code : String) :
    Brings code made ↔
      ∃ n ∈ (settled.map Settled.nodes).flatten, n.record.code = some code := by
  constructor
  · rintro ⟨⟨asked, outcome⟩, ha, nodes, hok, n, hn, hcode⟩
    obtain rfl : outcome = .ok nodes := hok
    obtain ⟨i, s, hi, hs⟩ := h.query (h.asked _ ha)
    have hmem := mem_outcomesFor.mpr ha
    obtain ⟨earlier, later, hsplit⟩ := List.append_of_mem hmem
    have hsettles := h.settles i asked s hi hs
    rw [hsplit] at hsettles
    -- What found something is the last request of its query, and so what settled it.
    obtain rfl := hsettles.oneQuery.ok_last
    obtain ⟨earlier', last, heq, _, hjudge⟩ := hsettles
    obtain ⟨rfl, hlast⟩ := List.append_inj' heq rfl
    obtain rfl : Except.ok nodes = last := by simpa using hlast
    cases hjudge
    refine ⟨n, List.mem_flatten.mpr ⟨nodes, ?_, hn⟩, hcode⟩
    exact List.mem_map.mpr ⟨.ok nodes, List.mem_of_getElem? hs, rfl⟩
  · rintro ⟨n, hn, hcode⟩
    obtain ⟨_, hmem, hn⟩ := List.mem_flatten.mp hn
    obtain ⟨s, hs, rfl⟩ := List.mem_map.mp hmem
    cases s with
    | error e => cases hn
    | ok nodes =>
      obtain ⟨i, hi⟩ := List.mem_iff_getElem?.mp hs
      have hlt : i < codes.length := h.length_eq ▸ (List.getElem?_eq_some_iff.mp hi).1
      have hsettles := h.settles i codes[i] _ (List.getElem?_eq_getElem hlt) hi
      exact ⟨_, mem_outcomesFor.mp hsettles.mem_ok, nodes, rfl, n, hn, hcode⟩

theorem Settles.ne_nil {t : Tuning} {outcomes : List (Except Fault (List Node))} {s : Settled}
    (h : Settles t outcomes s) : outcomes ≠ [] := by
  obtain ⟨earlier, last, rfl, _⟩ := h
  simp

theorem outcomesFor_ne_nil {code : String} {log : List Asked} :
    outcomesFor code log ≠ [] ↔ ∃ a ∈ log, a.code = code := by
  constructor
  · intro hne
    by_contra hnone
    exact hne (outcomesFor_eq_nil fun a ha hcode => hnone ⟨a, ha, hcode⟩)
  · rintro ⟨⟨_, outcome⟩, ha, rfl⟩
    exact List.ne_nil_of_mem (mem_outcomesFor.mpr ha)

/-- A code that a frontier has, or a record brought since. -/
def Named (code : String) (frontier : List Node) (made : List Asked) : Prop :=
  (∃ n ∈ frontier, n.record.code = some code) ∨ Brings code made

/-- What is asked for below a frontier, given the codes met above it: each code by one query at
most, and none but those that turn up and were not met. -/
structure AskedBelow (t : Tuning) (met : List String) (frontier : List Node) (made : List Asked) :
    Prop where
  once : ∀ code, OneQuery t (outcomesFor code made)
  fresh : ∀ a ∈ made, a.code ≠ "" ∧ a.code ∉ met
  named : ∀ a ∈ made, Named a.code frontier made

/-- Every code that turns up below a frontier was asked for, unless it was met above. -/
def AskedAll (met : List String) (frontier : List Node) (made : List Asked) : Prop :=
  ∀ code, code ≠ "" → code ∉ met → Named code frontier made → ∃ a ∈ made, a.code = code

section

variable {σ S : Type} {t : Tuning} {source : Source σ} {ledger : S → Ledger σ} {gather : Gather S}
  {met : List String} {frontier : List Node} {settled : List Settled} {made more : List Asked}
  {before between : Ledger σ}

theorem AskedBelow.nil (t : Tuning) (met : List String) (frontier : List Node) :
    AskedBelow t met frontier [] :=
  ⟨fun _ => oneQuery_nil t, by simp, by simp⟩

theorem AskedAll.nil (h : freshCodes met frontier = []) : AskedAll met frontier [] := by
  rintro code hne hmet (hn | ⟨a, ha, _⟩)
  · have hmem := mem_freshCodes.mpr ⟨hne, hmet, hn⟩
    rw [h] at hmem
    cases hmem
  · cases ha

theorem AskedBelow.of_level (hasked : ∀ a ∈ made, a.code ∈ freshCodes met frontier)
    (honce : ∀ code, OneQuery t (outcomesFor code made)) : AskedBelow t met frontier made where
  once := honce
  fresh a ha := by
    obtain ⟨hne, hmet, _⟩ := mem_freshCodes.mp (hasked a ha)
    exact ⟨hne, hmet⟩
  named a ha := .inl (mem_freshCodes.mp (hasked a ha)).2.2

theorem AskedBelow.append
    (hlevel : LevelSettled t source 0 (freshCodes met frontier) settled made before between)
    (honce : ∀ code, OneQuery t (outcomesFor code made))
    (hbelow : AskedBelow t (freshCodes met frontier ++ met)
      (settled.map Settled.nodes).flatten more) : AskedBelow t met frontier (made ++ more) where
  once := oneQuery_append hlevel.asked
    (fun a ha hcode => (hbelow.fresh a ha).2 (List.mem_append_left met hcode)) honce hbelow.once
  fresh a ha := by
    rcases List.mem_append.mp ha with ha | ha
    · obtain ⟨hne, hmet, _⟩ := mem_freshCodes.mp (hlevel.asked a ha)
      exact ⟨hne, hmet⟩
    · obtain ⟨hne, hmet⟩ := hbelow.fresh a ha
      exact ⟨hne, fun hmem => hmet (List.mem_append_right _ hmem)⟩
  named a ha := by
    rw [Named, brings_append]
    rcases List.mem_append.mp ha with ha | ha
    · exact .inl (mem_freshCodes.mp (hlevel.asked a ha)).2.2
    · rcases hbelow.named a ha with hn | hmore
      · exact .inr (.inl ((hlevel.brings_iff a.code).mpr hn))
      · exact .inr (.inr hmore)

theorem AskedAll.append
    (hlevel : LevelSettled t source 0 (freshCodes met frontier) settled made before between)
    (hbelow : AskedAll (freshCodes met frontier ++ met) (settled.map Settled.nodes).flatten more) :
    AskedAll met frontier (made ++ more) := by
  intro code hne hmet hnamed
  by_cases hopened : code ∈ freshCodes met frontier
  · obtain ⟨i, s, hi, hs⟩ := hlevel.query hopened
    obtain ⟨a, ha, hcode⟩ := outcomesFor_ne_nil.mp (hlevel.settles i code s hi hs).ne_nil
    exact ⟨a, List.mem_append_left more ha, hcode⟩
  · have hfound : Named code (settled.map Settled.nodes).flatten more := by
      rw [Named, brings_append, hlevel.brings_iff] at hnamed
      rcases hnamed with hn | hfound
      · exact absurd (mem_freshCodes.mpr ⟨hne, hmet, hn⟩) hopened
      · exact hfound
    obtain ⟨a, ha, hcode⟩ := hbelow code hne (by simp [hopened, hmet]) hfound
    exact ⟨a, List.mem_append_right made ha, hcode⟩

theorem Descent.asks (hgather : Settling t source ledger gather)
    (hsparing : Sparing t ledger gather) {depth : Nat} {state state' : S}
    {result : Except Halt (List Node)} (h : Descent gather depth met frontier state result state') :
    ∃ made, (ledger state').log = (ledger state).log ++ made ∧ AskedBelow t met frontier made ∧
      ((∃ roots, result = .ok roots) → AskedAll met frontier made) := by
  induction h with
  | done hfresh => exact ⟨[], by simp, .nil t _ _, fun _ => .nil hfresh⟩
  | tooDeep => exact ⟨[], by simp, .nil t _ _, fun hok => by cases hok.choose_spec⟩
  | @stopped _ met frontier state _ _ _ hstopped =>
    obtain ⟨made, hlog, hasked, honce⟩ := hsparing _ state (nodup_freshCodes met frontier)
    rw [hstopped] at hlog
    exact ⟨made, hlog, .of_level hasked honce, fun hok => by cases hok.choose_spec⟩
  | @halted _ met frontier state _ _ _ _ _ hsettled _ ih =>
    obtain ⟨made, hlevel, honce⟩ := hsparing.settled hgather (nodup_freshCodes met frontier) hsettled
    obtain ⟨more, hmore, hbelow, _⟩ := ih
    refine ⟨made ++ more, ?_, .append hlevel honce hbelow, fun hok => by cases hok.choose_spec⟩
    rw [hmore, hlevel.log, List.append_assoc]
  | @level _ met frontier state _ _ below _ _ hsettled _ ih =>
    obtain ⟨made, hlevel, honce⟩ := hsparing.settled hgather (nodup_freshCodes met frontier) hsettled
    obtain ⟨more, hmore, hbelow, hall⟩ := ih
    refine ⟨made ++ more, ?_, .append hlevel honce hbelow, fun _ => .append hlevel (hall ⟨below, rfl⟩)⟩
    rw [hmore, hlevel.log, List.append_assoc]

/-- What a pass asks for: first the code that it begins with, by one query, then the codes of the
records that are brought, each by one query, too. -/
structure AskedInTurn (t : Tuning) (parent : String) (first again : List Asked) : Prop where
  own : ∀ a ∈ first, a.code = parent
  once : OneQuery t (outcomesFor parent first)
  below : ∀ code, OneQuery t (outcomesFor code again)
  brought : ∀ a ∈ again, a.code ≠ "" ∧ Brings a.code (first ++ again)

theorem AskedInTurn.of_first {parent : String} {first : List Asked}
    (hown : ∀ a ∈ first, a.code ∈ [parent]) (honce : ∀ code, OneQuery t (outcomesFor code first)) :
    AskedInTurn t parent first [] :=
  ⟨by simpa using hown, honce parent, fun _ => oneQuery_nil t, by simp⟩

theorem forest_asks (hgather : Settling t source ledger gather)
    (hsparing : Sparing t ledger gather) (depth : Nat) (parent : String) (state : S) :
    ∃ first again,
      (ledger (forest gather depth parent state).2).log = (ledger state).log ++ (first ++ again) ∧
        AskedInTurn t parent first again ∧
        ((∃ roots, (forest gather depth parent state).1 = .ok roots) →
          (∃ records, Settles t (outcomesFor parent first) (.ok records)) ∧
            ∀ code, code ≠ "" → Brings code (first ++ again) → ∃ a ∈ again, a.code = code) := by
  obtain ⟨first, hlog, hown, honce⟩ := hsparing [parent] state (by simp)
  unfold forest
  generalize hrun : gather [parent] state = run at hlog
  obtain ⟨result, between⟩ := run
  cases result with
  | error stop =>
    refine ⟨first, [], by simpa using hlog, .of_first hown honce, fun hok => ?_⟩
    cases hok.choose_spec
  | ok settled =>
    obtain ⟨made, hlevel⟩ := hgather _ _ _ _ (by simp) hrun
    rw [hlevel.log] at hlog
    obtain rfl := List.append_cancel_left hlog
    match settled with
    | [] =>
      have hlength := hlevel.length_eq
      cases hlength
    | .error e :: rest =>
      refine ⟨made, [], by simpa using hlevel.log, .of_first hown honce, fun hok => ?_⟩
      cases hok.choose_spec
    | .ok records :: rest =>
      obtain rfl : rest = [] := by simpa using hlevel.length_eq
      have hbrings := hlevel.brings_iff
      simp only [List.map_cons, List.map_nil, List.flatten_cons, List.flatten_nil, List.append_nil,
        Settled.nodes] at hbrings
      obtain ⟨again, hagain, hbelow, hall⟩ :=
        (expand_descent gather depth [] records between).asks hgather hsparing
      refine ⟨made, again, ?_, ⟨by simpa using hown, honce parent, hbelow.once, ?_⟩, ?_⟩
      · rw [hagain, hlevel.log, List.append_assoc]
      · intro a ha
        rw [brings_append, hbrings]
        exact ⟨(hbelow.fresh a ha).1, hbelow.named a ha⟩
      · refine fun hok => ⟨⟨records, hlevel.settles 0 parent _ rfl rfl⟩, fun code hne hbrought => ?_⟩
        rw [brings_append, hbrings] at hbrought
        exact hall hok code hne (by simp) hbrought

end

/-- The requests for a code in a whole pass, if they are those of one query: no more than there are
attempts, and no more than one that found something. -/
structure AskedOnce (t : Tuning) (code : String) (log : List Asked) : Prop where
  query : OneQuery t (outcomesFor code log)
  attempts : (outcomesFor code log).length ≤ t.maxAttempts
  found : (outcomesFor code log).countP Except.isOk ≤ 1

theorem OneQuery.askedOnce {t : Tuning} {code : String} {log : List Asked}
    (h : OneQuery t (outcomesFor code log)) : AskedOnce t code log :=
  ⟨h, h.length_le, h.countP_isOk_le⟩

/-- Every pass asks for each code by one query at most, save for the code that it begins with: that
one is asked for a second time below if some record has it, and in a pass that brings a forest only
then. -/
theorem resolve_asks_once {σ : Type} (t : Tuning) (source : Source σ) (depth : Nat)
    (parent : String) (s : σ) (manner : Manner σ) :
    (∀ code, code ≠ parent →
      AskedOnce t code (resolve t source depth parent s manner).2.log) ∧
    (∃ first again, (resolve t source depth parent s manner).2.log = first ++ again ∧
      AskedOnce t parent first ∧ AskedOnce t parent again ∧
        ((∃ a ∈ again, a.code = parent) →
          parent ≠ "" ∧ Brings parent (resolve t source depth parent s manner).2.log)) ∧
    ((∃ roots, (resolve t source depth parent s manner).1 = .ok roots) →
      (AskedOnce t parent (resolve t source depth parent s manner).2.log ↔
        parent = "" ∨ ¬ Brings parent (resolve t source depth parent s manner).2.log)) := by
  obtain ⟨first, again, hlog, hturn, hall⟩ : ∃ first again,
      (resolve t source depth parent s manner).2.log = first ++ again ∧
        AskedInTurn t parent first again ∧
        ((∃ roots, (resolve t source depth parent s manner).1 = .ok roots) →
          (∃ records, Settles t (outcomesFor parent first) (.ok records)) ∧
            ∀ code, code ≠ "" → Brings code (first ++ again) → ∃ a ∈ again, a.code = code) := by
    cases manner with
    | inSequence =>
      exact forest_asks (settling_inSequence t source) (sparing_inSequence t source) depth parent
        (Pass.start s)
    | onSchedule cancelAt order =>
      exact forest_asks (settling_onSchedule t source cancelAt order)
        (sparing_onSchedule t source cancelAt order) depth parent (Timeline.start s)
  rw [hlog]
  refine ⟨fun code hcode => ?_, ⟨first, again, rfl, hturn.once.askedOnce,
    (hturn.below parent).askedOnce, ?_⟩, fun hok => ?_⟩
  · have hnone : outcomesFor code first = [] :=
      outcomesFor_eq_nil fun a ha (heq : a.code = code) => hcode (heq.symm.trans (hturn.own a ha))
    apply OneQuery.askedOnce
    rw [outcomesFor_append, hnone, List.nil_append]
    exact hturn.below code
  · rintro ⟨a, ha, rfl⟩
    exact hturn.brought a ha
  · obtain ⟨⟨records, hsettles⟩, hasked⟩ := hall hok
    constructor
    · intro honce
      by_contra hbrings
      rw [not_or, not_not] at hbrings
      have hagain := outcomesFor_ne_nil.mpr (hasked parent hbrings.1 hbrings.2)
      -- The first query found the roots, so nothing can follow its last request.
      obtain ⟨earlier, last, heq, _, hjudge⟩ := hsettles
      have hquery := honce.query
      rw [outcomesFor_append, heq, ok_of_judge hjudge, List.append_assoc, List.singleton_append]
        at hquery
      exact hagain hquery.ok_last
    · intro hnot
      have hnone : outcomesFor parent again = [] := by
        refine outcomesFor_eq_nil fun a ha (heq : a.code = parent) => ?_
        obtain ⟨hne, hbrings⟩ := hturn.brought a ha
        rw [heq] at hne hbrings
        exact hnot.elim hne fun hno => hno hbrings
      apply OneQuery.askedOnce
      rw [outcomesFor_append, hnone, List.append_nil]
      exact hturn.once

/-- Records with the code that the pass begins with, at every other request. -/
def looped : Script := [("0", [busy, brings ["0"], busy, brings ["0"]])]

/-- The code that a pass begins with is asked for by two queries when a record has it: both find
something, and together they make more requests than there are attempts. -/
theorem resolve_asks_again :
    let asked := outcomesFor "0" (resolve twice Script.source 2 "0" looped .inSequence).2.log
    ¬ asked.countP Except.isOk ≤ 1 ∧ ¬ asked.length ≤ twice.maxAttempts := by
  constructor
  · decide +kernel
  · decide +kernel

end Resolve

end AdminConsole
