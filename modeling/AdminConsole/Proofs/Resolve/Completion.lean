import AdminConsole.Proofs.Resolve.Expansion
import AdminConsole.Proofs.Resolve.Pauses
import AdminConsole.Proofs.Resolve.Streams

/-!
Passes that come to an end. Every level opens a code that was not met, so a pass over a source with
finitely many codes never asks for more levels than there are codes. If nothing else stands in the
way, only the query for the parent can keep it from bringing a forest.
-/

namespace AdminConsole

open Node

namespace Resolve

section

variable {σ : Type} {source : Source σ} {s s' : σ} {made log : List Asked} {fault : Fault}

/-- One of the requests made from a state on was answered with a fault that ends the pass; the
requests before it led to the state in which the source answers so. -/
def Faults (source : Source σ) (s : σ) (log : List Asked) (fault : Fault) : Prop :=
  ∃ made s' code, Answers source s made s' ∧ (source code s').1.outcome = .error fault ∧
    (∀ e, fault ≠ .fetch e) ∧ made ++ [⟨code, .error fault⟩] <+: log

theorem Faults.after (hanswers : Answers source s made s') (h : Faults source s' log fault) :
    Faults source s (made ++ log) fault := by
  obtain ⟨more, s'', code, hmore, hfault, hother, hmade⟩ := h
  refine ⟨made ++ more, s'', code, hanswers.append hmore, hfault, hother, ?_⟩
  rw [List.append_assoc]
  exact (List.prefix_append_right_inj made).mpr hmade

theorem Fetching.not_faults (h : Fetching source s) : ¬ Faults source s log fault := by
  rintro ⟨made, s', code, hanswers, hfault, hother, _⟩
  obtain ⟨e, he⟩ := h _ _ (.snoc code hanswers) _ (List.mem_append_right _ List.mem_cons_self) fault
    hfault
  exact hother e he

/-- Every request that was made was answered in a state that the source had reached before. -/
theorem Answers.reached {a : Asked} (h : Answers source s made s') (ha : a ∈ made) :
    ∃ before s'', Answers source s before s'' ∧ (source a.code s'').1.outcome = a.outcome ∧
      before ++ [a] <+: made := by
  induction h with
  | nil => cases ha
  | @snoc made s' code h ih =>
    rcases List.mem_append.mp ha with ha | ha
    · obtain ⟨before, s'', hbefore, houtcome, hmade⟩ := ih ha
      exact ⟨before, s'', hbefore, houtcome, hmade.trans (List.prefix_append _ _)⟩
    · obtain rfl := List.mem_singleton.mp ha
      exact ⟨made, s', h, rfl, List.prefix_rfl⟩

theorem error_of_judge {t : Tuning} {failures : Nat} {outcome : Except Fault (List Node)}
    (h : t.judge failures outcome = .broken fault) :
    outcome = .error fault ∧ ∀ e, fault ≠ .fetch e := by
  unfold Tuning.judge at h
  split at h
  · cases h
  · split at h <;> cases h
  · rename_i hother
    cases h
    exact ⟨rfl, hother⟩

/-- A level is broken by a pause that cannot be made, or by a fault of the source. -/
theorem LevelBroken.reason {t : Tuning} {width place : Nat} {codes : List String}
    {before after : Ledger σ} {stop : Stop}
    (h : LevelBroken t source place codes before after stop) (hwidth : place + codes.length ≤ width) :
    ∃ made, after.log = before.log ++ made ∧
      ((¬ t.CanPause width ∧ stop = .fault (.number .tooLargeForReal)) ∨
        ∃ fault, Faults source before.source made fault ∧ stop = .fault fault) := by
  obtain ⟨fault, i, code, made, rfl, hcode, hlog, hanswers, hbreaks⟩ := h
  refine ⟨made, hlog, ?_⟩
  have hi := (List.getElem?_eq_some_iff.mp hcode).1
  have hmade : ∀ outcome ∈ outcomesFor code made, ⟨code, outcome⟩ ∈ made :=
    fun _ => mem_outcomesFor.mp
  generalize outcomesFor code made = outcomes at hbreaks hmade
  cases hbreaks with
  | place hpause =>
    refine .inl ⟨fun hpauses => ?_, by rw [Tuning.pauseAt_error hpause]⟩
    obtain ⟨pause, hok⟩ := hpauses.places (place + i) (by omega)
    rw [hok] at hpause
    cases hpause
  | @pause earlier last _ _ hagain hpause =>
    refine .inl ⟨fun hpauses => ?_, by rw [Tuning.pauseAfter_error hpause]⟩
    obtain ⟨pause, hok⟩ := hpauses.failures earlier.length (Tuning.attempts_left hagain)
    rw [hok] at hpause
    cases hpause
  | @fault earlier last _ _ hjudge =>
    obtain ⟨rfl, hother⟩ := error_of_judge hjudge
    obtain ⟨earlier, s'', hreached, houtcome, hprefix⟩ :=
      hanswers.reached (hmade _ (List.mem_append_right _ List.mem_cons_self))
    exact .inr ⟨fault, ⟨earlier, s'', code, hreached, houtcome, hother, hprefix⟩, rfl⟩

end

/-- Nodes without a code, or with one of the given codes. -/
def CodeAmong (pool : List String) (n : Node) : Prop :=
  ∀ code, n.record.code = some code → code ∈ pool

/-- Nodes without a code, with an empty one, or with one of the given codes. -/
def NamedAmong (pool : List String) (n : Node) : Prop :=
  ∀ code, n.record.code = some code → code = "" ∨ code ∈ pool

theorem CodeAmong.named {pool : List String} {n : Node} (h : CodeAmong pool n) :
    NamedAmong pool n :=
  fun code hcode => .inr (h code hcode)

theorem freshCodes_among {pool met : List String} {frontier : List Node}
    (h : ∀ n ∈ frontier, NamedAmong pool n) :
    ∀ code ∈ freshCodes met frontier, code ∈ pool ∧ code ∉ met := by
  intro code hcode
  obtain ⟨hne, hfresh, n, hn, hown⟩ := mem_freshCodes.mp hcode
  exact ⟨(h n hn code hown).resolve_left hne, hfresh⟩

theorem length_freshCodes_le {pool : List String} {frontier : List Node} (met : List String)
    (h : ∀ n ∈ frontier, CodeAmong pool n) : (freshCodes met frontier).length ≤ pool.length := by
  apply (List.subperm_of_subset (nodup_freshCodes met frontier) ?_).length_le
  exact fun code hcode => (freshCodes_among (fun n hn => (h n hn).named) code hcode).1

/-- The codes of the pool that were not met are a measure for the levels to come. -/
theorem length_unmet_lt {pool met : List String} {frontier : List Node}
    (h : ∀ n ∈ frontier, NamedAmong pool n) (hopened : freshCodes met frontier ≠ []) :
    (pool.filter (· ∉ freshCodes met frontier ++ met)).length <
      (pool.filter (· ∉ met)).length := by
  obtain ⟨code, hcode⟩ := List.exists_mem_of_ne_nil _ hopened
  obtain ⟨hpool, hmet⟩ := freshCodes_among h code hcode
  have hsplit : pool.filter (· ∉ freshCodes met frontier ++ met) =
      (pool.filter (· ∉ met)).filter (· ∉ freshCodes met frontier) := by
    rw [List.filter_filter]
    apply List.filter_congr
    intro other _
    simp
  rw [hsplit]
  apply List.length_filter_lt_length_iff_exists.mpr
  exact ⟨code, by simp [hpool, hmet], by simp [hcode]⟩

/-- Ways to settle levels in which only a broken query ends the pass. -/
def Breaking {σ S : Type} (t : Tuning) (source : Source σ) (ledger : S → Ledger σ)
    (gather : Gather S) : Prop :=
  ∀ codes state stop state', codes.Nodup → gather codes state = (.error stop, state') →
    LevelBroken t source 0 codes (ledger state) (ledger state') stop

/-- The query for a code that a source was asked first ended with an error. -/
def RootFails {σ : Type} (t : Tuning) (source : Source σ) (s : σ) (parent : String)
    (e : FetchError) : Prop :=
  ∃ made s', Answers source s made s' ∧ (∀ a ∈ made, a.code = parent) ∧
    Settles t (outcomesFor parent made) (.error e)

/-- What a pass that is not cancelled, and not too deep, may come to when it has made some
requests. -/
inductive Ending {σ α : Type} (t : Tuning) (source : Source σ) (width : Nat) (s : σ)
    (parent : String) (log : List Asked) : Except Halt α → Prop where
  | done (found : α) : Ending t source width s parent log (.ok found)
  | root (e : FetchError) (h : RootFails t source s parent e) :
    Ending t source width s parent log (.error (.stopped (.fault (.fetch e))))
  | pause (h : ¬ t.CanPause width) :
    Ending t source width s parent log (.error (.stopped (.fault (.number .tooLargeForReal))))
  | fault (cause : Fault) (h : Faults source s log cause) :
    Ending t source width s parent log (.error (.stopped (.fault cause)))

section

variable {σ α : Type} {t : Tuning} {source : Source σ} {width : Nat} {s : σ} {parent : String}
  {log : List Asked}

theorem Ending.wider {width' : Nat} {result : Except Halt α} (hle : width ≤ width')
    (h : Ending t source width s parent log result) :
    Ending t source width' s parent log result := by
  cases h with
  | done found => exact .done found
  | root e hroot => exact .root e hroot
  | pause hpause => exact .pause fun hpauses => hpause (hpauses.mono hle)
  | fault cause hfault => exact .fault cause hfault

/-- If all pauses can be made and no request breaks the pass, something comes out, unless the query
for the parent failed. -/
theorem Ending.completes {result : Except Halt α} (h : Ending t source width s parent log result)
    (hpauses : t.CanPause width) (hfetching : Fetching source s) :
    (∃ found, result = .ok found) ∨
      ∃ e, RootFails t source s parent e ∧ result = .error (.stopped (.fault (.fetch e))) := by
  cases h with
  | done found => exact .inl ⟨found, rfl⟩
  | root e hroot => exact .inr ⟨e, hroot, rfl⟩
  | pause hpause => exact absurd hpauses hpause
  | fault cause hfault => exact absurd hfault hfetching.not_faults

theorem LevelBroken.ending {codes : List String} {before after : Ledger σ} {stop : Stop}
    {made : List Asked} (h : LevelBroken t source 0 codes before after stop)
    (hanswers : Answers source s made before.source) (hlog : before.log = made)
    (hwidth : codes.length ≤ width) :
    Ending t source width s parent after.log (.error (.stopped stop) : Except Halt α) := by
  obtain ⟨more, hafter, hreason⟩ := h.reason (Nat.le_trans (Nat.le_of_eq (Nat.zero_add _)) hwidth)
  rw [hafter, hlog]
  rcases hreason with ⟨hpauses, rfl⟩ | ⟨fault, hfault, rfl⟩
  · exact .pause hpauses
  · exact .fault fault (hfault.after hanswers)

end

section

variable {σ S : Type} {t : Tuning} {source : Source σ} {ledger : S → Ledger σ} {gather : Gather S}
  {pool : List String}

theorem Descent.not_tooDeep (hgather : Settling t source ledger gather) {depth : Nat}
    {met : List String} {frontier : List Node} {state state' : S}
    {result : Except Halt (List Node)} (h : Descent gather depth met frontier state result state')
    (hdelivers : Delivers source (ledger state).source (NamedAmong pool))
    (hfrontier : ∀ n ∈ frontier, NamedAmong pool n)
    (hdepth : (pool.filter (· ∉ met)).length ≤ depth) : result ≠ .error .tooDeep := by
  induction h with
  | done => simp
  | tooDeep hopened =>
    have hlt := length_unmet_lt hfrontier hopened
    omega
  | stopped => simp
  | halted hopened hsettled _ ih =>
    obtain ⟨made, hlevel⟩ := hgather _ _ _ _ (nodup_freshCodes _ _) hsettled
    have hlt := length_unmet_lt hfrontier hopened
    exact ih (hdelivers.after hlevel.answers) (hlevel.delivers_flatten hdelivers) (by omega)
  | level => simp

/-- A pass that is stopped below the top is stopped by a level that was broken. -/
theorem Descent.broken (hgather : Settling t source ledger gather)
    (hbreaking : Breaking t source ledger gather) {depth : Nat} {met : List String}
    {frontier : List Node} {state state' : S} {stop : Stop}
    (h : Descent gather depth met frontier state (.error (.stopped stop)) state')
    (hdelivers : Delivers source (ledger state).source (CodeAmong pool))
    (hfrontier : ∀ n ∈ frontier, CodeAmong pool n) :
    ∃ codes before made, codes.length ≤ pool.length ∧ before.log = (ledger state).log ++ made ∧
      Answers source (ledger state).source made before.source ∧
        LevelBroken t source 0 codes before (ledger state') stop := by
  generalize hresult : Except.error (Halt.stopped stop) = result at h
  induction h with
  | done => cases hresult
  | tooDeep => cases hresult
  | @stopped _ met _ state _ _ _ hstopped =>
    cases hresult
    have hbroken := hbreaking _ _ _ _ (nodup_freshCodes _ _) hstopped
    exact ⟨_, ledger state, [], length_freshCodes_le met hfrontier, (List.append_nil _).symm, .nil,
      hbroken⟩
  | halted _ hsettled _ ih =>
    obtain ⟨made, hlevel⟩ := hgather _ _ _ _ (nodup_freshCodes _ _) hsettled
    obtain ⟨codes, before, more, hlength, hlog, hanswers, hbroken⟩ :=
      ih (hdelivers.after hlevel.answers) (hlevel.delivers_flatten hdelivers) hresult
    refine ⟨codes, before, made ++ more, hlength, ?_, hlevel.answers.append hanswers, hbroken⟩
    rw [hlog, hlevel.log, List.append_assoc]
  | level => cases hresult

theorem forest_ends (hgather : Settling t source ledger gather) {depth : Nat} {parent : String}
    {state : S} (hdelivers : Delivers source (ledger state).source (NamedAmong pool))
    (hdepth : pool.length ≤ depth) : (forest gather depth parent state).1 ≠ .error .tooDeep := by
  unfold forest
  split
  · simp
  · rename_i settled between hsettled
    obtain ⟨first, hfirst⟩ := hgather _ _ _ _ (by simp) hsettled
    split
    · simp
    · simp
    · rename_i records rest
      apply (expand_descent gather depth [] records between).not_tooDeep hgather
        (hdelivers.after hfirst.answers)
      · exact hfirst.delivers hdelivers (.ok records) List.mem_cons_self
      · exact Nat.le_trans (List.length_filter_le _ _) hdepth

theorem forest_ending (hgather : Settling t source ledger gather)
    (hbreaking : Breaking t source ledger gather) {depth : Nat} {parent : String} {state : S}
    (hstart : (ledger state).log = [])
    (hdelivers : Delivers source (ledger state).source (CodeAmong pool))
    (hdepth : pool.length ≤ depth) :
    Ending t source (pool.length + 1) (ledger state).source parent
      (ledger (forest gather depth parent state).2).log (forest gather depth parent state).1 := by
  have hends : (forest gather depth parent state).1 ≠ .error .tooDeep :=
    forest_ends hgather (hdelivers.mono fun _ h => h.named) hdepth
  unfold forest at hends ⊢
  cases hrun : gather [parent] state with
  | mk result between =>
    rw [hrun] at hends
    cases result with
    | error stop =>
      exact (hbreaking _ _ _ _ (by simp) hrun).ending .nil hstart (by simp)
    | ok settled =>
      obtain ⟨first, hfirst⟩ := hgather _ _ _ _ (by simp) hrun
      have hlog : (ledger between).log = first := by rw [hfirst.log, hstart, List.nil_append]
      match settled with
      | [] => exact .done _
      | .error e :: rest =>
        have hroot := hfirst.settles 0 parent _ rfl rfl
        exact .root e ⟨first, _, hfirst.answers, by simpa using hfirst.asked, hroot⟩
      | .ok records :: rest =>
        have hrecords := hfirst.delivers hdelivers (.ok records) List.mem_cons_self
        have hdescent := expand_descent gather depth [] records between
        dsimp only at hends ⊢
        generalize expand gather depth [] records between = run at hdescent hends ⊢
        obtain ⟨result, state'⟩ := run
        cases result with
        | ok roots => exact .done roots
        | error halt =>
          cases halt with
          | tooDeep => exact absurd rfl hends
          | stopped stop =>
            obtain ⟨codes, before, made, hlength, hbefore, hanswers, hbroken⟩ :=
              hdescent.broken hgather hbreaking (hdelivers.after hfirst.answers) hrecords
            rw [hlog] at hbefore
            exact hbroken.ending (hfirst.answers.append hanswers) hbefore
              (Nat.le_succ_of_le hlength)

end

/-- Passes that are not cancelled. -/
def Manner.Uncancelled {σ : Type} : Manner σ → Prop
  | .inSequence => True
  | .onSchedule cancelAt _ => cancelAt = none

/-- Nothing but the query for the parent keeps a pass from bringing a forest: it is not cancelled,
requests fail for the query alone, there are no more codes than levels that may be asked for, and
all pauses can be made. -/
structure Unhindered {σ : Type} (t : Tuning) (source : Source σ) (depth : Nat) (s : σ)
    (manner : Manner σ) (pool : List String) : Prop where
  uncancelled : manner.Uncancelled
  fetching : Fetching source s
  codes : Delivers source s (CodeAmong pool)
  depth : pool.length ≤ depth
  pauses : t.CanPause (pool.length + 1)

variable {σ : Type} {t : Tuning} {source : Source σ} {depth : Nat} {s : σ} {manner : Manner σ}
  {pool : List String}

/-- A pass that may go down as many levels as there are codes is not too deep. -/
theorem resolve_ends (hdelivers : Delivers source s (NamedAmong pool)) (hdepth : pool.length ≤ depth)
    (parent : String) (manner : Manner σ) :
    (resolve t source depth parent s manner).1 ≠ .error .tooDeep := by
  cases manner with
  | inSequence => exact forest_ends (settling_inSequence t source) hdelivers hdepth
  | onSchedule cancelAt order =>
    exact forest_ends (settling_onSchedule t source cancelAt order) hdelivers hdepth

theorem resolve_ending (hmanner : manner.Uncancelled)
    (hdelivers : Delivers source s (CodeAmong pool)) (hdepth : pool.length ≤ depth)
    (parent : String) :
    Ending t source (pool.length + 1) s parent (resolve t source depth parent s manner).2.log
      (resolve t source depth parent s manner).1 := by
  cases manner with
  | inSequence =>
    have hbreaking : Breaking t source Pass.ledger (inSequence t source) :=
      fun _ _ _ _ hnodup hbroken => settleFrom_broken hnodup hbroken
    have hstart : Delivers source (Pass.start s).ledger.source (CodeAmong pool) := hdelivers
    exact forest_ending (settling_inSequence t source) hbreaking rfl hstart hdepth
  | onSchedule cancelAt order =>
    have hnever : cancelAt = none := hmanner
    subst hnever
    have hbreaking : Breaking t source Timeline.ledger (onSchedule t source none order) :=
      fun _ _ _ _ hnodup hbroken => onSchedule_broken hnodup hbroken
    have hstart : Delivers source (Timeline.start s).ledger.source (CodeAmong pool) := hdelivers
    exact forest_ending (settling_onSchedule t source none order) hbreaking rfl hstart hdepth

theorem Unhindered.completes (h : Unhindered t source depth s manner pool) (parent : String) :
    (∃ roots, (resolve t source depth parent s manner).1 = .ok roots) ∨
      ∃ e, RootFails t source s parent e ∧
        (resolve t source depth parent s manner).1 = .error (.stopped (.fault (.fetch e))) :=
  (resolve_ending h.uncancelled h.codes h.depth parent).completes h.pauses h.fetching

end Resolve

def Script.codes (script : Script) : List String :=
  (script.flatMap fun entry => entry.2.flatMap reactionNodes).filterMap fun n => n.record.code

namespace Script

theorem gives_codes (script : Script) : script.Gives (Resolve.CodeAmong script.codes) := by
  intro entry hentry r hr records hrecords parent nodes hnodes n hn code hcode
  refine List.mem_filterMap.mpr ⟨n, List.mem_flatMap.mpr ⟨entry, hentry, ?_⟩, hcode⟩
  refine List.mem_flatMap.mpr ⟨r, hr, ?_⟩
  rw [reactionNodes, hrecords]
  dsimp only
  rw [Records.nodes_parent hnodes none]
  exact hn

theorem length_codes_lt (script : Script) : script.codes.length < script.depth :=
  Nat.lt_succ_of_le (List.length_filterMap_le _ _)

end Script

theorem Resolve.unhindered_script {t : Tuning} {depth : Nat} {script : Script}
    {manner : Manner Script} (hmanner : manner.Uncancelled) (hfetching : script.Fetching)
    (hdepth : script.depth ≤ depth) (hpauses : t.CanPause script.depth) :
    Unhindered t Script.source depth script manner script.codes where
  uncancelled := hmanner
  fetching := (steady_script script).fetching hfetching.outcome
  codes := delivers_script script.gives_codes
  depth := Nat.le_of_lt (Nat.lt_of_lt_of_le script.length_codes_lt hdepth)
  pauses := hpauses.mono script.length_codes_lt

end AdminConsole
