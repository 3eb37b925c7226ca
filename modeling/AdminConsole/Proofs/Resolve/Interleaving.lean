import AdminConsole.Proofs.Resolve.LevelByLevel

/-!
Passes that agree. Over a steady source a level comes out the same whether its queries are settled
one after another or side by side: each query sees the outcomes of its own stream, and the books
only count what the queries did. So the whole pass comes out the same.
-/

namespace AdminConsole

/-- Reports that say the same; the codes that failed may stand in another order. -/
structure Report.Same (r r' : Report) : Prop where
  fetched : r.fetched = r'.fetched
  retried : r.retried = r'.retried
  failed : ∀ code, Entries.get? code r.failed = Entries.get? code r'.failed

namespace Resolve

variable {σ : Type} {t t' : Tuning} {source : Source σ} {width place : Nat} {codes : List String}
  {settled settled' : List Settled} {made made' : List Asked} {a a' b b' : Ledger σ}

/-- Books of two passes from which both go on alike. -/
def Agreeing (source : Source σ) (a b : Ledger σ) : Prop :=
  ∃ stream : Stream, stream.Fetching ∧ Steady source a.source stream ∧
    Steady source b.source stream ∧ a.report.Same b.report

theorem Agreeing.symm (h : Agreeing source a b) : Agreeing source b a := by
  obtain ⟨stream, hfetching, ha, hb, hsame⟩ := h
  exact ⟨stream, hfetching, hb, ha, hsame.fetched.symm, hsame.retried.symm,
    fun code => (hsame.failed code).symm⟩

theorem Agreeing.fetching (h : Agreeing source a b) : Fetching source a.source := by
  obtain ⟨stream, hfetching, ha, _⟩ := h
  exact ha.fetching hfetching

theorem Steady.follows {s s' : σ} {stream : Stream} (h : Steady source s stream)
    (hmade : Answers source s made s') (code : String) :
    Follows (outcomesFor code made) (stream code) :=
  fun k outcome hk => h made s' hmade code k outcome hk

theorem LevelSettled.alike (h : t.Alike width t') (hwidth : place + codes.length ≤ width)
    (hlevel : LevelSettled t' source place codes settled made a a') :
    LevelSettled t source place codes settled made a a' :=
  { hlevel with
    placed := fun i hi => (h.places _ (by omega)).mpr (hlevel.placed i hi)
    settles := fun i code s hcode hs => h.settles (hlevel.settles i code s hcode hs) }

section Stream

variable {stream : Stream} (ha : Steady source a.source stream) (hb : Steady source b.source stream)
  (h : LevelSettled t source 0 codes settled made a a')
  (h' : LevelSettled t source 0 codes settled' made' b b')
include ha hb h h'

/-- Each query ends with the first outcome of its stream that settles it, in both passes. -/
theorem LevelSettled.query_agree {i : Nat} {code : String} {s s' : Settled}
    (hcode : codes[i]? = some code) (hs : settled[i]? = some s) (hs' : settled'[i]? = some s') :
    outcomesFor code made = outcomesFor code made' ∧ s = s' :=
  (h.settles i code s hcode hs).agree (h'.settles i code s' hcode hs')
    (ha.follows h.answers code) (hb.follows h'.answers code)

theorem LevelSettled.settled_agree : settled = settled' := by
  apply List.ext_getElem (h.length_eq.trans h'.length_eq.symm)
  intro i hi hi'
  have hlt : i < codes.length := h.length_eq ▸ hi
  exact (h.query_agree ha hb h' (List.getElem?_eq_getElem hlt) (List.getElem?_eq_getElem hi)
    (List.getElem?_eq_getElem hi')).2

theorem LevelSettled.outcomes_agree (code : String) :
    outcomesFor code made = outcomesFor code made' := by
  by_cases hcode : code ∈ codes
  · obtain ⟨i, s, hi, hs⟩ := h.query hcode
    exact (h.query_agree ha hb h' hi hs (h.settled_agree ha hb h' ▸ hs)).1
  · have hnone : outcomesFor code made = [] :=
      outcomesFor_eq_nil fun a ha heq => hcode (heq ▸ h.asked a ha)
    have hnone' : outcomesFor code made' = [] :=
      outcomesFor_eq_nil fun a ha heq => hcode (heq ▸ h'.asked a ha)
    rw [hnone, hnone']

end Stream

/-- Two passes over one level make the same requests for each code, with the same results. -/
theorem LevelSettled.agree (hnodup : codes.Nodup) (hagree : Agreeing source a b)
    (h : LevelSettled t source 0 codes settled made a a')
    (h' : LevelSettled t source 0 codes settled' made' b b') :
    settled = settled' ∧ Agreeing source a' b' := by
  obtain ⟨stream, hfetching, ha, hb, hsame⟩ := hagree
  have hmade := h.outcomes_agree ha hb h'
  have hsettled := h.settled_agree ha hb h'
  subst hsettled
  have hlength : made.length = made'.length := by
    rw [Accounted.length_made hnodup h.asked, Accounted.length_made hnodup h'.asked]
    simp only [hmade]
  have hb' := hb.after h'.answers
  simp only [← hmade] at hb'
  refine ⟨rfl, _, ?_, ha.after h.answers, hb', ?_, ?_, ?_⟩
  · exact fun code k fault => hfetching code _ fault
  · have := h.fetched
    have := h'.fetched
    have := hsame.fetched
    omega
  · have := h.retried
    have := h'.retried
    have := hsame.retried
    omega
  · intro code
    by_cases hcode : code ∈ codes
    · obtain ⟨i, s, hi, hs⟩ := h.query hcode
      rw [h.failed i code s hi hs, h'.failed i code s hi hs]
      split
      · exact hsame.failed code
      · rfl
    · rw [h.kept code hcode, h'.kept code hcode, hsame.failed code]

theorem LevelSettled.not_broken {stop : Stop} (hagree : Agreeing source a b)
    (h : LevelSettled t source 0 codes settled made a a') :
    ¬ LevelBroken t source 0 codes b b' stop := by
  intro hbroken
  obtain ⟨fault, i, code, made', rfl, hcode, _, hanswers, hbreaks⟩ := hbroken
  obtain ⟨stream, _, ha, hb, _⟩ := hagree
  have hi : i < codes.length := (List.getElem?_eq_some_iff.mp hcode).1
  have hget := List.getElem?_eq_getElem (h.length_eq ▸ hi)
  rw [Nat.zero_add] at hbreaks
  have hplaced := h.placed i hi
  rw [Nat.zero_add] at hplaced
  exact (h.settles i code _ hcode hget).not_breaks hplaced (ha.follows h.answers code)
    (hb.follows hanswers code) hbreaks

/-- Where requests only fail for the query itself, a pause that is too long is all that can end
the pass. -/
theorem LevelBroken.stop_eq {stop : Stop} (hfetching : Fetching source a.source)
    (h : LevelBroken t source place codes a a' stop) :
    stop = .fault (.number .tooLargeForReal) := by
  obtain ⟨_, _, ⟨_, rfl⟩ | ⟨fault, hfault, _⟩⟩ := h.reason (Nat.le_refl _)
  · rfl
  · exact absurd hfault hfetching.not_faults

/-- Two ways to settle levels that come out the same, up to a width. -/
def GathersAgree {S S' : Type} (source : Source σ) (width : Nat) (ledger : S → Ledger σ)
    (ledger' : S' → Ledger σ) (gather : Gather S) (gather' : Gather S') : Prop :=
  ∀ codes state state', codes.Nodup → codes.length ≤ width →
    Agreeing source (ledger state) (ledger' state') →
      (gather codes state).1 = (gather' codes state').1 ∧
        ∀ settled, (gather' codes state').1 = .ok settled →
          Agreeing source (ledger (gather codes state).2) (ledger' (gather' codes state').2)

theorem gathersAgree_onSchedule (halike : t.Alike width t') (order : Order σ) :
    GathersAgree source width Timeline.ledger Pass.ledger (onSchedule t source none order)
      (inSequence t' source) := by
  intro codes line p hnodup hwidth hagree
  have hwidth : 0 + codes.length ≤ width := by omega
  cases htimed : onSchedule t source none order codes line with
  | mk result line' =>
    cases hplain : inSequence t' source codes p with
    | mk result' p' =>
      cases result with
      | ok settled =>
        obtain ⟨made, hmade⟩ := onSchedule_settled hnodup htimed
        cases result' with
        | ok settled' =>
          obtain ⟨made', hmade'⟩ := settleFrom_settled hnodup hplain
          obtain ⟨rfl, hafter⟩ := hmade.agree hnodup hagree (hmade'.alike halike hwidth)
          exact ⟨rfl, fun _ _ => hafter⟩
        | error stop' =>
          have hbroken := settleFrom_broken hnodup hplain
          exact absurd hbroken ((hmade.alike halike.symm hwidth).not_broken hagree)
      | error stop =>
        have hbroken := onSchedule_broken hnodup htimed
        cases result' with
        | ok settled' =>
          obtain ⟨made', hmade'⟩ := settleFrom_settled hnodup hplain
          exact absurd hbroken ((hmade'.alike halike hwidth).not_broken hagree.symm)
        | error stop' =>
          -- Both were broken, perhaps by different queries, but there is one error only.
          have hbroken' := settleFrom_broken hnodup hplain
          rw [hbroken.stop_eq hagree.fetching, hbroken'.stop_eq hagree.symm.fetching]
          exact ⟨rfl, fun _ h => by cases h⟩

section

variable {S S' : Type} {ledger : S → Ledger σ} {ledger' : S' → Ledger σ} {gather : Gather S}
  {gather' : Gather S'} {pool : List String}

theorem expand_agree (hgather : GathersAgree source width ledger ledger' gather gather')
    (hsettling : Settling t source ledger gather) (hpool : pool.length ≤ width) (depth : Nat)
    (met : List String) (frontier : List Node) (state : S) (state' : S')
    (hdelivers : Delivers source (ledger state).source (CodeAmong pool))
    (hfrontier : ∀ n ∈ frontier, CodeAmong pool n)
    (hagree : Agreeing source (ledger state) (ledger' state')) :
    (expand gather depth met frontier state).1 = (expand gather' depth met frontier state').1 ∧
      ∀ roots, (expand gather' depth met frontier state').1 = .ok roots →
        Agreeing source (ledger (expand gather depth met frontier state).2)
          (ledger' (expand gather' depth met frontier state').2) := by
  -- The books agree where a level begins, so they agree where the next one begins.
  induction depth generalizing met frontier state state' with
  | zero =>
    unfold expand
    split
    · exact ⟨rfl, fun _ _ => hagree⟩
    · exact ⟨rfl, fun _ h => by cases h⟩
    · rename_i heq
      cases heq
  | succ depth ih =>
    unfold expand
    split
    · exact ⟨rfl, fun _ _ => hagree⟩
    · rename_i heq
      cases heq
    · rename_i code codes depth' hfresh heq
      cases heq
      have hnodup := nodup_freshCodes met frontier
      have hlength := length_freshCodes_le met hfrontier
      rw [hfresh] at hnodup hlength
      have hsettled := fun settled => hsettling (code :: codes) state settled
        (gather (code :: codes) state).2 hnodup
      obtain ⟨hsame, hafter⟩ :=
        hgather (code :: codes) state state' hnodup (Nat.le_trans hlength hpool) hagree
      generalize gather (code :: codes) state = run at hsame hafter hsettled
      generalize gather' (code :: codes) state' = run' at hsame hafter
      obtain ⟨result, between⟩ := run
      obtain ⟨result', between'⟩ := run'
      cases hsame
      cases result with
      | error stop => exact ⟨rfl, fun _ h => by cases h⟩
      | ok settled =>
        obtain ⟨made, hlevel⟩ := hsettled settled rfl
        obtain ⟨hbelow, hend⟩ := ih (code :: codes ++ met) (settled.map Settled.nodes).flatten
          between between' (hdelivers.after hlevel.answers) (hlevel.delivers_flatten hdelivers)
          (hafter settled rfl)
        dsimp only
        generalize expand gather depth _ _ between = run at hbelow hend
        generalize expand gather' depth _ _ between' = run' at hbelow hend
        obtain ⟨result, after⟩ := run
        obtain ⟨result', after'⟩ := run'
        cases hbelow
        cases result with
        | error halt => exact ⟨rfl, fun _ h => by cases h⟩
        | ok below => exact ⟨rfl, fun _ _ => hend below rfl⟩

theorem forest_agree (hgather : GathersAgree source width ledger ledger' gather gather')
    (hsettling : Settling t source ledger gather) (hpool : pool.length < width) (depth : Nat)
    (parent : String) (state : S) (state' : S')
    (hdelivers : Delivers source (ledger state).source (CodeAmong pool))
    (hagree : Agreeing source (ledger state) (ledger' state')) :
    (forest gather depth parent state).1 = (forest gather' depth parent state').1 ∧
      ∀ roots, (forest gather' depth parent state').1 = .ok roots →
        Agreeing source (ledger (forest gather depth parent state).2)
          (ledger' (forest gather' depth parent state').2) := by
  have hsettled := fun settled => hsettling [parent] state settled (gather [parent] state).2 (by simp)
  obtain ⟨hsame, hafter⟩ := hgather [parent] state state' (by simp) (Nat.zero_lt_of_lt hpool) hagree
  unfold forest
  generalize gather [parent] state = run at hsame hafter hsettled
  generalize gather' [parent] state' = run' at hsame hafter
  obtain ⟨result, between⟩ := run
  obtain ⟨result', between'⟩ := run'
  cases hsame
  cases result with
  | error stop => exact ⟨rfl, fun _ h => by cases h⟩
  | ok settled =>
    obtain ⟨first, hfirst⟩ := hsettled settled rfl
    dsimp only
    split
    · exact ⟨rfl, fun _ _ => hafter _ rfl⟩
    · exact ⟨rfl, fun _ h => by cases h⟩
    · rename_i records rest
      exact expand_agree hgather hsettling (Nat.le_of_lt hpool) depth [] _ between between'
        (hdelivers.after hfirst.answers)
        (hfirst.delivers hdelivers (.ok records) List.mem_cons_self) (hafter _ rfl)

end

/-- A pass over a script brings the same forest with the same report, or ends with the same error,
whatever the delays, the pauses, the number of slots and the order of the events. The error is that
of the query for the parent, if the pass may go as deep as the script and all pauses can be made. -/
theorem resolve_onSchedule_agrees {t t' : Tuning} {script script' : Script}
    (htuning : t.Alike script.depth t') (hscript : script.Alike script')
    (hfetching : script.Fetching) (order : Order Script) (depth : Nat) (parent : String) :
    (resolve t Script.source depth parent script (.onSchedule none order)).1 =
      (resolve t' Script.source depth parent script' .inSequence).1 ∧
    (∀ roots, (resolve t' Script.source depth parent script' .inSequence).1 = .ok roots →
      (resolve t Script.source depth parent script (.onSchedule none order)).2.report.Same
        (resolve t' Script.source depth parent script' .inSequence).2.report) ∧
    (script.depth ≤ depth → t.CanPause script.depth →
      (∃ roots, (resolve t' Script.source depth parent script' .inSequence).1 = .ok roots) ∨
        ∃ e, RootFails t Script.source script parent e ∧
          (resolve t' Script.source depth parent script' .inSequence).1 =
            .error (.stopped (.fault (.fetch e)))) := by
  have hagree : Agreeing Script.source (Timeline.start script).ledger (Pass.start script').ledger :=
    ⟨script.outcome, hfetching.outcome, steady_script script,
      hscript.outcome ▸ steady_script script', rfl, rfl, fun _ => rfl⟩
  obtain ⟨hsame, hafter⟩ := forest_agree (gathersAgree_onSchedule htuning order)
    (settling_onSchedule t Script.source none order) script.length_codes_lt depth parent
    (Timeline.start script) (Pass.start script') (delivers_script script.gives_codes) hagree
  refine ⟨hsame, fun roots hroots => ?_, fun hdepth hpauses => ?_⟩
  · obtain ⟨_, _, _, _, hreport⟩ := hafter roots hroots
    exact hreport
  · have hunhindered : Unhindered t Script.source depth script (.onSchedule none order)
        script.codes := unhindered_script rfl hfetching hdepth hpauses
    have hcompletes := hunhindered.completes parent
    have hresult : (resolve t Script.source depth parent script (.onSchedule none order)).1 =
        (resolve t' Script.source depth parent script' .inSequence).1 := hsame
    rwa [hresult] at hcompletes

/-- One request at a time, a tenth of a second between queries and two before an attempt. -/
def slowly : Tuning :=
  ⟨2, .real (.ofDecimal false 1 (-1)), .real (.ofDecimal false 2 (-1)), 1, Nat.two_pos, Nat.one_pos⟩

def delayed : Script :=
  tangled.map fun entry => (entry.1, entry.2.map fun r => { r with delay := .whole 3 })

theorem resolve_onSchedule_agrees_delayed :
    let timed := resolve slowly Script.source 7 "0" delayed
      (.onSchedule none fun l => l.line.calls.length)
    timed.1 = .ok untangled ∧
      timed.2.report.Same (resolve twice Script.source 7 "0" tangled .inSequence).2.report := by
  have hslowly : slowly.CanPause delayed.depth :=
    Tuning.canPause (k := 3) (by decide) (by decide) (by decide)
  have htwice : twice.CanPause delayed.depth :=
    Tuning.canPause (k := 3) (by decide) (by decide) (by decide)
  have hfetching : delayed.Fetching := by
    simp [Script.Fetching, delayed, tangled, brings, busy, Failure.IsFetch]
  have hplain : (resolve twice Script.source 7 "0" tangled .inSequence).1 = .ok untangled := by
    cbv
  obtain ⟨hsame, hreport, _⟩ := resolve_onSchedule_agrees (hslowly.alike htwice rfl)
    (show delayed.Alike tangled from rfl) hfetching (fun l => l.line.calls.length) 7 "0"
  exact ⟨hsame.trans hplain, hreport untangled hplain⟩

end Resolve

end AdminConsole
