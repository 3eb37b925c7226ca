import AdminConsole.Proofs.Number.Doubling
import AdminConsole.Proofs.Number.Order
import AdminConsole.Proofs.Resolve.Courses
import AdminConsole.Proofs.Resolve.LevelByLevel

/-!
Spacing. A level begins when all calls of the one before it have ended. In a level the first call
of a query comes no earlier than the stagger times its place after the beginning, and every other
one no earlier than the backoff, doubled with each call, after the end of the call before it.
-/

namespace AdminConsole

namespace Binary64

variable {x y z : Binary64} {u : Int}

theorem units?_add_isZero (hx : x.units? = some u) (hz : z.isZero = true) :
    (x.add z).units? = some u := by
  cases x with
  | finite s m hm =>
    cases z with
    | finite t n hn =>
      have hzero : (finite t n hn).units? = some 0 := congrArg some ((isZero_iff_units rfl).mp hz)
      rw [add, hx, hzero, Option.getD_some, Option.getD_some, Int.add_zero]
      split
      · exact units?_zero _
      · rw [units?, Option.some.injEq] at hx
        have hsize : u.natAbs = unitsOfRank m := by rw [← hx, natAbs_signed]
        rw [ofUnits, hsize, nearestRank_unitsOfRank, ofRank_of_lt _ hm, units?, ← hsize]
        congr 1
        split <;> rename_i hsign <;> rw [decide_eq_true_eq] at hsign <;> omega
    | nan => cases hz
    | infinite t => cases hz
  | nan => cases hx
  | infinite s => cases hx

/-- A sum with zero comes no later. -/
theorem lt_add_isZero (h : x ≤ y) (hz : z.isZero = true) : y.lt (x.add z) = false := by
  cases x with
  | nan => cases h.1
  | infinite s =>
    cases z with
    | finite t n hn => exact h.2.2
    | nan => cases hz
    | infinite t => cases hz
  | finite s m hm =>
    have hsum := units?_add_isZero (x := finite s m hm) rfl hz
    generalize (finite s m hm).add z = sum at hsum ⊢
    cases y with
    | nan => cases h.2.1
    | infinite t => cases sum <;> first | exact h.2.2 | cases hsum
    | finite t n hn =>
      rw [Bool.eq_false_iff]
      intro hlt
      exact Bool.eq_false_iff.mp h.2.2 ((lt_iff_units rfl rfl).mpr ((lt_iff_units rfl hsum).mp hlt))

end Binary64

theorem Number.toReal_isZero {seconds : Number} (h : seconds.isZero = true) :
    ∃ x, seconds.toReal = .ok x ∧ x.isZero = true := by
  cases seconds with
  | real x => exact ⟨x, rfl, h⟩
  | whole n =>
    obtain rfl : n = 0 := by simpa [Number.isZero] using h
    exact ⟨.zero, by decide +kernel, rfl⟩

namespace Resolve

variable {σ : Type} {t : Tuning} {source : Source σ} {cancelAt : Option Binary64} {order : Order σ}

/-! ### Times -/

/-- An instant comes no earlier than some seconds after another one. Seconds that no number is near
take it beyond all instants that are finite. -/
structure Elapsed (since : Binary64) (seconds : Number) (instant : Binary64) : Prop where
  le : since ≤ instant
  sum : ∀ x, seconds.toReal = .ok x → instant.lt (since.add x) = false
  beyond : ∀ cause, seconds.toReal = .error cause → instant = .infinite false

section Elapsed

variable {since instant : Binary64} {seconds : Number}

theorem elapsed_of_instantAfter (hsince : since ≤ since)
    (h : instantAfter since seconds ≤ instant) : Elapsed since seconds instant := by
  refine ⟨Binary64.le_trans (le_instantAfter hsince seconds) h, fun x hreal => ?_,
    fun cause hreal => ?_⟩
  · simp only [instantAfter, hreal, Binary64.latest] at h
    split at h
    · exact h.2.2
    · rename_i hlate
      exact Bool.eq_false_iff.mpr fun hlt => hlate (Binary64.lt_of_le_of_lt h hlt)
  · simp only [instantAfter, hreal] at h
    obtain ⟨-, hnumber, hlast⟩ := h
    cases instant with
    | nan => cases hnumber
    | infinite negative =>
      cases negative with
      | false => rfl
      | true => cases hlast
    | finite s m hm => cases hlast

/-- Seconds of no length leave an instant where it is. -/
theorem elapsed_isZero (h : since ≤ instant) (hseconds : seconds.isZero = true) :
    Elapsed since seconds instant := by
  obtain ⟨x, hx, hzero⟩ := Number.toReal_isZero hseconds
  refine ⟨h, fun y hy => ?_, fun cause hcause => ?_⟩
  · rw [hx] at hy
    cases hy
    exact Binary64.lt_add_isZero h hzero
  · rw [hx] at hcause
    cases hcause

/-- The pause for a place is the stagger times the place. -/
theorem elapsed_pauseAt {place : Nat} {pause : Option Number} (hsince : since ≤ since)
    (hpause : t.pauseAt place = .ok pause) (h : afterPause since pause ≤ instant) :
    since ≤ instant ∧ (place ≠ 0 → t.stagger.isZero = false →
      ∃ length, t.stagger.mul (.whole place) = .ok length ∧ Elapsed since length instant) := by
  refine ⟨Binary64.le_trans (le_afterPause hsince pause) h, fun hplace hstagger => ?_⟩
  rw [Tuning.pauseAt, hstagger, decide_eq_false hplace] at hpause
  cases hlength : t.stagger.mul (.whole place) with
  | error cause =>
    rw [hlength] at hpause
    cases hpause
  | ok length =>
    rw [hlength] at hpause
    cases hpause
    exact ⟨length, rfl, elapsed_of_instantAfter hsince h⟩

/-- The pause after a failure is the backoff, doubled with each failure before it. -/
theorem elapsed_pauseAfter {failures : Nat} {pause : Option Number} (hsince : since ≤ since)
    (hpause : t.pauseAfter failures = .ok pause) (h : afterPause since pause ≤ instant) :
    ∃ length, t.backoff.mul (.whole (pow2 failures)) = .ok length ∧
      t.backoff.IsDoubled failures length ∧ Elapsed since length instant := by
  cases hlength : t.backoff.mul (.whole (pow2 failures)) with
  | error cause =>
    rw [Tuning.pauseAfter, hlength] at hpause
    cases hpause
  | ok length =>
    refine ⟨length, rfl, Number.isDoubled_of_mul hlength, ?_⟩
    rw [Tuning.pauseAfter_eq hlength] at hpause
    cases hpause
    split at h
    · rename_i hzero
      exact elapsed_isZero h hzero
    · exact elapsed_of_instantAfter hsince h

end Elapsed

/-- The calls that were made in a round. -/
def Round.made (r : Round (Timeline σ)) : List Call := r.after.calls.drop r.before.calls.length

/-- The calls of the query at a place of a level that began at an instant, each in its time: the first
one no earlier than the stagger times the place after that instant, and every other one no earlier
than the backoff, doubled with each call, after the end of the call before it. -/
structure Spaced (t : Tuning) (place : Nat) (began : Binary64) (calls : List Call) : Prop where
  first : ∀ c, calls[0]? = some c → began ≤ c.start ∧ (place ≠ 0 → t.stagger.isZero = false →
    ∃ length, t.stagger.mul (.whole place) = .ok length ∧ Elapsed began length c.start)
  next : ∀ (n : Nat) (c c' : Call), calls[n]? = some c → calls[n + 1]? = some c' →
    ∃ ended how length, c.finish = some (ended, how) ∧ c.start ≤ ended ∧
      t.backoff.mul (.whole (pow2 n)) = .ok length ∧ t.backoff.IsDoubled n length ∧
      Elapsed ended length c'.start

section Query

variable {place : Nat} {began now due : Binary64} {calls : List Call} {c : Call}

theorem Spaced.snoc (hbegan : began ≤ began) (h : Spaced t place began calls)
    (htried : Tried t place began calls due) (hdue : due ≤ c.start)
    (hwithin : ∀ c ∈ calls, c.Within began now) :
    Spaced t place began (calls ++ [c]) := by
  cases htried with
  | first hpause =>
    refine ⟨?_, fun n _ _ _ hnext => by simp at hnext⟩
    intro x hx
    obtain rfl : c = x := by simpa using hx
    exact elapsed_pauseAt hbegan hpause hdue
  | @again earlier _ ended last how pause _ _ hfinish _ hpause =>
    obtain ⟨hstart, _⟩ := (hwithin last (by simp)).finish ended how hfinish
    obtain ⟨length, hlength, hdoubled, helapsed⟩ :=
      elapsed_pauseAfter (Binary64.le_right hstart) hpause hdue
    refine ⟨fun x hx => h.first x ?_, fun n x x' hx hx' => ?_⟩
    · rwa [List.getElem?_append_left (by simp)] at hx
    · have hn : n + 1 < (earlier ++ [last] ++ [c]).length := (List.getElem?_eq_some_iff.mp hx').1
      simp only [List.length_append, List.length_singleton] at hn
      rw [List.getElem?_append_left (by simp; omega)] at hx
      by_cases hlast : n = earlier.length
      · subst hlast
        obtain rfl : last = x := by simpa using hx
        obtain rfl : c = x' := by simpa using hx'
        exact ⟨ended, how, length, hfinish, hstart, hlength, hdoubled, helapsed⟩
      · rw [List.getElem?_append_left (by simp; omega)] at hx'
        exact h.next n x x' hx hx'

theorem Tried.spaced (hbegan : began ≤ began) (h : Tried t place began calls due)
    (hwithin : ∀ c ∈ calls, c.Within began now) : Spaced t place began calls := by
  induction h with
  | first => exact ⟨by simp, by simp⟩
  | @again earlier _ _ _ _ _ htried hdue _ _ _ ih =>
    have hearlier : ∀ c ∈ earlier, c.Within began now :=
      fun c hc => hwithin c (List.mem_append_left _ hc)
    exact .snoc hbegan (ih hearlier) htried hdue hearlier

/-- However far a query has come, its calls are spaced. -/
theorem Course.spaced {awaited : Binary64 → Prop} {phase : Phase} {failures : Nat}
    (hbegan : began ≤ began) (h : Course t place began now awaited phase failures calls)
    (hwithin : ∀ c ∈ calls, c.Within began now) : Spaced t place began calls := by
  have hsnoc : ∀ {earlier due last}, Tried t place began earlier due → due ≤ last.start →
      (∀ c ∈ earlier ++ [last], c.Within began now) → Spaced t place began (earlier ++ [last]) := by
    intro earlier due last htried hdue hwithin
    have hearlier : ∀ c ∈ earlier, c.Within began now :=
      fun c hc => hwithin c (List.mem_append_left _ hc)
    exact .snoc hbegan (Tried.spaced hbegan htried hearlier) htried hdue hearlier
  cases h with
  | idle | unplaced => exact ⟨by simp, by simp⟩
  | waiting htried _ => exact Tried.spaced hbegan htried hwithin
  | requesting htried hdue | settled htried hdue | unpaused htried hdue | broken htried hdue =>
    exact hsnoc htried hdue hwithin

end Query

/-- A call that is cut off at an instant, unless it has ended before. -/
def Call.cutOff (instant : Binary64) (c : Call) : Call :=
  if c.finish.isNone then { c with finish := some (instant, .cancelled) } else c

theorem calls_cancelOpen (line : Timeline σ) :
    line.cancelOpen.calls = line.calls.map (Call.cutOff line.now) := rfl

namespace Call

variable (instant : Binary64) (c : Call)

@[simp] theorem code_cutOff : (c.cutOff instant).code = c.code := by
  unfold cutOff
  split <;> rfl

@[simp] theorem start_cutOff : (c.cutOff instant).start = c.start := by
  unfold cutOff
  split <;> rfl

theorem cutOff_of_closed {c : Call} (h : c.finish ≠ none) : c.cutOff instant = c := by
  simp [cutOff, h]

end Call

theorem Spaced.cutOff {place : Nat} {began : Binary64} {calls : List Call}
    (h : Spaced t place began calls) (instant : Binary64) :
    Spaced t place began (calls.map (Call.cutOff instant)) := by
  refine ⟨fun x hx => ?_, fun n x x' hx hx' => ?_⟩
  · rw [List.getElem?_map, Option.map_eq_some_iff] at hx
    obtain ⟨c, hc, rfl⟩ := hx
    rw [Call.start_cutOff]
    exact h.first c hc
  · rw [List.getElem?_map, Option.map_eq_some_iff] at hx hx'
    obtain ⟨c, hc, rfl⟩ := hx
    obtain ⟨c', hc', rfl⟩ := hx'
    obtain ⟨ended, how, length, hfinish, hspace⟩ := h.next n c c' hc hc'
    rw [Call.cutOff_of_closed instant (by simp [hfinish]), Call.start_cutOff]
    exact ⟨ended, how, length, hfinish, hspace⟩

theorem callsFor_cutOff (code : String) (calls : List Call) (instant : Binary64) :
    callsFor code (calls.map (Call.cutOff instant)) =
      (callsFor code calls).map (Call.cutOff instant) := by
  simp [callsFor, List.filter_map, Function.comp_def]

section Rounds

variable {codes : List String} {before after : Timeline σ} {outcome : Except Stop (List Settled)}

/-- What a round leaves: the calls before it, and those that it made, the open ones cut off. -/
theorem onSchedule_calls (hnodup : codes.Nodup) (hbefore : before.Rested)
    (h : onSchedule t source cancelAt order codes before = (outcome, after)) :
    ∃ m made made', (Level.ofCodes t codes before).Reaches t source cancelAt order m ∧
      m.Last cancelAt (outcome, after) ∧ m.Orderly t.maxConcurrency [] ∧
      m.Clocked t codes before made none ∧ after.calls = before.calls ++ made' ∧
      (made' = made ∨ ∃ instant, made' = made.map (Call.cutOff instant)) := by
  obtain ⟨m, made, hreaches, hlast, horderly, hclocked⟩ := onSchedule_last _ hnodup hbefore.number h
  have hcut : ∀ instant, m.line.calls.map (Call.cutOff instant) =
      before.calls ++ made.map (Call.cutOff instant) := by
    intro instant
    have hsame : ∀ c ∈ before.calls, c.cutOff instant = id c := by
      intro c hc
      obtain ⟨_, _, hfinish, _⟩ := hbefore.ended c hc
      exact Call.cutOff_of_closed instant (by simp [hfinish])
    rw [hclocked.calls, List.map_append, List.map_congr_left hsame, List.map_id]
  cases hlast with
  | settled hresults =>
    exact ⟨m, made, made, hreaches, .settled hresults, horderly, hclocked, hclocked.calls, .inl rfl⟩
  | aborted hresults hfault =>
    exact ⟨m, made, _, hreaches, .aborted hresults hfault, horderly, hclocked, hcut m.line.now,
      .inr ⟨_, rfl⟩⟩
  | cancelled hresults hready hcancel htill hlt =>
    exact ⟨m, made, _, hreaches, .cancelled hresults hready hcancel htill hlt, horderly, hclocked,
      hcut _, .inr ⟨_, rfl⟩⟩

theorem Round.after_calls {r : Round (Timeline σ)} (hnodup : r.codes.Nodup)
    (hbefore : r.before.Rested)
    (h : onSchedule t source cancelAt order r.codes r.before = (r.outcome, r.after)) :
    r.after.calls = r.before.calls ++ r.made := by
  obtain ⟨_, _, made', _, _, _, _, hcalls, _⟩ := onSchedule_calls hnodup hbefore h
  rw [Round.made, hcalls, List.drop_left]

/-- The calls of a round are made for its codes and not before it begins, those for each code in
their time. -/
theorem Round.spaced {r : Round (Timeline σ)} (hnodup : r.codes.Nodup) (hbefore : r.before.Rested)
    (h : onSchedule t source cancelAt order r.codes r.before = (r.outcome, r.after)) :
    (∀ c ∈ r.made, c.code ∈ r.codes ∧ r.before.now ≤ c.start) ∧
      ∀ i code, r.codes[i]? = some code → Spaced t i r.before.now (callsFor code r.made) := by
  obtain ⟨m, made, made', _, _, _, hclocked, hcalls, hmade'⟩ := onSchedule_calls hnodup hbefore h
  have hmade : r.made = made' := by rw [Round.made, hcalls, List.drop_left]
  have hspaced : ∀ i code, r.codes[i]? = some code →
      Spaced t i r.before.now (callsFor code made) := by
    intro i code hcode
    rw [← hclocked.names, List.getElem?_map, Option.map_eq_some_iff] at hcode
    obtain ⟨task, htask, rfl⟩ := hcode
    exact Course.spaced hbefore.number (hclocked.courses i task nofun htask)
      fun c hc => hclocked.within c (mem_callsFor.mp hc).1
  rw [hmade]
  rcases hmade' with rfl | ⟨instant, rfl⟩
  · exact ⟨fun c hc => ⟨hclocked.asked c hc, (hclocked.within c hc).began⟩, hspaced⟩
  · refine ⟨?_, fun i code hcode => ?_⟩
    · intro c hc
      obtain ⟨c, hmem, rfl⟩ := List.mem_map.mp hc
      rw [Call.code_cutOff, Call.start_cutOff]
      exact ⟨hclocked.asked c hmem, (hclocked.within c hmem).began⟩
    · rw [callsFor_cutOff]
      exact (hspaced i code hcode).cutOff instant

end Rounds

namespace Linked

variable {state last : Timeline σ} {rs : List (Round (Timeline σ))}
  (h : Linked (onSchedule t source cancelAt order) state rs last) (hstate : state.Rested)
include h hstate

theorem calls_eq : last.calls = state.calls ++ (rs.map Round.made).flatten := by
  induction h with
  | none => simp
  | settled hnodup hgather _ ih =>
    have hround := Round.after_calls (r := ⟨_, _, .ok _, _⟩) hnodup hstate hgather
    rw [ih (hstate.round hnodup hgather), hround]
    simp
  | stopped hnodup hgather =>
    have hround := Round.after_calls (r := ⟨_, _, .error _, _⟩) hnodup hstate hgather
    rw [hround]
    simp

/-- The clock does not go back from one round to the next. -/
theorem le_before : ∀ r ∈ rs, state.now ≤ r.before.now := by
  let Later (line : Timeline σ) : Prop := line.Rested ∧ state.now ≤ line.now
  have hkept : ∀ codes before settled after, codes.Nodup → Later before →
      onSchedule t source cancelAt order codes before = (.ok settled, after) → Later after := by
    intro codes before settled after hnodup hbefore hgather
    obtain ⟨m, made, _, hlast, _, hclocked⟩ := onSchedule_last _ hnodup hbefore.1.number hgather
    cases hlast
    exact ⟨hbefore.1.round hnodup hgather, Binary64.le_trans hbefore.2 hclocked.since⟩
  exact fun r hr => (h.before (P := Later) ⟨hstate, hstate.number⟩ hkept r hr).2

/-- A round makes no call before all calls of the rounds before it have ended. -/
theorem pairwise : rs.Pairwise fun r r' => ∀ c ∈ r.made, ∀ c' ∈ r'.made, ∃ ended how,
    c.finish = some (ended, how) ∧ c.start ≤ ended ∧ ended ≤ c'.start := by
  induction h with
  | none => exact .nil
  | @settled codes state settled between rest last hnodup hgather hrest ih =>
    have hbetween := hstate.round hnodup hgather
    refine .cons ?_ (ih hbetween)
    intro r' hr' c hc c' hc'
    obtain ⟨hnodup', hgather'⟩ := hrest.gathered hr'
    have hbefore' : r'.before.Rested :=
      hrest.before hbetween (fun _ _ _ _ hnodup hbefore h => hbefore.round hnodup h) r' hr'
    have hlater := hrest.le_before hbetween r' hr'
    have hbegan := ((Round.spaced hnodup' hbefore' hgather').1 c' hc').2
    obtain ⟨ended, how, hfinish, hstart, hended, _⟩ := hbetween.ended c (List.mem_of_mem_drop hc)
    exact ⟨ended, how, hfinish, hstart, Binary64.le_trans hended (Binary64.le_trans hlater hbegan)⟩
  | stopped => exact .cons (by simp) .nil

end Linked

/-- A pass makes its calls in rounds, one for each level. No call of a level begins before every
call of the levels before it has ended; the first call for the code at a place of a level begins no
earlier than the level plus the stagger times the place; and every other call for it begins no
earlier than the end of the call before it plus the backoff, doubled with each call. -/
theorem timedPass_spaced (t : Tuning) (source : Source σ) (cancelAt : Option Binary64)
    (order : Order σ) (depth : Nat) (parent : String) (s : σ) :
    let levels := timedRounds t source cancelAt order depth parent s
    (timedPass t source cancelAt order depth parent s).2.calls = (levels.map Round.made).flatten ∧
    (levels.Pairwise fun r r' => ∀ c ∈ r.made, ∀ c' ∈ r'.made, ∃ ended how,
      c.finish = some (ended, how) ∧ c.start ≤ ended ∧ ended ≤ c'.start) ∧
    ∀ r ∈ levels, r.codes.Nodup ∧ (∀ c ∈ r.made, c.code ∈ r.codes ∧ r.before.now ≤ c.start) ∧
      ∀ i code, r.codes[i]? = some code → Spaced t i r.before.now (callsFor code r.made) := by
  intro levels
  have hlinked := linked_timedRounds t source cancelAt order depth parent s
  have hstart := rested_start s
  refine ⟨hlinked.calls_eq hstart, hlinked.pairwise hstart, fun r hr => ?_⟩
  obtain ⟨hnodup, hgather⟩ := hlinked.gathered hr
  exact ⟨hnodup, Round.spaced hnodup (rested_before r hr) hgather⟩

/-- Five attempts; a second and a half between the queries of a level, and three seconds before the
first repeated request. -/
def spread : Tuning := ⟨5, .real (.ofDecimal false 15 (-1)), .whole 3, 6, by decide, by decide⟩

/-- The query at the last place of its level fails twice. -/
def stuttering : Script := [("0", [brings ["A", "B", "C"]]), ("C", [busy, busy, brings []])]

/-- The last query waits for its place, and then three and six seconds before it is repeated. -/
theorem timedPass_spaced_stuttering :
    (timedPass spread Script.source none firstCome 2 "0" stuttering).2.calls.map
        (fun c => (c.code, c.start)) =
      [("0", .zero), ("A", .zero), ("B", .ofDecimal false 15 (-1)), ("C", .ofDecimal false 3 0),
        ("C", .ofDecimal false 6 0), ("C", .ofDecimal false 12 0)] ∧
      ∃ r ∈ timedRounds spread Script.source none firstCome 2 "0" stuttering,
        r.codes = ["A", "B", "C"] ∧ (callsFor "C" r.made).length = 3 ∧
          Spaced spread 2 r.before.now (callsFor "C" r.made) := by
  have hlevel : ((timedRounds spread Script.source none firstCome 2 "0" stuttering)[1]?.map
      fun r => (r.codes, (callsFor "C" r.made).length)) = some (["A", "B", "C"], 3) := by
    decide +kernel
  obtain ⟨r, hr, hsame⟩ := Option.map_eq_some_iff.mp hlevel
  obtain ⟨hcodes, hcalls⟩ := Prod.mk.inj hsame
  have hmem := List.mem_of_getElem? hr
  have hspaced := (timedPass_spaced spread Script.source none firstCome 2 "0" stuttering).2.2 r hmem
  exact ⟨by decide +kernel, r, hmem, hcodes, hcalls, hspaced.2.2 2 "C" (by rw [hcodes]; rfl)⟩

end Resolve

end AdminConsole
