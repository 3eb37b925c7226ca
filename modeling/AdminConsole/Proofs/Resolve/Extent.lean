import AdminConsole.Proofs.Resolve.Traces

/-!
How far a pass goes. A level opens a code that was not met and asks for each of its codes by one
query, so a pass over a source with finitely many codes settles no more levels below the roots than
there are codes, however the codes lead to each other, and makes no more requests than the attempts
of one query for each code and one for the code that it begins with.
-/

namespace AdminConsole

namespace Resolve

section Depth

variable {S : Type} {gather : Gather S} {depth depth' : Nat}

/-- What was resolved without running into the depth is resolved in the same way at a greater
depth. -/
theorem expand_deeper {met : List String} {frontier : List Node} {state : S} (hle : depth ≤ depth')
    (h : (expand gather depth met frontier state).1 ≠ .error .tooDeep) :
    expand gather depth' met frontier state = expand gather depth met frontier state := by
  induction depth generalizing depth' met frontier state with
  | zero =>
    unfold expand at h ⊢
    cases hfresh : freshCodes met frontier with
    | nil => rfl
    | cons code codes => simp [hfresh] at h
  | succ depth ih =>
    obtain ⟨depth', rfl⟩ := Nat.exists_eq_succ_of_ne_zero (Nat.ne_zero_of_lt hle)
    unfold expand at h ⊢
    cases hfresh : freshCodes met frontier with
    | nil => rfl
    | cons code codes =>
      simp only [hfresh] at h ⊢
      cases hgather : gather (code :: codes) state with
      | mk result between =>
        cases result with
        | error stop => rfl
        | ok settled =>
          simp only [hgather] at h
          have hbelow : (expand gather depth (code :: codes ++ met)
              (settled.map Settled.nodes).flatten between).1 ≠ .error .tooDeep := by
            intro hdeep
            apply h
            generalize expand gather depth (code :: codes ++ met) _ between = run at hdeep
            obtain ⟨result, after⟩ := run
            cases hdeep
            rfl
          dsimp only
          rw [ih (Nat.le_of_succ_le_succ hle) hbelow]

theorem forest_deeper {parent : String} {state : S} (hle : depth ≤ depth')
    (h : (forest gather depth parent state).1 ≠ .error .tooDeep) :
    forest gather depth' parent state = forest gather depth parent state := by
  unfold forest at h ⊢
  split
  · rfl
  · rename_i settled between hsettled
    rw [hsettled] at h
    split
    · rfl
    · rfl
    · exact expand_deeper hle h

end Depth

section

variable {σ : Type} {t : Tuning} {source : Source σ} {s : σ} {parent : String} {manner : Manner σ}
  {pool : List String}

theorem resolve_deeper {depth depth' : Nat} (hle : depth ≤ depth')
    (h : (resolve t source depth parent s manner).1 ≠ .error .tooDeep) :
    resolve t source depth' parent s manner = resolve t source depth parent s manner := by
  cases manner with
  | inSequence =>
    have hforest : (forest (inSequence t source) depth parent (Pass.start s)).1 ≠ .error .tooDeep := h
    simp only [resolve, forest_deeper hle hforest]
  | onSchedule cancelAt order =>
    have hforest : (forest (onSchedule t source cancelAt order) depth parent
        (Timeline.start s)).1 ≠ .error .tooDeep := h
    simp only [resolve, forest_deeper hle hforest]

/-- Requests for some codes, each of them asked for by one query at most. -/
theorem length_le_of_oneQuery {made : List Asked} (hpool : ∀ a ∈ made, a.code ∈ pool)
    (honce : ∀ code, OneQuery t (outcomesFor code made)) :
    made.length ≤ t.maxAttempts * pool.length := by
  have hmade : ∀ a ∈ made, a.code ∈ pool.dedup := fun a ha => List.mem_dedup.mpr (hpool a ha)
  have hqueries : ∀ n ∈ pool.dedup.map fun code => (outcomesFor code made).length,
      n ≤ t.maxAttempts := by
    intro n hn
    obtain ⟨code, _, rfl⟩ := List.mem_map.mp hn
    exact (honce code).length_le
  calc made.length
      = (pool.dedup.map fun code => (outcomesFor code made).length).sum :=
        Accounted.length_made pool.nodup_dedup hmade
    _ ≤ pool.dedup.length * t.maxAttempts := by
        simpa using List.sum_le_card_nsmul _ _ hqueries
    _ ≤ pool.length * t.maxAttempts :=
        Nat.mul_le_mul_right _ pool.dedup_sublist.length_le
    _ = t.maxAttempts * pool.length := Nat.mul_comm _ _

theorem resolve_asked (t : Tuning) (source : Source σ) (depth : Nat) (parent : String) (s : σ)
    (manner : Manner σ) : ∃ first again,
      (resolve t source depth parent s manner).2.log = first ++ again ∧
        AskedInTurn t parent first again := by
  cases manner with
  | inSequence =>
    obtain ⟨first, again, hlog, hturn, _⟩ := forest_asks (settling_inSequence t source)
      (sparing_inSequence t source) depth parent (Pass.start s)
    exact ⟨first, again, hlog, hturn⟩
  | onSchedule cancelAt order =>
    obtain ⟨first, again, hlog, hturn, _⟩ := forest_asks (settling_onSchedule t source cancelAt order)
      (sparing_onSchedule t source cancelAt order) depth parent (Timeline.start s)
    exact ⟨first, again, hlog, hturn⟩

theorem ledger_load (t : Tuning) (source : Source σ) (depth : Nat) (parent : String) (s : σ)
    (manner : Manner σ) :
    (load t source depth parent s manner).2 = (resolve t source depth parent s manner).2 := by
  unfold load
  generalize resolve t source depth parent s manner = pass
  obtain ⟨_ | _, _⟩ := pass
  · rfl
  · rfl

/-- The requests of a pass: at least one for the code that it begins with, and then those for the
codes of records. -/
theorem load_asked (t : Tuning) (source : Source σ) (depth : Nat) (parent : String) (s : σ)
    (manner : Manner σ) :
    let log := (load t source depth parent s manner).2.log
    ∃ first again, log = first ++ again ∧ first ≠ [] ∧ (∀ a ∈ first, a.code = parent) ∧
      ∀ a ∈ again, a.code ≠ "" ∧ Brings a.code log := by
  intro log
  obtain ⟨first, again, hlog, hturn⟩ := resolve_asked t source depth parent s manner
  rw [← ledger_load] at hlog
  have hbrought : ∀ a ∈ again, a.code ≠ "" ∧ Brings a.code log := by
    intro a ha
    have hlog : log = first ++ again := hlog
    exact hlog ▸ hturn.brought a ha
  cases first with
  | cons a first =>
    exact ⟨a :: first, again, hlog, List.cons_ne_nil _ _, hturn.own, hbrought⟩
  | nil =>
    -- the first request of all asks for the code that the pass begins with in any case
    obtain ⟨outcome, rest, hfirst, _⟩ := (load_traced t source depth parent s manner).first
    obtain rfl : again = ⟨parent, outcome⟩ :: rest := hlog.symm.trans hfirst
    refine ⟨[⟨parent, outcome⟩], rest, hfirst, List.cons_ne_nil _ _, ?_, ?_⟩
    · simp
    · exact fun a ha => hbrought a (List.mem_cons_of_mem _ ha)

theorem length_log_le (hdelivers : Delivers source s (NamedAmong pool)) (depth : Nat)
    (parent : String) (manner : Manner σ) :
    (resolve t source depth parent s manner).2.log.length ≤ t.maxAttempts * (pool.length + 1) := by
  obtain ⟨first, again, hlog, hturn⟩ := resolve_asked t source depth parent s manner
  have hanswers := (resolve_traced t source depth parent s manner).answers
  -- A code that is asked for below the top is that of a record.
  have hagain : ∀ a ∈ again, a.code ∈ pool := by
    intro a ha
    obtain ⟨hne, b, hb, nodes, hok, n, hn, hcode⟩ := hturn.brought a ha
    rw [← hlog] at hb
    exact (hdelivers _ _ hanswers b hb nodes hok n hn a.code hcode).resolve_left hne
  have hfirst : first.length = (outcomesFor parent first).length := by
    rw [outcomesFor, List.length_map, List.filter_eq_self.mpr (by simpa using hturn.own)]
  have hroots := hturn.once.length_le
  have hbelow := length_le_of_oneQuery hagain hturn.below
  rw [hlog, List.length_append, Nat.mul_succ]
  omega

/-- A pass whose extent is bounded by a number of codes. -/
structure Bounded {σ : Type} (t : Tuning) (source : Source σ) (s : σ) (parent : String)
    (manner : Manner σ) (codes : Nat) : Prop where
  /-- No more levels below the roots are asked for than there are codes. -/
  ends : (resolve t source codes parent s manner).1 ≠ .error .tooDeep
  /-- Nothing more is done where deeper levels are allowed. -/
  levels : ∀ depth, codes ≤ depth →
    resolve t source depth parent s manner = resolve t source codes parent s manner
  /-- Whoever waits for the pass gets its result, unless they cancel it. -/
  answers : manner.Uncancelled →
    (resolve t source codes parent s manner).1 ≠ .error (.stopped .cancelled)
  /-- There are no more requests than one query for each of the codes, and one for the roots, may
  make. -/
  requests : ∀ depth, (resolve t source depth parent s manner).2.log.length ≤
    t.maxAttempts * (codes + 1)

theorem bounded_of_delivers (hdelivers : Delivers source s (NamedAmong pool)) (parent : String)
    (manner : Manner σ) : Bounded t source s parent manner pool.length where
  ends := resolve_ends hdelivers (Nat.le_refl _) parent manner
  levels _ hle := resolve_deeper hle (resolve_ends hdelivers (Nat.le_refl _) parent manner)
  answers hmanner hcancelled := by
    -- The empty code is never asked for below the top, so that one more level is none.
    have hcodes : Delivers source s (CodeAmong ("" :: pool)) :=
      hdelivers.mono fun n h code hcode => List.mem_cons.mpr (h code hcode)
    have hdeeper : resolve t source ("" :: pool).length parent s manner =
        resolve t source pool.length parent s manner :=
      resolve_deeper (Nat.le_succ _) (resolve_ends hdelivers (Nat.le_refl _) parent manner)
    have hending := resolve_ending (t := t) hmanner hcodes (Nat.le_refl _) parent
    rw [hdeeper, hcancelled] at hending
    cases hending
  requests depth := length_log_le hdelivers depth parent manner

end

end Resolve

namespace Script

/-- The codes of the records of a script, each of them once, without the empty one. -/
def distinctCodes (script : Script) : List String :=
  (script.codes.filter (· ≠ "")).dedup

theorem gives_distinctCodes (script : Script) :
    script.Gives (Resolve.NamedAmong script.distinctCodes) := by
  intro entry hentry r hr records hrecords parent nodes hnodes n hn code hcode
  have hmem : code ∈ script.codes :=
    script.gives_codes entry hentry r hr records hrecords parent nodes hnodes n hn code hcode
  by_cases hempty : code = ""
  · exact .inl hempty
  · exact .inr (List.mem_dedup.mpr (List.mem_filter.mpr ⟨hmem, decide_eq_true hempty⟩))

end Script

namespace Resolve

/-- A pass over a script is bounded by the distinct codes of its records, and one over any source by
the codes that the source delivers, whatever is a child of what. The empty code does not count: it is
asked for at most by the query that the pass begins with. -/
theorem resolve_bounded (t : Tuning) (parent : String) :
    (∀ script manner,
      Bounded t Script.source script parent manner script.distinctCodes.length) ∧
    ∀ {σ : Type} (source : Source σ) s manner codes, Delivers source s (NamedAmong codes) →
      Bounded t source s parent manner codes.length := by
  constructor
  · intro script manner
    exact bounded_of_delivers (delivers_script script.gives_distinctCodes) parent manner
  · intro σ source s manner codes hdelivers
    exact bounded_of_delivers hdelivers parent manner

/-- Each of two codes leads to the other, for ever. -/
def facing : Source Unit :=
  fun code _ => (⟨.whole 0, true, .ok [coded (if code = "A" then "B" else "A") []]⟩, ())

theorem resolve_bounded_facing : Bounded twice facing () "A" .inSequence 2 ∧
    (resolve twice facing 1 "A" () .inSequence).1 = .error .tooDeep := by
  constructor
  · apply (resolve_bounded twice "A").2 facing () .inSequence ["A", "B"]
    refine delivers_of_invariant (fun _ => True) trivial (fun _ _ _ => trivial) ?_
    intro code _ nodes _ hok n hn own hown
    cases hok
    obtain rfl := List.mem_singleton.mp hn
    have howned : own = if code = "A" then "B" else "A" := (Option.some.inj hown).symm
    split at howned <;> simp [howned]
  · cbv

end Resolve

end AdminConsole
