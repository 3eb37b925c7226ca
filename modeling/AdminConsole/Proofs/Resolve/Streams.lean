import AdminConsole.Proofs.Resolve.Queries

/-!
Streams of outcomes. A source is steady when the outcome of a request depends only on its code and
on how often the code was asked for before, as it does for a script. A query over a steady source
ends in one way only, whatever was asked for in between.
-/

namespace AdminConsole

/-- The reaction to the request after some others; the last one stays. -/
def Script.reactionAt (k : Nat) (reactions : List Reaction) : Option Reaction :=
  reactions[min k (reactions.length - 1)]?

/-- The outcome of the request for a code after some others for it. -/
def Script.outcome (s : Script) (code : String) (k : Nat) : Except Fault (List Node) :=
  (replyOf code (reactionAt k ((Entries.get? code s).getD []))).outcome

def Failure.IsFetch : Failure → Prop
  | .fetch _ _ _ => True
  | .crash _ => True
  | _ => False

/-- Scripts in which no request fails for another reason than the query itself. -/
def Script.Fetching (s : Script) : Prop :=
  ∀ entry ∈ s, ∀ r ∈ entry.2, ∀ failure, r.result = .error failure → failure.IsFetch

def Script.Alike (s s' : Script) : Prop :=
  s.map (fun entry => (entry.1, entry.2.map Reaction.result)) =
    s'.map fun entry => (entry.1, entry.2.map Reaction.result)

namespace Resolve

abbrev Stream := String → Nat → Except Fault (List Node)

/-- Streams in which a request only fails for the query itself. -/
def Stream.Fetching (stream : Stream) : Prop :=
  ∀ code k fault, stream code k = .error fault → ∃ e, fault = .fetch e

/-- From a state on, a source answers each code with its stream. -/
def Steady {σ : Type} (source : Source σ) (s : σ) (stream : Stream) : Prop :=
  ∀ made s', Answers source s made s' → ∀ (code : String) (k : Nat) outcome,
    (outcomesFor code made)[k]? = some outcome → outcome = stream code k

variable {σ : Type} {source : Source σ} {s s' : σ} {stream : Stream}

theorem Steady.after {made : List Asked} (h : Steady source s stream)
    (hmade : Answers source s made s') :
    Steady source s' fun code k => stream code ((outcomesFor code made).length + k) := by
  intro more s'' hmore code k outcome hk
  apply h (made ++ more) s'' (hmade.append hmore) code
  rw [outcomesFor_append, List.getElem?_append_right (Nat.le_add_right _ _), Nat.add_sub_cancel_left]
  exact hk

/-- A source is steady if its next outcome is that of its stream and the stream goes on. -/
theorem steady_of_step (streamOf : σ → Stream)
    (hnow : ∀ s code, (source code s).1.outcome = streamOf s code 0)
    (hthen : ∀ s code other k, streamOf (source code s).2 other k =
      streamOf s other (if other = code then k + 1 else k)) : Steady source s (streamOf s) := by
  intro made s' h
  suffices (∀ code k, streamOf s' code k = streamOf s code ((outcomesFor code made).length + k)) ∧
      ∀ (code : String) (k : Nat) outcome, (outcomesFor code made)[k]? = some outcome →
        outcome = streamOf s code k from this.2
  induction h with
  | nil => simp
  | @snoc made s' code _ ih =>
    obtain ⟨hgoes, hmade⟩ := ih
    constructor
    · intro other k
      rw [hthen, hgoes, outcomesFor_append]
      by_cases hother : other = code
      · subst hother
        simp [outcomesFor_cons_self, Nat.add_comm k 1, Nat.add_assoc]
      · simp [outcomesFor_cons_of_ne (a := ⟨code, _⟩) (Ne.symm hother), hother]
    · intro other k outcome hk
      rw [outcomesFor_append] at hk
      by_cases hother : other = code
      · subst hother
        rw [outcomesFor_cons_self, outcomesFor_nil, List.getElem?_append] at hk
        split at hk
        · exact hmade other k outcome hk
        · rename_i hge
          rw [List.getElem?_singleton] at hk
          split at hk
          · cases hk
            have hk : k = (outcomesFor other made).length := by omega
            rw [hnow, hgoes, hk, Nat.add_zero]
          · cases hk
      · rw [outcomesFor_cons_of_ne (a := ⟨code, _⟩) (Ne.symm hother), outcomesFor_nil,
          List.append_nil] at hk
        exact hmade other k outcome hk

end Resolve

namespace Script

theorem reactionAt_mem {k : Nat} {reactions : List Reaction} {r : Reaction}
    (h : reactionAt k reactions = some r) : r ∈ reactions :=
  List.mem_of_getElem? h

theorem reactionAt_nil (k : Nat) : reactionAt k [] = none := rfl

theorem reactionAt_singleton (k : Nat) (last : Reaction) : reactionAt k [last] = some last := by
  simp [reactionAt]

theorem reactionAt_succ (k : Nat) (first second : Reaction) (rest : List Reaction) :
    reactionAt (k + 1) (first :: second :: rest) = reactionAt k (second :: rest) := by
  have hmin : min (k + 1) (rest.length + 1) = min k rest.length + 1 := by omega
  simp [reactionAt, hmin]

/-- Reactions with the same results are told apart by their delays only. -/
theorem reactionAt_congr (k : Nat) {reactions reactions' : List Reaction}
    (h : reactions.map Reaction.result = reactions'.map Reaction.result) :
    (reactionAt k reactions).map Reaction.result = (reactionAt k reactions').map Reaction.result := by
  have hlength : reactions.length = reactions'.length := by simpa using congrArg List.length h
  simp only [reactionAt, ← List.getElem?_map, h, hlength]

theorem reactions_eq_nil {reactions : Option (List Reaction)}
    (hmany : ∀ first second rest, reactions = some (first :: second :: rest) → False)
    (hone : ∀ last, reactions = some [last] → False) : reactions.getD [] = [] := by
  match reactions with
  | none => rfl
  | some [] => rfl
  | some [last] => exact (hone last rfl).elim
  | some (first :: second :: rest) => exact (hmany first second rest rfl).elim

/-- One more request for a code moves on in its list, and leaves the other codes alone. -/
theorem outcome_source (s : Script) (code other : String) (k : Nat) :
    (source code s).2.outcome other k = s.outcome other (if other = code then k + 1 else k) := by
  simp only [outcome, source, next]
  split
  · rename_i first second rest hget
    by_cases hother : other = code
    · subst hother
      rw [Entries.get?_put_self, hget, if_pos rfl, Option.getD_some, Option.getD_some, reactionAt_succ]
    · rw [Entries.get?_put_of_ne hother, if_neg hother]
  · rename_i last hget
    by_cases hother : other = code
    · subst hother
      rw [hget, Option.getD_some, reactionAt_singleton, reactionAt_singleton]
    · rw [if_neg hother]
  · rename_i hmany hone
    by_cases hother : other = code
    · subst hother
      rw [reactions_eq_nil hmany hone, reactionAt_nil, reactionAt_nil]
    · rw [if_neg hother]

theorem outcome_zero (s : Script) (code : String) :
    (source code s).1.outcome = s.outcome code 0 := by
  simp only [outcome, source, next]
  split
  · rename_i hget
    rw [hget]
    rfl
  · rename_i hget
    rw [hget]
    rfl
  · rename_i hmany hone
    rw [reactions_eq_nil hmany hone, reactionAt_nil]

theorem Fetching.outcome {s : Script} (h : s.Fetching) : Resolve.Stream.Fetching s.outcome := by
  intro code k fault hfault
  simp only [Script.outcome] at hfault
  cases hreaction : reactionAt k ((Entries.get? code s).getD []) with
  | none =>
    rw [hreaction] at hfault
    cases hfault
  | some r =>
    rw [hreaction] at hfault
    cases hget : Entries.get? code s with
    | none =>
      rw [hget] at hreaction
      cases hreaction
    | some reactions =>
      rw [hget, Option.getD_some] at hreaction
      have hfetch := h _ (Entries.mem_of_get? hget) r (reactionAt_mem hreaction)
      obtain ⟨delay, result⟩ := r
      cases result with
      | ok records =>
        simp only [replyOf] at hfault
        cases hnodes : records.nodes (some code) with
        | ok nodes =>
          rw [hnodes] at hfault
          cases hfault
        | error e =>
          rw [hnodes] at hfault
          exact ⟨e, (Except.error.inj hfault).symm⟩
      | error failure =>
        have his := hfetch failure rfl
        obtain rfl := Except.error.inj hfault
        cases failure with
        | fetch severity message status => exact ⟨_, rfl⟩
        | crash cause => exact ⟨_, rfl⟩
        | _ => exact his.elim

theorem replyOf_congr {code : String} {a b : Option Reaction}
    (h : a.map Reaction.result = b.map Reaction.result) :
    (replyOf code a).outcome = (replyOf code b).outcome := by
  cases a with
  | none =>
    cases b with
    | none => rfl
    | some r => cases h
  | some r =>
    cases b with
    | none => cases h
    | some r' =>
      obtain ⟨delay, result⟩ := r
      obtain ⟨delay', result'⟩ := r'
      obtain rfl : result = result' := Option.some.inj h
      cases result <;> rfl

theorem Alike.outcome {s s' : Script} (h : s.Alike s') : s.outcome = s'.outcome := by
  funext code k
  have hreactions := congrArg (Entries.get? code) h
  rw [Entries.get?_map fun _ => List.map Reaction.result,
    Entries.get?_map fun _ => List.map Reaction.result] at hreactions
  apply replyOf_congr
  generalize Entries.get? code s = a at hreactions
  generalize Entries.get? code s' = b at hreactions
  cases a with
  | none =>
    cases b with
    | none => rfl
    | some _ => cases hreactions
  | some _ =>
    cases b with
    | none => cases hreactions
    | some _ => exact reactionAt_congr k (Option.some.inj hreactions)

end Script

namespace Resolve

variable {σ : Type} {source : Source σ} {s : σ} {stream : Stream}

theorem Steady.fetching (h : Steady source s stream) (hstream : stream.Fetching) :
    Fetching source s := by
  intro made s' hmade a ha fault hfault
  obtain ⟨k, hk⟩ := List.mem_iff_getElem?.mp (mem_outcomesFor.mpr ha)
  exact hstream a.code k fault ((h made s' hmade a.code k _ hk).symm.trans hfault)

theorem steady_script (script : Script) : Steady Script.source script script.outcome :=
  steady_of_step Script.outcome Script.outcome_zero Script.outcome_source

def Follows (outcomes : List (Except Fault (List Node))) (f : Nat → Except Fault (List Node)) : Prop :=
  ∀ (k : Nat) outcome, outcomes[k]? = some outcome → outcome = f k

theorem Follows.eq_of_length {a b : List (Except Fault (List Node))}
    {f : Nat → Except Fault (List Node)} (ha : Follows a f) (hb : Follows b f)
    (hlength : a.length = b.length) : a = b := by
  apply List.ext_getElem hlength
  intro k hka hkb
  exact (ha k _ (List.getElem?_eq_getElem hka)).trans (hb k _ (List.getElem?_eq_getElem hkb)).symm

/-- Where one query goes on, another one over the same stream cannot have ended. -/
theorem Follows.not_lt {t : Tuning} {earlier earlier' : List (Except Fault (List Node))}
    {last last' : Except Fault (List Node)} {f : Nat → Except Fault (List Node)}
    (h : Follows (earlier ++ [last]) f) (h' : Follows (earlier' ++ [last']) f)
    (hend : ¬ Repeats t earlier.length last) (hretried : Retried t earlier') :
    ¬ earlier.length < earlier'.length := by
  intro hlt
  have hget : earlier'[earlier.length]? = some earlier'[earlier.length] :=
    List.getElem?_eq_getElem hlt
  have hlast := h earlier.length last (by simp)
  have hother := h' earlier.length _ ((List.getElem?_append_left hlt).trans hget)
  exact hend (hlast.trans hother.symm ▸ hretried _ _ hget)

theorem Follows.unique {t : Tuning} {earlier earlier' : List (Except Fault (List Node))}
    {last last' : Except Fault (List Node)} {f : Nat → Except Fault (List Node)}
    (h : Follows (earlier ++ [last]) f) (h' : Follows (earlier' ++ [last']) f)
    (hend : ¬ Repeats t earlier.length last) (hend' : ¬ Repeats t earlier'.length last')
    (hretried : Retried t earlier) (hretried' : Retried t earlier') :
    earlier ++ [last] = earlier' ++ [last'] := by
  have hle := h.not_lt h' hend hretried'
  have hge := h'.not_lt h hend' hretried
  apply h.eq_of_length h'
  simp only [List.length_append, List.length_singleton]
  omega

theorem Settles.agree {t : Tuning} {outcomes outcomes' : List (Except Fault (List Node))}
    {s s' : Settled} {f : Nat → Except Fault (List Node)} (h : Settles t outcomes s)
    (h' : Settles t outcomes' s') (hf : Follows outcomes f) (hf' : Follows outcomes' f) :
    outcomes = outcomes' ∧ s = s' := by
  have heq : outcomes = outcomes' := by
    obtain ⟨earlier, last, rfl, hretried, hjudge⟩ := h
    obtain ⟨earlier', last', rfl, hretried', hjudge'⟩ := h'
    exact hf.unique hf' (by simp [Repeats, hjudge]) (by simp [Repeats, hjudge']) hretried hretried'
  subst heq
  exact ⟨rfl, h.unique h'⟩

theorem Settles.not_breaks {t : Tuning} {place : Nat}
    {outcomes outcomes' : List (Except Fault (List Node))} {s : Settled} {fault : Fault}
    {f : Nat → Except Fault (List Node)} (h : Settles t outcomes s)
    (hplace : ∃ pause, t.pauseAt place = .ok pause) (hf : Follows outcomes f)
    (hf' : Follows outcomes' f) : ¬ Breaks t place outcomes' fault := by
  intro hbreaks
  obtain ⟨earlier, last, rfl, hretried, hjudge⟩ := h
  have hend : ¬ Repeats t earlier.length last := by simp [Repeats, hjudge]
  cases hbreaks with
  | place hpause =>
    obtain ⟨pause, hok⟩ := hplace
    rw [hok] at hpause
    cases hpause
  | pause hretried' hagain hpause =>
    have heq := hf.unique hf' hend (by simp [Repeats, hpause]) hretried hretried'
    obtain ⟨rfl, hlast⟩ := List.append_inj' heq rfl
    cases hlast
    rw [hjudge] at hagain
    cases hagain
  | fault hretried' hbroken =>
    have heq := hf.unique hf' hend (by simp [Repeats, hbroken]) hretried hretried'
    obtain ⟨rfl, hlast⟩ := List.append_inj' heq rfl
    cases hlast
    rw [hjudge] at hbroken
    cases hbroken

end Resolve

end AdminConsole
