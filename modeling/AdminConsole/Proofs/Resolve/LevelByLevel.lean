import AdminConsole.Proofs.Resolve.Completion

/-!
Forests that were built level by level. The roots are the records of the query for the parent; the
nodes of each level get the records of the one query for their code, unless it occurred above.
-/

namespace AdminConsole

namespace Resolve

open Node

/-- A forest built level by level from the requests made: the first ones for the roots, then those
for each level. -/
structure LevelByLevel {σ : Type} (t : Tuning) (parent : String) (roots : List Node)
    (first : List Asked) (levels : List (List Asked)) (ledger : Ledger σ) : Prop where
  log : ledger.log = first ++ levels.flatten
  /-- The roots are the records of the one query for the parent. -/
  top : (∀ a ∈ first, a.code = parent) ∧
    Settles t (outcomesFor parent first) (.ok (roots.map leaf))
  /-- Nodes without a code, and nodes whose code occurs above, are leaves. -/
  closed : ∀ d, ∀ n ∈ atDepth d roots, (∀ code, n.record.code = some code →
    code = "" ∨ ∃ e < d, ∃ above ∈ atDepth e roots, above.record.code = some code) →
      n.children = none
  /-- A code that occurs for the first time was asked for once on its level, and all its nodes
  there have the records of that query as children. -/
  opened : ∀ d code, Opens [] roots d code → ∃ s children,
    Settles t (outcomesFor code (levels.getD d [])) s ∧ children.map leaf = s.nodes ∧
      ∀ n ∈ atDepth d roots, n.record.code = some code → n.children = someChildren children
  /-- On a level nothing else was asked for. -/
  asked : ∀ d, ∀ a ∈ levels.getD d [], Opens [] roots d a.code
  /-- The codes that failed are those whose query ended with an error, with its message. -/
  failed : ∀ code message, Entries.get? code ledger.report.failed = some message ↔
    ∃ d e, Opens [] roots d code ∧ Settles t (outcomesFor code (levels.getD d [])) (.error e) ∧
      e.message = message

/-- A forest that a pass over a source of wire records brings was built level by level. And a pass
that nothing else hinders brings one, unless the query for the parent failed. -/
theorem resolve_levelByLevel {σ : Type} {source : Source σ} {s : σ} (hwire : Wire source s)
    (t : Tuning) (depth : Nat) (parent : String) (manner : Manner σ) :
    (∀ roots ledger, resolve t source depth parent s manner = (.ok roots, ledger) →
      ∃ first levels, LevelByLevel t parent roots first levels ledger) ∧
    ∀ pool, Unhindered t source depth s manner pool →
      (∃ roots, (resolve t source depth parent s manner).1 = .ok roots) ∨
        ∃ e, RootFails t source s parent e ∧
          (resolve t source depth parent s manner).1 = .error (.stopped (.fault (.fetch e))) := by
  refine ⟨fun roots ledger h => ?_, fun _ hunhindered => hunhindered.completes parent⟩
  obtain ⟨first, levels, records, between, hfirst, hbelow⟩ := resolve_expanded hwire h
  obtain rfl := hbelow.leaves
  have hnothing : ∀ code, Entries.get? code between.report.failed = none := by
    intro code
    by_cases hcode : code = parent
    · subst hcode
      exact hfirst.failed 0 code _ rfl rfl
    · exact hfirst.kept code (by simpa using hcode)
  refine ⟨first, levels, ?_, ⟨?_, ?_⟩, ?_, hbelow.opened, hbelow.asked, ?_⟩
  · rw [hbelow.log, hfirst.log, List.nil_append]
  · simpa using hfirst.asked
  · exact hfirst.settles 0 parent _ rfl rfl
  · intro d n hn hclosed
    apply hbelow.closed d n hn
    intro code hcode hopen
    rcases hclosed code hcode with hempty | ⟨e, he, above, habove, hcode'⟩
    · exact hopen.nonempty hempty
    · exact hopen.first e he above habove hcode'
  · intro code message
    rw [hbelow.failed code message]
    simp only [hnothing, Fails, reduceCtorEq, and_false, or_false]
    constructor
    · intro hfails
      obtain ⟨e, ⟨d, hopen, hsettles⟩, hmessage⟩ := hfails
      exact ⟨d, e, hopen, hsettles, hmessage⟩
    · intro hfails
      obtain ⟨d, e, hopen, hsettles, hmessage⟩ := hfails
      exact ⟨e, ⟨d, hopen, hsettles⟩, hmessage⟩

def coded (code : String) (children : List Node) : Node :=
  { Node.ofEntries [("code", .text code)] with children := someChildren children }

def brings (codes : List String) : Reaction :=
  ⟨.whole 0, .ok (.value (.list (codes.map fun code => .object [("code", .text code)])))⟩

/-- A reaction that may be different the next time. -/
def busy : Reaction := ⟨.whole 0, .error (.fetch .transient "busy" none)⟩

/-- Two attempts for each query, four requests at once, no pauses. -/
def twice : Tuning := ⟨2, .whole 0, .whole 0, 4, by decide, by decide⟩

/-- Shared codes, a code below itself, and a query that is repeated. -/
def tangled : Script :=
  [("0", [brings ["R", "S"]]), ("R", [brings ["A", "B"]]), ("A", [brings ["B"]]),
    ("B", [busy, brings ["R"]])]

def untangled : List Node :=
  [coded "R" [coded "A" [coded "B" []], coded "B" [coded "R" []]], coded "S" []]

theorem resolve_levelByLevel_tangled :
    Unhindered twice Script.source 7 tangled (.onSchedule none firstCome) tangled.codes ∧
      ∃ first levels, LevelByLevel twice "0" untangled first levels
        (resolve twice Script.source 7 "0" tangled (.onSchedule none firstCome)).2 := by
  have hwire : Wire Script.source tangled :=
    wire_script (by simp [Script.IsWire, tangled, brings, busy, Records.IsWire])
  have hfetching : tangled.Fetching := by
    simp [Script.Fetching, tangled, brings, busy, Failure.IsFetch]
  have hpauses : twice.CanPause tangled.depth :=
    Tuning.canPause (k := 3) (by decide) (by decide) (by decide)
  constructor
  · exact unhindered_script rfl hfetching (by decide) hpauses
  · apply (resolve_levelByLevel hwire twice 7 "0" (.onSchedule none firstCome)).1
    apply Prod.ext
    · cbv
    · rfl

end Resolve

end AdminConsole
