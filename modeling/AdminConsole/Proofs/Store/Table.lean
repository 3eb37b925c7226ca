import AdminConsole.Store

/-!
A table store answers as a memory store does. The one keeps rows that it deletes and inserts, in
whatever order; the other keeps entries whose values it changes in place. What carries the
comparison is that the table has one row for each key: with two, a question would be answered by the
older row, and with one that is left over an insertion would be refused.
-/

namespace AdminConsole.Store

/-- What a store is asked to do while it is open. -/
inductive Operation where
  | get (key : String)
  | set (key value : String)
  | remove (key : String)
  | clear
  deriving DecidableEq, Repr

namespace Operation

def perform (s : Store) : Operation → Store
  | .get _ => s
  | .set key value => s.set key value
  | .remove key => s.remove key
  | .clear => s.clear

/-- Only a question has an answer. -/
def answer (s : Store) : Operation → Option String
  | .get key => s.get key
  | _ => none

end Operation

def run (s : Store) (operations : List Operation) : Store := operations.foldl Operation.perform s

/-- The answers to operations, each asked of the store that those before it leave. -/
def answers : Store → List Operation → List (Option String)
  | _, [] => []
  | s, operation :: operations => operation.answer s :: answers (operation.perform s) operations

/-- The answers of a store that is closed and opened again after each visit. -/
def visited : Store → List (List Operation) → List (Option String)
  | _, [] => []
  | s, visit :: visits => answers s visit ++ visited (s.run visit).reopen visits

/-- The store that the visits leave. -/
def runVisits (s : Store) (visits : List (List Operation)) : Store :=
  visits.foldl (fun s visit => (s.run visit).reopen) s

theorem answers_append (s : Store) (first second : List Operation) :
    answers s (first ++ second) = answers s first ++ answers (s.run first) second := by
  induction first generalizing s with
  | nil => rfl
  | cons operation operations ih => simp [answers, run, ih]

theorem run_append (s : Store) (first second : List Operation) :
    s.run (first ++ second) = (s.run first).run second := List.foldl_append

/-- The writes that fill a store. -/
def writes (entries : List (String × String)) : List Operation :=
  entries.map fun entry => .set entry.1 entry.2

theorem run_writes (s : Store) (entries : List (String × String)) :
    s.run (writes entries) = s.fill entries := List.foldl_map

theorem fill_memory (below above : Entries String) :
    (Store.memory below).fill above = .memory (Entries.overlay below above) := by
  induction above generalizing below with
  | nil => rfl
  | cons entry rest ih => exact ih (Entries.put entry.1 entry.2 below)

/-! ### Statements on a table with a primary key -/

inductive Statement where
  | deleteWhere (key : String)
  | deleteAll
  | insert (row : StoreRow)

/-- A row whose key is taken is refused. -/
def Statement.execute (rows : List StoreRow) : Statement → Option (List StoreRow)
  | .deleteWhere key => some (deleteRows key rows)
  | .deleteAll => some []
  | .insert row => if row.key ∈ rows.map StoreRow.key then none else some (rows ++ [row])

/-- The statements of one transaction are executed all, or none of them is. -/
def transact (rows : List StoreRow) (statements : List Statement) : Option (List StoreRow) :=
  statements.foldlM Statement.execute rows

/-- What a table store executes; a question changes nothing. -/
def Operation.statements : Operation → List Statement
  | .get _ => []
  | .set key value => [.deleteWhere key, .insert ⟨key, value⟩]
  | .remove key => [.deleteWhere key]
  | .clear => [.deleteAll]

/-! ### Tables with one row for each key -/

section Rows

variable {rows : List StoreRow} {key other value : String}

def UniqueKeys (rows : List StoreRow) : Prop := (rows.map StoreRow.key).Nodup

theorem mem_deleteRows {row : StoreRow} :
    row ∈ deleteRows key rows ↔ row ∈ rows ∧ row.key ≠ key := by
  simp [deleteRows]

theorem key_notMem_deleteRows (key : String) (rows : List StoreRow) :
    key ∉ (deleteRows key rows).map StoreRow.key := by
  intro hmem
  obtain ⟨row, hrow, hkey⟩ := List.mem_map.mp hmem
  exact (mem_deleteRows.mp hrow).2 hkey

theorem UniqueKeys.deleteRows (h : UniqueKeys rows) (key : String) :
    UniqueKeys (deleteRows key rows) :=
  List.Nodup.sublist (List.filter_sublist.map StoreRow.key) h

theorem UniqueKeys.insert (h : UniqueKeys rows) (hkey : key ∉ rows.map StoreRow.key)
    (value : String) : UniqueKeys (rows ++ [⟨key, value⟩]) := by
  rw [UniqueKeys, List.map_append]
  refine List.nodup_append.mpr ⟨h, List.pairwise_singleton .., ?_⟩
  intro first hfirst second hsecond
  obtain rfl := List.mem_singleton.mp hsecond
  exact fun heq => hkey (heq ▸ hfirst)

/-- Of a table with unique keys the first row with a key is the only one. -/
theorem UniqueKeys.get_eq_some_iff (h : UniqueKeys rows) (durable : Bool) :
    (Store.table rows durable).get key = some value ↔ ⟨key, value⟩ ∈ rows := by
  induction rows with
  | nil => simp [get]
  | cons row rest ih =>
    obtain ⟨hfresh, hrest⟩ := List.nodup_cons.mp h
    obtain ⟨first, held⟩ := row
    by_cases hkey : first = key
    · -- the answer is the row in front, and the key of that row is nowhere else
      subst hkey
      have hother : ⟨first, value⟩ ∉ rest := fun hmem =>
        hfresh (List.mem_map.mpr ⟨_, hmem, rfl⟩)
      simp [get, hother, eq_comm]
    · have hget : (Store.table (⟨first, held⟩ :: rest) durable).get key =
          (Store.table rest durable).get key := by
        simp [get, hkey]
      rw [hget, ih hrest]
      simp [Ne.symm hkey]

/-- A transaction deletes before it inserts, so that its insertion is never refused. -/
theorem transact_statements (operation : Operation) (durable : Bool) :
    ∃ next, transact rows operation.statements = some next ∧
      operation.perform (.table rows durable) = .table next durable := by
  cases operation with
  | get key => exact ⟨rows, rfl, rfl⟩
  | set key value =>
    have hinsert : Statement.execute (deleteRows key rows) (.insert ⟨key, value⟩) =
        some (deleteRows key rows ++ [⟨key, value⟩]) :=
      if_neg (key_notMem_deleteRows key rows)
    refine ⟨deleteRows key rows ++ [⟨key, value⟩], ?_, rfl⟩
    simp [transact, Operation.statements, Statement.execute.eq_1, hinsert]
  | remove key => exact ⟨deleteRows key rows, rfl, rfl⟩
  | clear => exact ⟨[], rfl, rfl⟩

end Rows

/-! ### A table beside a memory -/

/-- The table has one row for each key, and its rows are what can be looked up in the entries. -/
structure Mirrors (entries : Entries String) (rows : List StoreRow) : Prop where
  unique : UniqueKeys rows
  same : ∀ key value, Entries.get? key entries = some value ↔ ⟨key, value⟩ ∈ rows

namespace Mirrors

variable {entries : Entries String} {rows : List StoreRow}

theorem empty : Mirrors [] [] := ⟨List.nodup_nil, by simp [Entries.get?]⟩

theorem get (h : Mirrors entries rows) (durable : Bool) (key : String) :
    (Store.table rows durable).get key = (Store.memory entries).get key := by
  apply Option.ext
  intro value
  rw [h.unique.get_eq_some_iff, ← h.same]
  rfl

theorem set (h : Mirrors entries rows) (key value : String) :
    Mirrors (Entries.put key value entries) (deleteRows key rows ++ [⟨key, value⟩]) where
  unique := (h.unique.deleteRows key).insert (key_notMem_deleteRows key rows) value
  same := by
    intro other held
    rw [List.mem_append, mem_deleteRows, List.mem_singleton]
    by_cases hkey : other = key
    · subst hkey
      simp [Entries.get?_put_self, eq_comm]
    · rw [Entries.get?_put_of_ne hkey, h.same]
      simp [hkey]

theorem remove (h : Mirrors entries rows) (key : String) :
    Mirrors (Entries.erase key entries) (deleteRows key rows) where
  unique := h.unique.deleteRows key
  same := by
    intro other held
    rw [mem_deleteRows]
    by_cases hkey : other = key
    · subst hkey
      simp [Entries.get?_erase_self]
    · rw [Entries.get?_erase_of_ne hkey, h.same]
      simp [hkey]

/-- One operation on both sides: they answer alike and still hold the same. -/
theorem perform (h : Mirrors entries rows) (durable : Bool) (operation : Operation) :
    operation.answer (.table rows durable) = operation.answer (.memory entries) ∧
      ∃ entries' rows', operation.perform (.memory entries) = .memory entries' ∧
        operation.perform (.table rows durable) = .table rows' durable ∧
        Mirrors entries' rows' := by
  cases operation with
  | get key => exact ⟨h.get durable key, entries, rows, rfl, rfl, h⟩
  | set key value => exact ⟨rfl, _, _, rfl, rfl, h.set key value⟩
  | remove key => exact ⟨rfl, _, _, rfl, rfl, h.remove key⟩
  | clear => exact ⟨rfl, _, _, rfl, rfl, empty⟩

theorem run (h : Mirrors entries rows) (durable : Bool) (operations : List Operation) :
    answers (.table rows durable) operations = answers (.memory entries) operations ∧
      ∃ entries' rows', (Store.memory entries).run operations = .memory entries' ∧
        (Store.table rows durable).run operations = .table rows' durable ∧
        Mirrors entries' rows' := by
  induction operations generalizing entries rows with
  | nil => exact ⟨rfl, entries, rows, rfl, rfl, h⟩
  | cons operation operations ih =>
    obtain ⟨hanswer, entries₁, rows₁, hmemory, htable, h₁⟩ := h.perform durable operation
    obtain ⟨hanswers, hrest⟩ := ih h₁
    refine ⟨?_, ?_⟩
    · rw [answers, answers, hanswer, hmemory, htable, hanswers]
    · simpa only [Store.run, List.foldl_cons, hmemory, htable] using hrest

/-- A durable table keeps its rows from visit to visit, so that the visits are one run. -/
theorem visited (h : Mirrors entries rows) (visits : List (List Operation)) :
    visited (.table rows true) visits = answers (.memory entries) visits.flatten ∧
      (Store.table rows true).runVisits visits = (Store.table rows true).run visits.flatten := by
  induction visits generalizing entries rows with
  | nil => exact ⟨rfl, rfl⟩
  | cons visit visits ih =>
    obtain ⟨hanswers, entries', rows', hmemory, htable, h'⟩ := h.run true visit
    obtain ⟨hvisited, hleft⟩ := ih h'
    have hreopen : ((Store.table rows true).run visit).reopen = .table rows' true := by
      rw [htable]
      rfl
    constructor
    · rw [Store.visited, hreopen, hvisited, hanswers, List.flatten_cons, answers_append, hmemory]
    · rw [List.flatten_cons, run_append, htable, ← hleft, ← hreopen]
      rfl

/-- An empty table to which a dictionary is written mirrors it. -/
theorem fill (entries : List (String × String)) (durable : Bool) :
    ∃ rows, (Store.table [] durable).fill entries = .table rows durable ∧
      Mirrors (Entries.ofList entries) rows := by
  obtain ⟨-, entries', rows, hmemory, htable, h⟩ := empty.run durable (writes entries)
  rw [run_writes, fill_memory] at hmemory
  rw [run_writes] at htable
  obtain rfl := Store.memory.inj hmemory
  exact ⟨rows, htable, h⟩

end Mirrors

/-- A table answers as the memory that it mirrors does. After every run its keys are unique, and
the transaction of whatever comes next is not refused; and if the table is durable it may be closed
and opened again between any two operations. -/
theorem table_answers {entries : Entries String} {rows : List StoreRow} (h : Mirrors entries rows)
    (durable : Bool) (operations : List Operation) :
    answers (.table rows durable) operations = answers (.memory entries) operations ∧
      (∃ kept, (Store.table rows durable).run operations = .table kept durable ∧
        UniqueKeys kept ∧
        ∀ operation : Operation, ∃ next,
          transact kept operation.statements = some next ∧
          operation.perform (.table kept durable) = .table next durable) ∧
      ∀ visits : List (List Operation), visits.flatten = operations →
        visited (.table rows true) visits = answers (.memory entries) operations ∧
        (Store.table rows true).runVisits visits = (Store.table rows true).run operations := by
  obtain ⟨hanswers, entries', kept, -, htable, hkept⟩ := h.run durable operations
  refine ⟨hanswers, ⟨kept, htable, hkept.unique, ?_⟩, ?_⟩
  · intro operation
    exact transact_statements operation durable
  · rintro visits rfl
    exact h.visited visits

/-- The rows stand in another order than the entries, one key is written twice in a visit, and the
next visit asks for nothing. -/
theorem table_answers_visits :
    Mirrors [("authentication", "a"), ("credentials", "c")]
        [⟨"credentials", "c"⟩, ⟨"authentication", "a"⟩] ∧
      visited (.table [⟨"credentials", "c"⟩, ⟨"authentication", "a"⟩] true)
          [[.set "authentication" "b", .set "authentication" "d"], [],
            [.get "authentication", .remove "credentials", .get "credentials"],
            [.get "authentication", .clear, .get "authentication"]] =
        answers (.memory [("authentication", "a"), ("credentials", "c")])
          [.set "authentication" "b", .set "authentication" "d", .get "authentication",
            .remove "credentials", .get "credentials", .get "authentication", .clear,
            .get "authentication"] ∧
      answers (.memory [("authentication", "a"), ("credentials", "c")])
          [.set "authentication" "b", .set "authentication" "d", .get "authentication",
            .remove "credentials", .get "credentials", .get "authentication", .clear,
            .get "authentication"] =
        [none, none, some "d", none, none, some "d", none, none] := by
  have hmirrors : Mirrors [("authentication", "a"), ("credentials", "c")]
      [⟨"credentials", "c"⟩, ⟨"authentication", "a"⟩] := by
    refine ⟨by unfold UniqueKeys; decide, ?_⟩
    intro key value
    by_cases hfirst : key = "authentication"
    · subst hfirst
      simp [Entries.get?, eq_comm]
    · by_cases hsecond : key = "credentials"
      · subst hsecond
        simp [Entries.get?, eq_comm]
      · simp [Entries.get?, hfirst, hsecond, Ne.symm hfirst, Ne.symm hsecond]
  refine ⟨hmirrors, ?_, by decide⟩
  exact ((table_answers hmirrors true _).2.2 _ rfl).1

end AdminConsole.Store
