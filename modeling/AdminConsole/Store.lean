import AdminConsole.Entries

/-!
Stores of named texts. A memory store keeps ordered entries; a discarding store accepts every
write and keeps nothing; a table store keeps rows, and writing a name deletes its rows before it
inserts one. Only a durable table outlives the process that opened it.
-/

namespace AdminConsole

structure StoreRow where
  key : String
  value : String
  deriving DecidableEq, Repr

inductive Store where
  | memory (entries : Entries String)
  | discarding
  | table (rows : List StoreRow) (durable : Bool)
  deriving DecidableEq, Repr

namespace Store

def get (s : Store) (key : String) : Option String :=
  match s with
  | .memory entries => Entries.get? key entries
  | .discarding => none
  | .table rows _ => (rows.find? fun row => row.key = key).map StoreRow.value

def deleteRows (key : String) (rows : List StoreRow) : List StoreRow :=
  rows.filter fun row => row.key ≠ key

def set (s : Store) (key value : String) : Store :=
  match s with
  | .memory entries => .memory (Entries.put key value entries)
  | .discarding => .discarding
  | .table rows durable => .table (deleteRows key rows ++ [⟨key, value⟩]) durable

def remove (s : Store) (key : String) : Store :=
  match s with
  | .memory entries => .memory (Entries.erase key entries)
  | .discarding => .discarding
  | .table rows durable => .table (deleteRows key rows) durable

def clear : Store → Store
  | .memory _ => .memory []
  | .discarding => .discarding
  | .table _ durable => .table [] durable

def reopen : Store → Store
  | .memory _ => .memory []
  | .discarding => .discarding
  | .table rows durable => .table (if durable then rows else []) durable

def entries : Store → Entries String
  | .memory entries => entries
  | .discarding => []
  | .table rows _ => rows.map fun row => (row.key, row.value)

def contains (s : Store) (key : String) : Bool := (s.get key).isSome

def size (s : Store) : Nat := s.entries.length

/-- A store with some entries written in order. -/
def fill (s : Store) (entries : Entries String) : Store :=
  entries.foldl (fun s entry => s.set entry.1 entry.2) s

theorem get_set_self_memory (entries : Entries String) (key value : String) :
    ((Store.memory entries).set key value).get key = some value := by
  simp [set, get, Entries.get?_put_self]

theorem get_remove_self (s : Store) (key : String) : (s.remove key).get key = none := by
  cases s with
  | memory entries => simp [remove, get, Entries.get?_erase_self]
  | discarding => rfl
  | table rows durable => simp [remove, get, deleteRows, List.find?_eq_none]

theorem get_remove_of_ne {key other : String} (h : other ≠ key) (s : Store) :
    (s.remove key).get other = s.get other := by
  cases s with
  | memory entries => exact Entries.get?_erase_of_ne h entries
  | discarding => rfl
  | table rows durable =>
    simp only [remove, get, deleteRows, List.find?_filter]
    congr 2
    funext row
    by_cases hrow : row.key = other <;> simp [hrow, h]

theorem get_set_of_ne {key other : String} (h : other ≠ key) (s : Store) (value : String) :
    (s.set key value).get other = s.get other := by
  cases s with
  | memory entries => exact Entries.get?_put_of_ne h value entries
  | discarding => rfl
  | table rows durable =>
    have hremove := get_remove_of_ne h (.table rows durable)
    simp only [remove, get] at hremove
    simp only [set, get, List.find?_append]
    rw [Option.map_or, hremove]
    simp [Ne.symm h]

/-- A store that is opened again holds what it held, or nothing. -/
theorem get_reopen (s : Store) (key : String) :
    s.reopen.get key = none ∨ s.reopen.get key = s.get key := by
  cases s with
  | memory entries => exact .inl rfl
  | discarding => exact .inl rfl
  | table rows durable =>
    cases durable with
    | true => exact .inr rfl
    | false => exact .inl rfl

end Store

end AdminConsole
