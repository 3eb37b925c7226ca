import AdminConsole.Resolve.Source

/-!
Resolving a forest level by level. The nodes of one level are the frontier; every code that was
not met before is asked for once, and what it finds is attached to all nodes of the frontier that
have it. The nodes found make the next frontier. A code that was met on an earlier level is not
asked for again, so its later occurrences stay leaves.
-/

namespace AdminConsole.Resolve

/-- Settles the queries for the codes of one level, in their order. -/
abbrev Gather (S : Type) := List String → S → Except Stop (List Settled) × S

/-- The codes of a frontier that were not met before, each once. -/
def freshCodes (met : List String) : List Node → List String
  | [] => []
  | n :: rest =>
    match n.record.code with
    | none => freshCodes met rest
    | some code =>
      if code = "" ∨ code ∈ met then freshCodes met rest
      else code :: freshCodes (code :: met) rest

def regroup : List (List Node) → List Node → List (List Node)
  | [], _ => []
  | piece :: pieces, nodes =>
    nodes.take piece.length :: regroup pieces (nodes.drop piece.length)

/-- A node with the children that were found for its code, if any were. -/
def attach (found : Entries (List Node)) (n : Node) : Node :=
  match n.record.code.bind fun code => Entries.get? code found with
  | some (child :: rest) => { n with children := some (child :: rest) }
  | _ => n

/-- Resolves the nodes of a frontier: the same nodes with everything below them attached. No more
than `depth` levels are asked for. -/
def expand {S : Type} (gather : Gather S) (depth : Nat) (met : List String)
    (frontier : List Node) (state : S) : Except Halt (List Node) × S :=
  match freshCodes met frontier, depth with
  | [], _ => (.ok frontier, state)
  | _ :: _, 0 => (.error .tooDeep, state)
  | code :: codes, depth + 1 =>
    match gather (code :: codes) state with
    | (.error stop, state) => (.error (.stopped stop), state)
    | (.ok settled, state) =>
      let found := settled.map Settled.nodes
      match expand gather depth (code :: codes ++ met) found.flatten state with
      | (.error halt, state) => (.error halt, state)
      | (.ok below, state) =>
        (.ok (frontier.map (attach ((code :: codes).zip (regroup found below)))), state)

/-- Resolves the forest under a code. Without the roots there is no forest. -/
def forest {S : Type} (gather : Gather S) (depth : Nat) (parent : String) (state : S) :
    Except Halt (List Node) × S :=
  match gather [parent] state with
  | (.error stop, state) => (.error (.stopped stop), state)
  | (.ok settled, state) =>
    match settled with
    | [] => (.ok [], state)
    | .error e :: _ => (.error (.stopped (.fault (.fetch e))), state)
    | .ok roots :: _ => expand gather depth [] roots state

end AdminConsole.Resolve
