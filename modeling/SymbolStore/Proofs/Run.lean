import SymbolStore.Process

/-! Runs of requests to an object inside a process. A run goes on after a failure. -/

namespace SymbolStore

/-- A request with its outcome and the state that it left. -/
structure Step (R A O : Type) where
  request : R
  outcome : Except Failure A
  after : O × Process

namespace Method

variable {R A O : Type} (perform : R → Method O A)

def run : List R → O × Process → List (Step R A O)
  | [], _ => []
  | request :: requests, state =>
    let (outcome, after) := (perform request).runFrom state
    { request, outcome, after } :: run requests after

def final (requests : List R) (state : O × Process) : O × Process :=
  requests.foldl (fun state request => ((perform request).runFrom state).2) state

@[simp] theorem run_nil (state : O × Process) : run perform [] state = [] := rfl

@[simp] theorem run_cons (request : R) (requests : List R) (state : O × Process) :
    run perform (request :: requests) state =
      { request
        outcome := ((perform request).runFrom state).1
        after := ((perform request).runFrom state).2 } ::
          run perform requests ((perform request).runFrom state).2 := rfl

@[simp] theorem final_nil (state : O × Process) : final perform [] state = state := rfl

@[simp] theorem final_cons (request : R) (requests : List R) (state : O × Process) :
    final perform (request :: requests) state =
      final perform requests ((perform request).runFrom state).2 := rfl

theorem final_append (first second : List R) (state : O × Process) :
    final perform (first ++ second) state = final perform second (final perform first state) :=
  List.foldl_append

theorem requests_run (requests : List R) (state : O × Process) :
    (run perform requests state).map Step.request = requests := by
  induction requests generalizing state with
  | nil => rfl
  | cons request requests ih => rw [run_cons, List.map_cons, ih]

end Method

end SymbolStore
