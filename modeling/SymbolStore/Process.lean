import SymbolStore.Action
import SymbolStore.Memory.Ledger

/-! What all objects of one run share. -/

namespace SymbolStore

structure Process where
  journal : Journal := {}
  /-- The configuration of managers that are given none. It was read once and does not change. -/
  config : Config := {}
  allocator : Allocator := .ascending
  heap : Heap := {}
  /-- The ledgers of the managers that have not ended, by number. -/
  ledgers : Std.TreeMap Nat Ledger := {}
  nextManager : Nat := 0
  /-- The number of the next region. A process would have to make 2⁶⁴ regions for its 64-bit counter
  to repeat one, so the numbers are taken to go on. -/
  nextRegion : Nat := 1

namespace Process

def log (level : Level) (origin : Origin) (text : Unit → String) : Action Process Unit :=
  modify fun process => { process with journal := process.journal.log level origin.target text }

def updateHeap (f : Heap → Heap) : Action Process Unit :=
  modify fun process => { process with heap := f process.heap }

/-- Writes into a block. The bytes have to lie inside it. -/
def store (pointer : Pointer) (values : List UInt8) : Action Process Unit := do
  if (← get).heap.covers pointer values.length then
    updateHeap fun heap => heap.write pointer values
  else throw (.refused .outsideBlock)

@[simp] theorem runFrom_log (level : Level) (origin : Origin) (text : Unit → String)
    (process : Process) :
    (log level origin text).runFrom process =
      (.ok (), { process with journal := process.journal.log level origin.target text }) := rfl

@[simp] theorem runFrom_updateHeap (f : Heap → Heap) (process : Process) :
    (updateHeap f).runFrom process = (.ok (), { process with heap := f process.heap }) := rfl

end Process

/-- A step of one object inside a process. -/
abbrev Method (O : Type) := Action (O × Process)

namespace Method

variable {O P α : Type}

def ofProcess (x : Action Process α) : Method O α :=
  Action.within Prod.snd (fun process state => (state.1, process)) x

instance : MonadLift (Action Process) (Method O) := ⟨ofProcess⟩

def self : Method O O := do
  let state ← getThe (O × Process)
  return state.1

def heap : Method O Heap := do
  let state ← getThe (O × Process)
  return state.2.heap

def update (f : O → O) : Method O Unit :=
  modifyThe (O × Process) fun state => (f state.1, state.2)

def ofPart (part : O → P) (restore : P → O → O) (x : Method P α) : Method O α :=
  Action.within (fun state => (part state.1, state.2))
    (fun inner state => (restore inner.1 state.1, inner.2)) x

@[simp] theorem runFrom_ofProcess (x : Action Process α) (state : O × Process) :
    (ofProcess x : Method O α).runFrom state =
      ((x.runFrom state.2).1, (state.1, (x.runFrom state.2).2)) := rfl

@[simp] theorem runFrom_liftProcess (x : Action Process α) (state : O × Process) :
    (liftM x : Method O α).runFrom state =
      ((x.runFrom state.2).1, (state.1, (x.runFrom state.2).2)) := rfl

@[simp] theorem runFrom_self (state : O × Process) :
    (self : Method O O).runFrom state = (.ok state.1, state) := rfl

@[simp] theorem runFrom_heap (state : O × Process) :
    (heap : Method O Heap).runFrom state = (.ok state.2.heap, state) := rfl

@[simp] theorem runFrom_update (f : O → O) (state : O × Process) :
    (update f).runFrom state = (.ok (), (f state.1, state.2)) := rfl

@[simp] theorem runFrom_ofPart (part : O → P) (restore : P → O → O) (x : Method P α)
    (state : O × Process) :
    (ofPart part restore x).runFrom state =
      ((x.runFrom (part state.1, state.2)).1,
        (restore (x.runFrom (part state.1, state.2)).2.1 state.1,
          (x.runFrom (part state.1, state.2)).2.2)) := rfl

end Method

end SymbolStore
