import SymbolStore.Dictionary.KeyRule
import SymbolStore.Interner.Basic
import SymbolStore.Memory.FlatArray

/-! A process with the objects that its client has named. -/

namespace SymbolStore

abbrev Names (α : Type) := Std.TreeMap String α

structure Session (K V : Type) where
  process : Process := {}
  managers : Names Manager := {}
  /-- The addresses of blocks that the client asked for itself. A name outlives its block. -/
  blocks : Names Nat := {}
  arrays : Names FlatArray := {}
  regions : Names Region := {}
  /-- Handles outlive their regions. -/
  handles : Names Region.Handle := {}
  interners : Names Interner := {}
  /-- Symbols outlive their interners. -/
  symbols : Names Symbol := {}
  dictionaries : Names (Dictionary K V) := {}

namespace Session

variable {K V α : Type}

def ofProcess (x : Action Process α) : Action (Session K V) α :=
  Action.within Session.process (fun process session => { session with process }) x

instance : MonadLift (Action Process) (Action (Session K V)) := ⟨ofProcess⟩

def current : Action (Session K V) (Session K V) := getThe (Session K V)

def update (f : Session K V → Session K V) : Action (Session K V) Unit :=
  modifyThe (Session K V) f

def named (objects : Names α) (name : String) : Action (Session K V) α :=
  match objects[name]? with
  | some object => pure object
  | none => throw (.unknown name)

def manager (name : String) : Action (Session K V) Manager := do
  named (← current).managers name

def block (name : String) : Action (Session K V) Nat := do
  named (← current).blocks name

def handle (name : String) : Action (Session K V) Region.Handle := do
  named (← current).handles name

def symbol (name : String) : Action (Session K V) Symbol := do
  named (← current).symbols name

def onArray (name : String) (x : Method FlatArray α) : Action (Session K V) α := do
  let array ← named (← current).arrays name
  Action.within (fun session => (array, session.process))
    (fun (array, process) session =>
      { session with arrays := session.arrays.insert name array, process }) x

def onRegion (name : String) (x : Method Region α) : Action (Session K V) α := do
  let region ← named (← current).regions name
  Action.within (fun session => (region, session.process))
    (fun (region, process) session =>
      { session with regions := session.regions.insert name region, process }) x

def onInterner (name : String) (x : Method Interner α) : Action (Session K V) α := do
  let interner ← named (← current).interners name
  Action.within (fun session => (interner, session.process))
    (fun (interner, process) session =>
      { session with interners := session.interners.insert name interner, process }) x

def onDictionary (name : String) (x : Method (Dictionary K V) α) : Action (Session K V) α := do
  let dictionary ← named (← current).dictionaries name
  Action.within (fun session => (dictionary, session.process))
    (fun (dictionary, process) session =>
      { session with dictionaries := session.dictionaries.insert name dictionary, process }) x

/-- Builds an object on a named manager, or on a new one for it alone. -/
def building (manager : Option String) (build : Manager → Action Process α) :
    Action (Session K V) α := do
  let manager ← match manager with
    | some name => do
      let manager ← Session.manager name
      manager.retain
      pure manager
    | none => Manager.create (← current).process.config
  let built ← ((build manager).onFailure manager.release : Action Process α)
  manager.release
  return built

def retire (discard : α → Action Process Unit) : Option α → Action (Session K V) Unit
  | some object => ofProcess (discard object)
  | none => pure ()

def nameManager (name : String) (manager : Manager) : Action (Session K V) Unit := do
  let earlier := (← current).managers[name]?
  update fun session => { session with managers := session.managers.insert name manager }
  retire Manager.release earlier

def nameArray (name : String) (array : FlatArray) : Action (Session K V) Unit := do
  let earlier := (← current).arrays[name]?
  update fun session => { session with arrays := session.arrays.insert name array }
  retire FlatArray.discard earlier

def nameRegion (name : String) (region : Region) : Action (Session K V) Unit := do
  let earlier := (← current).regions[name]?
  update fun session => { session with regions := session.regions.insert name region }
  retire Region.discard earlier

def nameInterner (name : String) (interner : Interner) : Action (Session K V) Unit := do
  let earlier := (← current).interners[name]?
  update fun session => { session with interners := session.interners.insert name interner }
  retire Interner.discard earlier

def nameDictionary (name : String) (dictionary : Dictionary K V) :
    Action (Session K V) Unit := do
  let earlier := (← current).dictionaries[name]?
  update fun session =>
    { session with dictionaries := session.dictionaries.insert name dictionary }
  retire Dictionary.discard earlier

def nameBlock (name : String) (address : Nat) : Action (Session K V) Unit :=
  update fun session => { session with blocks := session.blocks.insert name address }

def nameHandle (name : Option String) (handle : Region.Handle) : Action (Session K V) Unit :=
  match name with
  | some name =>
    update fun session => { session with handles := session.handles.insert name handle }
  | none => pure ()

def nameSymbol (name : Option String) (symbol : Symbol) : Action (Session K V) Unit :=
  match name with
  | some name =>
    update fun session => { session with symbols := session.symbols.insert name symbol }
  | none => pure ()

/-- Takes all objects out of existence, kind by kind in the order of their names. Blocks that the
client did not free stay. -/
def close : Action (Session K V) Unit := do
  let session ← current
  update fun session =>
    { session with
      interners := {}, dictionaries := {}, regions := {}, arrays := {}, managers := {} }
  session.interners.values.forM fun interner => ofProcess interner.discard
  session.dictionaries.values.forM fun dictionary => ofProcess dictionary.discard
  session.regions.values.forM fun region => ofProcess region.discard
  session.arrays.values.forM fun array => ofProcess array.discard
  session.managers.values.forM fun manager => ofProcess manager.release

end Session

end SymbolStore
