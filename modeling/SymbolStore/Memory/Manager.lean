import SymbolStore.Memory.System

/-! Managers: handing out, resizing and taking back blocks. -/

namespace SymbolStore

/-- A manager, known by its number. Copies of it are the same manager. -/
structure Manager where
  id : Nat
  deriving DecidableEq, Repr

namespace Manager

def ledgerIn (manager : Manager) (process : Process) : Ledger :=
  process.ledgers.getD manager.id .closed

def ledger (manager : Manager) : Action Process Ledger := manager.ledgerIn <$> get

def setLedger (manager : Manager) (ledger : Ledger) : Action Process Unit :=
  modify fun process =>
    { process with ledgers := process.ledgers.modify manager.id fun _ => ledger }

@[simp] theorem runFrom_ledger (manager : Manager) (process : Process) :
    manager.ledger.runFrom process = (.ok (manager.ledgerIn process), process) := rfl

@[simp] theorem runFrom_setLedger (manager : Manager) (ledger : Ledger) (process : Process) :
    (manager.setLedger ledger).runFrom process =
      (.ok (), { process with ledgers := process.ledgers.modify manager.id fun _ => ledger }) := rfl

def create (config : Config) : Action Process Manager := do
  let process ← get
  set { process with
    ledgers := process.ledgers.insert process.nextManager { config }
    nextManager := process.nextManager + 1 }
  return { id := process.nextManager }

def retain (manager : Manager) : Action Process Unit := do
  let ledger ← manager.ledger
  manager.setLedger { ledger with holders := ledger.holders + 1 }

/-- Takes a holder away. With the last one the manager ends, and says so if blocks are left. -/
def release (manager : Manager) : Action Process Unit := do
  let ledger ← manager.ledger
  if 1 < ledger.holders then
    manager.setLedger { ledger with holders := ledger.holders - 1 }
  else
    let { liveBlocks, liveBytes, .. } := ledger.counters
    if 0 < liveBlocks then
      Process.log .warn .manager fun _ =>
        s!"memory manager dropped with {liveBlocks} live blocks ({liveBytes} bytes)"
    modify fun process => { process with ledgers := process.ledgers.erase manager.id }

def checkBudget (manager : Manager) (releasing requested : Nat) : Action Process Unit := do
  match ← (← manager.ledger).excess? releasing requested with
  | none => return
  | some (live, limit) =>
    Process.log .error .manager fun _ =>
      s!"allocation of {requested} bytes exceeds budget ({live} of {limit} bytes live)"
    Action.fail (.outOfMemory requested)

def recordedSize (manager : Manager) (call : BlockCall) (address : Nat) : Action Process Nat := do
  match (← manager.ledger).live[address]? with
  | some size => return size
  | none => Action.stop (.unownedBlock call address)

/-- What the caller of a raw manager promises and nobody else checks: the address is that of a
live block of the manager, and `size` is its size. -/
def checkPromise (manager : Manager) (address : Nat) (size : Option Nat) :
    Action Process Unit := do
  unless (← manager.ledger).isTracked do
    match (← get).heap.find? address with
    | some block =>
      unless block.owner = some manager.id ∧ size.all (· = block.size) do
        throw (.refused .undefinedUnderRaw)
    | none => throw (.refused .undefinedUnderRaw)

def whenTracked (manager : Manager) (x : Action Process Unit) : Action Process Unit := do
  if (← manager.ledger).isTracked then x

def enter (manager : Manager) (entry : Ledger → Ledger × Option Fault) : Action Process Unit := do
  let (ledger, fault?) := entry (← manager.ledger)
  manager.setLedger ledger
  match fault? with
  | none => return
  | some fault => Action.stop fault

/-- Writes the header of a block that was obtained for the payload, and answers the address of the
payload. -/
def finishBlock (base : Nat) (payload : Layout) : Action Process Nat := do
  let address := base + headerOffset payload.align
  match (← get).heap.find? address with
  | some _ =>
    Process.updateHeap fun heap => heap.writeHeader address payload
    return address
  | none => throw (.refused .outsideBlock)

def readHeader (address : Nat) : Action Process Layout := do
  match (← get).heap.find? address with
  | some block => return block.header
  | none => throw (.refused .deadBlock)

def place (payload whole : Layout) : Action Process Nat := do
  match ← System.allocate whole with
  | none =>
    Process.log .error .manager fun _ => s!"system allocator failed for {payload.size} bytes"
    Action.fail (.outOfMemory payload.size)
  | some base => finishBlock base payload

def allocate (manager : Manager) (payload : Layout) : Action Process Nat := do
  Action.require (isPowerOfTwo payload.align) (.invalidAlignment payload.align)
  manager.whenTracked (manager.checkBudget 0 payload.size)
  let whole ← payload.framed
  let address ← place payload whole
  manager.whenTracked (manager.enter fun ledger => ledger.acquire address payload.size)
  Process.updateHeap fun heap => heap.give address manager.id
  return address

/-- Checks that a block may be resized: a tracked manager looks it up, a raw one relies on the
caller. -/
def checkResize (manager : Manager) (address oldSize newSize : Nat) : Action Process Unit := do
  if (← manager.ledger).isTracked then
    let recorded ← manager.recordedSize .reallocate address
    unless recorded = oldSize do Action.stop (.sizeMismatch recorded oldSize)
    manager.checkBudget oldSize newSize
  else manager.checkPromise address (some oldSize)

def relocate (address : Nat) (whole payload newWhole : Layout) : Action Process Nat := do
  match ← System.reallocate (address - headerOffset payload.align) whole newWhole.size with
  | none =>
    Process.log .error .manager fun _ =>
      s!"system allocator failed to grow block to {payload.size} bytes"
    Action.fail (.outOfMemory payload.size)
  | some base => finishBlock base payload

/-- Resizes a block, keeping its alignment and the bytes that fit, and answers its new address. On
failure the block stays as it is. -/
def reallocate (manager : Manager) (address oldSize newSize : Nat) : Action Process Nat := do
  manager.checkResize address oldSize newSize
  let { align, .. } ← readHeader address
  let whole ← Layout.framed { size := oldSize, align }
  let newWhole ← Layout.framed { size := newSize, align }
  let newAddress ← relocate address whole { size := newSize, align } newWhole
  manager.whenTracked
    (manager.enter fun ledger => ledger.move address oldSize newAddress newSize)
  return newAddress

/-- Strikes a block out: a tracked manager looks it up, a raw one relies on the caller. -/
def strikeOut (manager : Manager) (address : Nat) : Action Process Unit := do
  if (← manager.ledger).isTracked then
    let size ← manager.recordedSize .free address
    manager.enter fun ledger => ledger.release address size
  else manager.checkPromise address none

/-- Gives a block back to the system, with the layout that its header tells. -/
def giveBack (address : Nat) : Action Process Unit := do
  let payload ← readHeader address
  System.deallocate (address - headerOffset payload.align) payload.whole

def free (manager : Manager) (address : Nat) : Action Process Unit := do
  manager.strikeOut address
  giveBack address

def allocateArray (manager : Manager) (element : Layout) (count : Nat) : Action Process Nat := do
  let bytes ← element.arrayBytes count
  manager.allocate { size := bytes, align := element.align }

/-- Resizes an array of elements. The old count is the one that the array was given last. -/
def reallocateArray (manager : Manager) (address : Nat) (element : Layout)
    (oldCount newCount : Nat) : Action Process Nat := do
  manager.checkPromise address (some (element.size * oldCount))
  let oldBytes ← element.arrayBytes oldCount
  let newBytes ← element.arrayBytes newCount
  manager.reallocate address oldBytes newBytes

end Manager

end SymbolStore
