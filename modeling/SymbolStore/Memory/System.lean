import SymbolStore.Process

/-! What a process asks of the system allocator, with the layouts that it asks with. -/

namespace SymbolStore

namespace System

def allocate (layout : Layout) : Action Process (Option Nat) := do
  let process ← get
  match process.allocator.place process.heap layout with
  | none => return none
  | some base =>
    Process.updateHeap fun heap => heap.insert (base + headerOffset layout.align) { layout }
    return some base

/-- The block at a base. It has to have been asked for with this layout. -/
def blockAt (base : Nat) (layout : Layout) : Action Process Block := do
  match (← get).heap.find? (base + headerOffset layout.align) with
  | some block => if block.layout = layout then return block else throw (.refused .wrongLayout)
  | none => throw (.refused .wrongLayout)

def reallocate (base : Nat) (layout : Layout) (size : Nat) : Action Process (Option Nat) := do
  let block ← blockAt base layout
  let process ← get
  match process.allocator.move process.heap base layout size with
  | none => return none
  | some newBase =>
    let offset := headerOffset layout.align
    Process.updateHeap fun heap =>
      (heap.erase (base + offset)).insert (newBase + offset) (block.stretch size)
    return some newBase

def deallocate (base : Nat) (layout : Layout) : Action Process Unit := do
  let _ ← blockAt base layout
  Process.updateHeap fun heap => heap.erase (base + headerOffset layout.align)

end System

end SymbolStore
