import SymbolStore.Session.Basic

/-! What a client can ask of a session, and the answers. -/

namespace SymbolStore

/-- A request. Objects are created under a name and then called by it. -/
inductive Command (K V : Type)
  | createManager (name : String) (config : Config)
  | shareManager (name source : String)
  | dropManager (name : String)
  | allocate (manager name : String) (payload : Layout)
  | allocateArray (manager name : String) (element : Layout) (count : Nat)
  | reallocate (manager name : String) (oldSize newSize : Nat)
  | reallocateArray (manager name : String) (element : Layout) (oldCount newCount : Nat)
  | free (manager name : String)
  | writeBlock (name : String) (offset : Nat) (values : List UInt8)
  | readBlock (manager name : String)
  | createArray (name manager : String) (element : Layout) (length : Nat) (value : List UInt8)
  | resizeArray (name : String) (length : Nat) (value : List UInt8)
  | fillArray (name : String) (value : List UInt8)
  | setElement (name : String) (index : Nat) (value : List UInt8)
  | getElement (name : String) (index : Nat)
  | readArray (name : String)
  | dropArray (name : String)
  | createRegion (name : String) (manager : Option String) (chunkSize : Nat)
  | storeRange (region : String) (range : Layout) (content : Nat → UInt8)
  | storeBytes (region : String) (bytes : List UInt8) (handle : Option String)
  | resolveHandle (region handle : String)
  | resetRegion (region : String)
  | dropRegion (region : String)
  | createInterner (name : String) (manager : Option String) (capacity : Nat) (value : Layout)
      (hasher : List UInt8 → UInt64)
  | insert (interner : String) (content value : List UInt8) (symbol : Option String)
  | intern (interner text : String) (default : List UInt8) (symbol : Option String)
  | lookup (interner : String) (content : List UInt8) (symbol : Option String)
  | valueFor (interner : String) (content : List UInt8)
  | contains (interner : String) (content : List UInt8)
  | valueOf (interner symbol : String)
  | setValue (interner symbol : String) (value : List UInt8)
  | bytesOf (interner symbol : String)
  | textOf (interner symbol : String)
  | listInterner (interner : String)
  | nameEntry (interner : String) (index : Nat) (symbol : Option String)
  | clearInterner (interner : String)
  | dropInterner (interner : String)
  | createDictionary (name : String) (manager : Option String) (capacity : Nat)
      (rule : KeyRule K) (node : Layout)
  | setKey (dictionary : String) (key : K) (value : V)
  | getKey (dictionary : String) (key : K)
  | modifyKey (dictionary : String) (key : K) (f : V → V)
  | hasKey (dictionary : String) (key : K)
  | removeKey (dictionary : String) (key : K)
  | deleteKey (dictionary : String) (key : K)
  | listDictionary (dictionary : String)
  | clearDictionary (dictionary : String)
  | dropDictionary (dictionary : String)

inductive Answer (K V : Type)
  | done
  | truth (answer : Bool)
  | number (answer : Nat)
  | address (answer : Nat)
  | pointer (answer : Pointer)
  | bytes (answer : Option (List UInt8))
  | text (answer : Option String)
  | elements (answer : List (List UInt8))
  | handle (answer : Region.Handle)
  | inserted (isNew : Bool)
  | interned (answer : List (Symbol × List UInt8 × List UInt8))
  | value (answer : Option V)
  | entries (answer : List (K × V))

namespace Session

variable {K V : Type}

def drop {α : Type} (objects : Session K V → Names α)
    (restore : Names α → Session K V → Session K V) (discard : α → Action Process Unit)
    (name : String) : Action (Session K V) (Answer K V) := do
  let earlier := (objects (← current))[name]?
  update fun session => restore ((objects session).erase name) session
  retire discard earlier
  return .truth earlier.isSome

def entryAt (index : Nat) : Method Interner (Option (Symbol × List UInt8)) := do
  let entries := (← Method.self).toList (← Method.heap)
  return (entries[index]?).map fun (symbol, bytes, _) => (symbol, bytes)

def perform : Command K V → Action (Session K V) (Answer K V)
  | .createManager name config => do
    nameManager name (← Manager.create config)
    return .done
  | .shareManager name source => do
    let shared ← manager source
    shared.retain
    nameManager name shared
    return .done
  | .dropManager name =>
    drop Session.managers (fun managers session => { session with managers }) Manager.release name
  | .allocate source name payload => do
    let address ← (← manager source).allocate payload
    nameBlock name address
    return .address address
  | .allocateArray source name element count => do
    let address ← (← manager source).allocateArray element count
    nameBlock name address
    return .address address
  | .reallocate source name oldSize newSize => do
    let source ← manager source
    let address ← source.reallocate (← block name) oldSize newSize
    nameBlock name address
    return .address address
  | .reallocateArray source name element oldCount newCount => do
    let source ← manager source
    let address ← source.reallocateArray (← block name) element oldCount newCount
    nameBlock name address
    return .address address
  | .free source name => do
    let source ← manager source
    source.free (← block name)
    return .done
  | .writeBlock name offset values => do
    let address ← block name
    match (← current).process.heap.find? address with
    | some _ =>
      Process.store { block := address, offset } values
      return .done
    | none => throw (.refused .deadBlock)
  | .readBlock source name => do
    let _ ← manager source
    let address ← block name
    let heap := (← current).process.heap
    match heap.find? address with
    | some block => return .bytes (some (block.read 0 block.size))
    | none => throw (.refused .deadBlock)
  | .createArray name source element length value => do
    nameArray name (← building (some source) fun manager =>
      FlatArray.create manager element length value)
    return .done
  | .resizeArray name length value => do
    onArray name (FlatArray.resize length value)
    return .number length
  | .fillArray name value => do
    onArray name (FlatArray.fill value)
    return .done
  | .setElement name index value => do
    onArray name (FlatArray.set index value)
    return .done
  | .getElement name index => do
    return .bytes (some (← onArray name (FlatArray.get index)))
  | .readArray name => onArray name do
    return .elements ((← Method.self).toList (← Method.heap))
  | .dropArray name =>
    drop Session.arrays (fun arrays session => { session with arrays }) FlatArray.discard name
  | .createRegion name source chunkSize => do
    nameRegion name (← building source fun manager => Region.create manager chunkSize)
    return .done
  | .storeRange region range content => do
    return .pointer (← onRegion region (Region.store range content))
  | .storeBytes region bytes name => do
    let handle ← onRegion region (Region.storeBytes bytes)
    nameHandle name handle
    return .handle handle
  | .resolveHandle name handleName => do
    let region ← named (← current).regions name
    match region.resolve (← current).process.heap (← handle handleName) with
    | .ok bytes => return .bytes (some bytes)
    | .error failure => throw failure
  | .resetRegion region => do
    onRegion region Region.reset
    return .done
  | .dropRegion name =>
    drop Session.regions (fun regions session => { session with regions }) Region.discard name
  | .createInterner name source capacity value hasher => do
    nameInterner name (← building source fun manager =>
      Interner.create manager capacity value hasher)
    return .done
  | .insert interner content value name => do
    let (symbol, isNew) ← onInterner interner (Interner.insert content value)
    nameSymbol name symbol
    return .inserted isNew
  | .intern interner text default name => do
    nameSymbol name (← onInterner interner (Interner.intern text default))
    return .done
  | .lookup interner content name => do
    let found ← onInterner interner do
      let interner ← Method.self
      let heap ← Method.heap
      let found ← interner.lookup heap content
      return found.map fun symbol => (symbol, interner.bytesOf heap symbol)
    match found with
    | some (symbol, bytes) =>
      nameSymbol name symbol
      return .bytes bytes
    | none => return .bytes none
  | .valueFor interner content => onInterner interner do
    return .bytes (← (← Method.self).get (← Method.heap) content)
  | .contains interner content => onInterner interner do
    return .truth (← (← Method.self).contains (← Method.heap) content)
  | .valueOf interner name => do
    let _ ← named (← current).interners interner
    let symbol ← symbol name
    onInterner interner do return .bytes ((← Method.self).valueOf (← Method.heap) symbol)
  | .setValue interner name value => do
    let _ ← named (← current).interners interner
    return .truth (← onInterner interner (Interner.setValue (← symbol name) value))
  | .bytesOf interner name => do
    let _ ← named (← current).interners interner
    let symbol ← symbol name
    onInterner interner do return .bytes ((← Method.self).bytesOf (← Method.heap) symbol)
  | .textOf interner name => do
    let _ ← named (← current).interners interner
    let symbol ← symbol name
    onInterner interner do return .text ((← Method.self).textOf (← Method.heap) symbol)
  | .listInterner interner => onInterner interner do
    return .interned ((← Method.self).toList (← Method.heap))
  | .nameEntry interner index name => do
    match ← onInterner interner (entryAt index) with
    | some (symbol, bytes) =>
      nameSymbol name symbol
      return .bytes (some bytes)
    | none => return .bytes none
  | .clearInterner interner => do
    onInterner interner Interner.clear
    return .done
  | .dropInterner name =>
    drop Session.interners (fun interners session => { session with interners })
      Interner.discard name
  | .createDictionary name source capacity rule node => do
    nameDictionary name (← building source fun manager =>
      Dictionary.create manager capacity rule node)
    return .done
  | .setKey dictionary key value => do
    return .value (← onDictionary dictionary (Dictionary.set key value))
  | .getKey dictionary key => onDictionary dictionary do
    return .value (← (← Method.self).get key)
  | .modifyKey dictionary key f => do
    return .value (← onDictionary dictionary (Dictionary.modify key f))
  | .hasKey dictionary key => onDictionary dictionary do
    return .truth (← (← Method.self).contains key)
  | .removeKey dictionary key => do
    return .value (← onDictionary dictionary (Dictionary.remove key))
  | .deleteKey dictionary key => do
    return .truth (← onDictionary dictionary (Dictionary.delete key))
  | .listDictionary dictionary => onDictionary dictionary do
    return .entries (← Method.self).toList
  | .clearDictionary dictionary => do
    onDictionary dictionary Dictionary.clear
    return .done
  | .dropDictionary name =>
    drop Session.dictionaries (fun dictionaries session => { session with dictionaries })
      Dictionary.discard name

/-- Carries requests out one after the other, whatever becomes of each, and lists the outcomes. -/
def performAll (session : Session K V) :
    List (Command K V) → List (Except Failure (Answer K V)) × Session K V
  | [] => ([], session)
  | command :: commands =>
    let (outcome, next) := (perform command).runFrom session
    let (outcomes, last) := performAll next commands
    (outcome :: outcomes, last)

end Session

end SymbolStore
