import SymbolStore.Proofs.Region.Resolve
import SymbolStore.Proofs.Session.Blocks
import SymbolStore.Proofs.Session.Creation
import SymbolStore.Proofs.Session.Symbols

/-! Every request does what it should. -/

namespace SymbolStore

open SymbolStore.Action (Ends)

namespace Session

variable {K V : Type} {session : Session K V} {direct : Multiset Extent}

section Requests

variable (settled : session.Settled direct)
include settled

theorem fulfils_resizeArray {name : String} {length : Nat} {value : List UInt8}
    (counted : ∀ array, session.arrays[name]? = some array →
      array.Counted session.process length value) :
    session.Fulfils direct (.resizeArray name length value) := by
  have stepping (array : FlatArray) (named : session.arrays[name]? = some array) :
      session.Stepping .array (FlatArray.resize length value) array (fun _ _ => True)
        fun _ _ => True :=
    stepping_resize (manager_mem_holders (find?_array named)) (counted array named)
  exact ((onArray_acts settled stepping).answers _).fulfils rfl rfl fun _ => rfl

theorem fulfils_storeBytes (region : String) (bytes : List UInt8) (name : Option String) :
    session.Fulfils direct (.storeBytes region bytes name) := by
  rw [Fulfils, perform, Action.ends_bind]
  apply Ends.mono (onRegion_acts settled fun _ named =>
    stepping_storeBytes bytes (manager_mem_holders (find?_region named)))
  · intro handle later ends
    cases name with
    | none => exact ends.1
    | some name => exact ends.1.renamed later.blocks _
  · intro failure later spares
    exact ⟨fun _ => spares.1, spares.2.1⟩

theorem fulfils_resolveHandle (region handle : String) :
    session.Fulfils direct (.resolveHandle region handle) := by
  simp only [Fulfils, perform, Session.handle, Action.ends_bind, ends_current, ends_named]
  cases session.regions[region]? with
  | none => exact ⟨fun _ => rfl, settled.follows _⟩
  | some region =>
      cases session.handles[handle]? with
      | none => exact ⟨fun _ => rfl, settled.follows _⟩
      | some handle =>
          dsimp only
          cases resolved : region.resolve session.process.heap handle with
          | ok bytes => exact settled.follows _
          | error failure =>
              exact ⟨fun _ => Region.isMisuse_resolve resolved, settled.follows _⟩

theorem fulfils_createRegion (name : String) (source : Option String) (chunkSize : Nat) :
    session.Fulfils direct (.createRegion name source chunkSize) :=
  fulfils_of_done (settled.creates (region_builds chunkSize) (fun _ => rfl) (nameRegion_eq name)
    source) fun _ => rfl

end Requests

theorem Settled.fulfils (settled : session.Settled direct) {command : Command K V}
    (proper : session.Proper command) : session.Fulfils direct command := by
  cases command with
  | createManager name config => exact fulfils_createManager settled name config
  | shareManager name source => exact fulfils_shareManager settled name source
  | dropManager name =>
      exact settled.drops (perform_drop (.manager name)) rfl fun _ => rfl
  | allocate source name payload => exact fulfils_allocate settled source name payload
  | allocateArray source name element count =>
      exact fulfils_allocateArray settled source name element count
  | reallocate => exact fulfils_reallocate settled proper
  | reallocateArray => exact fulfils_reallocateArray settled proper
  | free => exact fulfils_free settled proper
  | writeBlock => exact fulfils_writeBlock settled proper
  | readBlock source name => exact fulfils_readBlock settled source name
  | createArray name source element length value =>
      exact fulfils_of_done (settled.creates (array_builds element length value) (fun _ => rfl)
        (nameArray_eq name) source) fun _ => rfl
  | resizeArray =>
      exact fulfils_resizeArray settled fun _ named _ _ =>
        proper.countable _ (congrArg (Option.map FlatArray.manager) named)
  | fillArray name value =>
      exact ((onArray_acts settled fun _ _ => stepping_fill).answers _).fulfils rfl rfl fun _ => rfl
  | setElement name index value =>
      exact ((onArray_acts settled fun _ _ => stepping_set).answers _).fulfils rfl rfl fun _ => rfl
  | getElement name index =>
      exact ((onArray_acts settled fun _ _ => stepping_get).answers _).fulfils rfl rfl fun _ => rfl
  | readArray name =>
      exact (onArray_acts settled fun array _ => stepping_tells (.array (.refl array))
        fun array heap => Answer.elements (array.toList heap)).fulfils rfl rfl fun _ => rfl
  | dropArray name => exact settled.drops (perform_drop (.array name)) rfl fun _ => rfl
  | createRegion name source chunkSize => exact fulfils_createRegion settled name source chunkSize
  | storeRange region range content => 
      exact ((onRegion_acts settled fun _ named => stepping_store range content
        (manager_mem_holders (find?_region named))).answers _).fulfils rfl rfl fun _ => rfl
  | storeBytes region bytes name => exact fulfils_storeBytes settled region bytes name
  | resolveHandle region handle => exact fulfils_resolveHandle settled region handle
  | resetRegion region =>
      exact ((onRegion_acts settled fun _ _ => stepping_reset).answers _).fulfils rfl rfl
        fun _ => rfl
  | dropRegion name => exact settled.drops (perform_drop (.region name)) rfl fun _ => rfl
  | createInterner name source capacity value hasher =>
      exact fulfils_of_done (settled.creates (interner_builds capacity value hasher) (fun _ => rfl)
        (nameInterner_eq name) source) fun _ => rfl
  | insert interner content value name => exact fulfils_insert settled interner content value name
  | intern interner text default name => exact fulfils_intern settled interner text default name
  | lookup interner content name => exact fulfils_lookup settled interner content name
  | valueFor interner content =>
      exact (onInterner_acts settled fun _ _ => stepping_valueFor content).fulfils rfl rfl
        fun _ => rfl
  | contains interner content =>
      exact (onInterner_acts settled fun _ _ => stepping_contains content).fulfils rfl rfl
        fun _ => rfl
  | valueOf interner symbol =>
      exact (tells_acts settled interner symbol fun interner heap symbol =>
        Answer.bytes (interner.valueOf heap symbol)).fulfils rfl rfl fun _ => rfl
  | setValue interner symbol value =>
      exact (setValue_acts settled interner symbol value).fulfils rfl rfl fun _ => rfl
  | bytesOf interner symbol =>
      exact (tells_acts settled interner symbol fun interner heap symbol =>
        Answer.bytes (interner.bytesOf heap symbol)).fulfils rfl rfl fun _ => rfl
  | textOf interner symbol =>
      exact (tells_acts settled interner symbol fun interner heap symbol =>
        Answer.text (interner.textOf heap symbol)).fulfils rfl rfl fun _ => rfl
  | listInterner interner =>
      exact (onInterner_acts settled fun interner _ => stepping_tells (.interner (.refl interner))
        fun interner heap => Answer.interned (interner.toList heap)).fulfils rfl rfl fun _ => rfl
  | nameEntry interner index name => exact fulfils_nameEntry settled interner index name
  | clearInterner interner =>
      exact ((onInterner_acts settled fun _ _ => stepping_clear).answers _).fulfils rfl rfl
        fun _ => rfl
  | dropInterner name => exact settled.drops (perform_drop (.interner name)) rfl fun _ => rfl
  | createDictionary name source capacity rule node =>
      exact fulfils_of_done (settled.creates (dictionary_builds capacity rule node) (fun _ => rfl)
        (nameDictionary_eq name) source) fun _ => rfl
  | setKey dictionary key value =>
      exact ((onDictionary_acts settled fun _ named => stepping_setKey key value
        (manager_mem_holders (find?_dictionary named))).answers _).fulfils rfl rfl fun _ => rfl
  | getKey dictionary key =>
      exact (onDictionary_acts settled fun _ _ => stepping_getKey key).fulfils rfl rfl fun _ => rfl
  | modifyKey dictionary key f =>
      exact ((onDictionary_acts settled fun _ _ => stepping_modifyKey key f).answers _).fulfils rfl
        rfl fun _ => rfl
  | hasKey dictionary key =>
      exact (onDictionary_acts settled fun _ _ => stepping_hasKey key).fulfils rfl rfl fun _ => rfl
  | removeKey dictionary key =>
      exact ((onDictionary_acts settled fun _ _ => stepping_removeKey key).answers _).fulfils rfl
        rfl fun _ => rfl
  | deleteKey dictionary key =>
      exact ((onDictionary_acts settled fun _ _ => stepping_deleteKey key).answers _).fulfils rfl
        rfl fun _ => rfl
  | listDictionary dictionary =>
      exact (onDictionary_acts settled fun _ _ => stepping_listDictionary).fulfils rfl rfl
        fun _ => rfl
  | clearDictionary dictionary =>
      exact ((onDictionary_acts settled fun _ _ => stepping_clearDictionary).answers _).fulfils rfl
        rfl fun _ => rfl
  | dropDictionary name => exact settled.drops (perform_drop (.dictionary name)) rfl fun _ => rfl

end Session

end SymbolStore
