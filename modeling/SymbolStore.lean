import SymbolStore.Session.Command
import SymbolStore.Memory.Scalar
import SymbolStore.Proofs.Dictionary.Run
import SymbolStore.Proofs.Interner.Run
import SymbolStore.Proofs.Region.Run
import SymbolStore.Proofs.Bucket.Stocked
import SymbolStore.Proofs.Dictionary.Stocked
import SymbolStore.Proofs.Interner.Stocked
import SymbolStore.Proofs.Interner.Values
import SymbolStore.Proofs.Interner.Final
import SymbolStore.Proofs.Interner.Hashers
import SymbolStore.Proofs.Memory.FlatArray
import SymbolStore.Proofs.Memory.Books
import SymbolStore.Proofs.Memory.Run
import SymbolStore.Proofs.Region.Resolve
import SymbolStore.Proofs.Session.Arranged
import SymbolStore.Proofs.Session.Balance
import SymbolStore.Proofs.Session.Handles
import SymbolStore.Proofs.Session.Identity
import SymbolStore.Proofs.Session.Raw
import SymbolStore.Proofs.Session.Separate
import SymbolStore.Proofs.Region.Epoch
import SymbolStore.Proofs.Region.Failing
import SymbolStore.Proofs.Session.Levels
import SymbolStore.Proofs.Interner.Refill
import SymbolStore.Proofs.Interner.Failing
import SymbolStore.Proofs.Memory.Counted
import SymbolStore.Proofs.Memory.Events
import SymbolStore.Proofs.Session.Counts
import SymbolStore.Proofs.Dictionary.Failing
import SymbolStore.Proofs.Bucket.Specification
import SymbolStore.Proofs.Dictionary.Growth
import SymbolStore.Proofs.Dictionary.Emptying
import SymbolStore.Proofs.Memory.Contents
import SymbolStore.Proofs.Region.Fresh
import SymbolStore.Proofs.Session.Constructors
import SymbolStore.Proofs.Memory.Elements
import SymbolStore.Proofs.Session.Arrays
import SymbolStore.Proofs.Digest
import SymbolStore.Proofs.Config
import SymbolStore.Proofs.Memory.Reports
import SymbolStore.Proofs.Journal.Run
import SymbolStore.Proofs.Bucket.Insertion
import SymbolStore.Proofs.Interner.LastGeneration
