import EntityStore.Conninfo
import EntityStore.Engine.Call
import EntityStore.Engine.Each
import EntityStore.IdArray
import EntityStore.Settings.Start
import EntityStore.Cascade.Walk
import EntityStore.Proofs.Cascade.Traversal
import EntityStore.Proofs.Cascade.RemovalSet
import EntityStore.Proofs.Cascade.Roots
import EntityStore.Proofs.Check.Accepted
import EntityStore.Engine.History
import EntityStore.Proofs.Store.Apply
import EntityStore.Proofs.Store.Cursor
import EntityStore.Store.Writers
import EntityStore.Proofs.Engine.Removal
import EntityStore.Proofs.Engine.Change
import EntityStore.Proofs.Engine.Writing
import EntityStore.Proofs.Engine.Failing
import EntityStore.Engine.Turns
import EntityStore.Proofs.Engine.Recycling
import EntityStore.Proofs.Invariant.Resolved
import EntityStore.Proofs.Check.Fixed
import EntityStore.Proofs.Invariant.Typing
import EntityStore.Proofs.Rules.Frame
import EntityStore.Proofs.Rules.ListUse
import EntityStore.Proofs.Invariant.Listed
import EntityStore.Proofs.Row.Reading
import EntityStore.Proofs.Store.Tables
import EntityStore.Proofs.Snapshot.Loading
import EntityStore.Proofs.Engine.InStep
import EntityStore.Proofs.Check.Keys
import EntityStore.Proofs.Invariant.Keys
import EntityStore.Proofs.Invariant.Methods
import EntityStore.Proofs.Engine.Settling
import EntityStore.Proofs.Engine.RemoveCall
import EntityStore.Proofs.Engine.Ready
import EntityStore.Proofs.Engine.Batching
import EntityStore.Proofs.Engine.Scope
import EntityStore.Proofs.Engine.Undo
import EntityStore.Proofs.Store.Writers
import EntityStore.Proofs.Check.Continued
import EntityStore.Proofs.Check.Modes
import EntityStore.Proofs.Engine.Modes
import EntityStore.Proofs.Rules.Collision
import EntityStore.Proofs.Check.PlainTable
import EntityStore.Proofs.Check.Replaced
import EntityStore.Proofs.Check.NamesOrIds
import EntityStore.Proofs.Check.Resubmission
import EntityStore.Proofs.Check.Touched
import EntityStore.Proofs.Check.Siblings
import EntityStore.Proofs.Engine.Kept
import EntityStore.Proofs.Engine.Bookkeeping
import EntityStore.Proofs.Store.Requests
import EntityStore.Proofs.Engine.Numbering
import EntityStore.Proofs.Check.DerivedNames
import EntityStore.Proofs.Check.UnknownFields
import EntityStore.Proofs.Store.Atomicity
import EntityStore.Proofs.Conninfo
import EntityStore.Proofs.Settings.Port
import EntityStore.Proofs.IdArray
import EntityStore.Proofs.Snapshot.Canonical
