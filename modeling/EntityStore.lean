import EntityStore.Builder.Basic
import EntityStore.Builder.Create
import EntityStore.Builder.Delete
import EntityStore.Builder.Exist
import EntityStore.Builder.Links
import EntityStore.Builder.Prepared
import EntityStore.Builder.Query
import EntityStore.Builder.Update
import EntityStore.Calendar.Basic
import EntityStore.Calendar.Reader
import EntityStore.Calendar.Text
import EntityStore.Config.Basic
import EntityStore.Config.Reader
import EntityStore.Database.Basic
import EntityStore.Database.Dynamic
import EntityStore.Database.PublicError
import EntityStore.Database.Session
import EntityStore.Database.Shared
import EntityStore.Datum.Basic
import EntityStore.Datum.Engine
import EntityStore.Datum.Error
import EntityStore.Datum.Filter
import EntityStore.Datum.Migration
import EntityStore.Datum.Model
import EntityStore.Datum.Statement
import EntityStore.Datum.Trail
import EntityStore.Datum.Value
import EntityStore.Decimal.Double
import EntityStore.Decimal.Notation
import EntityStore.Decimal.Shortest
import EntityStore.Engine.Assoc
import EntityStore.Engine.Event
import EntityStore.Engine.Provider
import EntityStore.Engine.Script
import EntityStore.Engine.State
import EntityStore.Entity.Basic
import EntityStore.Entity.Record
import EntityStore.Error.Basic
import EntityStore.Error.Cause
import EntityStore.Error.Class
import EntityStore.Filter.Group
import EntityStore.Filter.Join
import EntityStore.Filter.Resolve
import EntityStore.Manager.Admission
import EntityStore.Manager.Basic
import EntityStore.Manager.Hooks
import EntityStore.Manager.Request
import EntityStore.Manager.Rules
import EntityStore.Migration.Fixed
import EntityStore.Migration.Plan
import EntityStore.Migration.Provider
import EntityStore.Migration.Run
import EntityStore.Migration.Statements
import EntityStore.Model.Catalog
import EntityStore.Model.Column
import EntityStore.Model.Entity
import EntityStore.Model.Forest
import EntityStore.Outcome
import EntityStore.Predicate.Basic
import EntityStore.Predicate.Path
import EntityStore.Proofs.Calendar.Reading
import EntityStore.Proofs.Database.Dynamic
import EntityStore.Proofs.Database.Replies
import EntityStore.Proofs.Decimal.Rounding
import EntityStore.Proofs.Decimal.Shortest
import EntityStore.Proofs.Engine.Course
import EntityStore.Proofs.Engine.Deeds
import EntityStore.Proofs.Engine.Labour
import EntityStore.Proofs.Engine.Requests
import EntityStore.Proofs.Engine.Run
import EntityStore.Proofs.Filter.Growth
import EntityStore.Proofs.Filter.History
import EntityStore.Proofs.Filter.Instance
import EntityStore.Proofs.Filter.Keys
import EntityStore.Proofs.Filter.Meaning
import EntityStore.Proofs.Filter.Resolution
import EntityStore.Proofs.Filter.Shape
import EntityStore.Proofs.Filter.Trail
import EntityStore.Proofs.Manager.Fetching
import EntityStore.Proofs.Manager.Hearing
import EntityStore.Proofs.Manager.Telling
import EntityStore.Proofs.Migration.Agreement
import EntityStore.Proofs.Migration.Cancellation
import EntityStore.Proofs.Migration.Commitment
import EntityStore.Proofs.Migration.Conversation
import EntityStore.Proofs.Migration.Defaults
import EntityStore.Proofs.Migration.Fate
import EntityStore.Proofs.Migration.History
import EntityStore.Proofs.Migration.Home
import EntityStore.Proofs.Migration.Interleaving
import EntityStore.Proofs.Migration.Merging
import EntityStore.Proofs.Migration.Records
import EntityStore.Proofs.Migration.Statements
import EntityStore.Proofs.Model.Chain
import EntityStore.Proofs.Model.Forest
import EntityStore.Proofs.Model.Inheritance
import EntityStore.Proofs.Model.Walks
import EntityStore.Proofs.Query.Agreement
import EntityStore.Proofs.Query.Counting
import EntityStore.Proofs.Query.Entities
import EntityStore.Proofs.Query.Parts
import EntityStore.Proofs.Query.Referencing
import EntityStore.Proofs.Query.Refusals
import EntityStore.Proofs.Query.Relation
import EntityStore.Proofs.Query.Uniqueness
import EntityStore.Proofs.Query.Widening
import EntityStore.Proofs.Query.Written
import EntityStore.Proofs.Registry.Dispatch
import EntityStore.Proofs.Registry.Naming
import EntityStore.Proofs.Registry.Registration
import EntityStore.Proofs.Removal.CascadeClosure
import EntityStore.Proofs.Removal.Closure
import EntityStore.Proofs.Removal.Content
import EntityStore.Proofs.Removal.Descent
import EntityStore.Proofs.Removal.Interpretation
import EntityStore.Proofs.Removal.Phases
import EntityStore.Proofs.Removal.Reader
import EntityStore.Proofs.Removal.Registered
import EntityStore.Proofs.Removal.Settled
import EntityStore.Proofs.Removal.Tables
import EntityStore.Proofs.Schema.Alterations
import EntityStore.Proofs.Schema.Completion
import EntityStore.Proofs.Schema.Constraints
import EntityStore.Proofs.Schema.Definitions
import EntityStore.Proofs.Schema.Order
import EntityStore.Proofs.Sql.Alignment
import EntityStore.Proofs.Sql.Binding
import EntityStore.Proofs.Sql.Casefold
import EntityStore.Proofs.Sql.Constants
import EntityStore.Proofs.Sql.Decoding
import EntityStore.Proofs.Sql.Evaluation
import EntityStore.Proofs.Sql.Grammar
import EntityStore.Proofs.Sql.Independence
import EntityStore.Proofs.Sql.Inline
import EntityStore.Proofs.Sql.Lexemes
import EntityStore.Proofs.Sql.Literals
import EntityStore.Proofs.Sql.Marks
import EntityStore.Proofs.Sql.Patterns
import EntityStore.Proofs.Sql.Placement
import EntityStore.Proofs.Sql.Prepared
import EntityStore.Proofs.Sql.Quotation
import EntityStore.Proofs.Sql.Reading
import EntityStore.Proofs.Sql.Recovery
import EntityStore.Proofs.Sql.Rendering
import EntityStore.Proofs.Sql.Scope
import EntityStore.Proofs.Sql.Spelling
import EntityStore.Proofs.Sql.Unambiguity
import EntityStore.Proofs.Sql.Words
import EntityStore.Proofs.Sql.Writing
import EntityStore.Proofs.Sqlite.Fields
import EntityStore.Proofs.Storing.Alike
import EntityStore.Proofs.Storing.Attempts
import EntityStore.Proofs.Storing.Bulk
import EntityStore.Proofs.Storing.Contents
import EntityStore.Proofs.Storing.Creation
import EntityStore.Proofs.Storing.LinkSets
import EntityStore.Proofs.Storing.Linking
import EntityStore.Proofs.Storing.Listed
import EntityStore.Proofs.Storing.Plan
import EntityStore.Proofs.Storing.Reader
import EntityStore.Proofs.Storing.Relations
import EntityStore.Proofs.Storing.Targets
import EntityStore.Proofs.Storing.Updating
import EntityStore.Proofs.Text.Runs
import EntityStore.Proofs.Transaction.Atomicity
import EntityStore.Proofs.Transaction.Coordination
import EntityStore.Proofs.Transaction.Participants
import EntityStore.Proofs.Transaction.Protocol
import EntityStore.Proofs.Transaction.Tally
import EntityStore.Proofs.Transaction.Twins
import EntityStore.Proofs.Transaction.UnitOfWork
import EntityStore.Proofs.Transaction.Work
import EntityStore.Registry.Basic
import EntityStore.Registry.Dispatcher
import EntityStore.Registry.Handlers
import EntityStore.Sql.Condition
import EntityStore.Sql.Definition
import EntityStore.Sql.Dialect
import EntityStore.Sql.Fragment
import EntityStore.Sql.Like
import EntityStore.Sql.Mutation
import EntityStore.Sql.Select
import EntityStore.Sql.Template
import EntityStore.Sqlite.Cell
import EntityStore.Sqlite.Connection
import EntityStore.Sqlite.KeyedTable
import EntityStore.Storage.Schema
import EntityStore.Storage.Statement
import EntityStore.Storage.Transaction
import EntityStore.Text.Blank
import EntityStore.Text.Printable
import EntityStore.Text.Quoted
import EntityStore.Toml.Basic
import EntityStore.Toml.Document
import EntityStore.Toml.Reader
import EntityStore.Value.Basic
import EntityStore.Value.Field
import EntityStore.Value.Row
