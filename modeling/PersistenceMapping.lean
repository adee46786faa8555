import PersistenceMapping.Generated
import PersistenceMapping.Mapping.Outline
import PersistenceMapping.Override.Registry
import PersistenceMapping.Override.Tables
import PersistenceMapping.Stack
import PersistenceMapping.Tree.Edit
import PersistenceMapping.Tree.Packed
import PersistenceMapping.Tree.Indexed
import PersistenceMapping.Proofs.Tree.Chain
import PersistenceMapping.Proofs.Tree.Links
import PersistenceMapping.Proofs.Tree.Interned
import PersistenceMapping.Proofs.Tree.Linked
import PersistenceMapping.Proofs.Tree.Descent
import PersistenceMapping.Proofs.Tree.Step
import PersistenceMapping.Proofs.Tree.Making
import PersistenceMapping.Proofs.Tree.Copy
import PersistenceMapping.Proofs.Tree.Reach
import PersistenceMapping.Proofs.Tree.Building
import PersistenceMapping.Proofs.Tree.Forest
import PersistenceMapping.Proofs.Schema.Compiled
import PersistenceMapping.Proofs.Schema.Language
import PersistenceMapping.Proofs.Schema.Validation
import PersistenceMapping.Proofs.Override.Registration
import PersistenceMapping.Proofs.Override.Registered
import PersistenceMapping.Proofs.Override.Declared
import PersistenceMapping.Proofs.Override.Tables
import PersistenceMapping.Proofs.Override.History
import PersistenceMapping.Proofs.Override.Layers
import PersistenceMapping.Proofs.Markup.Cutting
import PersistenceMapping.Proofs.Markup.Reading
import PersistenceMapping.Proofs.Markup.Layout
import PersistenceMapping.Proofs.Tree.Spelled
import PersistenceMapping.Proofs.Tree.Legible
import PersistenceMapping.Proofs.Tree.Contents
import PersistenceMapping.Proofs.Tree.Gained
import PersistenceMapping.Proofs.Tree.Built
import PersistenceMapping.Proofs.Markup.Streamed
import PersistenceMapping.Proofs.Tree.Body
import PersistenceMapping.Proofs.Tree.Nesting
import PersistenceMapping.Proofs.Tree.Repeated
import PersistenceMapping.Proofs.Tree.Emitted
import PersistenceMapping.Proofs.Tree.RoundTrip
import PersistenceMapping.Proofs.Text.Trimmed
import PersistenceMapping.Proofs.Token.Relaid
import PersistenceMapping.Proofs.Schema.Relaid
import PersistenceMapping.Proofs.Mapping.Trimmed
import PersistenceMapping.Proofs.Markup.Relaid
import PersistenceMapping.Proofs.Tree.Relaid
import PersistenceMapping.Proofs.Generated
import PersistenceMapping.Proofs.Schema.Leniency
import PersistenceMapping.Proofs.Dispatch
import PersistenceMapping.Proofs.Stack
import PersistenceMapping.Proofs.Token.Scoped
import PersistenceMapping.Proofs.Markup.Decoded
import PersistenceMapping.Proofs.Markup.Scoped
import PersistenceMapping.Proofs.Markup.Faultless
import PersistenceMapping.Proofs.Markup.AsWritten
import PersistenceMapping.Proofs.Tree.Taken
import PersistenceMapping.Proofs.Dialect.Reshaped
import PersistenceMapping.Proofs.Dialect.Hierarchical
import PersistenceMapping.Proofs.Dialect.Entity
import PersistenceMapping.Proofs.Rebound
import PersistenceMapping.Proofs.Override.DefaultListeners
import PersistenceMapping.Proofs.Tree.Documents
import PersistenceMapping.Proofs.Tree.Strict
import PersistenceMapping.Proofs.Strict
import PersistenceMapping.Proofs.Reread
import PersistenceMapping.Proofs.Override.Delivered
import PersistenceMapping.Proofs.Tree.Moved
import PersistenceMapping.Proofs.Tree.Copied
import PersistenceMapping.Proofs.Token.Matched
import PersistenceMapping.Proofs.Markup.Matched
import PersistenceMapping.Proofs.Matched
import PersistenceMapping.Proofs.Schema.Skipped
import PersistenceMapping.Proofs.Schema.Values
import PersistenceMapping.Proofs.Mapping.Alike
import PersistenceMapping.Proofs.Mapping.Congruence
import PersistenceMapping.Proofs.Schema.Malformed
import PersistenceMapping.Proofs.Schema.Written
import PersistenceMapping.Proofs.Mapping.Parts
import PersistenceMapping.Proofs.Mapping.Given
import PersistenceMapping.Proofs.Tree.Tagged
import PersistenceMapping.Proofs.Versions
import PersistenceMapping.Proofs.Mapping.Mirrored
import PersistenceMapping.Proofs.Schema.Permitted
import PersistenceMapping.Proofs.Mapping.Indexed
import PersistenceMapping.Proofs.Tree.Ancestry
import PersistenceMapping.Proofs.Namespaces
import PersistenceMapping.Proofs.Tree.Traversed
import PersistenceMapping.Proofs.Tree.Packed
import PersistenceMapping.Proofs.Tree.Operation
import PersistenceMapping.Proofs.Tree.Indexed
import PersistenceMapping.Proofs.Tree.Attained
import PersistenceMapping.Proofs.Tree.Refused
import PersistenceMapping.Proofs.Tree.Attributed
import PersistenceMapping.Proofs.Schema.Reached
import PersistenceMapping.Proofs.Schema.Closed
