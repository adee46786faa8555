/-
Readers on readers.

A stack says what the source of the tokens is and which readers stand on it, each on the one before.
It can be read token by token (`Stack.build`), or be taken for the stream of all that it gives
(`Stack.toStream`).
-/
import PersistenceMapping.Dialect.Entity
import PersistenceMapping.Dialect.Hierarchical
import PersistenceMapping.Markup.Source

namespace PersistenceMapping

universe u

/-! ### Scripts -/

/-- What a reader can be asked to do. -/
inductive Call where
  | next
  | peek
  deriving DecidableEq, Repr

namespace TokenReader

variable {σ : Type u} [TokenReader σ]

/-- Does what is asked. -/
def answer (r : σ) : Call → Pull × σ
  | .next => TokenSource.next r
  | .peek => TokenReader.peek r

/-- What comes of one call after the other, and the reader after the last. -/
def play (r : σ) : List Call → List Pull × σ
  | [] => ([], r)
  | call :: calls =>
    let (pull, r) := answer r call
    let (pulls, r) := play r calls
    (pull :: pulls, r)

end TokenReader

/-! ### Stacks -/

/-- A reader of some kind. -/
structure AnyReader where
  State : Type
  isReader : TokenReader State
  state : State

namespace AnyReader

attribute [instance] isReader

/-- A reader, whatever kind it is of. -/
def of {σ : Type} [TokenReader σ] (state : σ) : AnyReader :=
  { State := σ, isReader := inferInstance, state }

/-- What comes of one call after the other. -/
def play (r : AnyReader) (calls : List Call) : List Pull :=
  (TokenReader.play r.state calls).1

/-- A reader of hierarchical documents on another. -/
def hierarchical (r : AnyReader) : AnyReader :=
  .of { source := { inner := r.state : Dialect.Hierarchical.Source r.State } : Buffered _ }

/-- A reader of entity documents on another. -/
def entity (versions : List String) (r : AnyReader) : AnyReader :=
  .of { source := { inner := r.state, versions : Dialect.Entity.Source r.State } : Buffered _ }

/-- A reader that opens with a document start, on another. -/
def opened (r : AnyReader) : Except TokenError AnyReader :=
  match TokenReader.opened r.state with
  | .ok r => .ok (.of r)
  | .error e => .error e

end AnyReader

/-- A source and the readers that stand on it. -/
inductive Stack where
  /-- What is in memory already. -/
  | stream (s : TokenStream)
  /-- A byte document, and why its source fails after it if it does. -/
  | bytes (content : List UInt8) (failure : Option String)
  | hierarchical (below : Stack)
  | entity (versions : List String) (below : Stack)
  | opened (below : Stack)
  deriving Repr

namespace Stack

/-- The reader on top.  A stack cannot be built where the first token has to be looked at and there
is a failure instead. -/
def build : Stack → Except TokenError AnyReader
  | .stream s => .ok (.of s)
  | .bytes content failure =>
    .ok (.of { source := Markup.Source.ofBytes content failure : Buffered _ })
  | .hierarchical below => below.build.map AnyReader.hierarchical
  | .entity versions below => below.build.map (AnyReader.entity versions)
  | .opened below => below.build.bind AnyReader.opened

/-- All that a stack gives, as one stream. -/
def toStream : Stack → Except TokenError TokenStream
  | .stream s => .ok s
  | .bytes content failure => .ok (.ofBytes content failure)
  | .hierarchical below => below.toStream.map Dialect.Hierarchical.normalize
  | .entity versions below => below.toStream.map (Dialect.Entity.normalize versions)
  | .opened below => below.toStream.bind fun s => s.opened.map Opened.stream

end Stack

end PersistenceMapping
