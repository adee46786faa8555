/-
The documents that there are, whatever the hash.

Where strings are filed depends on the hash of the pool, and so `Reachable` takes it for what it is
when a document is built from tokens.  Nothing else depends on it: here a document is built under
any hash, and is changed by any operation.  All these documents are well-formed.
-/
import PersistenceMapping.Proofs.Tree.Operation

namespace PersistenceMapping

namespace Document

/-- The document of a stream that opens with a document start, with another hash for its pool. -/
def ofStreamUnder (hashOf : String → UInt64) (strict : Bool) (s : TokenStream) :
    Except BuildError Document :=
  match s.next with
  | (.error e, _) => .error (.source e)
  | (.ok none, _) => .error (.shape .noTokens)
  | (.ok (some (.startDocument ..)), rest) =>
    Builder.run strict rest.failure { document := .empty hashOf, opened := [] } rest.items
  | (.ok (some token), _) => .error (.shape (.noDocumentStart token))

theorem ofStreamUnder_polynomialHash : ofStreamUnder Pool.polynomialHash = ofStream :=
  rfl

variable {d : Document}

theorem steps_ofStreamUnder {hashOf : String → UInt64} {strict : Bool} {s : TokenStream}
    (h : ofStreamUnder hashOf strict s = .ok d) : Steps (.empty hashOf) d := by
  unfold ofStreamUnder at h
  split at h
  · cases h
  · cases h
  · exact (Builder.Sound.fresh hashOf).run h
  · cases h

/-- The documents that can be made, under whatever hash. -/
inductive Attainable : Document → Prop
  | empty (hashOf : String → UInt64) : Attainable (.empty hashOf)
  | built {hashOf : String → UInt64} {strict : Bool} {s : TokenStream} {d : Document}
      (h : ofStreamUnder hashOf strict s = .ok d) : Attainable d
  | operation {d : Document} (h : Attainable d) (op : Operation)
      (hsource : ∀ s, op.source? = some s → Attainable s) : Attainable (op.edit.apply d).2

theorem Attainable.wellFormed (h : Attainable d) : WellFormed d := by
  induction h with
  | empty hashOf => exact wellFormed_empty hashOf
  | built h => exact (wellFormed_empty _).of_steps (steps_ofStreamUnder h)
  | operation _ op _ ih ihs => exact ih.of_steps ((Operation.effect ih op).steps ih ihs)

theorem perform_eq (r : Request) (d : Document) : r.perform d = (r.edit.apply d).2 := by
  cases r <;> rw [Request.edit, apply_map] <;> rfl

/-- What can be reached can be attained. -/
theorem Reachable.attainable (h : Reachable d) : Attainable d := by
  induction h with
  | empty hashOf => exact .empty hashOf
  | built h =>
      rw [← ofStreamUnder_polynomialHash] at h
      exact .built h
  | @request d _ r ih =>
      rw [perform_eq]
      exact ih.operation (.request r) fun s hs => by cases hs
  | @importNode d source _ _ id ih ihs =>
      have himport := ih.operation (.importNode source id) fun s hs => by
        cases hs
        exact ihs
      rwa [Operation.edit, apply_map] at himport

end Document

end PersistenceMapping
