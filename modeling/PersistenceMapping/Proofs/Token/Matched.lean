/-
End tags that match.

An end tag matches if it has the name of the innermost element that is open where it stands.  The
names of the open elements are all that has to be remembered of the tokens before it, so that tags
match is followed token by token (`Matched`).  A failure ends what is asked of a source: behind it
any tag may come.

The dialects keep tags where they are and name the start and the end of an element alike, so tags
that match go on to match (`Matched.hierarchical`, `Matched.entity`).
-/
import PersistenceMapping.Proofs.Dialect.Entity
import PersistenceMapping.Proofs.Dialect.Hierarchical

namespace PersistenceMapping

namespace Token

/-- The names of the elements that are open behind a token, innermost first. -/
def namesBehind (opened : List String) : Token → List String
  | startTag tag => tag.name :: opened
  | endTag _ => opened.tail
  | _ => opened

/-- Every end tag has the name of the innermost element that is open before it. -/
def Nested (tokens : List Token) : Prop :=
  ∀ before name after, tokens = before ++ .endTag name :: after →
    (before.foldl namesBehind []).head? = some name

end Token

/-- Outcomes in which every end tag before the first failure matches, if elements of these names,
innermost first, are open before them. -/
inductive Matched : (opened : List String) → List Outcome → Prop
  | nil {opened : List String} : Matched opened []
  | failed {opened : List String} {e : TokenError} {rest : List Outcome} :
      Matched opened (.error e :: rest)
  | cons {opened : List String} {token : Token} {rest : List Outcome}
      (hend : ∀ name, token = .endTag name → opened.head? = some name)
      (hrest : Matched (token.namesBehind opened) rest) : Matched opened (.ok token :: rest)

namespace Matched

variable {opened : List String} {items : List Outcome}

/-- An end tag that is read has the name of the innermost element. -/
theorem nested_go {s : TokenStream} (h : Matched opened items) {before after : List Token}
    {name : String} (heq : (TokenStream.run.go s items).1 = before ++ .endTag name :: after) :
    (before.foldl Token.namesBehind opened).head? = some name := by
  induction h generalizing before with
  | nil => exact absurd heq.symm (by simp [TokenStream.run.go])
  | failed => exact absurd heq.symm (by simp [TokenStream.run.go])
  | cons hend _ ih =>
      cases before with
      | nil => exact hend name (List.cons.inj heq).1
      | cons token before =>
          obtain ⟨rfl, hrest⟩ := List.cons.inj heq
          exact ih hrest

/-- The tokens before the first failure nest. -/
theorem nested {s : TokenStream} (h : Matched [] s.items) : Token.Nested s.run.1 :=
  fun _ _ _ heq => h.nested_go heq

/-! ### Dialects -/

section Hierarchical

open Dialect.Hierarchical

/-- Start tags and end tags are renamed by one rule, and document type declarations are no tags. -/
theorem hierarchical (h : Matched opened items) (isRoot : Bool) :
    Matched (opened.map renamed) (normalizeItems isRoot items) := by
  induction h generalizing isRoot with
  | nil => exact .nil
  | failed => exact .failed
  | @cons opened token rest hend _ ih =>
      cases token with
      | doctype content => exact ih isRoot
      | startTag tag =>
          refine .cons nofun ?_
          have hrest := ih false
          rwa [Token.namesBehind, List.map_cons, ← name_normalizeTag isRoot tag] at hrest
      | endTag name =>
          refine .cons ?_ ?_
          · rintro _ ⟨⟩
            rw [List.head?_map, hend name rfl]
            rfl
          · rw [Token.namesBehind, ← List.map_tail]
            exact ih isRoot
      | _ => exact .cons nofun (ih isRoot)

end Hierarchical

section Entity

open Dialect.Entity

/-- A document keeps its names behind its root. -/
theorem entityItems (h : Matched opened items) : Matched opened (normalizeItems items) := by
  induction h with
  | nil => exact .nil
  | failed => exact .failed
  | @cons opened token rest hend _ ih =>
      cases token with
      | startTag tag => exact .cons nofun ih
      | _ => exact .cons hend ih

/-- The root keeps its name too, unless its version is refused. -/
theorem entity (h : Matched opened items) (versions : List String) :
    Matched opened (normalizeDocument versions items) := by
  induction h with
  | nil => exact .nil
  | failed => exact .failed
  | @cons opened token rest hend hrest ih =>
      cases token with
      | startTag tag =>
          rw [normalizeDocument]
          cases hroot : normalizeRoot versions tag with
          | error version => exact .failed
          | ok tag' =>
              refine .cons nofun ?_
              have hname : (normalizeTag tag').name = tag.name := (name_of_normalizeRoot hroot).1
              rw [Token.namesBehind, hname]
              exact hrest.entityItems
      | _ => exact .cons hend ih

end Entity

end Matched

end PersistenceMapping
