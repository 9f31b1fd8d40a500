import RamFs.Text.Lowercase

/-!
How the names of one directory are told apart. A collation maps each name to a key;
two names are the same name when their keys are equal, and names are listed in the
order of their keys, compared by code point.
-/

namespace RamFs

inductive Collation where
  | sensitive
  | insensitivePreserving
  deriving DecidableEq, Repr

namespace Collation

/-- A name without an uppercase letter is its own key, even where its lowercase form
would differ: a titlecase letter is not uppercase. -/
def key : Collation → String → String
  | .sensitive, name => name
  | .insensitivePreserving, name =>
    if name.toList.any Text.isUppercase then Text.lowercase name else name

def compare (collation : Collation) (a b : String) : Ordering :=
  Ord.compare (collation.key a) (collation.key b)

def sameName (collation : Collation) (a b : String) : Bool :=
  collation.key a == collation.key b

@[simp]
theorem key_sensitive (name : String) : sensitive.key name = name := rfl

theorem sameName_iff {collation : Collation} {a b : String} :
    collation.sameName a b = true ↔ collation.key a = collation.key b := by
  simp [sameName]

end Collation

end RamFs
