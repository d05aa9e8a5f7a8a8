import Mathlib.Data.List.Nodup
import DocCatalog.Proofs.Namespace.Placement

/-!
# All namespaces of a tree

The namespaces of a tree with their paths, each before the ones below it. Where the tables of the
tree are in order this list holds exactly what can be looked up (`mem_spaces_iff`), and it holds no
path twice (`nodup_paths`). Whatever is told of a tree namespace by namespace is told along it.
-/

namespace DocCatalog.Namespace

mutual

/-- The namespaces of a tree that stands at a path, each with its own path. -/
def spaces (path : List String) : Namespace → List (List String × Namespace)
  | ⟨entries, children⟩ => (path, ⟨entries, children⟩) :: spacesBelow path children

def spacesBelow (path : List String) : List (String × Namespace) → List (List String × Namespace)
  | [] => []
  | (segment, child) :: rest => spaces (path ++ [segment]) child ++ spacesBelow path rest

end

theorem spaces_eq (path : List String) (entries : List (String × Entry))
    (children : List (String × Namespace)) :
    spaces path ⟨entries, children⟩ = (path, ⟨entries, children⟩) ::
      children.flatMap fun child => spaces (path ++ [child.1]) child.2 := by
  rw [spaces]
  congr 1
  induction children with
  | nil => rfl
  | cons child rest ih => rw [spacesBelow, ih, List.flatMap_cons]

theorem isPrefix_of_mem_spaces {space : Namespace} {here path : List String} {inner : Namespace}
    (member : (path, inner) ∈ space.spaces here) : here <+: path := by
  induction space using Namespace.induct generalizing here with
  | step entries children ih =>
    rw [spaces_eq] at member
    rcases List.mem_cons.1 member with first | below
    · exact (Prod.mk.inj first).1 ▸ List.prefix_refl here
    · obtain ⟨child, isChild, inside⟩ := List.mem_flatMap.1 below
      exact (List.prefix_append here [child.1]).trans (ih child isChild inside)

/-- The path of a child, or of a namespace below it, goes on with the name of the child. -/
theorem exists_rest_of_mem_spaces {child : Namespace} {here path : List String} {segment : String}
    {inner : Namespace} (member : (path, inner) ∈ child.spaces (here ++ [segment])) :
    ∃ rest, path = here ++ segment :: rest := by
  obtain ⟨rest, same⟩ := isPrefix_of_mem_spaces member
  exact ⟨rest, by simpa using same.symm⟩

theorem mem_spaces_iff {space : Namespace} (ordered : space.Ordered) {here path : List String}
    {inner : Namespace} :
    (here ++ path, inner) ∈ space.spaces here ↔ space.get? path = some inner := by
  induction ordered generalizing here path with
  | @intro entries children _ orderedChildren _ ih =>
    rw [spaces_eq, List.mem_cons, Prod.mk.injEq, List.mem_flatMap]
    cases path with
    | nil =>
      have above : ¬ ∃ child ∈ children, (here ++ [], inner) ∈ spaces (here ++ [child.1]) child.2 := by
        rintro ⟨child, -, inside⟩
        obtain ⟨rest, longer⟩ := exists_rest_of_mem_spaces inside
        simp at longer
      rw [or_iff_left above, get?, Option.some.injEq, List.append_nil, eq_comm (a := inner)]
      exact and_iff_right rfl
    | cons segment path =>
      have self : ¬ (here ++ segment :: path = here ∧ inner = ⟨entries, children⟩) := by simp
      have cut : here ++ segment :: path = here ++ [segment] ++ path := List.append_cons _ _ _
      rw [or_iff_right self, get?, Option.bind_eq_some_iff]
      constructor
      · rintro ⟨⟨name, child⟩, isChild, inside⟩
        obtain ⟨rest, longer⟩ := exists_rest_of_mem_spaces inside
        obtain ⟨rfl, -⟩ : segment = name ∧ path = rest := by simpa using longer
        rw [cut] at inside
        exact ⟨child, Table.get?_of_mem orderedChildren isChild, (ih _ isChild).1 inside⟩
      · rintro ⟨child, isChild, found⟩
        have member := Table.mem_of_get? isChild
        refine ⟨(segment, child), member, ?_⟩
        rw [cut]
        exact (ih _ member).2 found

theorem nodup_paths {space : Namespace} (ordered : space.Ordered) (here : List String) :
    ((space.spaces here).map Prod.fst).Nodup := by
  induction ordered generalizing here with
  | @intro entries children _ orderedChildren _ ih =>
    rw [spaces_eq, List.map_cons, List.map_flatMap, List.nodup_cons]
    constructor
    · intro member
      obtain ⟨child, -, inPaths⟩ := List.mem_flatMap.1 member
      obtain ⟨⟨path, inner⟩, inside, rfl⟩ := List.mem_map.1 inPaths
      obtain ⟨rest, longer⟩ := exists_rest_of_mem_spaces inside
      simp at longer
    · refine List.nodup_flatMap.2 ⟨fun child isChild => ih child isChild _, ?_⟩
      -- The paths of two children go on with different names.
      refine orderedChildren.imp fun {first second} less => ?_
      intro path inFirst inSecond
      obtain ⟨inner, inside, firstPath⟩ := List.mem_map.1 inFirst
      obtain ⟨other, otherInside, secondPath⟩ := List.mem_map.1 inSecond
      obtain ⟨rest, whole⟩ := exists_rest_of_mem_spaces inside
      obtain ⟨more, otherWhole⟩ := exists_rest_of_mem_spaces otherInside
      rw [firstPath] at whole
      rw [secondPath, whole] at otherWhole
      obtain ⟨same, -⟩ : first.1 = second.1 ∧ rest = more := by simpa using otherWhole
      exact String.ne_of_lt less same

end DocCatalog.Namespace
