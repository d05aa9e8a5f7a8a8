import DocCatalog.Proofs.Files.Search

/-!
# Reading what was written

A file that was written is read back under the same path (`read_write`). The path is resolved again
for this, and nothing on its way has changed: every directory that it comes through still has the
members it had, but for the written file (`exists_nodeAt?_put`). So every step is as before
(`resolve_put`).
-/

namespace DocCatalog.Files.Disk

/-! ## Members -/

theorem lookup_cons_eq (name other : Path) (node : Node ByteArray)
    (rest : List (Path × Node ByteArray)) :
    ((name, node) :: rest).lookup other =
      if other = name then some node else rest.lookup other := by
  by_cases same : other = name
  · simp [same]
  · rw [List.lookup_cons, beq_false_of_ne same, if_neg same]

theorem lookup_setMember (name other : Path) (node : Node ByteArray)
    (members : List (Path × Node ByteArray)) :
    (setMember name node members).lookup other =
      if other = name then some node else members.lookup other := by
  induction members with
  | nil => rw [setMember, lookup_cons_eq]
  | cons member rest ih =>
    obtain ⟨first, old⟩ := member
    rw [setMember]
    split
    case isTrue replaced =>
      subst replaced
      rw [lookup_cons_eq, lookup_cons_eq]
      split <;> rfl
    case isFalse differs =>
      rw [lookup_cons_eq, lookup_cons_eq, ih]
      by_cases here : other = first
      · rw [if_pos here, if_pos here, if_neg (here ▸ differs)]
      · rw [if_neg here, if_neg here]

/-- Only directories have something below them. -/
theorem exists_directory_of_nodeAt? {node : Node ByteArray} {path : List Path}
    {members : List (Path × Node ByteArray)}
    (found : nodeAt? path node = some (.directory members)) :
    ∃ outer, node = .directory outer := by
  cases path with
  | nil => exact ⟨members, by simpa [nodeAt?] using found⟩
  | cons name rest =>
    cases node with
    | directory outer => exact ⟨outer, rfl⟩
    | file | link | special => simp [nodeAt?] at found

/-- What stands under the names of a directory after a node was put at a place: the node itself,
what stood there before, or a directory that leads to the place and did so before. -/
structure Changed (node : Node ByteArray) (place here : List Path)
    (before after : List (Path × Node ByteArray)) : Prop where
  put : ∀ name, here ++ [name] = place → after.lookup name = some node
  kept : ∀ name, here ++ [name] ≠ place →
    after.lookup name = before.lookup name ∨
      ∃ inner outer, before.lookup name = some (.directory inner) ∧
        after.lookup name = some (.directory outer)

theorem nodeAt?_setMember (name first : Path) (node : Node ByteArray)
    (members : List (Path × Node ByteArray)) (rest : List Path) :
    nodeAt? (first :: rest) (.directory (setMember name node members)) =
      if first = name then nodeAt? rest node else nodeAt? (first :: rest) (.directory members) := by
  rw [nodeAt?, lookup_setMember]
  split <;> rfl

section Changed

variable {node : Node ByteArray} {place here : List Path} {name : Path}
  {before after : List (Path × Node ByteArray)}

/-- A directory that the place is not in keeps its members. -/
theorem changed_of_apart (apart : ∀ last, here ++ [last] ≠ place) :
    Changed node place here before before where
  put last same := absurd same (apart last)
  kept _ _ := .inl rfl

theorem changed_setMember (node : Node ByteArray) (name : Path)
    (before : List (Path × Node ByteArray)) :
    Changed node [name] [] before (setMember name node before) where
  put last same := by rw [lookup_setMember, if_pos (by simpa using same)]
  kept last differs := .inl (by rw [lookup_setMember, if_neg (by simpa using differs)])

/-- A directory that only leads to the place has a directory where it had one. -/
theorem changed_on_way {inner outer : List (Path × Node ByteArray)} {step : Path}
    (member : before.lookup step = some (.directory inner)) (longer : place ≠ []) :
    Changed node (step :: place) [] before (setMember step (.directory outer) before) where
  put last same := absurd (List.cons.inj same).2.symm longer
  kept last _ := by
    rw [lookup_setMember]
    by_cases same : last = step
    · subst same
      exact .inr ⟨inner, outer, member, if_pos rfl⟩
    · exact .inl (if_neg same)

theorem Changed.cons (changed : Changed node place here before after) (step : Path) :
    Changed node (step :: place) (step :: here) before after where
  put last same := changed.put last (List.cons.inj same).2
  kept last differs := changed.kept last fun same => differs (congrArg (step :: ·) same)

/-- Links are not made into something else, unless the place is theirs. -/
theorem Changed.lookup_link (changed : Changed node place here before after) {last target : Path}
    (away : here ++ [last] ≠ place) (link : before.lookup last = some (.link target)) :
    after.lookup last = some (.link target) := by
  rcases changed.kept last away with same | ⟨inner, outer, was, -⟩
  · rw [same, link]
  · cases link.symm.trans was

/-- Nothing is made into a link. -/
theorem Changed.exists_solid (changed : Changed node place here before after)
    (solid : ∀ target, node ≠ .link target) {last : Path} {old : Node ByteArray}
    (member : before.lookup last = some old) (oldSolid : ∀ target, old ≠ .link target) :
    ∃ now, after.lookup last = some now ∧ ∀ target, now ≠ .link target := by
  by_cases there : here ++ [last] = place
  · exact ⟨node, changed.put last there, solid⟩
  · rcases changed.kept last there with same | ⟨inner, outer, -, now⟩
    · exact ⟨old, same.trans member, oldSolid⟩
    · exact ⟨.directory outer, now, by simp⟩

end Changed

/-- Every directory is still a directory when a node was put at a place where there was none. -/
theorem exists_nodeAt?_put (node : Node ByteArray) {parent : List Path} {name : Path}
    {root : Node ByteArray} {members : List (Path × Node ByteArray)}
    (found : nodeAt? parent root = some (.directory members))
    (free : ∀ inner, members.lookup name ≠ some (.directory inner))
    {here : List Path} {before : List (Path × Node ByteArray)}
    (directory : nodeAt? here root = some (.directory before)) :
    ∃ after, nodeAt? here (put node (parent ++ [name]) root) = some (.directory after) ∧
      Changed node (parent ++ [name]) here before after := by
  induction parent generalizing root here before with
  | nil =>
    obtain rfl : root = .directory members := Option.some.inj found
    rw [List.nil_append, put, put]
    cases here with
    | nil =>
      obtain rfl : members = before := Node.directory.inj (Option.some.inj directory)
      exact ⟨_, rfl, changed_setMember node name members⟩
    | cons first rest =>
      obtain ⟨child, member, below⟩ := Option.bind_eq_some_iff.1 directory
      obtain ⟨inner, rfl⟩ := exists_directory_of_nodeAt? below
      have apart : first ≠ name := by
        rintro rfl
        exact free inner member
      rw [nodeAt?_setMember, if_neg apart]
      exact ⟨before, directory, changed_of_apart fun last same => apart (List.cons.inj same).1⟩
  | cons step parent ih =>
    obtain ⟨outer, rfl⟩ := exists_directory_of_nodeAt? found
    obtain ⟨child, member, below⟩ := Option.bind_eq_some_iff.1 found
    obtain ⟨inner, rfl⟩ := exists_directory_of_nodeAt? below
    rw [List.cons_append, put, member, Option.getD_some]
    cases here with
    | nil =>
      obtain rfl : outer = before := Node.directory.inj (Option.some.inj directory)
      obtain ⟨top, atTop, -⟩ :=
        ih below (rfl : nodeAt? [] (.directory inner) = some (.directory inner))
      rw [Option.some.inj atTop]
      exact ⟨_, rfl, changed_on_way member (by simp)⟩
    | cons first rest =>
      rw [nodeAt?_setMember]
      by_cases same : first = step
      · subst same
        rw [nodeAt?, member, Option.bind_some] at directory
        obtain ⟨after, atHere, changed⟩ := ih below directory
        exact ⟨after, by rw [if_pos rfl, atHere], changed.cons first⟩
      · rw [if_neg same]
        exact ⟨before, directory, changed_of_apart fun last equal => same (List.cons.inj equal).1⟩

/-! ## Resolving again -/

theorem nodeAt?_append (front back : List Path) (node : Node ByteArray) :
    nodeAt? (front ++ back) node = (nodeAt? front node).bind (nodeAt? back) := by
  induction front generalizing node with
  | nil => rfl
  | cons name front ih =>
    cases node with
    | directory members =>
      rw [List.cons_append, nodeAt?, nodeAt?, Option.bind_assoc]
      exact congrArg _ (funext ih)
    | file | link | special => rfl

/-- A place that resolving comes to: a directory, or a name in a directory that is missing or stands
for something that is no link. -/
def Settled (root : Node ByteArray) (place : List Path) : Prop :=
  (∃ members, nodeAt? place root = some (.directory members)) ∨
    ∃ parent name members, place = parent ++ [name] ∧
      nodeAt? parent root = some (.directory members) ∧
      ∀ target, members.lookup name ≠ some (.link target)

theorem settled_dropLast {root : Node ByteArray} {here : List Path}
    {members : List (Path × Node ByteArray)}
    (directory : nodeAt? here root = some (.directory members)) : Settled root here.dropLast := by
  rcases List.eq_nil_or_concat here with rfl | ⟨parent, name, rfl⟩
  · exact .inl ⟨members, directory⟩
  · rw [List.concat_eq_append, nodeAt?_append] at directory
    obtain ⟨outer, found, below⟩ := Option.bind_eq_some_iff.1 directory
    obtain ⟨inner, rfl⟩ : ∃ inner, outer = .directory inner :=
      exists_directory_of_nodeAt? below
    exact .inl ⟨inner, by simpa using found⟩

/-- Only keeping a link ends at one. -/
theorem settled_of_resolve {root : Node ByteArray} {links : Nat} {todo here place : List Path}
    (resolved : resolve root .create links todo here = .ok place) (start : Settled root here) :
    Settled root place := by
  fun_induction resolve root .create links todo here with
  | case1 links here => exact Except.ok.inj resolved ▸ start
  | case2 links name rest here members directory _ ih => exact ih resolved start
  | case3 links rest here members directory _ ih => exact ih resolved (settled_dropLast directory)
  | case6 links name rest here members directory _ _ _ _ missing =>
    refine .inr ⟨here, name, members, (Except.ok.inj resolved).symm, directory, ?_⟩
    rw [missing]
    exact fun target => (Option.some_ne_none _).symm
  | case8 _ _ _ _ _ _ _ _ _ _ _ _ keeps => cases keeps.1
  | case10 _ _ _ _ _ _ _ _ _ _ _ _ _ ih => exact ih resolved start
  | case11 links name rest here members directory _ _ _ _ node notLink found ih =>
    refine ih resolved (.inr ⟨here, name, members, rfl, directory, fun target link => ?_⟩)
    exact notLink target (Option.some.inj (found.symm.trans link))
  | case4 | case5 | case7 | case9 | case12 => cases resolved

/-- A path that was resolved for writing leads to the same place when a file is there. -/
theorem resolve_put {root : Node ByteArray} {parent : List Path} {name : Path}
    {members : List (Path × Node ByteArray)}
    (found : nodeAt? parent root = some (.directory members))
    (noLink : ∀ target, members.lookup name ≠ some (.link target))
    (free : ∀ inner, members.lookup name ≠ some (.directory inner)) (content : ByteArray)
    {links : Nat} {todo here : List Path}
    (resolved : resolve root .create links todo here = .ok (parent ++ [name])) :
    resolve (put (.file content) (parent ++ [name]) root) .follow links todo here =
      .ok (parent ++ [name]) := by
  have changed {here : List Path} {before : List (Path × Node ByteArray)}
      (directory : nodeAt? here root = some (.directory before)) :=
    exists_nodeAt?_put (.file content) found free directory
  fun_induction resolve root .create links todo here with
  | case1 links here => rw [resolve, resolved]
  | case2 links first rest here before directory blank ih =>
    obtain ⟨after, atHere, -⟩ := changed directory
    rw [resolve, atHere]
    simpa only [if_pos blank] using ih resolved
  | case3 links rest here before directory notBlank ih =>
    obtain ⟨after, atHere, -⟩ := changed directory
    rw [resolve, atHere]
    simpa only [if_neg notBlank, if_true] using ih resolved
  | case6 links first rest here before directory notBlank notParent _ short missing last =>
    obtain ⟨after, atHere, change⟩ := changed directory
    obtain rfl : rest = [] := last.2
    have written := change.put first (Except.ok.inj resolved)
    rw [resolve, atHere]
    simp [notBlank, notParent, short, written, resolve, resolved]
  | case8 _ _ _ _ _ _ _ _ _ _ _ _ keeps => cases keeps.1
  | case10 first rest here before directory notBlank notParent _ short target link _ fewer ih =>
    obtain ⟨after, atHere, change⟩ := changed directory
    have away : here ++ [first] ≠ parent ++ [name] := by
      intro same
      obtain ⟨rfl, last⟩ := List.append_inj' same rfl
      obtain rfl : first = name := List.singleton_inj.1 last
      obtain rfl : before = members := by simpa [directory] using found
      exact noLink target link
    have still := change.lookup_link away link
    rw [resolve, atHere]
    simpa [notBlank, notParent, short, still] using ih resolved
  | case11 links first rest here before directory notBlank notParent _ short node notLink member
    ih =>
    obtain ⟨after, atHere, change⟩ := changed directory
    obtain ⟨now, standing, solid⟩ := change.exists_solid (by simp) member notLink
    rw [resolve, atHere]
    cases now with
    | link target => exact absurd rfl (solid target)
    | file | directory | special =>
      simpa [notBlank, notParent, short, standing] using ih resolved
  | case4 | case5 | case7 | case9 | case12 => cases resolved

/-- What is written stands at the place of the path, where no directory was. -/
theorem of_write {disk written : Disk} {path : Path} {content : ByteArray}
    (writes : disk.write path content = .ok written) :
    ∃ place, disk.locate .create path = .ok place ∧ written = disk.set place (.file content) ∧
      ∀ members, nodeAt? place (.directory disk.root) ≠ some (.directory members) := by
  unfold write at writes
  cases located : disk.locate .create path with
  | error fault =>
    rw [located] at writes
    cases writes
  | ok place =>
    rw [located] at writes
    refine ⟨place, rfl, ?_⟩
    simp only [bind, Except.bind] at writes
    split at writes
    case h_1 => cases writes
    case h_2 => cases writes
    case h_3 noDirectory _ => exact ⟨(Except.ok.inj writes).symm, noDirectory⟩

/-- Whether a path can be looked for at all does not depend on the disk. -/
theorem locate_eq_ok_iff {disk : Disk} {path : Path} {place : List Path} {ending : Ending} :
    disk.locate ending path = .ok place ↔
      (0 ∉ path.bytes ∧ path ≠ .empty ∧ ¬ maxPathSize < path.bytes.length) ∧
        resolve (.directory disk.root) ending maxLinks (names path) [] = .ok place := by
  unfold locate
  split_ifs <;> simp_all

/-- A file that was written is read back. -/
theorem read_write {disk written : Disk} {path : Path} {content : ByteArray}
    (writes : disk.write path content = .ok written) : written.read path = .ok content := by
  obtain ⟨place, located, isSet, noDirectory⟩ := of_write writes
  obtain ⟨proper, resolved⟩ := locate_eq_ok_iff.1 located
  have settled : Settled (.directory disk.root) place :=
    settled_of_resolve resolved (.inl ⟨disk.root, rfl⟩)
  obtain ⟨members, directory⟩ | ⟨parent, name, members, rfl, found, noLink⟩ := settled
  · exact absurd directory (noDirectory members)
  · have free : ∀ inner, members.lookup name ≠ some (.directory inner) := by
      rw [← nodeAt?_append_singleton found]
      exact noDirectory
    obtain ⟨top, atTop, -⟩ := exists_nodeAt?_put (.file content) found free
      (rfl : nodeAt? [] (.directory disk.root) = some (.directory disk.root))
    obtain ⟨after, atParent, changed⟩ := exists_nodeAt?_put (.file content) found free found
    have root : put (.file content) (parent ++ [name]) (.directory disk.root) =
        .directory written.root := by
      have isTop :
          put (.file content) (parent ++ [name]) (.directory disk.root) = .directory top := by
        simpa [nodeAt?] using atTop
      rw [isSet, set, isTop]
    have again : written.locate .follow path = .ok (parent ++ [name]) :=
      locate_eq_ok_iff.2 ⟨proper, root ▸ resolve_put found noLink free content resolved⟩
    have stands : nodeAt? (parent ++ [name]) (.directory written.root) = some (.file content) := by
      rw [← root, nodeAt?_append_singleton atParent, changed.put name rfl]
    simp [read, find, again, stands, bind, Except.bind, pure, Except.pure]

end DocCatalog.Files.Disk
