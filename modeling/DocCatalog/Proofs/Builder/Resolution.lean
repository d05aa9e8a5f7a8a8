import DocCatalog.Proofs.Builder.Transition
import DocCatalog.Proofs.Source.Lexer

/-!
# The place of a name in a namespace

A closing event resolves the name of the open record in the namespace in force: the segments of both
in a row are the place, and the last of them is the leaf name. A name can be non-empty and still
hold no segment, because it is made of dots. Then the leaf is taken from the namespace.

Results:
1. `place?_eq_some_iff`, `place?_eq_none_iff`: the place of a name, by the segments of both texts.
2. `exists_name_of_pending?`, `pending?_ne_none_iff`: what a closing event stores, and when.
3. `in_scope_iff_name_has_segment`: the record lies in the namespace in force exactly when its own
   name has a segment, and exactly then the leaf comes from its name.
4. `out_of_scope_dots`: a name of dots takes the record out of its namespace.
-/

namespace DocCatalog

/-- The last member of a row belongs to its second part, unless that part is empty. -/
theorem exists_front_of_append_eq {α : Type} {first second path : List α} {leaf : α}
    (row : first ++ second = path ++ [leaf]) (present : second ≠ []) :
    ∃ front, second = front ++ [leaf] ∧ first ++ front = path := by
  have parted : second.dropLast ++ [second.getLast present] = second :=
    List.dropLast_concat_getLast present
  rw [← parted, ← List.append_assoc] at row
  obtain ⟨before, last⟩ := List.append_inj' row rfl
  rw [last] at parted
  exact ⟨second.dropLast, parted.symm, before⟩

namespace Builder

/-- The place of a name is the row of the segments of the namespace and of the name. -/
theorem place?_eq_some_iff {scope name leaf : String} {path : List String} :
    place? scope name = some (path, leaf) ↔
      Text.segments scope ++ Text.segments name = path ++ [leaf] := by
  rw [place?, Text.segments_append_dot, Option.map_eq_some_iff]
  constructor
  · rintro ⟨last, isLast, equal⟩
    simp only [Prod.mk.injEq] at equal
    obtain ⟨rfl, rfl⟩ := equal
    obtain ⟨front, whole⟩ := List.getLast?_eq_some_iff.1 isLast
    rw [whole, List.dropLast_concat]
  · intro row
    rw [row]
    exact ⟨leaf, List.getLast?_concat, by rw [List.dropLast_concat]⟩

theorem place?_eq_none_iff {scope name : String} :
    place? scope name = none ↔ Text.segments (scope ++ "." ++ name) = [] := by
  rw [place?, Option.map_eq_none_iff, List.getLast?_eq_none_iff]

variable {builder : Builder} {event : Event} {placement : Placement}

/-- A record that is stored has a non-empty name, and it is stored at the place of that name. -/
theorem exists_name_of_pending? (found : builder.pending? = some placement) :
    ∃ record name, builder.current = some record ∧ record.name = some name ∧ name ≠ "" ∧
      Text.segments builder.scope ++ Text.segments name = placement.path ++ [placement.leaf] := by
  obtain ⟨record, current, inner⟩ := Option.bind_eq_some_iff.1 found
  obtain ⟨⟨path, leaf⟩, place, rfl⟩ := Option.map_eq_some_iff.1 inner
  unfold placeOf? at place
  split at place
  case isTrue named =>
    unfold Record.isNamed at named
    split at named
    · simp at named
    case h_2 name isName =>
      rw [isName, Option.getD_some] at place
      exact ⟨record, name, current, isName, by simpa using named, place?_eq_some_iff.1 place⟩
  case isFalse => simp at place

/-- A closing event stores the open record when it has a name, and the name a place. -/
theorem pending?_ne_none_iff {record : Record} (current : builder.current = some record) :
    builder.pending? ≠ none ↔
      ∃ name, record.name = some name ∧ name ≠ "" ∧
        Text.segments (builder.scope ++ "." ++ name) ≠ [] := by
  constructor
  · intro present
    obtain ⟨placement, found⟩ := Option.ne_none_iff_exists'.1 present
    obtain ⟨other, name, isCurrent, isName, nonempty, row⟩ := exists_name_of_pending? found
    obtain rfl : record = other := Option.some.inj (current.symm.trans isCurrent)
    refine ⟨name, isName, nonempty, ?_⟩
    rw [Text.segments_append_dot, row]
    exact List.append_ne_nil_of_right_ne_nil _ (List.cons_ne_nil _ _)
  · rintro ⟨name, isName, nonempty, segments⟩
    have named : record.isNamed = true := by simp [Record.isNamed, isName, nonempty]
    have place : place? builder.scope name ≠ none :=
      fun none => segments (place?_eq_none_iff.1 none)
    rw [pending?, current, Option.bind_some, placeOf?, if_pos named, isName, Option.getD_some]
    simpa using place

theorem closing_of_placement? (stored : builder.placement? event = some placement) :
    event.tag = .closing ∧ builder.pending? = some placement := by
  unfold placement? at stored
  split at stored
  case isTrue closing => exact ⟨closing, stored⟩
  case isFalse => simp at stored

/-- A record that is committed lies in the namespace in force exactly when its own name has a
segment, and exactly then its leaf name is the last segment of its own name. A name without segments
takes the leaf, and one segment, from the namespace. -/
theorem in_scope_iff_name_has_segment (stored : builder.placement? event = some placement) :
    ∃ record name leaf,
      builder.current = some record ∧ record.name = some name ∧ name ≠ "" ∧
      placement.record.name = some leaf ∧
      builder.step event =
        { builder with
          current := none
          catalog := builder.catalog.place placement
          committed := builder.committed + 1 } ∧
      (Text.segments builder.scope <+: Text.segments placement.record.scope ↔
        Text.segments name ≠ []) ∧
      ((Text.segments name).getLast? = some leaf ↔ Text.segments name ≠ []) ∧
      (Text.segments name = [] →
        Text.segments builder.scope = Text.segments placement.record.scope ++ [leaf]) := by
  obtain ⟨closing, found⟩ := closing_of_placement? stored
  obtain ⟨record, name, current, isName, nonempty, row⟩ := exists_name_of_pending? found
  have resolved : placement.Resolved := resolved_of_pending? found
  have scope : Text.segments placement.record.scope = placement.path := by
    rw [resolved.scope, Text.segments_dotted resolved.path]
  have committed : builder.step event = builder.commit := by rw [step, closing]
  rw [scope, committed, commit_eq, current, found]
  refine ⟨record, name, placement.leaf, rfl, isName, nonempty, resolved.name, rfl, ?_, ?_, ?_⟩
  · constructor
    · -- Without a segment of its own the record is one segment short of the namespace.
      intro whole none
      rw [none, List.append_nil] at row
      have shorter := whole.length_le
      rw [row, List.length_append, List.length_singleton] at shorter
      omega
    · intro present
      obtain ⟨front, -, path⟩ := exists_front_of_append_eq row present
      exact ⟨front, path⟩
  · constructor
    · intro last none
      rw [none] at last
      cases last
    · intro present
      obtain ⟨front, name, -⟩ := exists_front_of_append_eq row present
      rw [name, List.getLast?_concat]
  · intro none
    rw [none, List.append_nil] at row
    exact row

/-- A dotted name in a namespace: the leaf is the last segment of the name. -/
theorem in_scope_dotted_name :
    let builder := (start .tree).run [Event.opening, ⟨.name, ".c..d."⟩, ⟨.scope, "a..b"⟩]
    ∃ placement, builder.placement? Event.closing = some placement ∧
      Text.segments builder.scope <+: Text.segments placement.record.scope := by
  intro builder
  let placement : Placement :=
    ⟨["a", "b", "c"], "d", { name := some "d", scope := "a.b.c" }⟩
  have stored : builder.placement? Event.closing = some placement := by decide
  obtain ⟨record, name, leaf, current, isName, -, -, -, inside, -, -⟩ :=
    in_scope_iff_name_has_segment stored
  refine ⟨placement, stored, inside.2 ?_⟩
  have own : builder.current = some { name := some ".c..d." } := by decide
  rw [own] at current
  cases current
  cases isName
  decide

/-- A name of dots in the namespace `a.b` is stored as `b` in `a`. -/
theorem out_of_scope_dots :
    let events := Source.events '@' "/** @namespace a.b @name . */"
    let builder := (start .tree).run events.dropLast
    events.getLast? = some Event.closing ∧
      ∃ placement, builder.placement? Event.closing = some placement ∧
        placement.record.name = some "b" ∧ placement.record.scope = "a" ∧
        ¬ Text.segments builder.scope <+: Text.segments placement.record.scope := by
  have told : Source.events '@' "/** @namespace a.b @name . */" =
      [Event.opening, ⟨.scope, "a.b"⟩, ⟨.name, "."⟩, ⟨.description, ""⟩, Event.closing] := by
    rw [Source.events, Source.comments, Source.bodies_eq_read]
    decide
  rw [told]
  exact ⟨rfl, ⟨["a"], "b", { name := some "b", scope := "a" }⟩, by decide⟩

end Builder

end DocCatalog
