import DocCatalog.Proofs.Builder.CustomTags
import DocCatalog.Proofs.Builder.LastTags
import DocCatalog.Proofs.Table

/-!
# What a comment says of its entity

While the events of a comment arrive, its record changes field by field, and several tags overwrite
what others wrote. Read as a whole the comment says the same without a memory: the last naming tag
gives the name, a flag is set when its tag occurs, params and custom values are listed in the order
of the text, and the description is the leading text.

Tags of one matter count in their order: those that name the entity are one matter, and every other
tag name is one of its own. Between matters the order is free, and a namespace says nothing of the
entity itself.

Results:
1. `Record.change_apply`, `Record.Told.step`: what one event changes in a record, and what it adds
   to what was told.
2. `Builder.told_run`: what a run without delimiters leaves in an open record.
3. `Comment.describes_of_told`: what the events of a comment tell is what its tags say.
4. `Comment.Describes.unique`, `Comment.Rearranged.describes`: a comment describes one record, and a
   comment with rearranged tags the same one.
5. `Comment.record_of_comment`: that record is open before the closing event of the comment, after
   any run before it.
-/

namespace DocCatalog

/-! ## What events tell -/

/-- The values of the events with some tags, in order. -/
def valuesFor (sort : List Tag) (events : List Event) : List String :=
  (events.filter fun event => event.tag ∈ sort).map Event.value

theorem valuesFor_append (sort : List Tag) (first second : List Event) :
    valuesFor sort (first ++ second) = valuesFor sort first ++ valuesFor sort second := by
  simp only [valuesFor, List.filter_append, List.map_append]

theorem valuesFor_singleton (sort : List Tag) (event : Event) :
    valuesFor sort [event] = if event.tag ∈ sort then [event.value] else [] := by
  by_cases member : event.tag ∈ sort <;> simp [valuesFor, member]

/-- A list that counts as absent when it is empty. -/
def nonEmpty? (values : List String) : Option (List String) :=
  if values = [] then none else some values

theorem getD_nonEmpty? (values : List String) : (nonEmpty? values).getD [] = values := by
  unfold nonEmpty?
  split
  case isTrue empty => exact empty.symm
  case isFalse => rfl

/-- What a record holds when events without a delimiter among them told it. -/
structure Record.Told (events : List Event) (record : Record) : Prop where
  name : record.name = (valuesFor Tag.naming events).getLast?
  scope : record.scope = ""
  kind : ∀ kind, record.hasKind kind = true ↔ valuesFor [.kind kind] events ≠ []
  description : record.description = (valuesFor [.description] events).getLast?.getD ""
  params : record.params = (valuesFor [.param] events).map Param.parse
  result : record.result = (valuesFor [.result] events).getLast?.map ReturnValue.parse
  hidden : record.isPrivate = true ↔ valuesFor [.hidden] events ≠ []
  deprecated : record.isDeprecated = true ↔ valuesFor [.deprecated] events ≠ []
  custom : ∀ key, record.custom.get? key =
    if key = "" then none else nonEmpty? ((valuesFor [.custom key] events).filter (· ≠ ""))

namespace Record

theorem told_default : Told [] {} where
  name := rfl
  scope := rfl
  kind kind := by cases kind <;> simp [hasKind, valuesFor]
  description := rfl
  params := rfl
  result := rfl
  hidden := by simp [valuesFor]
  deprecated := by simp [valuesFor]
  custom key := by simp [Dictionary.get?, Dictionary.empty, Table.get?, valuesFor, nonEmpty?]

/-! ## One event -/

/-- What a tag changes in a record: every field is written by its own tags and kept by all others. -/
structure Change (tag : Tag) (value : String) (before after : Record) : Prop where
  name : after.name = if tag ∈ Tag.naming then some value else before.name
  scope : after.scope = before.scope
  kind : ∀ kind, after.hasKind kind = (decide (tag = .kind kind) || before.hasKind kind)
  description : after.description = if tag = .description then value else before.description
  params : after.params =
    if tag = .param then before.params ++ [Param.parse value] else before.params
  result : after.result =
    if tag = .result then some (ReturnValue.parse value) else before.result
  hidden : after.isPrivate = (decide (tag = .hidden) || before.isPrivate)
  deprecated : after.isDeprecated = (decide (tag = .deprecated) || before.isDeprecated)
  custom : ∀ key, after.custom.get? key =
    if tag = .custom key ∧ key ≠ "" ∧ value ≠ "" then some (before.tagValues key ++ [value])
    else before.custom.get? key

theorem change_addCustom (record : Record) {name value : String} (hasName : name ≠ "")
    (hasValue : value ≠ "") : Change (.custom name) value record (record.addCustom name value) where
  name := rfl
  scope := rfl
  kind kind := by cases kind <;> rfl
  description := rfl
  params := rfl
  result := rfl
  hidden := rfl
  deprecated := rfl
  custom key := by
    by_cases same : name = key
    · subst same
      rw [if_pos ⟨rfl, hasName, hasValue⟩]
      exact Dictionary.get?_alter_eq _ _ _
    · have differs : ¬ (Tag.custom name = .custom key ∧ key ≠ "" ∧ value ≠ "") :=
        fun both => same (Tag.custom.inj both.1)
      rw [if_neg differs]
      exact Table.get?_alter_of_ne (Ne.symm same) _ _

/-- A custom tag without a name or a value changes nothing. -/
theorem change_custom_of_blank (record : Record) {name value : String}
    (blank : name = "" ∨ value = "") : Change (.custom name) value record record where
  name := rfl
  scope := rfl
  kind kind := by cases kind <;> rfl
  description := rfl
  params := rfl
  result := rfl
  hidden := rfl
  deprecated := rfl
  custom key := by
    refine (if_neg ?_).symm
    rintro ⟨same, hasName, hasValue⟩
    obtain rfl := Tag.custom.inj same
    exact blank.elim hasName hasValue

theorem change_apply (record : Record) (tag : Tag) (value : String) :
    Change tag value record (record.apply tag value) := by
  cases tag with
  | custom name =>
    rw [Record.apply]
    split
    case isTrue blank => exact record.change_custom_of_blank blank
    case isFalse present =>
      obtain ⟨hasName, hasValue⟩ := not_or.1 present
      exact record.change_addCustom hasName hasValue
  | kind kind =>
    cases kind <;>
      exact ⟨rfl, rfl, fun wanted => by cases wanted <;> rfl, rfl, rfl, rfl, rfl, rfl, fun _ => rfl⟩
  | _ => exact ⟨rfl, rfl, fun wanted => by cases wanted <;> rfl, rfl, rfl, rfl, rfl, rfl, fun _ => rfl⟩

theorem Told.step {events : List Event} {record : Record} (told : Told events record)
    (event : Event) : Told (events ++ [event]) (record.apply event.tag event.value) := by
  have change := record.change_apply event.tag event.value
  have grown (sort : List Tag) : valuesFor sort (events ++ [event]) =
      valuesFor sort events ++ if event.tag ∈ sort then [event.value] else [] := by
    rw [valuesFor_append, valuesFor_singleton]
  exact {
    name := by
      rw [change.name, grown, told.name]
      split <;> simp
    scope := change.scope.trans told.scope
    kind := fun kind => by
      rw [change.kind, grown, Bool.or_eq_true, told.kind]
      by_cases own : event.tag = .kind kind <;> simp [own]
    description := by
      rw [change.description, grown, told.description]
      by_cases own : event.tag = .description <;> simp [own]
    params := by
      rw [change.params, grown, told.params]
      by_cases own : event.tag = .param <;> simp [own]
    result := by
      rw [change.result, grown, told.result]
      by_cases own : event.tag = .result <;> simp [own]
    hidden := by
      rw [change.hidden, grown, Bool.or_eq_true, told.hidden]
      by_cases own : event.tag = .hidden <;> simp [own]
    deprecated := by
      rw [change.deprecated, grown, Bool.or_eq_true, told.deprecated]
      by_cases own : event.tag = .deprecated <;> simp [own]
    custom := fun key => by
      rw [change.custom, grown, tagValues, told.custom, List.filter_append]
      by_cases noName : key = ""
      · simp [noName]
      · simp only [if_neg noName, getD_nonEmpty?]
        by_cases own : event.tag = .custom key <;> by_cases noValue : event.value = "" <;>
          simp [own, noName, noValue, nonEmpty?] }

end Record

namespace Builder

/-- A record that is opened and not ended holds what the events since then told. -/
theorem told_run {builder : Builder} (current : builder.current = some {}) {events : List Event}
    (plain : ∀ event ∈ events, event.tag ≠ .opening ∧ event.tag ≠ .closing) :
    ∃ filled, (builder.run events).current = some filled ∧ filled.Told events := by
  induction events using List.reverseRecOn with
  | nil => exact ⟨{}, current, Record.told_default⟩
  | append_singleton rest event ih =>
    obtain ⟨before, last⟩ := List.forall_mem_append.1 plain
    obtain ⟨filled, isFilled, told⟩ := ih before
    refine ⟨filled.apply event.tag event.value, ?_, told.step event⟩
    rw [run_append]
    exact current_step_of_current isFilled (last event List.mem_cons_self)

end Builder

/-! ## What the tags of a comment say -/

theorem Tag.spelled_custom {key : String} (free : key ∉ reserved.map text) :
    Spelled [.custom key] := by
  refine ⟨List.forall_mem_singleton.2 ?_, by simp⟩
  have none : reserved.find? (fun tag => tag.text == key) = none :=
    List.find?_eq_none.2 fun tag member same =>
      free (List.mem_map.2 ⟨tag, member, beq_iff_eq.1 same⟩)
  show ofName key = custom key
  rw [ofName, none]
  rfl

namespace Comment

/-- The tags with one of some names, in order. The blanks around a name do not count. -/
def tagsNamed (names : List String) (comment : Comment) : List (String × String) :=
  comment.tags.filter fun tag => Text.trimmed tag.1 ∈ names

/-- The values of the tags with one of some names, in order and without the blanks around them. -/
def valuesOf (names : List String) (comment : Comment) : List String :=
  (comment.tagsNamed names).map fun tag => Text.trimmed tag.2

/-- The record is what the comment says, read as a whole. -/
structure Describes (comment : Comment) (record : Record) : Prop where
  name : record.name =
    (comment.valuesOf ["name", "function", "class", "object", "field"]).getLast?
  scope : record.scope = ""
  isFunction : record.isFunction = true ↔ comment.tagsNamed ["function"] ≠ []
  isClass : record.isClass = true ↔ comment.tagsNamed ["class"] ≠ []
  isObject : record.isObject = true ↔ comment.tagsNamed ["object"] ≠ []
  isField : record.isField = true ↔ comment.tagsNamed ["field"] ≠ []
  description : record.description = Text.trimmed comment.description
  params : record.params = (comment.valuesOf ["param"]).map Param.parse
  result : record.result = (comment.valuesOf ["return"]).getLast?.map ReturnValue.parse
  isPrivate : record.isPrivate = true ↔ comment.tagsNamed ["private"] ≠ []
  isDeprecated : record.isDeprecated = true ↔ comment.tagsNamed ["deprecated"] ≠ []
  custom : ∀ key, record.custom.get? key =
    if key = "" ∨ key ∈ Tag.reserved.map Tag.text then none
    else nonEmpty? ((comment.valuesOf [key]).filter (· ≠ ""))

variable {comment : Comment} {sort : List Tag}

theorem valuesFor_statements (spelled : Tag.Spelled sort) :
    valuesFor sort comment.statements = comment.valuesOf (sort.map Tag.text) := by
  have description : valuesFor sort [Event.make .description comment.description] = [] := by
    rw [valuesFor_singleton]
    exact if_neg (spelled.apart .description (by decide))
  rw [statements, valuesFor_append, description, List.append_nil, valuesFor, tagEvents,
    List.filter_map, List.map_map, valuesOf, tagsNamed]
  refine congrArg (List.map _) (List.filter_congr fun tag _ => ?_)
  rw [Function.comp_apply, decide_eq_decide, Event.tag_ofRaw]
  exact spelled.mem_iff (Text.trimmed tag.1)

theorem valuesOf_ne_nil_iff {names : List String} :
    comment.valuesOf names ≠ [] ↔ comment.tagsNamed names ≠ [] := by
  rw [valuesOf, Ne, List.map_eq_nil_iff]

/-- No tag of a comment makes a custom tag of a name that has a meaning of its own. -/
theorem valuesFor_statements_reserved {key : String} (reserved : key ∈ Tag.reserved.map Tag.text) :
    valuesFor [.custom key] comment.statements = [] := by
  rw [valuesFor, List.map_eq_nil_iff, List.filter_eq_nil_iff]
  intro event member
  rw [decide_eq_true_iff, List.mem_singleton]
  intro custom
  rcases List.mem_append.1 member with tagged | last
  · obtain ⟨tag, -, rfl⟩ := List.mem_map.1 tagged
    rw [Event.tag_ofRaw] at custom
    exact Tag.not_mem_reserved_of_ofName custom reserved
  · obtain rfl := List.mem_singleton.1 last
    cases custom

/-- A record that the events of a comment told is what the tags of the comment say. -/
theorem describes_of_told {record : Record} (told : record.Told comment.statements) :
    comment.Describes record := by
  have occurs {tag : Tag} (spelled : Tag.Spelled [tag]) :
      valuesFor [tag] comment.statements ≠ [] ↔ comment.tagsNamed [tag.text] ≠ [] := by
    rw [valuesFor_statements spelled]
    exact valuesOf_ne_nil_iff
  exact {
    name := by
      rw [told.name, valuesFor_statements Tag.spelled_naming]
      rfl
    scope := told.scope
    isFunction := (told.kind .function).trans (occurs ⟨by decide, by decide⟩)
    isClass := (told.kind .klass).trans (occurs ⟨by decide, by decide⟩)
    isObject := (told.kind .object).trans (occurs ⟨by decide, by decide⟩)
    isField := (told.kind .field).trans (occurs ⟨by decide, by decide⟩)
    description := by
      -- The leading text comes after all tags, so it is what counts.
      rw [told.description, statements, valuesFor_append, valuesFor_singleton]
      simp [Event.make]
    params := by
      rw [told.params, valuesFor_statements ⟨by decide, by decide⟩]
      rfl
    result := by
      rw [told.result, valuesFor_statements ⟨by decide, by decide⟩]
      rfl
    isPrivate := told.hidden.trans (occurs ⟨by decide, by decide⟩)
    isDeprecated := told.deprecated.trans (occurs ⟨by decide, by decide⟩)
    custom := fun key => by
      rw [told.custom]
      by_cases reserved : key ∈ Tag.reserved.map Tag.text
      · simp [valuesFor_statements_reserved reserved, reserved, nonEmpty?]
      · rw [valuesFor_statements (Tag.spelled_custom reserved)]
        simp [reserved, Tag.text] }

/-! ## One record -/

theorem Describes.unique {first second : Record} (here : comment.Describes first)
    (there : comment.Describes second) : first = second := by
  have custom : first.custom = second.custom :=
    Dictionary.eq_of_get? fun key => (here.custom key).trans (there.custom key).symm
  have flag {a b : Bool} {p : Prop} (left : a = true ↔ p) (right : b = true ↔ p) : a = b :=
    Bool.eq_iff_iff.2 (left.trans right.symm)
  obtain ⟨_, _, _, _, _, _, _, _, _, _, _, _⟩ := first
  obtain ⟨_, _, _, _, _, _, _, _, _, _, _, _⟩ := second
  simp only [Record.mk.injEq]
  exact ⟨here.name.trans there.name.symm, here.scope.trans there.scope.symm,
    flag here.isFunction there.isFunction, flag here.isClass there.isClass,
    flag here.isObject there.isObject, flag here.isField there.isField,
    here.description.trans there.description.symm, here.params.trans there.params.symm,
    here.result.trans there.result.symm, flag here.isPrivate there.isPrivate,
    flag here.isDeprecated there.isDeprecated, custom⟩

/-! ## Rearranged tags -/

/-- The names whose tags overwrite each other's values with those of a name. -/
def matter (name : String) : List String :=
  if name ∈ Tag.naming.map Tag.text then Tag.naming.map Tag.text else [name]

theorem mem_matter (name : String) : name ∈ matter name := by
  unfold matter
  split
  case isTrue naming => exact naming
  case isFalse => exact List.mem_singleton_self name

/-- The tags of each matter are the same in the same order. Tags of different matters may change
places, and a namespace may stand anywhere. -/
structure Rearranged (comment other : Comment) : Prop where
  description : other.description = comment.description
  tags : ∀ name, name ≠ "namespace" →
    other.tagsNamed (matter name) = comment.tagsNamed (matter name)

variable {other : Comment}

theorem Rearranged.refl (comment : Comment) : comment.Rearranged comment :=
  ⟨rfl, fun _ _ => rfl⟩

theorem Rearranged.tagsNamed (rearranged : comment.Rearranged other) {name : String}
    (notScope : name ≠ "namespace") : other.tagsNamed [name] = comment.tagsNamed [name] := by
  have narrowed (told : Comment) : told.tagsNamed [name] =
      (told.tagsNamed (matter name)).filter fun tag => Text.trimmed tag.1 = name := by
    rw [Comment.tagsNamed, Comment.tagsNamed, List.filter_filter]
    refine List.filter_congr fun tag _ => ?_
    by_cases same : Text.trimmed tag.1 = name
    · simp [same, mem_matter]
    · simp [same]
  rw [narrowed, narrowed, rearranged.tags name notScope]

theorem Rearranged.describes (rearranged : comment.Rearranged other) {record : Record}
    (describes : other.Describes record) : comment.Describes record := by
  have naming : other.valuesOf ["name", "function", "class", "object", "field"] =
      comment.valuesOf ["name", "function", "class", "object", "field"] :=
    congrArg (List.map _) (rearranged.tags "name" (by decide))
  have values (name : String) (notScope : name ≠ "namespace") :
      other.valuesOf [name] = comment.valuesOf [name] :=
    congrArg (List.map _) (rearranged.tagsNamed notScope)
  have occurs {name : String} (notScope : name ≠ "namespace") :
      other.tagsNamed [name] ≠ [] ↔ comment.tagsNamed [name] ≠ [] := by
    rw [rearranged.tagsNamed notScope]
  exact {
    name := naming ▸ describes.name
    scope := describes.scope
    isFunction := describes.isFunction.trans (occurs (by decide))
    isClass := describes.isClass.trans (occurs (by decide))
    isObject := describes.isObject.trans (occurs (by decide))
    isField := describes.isField.trans (occurs (by decide))
    description := rearranged.description ▸ describes.description
    params := values "param" (by decide) ▸ describes.params
    result := values "return" (by decide) ▸ describes.result
    isPrivate := describes.isPrivate.trans (occurs (by decide))
    isDeprecated := describes.isDeprecated.trans (occurs (by decide))
    custom := fun key => by
      rw [describes.custom]
      by_cases scope : key = "namespace"
      · have reserved : key ∈ Tag.reserved.map Tag.text := by rw [scope]; decide
        rw [if_pos (.inr reserved), if_pos (.inr reserved)]
      · rw [values key scope] }

/-! ## The open record -/

/-- No tag is spelled like a delimiter of a comment. -/
def Undelimited (comment : Comment) : Prop :=
  ∀ tag ∈ comment.tags, Text.trimmed tag.1 ≠ "/**" ∧ Text.trimmed tag.1 ≠ "*/"

theorem Undelimited.plain (undelimited : comment.Undelimited) {event : Event}
    (member : event ∈ comment.statements) : event.tag ≠ .opening ∧ event.tag ≠ .closing := by
  rcases List.mem_append.1 member with tagged | last
  · obtain ⟨tag, inTags, rfl⟩ := List.mem_map.1 tagged
    obtain ⟨notOpener, notCloser⟩ := undelimited tag inTags
    rw [Event.tag_ofRaw]
    exact ⟨fun opening => notOpener ((Tag.ofName_eq_iff rfl).1 opening),
      fun closing => notCloser ((Tag.ofName_eq_iff rfl).1 closing)⟩
  · obtain rfl := List.mem_singleton.1 last
    exact ⟨nofun, nofun⟩

theorem Rearranged.undelimited (rearranged : comment.Rearranged other)
    (undelimited : comment.Undelimited) : other.Undelimited := by
  intro tag member
  have kept (name : String) (notScope : name ≠ "namespace") (spelled : Text.trimmed tag.1 = name) :
      tag ∈ comment.tags := by
    have found : tag ∈ other.tagsNamed [name] :=
      List.mem_filter.2 ⟨member, by simp [spelled]⟩
    rw [rearranged.tagsNamed notScope] at found
    exact (List.mem_filter.1 found).1
  exact ⟨fun opener => (undelimited tag (kept "/**" (by decide) opener)).1 opener,
    fun closer => (undelimited tag (kept "*/" (by decide) closer)).2 closer⟩

/-- Before its closing event a comment has filled an open record with what its tags say, whatever
the builder did before. -/
theorem Undelimited.describes (undelimited : comment.Undelimited) (builder : Builder) :
    ∃ record, (builder.run comment.events.dropLast).current = some record ∧
      comment.Describes record := by
  have front : comment.events.dropLast = [Event.opening] ++ comment.statements := by
    rw [events_eq, List.dropLast_concat]
  have opened : (builder.run [Event.opening]).current = some {} := rfl
  obtain ⟨record, current, told⟩ := Builder.told_run opened fun _ => undelimited.plain
  refine ⟨record, ?_, describes_of_told told⟩
  rw [front, Builder.run_append]
  exact current

end Comment

/-- A comment without a tag that is spelled like a delimiter describes one record, and that record
is open before the closing event of the comment, whatever the builder did before: its name is the
value of the last naming tag, its flags are the tags that occur, its params, its return value and
its custom values are those of the tags in their order, and its description is the leading text. A
comment with the same leading text whose tags are only rearranged between matters, or that has
other namespaces, leaves the same record. -/
theorem Comment.record_of_comment {comment : Comment}
    (undelimited : ∀ tag ∈ comment.tags,
      Text.trimmed tag.1 ≠ "/**" ∧ Text.trimmed tag.1 ≠ "*/") :
    ∃ record, comment.Describes record ∧
      (∀ other, comment.Describes other → other = record) ∧
      (∀ builder : Builder, (builder.run comment.events.dropLast).current = some record) ∧
      ∀ told, comment.Rearranged told →
        ∀ builder : Builder, (builder.run told.events.dropLast).current = some record := by
  obtain ⟨record, -, describes⟩ := Undelimited.describes undelimited (Builder.start .tree)
  have rearranged : ∀ told, comment.Rearranged told →
      ∀ builder : Builder, (builder.run told.events.dropLast).current = some record := by
    intro told moved builder
    obtain ⟨other, current, described⟩ := (moved.undelimited undelimited).describes builder
    rw [current, (moved.describes described).unique describes]
  exact ⟨record, describes, fun _ described => described.unique describes,
    rearranged comment (.refl comment), rearranged⟩

/-- Naming tags overwrite each other, a `description` tag gives way to the leading text, a custom
tag without a value is not kept, and the namespace may stand elsewhere. -/
theorem Comment.record_of_comment_overwritten :
    let comment : Comment :=
      ⟨" Draws. ", [("class", " W "), ("see", " b"), ("description", " no"), (" object", " w"),
        ("see", " "), ("namespace", " n"), ("see", "a "), ("todo", "")]⟩
    let moved : Comment :=
      ⟨" Draws. ", [("namespace", " n"), ("todo", ""), ("see", " b"), ("class", " W "),
        ("see", " "), ("description", " no"), ("see", "a "), (" object", " w")]⟩
    (∀ tag ∈ comment.tags, Text.trimmed tag.1 ≠ "/**" ∧ Text.trimmed tag.1 ≠ "*/") ∧
      comment.Rearranged moved ∧
      ∃ record : Record, record.name = some "w" ∧ record.isClass = true ∧
        record.isObject = true ∧ record.description = "Draws." ∧
        record.custom.get? "see" = some ["b", "a"] ∧ record.custom.get? "todo" = none ∧
        ∀ builder : Builder, (builder.run comment.events.dropLast).current = some record ∧
          (builder.run moved.events.dropLast).current = some record := by
  intro comment moved
  have undelimited :
      ∀ tag ∈ comment.tags, Text.trimmed tag.1 ≠ "/**" ∧ Text.trimmed tag.1 ≠ "*/" := by decide
  have rearranged : comment.Rearranged moved := by
    refine ⟨rfl, fun name notScope => ?_⟩
    let known := ["name", "function", "class", "object", "field", "see", "description", "todo"]
    by_cases member : name ∈ known
    · have same : ∀ name ∈ known, moved.tagsNamed (matter name) = comment.tagsNamed (matter name) :=
        by decide
      exact same name member
    · have alone : matter name = [name] := if_neg fun naming =>
        member ((by decide : Tag.naming.map Tag.text ⊆ known) naming)
      have inKnown : ∀ tag ∈ comment.tags ++ moved.tags,
          Text.trimmed tag.1 = "namespace" ∨ Text.trimmed tag.1 ∈ known := by decide
      have absent : ∀ tag ∈ comment.tags ++ moved.tags, Text.trimmed tag.1 ≠ name := by
        rintro tag inTags rfl
        exact (inKnown tag inTags).elim notScope member
      obtain ⟨here, there⟩ := List.forall_mem_append.1 absent
      rw [alone, tagsNamed, tagsNamed, List.filter_eq_nil_iff.2 fun tag inTags => ?_,
        List.filter_eq_nil_iff.2 fun tag inTags => ?_]
      · simpa using here tag inTags
      · simpa using there tag inTags
  obtain ⟨record, describes, -, current, whenMoved⟩ := record_of_comment undelimited
  refine ⟨undelimited, rearranged, record, describes.name.trans (by decide),
    describes.isClass.2 (by decide), describes.isObject.2 (by decide),
    describes.description.trans (by decide), (describes.custom "see").trans (by decide),
    (describes.custom "todo").trans (by decide), fun builder => ⟨current builder, ?_⟩⟩
  exact whenMoved moved rearranged builder

end DocCatalog
