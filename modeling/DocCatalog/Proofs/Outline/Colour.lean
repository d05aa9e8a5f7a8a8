import DocCatalog.Format
import DocCatalog.Proofs.Outline.Items
import DocCatalog.Proofs.Text.Parts

/-!
# Colour adds nothing but codes

A terminal code is an escape character, a bracket, digits and semicolons, and an `m`. Deleting the
codes from a coloured outline gives the plain one, whatever stands next to a code, as long as the
catalog itself holds no escape character. The deletion reads the text from the left and knows
nothing of spans; it commutes with writing one after the other because a code is recognised from its
own characters, and because a text without escape characters is not touched by it.

Results:
1. `withoutCodes_append`, `withoutCodes_code`: deletion in front of any text.
2. `withoutCodes_render`: a coloured span loses its codes and keeps its text, also an empty span.
3. `clean_spaceItems`: the items of a tree hold the texts of the tree, at every depth.
4. `colour_keeps_content`: the outline of any tree and of any list.
-/

namespace DocCatalog

/-! ## The texts of a catalog -/

def Param.texts (param : Param) : List String :=
  param.type.toList ++ param.name.toList ++ param.defaultValue.toList ++ param.description.toList

def ReturnValue.texts (returned : ReturnValue) : List String :=
  returned.type.toList ++ returned.description.toList

def Record.texts (record : Record) : List String :=
  record.name.toList ++ [record.scope, record.description] ++ record.params.flatMap Param.texts ++
    record.result.toList.flatMap ReturnValue.texts ++
    record.custom.table.flatMap fun entry => entry.1 :: entry.2

def Entry.texts (entry : Entry) : List String :=
  entry.records.flatMap Record.texts

mutual

/-- The names in a tree and the texts of its records. -/
def Namespace.texts : Namespace → List String
  | ⟨entries, children⟩ =>
    (entries.flatMap fun entry => entry.1 :: entry.2.texts) ++ Namespace.textsBelow children

def Namespace.textsBelow : List (String × Namespace) → List String
  | [] => []
  | (segment, child) :: rest => segment :: Namespace.texts child ++ Namespace.textsBelow rest

end

def Catalog.texts : Catalog → List String
  | tree root => root.texts
  | flat records => records.flatMap Record.texts

theorem Namespace.textsBelow_eq_flatMap (children : List (String × Namespace)) :
    textsBelow children = children.flatMap fun child => child.1 :: child.2.texts := by
  induction children with
  | nil => rfl
  | cons child rest ih => rw [textsBelow, ih, List.flatMap_cons]

namespace Outline

/-! ## Deleting codes -/

/-- A character that stands between the bracket and the `m` of a code. -/
def isCodeNumber (c : Char) : Bool :=
  c.isDigit || c == ';'

/-- What follows the code that a text starts with. -/
def afterCode? : List Char → Option (List Char)
  | '\x1b' :: '[' :: rest =>
    match rest.dropWhile isCodeNumber with
    | 'm' :: after => some after
    | _ => none
  | _ => none

theorem length_afterCode? {text after : List Char} (found : afterCode? text = some after) :
    after.length < text.length := by
  unfold afterCode? at found
  split at found
  case h_1 rest =>
    have suffix : rest.dropWhile isCodeNumber <:+ rest := List.dropWhile_suffix isCodeNumber
    have shorter := suffix.length_le
    split at found
    case h_1 following ends =>
      cases found
      rw [ends] at shorter
      simp only [List.length_cons] at shorter ⊢
      omega
    case h_2 => cases found
  case h_2 => cases found

/-- The text without its codes. -/
def withoutCodes : List Char → List Char
  | [] => []
  | c :: rest =>
    match _ : afterCode? (c :: rest) with
    | some after => withoutCodes after
    | none => c :: withoutCodes rest
termination_by text => text.length
decreasing_by
  · exact length_afterCode? ‹_›
  · exact Nat.lt_succ_self _

/-- A text without escape characters. -/
def Clean (text : List Char) : Prop :=
  '\x1b' ∉ text

instance (text : List Char) : Decidable (Clean text) :=
  inferInstanceAs (Decidable (_ ∉ _))

@[simp] theorem clean_nil : Clean [] :=
  List.not_mem_nil

@[simp] theorem clean_cons {c : Char} {rest : List Char} :
    Clean (c :: rest) ↔ c ≠ '\x1b' ∧ Clean rest := by
  rw [Clean, List.mem_cons, not_or, ne_comm, Clean]

@[simp] theorem clean_append {first second : List Char} :
    Clean (first ++ second) ↔ Clean first ∧ Clean second := by
  rw [Clean, List.mem_append, not_or, Clean, Clean]

theorem withoutCodes_cons_of_ne {c : Char} (plain : c ≠ '\x1b') (rest : List Char) :
    withoutCodes (c :: rest) = c :: withoutCodes rest := by
  have none : afterCode? (c :: rest) = none := by
    unfold afterCode?
    split
    case h_1 _ same => exact absurd (List.head_eq_of_cons_eq same) plain
    case h_2 => rfl
  rw [withoutCodes]
  split
  case h_1 after found => rw [none] at found; cases found
  case h_2 => rfl

theorem withoutCodes_append {text : List Char} (clean : Clean text) (rest : List Char) :
    withoutCodes (text ++ rest) = text ++ withoutCodes rest := by
  induction text with
  | nil => rfl
  | cons c more ih =>
    obtain ⟨plain, others⟩ := clean_cons.1 clean
    rw [List.cons_append, withoutCodes_cons_of_ne plain, ih others, List.cons_append]

/-- A code ends at its own `m`, whatever stands behind it. -/
theorem withoutCodes_code {numbers : List Char} (digits : ∀ c ∈ numbers, isCodeNumber c = true)
    (rest : List Char) : withoutCodes (code numbers ++ rest) = withoutCodes rest := by
  have whole : code numbers ++ rest = '\x1b' :: '[' :: (numbers ++ 'm' :: rest) := by simp [code]
  have ends : (numbers ++ 'm' :: rest).dropWhile isCodeNumber = 'm' :: rest := by
    rw [List.dropWhile_append_of_pos digits]
    exact List.dropWhile_cons_of_neg (by decide)
  have first : afterCode? ('\x1b' :: '[' :: (numbers ++ 'm' :: rest)) = some rest := by
    simp only [afterCode?, ends]
  rw [whole, withoutCodes]
  split
  case h_1 after found =>
    rw [first] at found
    cases found
    rfl
  case h_2 none => rw [first] at none; cases none

/-! ## Spans -/

/-- There is nothing to resume in a text without codes. -/
theorem resume_eq_self (opening : List Char) {text : List Char} (clean : Clean text) :
    resume opening text = text := by
  fun_induction resume opening text with
  | case1 rest => exact absurd List.mem_cons_self clean
  | case2 c rest _ ih => rw [ih (clean_cons.1 clean).2]
  | case3 => rfl

def Span.text : Span → List Char
  | plain text | styled _ text => text

theorem isCodeNumber_of_mem_codes (style : Style) : ∀ c ∈ style.codes, isCodeNumber c = true := by
  cases style <;> exact List.all_eq_true.1 (by decide)

theorem withoutCodes_render {span : Span} (clean : Clean span.text) (rest : List Char) :
    withoutCodes (span.render true ++ rest) = span.render false ++ withoutCodes rest := by
  cases span with
  | plain text => exact withoutCodes_append clean rest
  | styled style text =>
    have clean : Clean text := clean
    have coloured : (Span.styled style text).render true ++ rest =
        code style.codes ++ (text ++ (reset ++ rest)) := by
      simp only [Span.render, if_true, resume_eq_self _ clean, List.append_assoc]
    rw [coloured, withoutCodes_code (isCodeNumber_of_mem_codes style),
      withoutCodes_append clean, reset, withoutCodes_code (List.all_eq_true.1 (by decide))]
    rfl

/-- What holds of the parts of a text holds of the text. -/
theorem withoutCodes_flatMap {α : Type} {coloured plain : α → List Char} {items : List α}
    (each : ∀ item ∈ items, ∀ rest,
      withoutCodes (coloured item ++ rest) = plain item ++ withoutCodes rest) (rest : List Char) :
    withoutCodes (items.flatMap coloured ++ rest) = items.flatMap plain ++ withoutCodes rest := by
  induction items with
  | nil => rfl
  | cons item others ih =>
    obtain ⟨first, later⟩ := List.forall_mem_cons.1 each
    rw [List.flatMap_cons, List.append_assoc, first, ih later, List.flatMap_cons,
      List.append_assoc]

theorem withoutCodes_renderLine {line : List Span} (clean : ∀ span ∈ line, Clean span.text)
    (rest : List Char) :
    withoutCodes (renderLine true line ++ rest) = renderLine false line ++ withoutCodes rest := by
  have spans := withoutCodes_flatMap (fun span member => withoutCodes_render (clean span member))
    ('\n' :: rest)
  rw [withoutCodes_cons_of_ne (by decide)] at spans
  simpa [renderLine] using spans

/-! ## Items -/

/-- The texts that an item shows have no escape characters. -/
def Item.Clean : Item → Prop
  | scope _ path => Outline.Clean path.toList
  | overloads _ name _ => Outline.Clean name.toList
  | record _ title shown =>
    Outline.Clean title.toList ∧ ∀ text ∈ shown.texts, Outline.Clean text.toList

theorem clean_indent (depth : Nat) : Clean (indent depth) := by
  intro member
  exact absurd (List.eq_of_mem_replicate member) (by decide)

theorem clean_number (n : Nat) : Clean (toString n).toList := by
  intro member
  rw [Nat.toString_eq_repr, Nat.toList_repr] at member
  have digit := Nat.isDigit_of_mem_toDigits (by decide) (by decide) member
  exact absurd digit (by decide)

theorem clean_bracketed (n : Nat) : Clean (s!"({n} overloads)").toList := by
  rw [String.toList_append, String.toList_append, clean_append, clean_append]
  exact ⟨⟨by decide, clean_number n⟩, by decide⟩

theorem clean_counted (n : Nat) : Clean (s!"{n} entities").toList := by
  rw [String.toList_append, clean_append]
  exact ⟨clean_number n, by decide⟩

theorem clean_joined {separator : List Char} {parts : List (List Char)} (between : Clean separator)
    (each : ∀ part ∈ parts, Clean part) : Clean (Text.joined separator parts) := by
  intro member
  rcases Text.mem_joined member with inSeparator | ⟨part, inParts, inPart⟩
  · exact between inSeparator
  · exact each part inParts inPart

theorem clean_kindsText (record : Record) : Clean (kindsText record) := by
  unfold kindsText
  split
  case h_1 => exact clean_nil
  case h_2 kind kinds _ =>
    have names : Clean (", ".intercalate ((kind :: kinds).map Kind.name)).toList := by
      rw [String.toList_intercalate, ← Text.joined_eq_intercalate]
      refine clean_joined (by decide) (List.forall_mem_map.2 (List.forall_mem_map.2 ?_))
      intro declared _
      cases declared <;> decide
    rw [clean_append, clean_cons, clean_cons]
    exact ⟨⟨by decide, by decide, names⟩, by decide⟩

theorem clean_wordSpans (style : Style) {word : String} (clean : Clean word.toList) :
    ∀ span ∈ wordSpans style word, Clean span.text := by
  simp [wordSpans, Span.text, clean]

theorem clean_headerLine (depth : Nat) {title : String} (clean : Clean title.toList)
    (record : Record) : ∀ span ∈ headerLine depth title record, Clean span.text := by
  unfold headerLine
  refine List.forall_mem_append.2 ⟨List.forall_mem_append.2 ⟨?_, ?_⟩, ?_⟩
  · simp [Span.text, clean_indent, clean, clean_kindsText]
  · split
    · exact clean_wordSpans .hidden (by decide)
    · exact List.forall_mem_nil _
  · split
    · exact clean_wordSpans .deprecated (by decide)
    · exact List.forall_mem_nil _

theorem clean_detailLine (depth : Nat) (style : Style) {head rest : List Char}
    (cleanHead : Clean head) (cleanRest : Clean rest) :
    ∀ span ∈ detailLine depth style head rest, Clean span.text := by
  simp [detailLine, Span.text, clean_indent, cleanHead, cleanRest]

theorem clean_render_param {param : Param} (clean : ∀ text ∈ param.texts, Clean text.toList) :
    Clean param.render := by
  obtain ⟨type, optional, name, defaultValue, description⟩ := param
  refine clean_joined (by decide)
    (List.forall_mem_append.2 ⟨List.forall_mem_append.2 ⟨?_, ?_⟩, ?_⟩)
  · cases type <;> simp_all [Param.texts, bracedType]
  · cases name <;> cases defaultValue <;> cases optional <;>
      simp_all [Param.texts, Param.renderName]
  · cases description <;> simp_all [Param.texts]

theorem clean_render_returned {returned : ReturnValue}
    (clean : ∀ text ∈ returned.texts, Clean text.toList) : Clean returned.render := by
  obtain ⟨type, description⟩ := returned
  cases type <;> cases description <;>
    simp_all [ReturnValue.texts, ReturnValue.render, bracedType]

theorem clean_recordLines (depth : Nat) {title : String} {record : Record}
    (cleanTitle : Clean title.toList) (clean : ∀ text ∈ record.texts, Clean text.toList) :
    ∀ line ∈ recordLines depth title record, ∀ span ∈ line, Clean span.text := by
  simp only [Record.texts, List.forall_mem_append] at clean
  obtain ⟨⟨⟨⟨-, fixed⟩, params⟩, result⟩, custom⟩ := clean
  have description : Clean record.description.toList := fixed _ (by simp)
  unfold recordLines
  refine List.forall_mem_append.2 ⟨List.forall_mem_append.2 ⟨List.forall_mem_append.2
    ⟨List.forall_mem_cons.2 ⟨clean_headerLine depth cleanTitle record, ?_⟩, ?_⟩, ?_⟩, ?_⟩
  · refine List.forall_mem_map.2 fun line inLines => clean_detailLine depth .faint ?_ clean_nil
    exact fun member => description (Text.mem_of_mem_lines inLines member)
  · refine List.forall_mem_map.2 fun param member => clean_detailLine depth .label (by decide) ?_
    have texts : ∀ text ∈ param.texts, Clean text.toList := fun text inTexts =>
      params text (List.mem_flatMap.2 ⟨param, member, inTexts⟩)
    exact clean_cons.2 ⟨by decide, clean_render_param texts⟩
  · intro line inLine
    obtain ⟨returned, present, rfl⟩ := Option.map_eq_some_iff.1 (Option.mem_toList.1 inLine)
    refine clean_detailLine depth .label (by decide) (clean_render_returned fun text inTexts => ?_)
    exact result text (List.mem_flatMap.2 ⟨returned, Option.mem_toList.2 present, inTexts⟩)
  · intro line inLine
    obtain ⟨entry, inTable, inEntry⟩ := List.mem_flatMap.1 inLine
    obtain ⟨value, inValues, rfl⟩ := List.mem_map.1 inEntry
    have texts : ∀ text ∈ entry.1 :: entry.2, Clean text.toList := fun text inTexts =>
      custom text (List.mem_flatMap.2 ⟨entry, inTable, inTexts⟩)
    obtain ⟨key, values⟩ := List.forall_mem_cons.1 texts
    exact clean_detailLine depth .customTag (clean_cons.2 ⟨by decide, key⟩)
      (clean_cons.2 ⟨by decide, values value inValues⟩)

theorem Item.Clean.lines {item : Item} (clean : item.Clean) :
    ∀ line ∈ item.lines, ∀ span ∈ line, Outline.Clean span.text := by
  cases item with
  | scope depth path =>
    have path : Outline.Clean path.toList := clean
    simp [Item.lines, Span.text, clean_indent, path]
  | overloads depth name count =>
    have name : Outline.Clean name.toList := clean
    have number : Outline.Clean (s!"({count} overloads)").toList := clean_bracketed count
    simp only [Item.lines, List.mem_cons, List.not_mem_nil, or_false, forall_eq, forall_eq_or_imp,
      Span.text]
    exact ⟨clean_indent depth, name, by decide, number⟩
  | record depth title shown => exact clean_recordLines depth clean.1 clean.2

/-! ## Catalogs -/

/-- A record is shown under a name of its own. -/
theorem clean_titled {record : Record} (clean : ∀ text ∈ record.texts, Clean text.toList) :
    Clean (record.name.getD "").toList ∧ Clean (record.qualifiedName.getD "").toList := by
  have scope : Clean record.scope.toList := clean _ (by simp [Record.texts])
  cases named : record.name with
  | none => simp [Record.qualifiedName, named]
  | some name =>
    have name : Clean name.toList := clean _ (by simp [Record.texts, named])
    refine ⟨name, ?_⟩
    rw [Record.qualifiedName, named, Option.map_some, Option.getD_some]
    split
    · exact name
    · simp [scope, name]

theorem clean_entryItems (depth : Nat) {name : String} {entry : Entry}
    (cleanName : Clean name.toList) (clean : ∀ text ∈ entry.texts, Clean text.toList) :
    ∀ item ∈ entryItems depth name entry, item.Clean := by
  simp only [Entry.texts, List.forall_mem_flatMap] at clean
  have shown : ∀ record ∈ entry.records, ∀ depth,
      (Item.record depth (record.name.getD "") record).Clean :=
    fun record member _ => ⟨(clean_titled (clean record member)).1, clean record member⟩
  cases entry with
  | single record =>
    exact List.forall_mem_singleton.2 (shown record List.mem_cons_self depth)
  | overloads records =>
    exact List.forall_mem_cons.2 ⟨cleanName, List.forall_mem_map.2 fun record member =>
      shown record member (depth + 1)⟩

theorem clean_childPath {path segment : String} (cleanPath : Clean path.toList)
    (clean : Clean segment.toList) : Clean (childPath path segment).toList := by
  unfold childPath
  split
  · exact clean
  · simp [cleanPath, clean]

/-- The items of a tree show its names and its texts only. -/
theorem clean_spaceItems {space : Namespace} (clean : ∀ text ∈ space.texts, Clean text.toList)
    {path : String} (cleanPath : Clean path.toList) (depth : Nat) :
    ∀ item ∈ spaceItems depth path space, item.Clean := by
  induction space using Namespace.induct generalizing path depth with
  | step entries children ih =>
    rw [Namespace.texts, Namespace.textsBelow_eq_flatMap] at clean
    simp only [List.forall_mem_append, List.forall_mem_flatMap, List.forall_mem_cons] at clean
    obtain ⟨standing, below⟩ := clean
    rw [spaceItems_eq]
    simp only [List.forall_mem_append, List.forall_mem_flatMap, List.forall_mem_cons]
    refine ⟨fun entry member => ?_, fun child member => ⟨?_, ?_⟩⟩
    · exact clean_entryItems depth (standing entry member).1 (standing entry member).2
    · exact clean_childPath cleanPath (below child member).1
    · exact ih child member (below child member).2
        (clean_childPath cleanPath (below child member).1) (depth + 1)

theorem clean_items {catalog : Catalog} (clean : ∀ text ∈ catalog.texts, Clean text.toList) :
    ∀ item ∈ items catalog, item.Clean := by
  cases catalog with
  | tree root => exact clean_spaceItems clean (by decide) 0
  | flat records =>
    refine List.forall_mem_map.2 fun record member => ?_
    have texts : ∀ text ∈ record.texts, Clean text.toList := fun text inTexts =>
      clean text (List.mem_flatMap.2 ⟨record, member, inTexts⟩)
    exact ⟨(clean_titled texts).2, texts⟩

theorem clean_lines {catalog : Catalog} (clean : ∀ text ∈ catalog.texts, Clean text.toList) :
    ∀ line ∈ lines catalog, ∀ span ∈ line, Clean span.text := by
  have shown := clean_items clean
  unfold lines
  split
  case h_1 => simp [nothingLine, Span.text]
  case h_2 item rest found =>
    rw [found] at shown
    refine List.forall_mem_append.2 ⟨List.forall_mem_flatMap.2 fun item member =>
      (shown item member).lines, ?_⟩
    have number : Clean (s!"{catalog.size} entities").toList := clean_counted catalog.size
    simp only [List.mem_cons, List.not_mem_nil, or_false, forall_eq, forall_eq_or_imp, Span.text]
    exact ⟨fun _ nothing => nothing.elim, number⟩

/-- Deleting the codes of the coloured text of a catalog gives the plain text. The tree may be any,
also one with empty namespaces, and so may the list; only the texts in them must not have escape
characters of their own. -/
theorem colour_keeps_content {catalog : Catalog}
    (clean : ∀ text ∈ catalog.texts, Clean text.toList) :
    withoutCodes (catalog.render .text true).toList = (catalog.render .text false).toList := by
  have spans := withoutCodes_flatMap
    (fun line member => withoutCodes_renderLine (clean_lines clean line member)) []
  simpa [Catalog.render, render, withoutCodes] using spans

/-- A tree with an empty namespace, an overload group without a name, and texts that look like the
end of a code. -/
def codeLike : Catalog :=
  .tree ⟨[("", .overloads [{ name := some "", description := "m\n[0m", isPrivate := true },
      { name := some ";36m", params := [{ name := some "1m" }], result := some {} }])],
    [("[1;35m", Namespace.empty)]⟩

theorem colour_keeps_content_code_like :
    (∀ text ∈ codeLike.texts, Clean text.toList) ∧
      withoutCodes (codeLike.render .text true).toList = (codeLike.render .text false).toList :=
  have clean : ∀ text ∈ codeLike.texts, Clean text.toList := by decide
  ⟨clean, colour_keeps_content clean⟩

end Outline

end DocCatalog
