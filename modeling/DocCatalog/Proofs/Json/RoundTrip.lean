import DocCatalog.Json.Reader
import DocCatalog.Json.Writer

/-!
# JSON that is read back

What the writer writes in either spacing is read back as the value that was written. The values here
hold no numbers, all their strings are texts, and no key stands twice in an object; nothing else is
written for a catalog.

A value is read out of the middle of a text: what follows it stays, so the items of an array and the
members of an object can be read one after the other. The fuel that is needed is at most the length
of what was written, because every level of the reader passes a character.

Results:
1. `stringBody_quoted`: a string is read back from its escapes, up to its closing quote.
2. `readValue_write`: a value is read back in front of any rest.
3. `read_render`: so is the text of a value.
4. `PlainWithin`: values that also nest no deeper than a limit.
-/

namespace DocCatalog.Json

open Text (hexDigit hexUnit?_hexDigit)

/-! ## Strings -/

/-- The escape of a control character names that character. -/
theorem stringBody_control {c : Char} (control : c.toNat < 32) (rest : List Char) :
    stringBody none
        ('\\' :: 'u' :: '0' :: '0' ::
          hexDigit 'a' (c.toNat / 16) :: hexDigit 'a' (c.toNat % 16) :: rest) =
      (stringBody none rest).map fun (content, after) => (content.map (c :: ·), after) := by
  have small : c.toNat < 256 := by omega
  have unit := hexUnit?_hexDigit (.inl rfl) small
  have notHigh : isHighSurrogate c.toNat = false := by simp [isHighSurrogate]; omega
  have notLow : isLowSurrogate c.toNat = false := by simp [isLowSurrogate]; omega
  simp [stringBody, unit, notHigh, notLow]

/-- A character that needs no escape stands for itself. -/
theorem stringBody_raw {c : Char} (notQuote : c ≠ '\x22') (notBackslash : c ≠ '\\')
    (notControl : ¬ c.toNat < 32) (rest : List Char) :
    stringBody none (c :: rest) =
      (stringBody none rest).map fun (content, after) => (content.map (c :: ·), after) := by
  have unescaped : ¬ (c = '\\' ∨ c.toNat < 32) := not_or.2 ⟨notBackslash, notControl⟩
  rw [stringBody, if_neg unescaped]
  · exact notQuote
  · exact fun _ _ _ _ _ isBackslash => absurd isBackslash notBackslash
  · exact fun _ _ isBackslash => absurd isBackslash notBackslash

theorem stringBody_escapeChar (c : Char) (rest : List Char) :
    stringBody none (escapeChar c ++ rest) =
      (stringBody none rest).map fun (content, after) => (content.map (c :: ·), after) := by
  have simple {letter : Char} (escaped : simpleEscape? letter = some c)
      (notUnit : letter ≠ 'u') : stringBody none ('\\' :: letter :: rest) =
        (stringBody none rest).map fun (content, after) => (content.map (c :: ·), after) := by
    rw [stringBody]
    · rw [escaped]
    · intro _ _ _ _ _ isUnit
      exact absurd isUnit notUnit
  unfold escapeChar
  split
  case isTrue quote => exact simple (by rw [quote]; decide) (by decide)
  case isFalse notQuote =>
  split
  case isTrue backslash => exact simple (by rw [backslash]; decide) (by decide)
  case isFalse notBackslash =>
  split
  case isTrue backspace => exact simple (by rw [backspace]; decide) (by decide)
  case isFalse =>
  split
  case isTrue formFeed => exact simple (by rw [formFeed]; decide) (by decide)
  case isFalse =>
  split
  case isTrue lineFeed => exact simple (by rw [lineFeed]; decide) (by decide)
  case isFalse =>
  split
  case isTrue carriageReturn => exact simple (by rw [carriageReturn]; decide) (by decide)
  case isFalse =>
  split
  case isTrue tabulator => exact simple (by rw [tabulator]; decide) (by decide)
  case isFalse =>
  split
  case isTrue control => exact stringBody_control control rest
  case isFalse notControl => exact stringBody_raw notQuote notBackslash notControl rest

theorem stringBody_quoted (text rest : List Char) :
    stringBody none (text.flatMap escapeChar ++ '\x22' :: rest) = some (some text, rest) := by
  induction text with
  | nil => simp [stringBody]
  | cons c more ih =>
    rw [List.flatMap_cons, List.append_assoc, stringBody_escapeChar, ih]
    rfl

theorem quoted_append (text : String) (rest : List Char) :
    quoted text ++ rest = '\x22' :: (text.toList.flatMap escapeChar ++ '\x22' :: rest) := by
  simp [quoted]

/-! ## Space -/

theorem skipSpace_newLine (spacing : Spacing) (depth : Nat) (text : List Char) :
    skipSpace (spacing.newLine depth ++ text) = skipSpace text := by
  have blanks (count : Nat) : skipSpace (List.replicate count ' ' ++ text) = skipSpace text := by
    induction count with
    | zero => rfl
    | succ count ih => simpa [skipSpace, isSpace, List.replicate_succ] using ih
  cases spacing with
  | compact => rfl
  | pretty => simpa [skipSpace, isSpace, Spacing.newLine] using blanks (2 * depth)

theorem skipSpace_cons {c : Char} (solid : isSpace c = false) (rest : List Char) :
    skipSpace (c :: rest) = c :: rest := by
  simp [skipSpace, solid]

theorem readValue_newLine (fuel : Nat) (spacing : Spacing) (depth : Nat) (text : List Char) :
    readValue fuel (spacing.newLine depth ++ text) = readValue fuel text := by
  cases fuel with
  | zero => rfl
  | succ fuel => rw [readValue, readValue, skipSpace_newLine]

theorem readItems_newLine (fuel : Nat) (spacing : Spacing) (depth : Nat) (text : List Char) :
    readItems fuel (spacing.newLine depth ++ text) = readItems fuel text := by
  cases fuel with
  | zero => rfl
  | succ fuel => rw [readItems, readItems, readValue_newLine]

theorem readMembers_newLine (fuel : Nat) (spacing : Spacing) (depth : Nat) (text : List Char) :
    readMembers fuel (spacing.newLine depth ++ text) = readMembers fuel text := by
  cases fuel with
  | zero => rfl
  | succ fuel => rw [readMembers, readMembers, skipSpace_newLine]

/-- A colon may have a space behind it. -/
theorem readValue_colon (fuel : Nat) (spacing : Spacing) (text : List Char) :
    ∃ space, spacing.colon = ':' :: space ∧ readValue fuel (space ++ text) = readValue fuel text := by
  cases spacing with
  | compact => exact ⟨[], rfl, rfl⟩
  | pretty =>
    refine ⟨[' '], rfl, ?_⟩
    cases fuel with
    | zero => rfl
    | succ fuel =>
      have skipped : skipSpace ([' '] ++ text) = skipSpace text := by simp [skipSpace, isSpace]
      rw [readValue, readValue, skipped]

/-! ## Values -/

/-- A value without numbers, whose strings are all texts and whose objects have every key once. -/
inductive Plain : Json → Prop
  | null : Plain null
  | boolean (value : Bool) : Plain (boolean value)
  | string (text : String) : Plain (string text)
  | array {items : List Json} : (∀ item ∈ items, Plain item) → Plain (array items)
  | object {members : List (String × Json)} :
      (members.map Prod.fst).Nodup → (∀ entry ∈ members, Plain entry.2) → Plain (object members)

/-- What is written starts with a character that is neither a space nor a closing bracket. -/
theorem Plain.exists_cons {json : Json} (plain : Plain json) (spacing : Spacing) (depth : Nat) :
    ∃ c rest, write spacing depth json = c :: rest ∧ isSpace c = false ∧ c ≠ ']' := by
  cases plain with
  | null => exact ⟨_, _, rfl, by decide, by decide⟩
  | boolean value => cases value <;> exact ⟨_, _, rfl, by decide, by decide⟩
  | string text => exact ⟨_, _, rfl, by decide, by decide⟩
  | @array items _ => cases items <;> exact ⟨_, _, rfl, by decide, by decide⟩
  | @object members _ _ => cases members <;> exact ⟨_, _, rfl, by decide, by decide⟩

/-- What the reader gives for a value that was written in front of any rest. -/
def ReadsBack (spacing : Spacing) (json : Json) : Prop :=
  ∀ (fuel depth : Nat) (rest : List Char), (write spacing depth json).length ≤ fuel →
    readValue fuel (write spacing depth json ++ rest) = some (json, rest)

variable {spacing : Spacing}

theorem readItems_write {item : Json} {others : List Json}
    (readsBack : ∀ inner ∈ item :: others, ReadsBack spacing inner) (fuel depth outer : Nat)
    (rest : List Char)
    (enough : (write spacing depth item ++ writeItems spacing depth others).length < fuel) :
    readItems fuel (write spacing depth item ++ (writeItems spacing depth others ++
        (spacing.newLine outer ++ ']' :: rest))) = some (item :: others, rest) := by
  induction others generalizing item fuel with
  | nil =>
    obtain ⟨first, -⟩ := List.forall_mem_cons.1 readsBack
    cases fuel with
    | zero => simp at enough
    | succ fuel =>
      have itemFuel : (write spacing depth item).length ≤ fuel := by
        simp only [List.length_append] at enough
        omega
      rw [readItems, first fuel depth _ itemFuel]
      simp only [writeItems, List.nil_append, skipSpace_newLine]
      rfl
  | cons next more ih =>
    obtain ⟨first, later⟩ := List.forall_mem_cons.1 readsBack
    cases fuel with
    | zero => simp at enough
    | succ fuel =>
      simp only [writeItems, List.length_append, List.length_cons] at enough
      have itemFuel : (write spacing depth item).length ≤ fuel := by omega
      have restFuel :
          (write spacing depth next ++ writeItems spacing depth more).length < fuel := by
        simp only [List.length_append]
        omega
      have others := ih later fuel restFuel
      rw [readItems, first fuel depth _ itemFuel]
      simp only [writeItems, List.cons_append, List.append_assoc]
      rw [skipSpace_cons (by decide)]
      simp only [readItems_newLine, others]
      rfl

/-- A member as it is read, with the characters of its key. -/
def keyed (member : String × Json) : Option (List Char) × Json :=
  (some member.1.toList, member.2)

theorem mapM_keyed (members : List (String × Json)) :
    (members.map keyed).mapM (fun (key, value) => key.map fun text => (String.ofList text, value)) =
      some members := by
  induction members with
  | nil => rfl
  | cons member rest ih => simp [List.mapM_cons, keyed, ih]

theorem ofMembers_map_keyed (members : List (String × Json)) :
    ofMembers (members.map keyed) = object members := by
  rw [ofMembers, mapM_keyed]

/-- A member is read up to its value; what follows decides whether there is another one. -/
theorem readMembers_member {value : Json} (readsBack : ReadsBack spacing value) {fuel depth : Nat}
    (enough : (write spacing depth value).length ≤ fuel) (key : String) (rest : List Char) :
    readMembers (fuel + 1)
        (quoted key ++ (spacing.colon ++ (write spacing depth value ++ rest))) =
      match skipSpace rest with
      | '\x7d' :: after => some ([keyed (key, value)], after)
      | ',' :: after =>
        (readMembers fuel after).map fun (others, after) => (keyed (key, value) :: others, after)
      | _ => none := by
  obtain ⟨space, colon, skipped⟩ :=
    readValue_colon fuel spacing (write spacing depth value ++ rest)
  rw [quoted_append, colon, readMembers, skipSpace_cons (by decide)]
  simp only [stringBody_quoted]
  rw [List.cons_append, skipSpace_cons (by decide)]
  simp only [skipped, readsBack fuel depth rest enough]
  rfl

theorem readMembers_write {key : String} {value : Json} {others : List (String × Json)}
    (readsBack : ∀ entry ∈ (key, value) :: others, ReadsBack spacing entry.2)
    (fuel depth outer : Nat) (rest : List Char)
    (enough : (write spacing depth value ++ writeMembers spacing depth others).length < fuel) :
    readMembers fuel (quoted key ++ (spacing.colon ++ (write spacing depth value ++
        (writeMembers spacing depth others ++ (spacing.newLine outer ++ '\x7d' :: rest))))) =
      some (((key, value) :: others).map keyed, rest) := by
  induction others generalizing key value fuel with
  | nil =>
    obtain ⟨first, -⟩ := List.forall_mem_cons.1 readsBack
    cases fuel with
    | zero => simp at enough
    | succ fuel =>
      have valueFuel : (write spacing depth value).length ≤ fuel := by
        simp only [List.length_append] at enough
        omega
      rw [readMembers_member first valueFuel]
      simp only [writeMembers, List.nil_append, skipSpace_newLine]
      rfl
  | cons next more ih =>
    obtain ⟨nextKey, nextValue⟩ := next
    obtain ⟨first, later⟩ := List.forall_mem_cons.1 readsBack
    cases fuel with
    | zero => simp at enough
    | succ fuel =>
      simp only [writeMembers, List.length_append, List.length_cons] at enough
      have valueFuel : (write spacing depth value).length ≤ fuel := by omega
      have restFuel : (write spacing depth nextValue ++ writeMembers spacing depth more).length <
          fuel := by
        simp only [List.length_append]
        omega
      have others := ih later fuel restFuel
      rw [readMembers_member first valueFuel]
      simp only [writeMembers, List.cons_append, List.append_assoc]
      rw [skipSpace_cons (by decide)]
      simp only [readMembers_newLine, others]
      rfl

theorem readsBack_null : ReadsBack spacing null := by
  intro fuel depth rest enough
  cases fuel with
  | zero => simp [write] at enough
  | succ fuel => simp [write, readValue, skipSpace, isSpace]

theorem readsBack_boolean (value : Bool) : ReadsBack spacing (boolean value) := by
  intro fuel depth rest enough
  cases fuel with
  | zero => cases value <;> simp [write] at enough
  | succ fuel => cases value <;> simp [write, readValue, skipSpace, isSpace]

theorem readsBack_string (text : String) : ReadsBack spacing (string text) := by
  intro fuel depth rest enough
  cases fuel with
  | zero => simp [write, quoted] at enough
  | succ fuel =>
    rw [write, quoted_append, readValue, skipSpace_cons (by decide)]
    simp only [stringBody_quoted, Option.map_some, ofContent, String.ofList_toList]

theorem readsBack_array {items : List Json} (plain : ∀ item ∈ items, Plain item)
    (readsBack : ∀ item ∈ items, ReadsBack spacing item) : ReadsBack spacing (array items) := by
  intro fuel depth rest enough
  cases fuel with
  | zero => cases items <;> simp [write] at enough
  | succ fuel =>
    cases items with
    | nil =>
      simp only [write, List.cons_append, List.nil_append]
      rw [readValue, skipSpace_cons (by decide)]
      simp only [skipSpace_cons (by decide : isSpace ']' = false)]
    | cons item others =>
      simp only [write, List.length_append, List.length_cons, List.length_nil] at enough
      have itemsFuel : (write spacing (depth + 1) item ++
          writeItems spacing (depth + 1) others).length < fuel := by
        simp only [List.length_append]
        omega
      have inner := readItems_write readsBack fuel (depth + 1) depth rest itemsFuel
      simp only [write, List.cons_append, List.append_assoc, List.nil_append]
      rw [readValue, skipSpace_cons (by decide)]
      simp only [skipSpace_newLine]
      -- The first item does not start with the closing bracket of an empty array.
      obtain ⟨c, tail, starts, solid, notClosing⟩ :=
        (plain item List.mem_cons_self).exists_cons spacing (depth + 1)
      rw [starts, List.cons_append] at inner ⊢
      rw [skipSpace_cons solid]
      split
      case h_1 after closing => exact absurd (List.cons.inj closing).1 notClosing
      case h_2 => rw [inner]; rfl

theorem readsBack_object {members : List (String × Json)}
    (readsBack : ∀ entry ∈ members, ReadsBack spacing entry.2) :
    ReadsBack spacing (object members) := by
  intro fuel depth rest enough
  cases fuel with
  | zero => rcases members with _ | ⟨⟨_, _⟩, _⟩ <;> simp [write] at enough
  | succ fuel =>
    rcases members with _ | ⟨⟨key, value⟩, others⟩
    · simp only [write, List.cons_append, List.nil_append]
      rw [readValue, skipSpace_cons (by decide)]
      simp only [skipSpace_cons (by decide : isSpace '\x7d' = false)]
    · simp only [write, List.length_append, List.length_cons, List.length_nil] at enough
      have membersFuel : (write spacing (depth + 1) value ++
          writeMembers spacing (depth + 1) others).length < fuel := by
        simp only [List.length_append]
        omega
      have inner := readMembers_write readsBack fuel (depth + 1) depth rest membersFuel
      have opening (after : List Char) : skipSpace (quoted key ++ after) = quoted key ++ after :=
        skipSpace_cons (by decide) _
      simp only [write, List.cons_append, List.append_assoc, List.nil_append]
      rw [readValue, skipSpace_cons (by decide)]
      simp only [skipSpace_newLine, opening]
      split
      case h_1 after closing => simp [quoted] at closing
      case h_2 =>
        rw [inner, Option.map_some, ofMembers_map_keyed]

theorem readsBack_of_plain {json : Json} (plain : Plain json) : ReadsBack spacing json := by
  induction plain with
  | null => exact readsBack_null
  | boolean value => exact readsBack_boolean value
  | string text => exact readsBack_string text
  | array plain ih => exact readsBack_array plain ih
  | object _ _ ih => exact readsBack_object ih

theorem read_render {json : Json} (plain : Plain json) (spacing : Spacing) :
    read? (render spacing json) = some json := by
  have readsBack : ReadsBack spacing json := readsBack_of_plain plain
  have whole := readsBack (2 * (write spacing 0 json).length + 2) 0 [] (by omega)
  rw [List.append_nil] at whole
  have length : (render spacing json).length = (write spacing 0 json).length := by
    simp [render]
  rw [read?, length, render, String.toList_ofList, whole]
  rfl

/-! ## Nesting -/

theorem itemsFit_iff {nesting : Nat} {items : List Json} :
    itemsFit nesting items = true ↔ ∀ item ∈ items, fits nesting item = true := by
  induction items with
  | nil => simp [itemsFit]
  | cons item rest ih => simp [itemsFit, ih]

theorem membersFit_iff {nesting : Nat} {members : List (String × Json)} :
    membersFit nesting members = true ↔ ∀ entry ∈ members, fits nesting entry.2 = true := by
  induction members with
  | nil => simp [membersFit]
  | cons entry rest ih => simp [membersFit, ih]

/-- A plain value that keeps a limit to the nesting. -/
structure PlainWithin (nesting : Nat) (json : Json) : Prop where
  plain : Plain json
  fits : json.fits nesting = true

theorem plainWithin_string (nesting : Nat) (text : String) : PlainWithin nesting (string text) :=
  ⟨.string text, rfl⟩

theorem plainWithin_boolean (nesting : Nat) (value : Bool) : PlainWithin nesting (boolean value) :=
  ⟨.boolean value, rfl⟩

theorem plainWithin_array {nesting : Nat} {items : List Json}
    (within : ∀ item ∈ items, PlainWithin nesting item) : PlainWithin (nesting + 1) (array items) where
  plain := .array fun item member => (within item member).plain
  fits := itemsFit_iff.2 fun item member => (within item member).fits

theorem plainWithin_object {nesting : Nat} {members : List (String × Json)}
    (nodup : (members.map Prod.fst).Nodup)
    (within : ∀ entry ∈ members, PlainWithin nesting entry.2) :
    PlainWithin (nesting + 1) (object members) where
  plain := .object nodup fun entry member => (within entry member).plain
  fits := membersFit_iff.2 fun entry member => (within entry member).fits

end DocCatalog.Json
