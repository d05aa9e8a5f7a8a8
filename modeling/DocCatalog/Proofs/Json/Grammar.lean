import DocCatalog.Json.Reader

/-!
# The JSON grammar

The grammar says which texts are JSON, without a limit to the nesting, and the reader accepts no other
text. A value is said apart from the spaces around it; items and members are said with theirs.

Results:
1. `quotes_of_stringBody`, `number_of_number?`: what is read as a string or as a number is one.
2. `Sound.readValue`, `Sound.readItems`, `Sound.readMembers`: what one more level of the reader accepts.
3. `grammatical_of_read?`: a text that is read is JSON.
-/

namespace DocCatalog.Json

open Text (hexUnit?)

/-! ## The grammar -/

/-- Spaces between two tokens. -/
def Blank (text : List Char) : Prop :=
  ∀ c ∈ text, isSpace c = true

/-- What stands between the quotes of a string. -/
inductive StringText : List Char → Prop
  | nil : StringText []
  | plain {c : Char} {text : List Char} :
      c ≠ '\x22' → c ≠ '\\' → 0x20 ≤ c.toNat → StringText text → StringText (c :: text)
  /-- A backslash and one of the eight letters. -/
  | letter {c : Char} {text : List Char} :
      (simpleEscape? c).isSome → StringText text → StringText ('\\' :: c :: text)
  /-- A backslash, an `u` and four hexadecimal digits. -/
  | unit {a b c d : Char} {text : List Char} :
      (hexUnit? a b c d).isSome → StringText text →
      StringText ('\\' :: 'u' :: a :: b :: c :: d :: text)

/-- One digit or more. -/
def DigitsText (text : List Char) : Prop :=
  text ≠ [] ∧ ∀ c ∈ text, c.isDigit = true

/-- A number before the point: zero, or digits that do not start with one. -/
def WholeText (text : List Char) : Prop :=
  text = ['0'] ∨ DigitsText text ∧ text.head? ≠ some '0'

def FractionText (text : List Char) : Prop :=
  text = [] ∨ ∃ digits, text = '.' :: digits ∧ DigitsText digits

def ExponentText (text : List Char) : Prop :=
  text = [] ∨ ∃ e sign digits, text = e :: (sign ++ digits) ∧ (e = 'e' ∨ e = 'E') ∧
    (sign = [] ∨ sign = ['+'] ∨ sign = ['-']) ∧ DigitsText digits

def MagnitudeText (text : List Char) : Prop :=
  ∃ whole fraction exponent, text = whole ++ fraction ++ exponent ∧ WholeText whole ∧
    FractionText fraction ∧ ExponentText exponent

def NumberText (text : List Char) : Prop :=
  MagnitudeText text ∨ ∃ magnitude, text = '-' :: magnitude ∧ MagnitudeText magnitude

mutual

/-- A value without spaces around it. -/
inductive ValueText : List Char → Prop
  | null : ValueText ['n', 'u', 'l', 'l']
  | yes : ValueText ['t', 'r', 'u', 'e']
  | no : ValueText ['f', 'a', 'l', 's', 'e']
  | number {text : List Char} : NumberText text → ValueText text
  | string {text : List Char} : StringText text → ValueText ('\x22' :: text ++ ['\x22'])
  | emptyArray {space : List Char} : Blank space → ValueText ('[' :: space ++ [']'])
  | array {text : List Char} : ItemsText text → ValueText ('[' :: text ++ [']'])
  | emptyObject {space : List Char} : Blank space → ValueText ('\x7b' :: space ++ ['\x7d'])
  | object {text : List Char} : MembersText text → ValueText ('\x7b' :: text ++ ['\x7d'])

/-- One or more values with commas between them. -/
inductive ItemsText : List Char → Prop
  | last {before value after : List Char} :
      Blank before → ValueText value → Blank after → ItemsText (before ++ value ++ after)
  | more {before value after rest : List Char} :
      Blank before → ValueText value → Blank after → ItemsText rest →
      ItemsText (before ++ value ++ after ++ ',' :: rest)

/-- One or more members with commas between them, each a string, a colon and a value. -/
inductive MembersText : List Char → Prop
  | last {before key between space value after : List Char} :
      Blank before → StringText key → Blank between → Blank space → ValueText value → Blank after →
      MembersText (before ++ '\x22' :: key ++ '\x22' :: between ++ ':' :: space ++ value ++ after)
  | more {before key between space value after rest : List Char} :
      Blank before → StringText key → Blank between → Blank space → ValueText value → Blank after →
      MembersText rest →
      MembersText (before ++ '\x22' :: key ++ '\x22' :: between ++ ':' :: space ++ value ++ after ++
        ',' :: rest)

end

/-- A whole text: one value with spaces around it. -/
def Grammatical (text : List Char) : Prop :=
  ∃ before value after, text = before ++ value ++ after ∧ Blank before ∧ ValueText value ∧ Blank after

/-! ## Spaces -/

theorem Blank.append {first second : List Char} (blank : Blank first) (others : Blank second) :
    Blank (first ++ second) :=
  List.forall_mem_append.2 ⟨blank, others⟩

theorem exists_blank_skipSpace (text : List Char) :
    ∃ space, text = space ++ skipSpace text ∧ Blank space := by
  refine ⟨text.takeWhile isSpace, List.takeWhile_append_dropWhile.symm, ?_⟩
  exact fun c member => List.all_eq_true.1 List.all_takeWhile c member

theorem ItemsText.pad {space text : List Char} (blank : Blank space) (items : ItemsText text) :
    ItemsText (space ++ text) := by
  cases items with
  | last before value after =>
    rw [← List.append_assoc, ← List.append_assoc]
    exact .last (blank.append before) value after
  | more before value after rest =>
    rw [← List.append_assoc, ← List.append_assoc, ← List.append_assoc]
    exact .more (blank.append before) value after rest

theorem MembersText.pad {space text : List Char} (blank : Blank space)
    (members : MembersText text) : MembersText (space ++ text) := by
  cases members with
  | last before key between inner value after =>
    have padded := MembersText.last (blank.append before) key between inner value after
    simpa using padded
  | more before key between inner value after rest =>
    have padded := MembersText.more (blank.append before) key between inner value after rest
    simpa using padded

/-! ## Strings -/

/-- The text starts with the inside of a string and its closing quote. -/
def Quotes (text rest : List Char) : Prop :=
  ∃ body, text = body ++ '\x22' :: rest ∧ StringText body

theorem Quotes.plain {c : Char} {text rest : List Char} (notQuote : c ≠ '\x22')
    (notBackslash : c ≠ '\\') (notControl : 0x20 ≤ c.toNat) (quotes : Quotes text rest) :
    Quotes (c :: text) rest := by
  obtain ⟨body, rfl, inner⟩ := quotes
  exact ⟨c :: body, rfl, .plain notQuote notBackslash notControl inner⟩

theorem Quotes.letter {c : Char} {text rest : List Char} (escape : (simpleEscape? c).isSome)
    (quotes : Quotes text rest) : Quotes ('\\' :: c :: text) rest := by
  obtain ⟨body, rfl, inner⟩ := quotes
  exact ⟨'\\' :: c :: body, rfl, .letter escape inner⟩

theorem Quotes.unit {a b c d : Char} {n : Nat} {text rest : List Char}
    (digits : hexUnit? a b c d = some n) (quotes : Quotes text rest) :
    Quotes ('\\' :: 'u' :: a :: b :: c :: d :: text) rest := by
  obtain ⟨body, rfl, inner⟩ := quotes
  have isUnit : (hexUnit? a b c d).isSome := by simp [digits]
  exact ⟨'\\' :: 'u' :: a :: b :: c :: d :: body, rfl, .unit isUnit inner⟩

/-- What is read of the rest does not depend on what is done with the content. -/
theorem exists_read_of_map {content : Option (List Char)} {rest : List Char}
    {read : Option (Option (List Char) × List Char)}
    {grow : Option (List Char) × List Char → Option (List Char) × List Char}
    (grown : read.map grow = some (content, rest)) (same : ∀ pair, (grow pair).2 = pair.2) :
    ∃ inner, read = some (inner, rest) := by
  obtain ⟨⟨inner, after⟩, found, equal⟩ := Option.map_eq_some_iff.1 grown
  have after : after = rest := (same _).symm.trans (congrArg Prod.snd equal)
  exact ⟨inner, after ▸ found⟩

theorem quotes_of_stringBody {high : Option Nat} {text rest : List Char}
    {content : Option (List Char)} (read : stringBody high text = some (content, rest)) :
    Quotes text rest := by
  fun_induction stringBody high text generalizing content rest with
  | case1 => cases read
  | case2 =>
    cases read
    exact ⟨[], rfl, .nil⟩
  | case3 => cases read
  | case4 _ _ _ _ _ _ _ digits ih =>
    obtain ⟨_, found⟩ := exists_read_of_map read fun _ => rfl
    exact (ih found).unit digits
  | case5 _ _ _ _ _ _ digits _ _ ih => exact (ih read).unit digits
  | case6 _ _ _ _ _ _ digits _ _ ih | case7 _ _ _ _ _ _ digits _ _ ih
  | case8 _ _ _ _ _ _ digits _ _ ih =>
    obtain ⟨_, found⟩ := exists_read_of_map read fun _ => rfl
    exact (ih found).unit digits
  | case9 => cases read
  | case10 _ _ _ _ _ escape ih =>
    obtain ⟨_, found⟩ := exists_read_of_map read fun _ => rfl
    exact (ih found).letter (by simp [escape])
  | case11 => cases read
  | case12 _ c _ notQuote _ _ unescaped ih =>
    obtain ⟨_, found⟩ := exists_read_of_map read fun _ => rfl
    obtain ⟨notBackslash, notControl⟩ := not_or.1 unescaped
    exact (ih found).plain notQuote notBackslash (Nat.not_lt.1 notControl)

/-! ## Numbers -/

theorem digits_of_digits? {text run rest : List Char} (read : digits? text = some (run, rest)) :
    text = run ++ rest ∧ DigitsText run := by
  have whole : text.takeWhile Char.isDigit ++ text.dropWhile Char.isDigit = text :=
    List.takeWhile_append_dropWhile
  have digits : ∀ c ∈ text.takeWhile Char.isDigit, c.isDigit = true :=
    fun c member => List.all_eq_true.1 List.all_takeWhile c member
  unfold digits? at read
  split at read
  · cases read
  case h_2 some =>
    cases read
    exact ⟨whole.symm, some, digits⟩

theorem whole_of_whole? {text run rest : List Char} (read : whole? text = some (run, rest)) :
    text = run ++ rest ∧ WholeText run := by
  unfold whole? at read
  split at read
  · cases read
    exact ⟨rfl, Or.inl rfl⟩
  case h_2 notZero =>
    obtain ⟨rfl, digits⟩ := digits_of_digits? read
    refine ⟨rfl, Or.inr ⟨digits, fun zero => ?_⟩⟩
    obtain ⟨more, rfl⟩ := List.head?_eq_some_iff.1 zero
    exact notZero _ rfl

theorem fraction_of_fraction? {text part rest : List Char}
    (read : fraction? text = some (part, rest)) : text = part ++ rest ∧ FractionText part := by
  unfold fraction? at read
  split at read
  · obtain ⟨⟨run, after⟩, found, equal⟩ := Option.map_eq_some_iff.1 read
    cases equal
    obtain ⟨rfl, digits⟩ := digits_of_digits? found
    exact ⟨rfl, Or.inr ⟨run, rfl, digits⟩⟩
  · cases read
    exact ⟨rfl, Or.inl rfl⟩

theorem exponent_of_digits? {e : Char} (letter : e = 'e' ∨ e = 'E') {sign text part rest : List Char}
    (signed : sign = [] ∨ sign = ['+'] ∨ sign = ['-'])
    (read : ((digits? text).map fun (run, after) => (e :: (sign ++ run), after)) =
      some (part, rest)) : e :: (sign ++ text) = part ++ rest ∧ ExponentText part := by
  obtain ⟨⟨run, after⟩, found, equal⟩ := Option.map_eq_some_iff.1 read
  cases equal
  obtain ⟨rfl, digits⟩ := digits_of_digits? found
  exact ⟨by simp, Or.inr ⟨e, sign, run, rfl, letter, signed, digits⟩⟩

theorem exponent_of_exponent? {text part rest : List Char}
    (read : exponent? text = some (part, rest)) : text = part ++ rest ∧ ExponentText part := by
  unfold exponent? at read
  split at read
  case h_1 e more =>
    split at read
    case isTrue letter =>
      split at read
      case h_1 => exact exponent_of_digits? letter (Or.inr (Or.inl rfl)) read
      case h_2 => exact exponent_of_digits? letter (Or.inr (Or.inr rfl)) read
      case h_3 => exact exponent_of_digits? letter (Or.inl rfl) read
    case isFalse =>
      cases read
      exact ⟨rfl, Or.inl rfl⟩
  case h_2 =>
    cases read
    exact ⟨rfl, Or.inl rfl⟩

theorem magnitude_of_magnitude? {text numeral rest : List Char}
    (read : magnitude? text = some (numeral, rest)) :
    text = numeral ++ rest ∧ MagnitudeText numeral := by
  obtain ⟨⟨whole, afterWhole⟩, readWhole, read⟩ := Option.bind_eq_some_iff.1 read
  obtain ⟨⟨fraction, afterFraction⟩, readFraction, read⟩ := Option.bind_eq_some_iff.1 read
  obtain ⟨⟨exponent, after⟩, readExponent, equal⟩ := Option.bind_eq_some_iff.1 read
  cases equal
  obtain ⟨rfl, isWhole⟩ := whole_of_whole? readWhole
  obtain ⟨rfl, isFraction⟩ := fraction_of_fraction? readFraction
  obtain ⟨rfl, isExponent⟩ := exponent_of_exponent? readExponent
  exact ⟨by simp, whole, fraction, exponent, rfl, isWhole, isFraction, isExponent⟩

theorem number_of_number? {text numeral rest : List Char}
    (read : number? text = some (numeral, rest)) : text = numeral ++ rest ∧ NumberText numeral := by
  unfold number? at read
  split at read
  · obtain ⟨⟨magnitude, after⟩, found, equal⟩ := Option.map_eq_some_iff.1 read
    cases equal
    obtain ⟨rfl, isMagnitude⟩ := magnitude_of_magnitude? found
    exact ⟨rfl, Or.inr ⟨magnitude, rfl, isMagnitude⟩⟩
  · obtain ⟨rfl, isMagnitude⟩ := magnitude_of_magnitude? read
    exact ⟨rfl, Or.inl isMagnitude⟩

/-! ## Values -/

/-- What the reader accepts with some fuel. -/
structure Sound (fuel : Nat) : Prop where
  value : ∀ {text json rest}, readValue fuel text = some (json, rest) →
    ∃ before value, text = before ++ value ++ rest ∧ Blank before ∧ ValueText value
  items : ∀ {text items rest}, readItems fuel text = some (items, rest) →
    ∃ body, text = body ++ ']' :: rest ∧ ItemsText body
  members : ∀ {text members rest}, readMembers fuel text = some (members, rest) →
    ∃ body, text = body ++ '\x7d' :: rest ∧ MembersText body

theorem sound_zero : Sound 0 where
  value read := by cases read
  items read := by cases read
  members read := by cases read

variable {fuel : Nat}

theorem Sound.readValue (sound : Sound fuel) {text rest : List Char} {json : Json}
    (read : Json.readValue (fuel + 1) text = some (json, rest)) :
    ∃ before value, text = before ++ value ++ rest ∧ Blank before ∧ ValueText value := by
  obtain ⟨before, split, blank⟩ := exists_blank_skipSpace text
  suffices starts : ∃ value, skipSpace text = value ++ rest ∧ ValueText value by
    obtain ⟨value, equal, isValue⟩ := starts
    refine ⟨before, value, ?_, blank, isValue⟩
    rw [List.append_assoc, ← equal]
    exact split
  rw [Json.readValue] at read
  split at read
  case h_1 inner equal =>
    obtain ⟨⟨content, after⟩, found, same⟩ := Option.map_eq_some_iff.1 read
    cases same
    obtain ⟨body, rfl, string⟩ := quotes_of_stringBody found
    exact ⟨_, by simpa using equal, .string string⟩
  case h_2 inner equal =>
    obtain ⟨space, split, spaces⟩ := exists_blank_skipSpace inner
    split at read
    case h_1 after closing =>
      cases read
      rw [closing] at split
      exact ⟨'[' :: space ++ [']'], by simp [equal, split], .emptyArray spaces⟩
    case h_2 =>
      obtain ⟨⟨items, after⟩, found, same⟩ := Option.map_eq_some_iff.1 read
      cases same
      obtain ⟨body, starts, isItems⟩ := sound.items found
      rw [starts] at split
      exact ⟨'[' :: (space ++ body) ++ [']'], by simp [equal, split], .array (isItems.pad spaces)⟩
  case h_3 inner equal =>
    obtain ⟨space, split, spaces⟩ := exists_blank_skipSpace inner
    split at read
    case h_1 after closing =>
      cases read
      rw [closing] at split
      exact ⟨'\x7b' :: space ++ ['\x7d'], by simp [equal, split], .emptyObject spaces⟩
    case h_2 =>
      obtain ⟨⟨members, after⟩, found, same⟩ := Option.map_eq_some_iff.1 read
      cases same
      obtain ⟨body, starts, isMembers⟩ := sound.members found
      rw [starts] at split
      exact ⟨'\x7b' :: (space ++ body) ++ ['\x7d'], by simp [equal, split],
        .object (isMembers.pad spaces)⟩
  case h_4 after equal =>
    cases read
    exact ⟨_, equal, .null⟩
  case h_5 after equal =>
    cases read
    exact ⟨_, equal, .yes⟩
  case h_6 after equal =>
    cases read
    exact ⟨_, equal, .no⟩
  case h_7 =>
    obtain ⟨⟨numeral, after⟩, found, same⟩ := Option.map_eq_some_iff.1 read
    cases same
    obtain ⟨starts, isNumber⟩ := number_of_number? found
    exact ⟨numeral, starts, .number isNumber⟩

theorem Sound.readItems (sound : Sound fuel) {text rest : List Char} {items : List Json}
    (read : Json.readItems (fuel + 1) text = some (items, rest)) :
    ∃ body, text = body ++ ']' :: rest ∧ ItemsText body := by
  rw [Json.readItems] at read
  split at read
  · cases read
  case h_2 item after found =>
    obtain ⟨before, value, rfl, blank, isValue⟩ := sound.value found
    obtain ⟨space, split, spaces⟩ := exists_blank_skipSpace after
    split at read
    case h_1 closing =>
      cases read
      rw [closing] at split
      exact ⟨before ++ value ++ space, by simp [split], .last blank isValue spaces⟩
    case h_2 inner comma =>
      obtain ⟨⟨others, afterOthers⟩, foundOthers, same⟩ := Option.map_eq_some_iff.1 read
      cases same
      obtain ⟨body, rfl, isItems⟩ := sound.items foundOthers
      rw [comma] at split
      exact ⟨before ++ value ++ space ++ ',' :: body, by simp [split],
        .more blank isValue spaces isItems⟩
    · cases read

theorem Sound.readMembers (sound : Sound fuel) {text rest : List Char}
    {members : List (Option (List Char) × Json)}
    (read : Json.readMembers (fuel + 1) text = some (members, rest)) :
    ∃ body, text = body ++ '\x7d' :: rest ∧ MembersText body := by
  obtain ⟨before, splitKey, blank⟩ := exists_blank_skipSpace text
  rw [Json.readMembers] at read
  split at read
  case h_2 => cases read
  case h_1 quoted opening =>
    rw [opening] at splitKey
    split at read
    · cases read
    case h_2 content afterKey foundKey =>
      obtain ⟨key, rfl, isKey⟩ := quotes_of_stringBody foundKey
      obtain ⟨between, splitColon, betweenBlank⟩ := exists_blank_skipSpace afterKey
      split at read
      case h_2 => cases read
      case h_1 afterColon colon =>
        rw [colon] at splitColon
        split at read
        · cases read
        case h_2 json afterValue foundValue =>
          obtain ⟨space, value, rfl, spaceBlank, isValue⟩ := sound.value foundValue
          obtain ⟨after, splitValue, afterBlank⟩ := exists_blank_skipSpace afterValue
          split at read
          case h_1 closing =>
            cases read
            rw [closing] at splitValue
            refine ⟨_, ?_, .last blank isKey betweenBlank spaceBlank isValue afterBlank⟩
            simp [splitKey, splitColon, splitValue]
          case h_2 inner comma =>
            obtain ⟨⟨others, afterOthers⟩, foundOthers, same⟩ := Option.map_eq_some_iff.1 read
            cases same
            obtain ⟨body, rfl, isMembers⟩ := sound.members foundOthers
            rw [comma] at splitValue
            refine ⟨_, ?_, .more blank isKey betweenBlank spaceBlank isValue afterBlank isMembers⟩
            simp [splitKey, splitColon, splitValue]
          · cases read

theorem sound (fuel : Nat) : Sound fuel := by
  induction fuel with
  | zero => exact sound_zero
  | succ fuel ih => exact ⟨ih.readValue, ih.readItems, ih.readMembers⟩

/-- The reader accepts nothing but JSON. -/
theorem grammatical_of_read? {text : String} {json : Json} (accepted : read? text = some json) :
    Grammatical text.toList := by
  unfold read? at accepted
  split at accepted
  · cases accepted
  case h_2 value rest found =>
    obtain ⟨before, inner, starts, blank, isValue⟩ := (sound _).value found
    obtain ⟨after, split, afterBlank⟩ := exists_blank_skipSpace rest
    split at accepted
    case isTrue ended =>
      rw [ended, List.append_nil] at split
      exact ⟨before, inner, after, split ▸ starts, blank, isValue, afterBlank⟩
    case isFalse => cases accepted

end DocCatalog.Json
