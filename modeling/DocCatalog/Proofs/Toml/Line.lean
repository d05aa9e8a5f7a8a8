import DocCatalog.Toml.Reader

/-!
# Lines that give a string to a key

A line of a document that holds a bare key and a string adds the string to the table, whatever
lines follow it. The string may be written in any of the forms that the language has; what the
reader makes of it is said once, by `Quotes`.

Results:
1. `quotes_escape`, `quotes_verbatim`: strings in double quotes.
2. `key?_bare`: a bare key is read up to the white space behind it.
3. `readLines?_setting`: a line is read and the reader goes on behind it.
-/

namespace DocCatalog.Toml

/-! ## Strings -/

/-- What is written is a string with a content, at least before a line feed. -/
structure Quotes (written content : List Char) : Prop where
  starts : ∃ quote rest, written = quote :: rest ∧ (quote = '\x22' ∨ quote = '\x27')
  reads : ∀ rest, string? (written ++ '\n' :: rest) = some (content, '\n' :: rest)

/-- A character that a string in double quotes holds as it is. -/
abbrev IsVerbatim (c : Char) : Prop :=
  isPlain c = true ∧ c ≠ '\x22' ∧ c ≠ '\\'

theorem lineString?_verbatim {content : List Char} (verbatim : ∀ c ∈ content, IsVerbatim c)
    {fuel : Nat} (enough : content.length < fuel) (rest : List Char) :
    lineString? '\x22' fuel (content ++ '\x22' :: rest) = some (content, rest) := by
  induction content generalizing fuel with
  | nil =>
    cases fuel with
    | zero => exact absurd enough (Nat.not_lt_zero _)
    | succ fuel => simp [lineString?]
  | cons c content ih =>
    obtain ⟨⟨plain, notQuote, notBackslash⟩, others⟩ := List.forall_mem_cons.1 verbatim
    cases fuel with
    | zero => exact absurd enough (Nat.not_lt_zero _)
    | succ fuel =>
      rw [List.cons_append, lineString?, if_neg notQuote, if_neg fun both => notBackslash both.1,
        if_pos plain, ih others (Nat.lt_of_succ_lt_succ enough)]
      rfl

theorem lineString?_escape {letters : List Char} {c : Char}
    (escape : ∀ rest, escape? (letters ++ rest) = some (c, rest)) (fuel : Nat) (rest : List Char) :
    lineString? '\x22' (fuel + 2) ('\\' :: letters ++ '\x22' :: rest) = some ([c], rest) := by
  have closes : lineString? '\x22' (fuel + 1) ('\x22' :: rest) = some ([], rest) := by
    rw [lineString?, if_pos rfl]
  rw [List.cons_append, lineString?, if_neg (by decide), if_pos ⟨rfl, rfl⟩, escape,
    Option.bind_some]
  simp only [closes, Option.map_some]

/-- Two quotes that are followed by something else are no longer quotes. -/
theorem string?_of_ne {b : Char} (differs : b ≠ '\x22') (c : Char) (rest : List Char) :
    string? ('\x22' :: b :: c :: rest) = lineString? '\x22' (rest.length + 3) (b :: c :: rest) := by
  rw [string?, if_neg (by simp), if_neg fun equal => differs equal.1.symm]

/-- A character that is written as an escape. -/
theorem quotes_escape {letters : List Char} {c : Char}
    (escape : ∀ rest, escape? (letters ++ rest) = some (c, rest)) :
    Quotes ('\x22' :: '\\' :: letters ++ ['\x22']) [c] where
  starts := ⟨'\x22', '\\' :: letters ++ ['\x22'], rfl, .inl rfl⟩
  reads rest := by
    have spelled : '\x22' :: '\\' :: letters ++ ['\x22'] ++ '\n' :: rest =
        '\x22' :: ('\\' :: letters ++ '\x22' :: '\n' :: rest) := by simp
    rw [spelled]
    cases letters with
    | nil => exact (string?_of_ne (by decide) _ _).trans (lineString?_escape escape _ _)
    | cons d letters => exact (string?_of_ne (by decide) _ _).trans (lineString?_escape escape _ _)

/-- A text that is written as it is. -/
theorem quotes_verbatim {content : List Char} (verbatim : ∀ c ∈ content, IsVerbatim c) :
    Quotes ('\x22' :: content ++ ['\x22']) content where
  starts := ⟨'\x22', content ++ ['\x22'], rfl, .inl rfl⟩
  reads rest := by
    have spelled : '\x22' :: content ++ ['\x22'] ++ '\n' :: rest =
        '\x22' :: (content ++ '\x22' :: '\n' :: rest) := by simp
    rw [spelled]
    match content with
    | [] => rfl
    | [c] =>
      obtain ⟨-, notQuote, -⟩ := verbatim c List.mem_cons_self
      exact (string?_of_ne notQuote _ _).trans (lineString?_verbatim verbatim (by simp) _)
    | c :: d :: content =>
      obtain ⟨-, notQuote, -⟩ := verbatim c List.mem_cons_self
      have enough : (c :: d :: content).length < (content ++ '\x22' :: '\n' :: rest).length + 3 := by
        rw [List.length_append, List.length_cons, List.length_cons]
        omega
      exact (string?_of_ne notQuote _ _).trans (lineString?_verbatim verbatim enough _)

theorem Quotes.readValue? {written content : List Char} (quotes : Quotes written content)
    (fuel depth : Nat) (rest : List Char) :
    Toml.readValue? (fuel + 1) depth (written ++ '\n' :: rest) =
      some (.string (String.ofList content), '\n' :: rest) := by
  have read := quotes.reads rest
  obtain ⟨quote, inner, rfl, double | single⟩ := quotes.starts
  · subst double
    rw [List.cons_append] at read ⊢
    rw [Toml.readValue?]
    simp [read]
  · subst single
    rw [List.cons_append] at read ⊢
    rw [Toml.readValue?]
    simp [read]

theorem Quotes.skipWhite {written content : List Char} (quotes : Quotes written content)
    (rest : List Char) : Toml.skipWhite (' ' :: written ++ rest) = written ++ rest := by
  obtain ⟨quote, inner, rfl, double | single⟩ := quotes.starts
  · subst double
    rfl
  · subst single
    rfl

/-! ## Keys -/

theorem not_white_of_bare {c : Char} (bare : isBareKeyChar c = true) :
    isWhite c = false ∧ c ∉ ['\x22', '\x27', '[', '#', '\n', '\r'] := by
  constructor
  · refine Bool.eq_false_iff.2 fun white => ?_
    have member : c = ' ' ∨ c = '\t' := by simpa [isWhite] using white
    rcases member with rfl | rfl <;> exact absurd bare (by decide)
  · intro member
    simp only [List.mem_cons, List.not_mem_nil, or_false] at member
    rcases member with rfl | rfl | rfl | rfl | rfl | rfl <;> exact absurd bare (by decide)

/-- A bare key is read up to the white space behind it. -/
theorem key?_bare {name : List Char} (present : name ≠ [])
    (bare : ∀ c ∈ name, isBareKeyChar c = true) (rest : List Char) :
    key? (name ++ ' ' :: '=' :: rest) = some ([String.ofList name], '=' :: rest) := by
  obtain ⟨c, more, rfl⟩ := List.exists_cons_of_ne_nil present
  obtain ⟨notWhite, noMark⟩ := not_white_of_bare (bare c List.mem_cons_self)
  have first : isBareKeyChar c = true := bare c List.mem_cons_self
  have stops : (' ' :: '=' :: rest).takeWhile isBareKeyChar = [] := rfl
  have goesOn : (' ' :: '=' :: rest).dropWhile isBareKeyChar = ' ' :: '=' :: rest := rfl
  have unquoted : ¬ (c = '\x22' ∨ c = '\x27') := by
    rintro (rfl | rfl) <;> exact noMark (by decide)
  have part : simpleKey? (c :: more ++ ' ' :: '=' :: rest) =
      some (c :: more, ' ' :: '=' :: rest) := by
    rw [List.cons_append, simpleKey?, if_neg unquoted, if_pos first, ← List.cons_append,
      List.takeWhile_append_of_pos bare, List.dropWhile_append_of_pos bare, stops, goesOn,
      List.append_nil]
  have start : skipWhite (c :: more ++ ' ' :: '=' :: rest) = c :: more ++ ' ' :: '=' :: rest := by
    rw [List.cons_append]
    exact List.dropWhile_cons_of_neg (by simp [notWhite])
  rw [key?, maxDepth, keyParts?, start, part]
  rfl

/-! ## Lines -/

/-- A bare key with a string, and the line feed. -/
def settingLine (name written : List Char) : List Char :=
  name ++ ' ' :: '=' :: ' ' :: written ++ ['\n']

theorem length_settingLine (name written : List Char) :
    (settingLine name written).length = name.length + written.length + 4 := by
  simp [settingLine]
  omega

/-- A line adds its string under a key that is not there yet. -/
theorem readLines?_setting {name written content : List Char} (present : name ≠ [])
    (bare : ∀ c ∈ name, isBareKeyChar c = true) (quotes : Quotes written content)
    {root : Members} (absent : root.lookup (String.ofList name) = none) (fuel : Nat)
    (rest : List Char) :
    readLines? (fuel + 1) [] root (settingLine name written ++ rest) =
      readLines? fuel [] (setKey (String.ofList name) (.string (String.ofList content)) root)
        rest := by
  have key := key?_bare present bare (' ' :: written ++ '\n' :: rest)
  have value (fuel depth : Nat) := quotes.readValue? fuel depth rest
  have behindEquals := quotes.skipWhite ('\n' :: rest)
  obtain ⟨c, more, rfl⟩ := List.exists_cons_of_ne_nil present
  obtain ⟨notWhite, noMark⟩ := not_white_of_bare (bare c List.mem_cons_self)
  have spelled : settingLine (c :: more) written ++ rest =
      c :: (more ++ ' ' :: '=' :: (' ' :: written ++ '\n' :: rest)) := by simp [settingLine]
  have start : skipWhite (c :: (more ++ ' ' :: '=' :: (' ' :: written ++ '\n' :: rest))) =
      c :: (more ++ ' ' :: '=' :: (' ' :: written ++ '\n' :: rest)) :=
    List.dropWhile_cons_of_neg (by simp [notWhite])
  have notBracket : c ≠ '[' := by
    rintro rfl
    exact noMark (by decide)
  have notVoid : ¬ (c = '#' ∨ c = '\n' ∨ c = '\r') := by
    rintro (rfl | rfl | rfl) <;> exact noMark (by decide)
  have stored : within? (assign? (.string (String.ofList content)) [String.ofList (c :: more)]) []
      root = some (setKey (String.ofList (c :: more)) (.string (String.ofList content)) root) := by
    rw [within?, assign?, absent]
    rfl
  rw [List.cons_append] at key
  rw [spelled, readLines?, start]
  split
  case h_1 nothing => cases nothing
  case h_2 bracket => exact absurd (List.cons.inj bracket).1 notBracket
  case h_3 bracket => exact absurd (List.cons.inj bracket).1 notBracket
  case h_4 d tail _ _ same =>
    obtain ⟨rfl, rfl⟩ := List.cons.inj same
    rw [if_neg notVoid, key]
    have ends : endLine? ('\n' :: rest) = some rest := rfl
    simp only [behindEquals, value, ends, stored, Option.bind_eq_bind, Option.bind_some]

/-- A document without a byte order mark is read from its first line on. -/
theorem read?_eq_readLines? {text : String} {c : Char} (starts : text.toList.head? = some c)
    (noMark : c ≠ '\ufeff') :
    read? text = readLines? (text.toList.length + 1) [] [] text.toList := by
  unfold read?
  split
  case h_1 rest marked =>
    rw [marked] at starts
    exact absurd (Option.some.inj starts).symm noMark
  case h_2 => rfl

end DocCatalog.Toml
