import DocCatalog.Proofs.Comment.Offsets

/-!
# A source scanned by byte offsets

The doc comments of a source can be found by moving one offset through its bytes. Quotes and line
ends are looked for in the bytes themselves, openers, closers and bodies are slices of the source.
Every access to a byte and every slice is checked here, and scanning gives nothing as soon as one
check fails or the allowed number of turns is used up.

Neither ever happens. The offset moves byte by byte also through characters of several bytes, where
no slice could start; but it takes a slice only where the byte of a slash stands, and such a byte is
a whole character. An offset behind the end of the source, which is where an unterminated literal or
line leaves the scanner, ends the scan.

Results:
1. `exists_closingQuote?`, `exists_lineEnd?`, `exists_docAt?`: every construct is left, at an offset
   from which on the source holds what stands behind the construct.
2. `turn?_plain`: a character that starts no construct is passed byte by byte.
3. `exists_turn?`: every turn in the source succeeds and moves the offset forward.
4. `bodiesByOffset?_eq`: as many turns as the source has bytes are enough to find the bodies of its
   doc comments, by induction along the source.
5. `scan_in_bounds`: the whole scan, comments included.
-/

namespace DocCatalog.Source

open String (utf8Len utf8EncodeChar)
open Text (bytes drop_bytes eq_toUInt8_iff exists_byte exists_char_at getElem?_bytes
  getElem?_bytes_single length_bytes offsetWhere? slice? slice?_back slice?_ofList utf8Len_concat)

/-! ## Definitions -/

/-- The offset of the quote that ends a literal, from an offset on that has `left` bytes behind it.
A byte before the quote that is a backslash keeps the literal open. Without such a quote the literal
ends with the source. -/
def closingQuote? (source : List UInt8) (quote : UInt8) (i : Nat) : (left : Nat) → Option Nat
  | 0 => some source.length
  | left + 1 => do
    let byte ← source[i]?
    if byte = quote then
      let previous ← if i = 0 then none else source[i - 1]?
      if previous = '\\'.toUInt8 then closingQuote? source quote (i + 1) left else return i
    else
      closingQuote? source quote (i + 1) left

/-- The offset of the line feed that ends the line of an offset, or the end of the source. -/
def lineEnd? (source : List UInt8) (start : Nat) : Option Nat :=
  if start ≤ source.length then
    some (((source.drop start).findIdx? (· == '\n'.toUInt8)).elim source.length (start + ·))
  else
    none

/-- The offset behind the doc comment that opens at an offset, and the body of the comment. The
closer is looked for from the second star of the opener on. -/
def docAt? (source : String) (pos : Nat) : Option (Nat × String) := do
  let inner ← slice? source (pos + 2) source.utf8ByteSize
  let (bodyEnd, next) :=
    match offsetWhere? (['*', '/'].isPrefixOf ·) inner.toList with
    | some offset => (pos + 2 + offset, pos + 2 + offset + 2)
    | none => (source.utf8ByteSize, source.utf8ByteSize)
  let body ← slice? source (min (pos + 3) bodyEnd) bodyEnd
  return (next, body)

/-- One turn of the scanner: the offset at which the next one starts, and the body of the doc
comment that was passed, if there was one. -/
def turn? (source : String) (pos : Nat) : Option (Nat × Option String) := do
  let code := bytes source
  let byte ← code[pos]?
  if byte = '\x27'.toUInt8 ∨ byte = '\x22'.toUInt8 then
    let closing ← closingQuote? code byte (pos + 1) (code.length - (pos + 1))
    return (closing + 1, none)
  else if byte = '/'.toUInt8 then
    if code[pos + 1]? = some '/'.toUInt8 then
      let lineEnd ← lineEnd? code pos
      return (lineEnd + 1, none)
    else
      let rest ← slice? source pos source.utf8ByteSize
      if ['/', '*', '*'].isPrefixOf rest.toList then
        let (next, body) ← docAt? source pos
        return (next, some body)
      else
        return (pos + 1, none)
  else
    return (pos + 1, none)

/-- The bodies of the doc comments from an offset on. The scan ends when the offset has left the
source, and fails when that takes more than the given number of turns. -/
def bodiesByOffset? (source : String) : (turns pos : Nat) → Option (List String)
  | 0, pos => if pos < source.utf8ByteSize then none else some []
  | turns + 1, pos =>
    if pos < source.utf8ByteSize then do
      let (next, body) ← turn? source pos
      let later ← bodiesByOffset? source turns next
      return body.toList ++ later
    else
      some []

/-- The doc comments of a source, found and read by byte offsets. There are as many turns as
bytes. -/
def commentsByOffset? (marker : Char) (source : String) : Option (List Comment) := do
  let found ← bodiesByOffset? source source.utf8ByteSize 0
  found.mapM (Comment.parseByOffset? marker)

/-- What a source holds from an offset on. Behind its end it holds nothing. -/
def LeftAt (source : String) (pos : Nat) (rest : List Char) : Prop :=
  ∃ before, source.toList = before ++ rest ∧
    (utf8Len before = pos ∨ rest = [] ∧ utf8Len before < pos)

theorem leftAt_of_append {source : String} {before rest : List Char}
    (whole : source.toList = before ++ rest) : LeftAt source (utf8Len before) rest :=
  ⟨before, whole, .inl rfl⟩

theorem leftAt_beyond {source : String} {pos : Nat} (beyond : source.utf8ByteSize < pos) :
    LeftAt source pos [] :=
  ⟨source.toList, (List.append_nil _).symm, .inr ⟨rfl, by rwa [String.utf8Len_toList]⟩⟩

theorem LeftAt.exists_append {source : String} {pos : Nat} {c : Char} {rest : List Char}
    (left : LeftAt source pos (c :: rest)) :
    ∃ before, source.toList = before ++ c :: rest ∧ utf8Len before = pos := by
  obtain ⟨before, whole, here | ⟨nothing, -⟩⟩ := left
  · exact ⟨before, whole, here⟩
  · cases nothing

theorem LeftAt.lt {source : String} {pos : Nat} {c : Char} {rest : List Char}
    (left : LeftAt source pos (c :: rest)) : pos < source.utf8ByteSize := by
  obtain ⟨before, whole, rfl⟩ := left.exists_append
  have := c.utf8Size_pos
  rw [← String.utf8Len_toList, whole, String.utf8Len_append, String.utf8Len_cons]
  omega

theorem LeftAt.le_of_nil {source : String} {pos : Nat} (left : LeftAt source pos []) :
    source.utf8ByteSize ≤ pos := by
  obtain ⟨before, whole, place⟩ := left
  have all : utf8Len before = source.utf8ByteSize := by
    rw [← String.utf8Len_toList, whole, List.append_nil]
  omega

/-! ## Literals -/

section Constructs

variable {source : String} {before rest : List Char}

/-- Bytes other than the quote are passed one after another. -/
theorem closingQuote?_plain {code : List UInt8} {quote : UInt8} {i n : Nat}
    (plain : ∀ j < n, ∃ byte, code[i + j]? = some byte ∧ byte ≠ quote) (left : Nat) :
    closingQuote? code quote i (n + left) = closingQuote? code quote (i + n) left := by
  induction n generalizing i with
  | zero => rw [Nat.zero_add, Nat.add_zero]
  | succ n ih =>
    obtain ⟨byte, here, other⟩ := plain 0 (Nat.zero_lt_succ n)
    have later (j : Nat) (inside : j < n) :
        ∃ byte, code[i + 1 + j]? = some byte ∧ byte ≠ quote := by
      have next := plain (j + 1) (Nat.succ_lt_succ inside)
      rwa [Nat.add_comm j 1, ← Nat.add_assoc] at next
    rw [Nat.add_zero] at here
    rw [Nat.add_right_comm, closingQuote?, here, Option.bind_eq_bind, Option.bind_some,
      if_neg other, ih later, Nat.add_right_comm, Nat.add_assoc i n 1]

/-- At a quote the byte before it decides. -/
theorem closingQuote?_quote {code : List UInt8} {quote previous : UInt8} {i : Nat}
    (here : code[i]? = some quote) (notFirst : i ≠ 0) (last : code[i - 1]? = some previous)
    (left : Nat) :
    closingQuote? code quote i (left + 1) =
      if previous = '\\'.toUInt8 then closingQuote? code quote (i + 1) left else some i := by
  rw [closingQuote?, here, Option.bind_eq_bind, Option.bind_some, if_pos rfl, if_neg notFirst, last]
  rfl

/-- A literal is left behind its closing quote. The induction is on what follows the character
passed last; a character of several bytes is passed at once. -/
theorem exists_closingQuote? {quote previous : Char} (single : quote.utf8Size = 1)
    (whole : source.toList = before ++ previous :: rest) :
    ∃ closing,
      closingQuote? (bytes source) quote.toUInt8 (utf8Len before + previous.utf8Size)
        (utf8Len rest) = some closing ∧
      utf8Len before < closing ∧ LeftAt source (closing + 1) (afterString quote previous rest) := by
  have passed : utf8Len before < utf8Len before + previous.utf8Size :=
    Nat.lt_add_of_pos_right previous.utf8Size_pos
  induction rest generalizing before previous with
  | nil =>
    have all : utf8Len before + previous.utf8Size = (bytes source).length := by
      rw [length_bytes, ← String.utf8Len_toList, whole, utf8Len_concat]
    exact ⟨(bytes source).length, rfl, all ▸ passed,
      leftAt_beyond (by rw [length_bytes]; exact Nat.lt_succ_self _)⟩
  | cons c rest ih =>
    have grown := whole.trans (List.append_cons before previous (c :: rest))
    obtain ⟨closing, found, later, left⟩ := ih grown (Nat.lt_add_of_pos_right c.utf8Size_pos)
    rw [utf8Len_concat] at found later
    rw [afterString, String.utf8Len_cons]
    by_cases isQuote : c = quote
    · subst isQuote
      have here := getElem?_bytes_single grown single
      obtain ⟨byte, member, last⟩ :=
        exists_byte whole (Nat.sub_lt previous.utf8Size_pos Nat.one_pos)
      rw [utf8Len_concat] at here
      rw [← Nat.add_sub_assoc previous.utf8Size_pos] at last
      have notFirst : utf8Len before + previous.utf8Size ≠ 0 := Nat.ne_zero_of_lt passed
      rw [single] at found ⊢
      rw [closingQuote?_quote here notFirst last, if_congr (eq_toUInt8_iff rfl member) rfl rfl]
      by_cases backslash : previous = '\\'
      · rw [if_pos backslash, if_neg fun closes => closes.2 backslash]
        exact ⟨closing, found, Nat.lt_trans passed later, left⟩
      · have left := leftAt_of_append (grown.trans (List.append_cons _ c rest))
        rw [utf8Len_concat, utf8Len_concat, single] at left
        rw [if_neg backslash, if_pos ⟨rfl, backslash⟩]
        exact ⟨_, rfl, passed, left⟩
    · have plain (j : Nat) (inside : j < c.utf8Size) :
          ∃ byte, (bytes source)[utf8Len before + previous.utf8Size + j]? = some byte ∧
            byte ≠ quote.toUInt8 := by
        obtain ⟨byte, member, here⟩ := exists_byte grown inside
        rw [utf8Len_concat] at here
        exact ⟨byte, here, mt (eq_toUInt8_iff single member).1 isQuote⟩
      rw [if_neg fun closes => isQuote closes.1, Nat.add_comm (utf8Len rest),
        closingQuote?_plain plain]
      exact ⟨closing, found, Nat.lt_trans passed later, left⟩

/-! ## Lines -/

/-- In the bytes of a text the first line feed is at the offset of the first line feed. -/
theorem exists_lineFeed (whole : source.toList = before ++ rest) :
    ∃ lineEnd,
      ((rest.flatMap utf8EncodeChar).findIdx? (· == '\n'.toUInt8)).elim source.utf8ByteSize
        (utf8Len before + ·) = lineEnd ∧
      utf8Len before ≤ lineEnd ∧ LeftAt source (lineEnd + 1) (afterLine rest) := by
  induction rest generalizing before with
  | nil =>
    refine ⟨source.utf8ByteSize, rfl, ?_, leftAt_beyond (Nat.lt_succ_self _)⟩
    rw [← String.utf8Len_toList, whole, String.utf8Len_append]
    exact Nat.le_add_right _ _
  | cons c rest ih =>
    have grown := whole.trans (List.append_cons before c rest)
    rw [afterLine, List.flatMap_cons, List.findIdx?_append]
    by_cases isEnd : c = '\n'
    · subst isEnd
      have left := leftAt_of_append grown
      rw [utf8Len_concat] at left
      exact ⟨utf8Len before, rfl, Nat.le_refl _, left⟩
    · have inLine : (utf8EncodeChar c).findIdx? (· == '\n'.toUInt8) = none := by
        refine List.findIdx?_eq_none_iff.2 fun byte member => ?_
        exact beq_eq_false_iff_ne.2 (mt (eq_toUInt8_iff rfl member).1 isEnd)
      obtain ⟨lineEnd, found, later, left⟩ := ih grown
      rw [utf8Len_concat] at found later
      rw [inLine, Option.none_or, String.length_utf8EncodeChar, if_neg isEnd]
      refine ⟨lineEnd, ?_, by omega, left⟩
      rw [← found, Option.elim_map]
      congr 1
      funext i
      rw [Function.comp, Nat.add_assoc, Nat.add_comm i]

/-- A line is left behind its line feed. -/
theorem exists_lineEnd? (whole : source.toList = before ++ rest) :
    ∃ lineEnd, lineEnd? (bytes source) (utf8Len before) = some lineEnd ∧
      utf8Len before ≤ lineEnd ∧ LeftAt source (lineEnd + 1) (afterLine rest) := by
  have inside : utf8Len before ≤ (bytes source).length := by
    rw [length_bytes, ← String.utf8Len_toList, whole, String.utf8Len_append]
    exact Nat.le_add_right _ _
  obtain ⟨lineEnd, found, later, left⟩ := exists_lineFeed whole
  refine ⟨lineEnd, ?_, later, left⟩
  rw [lineEnd?, if_pos inside, drop_bytes whole, length_bytes, found]

/-! ## Doc comments -/

/-- The search for a closer finds the end of the body before it. -/
theorem offsetWhere?_closer (text : List Char) :
    offsetWhere? (['*', '/'].isPrefixOf ·) text =
      (splitAtClose? text).map fun parts => utf8Len parts.1 := by
  fun_induction splitAtClose? text with
  | case1 after => rfl
  | case2 c rest other ih =>
    have noCloser : ['*', '/'].isPrefixOf (c :: rest) = false := by
      refine Bool.eq_false_iff.2 fun closes => ?_
      obtain ⟨after, split⟩ := List.isPrefixOf_iff_prefix.1 closes
      obtain ⟨rfl, rfl⟩ := List.cons.inj split
      exact other after rfl rfl
    rw [offsetWhere?, noCloser, if_neg Bool.false_ne_true, ih, Option.map_map, Option.map_map]
    congr 1
    funext parts
    exact Nat.add_comm _ _
  | case3 => rfl

theorem docAt?_closed {pos offset : Nat} {inner : List Char} {body : String}
    (tail : slice? source (pos + 2) source.utf8ByteSize = some (String.ofList inner))
    (closer : offsetWhere? (['*', '/'].isPrefixOf ·) inner = some offset)
    (held : slice? source (min (pos + 3) (pos + 2 + offset)) (pos + 2 + offset) = some body) :
    docAt? source pos = some (pos + 2 + offset + 2, body) := by
  simp only [docAt?, tail, String.toList_ofList, closer, held, Option.bind_eq_bind,
    Option.bind_some]
  rfl

theorem docAt?_open {pos : Nat} {inner : List Char} {body : String}
    (tail : slice? source (pos + 2) source.utf8ByteSize = some (String.ofList inner))
    (noCloser : offsetWhere? (['*', '/'].isPrefixOf ·) inner = none)
    (held : slice? source (min (pos + 3) source.utf8ByteSize) source.utf8ByteSize = some body) :
    docAt? source pos = some (source.utf8ByteSize, body) := by
  simp only [docAt?, tail, String.toList_ofList, noCloser, held, Option.bind_eq_bind,
    Option.bind_some]
  rfl

/-- The body of a doc comment in terms of the search, which starts at the last star of the opener:
the star is dropped, unless it is already the closer. -/
theorem splitBody_eq (text : List Char) :
    splitBody text =
      ((splitAtClose? ('*' :: text)).map fun (held, after) => (held.tail, after)).getD
        (text, []) := by
  unfold splitBody
  split
  case h_1 after => rfl
  case h_2 noSlash =>
    rw [splitAtClose?.eq_2 _ _ fun after _ same => noSlash after same, Option.map_map]
    cases splitAtClose? text <;> rfl

/-- A slice that leaves the first byte out, where there is one, leaves a one-byte character out. -/
theorem slice?_tail {front held back : List Char} (whole : source.toList = front ++ held ++ back)
    (single : ∀ c rest, held = c :: rest → c.utf8Size = 1) :
    slice? source (min (utf8Len front + 1) (utf8Len front + utf8Len held))
      (utf8Len front + utf8Len held) = some (String.ofList held.tail) := by
  cases held with
  | nil =>
    have noBytes : utf8Len front + utf8Len [] = utf8Len front := rfl
    rw [noBytes, Nat.min_eq_right (Nat.le_succ _)]
    exact slice?_ofList whole
  | cons c rest =>
    have single := single c rest rfl
    have shorter : source.toList = (front ++ [c]) ++ rest ++ back := by rw [whole]; simp
    have part := slice?_ofList shorter
    have bound : utf8Len front + utf8Len (c :: rest) = utf8Len front + 1 + utf8Len rest := by
      rw [String.utf8Len_cons, single]
      omega
    rw [utf8Len_concat, single] at part
    rw [bound, Nat.min_eq_left (Nat.le_add_right _ _)]
    exact part

/-- A doc comment is left behind its closer, and its body is what stands before it. -/
theorem exists_docAt? (whole : source.toList = before ++ '/' :: '*' :: '*' :: rest) :
    ∃ next, docAt? source (utf8Len before) = some (next, String.ofList (splitBody rest).1) ∧
      utf8Len before < next ∧ LeftAt source next (splitBody rest).2 := by
  have star : source.toList = (before ++ ['/', '*']) ++ '*' :: rest := by rw [whole]; simp
  have starAt : utf8Len (before ++ ['/', '*']) = utf8Len before + 2 := String.utf8Len_append _ _
  have inner := slice?_back star
  have search := offsetWhere?_closer ('*' :: rest)
  rw [starAt] at inner
  rw [splitBody_eq]
  cases found : splitAtClose? ('*' :: rest) with
  | some parts =>
    obtain ⟨held, after⟩ := parts
    have split := eq_of_splitAtClose found
    have cut : source.toList = (before ++ ['/', '*']) ++ held ++ '*' :: '/' :: after := by
      rw [List.append_assoc, ← split, star]
    have behind : source.toList = (before ++ ['/', '*'] ++ held ++ ['*', '/']) ++ after := by
      rw [cut]
      simp
    have single (c : Char) (body : List Char) (first : held = c :: body) : c.utf8Size = 1 := by
      subst first
      obtain ⟨rfl, -⟩ := List.cons.inj split
      rfl
    have body := slice?_tail cut single
    have left := leftAt_of_append behind
    rw [starAt] at body
    rw [String.utf8Len_append, String.utf8Len_append, starAt] at left
    rw [found] at search
    exact ⟨_, docAt?_closed inner search body, by omega, left⟩
  | none =>
    have opened : source.toList = (before ++ ['/', '*', '*']) ++ rest := by rw [whole]; simp
    have openedAt : utf8Len (before ++ ['/', '*', '*']) = utf8Len before + 3 :=
      String.utf8Len_append _ _
    have size : source.utf8ByteSize = utf8Len before + 3 + utf8Len rest := by
      rw [← String.utf8Len_toList, opened, String.utf8Len_append, openedAt]
    have body := slice?_back opened
    have left := leftAt_of_append (List.append_nil source.toList).symm
    rw [openedAt] at body
    rw [String.utf8Len_toList] at left
    rw [found] at search
    refine ⟨_, docAt?_open inner search ?_, by omega, left⟩
    rw [Nat.min_eq_left (by omega)]
    exact body

/-! ## Turns -/

theorem turn?_string {quote : Char} (isQuote : quote = '\x27' ∨ quote = '\x22')
    (whole : source.toList = before ++ quote :: rest) :
    ∃ next, turn? source (utf8Len before) = some (next, none) ∧ utf8Len before < next ∧
      LeftAt source next (afterString quote quote rest) := by
  have single : quote.utf8Size = 1 := by rcases isQuote with rfl | rfl <;> rfl
  have isQuoteByte : quote.toUInt8 = '\x27'.toUInt8 ∨ quote.toUInt8 = '\x22'.toUInt8 :=
    isQuote.imp (congrArg _) (congrArg _)
  have here := getElem?_bytes_single whole single
  obtain ⟨closing, found, later, left⟩ := exists_closingQuote? single whole
  have size : (bytes source).length - (utf8Len before + 1) = utf8Len rest := by
    rw [length_bytes, ← String.utf8Len_toList, whole, String.utf8Len_append, String.utf8Len_cons,
      single]
    omega
  rw [single] at found
  refine ⟨closing + 1, ?_, Nat.lt_succ_of_lt later, left⟩
  simp only [turn?, here, size, found, if_pos isQuoteByte, Option.bind_eq_bind, Option.bind_some]
  rfl

theorem slash_not_quote :
    ¬ ('/'.toUInt8 = '\x27'.toUInt8 ∨ '/'.toUInt8 = '\x22'.toUInt8) := by decide

theorem turn?_line (whole : source.toList = before ++ '/' :: '/' :: rest) :
    ∃ next, turn? source (utf8Len before) = some (next, none) ∧ utf8Len before < next ∧
      LeftAt source next (afterLine rest) := by
  have here := getElem?_bytes_single whole rfl
  have second : (bytes source)[utf8Len before + 1]? = some '/'.toUInt8 :=
    utf8Len_concat before '/' ▸ getElem?_bytes_single (whole.trans (List.append_cons ..)) rfl
  obtain ⟨lineEnd, found, later, left⟩ := exists_lineEnd? whole
  refine ⟨lineEnd + 1, ?_, Nat.lt_succ_of_le later, left⟩
  simp only [turn?, here, second, found, if_neg slash_not_quote, if_true, Option.bind_eq_bind,
    Option.bind_some]
  rfl

/-- The byte after a slash is the byte of another slash only where the other slash stands. -/
theorem second_ne_slash (whole : source.toList = before ++ '/' :: rest)
    (noLine : ∀ after, rest ≠ '/' :: after) :
    (bytes source)[utf8Len before + 1]? ≠ some '/'.toUInt8 := by
  intro second
  have grown := whole.trans (List.append_cons before '/' rest)
  cases rest with
  | nil =>
    have nothing := getElem?_bytes grown 0
    rw [utf8Len_concat] at nothing
    cases nothing.symm.trans second
  | cons c after =>
    have code := exists_byte grown c.utf8Size_pos
    rw [utf8Len_concat] at code
    obtain ⟨byte, member, here⟩ := code
    have slash : byte = '/'.toUInt8 := Option.some.inj (here.symm.trans second)
    obtain rfl := (eq_toUInt8_iff rfl member).1 slash
    exact noLine after rfl

theorem turn?_doc (whole : source.toList = before ++ '/' :: '*' :: '*' :: rest) :
    ∃ next, turn? source (utf8Len before) = some (next, some (String.ofList (splitBody rest).1)) ∧
      utf8Len before < next ∧ LeftAt source next (splitBody rest).2 := by
  have here := getElem?_bytes_single whole rfl
  have second := second_ne_slash whole (by simp)
  obtain ⟨next, found, later, left⟩ := exists_docAt? whole
  refine ⟨next, ?_, later, left⟩
  simp only [turn?, here, second, slice?_back whole, found, if_neg slash_not_quote, if_true,
    if_false, Option.bind_eq_bind, Option.bind_some, String.toList_ofList]
  rfl

/-- A character that starts no construct is passed byte by byte. -/
theorem turn?_plain {c : Char} (whole : source.toList = before ++ c :: rest)
    (noQuote : ¬ (c = '\x27' ∨ c = '\x22')) (noLine : ∀ after, c = '/' → rest ≠ '/' :: after)
    (noDoc : ∀ after, c = '/' → rest ≠ '*' :: '*' :: after) {i : Nat} (inside : i < c.utf8Size) :
    turn? source (utf8Len before + i) = some (utf8Len before + i + 1, none) := by
  by_cases slash : c = '/'
  · subst slash
    obtain rfl : i = 0 := Nat.lt_one_iff.1 inside
    have here := getElem?_bytes_single whole rfl
    have second := second_ne_slash whole fun after => noLine after rfl
    have noOpener : ['/', '*', '*'].isPrefixOf ('/' :: rest) = false := by
      refine Bool.eq_false_iff.2 fun opens => ?_
      obtain ⟨after, split⟩ := List.isPrefixOf_iff_prefix.1 opens
      exact noDoc after rfl (List.cons.inj split).2.symm
    simp only [turn?, Nat.add_zero, here, second, slice?_back whole, noOpener,
      if_neg slash_not_quote, if_true, if_false, Option.bind_eq_bind, Option.bind_some,
      String.toList_ofList]
    rfl
  · obtain ⟨byte, member, here⟩ := exists_byte whole inside
    have other {a : Char} (single : a.utf8Size = 1) (differs : c ≠ a) : byte ≠ a.toUInt8 :=
      mt (eq_toUInt8_iff single member).1 differs
    have notQuote : ¬ (byte = '\x27'.toUInt8 ∨ byte = '\x22'.toUInt8) :=
      not_or.2 ⟨other rfl (not_or.1 noQuote).1, other rfl (not_or.1 noQuote).2⟩
    simp only [turn?, here, if_neg notQuote, if_neg (other rfl slash), Option.bind_eq_bind,
      Option.bind_some]
    rfl

/-- Every turn in the source succeeds and moves forward, also where it starts inside a
character. -/
theorem exists_turn? {pos : Nat} (inside : pos < source.utf8ByteSize) :
    ∃ next body, turn? source pos = some (next, body) ∧ pos < next := by
  rw [← String.utf8Len_toList] at inside
  obtain ⟨before, c, rest, i, whole, inChar, rfl⟩ := exists_char_at inside
  by_cases isQuote : c = '\x27' ∨ c = '\x22'
  · obtain rfl : i = 0 := by rcases isQuote with rfl | rfl <;> exact Nat.lt_one_iff.1 inChar
    obtain ⟨next, turn, later, -⟩ := turn?_string isQuote whole
    exact ⟨next, _, turn, later⟩
  by_cases line : ∃ after, c = '/' ∧ rest = '/' :: after
  · obtain ⟨after, rfl, rfl⟩ := line
    obtain rfl : i = 0 := Nat.lt_one_iff.1 inChar
    obtain ⟨next, turn, later, -⟩ := turn?_line whole
    exact ⟨next, _, turn, later⟩
  by_cases doc : ∃ after, c = '/' ∧ rest = '*' :: '*' :: after
  · obtain ⟨after, rfl, rfl⟩ := doc
    obtain rfl : i = 0 := Nat.lt_one_iff.1 inChar
    obtain ⟨next, turn, later, -⟩ := turn?_doc whole
    exact ⟨next, _, turn, later⟩
  have turn := turn?_plain whole isQuote (fun after slash same => line ⟨after, slash, same⟩)
    (fun after slash same => doc ⟨after, slash, same⟩) inChar
  exact ⟨_, _, turn, Nat.lt_succ_self _⟩

end Constructs

/-! ## The scan -/

section Scan

variable {source : String} {turns pos next : Nat} {later : List String}

theorem bodiesByOffset?_of_le (beyond : source.utf8ByteSize ≤ pos) (turns : Nat) :
    bodiesByOffset? source turns pos = some [] := by
  cases turns <;> rw [bodiesByOffset?, if_neg (Nat.not_lt.2 beyond)]

theorem bodiesByOffset?_turn {body : Option String} (inside : pos < source.utf8ByteSize)
    (turn : turn? source pos = some (next, body)) (forward : pos < next)
    (found : ∀ turns, source.utf8ByteSize ≤ next + turns →
      bodiesByOffset? source turns next = some later)
    (enough : source.utf8ByteSize ≤ pos + turns) :
    bodiesByOffset? source turns pos = some (body.toList ++ later) := by
  cases turns with
  | zero => omega
  | succ turns =>
    simp only [bodiesByOffset?, if_pos inside, turn, found turns (by omega), Option.bind_eq_bind,
      Option.bind_some]
    rfl

/-- Turns that only move to the next byte add nothing. -/
theorem bodiesByOffset?_plain {n : Nat} (fits : pos + n ≤ source.utf8ByteSize)
    (plain : ∀ i < n, turn? source (pos + i) = some (pos + i + 1, none))
    (found : ∀ turns, source.utf8ByteSize ≤ pos + n + turns →
      bodiesByOffset? source turns (pos + n) = some later)
    (enough : source.utf8ByteSize ≤ pos + turns) :
    bodiesByOffset? source turns pos = some later := by
  induction n generalizing pos turns with
  | zero => exact found turns enough
  | succ n ih =>
    have others (i : Nat) (inside : i < n) :
        turn? source (pos + 1 + i) = some (pos + 1 + i + 1, none) := by
      have turn := plain (i + 1) (Nat.succ_lt_succ inside)
      rwa [Nat.add_comm i 1, ← Nat.add_assoc] at turn
    rw [Nat.add_comm n 1, ← Nat.add_assoc] at fits found
    exact bodiesByOffset?_turn (by omega) (plain 0 (Nat.zero_lt_succ n)) (Nat.lt_succ_self _)
      (fun _ => ih fits others found) enough

/-- As many turns as there are bytes left find the bodies of all doc comments. -/
theorem bodiesByOffset?_eq {rest : List Char} (left : LeftAt source pos rest)
    (enough : source.utf8ByteSize ≤ pos + turns) :
    bodiesByOffset? source turns pos = some ((bodies rest).map String.ofList) := by
  fun_induction bodies rest generalizing turns pos with
  | case1 => exact bodiesByOffset?_of_le left.le_of_nil turns
  | case2 rest ih =>
    obtain ⟨before, whole, rfl⟩ := left.exists_append
    obtain ⟨next, turn, forward, behind⟩ := turn?_line whole
    exact bodiesByOffset?_turn left.lt turn forward (fun _ => ih behind) enough
  | case3 rest ih =>
    obtain ⟨before, whole, rfl⟩ := left.exists_append
    obtain ⟨next, turn, forward, behind⟩ := turn?_doc whole
    exact bodiesByOffset?_turn left.lt turn forward (fun _ => ih behind) enough
  | case4 c rest noLine noDoc isQuote ih =>
    obtain ⟨before, whole, rfl⟩ := left.exists_append
    obtain ⟨next, turn, forward, behind⟩ := turn?_string isQuote whole
    exact bodiesByOffset?_turn left.lt turn forward (fun _ => ih behind) enough
  | case5 c rest noLine noDoc noQuote ih =>
    obtain ⟨before, whole, rfl⟩ := left.exists_append
    have grown := whole.trans (List.append_cons before c rest)
    have behind := leftAt_of_append grown
    rw [utf8Len_concat] at behind
    have fits : utf8Len before + c.utf8Size ≤ source.utf8ByteSize := by
      rw [← String.utf8Len_toList, grown, String.utf8Len_append, utf8Len_concat]
      exact Nat.le_add_right _ _
    exact bodiesByOffset?_plain fits (fun _ => turn?_plain whole noQuote noLine noDoc)
      (fun _ => ih behind) enough

end Scan

theorem bodiesByOffset?_whole (source : String) :
    bodiesByOffset? source source.utf8ByteSize 0 =
      some ((bodies source.toList).map String.ofList) :=
  bodiesByOffset?_eq (leftAt_of_append (List.nil_append source.toList).symm)
    (Nat.le_add_left source.utf8ByteSize 0)

/-- Scanning a source by byte offsets finds and reads its doc comments. -/
theorem commentsByOffset?_eq (marker : Char) (source : String) :
    commentsByOffset? marker source = some (comments marker source) := by
  have found := bodiesByOffset?_whole source
  have read : Comment.parseByOffset? marker =
      fun body : String => pure (Comment.parse marker body.toList) :=
    funext (Comment.parseByOffset?_eq marker)
  rw [commentsByOffset?, found, Option.bind_eq_bind, Option.bind_some, read, List.mapM_pure,
    List.map_map, comments]
  simp only [Function.comp_def, String.toList_ofList]
  rfl

/-- No access and no slice of the scanner fails, and the scanner ends. A turn at any offset in the
source succeeds and moves forward, so as many turns as the source has bytes find the bodies of its
doc comments; reading a body succeeds whatever the body and the marker are; and the comments that
are found and read this way are those of the source. -/
theorem scan_in_bounds (marker : Char) (source : String) :
    (∀ pos < source.utf8ByteSize,
      ∃ next body, turn? source pos = some (next, body) ∧ pos < next) ∧
    bodiesByOffset? source source.utf8ByteSize 0 =
      some ((bodies source.toList).map String.ofList) ∧
    (∀ body : String,
      Comment.parseByOffset? marker body = some (Comment.parse marker body.toList)) ∧
    commentsByOffset? marker source = some (comments marker source) :=
  ⟨fun _ => exists_turn?, bodiesByOffset?_whole source, Comment.parseByOffset?_eq marker,
    commentsByOffset?_eq marker source⟩

example : commentsByOffset? 'é' "\"\\\"→/**\" // /**\n/**/ /**→é" = some [⟨"", []⟩, ⟨"→", []⟩] := by
  decide +kernel

end DocCatalog.Source
