/-!
# Doc comment bodies in source text

A doc comment stands between `/**` and `*/` in code. A quoted string and a `//` comment hide what
they hold, so no doc comment opens inside them. An ordinary block comment hides nothing. Nothing
here fails: what is not closed runs to the end of the text.
-/

namespace DocCatalog.Source

/-- What follows a string literal whose opening quote was just passed. The same quote ends it unless
a backslash stands directly before; `previous` is the character passed last. -/
def afterString (quote previous : Char) : List Char → List Char
  | [] => []
  | c :: rest => if c = quote ∧ previous ≠ '\\' then rest else afterString quote c rest

/-- What follows the current line. -/
def afterLine : List Char → List Char
  | [] => []
  | c :: rest => if c = '\n' then rest else afterLine rest

/-- The text before the first `*/` and the text after it. -/
def splitAtClose? : List Char → Option (List Char × List Char)
  | '*' :: '/' :: after => some ([], after)
  | c :: rest => (splitAtClose? rest).map fun (body, after) => (c :: body, after)
  | [] => none

/-- The body of a doc comment whose `/**` was just passed, and the text after the comment. The last
star of the opener may close it, so `/**/` has an empty body. -/
def splitBody (text : List Char) : List Char × List Char :=
  match text with
  | '/' :: after => ([], after)
  | _ => (splitAtClose? text).getD (text, [])

theorem afterString_length (quote previous : Char) (text : List Char) :
    (afterString quote previous text).length ≤ text.length := by
  induction text generalizing previous with
  | nil => exact Nat.le_refl _
  | cons c rest ih =>
    rw [afterString]
    split
    · exact Nat.le_succ _
    · exact Nat.le_succ_of_le (ih c)

theorem afterLine_length (text : List Char) : (afterLine text).length ≤ text.length := by
  induction text with
  | nil => exact Nat.le_refl _
  | cons c rest ih =>
    rw [afterLine]
    split
    · exact Nat.le_succ _
    · exact Nat.le_succ_of_le ih

/-- A closed body, its closer and the text after it are the whole text. -/
theorem eq_of_splitAtClose {text body after : List Char}
    (found : splitAtClose? text = some (body, after)) : text = body ++ '*' :: '/' :: after := by
  fun_induction splitAtClose? text generalizing body with
  | case1 => simp_all
  | case2 c rest _ ih =>
    obtain ⟨⟨inner, tail⟩, inside, equal⟩ := Option.map_eq_some_iff.1 found
    simp only [Prod.mk.injEq] at equal
    obtain ⟨rfl, rfl⟩ := equal
    rw [ih inside]
    rfl
  | case3 => simp at found

theorem splitBody_length (text : List Char) : (splitBody text).2.length ≤ text.length := by
  unfold splitBody
  split
  · simp
  · cases found : splitAtClose? text with
    | none => simp
    | some parts =>
      have whole := eq_of_splitAtClose found
      simp only [Option.getD_some]
      rw [whole]
      simp
      omega

/-- The bodies of the doc comments of a text that starts in code, in order. -/
def bodies : List Char → List (List Char)
  | [] => []
  | '/' :: '/' :: rest => bodies (afterLine rest)
  | '/' :: '*' :: '*' :: rest => (splitBody rest).1 :: bodies (splitBody rest).2
  | c :: rest =>
    if c = '\x27' ∨ c = '\x22' then bodies (afterString c c rest) else bodies rest
termination_by text => text.length
decreasing_by
  · have := afterLine_length rest
    simp only [List.length_cons]
    omega
  · have := splitBody_length rest
    simp only [List.length_cons]
    omega
  · have := afterString_length c c rest
    simp only [List.length_cons]
    omega
  · simp

end DocCatalog.Source
