import DocCatalog.Corpus
import DocCatalog.Proofs.Builder.Transition
import DocCatalog.Proofs.Source.Closed

/-!
# Texts that are read as one and texts that are read in turn

All inputs of a run become one text, with a line feed before a text when something stands before it.
As long as every text but the last is closed, this text has exactly the comments of the inputs, in
their order, and a builder that takes it ends where a builder ends that takes the inputs one after
the other.

Results:
1. `comments_append`, `isClosed_append`: one more text after a closed one.
2. `comments_foldl_append`, `foldl_scan`: the comments of the whole text, and one run in place of
   many scans.
3. `join_composes`: both readings agree.
-/

namespace DocCatalog

namespace Source

theorem comments_empty (marker : Char) : comments marker "" = [] := by
  rw [comments, bodies_eq_read]
  rfl

end Source

namespace Corpus

variable {buffer : String}

theorem toList_append (present : buffer ≠ "") (chunk : String) :
    (append buffer chunk).toList = buffer.toList ++ '\n' :: chunk.toList := by
  rw [append, if_neg present]
  simp

theorem append_empty (chunk : String) : append "" chunk = chunk := if_pos rfl

theorem comments_append (closed : Source.isClosed buffer.toList = true) (marker : Char)
    (chunk : String) :
    Source.comments marker (append buffer chunk) =
      Source.comments marker buffer ++ Source.comments marker chunk := by
  by_cases empty : buffer = ""
  · rw [empty, append_empty, Source.comments_empty, List.nil_append]
  · rw [Source.comments, toList_append empty, Source.bodies_append_lineFeed closed, List.map_append]
    rfl

theorem isClosed_append (closed : Source.isClosed buffer.toList = true) (chunk : String) :
    Source.isClosed (append buffer chunk).toList = Source.isClosed chunk.toList := by
  by_cases empty : buffer = ""
  · rw [empty, append_empty]
  · rw [Source.isClosed, toList_append empty, Source.endMode_append_lineFeed closed,
      Source.isClosed]

/-- The buffer before a text holds the texts before it, and it is closed because they are. -/
theorem comments_foldl_append (closed : Source.isClosed buffer.toList = true) (marker : Char)
    {chunks : List String}
    (others : ∀ chunk ∈ chunks.dropLast, Source.isClosed chunk.toList = true) :
    Source.comments marker (chunks.foldl append buffer) =
      Source.comments marker buffer ++ chunks.flatMap (Source.comments marker) := by
  induction chunks generalizing buffer with
  | nil => simp
  | cons chunk rest ih =>
    cases rest with
    | nil => simpa using comments_append closed marker chunk
    | cons next more =>
      obtain ⟨first, later⟩ := List.forall_mem_cons.1 others
      have grown : Source.isClosed (append buffer chunk).toList = true := by
        rw [isClosed_append closed]
        exact first
      rw [List.foldl_cons, ih grown later, comments_append closed, List.append_assoc]
      rfl

end Corpus

namespace Builder

/-- Scans one after the other are one run over all their events. -/
theorem foldl_scan (marker : Char) (chunks : List String) (builder : Builder) :
    chunks.foldl (fun builder chunk => builder.scan marker chunk) builder =
      builder.run ((chunks.flatMap (Source.comments marker)).flatMap Comment.events) := by
  induction chunks generalizing builder with
  | nil => rfl
  | cons chunk rest ih =>
    rw [List.foldl_cons, ih, List.flatMap_cons, List.flatMap_append, run_append]
    rfl

end Builder

namespace Corpus

/-- When every text but the last is closed, the text that several texts become has the comments of
all of them in order, and scanning it leaves a builder in the state in which scanning them one after
the other leaves it: the same namespace, counters and catalog. -/
theorem join_composes (marker : Char) {chunks : List String}
    (closed : ∀ chunk ∈ chunks.dropLast, Source.isClosed chunk.toList = true) :
    Source.comments marker (join chunks) = chunks.flatMap (Source.comments marker) ∧
      ∀ layout : Layout,
        chunks.foldl (fun builder chunk => builder.scan marker chunk) (Builder.start layout) =
          (Builder.start layout).scan marker (join chunks) := by
  have together : Source.comments marker (join chunks) =
      chunks.flatMap (Source.comments marker) := by
    have start : Source.isClosed "".toList = true := by decide
    rw [join, comments_foldl_append start marker closed, Source.comments_empty, List.nil_append]
  refine ⟨together, fun layout => ?_⟩
  rw [Builder.foldl_scan, Builder.scan, Source.events, together]

/-- An empty text in front, a slash before a star, an opener in a line comment, a `/*` before a
star, and an open doc comment at the end. -/
theorem join_composes_at_delimiters :
    let chunks :=
      ["", "x = 'a' /", "* b // /**", "/** @namespace n */ /*", "* @name a */ /** @name b"]
    (∀ chunk ∈ chunks.dropLast, Source.isClosed chunk.toList = true) ∧
      Source.comments '@' (join chunks) =
        [⟨"", [("namespace", " n")]⟩, ⟨"", [("name", " b")]⟩] ∧
      (chunks.foldl (fun builder chunk => builder.scan '@' chunk) (Builder.start .tree)).finish =
        ((Builder.start .tree).scan '@' (join chunks)).finish := by
  intro chunks
  have closed : ∀ chunk ∈ chunks.dropLast, Source.isClosed chunk.toList = true := by decide
  obtain ⟨together, alike⟩ := join_composes '@' closed
  refine ⟨closed, ?_, congrArg Builder.finish (alike .tree)⟩
  rw [together]
  simp only [chunks, List.flatMap_cons, List.flatMap_nil, Source.comments, Source.bodies_eq_read]
  decide

end Corpus

end DocCatalog
