import DocCatalog.Format
import DocCatalog.Proofs.Builder.Lookup
import DocCatalog.Proofs.Outline.Places

/-!
# The outline of a run

The text of an outline is the text of its items, one after the other, and then the number of
records. A run leaves no namespace without records, so the outline has no items exactly when the
catalog has no records, and only then the text is the one line that says so.

Results:
1. `isPrefix_headline`, `isPrefix_indent`: how the text of an item starts, and how its lines do.
2. `render_of_items`, `append_footer_ne_nothingText`: the two forms of the text.
3. `items_eq_nil_iff`: which one the catalog of a run has.
4. `outline_shows_records`: with what stands where, all of this for the catalog of any run.
-/

namespace DocCatalog.Outline

open Namespace (Filed)
open Text (dotted)

variable {root : Namespace}

/-! ## The text of an item -/

/-- The lines of an item without colour. -/
def Item.text (item : Item) : List Char :=
  item.lines.flatMap (renderLine false)

/-- What tells an item apart: the whole line of a header, and of a record where it starts. -/
def Item.headline : Item → List Char
  | scope depth path => indent depth ++ path.toList ++ ['\n']
  | overloads depth name count =>
    indent depth ++ name.toList ++ (" (" ++ toString count ++ " overloads)\n").toList
  | record depth title _ => indent depth ++ title.toList

theorem text_eq_headline {item : Item} (header : item.record? = none) :
    item.text = item.headline := by
  cases item with
  | scope depth path => simp [Item.text, Item.headline, Item.lines, renderLine, Span.render]
  | overloads depth name count =>
    simp only [Item.text, Item.headline, Item.lines, renderLine, Span.render, String.toList_append,
      Bool.false_eq_true, if_false, List.flatMap_cons, List.flatMap_nil, List.append_nil,
      List.append_assoc]
    rfl
  | record => cases header

theorem isPrefix_headline (item : Item) : item.headline <+: item.text := by
  cases item with
  | scope | overloads => exact ⟨[], by rw [List.append_nil, text_eq_headline rfl]⟩
  | record depth title shown =>
    simp [Item.text, Item.headline, Item.lines, recordLines, headerLine, renderLine, Span.render]

theorem indent_succ (depth : Nat) : indent depth <+: indent (depth + 1) := by
  refine ⟨indent 1, ?_⟩
  rw [indent, indent, indent, List.replicate_append_replicate, Nat.mul_add]

/-- Every line of an item is indented by the depth of the item at least. -/
theorem isPrefix_indent {item : Item} {line : List Span} (member : line ∈ item.lines) :
    indent item.depth <+: line.flatMap (Span.render false) := by
  have detail (depth : Nat) (style : Style) (head rest : List Char) :
      indent depth <+: (detailLine depth style head rest).flatMap (Span.render false) :=
    (indent_succ depth).trans (List.prefix_append _ _)
  cases item with
  | scope depth path =>
    obtain rfl := List.mem_singleton.1 member
    exact List.prefix_append _ _
  | overloads depth name count =>
    obtain rfl := List.mem_singleton.1 member
    exact List.prefix_append _ _
  | record depth title shown =>
    simp only [Item.lines, recordLines, List.cons_append, List.mem_cons, List.mem_append,
      List.mem_map, List.mem_flatMap, Option.mem_toList, Option.map_eq_some_iff] at member
    rcases member with rfl | ((⟨_, -, rfl⟩ | ⟨_, -, rfl⟩) | ⟨_, -, rfl⟩) | ⟨_, -, _, -, rfl⟩
    · exact List.prefix_append _ _
    all_goals exact detail depth _ _ _

/-! ## The text of an outline -/

/-- The text that stands for an outline without items. -/
def nothingText : List Char :=
  "No documented entities found\n".toList

/-- What follows the items: a blank line and the number of records. -/
def footer (count : Nat) : List Char :=
  ("\n" ++ toString count ++ " entities\n").toList

theorem render_of_items {catalog : Catalog} (present : items catalog ≠ []) :
    (render false catalog).toList = (items catalog).flatMap Item.text ++ footer catalog.size := by
  have shown : lines catalog = (items catalog).flatMap Item.lines ++
      [[], [.plain (s!"{catalog.size} entities").toList]] := by
    rw [lines]
    split
    case h_1 none => exact absurd none present
    case h_2 item rest found => rw [found]
  have ending : ([[], [.plain (s!"{catalog.size} entities").toList]] : List (List Span)).flatMap
      (renderLine false) = footer catalog.size := by
    simp only [renderLine, Span.render, footer, String.toList_append, List.flatMap_cons,
      List.flatMap_nil, List.append_nil, List.append_assoc]
    rfl
  rw [render, String.toList_ofList, shown, List.flatMap_append, List.flatMap_assoc, ending]
  rfl

theorem render_of_no_items {catalog : Catalog} (none : items catalog = []) :
    (render false catalog).toList = nothingText := by
  rw [render, String.toList_ofList, lines, none]
  rfl

/-! ## Catalogs of runs -/

theorem items_eq_nil_iff_of_filed (filed : Filed [] root) :
    items (.tree root) = [] ↔ root.records = [] := by
  constructor
  · intro none
    rw [← Catalog.records, ← records_items, none, List.filterMap_nil]
  · intro none
    cases filed with
    | @intro _ entries children standing _ filled _ =>
      rw [Namespace.records_eq, List.append_eq_nil_iff, List.flatMap_eq_nil_iff,
        List.flatMap_eq_nil_iff] at none
      have noEntry : entries = [] := List.eq_nil_iff_forall_not_mem.2 fun entry member =>
        (standing entry member).present (none.1 entry member)
      have noChild : children = [] := List.eq_nil_iff_forall_not_mem.2 fun child member =>
        filled child member (none.2 child member)
      rw [noEntry, noChild]
      rfl

/-- The tree of a run is filed and in order. -/
theorem exists_root (events : List Event) :
    ∃ root, ((Builder.start .tree).run events).finish = .tree root ∧ root.Filed [] ∧
      root.Ordered :=
  ⟨_, Builder.finish_tree events,
    Namespace.filed_insertAll fun _ member => Builder.resolved_of_mem_placements member,
    Namespace.ordered_insertAll _⟩

theorem items_eq_nil_iff (layout : Layout) (events : List Event) :
    items ((Builder.start layout).run events).finish = [] ↔
      ((Builder.start layout).run events).finish.records = [] := by
  cases layout with
  | tree =>
    obtain ⟨root, finished, filed, -⟩ := exists_root events
    rw [finished]
    exact items_eq_nil_iff_of_filed filed
  | flat =>
    rw [Builder.finish_flat]
    exact List.map_eq_nil_iff

/-- The footer ends otherwise than the line that stands for an empty outline. -/
theorem append_footer_ne_nothingText (front : List Char) (count : Nat) :
    front ++ footer count ≠ nothingText := by
  intro same
  have ending : " entities\n".toList <:+ nothingText := by
    rw [← same, footer, String.toList_append, ← List.append_assoc]
    exact List.suffix_append _ _
  exact absurd ending (by decide)

/-- The items of the outline of a run show the records of the catalog, each once and in order, and
every line of an item is indented by the depth of the item. The text is that of the items, a blank
line and the number of records; when there are no records, and only then, it is the one line that
says so.

In a tree a record alone under its name is indented by as many levels as it has segments before the
name, and a record of an overload group by one level more. The last header before it shows the path
of its namespace; there is exactly one header for each namespace below the root, and the header of
an overload group tells the size of the group and is followed by its records. -/
theorem outline_shows_records (layout : Layout) (events : List Event) :
    let catalog := ((Builder.start layout).run events).finish
    let shown := items catalog
    let text := (catalog.render .text false).toList
    shown.filterMap Item.record? = catalog.records ∧
    (∀ item ∈ shown, item.headline <+: item.text ∧
      (item.record? = none → item.text = item.headline) ∧
      ∀ line ∈ item.lines, indent item.depth <+: line.flatMap (Span.render false)) ∧
    (catalog.records ≠ [] →
      text = shown.flatMap Item.text ++ footer catalog.records.length) ∧
    (text = nothingText ↔ catalog.records = []) ∧
    ∀ root, catalog = .tree root →
      (∀ before item after, shown = before ++ item :: after → Stands root before after item) ∧
      ∀ path, path ≠ [] → (root.get? path).isSome = true →
        (shown.filterMap Item.header?).count (dotted path) = 1 := by
  intro catalog shown text
  have empty : shown = [] ↔ catalog.records = [] := items_eq_nil_iff layout events
  have ofRecords (present : catalog.records ≠ []) :
      text = shown.flatMap Item.text ++ footer catalog.records.length :=
    render_of_items (mt empty.1 present)
  refine ⟨records_items catalog, fun item _ => ⟨isPrefix_headline item, text_eq_headline,
      fun _ => isPrefix_indent⟩, ofRecords,
    ⟨fun nothing => ?_, fun none => render_of_no_items (empty.2 none)⟩, fun root isTree => ?_⟩
  · by_contra present
    exact append_footer_ne_nothingText _ _ ((ofRecords present).symm.trans nothing)
  · obtain ⟨filed, ordered⟩ : root.Filed [] ∧ root.Ordered := by
      cases layout with
      | tree =>
        obtain ⟨other, finished, filed, ordered⟩ := exists_root events
        obtain rfl : other = root := Catalog.tree.inj (finished.symm.trans isTree)
        exact ⟨filed, ordered⟩
      | flat => cases (Builder.finish_flat events).symm.trans isTree
    have whole : shown = items (.tree root) := congrArg items isTree
    rw [whole]
    exact ⟨fun _ _ _ split => stands_of_split filed ordered split,
      fun _ below found => count_header filed ordered below found⟩

end DocCatalog.Outline
