import DocCatalog.Config
import DocCatalog.Proofs.Files.ReadBack
import DocCatalog.Proofs.Toml.Line

/-!
# A configuration that was saved

The file of a configuration has one line for each setting. The marker can be any character, and how
it is quoted depends on it; the reader undoes each of the ways. So reading never fails on what was
written, and only the marker decides whether the configuration is accepted.

Results:
1. `quotes_quotedChar`: every character is read back from its quotes.
2. `read?_render`: the file holds the three settings.
3. `parse_render`: the configuration is read back and validated.
4. `load_save`: so is a file that was written.
5. `saved_config_reloads`: what loading a saved configuration gives.
-/

namespace DocCatalog.Config

open Text (hexDigit hexUnit?_hexDigit)
open Toml (Quotes IsVerbatim settingLine)

/-! ## The marker -/

/-- A control character is read back from its code. -/
theorem escape?_code {c : Char} (small : c.toNat < 128) (rest : List Char) :
    Toml.escape?
        (['u', '0', '0', hexDigit 'A' (c.toNat / 16), hexDigit 'A' (c.toNat % 16)] ++ rest) =
      some (c, rest) := by
  have scalar : Toml.scalar? c.toNat = some c := by
    rw [Toml.scalar?, if_pos (.inl (by omega)), Char.ofNat_toNat]
  have unit := hexUnit?_hexDigit (.inr rfl) (Nat.lt_trans small (by decide : 128 < 256))
  simp [Toml.escape?, unit, scalar]

/-- Every character is read back from its quotes. -/
theorem quotes_quotedChar (c : Char) : Quotes (quotedChar c) [c] := by
  have escaped (letters : List Char)
      (escape : ∀ rest, Toml.escape? (letters ++ rest) = some (c, rest)) :
      Quotes ('\x22' :: '\\' :: letters ++ ['\x22']) [c] := Toml.quotes_escape escape
  unfold quotedChar
  split
  case isTrue special =>
    -- In single quotes nothing is escaped.
    refine ⟨⟨'\x27', [c, '\x27'], rfl, .inr rfl⟩, fun rest => ?_⟩
    rcases special with rfl | rfl <;> rfl
  case isFalse notSpecial =>
  split
  case isTrue lineFeed =>
    -- The first line feed behind the quotes does not count.
    subst lineFeed
    exact ⟨⟨'\x22', _, rfl, .inl rfl⟩, fun rest => rfl⟩
  case isFalse notLineFeed =>
  simp only
  split
  case isTrue backspace => exact escaped ['b'] fun rest => backspace ▸ rfl
  case isFalse =>
  split
  case isTrue tabulator => exact escaped ['t'] fun rest => tabulator ▸ rfl
  case isFalse =>
  split
  case isTrue formFeed => exact escaped ['f'] fun rest => formFeed ▸ rfl
  case isFalse =>
  split
  case isTrue carriageReturn => exact escaped ['r'] fun rest => carriageReturn ▸ rfl
  case isFalse =>
  split
  case isTrue control =>
    have small : c.toNat < 128 := by omega
    exact escaped ['u', '0', '0', hexDigit 'A' (c.toNat / 16), hexDigit 'A' (c.toNat % 16)]
      (escape?_code small)
  case isFalse raw =>
    have plain : Toml.isPlain c = true := by
      simp only [Toml.isPlain, Bool.or_eq_true, Bool.and_eq_true, decide_eq_true_eq]
      omega
    have verbatim : IsVerbatim c :=
      ⟨plain, fun quote => notSpecial (.inl quote), fun backslash => notSpecial (.inr backslash)⟩
    exact Toml.quotes_verbatim (by simpa using verbatim)

/-! ## The file -/

theorem verbatim_of_mem_name (config : Config) :
    (∀ c ∈ config.layout.name.toList, IsVerbatim c) ∧
      ∀ c ∈ config.format.name.toList, IsVerbatim c := by
  have layout : config.layout.name.toList.all (fun c => decide (IsVerbatim c)) = true := by
    cases config.layout <;> decide
  have format : config.format.name.toList.all (fun c => decide (IsVerbatim c)) = true := by
    cases config.format <;> decide
  exact ⟨fun c member => of_decide_eq_true (List.all_eq_true.1 layout c member),
    fun c member => of_decide_eq_true (List.all_eq_true.1 format c member)⟩

/-- The file has one line for each setting. -/
theorem toList_render (config : Config) :
    config.render.toList =
      settingLine "tag_marker".toList (quotedChar config.marker) ++
        (settingLine "layout".toList ('\x22' :: config.layout.name.toList ++ ['\x22']) ++
          settingLine "format".toList ('\x22' :: config.format.name.toList ++ ['\x22'])) := by
  have first : "tag_marker = ".toList = "tag_marker".toList ++ [' ', '=', ' '] := by decide
  have second : "\nlayout = \x22".toList = '\n' :: "layout".toList ++ [' ', '=', ' ', '\x22'] := by
    decide
  have third : "\x22\nformat = \x22".toList =
      '\x22' :: '\n' :: "format".toList ++ [' ', '=', ' ', '\x22'] := by decide
  have last : "\x22\n".toList = ['\x22', '\n'] := by decide
  unfold render settingLine
  rw [String.toList_ofList, first, second, third, last]
  generalize "tag_marker".toList = markerKey
  generalize "layout".toList = layoutKey
  generalize "format".toList = formatKey
  simp

/-- The settings as the members of a table. -/
def members (config : Config) : Toml.Members :=
  [("tag_marker", .string (String.ofList [config.marker])), ("layout", .string config.layout.name),
    ("format", .string config.format.name)]

theorem read?_render (config : Config) : Toml.read? config.render = some config.members := by
  obtain ⟨layout, format⟩ := verbatim_of_mem_name config
  have text := toList_render config
  have starts : config.render.toList.head? = some 't' := by
    rw [text]
    rfl
  obtain ⟨fuel, enough⟩ : ∃ fuel, config.render.toList.length = fuel + 3 := by
    refine ⟨config.render.toList.length - 3, ?_⟩
    rw [text]
    simp only [List.length_append, Toml.length_settingLine]
    omega
  rw [Toml.read?_eq_readLines? starts (by decide), enough, text,
    Toml.readLines?_setting (by decide) (List.all_eq_true.1 rfl)
      (quotes_quotedChar config.marker) rfl,
    Toml.readLines?_setting (by decide) (List.all_eq_true.1 rfl)
      (Toml.quotes_verbatim layout) (by rfl),
    ← List.append_nil (settingLine "format".toList _),
    Toml.readLines?_setting (by decide) (List.all_eq_true.1 rfl)
      (Toml.quotes_verbatim format) (by rfl)]
  simp only [String.ofList_toList]
  rfl

theorem ofToml?_members (config : Config) : ofToml? config.members = some config := by
  have marker : readChar? (.string (String.ofList [config.marker])) = some config.marker := by
    simp only [readChar?, String.toList_ofList]
  have layout : readChoice? Layout.ofName? (.string config.layout.name) = some config.layout := by
    cases config.layout <;> rfl
  have format : readChoice? Format.ofName? (.string config.format.name) = some config.format := by
    cases config.format <;> rfl
  have settings :
      config.members.lookup "tag_marker" = some (.string (String.ofList [config.marker])) ∧
      config.members.lookup "layout" = some (.string config.layout.name) ∧
      config.members.lookup "format" = some (.string config.format.name) := ⟨rfl, rfl, rfl⟩
  simp only [ofToml?, readSetting?, settings, marker, layout, format, Option.bind_eq_bind,
    Option.bind_some, Option.pure_def]

/-- Reading the file of a configuration only depends on its marker. -/
theorem parse_render (path : Files.Path) (config : Config) :
    parse path config.render = config.validate := by
  rw [parse, read?_render, Option.bind_some, ofToml?_members]

theorem decodeText_toUTF8 (text : String) : decodeText text.toUTF8 = .ok text := by
  rw [decodeText, Text.fromUTF8?_toUTF8]

theorem run_save (config : Config) (path : Files.Path) (workspace : Workspace) :
    (save Workspace.host path config).run workspace =
      match workspace.disk.write path config.render.toUTF8 with
      | .ok disk => (.ok (), { workspace with disk })
      | .error fault => (.error (.io fault), workspace) := by
  have run : (Workspace.host.write path config.render).run workspace =
      match workspace.disk.write path config.render.toUTF8 with
      | .ok disk => (.ok (), { workspace with disk })
      | .error fault => (.error fault, workspace) := by
    simp only [Workspace.host, StateT.run_bind, StateT.run_get, pure_bind]
    cases workspace.disk.write path config.render.toUTF8 <;> rfl
  rw [save, StateT.run_bind, run]
  cases workspace.disk.write path config.render.toUTF8 <;> rfl

theorem run_load (path : Files.Path) (workspace : Workspace) :
    (load Workspace.host path).run workspace =
      ((((workspace.disk.read path).bind decodeText).mapError (Failure.unreadable path)).bind
        (parse path), workspace) :=
  rfl

/-- Loading from where a configuration was saved validates it. -/
theorem load_save {config : Config} {path : Files.Path} {workspace saved : Workspace}
    (written : (save Workspace.host path config).run workspace = (.ok (), saved)) :
    (load Workspace.host path).run saved = (config.validate, saved) := by
  rw [run_save] at written
  cases writes : workspace.disk.write path config.render.toUTF8 with
  | error fault =>
    rw [writes] at written
    cases written
  | ok disk =>
    rw [writes] at written
    obtain ⟨-, rfl⟩ := Prod.mk.inj written
    have reads : disk.read path = .ok config.render.toUTF8 := Files.Disk.read_write writes
    rw [run_load, reads, Except.bind, decodeText_toUTF8, Except.mapError, Except.bind, parse_render]

/-- A configuration that was saved is loaded as it was when its marker is accepted, and refused for
its marker otherwise. Its file is never malformed, whatever character the marker is. -/
theorem saved_config_reloads (config : Config) :
    (config.validate = .ok config ∨ config.validate = .error (.badMarker config.marker)) ∧
      (∀ path, parse path config.render = config.validate) ∧
      ∀ path (workspace saved : Workspace),
        (save Workspace.host path config).run workspace = (.ok (), saved) →
        (load Workspace.host path).run saved = (config.validate, saved) := by
  refine ⟨?_, fun path => parse_render path config, fun path workspace saved => load_save⟩
  unfold validate
  split
  case isTrue => exact .inl rfl
  case isFalse => exact .inr rfl

/-- A control character is quoted as an escape and accepted. The file is written through a link. A
line feed is quoted as well, and its file is refused for what it says. -/
theorem saved_config_reloads_control :
    let config : Config := { marker := '\x7f', layout := .flat, format := .jsonPretty }
    let workspace : Workspace := ⟨⟨[("emmett.toml", .link "d/c"), ("d", .directory [])]⟩, .empty⟩
    let saved : Workspace :=
      ⟨⟨[("emmett.toml", .link "d/c"),
        ("d", .directory [("c", .file config.render.toUTF8)])]⟩, .empty⟩
    (save Workspace.host "emmett.toml" config).run workspace = (.ok (), saved) ∧
      (load Workspace.host "emmett.toml").run saved = (.ok config, saved) ∧
      parse "emmett.toml" { config with marker := '\n' }.render = .error (.badMarker '\n') := by
  intro config workspace saved
  obtain ⟨path, isName, noNul, length⟩ :
      Files.Disk.names "emmett.toml" = [.ofText "emmett.toml"] ∧ Files.IsFileName "emmett.toml" ∧
      0 ∉ (Files.Path.ofText "emmett.toml").bytes ∧
      (Files.Path.ofText "emmett.toml").bytes.length = 11 := by decide
  have target : Files.Disk.names "d/c" = [.ofText "d", .ofText "c"] := by decide
  obtain ⟨isOuter, outerLength⟩ :
      Files.IsFileName "d" ∧ (Files.Path.ofText "d").bytes.length = 1 := by decide
  obtain ⟨isInner, innerLength⟩ :
      Files.IsFileName "c" ∧ (Files.Path.ofText "c").bytes.length = 1 := by decide
  have apart : (Files.Path.ofText "d" == Files.Path.ofText "emmett.toml") = false ∧
      Files.Path.ofText "emmett.toml" ≠ Files.Path.ofText "d" := by decide
  have writes : workspace.disk.write "emmett.toml" config.render.toUTF8 = .ok saved.disk := by
    simp [workspace, saved, Files.Disk.write, Files.Disk.locate, Files.Disk.resolve, path,
      isName.nonempty, isName.notSelf, isName.notParent, noNul, length, target, isOuter.nonempty,
      isOuter.notSelf, isOuter.notParent, outerLength, isInner.nonempty, isInner.notSelf,
      isInner.notParent, innerLength, apart, Files.Disk.nodeAt?, Files.Disk.set, Files.Disk.put,
      Files.Disk.setMember, Files.Disk.maxLinks, Files.Disk.maxNameSize, Files.Disk.maxPathSize,
      List.lookup_cons, bind, Except.bind, pure, Except.pure]
  have written : (save Workspace.host "emmett.toml" config).run workspace = (.ok (), saved) := by
    rw [run_save, writes]
  obtain ⟨-, -, loads⟩ := saved_config_reloads config
  exact ⟨written, loads _ _ _ written, (saved_config_reloads { config with marker := '\n' }).2.1 _⟩

end DocCatalog.Config
