import CorpusFacts.Gradle.IncludedModules
import CorpusFacts.Gradle.Plugins
import CorpusFacts.Proofs.Text.LineEndings

/-!
# Statements of build scripts with other line ends

What a statement of a build script says is read from its start on, by characters of a kind and by
words. Line feeds and carriage returns are of one kind there. So what is cut out of a statement has
its line ends, and is otherwise the same.
-/

namespace CorpusFacts

/-- A text with a carriage return before each line feed. -/
def Text.returned (text : String) : String :=
  String.ofList (withReturns text.toList)

theorem Text.returned_ofList (text : List Char) :
    returned (String.ofList text) = String.ofList (withReturns text) := by
  rw [returned, String.toList_ofList]

/-- A text with other line ends is another text. -/
theorem Text.returned_injective : Function.Injective returned := by
  intro first second h
  have hlists := withReturns_injective (String.ofList_inj.mp h)
  exact String.toList_inj.mp hlists

namespace Gradle

open Text

section Reading

variable {p : Char → Bool}

/-- Characters of a kind at the start of a text are cut off alike. -/
theorem run?_withReturns (hp : p '\r' = p '\n') (text : List Char) :
    run? p (withReturns text) = (run? p text).map (Prod.map withReturns withReturns) := by
  rw [run?, run?, span_withReturns hp]
  obtain ⟨taken, rest⟩ := text.span p
  cases taken with
  | nil => rfl
  | cons c taken =>
    obtain ⟨d, more, hmore⟩ := List.exists_cons_of_ne_nil
      (mt withReturns_eq_nil_iff.mp (List.cons_ne_nil c taken))
    simp [hmore]

/-- A character that is no line end is cut off alike. -/
theorem afterChar?_withReturns (hreturn : p '\r' = false) (hbreak : p '\n' = false)
    (text : List Char) : afterChar? p (withReturns text) = (afterChar? p text).map withReturns := by
  cases text with
  | nil => rfl
  | cons c text =>
    by_cases hc : c = '\n'
    · subst hc
      simp [afterChar?, hreturn, hbreak]
    · rw [withReturns_cons hc, afterChar?, afterChar?]
      split <;> rfl

/-- An opening parenthesis is skipped alike. -/
theorem skipOpen_withReturns (text : List Char) :
    skipOpen (withReturns text) = withReturns (skipOpen text) := by
  cases text with
  | nil => rfl
  | cons c text =>
    by_cases hc : c = '\n'
    · subst hc
      rfl
    · by_cases hopen : c = '('
      · subst hopen
        rfl
      · simp [skipOpen, withReturns_cons hc, hopen]

/-- An opening parenthesis is skipped alike, with the blanks around it. -/
theorem skipOpenAmongBlanks_withReturns (text : List Char) :
    skipOpenAmongBlanks (withReturns text) = withReturns (skipOpenAmongBlanks text) := by
  rw [skipOpenAmongBlanks, skipOpenAmongBlanks, trimStart_withReturns, skipOpen_withReturns,
    trimStart_withReturns]

/-- A closing parenthesis is skipped alike, with the blanks before it. -/
theorem skipCloseAfterBlanks_withReturns (text : List Char) :
    skipCloseAfterBlanks (withReturns text) = withReturns (skipCloseAfterBlanks text) := by
  rw [skipCloseAfterBlanks, skipCloseAfterBlanks, trimStart_withReturns]
  cases trimStart text with
  | nil => rfl
  | cons c text =>
    by_cases hc : c = '\n'
    · subst hc
      rfl
    · by_cases hclose : c = ')'
      · subst hclose
        rfl
      · simp [withReturns_cons hc, hclose]

/-- Nothing is left but a closing parenthesis, if that was so. -/
theorem isClosed_withReturns (text : List Char) : isClosed (withReturns text) = isClosed text := by
  cases text with
  | nil => rfl
  | cons c text =>
    by_cases hc : c = '\n'
    · subst hc
      rfl
    · cases text with
      | nil => rw [withReturns_cons hc, withReturns_nil]
      | cons d text =>
        obtain ⟨e, more, hmore⟩ := List.exists_cons_of_ne_nil
          (mt withReturns_eq_nil_iff.mp (List.cons_ne_nil d text))
        simp [withReturns_cons hc, hmore, isClosed]

/-- An identifier between quotes is read alike. -/
theorem quotedId?_withReturns (text : List Char) :
    quotedId? (withReturns text) = (quotedId? text).map (Prod.map withReturns withReturns) := by
  have hquote := @afterChar?_withReturns isQuote (by decide) (by decide)
  have hrun := @run?_withReturns (!isQuote ·) (by decide)
  simp [quotedId?, hquote, hrun, Option.bind_map, Option.map_bind, Function.comp_def]

/-- The identifier at the end of a statement is read alike. -/
theorem lastId?_withReturns (text : List Char) :
    lastId? (withReturns text) = (lastId? text).map withReturns := by
  simp [lastId?, quotedId?_withReturns, trimStart_withReturns, isClosed_withReturns,
    Option.bind_map, Option.map_bind, Function.comp_def]

end Reading

section Plugins

/-- A plugin entry with other line ends in what it names. -/
def PluginEntry.returned (entry : PluginEntry) : PluginEntry :=
  { entry with id := withReturns entry.id, args := entry.args.map withReturns }

/-- A plugin record with other line ends in what it names. -/
def PluginRecord.returned (record : PluginRecord) : PluginRecord :=
  { record with id := Text.returned record.id, args := record.args.map Text.returned }

/-- The record of an entry has the line ends of the entry. -/
theorem record_returned (entry : PluginEntry) (module : String) (isForAllProjects : Bool) :
    entry.returned.record module isForAllProjects =
      (entry.record module isForAllProjects).returned := by
  simp only [PluginEntry.record, PluginEntry.returned, PluginRecord.returned, returned_ofList,
    List.map_map, Function.comp_def]

/-- The name of a plugin with other line ends in it. -/
def PluginName.returned : PluginName → PluginName
  | literal id => .literal (withReturns id)
  | kotlin name => .kotlin (withReturns name)
  | catalog accessor => .catalog (withReturns accessor)
  | backtick id => .backtick (withReturns id)
  | bare id => .bare (withReturns id)

/-- An `apply` statement applies the same plugin. -/
theorem applyStatement?_withReturns (text : List Char) :
    applyStatement? (withReturns text) = (applyStatement? text).map PluginEntry.returned := by
  have happly := @after?_withReturns "apply".toList (by decide) (by decide)
  have hplugin := @after?_withReturns "plugin".toList (by decide) (by decide)
  have hsign := @afterChar?_withReturns (fun c => c == ':' || c == '=') (by decide) (by decide)
  simp only [applyStatement?, trim_withReturns, happly, skipOpenAmongBlanks_withReturns, hplugin,
    trimStart_withReturns, hsign, lastId?_withReturns, Option.bind_eq_bind, Option.bind_map,
    Option.map_bind, Function.comp_def]
  rfl

/-- A call in an `apply` block applies the same plugin. -/
theorem pluginCall?_withReturns (text : List Char) :
    pluginCall? (withReturns text) = (pluginCall? text).map PluginEntry.returned := by
  have hplugin := @after?_withReturns "plugin".toList (by decide) (by decide)
  simp only [pluginCall?, hplugin, skipOpenAmongBlanks_withReturns, lastId?_withReturns,
    Option.bind_eq_bind, Option.bind_map, Option.map_bind, Function.comp_def]
  rfl

/-- A literal identifier is read alike. -/
theorem literalName?_withReturns (text : List Char) :
    literalName? (withReturns text) =
      (literalName? text).map (Prod.map PluginName.returned withReturns) := by
  have hid := @after?_withReturns "id".toList (by decide) (by decide)
  simp only [literalName?, hid, skipOpenAmongBlanks_withReturns, quotedId?_withReturns,
    Option.bind_eq_bind, Option.bind_map, Option.map_bind, Function.comp_def, Prod.map,
    skipCloseAfterBlanks_withReturns]
  rfl

/-- A plugin of the Kotlin library is read alike. -/
theorem kotlinName?_withReturns (text : List Char) :
    kotlinName? (withReturns text) =
      (kotlinName? text).map (Prod.map PluginName.returned withReturns) := by
  have hkotlin := @after?_withReturns "kotlin".toList (by decide) (by decide)
  have hopen := @afterChar?_withReturns (· == '(') (by decide) (by decide)
  have hclose := @afterChar?_withReturns (· == ')') (by decide) (by decide)
  simp only [kotlinName?, hkotlin, trimStart_withReturns, hopen, quotedId?_withReturns, hclose,
    Option.bind_eq_bind, Option.bind_map, Option.map_bind, Function.comp_def, Prod.map]
  rfl

/-- An accessor of a version catalog is read alike. -/
theorem catalogName?_withReturns (text : List Char) :
    catalogName? (withReturns text) =
      (catalogName? text).map (Prod.map PluginName.returned withReturns) := by
  have halias := @after?_withReturns "alias".toList (by decide) (by decide)
  have hopen := @afterChar?_withReturns (· == '(') (by decide) (by decide)
  have hclose := @afterChar?_withReturns (· == ')') (by decide) (by decide)
  have hrun := @run?_withReturns (fun c => Text.isWord c || c == '.' || c == '-') (by decide)
  simp only [catalogName?, halias, trimStart_withReturns, hopen, hrun, hclose, Option.bind_eq_bind,
    Option.bind_map, Option.map_bind, Function.comp_def, Prod.map]
  rfl

/-- An identifier between backticks is read alike. -/
theorem backtickName?_withReturns (text : List Char) :
    backtickName? (withReturns text) =
      (backtickName? text).map (Prod.map PluginName.returned withReturns) := by
  have hquote := @afterChar?_withReturns (· == '`') (by decide) (by decide)
  have hrun := @run?_withReturns (· != '`') (by decide)
  simp only [backtickName?, hquote, hrun, Option.bind_eq_bind, Option.bind_map, Option.map_bind,
    Function.comp_def, Prod.map]
  rfl

/-- The parts of a bare identifier are read alike. -/
theorem bareParts_withReturns (inPart : Bool) (text : List Char) :
    bareParts inPart (withReturns text) =
      Prod.map withReturns withReturns (bareParts inPart text) := by
  induction text generalizing inPart with
  | nil => rfl
  | cons c text ih =>
    by_cases hc : c = '\n'
    · subst hc
      cases inPart <;> rfl
    · have hhead : (withReturns text).head?.any startsBarePart = text.head?.any startsBarePart :=
        any_head?_withReturns (by decide) text
      rw [withReturns_cons hc, bareParts, bareParts, hhead, ih, ih]
      split_ifs <;> simp [withReturns_cons hc]

/-- A bare identifier is read alike. -/
theorem bareName?_withReturns (text : List Char) :
    bareName? (withReturns text) =
      (bareName? text).map (Prod.map PluginName.returned withReturns) := by
  rw [bareName?, bareName?, bareParts_withReturns]
  obtain ⟨id, rest⟩ := bareParts false text
  cases id with
  | nil => rfl
  | cons c id =>
    obtain ⟨d, more, hmore⟩ := List.exists_cons_of_ne_nil
      (mt withReturns_eq_nil_iff.mp (List.cons_ne_nil c id))
    simp [hmore, PluginName.returned]

/-- What follows is on one line, if it was before. -/
theorem onOneLine_map (found : Option (PluginName × List Char)) :
    onOneLine (found.map (Prod.map PluginName.returned withReturns)) =
      (onOneLine found).map (Prod.map PluginName.returned withReturns) := by
  cases found with
  | none => rfl
  | some found =>
    obtain ⟨name, rest⟩ := found
    by_cases hline : '\n' ∈ rest <;> simp [onOneLine, Option.filter, hline]

/-- What follows is on one line. -/
theorem onOneLine_eq_some {found : Option (PluginName × List Char)} {name : PluginName}
    {rest : List Char} (h : onOneLine found = some (name, rest)) : '\n' ∉ rest := by
  simpa using (Option.filter_eq_some_iff.mp h).2

/-- The way an entry names its plugin is read alike. -/
theorem pluginName?_withReturns (text : List Char) :
    pluginName? (withReturns text) =
      (pluginName? text).map (Prod.map PluginName.returned withReturns) := by
  simp only [pluginName?, literalName?_withReturns, kotlinName?_withReturns,
    catalogName?_withReturns, backtickName?_withReturns, bareName?_withReturns, onOneLine_map,
    Option.orElse_eq_orElse, Option.orElse_eq_or, Option.map_or]

/-- What follows the name of a plugin is on one line. -/
theorem pluginName?_eq_some {text rest : List Char} {name : PluginName}
    (h : pluginName? text = some (name, rest)) : '\n' ∉ rest := by
  simp only [pluginName?, Option.orElse_eq_orElse, Option.orElse_eq_or, Option.or_eq_some_iff] at h
  rcases h with h | ⟨-, h | ⟨-, h | ⟨-, h | ⟨-, h⟩⟩⟩⟩ <;> exact onOneLine_eq_some h

/-- A plugin has the same identifier and arguments. -/
theorem reference_returned (name : PluginName) (text other : List Char) :
    (name.returned.reference other).toOption =
      (name.reference text).toOption.map (Prod.map withReturns (List.map withReturns)) := by
  cases name with
  | bare id =>
    have hid : (withReturns id == "id".toList) = (id == "id".toList) := by
      rw [Bool.eq_iff_iff, beq_iff_eq, beq_iff_eq, withReturns_eq_iff (by decide)]
    rw [PluginName.returned, PluginName.reference, PluginName.reference, hid]
    split <;> rfl
  | _ => rfl

/-- Nothing but a value is kept of a computation that goes on behind another one. -/
theorem toOption_bind {ε α β : Type} (found : Except ε α) (next : α → Except ε β) :
    (found >>= next).toOption = found.toOption.bind fun value => (next value).toOption := by
  cases found <;> rfl

/-- An entry of a `plugins` block names the same plugin. -/
theorem pluginEntry_withReturns (text : List Char) :
    (pluginEntry (withReturns text)).toOption =
      (pluginEntry text).toOption.map PluginEntry.returned := by
  rw [pluginEntry, pluginEntry, trim_withReturns, applyStatement?_withReturns,
    pluginName?_withReturns]
  cases applyStatement? (trim text) with
  | some entry => rfl
  | none =>
    cases hname : pluginName? (trim text) with
    | none => rfl
    | some found =>
      obtain ⟨name, rest⟩ := found
      -- Behind the name there is no line end, so the clauses there are the same.
      have hrest := withReturns_of_notMem (pluginName?_eq_some hname)
      have hreference := reference_returned name (trim text) (withReturns (trim text))
      simp only [Option.map_none, Option.map_some, Prod.map, hrest, toOption_bind, hreference,
        Option.bind_map, Option.map_bind, Function.comp_def]
      refine Option.bind_congr fun found _ => ?_
      split <;> rfl

/-- A statement names the same plugin, in whatever block. -/
theorem pluginIn_withReturns (block : Option Block) (text : List Char) :
    (pluginIn block (withReturns text)).toOption =
      (pluginIn block text).toOption.map (Option.map PluginEntry.returned) := by
  have hentry := pluginEntry_withReturns text
  match block with
  | some .plugins =>
    simp only [pluginIn]
    cases h : pluginEntry text <;> cases hother : pluginEntry (withReturns text) <;>
      simp_all [Except.toOption, Except.map]
  | some .apply => simp [pluginIn, pluginCall?_withReturns, Except.toOption]
  | none | some .dependencies | some .allProjects | some .subprojects | some .repositories
  | some .buildscript => simp [pluginIn, applyStatement?_withReturns, Except.toOption]

end Plugins

section Modules

/-- A text is empty, if it was before. -/
theorem isEmpty_withReturns (text : List Char) : (withReturns text).isEmpty = text.isEmpty := by
  rw [Bool.eq_iff_iff, List.isEmpty_iff, List.isEmpty_iff, withReturns_eq_nil_iff]

/-- What stands between quotes is read alike. -/
theorem literalText?_withReturns (text : List Char) :
    literalText? (withReturns text) =
      (literalText? text).map (Prod.map withReturns withReturns) := by
  cases text with
  | nil => rfl
  | cons quote body =>
    by_cases hline : quote = '\n'
    · subst hline
      rfl
    rw [withReturns_cons hline, literalText?, literalText?]
    by_cases hquote : isQuote quote = true
    · have hkinds : ('\r' != quote) = ('\n' != quote) := by
        rcases (by simpa [isQuote] using hquote : quote = '\'' ∨ quote = '"') with rfl | rfl <;> rfl
      have hend := List.head?_dropWhile_not (· != quote) body
      rw [List.span_eq_takeWhile_dropWhile, List.span_eq_takeWhile_dropWhile,
        takeWhile_withReturns hkinds, dropWhile_withReturns hkinds]
      cases hrest : body.dropWhile (· != quote) with
      | nil => simp
      | cons c rest =>
        obtain rfl : c = quote := by simpa [hrest] using hend
        simp [withReturns_cons hline, hquote]
    · simp [hquote]

/-- What follows a literal is shorter. -/
theorem literalText?_length {text value rest : List Char}
    (h : literalText? text = some (value, rest)) : rest.length < text.length := by
  cases text with
  | nil => cases h
  | cons quote body =>
    rw [literalText?, List.span_eq_takeWhile_dropWhile] at h
    have hsuffix := (List.dropWhile_suffix (· != quote) (l := body)).length_le
    split at h
    · cases h
    · split at h <;> cases h
      simp_all
      omega

/-- The literals of a text are read alike, if all characters of both texts may be looked at. -/
theorem literalTexts_withReturns {count other : Nat} {text : List Char}
    (hcount : text.length ≤ count) (hother : (withReturns text).length ≤ other) :
    literalTexts other (withReturns text) = (literalTexts count text).map withReturns := by
  induction count generalizing text other with
  | zero =>
    obtain rfl : text = [] := by simpa using hcount
    cases other <;> rfl
  | succ count ih =>
    cases text with
    | nil => cases other <;> rfl
    | cons c text =>
      rw [List.length_cons, Nat.succ_le_succ_iff] at hcount
      by_cases hc : c = '\n'
      · subst hc
        -- The carriage return and the line feed are looked at one after the other.
        match other with
        | 0 | 1 => simp at hother
        | other + 2 => exact ih hcount (by simpa using hother)
      · have hliteral := literalText?_withReturns (c :: text)
        rw [withReturns_cons hc] at hliteral hother ⊢
        cases other with
        | zero => simp at hother
        | succ other =>
          rw [List.length_cons, Nat.succ_le_succ_iff] at hother
          rw [literalTexts, literalTexts, hliteral]
          cases hfound : literalText? (c :: text) with
          | none => exact ih hcount hother
          | some found =>
            obtain ⟨value, rest⟩ := found
            have hshorter := literalText?_length hfound
            rw [hfound] at hliteral
            have hotherShorter := literalText?_length hliteral
            simp only [List.length_cons] at hshorter hotherShorter
            simp only [Option.map_some, Prod.map, List.map_cons]
            rw [ih (by omega) (by omega)]

/-- A module path leads to the same directory. -/
theorem moduleDirectory?_withReturns (path : List Char) :
    moduleDirectory? (withReturns path) = (moduleDirectory? path).map withReturns := by
  rw [moduleDirectory?, moduleDirectory?, split, split, trim_withReturns,
    splitWhere_withReturns (by decide) (by decide), List.filter_map]
  simp only [Function.comp_def, isEmpty_withReturns]
  cases (splitWhere (· == ':') (trim path)).filter (!·.isEmpty) with
  | nil => rfl
  | cons part parts => exact congrArg some (intercalate_withReturns ['/'] (part :: parts))

/-- A statement includes modules, if it did before. -/
theorem isInclude_withReturns (text : List Char) :
    isInclude (withReturns text) = isInclude text := by
  rw [isInclude, isInclude, after?_withReturns (by decide) (by decide)]
  cases after? "include".toList text with
  | none => rfl
  | some rest => exact congrArg (!·) (any_head?_withReturns (by decide) rest)

end Modules

/-- A declaration asks for the same coordinates. -/
theorem declaration_withReturns (text : List Char) :
    declaration (withReturns text) = declaration text := by
  rw [declaration, declaration, compact_withReturns]

section Blocks

/-- A block has the same name but for line ends. -/
theorem nameOfHeader_withReturns (header : List Char) :
    Script.nameOfHeader (withReturns header) = (Script.nameOfHeader header).map withReturns := by
  have hname (name : List Char) :
      (if (withReturns name).isEmpty then none else some (withReturns name)) =
        (if name.isEmpty then none else some name).map withReturns := by
    rw [isEmpty_withReturns]
    split <;> rfl
  have hplain := @takeWhile_withReturns (fun c => isAlphanumeric c || c == '_') (by decide)
  have hquoted := @takeWhile_withReturns (· != '`') (by decide)
  rw [Script.nameOfHeader, Script.nameOfHeader, trimStart_withReturns]
  cases trimStart header with
  | nil => rfl
  | cons c rest =>
    by_cases hc : c = '\n'
    · subst hc
      rfl
    · by_cases hquote : c = '`'
      · subst hquote
        rw [withReturns_cons (by decide)]
        simp only [hquoted, hname]
      · have hrest := hplain (c :: rest)
        rw [withReturns_cons hc] at hrest ⊢
        simp only [List.cons.injEq, hquote, false_and, imp_self, implies_true, hrest]
        exact hname _

/-- A name with a line feed in it is that of no block. -/
theorem ofName?_of_mem {name : List Char} (h : '\n' ∈ name) : Block.ofName? name = none := by
  refine List.find?_eq_none.mpr fun block _ hname => ?_
  have hkey : '\n' ∉ block.key.toList := by cases block <;> decide
  rw [beq_iff_eq] at hname
  rw [hname] at hkey
  exact hkey (List.mem_map.mpr ⟨'\n', h, rfl⟩)

/-- A name is that of the same block. -/
theorem ofName?_withReturns (name : List Char) :
    Block.ofName? (withReturns name) = Block.ofName? name := by
  by_cases hline : '\n' ∈ name
  · rw [ofName?_of_mem hline, ofName?_of_mem (mem_withReturns_break.mpr hline)]
  · rw [withReturns_of_notMem hline]

end Blocks

end Gradle

end CorpusFacts
