import CorpusFacts.Proofs.Gradle.BlockChain
import CorpusFacts.Proofs.Gradle.Columns
import CorpusFacts.Proofs.Gradle.DeclarationReaders
import CorpusFacts.Proofs.Script.Spelling

/-!
# Blocks that name plugins

What a statement says about plugins depends on the block directly around it, and what a block is
depends on the identifier that its header begins with, whatever follows there: a header that calls
a member of `plugins` begins with the same identifier as one that is nothing else. So plugins come
from `apply` statements only, exactly where no statement directly in such a block reads as another
entry, and none directly in a block that begins with `apply` reads as a call.
-/

namespace CorpusFacts.Gradle

section Headers

variable {header written : List Char} {block : Block}

/-- Characters of an identifier. -/
def isNameChar (c : Char) : Bool :=
  Text.isAlphanumeric c || c == '_'

/-- A text begins with an identifier, as it is or between backticks. -/
inductive BeginsWith : (text written : List Char) → Prop
  /-- As it is, up to another character. -/
  | plain {written rest : List Char} (hwritten : IsMadeOf isNameChar written)
      (hrest : ∀ c ∈ rest.head?, isNameChar c = false) : BeginsWith (written ++ rest) written
  /-- Between backticks. -/
  | quoted {written rest : List Char} (hwritten : IsMadeOf (· != '`') written)
      (hrest : ∀ c ∈ rest.head?, (c != '`') = false) : BeginsWith ('`' :: (written ++ rest)) written

/-- A header leads with a name, in whatever case, if it begins with it. What follows does not
count. -/
def LeadsWith (name : String) (header : List Char) : Prop :=
  ∃ written, BeginsWith (Text.trimStart header) written ∧ Text.asciiLower written = name.toList

/-- The longest start of a text that is made of characters of a kind, if there is one. -/
theorem takeWhile_eq_iff {p : Char → Bool} {text taken : List Char} :
    text.takeWhile p = taken ↔ ∃ rest, text = taken ++ rest ∧ (∀ c ∈ taken, p c = true) ∧
      ∀ c ∈ rest.head?, p c = false := by
  simp only [← span_eq_iff, List.span_eq_takeWhile_dropWhile, Prod.mk.injEq, exists_and_left,
    exists_eq', and_true]

theorem eq_some_of_not_isEmpty_iff {name : List Char} :
    (if name.isEmpty then none else some name) = some written ↔ name = written ∧ written ≠ [] := by
  cases name with
  | nil => simp +contextual [eq_comm]
  | cons c name => simpa using fun h : c :: name = written => h ▸ List.cons_ne_nil c name

/-- The name of a block is the identifier that its header begins with. -/
theorem nameOfHeader_eq_some_iff :
    Script.nameOfHeader header = some written ↔ BeginsWith (Text.trimStart header) written := by
  have hbacktick : isNameChar '`' = false := by decide
  unfold Script.nameOfHeader
  generalize Text.trimStart header = text
  rw [eq_some_of_not_isEmpty_iff]
  constructor
  · rintro ⟨hname, hne⟩
    split at hname
    · obtain ⟨rest, rfl, hwritten, hrest⟩ := takeWhile_eq_iff.mp hname
      exact .quoted ⟨hne, hwritten⟩ hrest
    · obtain ⟨rest, rfl, hwritten, hrest⟩ := takeWhile_eq_iff.mp hname
      exact .plain ⟨hne, hwritten⟩ hrest
  · intro h
    cases h with
    | @plain _ rest hwritten hrest =>
      refine ⟨?_, hwritten.ne_nil⟩
      split
      · rename_i behind htext
        obtain ⟨first, more, rfl⟩ := List.exists_cons_of_ne_nil hwritten.ne_nil
        obtain ⟨rfl, -⟩ := List.cons.inj htext
        have hfirst := hwritten.all '`' (List.mem_cons_self ..)
        rw [hbacktick] at hfirst
        cases hfirst
      · exact takeWhile_eq_iff.mpr ⟨rest, rfl, hwritten.all, hrest⟩
    | @quoted _ rest hwritten hrest =>
      exact ⟨takeWhile_eq_iff.mpr ⟨rest, rfl, hwritten.all, hrest⟩, hwritten.ne_nil⟩

theorem ofName?_eq_some_iff :
    Block.ofName? written = some block ↔ Text.asciiLower written = block.key.toList := by
  constructor
  · intro h
    rw [Block.ofName?] at h
    have hkey := List.find?_some h
    exact (beq_iff_eq.mp hkey).symm
  · intro h
    rw [Block.ofName?, h]
    cases block <;> rfl

/-- A header is that of a block with a meaning if it leads with the name of that block. -/
theorem ofName?_nameOfHeader :
    (Script.nameOfHeader header).bind Block.ofName? = some block ↔ LeadsWith block.key header := by
  simp only [Option.bind_eq_some_iff, nameOfHeader_eq_some_iff, ofName?_eq_some_iff, LeadsWith]

end Headers

section Places

variable (unit : SourceUnit)

/-- The header of the block directly around a place. -/
def headerAround? (place : Place) : Option (List Char) :=
  (place.chain.find? (·.kind == .block)).bind fun block =>
    (block.childOfKind? .blockHeader).map unit.text

/-- A place stands directly in a block whose header leads with a name. -/
def DirectlyIn (name : String) (place : Place) : Prop :=
  ∃ header ∈ headerAround? unit place, LeadsWith name header

/-- The text of the statement at a place, without the blanks around it. -/
def statementText (place : Place) : List Char :=
  Text.trim (unit.text place.node)

/-- The ways to name a plugin at a place. -/
inductive NamesPlugin (place : Place) : PluginEntry → Prop
  /-- An entry directly in a block that leads with `plugins`. -/
  | entry {entry : PluginEntry} (hkind : place.node.kind = .statement)
      (hin : DirectlyIn unit "plugins" place)
      (h : pluginEntry (statementText unit place) = .ok entry) : NamesPlugin place entry
  /-- A call directly in a block that leads with `apply`. -/
  | call {entry : PluginEntry} (hkind : place.node.kind = .statement)
      (hin : DirectlyIn unit "apply" place)
      (h : pluginCall? (statementText unit place) = some entry) : NamesPlugin place entry
  /-- An `apply` statement anywhere else. -/
  | applied {entry : PluginEntry} (hkind : place.node.kind = .statement)
      (hplugins : ¬ DirectlyIn unit "plugins" place) (happly : ¬ DirectlyIn unit "apply" place)
      (h : applyStatement? (statementText unit place) = some entry) : NamesPlugin place entry

/-- The plugin that is named at a place. -/
def pluginAt? (place : Place) : Option PluginEntry :=
  if place.node.kind = .statement then
    (pluginIn (BlockContext.mk (blocksAmong unit place.chain)).current
      (statementText unit place)).toOption.join
  else none

variable {unit} {place : Place}

theorem current_mk (chain : List (Option Block)) :
    (BlockContext.mk chain).current = chain.head?.join := by
  cases chain <;> rfl

/-- The meaning of a block is that of its header. -/
theorem meaning?_of_isBlock {block : Node} (h : block.kind = .block) :
    meaning? unit block =
      (((block.childOfKind? .blockHeader).map unit.text).bind Script.nameOfHeader).bind
        Block.ofName? := by
  rw [meaning?, Script.blockName, if_pos (by simp [h]), Option.bind_map]
  rfl

/-- The block directly around is told by its header. -/
theorem current_blocksAmong (unit : SourceUnit) (place : Place) :
    (BlockContext.mk (blocksAmong unit place.chain)).current =
      ((headerAround? unit place).bind Script.nameOfHeader).bind Block.ofName? := by
  have hhead : ((blocksAmong unit place.chain).head?).join =
      (place.chain.find? (·.kind == .block)).bind (meaning? unit) := by
    rw [blocksAmong, List.head?_map, List.head?_filter]
    cases place.chain.find? (·.kind == .block) <;> rfl
  rw [current_mk, hhead, headerAround?]
  cases hblock : place.chain.find? (·.kind == .block) with
  | none => rfl
  | some block =>
    have hkind := List.find?_some hblock
    exact meaning?_of_isBlock (beq_iff_eq.mp hkind)

theorem current_eq_some_iff {block : Block} :
    (BlockContext.mk (blocksAmong unit place.chain)).current = some block ↔
      DirectlyIn unit block.key place := by
  rw [current_blocksAmong, Option.bind_assoc, Option.bind_eq_some_iff, DirectlyIn]
  simp only [ofName?_nameOfHeader, Option.mem_def]

theorem pluginAt?_eq_some_iff {entry : PluginEntry} :
    pluginAt? unit place = some entry ↔ NamesPlugin unit place entry := by
  constructor
  · intro h
    unfold pluginAt? at h
    split at h
    · rename_i hkind
      unfold pluginIn at h
      split at h
      · rename_i hcurrent
        refine .entry hkind (current_eq_some_iff.mp hcurrent) ?_
        cases hentry : pluginEntry (statementText unit place) with
        | error error =>
          rw [hentry] at h
          cases h
        | ok found =>
          rw [hentry] at h
          exact congrArg Except.ok (Option.some.inj h)
      · rename_i hcurrent
        exact .call hkind (current_eq_some_iff.mp hcurrent) h
      · rename_i hplugins happly
        exact .applied hkind (fun hin => hplugins (current_eq_some_iff.mpr hin))
          (fun hin => happly (current_eq_some_iff.mpr hin)) h
    · cases h
  · intro h
    cases h with
    | entry hkind hin h =>
      have hcurrent : (BlockContext.mk (blocksAmong unit place.chain)).current = some .plugins :=
        current_eq_some_iff.mpr hin
      rw [pluginAt?, if_pos hkind, hcurrent, pluginIn, h]
      rfl
    | call hkind hin h =>
      have hcurrent : (BlockContext.mk (blocksAmong unit place.chain)).current = some .apply :=
        current_eq_some_iff.mpr hin
      rw [pluginAt?, if_pos hkind, hcurrent, pluginIn, h]
      rfl
    | applied hkind hplugins happly h =>
      have hnoPlugins : (BlockContext.mk (blocksAmong unit place.chain)).current ≠ some .plugins :=
        fun hcurrent => hplugins (current_eq_some_iff.mp hcurrent)
      have hnoApply : (BlockContext.mk (blocksAmong unit place.chain)).current ≠ some .apply :=
        fun hcurrent => happly (current_eq_some_iff.mp hcurrent)
      rw [pluginAt?, if_pos hkind, pluginIn]
      · rw [h]
        rfl
      · exact hnoPlugins
      · exact hnoApply

end Places

section Statements

theorem trim_cons {c : Char} (hc : Text.isBlank c = false) (rest : List Char) :
    ∃ more, Text.trim (c :: rest) = c :: more := by
  have hstart : Text.trimStart (c :: rest) = c :: rest :=
    List.dropWhile_cons_of_neg (by simp [hc])
  rw [Text.trim, hstart, Text.dropEndWhile, List.reverse_cons, List.dropWhile_append]
  split
  · rw [List.dropWhile_cons_of_neg (by simp [hc])]
    exact ⟨[], rfl⟩
  · rw [List.reverse_append]
    exact ⟨_, rfl⟩

/-- A call is no `apply` statement. -/
theorem applyStatement?_of_pluginCall? {text : List Char} {entry : PluginEntry}
    (h : pluginCall? text = some entry) : applyStatement? text = none := by
  have hstart : ∃ rest, text = 'p' :: rest := by
    cases text with
    | nil => cases h
    | cons c rest =>
      by_cases hc : c = 'p'
      · exact ⟨rest, hc ▸ rfl⟩
      · have hnone : Text.after? ('p' :: "lugin".toList) (c :: rest) = none :=
          if_neg (by simpa using Ne.symm hc)
        have hcall : "plugin".toList = 'p' :: "lugin".toList := rfl
        rw [pluginCall?, hcall, hnone] at h
        cases h
  obtain ⟨rest, rfl⟩ := hstart
  obtain ⟨more, hmore⟩ := trim_cons (by decide : Text.isBlank 'p' = false) rest
  have hnone : Text.after? "apply".toList ('p' :: more) = none := rfl
  simp only [applyStatement?, hmore, hnone, Option.bind_eq_bind, Option.bind_none]

end Statements

/-- The places of a build script. -/
def scriptPlaces (unit : SourceUnit) : List Place :=
  match unit.language with
  | .kotlin | .groovy => unit.root.places
  | _ => []

/-- The finding of a plugin at a place. -/
def foundAt (unit : SourceUnit) (place : Place) (entry : PluginEntry) : Finding PluginRecord :=
  ⟨"gradle-plugin", unit.relativePath, unit.module, place.node.line,
    entry.record unit.module (∃ node ∈ place.chain, IsForAllProjects unit node)⟩

theorem values_pluginAnalyzer (unit : SourceUnit) (place : Place) :
    (pluginAnalyzer.findings unit ⟨blocksAmong unit place.chain⟩ place.node).values =
      (pluginAt? unit place).toList.map (foundAt unit place) := by
  have hforAll : (BlockContext.mk (blocksAmong unit place.chain)).isForAllProjects =
      decide (∃ node ∈ place.chain, IsForAllProjects unit node) := isForAllProjects_blocksAmong _
  unfold Analyzer.findings pluginAt?
  by_cases hkind : place.node.kind = .statement
  · simp only [pluginAnalyzer, hkind, hforAll, statementText]
    cases pluginIn (BlockContext.mk (blocksAmong unit place.chain)).current
        (Text.trim (unit.text place.node)) with
    | error error => simp [Except.toOption]
    | ok entry =>
      cases entry with
      | none => simp [Findings.empty, Except.toOption]
      | some entry => simp [foundAt, Except.toOption]
  · simp [pluginAnalyzer, hkind, Findings.empty]

theorem Findings.values_join {α : Type} (parts : List (Findings α)) :
    (Findings.join parts).values = parts.flatMap Findings.values := by
  induction parts with
  | nil => rfl
  | cons part parts ih =>
    rw [List.flatMap_cons, ← ih]
    rfl

/-- The plugins that are found in a file are those that are named at the places of a script, in
preorder. -/
theorem values_pluginsOf (unit : SourceUnit) :
    (pluginsOf unit).values = (scriptPlaces unit).flatMap fun place =>
      (pluginAt? unit place).toList.map (foundAt unit place) := by
  have hvalues : (pluginSurvey.collect unit).values = unit.root.places.flatMap fun place =>
      (pluginAt? unit place).toList.map (foundAt unit place) := by
    have hreached := reached_blockSurvey [pluginAnalyzer] unit
    have hsurvey : pluginSurvey = blockSurvey [pluginAnalyzer] := rfl
    rw [hsurvey, Survey.collect_eq_join_reached, hreached, List.map_map, Findings.values_join,
      List.flatMap_map]
    refine List.flatMap_congr fun place _ => ?_
    rw [← values_pluginAnalyzer]
    exact congrArg Findings.values (Findings.append_empty _)
  unfold pluginsOf scriptPlaces
  cases unit.language with
  | kotlin => exact hvalues
  | groovy => exact hvalues
  | _ => rfl

/-- A plugin that is kept is named at a place. -/
theorem exists_place_of_mem_mergePlugins {unit : SourceUnit} {record : PluginRecord}
    (h : record ∈ mergePlugins (pluginsOf unit).contents) :
    ∃ place ∈ scriptPlaces unit, ∃ entry, NamesPlugin unit place entry ∧
      ∃ isForAllProjects, record = entry.record unit.module isForAllProjects := by
  obtain ⟨other, hother, rfl⟩ := List.mem_map.mp h
  have hfound := firstOfEachKey_subset _ hother
  rw [Findings.contents, values_pluginsOf] at hfound
  simp only [List.mem_map, List.mem_flatMap, Option.mem_toList] at hfound
  obtain ⟨_, ⟨place, hplace, entry, hentry, rfl⟩, rfl⟩ := hfound
  exact ⟨place, hplace, entry, pluginAt?_eq_some_iff.mp hentry, _, rfl⟩

/-- The plugins of a script are those that are named at its places: by an entry directly in a block
whose header leads with `plugins`, whatever follows there, by a call directly in a block whose
header leads with `apply`, and by an `apply` statement anywhere else. All that are kept are among
them. So all come from `apply` statements exactly where no statement directly in a block that leads
with `plugins` reads as another entry, and none directly in a block that leads with `apply` reads as
a call. -/
theorem plugins_from_apply_statements_iff (unit : SourceUnit) :
    (pluginsOf unit).values = (scriptPlaces unit).flatMap (fun place =>
        (pluginAt? unit place).toList.map (foundAt unit place)) ∧
      (∀ place entry, pluginAt? unit place = some entry ↔ NamesPlugin unit place entry) ∧
      (∀ record ∈ mergePlugins (pluginsOf unit).contents, ∃ place ∈ scriptPlaces unit, ∃ entry,
        NamesPlugin unit place entry ∧
          ∃ isForAllProjects, record = entry.record unit.module isForAllProjects) ∧
      ((∀ place ∈ scriptPlaces unit, ∀ entry, NamesPlugin unit place entry →
          applyStatement? (statementText unit place) = some entry) ↔
        ∀ place ∈ scriptPlaces unit, place.node.kind = .statement →
          (DirectlyIn unit "plugins" place → ∀ entry,
            pluginEntry (statementText unit place) = .ok entry →
              applyStatement? (statementText unit place) = some entry) ∧
          (DirectlyIn unit "apply" place → pluginCall? (statementText unit place) = none)) := by
  refine ⟨values_pluginsOf unit, fun _ _ => pluginAt?_eq_some_iff,
    fun _ => exists_place_of_mem_mergePlugins, ?_, ?_⟩
  · intro h place hplace hkind
    refine ⟨fun hin entry hentry => h place hplace entry (.entry hkind hin hentry), fun hin => ?_⟩
    cases hcall : pluginCall? (statementText unit place) with
    | none => rfl
    | some entry =>
      have happly := h place hplace entry (.call hkind hin hcall)
      rw [applyStatement?_of_pluginCall? hcall] at happly
      cases happly
  · intro h place hplace entry hnames
    cases hnames with
    | entry hkind hin hentry => exact (h place hplace hkind).1 hin entry hentry
    | call hkind hin hcall =>
      rw [(h place hplace hkind).2 hin] at hcall
      cases hcall
    | applied hkind hplugins happly hentry => exact hentry

/-- A text is a name in whatever case, as it is or between backticks. -/
inductive IsName (name : String) : List Char → Prop
  /-- As it is. -/
  | plain {written : List Char} (hname : Text.asciiLower written = name.toList) :
      IsName name written
  /-- Between backticks. -/
  | quoted {written : List Char} (hname : Text.asciiLower written = name.toList) :
      IsName name ('`' :: (written ++ ['`']))

/-- A header is a name, perhaps with arguments in parentheses, and nothing else. -/
inductive IsExactly (name : String) : List Char → Prop
  /-- The name alone. -/
  | alone {header : List Char} (h : IsName name header) : IsExactly name header
  /-- The name and its arguments. -/
  | called {written blanks arguments : List Char} (h : IsName name written)
      (hblanks : ∀ c ∈ blanks, Text.isBlank c = true) :
      IsExactly name (written ++ (blanks ++ '(' :: (arguments ++ [')'])))

/-- Behind a name as it is, such a header goes on with a blank or an opening parenthesis, if at
all. -/
theorem IsExactly.next {name : String} {header : List Char} (h : IsExactly name header)
    (hplain : header.head? ≠ some '`') :
    Text.asciiLower (header.take name.length) = name.toList ∧
      ∀ c ∈ (header.drop name.length).head?, Text.isBlank c = true ∨ c = '(' := by
  have hlength {written : List Char} (hname : Text.asciiLower written = name.toList) :
      written.length = name.length := by
    rw [← String.length_toList, ← hname, Text.asciiLower, List.length_map]
  cases h with
  | alone hwritten =>
    cases hwritten with
    | plain hname =>
      rw [← hlength hname, List.take_length, List.drop_length]
      exact ⟨hname, by simp⟩
    | quoted _ => exact absurd rfl hplain
  | @called _ blanks arguments hwritten hblanks =>
    cases hwritten with
    | plain hname =>
      rw [← hlength hname, List.take_left, List.drop_left]
      refine ⟨hname, ?_⟩
      cases blanks with
      | nil =>
        rintro _ ⟨⟩
        exact .inr rfl
      | cons blank more =>
        rintro _ ⟨⟩
        exact .inl (hblanks blank (List.mem_cons_self ..))
    | quoted _ => exact absurd rfl hplain

/-- A statement in a block that is opened by a call of a member of `plugins` names a plugin, in a
script that has no other header and no `apply` statement. -/
theorem member_call_names_plugin :
    ∃ unit : SourceUnit, unit.language = .groovy ∧
      unit.source = "plugins.withId('java') \x7b\n    foo\n\x7d\n".toList ∧
      Script.tree .groovy unit.source = .ok unit.root ∧
      (unit.preorder.filter (·.kind == .blockHeader)).map unit.text =
        ["plugins.withId('java')".toList] ∧
      ¬ IsExactly "plugins" "plugins.withId('java')".toList ∧
      ¬ IsExactly "apply" "plugins.withId('java')".toList ∧
      (∀ node ∈ unit.preorder, applyStatement? (Text.trim (unit.text node)) = none) ∧
      mergePlugins (pluginsOf unit).contents = [⟨unit.module, "foo", none, [], true, false⟩] := by
  have htokens : Script.tokens .groovy "plugins.withId('java') \x7b\n    foo\n\x7d\n".toList = .ok
      [⟨.word, "plugins".toList, 0, 1⟩, ⟨.punct '.', ['.'], 7, 1⟩, ⟨.word, "withId".toList, 8, 1⟩,
        ⟨.opening .round, ['('], 14, 1⟩, ⟨.string, "'java'".toList, 15, 1⟩,
        ⟨.closing .round, [')'], 21, 1⟩, ⟨.opening .curly, ['\x7b'], 23, 1⟩,
        ⟨.newline, ['\n'], 24, 1⟩, ⟨.word, "foo".toList, 29, 2⟩, ⟨.newline, ['\n'], 32, 2⟩,
        ⟨.closing .curly, ['\x7d'], 33, 3⟩, ⟨.newline, ['\n'], 34, 3⟩] := by
    decide +kernel
  have htree := Script.tree_eq_ok_iff.mpr ⟨_, _, htokens, rfl, rfl⟩
  refine ⟨⟨⟨"build.gradle"⟩, "build.gradle", ".", .groovy, _, _⟩, rfl, rfl, htree, ?_, ?_, ?_, ?_,
    ?_⟩
  · decide +kernel
  · intro h
    exact absurd ((h.next (by decide)).2 '.' rfl) (by decide)
  · intro h
    exact absurd (h.next (by decide)).1 (by decide)
  · decide +kernel
  · decide +kernel

end CorpusFacts.Gradle
