import CorpusFacts.Analysis.Extraction

/-!
# Module lists

The modules of a project as records. No file is read for them: they are known once the project is.
-/

namespace CorpusFacts

/-- One module. -/
structure ModuleRecord where
  /-- The path of the module. -/
  module : String
  deriving DecidableEq, Repr

instance : Record ModuleRecord where
  header := ["module"]
  columns record := [record.module]
  toJson record := .object [("module", .text record.module)]

instance : LawfulRecord ModuleRecord where
  header_ne_nil := List.cons_ne_nil _ _
  length_columns _ := rfl

/-- The modules of a project, in order. -/
def moduleList : Extraction Unit ModuleRecord where
  name := "gradle_modules"
  scope := .descriptors [] false false
  defaultFormat := .lines
  order := .source
  needsModules := true
  collect _ := .empty
  aggregate project _ := .ok (project.modules.map fun module => ⟨module.relative⟩)

end CorpusFacts
