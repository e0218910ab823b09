import CorpusFacts.Proofs.Project.Relisting
import CorpusFacts.Proofs.Project.Sources

/-!
# What an expansion sees outside of the boundary

Two trees agree on what lies inside the boundary of a project. As long as a listed path stays inside
on its way, it leads to the same in both. A path that leaves the boundary may come back, and before
it is dropped it has to be there: it makes no difference if it leads nowhere in both trees, out of
the boundary in both, or to the same directory inside.
-/

namespace CorpusFacts

namespace FileTree

variable {tree second : FileTree} {inside location place : List String} {path : Path}
  {inner name : String}

/-! ## Paths that go on from a directory -/

/-- A relative text that is joined to a path is resolved from where the path leads. -/
theorem exists_resolve_join (h : tree.canonical path = .ok location)
    (hinner : inner.toList.head? ≠ some '/') (hnul : '\x00' ∉ (path.join inner).text.toList) :
    ∃ follow, tree.resolve (path.join inner) true =
      tree.resolveSteps true follow location (⟨inner⟩ : Path).segments := by
  obtain ⟨hresolvable, hleads⟩ := canonical_eq_ok_iff.mp h
  obtain ⟨front, _, hjoin⟩ := Path.exists_front hresolvable.nonempty
  obtain ⟨steps, hsteps, _, hsegments⟩ := Path.exists_segments_join hresolvable.nonempty
  have hfront := hleads.of_slash_end hsteps
  obtain ⟨follow, hfollow⟩ := hfront.exists_resolveSteps true
  have hnonempty : (path.join inner).text ≠ "" := by
    intro hempty
    have htext := hjoin inner hinner
    rw [hempty] at htext
    simp at htext
  refine ⟨follow, ?_⟩
  rw [resolve, if_neg (by simpa using hnul), if_neg (by simpa using hnonempty)]
  change tree.resolveFrom true maxLinks (tree.startOf (path.join inner)) _ = _
  rw [startOf, Path.isAbsolute_join hinner hresolvable.nonempty, hsegments inner hinner]
  exact hfollow _ fun _ => rfl

/-- A relative text that is joined to a path of the same location in two trees leads to the same
location if all on its way is of the same kind, and none of it is a link. -/
theorem canonical_join_congr (h : tree.canonical path = .ok location)
    (hsecond : second.canonical path = .ok location) (hinner : inner.toList.head? ≠ some '/')
    (hkinds : ∀ spot ∈ spotsFrom location (⟨inner⟩ : Path).segments,
      tree.kindAt spot = second.kindAt spot ∧ tree.kindAt spot ≠ some .link) :
    second.canonical (path.join inner) = tree.canonical (path.join inner) := by
  by_cases hnul : '\x00' ∈ (path.join inner).text.toList
  · rw [canonical, canonical, resolve, resolve, if_pos (by simpa using hnul),
      if_pos (by simpa using hnul)]
  · obtain ⟨follow, hresolve⟩ := exists_resolve_join h hinner hnul
    obtain ⟨other, hother⟩ := exists_resolve_join hsecond hinner hnul
    rw [canonical, canonical, hresolve, hother, resolveSteps_congr hkinds]

/-- A relative text without links on its way leads on from the location of the path before it. -/
theorem eq_placeFrom_of_canonical_join (h : tree.canonical path = .ok location)
    (hinner : inner.toList.head? ≠ some '/')
    (hplain : ∀ spot ∈ spotsFrom location (⟨inner⟩ : Path).segments, tree.kindAt spot ≠ some .link)
    (hplace : tree.canonical (path.join inner) = .ok place) :
    place = placeFrom location (⟨inner⟩ : Path).segments := by
  have hnul := (canonical_eq_ok_iff.mp hplace).1.noNul
  obtain ⟨follow, hresolve⟩ := exists_resolve_join h hinner hnul
  have hexisting := resolve_of_canonical hplace
  rw [hresolve] at hexisting
  exact (of_resolveSteps_existing hplain hexisting).1

/-! ## Trees that agree inside a directory -/

/-- Two trees agree inside a directory: it is the same entry in both, and there are no links in it.
Everything else may differ. -/
structure AgreesInside (tree second : FileTree) (inside : List String) : Prop where
  /-- The directory is the same. -/
  entry : second.root.at? inside = tree.root.at? inside
  /-- There are no links in it. -/
  plain : ∀ location, inside <+: location → tree.kindAt location ≠ some .link

namespace AgreesInside

/-- Two trees agree inside a directory if a look at everything in it finds no link. -/
theorem of_checkPlain {entry : Entry} (hentry : tree.root.at? inside = some entry)
    (hsecond : second.root.at? inside = some entry) (hplain : entry.checkPlain = true) :
    tree.AgreesInside second inside where
  entry := hsecond.trans hentry.symm
  plain := by
    rintro _ ⟨rest, rfl⟩
    rw [Ne, kindAt_eq_link_iff, Entry.at?_append, hentry, Option.bind_some]
    rintro ⟨target, htarget⟩
    exact Entry.at?_ne_link_of_checkPlain hplain rest target htarget

/-- Everything inside is the same. -/
theorem at?_eq (h : tree.AgreesInside second inside) (hlocation : inside <+: location) :
    second.root.at? location = tree.root.at? location := by
  obtain ⟨rest, rfl⟩ := hlocation
  rw [Entry.at?_append, Entry.at?_append, h.entry]

/-- Everything inside is of the same kind. -/
theorem kindAt_eq (h : tree.AgreesInside second inside) (hlocation : inside <+: location) :
    tree.kindAt location = second.kindAt location := by
  rw [kindAt, kindAt, faceAt, faceAt, h.at?_eq hlocation]

/-- A text that stays inside on its way leads to something inside. -/
theorem prefix_of_canonical_join (h : tree.AgreesInside second inside)
    (hpath : tree.canonical path = .ok location) (hinner : inner.toList.head? ≠ some '/')
    (hway : ∀ spot ∈ spotsFrom location (⟨inner⟩ : Path).segments, inside <+: spot)
    (hplace : tree.canonical (path.join inner) = .ok place) : inside <+: place := by
  rw [eq_placeFrom_of_canonical_join hpath hinner
    (fun spot hspot => h.plain spot (hway spot hspot)) hplace]
  exact hway _ (placeFrom_mem_spotsFrom _ _)

/-- A text that stays inside on its way from a directory shows the same in both trees. -/
theorem showsSame_join (h : tree.AgreesInside second inside)
    (hpath : tree.canonical path = .ok location) (hsecond : second.canonical path = .ok location)
    (hinner : inner.toList.head? ≠ some '/')
    (hway : ∀ spot ∈ spotsFrom location (⟨inner⟩ : Path).segments, inside <+: spot) :
    tree.ShowsSame second (path.join inner) where
  canonical := canonical_join_congr hpath hsecond hinner fun spot hspot =>
    ⟨h.kindAt_eq (hway spot hspot), h.plain spot (hway spot hspot)⟩
  entry _ hplace := h.at?_eq (h.prefix_of_canonical_join hpath hinner hway hplace)

/-- A plain name stays inside on its way from a directory. -/
theorem way_of_isPlainName (hlocation : inside <+: location) (hname : IsPlainName name) :
    ∀ spot ∈ spotsFrom location (⟨name⟩ : Path).segments, inside <+: spot := by
  intro spot hspot
  rw [Path.segments_of_noSlash hname.noSlash, spotsFrom, spotsFrom,
    stepFrom_of_isPlainName _ hname, List.mem_cons, List.mem_singleton] at hspot
  rcases hspot with rfl | rfl
  · exact hlocation
  · exact hlocation.trans (List.prefix_append _ _)

/-- The modules of a directory inside are listed alike. -/
theorem listedModules_eq (h : tree.AgreesInside second inside)
    (hpath : tree.canonical path = .ok location) (hsecond : second.canonical path = .ok location)
    (hlocation : inside <+: location) :
    Gradle.listedModules second path = Gradle.listedModules tree path := by
  have hsame : ∀ name ∈ Gradle.settingsScripts, tree.ShowsSame second (path.join name) := by
    intro name hname
    have hplain := Gradle.isPlainName_of_mem_settingsScripts hname
    exact h.showsSame_join hpath hsecond (Path.head?_ne_slash hplain.noSlash)
      (way_of_isPlainName hlocation hplain)
  exact Gradle.listedModules_eq (fun name hname => (hsame name hname).isFile_eq)
    fun name hname _ => (hsame name hname).read_eq

end AgreesInside

/-! ## What is seen of a directory -/

/-- What a project sees of where a listed path leads. -/
inductive Sight where
  /-- There is no directory. -/
  | nothing
  /-- There is a directory outside of the boundary. -/
  | outside
  /-- There is the directory at a location inside. -/
  | inside (location : List String)
  deriving DecidableEq

/-- What is seen of where a path leads, with a boundary. -/
def sight (tree : FileTree) (boundary : List String) (path : Path) : Sight :=
  if tree.isDirectory path then
    match tree.canonical path with
    | .ok location => if boundary <+: location then .inside location else .outside
    | .error _ => .nothing
  else .nothing

variable {boundary : List String}

/-- A directory at some location is seen inside or outside. -/
theorem sight_of_isDirectory (hdirectory : tree.isDirectory path = true)
    (hlocation : tree.canonical path = .ok location) :
    tree.sight boundary path = if boundary <+: location then .inside location else .outside := by
  rw [sight, if_pos hdirectory, hlocation]

/-- Nothing is seen where there is no directory. -/
theorem sight_eq_nothing_iff : tree.sight boundary path = .nothing ↔
    tree.isDirectory path = false := by
  cases hdirectory : tree.isDirectory path with
  | false => simp [sight, hdirectory]
  | true =>
    obtain ⟨location, hlocation, _⟩ := location_of_isDirectory hdirectory
    rw [sight_of_isDirectory hdirectory hlocation]
    split <;> simp

/-- What is seen of a directory depends on its location. -/
theorem of_sight_ne_nothing (h : tree.sight boundary path ≠ .nothing) :
    tree.isDirectory path = true ∧ ∃ place, tree.canonical path = .ok place ∧
      tree.sight boundary path = if boundary <+: place then .inside place else .outside := by
  have hdirectory : tree.isDirectory path = true := by simpa using mt sight_eq_nothing_iff.mpr h
  obtain ⟨place, hplace, _⟩ := location_of_isDirectory hdirectory
  exact ⟨hdirectory, place, hplace, sight_of_isDirectory hdirectory hplace⟩

/-- A directory that is seen inside is the one at its location. -/
theorem of_sight_eq_inside (h : tree.sight boundary path = .inside location) :
    tree.isDirectory path = true ∧ tree.canonical path = .ok location := by
  obtain ⟨hdirectory, place, hplace, hsight⟩ := of_sight_ne_nothing (by rw [h]; simp)
  rw [h] at hsight
  split at hsight <;> cases hsight
  exact ⟨hdirectory, hplace⟩

/-- A directory that is seen outside lies at some location outside. -/
theorem of_sight_eq_outside (h : tree.sight boundary path = .outside) :
    tree.isDirectory path = true ∧
      ∃ location, tree.canonical path = .ok location ∧ ¬ boundary <+: location := by
  obtain ⟨hdirectory, place, hplace, hsight⟩ := of_sight_ne_nothing (by rw [h]; simp)
  rw [h] at hsight
  split at hsight
  · cases hsight
  · rename_i houtside
    exact ⟨hdirectory, place, hplace, houtside⟩

/-- A path that shows the same is seen alike. -/
theorem ShowsSame.sight_eq (h : tree.ShowsSame second path) (boundary : List String) :
    second.sight boundary path = tree.sight boundary path := by
  rw [sight, sight, h.isDirectory_eq, h.canonical]

end FileTree

namespace ProjectFinder

open FileTree (AgreesInside)

variable {finder : ProjectFinder} {tree second : FileTree} {boundary location : List String}
  {project : Project} {root directory path : Path} {module : String} {listing : Listing}
  {found : Module}

/-- A listed path stays inside the boundary on its way from the directory that lists it. -/
def StaysInside (tree : FileTree) (boundary : List String) (listing : Listing) : Prop :=
  ∀ path location, modulePath? listing.listed = some path →
    tree.canonical listing.directory = .ok location →
    ∀ spot ∈ FileTree.spotsFrom location (⟨path⟩ : Path).segments, boundary <+: spot

/-- Every path that is listed in a project and leaves the boundary on its way is seen alike in a
second tree. -/
def LeavesAlike (finder : ProjectFinder) (tree second : FileTree) (boundary : List String)
    (root : Path) : Prop :=
  ∀ listing found, IsListed finder tree boundary root listing → listing.module? = some found →
    ¬ StaysInside tree boundary listing →
    second.sight boundary found.root = tree.sight boundary found.root

/-- A listed path that a directory inside lists is seen alike, whether it stays inside on its way or
leaves it. -/
theorem LeavesAlike.sight_eq (hleaves : LeavesAlike finder tree second boundary root)
    (hagrees : tree.AgreesInside second boundary)
    (hlisting : IsListed finder tree boundary root listing)
    (hmodule : listing.module? = some found)
    (hlocation : tree.canonical listing.directory = .ok location)
    (hsecond : second.canonical listing.directory = .ok location) :
    second.sight boundary found.root = tree.sight boundary found.root := by
  by_cases hstays : StaysInside tree boundary listing
  · obtain ⟨path, hpath, rfl⟩ := Option.map_eq_some_iff.mp hmodule
    exact (hagrees.showsSame_join hlocation hsecond (isModulePath_of_modulePath? hpath).head
      (hstays path location hpath hlocation)).sight_eq boundary
  · exact hleaves listing found hlisting hmodule hstays

/-- A directory that is reached lies inside the boundary, at the same location in both trees. -/
theorem LeavesAlike.located (hleaves : LeavesAlike finder tree second boundary root)
    (hagrees : tree.AgreesInside second boundary) (hroot : tree.canonical root = .ok location)
    (hotherRoot : second.canonical root = .ok location) (hinside : boundary <+: location)
    (hreached : Reached finder tree boundary root directory module) :
    ∃ place, tree.canonical directory = .ok place ∧ second.canonical directory = .ok place ∧
      boundary <+: place := by
  induction hreached with
  | root => exact ⟨location, hroot, hotherRoot, hinside⟩
  | @listed directory module listed paths found place hreached hlister hlisted hmodule hdirectory
      hplace hplaceInside ih =>
    obtain ⟨around, haround, hotherAround, _⟩ := ih
    have hsight := hleaves.sight_eq hagrees ⟨hreached, paths, hlister, hlisted⟩ hmodule haround
      hotherAround
    rw [FileTree.sight_of_isDirectory hdirectory hplace, if_pos hplaceInside] at hsight
    obtain ⟨hotherDirectory, hotherPlace⟩ := FileTree.of_sight_eq_inside hsight
    exact ⟨place, hplace, hotherPlace, hplaceInside⟩

/-- A directory that is listed in a project is seen alike where all that leaves the boundary is. -/
theorem LeavesAlike.seenAlike (hleaves : LeavesAlike finder tree second boundary root)
    (hfinder : finder.lister = Gradle.listedModules) (hagrees : tree.AgreesInside second boundary)
    (hlisting : IsListed finder tree boundary root listing)
    (hmodule : listing.module? = some found)
    (hlocation : tree.canonical listing.directory = .ok location)
    (hsecond : second.canonical listing.directory = .ok location)
    (hdirectory : tree.isDirectory found.root = true) :
    SeenAlike finder tree second boundary found.root := by
  have hsight := hleaves.sight_eq hagrees hlisting hmodule hlocation hsecond
  obtain ⟨place, hplace, _⟩ := FileTree.location_of_isDirectory hdirectory
  rw [FileTree.sight_of_isDirectory hdirectory hplace] at hsight
  split at hsight
  · rename_i hinside
    obtain ⟨hotherDirectory, hotherPlace⟩ := FileTree.of_sight_eq_inside hsight
    refine .same hotherDirectory hplace hotherPlace fun _ => ?_
    rw [hfinder]
    exact hagrees.listedModules_eq hplace hotherPlace hinside
  · rename_i houtside
    obtain ⟨hotherDirectory, otherPlace, hotherPlace, hotherOutside⟩ :=
      FileTree.of_sight_eq_outside hsight
    exact .outside hotherDirectory hplace hotherPlace houtside hotherOutside

/-- Two trees agree inside the boundary of a project, without links there, and differ elsewhere in
any way. Expanding the project has the same result in both, the same modules or the same error, if
every listed path that leaves the boundary on its way is seen alike: it leads to no directory in
both trees, or outside of the boundary in both, or to the same directory inside. -/
theorem expandModules_eq_of_agreesInside (hfinder : finder.lister = Gradle.listedModules)
    (hagrees : tree.AgreesInside second boundary)
    (hroot : tree.canonical project.root = .ok location)
    (hotherRoot : second.canonical project.root = .ok location)
    (hboundary : tree.canonical project.boundary = .ok boundary)
    (hotherBoundary : second.canonical project.boundary = .ok boundary)
    (hinside : boundary <+: location)
    (hleaves : LeavesAlike finder tree second boundary project.root) :
    finder.expandModules second project = finder.expandModules tree project := by
  have hlocated : ∀ listing, IsListed finder tree boundary project.root listing →
      ∃ place, tree.canonical listing.directory = .ok place ∧
        second.canonical listing.directory = .ok place := by
    intro listing hlisting
    obtain ⟨place, hplace, hotherPlace, _⟩ :=
      hleaves.located hagrees hroot hotherRoot hinside hlisting.reached
    exact ⟨place, hplace, hotherPlace⟩
  refine expandModules_congr hroot hotherRoot hboundary hotherBoundary ?_ ?_ ?_
  · rw [hfinder]
    exact hagrees.listedModules_eq hroot hotherRoot hinside
  · intro path listed hfails
    obtain ⟨listing, found, hlisting, hmodule, rfl, hmissing⟩ :=
      exists_listing_of_missing hfails hroot hboundary
    obtain ⟨place, hplace, hotherPlace⟩ := hlocated listing hlisting
    have hsight := hleaves.sight_eq hagrees hlisting hmodule hplace hotherPlace
    rwa [FileTree.sight_eq_nothing_iff.mpr hmissing, FileTree.sight_eq_nothing_iff] at hsight
  · intro listing found hlisting hmodule hdirectory
    obtain ⟨place, hplace, hotherPlace⟩ := hlocated listing hlisting
    exact hleaves.seenAlike hfinder hagrees hlisting hmodule hplace hotherPlace hdirectory

/-- A directory of a project with a module in it, and with a settings script. -/
def scriptedProject (script : String) : Entry :=
  .directory [("b", .directory []), ("settings.gradle", .file script.toUTF8)]

/-- A project beside something else. -/
def projectBeside (script : String) (others : List (String × Entry)) : FileTree :=
  ⟨.directory (("p", scriptedProject script) :: others), []⟩

/-- Whatever lies beside a project, there are no links in it. -/
theorem agreesInside_projectBeside (script : String) (others more : List (String × Entry)) :
    (projectBeside script others).AgreesInside (projectBeside script more) ["p"] := by
  have hplain : (scriptedProject script).checkPlain = true := rfl
  exact .of_checkPlain (by rfl) (by rfl) hplain

/-- A project includes its module and a directory beside it. Whether that is a directory or a link
to another one does not matter. -/
theorem expandModules_beside :
    let script := "include 'b', '../q'"
    let tree := projectBeside script [("q", .directory [])]
    let second := projectBeside script [("q", .link "r"), ("r", .directory [])]
    tree.AgreesInside second ["p"] ∧
      LeavesAlike scriptFinder tree second ["p"] ⟨"p"⟩ ∧
      scriptFinder.expandModules second (.ofRoot "p" ⟨"p"⟩) =
        scriptFinder.expandModules tree (.ofRoot "p" ⟨"p"⟩) ∧
      scriptFinder.expandModules tree (.ofRoot "p" ⟨"p"⟩) = .ok (oneModuleProject "b") := by
  intro script tree second
  have hagrees : tree.AgreesInside second ["p"] := agreesInside_projectBeside ..
  have hleaves : LeavesAlike scriptFinder tree second ["p"] ⟨"p"⟩ := by
    intro listing found hlisting hmodule _
    let places : List (Path × String) := [(⟨"p"⟩, rootModule), (⟨"p/b"⟩, "b")]
    obtain ⟨place, hplace, hin⟩ : ∃ place ∈ places, listing ∈ scriptFinder.listingsIn tree place :=
      hlisting.mem_of_closed (by decide) (by decide +kernel)
    have halike : ∀ place ∈ places, ∀ listing ∈ scriptFinder.listingsIn tree place,
        ∀ found ∈ listing.module?, second.sight ["p"] found.root = tree.sight ["p"] found.root := by
      decide +kernel
    exact halike place hplace listing hin found hmodule
  refine ⟨hagrees, hleaves, ?_, by decide +kernel⟩
  exact expandModules_eq_of_agreesInside rfl hagrees (by decide +kernel) (by decide +kernel)
    (by decide +kernel) (by decide +kernel) List.prefix_rfl hleaves

/-- A project that includes a path through the directory beside it has a module, has none, or fails,
for nothing but what lies there: a link back to the project, another directory, or nothing. -/
theorem expandModules_sees_outside :
    let script := "include '../q/b'"
    let linked := projectBeside script [("q", .link "p")]
    let apart := projectBeside script [("q", .directory [("b", .directory [])])]
    let missing := projectBeside script []
    linked.AgreesInside apart ["p"] ∧ linked.AgreesInside missing ["p"] ∧
      (∀ tree ∈ [linked, apart, missing], tree.canonical ⟨"p"⟩ = .ok ["p"]) ∧
      scriptFinder.expandModules linked (.ofRoot "p" ⟨"p"⟩) = .ok (oneModuleProject "../q/b") ∧
      scriptFinder.expandModules apart (.ofRoot "p" ⟨"p"⟩) = .ok (.ofRoot "p" ⟨"p"⟩) ∧
      scriptFinder.expandModules missing (.ofRoot "p" ⟨"p"⟩) =
        .error (.missingModule ⟨"p/../q/b"⟩ "../q/b") := by
  intro script linked apart missing
  exact ⟨agreesInside_projectBeside .., agreesInside_projectBeside .., by decide +kernel,
    by decide +kernel, by decide +kernel, by decide +kernel⟩

end ProjectFinder

end CorpusFacts
