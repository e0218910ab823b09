import CorpusFacts.Proofs.Files.Settling
import CorpusFacts.Proofs.Output.Rewriting

/-!
# Writing again

Writing a text comes to the same when it is done again later, in a tree that has grown since: the
file is written once more, or nothing changes and the same failure comes up. There are two failures
that may go away: a directory could not be made because something was there, or the file could not
be written because nothing was there. Either comes up again exactly if that is still true.
-/

namespace CorpusFacts

/-- What is still true of an error, in a later tree, if writing the same again comes to it again. -/
def OutputError.IsTrueOf (tree : FileTree) : OutputError → Prop
  | .createDirectory path .alreadyExists => tree.exists? path = true
  | .write path .notFound => tree.writtenPlace path = .error .notFound
  | _ => True

/-- A text of which the last part is empty ends in a separator. -/
theorem Text.getLast?_of_split {separator : Char} {text : List Char} {front : List (List Char)}
    (hne : front ≠ []) (h : split separator text = front ++ [[]]) :
    text.getLast? = some separator := by
  rw [← intercalate_split separator text, h]
  clear h
  induction front with
  | nil => exact absurd rfl hne
  | cons part front ih =>
    cases front with
    | nil => simp [List.intercalate_cons_cons]
    | cons next front =>
      have hrest := ih (by simp)
      rw [List.cons_append] at hrest
      rw [List.cons_append, List.cons_append, List.intercalate_cons_cons, List.getLast?_append,
        hrest]
      rfl

namespace Path

/-- A path without the slashes at its end. -/
def bare (path : Path) : Path :=
  ⟨String.ofList (Text.dropEndWhile (· == '/') path.text.toList)⟩

/-- Without the slashes at its end a path does not end in a slash. -/
theorem getLast?_bare (path : Path) : path.bare.text.toList.getLast? ≠ some '/' := by
  have hhead := List.head?_dropWhile_not (· == '/') path.text.toList.reverse
  rw [bare, String.toList_ofList, Text.dropEndWhile, List.getLast?_reverse]
  intro hslash
  rw [hslash] at hhead
  simp at hhead

/-- A path has no slashes at its end if it is as long without them. -/
theorem bare_eq_iff (path : Path) :
    ((Text.dropEndWhile (· == '/') path.text.toList).length == path.text.length) = true ↔
      path.bare = path := by
  obtain ⟨rest, htext, _⟩ := Text.exists_dropEndWhile (· == '/') path.text.toList
  rw [beq_iff_eq]
  constructor
  · intro hlength
    have hrest : rest = [] := by
      have hsum := congrArg List.length htext
      rw [List.length_append, String.length_toList] at hsum
      exact List.eq_nil_of_length_eq_zero (by omega)
    rw [hrest, List.append_nil] at htext
    rw [bare, ← htext, String.ofList_toList]
  · intro hsame
    have htexts := congrArg (fun path : Path => path.text.toList.length) hsame
    simpa [bare, String.length_toList] using htexts

end Path

namespace FileTree

variable {tree later written : FileTree} {made new : List String → Prop} {path : Path}
  {location directory : List String} {name : String} {content : ByteArray}
  {failure : FileFailure} {steps : List (List Char)} {asDirectory followLast : Bool}
  {follow : List String → List (List Char) → Except FileFailure Place}

/-- Where steps lead to a name that does not exist, followed by slashes, the last step is empty. -/
theorem exists_concat_of_absent (hplain : ∀ location, tree.kindAt location ≠ some .link)
    (h : tree.resolveSteps followLast follow location steps =
      .ok (.absent directory name true)) : ∃ front, front ≠ [] ∧ steps = front ++ [[]] := by
  induction steps generalizing location with
  | nil =>
    rw [resolveSteps] at h
    cases h
  | cons step steps ih =>
    obtain ⟨-, -, ⟨-, hslashes, -, -, hmore⟩ | ⟨-, hlater⟩⟩ := resolveSteps_cons_absent (hplain _) h
    · have hmore : steps ≠ [] := by simpa using hmore
      obtain ⟨last, hlast⟩ := Option.ne_none_iff_exists'.mp
        (mt List.getLast?_eq_none_iff.mp hmore)
      obtain ⟨front, rfl⟩ := List.getLast?_eq_some_iff.mp hlast
      obtain rfl : last = [] := by simpa using List.all_eq_true.mp hslashes last (by simp)
      exact ⟨step :: front, by simp, rfl⟩
    · obtain ⟨front, _, rfl⟩ := ih hlater
      exact ⟨step :: front, by simp, rfl⟩

namespace IsLinkless

/-- A path without slashes at its end leads to a name, not to a directory to be. -/
theorem asDirectory_of_bare (h : tree.IsLinkless)
    (hresolve : tree.resolve path.bare true = .ok (.absent directory name asDirectory)) :
    asDirectory = false := by
  cases asDirectory with
  | false => rfl
  | true =>
    obtain ⟨follow, hfollow⟩ := exists_resolveSteps tree true (isResolvable_of_resolve hresolve)
    rw [hfollow] at hresolve
    obtain ⟨front, hne, hsegments⟩ := exists_concat_of_absent h.plain hresolve
    exact absurd (Text.getLast?_of_split hne hsegments) path.getLast?_bare

/-- Where a file lies that is written depends on where its path leads without the slashes at its
end. -/
theorem writtenPlace_eq (h : tree.IsLinkless) (path : Path) :
    tree.writtenPlace path =
      if path.bare = path then tree.resolve path.bare true
      else if path.bare.text.toList = [] then .error .isADirectory
      else (tree.resolve path.bare true).bind fun _ => .error .isADirectory := by
  rw [writtenPlace]
  by_cases hbare : path.bare = path
  · rw [if_pos ((path.bare_eq_iff).mpr hbare), if_pos hbare, hbare]
  · rw [if_neg (mt (path.bare_eq_iff).mp hbare), if_neg hbare]
    by_cases hempty : Text.dropEndWhile (· == '/') path.text.toList = []
    · rw [if_pos (by simpa using hempty), if_pos (by simpa [Path.bare] using hempty)]
    · rw [if_neg (by simpa using hempty), if_neg (by simpa [Path.bare] using hempty),
        ← h.resolve_eq]
      rfl

/-- Where a file is to be written later: at the same place if something is there, and nowhere for
the same reason unless it is that nothing is there. -/
theorem writtenPlace_again (h : tree.IsLinkless) (hgrows : tree.GrowsInKind later made new)
    (path : Path) :
    (∃ location, tree.writtenPlace path = .ok (.existing location) ∧
      tree.kindAt location ≠ none ∧ later.writtenPlace path = .ok (.existing location)) ∨
    (∃ directory name, tree.writtenPlace path = .ok (.absent directory name false)) ∨
    ∃ failure, tree.writtenPlace path = .error failure ∧
      (failure ≠ .notFound → later.writtenPlace path = .error failure) := by
  rw [h.writtenPlace_eq, (h.of_growsInKind hgrows).writtenPlace_eq]
  cases hresolve : tree.resolve path.bare true with
  | error failure =>
    right; right
    have hlater : failure ≠ .notFound → later.resolve path.bare true = .error failure := by
      intro hfound
      rw [hgrows.resolve_eq h (by simpa [canonical, hresolve] using hfound), hresolve]
    split
    · exact ⟨failure, rfl, hlater⟩
    split
    · exact ⟨_, rfl, fun _ => rfl⟩
    · refine ⟨failure, rfl, fun hfound => ?_⟩
      rw [hlater hfound]
      rfl
  | ok found =>
    cases found with
    | existing location =>
      have hcanonical : tree.canonical path.bare = .ok location := by rw [canonical, hresolve]
      rw [hgrows.resolve_eq h (by simp [hcanonical]), hresolve]
      split
      · obtain ⟨entry, hentry, _⟩ := exists_plain_of_canonical hcanonical
        refine Or.inl ⟨location, rfl, ?_, rfl⟩
        rw [Ne, ← at?_eq_none_iff_kindAt, hentry]
        simp
      · right; right
        split <;> exact ⟨_, rfl, fun _ => rfl⟩
    | absent directory name asDirectory =>
      obtain rfl := h.asDirectory_of_bare hresolve
      split
      · exact Or.inr (Or.inl ⟨directory, name, rfl⟩)
      right; right
      split
      · exact ⟨_, rfl, fun _ => rfl⟩
      refine ⟨_, rfl, fun _ => ?_⟩
      have hresolvable := isResolvable_of_resolve hresolve
      obtain ⟨follow, hfollow⟩ := exists_resolveSteps tree true hresolvable
      obtain ⟨other, hother⟩ := exists_resolveSteps later true hresolvable
      rw [hfollow] at hresolve
      rw [hother, hgrows.startOf, hgrows.resolveSteps_of_absent h.plain hresolve (Or.inl rfl)]
      split <;> rfl

end IsLinkless

/-- Nothing is found to be written exactly where no place is found. -/
theorem write_eq_notFound_iff (tree : FileTree) (path : Path) (content : ByteArray) :
    tree.write path content = .error .notFound ↔ tree.writtenPlace path = .error .notFound := by
  rw [write]
  cases tree.writtenPlace path with
  | error failure => simp [bind, Except.bind]
  | ok found =>
    cases found with
    | absent directory name asDirectory => cases asDirectory <;> simp [bind, Except.bind]
    | existing location =>
      simp only [bind, Except.bind]
      split <;> simp

/-- What is there cannot be written over unless it is a file. -/
theorem write_of_existing (h : tree.writtenPlace path = .ok (.existing location)) :
    tree.write path content = .error failure ↔
      failure = .isADirectory ∧ (tree.kindAt location = some .file → location = []) := by
  rw [write, h, kindAt_eq_file_iff]
  simp only [bind, Except.bind]
  split
  · rename_i old name hold hname
    simp only [reduceCtorEq, hold, false_iff, not_and, not_forall]
    rintro -
    refine ⟨⟨old, rfl⟩, ?_⟩
    rintro rfl
    cases hname
  · rename_i hother
    simp only [Except.error.injEq, eq_comm (a := FileFailure.isADirectory), iff_self_and]
    rintro - ⟨old, hold⟩
    by_contra hne
    obtain ⟨name, hname⟩ := Option.ne_none_iff_exists'.mp (mt List.getLast?_eq_none_iff.mp hne)
    exact hother old name hold hname

/-- A file that could not be written cannot be written later for the same reason, unless it was that
nothing was there. -/
theorem IsLinkless.write_fails_again (h : tree.IsLinkless)
    (hgrows : tree.GrowsInKind later made new) (hfails : tree.write path content = .error failure) :
    later.write path content = .error failure ↔
      (failure = .notFound → later.writtenPlace path = .error .notFound) := by
  by_cases hnone : failure = .notFound
  · rw [hnone, write_eq_notFound_iff]
    simp
  refine iff_of_true ?_ fun hfound => absurd hfound hnone
  rcases h.writtenPlace_again hgrows path with
    ⟨location, hplace, hsome, hlater⟩ | ⟨directory, name, hplace⟩ | ⟨other, hplace, hlater⟩
  · rw [write_of_existing hplace] at hfails
    rw [write_of_existing hlater, hgrows.kindAt_eq hsome]
    exact hfails
  · rw [write, hplace] at hfails
    cases hfails
  · rw [write, hplace] at hfails
    cases hfails
    rw [write, hlater hnone]
    rfl

/-- A file that was written can be written over later, and nothing else changes. -/
theorem IsLinkless.write_again (h : tree.IsLinkless)
    (hwritten : tree.write path content = .ok written)
    (hgrows : written.GrowsInKind later made new) :
    ∃ last, later.write path content = .ok last ∧ last.working = later.working ∧
      ∀ location, last.faceAt location =
        if location = tree.placeOf path then some (.file content) else later.faceAt location := by
  have havoids := h.avoidsLinks path
  obtain ⟨hgrown, hfile, hresolvable, hpassable⟩ := havoids.growsTo_of_write hwritten
  have hlinkless := h.of_growsInKind hgrown.inKind
  have hlater := hlinkless.of_growsInKind hgrows
  have hplace := hgrown.placeOf path
  obtain ⟨hcanonical, _⟩ := (hlinkless.avoidsLinks path).read_eq hresolvable
    (by rw [hgrown.startOf]; exact hgrown.isPassable hpassable) (by rw [hplace]; exact hfile)
  rw [hplace] at hcanonical
  rw [← hgrows.canonical_eq hlinkless (by simp [hcanonical])] at hcanonical
  have hkind : later.kindAt (tree.placeOf path) = some .file := by
    have hwrittenKind : written.kindAt (tree.placeOf path) = some .file :=
      kindAt_eq_file_iff.mpr ⟨content, hfile⟩
    rw [hgrows.kindAt_eq (by simp [hwrittenKind]), hwrittenKind]
  obtain ⟨old, hold⟩ := kindAt_eq_file_iff.mp hkind
  generalize tree.placeOf path = place at *
  -- the place is not the root, which is a directory
  cases place using List.reverseRecOn with
  | nil =>
    have hroot := isDirectoryAt_nil hlater.working
    rw [isDirectoryAt_iff_kindAt, hkind] at hroot
    cases hroot
  | append_singleton directory name _ =>
    have hdirectory := isDirectoryAt_of_at? hold
    refine ⟨later.put directory name (.file content), ?_, rfl,
      faceAt_put hdirectory (fun _ => rfl) (Or.inr ⟨old, at?_eq_file_iff.mp hold⟩)⟩
    rw [write, writtenPlace_eq_resolve later (havoids.namesFile_of_write hwritten),
      resolve_of_canonical hcanonical]
    simp only [bind, Except.bind, hold, List.getLast?_concat, List.dropLast_concat]

/-- Making the directory of a file again changes nothing. It ends as before if what is told of a
failure is still true. -/
theorem IsLinkless.makeParent_again (h : tree.IsLinkless)
    (hgrows : (makeParent tree path).1.GrowsInKind later made new) :
    (makeParent later path).1 = later ∧
      ((makeParent later path).2 = (makeParent tree path).2 ↔
        ∀ error, (makeParent tree path).2 = .error error → error.IsTrueOf later) := by
  have hgrown := growsTo_makeParent_way h.plain path
  have hlinkless := h.of_growsInKind hgrown.inKind
  rcases makeParent_cases path with ⟨_, hmakes⟩ | ⟨first, front, hslashes, houter, hmakes⟩
  · rw [hmakes, hmakes]
    simp
  have hsettles := h.settles hslashes
  have haround := Path.ancestors_ofSegments hslashes
  generalize Path.ofSegments (Path.dropIdleEnd (first :: front)) = parent at *
  rw [hmakes] at hgrows hlinkless
  rw [houter] at hmakes hgrows hlinkless
  obtain ⟨hkept, hsame⟩ := hsettles.again hlinkless hgrows parent.ancestors.tail
  have hagain : parent :: parent.ancestors.tail = Path.around first front := haround
  rw [hagain] at hkept hsame
  rw [hmakes, hmakes]
  refine ⟨hkept, ?_⟩
  generalize (later.makeNested (Path.around first front)).2 = again at hsame ⊢
  generalize (tree.makeNested (Path.around first front)).2 = result at hsame ⊢
  cases result with
  | ok =>
    have hok : again = .ok () := hsame.mpr fun hfails => by cases hfails
    rw [hok]
    simp [Except.mapError]
  | error failure =>
    have hwrapped : again.mapError (OutputError.createDirectory parent) =
        (Except.error failure : Except FileFailure Unit).mapError (.createDirectory parent) ↔
          again = .error failure := by
      cases again <;> simp [Except.mapError]
    rw [hwrapped, hsame]
    simp only [Except.mapError, Except.error.injEq, forall_eq']
    cases failure <;> simp [OutputError.IsTrueOf]

/-- Where the directory of a file was made, making it again goes well and changes nothing. -/
theorem IsLinkless.makeParent_made (h : tree.IsLinkless) {parent : FileTree}
    (hparent : makeParent tree path = (parent, .ok ()))
    (hgrows : parent.GrowsInKind later made new) : makeParent later path = (later, .ok ()) := by
  have hmade : (makeParent tree path).1.GrowsInKind later made new := by rwa [hparent]
  obtain ⟨hkept, hsame⟩ := h.makeParent_again hmade
  rw [hparent] at hsame
  exact Prod.ext hkept (hsame.mpr fun _ hfails => by cases hfails)

/-- A text that was written is written again, and nothing else changes. -/
theorem IsLinkless.writeText_again (h : tree.IsLinkless) {text : String}
    (hwritten : (writeText tree path text).2 = .ok ())
    (hgrows : (writeText tree path text).1.GrowsInKind later (fun _ => True) fun _ => True) :
    (writeText later path text).2 = .ok () ∧
      (writeText later path text).1.working = later.working ∧
      ∀ location, (writeText later path text).1.faceAt location =
        if location = tree.placeOf path then some (.file text.toUTF8)
        else later.faceAt location := by
  have hgrown := growsTo_makeParent_way h.plain path
  have hmade := h.of_growsInKind hgrown.inKind
  have hend := writeText_end tree path text
  generalize writeText tree path text = result at *
  cases hend with
  | noDirectory hparent => cases hwritten
  | noFile hparent hwrite => cases hwritten
  | @written last parent hparent hwrite =>
    rw [hparent] at hgrown hmade
    obtain ⟨_, hwrittenGrows, _⟩ := growsTo_of_write hwrite
    have hagain := h.makeParent_made hparent
      ((hwrittenGrows.inKind.mono (fun _ _ => trivial) fun _ _ => trivial).trans hgrows)
    obtain ⟨again, hwrites, hworking, hfaces⟩ := hmade.write_again hwrite hgrows
    rw [hgrown.placeOf] at hfaces
    rw [writeText, hagain]
    simp only [hwrites]
    exact ⟨trivial, hworking, hfaces⟩

/-- Writing a text that could not be written fails again if what is told of the failure is still
true, and then changes nothing. -/
theorem IsLinkless.writeText_fails_again (h : tree.IsLinkless) {text : String}
    {error : OutputError} (hfails : (writeText tree path text).2 = .error error)
    (hgrows : (writeText tree path text).1.GrowsInKind later (fun _ => True) fun _ => True) :
    ((writeText later path text).2 = .error error ↔ error.IsTrueOf later) ∧
      ((writeText later path text).2 = .error error → (writeText later path text).1 = later) := by
  have hend := writeText_end tree path text
  generalize writeText tree path text = result at *
  cases hend with
  | @noDirectory parent directory failure hparent =>
    cases hfails
    have hmade : (makeParent tree path).1.GrowsInKind later (fun _ => True) fun _ => True := by
      rwa [hparent]
    obtain ⟨hkept, hsame⟩ := h.makeParent_again hmade
    rw [hparent] at hsame
    simp only [Except.error.injEq, forall_eq'] at hsame
    rw [← hsame]
    have hlaterEnd := writeText_end later path text
    generalize writeText later path text = again at *
    cases hlaterEnd with
    | noDirectory hlaterParent =>
      rw [hlaterParent] at hkept ⊢
      exact ⟨Iff.rfl, fun _ => hkept⟩
    | noFile hlaterParent _ =>
      rw [hlaterParent]
      simp
    | written hlaterParent _ =>
      rw [hlaterParent]
      simp
  | @noFile parent failure hparent hwrite =>
    cases hfails
    have hgrown := growsTo_makeParent_way h.plain path
    rw [hparent] at hgrown
    have hwrites := (h.of_growsInKind hgrown.inKind).write_fails_again hgrows hwrite
    have htrue : (OutputError.write path failure).IsTrueOf later ↔
        (failure = .notFound → later.writtenPlace path = .error .notFound) := by
      cases failure <;> simp [OutputError.IsTrueOf]
    rw [htrue, ← hwrites, writeText, h.makeParent_made hparent hgrows]
    dsimp only
    generalize later.write path text.toUTF8 = again
    cases again <;> simp
  | written hparent hwrite => cases hfails

end FileTree

end CorpusFacts
