import FormSchema.Files.Tree

/-!
# What writing leaves alone

Creating directories changes no file.  Writing a file changes that file only, and its text can be
read back under the path that it was written to.
-/

namespace FormSchema.FileTree

variable {tree created written : FileTree} {path text : String}

/-! ## Directories -/

theorem createFrom_files {place : Place} {names : List String}
    (isCreated : tree.createFrom place names = .ok created) : created.files = tree.files := by
  fun_induction createFrom tree place names with
  | case1 =>
      cases isCreated
      rfl
  | case2 _ _ _ _ _ inductionHypothesis => exact inductionHypothesis isCreated
  | case3 _ _ _ _ inductionHypothesis => exact inductionHypothesis isCreated
  | case4 _ _ _ _ _ _ _ _ inductionHypothesis => exact inductionHypothesis isCreated
  | case8 _ _ _ _ _ _ _ _ _ inductionHypothesis => exact inductionHypothesis isCreated
  | _ => cases isCreated

/-- Creating the directory of a path changes no file. -/
theorem createParent_files (isCreated : tree.createParent path = .ok created) :
    created.files = tree.files := by
  unfold createParent at isCreated
  split at isCreated
  · cases isCreated
  · exact createFrom_files isCreated

/-! ## Files -/

theorem mem_places_put {place other : Place} (content : ByteArray)
    {files : List (Place × ByteArray)} (isPlace : other ∈ Members.names files) :
    other ∈ Members.names (Members.put place content files) := by
  rw [Members.names_put]
  split
  · exact isPlace
  · exact List.mem_append_left _ isPlace

/-- A directory remains a directory when a file is written elsewhere. -/
theorem kindAt?_put {place other : Place} (content : ByteArray) (different : other ≠ place)
    (isDirectory : tree.kindAt? other = some .directory) :
    kindAt? { tree with files := Members.put place content tree.files } other =
      some .directory := by
  unfold kindAt? content? at isDirectory ⊢
  rw [Members.lookup_put_of_ne content tree.files different]
  split at isDirectory
  · cases isDirectory
  · rename_i noFile
    split at isDirectory
    · rename_i isPresent
      rw [if_neg noFile, if_pos]
      unfold hasDirectory at isPresent ⊢
      rw [Bool.or_eq_true] at isPresent ⊢
      refine isPresent.imp_right fun isAbove => ?_
      obtain ⟨entry, isEntry, isAbove⟩ := List.any_eq_true.mp isAbove
      obtain ⟨entry_, isEntry_, same⟩ := List.mem_map.mp
        (mem_places_put content (List.mem_map_of_mem isEntry))
      exact List.any_eq_true.mpr ⟨entry_, isEntry_, same ▸ isAbove⟩
    · cases isDirectory

/-- A path to the place of a new file goes through directories that were there before. -/
theorem follow_put {place : Place} (content : ByteArray)
    (notDirectory : tree.kindAt? place ≠ some .directory) {start : Place} {names : List String}
    (isPlace : tree.follow start names = .ok place) :
    follow { tree with files := Members.put place content tree.files } start names = .ok place := by
  induction names generalizing start with
  | nil => exact isPlace
  | cons name rest inductionHypothesis =>
      rw [follow] at isPlace ⊢
      split at isPlace
      · cases isPlace
      · cases isPlace
      · rename_i isDirectory
        have different : start ≠ place := by
          rintro rfl
          exact notDirectory isDirectory
        rw [kindAt?_put content different isDirectory]
        dsimp only
        split at isPlace
        · rename_i isDot
          rw [if_pos isDot]
          exact inductionHypothesis isPlace
        · rename_i notDot
          rw [if_neg notDot]
          split at isPlace
          · rename_i isUp
            rw [if_pos isUp]
            exact inductionHypothesis isPlace
          · rename_i notUp
            rw [if_neg notUp]
            split at isPlace
            · cases isPlace
            · rename_i notLong
              rw [if_neg notLong]
              exact inductionHypothesis isPlace

/-- A path that does not end in a slash loses nothing. -/
theorem withoutEndSlashes_eq (noSlash : endsInSlash path = false) :
    withoutEndSlashes path = path := by
  rw [endsInSlash, decide_eq_false_iff_not, ← List.head?_reverse] at noSlash
  unfold withoutEndSlashes
  cases isReverse : path.toList.reverse with
  | nil =>
      have isEmpty : path.toList = [] := List.reverse_eq_nil_iff.mp isReverse
      calc
        String.ofList (path.toList.take 1) = String.ofList path.toList := by
          rw [isEmpty, List.take_nil]
        _ = path := String.ofList_toList
  | cons c rest =>
      rw [isReverse, List.head?_cons, Option.some.injEq] at noSlash
      rw [List.dropWhile_cons_of_neg (by simpa using noSlash)]
      dsimp only
      rw [← isReverse, List.reverse_reverse, String.ofList_toList]

/-- A file is written if its path leads to a place in the tree at which there is no directory. -/
theorem writeText_eq_ok_iff :
    tree.writeText path text = .ok written ↔
      ∃ place, endsInSlash path = false ∧ tree.locate path = .ok place ∧
        tree.kindAt? place ≠ some .directory ∧
        written = { tree with files := Members.put place text.toUTF8 tree.files } := by
  unfold writeText
  cases isSlash : endsInSlash path with
  | true =>
      refine iff_of_false ?_ (by rintro ⟨_, ⟨⟩, _⟩)
      cases tree.locate (withoutEndSlashes path) <;> exact nofun
  | false =>
      rw [withoutEndSlashes_eq isSlash]
      cases tree.locate path with
      | error error => exact iff_of_false nofun (by rintro ⟨_, _, ⟨⟩, _⟩)
      | ok place =>
          by_cases isDirectory : tree.kindAt? place = some .directory
          · simp [bind, Except.bind, isDirectory]
          · simp [bind, Except.bind, isDirectory, eq_comm (a := written)]

/-- Whether a file can be written does not depend on its text. -/
theorem exists_writeText (isWritten : tree.writeText path text = .ok written) (other : String) :
    ∃ rewritten, tree.writeText path other = .ok rewritten := by
  obtain ⟨place, noSlash, isPlace, notDirectory, -⟩ := writeText_eq_ok_iff.mp isWritten
  exact ⟨_, writeText_eq_ok_iff.mpr ⟨place, noSlash, isPlace, notDirectory, rfl⟩⟩

/-- Neither does the reason why it cannot. -/
theorem writeText_error {error : FileError} (fails : tree.writeText path text = .error error)
    (other : String) : tree.writeText path other = .error error := by
  unfold writeText at fails ⊢
  cases isPlace : tree.locate (withoutEndSlashes path) with
  | error fault =>
      rw [isPlace] at fails
      exact fails
  | ok place =>
      rw [isPlace] at fails
      by_cases isDirectory : endsInSlash path = true ∨ tree.kindAt? place = some .directory
      · simp only [bind, Except.bind, isDirectory, if_true] at fails ⊢
        exact fails
      · simp only [bind, Except.bind, isDirectory, if_false] at fails
        cases fails

theorem fromUTF8?_toUTF8 (text : String) : String.fromUTF8? text.toUTF8 = some text := by
  rw [String.fromUTF8?, String.toUTF8_eq_toByteArray, dif_pos text.isValidUTF8]
  rfl

/-- The text of a file is read from the place that its path leads to. -/
theorem readText_of_content {place : Place} (isPlace : tree.locate path = .ok place)
    (isContent : tree.content? place = some text.toUTF8) : tree.readText path = .ok text := by
  unfold readText
  simp only [isPlace, bind, Except.bind, isContent, fromUTF8?_toUTF8]

/-- What is written to a file is read from it. -/
theorem readText_writeText (isWritten : tree.writeText path text = .ok written) :
    written.readText path = .ok text := by
  obtain ⟨place, -, isPlace, notDirectory, rfl⟩ := writeText_eq_ok_iff.mp isWritten
  refine readText_of_content ?_ (Members.lookup_put_self place text.toUTF8 tree.files)
  unfold locate at isPlace ⊢
  split at isPlace
  · cases isPlace
  · rename_i isUsable
    rw [if_neg isUsable]
    split at isPlace
    · cases isPlace
    · rename_i isShort
      rw [if_neg isShort]
      split at isPlace
      · cases isPlace
      · rename_i notEmpty
        rw [if_neg notEmpty]
        exact follow_put _ notDirectory isPlace

end FormSchema.FileTree
