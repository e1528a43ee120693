import ScriptBundler.Proofs.Files.Places

/-!
# What a resolver answers

A resolver remembers its answers by the components of a directory, while a specifier is joined to
the directory as it is written.  Two things make the answers right.  Joining, and folding the dots
of what comes out, reads nothing of the directory but its components.  And the directory of a
module, as it is written in the path of the module, has the components of the path without the last
one.
-/

namespace ScriptBundler
namespace Files

/-! ## Components by pieces -/

/-- The component that the first piece of a text is by its place: the root if it is empty and a
slash follows, and a dot else. -/
def leadOf : List (List Char) → List Component
  | [] => []
  | first :: rest =>
    if first = ['.'] then [.current] else if first = [] ∧ rest ≠ [] then [.root] else []

variable {first : List Char} {rest others : List (List Char)} {text file : List Char}

theorem leadOf_append (hfirst : first ≠ [] ∨ rest ≠ []) :
    leadOf (first :: rest ++ others) = leadOf (first :: rest) := by
  by_cases hempty : first = [] <;> simp_all [leadOf]

/-- A text is made of its pieces, with slashes between them. -/
theorem eq_intercalate_pieces (text : List Char) : text = ['/'].intercalate (pieces text) :=
  (List.intercalate_splitOn '/').symm

theorem pieces_ne_nil (text : List Char) : pieces text ≠ [] :=
  List.splitOn_ne_nil '/' text

theorem pieces_append (text file : List Char) :
    pieces (text ++ '/' :: file) = pieces text ++ pieces file :=
  List.splitOn_append_cons_self text file

/-- The components of a text, by its pieces. -/
theorem componentsOf_eq (text : List Char) :
    componentsOf text = leadOf (pieces text) ++ (pieces text).filterMap pieceComponent := by
  have htext := eq_intercalate_pieces text
  rcases hpieces : pieces text with _ | ⟨first, rest⟩
  · exact absurd hpieces (pieces_ne_nil text)
  rw [hpieces] at htext
  by_cases hempty : first = []
  · subst hempty
    cases rest with
    | nil =>
        subst htext
        rfl
    | cons next after =>
        obtain ⟨remaining, rfl⟩ : ∃ remaining, text = '/' :: remaining := ⟨_, htext⟩
        unfold componentsOf
        rw [hpieces]
        rfl
  by_cases hdot : first = ['.']
  · subst hdot
    cases rest with
    | nil =>
        subst htext
        rfl
    | cons next after =>
        obtain ⟨remaining, rfl⟩ : ∃ remaining, text = '.' :: '/' :: remaining := ⟨_, htext⟩
        unfold componentsOf
        rw [hpieces]
        rfl
  · rw [componentsOf_of_pieces hpieces hempty hdot]
    have hlead : leadOf (first :: rest) = [] := by simp [leadOf, hempty, hdot]
    rw [hlead, List.nil_append]

/-! ## Joining -/

theorem componentsOf_append (htext : text ≠ []) :
    componentsOf (text ++ '/' :: file) =
      componentsOf text ++ (pieces file).filterMap pieceComponent := by
  rw [componentsOf_eq, componentsOf_eq, pieces_append, List.filterMap_append, List.append_assoc]
  rcases hpieces : pieces text with _ | ⟨first, rest⟩
  · exact absurd hpieces (pieces_ne_nil text)
  · rw [leadOf_append]
    by_cases hfirst : first = []
    · refine Or.inr fun hrest => htext ?_
      rw [eq_intercalate_pieces text, hpieces, hfirst, hrest]
      rfl
    · exact Or.inl hfirst

variable {directory path importer other : Path} {specifier : String}

/-- A path that does not start with a slash has, after a dot at the start, the components of its
pieces. -/
theorem foldl_foldStep_relative (hrelative : path.isAbsolute = false) (steps : List Component) :
    path.components.foldl foldStep steps =
      ((pieces path.text.toList).filterMap pieceComponent).foldl foldStep steps := by
  unfold Path.components componentsOf
  unfold Path.isAbsolute at hrelative
  dsimp only
  split
  · rename_i heq
    simp [heq] at hrelative
  · rfl
  · rfl
  · rfl

/-- Folding the dots of a path that is joined to a directory needs only the components of the
directory. -/
theorem foldDots_join (directory : Path) (hrelative : path.isAbsolute = false) :
    foldDots (directory.join path).components =
      foldDots (directory.components ++ path.components) := by
  have hjoined : ∀ text : String, text.toList ≠ [] →
      (Path.mk (text ++ "/" ++ path.text)).components =
        componentsOf text.toList ++ (pieces path.text.toList).filterMap pieceComponent := by
    intro text htext
    rw [← componentsOf_append htext]
    simp [Path.components]
  unfold foldDots
  rw [List.foldl_append, foldl_foldStep_relative hrelative, ← List.foldl_append]
  unfold Path.join
  rw [if_neg (by simp [hrelative])]
  split
  · rename_i hempty
    have htext : directory.text.toList = [] := List.getLast?_eq_none_iff.mp hempty
    rw [foldl_foldStep_relative hrelative, Path.components, htext]
    rfl
  · -- a slash at the end is already there, and what stands before it has the same components
    rename_i hslash
    obtain ⟨before, hbefore⟩ := List.getLast?_eq_some_iff.mp hslash
    have htext : (Path.mk (directory.text ++ path.text)).text.toList =
        before ++ '/' :: path.text.toList := by
      simp [hbefore]
    unfold Path.components
    rw [htext, hbefore]
    cases before with
    | nil =>
        show ((componentsOf ('/' :: path.text.toList)).foldl foldStep []) = _
        unfold componentsOf
        rw [pieces_cons_slash]
        rfl
    | cons first rest =>
        rw [componentsOf_append (List.cons_ne_nil first rest),
          componentsOf_append (List.cons_ne_nil first rest), List.foldl_append, List.foldl_append,
          List.foldl_append]
        rfl
  · rename_i hlast
    rw [hjoined directory.text (by intro h; simp [h] at hlast)]
    rfl

/-! ## Directories as they are written -/

/-- Pieces from the first one on that counts. -/
def dropUncounted (pieces : List (List Char)) : List (List Char) :=
  pieces.dropWhile fun piece => (pieceComponent piece).isNone

theorem dropUncounted_cons (piece : List Char) (rest : List (List Char)) :
    dropUncounted (piece :: rest) =
      if (pieceComponent piece).isNone then dropUncounted rest else piece :: rest :=
  List.dropWhile_cons

theorem dropUncounted_subset (pieces : List (List Char)) : dropUncounted pieces ⊆ pieces :=
  (List.dropWhile_suffix _).subset

theorem filterMap_dropUncounted (pieces : List (List Char)) :
    (dropUncounted pieces).filterMap pieceComponent = pieces.filterMap pieceComponent := by
  induction pieces with
  | nil => rfl
  | cons piece rest ih =>
      rw [dropUncounted_cons]
      cases hpiece : pieceComponent piece <;> simp [hpiece, ih]

theorem exists_component_of_dropUncounted {pieces before : List (List Char)} {last : List Char}
    (hcounting : dropUncounted pieces = last :: before) :
    ∃ step, pieceComponent last = some step := by
  have hhead := List.head?_dropWhile_not (fun piece => (pieceComponent piece).isNone) pieces
  unfold dropUncounted at hcounting
  rw [hcounting] at hhead
  exact Option.isSome_iff_exists.mp (by simpa using hhead)

theorem trimPieces_append_singleton (pieces : List (List Char)) (first : List Char) :
    Path.trimPieces (pieces ++ [first]) = dropUncounted pieces ++ [first] := by
  induction pieces with
  | nil => rfl
  | cons piece rest ih =>
      obtain ⟨next, after, hrest⟩ : ∃ next after, rest ++ [first] = next :: after :=
        List.exists_cons_of_ne_nil (by simp)
      rw [List.cons_append, hrest, Path.trimPieces, ← hrest, ih, dropUncounted_cons]
      cases hpiece : pieceComponent piece <;> simp

/-- A text that is put together from pieces has their components. -/
theorem componentsOf_intercalate (hslash : ∀ piece ∈ first :: rest, '/' ∉ piece) :
    componentsOf (['/'].intercalate (first :: rest)) =
      leadOf (first :: rest) ++ (first :: rest).filterMap pieceComponent := by
  have hpieces : pieces (['/'].intercalate (first :: rest)) = first :: rest :=
    List.splitOn_intercalate '/' hslash (List.cons_ne_nil first rest)
  rw [componentsOf_eq, hpieces]

theorem pieceComponent_ne_root (piece : List Char) : pieceComponent piece ≠ some .root := by
  unfold pieceComponent
  split <;> simp

theorem pieceComponent_eq_none_iff {piece : List Char} :
    pieceComponent piece = none ↔ piece = [] ∨ piece = ['.'] := by
  unfold pieceComponent
  split <;> simp_all

/-- A path that ends in another step than the root is in the directory that is left without it. -/
theorem Path.parent?_of_components {before : List Component} (last : Component)
    (hcomponents : path.components = before ++ [last]) (hlast : last ≠ .root) :
    path.parent? = some before := by
  unfold Path.parent?
  rw [hcomponents, List.getLast?_concat, List.dropLast_concat]
  cases last with
  | root => exact absurd rfl hlast
  | current | parent | name _ => rfl

/-- The directory of a path whose first piece alone counts, if any does, is empty or missing. -/
theorem Path.map_components_directory?_of_first (hpieces : pieces path.text.toList = first :: rest)
    (hcounting : dropUncounted rest.reverse = []) :
    path.directory?.map Path.components = path.parent? := by
  have hsteps := filterMap_dropUncounted rest.reverse
  rw [hcounting, List.filterMap_reverse, List.filterMap_nil, eq_comm,
    List.reverse_eq_nil_iff] at hsteps
  have hcomponents : path.components =
      leadOf (first :: rest) ++ (pieceComponent first).toList := by
    rw [Path.components, componentsOf_eq, hpieces, List.filterMap_cons, hsteps]
    cases pieceComponent first <;> rfl
  unfold Path.directory?
  rw [hpieces, List.reverse_cons, trimPieces_append_singleton, hcounting, List.nil_append]
  cases first with
  | nil =>
      unfold Path.parent?
      rw [hcomponents]
      by_cases hempty : rest = [] <;> simp [leadOf, pieceComponent, hempty]
  | cons head tail =>
      show some [] = path.parent?
      cases hfirst : pieceComponent (head :: tail) with
      | none =>
          have hdot : head :: tail = ['.'] := by simpa using pieceComponent_eq_none_iff.mp hfirst
          refine (Path.parent?_of_components .current ?_ (by simp)).symm
          rw [hcomponents, hdot]
          rfl
      | some step =>
          have hdot : head :: tail ≠ ['.'] := fun heq => by
            rw [heq] at hfirst
            contradiction
          refine (Path.parent?_of_components step ?_ fun hroot => ?_).symm
          · rw [hcomponents, hfirst]
            simp [leadOf, hdot]
          · exact pieceComponent_ne_root _ (hroot ▸ hfirst)

/-- A directory with some pieces, the last one first.  The root is written with a slash. -/
def Path.ofPieces : List (List Char) → Path
  | [[]] => ⟨"/"⟩
  | pieces => ⟨String.ofList (['/'].intercalate pieces.reverse)⟩

theorem Path.directory?_eq_ofPieces {last : List Char} {before : List (List Char)}
    (htrimmed : Path.trimPieces (pieces path.text.toList).reverse = last :: before)
    (hbefore : before ≠ []) : path.directory? = some (.ofPieces (Path.trimPieces before)) := by
  obtain ⟨next, after, rfl⟩ := List.exists_cons_of_ne_nil hbefore
  have hkept : ∀ kept : List (List Char),
      (match kept with
        | [[]] => some (Path.mk "/")
        | kept => some ⟨String.ofList (['/'].intercalate kept.reverse)⟩) =
      some (Path.ofPieces kept) := by
    rintro (_ | ⟨_ | _, _ | _⟩) <;> rfl
  unfold Path.directory?
  rw [htrimmed]
  cases last <;> exact hkept _

/-- Whatever has stood behind the pieces of a directory, it leads from where the path does. -/
theorem Path.components_ofPieces {kept : List (List Char)} (hrest : rest ≠ [])
    (hslash : ∀ piece ∈ first :: kept, '/' ∉ piece) :
    (Path.ofPieces (kept ++ [first])).components =
      leadOf (first :: rest) ++ (first :: kept.reverse).filterMap pieceComponent := by
  unfold Path.ofPieces
  split
  · -- nothing is kept, and nothing stands before the first slash
    rename_i hroot
    obtain ⟨rfl, hempty⟩ := List.append_eq_singleton_iff.mp hroot |>.resolve_right (by simp)
    obtain rfl := List.singleton_inj.mp hempty
    have hlead : leadOf ([] :: rest) = [.root] := by simp [leadOf, hrest]
    rw [hlead]
    rfl
  · rename_i hroot
    have hlead : leadOf (first :: kept.reverse) = leadOf (first :: rest) := by
      by_cases hempty : first = []
      · have hsome : kept ≠ [] := fun hnil => hroot (by rw [hnil, hempty]; rfl)
        simp [leadOf, hempty, hrest, hsome]
      · simp [leadOf, hempty]
    rw [List.reverse_append, List.reverse_singleton, List.singleton_append, Path.components,
      String.toList_ofList, componentsOf_intercalate (by simpa using hslash), hlead]

/-- The directory of a path with a later piece that counts ends before the last one that does. -/
theorem Path.map_components_directory?_of_last {last : List Char} {before : List (List Char)}
    (hpieces : pieces path.text.toList = first :: rest)
    (hcounting : dropUncounted rest.reverse = last :: before) :
    path.directory?.map Path.components = path.parent? := by
  obtain ⟨step, hstep⟩ := exists_component_of_dropUncounted hcounting
  have hrest : rest ≠ [] := by
    rintro rfl
    contradiction
  have hsteps := filterMap_dropUncounted rest.reverse
  rw [hcounting, List.filterMap_reverse, List.filterMap_cons_some hstep] at hsteps
  have hcomponents : path.components = (leadOf (first :: rest) ++
      (first :: (dropUncounted before).reverse).filterMap pieceComponent) ++ [step] := by
    rw [Path.components, componentsOf_eq, hpieces, List.filterMap_cons, List.filterMap_cons,
      List.filterMap_reverse, filterMap_dropUncounted,
      ← List.reverse_reverse (rest.filterMap pieceComponent), ← hsteps]
    cases pieceComponent first <;> simp
  have hslash : ∀ piece ∈ first :: dropUncounted before, '/' ∉ piece := by
    intro piece hmem
    have hpiece : piece ∈ pieces path.text.toList := by
      rw [hpieces]
      rcases List.mem_cons.mp hmem with rfl | hkept
      · exact List.mem_cons_self
      · have hbehind : piece ∈ dropUncounted rest.reverse :=
          hcounting ▸ List.mem_cons_of_mem _ (dropUncounted_subset before hkept)
        exact List.mem_cons_of_mem _ (List.mem_reverse.mp (dropUncounted_subset _ hbehind))
    exact not_mem_of_mem_pieces hpiece
  have htrimmed :
      Path.trimPieces (pieces path.text.toList).reverse = last :: (before ++ [first]) := by
    rw [hpieces, List.reverse_cons, trimPieces_append_singleton, hcounting, List.cons_append]
  rw [Path.parent?_of_components step hcomponents fun hroot =>
      pieceComponent_ne_root _ (hroot ▸ hstep),
    Path.directory?_eq_ofPieces htrimmed (by simp), trimPieces_append_singleton, Option.map_some,
    Path.components_ofPieces hrest hslash]

/-- The directory of a path, as it is written, has the components of the path without the last
one. -/
theorem Path.map_components_directory? (path : Path) :
    path.directory?.map Path.components = path.parent? := by
  rcases hpieces : pieces path.text.toList with _ | ⟨first, rest⟩
  · exact absurd hpieces (pieces_ne_nil _)
  · cases hcounting : dropUncounted rest.reverse with
    | nil => exact Path.map_components_directory?_of_first hpieces hcounting
    | cons last before => exact Path.map_components_directory?_of_last hpieces hcounting

/-- The directory that a module's relative specifiers start from, as it is written. -/
def writtenDirectory (importer : Path) : Path :=
  importer.directory?.getD ⟨""⟩

theorem components_writtenDirectory (importer : Path) :
    (writtenDirectory importer).components = directoryOf importer := by
  unfold writtenDirectory directoryOf
  rw [← Path.map_components_directory?]
  cases importer.directory? <;> rfl

/-! ## Resolving -/

/-- What a specifier names, seen from a directory as it is written. -/
def resolveWritten (directory : Path) (specifier : String) : Resolution :=
  match specifier.toList.head? with
  | some '/' => .file ⟨specifier⟩
  | some '.' => .file (directory.join ⟨withExtension specifier⟩).normalize
  | _ => .external

/-- How a directory is written does not matter to what is resolved from it. -/
theorem resolveWritten_eq (directory : Path) (specifier : String) :
    resolveWritten directory specifier = resolveFrom directory.components specifier := by
  unfold resolveWritten resolveFrom
  cases hhead : specifier.toList.head? with
  | none => rfl
  | some first =>
      by_cases hdot : first = '.'
      · subst hdot
        have hrelative : (Path.mk (withExtension specifier)).isAbsolute = false := by
          rw [Path.isAbsolute, head?_withExtension hhead]
          rfl
        rw [Path.normalize, foldDots_join directory hrelative]
        rfl
      · split <;> simp_all

theorem withExtension_append (specifier : String) :
    withExtension (specifier ++ ".js") = specifier ++ ".js" := by
  have hsuffix : ['.', 'j', 's'].isSuffixOf (specifier ++ ".js").toList = true := by
    rw [List.isSuffixOf_iff_suffix, String.toList_append]
    exact List.suffix_append _ _
  exact if_pos hsuffix

/-- A relative specifier names the same file with and without its extension. -/
theorem resolveFrom_append_extension (directory : List Component)
    (hrelative : specifier.toList.head? = some '.')
    (hextension : ¬ ['.', 'j', 's'].isSuffixOf specifier.toList) :
    resolveFrom directory (specifier ++ ".js") = resolveFrom directory specifier := by
  have hwith : withExtension specifier = specifier ++ ".js" := if_neg hextension
  have hhead : (specifier ++ ".js").toList.head? = some '.' := by
    rw [← hwith, head?_withExtension hrelative]
  unfold resolveFrom
  rw [hrelative, hhead, withExtension_append, hwith]
  rfl

namespace Resolver

variable {resolver : Resolver}

/-- A resolver whose answers so far are right gives right answers, from its cache or not, and
its answers stay right. -/
theorem resolve_right
    (hright : ∀ directory specifier answer,
      ((directory, specifier), answer) ∈ resolver.answers →
        answer = resolveFrom directory specifier)
    (specifier : String) (importer : Path) :
    (resolver.resolve specifier importer).2.1 = resolveFrom (directoryOf importer) specifier ∧
      ∀ directory other answer,
        ((directory, other), answer) ∈ (resolver.resolve specifier importer).1.answers →
          answer = resolveFrom directory other := by
  unfold Resolver.resolve
  dsimp only
  cases hlookup : resolver.answers.lookup (directoryOf importer, specifier) with
  | some answer =>
      obtain ⟨earlier, later, hanswers, -⟩ := List.lookup_eq_some_iff.mp hlookup
      refine ⟨hright _ _ answer ?_, hright⟩
      rw [hanswers]
      exact List.mem_append_right _ List.mem_cons_self
  | none =>
      refine ⟨rfl, ?_⟩
      intro directory other answer hanswer
      rcases List.mem_append.mp hanswer with hold | hnew
      · exact hright directory other answer hold
      · obtain ⟨hkey, rfl⟩ := Prod.mk.inj (List.mem_singleton.mp hnew)
        obtain ⟨rfl, rfl⟩ := Prod.mk.inj hkey
        rfl

/-- The answers of a resolver to one specifier and importer after the other. -/
def resolveAll (resolver : Resolver) : List (String × Path) → List Resolution
  | [] => []
  | (specifier, importer) :: rest =>
    let (next, answer, _) := resolver.resolve specifier importer
    answer :: next.resolveAll rest

/-- The answer of a resolver that has given none before. -/
def freshAnswer (specifier : String) (importer : Path) : Resolution :=
  (Resolver.empty.resolve specifier importer).2.1

theorem freshAnswer_eq (specifier : String) (importer : Path) :
    freshAnswer specifier importer = resolveFrom (directoryOf importer) specifier :=
  rfl

theorem resolveAll_right
    (hright : ∀ directory specifier answer,
      ((directory, specifier), answer) ∈ resolver.answers →
        answer = resolveFrom directory specifier)
    (calls : List (String × Path)) :
    resolver.resolveAll calls =
      calls.map fun call => resolveFrom (directoryOf call.2) call.1 := by
  induction calls generalizing resolver with
  | nil => rfl
  | cons call rest ih =>
      obtain ⟨hanswer, hanswers⟩ := resolve_right hright call.1 call.2
      rw [List.map_cons, ← hanswer, ← ih hanswers]
      rfl

/-- A resolver answers as one that has given no answer before, whatever it has been asked: with
what the specifier names, seen from the directory of the importer as it is written.  Importers in
the same directory get the same answer, however the directory is written in their paths, and a
relative specifier the answer that it gets with its extension. -/
theorem resolveAll_empty (calls : List (String × Path)) (specifier : String)
    (importer other : Path) :
    empty.resolveAll calls = calls.map (fun call => freshAnswer call.1 call.2) ∧
    freshAnswer specifier importer = resolveWritten (writtenDirectory importer) specifier ∧
    ((writtenDirectory importer).same (writtenDirectory other) = true →
      freshAnswer specifier importer = freshAnswer specifier other) ∧
    (specifier.toList.head? = some '.' → ¬ ['.', 'j', 's'].isSuffixOf specifier.toList →
      freshAnswer specifier importer = freshAnswer (specifier ++ ".js") importer) := by
  refine ⟨?_, ?_, fun hsame => ?_, fun hrelative hextension => ?_⟩
  · exact resolveAll_right (by simp [empty]) calls
  · rw [resolveWritten_eq, components_writtenDirectory, freshAnswer_eq]
  · have hdirectory : directoryOf importer = directoryOf other := by
      rw [← components_writtenDirectory, ← components_writtenDirectory]
      simpa [Path.same] using hsame
    rw [freshAnswer_eq, freshAnswer_eq, hdirectory]
  · exact (resolveFrom_append_extension _ hrelative hextension).symm

/-- One directory, written in two ways, and a specifier with and without its extension. -/
theorem resolveAll_empty_spellings :
    (writtenDirectory ⟨"/project//src/./main.js"⟩).same
        (writtenDirectory ⟨"/project/src/util.js/"⟩) = true ∧
    freshAnswer "../lib" ⟨"/project//src/./main.js"⟩ =
      freshAnswer "../lib" ⟨"/project/src/util.js/"⟩ ∧
    freshAnswer "../lib" ⟨"/project//src/./main.js"⟩ =
      freshAnswer "../lib.js" ⟨"/project//src/./main.js"⟩ := by
  obtain ⟨-, -, hdirectory, hextension⟩ := resolveAll_empty [] "../lib"
    ⟨"/project//src/./main.js"⟩ ⟨"/project/src/util.js/"⟩
  have hsame : (writtenDirectory ⟨"/project//src/./main.js"⟩).same
      (writtenDirectory ⟨"/project/src/util.js/"⟩) = true := by decide +kernel
  exact ⟨hsame, hdirectory hsame, hextension (by decide +kernel) (by decide +kernel)⟩

end Resolver
end Files
end ScriptBundler
