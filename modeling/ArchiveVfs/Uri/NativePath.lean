import ArchiveVfs.Uri.Basic

/-!
# Native paths

Paths of the file system as text. `absolute` anchors a path at the current
directory and drops empty and `.` segments; `..` stays, and so do a trailing slash
and exactly two leading ones. `directoryOf` is the lexical parent.
-/

namespace ArchiveVfs

open Text

namespace NativePath

/-- Whether a path starts at the root. -/
def isAbsolute (path : List Char) : Bool :=
  path.head? = some '/'

/-- Segments that name nothing. -/
def isIdle (segment : List Char) : Bool :=
  segment.isEmpty || segment = ['.']

/-- The segments that name something. -/
def names (path : List Char) : List (List Char) :=
  (path.splitOn '/').filter fun segment => !isIdle segment

/-- A path with a segment or a relative path put behind it. -/
def push (path more : List Char) : List Char :=
  path ++ (if Uri.needsSlash path then ['/'] else []) ++ more

/-- The root that an absolute path starts at: exactly two slashes are kept. -/
def rootOf (path : List Char) : List Char :=
  if ['/', '/'].isPrefixOf path && !(['/', '/', '/'].isPrefixOf path) then ['/', '/'] else ['/']

/-- The path anchored at the directory `current`; the empty path has no anchor. -/
def absolute? (current path : List Char) : Option (List Char) :=
  if path.isEmpty then none
  else
    let start := if isAbsolute path then rootOf path else current
    let whole := (names path).foldl push start
    some (if path.getLast? = some '/' then push whole [] else whole)

/-- What `path` starts with before its segments: a slash, a lone dot, or nothing. -/
def headOf (path : List Char) : List Char :=
  if isAbsolute path then ['/']
  else if path = ['.'] || ['.', '/'].isPrefixOf path then ['.']
  else []

/-- The segments up to the last that names something. -/
def trimIdle (segments : List (List Char)) : List (List Char) :=
  (segments.reverse.dropWhile isIdle).reverse

/-- The lexical parent of a path. A root and the empty path have none. -/
def directoryOf (path : List Char) : Option (List Char) :=
  let head := headOf path
  match trimIdle ((path.drop head.length).splitOn '/') with
  | [] => if head = ['.'] then some [] else none
  | segments => some (head ++ ['/'].intercalate (trimIdle segments.dropLast))

theorem headOf_length_le (path : List Char) : (headOf path).length ≤ path.length := by
  unfold headOf isAbsolute
  cases path with
  | nil => simp
  | cons c rest => split <;> (try split) <;> simp

theorem trimIdle_isPrefix (segments : List (List Char)) : trimIdle segments <+: segments := by
  have h := List.dropWhile_suffix (l := segments.reverse) isIdle
  have := List.reverse_prefix.2 h
  simpa [trimIdle] using this

/-- The first segments make up a shorter text, unless there is only one empty segment. -/
theorem length_intercalate_lt {first rest whole : List (List Char)}
    (hwhole : first ++ rest = whole) (h : rest ≠ []) (hone : whole ≠ [[]]) :
    (['/'].intercalate first).length < (['/'].intercalate whole).length := by
  subst hwhole
  obtain ⟨next, later, rfl⟩ := List.exists_cons_of_ne_nil h
  by_cases hfirst : first = []
  · subst hfirst
    cases later with
    | nil =>
      have hnext : next ≠ [] := fun hnil => hone (by rw [hnil]; rfl)
      simpa using List.length_pos_iff.2 hnext
    | cons following more =>
      rw [List.nil_append, List.intercalate_cons_cons, List.intercalate_nil]
      simp only [List.length_append, List.length_cons, List.length_nil]
      omega
  · rw [intercalate_append hfirst h, List.length_append, List.length_cons]
    omega

/-- The lexical parent of a path is shorter. -/
theorem directoryOf_length {path directory : List Char} (h : directoryOf path = some directory) :
    directory.length < path.length := by
  unfold directoryOf at h
  dsimp only at h
  split at h
  · split at h
    next hdot =>
      obtain rfl := Option.some.inj h
      have := headOf_length_le path
      rw [hdot] at this
      exact this
    · simp at h
  next segments hsegments =>
    obtain rfl := Option.some.inj h
    have hhead := headOf_length_le path
    generalize hxs : path.drop (headOf path).length = xs at *
    have hlen : path.length = (headOf path).length + xs.length := by
      rw [← hxs, List.length_drop]
      omega
    obtain ⟨idle, hpieces⟩ := trimIdle_isPrefix (xs.splitOn '/')
    obtain ⟨more, hfirst⟩ := trimIdle_isPrefix (trimIdle (xs.splitOn '/')).dropLast
    have hlast := List.dropLast_concat_getLast hsegments
    have hwhole : trimIdle (trimIdle (xs.splitOn '/')).dropLast
        ++ (more ++ [(trimIdle (xs.splitOn '/')).getLast hsegments] ++ idle) = xs.splitOn '/' := by
      rw [← List.append_assoc, ← List.append_assoc, hfirst, hlast, hpieces]
    have hone : xs.splitOn '/' ≠ [[]] := by
      intro hone
      rw [hone] at hsegments
      simp [trimIdle, isIdle] at hsegments
    have hshort : (['/'].intercalate (trimIdle (trimIdle (xs.splitOn '/')).dropLast)).length
        < (['/'].intercalate (xs.splitOn '/')).length :=
      length_intercalate_lt hwhole (by simp) hone
    rw [List.intercalate_splitOn] at hshort
    simp only [List.length_append]
    omega

end NativePath

namespace Uri

/-- The `file` URI of a native path, taken below `current` when relative. -/
def ofNativePath (current path : String) : Uri :=
  let whole := (NativePath.absolute? current.toList path.toList).getD path.toList
  let slashed := whole.map fun c => if c = '\\' then '/' else c
  let rooted := if NativePath.isAbsolute slashed then slashed else '/' :: slashed
  ofParts "file" "" (String.ofList rooted)

/-- The native path that the local path stands for. -/
def nativePath (uri : Uri) : String :=
  uri.localPath

end Uri

end ArchiveVfs
