import Mathlib.Data.List.TakeWhile
import Ndnfs.Foundation.Ensures
import Ndnfs.Foundation.Search
import Ndnfs.Server.Module
import Ndnfs.System.Execution

namespace Ndnfs
open Effect Program Percent

def quote : UInt8 := 34
def anchorStart : Bytes := ascii "<a download=\""
def anchorEnd : Bytes := ascii "</a>"

/-- The rounds read one anchor after the other. -/
def downloadRounds : Nat → Bytes → List Bytes
  | 0, _ => []
  | rounds + 1, text =>
      match after anchorStart text with
      | none => []
      | some text =>
          let value := text.takeWhile (· ≠ quote)
          match after anchorEnd (text.drop value.length) with
          | none => [value]
          | some text => value :: downloadRounds rounds text

/-- The values of the download attributes of a page; a value ends at the next double quote. -/
def downloadNames (page : Bytes) : List Bytes := downloadRounds page.length page

/-- The entries of a directory other than itself and its parent. -/
def isEntry (name : Bytes) : Bool := name ≠ ascii "." && name ≠ ascii ".."

def entries (names : List Bytes) : List Bytes := (names.filter isEntry).insertionSort (· ≤ ·)

theorem entries_perm (names : List Bytes) : (entries names).Perm (names.filter isEntry) :=
  List.perm_insertionSort _ _

theorem entries_sorted (names : List Bytes) : (entries names).Pairwise (· ≤ ·) :=
  List.pairwise_insertionSort _ _

/-- The order of readdir does not matter for the sorted entries. -/
theorem entries_congr {first second : List Bytes} (perm : first.Perm second) :
    entries first = entries second := by
  apply List.Perm.eq_of_pairwise' (entries_sorted first) (entries_sorted second)
  have kept := perm.filter isEntry
  exact (entries_perm first).trans (kept.trans (entries_perm second).symm)

/-- Each ".." puts a link in front of the page, and the other entries are collected in order. -/
theorem readEntries_eq (queryPath : Bytes) (names : List Bytes) (content : Bytes)
    (dirContents : List Bytes) :
    readEntries queryPath names (content, dirContents) =
      (if queryPath = ascii "/" then content else parentLink^[names.count (ascii "..")] content,
        dirContents ++ names.filter isEntry) := by
  induction names generalizing content dirContents with
  | nil => simp [readEntries]
  | cons name names ih =>
      rw [readEntries]
      by_cases dot : name = ascii "."
      · subst dot
        rw [if_pos rfl, ih, List.count_cons_of_ne (by decide),
          List.filter_cons_of_neg (by decide)]
      · rw [if_neg dot]
        by_cases parent : name = ascii ".."
        · subst parent
          rw [if_pos rfl, List.count_cons_self, List.filter_cons_of_neg (by decide),
            Function.iterate_succ_apply]
          by_cases root : queryPath = ascii "/"
          · rw [if_neg (not_not.mpr root), ih, if_pos root, if_pos root]
          · rw [if_pos root, ih, if_neg root, if_neg root]
        · have entry : isEntry name = true := by simp [isEntry, dot, parent]
          rw [if_neg parent, ih, List.count_cons_of_ne parent, List.filter_cons_of_pos entry,
            List.append_assoc]
          rfl

/-- The start of a page with the links to the parent directory. -/
def pageHead (queryPath : Bytes) (names : List Bytes) : Bytes :=
  if queryPath = ascii "/" then ascii "<html><body>"
  else parentLink^[names.count (ascii "..")] (ascii "<html><body>")

theorem dirPage_eq (queryPath : Bytes) (names : List Bytes) : dirPage queryPath names =
    pageHead queryPath names ++ ((entries names).flatMap entryLink ++ ascii "</body></html>") := by
  rw [dirPage, readEntries_eq]
  exact List.append_assoc _ _ _

/-- The page does not depend on the order in which readdir gives the entries. -/
theorem dirPage_congr (queryPath : Bytes) {first second : List Bytes} (perm : first.Perm second) :
    dirPage queryPath first = dirPage queryPath second := by
  rw [dirPage_eq, dirPage_eq, entries_congr perm, pageHead, pageHead, perm.count_eq]

/-- Of the path it matters only whether it is the root. -/
theorem dirPage_root {first second : Bytes} (root : first = ascii "/" ↔ second = ascii "/")
    (names : List Bytes) : dirPage first names = dirPage second names := by
  have heads : pageHead first names = pageHead second names := by
    rw [pageHead, pageHead]
    exact if_congr root rfl rfl
  rw [dirPage_eq, dirPage_eq, heads]

section ReadBack

theorem after_pageHead (queryPath : Bytes) (names : List Bytes) (text : Bytes) :
    after anchorStart (pageHead queryPath names ++ text) = after anchorStart text := by
  have start : Skips anchorStart (ascii "<html><body>") := by decide
  have link : Skips anchorStart (parentLink []) := by decide
  have front (content : Bytes) : parentLink content = parentLink [] ++ content := by
    simp [parentLink]
  have links (count : Nat) : after anchorStart (parentLink^[count] (ascii "<html><body>") ++ text) =
      after anchorStart text := by
    induction count with
    | zero => exact start.after text
    | succ count ih => rw [Function.iterate_succ_apply', front, List.append_assoc, link.after, ih]
  unfold pageHead
  split
  · exact start.after text
  · exact links _

/-- Only what follows the start of the next anchor matters. -/
theorem downloadRounds_congr {first second : Bytes}
    (same : after anchorStart first = after anchorStart second) (rounds : Nat) :
    downloadRounds rounds first = downloadRounds rounds second := by
  cases rounds with
  | zero => rfl
  | succ rounds => rw [downloadRounds, downloadRounds, same]

theorem takeWhile_quote (name text : Bytes) :
    (name ++ quote :: text).takeWhile (· ≠ quote) = name.takeWhile (· ≠ quote) := by
  induction name with
  | nil => rfl
  | cons byte name ih =>
      rw [List.cons_append, List.takeWhile_cons, List.takeWhile_cons, ih]

theorem takeWhile_clean {name : Bytes} (clean : quote ∉ name) :
    name.takeWhile (· ≠ quote) = name := by
  rw [List.takeWhile_eq_self_iff]
  intro byte member
  simpa using ne_of_mem_of_not_mem member clean

theorem entryLink_append (name text : Bytes) : entryLink name ++ text = anchorStart ++
    (name ++ quote :: (ascii " href=\"./" ++ (name ++ (ascii "\">" ++ (name ++ (anchorEnd ++
      (ascii "<br>" ++ text))))))) := by
  simp only [entryLink, anchorStart, anchorEnd, List.append_assoc]
  rfl

/-- The name is read up to its first double quote. -/
theorem downloadRounds_entry (name text : Bytes) (rounds : Nat) :
    ∃ rest, downloadRounds (rounds + 1) (entryLink name ++ text) =
      name.takeWhile (· ≠ quote) :: rest := by
  rw [entryLink_append, downloadRounds, after_append]
  dsimp only
  rw [takeWhile_quote]
  split
  · exact ⟨[], rfl⟩
  · exact ⟨_, rfl⟩

/-- A name without a slash and a double quote is read whole, and the next anchor follows. -/
theorem downloadRounds_clean {name : Bytes} (noSlash : slash ∉ name) (clean : quote ∉ name)
    (text : Bytes) (rounds : Nat) : downloadRounds (rounds + 1) (entryLink name ++ text) =
      name :: downloadRounds rounds text := by
  have href : Skips anchorEnd (ascii "\" href=\"./") := by decide
  have noSlash' : slash ∉ name ++ (ascii "\">" ++ name) := by
    simp only [List.mem_append, not_or]
    exact ⟨noSlash, by decide, noSlash⟩
  have close : after anchorEnd (quote :: (ascii " href=\"./" ++ (name ++ (ascii "\">" ++ (name ++
      (anchorEnd ++ (ascii "<br>" ++ text))))))) = some (ascii "<br>" ++ text) := by
    refine (href.after _).trans ?_
    have head : (anchorEnd ++ (ascii "<br>" ++ text)).head? ≠ some slash := by
      intro same
      exact absurd (Option.some.inj same) (by decide)
    have passed : after anchorEnd ((name ++ (ascii "\">" ++ name)) ++ (anchorEnd ++
        (ascii "<br>" ++ text))) = after anchorEnd (anchorEnd ++ (ascii "<br>" ++ text)) :=
      after_of_notMem noSlash' head
    simp only [List.append_assoc] at passed
    exact passed.trans (after_append anchorEnd _)
  rw [entryLink_append, downloadRounds, after_append]
  dsimp only
  rw [takeWhile_quote, takeWhile_clean clean, List.drop_left, close]
  have skips : Skips anchorStart (ascii "<br>") := by decide
  exact congrArg (name :: ·) (downloadRounds_congr (skips.after text) rounds)

theorem downloadRounds_links {names : List Bytes} (noSlash : ∀ name ∈ names, slash ∉ name)
    (clean : ∀ name ∈ names, quote ∉ name) (text : Bytes) (rounds : Nat) :
    downloadRounds (names.length + rounds) (names.flatMap entryLink ++ text) =
      names ++ downloadRounds rounds text := by
  induction names with
  | nil => simp
  | cons name names ih =>
      rw [List.forall_mem_cons] at noSlash clean
      rw [List.flatMap_cons, List.append_assoc, List.length_cons, Nat.add_right_comm,
        downloadRounds_clean noSlash.1 clean.1, ih noSlash.2 clean.2, List.cons_append]

/-- Names that are all read back have no double quote; by induction, one anchor after the other. -/
theorem clean_of_downloadRounds {names : List Bytes} (noSlash : ∀ name ∈ names, slash ∉ name)
    {text : Bytes} {rounds : Nat}
    (read : downloadRounds (names.length + rounds) (names.flatMap entryLink ++ text) = names) :
    ∀ name ∈ names, quote ∉ name := by
  induction names with
  | nil => simp
  | cons name names ih =>
      rw [List.forall_mem_cons] at noSlash ⊢
      rw [List.flatMap_cons, List.append_assoc, List.length_cons, Nat.add_right_comm] at read
      have clean : quote ∉ name := by
        obtain ⟨rest, first⟩ := downloadRounds_entry name (names.flatMap entryLink ++ text)
          (names.length + rounds)
        have whole := (List.cons.inj (first.symm.trans read)).1
        intro inside
        rw [List.takeWhile_eq_self_iff] at whole
        simpa using whole quote inside
      rw [downloadRounds_clean noSlash.1 clean] at read
      exact ⟨clean, ih noSlash.2 (List.cons.inj read).2⟩

/-- Each anchor is longer than one byte, so there are enough rounds. -/
theorem length_entries_lt (queryPath : Bytes) (names : List Bytes) :
    (entries names).length < (dirPage queryPath names).length := by
  have links (list : List Bytes) : list.length ≤ (list.flatMap entryLink).length := by
    induction list with
    | nil => exact Nat.le_refl 0
    | cons name list ih =>
        have filled : 0 < (entryLink name).length := by simp [entryLink, ascii]
        rw [List.flatMap_cons, List.length_append, List.length_cons]
        omega
  have last : 0 < (ascii "</body></html>").length := by decide
  have bound := links (entries names)
  rw [dirPage_eq, List.length_append, List.length_append]
  omega

/-- The entries are read back from the page exactly when no name has a double quote. -/
theorem downloadNames_eq_iff (queryPath : Bytes) {names : List Bytes}
    (noSlash : ∀ name ∈ entries names, slash ∉ name) :
    downloadNames (dirPage queryPath names) = entries names ↔
      ∀ name ∈ entries names, quote ∉ name := by
  obtain ⟨rounds, enough⟩ := Nat.exists_eq_add_of_lt (length_entries_lt queryPath names)
  have page : downloadNames (dirPage queryPath names) =
      downloadRounds ((entries names).length + (rounds + 1))
        ((entries names).flatMap entryLink ++ ascii "</body></html>") := by
    rw [downloadNames, enough, dirPage_eq, Nat.add_assoc]
    exact downloadRounds_congr (after_pageHead queryPath names _) _
  rw [page]
  constructor
  · exact clean_of_downloadRounds noSlash
  · intro clean
    have last : after anchorStart (ascii "</body></html>") = none := by decide
    rw [downloadRounds_links noSlash clean, downloadRounds, last, List.append_nil]

end ReadBack

/-- In these runs readdir gives the entries in this order. -/
def ListsIn (order : List Bytes) : (call : Call Cursor Location) → call.Reply → Prop
  | .opendir _, reply => reply = .ok order
  | .time, _ | .uninitialised, _ | .prepare _, _ | .step _, _ | .columnInt .., _
  | .columnText .., _ | .columnBlob .., _ | .readBlob _, _ | .finalize _, _ | .openFile .., _
  | .close _, _ | .pread .., _ | .pwrite .., _ | .truncate .., _ | .unlink _, _ | .mkfifo .., _
  | .mknod .., _ | .mkdir .., _ | .rmdir _, _ | .rename .., _ | .stat _, _ | .lstat _, _
  | .putData _, _ => True

theorem listsIn_possible (order : List Bytes) (call : Call Cursor Location) :
    ∃ reply, ListsIn order call reply := by
  cases call with
  | opendir path => exact ⟨.ok order, rfl⟩
  | _ => exact ⟨(handle _ ⟨⟨.empty, .bare, []⟩, Reference.calm 0⟩).1, trivial⟩

/-- The content of a packet that is sent. -/
def sentContent : (call : Call Cursor Location) → call.Reply → Option Bytes
  | .putData data, _ => some data.content
  | _, _ => none

namespace Server

variable (server : Server) (path : Bytes)

/-- One page is sent, whatever else the calls return. -/
theorem ensures_sendDirMeta (order : List Bytes) :
    (server.sendDirMetaBrowserFriendly path : Source Cursor Location Int).Ensures (ListsIn order)
      sentContent fun pages _ => pages = [dirPage (queryPath path) order] := by
  simp only [sendDirMetaBrowserFriendly, ensures_bind, ensures_perform]
  rintro _ rfl
  simp only [ensures_bind, ensures_perform]
  intro stat _
  cases stat with
  | ok st =>
      simp only [ensures_bind, ensures_perform, ensures_pure]
      intro _ _
      rfl
  | error error =>
      simp only [ensures_bind, ensures_perform, ensures_pure]
      intro _ _ _ _
      rfl

/-- There is one page for all orders of the entries, and its download attributes are the entries
other than "." and ".." in ascending order. -/
def PageReadsBack (names : List Bytes) : Prop :=
  ∃ page, (∀ order, order.Perm names →
      (server.sendDirMetaBrowserFriendly path : Source Cursor Location Int).Ensures (ListsIn order)
        sentContent fun pages _ => pages = [page]) ∧
    (downloadNames page).Perm (names.filter isEntry) ∧ (downloadNames page).Pairwise (· ≤ ·)

theorem pageReadsBack_page {names : List Bytes} (reads : server.PageReadsBack path names) :
    downloadNames (dirPage (queryPath path) names) = entries names := by
  obtain ⟨page, sent, complete, sorted⟩ := reads
  have same : page = dirPage (queryPath path) names := by
    obtain ⟨pages, value, first, second⟩ := (sent names (List.Perm.refl names)).both
      (listsIn_possible names) (server.ensures_sendDirMeta path names)
    exact List.singleton_inj.mp (first.symm.trans second)
  subst same
  apply List.Perm.eq_of_pairwise' sorted (entries_sorted names)
  exact complete.trans (entries_perm names).symm

/-- The page is complete and readable exactly when no name has a double quote. -/
theorem pageReadsBack_iff {names : List Bytes}
    (clean : ∀ name ∈ names, slash ∉ name ∧ (0 : UInt8) ∉ name) :
    server.PageReadsBack path names ↔ ∀ name ∈ names, quote ∉ name := by
  have member (name : Bytes) : name ∈ entries names ↔ name ∈ names ∧ isEntry name = true := by
    rw [(entries_perm names).mem_iff, List.mem_filter]
  have noSlash : ∀ name ∈ entries names, slash ∉ name := fun name inside =>
    (clean name ((member name).mp inside).1).1
  have quotes : (∀ name ∈ names, quote ∉ name) ↔ ∀ name ∈ entries names, quote ∉ name := by
    constructor
    · intro all name inside
      exact all name ((member name).mp inside).1
    · intro all name inside
      by_cases entry : isEntry name = true
      · exact all name ((member name).mpr ⟨inside, entry⟩)
      · have special : name = ascii "." ∨ name = ascii ".." := by
          simpa [isEntry, or_iff_not_imp_left] using entry
        rcases special with rfl | rfl
        · decide
        · decide
  rw [quotes, ← downloadNames_eq_iff (queryPath path) noSlash]
  constructor
  · exact server.pageReadsBack_page path
  · intro read
    refine ⟨dirPage (queryPath path) names, fun order perm => ?_, ?_, ?_⟩
    · rw [← dirPage_congr (queryPath path) perm]
      exact server.ensures_sendDirMeta path order
    · rw [read]
      exact entries_perm names
    · rw [read]
      exact entries_sorted names

/-- A directory whose entries are not in order is read back. -/
theorem pageReadsBack_iff_plain : Reference.server.PageReadsBack (ascii "/d")
    [ascii "..", ascii "notes", ascii "b.jpg", ascii ".", ascii "a"] :=
  (Reference.server.pageReadsBack_iff (ascii "/d") (by decide)).mpr (by decide)

/-- A double quote ends the value inside the name. -/
theorem pageReadsBack_fails : ¬ ∀ (server : Server) (path : Bytes) (names : List Bytes),
    names.Nodup → (∀ name ∈ names, slash ∉ name ∧ (0 : UInt8) ∉ name) →
      server.PageReadsBack path names := by
  intro claim
  have reads := claim Reference.server (ascii "/d") [ascii ".", ascii "..", [97, quote]]
    (by decide) (by decide)
  have page := Reference.server.pageReadsBack_page _ reads
  rw [downloadNames_eq_iff _ (by decide)] at page
  revert page
  decide

end Server

end Ndnfs
