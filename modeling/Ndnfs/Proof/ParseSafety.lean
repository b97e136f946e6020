import Ndnfs.Proof.NameGrammar
import Ndnfs.Server.Shape

namespace Ndnfs
open MachineInteger Percent NdnCpp

namespace Server

variable (server : Server)

/-- parseName reads only bytes that exist, cuts inside its text and returns. -/
def ParsesSafely (name : Name) : Prop := ∃ parsed, server.parseName name = .ok parsed

/-- fs_prefix is at most as long as the text of an accepted name. -/
def CutsInside (name : Name) : Prop :=
  ∀ version seg, server.Accepted name version seg →
    server.fsPrefix.length ≤ (plainText name).length

/-- parseName is safe on a name under the prefix exactly when the loop can read each component that
it reaches and the cut of an accepted name stays in its text. -/
theorem parsesSafely_iff (rest : Name) :
    server.ParsesSafely (server.prefixName ++ rest) ↔
      server.AllReadable (server.prefixName ++ rest) ∧
        server.CutsInside (server.prefixName ++ rest) := by
  rw [← scanName_ok_iff]
  constructor
  · rintro ⟨parsed, parse⟩
    constructor
    · cases scanned : server.scanName {} (server.prefixName ++ rest) with
      | error exception =>
          rw [parseName, scanned] at parse
          cases parse
      | ok result => exact ⟨result, rfl⟩
    · intro version seg accepted
      rw [accepted.parseName] at parse
      exact (server.finish_eq_ok parse).1
  · rintro ⟨⟨⟨complete, scan⟩, scanned⟩, inside⟩
    cases complete with
    | false => exact ⟨_, server.parseName_rejected scanned⟩
    | true =>
        have accepted := accepted_of_scanName scanned
        have enough := inside _ _ accepted
        rw [ParsesSafely, accepted.parseName, finish, if_neg (Nat.not_lt_of_le enough)]
        exact ⟨_, rfl⟩

/-- The loop reads a byte of an empty component. -/
theorem parsesSafely_fails : ¬ ∀ (server : Server) (rest : Name),
    server.ParsesSafely (server.prefixName ++ rest) := by
  intro claim
  obtain ⟨parsed, parse⟩ := claim Reference.server [[]]
  have failed : Reference.server.parseName (Reference.server.prefixName ++ [[]]) =
      .error .badRead := by decide
  rw [failed] at parse
  cases parse

/-- This path belongs to the components after the prefix. -/
def servedPath (components : Name) : Bytes :=
  if components = [] then ascii "/" else joinSlash (components.map escapeComponent)

theorem servedPath_eq (components : Name) : servedPath components =
    if joinSlash (components.map escapeComponent) = [] then ascii "/"
    else joinSlash (components.map escapeComponent) := by
  cases components with
  | nil => rfl
  | cons component components => simp [servedPath]

theorem servedPath_ne_nil (components : Name) : servedPath components ≠ [] := by
  cases components with
  | nil => decide
  | cons component components => simp [servedPath]

/-- The path of the name is that of the components after the prefix. -/
def RemovesPrefix (components : Name) : Prop :=
  ∃ parsed, server.parseName (server.prefixName ++ components) = .ok parsed ∧
    parsed.path = servedPath components

/-- The prefix is removed exactly when the loop passes the name and fs_prefix is as long as the
text of the prefix. -/
theorem removesPrefix_iff {components : Name}
    (plain : ∀ component ∈ components, componentKind component = .plain) :
    server.RemovesPrefix components ↔
      (∃ version seg, server.Accepted (server.prefixName ++ components) version seg) ∧
        server.fsPrefix.length = (plainText server.prefixName).length := by
  have text : plainText (server.prefixName ++ components) =
      plainText server.prefixName ++ joinSlash (components.map escapeComponent) := by
    rw [plainText_append, plainText_of_plain plain]
  constructor
  · rintro ⟨parsed, parse, path⟩
    obtain ⟨version, seg, accepted, finished⟩ := accepted_of_path parse (by
      rw [path]
      exact servedPath_ne_nil components)
    refine ⟨⟨version, seg, accepted⟩, ?_⟩
    rw [servedPath_eq] at path
    exact server.length_of_path text (clean_escape _) (clean_escape _) finished path
  · rintro ⟨⟨version, seg, accepted⟩, length⟩
    refine ⟨_, accepted.parseName.trans (server.finish_prefix text length), ?_⟩
    exact (servedPath_eq components).symm

/-- The prefix of the reference server is removed from a name. -/
theorem removesPrefix_iff_reference : Reference.server.RemovesPrefix [ascii "a"] ↔
    (∃ version seg, Reference.server.Accepted (Reference.server.prefixName ++ [ascii "a"]) version
      seg) ∧ Reference.server.fsPrefix.length = (plainText Reference.server.prefixName).length :=
  Reference.server.removesPrefix_iff (by decide)

/-- The same prefix with a slash at its end. -/
def slashedServer : Server :=
  { Reference.server with fsPrefix := ascii "/ndn/broadcast/ndnfs/" }

/-- A slash at the end of the prefix takes the slash before the path away. -/
theorem removesPrefix_fails : ¬ ∀ (server : Server) (components : Name),
    (∀ component ∈ components, componentKind component = .plain) →
      server.RemovesPrefix components := by
  intro claim
  obtain ⟨parsed, parse, path⟩ := claim slashedServer [ascii "a"] (by decide)
  have cut : slashedServer.parseName (slashedServer.prefixName ++ [ascii "a"]) =
      .ok ⟨1, -1, -1, ascii "a"⟩ := by decide
  rw [cut] at parse
  obtain rfl := Except.ok.inj parse
  revert path
  decide

end Server

end Ndnfs
