import Ndnfs.Server.Scan

namespace Ndnfs
open MachineInteger Percent NdnCpp

namespace Server

variable (server : Server)

/-- This version component has the number as an int. -/
def ReadsVersion (component : Component) (version : Int) : Prop :=
  componentKind component = .version ∧
    ∃ number, server.ndn.toVersion component = some number ∧ toInt number = version

/-- This segment component has the number as an int. -/
def ReadsSegment (component : Component) (seg : Int) : Prop :=
  componentKind component = .segment ∧
    ∃ number, server.ndn.toSegment component = some number ∧ toInt number = seg

/-- The loop passes these names and then holds these numbers; the number -1 is the blank one, which
lets another component of the same kind follow. -/
inductive Accepted : Name → Int → Int → Prop where
  | nil : Accepted [] (-1) (-1)
  | front {name : Name} {component : Component} (accepted : Accepted name (-1) (-1))
      (isFront : (componentKind component).isFront = true) : Accepted (name ++ [component]) (-1) (-1)
  | version {name : Name} {component : Component} {version : Int}
      (accepted : Accepted name (-1) (-1)) (read : server.ReadsVersion component version) :
      Accepted (name ++ [component]) version (-1)
  | segment {name : Name} {component : Component} {version seg : Int}
      (accepted : Accepted name version (-1)) (known : version ≠ -1)
      (read : server.ReadsSegment component seg) : Accepted (name ++ [component]) version seg

/-- The loop can read this component when it holds these numbers. -/
structure Readable (component : Component) (heldVersion heldSeg : Int) : Prop where
  nonempty : component ≠ []
  version : componentKind component = .version → heldVersion = -1 →
    server.ndn.toVersion component ≠ none
  segment : componentKind component = .segment → heldVersion ≠ -1 → heldSeg = -1 →
    server.ndn.toSegment component ≠ none

variable {server}

theorem hasMarker_snoc (name : Name) (component : Component) :
    hasMarker (name ++ [component]) =
      (hasMarker name || decide (componentKind component = .marker)) := by
  simp [hasMarker]

theorem plainText_snoc_other {component : Component} (kind : componentKind component ≠ .plain)
    (name : Name) : plainText (name ++ [component]) = plainText name := by
  rw [plainText_append, plainText_cons_other kind, plainText_nil, List.append_nil]

/-- The loop reaches the end of an accepted name with its numbers, its marker and its text. -/
theorem Accepted.scanName {name : Name} {version seg : Int}
    (accepted : server.Accepted name version seg) :
    server.scanName {} name = .ok (true, ⟨version, seg, hasMarker name, plainText name⟩) := by
  induction accepted with
  | nil => rfl
  | @front name component accepted isFront ih =>
      have front : IsFront [component] := List.forall_mem_singleton.mpr isFront
      rw [server.scanName_append, ih]
      refine (server.scanName_front front [] rfl rfl).trans ?_
      rw [hasMarker_append, plainText_append]
      rfl
  | @version name component version accepted read ih =>
      obtain ⟨kind, number, value, rfl⟩ := read
      rw [server.scanName_append, ih, hasMarker_snoc, plainText_snoc_other (by simp [kind])]
      refine (server.scanName_version kind value rfl []).trans ?_
      simp [kind, Server.scanName]
  | @segment name component version seg accepted known read ih =>
      obtain ⟨kind, number, value, rfl⟩ := read
      rw [server.scanName_append, ih, hasMarker_snoc, plainText_snoc_other (by simp [kind])]
      refine (server.scanName_segment kind value known rfl []).trans ?_
      simp [kind, Server.scanName]

/-- A name of front components is accepted without a number. -/
theorem accepted_of_isFront {front : Name} (isFront : IsFront front) :
    server.Accepted front (-1) (-1) := by
  induction front using List.reverseRecOn with
  | nil => exact .nil
  | append_singleton front component ih =>
      have before : IsFront front := fun other member =>
        isFront other (List.mem_append_left _ member)
      exact .front (ih before) (isFront component (List.mem_append_right _ List.mem_cons_self))

theorem scanName_snoc (scan : Scan) (name : Name) (component : Component) :
    server.scanName scan (name ++ [component]) =
      match server.scanName scan name with
      | .ok (true, middle) =>
          match server.scanComponent middle component with
          | .error exception => .error exception
          | .ok none => .ok (false, middle)
          | .ok (some next) => .ok (true, next)
      | stopped => stopped := by
  rw [scanName_append]
  cases server.scanName scan name with
  | error exception => rfl
  | ok result =>
      obtain ⟨complete, middle⟩ := result
      cases complete with
      | false => rfl
      | true =>
          cases step : server.scanComponent middle component with
          | error exception => simp only [Server.scanName, step]
          | ok next =>
              cases next with
              | none => simp only [Server.scanName, step]
              | some next => simp only [Server.scanName, step]

/-- The loop holds no segment without a version. -/
theorem Accepted.blank {name : Name} {version seg : Int}
    (accepted : server.Accepted name version seg) (blank : version = -1) : seg = -1 := by
  cases accepted with
  | nil => rfl
  | front => rfl
  | version => rfl
  | segment accepted known read => exact absurd blank known

/-- The loop passes one more component after an accepted name. -/
theorem Accepted.snoc {name : Name} {scan next : Scan} {component : Component}
    (accepted : server.Accepted name scan.version scan.seg)
    (passed : server.scanComponent scan component = .ok (some next)) :
    server.Accepted (name ++ [component]) next.version next.seg := by
  obtain ⟨version, seg, hasMeta, oss⟩ := scan
  cases kind : componentKind component with
  | empty =>
      rw [componentKind_empty kind] at passed
      cases passed
  | version =>
      rw [server.scanComponent_version kind] at passed
      split at passed
      · rename_i blank
        obtain rfl : seg = -1 := accepted.blank blank
        obtain rfl : version = -1 := blank
        split at passed
        · cases passed
        · rename_i number read
          obtain rfl := Option.some.inj (Except.ok.inj passed)
          have reads : server.ReadsVersion component (toInt number) := ⟨kind, number, read, rfl⟩
          dsimp only at accepted ⊢
          exact accepted.version reads
      · cases passed
  | segment =>
      rw [server.scanComponent_segment kind] at passed
      split at passed
      · cases passed
      · rename_i known
        split at passed
        · cases passed
        · rename_i blank
          obtain rfl : seg = -1 := not_not.mp blank
          split at passed
          · cases passed
          · rename_i number read
            obtain rfl := Option.some.inj (Except.ok.inj passed)
            have reads : server.ReadsSegment component (toInt number) := ⟨kind, number, read, rfl⟩
            dsimp only at accepted known ⊢
            exact accepted.segment known reads
  | marker =>
      rw [server.scanComponent_marker kind] at passed
      split at passed
      · cases passed
      · rename_i blank
        obtain rfl := Option.some.inj (Except.ok.inj passed)
        obtain ⟨rfl, rfl⟩ : version = -1 ∧ seg = -1 := by simpa using blank
        exact accepted.front (by rw [kind]; rfl)
  | plain =>
      rw [server.scanComponent_plain kind] at passed
      split at passed
      · rename_i blank
        obtain rfl := Option.some.inj (Except.ok.inj passed)
        obtain ⟨rfl, rfl⟩ : version = -1 ∧ seg = -1 := blank
        exact accepted.front (by rw [kind]; rfl)
      · cases passed

/-- The loop reaches the end of accepted names only. -/
theorem accepted_of_scanName {name : Name} {scan : Scan}
    (complete : server.scanName {} name = .ok (true, scan)) :
    server.Accepted name scan.version scan.seg := by
  induction name using List.reverseRecOn generalizing scan with
  | nil =>
      obtain rfl := (Prod.mk.inj (Except.ok.inj complete)).2
      exact .nil
  | append_singleton name component ih =>
      rw [scanName_snoc] at complete
      split at complete
      · rename_i middle passed
        split at complete
        · cases complete
        · cases complete
        · rename_i next step
          obtain rfl := (Prod.mk.inj (Except.ok.inj complete)).2
          exact (ih passed).snoc step
      · rename_i stopped other
        exact absurd complete (other scan)

variable (server)

/-- One round fails exactly when it cannot read its component. -/
theorem scanComponent_error_iff (scan : Scan) (component : Component) :
    (∃ exception, server.scanComponent scan component = .error exception) ↔
      ¬ server.Readable component scan.version scan.seg := by
  cases kind : componentKind component with
  | empty =>
      obtain rfl := componentKind_empty kind
      exact iff_of_true ⟨.badRead, rfl⟩ fun readable => readable.nonempty rfl
  | version =>
      have nonempty : component ≠ [] := by
        rintro rfl
        cases kind
      rw [server.scanComponent_version kind]
      by_cases blank : scan.version = -1
      · rw [if_pos blank]
        cases read : server.ndn.toVersion component with
        | none => exact iff_of_true ⟨.badNumber, rfl⟩ fun readable => readable.version kind blank read
        | some number =>
            refine iff_of_false (by simp) (not_not.mpr ⟨nonempty, by simp [read], ?_⟩)
            simp [kind]
      · rw [if_neg blank]
        exact iff_of_false (by simp) (not_not.mpr ⟨nonempty, by simp [blank], by simp [kind]⟩)
  | segment =>
      have nonempty : component ≠ [] := by
        rintro rfl
        cases kind
      rw [server.scanComponent_segment kind]
      by_cases blank : scan.version = -1
      · rw [if_pos blank]
        exact iff_of_false (by simp) (not_not.mpr ⟨nonempty, by simp [kind], by simp [blank]⟩)
      · rw [if_neg blank]
        by_cases first : scan.seg = -1
        · rw [if_neg (not_not.mpr first)]
          cases read : server.ndn.toSegment component with
          | none =>
              exact iff_of_true ⟨.badNumber, rfl⟩ fun readable =>
                readable.segment kind blank first read
          | some number =>
              exact iff_of_false (by simp)
                (not_not.mpr ⟨nonempty, by simp [kind], by simp [read]⟩)
        · rw [if_pos first]
          exact iff_of_false (by simp) (not_not.mpr ⟨nonempty, by simp [kind], by simp [first]⟩)
  | marker =>
      have nonempty : component ≠ [] := by
        rintro rfl
        cases kind
      rw [server.scanComponent_marker kind]
      refine iff_of_false ?_ (not_not.mpr ⟨nonempty, by simp [kind], by simp [kind]⟩)
      split <;> simp
  | plain =>
      have nonempty : component ≠ [] := by
        rintro rfl
        cases kind
      rw [server.scanComponent_plain kind]
      refine iff_of_false ?_ (not_not.mpr ⟨nonempty, by simp [kind], by simp [kind]⟩)
      split <;> simp

/-- Each component after an accepted beginning of the name can be read. -/
def AllReadable (name : Name) : Prop :=
  ∀ before component after version seg, name = before ++ component :: after →
    server.Accepted before version seg → server.Readable component version seg

/-- The loop fails exactly at a component that it reaches and cannot read. -/
theorem scanName_error_iff (name : Name) :
    (∃ exception, server.scanName {} name = .error exception) ↔ ¬ server.AllReadable name := by
  constructor
  · intro failed readable
    induction name using List.reverseRecOn with
    | nil =>
        obtain ⟨exception, failed⟩ := failed
        cases failed
    | append_singleton name component ih =>
        obtain ⟨exception, failed⟩ := failed
        rw [scanName_snoc] at failed
        split at failed
        · rename_i middle passed
          have last := readable name component [] middle.version middle.seg rfl
            (accepted_of_scanName passed)
          refine (server.scanComponent_error_iff middle component).mp ?_ last
          split at failed
          · exact ⟨_, ‹_›⟩
          · cases failed
          · cases failed
        · refine ih ⟨exception, failed⟩ fun before other after version seg same => ?_
          exact readable before other (after ++ [component]) version seg (by simp [same])
  · intro unreadable
    simp only [AllReadable, not_forall] at unreadable
    obtain ⟨before, component, after, version, seg, rfl, accepted, unreadable⟩ := unreadable
    obtain ⟨exception, failed⟩ := (server.scanComponent_error_iff
      ⟨version, seg, hasMarker before, plainText before⟩ component).mpr unreadable
    refine ⟨exception, ?_⟩
    rw [scanName_append, accepted.scanName]
    simp only [Server.scanName, failed]

/-- The loop comes to a result exactly on readable names. -/
theorem scanName_ok_iff (name : Name) :
    (∃ result, server.scanName {} name = .ok result) ↔ server.AllReadable name := by
  have failed := server.scanName_error_iff name
  cases scanned : server.scanName {} name with
  | error exception =>
      rw [scanned] at failed
      exact iff_of_false (by simp) (failed.mp ⟨exception, rfl⟩)
  | ok result =>
      rw [scanned] at failed
      exact iff_of_true ⟨result, rfl⟩ (not_not.mp (mt failed.mpr (by simp)))

/-- A complete scan holds the marker and the text of its name. -/
theorem scanName_eq {name : Name} {scan : Scan}
    (complete : server.scanName {} name = .ok (true, scan)) :
    scan = ⟨scan.version, scan.seg, hasMarker name, plainText name⟩ := by
  have same := (accepted_of_scanName complete).scanName
  rw [complete] at same
  exact (Prod.mk.inj (Except.ok.inj same)).2

variable {server}

theorem Accepted.parseName {name : Name} {version seg : Int}
    (accepted : server.Accepted name version seg) :
    server.parseName name = server.finish ⟨version, seg, hasMarker name, plainText name⟩ :=
  server.parseName_accepted accepted.scanName

/-- Only an accepted name stands for a path. -/
theorem accepted_of_path {name : Name} {parsed : Parsed}
    (parse : server.parseName name = .ok parsed) (path : parsed.path ≠ []) :
    ∃ version seg, server.Accepted name version seg ∧
      server.finish ⟨version, seg, hasMarker name, plainText name⟩ = .ok parsed := by
  cases scanned : server.scanName {} name with
  | error exception =>
      rw [Server.parseName, scanned] at parse
      cases parse
  | ok result =>
      obtain ⟨complete, scan⟩ := result
      cases complete with
      | false =>
          rw [server.parseName_rejected scanned] at parse
          obtain rfl := Except.ok.inj parse
          exact absurd rfl path
      | true =>
          have accepted := accepted_of_scanName scanned
          exact ⟨scan.version, scan.seg, accepted, by rw [← accepted.parseName, parse]⟩

end Server

end Ndnfs
