import Mathlib.Data.List.AList

namespace Ndnfs

/-- A keyed table holds at most one row for each key. -/
abbrev KeyedTable (Key Row : Type) := AList fun _ : Key => Row

namespace KeyedTable

variable {Key Row : Type} [DecidableEq Key]

theorem lookup_insert_eq (table : KeyedTable Key Row) (key other : Key) (row : Row) :
    (table.insert key row).lookup other = if other = key then some row else table.lookup other := by
  split
  · subst other
    exact table.lookup_insert
  · exact AList.lookup_insert_ne ‹_›

theorem lookup_erase_eq (table : KeyedTable Key Row) (key other : Key) :
    (table.erase key).lookup other = if other = key then none else table.lookup other := by
  split
  · subst other
    exact table.lookup_erase _
  · exact AList.lookup_erase_ne ‹_›

/-- The key is in the table when it has a row. -/
def Has (table : KeyedTable Key Row) (key : Key) : Prop := table.lookup key ≠ none

instance (table : KeyedTable Key Row) (key : Key) : Decidable (table.Has key) :=
  decidable_of_iff (table.lookup key).isSome (by simp [Has, Option.isSome_iff_ne_none])

theorem has_iff {table : KeyedTable Key Row} {key : Key} :
    table.Has key ↔ ∃ row, table.lookup key = some row := Option.ne_none_iff_exists'

theorem not_has_iff {table : KeyedTable Key Row} {key : Key} :
    ¬ table.Has key ↔ table.lookup key = none := not_not

theorem has_iff_mem_keys {table : KeyedTable Key Row} {key : Key} :
    table.Has key ↔ key ∈ table.keys := by
  rw [Has, ne_eq, AList.lookup_eq_none, not_not, AList.mem_keys]

/-- A key that is not in the table cannot be erased. -/
theorem erase_of_not_has {table : KeyedTable Key Row} {key : Key} (absent : ¬ table.Has key) :
    table.erase key = table := by
  apply AList.ext
  exact List.kerase_of_notMem_keys fun member => absent (has_iff_mem_keys.mpr member)

/-- A property of every key of the table can be tested. -/
instance (table : KeyedTable Key Row) (property : Key → Prop) [DecidablePred property] :
    Decidable (∀ key, table.Has key → property key) :=
  decidable_of_iff (∀ key ∈ table.keys, property key) (by simp only [has_iff_mem_keys])

/-- The table keeps its rows while each one moves to a new key; a clash moves no row. -/
def rekey (move : Key → Key) (table : KeyedTable Key Row) : Option (KeyedTable Key Row) :=
  let entries := table.entries.map fun entry => ⟨move entry.1, entry.2⟩
  if unique : entries.keys.Nodup then some ⟨entries, unique⟩ else none

omit [DecidableEq Key] in
theorem rekey_keys (move : Key → Key) (table : KeyedTable Key Row) :
    List.keys (table.entries.map fun entry => (⟨move entry.1, entry.2⟩ : Sigma fun _ : Key => Row)) =
      table.keys.map move := by
  simp [List.keys, AList.keys, List.map_map, Function.comp_def]

/-- The move succeeds exactly when no two keys clash. -/
theorem rekey_ne_none_iff (move : Key → Key) (table : KeyedTable Key Row) :
    table.rekey move ≠ none ↔
      ∀ first second, table.Has first → table.Has second → move first = move second →
        first = second := by
  have injective := List.nodup_map_iff_inj_on (f := move) table.keys_nodup
  simp only [rekey, rekey_keys, has_iff_mem_keys]
  split
  · rename_i unique
    simp only [ne_eq, reduceCtorEq, not_false_eq_true, true_iff]
    exact fun first second here there => injective.mp unique first here second there
  · rename_i clash
    simp only [ne_eq, not_true_eq_false, false_iff]
    intro apart
    exact clash (injective.mpr fun first here second there => apart first second here there)

/-- A row of the moved table comes from a row of the first one. -/
theorem rekey_lookup {move : Key → Key} {table moved : KeyedTable Key Row}
    (success : table.rekey move = some moved) (key : Key) (row : Row) :
    moved.lookup key = some row ↔ ∃ old, move old = key ∧ table.lookup old = some row := by
  simp only [rekey] at success
  split at success
  · obtain rfl := Option.some.inj success
    simp only [← Option.mem_def, AList.mem_lookup_iff, List.mem_map, Sigma.exists]
    constructor
    · rintro ⟨old, value, present, same⟩
      obtain ⟨rfl, rfl⟩ := Sigma.mk.inj same
      exact ⟨old, rfl, present⟩
    · rintro ⟨old, rfl, present⟩
      exact ⟨old, row, present, rfl⟩
  · cases success

/-- A move that fixes every key of the table changes nothing. -/
theorem rekey_of_fixed {move : Key → Key} {table : KeyedTable Key Row}
    (fixed : ∀ key, table.Has key → move key = key) : table.rekey move = some table := by
  have same : (table.entries.map fun entry => (⟨move entry.1, entry.2⟩ : Sigma fun _ : Key => Row)) =
      table.entries := by
    conv_rhs => rw [← List.map_id table.entries]
    apply List.map_congr_left
    intro entry member
    have present : entry.1 ∈ table.keys := List.mem_keys_of_mem member
    simp only [fixed entry.1 (has_iff_mem_keys.mpr present), id_eq]
  have unique : List.keys table.entries |>.Nodup := table.keys_nodup
  simp only [rekey, same, unique, dif_pos]

/-- A move that sends every key to a resting place and merges no two moved keys. -/
structure Slide (move : Key → Key) : Prop where
  rest : ∀ key, move (move key) = move key
  apart : ∀ first second, move first = move second →
    first = second ∨ move first = second ∨ first = move second

/-- A row meets another row that stands where it moves to. -/
def Clash (move : Key → Key) (table : KeyedTable Key Row) : Prop :=
  ∃ key, table.Has key ∧ move key ≠ key ∧ table.Has (move key)

theorem rekey_eq_none_iff {move : Key → Key} (slide : Slide move) (table : KeyedTable Key Row) :
    table.rekey move = none ↔ table.Clash move := by
  rw [← not_iff_not, ← ne_eq, rekey_ne_none_iff]
  constructor
  · rintro apart ⟨key, present, moves, occupied⟩
    exact moves (apart _ _ present occupied (slide.rest key).symm).symm
  · intro free first second here there same
    rcases slide.apart first second same with equal | inside | inside
    · exact equal
    · by_contra different
      exact free ⟨first, here, fun fixed => different (fixed.symm.trans inside), inside ▸ there⟩
    · by_contra different
      exact free ⟨second, there, fun fixed => different (inside.trans fixed), inside ▸ here⟩

/-- An UPDATE of the key applies to all rows or, after a clash, to none. -/
def slideTo (move : Key → Key) (table : KeyedTable Key Row) : KeyedTable Key Row :=
  (table.rekey move).getD table

theorem slideTo_of_clash {move : Key → Key} (slide : Slide move) {table : KeyedTable Key Row}
    (clash : table.Clash move) : table.slideTo move = table := by
  rw [slideTo, (rekey_eq_none_iff slide table).mpr clash, Option.getD_none]

theorem slideTo_of_fixed {move : Key → Key} {table : KeyedTable Key Row}
    (fixed : ∀ key, table.Has key → move key = key) : table.slideTo move = table := by
  rw [slideTo, rekey_of_fixed fixed, Option.getD_some]

theorem lookup_slideTo {move : Key → Key} (slide : Slide move) {table : KeyedTable Key Row}
    (free : ¬ table.Clash move) (key : Key) (row : Row) :
    (table.slideTo move).lookup key = some row ↔
      ∃ old, move old = key ∧ table.lookup old = some row := by
  obtain ⟨moved, success⟩ := Option.ne_none_iff_exists'.mp
    (mt (rekey_eq_none_iff slide table).mp free)
  rw [slideTo, success, Option.getD_some]
  exact rekey_lookup success key row

theorem has_slideTo {move : Key → Key} (slide : Slide move) {table : KeyedTable Key Row}
    (free : ¬ table.Clash move) (key : Key) :
    (table.slideTo move).Has key ↔ ∃ old, move old = key ∧ table.Has old := by
  simp only [has_iff, lookup_slideTo slide free]
  constructor
  · rintro ⟨row, old, rfl, present⟩
    exact ⟨old, rfl, row, present⟩
  · rintro ⟨old, rfl, row, present⟩
    exact ⟨row, old, rfl, present⟩

/-- A row that rests stays. -/
theorem lookup_slideTo_rests {move : Key → Key} (slide : Slide move) {table : KeyedTable Key Row}
    {key : Key} {row : Row} (rests : move key = key) (found : table.lookup key = some row) :
    (table.slideTo move).lookup key = some row := by
  by_cases clash : table.Clash move
  · rw [slideTo_of_clash slide clash]
    exact found
  · exact (lookup_slideTo slide clash key row).mpr ⟨key, rests, found⟩

/-- A resting place gets the row that moves there; `back` gives the place it comes from. -/
theorem lookup_slideTo_back {move : Key → Key} (slide : Slide move) (back : Key → Option Key)
    (moves : ∀ old key, back key = some old ↔ move old = key ∧ old ≠ key)
    {table : KeyedTable Key Row} (free : ¬ table.Clash move) (key : Key) :
    (table.slideTo move).lookup key =
      if move key = key then ((back key).bind table.lookup).or (table.lookup key) else none := by
  apply Option.ext
  intro row
  rw [lookup_slideTo slide free]
  split
  · rename_i rests
    rw [Option.or_eq_some_iff, Option.bind_eq_some_iff]
    constructor
    · rintro ⟨old, there, present⟩
      by_cases same : old = key
      · subst old
        refine .inr ⟨Option.bind_eq_none_iff.mpr fun origin from_origin => ?_, present⟩
        obtain ⟨arrives, different⟩ := (moves origin key).mp from_origin
        rw [← not_has_iff]
        intro occupied
        exact free ⟨origin, occupied, arrives ▸ Ne.symm different,
          arrives ▸ has_iff.mpr ⟨row, present⟩⟩
      · exact .inl ⟨old, (moves old key).mpr ⟨there, same⟩, present⟩
    · rintro (⟨old, from_old, present⟩ | ⟨-, present⟩)
      · exact ⟨old, ((moves old key).mp from_old).1, present⟩
      · exact ⟨key, rests, present⟩
  · rename_i leaves
    constructor
    · rintro ⟨old, rfl, -⟩
      exact absurd (slide.rest old) leaves
    · intro absurd
      cases absurd

section Alike

variable {move : Key → Key} {inside : Key → Prop} {table table' : KeyedTable Key Row}

/-- Two tables agree on the keys of interest. -/
def AlikeOn (inside : Key → Prop) (table table' : KeyedTable Key Row) : Prop :=
  ∀ key, inside key → table.lookup key = table'.lookup key

theorem AlikeOn.has (alike : AlikeOn inside table table') {key : Key} (here : inside key) :
    table.Has key ↔ table'.Has key := by
  rw [Has, Has, alike key here]

theorem AlikeOn.insert (alike : AlikeOn inside table table') (key : Key) (row : Row) :
    AlikeOn inside (table.insert key row) (table'.insert key row) := by
  intro other here
  rw [lookup_insert_eq, lookup_insert_eq, alike other here]

theorem AlikeOn.erase (alike : AlikeOn inside table table') (key : Key) :
    AlikeOn inside (table.erase key) (table'.erase key) := by
  intro other here
  rw [lookup_erase_eq, lookup_erase_eq, alike other here]

theorem alikeOn_insert {key : Key} (outside : ¬ inside key) (row : Row) :
    AlikeOn inside (table.insert key row) table := by
  intro other here
  rw [lookup_insert_eq, if_neg]
  rintro rfl
  exact outside here

theorem alikeOn_erase {key : Key} (outside : ¬ inside key) :
    AlikeOn inside (table.erase key) table := by
  intro other here
  rw [lookup_erase_eq, if_neg]
  rintro rfl
  exact outside here

/-- Rows that neither leave nor reach the keys of interest change nothing there. -/
theorem alikeOn_slideTo (slide : Slide move) (fixed : ∀ key, inside key → move key = key)
    (rests : ∀ key, inside (move key) → move key = key) :
    AlikeOn inside (table.slideTo move) table := by
  intro key here
  by_cases clash : table.Clash move
  · rw [slideTo_of_clash slide clash]
  · ext row
    rw [lookup_slideTo slide clash]
    constructor
    · rintro ⟨old, rfl, found⟩
      rwa [rests old here]
    · exact fun found => ⟨key, fixed key here, found⟩

/-- Only rows of interest move, and only to keys of interest. -/
structure MovesWithin (move : Key → Key) (inside : Key → Prop) : Prop where
  closed : ∀ key, inside (move key) → inside key
  moved : ∀ key, move key ≠ key → inside key ∧ inside (move key)

theorem AlikeOn.clash_of (alike : AlikeOn inside table table') (small : MovesWithin move inside)
    (clash : table.Clash move) : table'.Clash move := by
  obtain ⟨key, present, moves, occupied⟩ := clash
  obtain ⟨here, there⟩ := small.moved key moves
  exact ⟨key, (alike.has here).mp present, moves, (alike.has there).mp occupied⟩

theorem AlikeOn.symm (alike : AlikeOn inside table table') : AlikeOn inside table' table :=
  fun key here => (alike key here).symm

theorem AlikeOn.clash_iff (alike : AlikeOn inside table table') (small : MovesWithin move inside) :
    table.Clash move ↔ table'.Clash move :=
  ⟨alike.clash_of small, alike.symm.clash_of small⟩

/-- Tables that agree still do after the same update. -/
theorem AlikeOn.slideTo (alike : AlikeOn inside table table') (small : MovesWithin move inside)
    (slide : Slide move) : AlikeOn inside (table.slideTo move) (table'.slideTo move) := by
  intro key here
  by_cases clash : table.Clash move
  · rw [slideTo_of_clash slide clash, slideTo_of_clash slide ((alike.clash_iff small).mp clash)]
    exact alike key here
  · have free := mt (alike.clash_iff small).mpr clash
    ext row
    rw [lookup_slideTo slide clash, lookup_slideTo slide free]
    apply exists_congr
    intro old
    apply and_congr_right
    rintro rfl
    rw [alike old (small.closed old here)]

end Alike

/-- The update changes a table exactly when some row moves and none clashes. -/
theorem slideTo_eq_self_iff {move : Key → Key} (slide : Slide move) (table : KeyedTable Key Row) :
    table.slideTo move = table ↔ (∀ key, table.Has key → move key = key) ∨ table.Clash move := by
  constructor
  · intro same
    by_cases clash : table.Clash move
    · exact .inr clash
    · left
      intro key present
      rw [← same, has_slideTo slide clash] at present
      obtain ⟨old, rfl, -⟩ := present
      exact slide.rest old
  · rintro (fixed | clash)
    · exact slideTo_of_fixed fixed
    · exact slideTo_of_clash slide clash

end KeyedTable

end Ndnfs
