import WideColumn.Proofs.KeySplits

/-!
# Clustering orders, position by position

An order lists the clustering columns with their directions.  It is checked entry by entry, and the
entry at a position is held against the clustering column at the same position.  Nothing compares
the two lengths beforehand: that there is a column at every position looked at follows from the
entries before it, which named as many different clustering columns.

* `checkPositions?`, `directionsByPosition?` — the check as a loop over positions, which has no
  result where it looks past the last clustering column;
* `Passed` — what the entries that the loop has passed leave behind: `Passed.lt_length` is the
  counting argument, `Passed.next` the step;
* `checkPositions?_of_passed` — from there on the loop goes like the check by recursion;
* `clusteringDirections_exact` — **no position is outside of the clustering columns**, and the
  directions are found if and only if the order is empty or lists the clustering columns, which are
  apart then.
-/

namespace WideColumn

open Effects

namespace TableDefinition

/-! ### The check as a loop over positions -/

/-- Holds the entries against the clustering columns from a position on; `named` are the columns of
the entries before.  There is no result where the position is outside of the clustering columns. -/
def checkPositions? (clustering : List String) :
    (position : Nat) → (named : List String) → List OrderEntry → Option (Except SchemaError Unit)
  | _, _, [] => some (.ok ())
  | position, named, entry :: rest =>
    if entry.column ∉ clustering then some (.error (.orderOnNonClusteringColumn entry.column))
    else if entry.column ∈ named then some (.error (.repeatedClusteringOrder entry.column))
    else clustering[position]?.bind fun column =>
      if column = entry.column then
        checkPositions? clustering (position + 1) (entry.column :: named) rest
      else some (.error (.clusteringOrderMismatch column entry.column))

/-- Refuses an order of `count` entries if there are more clustering columns. -/
def checkCount (clustering : List String) (count : Nat) : Except SchemaError Unit :=
  match clustering[count]? with
  | some missing => .error (.missingClusteringOrder missing)
  | none => .ok ()

/-- The direction of each clustering column, found position by position. -/
def directionsByPosition? (d : TableDefinition) : Option (Except SchemaError (List Direction)) :=
  if d.clusteringOrder.isEmpty then some (.ok (List.replicate d.clusteringColumns.length .asc))
  else (checkPositions? d.clusteringColumns 0 [] d.clusteringOrder).map fun checked => do
    checked
    checkCount d.clusteringColumns d.clusteringOrder.length
    return d.clusteringOrder.map (·.direction)

/-! ### Entries that were passed -/

/-- The entries before a position named different clustering columns. -/
structure Passed (clustering named : List String) (position : Nat) : Prop where
  apart : named.Nodup
  known : ∀ column ∈ named, column ∈ clustering
  count : named.length = position

namespace Passed

variable {clustering named : List String} {position : Nat} {column : String}

theorem start (clustering : List String) : Passed clustering [] 0 := ⟨List.nodup_nil, nofun, rfl⟩

/-- An entry that names another clustering column is passed, too. -/
theorem next (h : Passed clustering named position) (hknown : column ∈ clustering)
    (hnew : column ∉ named) : Passed clustering (column :: named) (position + 1) where
  apart := List.nodup_cons.2 ⟨hnew, h.apart⟩
  known := List.forall_mem_cons.2 ⟨hknown, h.known⟩
  count := congrArg (· + 1) h.count

/-- **There is a column left** for an entry that names another clustering column: those that were
named and this one are different, and all of them are clustering columns. -/
theorem lt_length (h : Passed clustering named position) (hknown : column ∈ clustering)
    (hnew : column ∉ named) : position < clustering.length := by
  have hmore := h.next hknown hnew
  have hlength : (column :: named).length ≤ clustering.length :=
    hmore.apart.length_le_of_subset hmore.known
  rw [hmore.count] at hlength
  exact hlength

end Passed

/-- Where the entries end, the check looks for a clustering column without one. -/
theorem checkOrder_nil (clustering named : List String) (position : Nat) :
    checkOrder clustering (clustering.drop position) named [] = checkCount clustering position := by
  have hfirst : (clustering.drop position).head? = clustering[position]? := List.head?_drop
  unfold checkCount
  rw [← hfirst]
  cases clustering.drop position <;> rfl

/-- **The loop goes like the check by recursion**, and has a result, wherever the entries before were
passed. -/
theorem checkPositions?_of_passed {clustering named : List String} {position : Nat}
    (h : Passed clustering named position) (entries : List OrderEntry) :
    (checkPositions? clustering position named entries).map
        (fun checked => do checked; checkCount clustering (position + entries.length)) =
      some (checkOrder clustering (clustering.drop position) named entries) := by
  induction entries generalizing position named with
  | nil =>
    rw [checkOrder_nil]
    rfl
  | cons entry rest ih =>
    rw [checkPositions?]
    by_cases hforeign : entry.column ∉ clustering
    · have hrefused : checkOrder clustering (clustering.drop position) named (entry :: rest) =
          .error (.orderOnNonClusteringColumn entry.column) := by
        cases clustering.drop position <;> exact if_pos hforeign
      rw [if_pos hforeign, hrefused]
      rfl
    rw [if_neg hforeign]
    by_cases hnamed : entry.column ∈ named
    · have hrefused : checkOrder clustering (clustering.drop position) named (entry :: rest) =
          .error (.repeatedClusteringOrder entry.column) := by
        cases clustering.drop position <;> exact (if_neg hforeign).trans (if_pos hnamed)
      rw [if_pos hnamed, hrefused]
      rfl
    have hknown : entry.column ∈ clustering := Decidable.not_not.1 hforeign
    have hlt := h.lt_length hknown hnamed
    rw [if_neg hnamed, List.getElem?_eq_getElem hlt, Option.bind_some,
      List.drop_eq_getElem_cons hlt, checkOrder, if_neg hforeign, if_neg hnamed]
    split
    · rw [← ih (h.next hknown hnamed), List.length_cons, Nat.add_right_comm, Nat.add_assoc]
    · rfl

/-- The loop has a result, the one of the check by recursion. -/
theorem directionsByPosition?_eq (d : TableDefinition) :
    d.directionsByPosition? = some d.clusteringDirections := by
  have hall := checkPositions?_of_passed (Passed.start d.clusteringColumns) d.clusteringOrder
  rw [List.drop_zero, Nat.zero_add] at hall
  unfold directionsByPosition? clusteringDirections
  split
  · rw [List.map_const']
  · obtain ⟨checked, hchecked, hsame⟩ := Option.map_eq_some_iff.1 hall
    rw [hchecked, ← hsame]
    cases checked <;> rfl

/-! ### Directions -/

/-- **The directions of the clustering columns.**  Whatever an order lists, no position is looked at
that is outside of the clustering columns.  The directions are found if and only if the order is
empty, and then all of them are ascending, or if its columns are the clustering columns in turn,
none of which is repeated, and then each column has the direction at its position. -/
theorem clusteringDirections_exact (d : TableDefinition) :
    d.directionsByPosition? = some d.clusteringDirections ∧
    ∀ directions : List Direction, d.clusteringDirections = .ok directions ↔
      d.clusteringOrder = [] ∧ directions = List.replicate d.clusteringColumns.length .asc ∨
        d.clusteringOrder.map (·.column) = d.clusteringColumns ∧ d.clusteringColumns.Nodup ∧
          directions = d.clusteringOrder.map (·.direction) ∧
          directions.length = d.clusteringColumns.length := by
  refine ⟨d.directionsByPosition?_eq, fun directions => ?_⟩
  have hlength (horder : d.clusteringOrder.map (·.column) = d.clusteringColumns) :
      (d.clusteringOrder.map (·.direction)).length = d.clusteringColumns.length := by
    rw [← horder, List.length_map, List.length_map]
  cases hempty : d.clusteringOrder.isEmpty with
  | true =>
    have hnone : d.clusteringOrder = [] := List.isEmpty_iff.1 hempty
    have hfound : d.clusteringDirections =
        .ok (List.replicate d.clusteringColumns.length .asc) := by
      rw [clusteringDirections, if_pos hempty, List.map_const']
    rw [hfound, Except.ok.injEq]
    constructor
    · exact fun h => .inl ⟨hnone, h.symm⟩
    · rintro (⟨-, rfl⟩ | ⟨horder, -, rfl, -⟩)
      · rfl
      · rw [← horder, hnone]
        rfl
  | false =>
    have hsome : d.clusteringOrder ≠ [] := fun hnone => by simp [hnone] at hempty
    rw [clusteringDirections, if_neg (by simp [hempty]), except_bind_eq_ok]
    constructor
    · rintro ⟨⟨⟩, hchecked, h⟩
      cases h
      obtain ⟨horder, hnodup⟩ := checkOrder_all_eq_ok_iff.1 hchecked
      exact .inr ⟨horder, hnodup, rfl, hlength horder⟩
    · rintro (⟨hnone, -⟩ | ⟨horder, hnodup, rfl, -⟩)
      · exact absurd hnone hsome
      · exact ⟨(), checkOrder_all_eq_ok_iff.2 ⟨horder, hnodup⟩, rfl⟩

/-- Clustering columns that repeat a name have no order but the empty one: the second entry of the
name is refused at its position. -/
example : (⟨"tides", "levels", [], [], ["harbour", "harbour"],
      [⟨"harbour", .asc⟩, ⟨"harbour", .desc⟩], false, {}⟩ : TableDefinition).directionsByPosition? =
    some (.error (.repeatedClusteringOrder "harbour")) := by
  decide

end TableDefinition

end WideColumn
