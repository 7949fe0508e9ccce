import Mathlib
import CampusQuery.Grouping
import CampusQuery.Proofs.Distinct

/-!
# Which groups there are

`groupRows_eq` says without a table what the groups are: for every group key, in the order in which
the keys first appear, the rows with that key in their order. It goes by the invariant `Groups.Of`,
which tells the groups of the rows seen so far and which one more row keeps (`Of.insert`).

`get?_collapse_field` and `get?_collapse_apply` are the cells of the row that a group becomes.
-/

namespace CampusQuery

/-- The groups of the rows seen so far, with the latest of them first. -/
structure Groups.Of (fields : List String) (seen : List Row) (groups : Groups) : Prop where
  keys : groups.keys.reverse = (seen.map (Row.groupKey fields)).eraseDups
  members : ∀ key, groups.members[key]? =
    if key ∈ seen.map (Row.groupKey fields) then
      some (seen.filter (Row.groupKey fields · = key)).reverse
    else none

theorem Groups.of_empty (fields : List String) : Groups.Of fields [] Groups.empty where
  keys := rfl
  members := by simp [empty]

theorem Groups.Of.insert {fields : List String} {seen : List Row} {groups : Groups}
    (h : groups.Of fields seen) (row : Row) :
    (groups.insert (row.groupKey fields) row).Of fields (seen ++ [row]) := by
  have found := h.members (row.groupKey fields)
  have keys := eraseDups_concat (seen.map (Row.groupKey fields)) (row.groupKey fields)
  have others {rows : List Row} {key : GroupKey} (other : row.groupKey fields ≠ key) :
      (groups.members.insert (row.groupKey fields) rows)[key]? =
        if key ∈ (seen ++ [row]).map (Row.groupKey fields) then
          some ((seen ++ [row]).filter (Row.groupKey fields · = key)).reverse
        else none := by
    simp [Std.ExtTreeMap.getElem?_insert, other, h.members key, Ne.symm other]
  unfold Groups.insert
  split
  · rename_i rows hr
    rw [hr] at found
    split at found
    · rename_i old
      rw [if_pos old] at keys
      refine ⟨by simp [h.keys, keys], fun key => ?_⟩
      by_cases same : row.groupKey fields = key
      · subst same
        simp [Option.some.inj found]
      · exact others same
    · cases found
  · rename_i hr
    rw [hr] at found
    split at found
    · cases found
    · rename_i fresh
      rw [if_neg fresh] at keys
      refine ⟨by simp [h.keys, keys], fun key => ?_⟩
      by_cases same : row.groupKey fields = key
      · subst same
        have none : seen.filter (Row.groupKey fields · = row.groupKey fields) = [] := by
          simpa using fresh
        simp [none]
      · exact others same

theorem Groups.Of.foldl_insert {fields : List String} {seen : List Row} {groups : Groups}
    (h : groups.Of fields seen) (rows : List Row) :
    (rows.foldl (fun groups row => groups.insert (row.groupKey fields) row) groups).Of fields
      (seen ++ rows) := by
  induction rows generalizing seen groups with
  | nil => simpa using h
  | cons row rows ih => simpa using ih (h.insert row)

/-- The groups are the rows with each group key, the keys in the order in which they first come. -/
theorem groupRows_eq (fields : List String) (rows : List Row) :
    groupRows fields rows = (rows.map (Row.groupKey fields)).eraseDups.map fun key =>
      rows.filter (Row.groupKey fields · = key) := by
  have h := (Groups.of_empty fields).foldl_insert rows
  rw [List.nil_append] at h
  rw [groupRows, Groups.toLists, h.keys]
  refine List.map_congr_left fun key mem => ?_
  rw [Std.ExtTreeMap.getD_eq_getD_getElem?, h.members key, if_pos (List.mem_eraseDups.mp mem),
    Option.getD_some, List.reverse_reverse]

theorem mem_groupRows {fields : List String} {rows members : List Row} :
    members ∈ groupRows fields rows ↔
      ∃ row ∈ rows, rows.filter (Row.groupKey fields · = row.groupKey fields) = members := by
  simp [groupRows_eq]

theorem ne_nil_of_mem_groupRows {fields : List String} {rows members : List Row}
    (h : members ∈ groupRows fields rows) : members ≠ [] := by
  obtain ⟨row, hr, rfl⟩ := mem_groupRows.mp h
  exact List.ne_nil_of_mem (List.mem_filter.mpr ⟨hr, by simp⟩)

theorem mem_of_mem_groupRows {fields : List String} {rows members : List Row}
    (h : members ∈ groupRows fields rows) {row : Row} (hr : row ∈ members) : row ∈ rows := by
  obtain ⟨_, _, rfl⟩ := mem_groupRows.mp h
  exact List.mem_of_mem_filter hr

theorem Row.restrict_concat (row : Row) (fields : List String) (field : String) :
    row.restrict (fields ++ [field]) =
      match row[field]? with
      | some cell => (row.restrict fields).insert field cell
      | none => row.restrict fields := by
  rw [restrict, List.foldl_append]
  rfl

theorem Row.getElem?_restrict (row : Row) (fields : List String) (name : String) :
    (row.restrict fields)[name]? = if name ∈ fields then row[name]? else none := by
  induction fields using List.reverseRecOn with
  | nil => simp [restrict]
  | append_singleton fields field ih =>
    rw [restrict_concat]
    by_cases same : name = field
    · subst same
      cases hc : row[name]? with
      | none => simp [ih, hc]
      | some cell => simp
    · cases row[field]? <;> simp [Std.ExtTreeMap.getElem?_insert, ih, same, Ne.symm same]

/-- The cells that rules are given, the last one under each key. -/
theorem getElem?_foldl_insert (rules : List ApplyRule) (value : ApplyRule → Cell) (key : String) :
    (rules.foldl (fun results rule => results.insert rule.key (value rule)) (∅ : Row))[key]? =
      (rules.reverse.find? (·.key = key)).map value := by
  induction rules using List.reverseRecOn with
  | nil => simp
  | append_singleton rules rule ih =>
    rw [List.foldl_append, List.reverse_append]
    by_cases same : rule.key = key
    · simp [same]
    · simp [Std.ExtTreeMap.getElem?_insert, same, ih]

namespace Transformation

/-- A group row has the cells of its first member in the group fields. -/
theorem get?_collapse_field (t : Transformation) (row : Row) (members : List Row) (name : String) :
    (t.collapse (row :: members)).get? (.field name) =
      if name ∈ t.group then row[name]? else none :=
  row.getElem?_restrict t.group name

/-- A group row has the values of the rules on its members. -/
theorem get?_collapse_apply (t : Transformation) (members : List Row) (key : String) :
    (t.collapse members).get? (.apply key) =
      (t.rules.reverse.find? (·.key = key)).map (·.eval members) :=
  getElem?_foldl_insert t.rules (·.eval members) key

end Transformation

end CampusQuery
