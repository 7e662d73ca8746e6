import Mathlib.Data.List.Nodup
import NameMigration.Proofs.UnitContext

/-!
The renames of a mapping by package, as they come out of hash maps. A program that keeps the flat and
the nested renames in two hash maps goes through them in an order of the maps' own; it puts each flat
rename into the group of its package and sorts what it has collected. Whatever the order, the groups
and the sorted nested renames are those of the mapping.
-/

namespace NameMigration

/-! ### Two hash maps -/

/-- The values of two hash maps that have taken up the entries of some lines one after the other, in
any order that the maps may have. An entry takes the place of an earlier one for its name, and takes
the name out of the other map. -/
inductive HashedFrom : List Text → List Rename → List Rename → Prop
  | empty : HashedFrom [] [] []
  | reordered {lines : List Text} {flat nested otherFlat otherNested : List Rename} :
      HashedFrom lines flat nested → otherFlat.Perm flat → otherNested.Perm nested →
        HashedFrom lines otherFlat otherNested
  | other {lines : List Text} {flat nested : List Rename} (line : Text) :
      HashedFrom lines flat nested → MappingLine.acceptedEntry? line = none →
        HashedFrom (lines ++ [line]) flat nested
  | flat {lines : List Text} {flat nested : List Rename} (line : Text) (rename : Rename) :
      HashedFrom lines flat nested → MappingLine.acceptedEntry? line = some rename →
        rename.isNested = false →
          HashedFrom (lines ++ [line]) (rename :: flat.filter (·.key ≠ rename.key))
            (nested.filter (·.key ≠ rename.key))
  | nested {lines : List Text} {flat nested : List Rename} (line : Text) (rename : Rename) :
      HashedFrom lines flat nested → MappingLine.acceptedEntry? line = some rename →
        rename.isNested = true →
          HashedFrom (lines ++ [line]) (flat.filter (·.key ≠ rename.key))
            (rename :: nested.filter (·.key ≠ rename.key))

theorem Mapping.renames_addLine (mapping : Mapping) (line : Text) :
    (mapping.addLine line).renames =
      match MappingLine.acceptedEntry? line with
      | some rename => Keyed.put Rename.key rename mapping.renames
      | none => mapping.renames := by
  unfold addLine MappingLine.acceptedEntry?
  rw [MappingLine.ofText_eq]
  by_cases isEntry : MappingLine.isEntryLine line = true
  · cases Rename.ofEntry? line.trim <;> simp [isEntry]
  · simp [isEntry]

namespace HashedFrom

variable {lines : List Text} {flat nested : List Rename}

theorem filter_put_perm {renames found : List Rename} (rename : Rename) (kept : Rename → Bool)
    (ordered : Rename.Ordered renames) (perm : found.Perm (renames.filter kept)) :
    ((if kept rename then [rename] else []) ++ found.filter (·.key ≠ rename.key)).Perm
      ((Keyed.put Rename.key rename renames).filter kept) := by
  have inserted := (ordered.put_perm rename).filter kept
  have others : (renames.filter (·.key ≠ rename.key)).filter kept =
      (renames.filter kept).filter (·.key ≠ rename.key) := List.filter_comm ..
  refine List.Perm.trans ?_ inserted.symm
  cases isKept : kept rename with
  | true =>
      rw [if_pos rfl, List.filter_cons_of_pos isKept, others]
      exact (perm.filter _).cons rename
  | false =>
      rw [if_neg (by decide), List.filter_cons_of_neg (by simp [isKept]), others]
      exact perm.filter _

theorem perm_addLine {mapping : Mapping} {line : Text} {rename : Rename}
    (isEntry : MappingLine.acceptedEntry? line = some rename)
    (perm : flat.Perm mapping.flat ∧ nested.Perm mapping.nested) :
    ((if !rename.isNested then [rename] else []) ++ flat.filter (·.key ≠ rename.key)).Perm
        (mapping.addLine line).flat ∧
      ((if rename.isNested then [rename] else []) ++ nested.filter (·.key ≠ rename.key)).Perm
        (mapping.addLine line).nested := by
  rw [Mapping.flat, Mapping.nested, Mapping.renames_addLine, isEntry]
  exact ⟨filter_put_perm rename (!·.isNested) mapping.ordered perm.1,
    filter_put_perm rename (·.isNested) mapping.ordered perm.2⟩

theorem perm (made : HashedFrom lines flat nested) :
    flat.Perm (Mapping.ofLines lines).flat ∧ nested.Perm (Mapping.ofLines lines).nested := by
  induction made with
  | empty => exact ⟨List.Perm.nil, List.Perm.nil⟩
  | reordered _ sameFlat sameNested ih => exact ⟨sameFlat.trans ih.1, sameNested.trans ih.2⟩
  | other _ _ noEntry ih =>
      simpa only [Mapping.flat, Mapping.nested, Mapping.ofLines_concat, Mapping.renames_addLine,
        noEntry] using ih
  | flat _ _ _ isEntry isFlat ih =>
      have after := perm_addLine isEntry ih
      rw [isFlat] at after
      rw [Mapping.ofLines_concat]
      exact after
  | nested _ _ _ isEntry isNested ih =>
      have after := perm_addLine isEntry ih
      rw [isNested] at after
      rw [Mapping.ofLines_concat]
      exact after

theorem ofLines (lines : List Text) :
    HashedFrom lines (Mapping.ofLines lines).flat (Mapping.ofLines lines).nested := by
  induction lines using List.reverseRecOn with
  | nil => exact .empty
  | append_singleton lines line ih =>
      rw [Mapping.ofLines_concat]
      cases isEntry : MappingLine.acceptedEntry? line with
      | none =>
          have same := Mapping.renames_addLine (Mapping.ofLines lines) line
          rw [isEntry] at same
          simpa only [Mapping.flat, Mapping.nested, same] using ih.other line isEntry
      | some rename =>
          have after := perm_addLine isEntry ih.perm
          cases isNested : rename.isNested with
          | false =>
              rw [isNested] at after
              exact (ih.flat line rename isEntry isNested).reordered after.1.symm after.2.symm
          | true =>
              rw [isNested] at after
              exact (ih.nested line rename isEntry isNested).reordered after.1.symm after.2.symm

/-- The histories of the maps leave no trace but the order, and every order has a history. -/
theorem iff_perm : HashedFrom lines flat nested ↔
    flat.Perm (Mapping.ofLines lines).flat ∧ nested.Perm (Mapping.ofLines lines).nested :=
  ⟨perm, fun same => (ofLines lines).reordered same.1 same.2⟩

end HashedFrom

/-! ### Sorting by name -/

namespace Rename

def byKey (renames : List Rename) : List Rename :=
  renames.mergeSort fun first second => !decide (second.key < first.key)

theorem byKey_perm (renames : List Rename) : (byKey renames).Perm renames :=
  List.mergeSort_perm _ _

/-- No two renames of a mapping have one name, so their order by name is known. -/
theorem byKey_eq_of_perm {renames found : List Rename} (ordered : Rename.Ordered renames)
    (perm : found.Perm renames) : byKey found = renames := by
  have sorted : (byKey found).Pairwise fun first second => ¬second.key < first.key := by
    refine (List.pairwise_mergeSort ?_ ?_ found).imp (fun before => by simpa using before)
    · intro first second third before after
      simp only [Bool.not_eq_true', decide_eq_false_iff_not] at *
      exact List.le_trans before after
    · intro first second
      simp only [Bool.or_eq_true, Bool.not_eq_true', decide_eq_false_iff_not]
      exact List.le_total first.key second.key
  have increasing : renames.Pairwise fun first second => ¬second.key < first.key :=
    ordered.imp fun before after => List.lt_irrefl _ (List.lt_trans before after)
  have samePerm := (byKey_perm found).trans perm
  refine samePerm.eq_of_pairwise ?_ sorted increasing
  intro first second isFound isSecond before after
  have same : first.key = second.key := List.le_antisymm before after
  have foundFirst := ordered.find?_of_mem (samePerm.mem_iff.mp isFound)
  rw [same, ordered.find?_of_mem isSecond] at foundFirst
  exact (Option.some.inj foundFirst).symm

end Rename

/-! ### Groups -/

theorem Text.eq_of_increasing {first second : List Text} (increasing : first.Pairwise (· < ·))
    (otherIncreasing : second.Pairwise (· < ·)) (same : ∀ text, text ∈ first ↔ text ∈ second) :
    first = second := by
  have inOrder : Keyed.Increasing id first := increasing
  exact inOrder.eq_of_mem_iff otherIncreasing same

abbrev PackageIndex := List (Text × List Rename)

namespace PackageIndex

variable {index : PackageIndex} {rename : Rename} {renames : List Rename} {package : Text}

def grow (rename : Rename) (group : Text × List Rename) : Text × List Rename :=
  (group.1, group.2 ++ [rename])

def push (rename : Rename) : PackageIndex → PackageIndex :=
  Keyed.insert Prod.fst (grow rename) (rename.legacy.qualifier, [rename])

/-- The index of some renames that come one by one, each group sorted at the end. -/
def ofRenames (renames : List Rename) : PackageIndex :=
  (renames.foldl (fun index rename => push rename index) []).map fun group =>
    (group.1, Rename.byKey group.2)

def under (index : PackageIndex) (package : Text) : List Rename :=
  ((index.find? (·.1 = package)).map (·.2)).getD []

theorem under_eq_nil (absent : ∀ group ∈ index, group.1 ≠ package) : index.under package = [] := by
  have notFound : index.find? (·.1 = package) = none := by
    simpa using absent
  rw [under, notFound]
  rfl

abbrev Increasing : (index : PackageIndex) → Prop :=
  Keyed.Increasing Prod.fst

theorem under_of_mem {group : Text × List Rename} (increasing : Increasing index)
    (member : group ∈ index) : index.under group.1 = group.2 := by
  rw [under, increasing.find?_of_mem member]
  rfl

/-! #### One rename more -/

theorem grow_keeps (rename : Rename) (group : Text × List Rename)
    (same : group.1 = rename.legacy.qualifier) : (grow rename group).1 = rename.legacy.qualifier :=
  same

theorem increasing_push (rename : Rename) (increasing : Increasing index) :
    Increasing (push rename index) :=
  increasing.insert (grow_keeps rename)

theorem nonempty_push (increasing : Increasing index) (nonempty : ∀ group ∈ index, group.2 ≠ []) :
    ∀ group ∈ push rename index, group.2 ≠ [] := by
  intro group member
  rcases (increasing.mem_insert_iff (grow_keeps rename)).mp member with ⟨-, old⟩ | rfl
  · exact nonempty group old
  · cases index.find? (·.1 = rename.legacy.qualifier) <;> simp [grow]

theorem under_push (increasing : Increasing index) (rename : Rename) (package : Text) :
    (push rename index).under package =
      index.under package ++ if rename.legacy.qualifier = package then [rename] else [] := by
  rw [under, push, increasing.find?_insert (grow_keeps rename), under]
  by_cases isNew : rename.legacy.qualifier = package
  · rw [if_pos isNew, if_pos isNew]
    cases index.find? (·.1 = package) <;> rfl
  · rw [if_neg isNew, if_neg isNew, List.append_nil]

/-! #### All renames -/

structure Groups (renames : List Rename) (index : PackageIndex) : Prop where
  increasing : Increasing index
  nonempty : ∀ group ∈ index, group.2 ≠ []
  under_eq : ∀ package, index.under package = renames.filter (·.legacy.qualifier = package)

theorem Groups.push (rename : Rename) (groups : Groups renames index) :
    Groups (renames ++ [rename]) (push rename index) where
  increasing := increasing_push rename groups.increasing
  nonempty := nonempty_push groups.increasing groups.nonempty
  under_eq package := by
    rw [under_push groups.increasing, groups.under_eq, List.filter_append, List.filter_singleton]
    congr 1
    by_cases here : rename.legacy.qualifier = package <;> simp [here]

theorem groups_foldl (renames : List Rename) :
    Groups renames (renames.foldl (fun index rename => PackageIndex.push rename index) []) := by
  induction renames using List.reverseRecOn with
  | nil => exact ⟨List.Pairwise.nil, by simp, fun _ => rfl⟩
  | append_singleton renames rename ih =>
      rw [List.foldl_append]
      exact ih.push rename

theorem Groups.group_eq {group : Text × List Rename} (groups : Groups renames index)
    (member : group ∈ index) : renames.filter (·.legacy.qualifier = group.1) = group.2 := by
  rw [← groups.under_eq, under_of_mem groups.increasing member]

theorem Groups.names_eq (groups : Groups renames index) :
    index.map (·.1) = Text.ordered (renames.map (·.legacy.qualifier)) := by
  have increasing : (index.map (·.1)).Pairwise (· < ·) := List.pairwise_map.mpr groups.increasing
  refine Text.eq_of_increasing increasing (Text.ordered_pairwise _) ?_
  intro package
  rw [Text.mem_ordered, List.mem_map, List.mem_map]
  constructor
  · rintro ⟨group, member, rfl⟩
    obtain ⟨rename, inGroup⟩ := List.exists_mem_of_ne_nil _ (groups.nonempty group member)
    rw [← groups.group_eq member] at inGroup
    exact ⟨rename, by simpa using inGroup⟩
  · rintro ⟨rename, member, rfl⟩
    by_contra absent
    have noGroup : index.under rename.legacy.qualifier = [] :=
      under_eq_nil fun group inIndex same => absent ⟨group, inIndex, same⟩
    rw [groups.under_eq, List.filter_eq_nil_iff] at noGroup
    exact noGroup rename member (by simp)

/-- An index is known by the renames it groups. -/
theorem Groups.eq (groups : Groups renames index) :
    index = (Text.ordered (renames.map (·.legacy.qualifier))).map fun package =>
      (package, renames.filter (·.legacy.qualifier = package)) := by
  rw [← groups.names_eq, List.map_map]
  refine (List.map_id index).symm.trans (List.map_congr_left ?_)
  intro group member
  exact Prod.ext rfl (groups.group_eq member).symm

/-- The index of some renames: a group for each of their packages, in the order of the packages, with
the renames of the package in the order of their names. -/
structure IsIndexOf (renames : List Rename) (index : PackageIndex) : Prop where
  increasing : Increasing index
  nonempty : ∀ group ∈ index, group.2 ≠ []
  ofPackage : ∀ group ∈ index, ∀ rename ∈ group.2, rename.legacy.qualifier = group.1
  ordered : ∀ group ∈ index, Rename.Ordered group.2
  once : ∀ rename, (index.flatMap (·.2)).count rename = if rename ∈ renames then 1 else 0
  under_of_mem : ∀ group ∈ index, index.under group.1 = group.2
  under_of_absent : ∀ package, (∀ group ∈ index, group.1 ≠ package) → index.under package = []

end PackageIndex

theorem count_eq_ite_of_nodup {found renames : List Rename} (distinct : found.Nodup)
    (same : ∀ rename, rename ∈ found ↔ rename ∈ renames) (rename : Rename) :
    found.count rename = if rename ∈ renames then 1 else 0 := by
  by_cases member : rename ∈ renames
  · rw [if_pos member, List.count_eq_one_of_mem distinct ((same rename).mpr member)]
  · rw [if_neg member, List.count_eq_zero.mpr (fun isFound => member ((same rename).mp isFound))]

namespace Mapping

def packageIndex (mapping : Mapping) : PackageIndex :=
  mapping.packages.map fun package => (package, mapping.inPackage package)

theorem packageIndex_increasing (mapping : Mapping) : PackageIndex.Increasing mapping.packageIndex :=
  List.pairwise_map.mpr (Text.ordered_pairwise _)

theorem packageIndex_isIndexOf (mapping : Mapping) :
    mapping.packageIndex.IsIndexOf mapping.flat where
  increasing := mapping.packageIndex_increasing
  nonempty := by
    simp only [packageIndex, List.forall_mem_map]
    intro package isPackage
    obtain ⟨rename, inFlat, named⟩ := List.mem_map.mp (Text.mem_ordered.mp isPackage)
    exact List.ne_nil_of_mem (mem_inPackage_iff.mpr ⟨inFlat, named⟩)
  ofPackage := by
    simp only [packageIndex, List.forall_mem_map]
    exact fun _ _ _ member => (mem_inPackage_iff.mp member).2
  ordered := by
    simp only [packageIndex, List.forall_mem_map]
    exact fun package _ => mapping.inPackage_ordered package
  once := by
    refine count_eq_ite_of_nodup ?_ ?_
    · rw [packageIndex, List.flatMap_map, List.nodup_flatMap]
      refine ⟨fun package _ => (mapping.inPackage_ordered package).nodup, ?_⟩
      refine (Text.ordered_pairwise _).imp ?_
      intro first second before rename inFirst inSecond
      have same := (mem_inPackage_iff.mp inFirst).2.symm.trans (mem_inPackage_iff.mp inSecond).2
      exact List.lt_irrefl _ (same ▸ before)
    · intro rename
      simp only [packageIndex, List.flatMap_map, List.mem_flatMap, mem_inPackage_iff]
      constructor
      · rintro ⟨_, _, inFlat, _⟩
        exact inFlat
      · intro inFlat
        exact ⟨_, mem_packages_of_mem_flat inFlat, inFlat, rfl⟩
  under_of_mem _ member := PackageIndex.under_of_mem mapping.packageIndex_increasing member
  under_of_absent _ absent := PackageIndex.under_eq_nil absent

theorem ofRenames_eq_packageIndex {mapping : Mapping} {found : List Rename}
    (perm : found.Perm mapping.flat) : PackageIndex.ofRenames found = mapping.packageIndex := by
  have samePackages : Text.ordered (found.map (·.legacy.qualifier)) = mapping.packages := by
    refine Text.eq_of_increasing (Text.ordered_pairwise _) (Text.ordered_pairwise _) ?_
    intro package
    rw [Mapping.packages, Text.mem_ordered, Text.mem_ordered]
    exact (perm.map _).mem_iff
  rw [PackageIndex.ofRenames, (PackageIndex.groups_foldl found).eq, List.map_map, samePackages]
  refine List.map_congr_left ?_
  intro package _
  exact Prod.ext rfl (Rename.byKey_eq_of_perm (mapping.inPackage_ordered package) (perm.filter _))

end Mapping

/-- Whatever order the hash maps have, the index of their renames and the order of the nested ones are
those of the mapping, and each rename stands at one place. -/
theorem indices_of_hashedFrom {lines : List Text} {flat nested : List Rename}
    (made : HashedFrom lines flat nested) :
    (PackageIndex.ofRenames flat).IsIndexOf (Mapping.ofLines lines).flat ∧
      PackageIndex.ofRenames flat = (Mapping.ofLines lines).packageIndex ∧
      Rename.Ordered (Rename.byKey nested) ∧
      (∀ rename, (Rename.byKey nested).count rename =
        if rename ∈ (Mapping.ofLines lines).nested then 1 else 0) ∧
      Rename.byKey nested = (Mapping.ofLines lines).nested := by
  have sameIndex := Mapping.ofRenames_eq_packageIndex made.perm.1
  have ordered : Rename.Ordered (Mapping.ofLines lines).nested :=
    (Mapping.ofLines lines).ordered.filter _
  have sameNested := Rename.byKey_eq_of_perm ordered made.perm.2
  rw [sameIndex, sameNested]
  exact ⟨Mapping.packageIndex_isIndexOf _, rfl, ordered,
    count_eq_ite_of_nodup ordered.nodup (fun _ => Iff.rfl), rfl⟩

def jarMoved : List Text :=
  ["a/Tin x/Tin", "a/Jar x/Box$Lid", "b/Pot x/Box$Pot", "c/Cup x/Cup", "a/Jar x/Jar"].map (·.toList)

def shelved (package name target : String) : Rename :=
  ⟨⟨package.toList, name.toList⟩, ⟨"x.".toList, target.toList⟩⟩

theorem indices_jarMoved :
    HashedFrom jarMoved [shelved "a." "Tin" "Tin", shelved "c." "Cup" "Cup", shelved "a." "Jar" "Jar"]
        [shelved "b." "Pot" "Box.Pot"] ∧
      PackageIndex.ofRenames
          [shelved "a." "Tin" "Tin", shelved "c." "Cup" "Cup", shelved "a." "Jar" "Jar"] =
        [("a.".toList, [shelved "a." "Jar" "Jar", shelved "a." "Tin" "Tin"]),
          ("c.".toList, [shelved "c." "Cup" "Cup"])] := by
  have made : HashedFrom jarMoved
      [shelved "a." "Tin" "Tin", shelved "c." "Cup" "Cup", shelved "a." "Jar" "Jar"]
      [shelved "b." "Pot" "Box.Pot"] :=
    HashedFrom.iff_perm.mpr ⟨by decide +kernel, by decide +kernel⟩
  refine ⟨made, ?_⟩
  rw [(indices_of_hashedFrom made).2.1]
  decide +kernel

end NameMigration
