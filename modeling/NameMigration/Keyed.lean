/-!
Lists in the order of a key, each key once. An item that is put into such a list stands where its key
belongs; if there is one with that key already, that one is changed instead.
-/

namespace NameMigration

/-- A list in strict order is known by its members. -/
theorem eq_of_pairwise_of_mem_iff {α : Type} {Before : α → α → Prop} {first second : List α}
    (asymm : ∀ one other, Before one other → ¬Before other one) (inOrder : first.Pairwise Before)
    (otherInOrder : second.Pairwise Before) (same : ∀ item, item ∈ first ↔ item ∈ second) :
    first = second := by
  have different : ∀ one other, Before one other → one ≠ other := by
    rintro one _ before rfl
    exact asymm one one before before
  have perm := (List.perm_ext_iff_of_nodup (inOrder.imp (different _ _))
    (otherInOrder.imp (different _ _))).mpr same
  refine perm.eq_of_pairwise ?_ inOrder otherInOrder
  intro one other _ _ before after
  exact absurd after (asymm one other before)

namespace Keyed

variable {Item Key : Type} [LT Key]

def Increasing (key : Item → Key) (items : List Item) : Prop :=
  items.Pairwise fun first second => key first < key second

instance [DecidableLT Key] (key : Item → Key) (items : List Item) : Decidable (Increasing key items) :=
  inferInstanceAs (Decidable (items.Pairwise _))

/-- Puts the item where its key belongs. One that is there already is changed by `meet` instead. -/
def insert [DecidableLT Key] (key : Item → Key) (meet : Item → Item) (item : Item) :
    List Item → List Item
  | [] => [item]
  | first :: rest =>
      if key item < key first then item :: first :: rest
      else if key first < key item then first :: insert key meet item rest
      else meet first :: rest

def put [DecidableLT Key] (key : Item → Key) (item : Item) : List Item → List Item :=
  insert key (fun _ => item) item

variable [LE Key] [Std.LawfulOrderLT Key] {key : Item → Key} {meet : Item → Item} {item other : Item}
  {items : List Item}

namespace Increasing

theorem nodup (increasing : Increasing key items) : items.Nodup := by
  refine increasing.imp ?_
  rintro first _ before rfl
  exact Std.lt_irrefl before

section Find

variable [DecidableEq Key]

theorem find?_eq_none {place : Key} (after : ∀ item ∈ items, place < key item) :
    items.find? (key · = place) = none := by
  rw [List.find?_eq_none]
  intro item member
  have before := after item member
  simp only [decide_eq_true_eq]
  rintro rfl
  exact Std.lt_irrefl before

theorem find?_of_mem (increasing : Increasing key items) (member : item ∈ items) :
    items.find? (key · = key item) = some item := by
  induction items with
  | nil => simp at member
  | cons first rest ih =>
      obtain ⟨before, tail⟩ := List.pairwise_cons.mp increasing
      rcases List.mem_cons.mp member with rfl | later
      · simp
      · have different : key first ≠ key item := by
          intro same
          exact Std.lt_irrefl (same ▸ before item later)
        rw [List.find?_cons_of_neg (by simpa using different), ih tail later]

theorem mem_iff_find? (increasing : Increasing key items) :
    item ∈ items ↔ items.find? (key · = key item) = some item :=
  ⟨increasing.find?_of_mem, List.mem_of_find?_eq_some⟩

end Find

end Increasing

variable [DecidableLT Key] [Std.IsLinearOrder Key]

omit [DecidableLT Key] in
theorem eq_of_not_lt {first second : Key} (notBefore : ¬first < second) (notAfter : ¬second < first) :
    first = second :=
  Std.le_antisymm (Std.not_lt.mp notAfter) (Std.not_lt.mp notBefore)

theorem of_mem_insert (keeps : ∀ old, key old = key item → key (meet old) = key item)
    (member : other ∈ insert key meet item items) : key other = key item ∨ other ∈ items := by
  induction items with
  | nil => exact Or.inl (congrArg key (List.mem_singleton.mp member))
  | cons first rest ih =>
      simp only [insert] at member
      split at member
      · rcases List.mem_cons.mp member with rfl | old
        · exact Or.inl rfl
        · exact Or.inr old
      · rename_i notBefore
        split at member
        · rcases List.mem_cons.mp member with rfl | later
          · exact Or.inr List.mem_cons_self
          · exact (ih later).imp_right (List.mem_cons_of_mem first)
        · rename_i notAfter
          rcases List.mem_cons.mp member with rfl | later
          · exact Or.inl (keeps first (eq_of_not_lt notAfter notBefore))
          · exact Or.inr (List.mem_cons_of_mem first later)

namespace Increasing

omit [DecidableLT Key] in
theorem eq_of_mem_iff {others : List Item} (increasing : Increasing key items)
    (othersIncreasing : Increasing key others) (same : ∀ item, item ∈ items ↔ item ∈ others) :
    items = others :=
  eq_of_pairwise_of_mem_iff (fun _ _ before after => Std.lt_irrefl (Std.lt_trans before after))
    increasing othersIncreasing same

theorem insert (increasing : Increasing key items)
    (keeps : ∀ old, key old = key item → key (meet old) = key item) :
    Increasing key (Keyed.insert key meet item items) := by
  induction items with
  | nil => exact List.pairwise_singleton _ item
  | cons first rest ih =>
      obtain ⟨before, tail⟩ := List.pairwise_cons.mp increasing
      simp only [Keyed.insert]
      split
      · rename_i below
        refine List.pairwise_cons.mpr ⟨?_, increasing⟩
        intro other member
        rcases List.mem_cons.mp member with rfl | later
        · exact below
        · exact Std.lt_trans below (before other later)
      · rename_i notBefore
        split
        · rename_i above
          refine List.pairwise_cons.mpr ⟨?_, ih tail⟩
          intro other member
          rcases of_mem_insert keeps member with same | old
          · rwa [same]
          · exact before other old
        · rename_i notAfter
          have same : key first = key item := eq_of_not_lt notAfter notBefore
          rw [same] at before
          exact List.pairwise_cons.mpr ⟨by rwa [keeps first same], tail⟩

variable [DecidableEq Key]

/-- An insertion is seen at its own key only. -/
theorem find?_insert (increasing : Increasing key items)
    (keeps : ∀ old, key old = key item → key (meet old) = key item) (place : Key) :
    (Keyed.insert key meet item items).find? (key · = place) =
      if key item = place then some ((items.find? (key · = place)).elim item meet)
      else items.find? (key · = place) := by
  induction items with
  | nil => by_cases isPlace : key item = place <;> simp [Keyed.insert, isPlace]
  | cons first rest ih =>
      obtain ⟨before, tail⟩ := List.pairwise_cons.mp increasing
      simp only [Keyed.insert]
      split
      · rename_i below
        by_cases isPlace : key item = place
        · have after : ∀ other ∈ first :: rest, place < key other := by
            intro other member
            rcases List.mem_cons.mp member with rfl | later
            · exact isPlace ▸ below
            · exact isPlace ▸ Std.lt_trans below (before other later)
          rw [find?_eq_none after]
          simp [isPlace]
        · simp [isPlace]
      · rename_i notBefore
        split
        · rename_i above
          by_cases isFirst : key first = place
          · have different : key item ≠ place := by
              rintro rfl
              exact Std.lt_irrefl (isFirst ▸ above)
            simp [isFirst, different]
          · simp [isFirst, ih tail]
        · rename_i notAfter
          have same : key first = key item := eq_of_not_lt notAfter notBefore
          by_cases isPlace : key item = place
          · simp [keeps first same, same, isPlace]
          · simp [keeps first same, same, isPlace]

theorem mem_insert_iff (increasing : Increasing key items)
    (keeps : ∀ old, key old = key item → key (meet old) = key item) :
    other ∈ Keyed.insert key meet item items ↔
      key other ≠ key item ∧ other ∈ items ∨
        other = (items.find? (key · = key item)).elim item meet := by
  rw [(increasing.insert keeps).mem_iff_find?, increasing.find?_insert keeps, increasing.mem_iff_find?]
  have ownKey : key ((items.find? (key · = key item)).elim item meet) = key item := by
    cases found : items.find? (key · = key item) with
    | none => rfl
    | some old => exact keeps old (by simpa using List.find?_some found)
  by_cases isPlace : key item = key other
  · simp [← isPlace, eq_comm]
  · simp only [if_neg isPlace, ne_eq, Ne.symm isPlace, not_false_eq_true, true_and]
    refine ⟨Or.inl, fun found => found.resolve_right ?_⟩
    rintro rfl
    exact isPlace ownKey.symm

/-! ### Items in the place of others -/

omit [DecidableEq Key] in
theorem put (increasing : Increasing key items) (item : Item) :
    Increasing key (Keyed.put key item items) :=
  increasing.insert fun _ _ => rfl

theorem find?_put (increasing : Increasing key items) (item : Item) (place : Key) :
    (Keyed.put key item items).find? (key · = place) =
      if key item = place then some item else items.find? (key · = place) := by
  rw [Keyed.put, increasing.find?_insert fun _ _ => rfl]
  cases items.find? (key · = place) <;> rfl

theorem mem_put_iff (increasing : Increasing key items) :
    other ∈ Keyed.put key item items ↔ key other ≠ key item ∧ other ∈ items ∨ other = item := by
  rw [Keyed.put, increasing.mem_insert_iff fun _ _ => rfl]
  cases items.find? (key · = key item) <;> rfl

theorem put_perm (increasing : Increasing key items) (item : Item) :
    (Keyed.put key item items).Perm (item :: items.filter (key · ≠ key item)) := by
  have different : item ∉ items.filter (key · ≠ key item) := by simp
  refine (List.perm_ext_iff_of_nodup (increasing.put item).nodup
    (List.nodup_cons.mpr ⟨different, increasing.nodup.filter _⟩)).mpr ?_
  intro other
  rw [increasing.mem_put_iff, List.mem_cons, List.mem_filter]
  simp [and_comm, or_comm]

end Increasing

end Keyed

end NameMigration
