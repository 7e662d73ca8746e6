import NameMigration.Text.Basic

/-!
Texts put in order, each once: what is in the list stays in it, and every text stands in front of the
greater ones.
-/

namespace NameMigration.Text

variable {text other : Text} {texts : List Text}

theorem insert_increasing (text : Text) (increasing : Keyed.Increasing id texts) :
    Keyed.Increasing id (Keyed.insert id id text texts) :=
  increasing.insert fun _ same => same

theorem mem_insert (increasing : Keyed.Increasing id texts) :
    other ∈ Keyed.insert id id text texts ↔ other = text ∨ other ∈ texts := by
  have keeps : ∀ old : Text, id old = id text → id (id old) = id text := fun _ same => same
  have met : (texts.find? (id · = id text)).elim text id = text := by
    cases found : texts.find? (id · = id text) with
    | none => rfl
    | some old => simpa using List.find?_some found
  rw [increasing.mem_insert_iff keeps, met]
  by_cases same : other = text <;> simp [same]

theorem ordered_pairwise (texts : List Text) : (ordered texts).Pairwise (· < ·) := by
  have general : ∀ found : List Text, Keyed.Increasing id found →
      Keyed.Increasing id (texts.foldl (fun found text => Keyed.insert id id text found) found) := by
    induction texts with
    | nil => exact fun _ increasing => increasing
    | cons first rest ih => exact fun found increasing => ih _ (insert_increasing first increasing)
  exact general [] List.Pairwise.nil

theorem mem_ordered : text ∈ ordered texts ↔ text ∈ texts := by
  have general : ∀ found : List Text, Keyed.Increasing id found →
      (text ∈ texts.foldl (fun found text => Keyed.insert id id text found) found ↔
        text ∈ texts ∨ text ∈ found) := by
    induction texts with
    | nil => simp
    | cons first rest ih =>
        intro found increasing
        rw [List.foldl_cons, ih _ (insert_increasing first increasing), mem_insert increasing,
          List.mem_cons, or_left_comm, or_assoc]
  simpa [ordered] using general [] List.Pairwise.nil

end NameMigration.Text
