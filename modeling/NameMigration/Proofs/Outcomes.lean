import Mathlib.Data.List.Forall2
import NameMigration.FileTree.Change

/-!
What success says about the parts of a computation that can fail, and of an action on files.
-/

namespace NameMigration

section Except

variable {Problem Outcome Other : Type} {outcome : Outcome} {final : Other}

theorem bind_eq_ok_iff {first : Except Problem Outcome} {next : Outcome → Except Problem Other} :
    (first >>= next) = .ok final ↔ ∃ outcome, first = .ok outcome ∧ next outcome = .ok final := by
  cases first with
  | ok outcome => exact ⟨fun rest => ⟨outcome, rfl, rest⟩, fun ⟨_, rfl, rest⟩ => rest⟩
  | error problem => simp [bind, Except.bind]

theorem bind_eq_error_iff {first : Except Problem Outcome} {next : Outcome → Except Problem Other}
    {problem : Problem} :
    (first >>= next) = .error problem ↔
      first = .error problem ∨ ∃ outcome, first = .ok outcome ∧ next outcome = .error problem := by
  cases first with
  | ok outcome => simp [bind, Except.bind]
  | error other => simp [bind, Except.bind]

theorem throw_ne_ok (problem : Problem) : (throw problem : Except Problem Outcome) ≠ .ok outcome := by
  simp [throw, throwThe, MonadExceptOf.throw]

theorem pure_eq_ok_iff {result : Outcome} :
    (pure result : Except Problem Outcome) = .ok outcome ↔ result = outcome :=
  Except.ok.injEq result outcome ▸ Iff.rfl

theorem mapM_eq_ok_iff {look : Outcome → Except Problem Other} {items : List Outcome}
    {results : List Other} :
    items.mapM look = .ok results ↔
      List.Forall₂ (fun item result => look item = .ok result) items results := by
  induction items generalizing results with
  | nil =>
      rw [List.mapM_nil, pure_eq_ok_iff, List.forall₂_nil_left_iff]
      exact eq_comm
  | cons first rest ih =>
      simp only [List.mapM_cons, bind_eq_ok_iff, pure_eq_ok_iff, List.forall₂_cons_left_iff, ih]
      constructor
      · rintro ⟨result, isResult, others, areOthers, rfl⟩
        exact ⟨result, others, isResult, areOthers, rfl⟩
      · rintro ⟨result, others, isResult, areOthers, rfl⟩
        exact ⟨result, isResult, others, areOthers, rfl⟩

theorem exists_ok_of_mapM_eq_ok {look : Outcome → Except Problem Other} {items : List Outcome}
    {results : List Other} (done : items.mapM look = .ok results) {item : Outcome}
    (member : item ∈ items) : ∃ result, look item = .ok result := by
  rw [mapM_eq_ok_iff] at done
  induction done with
  | nil => simp at member
  | cons isResult _ ih =>
      rcases List.mem_cons.mp member with rfl | later
      · exact ⟨_, isResult⟩
      · exact ih later

/-- The problem of a list is that of one of its items. -/
theorem exists_of_mapM_eq_error {look : Outcome → Except Problem Other} {items : List Outcome}
    {problem : Problem} (failed : items.mapM look = .error problem) :
    ∃ item ∈ items, look item = .error problem := by
  induction items with
  | nil => simp [pure, Except.pure] at failed
  | cons first rest ih =>
      rw [List.mapM_cons, bind_eq_error_iff] at failed
      rcases failed with atOnce | ⟨result, -, later⟩
      · exact ⟨first, by simp, atOnce⟩
      · rcases bind_eq_error_iff.mp later with inRest | ⟨results, -, never⟩
        · obtain ⟨item, member, fails⟩ := ih inRest
          exact ⟨item, List.mem_cons_of_mem first member, fails⟩
        · simp [pure, Except.pure] at never

end Except

namespace FileAction

variable {Problem Wider Outcome Other : Type} {before after : FileTree} {outcome : Outcome} {final : Other}

def success? (action : FileAction Problem Outcome) (tree : FileTree) : Option (Outcome × FileTree) :=
  match action tree with
  | .ok outcome changed => some (outcome, changed)
  | .error _ _ => none

theorem success?_eq_some_iff {action : FileAction Problem Outcome} :
    action.success? before = some (outcome, after) ↔ action before = .ok outcome after := by
  unfold success?
  cases action before <;> simp

theorem bind_eq_ok_iff {first : FileAction Problem Outcome} {next : Outcome → FileAction Problem Other} :
    (first >>= next) before = .ok final after ↔
      ∃ outcome between, first before = .ok outcome between ∧ next outcome between = .ok final after := by
  cases done : first before with
  | ok outcome between =>
      simp only [bind, EStateM.bind, done]
      constructor
      · intro rest
        exact ⟨outcome, between, rfl, rest⟩
      · rintro ⟨_, _, same, rest⟩
        cases same
        exact rest
  | error problem between => simp [bind, EStateM.bind, done]

theorem pure_eq_ok_iff {result : Outcome} :
    (pure result : FileAction Problem Outcome) before = .ok outcome after ↔
      result = outcome ∧ before = after :=
  EStateM.Result.ok.injEq result before outcome after ▸ Iff.rfl

theorem within_eq_ok_iff {action : FileAction Problem Outcome} {widen : Problem → Wider} :
    action.within widen before = .ok outcome after ↔ action before = .ok outcome after := by
  unfold within
  cases action before <;> simp

theorem changing_eq_ok_iff {change : FileTree → Except Problem FileTree} :
    changing change before = .ok () after ↔ change before = .ok after := by
  unfold changing
  cases change before <;> simp

/-! ### The tree that is left -/

def left (action : FileAction Problem Outcome) (tree : FileTree) : FileTree :=
  match action tree with
  | .ok _ after => after
  | .error _ after => after

theorem left_of_ok {action : FileAction Problem Outcome} (done : action before = .ok outcome after) :
    action.left before = after := by
  rw [left, done]

theorem left_of_error {action : FileAction Problem Outcome} {problem : Problem}
    (failed : action before = .error problem after) : action.left before = after := by
  rw [left, failed]

theorem left_congr {action other : FileAction Problem Outcome} (same : action before = other before) :
    action.left before = other.left before := by
  rw [left, left, same]

theorem left_bind (first : FileAction Problem Outcome) (next : Outcome → FileAction Problem Other)
    (tree : FileTree) :
    (first >>= next).left tree =
      match first tree with
      | .ok outcome between => (next outcome).left between
      | .error _ between => between := by
  unfold left
  cases done : first tree <;> simp [bind, EStateM.bind, done]

@[simp] theorem left_bind_pure (first : FileAction Problem Outcome) (result : Outcome → Other)
    (tree : FileTree) : (first >>= fun outcome => pure (result outcome)).left tree = first.left tree := by
  rw [left_bind, left]
  cases first tree <;> rfl

theorem left_mapM_cons (action : Outcome → FileAction Problem Other) (item : Outcome) (rest : List Outcome)
    (tree : FileTree) :
    ((item :: rest).mapM action).left tree =
      match action item tree with
      | .ok _ between => (rest.mapM action).left between
      | .error _ between => between := by
  rw [List.mapM_cons, left_bind]
  simp only [left_bind_pure]

/-- What holds between two trees whenever the action is done for one of the items holds between the tree
before and the one that is left, whether it is done for all of them or not. -/
theorem left_mapM (Kept : FileTree → FileTree → Prop) (refl : ∀ tree, Kept tree tree)
    (trans : ∀ {first second third}, Kept first second → Kept second third → Kept first third)
    {action : Outcome → FileAction Problem Other} {items : List Outcome}
    (step : ∀ item ∈ items, ∀ tree, Kept tree ((action item).left tree)) (before : FileTree) :
    Kept before ((items.mapM action).left before) := by
  induction items generalizing before with
  | nil => exact refl before
  | cons item rest ih =>
      have first := step item List.mem_cons_self before
      rw [left_mapM_cons]
      cases done : action item before with
      | ok _ between =>
          rw [left_of_ok done] at first
          exact trans first (ih (fun other member => step other (List.mem_cons_of_mem item member)) between)
      | error _ between =>
          rw [left_of_error done] at first
          exact first

@[simp] theorem left_changing (change : FileTree → Except Problem FileTree) (tree : FileTree) :
    (changing change).left tree =
      match change tree with
      | .ok changed => changed
      | .error _ => tree := by
  unfold left changing
  cases change tree <;> rfl

@[simp] theorem left_within (action : FileAction Problem Outcome) (widen : Problem → Wider)
    (tree : FileTree) : (action.within widen).left tree = action.left tree := by
  unfold left within
  cases action tree <;> rfl

end FileAction

end NameMigration
