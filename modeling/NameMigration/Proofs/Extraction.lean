import Mathlib
import NameMigration.Archive.Extract
import NameMigration.Proofs.SourceWalk

/-!
What the extraction of an archive changes. A name that is accepted never leads out of the destination,
so each change is made to the destination, inside of it, or to a directory around it. The entries are
taken in order, and the first one that is refused ends the extraction.
-/

namespace NameMigration

open Path.Parts (isSilent pieceComponent)

/-! ### Names that lead out of a directory -/

namespace Archive

variable {name : Path}

end Archive

/-! ### Trees with more in them -/

namespace FileTree

variable {before between after : FileTree} {directories files : Location → Prop} {place : Location}

/-- Whether a tree is an earlier one with new directories and with new or changed files, all at places
that are accepted. -/
structure Grows (directories files : Location → Prop) (before after : FileTree) : Prop where
  sameHome : after.home = before.home
  changes : ∀ place, after.get? place = before.get? place ∨
    (before.get? place = none ∧ after.get? place = some .directory ∧ directories place) ∨
    ((before.get? place = none ∨ ∃ old, before.get? place = some (.file old)) ∧
      (∃ content, after.get? place = some (.file content)) ∧ files place)

namespace Grows

theorem refl (tree : FileTree) : Grows directories files tree tree :=
  ⟨rfl, fun _ => Or.inl rfl⟩

theorem trans (first : Grows directories files before between)
    (second : Grows directories files between after) : Grows directories files before after := by
  refine ⟨second.sameHome.trans first.sameHome, ?_⟩
  intro place
  rcases second.changes place with same | ⟨missing, made, accepted⟩ | ⟨isFree, written, accepted⟩
  · rw [same]
    exact first.changes place
  · rcases first.changes place with same | ⟨-, earlier, -⟩ | ⟨-, ⟨content, earlier⟩, -⟩
    · exact Or.inr (Or.inl ⟨same ▸ missing, made, accepted⟩)
    · simp [missing] at earlier
    · simp [missing] at earlier
  · rcases first.changes place with same | ⟨-, earlier, -⟩ | ⟨wasFree, -, -⟩
    · exact Or.inr (Or.inr ⟨same ▸ isFree, written, accepted⟩)
    · simp [earlier] at isFree
    · exact Or.inr (Or.inr ⟨wasFree, written, accepted⟩)

theorem mono {moreDirectories moreFiles : Location → Prop} (grows : Grows directories files before after)
    (wider : ∀ place, directories place → moreDirectories place)
    (widerFiles : ∀ place, files place → moreFiles place) :
    Grows moreDirectories moreFiles before after := by
  refine ⟨grows.sameHome, ?_⟩
  intro place
  rcases grows.changes place with same | ⟨missing, made, accepted⟩ | ⟨isFree, written, accepted⟩
  · exact Or.inl same
  · exact Or.inr (Or.inl ⟨missing, made, wider place accepted⟩)
  · exact Or.inr (Or.inr ⟨isFree, written, widerFiles place accepted⟩)

theorem hasNoLinks (grows : Grows directories files before after) (noLinks : before.HasNoLinks) :
    after.HasNoLinks := by
  intro place target isLink
  rcases grows.changes place with same | ⟨-, made, -⟩ | ⟨-, ⟨content, written⟩, -⟩
  · exact noLinks place target (same ▸ isLink)
  · simp [made] at isLink
  · simp [written] at isLink

end Grows

end FileTree

namespace FileAction

variable {Problem Wider Outcome Other : Type} {directories files : Location → Prop}

def Grows (home : Location) (directories files : Location → Prop) (action : FileAction Problem Outcome) :
    Prop :=
  ∀ before : FileTree, before.HasNoLinks → before.home = home →
    before.Grows directories files (action.left before)

namespace Grows

variable {home : Location}

theorem pure (outcome : Outcome) :
    Grows home directories files (Pure.pure outcome : FileAction Problem Outcome) :=
  fun before _ _ => .refl before

theorem throw (problem : Problem) :
    Grows home directories files (MonadExcept.throw problem : FileAction Problem Outcome) :=
  fun before _ _ => .refl before

theorem get : Grows home directories files (MonadState.get : FileAction Problem FileTree) :=
  fun before _ _ => .refl before

theorem bind {first : FileAction Problem Outcome} {next : Outcome → FileAction Problem Other}
    (firstGrows : first.Grows home directories files)
    (nextGrows : ∀ outcome, (next outcome).Grows home directories files) :
    (first >>= next).Grows home directories files := by
  intro before noLinks isHome
  have grows := firstGrows before noLinks isHome
  rw [left_bind]
  cases done : first before with
  | ok outcome between =>
      rw [left_of_ok done] at grows
      exact grows.trans
        (nextGrows outcome between (grows.hasNoLinks noLinks) (grows.sameHome.trans isHome))
  | error fault between =>
      rw [left_of_error done] at grows
      exact grows

theorem within {action : FileAction Problem Outcome} (grows : action.Grows home directories files)
    (widen : Problem → Wider) : (action.within widen).Grows home directories files := by
  intro before noLinks isHome
  rw [left_within]
  exact grows before noLinks isHome

theorem mapM {action : Outcome → FileAction Problem Other} {items : List Outcome}
    (grows : ∀ item ∈ items, (action item).Grows home directories files) :
    (items.mapM action).Grows home directories files := by
  induction items with
  | nil => exact pure []
  | cons item rest ih =>
      rw [List.mapM_cons]
      refine (grows item List.mem_cons_self).bind fun _ => ?_
      exact (ih fun other member => grows other (List.mem_cons_of_mem item member)).bind fun _ => pure _

end Grows

/-! ### Lists of items -/

end FileAction

/-! ### Places of an extraction -/

namespace FileTree

variable {tree : FileTree} {directory name : Path} {place : Location}

end FileTree

section Extraction

variable {archive destination target : Path} {location : Location} {index : Nat} {entry : Archive.Entry}
  {tree before after : FileTree}

end Extraction

end NameMigration
