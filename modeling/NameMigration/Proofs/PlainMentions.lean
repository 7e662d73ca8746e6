import Mathlib
import NameMigration.Proofs.QuietLines

/-!
Mentions of a class by a plain search. The classes of a package are looked for behind the occurrences of
the package that do not overlap, so an occurrence is passed over that begins inside an earlier one. It
is made up for when the name stands behind the earlier one as well. A package that has no such overlaps
with itself is searched like any other text.
-/

namespace NameMigration

namespace Text

variable {needle name text behind : Text}

theorem followers_nil_cons (c : Char) (rest : Text) :
    followers [] (c :: rest) = (c :: rest) :: followers [] rest := by
  rw [followers]
  rfl

theorem eq_of_mem_followers (member : behind ∈ followers needle text) :
    ∃ front, text = front ++ (needle ++ behind) := by
  induction text using followers.induct needle with
  | case1 empty =>
      subst empty
      rw [followers, if_pos rfl, List.mem_singleton] at member
      exact ⟨[], by simp [member]⟩
  | case2 nonempty =>
      rw [followers, if_neg nonempty] at member
      exact absurd member (by simp)
  | case3 c rest notFound ih =>
      rw [followers_passed (ne_append_of_after?_eq_none notFound)] at member
      obtain ⟨front, here⟩ := ih member
      exact ⟨c :: front, by simp [here]⟩
  | case4 c rest first found empty ih =>
      subst empty
      rw [followers_nil_cons] at member
      rcases List.mem_cons.mp member with rfl | later
      · exact ⟨[], rfl⟩
      · obtain ⟨front, here⟩ := ih later
        exact ⟨c :: front, by simp [here]⟩
  | case5 c rest first found nonempty _ ih =>
      have whole := after?_eq_some_iff.mp found
      rw [whole, followers_append nonempty] at member
      rcases List.mem_cons.mp member with rfl | later
      · exact ⟨[], whole⟩
      · obtain ⟨front, here⟩ := ih later
        exact ⟨needle ++ front, by rw [whole, here, List.append_assoc]⟩

/-- Whether the name stands behind the earlier of two occurrences of the needle that share a text, when
it stands behind the later one. -/
def SurvivesOverlaps (needle name : Text) : Prop :=
  ∀ shared ∈ needle.tails, shared ≠ [] → shared <+: needle →
    name <+: needle.drop shared.length ++ name

instance (needle name : Text) : Decidable (SurvivesOverlaps needle name) :=
  inferInstanceAs (Decidable (∀ shared ∈ needle.tails, shared ≠ [] → shared <+: needle →
    name <+: needle.drop shared.length ++ name))

theorem exists_follower_of_survives (survives : SurvivesOverlaps needle name)
    (here : needle ++ name <:+: text) : ∃ behind ∈ followers needle text, name <+: behind := by
  induction text using followers.induct needle with
  | case1 empty =>
      subst empty
      exact ⟨[], by simp [followers], by simpa using here⟩
  | case2 nonempty => simp_all
  | case3 c rest notFound ih =>
      rw [followers_passed (ne_append_of_after?_eq_none notFound)]
      rcases List.infix_cons_iff.mp here with ⟨more, starts⟩ | later
      · rw [List.append_assoc] at starts
        exact absurd starts.symm (ne_append_of_after?_eq_none notFound _)
      · exact ih later
  | case4 c rest first found empty ih =>
      subst empty
      rw [followers_nil_cons]
      rcases List.infix_cons_iff.mp here with starts | later
      · exact ⟨c :: rest, by simp, starts⟩
      · obtain ⟨behind, member, starts⟩ := ih later
        exact ⟨behind, List.mem_cons_of_mem _ member, starts⟩
  | case5 c rest first found nonempty _ ih =>
      have front := after?_eq_some_iff.mp found
      rw [front] at here ⊢
      rw [followers_append nonempty]
      obtain ⟨left, right, split⟩ := here
      rw [List.append_assoc, List.append_assoc] at split
      -- The mention begins behind the occurrence that was found, or it shares a part with it.
      rcases List.append_eq_append_iff.mp split.symm with ⟨more, _, tail⟩ | ⟨shared, ends, tail⟩
      · have later : needle ++ name <:+: first := ⟨more, right, by rw [tail]; simp⟩
        obtain ⟨behind, member, starts⟩ := ih later
        exact ⟨behind, List.mem_cons_of_mem _ member, starts⟩
      · by_cases apart : shared = []
        · rw [apart, List.nil_append] at tail
          have later : needle ++ name <:+: first := ⟨[], right, by rw [← tail]; simp⟩
          obtain ⟨behind, member, starts⟩ := ih later
          exact ⟨behind, List.mem_cons_of_mem _ member, starts⟩
        · have isEnd : shared <:+ needle := ⟨left, ends.symm⟩
          have isFront : shared <+: needle :=
            List.prefix_of_prefix_length_le ⟨first, tail.symm⟩ (List.prefix_append needle _)
              isEnd.length_le
          have survived := survives shared ((List.mem_tails _ _).mpr isEnd) apart isFront
          obtain ⟨back, whole⟩ := isFront
          rw [← whole, List.drop_left] at survived
          rw [← whole, List.append_assoc, List.append_cancel_left_eq] at tail
          refine ⟨first, List.mem_cons_self, survived.trans ⟨right, ?_⟩⟩
          rw [← tail, List.append_assoc]

theorem survives_of_exists_follower
    (found : ∀ text, needle ++ name <:+: text → ∃ behind ∈ followers needle text, name <+: behind) :
    SurvivesOverlaps needle name := by
  intro shared isEnd nonempty isFront
  obtain ⟨front, ends⟩ := (List.mem_tails _ _).mp isEnd
  obtain ⟨back, begins⟩ := isFront
  have dropped : needle.drop shared.length = back := by rw [← begins, List.drop_left]
  have needleNonempty : needle ≠ [] := by
    rintro rfl
    exact nonempty (List.append_eq_nil_iff.mp ends).2
  have overlapping : needle ++ (back ++ name) = front ++ (needle ++ name) := by
    calc needle ++ (back ++ name) = front ++ shared ++ (back ++ name) := by rw [ends]
      _ = front ++ (shared ++ back ++ name) := by simp
      _ = front ++ (needle ++ name) := by rw [begins]
  obtain ⟨behind, member, starts⟩ :=
    found (needle ++ (back ++ name)) ⟨front, [], by rw [overlapping, List.append_nil]⟩
  rw [followers_append needleNonempty] at member
  rw [dropped]
  rcases List.mem_cons.mp member with rfl | later
  · exact starts
  · -- What is left behind the first occurrence is too short for another one and the name.
    obtain ⟨skipped, split⟩ := eq_of_mem_followers later
    have positive := List.length_pos_iff.mpr nonempty
    have nameFits := starts.length_le
    have lengths := congrArg List.length split
    have needleLength := congrArg List.length begins
    simp only [List.length_append] at lengths needleLength
    omega

end Text

/-- A mention is found only where the whole name of the class stands. All of them are found, in every
line, exactly when the package and the name survive the overlaps of the package with itself. -/
theorem Rename.isMentionedOn_eq_occurs_iff (rename : Rename) :
    (∀ line, rename.isMentionedOn line = true → Text.occurs rename.legacy.qualified line = true) ∧
      ((∀ line, rename.isMentionedOn line = Text.occurs rename.legacy.qualified line) ↔
        Text.SurvivesOverlaps rename.legacy.qualifier rename.legacy.name) := by
  have mentioned : ∀ line, rename.isMentionedOn line = true ↔
      ∃ behind ∈ Text.followers rename.legacy.qualifier line, rename.legacy.name <+: behind := by
    intro line
    simp [isMentionedOn, startsOneOf]
  have sound : ∀ line, rename.isMentionedOn line = true →
      Text.occurs rename.legacy.qualified line = true := by
    intro line isMentioned
    obtain ⟨behind, member, right, rfl⟩ := (mentioned line).mp isMentioned
    obtain ⟨front, here⟩ := Text.eq_of_mem_followers member
    exact Text.occurs_iff_isInfix.mpr ⟨front, right, by rw [here, ClassName.qualified]; simp⟩
  refine ⟨sound, ?_⟩
  constructor
  · intro plain
    apply Text.survives_of_exists_follower
    intro line here
    have occurs : Text.occurs rename.legacy.qualified line = true := Text.occurs_iff_isInfix.mpr here
    exact (mentioned line).mp (by rw [plain, occurs])
  · intro survives line
    rw [Bool.eq_iff_iff]
    refine ⟨sound line, fun occurs => (mentioned line).mpr ?_⟩
    exact Text.exists_follower_of_survives survives (Text.occurs_iff_isInfix.mp occurs)

example : Text.SurvivesOverlaps "net.minecraft.server.".toList "World".toList := by decide +kernel

/-! The package `a.a` overlaps itself in `a.a.a`, and a hat stands behind the second occurrence only. -/

def hatToCap : Rename :=
  ⟨⟨"a.a.".toList, "Hat".toList⟩, ⟨"b.".toList, "Cap".toList⟩⟩

theorem hat_occurs_unmentioned :
    Text.occurs hatToCap.legacy.qualified "a.a.a.Hat".toList = true ∧
      hatToCap.isMentionedOn "a.a.a.Hat".toList = false := by
  exact ⟨by decide +kernel, by cbv⟩

end NameMigration
