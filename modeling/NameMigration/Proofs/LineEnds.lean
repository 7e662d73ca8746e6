import NameMigration.Proofs.DecodedText
import NameMigration.Proofs.PlainTrees

/-!
Reading lines and writing them are inverse to each other but for the line ends. Lines that hold no line
end are read back as they were written, and a text is written as it was read but for a carriage return
in front of a line feed and for the line feed at its end.
-/

namespace NameMigration

namespace Text

variable {text rest line : Text}

/-! ### Lines -/

theorem lines_cons {c : Char} (noFeed : c ≠ '\n') (noEnd : ¬['\r', '\n'] <+: c :: rest) :
    lines (c :: rest) = (c :: (lines rest).head?.getD []) :: (lines rest).tail := by
  rw [lines]
  · cases lines rest <;> rfl
  · exact noFeed
  · rintro tail rfl rfl
    exact noEnd ⟨tail, rfl⟩

/-- A text is empty, starts with one of the two line ends, or with a character of a line. -/
@[elab_as_elim]
theorem lines_induction {motive : Text → Prop} (nil : motive [])
    (feed : ∀ rest, motive rest → motive ('\n' :: rest))
    (returnFeed : ∀ rest, motive rest → motive ('\r' :: '\n' :: rest))
    (other : ∀ c rest, c ≠ '\n' → ¬['\r', '\n'] <+: c :: rest → motive rest → motive (c :: rest))
    (text : Text) : motive text := by
  induction text using lines.induct with
  | case1 => exact nil
  | case2 rest ih => exact feed rest ih
  | case3 rest ih => exact returnFeed rest ih
  | case4 c rest noFeed noEnd _ ih | case5 c rest noFeed noEnd _ _ _ ih =>
      refine other c rest noFeed ?_ ih
      rintro ⟨tail, starts⟩
      obtain ⟨rfl, rfl⟩ := List.cons.inj starts
      exact noEnd tail rfl rfl

theorem feed_notMem_of_mem_lines (member : line ∈ text.lines) : '\n' ∉ line := by
  induction text using lines_induction generalizing line with
  | nil => simp [lines] at member
  | feed rest ih | returnFeed rest ih =>
      rw [lines] at member
      rcases List.mem_cons.mp member with rfl | later
      · simp
      · exact ih later
  | other c rest noFeed noEnd ih =>
      rw [lines_cons noFeed noEnd] at member
      cases whole : lines rest with
      | nil =>
          obtain rfl : line = [c] := by simpa [whole] using member
          simpa using noFeed.symm
      | cons first others =>
          rw [whole] at member ih
          rcases List.mem_cons.mp member with rfl | later
          · simpa [noFeed.symm] using ih List.mem_cons_self
          · exact ih (List.mem_cons_of_mem first later)

/-! ### Written lines -/

/-- The line without the carriage return that a line feed behind it takes along. -/
def withoutReturn (line : Text) : Text :=
  if line.getLast? = some '\r' then line.dropLast else line

theorem withoutReturn_cons {c : Char} (longer : line ≠ []) :
    withoutReturn (c :: line) = c :: withoutReturn line := by
  obtain ⟨d, others, rfl⟩ := List.exists_cons_of_ne_nil longer
  simp only [withoutReturn, List.getLast?_cons_cons, List.dropLast_cons_cons]
  split <;> rfl

theorem withoutReturn_eq_self_iff : withoutReturn line = line ↔ line.getLast? ≠ some '\r' := by
  unfold withoutReturn
  split
  · rename_i ends
    obtain ⟨front, rfl⟩ := List.getLast?_eq_some_iff.mp ends
    simp
  · rename_i ends
    simp [ends]

theorem lines_append_feed (noFeed : '\n' ∉ line) (rest : Text) :
    lines (line ++ '\n' :: rest) = withoutReturn line :: lines rest := by
  induction line with
  | nil => simp [lines, withoutReturn]
  | cons c others ih =>
      obtain ⟨isOther, noMore⟩ : '\n' ≠ c ∧ '\n' ∉ others := by simpa using noFeed
      by_cases longer : others = []
      · -- Only the last character of a line can be a carriage return that is taken along.
        subst longer
        by_cases isReturn : c = '\r'
        · subst isReturn
          simp [lines, withoutReturn]
        · rw [List.singleton_append, lines_cons isOther.symm (by simp [Ne.symm isReturn])]
          simp [lines, withoutReturn, isReturn]
      · have noEnd : ¬['\r', '\n'] <+: c :: (others ++ '\n' :: rest) := by
          obtain ⟨d, more, rfl⟩ := List.exists_cons_of_ne_nil longer
          simp only [List.mem_cons, not_or] at noMore
          simp [noMore.1]
        rw [List.cons_append, lines_cons isOther.symm noEnd, ih noMore, withoutReturn_cons longer]
        rfl

theorem ofLines_cons (line : Text) (lines : List Text) :
    ofLines (line :: lines) = line ++ '\n' :: ofLines lines := by
  simp [ofLines]

theorem lines_ofLines {lines : List Text} (noFeed : ∀ line ∈ lines, '\n' ∉ line) :
    (ofLines lines).lines = lines.map withoutReturn := by
  induction lines with
  | nil => rfl
  | cons line rest ih =>
      have others := ih fun other member => noFeed other (List.mem_cons_of_mem line member)
      rw [ofLines_cons, lines_append_feed (noFeed line List.mem_cons_self), others, List.map_cons]

/-- Written lines are read back if none has a line feed and none ends in a carriage return. -/
theorem lines_ofLines_eq_iff {lines : List Text} : (ofLines lines).lines = lines ↔
    ∀ line ∈ lines, '\n' ∉ line ∧ line.getLast? ≠ some '\r' := by
  constructor
  · intro same line member
    have noFeed : ∀ line ∈ lines, '\n' ∉ line := fun other isLine =>
      feed_notMem_of_mem_lines (same.symm ▸ isLine)
    rw [lines_ofLines noFeed] at same
    have kept := List.map_inj_left.mp (same.trans (List.map_id lines).symm) line member
    exact ⟨noFeed line member, withoutReturn_eq_self_iff.mp kept⟩
  · intro plain
    rw [lines_ofLines fun line member => (plain line member).1]
    refine (List.map_congr_left ?_).trans (List.map_id lines)
    exact fun line member => withoutReturn_eq_self_iff.mpr (plain line member).2

/-! ### Texts written line by line -/

theorem lines_eq_nil_iff : lines text = [] ↔ text = [] := by
  cases text using lines_induction with
  | nil => simp [lines]
  | feed rest ih | returnFeed rest ih => simp [lines]
  | other c rest noFeed noEnd ih =>
      simp [lines_cons noFeed noEnd]

theorem ofLines_lines_cons {c : Char} (noFeed : c ≠ '\n') (noEnd : ¬['\r', '\n'] <+: c :: rest) :
    ofLines (lines (c :: rest)) = c :: if rest = [] then ['\n'] else ofLines (lines rest) := by
  rw [lines_cons noFeed noEnd]
  cases whole : lines rest with
  | nil => simp [lines_eq_nil_iff.mp whole, ofLines]
  | cons line others =>
      have longer : rest ≠ [] := by
        rw [ne_eq, ← lines_eq_nil_iff, whole]
        exact List.cons_ne_nil line others
      rw [if_neg longer, ofLines_cons, ofLines_cons]
      rfl

/-- The text with a line feed at its end. The empty text has no last line that needs one. -/
def ended (text : Text) : Text :=
  if text = [] ∨ text.getLast? = some '\n' then text else text ++ ['\n']

def withLineFeeds (text : Text) : Text :=
  (replaceAll ['\r', '\n'] ['\n'] text).ended

theorem ended_feed (text : Text) : ended ('\n' :: text) = '\n' :: ended text := by
  cases text with
  | nil => simp [ended]
  | cons c rest =>
      simp only [ended, List.getLast?_cons_cons, reduceCtorEq, false_or]
      split <;> rfl

theorem ended_cons {c : Char} (noFeed : c ≠ '\n') (text : Text) :
    ended (c :: text) = c :: if text = [] then ['\n'] else ended text := by
  cases text with
  | nil => simp [ended, noFeed]
  | cons d rest =>
      simp only [ended, List.getLast?_cons_cons, reduceCtorEq, false_or, if_false]
      split <;> rfl

section ReplaceAll

variable {search replacement : Text}

theorem replaceAll_of_not_isPrefix {c : Char} (notHere : ¬search <+: c :: rest) :
    replaceAll search replacement (c :: rest) = c :: replaceAll search replacement rest := by
  rw [replaceAll]
  split
  · rfl
  · rename_i behind found
    exact absurd ⟨behind, (after?_eq_some_iff.mp found).symm⟩ notHere

theorem replaceAll_append (nonempty : search ≠ []) (rest : Text) :
    replaceAll search replacement (search ++ rest) =
      replacement ++ replaceAll search replacement rest := by
  obtain ⟨c, others, isSearch⟩ := List.exists_cons_of_ne_nil nonempty
  rw [isSearch, List.cons_append, ← isSearch, replaceAll]
  have here : after? search (c :: (others ++ rest)) = some rest := by
    rw [← List.cons_append, ← isSearch, after?_append]
  split
  · rename_i notFound
    simp [here] at notFound
  · rename_i behind found
    obtain rfl := Option.some_inj.mp (here.symm.trans found)
    rw [dif_neg nonempty]

theorem replaceAll_eq_nil_iff (nonempty : replacement ≠ []) :
    replaceAll search replacement text = [] ↔ text = [] := by
  cases text with
  | nil => simp [replaceAll]
  | cons c rest =>
      rw [replaceAll]
      split
      · simp
      · split <;> simp [nonempty]

end ReplaceAll

/-- What is written for the lines of a text is the text with other line ends. -/
theorem ofLines_lines (text : Text) : ofLines text.lines = text.withLineFeeds := by
  induction text using lines_induction with
  | nil => simp [lines, ofLines, withLineFeeds, replaceAll, ended]
  | feed rest ih =>
      rw [lines, ofLines_cons, ih, withLineFeeds, withLineFeeds, replaceAll_of_not_isPrefix (by simp),
        ended_feed, List.nil_append]
  | returnFeed rest ih =>
      have here : replaceAll ['\r', '\n'] ['\n'] ('\r' :: '\n' :: rest) =
          '\n' :: replaceAll ['\r', '\n'] ['\n'] rest := replaceAll_append (by simp) rest
      rw [lines, ofLines_cons, ih, withLineFeeds, withLineFeeds, here, ended_feed, List.nil_append]
  | other c rest noFeed noEnd ih =>
      rw [ofLines_lines_cons noFeed noEnd, ih, withLineFeeds, withLineFeeds,
        replaceAll_of_not_isPrefix noEnd, ended_cons noFeed]
      simp only [replaceAll_eq_nil_iff (List.cons_ne_nil '\n' [])]

/-- A text is written as it was read if it has plain line feeds, and one at its end. -/
theorem ofLines_lines_eq_self_iff : ofLines text.lines = text ↔
    ¬['\r', '\n'] <:+: text ∧ (text = [] ∨ text.getLast? = some '\n') := by
  induction text using lines_induction with
  | nil => simp [lines, ofLines]
  | feed rest ih =>
      rw [lines, ofLines_cons, List.nil_append, List.cons_inj_right, ih, List.infix_cons_iff]
      cases rest <;> simp [List.getLast?_cons_cons]
  | returnFeed rest ih =>
      rw [lines, ofLines_cons]
      simp [List.infix_cons_iff]
  | other c rest noFeed noEnd ih =>
      rw [ofLines_lines_cons noFeed noEnd, List.cons_inj_right, List.infix_cons_iff]
      cases rest with
      | nil => simp [noFeed]
      | cons d others => simpa [noEnd, List.getLast?_cons_cons] using ih

end Text

/-! ### Written files -/

namespace FileTree

variable {tree before after : FileTree} {creating : Bool} {links : Nat} {location : Location}
  {steps : List Text} {path : Path} {content : Bytes} {spot : Spot}

/-- Steps that lead to the place of a file lead to that file once it is there, through links as well. -/
theorem walk_put_of_walk (walked : tree.walk creating links location steps = .ok spot)
    (isFree : tree.get? spot.location = none ∨ ∃ old, tree.get? spot.location = some (.file old)) :
    (tree.put spot.location (.file content)).walk false links location steps =
      .ok (.found spot.location) := by
  -- What the way goes through is no file, so it is not replaced.
  have others {place : Location} {entry : FileEntry} (isEntry : tree.get? place = some entry)
      (noFile : ∀ old, entry ≠ .file old) :
      (tree.put spot.location (.file content)).get? place = some entry := by
    have different : place ≠ spot.location := by
      rintro rfl
      rcases isFree with missing | ⟨old, isFile⟩
      · simp [missing] at isEntry
      · exact noFile old (Option.some_inj.mp (isEntry.symm.trans isFile))
    rw [get?_put_of_ne tree _ different, isEntry]
  have stillOpen {place : Location} (isOpen : ¬(!tree.isOpen place) = true) :
      (tree.put spot.location (.file content)).isOpen place = true := by
    simp only [FileTree.isOpen, Bool.not_eq_true', Bool.not_eq_false, Bool.or_eq_true,
      decide_eq_true_eq, home_put] at isOpen ⊢
    exact isOpen.imp_right fun isDirectory => others isDirectory (by simp)
  fun_induction walk tree creating links location steps with
  | case1 =>
      cases walked
      rw [walk]
      rfl
  | case2 | case5 | case6 | case8 | case9 | case10 => simp at walked
  | case3 links location step rest isOpen silent ih =>
      rw [walk_cons_unnamed (stillOpen isOpen) (by simp [Path.isUnnamed, silent]),
        Location.next_silent silent]
      exact ih walked
  | case4 links location rest isOpen speaks ih =>
      rw [walk_cons_unnamed (stillOpen isOpen) (by decide), Location.next_parent]
      exact ih walked
  | case7 links location step isOpen speaks notParent looked =>
      cases walked
      have named : Path.isUnnamed step = false := by simp [Path.isUnnamed, speaks, notParent]
      obtain ⟨isDirectory, isShort, -⟩ := entryIn_eq_ok_iff.mp looked
      -- Nothing is there yet, so this is the only step that now goes another way.
      have isFile : (tree.put (location ++ [step]) (.file content)).get? (location ++ [step]) =
          some (.file content) := get?_put_self tree _ (by simp)
      have allows : (tree.put (location ++ [step]) (.file content)).Allows location step :=
        ⟨stillOpen isOpen, fun _ => ⟨others isDirectory (by simp), isShort, _, isFile, by simp⟩⟩
      refine (allows.walk_cons (by simp)).trans ?_
      rw [Location.next_name named, walk]
      rfl
  | case11 links location step rest isOpen speaks notParent _ target looked remain faultless ih =>
      have named : Path.isUnnamed step = false := by simp [Path.isUnnamed, speaks, notParent]
      obtain ⟨isDirectory, isShort, isLink⟩ := entryIn_eq_ok_iff.mp looked
      rw [walk_cons_named (stillOpen isOpen) named (by simp),
        entryIn_eq_ok_iff.mpr ⟨others isDirectory (by simp), isShort, others isLink (by simp)⟩]
      simp only [if_neg remain, faultless]
      exact ih walked
  | case12 links location step rest isOpen speaks notParent _ entry noLink looked ih =>
      have named : Path.isUnnamed step = false := by simp [Path.isUnnamed, speaks, notParent]
      obtain ⟨isDirectory, isShort, isEntry⟩ := entryIn_eq_ok_iff.mp looked
      obtain ⟨other, isOther, noLink⟩ : ∃ other,
          (tree.put spot.location (.file content)).get? (location ++ [step]) = some other ∧
            ∀ target, other ≠ .link target := by
        by_cases isPlace : location ++ [step] = spot.location
        · refine ⟨.file content, ?_, by simp⟩
          rw [isPlace, get?_put_self tree _ (isPlace ▸ by simp)]
        · exact ⟨entry, (get?_put_of_ne tree _ isPlace).trans isEntry, noLink⟩
      have allows : (tree.put spot.location (.file content)).Allows location step :=
        ⟨stillOpen isOpen, fun _ => ⟨others isDirectory (by simp), isShort, other, isOther, noLink⟩⟩
      rw [allows.walk_cons (by simp), Location.next_name named]
      exact ih walked

/-- A written file has what was written, whatever links lead to it. -/
theorem readBytes_of_writeFile (written : before.writeFile path content = .ok after) :
    after.readBytes path = .ok content := by
  obtain ⟨spot, isSpot, inside, isFree, rfl⟩ := exists_spot_of_writeFile written
  obtain ⟨faultless, walked⟩ := spot_ok isSpot
  have isFound : (before.put spot.location (.file content)).spot path = .ok (.found spot.location) := by
    simp only [FileTree.spot, faultless]
    exact walk_put_of_walk walked isFree
  have isFile := get?_put_self before (.file content) inside
  simp only [readBytes, find, locate, isFound, isFile]
  rfl

end FileTree

theorem readBytes_of_writeLines {path : Path} {lines : List Text} {before after : FileTree}
    (written : writeLines path lines before = .ok () after) :
    after.readBytes path = .ok (Text.ofLines lines).utf8 := by
  obtain ⟨between, -, written⟩ := writeLines_ok_iff.mp written
  exact FileTree.readBytes_of_writeFile written

theorem SourceUnit.read_of_readBytes {path : Path} {text : Text} {tree : FileTree}
    (isRead : tree.readBytes path = .ok text.utf8) : read tree path = .ok ⟨path, text.lines⟩ := by
  simp only [read, isRead, Utf8.decodeLossy_utf8]

/-- Lines that hold no line end are read back, and a text is written again with plain line feeds. The
same holds of the files: what is written to one is what is read from it, and the lines of a unit become
the text of its file with plain line feeds. -/
theorem lines_roundTrip :
    (∀ lines : List Text, (Text.ofLines lines).lines = lines ↔
      ∀ line ∈ lines, '\n' ∉ line ∧ line.getLast? ≠ some '\r') ∧
    (∀ text : Text, Text.ofLines text.lines = text.withLineFeeds) ∧
    (∀ text : Text, Text.ofLines text.lines = text ↔
      ¬['\r', '\n'] <:+: text ∧ (text = [] ∨ text.getLast? = some '\n')) ∧
    (∀ path lines before after, writeLines path lines before = .ok () after →
      after.readBytes path = .ok (Text.ofLines lines).utf8 ∧
        SourceUnit.read after path = .ok ⟨path, (Text.ofLines lines).lines⟩) ∧
    ∀ (path : Path) (text : Text) (tree : FileTree), tree.readBytes path = .ok text.utf8 →
      SourceUnit.read tree path = .ok ⟨path, text.lines⟩ ∧
        ∀ target before after, writeLines target text.lines before = .ok () after →
          after.readBytes target = .ok text.withLineFeeds.utf8 := by
  refine ⟨fun _ => Text.lines_ofLines_eq_iff, Text.ofLines_lines, fun _ => Text.ofLines_lines_eq_self_iff,
    ?_, ?_⟩
  · intro path lines before after written
    have isRead := readBytes_of_writeLines written
    exact ⟨isRead, SourceUnit.read_of_readBytes isRead⟩
  · intro path text tree isRead
    refine ⟨SourceUnit.read_of_readBytes isRead, ?_⟩
    intro target before after written
    rw [← Text.ofLines_lines]
    exact readBytes_of_writeLines written

def mailbox : FileTree where
  entries := [
    (["drafts"].map String.toList, .directory),
    (["drafts", "letter"].map String.toList, .file (Text.utf8 "To the café,\r\n\n\r\rI am\rhere".toList))]
  ordered := by decide

theorem lines_roundTrip_mailbox :
    mailbox.readBytes "drafts/letter".toList =
        .ok (Text.utf8 "To the café,\r\n\n\r\rI am\rhere".toList) ∧
      SourceUnit.read mailbox "drafts/letter".toList =
        .ok ⟨"drafts/letter".toList, ["To the café,", "", "\r\rI am\rhere"].map String.toList⟩ ∧
      ∃ after, writeLines "sent/today/letter".toList
          (["To the café,", "", "\r\rI am\rhere"].map String.toList) mailbox = .ok () after ∧
        after.readBytes "sent/today/letter".toList =
          .ok (Text.utf8 "To the café,\n\n\r\rI am\rhere\n".toList) ∧
        SourceUnit.read after "sent/today/letter".toList =
          .ok ⟨"sent/today/letter".toList, ["To the café,", "", "\r\rI am\rhere"].map String.toList⟩ := by
  obtain ⟨linesBack, -, -, ofLines, ofText⟩ := lines_roundTrip
  have isRead : mailbox.readBytes "drafts/letter".toList =
      .ok (Text.utf8 "To the café,\r\n\n\r\rI am\rhere".toList) := by cbv
  have lines : Text.lines "To the café,\r\n\n\r\rI am\rhere".toList =
      ["To the café,", "", "\r\rI am\rhere"].map String.toList := by cbv
  have feeds : Text.withLineFeeds "To the café,\r\n\n\r\rI am\rhere".toList =
      "To the café,\n\n\r\rI am\rhere\n".toList := by cbv
  obtain ⟨unit, again⟩ := ofText _ _ _ isRead
  rw [lines] at unit again
  have succeeds : (FileAction.success? (writeLines "sent/today/letter".toList
      (["To the café,", "", "\r\rI am\rhere"].map String.toList)) mailbox).isSome := by cbv
  obtain ⟨⟨_, after⟩, isSuccess⟩ := Option.isSome_iff_exists.mp succeeds
  have written := FileAction.success?_eq_some_iff.mp isSuccess
  have plain := (linesBack (["To the café,", "", "\r\rI am\rhere"].map String.toList)).mpr (by decide)
  refine ⟨isRead, unit, after, written, feeds ▸ again _ _ _ written, ?_⟩
  have unitAgain := (ofLines _ _ _ _ written).2
  rwa [plain] at unitAgain

end NameMigration
