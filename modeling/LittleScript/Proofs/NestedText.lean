import LittleScript.Expression

namespace LittleScript.Expression

/-!
# Parentheses that match

A text is nested if its parentheses match each other.  The parenthesis that ends a group is the
first one behind its opening one that closes more than has been opened in between, so a group has
one content.  A text in which each opening parenthesis has its matching one is nested up to the
first closing one too many.
-/

/-- A text whose parentheses match each other. -/
inductive Nested : Text → Prop where
  | nil : Nested []
  | byte {first : UInt8} {rest : Text} :
      first ≠ Byte.openParen → first ≠ Byte.closeParen → Nested rest → Nested (first :: rest)
  | group {content rest : Text} :
      Nested content → Nested rest → Nested (Byte.openParen :: (content ++ Byte.closeParen :: rest))

/-- Each opening parenthesis of a text has its matching one. -/
def EachCloses (text : Text) : Prop :=
  ∀ front inside, text = front ++ Byte.openParen :: inside →
    ∃ content after, inside = content ++ Byte.closeParen :: after ∧ Nested content

/-- Nothing follows, or the end of a group around. -/
def Closing (tail : Text) : Prop :=
  ∀ byte ∈ tail.head?, byte = Byte.closeParen

theorem Closing.cases
    {tail : Text}
    (closing : Closing tail) :
    tail = [] ∨ ∃ after, tail = Byte.closeParen :: after := by
  cases tail with
  | nil => exact .inl rfl
  | cons byte after => exact .inr ⟨after, by rw [closing byte rfl]⟩

theorem closing_nil :
    Closing [] :=
  fun _ isHead => by cases isHead

theorem closing_closeParen
    (after : Text) :
    Closing (Byte.closeParen :: after) :=
  fun _ isHead => (Option.some.inj isHead).symm

namespace Nested

/-- What is in front of the first opening parenthesis may be taken away. -/
theorem behind
    {front rest : Text}
    (noOpening : Byte.openParen ∉ front)
    (nested : Nested (front ++ rest)) :
    Nested rest := by
  induction front with
  | nil => exact nested
  | cons first more inductionHypothesis =>
      rw [List.mem_cons, not_or] at noOpening
      generalize isText : first :: more ++ rest = text at nested
      cases nested with
      | nil => cases isText
      | byte _ _ nestedRest =>
          obtain ⟨-, rfl⟩ := List.cons.inj isText
          exact inductionHypothesis noOpening.2 nestedRest
      | group => exact absurd (List.cons.inj isText).1.symm noOpening.1

theorem skipBlanks
    {text : Text}
    (nested : Nested text) :
    Nested (skipBlanks text) := by
  have split := List.takeWhile_append_dropWhile (p := Byte.isSpace) (l := text)
  have blanks := List.all_eq_true.mp (List.all_takeWhile (p := Byte.isSpace) (l := text))
  exact behind (fun isBlank => absurd (blanks _ isBlank) (by decide)) (split.symm ▸ nested)

/-- The first group has its end. -/
theorem group_cases
    {inside : Text}
    (nested : Nested (Byte.openParen :: inside)) :
    ∃ content after, inside = content ++ Byte.closeParen :: after ∧ Nested content ∧
      Nested after := by
  generalize isText : Byte.openParen :: inside = text at nested
  cases nested with
  | nil => cases isText
  | byte notOpening => exact absurd (List.cons.inj isText).1.symm notOpening
  | group nestedContent nestedRest =>
      exact ⟨_, _, (List.cons.inj isText).2, nestedContent, nestedRest⟩

theorem not_closeParen
    {rest : Text} :
    ¬ Nested (Byte.closeParen :: rest) := by
  intro nested
  cases nested with
  | byte _ notClosing => exact notClosing rfl

/-! ## Counting parentheses -/

theorem count_openParen
    (text : Text) :
    (Byte.openParen :: text).count Byte.openParen = text.count Byte.openParen + 1 ∧
      (Byte.openParen :: text).count Byte.closeParen = text.count Byte.closeParen :=
  ⟨List.count_cons_self, List.count_cons_of_ne (by decide)⟩

theorem count_closeParen
    (text : Text) :
    (Byte.closeParen :: text).count Byte.openParen = text.count Byte.openParen ∧
      (Byte.closeParen :: text).count Byte.closeParen = text.count Byte.closeParen + 1 :=
  ⟨List.count_cons_of_ne (by decide), List.count_cons_self⟩

/-- There are as many closing parentheses as opening ones. -/
theorem count_eq
    {text : Text}
    (nested : Nested text) :
    text.count Byte.openParen = text.count Byte.closeParen := by
  induction nested with
  | nil => rfl
  | byte notOpening notClosing _ inductionHypothesis =>
      rw [List.count_cons_of_ne notOpening, List.count_cons_of_ne notClosing, inductionHypothesis]
  | group _ _ within behind =>
      simp only [count_openParen, count_closeParen, List.count_append, within, behind]
      omega

/-- No parenthesis is closed before it is opened. -/
theorem count_le_of_prefix
    {text : Text}
    (nested : Nested text) :
    ∀ front rest, text = front ++ rest →
      front.count Byte.closeParen ≤ front.count Byte.openParen := by
  induction nested with
  | nil =>
      intro front rest isText
      rw [(List.append_eq_nil_iff.mp isText.symm).1]
      exact Nat.le_refl _
  | byte notOpening notClosing _ inductionHypothesis =>
      intro front rest isText
      obtain ⟨rfl, -⟩ | ⟨more, rfl, isRest⟩ := List.cons_eq_append_iff.mp isText
      · exact Nat.le_refl _
      · rw [List.count_cons_of_ne notOpening, List.count_cons_of_ne notClosing]
        exact inductionHypothesis more rest isRest
  | @group content behind nestedContent _ within inductionHypothesis =>
      intro front rest isText
      obtain ⟨rfl, -⟩ | ⟨more, rfl, isRest⟩ := List.cons_eq_append_iff.mp isText
      · exact Nat.le_refl _
      · rw [(count_openParen _).1, (count_openParen _).2]
        obtain ⟨middle, rfl, same⟩ | ⟨middle, isContent, -⟩ :=
          List.append_eq_append_iff.mp isRest
        · cases middle with
          | nil =>
              rw [List.append_nil, nestedContent.count_eq]
              omega
          | cons _ middle =>
              obtain ⟨rfl, isBehind⟩ := List.cons.inj same
              have atMost := inductionHypothesis middle rest isBehind
              simp only [List.count_append, count_closeParen, nestedContent.count_eq]
              omega
        · have atMost := within more middle isContent
          omega

/-- Each parenthesis that is opened is closed. -/
theorem count_le_of_suffix
    {text front rest : Text}
    (nested : Nested text)
    (isText : text = front ++ rest) :
    rest.count Byte.openParen ≤ rest.count Byte.closeParen := by
  have total := nested.count_eq
  have atMost := nested.count_le_of_prefix front rest isText
  rw [isText, List.count_append, List.count_append] at total
  omega

theorem not_closed_behind
    {text rest : Text}
    (nested : Nested text) :
    ¬ Nested (text ++ Byte.closeParen :: rest) := by
  intro nestedToo
  have atMost := nestedToo.count_le_of_prefix (text ++ [Byte.closeParen]) rest (by simp)
  simp only [List.count_append, count_closeParen, nested.count_eq, List.count_nil] at atMost
  omega

theorem not_opened_before
    {front text : Text}
    (nested : Nested text) :
    ¬ Nested (front ++ Byte.openParen :: text) := by
  intro nestedToo
  have atMost := nestedToo.count_le_of_suffix rfl
  simp only [count_openParen, nested.count_eq] at atMost
  omega

/-! ## The two ends of a group -/

/-- A text has one first parenthesis that closes what is opened before it. -/
theorem end_unique
    {text other after behind : Text}
    (nested : Nested text)
    (nestedToo : Nested other)
    (same : text ++ Byte.closeParen :: after = other ++ Byte.closeParen :: behind) :
    text = other ∧ after = behind := by
  obtain ⟨middle, rfl, isEnd⟩ | ⟨middle, rfl, isEnd⟩ := List.append_eq_append_iff.mp same
  all_goals
    cases middle with
    | nil =>
        rw [List.nil_append] at isEnd
        rw [List.append_nil, (List.cons.inj isEnd).2]
        exact ⟨rfl, rfl⟩
    | cons byte middle => ?_
  · rw [← (List.cons.inj isEnd).1] at nestedToo
    exact absurd nestedToo nested.not_closed_behind
  · rw [← (List.cons.inj isEnd).1] at nested
    exact absurd nested nestedToo.not_closed_behind

/-- A text has one last parenthesis that opens what is closed behind it. -/
theorem start_unique
    {front before content other : Text}
    (nested : Nested content)
    (nestedToo : Nested other)
    (same : front ++ Byte.openParen :: content = before ++ Byte.openParen :: other) :
    content = other := by
  obtain ⟨middle, -, isStart⟩ | ⟨middle, -, isStart⟩ := List.append_eq_append_iff.mp same
  all_goals
    cases middle with
    | nil => first | exact (List.cons.inj isStart).2 | exact (List.cons.inj isStart).2.symm
    | cons byte middle => ?_
  · rw [(List.cons.inj isStart).2] at nested
    exact absurd nested nestedToo.not_opened_before
  · rw [(List.cons.inj isStart).2] at nestedToo
    exact absurd nestedToo nested.not_opened_before

/-! ## Texts in which each group is closed -/

/-- Where parentheses match each other, each opening one has its matching one. -/
theorem eachCloses
    {text : Text}
    (nested : Nested text) :
    EachCloses text := by
  induction nested with
  | nil => exact fun front inside isText => absurd isText.symm (by simp)
  | @byte first rest notOpening _ _ inductionHypothesis =>
      intro front inside isText
      obtain ⟨-, same⟩ | ⟨more, rfl, isRest⟩ := List.cons_eq_append_iff.mp isText
      · exact absurd (List.cons.inj same).1.symm notOpening
      · exact inductionHypothesis more inside isRest
  | @group content rest nestedContent _ within behind =>
      intro front inside isText
      obtain ⟨-, same⟩ | ⟨more, rfl, isRest⟩ := List.cons_eq_append_iff.mp isText
      · cases same
        exact ⟨content, rest, rfl, nestedContent⟩
      · obtain ⟨middle, rfl, same⟩ | ⟨middle, isContent, same⟩ :=
          List.append_eq_append_iff.mp isRest
        · cases middle with
          | nil => cases same
          | cons _ middle =>
              obtain ⟨-, isBehind⟩ := List.cons.inj same
              exact behind middle inside isBehind
        · cases middle with
          | nil => cases same
          | cons _ middle =>
              obtain ⟨rfl, rfl⟩ := List.cons.inj same
              obtain ⟨own, after, rfl, nestedOwn⟩ := within more middle isContent
              exact ⟨own, after ++ Byte.closeParen :: rest, by simp, nestedOwn⟩

end Nested

/-- A text whose groups are closed has matching parentheses up to a closing one too many. -/
theorem EachCloses.split
    (size : Nat) :
    ∀ text : Text, text.length < size → EachCloses text →
      ∃ inner tail, text = inner ++ tail ∧ Nested inner ∧ Closing tail := by
  induction size with
  | zero =>
      intro text fits
      omega
  | succ size inductionHypothesis =>
      intro text fits closes
      cases text with
      | nil => exact ⟨[], [], rfl, .nil, closing_nil⟩
      | cons first rest =>
          rw [List.length_cons] at fits
          by_cases isOpening : first = Byte.openParen
          case pos =>
            subst isOpening
            obtain ⟨content, after, rfl, nestedContent⟩ := closes [] rest rfl
            rw [List.length_append, List.length_cons] at fits
            obtain ⟨inner, tail, rfl, nestedInner, closing⟩ :=
              inductionHypothesis after (by omega) fun front inside isText =>
                closes (Byte.openParen :: (content ++ Byte.closeParen :: front)) inside
                  (by rw [isText]; simp)
            exact ⟨_, tail, by simp, .group nestedContent nestedInner, closing⟩
          case neg =>
            by_cases isClosing : first = Byte.closeParen
            case pos =>
              exact ⟨[], first :: rest, rfl, .nil, isClosing ▸ closing_closeParen rest⟩
            case neg =>
              obtain ⟨inner, tail, rfl, nestedInner, closing⟩ :=
                inductionHypothesis rest (by omega) fun front inside isText =>
                  closes (first :: front) inside (by rw [isText]; rfl)
              exact ⟨first :: inner, tail, rfl, .byte isOpening isClosing nestedInner, closing⟩

end LittleScript.Expression
