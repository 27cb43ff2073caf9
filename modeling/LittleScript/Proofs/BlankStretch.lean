import LittleScript.Proofs.Blank

namespace LittleScript.Source

/-!
# Blank stretches

`Skips` tells how a blank stretch reaches from one place of a text to another, byte by byte and
without offsets, when every comment in it is complete.  What follows a text can then be compared
with what follows a longer one: a line break behind it neither hides nor adds a comment.
-/

/-- The kind of a blank stretch: `BlankState` without where a block comment started. -/
inductive Stretch where
  | plain
  | joined
  | comment
  | block
  deriving Repr, DecidableEq

/-- Whether the rest of a stretch holds only blanks, separators and complete comments. -/
def isTriviaFrom : Stretch → Text → Bool
  | .block, [] => false
  | _, [] => true
  | .comment, byte :: rest =>
      if Byte.isSeparator byte then isTriviaFrom .plain rest else isTriviaFrom .comment rest
  | .block, byte :: rest =>
      if opensBlock (byte :: rest) then
        match rest with
        | _ :: after => isTriviaFrom .plain after
        | [] => false
      else isTriviaFrom .block rest
  | _, byte :: rest =>
      if byte == Byte.hash then
        if opensBlock (byte :: rest) then
          match rest with
          | _ :: after => isTriviaFrom .block after
          | [] => false
        else isTriviaFrom .comment rest
      else if Byte.isSeparator byte || Byte.isSpace byte then isTriviaFrom .plain rest
      else false

/-- Whether a text holds only blanks, separators and complete comments. -/
def isTrivia (text : Text) : Bool :=
  isTriviaFrom .plain text

/-- The kind of a state of the blank stretch. -/
def BlankState.stretch : BlankState → Stretch
  | .plain => .plain
  | .joined => .joined
  | .comment => .comment
  | .block _ => .block

/-- Whether a stretch is outside comments. -/
def Stretch.isOpen : Stretch → Bool
  | .plain => true
  | .joined => true
  | _ => false

/-- Whether a blank stretch ends before a text. -/
def endsStretch (stretch : Stretch) : Text → Bool
  | [] => false
  | byte :: rest =>
      byte != Byte.hash && !(byte == Byte.backslash && rest.head?.any isLineBreak) &&
        !(stretch == .joined && isLineBreak byte) &&
        (Byte.isSeparator byte || !Byte.isSpace byte)

/-- `Skips stretch text rest`: a blank stretch of this kind reaches from `text` to `rest`. -/
inductive Skips : Stretch → Text → Text → Prop where
  | ended {stretch : Stretch} :
      stretch ≠ .block → Skips stretch [] []
  | comment {byte : UInt8} {rest after : Text} :
      Byte.isSeparator byte = false → Skips .comment rest after →
      Skips .comment (byte :: rest) after
  | commentEnds {byte : UInt8} {rest : Text} :
      Byte.isSeparator byte = true → Skips .comment (byte :: rest) (byte :: rest)
  | block {byte : UInt8} {rest after : Text} :
      opensBlock (byte :: rest) = false → Skips .block rest after →
      Skips .block (byte :: rest) after
  | blockEnds {byte next : UInt8} {rest after : Text} :
      opensBlock (byte :: next :: rest) = true → Skips .plain rest after →
      Skips .block (byte :: next :: rest) after
  | opens {stretch : Stretch} {next : UInt8} {rest after : Text} :
      stretch.isOpen = true → opensBlock (Byte.hash :: next :: rest) = true →
      Skips .block rest after → Skips stretch (Byte.hash :: next :: rest) after
  | hash {stretch : Stretch} {rest after : Text} :
      stretch.isOpen = true → opensBlock (Byte.hash :: rest) = false →
      Skips .comment rest after → Skips stretch (Byte.hash :: rest) after
  | continues {stretch : Stretch} {rest after : Text} :
      stretch.isOpen = true → rest.head?.any isLineBreak = true →
      Skips .joined rest after → Skips stretch (Byte.backslash :: rest) after
  | joins {byte : UInt8} {rest after : Text} :
      isLineBreak byte = true → Skips .joined rest after → Skips .joined (byte :: rest) after
  | space {stretch : Stretch} {byte : UInt8} {rest after : Text} :
      stretch.isOpen = true → Byte.isSpace byte = true → Byte.isSeparator byte = false →
      Skips .plain rest after → Skips stretch (byte :: rest) after
  | stops {stretch : Stretch} {text : Text} :
      stretch.isOpen = true → endsStretch stretch text = true → Skips stretch text text

theorem skipFrom_comment_cons
    (byte : UInt8)
    (rest : Text)
    (offset : Nat) :
    skipFrom false .comment (byte :: rest) offset =
      if Byte.isSeparator byte then ⟨⟨byte :: rest, offset⟩, none⟩
      else skipFrom false .comment rest (offset + 1) := by
  rw [skipFrom]
  simp

theorem BlankState.isOpen_stretch
    {state : BlankState}
    (isOpen : state = .plain ∨ state = .joined) :
    state.stretch.isOpen = true := by
  rcases isOpen with rfl | rfl <;> rfl

theorem BlankState.open_of_stretch
    {state : BlankState}
    {stretch : Stretch}
    (kind : state.stretch = stretch)
    (isOpen : stretch.isOpen = true) :
    state = .plain ∨ state = .joined := by
  subst kind
  cases state <;> simp_all [BlankState.stretch, Stretch.isOpen]

/-- The same outside comments, given that it holds of shorter texts. -/
theorem skips_of_open
    {size : Nat}
    (shorter : ∀ (state : BlankState) (text : Text) (offset : Nat) (cursor : Cursor),
      text.length < size →
      skipFrom false state text offset = ⟨cursor, none⟩ →
      Skips state.stretch text cursor.rest ∧
        cursor.offset + cursor.rest.length = offset + text.length)
    {state : BlankState}
    (isOpen : state = .plain ∨ state = .joined)
    {byte : UInt8}
    {rest : Text}
    {offset : Nat}
    {cursor : Cursor}
    (small : rest.length < size)
    (skipped : skipFrom false state (byte :: rest) offset = ⟨cursor, none⟩) :
    Skips state.stretch (byte :: rest) cursor.rest ∧
      cursor.offset + cursor.rest.length = offset + (rest.length + 1) := by
  have isOpenStretch := BlankState.isOpen_stretch isOpen
  have isJoined : (state == BlankState.joined) = (state.stretch == Stretch.joined) := by
    rcases isOpen with rfl | rfl <;> rfl
  rw [skipFrom_cons _ _ _ _ _ isOpen, isJoined] at skipped
  split at skipped
  case isTrue isHash =>
    obtain rfl : byte = Byte.hash := by simpa using isHash
    split at skipped
    case isTrue opens =>
      cases rest with
      | nil =>
          simp at opens
      | cons next rest =>
          simp only [List.length_cons, List.tail_cons] at small skipped ⊢
          obtain ⟨skips, sized⟩ := shorter _ _ _ _ (by omega) skipped
          exact ⟨.opens isOpenStretch opens skips, by omega⟩
    case isFalse line =>
      obtain ⟨skips, sized⟩ := shorter _ _ _ _ small skipped
      exact ⟨.hash isOpenStretch (by simpa using line) skips, by omega⟩
  case isFalse notHash =>
    split at skipped
    case isTrue continues =>
      simp only [Bool.and_eq_true, beq_iff_eq] at continues
      obtain ⟨rfl, lineBreak⟩ := continues
      obtain ⟨skips, sized⟩ := shorter _ _ _ _ small skipped
      exact ⟨.continues isOpenStretch lineBreak skips, by omega⟩
    case isFalse noContinuation =>
      split at skipped
      case isTrue joins =>
        simp only [Bool.and_eq_true, beq_iff_eq] at joins
        obtain ⟨skips, sized⟩ := shorter _ _ _ _ small skipped
        rw [joins.1]
        exact ⟨.joins joins.2 skips, by omega⟩
      case isFalse notJoined =>
        have ends : ∀ (stop : Byte.isSeparator byte = true ∨ Byte.isSpace byte = false),
            endsStretch state.stretch (byte :: rest) = true := by
          intro stop
          rw [Bool.not_eq_true] at noContinuation notJoined
          simp only [endsStretch, noContinuation, notJoined, Bool.not_false, Bool.and_true,
            Bool.and_eq_true, bne_iff_ne, Bool.or_eq_true, Bool.not_eq_true']
          exact ⟨by simpa using notHash, stop⟩
        split at skipped
        case isTrue separator =>
          cases skipped
          exact ⟨.stops isOpenStretch (ends (.inl separator)), rfl⟩
        case isFalse notSeparator =>
          split at skipped
          case isTrue space =>
            obtain ⟨skips, sized⟩ := shorter _ _ _ _ small skipped
            exact ⟨.space isOpenStretch space (by simpa using notSeparator) skips, by omega⟩
          case isFalse notSpace =>
            cases skipped
            exact ⟨.stops isOpenStretch (ends (.inr (by simpa using notSpace))), rfl⟩

/-- What skipping blanks does when every comment is complete. -/
theorem skips_of_skipFrom
    (size : Nat) :
    ∀ (state : BlankState) (text : Text) (offset : Nat) (cursor : Cursor),
      text.length < size →
      skipFrom false state text offset = ⟨cursor, none⟩ →
      Skips state.stretch text cursor.rest ∧
        cursor.offset + cursor.rest.length = offset + text.length := by
  induction size with
  | zero =>
      intro state text offset cursor small
      omega
  | succ size inductionHypothesis =>
      intro state text offset cursor small skipped
      cases text with
      | nil =>
          cases state with
          | block start =>
              simp [skipFrom] at skipped
          | _ =>
              simp only [skipFrom, Blanks.mk.injEq, and_true] at skipped
              subst skipped
              exact ⟨.ended (by simp [BlankState.stretch]), rfl⟩
      | cons byte rest =>
          simp only [List.length_cons, Nat.add_lt_add_iff_right] at small ⊢
          cases state with
          | comment =>
              rw [skipFrom_comment_cons] at skipped
              split at skipped
              case isTrue separator =>
                cases skipped
                exact ⟨.commentEnds separator, rfl⟩
              case isFalse plain =>
                obtain ⟨skips, sized⟩ := inductionHypothesis _ _ _ _ small skipped
                exact ⟨.comment (by simpa using plain) skips, by omega⟩
          | block start =>
              rw [skipFrom_block_cons] at skipped
              cases rest with
              | nil =>
                  simp [skipFrom] at skipped
              | cons next rest =>
                  simp only [List.length_cons, List.tail_cons] at small skipped ⊢
                  split at skipped
                  case isTrue ends =>
                    obtain ⟨skips, sized⟩ := inductionHypothesis _ _ _ _ (by omega) skipped
                    exact ⟨.blockEnds ends skips, by omega⟩
                  case isFalse goes =>
                    obtain ⟨skips, sized⟩ :=
                      inductionHypothesis _ (next :: rest) _ _ small skipped
                    simp only [List.length_cons] at sized
                    exact ⟨.block (by simpa using goes) skips, by omega⟩
          | plain =>
              exact skips_of_open inductionHypothesis (.inl rfl) small skipped
          | joined =>
              exact skips_of_open inductionHypothesis (.inr rfl) small skipped

/-- A blank stretch ends at a suffix of its text. -/
theorem Skips.suffix
    {stretch : Stretch}
    {text rest : Text}
    (skips : Skips stretch text rest) :
    rest <:+ text := by
  induction skips with
  | ended _ => exact List.suffix_rfl
  | commentEnds _ => exact List.suffix_rfl
  | stops _ _ => exact List.suffix_rfl
  | comment _ _ inside => exact inside.trans (List.suffix_cons _ _)
  | block _ _ inside => exact inside.trans (List.suffix_cons _ _)
  | blockEnds _ _ inside =>
      exact inside.trans ((List.suffix_cons _ _).trans (List.suffix_cons _ _))
  | opens _ _ _ inside =>
      exact inside.trans ((List.suffix_cons _ _).trans (List.suffix_cons _ _))
  | hash _ _ _ inside => exact inside.trans (List.suffix_cons _ _)
  | continues _ _ _ inside => exact inside.trans (List.suffix_cons _ _)
  | joins _ _ inside => exact inside.trans (List.suffix_cons _ _)
  | space _ _ _ _ inside => exact inside.trans (List.suffix_cons _ _)

/-- Where a blank stretch ends, nothing is skipped. -/
theorem skipFrom_of_endsStretch
    {stretch : Stretch}
    {text : Text}
    (outside : stretch.isOpen = true)
    (ends : endsStretch stretch text = true)
    {state : BlankState}
    (offset : Nat)
    (kind : state.stretch = stretch) :
    skipFrom false state text offset = ⟨⟨text, offset⟩, none⟩ := by
  cases text with
  | nil =>
      simp [endsStretch] at ends
  | cons byte rest =>
      simp only [endsStretch, Bool.and_eq_true, Bool.not_eq_true', bne_iff_ne,
        Bool.or_eq_true] at ends
      obtain ⟨⟨⟨notHash, noContinuation⟩, notJoined⟩, stop⟩ := ends
      have sameJoined : (state == BlankState.joined) = (stretch == Stretch.joined) := by
        subst kind
        cases state <;> rfl
      rw [skipFrom_cons _ _ _ _ _ (BlankState.open_of_stretch kind outside),
        if_neg (by simp [notHash]), if_neg (by simp [noContinuation]), sameJoined,
        if_neg (by simp [notJoined])]
      rcases stop with separator | notSpace
      · simp [separator]
      · simp [notSpace]

/-- Skipping blanks where they reach from one place to another, at every offset. -/
theorem skipFrom_of_skips
    {stretch : Stretch}
    {text rest : Text}
    (skips : Skips stretch text rest) :
    ∀ (state : BlankState) (offset : Nat), state.stretch = stretch →
      skipFrom false state text offset =
        ⟨⟨rest, offset + (text.length - rest.length)⟩, none⟩ := by
  have step : ∀ {inner after : Text} (offset skipped : Nat), after <:+ inner →
      offset + skipped + (inner.length - after.length) =
        offset + (inner.length + skipped - after.length) := by
    intro inner after offset skipped suffix
    have := suffix.length_le
    omega
  induction skips with
  | ended notBlock =>
      intro state offset kind
      cases state with
      | block start => exact absurd kind.symm notBlock
      | _ => simp [skipFrom]
  | comment plain inner inside =>
      intro state offset kind
      cases state <;> simp [BlankState.stretch] at kind
      rw [skipFrom_comment_cons, if_neg (by simp [plain]), inside .comment _ rfl,
        step offset 1 inner.suffix, List.length_cons]
  | commentEnds separator =>
      intro state offset kind
      cases state <;> simp [BlankState.stretch] at kind
      rw [skipFrom_comment_cons, if_pos separator]
      simp
  | block goes inner inside =>
      intro state offset kind
      cases state <;> simp [BlankState.stretch] at kind
      rw [skipFrom_block_cons, if_neg (by simp [goes]), inside _ _ rfl, step offset 1 inner.suffix,
        List.length_cons]
  | blockEnds ends inner inside =>
      intro state offset kind
      cases state <;> simp [BlankState.stretch] at kind
      rw [skipFrom_block_cons, if_pos ends, List.tail_cons, inside _ _ rfl,
        step offset 2 inner.suffix]
      rfl
  | opens outside opens inner inside =>
      intro state offset kind
      rw [skipFrom_cons _ _ _ _ _ (BlankState.open_of_stretch kind outside),
        if_pos (by simp), if_pos opens, List.tail_cons, inside _ _ rfl,
        step offset 2 inner.suffix]
      rfl
  | hash outside line inner inside =>
      intro state offset kind
      rw [skipFrom_cons _ _ _ _ _ (BlankState.open_of_stretch kind outside), if_pos (by simp),
        if_neg (by simp [line]), inside _ _ rfl, step offset 1 inner.suffix]
      rfl
  | continues outside lineBreak inner inside =>
      intro state offset kind
      rw [skipFrom_cons _ _ _ _ _ (BlankState.open_of_stretch kind outside), if_neg (by decide),
        if_pos (by simp [lineBreak]), inside _ _ rfl, step offset 1 inner.suffix]
      rfl
  | joins lineBreak inner inside =>
      intro state offset kind
      cases state <;> simp [BlankState.stretch] at kind
      obtain ⟨notHash, notBackslash, -⟩ := isLineBreak_facts lineBreak
      rw [skipFrom_cons _ _ _ _ _ (.inr rfl), if_neg (by simp [notHash]),
        if_neg (by simp [notBackslash]), if_pos (by simp [lineBreak]), inside _ _ rfl,
        step offset 1 inner.suffix]
      rfl
  | @space _ byte _ _ outside space notSeparator inner inside =>
      intro state offset kind
      obtain ⟨notHash, notBackslash⟩ := isSpace_facts space
      have notLineBreak : isLineBreak byte = false := by
        rw [← Bool.not_eq_true]
        intro lineBreak
        simp [(isLineBreak_facts lineBreak).2.2] at notSeparator
      rw [skipFrom_cons _ _ _ _ _ (BlankState.open_of_stretch kind outside),
        if_neg (by simp [notHash]), if_neg (by simp [notBackslash]),
        if_neg (by simp [notLineBreak]), if_neg (by simp [notSeparator]), if_pos space,
        inside _ _ rfl, step offset 1 inner.suffix]
      rfl
  | stops outside ends =>
      intro state offset kind
      rw [skipFrom_of_endsStretch outside ends offset kind, Nat.sub_self, Nat.add_zero]

/-- The mark of a block comment by its first three bytes. -/
theorem opensBlock_eq
    (text : Text) :
    opensBlock text =
      (text[0]? == some Byte.hash && text[1]? == some Byte.hash && text[2]? != some Byte.hash) := by
  rw [opensBlock.eq_def]
  split
  · simp
  case h_2 rest notThird =>
    cases rest with
    | nil =>
        simp
    | cons third rest =>
        have noThird : third ≠ Byte.hash := fun isHash => notThird rest (by rw [isHash]; rfl)
        simp [noThird]
  case h_3 _ notTwo =>
    rcases text with _ | ⟨first, _ | ⟨second, rest⟩⟩
    · simp
    · simp
    · have different : ¬ (first = Byte.hash ∧ second = Byte.hash) := by
        rintro ⟨rfl, rfl⟩
        exact notTwo rest rfl
      simp only [List.getElem?_cons_zero, List.getElem?_cons_succ]
      grind

/-- A line comment stays one when more follows its first two bytes. -/
theorem opensBlock_append_of_not
    {byte : UInt8}
    {rest : Text}
    (opens : opensBlock (byte :: rest) = false)
    (isMore : rest ≠ [])
    (more : Text) :
    opensBlock (byte :: (rest ++ more)) = false := by
  rw [opensBlock_eq] at opens ⊢
  cases rest with
  | nil =>
      exact absurd rfl isMore
  | cons next after =>
      cases after with
      | nil => simp_all
      | cons third after => simpa using opens

/-- A comment of one kind stays so when it has three bytes. -/
theorem opensBlock_append
    (byte : UInt8)
    {rest : Text}
    (isMore : rest.tail ≠ [])
    (more : Text) :
    opensBlock (byte :: (rest ++ more)) = opensBlock (byte :: rest) := by
  rcases rest with _ | ⟨next, _ | ⟨third, rest⟩⟩
  · exact absurd rfl isMore
  · exact absurd rfl isMore
  · simp [opensBlock_eq]

/-- A newline behind a text does not change whether it starts with the mark. -/
theorem opensBlock_append_newline
    (text more : Text) :
    opensBlock (text ++ Byte.newline :: more) = opensBlock text := by
  have different : (Byte.newline == Byte.hash) = false := by decide
  rw [opensBlock_eq, opensBlock_eq]
  have stillOpen : (some Byte.newline != some Byte.hash) = (none != some Byte.hash) := by decide
  rcases text with _ | ⟨first, _ | ⟨second, _ | ⟨third, rest⟩⟩⟩
  · simp [different]
  · simp [different]
  · simp [stillOpen]
  · simp

/-- A byte that does not end a text does not end a suffix of it. -/
theorem getLast?_ne_of_suffix
    {text rest : Text}
    {last : UInt8}
    (suffix : rest <:+ text)
    (different : text.getLast? ≠ some last) :
    rest.getLast? ≠ some last := by
  obtain ⟨before, rfl⟩ := suffix
  intro same
  apply different
  rw [List.getLast?_append, same]
  rfl

theorem getLast?_ne_of_cons
    {byte last : UInt8}
    {rest : Text}
    (different : (byte :: rest).getLast? ≠ some last) :
    rest.getLast? ≠ some last :=
  getLast?_ne_of_suffix (List.suffix_cons byte rest) different

/-- A blank stretch that ends inside a text ends there as well when a line break follows. -/
theorem Skips.append_inside
    {stretch : Stretch}
    {text rest : Text}
    (skips : Skips stretch text rest)
    (inside : rest ≠ [])
    (noBackslash : text.getLast? ≠ some Byte.backslash)
    (more : Text) :
    Skips stretch (text ++ Byte.newline :: more) (rest ++ Byte.newline :: more) := by
  induction skips with
  | ended _ =>
      exact absurd rfl inside
  | comment plain _ inductionHypothesis =>
      exact .comment plain (inductionHypothesis inside (getLast?_ne_of_cons noBackslash))
  | commentEnds separator =>
      exact .commentEnds separator
  | block goes _ inductionHypothesis =>
      refine .block ?_ (inductionHypothesis inside (getLast?_ne_of_cons noBackslash))
      exact (opensBlock_append_newline (_ :: _) more).trans goes
  | blockEnds ends _ inductionHypothesis =>
      refine .blockEnds ?_
        (inductionHypothesis inside (getLast?_ne_of_cons (getLast?_ne_of_cons noBackslash)))
      exact (opensBlock_append_newline (_ :: _ :: _) more).trans ends
  | opens outside opens _ inductionHypothesis =>
      refine .opens outside ?_
        (inductionHypothesis inside (getLast?_ne_of_cons (getLast?_ne_of_cons noBackslash)))
      exact (opensBlock_append_newline (_ :: _ :: _) more).trans opens
  | hash outside line _ inductionHypothesis =>
      refine .hash outside ?_ (inductionHypothesis inside (getLast?_ne_of_cons noBackslash))
      exact (opensBlock_append_newline (_ :: _) more).trans line
  | @continues _ rest _ outside lineBreak _ inductionHypothesis =>
      refine .continues outside ?_ (inductionHypothesis inside (getLast?_ne_of_cons noBackslash))
      cases rest with
      | nil => simp at lineBreak
      | cons next rest => exact lineBreak
  | joins lineBreak _ inductionHypothesis =>
      exact .joins lineBreak (inductionHypothesis inside (getLast?_ne_of_cons noBackslash))
  | space outside space notSeparator _ inductionHypothesis =>
      exact .space outside space notSeparator
        (inductionHypothesis inside (getLast?_ne_of_cons noBackslash))
  | @stops stretch text outside ends =>
      refine .stops outside ?_
      cases text with
      | nil => simp [endsStretch] at ends
      | cons byte rest =>
          cases rest with
          | cons next rest => exact ends
          | nil =>
              have notBackslash : byte ≠ Byte.backslash := by simpa using noBackslash
              simpa [endsStretch, notBackslash] using ends

/-- A blank stretch that reaches the end of a text goes on in what a line break begins. -/
theorem Skips.append_end
    {stretch : Stretch}
    {text rest : Text}
    (skips : Skips stretch text rest)
    (atEnd : rest = []) :
    ∃ last, last ≠ .block ∧ ∀ more after,
      Skips last (Byte.newline :: more) after →
        Skips stretch (text ++ Byte.newline :: more) after := by
  induction skips with
  | @ended stretch notBlock =>
      exact ⟨stretch, notBlock, fun _ _ goesOn => goesOn⟩
  | comment plain _ inductionHypothesis =>
      obtain ⟨last, notBlock, goesOn⟩ := inductionHypothesis atEnd
      exact ⟨last, notBlock, fun more after skips => .comment plain (goesOn more after skips)⟩
  | commentEnds _ =>
      cases atEnd
  | block goes _ inductionHypothesis =>
      obtain ⟨last, notBlock, goesOn⟩ := inductionHypothesis atEnd
      refine ⟨last, notBlock, fun more after skips => .block ?_ (goesOn more after skips)⟩
      exact (opensBlock_append_newline (_ :: _) more).trans goes
  | blockEnds ends _ inductionHypothesis =>
      obtain ⟨last, notBlock, goesOn⟩ := inductionHypothesis atEnd
      refine ⟨last, notBlock, fun more after skips => .blockEnds ?_ (goesOn more after skips)⟩
      exact (opensBlock_append_newline (_ :: _ :: _) more).trans ends
  | opens outside opens _ inductionHypothesis =>
      obtain ⟨last, notBlock, goesOn⟩ := inductionHypothesis atEnd
      refine ⟨last, notBlock, fun more after skips => .opens outside ?_ (goesOn more after skips)⟩
      exact (opensBlock_append_newline (_ :: _ :: _) more).trans opens
  | hash outside line _ inductionHypothesis =>
      obtain ⟨last, notBlock, goesOn⟩ := inductionHypothesis atEnd
      refine ⟨last, notBlock, fun more after skips => .hash outside ?_ (goesOn more after skips)⟩
      exact (opensBlock_append_newline (_ :: _) more).trans line
  | @continues _ rest _ outside lineBreak _ inductionHypothesis =>
      obtain ⟨last, notBlock, goesOn⟩ := inductionHypothesis atEnd
      refine ⟨last, notBlock, fun more after skips =>
        .continues outside ?_ (goesOn more after skips)⟩
      cases rest with
      | nil => simp at lineBreak
      | cons next rest => exact lineBreak
  | joins lineBreak _ inductionHypothesis =>
      obtain ⟨last, notBlock, goesOn⟩ := inductionHypothesis atEnd
      exact ⟨last, notBlock, fun more after skips => .joins lineBreak (goesOn more after skips)⟩
  | space outside space notSeparator _ inductionHypothesis =>
      obtain ⟨last, notBlock, goesOn⟩ := inductionHypothesis atEnd
      exact ⟨last, notBlock, fun more after skips =>
        .space outside space notSeparator (goesOn more after skips)⟩
  | stops outside ends =>
      subst atEnd
      simp [endsStretch] at ends

/-- Whether a text is empty or starts with a separator. -/
def atBreak : Text → Bool
  | [] => true
  | byte :: _ => Byte.isSeparator byte

/-- There are no blanks before a separator. -/
theorem skips_of_atBreak
    {text : Text}
    (isAtBreak : atBreak text = true) :
    Skips .plain text text := by
  cases text with
  | nil =>
      exact .ended (by simp)
  | cons byte rest =>
      obtain ⟨notHash, notBackslash⟩ := isSeparator_facts isAtBreak
      refine .stops rfl ?_
      simp only [atBreak] at isAtBreak
      simp [endsStretch, notHash, notBackslash, isAtBreak]

/-! ## Trivia -/

theorem isTriviaFrom_joined
    (text : Text) :
    isTriviaFrom .joined text = isTriviaFrom .plain text := by
  cases text with
  | nil => rfl
  | cons byte rest => cases rest <;> rw [isTriviaFrom.eq_def, isTriviaFrom.eq_def .plain]

theorem isTriviaFrom_block_cons
    (byte : UInt8)
    (rest : Text) :
    isTriviaFrom .block (byte :: rest) =
      if opensBlock (byte :: rest) then isTriviaFrom .plain rest.tail
      else isTriviaFrom .block rest := by
  cases rest with
  | nil => simp [isTriviaFrom]
  | cons next after => rw [isTriviaFrom]; rfl

theorem isTrivia_cons
    (byte : UInt8)
    (rest : Text) :
    isTriviaFrom .plain (byte :: rest) =
      if byte == Byte.hash then
        if opensBlock (byte :: rest) then isTriviaFrom .block rest.tail
        else isTriviaFrom .comment rest
      else if Byte.isSeparator byte || Byte.isSpace byte then isTriviaFrom .plain rest
      else false := by
  cases rest with
  | nil => simp [isTriviaFrom]
  | cons next after => rw [isTriviaFrom.eq_def]; rfl

/--
Outside comments, trivia without the blanks at its start is trivia that starts with a separator,
given that this holds of shorter texts.
-/
theorem skips_of_isTrivia_open
    {size : Nat}
    (shorter : ∀ (stretch : Stretch) (text : Text), text.length < size →
      isTriviaFrom stretch text = true →
      ∃ after, Skips stretch text after ∧ isTrivia after = true ∧ atBreak after = true)
    {stretch : Stretch}
    {byte : UInt8}
    {rest : Text}
    (isOpen : stretch.isOpen = true)
    (small : rest.length < size)
    (trivia : isTriviaFrom .plain (byte :: rest) = true) :
    ∃ after, Skips stretch (byte :: rest) after ∧ isTrivia after = true ∧
      atBreak after = true := by
  have whole := trivia
  rw [isTrivia_cons] at trivia
  split at trivia
  case isTrue isHash =>
    obtain rfl : byte = Byte.hash := by simpa using isHash
    split at trivia
    case isTrue opens =>
      cases rest with
      | nil => simp at opens
      | cons next rest =>
          obtain ⟨after, skips, found⟩ :=
            shorter .block rest (by simp at small; omega) trivia
          exact ⟨after, .opens isOpen opens skips, found⟩
    case isFalse line =>
      obtain ⟨after, skips, found⟩ := shorter .comment rest small trivia
      exact ⟨after, .hash isOpen (by simpa using line) skips, found⟩
  case isFalse notHash =>
    split at trivia
    case isTrue blank =>
      by_cases joins : (stretch == .joined && isLineBreak byte) = true
      · simp only [Bool.and_eq_true, beq_iff_eq] at joins
        obtain ⟨rfl, lineBreak⟩ := joins
        obtain ⟨after, skips, found⟩ := shorter .joined rest small
          (by rwa [isTriviaFrom_joined])
        exact ⟨after, .joins lineBreak skips, found⟩
      · cases separator : Byte.isSeparator byte with
        | true =>
            obtain ⟨_, notBackslash⟩ := isSeparator_facts separator
            refine ⟨byte :: rest, .stops isOpen ?_, whole, separator⟩
            rw [Bool.not_eq_true] at joins
            simpa [endsStretch, notBackslash, joins, separator] using notHash
        | false =>
            rw [separator, Bool.false_or] at blank
            obtain ⟨after, skips, found⟩ := shorter .plain rest small trivia
            exact ⟨after, .space isOpen blank separator skips, found⟩
    case isFalse =>
      cases trivia

/-- Trivia without the blanks at its start is trivia that starts with a separator. -/
theorem skips_of_isTriviaFrom
    (size : Nat) :
    ∀ (stretch : Stretch) (text : Text), text.length < size →
      isTriviaFrom stretch text = true →
      ∃ after, Skips stretch text after ∧ isTrivia after = true ∧ atBreak after = true := by
  induction size with
  | zero =>
      intro stretch text small
      omega
  | succ size inductionHypothesis =>
      intro stretch text small trivia
      cases text with
      | nil =>
          refine ⟨[], .ended ?_, rfl, rfl⟩
          rintro rfl
          cases trivia
      | cons byte rest =>
          simp only [List.length_cons, Nat.add_lt_add_iff_right] at small
          cases stretch with
          | plain =>
              exact skips_of_isTrivia_open inductionHypothesis rfl small trivia
          | joined =>
              rw [isTriviaFrom_joined] at trivia
              exact skips_of_isTrivia_open inductionHypothesis rfl small trivia
          | comment =>
              rw [isTriviaFrom] at trivia
              split at trivia
              case isTrue separator =>
                obtain ⟨notHash, _⟩ := isSeparator_facts separator
                refine ⟨byte :: rest, .commentEnds separator, ?_, separator⟩
                rw [isTrivia, isTrivia_cons]
                simp [notHash, separator, trivia]
              case isFalse inside =>
                obtain ⟨after, skips, found⟩ := inductionHypothesis .comment rest small trivia
                exact ⟨after, .comment (by simpa using inside) skips, found⟩
          | block =>
              rw [isTriviaFrom_block_cons] at trivia
              split at trivia
              case isTrue ends =>
                cases rest with
                | nil => simp at ends
                | cons next rest =>
                    obtain ⟨after, skips, found⟩ :=
                      inductionHypothesis .plain rest (by simp at small; omega) trivia
                    exact ⟨after, .blockEnds ends skips, found⟩
              case isFalse goes =>
                obtain ⟨after, skips, found⟩ := inductionHypothesis .block rest small trivia
                exact ⟨after, .block (by simpa using goes) skips, found⟩

/-- Trivia stays trivia without the separators at its start. -/
theorem isTrivia_dropWhile
    {text : Text}
    (trivia : isTrivia text = true) :
    isTrivia (text.dropWhile Byte.isSeparator) = true := by
  induction text with
  | nil =>
      rfl
  | cons byte rest inductionHypothesis =>
      rw [List.dropWhile_cons]
      split
      case isTrue separator =>
        obtain ⟨notHash, _⟩ := isSeparator_facts separator
        rw [isTrivia, isTrivia_cons] at trivia
        exact inductionHypothesis (by simpa [isTrivia, notHash, separator] using trivia)
      case isFalse =>
        exact trivia

/-- A text of blanks only, followed by a line break and trivia, leads on to trivia. -/
theorem Skips.append_trivia
    {text more : Text}
    (skips : Skips .plain text [])
    (trivia : isTrivia more = true) :
    ∃ after, Skips .plain (text ++ Byte.newline :: more) after ∧ after <:+ Byte.newline :: more ∧
      isTrivia after = true ∧ atBreak after = true := by
  have broken : isTrivia (Byte.newline :: more) = true := by
    rw [isTrivia, isTrivia_cons]
    exact trivia
  obtain ⟨last, notBlock, goesOn⟩ := skips.append_end rfl
  cases last with
  | plain =>
      exact ⟨_, goesOn _ _ (skips_of_atBreak rfl), List.suffix_rfl, broken, rfl⟩
  | comment =>
      exact ⟨_, goesOn _ _ (.commentEnds rfl), List.suffix_rfl, broken, rfl⟩
  | block =>
      exact absurd rfl notBlock
  | joined =>
      obtain ⟨after, skipsMore, isTrivia, atBreak⟩ :=
        skips_of_isTriviaFrom _ .joined more (Nat.lt_succ_self _) (by rwa [isTriviaFrom_joined])
      have skipsAll : Skips .joined (Byte.newline :: more) after := .joins rfl skipsMore
      exact ⟨after, goesOn _ _ skipsAll, skipsAll.suffix, isTrivia, atBreak⟩

end LittleScript.Source
