import LittleScript.Proofs.BlankStretch
import LittleScript.Proofs.GuardedAccess
import LittleScript.Proofs.LastCommand

namespace LittleScript.Guarded

/-!
# Scanning by position within bounds

The loops with which a reader moves over a text, here over positions of the whole text and not over
what is left of it.  Every look at the text is checked, and yet each loop always has a result: it
stops where the loop over what is left stops.
-/

open Source (Blanks Cursor)

/-- The cursor at a position of a text, which may be behind its end. -/
def cursorAt (code : Text) (head : Nat) : Cursor :=
  ⟨code.drop head, head⟩

@[simp] theorem cursorAt_isDone
    (code : Text)
    (head : Nat) :
    (cursorAt code head).isDone = decide (code.length ≤ head) := by
  rw [Bool.eq_iff_iff]
  simp [Cursor.isDone, cursorAt]

/-- The byte at a position, zero behind the end. -/
def peek (code : Text) (position : Nat) : Option UInt8 :=
  if code.length ≤ position then some 0 else element code position

/-- Where a position stands: behind the end of a text, or on one of its bytes. -/
inductive Facing (code : Text) (head : Nat) : Prop where
  | done (past : code.length ≤ head) (rest : code.drop head = [])
  | on (byte : UInt8) (inside : head < code.length) (here : element code head = some byte)
      (rest : code.drop head = byte :: code.drop (head + 1))

theorem facing
    (code : Text)
    (head : Nat) :
    Facing code head := by
  by_cases past : code.length ≤ head
  · exact .done past (List.drop_eq_nil_of_le past)
  · have inside : head < code.length := Nat.lt_of_not_le past
    exact .on code[head] inside (element_of_inside inside) (List.drop_eq_getElem_cons inside)

/-- What holds behind the end and on a byte, if it does further on, holds everywhere. -/
theorem scan_induction
    (code : Text)
    {motive : Nat → Prop}
    (done : ∀ head, code.length ≤ head → code.drop head = [] → motive head)
    (on : ∀ head byte, head < code.length → element code head = some byte →
      code.drop head = byte :: code.drop (head + 1) → (∀ later, head < later → motive later) →
      motive head)
    (head : Nat) :
    motive head := by
  have upTo : ∀ left head, code.length - head ≤ left → motive head := by
    intro left
    induction left with
    | zero =>
        intro head short
        have past : code.length ≤ head := by omega
        exact done head past (List.drop_eq_nil_of_le past)
    | succ left inductionHypothesis =>
        intro head short
        cases facing code head with
        | done past rest =>
            exact done head past rest
        | on byte inside here rest =>
            exact on head byte inside here rest fun later further =>
              inductionHypothesis later (by omega)
  exact upTo _ head (Nat.le_refl _)

theorem peek_eq
    (code : Text)
    (position : Nat) :
    peek code position = some (code[position]?.getD 0) := by
  rw [peek]
  split
  case isTrue past => rw [List.getElem?_eq_none past]; rfl
  case isFalse inside =>
    have inside := Nat.lt_of_not_le inside
    rw [element_of_inside inside, List.getElem?_eq_getElem inside]
    rfl

theorem peek_done
    {code : Text}
    {head : Nat}
    (past : code.length ≤ head) :
    peek code head = some 0 :=
  if_pos past

theorem peek_on
    {code : Text}
    {head : Nat}
    {byte : UInt8}
    (inside : head < code.length)
    (here : element code head = some byte) :
    peek code head = some byte :=
  (if_neg (Nat.not_le_of_lt inside)).trans here

/-! ## Runs of bytes -/

/-- Move past the bytes that a test accepts. -/
def skipWhile (accept : UInt8 → Bool) (code : Text) (head : Nat) : Option Nat :=
  if code.length ≤ head then some head
  else do
    if accept (← element code head) then skipWhile accept code (head + 1) else some head
  termination_by code.length - head

/-- Where a run of accepted bytes ends. -/
def runEnd (accept : UInt8 → Bool) (code : Text) (head : Nat) : Nat :=
  head + ((code.drop head).takeWhile accept).length

theorem runEnd_done
    (accept : UInt8 → Bool)
    {code : Text}
    {head : Nat}
    (rest : code.drop head = []) :
    runEnd accept code head = head := by
  rw [runEnd, rest]
  rfl

theorem runEnd_on
    (accept : UInt8 → Bool)
    {code : Text}
    {head : Nat}
    {byte : UInt8}
    (rest : code.drop head = byte :: code.drop (head + 1)) :
    runEnd accept code head = if accept byte then runEnd accept code (head + 1) else head := by
  rw [runEnd, rest, List.takeWhile_cons]
  split
  · rw [runEnd, List.length_cons]
    omega
  · rfl

theorem skipWhile_eq
    (accept : UInt8 → Bool)
    (code : Text)
    (head : Nat) :
    skipWhile accept code head = some (runEnd accept code head) := by
  induction head using scan_induction code with
  | done head past rest =>
      rw [skipWhile, if_pos past, runEnd_done accept rest]
  | on head byte inside here rest inductionHypothesis =>
      rw [skipWhile, if_neg (Nat.not_le_of_lt inside), here, runEnd_on accept rest,
        inductionHypothesis (head + 1) (Nat.lt_succ_self head)]
      simp only [Option.bind_eq_bind, Option.bind_some]
      split <;> rfl

theorem drop_runEnd
    (accept : UInt8 → Bool)
    (code : Text)
    (head : Nat) :
    code.drop (runEnd accept code head) = (code.drop head).dropWhile accept := by
  rw [runEnd, ← List.drop_drop]
  have parts := List.takeWhile_append_dropWhile (p := accept) (l := code.drop head)
  have dropped := congrArg (List.drop ((code.drop head).takeWhile accept).length) parts
  rw [List.drop_left] at dropped
  exact dropped.symm

/-- A run is a slice of the text. -/
theorem slice_runEnd
    (accept : UInt8 → Bool)
    {code : Text}
    {head : Nat}
    (inside : head ≤ code.length) :
    slice code head (runEnd accept code head) = some ((code.drop head).takeWhile accept) := by
  have isPrefix := List.takeWhile_prefix (l := code.drop head) accept
  have atMost := isPrefix.length_le
  rw [List.length_drop] at atMost
  rw [runEnd, slice_of_inside (Nat.le_add_right ..) (by omega), Nat.add_sub_cancel_left,
    ← List.prefix_iff_eq_take.mp isPrefix]

/-! ## Blanks -/

/-- Whether a position stands on the mark of a block comment. -/
def marksBlock (code : Text) (head : Nat) : Option Bool := do
  return (← element code head) == Byte.hash && (← peek code (head + 1)) == Byte.hash &&
    (← peek code (head + 2)) != Byte.hash

/-- Move past a block comment; whether it ends comes with the position. -/
def blockEnd (code : Text) (head : Nat) : Option (Nat × Bool) :=
  if code.length ≤ head then some (head, false)
  else do
    if ← marksBlock code head then return (head + 2, true)
    else blockEnd code (head + 1)
  termination_by code.length - head

/--
Move past blanks, comments and line continuations; the start of a comment that never ends comes with
the position.
-/
def blanksFrom (acrossLines : Bool) (code : Text) : Nat → Nat → Option (Nat × Option Nat)
  | 0, _ => none
  | bound + 1, head =>
      if code.length ≤ head then some (head, none)
      else do
        let byte ← element code head
        if byte == Byte.hash then
          if ← marksBlock code head then
            let (after, ended) ← blockEnd code (head + 2)
            if ended then blanksFrom acrossLines code bound after else return (after, some head)
          else
            let after ← skipWhile (fun next => !Byte.isSeparator next) code head
            blanksFrom acrossLines code bound after
        else if byte == Byte.backslash && Source.isLineBreak (← peek code (head + 1)) then
          let after ← skipWhile Source.isLineBreak code (head + 1)
          blanksFrom acrossLines code bound after
        else if Byte.isSeparator byte then
          if acrossLines then blanksFrom acrossLines code bound (head + 1)
          else return (head, none)
        else if Byte.isSpace byte then blanksFrom acrossLines code bound (head + 1)
        else return (head, none)

theorem marksBlock_eq
    {code : Text}
    {head : Nat}
    (inside : head < code.length) :
    marksBlock code head = some (Source.opensBlock (code.drop head)) := by
  have isHash : ∀ found : Option UInt8,
      (found.getD 0 == Byte.hash) = (found == some Byte.hash) := by
    intro found
    cases found <;> rfl
  rw [marksBlock, element_of_inside inside, peek_eq, peek_eq, Source.opensBlock_eq]
  simp only [Option.bind_eq_bind, Option.bind_some, List.getElem?_drop, bne, isHash, Nat.add_zero,
    List.getElem?_eq_getElem inside]
  rfl

/-- A mark takes two bytes of the text. -/
theorem length_of_opensBlock
    {code : Text}
    {head : Nat}
    (opens : Source.opensBlock (code.drop head) = true) :
    head + 2 ≤ code.length := by
  rw [Source.opensBlock_eq] at opens
  simp only [Bool.and_eq_true, beq_iff_eq] at opens
  have second : 1 < (code.drop head).length := by
    obtain ⟨inside, -⟩ := List.getElem?_eq_some_iff.mp opens.1.2
    exact inside
  rw [List.length_drop] at second
  omega

/-- Inside a block comment the skipper goes on where the comment ends. -/
theorem skipFrom_block_eq
    (acrossLines : Bool)
    (start : Nat)
    (code : Text)
    (head : Nat) :
    head ≤ code.length →
    ∃ after ended, blockEnd code head = some (after, ended) ∧ head ≤ after ∧
      Source.skipFrom acrossLines (.block start) (code.drop head) head =
        if ended then Source.skipFrom acrossLines .plain (code.drop after) after
        else ⟨cursorAt code after, some start⟩ := by
  induction head using scan_induction code with
  | done head past rest =>
      intro _
      refine ⟨head, false, by rw [blockEnd, if_pos past], Nat.le_refl head, ?_⟩
      simp [rest, Source.skipFrom, cursorAt]
  | on head byte inside here rest inductionHypothesis =>
      intro _
      rw [blockEnd, if_neg (Nat.not_le_of_lt inside), marksBlock_eq inside, rest,
        Source.skipFrom_block_cons, ← rest]
      simp only [Option.bind_eq_bind, Option.bind_some]
      cases opens : Source.opensBlock (code.drop head) with
      | true =>
          refine ⟨head + 2, true, rfl, Nat.le_add_right head 2, ?_⟩
          simp only [if_true, List.tail_drop]
      | false =>
          obtain ⟨after, ended, found, further, skipped⟩ :=
            inductionHypothesis (head + 1) (Nat.lt_succ_self head) inside
          exact ⟨after, ended, found, Nat.le_of_succ_le further, skipped⟩

/-- Inside a comment the skipper goes on at the separator that ends it. -/
theorem skipFrom_comment_eq
    (acrossLines : Bool)
    (code : Text)
    (head : Nat) :
    Source.skipFrom acrossLines .comment (code.drop head) head =
      Source.skipFrom acrossLines .plain
        (code.drop (runEnd (fun next => !Byte.isSeparator next) code head))
        (runEnd (fun next => !Byte.isSeparator next) code head) := by
  induction head using scan_induction code with
  | done head past rest =>
      simp [runEnd_done _ rest, rest, Source.skipFrom]
  | on head byte inside here rest inductionHypothesis =>
      rw [runEnd_on _ rest, rest, Source.skipFrom]
      cases separates : Byte.isSeparator byte with
      | false =>
          exact inductionHypothesis (head + 1) (Nat.lt_succ_self head)
      | true =>
          have opensNothing := Source.isSeparator_facts separates
          simp only [Bool.not_true, Bool.false_eq_true, if_false, if_true]
          rw [rest, Source.skipFrom_cons _ _ _ _ _ (.inl rfl)]
          simp [opensNothing.1, opensNothing.2, separates]

/-- Behind a line continuation the skipper goes on where the line breaks end. -/
theorem skipFrom_joined_eq
    (acrossLines : Bool)
    (code : Text)
    (head : Nat) :
    Source.skipFrom acrossLines .joined (code.drop head) head =
      Source.skipFrom acrossLines .plain
        (code.drop (runEnd Source.isLineBreak code head))
        (runEnd Source.isLineBreak code head) := by
  induction head using scan_induction code with
  | done head past rest =>
      simp [runEnd_done _ rest, rest, Source.skipFrom]
  | on head byte inside here rest inductionHypothesis =>
      rw [runEnd_on _ rest]
      cases breaks : Source.isLineBreak byte with
      | true =>
          have joins := Source.isLineBreak_facts breaks
          rw [rest, Source.skipFrom_cons _ _ _ _ _ (.inr rfl), if_neg (by simp [joins.1]),
            if_neg (by simp [joins.2.1]), if_pos (by simp [breaks])]
          exact inductionHypothesis (head + 1) (Nat.lt_succ_self head)
      | false =>
          rw [if_neg (by simp), rest, Source.skipFrom_cons _ _ _ _ _ (.inr rfl),
            Source.skipFrom_cons _ _ _ _ _ (.inl rfl)]
          simp [breaks]

/-- Blanks are skipped within bounds. -/
theorem blanksFrom_eq
    (acrossLines : Bool)
    (code : Text)
    (bound : Nat) :
    ∀ head, code.length - head < bound →
      ∃ stop opened, blanksFrom acrossLines code bound head = some (stop, opened) ∧
        Source.skipFrom acrossLines .plain (code.drop head) head =
          ⟨cursorAt code stop, opened⟩ := by
  induction bound with
  | zero =>
      intro head short
      omega
  | succ bound inductionHypothesis =>
      intro head short
      rw [blanksFrom]
      cases facing code head with
      | done past rest =>
          exact ⟨head, none, if_pos past, by simp [rest, cursorAt]⟩
      | on byte inside here rest =>
          have next : code[head + 1]?.getD 0 = (code.drop (head + 1)).head?.getD 0 := by
            rw [List.head?_drop]
          have breaks : ∀ found : Option UInt8,
              Source.isLineBreak (found.getD 0) = found.any Source.isLineBreak := by
            intro found
            cases found <;> rfl
          rw [if_neg (Nat.not_le_of_lt inside), here, rest,
            Source.skipFrom_cons _ _ _ _ _ (.inl rfl), ← rest, marksBlock_eq inside, peek_eq, next]
          simp only [Option.bind_eq_bind, Option.bind_some, skipWhile_eq, breaks]
          have goesOn : ∀ after, head < after → code.length - after < bound := by omega
          split
          case isTrue isHash =>
            split
            case isTrue opens =>
              obtain ⟨after, ended, found, further, skipped⟩ :=
                skipFrom_block_eq acrossLines head code (head + 2) (length_of_opensBlock opens)
              rw [found, List.tail_drop, skipped]
              cases ended with
              | true =>
                  exact inductionHypothesis after (goesOn after (by omega))
              | false =>
                  exact ⟨after, some head, rfl, rfl⟩
            case isFalse =>
              have isComment : runEnd (fun next => !Byte.isSeparator next) code head =
                  runEnd (fun next => !Byte.isSeparator next) code (head + 1) := by
                rw [runEnd_on _ rest, eq_of_beq isHash]
                rfl
              rw [isComment, skipFrom_comment_eq]
              exact inductionHypothesis _ (goesOn _ (Nat.lt_of_lt_of_le (Nat.lt_succ_self head)
                (Nat.le_add_right ..)))
          case isFalse =>
            split
            case isTrue =>
              rw [skipFrom_joined_eq]
              exact inductionHypothesis _ (goesOn _ (Nat.lt_of_lt_of_le (Nat.lt_succ_self head)
                (Nat.le_add_right ..)))
            case isFalse =>
              have notJoined : (Source.BlankState.plain == .joined && Source.isLineBreak byte) =
                false := rfl
              simp only [notJoined, Bool.false_eq_true, if_false]
              split
              case isTrue =>
                split
                case isTrue => exact inductionHypothesis _ (goesOn _ (Nat.lt_succ_self head))
                case isFalse => exact ⟨head, none, rfl, rfl⟩
              case isFalse =>
                split
                case isTrue => exact inductionHypothesis _ (goesOn _ (Nat.lt_succ_self head))
                case isFalse => exact ⟨head, none, rfl, rfl⟩

/-! ## Brackets and quotes -/

/-- Move behind the closer that balances an opener already passed, if there is one. -/
def closing (opener closer : UInt8) (code : Text) (depth head : Nat) : Option (Option Nat) :=
  if code.length ≤ head then some none
  else do
    let byte ← element code head
    if byte == opener then closing opener closer code (depth + 1) (head + 1)
    else if byte == closer then
      if depth = 0 then return some (head + 1)
      else closing opener closer code (depth - 1) (head + 1)
    else closing opener closer code depth (head + 1)
  termination_by code.length - head

/--
Read quoted bytes up to a dollar, an opening bracket or the closing quote.  A backslash that ends
the text takes the position one byte past its end.  `literal` is in reverse.
-/
def quotedRun (quote : UInt8) (code : Text) (head : Nat) (literal : Text) : Option (Text × Nat) :=
  if code.length ≤ head then some (literal, head)
  else do
    let byte ← element code head
    if byte == Byte.dollar || byte == Byte.openBracket then return (literal, head)
    else if byte == Byte.backslash then
      if code.length ≤ head + 1 then return (literal, head + 2)
      else quotedRun quote code (head + 2) (unescape (← element code (head + 1)) :: literal)
    else if byte == quote then return (literal, head)
    else quotedRun quote code (head + 1) (byte :: literal)
  termination_by code.length - head

/-- The closer is found within bounds, and so is the text before it. -/
theorem balanced?_eq
    (opener closer : UInt8)
    (code : Text)
    (head : Nat) :
    ∀ (depth : Nat) (inside : Text),
      (closing opener closer code depth head = some none ∧
        Source.balanced? opener closer depth (code.drop head) inside = none) ∨
      ∃ stop, closing opener closer code depth head = some (some (stop + 1)) ∧
        head ≤ stop ∧ stop < code.length ∧
        Source.balanced? opener closer depth (code.drop head) inside =
          some (inside.reverse ++ (code.drop head).take (stop - head), code.drop (stop + 1)) := by
  induction head using scan_induction code with
  | done head past rest =>
      intro depth inside
      exact .inl ⟨by rw [closing, if_pos past], by rw [rest, Source.balanced?]⟩
  | on head byte within here rest inductionHypothesis =>
      intro depth inside
      have goesOn : ∀ depth,
          (closing opener closer code depth (head + 1) = some none ∧
            Source.balanced? opener closer depth (code.drop (head + 1)) (byte :: inside) = none) ∨
          ∃ stop, closing opener closer code depth (head + 1) = some (some (stop + 1)) ∧
            head ≤ stop ∧ stop < code.length ∧
            Source.balanced? opener closer depth (code.drop (head + 1)) (byte :: inside) =
              some (inside.reverse ++ (code.drop head).take (stop - head),
                code.drop (stop + 1)) := by
        intro depth
        rcases inductionHypothesis (head + 1) (Nat.lt_succ_self head) depth (byte :: inside) with
          missing | ⟨stop, found, further, ends, closed⟩
        · exact .inl missing
        · refine .inr ⟨stop, found, Nat.le_of_succ_le further, ends, ?_⟩
          have oneMore : stop - head = stop - (head + 1) + 1 := by omega
          rw [closed, rest, oneMore, List.take_succ_cons, List.reverse_cons, List.append_assoc]
          rfl
      rw [closing, if_neg (Nat.not_le_of_lt within), here]
      simp only [Option.bind_eq_bind, Option.bind_some]
      rw [rest, Source.balanced?.eq_def]
      simp only
      rw [← rest]
      split
      case isTrue => exact goesOn (depth + 1)
      case isFalse =>
        split
        case isTrue =>
          cases depth with
          | zero =>
              exact .inr ⟨head, rfl, Nat.le_refl head, within, by simp⟩
          | succ outer =>
              exact goesOn outer
        case isFalse => exact goesOn depth

/-- What brackets enclose is a slice of the text. -/
theorem enclosed_eq
    (opener closer : UInt8)
    (code : Text)
    (head : Nat) :
    (closing opener closer code 0 head = some none ∧
      Source.balanced? opener closer 0 (code.drop head) [] = none) ∨
    ∃ stop enclosed, closing opener closer code 0 head = some (some stop) ∧
      slice code head (stop - 1) = some enclosed ∧ stop = head + enclosed.length + 1 ∧
      Source.balanced? opener closer 0 (code.drop head) [] = some (enclosed, code.drop stop) := by
  rcases balanced?_eq opener closer code head 0 [] with
    missing | ⟨stop, found, ordered, inside, ends⟩
  · exact .inl missing
  · have sliced := slice_of_inside ordered (Nat.le_of_lt inside)
    have before : ((stop + 1 : Nat) : Int) - 1 = stop := by omega
    refine .inr ⟨stop + 1, (code.drop head).take (stop - head), found, before ▸ sliced, ?_, ends⟩
    rw [List.length_take, List.length_drop]
    omega

/-- Quoted bytes are read within bounds, though the position may end up one past the end. -/
theorem quotedRun_eq
    (quote : UInt8)
    (code : Text)
    (head : Nat) :
    ∀ literal : Text,
      ∃ result stop, quotedRun quote code head literal = some (result, stop) ∧
        LittleScript.quotedRun quote (code.drop head) head literal =
          (result, cursorAt code stop) := by
  induction head using scan_induction code with
  | done head past rest =>
      intro literal
      refine ⟨literal, head, by rw [quotedRun, if_pos past], ?_⟩
      rw [cursorAt, rest, LittleScript.quotedRun]
  | on head byte inside here rest inductionHypothesis =>
      intro literal
      rw [quotedRun, if_neg (Nat.not_le_of_lt inside), here]
      simp only [Option.bind_eq_bind, Option.bind_some]
      rw [rest, Source.quotedRun_cons, ← rest]
      split
      case isTrue => exact ⟨literal, head, rfl, rfl⟩
      case isFalse =>
        split
        case isTrue =>
          cases facing code (head + 1) with
          | done past restNext =>
              refine ⟨literal, head + 2, if_pos past, ?_⟩
              rw [restNext, cursorAt, List.drop_eq_nil_of_le (Nat.le_succ_of_le past)]
          | on escaped insideNext hereNext restNext =>
              rw [Int.natCast_succ] at hereNext
              rw [if_neg (Nat.not_le_of_lt insideNext), hereNext, restNext]
              exact inductionHypothesis (head + 2) (Nat.lt_add_of_pos_right (Nat.zero_lt_two)) _
        case isFalse =>
          split
          case isTrue => exact ⟨literal, head, rfl, rfl⟩
          case isFalse => exact inductionHypothesis (head + 1) (Nat.lt_succ_self head) _

end LittleScript.Guarded
